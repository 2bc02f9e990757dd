import Pane.Patch
import Pane.Proofs.Style.Registration
import Pane.Proofs.Tree.Spots

/-!
# Class tokens of a built tree

A tree that is built over a registry shows hashes in place of classes.  The registry grows while the
tree is built, for each inline style is registered on the way, so what is shown early has to be
still there at the end: nothing that a run registers is lost again (`Registry.Reaches.inLayer`), and
the index of classes does not change during the walk (`Registry.Inlined.hashesOf_eq`).

* `Registry.Inlined` — what becomes of a registry during a walk.
* `Registry.Origin` — where a token of an element comes from: a class that has a rule, or the
  element's own inline style.
* `Styled` — what is said of one node: no raw style, and every class token listed in a layer and
  with an origin.
* **`styled_buildTree`** — every node of a built tree is so.
* **`class_tokens_are_written_hashes`** — class tokens are hashes of rules that are written out.
-/

namespace Pane

open Style (Registry)

namespace Style.Registry

variable {r r₀ r₁ r₂ : Registry}

/-! ## The registry during a walk -/

/-- What may become of a registry during a walk: inline styles are registered. -/
inductive Inlined (r : Registry) : Registry → Prop
  | refl : Inlined r r
  | inline {r' : Registry} (body : String) (before : Inlined r r') :
      Inlined r (r'.registerInline body).2

theorem Inlined.trans (h : Inlined r₀ r₁) (h' : Inlined r₁ r₂) : Inlined r₀ r₂ := by
  induction h' with
  | refl => exact h
  | inline body _ ih => exact .inline body ih

theorem Inlined.reaches (h : Inlined r₀ r₁) : Reaches r₀ r₁ := by
  induction h with
  | refl => exact .refl
  | inline body _ ih => exact ih.trans (reaches_registerInline _ body)

/-- Inline styles are in no class's index. -/
theorem Inlined.hashesOf_eq (h : Inlined r₀ r₁) (name : String) :
    r₁.hashesOf name = r₀.hashesOf name := by
  induction h with
  | refl => rfl
  | @inline r' body _ ih =>
    rw [← ih, registerInline_eq]
    split
    · rfl
    · simp [hashesOf_place]

theorem inLayer_registerInline {body hash : String} (h : (r.registerInline body).1 = some hash) :
    (r.registerInline body).2.InLayer none hash := by
  rw [registerInline_eq] at h ⊢
  split at h
  · exact absurd h (by simp)
  · next hds =>
    rw [if_neg hds, inLayer_place]
    exact .inr ⟨rfl, (Option.some.inj h).symm⟩

/-- Where a class token of an element comes from: a class of the element that has a rule, or the
inline style of the element. -/
inductive Origin (r : Registry) (attrs : Attributes) (token : String) : Prop
  | ofClass (value name : String) (hvalue : attributeOf? attrs "class" = some value)
      (hname : name ∈ Text.tokens value) (hhash : token ∈ r.hashesOf name)
  | ofStyle (body : String) (r' : Registry) (hbody : attributeOf? attrs "style" = some body)
      (hr' : Inlined r r') (hhash : (r'.registerInline body).1 = some token)

/-- What is asked of a class token of an element. -/
def Shown (r₀ r : Registry) (attrs : Attributes) (token : String) : Prop :=
  (∃ width, r.InLayer width token) ∧ Origin r₀ attrs token

theorem Shown.mono (hr : Inlined r₁ r₂) {attrs : Attributes} {token : String}
    (h : Shown r₀ r₁ attrs token) : Shown r₀ r₂ attrs token :=
  ⟨h.1.imp fun _ => hr.reaches.inLayer, h.2⟩

end Style.Registry

open Style.Registry

/-! ## One element -/

variable {r₀ r : Registry} {w : Walk}

/-- The tokens of the classes of an element are listed, and stem from these. -/
theorem shown_of_classes (h₀ : Inlined r₀ r) (hs : r₀.Sound) {attrs : Attributes} {token : String}
    (ht : token ∈ ((attributeOf? attrs "class").map (Styling.registry r).resolve).getD []) :
    Shown r₀ r attrs token := by
  cases hv : attributeOf? attrs "class" with
  | none => simp [hv] at ht
  | some value =>
    simp only [hv, Option.map_some, Option.getD_some, Styling.resolve, Registry.resolve,
      Text.mem_dedup, List.mem_flatMap] at ht
    obtain ⟨name, hname, hhash⟩ := ht
    exact ⟨(h₀.reaches.sound hs).indexed name token hhash,
      .ofClass value name hv hname (h₀.hashesOf_eq name ▸ hhash)⟩

theorem shown_of_classTokens (hw : w.styling = .registry r) (h₀ : Inlined r₀ r) (hs : r₀.Sound)
    (attrs : Attributes) :
    ∃ r', (w.classTokens attrs).2.styling = .registry r' ∧ Inlined r r' ∧
      ∀ token ∈ (w.classTokens attrs).1, Shown r₀ r' attrs token := by
  have hclasses : ∀ token ∈ ((attributeOf? attrs "class").map (Styling.registry r).resolve).getD [],
      Shown r₀ r attrs token := fun _ => shown_of_classes h₀ hs
  rw [Walk.classTokens, hw]
  cases hb : attributeOf? attrs "style" with
  | none => exact ⟨r, hw, .refl, hclasses⟩
  | some body =>
    dsimp only
    split
    · exact ⟨r, hw, .refl, hclasses⟩
    · have hr : Inlined r (r.registerInline body).2 := .inline body .refl
      cases hi : (r.registerInline body).1 with
      | none =>
        refine ⟨(r.registerInline body).2, ?_, hr, fun token ht => ?_⟩
        · simp [Styling.inline, hi]
        · simp only [Styling.inline, hi] at ht
          exact (hclasses token ht).mono hr
      | some hash =>
        have hnew : Shown r₀ (r.registerInline body).2 attrs hash :=
          ⟨⟨none, inLayer_registerInline hi⟩, .ofStyle body r hb h₀ hi⟩
        refine ⟨(r.registerInline body).2, ?_, hr, fun token ht => ?_⟩
        · simp [Styling.inline, hi]
        · simp only [Styling.inline, hi] at ht
          split at ht
          · exact (hclasses token ht).mono hr
          · rcases List.mem_append.1 ht with ht | ht
            · exact (hclasses token ht).mono hr
            · exact List.mem_singleton.1 ht ▸ hnew

/-! ## Every node -/

/-- What is said of one node: it has no raw style, and each of its class tokens is listed in a layer
and stems from one of some elements. -/
structure Styled (r₀ r : Registry) (elements : List Element) (n : Node) : Prop where
  noStyle : n.attrs.get? "style" = none
  shown : ∀ token ∈ n.classTokens, ∃ e ∈ elements, Shown r₀ r e.attrs token

theorem Styled.mono {r' : Registry} (hr : Inlined r r') {es : List Element} {n : Node}
    (h : Styled r₀ r es n) : Styled r₀ r' es n :=
  ⟨h.noStyle, fun token ht =>
    let ⟨e, he, hshown⟩ := h.shown token ht
    ⟨e, he, hshown.mono hr⟩⟩

/-- The class tokens of a node are those it was built with, if they hold no space. -/
theorem classTokens_keptAttributes {attrs : Attributes} {classes : List String} {n : Node}
    (hn : n.attrs = keptAttributes attrs classes)
    (h : ∀ t ∈ classes, Text.IsToken Text.isSpace t.toList) : n.classTokens = classes := by
  rw [Node.classTokens, hn, get?_class_keptAttributes]
  by_cases hc : classes = []
  · simp [hc]
  · have hw : ∀ w ∈ classes.map String.toList, Text.IsToken Text.isSpace w := by simpa using h
    simp only [hc, if_false]
    rw [Text.toList_joinTokens, Text.filter_pieces_joinWords (by decide) hw, List.map_map]
    simp [Function.comp_def]

theorem get?_style_keptAttributes (attrs : Attributes) (classes : List String) :
    (keptAttributes attrs classes).get? "style" = none := by
  rw [← Option.not_isSome_iff_eq_none, ← mem_keys_iff]
  intro h
  exact absurd (isAllowedAttribute_of_mem_keys h) (by decide)

/-- What the pass makes of a spot is styled: an element shows its tokens, and a run of text has no
classes and leaves the registry as it is. -/
theorem styled_visit (hw : w.styling = .registry r) (h₀ : Inlined r₀ r) (hs : r₀.Sound) (p : Policy)
    (s : Spot) {es : List Element}
    (hes : ∀ tag attrs, s = .element tag attrs → ∃ e ∈ es, e.tag = tag ∧ e.attrs = attrs) :
    ∃ r', (s.visit p w).2.styling = .registry r' ∧ Inlined r r' ∧
      Styled r₀ r' es (s.visit p w).1 := by
  cases s with
  | text around before content =>
    obtain ⟨id, hnode⟩ := exists_visit_text p around before content w
    rw [hnode]
    refine ⟨r, ((Spot.visit_spec p _ w).styling).trans hw, .refl, rfl, fun token ht => ?_⟩
    exact absurd ht (by simp [Node.classTokens, Node.ofText, Table.empty, Table.get?])
  | element tag attrs =>
    obtain ⟨e, he, rfl, rfl⟩ := hes tag attrs rfl
    obtain ⟨r', hstyling, hr, hshown⟩ := shown_of_classTokens hw h₀ hs e.attrs
    have hattrs := buildSelf_attrs p e.tag e.attrs w
    have hsound := (h₀.trans hr).reaches.sound hs
    have htokens : (buildSelf p e.tag e.attrs w).1.classTokens = (w.classTokens e.attrs).1 := by
      refine classTokens_keptAttributes hattrs fun t ht => ?_
      obtain ⟨width, hl⟩ := (hshown t ht).1
      exact hsound.isToken (hsound.layered width t hl)
    rw [Spot.visit]
    refine ⟨r', (buildSelf_styling ..).trans hstyling, hr, ?_, fun token ht => ?_⟩
    · rw [hattrs]
      exact get?_style_keptAttributes _ _
    · exact ⟨e, he, hshown token (htokens ▸ ht)⟩

/-- **Every node that a pass makes is styled.**  By induction on the spots; the nodes made first
stay styled because the registry only grows behind them. -/
theorem styled_visitAll (hs : r₀.Sound) (p : Policy) {es : List Element} :
    ∀ (ss : List Spot) (w : Walk) (r : Registry),
      (∀ s ∈ ss, ∀ tag attrs, s = .element tag attrs → ∃ e ∈ es, e.tag = tag ∧ e.attrs = attrs) →
      w.styling = .registry r → Inlined r₀ r →
      ∃ r', (visitAll p ss w).2.styling = .registry r' ∧ Inlined r r' ∧
        ∀ n ∈ (visitAll p ss w).1, Styled r₀ r' es n
  | [], _, r, _, hw, _ => ⟨r, hw, .refl, fun _ hn => absurd hn List.not_mem_nil⟩
  | s :: ss, w, r, hes, hw, h₀ => by
      obtain ⟨hhere, hthere⟩ := List.forall_mem_cons.1 hes
      obtain ⟨r₁, hw₁, hr₁, hself⟩ := styled_visit hw h₀ hs p s hhere
      obtain ⟨r₂, hw₂, hr₂, hbehind⟩ := styled_visitAll hs p ss _ r₁ hthere hw₁ (h₀.trans hr₁)
      exact ⟨r₂, hw₂, hr₁.trans hr₂, List.forall_mem_cons.2 ⟨hself.mono hr₂, hbehind⟩⟩

/-- **Every node of a built tree is styled**, by the elements that were kept. -/
theorem styled_buildTree (hs : r.Sound) (p : Policy) (forest : List Dom) :
    ∃ r', (buildTree p (.registry r) forest).2.styling = .registry r' ∧ Inlined r r' ∧
      ∀ n ∈ preorderAll (buildTree p (.registry r) forest).1,
        Styled r r' (keptElements forest) n := by
  obtain ⟨r', hstyling, hr, hmade⟩ := styled_visitAll hs p (spots [] [] forest)
    { styling := .registry r } r (fun s hmem tag attrs he => exists_keptElement (he ▸ hmem))
    rfl .refl
  rw [visitAll_spots] at hstyling hmade
  refine ⟨r', hstyling, hr, fun n hn => ?_⟩
  obtain ⟨hstyle, hshown⟩ := hmade n.withoutChildren (List.mem_map_of_mem hn)
  exact ⟨hstyle, hshown⟩

/-! ## The tree of a pane -/

theorem reaches_ingestAll (r : Registry) (texts : List String) : Reaches r (ingestAll r texts) := by
  rw [ingestAll]
  induction texts generalizing r with
  | nil => exact .refl
  | cons text texts ih => exact (r.reaches_ingest text).trans (ih _)

/-- **Class tokens are hashes of rules that are written out.**  Whatever was registered before the
walk, no node of the tree has a raw `style`, and each of its class tokens is a hash in the registry
behind the walk, whose written form has a rule for the class of that hash alone.  The token stems
from a class that the author gave to an element and that had a rule, or from the inline style of an
element; so a class without a rule leaves nothing. -/
theorem class_tokens_are_written_hashes (p : Policy) (percentUnits : Bool) (texts : List String)
    (forest : List Dom) :
    let r := ingestAll (Registry.empty percentUnits) texts
    ∃ r', (buildTree p (.registry r) forest).2.styling = .registry r' ∧
      ∀ n ∈ preorderAll (buildTree p (.registry r) forest).1,
        n.attrs.get? "style" = none ∧
          ∀ token ∈ n.classTokens,
            (∃ e width, r'.rules.get? token = some e ∧
              (width, ⟨["." ++ token ++ e.suffix], e.declarations⟩) ∈ r'.compiledSheet.rules ∧
              (Style.Rule.mk ["." ++ token ++ e.suffix] e.declarations).chars <:+:
                r'.compiled.toList) ∧
            ∃ source ∈ keptElements forest, Origin r source.attrs token := by
  intro r
  have hs : r.Sound := (reaches_ingestAll _ texts).sound (sound_empty percentUnits)
  obtain ⟨r', hstyling, hr, hstyled⟩ := styled_buildTree hs p forest
  refine ⟨r', hstyling, fun n hn => ⟨(hstyled n hn).noStyle, fun token ht => ?_⟩⟩
  obtain ⟨source, hsource, ⟨width, hlisted⟩, horigin⟩ := (hstyled n hn).shown token ht
  have hsome := (hr.reaches.sound hs).layered width token hlisted
  obtain ⟨e, he⟩ := Option.isSome_iff_exists.1 hsome
  have hrule : (width, e.rule token) ∈ r'.compiledSheet.rules :=
    mem_rules_compiledSheet_iff.2 ⟨token, e, hlisted, he, rfl⟩
  exact ⟨⟨e, width, he, hrule, Style.infix_render_of_mem_rules hrule⟩, source, hsource, horigin⟩

end Pane
