import Pane.Proofs.Style.Runs
import Pane.Proofs.Text.Cuts
import Pane.Proofs.Tree.ClassTokens
import Pane.Proofs.Tree.Written

/-!
# Canonical trees

What the builder makes of markup is in a form that it does not change again.  Tags are in lower
case, the class attribute is made of distinct tokens, and identities have no space at their ends.
Together with `BuiltAll` this is all that is needed to build the tree a second time.

* `isClassValue` — class attributes as the builder makes them.
* `Node.Canonical` — what is said of a node.
* `Styling.Sound` — a registry that holds together, or none.
* **`canonical_buildTree`** — every node of a built tree is canonical.
-/

namespace Pane

open Style (Registry)

/-! ## Class attributes -/

/-- Whether a class attribute is made of distinct tokens, at least one, a single space apart. -/
def isClassValue (value : String) : Bool :=
  value ≠ "" && Text.joinTokens (Text.dedup (Text.tokens value)) = value

theorem joinTokens_ne_empty {ts : List String} (hne : ts ≠ [])
    (h : ∀ t ∈ ts, Text.IsToken Text.isAsciiSpace t.toList) : Text.joinTokens ts ≠ "" := by
  intro he
  have htokens := Text.tokens_joinTokens h
  rw [he] at htokens
  exact hne htokens.symm

/-- Distinct tokens make a class attribute. -/
theorem isClassValue_joinTokens {ts : List String} (hne : ts ≠ []) (hnodup : ts.Nodup)
    (h : ∀ t ∈ ts, Text.IsToken Text.isAsciiSpace t.toList) :
    isClassValue (Text.joinTokens ts) = true := by
  simp only [isClassValue, Bool.and_eq_true, decide_eq_true_eq]
  refine ⟨joinTokens_ne_empty hne h, ?_⟩
  rw [Text.tokens_joinTokens h, Text.dedup_eq_self hnodup]

/-- The tokens of a class attribute, put together, are the attribute. -/
theorem joinTokens_of_isClassValue {value : String} (h : isClassValue value = true) :
    Text.dedup (Text.tokens value) ≠ [] ∧
      Text.joinTokens (Text.dedup (Text.tokens value)) = value := by
  simp only [isClassValue, Bool.and_eq_true, decide_eq_true_eq] at h
  refine ⟨fun hnil => ?_, h.2⟩
  have hempty := h.2
  rw [hnil] at hempty
  exact h.1 hempty.symm

/-! ## Canonical nodes -/

/-- What is said of a node: as an element it has a tag in lower case that is not skipped, its class
attribute is one that the builder makes, and its identity has no space at its ends. -/
structure Node.Canonical (n : Node) : Prop where
  lower : n.text = none → Text.lower n.tag = n.tag
  kept : n.text = none → isSkipped n.tag = false
  classes : ∀ value, n.attrs.get? "class" = some value → isClassValue value = true
  identity : n.id.bind Text.trimmed? = n.id

theorem lower_lower (s : String) : Text.lower (Text.lower s) = Text.lower s := by
  rw [Text.lower, Text.lower, String.toList_ofList, List.map_map]
  exact congrArg String.ofList (List.map_congr_left fun c _ => Text.toLower_toLower c)

/-- A run of text is canonical if its identity has no space at its ends. -/
theorem canonical_ofText {content : String} {id : Option String}
    (hid : id.bind Text.trimmed? = id) :
    (Node.ofText content id).Canonical where
  lower h := by cases h
  kept h := by cases h
  classes value h := by cases h
  identity := hid

/-! ## Class tokens -/

/-- What a styling may be: a registry that holds together, or none. -/
def Styling.Sound : Styling → Prop
  | .registry r => r.Sound
  | .verbatim => True

variable {p : Policy} {w : Walk}

theorem nodup_classTokens (w : Walk) (attrs : Attributes) : (w.classTokens attrs).1.Nodup := by
  have hresolve : ∀ value, (w.styling.resolve value).Nodup := by
    intro value
    cases w.styling with
    | registry r => exact Text.nodup_dedup _
    | verbatim => exact Text.nodup_dedup _
  have hclasses : (((attributeOf? attrs "class").map w.styling.resolve).getD []).Nodup := by
    cases attributeOf? attrs "class" with
    | none => exact List.nodup_nil
    | some value => exact hresolve value
  rw [Walk.classTokens]
  split
  · split
    · exact hclasses
    · split
      · dsimp only
        split
        · exact hclasses
        · next hnew =>
          refine List.nodup_append.2 ⟨hclasses, List.pairwise_singleton .., ?_⟩
          rintro t ht t' ht' rfl
          exact hnew (List.mem_singleton.1 ht' ▸ ht)
      · exact hclasses
  · exact hclasses

/-- Class tokens hold no white space, and a sound styling stays sound. -/
theorem isToken_classTokens (hw : w.styling.Sound) (attrs : Attributes) :
    (∀ t ∈ (w.classTokens attrs).1, Text.IsToken Text.isAsciiSpace t.toList) ∧
      (w.classTokens attrs).2.styling.Sound := by
  cases hs : w.styling with
  | verbatim =>
    refine ⟨fun t ht => ?_, by rw [classTokens_verbatim hs, hs]; trivial⟩
    rw [fst_classTokens_verbatim hs] at ht
    cases hv : attributeOf? attrs "class" with
    | none => simp [hv] at ht
    | some value =>
      rw [hv, Option.map_some, Option.getD_some, Text.mem_dedup] at ht
      exact Text.isToken_of_mem_tokens ht
  | registry r =>
    rw [hs] at hw
    obtain ⟨r', hr', hinlined, hshown⟩ := shown_of_classTokens hs .refl hw attrs
    have hsound : r'.Sound := hinlined.reaches.sound hw
    refine ⟨fun t ht => ?_, by rw [hr']; exact hsound⟩
    obtain ⟨width, hlayer⟩ := (hshown t ht).1
    obtain ⟨hne, hspace⟩ := hsound.isToken (hsound.layered width t hlayer)
    refine ⟨hne, fun c hc => ?_⟩
    rw [Bool.eq_false_iff]
    intro hascii
    have hc' := hspace c hc
    rw [Text.isSpace_of_isAsciiSpace hascii] at hc'
    exact Bool.noConfusion hc'

/-! ## Built trees -/

/-- An identity that is given has no space at its ends, if none that is minted has. -/
theorem trimmed?_identify (hfresh : ∀ k, Text.trimmed? (p.fresh k) = some (p.fresh k)) (w : Walk)
    (arriving : Option String) :
    Text.trimmed? (w.identify p arriving).1 = some (w.identify p arriving).1 := by
  rw [Walk.identify]
  split
  · next id hid =>
    split
    · exact hfresh _
    · obtain ⟨raw, -, hraw⟩ := Option.bind_eq_some_iff.1 hid
      exact trimmed?_of_trimmed? hraw
  · exact hfresh _

/-- Elements that are kept have a tag in lower case that is not skipped. -/
theorem tag_of_mem_keptElements : ∀ (forest : List Dom), ∀ e ∈ keptElements forest,
    Text.lower e.tag = e.tag ∧ isSkipped e.tag = false
  | [], e, he => by simp [keptElements] at he
  | .comment _ :: rest, e, he => by
      rw [keptElements, Dom.keptElements, List.nil_append] at he
      exact tag_of_mem_keptElements rest e he
  | .text _ :: rest, e, he => by
      rw [keptElements, Dom.keptElements, List.nil_append] at he
      exact tag_of_mem_keptElements rest e he
  | .element name attrs children :: rest, e, he => by
      rw [keptElements, Dom.keptElements, List.mem_append] at he
      rcases he with he | he
      · split at he
        · exact absurd he List.not_mem_nil
        · next hkept =>
          rcases List.mem_cons.1 he with rfl | he
          · exact ⟨lower_lower name, Bool.eq_false_iff.2 hkept⟩
          · exact tag_of_mem_keptElements children e he
      · exact tag_of_mem_keptElements rest e he

/-- What the pass makes of an element. -/
theorem canonical_buildSelf (hfresh : ∀ k, Text.trimmed? (p.fresh k) = some (p.fresh k))
    (hw : w.styling.Sound) {tag : String} (hlower : Text.lower tag = tag)
    (hkept : isSkipped tag = false) (attrs : Attributes) :
    (buildSelf p tag attrs w).1.Canonical ∧ (buildSelf p tag attrs w).2.styling.Sound := by
  obtain ⟨htoken, hsound⟩ := isToken_classTokens hw attrs
  refine ⟨⟨fun _ => ?_, fun _ => ?_, fun value hvalue => ?_, ?_⟩, ?_⟩
  · rw [buildSelf_tag, hlower]
  · rw [buildSelf_tag, hkept]
  · rw [buildSelf_attrs, get?_class_keptAttributes] at hvalue
    split at hvalue
    · cases hvalue
    · next hne =>
      obtain rfl := Option.some.inj hvalue
      exact isClassValue_joinTokens hne (nodup_classTokens w attrs) htoken
  · cases h : w.identifies p tag attrs with
    | true =>
      rw [buildSelf_of_identifies p _ attrs w h]
      exact trimmed?_identify hfresh _ _
    | false =>
      rw [buildSelf_of_not_identifies p _ attrs w h]
      rfl
  · rw [buildSelf_styling]
    exact hsound

/-- What the pass makes of a run of text. -/
theorem canonical_visit_text (hfresh : ∀ k, Text.trimmed? (p.fresh k) = some (p.fresh k))
    (around : List String) (before : List Dom) (content : String) (w : Walk) :
    (Spot.visit p w (.text around before content)).1.Canonical := by
  rw [Spot.visit]
  split
  · exact canonical_ofText (trimmed?_identify hfresh w (markerBefore before))
  · exact canonical_ofText rfl

/-- **Every node that a pass makes is canonical**, if minted identities have no space at their ends.
By induction on the spots; the styling stays sound. -/
theorem canonical_visitAll (hfresh : ∀ k, Text.trimmed? (p.fresh k) = some (p.fresh k)) :
    ∀ (ss : List Spot) (w : Walk),
      (∀ s ∈ ss, ∀ tag attrs, s = .element tag attrs →
        Text.lower tag = tag ∧ isSkipped tag = false) →
      w.styling.Sound → ∀ n ∈ (visitAll p ss w).1, n.Canonical
  | [], _, _, _, _, hn => absurd hn List.not_mem_nil
  | s :: ss, w, htags, hw, n, hn => by
      obtain ⟨hhere, hthere⟩ := List.forall_mem_cons.1 htags
      have hself : (s.visit p w).1.Canonical ∧ (s.visit p w).2.styling.Sound := by
        cases s with
        | element tag attrs =>
          obtain ⟨hlower, hkept⟩ := hhere tag attrs rfl
          exact canonical_buildSelf hfresh hw hlower hkept attrs
        | text around before content =>
          refine ⟨canonical_visit_text hfresh around before content w, ?_⟩
          rw [(Spot.visit_spec p _ w).styling]
          exact hw
      rcases List.mem_cons.1 hn with rfl | hn
      · exact hself.1
      · exact canonical_visitAll hfresh ss _ hthere hself.2 n hn

/-- **Every node of a built tree is canonical**, if minted identities have no space at their
ends. -/
theorem canonical_buildTree (hfresh : ∀ k, Text.trimmed? (p.fresh k) = some (p.fresh k))
    {styling : Styling} (hsound : styling.Sound) (forest : List Dom) :
    ∀ n ∈ preorderAll (buildTree p styling forest).1, n.Canonical := by
  have hmade := canonical_visitAll hfresh (spots [] [] forest) { styling := styling }
    (fun s hs tag attrs he => by
      obtain ⟨e, hmem, rfl, rfl⟩ := exists_keptElement (he ▸ hs)
      exact tag_of_mem_keptElements forest e hmem) hsound
  rw [visitAll_spots] at hmade
  intro n hn
  obtain ⟨hlower, hkept, hclasses, hidentity⟩ :=
    hmade n.withoutChildren (List.mem_map_of_mem hn)
  exact ⟨hlower, hkept, hclasses, hidentity⟩

end Pane
