import Pane.Proofs.Markup.Fragment
import Pane.Proofs.Tree.Released

/-!
# Reading a compiled pane back

The tree of a pane is written as markup, and the markup is read back without a registry.  Identities
are meant to survive this.  Whether they do is a matter of what the parser makes of the markup: an
identity is kept if it arrives at its place, and a place at which none arrives gets another one.

**What arrives.**  `arrivals_forestDoms`: what was written arrives, each identity at its place.

**When identities survive.**  **`identities_survive_iff_they_arrive`** — exactly if they arrive and
no element is taken for a run of text, and at least if the tree nests by the rules of markup.

The rules of markup do not always agree with the tree.  In a text area there are no comments, so the
one that carries an identity becomes part of the text: `marker_in_textarea_is_read_as_text`.
-/

namespace Pane

open Markup

/-! ## What arrives of a tree that was written -/

theorem lower_of_isTagName {tag : String} (hname : isTagName tag = true)
    (hplain : isPlainName tag = true) : Text.lower tag = tag := by
  simp only [isTagName, Bool.and_eq_true, decide_eq_true_eq] at hname
  have hmap : tag.toList.map Char.toLower =
      tag.toList.map fun c => (withoutNull c).toLower := by
    apply List.map_congr_left
    intro c hc
    rw [withoutNull, if_neg (ne_null_of_isPlainName hplain c hc)]
  rw [Text.lower, hmap]
  exact hname.2

theorem isSkipped_of_fits {above : List String} {tag : String} (h : fits above tag = true) :
    isSkipped tag = false := by
  have hall : ∀ name ∈ skippedTags, startRole name ∈ [StartRole.head, .raw] := by decide
  refine decide_eq_false fun hmem => ?_
  have hrole := hall tag hmem
  rw [fits] at h
  cases hs : startRole tag <;> simp [hs] at h hrole

theorem trimmed?_of_isAttributeIdentity {id : Option String}
    (h : id.all isAttributeIdentity = true) : id.bind Text.trimmed? = id := by
  cases id with
  | none => rfl
  | some i =>
    simp only [Option.all_some, isAttributeIdentity, Bool.and_eq_true, decide_eq_true_eq] at h
    exact h.2

theorem trimmed?_of_isMarkerIdentity {id : String} (h : isMarkerIdentity id = true) :
    Text.trimmed? id = some id := by
  simp only [isMarkerIdentity, Bool.and_eq_true, decide_eq_true_eq] at h
  exact h.2

/-- What arrives at a run of text that was written is its identity. -/
theorem arrivals_ofText {editable behindText : Bool} {above : List String} {content : String}
    {id : Option String} (hne : content ≠ "") (hnormal : normalizeText content = content)
    (hid : id.isSome = editable)
    (hnest : (Node.ofText content id).nests above behindText = true) (rest : List Dom) :
    arrivals true editable none ((Node.ofText content id).doms ++ rest) =
        id.toList.map some ++ arrivals true editable none rest ∧
      fillsText ((Node.ofText content id).doms ++ rest) = fillsText rest := by
  subst hid
  rw [Node.ofText, Node.nests, Bool.and_eq_true] at hnest
  cases id with
  | none =>
    refine ⟨?_, by simp [Node.ofText, Node.doms, fillsText, keptElements, Dom.keptElements]⟩
    simp only [Node.ofText, Node.doms, Option.toList_none, List.map_nil, List.nil_append,
      List.cons_append]
    rw [arrivals]
    simp
  | some i =>
    have htrimmed : Text.trimmed? i = some i := trimmed?_of_isMarkerIdentity hnest.2
    have hmarker := identityOf?_markerContent htrimmed
    refine ⟨?_, by simp [Node.ofText, Node.doms, fillsText, keptElements, Dom.keptElements]⟩
    simp only [Node.ofText, Node.doms, Option.toList_some, List.map_cons, List.map_nil,
      List.cons_append, List.nil_append]
    rw [arrivals, hmarker, arrivals]
    simp [hnormal, hne, htrimmed]

/-- What arrives at an element that was written is its identity, and then what arrives below it. -/
theorem arrivals_element (editable : Bool) {above : List String} {tag : String}
    {attrs : Table String} {id : Option String}
    (hattrs : ∀ key ∈ attrs.keys, isAllowedAttribute key = true)
    (hid : isIdentifiedTag tag = true → id.isSome = true)
    (hnest : elementNests above tag attrs id = true) (below rest : List Dom) :
    arrivals true editable none (.element tag (writtenAttributes attrs id) below :: rest) =
        id.toList.map some ++ arrivals true (editable || isTextEditable tag) none below ++
          arrivals true editable none rest ∧
      fillsText (.element tag (writtenAttributes attrs id) below :: rest) =
        (fillsText below || fillsText rest) := by
  have hread := readable_of_elementNests hattrs hnest
  obtain ⟨htext, hfits, -, -, -, -, hattribute⟩ := of_elementNests hnest
  have hskip := isSkipped_of_fits hfits
  have hlower := lower_of_isTagName hread.name (isPlainName_of_isNoScript hread.noScript)
  have htrimmed := trimmed?_of_isAttributeIdentity hattribute
  have hembedded := embeddedIdentity?_writtenAttributes hattrs htrimmed
  have htakes := takesIdentity_writtenAttributes hattrs htrimmed hid
  constructor
  · rw [arrivals, Dom.arrivals, hlower, hskip, htakes, hembedded, htrimmed]
    cases id <;> simp
  · rw [fillsText_kept (by rw [hlower]; exact hskip), hlower]
    simp [htext]

/-- **The identities of a tree arrive**, each at its place. -/
theorem arrivals_forestDoms : ∀ (ns : List Node) {editable behindText : Bool}
    {above : List String}, BuiltAll editable ns → forestNests above behindText ns = true →
    arrivals true editable none (forestDoms ns) = (identities ns).map some ∧
      fillsText (forestDoms ns) = false
  | [], editable, _, _, _, _ => by
      rw [forestDoms, arrivals]
      exact ⟨rfl, rfl⟩
  | ⟨tag, attrs, text, children, id⟩ :: ns, editable, behindText, above, hbuilt, hnests => by
      cases hbuilt with
      | cons hn hns =>
        rw [forestNests, Bool.and_eq_true] at hnests
        obtain ⟨hnest, hnests⟩ := hnests
        obtain ⟨hrest, hfills⟩ := arrivals_forestDoms ns hns hnests
        rw [forestDoms, identities_cons]
        cases hn with
        | text hne hnormal hid =>
          obtain ⟨harrive, hfill⟩ := arrivals_ofText hne hnormal hid hnest (forestDoms ns)
          exact ⟨harrive.trans (by simp [hrest, identities, preorderAll]), hfill.trans hfills⟩
        | element hattrs hid hchildren =>
          rw [Node.nests, Bool.and_eq_true] at hnest
          have hbelow : arrivals true (editable || isTextEditable tag) none (forestDoms children) =
              (identities children).map some ∧ fillsText (forestDoms children) = false := by
            by_cases hv : isVoid tag = true
            · rw [if_pos hv] at hnest
              obtain rfl := List.isEmpty_iff.1 hnest.2
              rw [forestDoms, arrivals]
              exact ⟨rfl, rfl⟩
            · rw [if_neg hv] at hnest
              exact arrivals_forestDoms children hchildren hnest.2
          obtain ⟨harrive, hfill⟩ := arrivals_element editable hattrs hid hnest.1
            (forestDoms children) (forestDoms ns)
          refine ⟨harrive.trans ?_, hfill.trans (by simp [hbelow.2, hfills])⟩
          simp [hbelow.1, hrest]

/-! ## Panes -/

theorem built_of_compile {fresh : Nat → String} {o : Options} {markup expanded authored : String}
    {pane : Payload} (h : compile fresh o markup expanded authored = .ok pane) :
    BuiltAll false pane.tree ∧ checkTree pane.tree = .ok () := by
  obtain ⟨forest, _, -, rfl, hcheck, rfl⟩ := compile_eq_ok_iff.1 h
  rw [payloadOf_tree]
  exact ⟨builtAll_buildForest _ forest false none _, hcheck⟩

/-- Identities that arrive, no two the same and none empty, are those of the tree that is read
back, unless an element is taken for a run of text. -/
theorem rehydrate_of_arrivals {markup : String} {forest : List Dom} {ids : List String}
    (hread : readFragment markup = .ok forest) (hfills : fillsText forest = false)
    (hnodup : ids.Nodup) (hempty : "" ∉ ids)
    (harrive : arrivals true false none forest = ids.map some) (fresh : Nat → String) :
    ∃ result, rehydrate fresh markup = .ok result ∧ identities result.1 = ids := by
  have hids := identities_of_arrivals hnodup harrive fresh
  have hrules := (keepsRules_buildForest ⟨fresh, true⟩ forest false none
    { styling := .verbatim }).2 hfills
  have hcheck := (checkTree_eq_ok_iff (buildTree ⟨fresh, true⟩ .verbatim forest).1).2
    ⟨hrules, hids.symm ▸ hnodup, hids.symm ▸ hempty⟩
  exact ⟨_, rehydrate_eq_ok_iff.2 ⟨forest, hread, hcheck, rfl⟩, hids⟩

/-- **Which identities survive.**  A pane is written as markup and read back, with a supply that
makes none of its identities.  This succeeds and gives the same identities in the same order exactly
if they arrive in what the parser makes of the markup, each at its place, and no element there is
taken for a run of text.  And with any supply it does so if the tree nests by the rules of
markup. -/
theorem identities_survive_iff_they_arrive {fresh fresh' : Nat → String} {o : Options}
    {markup expanded authored : String} {pane : Payload}
    (hpane : compile fresh o markup expanded authored = .ok pane) :
    ((∀ k, fresh' k ∉ identities pane.tree) →
      ((∃ result, rehydrate fresh' (serialize pane.tree) = .ok result ∧
          identities result.1 = identities pane.tree) ↔
        ∃ forest, readFragment (serialize pane.tree) = .ok forest ∧ fillsText forest = false ∧
          arrivals true false none forest = (identities pane.tree).map some)) ∧
    (forestNests wrappers false pane.tree = true →
      ∃ result, rehydrate fresh' (serialize pane.tree) = .ok result ∧
        identities result.1 = identities pane.tree) := by
  obtain ⟨hbuilt, hcheck⟩ := built_of_compile hpane
  obtain ⟨-, hnodup, hempty⟩ := (checkTree_eq_ok_iff pane.tree).1 hcheck
  constructor
  · intro hfresh
    constructor
    · rintro ⟨result, hresult, hids⟩
      obtain ⟨forest, hread, hcheck', rfl⟩ := rehydrate_eq_ok_iff.1 hresult
      have hrules := ((checkTree_eq_ok_iff _).1 hcheck').1
      exact ⟨forest, hread, (keepsRules_buildForest ⟨fresh', true⟩ forest false none _).1 hrules,
        arrivals_of_identities hfresh hids⟩
    · rintro ⟨forest, hread, hfills, harrive⟩
      exact rehydrate_of_arrivals hread hfills hnodup hempty harrive fresh'
  · intro hnests
    obtain ⟨harrive, hfills⟩ := arrivals_forestDoms pane.tree hbuilt hnests
    exact rehydrate_of_arrivals (readFragment_serialize hbuilt hnests) hfills hnodup hempty harrive
      fresh'

theorem exists_ok_of_map {ε α β : Type} {x : Except ε α} {f : α → β} {b : β}
    (h : x.toOption.map f = some b) : ∃ a, x = .ok a ∧ f a = b := by
  obtain ⟨a, ha, hb⟩ := Option.map_eq_some_iff.1 h
  exact ⟨a, eq_ok_of_toOption ha, hb⟩

/-- A paragraph with a link in it keeps its four identities. -/
theorem paragraph_keeps_identities :
    ∃ pane, compile (fun k => String.ofList (List.replicate (k + 1) 'n')) {}
        "<p>To <a href=/b>all</a></p>" "" "" = .ok pane ∧
      identities pane.tree = ["n", "nn", "nnn", "nnnn"] ∧
      (∃ result, rehydrate (fun k => String.ofList (List.replicate (k + 1) 'm'))
          (serialize pane.tree) = .ok result ∧ identities result.1 = identities pane.tree) ∧
      ∃ forest, readFragment (serialize pane.tree) = .ok forest ∧ fillsText forest = false ∧
        arrivals true false none forest = (identities pane.tree).map some := by
  obtain ⟨pane, hpane, hpair⟩ := exists_ok_of_map
    (show (compile (fun k => String.ofList (List.replicate (k + 1) 'n')) {}
        "<p>To <a href=/b>all</a></p>" "" "").toOption.map
          (fun pane => (identities pane.tree, forestNests wrappers false pane.tree)) =
        some (["n", "nn", "nnn", "nnnn"], true) by decide +kernel)
  obtain ⟨hids, hnests⟩ := Prod.mk.inj hpair
  have hfresh : ∀ k, String.ofList (List.replicate (k + 1) 'm') ∉ identities pane.tree := by
    intro k hmem
    have hfirst : ∀ id ∈ ["n", "nn", "nnn", "nnnn"], id.toList.head? ≠ some 'm' := by decide
    exact hfirst _ (hids ▸ hmem) (by simp [List.replicate_succ])
  obtain ⟨hexactly, hsurvive⟩ := identities_survive_iff_they_arrive hpane
  exact ⟨pane, hpane, hids, hsurvive hnests, (hexactly hfresh).1 (hsurvive hnests)⟩

/-- The identity of text in a text area is lost: the comment that carries it is read as text, and
the text gets a new identity. -/
theorem marker_in_textarea_is_read_as_text :
    ∃ pane, compile (fun k => String.ofList (List.replicate (k + 1) 'n')) {}
        "<p><textarea>hi</textarea></p>" "" "" = .ok pane ∧
      identities pane.tree = ["n", "nn"] ∧
      (∃ result, rehydrate (fun k => String.ofList (List.replicate (k + 1) 'm'))
          (serialize pane.tree) = .ok result ∧ identities result.1 = ["n", "m"]) ∧
      ¬∃ result, rehydrate (fun k => String.ofList (List.replicate (k + 1) 'm'))
          (serialize pane.tree) = .ok result ∧ identities result.1 = identities pane.tree := by
  obtain ⟨pane, hpane, hpair⟩ := exists_ok_of_map
    (show (compile (fun k => String.ofList (List.replicate (k + 1) 'n')) {}
        "<p><textarea>hi</textarea></p>" "" "").toOption.map
          (fun pane => (identities pane.tree, serialize pane.tree)) =
        some (["n", "nn"], "<p data-node-id=\"n\"><textarea><!--nid:nn-->hi</textarea></p>")
      by decide +kernel)
  obtain ⟨hids, hwritten⟩ := Prod.mk.inj hpair
  obtain ⟨result, hresult, hread⟩ := exists_ok_of_map
    (show (rehydrate (fun k => String.ofList (List.replicate (k + 1) 'm'))
        "<p data-node-id=\"n\"><textarea><!--nid:nn-->hi</textarea></p>").toOption.map
          (fun result => identities result.1) = some ["n", "m"] by decide +kernel)
  rw [← hwritten] at hresult
  refine ⟨pane, hpane, hids, ⟨result, hresult, hread⟩, fun ⟨result', hresult', hsame⟩ => ?_⟩
  obtain rfl : result' = result := Except.ok.inj (hresult'.symm.trans hresult)
  simp [hread, hids] at hsame

end Pane
