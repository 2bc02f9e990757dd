import Pane.Proofs.Tree.Canonical
import Pane.Proofs.Tree.Entries
import Pane.Proofs.Tree.Released

/-!
# Building a tree from what was written of it

A canonical tree is built again from the forest that it is written as: its attributes are kept, its
class tokens are resolved to themselves, and each identity arrives at its place while it is still
free.  Nothing is minted, and every element whose attributes tell an asset is recorded under its
identity.

* `Node.ownAsset?`, `Walk.accept` — what is recorded of a node that comes with its identity.
* **`buildForest_forestDoms`** — the tree, and the state behind it.
* **`get?_assets_foldl_accept`** — the assets that are found afterwards.
* **`rebuilding_inverts_writing`** — for every tree that the builder makes of any forest.
-/

namespace Pane

open Markup
open Style (Registry)

/-! ## Nodes that come with their identities -/

/-- The asset that a node is told to be by its own tag and attributes. -/
def Node.ownAsset? (n : Node) : Option Asset :=
  Asset.extract? n.tag (writtenAttributes n.attrs n.id) [] fun _ => none

/-- The state of a walk behind a node that came with its identity, children not counted. -/
def Walk.accept (w : Walk) (n : Node) : Walk :=
  match n.id with
  | some id => { w with taken := id :: w.taken }.record n.ownAsset? id
  | none => w

section accept

variable (w : Walk) (n : Node) (ns : List Node)

theorem styling_accept : (w.accept n).styling = w.styling := by
  rw [Walk.accept]
  split <;> rfl

theorem minted_accept : (w.accept n).minted = w.minted := by
  rw [Walk.accept]
  split <;> rfl

/-- The identity of an accepted node is taken. -/
theorem taken_accept : (w.accept n).taken = n.id.toList.reverse ++ w.taken := by
  rw [Walk.accept]
  split
  · next id hid => rw [hid]; rfl
  · next hid => rw [hid]; rfl

theorem styling_foldl_accept : (ns.foldl Walk.accept w).styling = w.styling := by
  induction ns generalizing w with
  | nil => rfl
  | cons n ns ih => rw [List.foldl_cons, ih, styling_accept]

theorem minted_foldl_accept : (ns.foldl Walk.accept w).minted = w.minted := by
  induction ns generalizing w with
  | nil => rfl
  | cons n ns ih => rw [List.foldl_cons, ih, minted_accept]

/-- The identities of accepted nodes are taken, the last one first. -/
theorem taken_foldl_accept :
    (ns.foldl Walk.accept w).taken = (ns.filterMap Node.id).reverse ++ w.taken := by
  induction ns generalizing w with
  | nil => rfl
  | cons n ns ih =>
    rw [List.foldl_cons, ih, taken_accept, List.filterMap_cons]
    cases n.id <;> simp

end accept

/-- An accepted node is on record if it is an asset, and nothing else changes. -/
theorem get?_assets_accept (w : Walk) (n : Node) (id : String) :
    (w.accept n).assets.get? id =
      if n.id = some id then n.ownAsset?.or (w.assets.get? id) else w.assets.get? id := by
  rw [Walk.accept]
  cases hi : n.id with
  | none => rfl
  | some i =>
    simp only [Walk.record, Option.some.injEq]
    cases n.ownAsset? with
    | none => simp
    | some a =>
      simp only [Table.get?_insert, Option.some_or, @eq_comm _ id]

/-- The node of some nodes that has an identity. -/
def nodeOf? (ns : List Node) (id : String) : Option Node := ns.find? fun n => n.id = some id

/-- No node is found under an identity that none has. -/
theorem nodeOf?_eq_none {ns : List Node} {id : String} (h : id ∉ ns.filterMap Node.id) :
    nodeOf? ns id = none := by
  refine List.find?_eq_none.2 fun n hn => ?_
  rw [decide_eq_true_eq]
  exact fun hi => h (List.mem_filterMap.2 ⟨n, hn, hi⟩)

/-- Where identities differ, a node is found under its own. -/
theorem nodeOf?_of_mem {ns : List Node} (hnodup : (ns.filterMap Node.id).Nodup) {n : Node}
    (hn : n ∈ ns) {id : String} (hid : n.id = some id) : nodeOf? ns id = some n := by
  rw [nodeOf?, ← List.head?_filter, filter_id_eq_singleton hnodup hn hid]
  rfl

/-- **What is found under an identity** behind nodes with distinct identities: the asset of the node
that has it, and else what was found before. -/
theorem get?_assets_foldl_accept {ns : List Node} (hnodup : (ns.filterMap Node.id).Nodup)
    (w : Walk) (id : String) :
    (ns.foldl Walk.accept w).assets.get? id =
      ((nodeOf? ns id).bind Node.ownAsset?).or (w.assets.get? id) := by
  induction ns generalizing w with
  | nil => rfl
  | cons n ns ih =>
    have hrest : (ns.filterMap Node.id).Nodup := by
      rw [List.filterMap_cons] at hnodup
      split at hnodup
      · exact hnodup
      · exact (List.nodup_cons.1 hnodup).2
    rw [List.foldl_cons, ih hrest, get?_assets_accept, nodeOf?, nodeOf?, List.find?_cons]
    by_cases hi : n.id = some id
    · have hnone : nodeOf? ns id = none := by
        rw [List.filterMap_cons, hi] at hnodup
        exact nodeOf?_eq_none (List.nodup_cons.1 hnodup).1
      rw [nodeOf?] at hnone
      rw [if_pos hi, hnone, decide_eq_true hi]
      rfl
    · rw [if_neg hi, decide_eq_false hi]

/-! ## What was written of a node -/

variable {fresh : Nat → String} {w : Walk}

/-- The attributes that were written are kept. -/
theorem keptAttributes_writtenAttributes {attrs : Table String} (id : Option String)
    (hattrs : ∀ key ∈ attrs.keys, isAllowedAttribute key = true)
    (hclass : ∀ value, attrs.get? "class" = some value → isClassValue value = true)
    (hw : w.styling = .verbatim) :
    keptAttributes (writtenAttributes attrs id) (w.classTokens (writtenAttributes attrs id)).1 =
      attrs := by
  have hlookup := attributeOf?_writtenAttributes id hattrs
  have hclasses : attributeOf? (writtenAttributes attrs id) "class" = attrs.get? "class" :=
    (hlookup "class").trans (if_neg (by decide))
  refine Table.ext_get? fun name => ?_
  rw [get?_keptAttributes, fst_classTokens_verbatim hw, hclasses]
  split
  · next he =>
    subst he
    cases hv : attrs.get? "class" with
    | none => rfl
    | some value =>
      obtain ⟨hne, hjoin⟩ := joinTokens_of_isClassValue (hclass value hv)
      rw [Option.map_some, Option.getD_some, if_neg hne, hjoin]
  · split
    · next hallowed =>
      have hne : name ≠ identityAttribute := by
        rintro rfl
        rw [not_allowed_identityAttribute] at hallowed
        exact Bool.noConfusion hallowed
      rw [Table.lookup_reverse (nodup_writtenAttributes id hattrs)]
      exact (hlookup name).trans (if_neg hne)
    · next hallowed =>
      exact (get?_eq_none_of_not_allowed hattrs (Bool.eq_false_iff.2 hallowed)).symm

/-- An identity that arrives and is free is given. -/
theorem identify_free {p : Policy} {id : String} (htrim : Text.trimmed? id = some id)
    (hfree : id ∉ w.taken) : w.identify p (some id) = (id, { w with taken := id :: w.taken }) := by
  rw [Walk.identify, Option.bind_some, htrim]
  exact if_neg hfree

/-- An element is built as it was, without its children. -/
theorem buildSelf_writtenAttributes (fresh : Nat → String) {n : Node} (hw : w.styling = .verbatim)
    (hattrs : ∀ key ∈ n.attrs.keys, isAllowedAttribute key = true) (hn : n.Canonical)
    (hid : isIdentifiedTag n.tag = true → n.id.isSome = true)
    (hfree : ∀ id, n.id = some id → id ∉ w.taken) :
    buildSelf ⟨fresh, true⟩ n.tag (writtenAttributes n.attrs n.id) w =
      (⟨n.tag, n.attrs, none, [], n.id⟩, w.accept n) := by
  have htakes := (identifies_verbatim hw ⟨fresh, true⟩ n.tag (writtenAttributes n.attrs n.id)).trans
    (takesIdentity_writtenAttributes hattrs hn.identity hid)
  have hkept := keptAttributes_writtenAttributes n.id hattrs hn.classes hw
  have hstate := classTokens_verbatim hw (writtenAttributes n.attrs n.id)
  have hembedded := embeddedIdentity?_writtenAttributes hattrs hn.identity
  have htrim := hn.identity
  cases hi : n.id with
  | none =>
    rw [hi] at htakes hkept hstate
    rw [buildSelf_of_not_identifies _ _ _ _ htakes, hkept, hstate, Walk.accept, hi]
  | some id =>
    rw [hi] at htakes hkept hstate hembedded htrim
    have hgive := identify_free (p := ⟨fresh, true⟩) htrim (hfree id hi)
    rw [buildSelf_of_identifies _ _ _ _ htakes]
    simp only [hkept, hstate, hembedded, hgive, assetOf?_verbatim hw]
    rw [Walk.accept, hi, Node.ownAsset?, hi]

/-- By themselves only pictures, links and buttons tell an asset. -/
theorem ownAsset?_eq_none {n : Node} (htag : n.tag ∉ ["img", "a", "button"])
    (hattrs : ∀ key ∈ n.attrs.keys, isAllowedAttribute key = true) : n.ownAsset? = none :=
  extract?_eq_none htag (attributeOf?_style_writtenAttributes n.id hattrs)

/-- A run of text is no asset. -/
theorem ownAsset?_ofText (content : String) (id : Option String) :
    (Node.ofText content id).ownAsset? = none := by
  have htag : Node.textTag ∉ ["img", "a", "button"] := by decide
  exact ownAsset?_eq_none htag fun key hkey => absurd hkey List.not_mem_nil

/-- A run of text is built as it was. -/
theorem buildForest_ofText {editable : Bool} {content : String} {id : Option String}
    (hne : content ≠ "") (hnormal : normalizeText content = content) (hid : id.isSome = editable)
    (htrim : id.bind Text.trimmed? = id) (hfree : ∀ i, id = some i → i ∉ w.taken)
    (rest : List Dom) :
    buildForest ⟨fresh, true⟩ editable none ((Node.ofText content id).doms ++ rest) w =
      let behind := buildForest ⟨fresh, true⟩ editable none rest (w.accept (Node.ofText content id))
      (Node.ofText content id :: behind.1, behind.2) := by
  subst hid
  cases id with
  | none =>
    show buildForest _ _ none (.text content :: rest) w = _
    rw [buildForest, buildText, hnormal, if_neg hne]
    rfl
  | some i =>
    have haccept : w.accept (Node.ofText content (some i)) = { w with taken := i :: w.taken } := by
      rw [Walk.accept, ownAsset?_ofText]
      rfl
    have hmarker : (identityOf? (markerContent i) <|> none) = some i := by
      rw [identityOf?_markerContent htrim]
      rfl
    have hgive := identify_free (p := ⟨fresh, true⟩) htrim (hfree i rfl)
    show buildForest _ _ none (.comment (markerContent i) :: .text content :: rest) w = _
    rw [haccept, buildForest, hmarker, buildForest, buildText, hnormal, if_neg hne]
    simp only [Option.isSome_some, if_true, hgive, List.cons_append, List.nil_append]

/-! ## What was written of a tree -/

/-- **A canonical tree is built again from what was written of it**, if its identities can be taken.
By induction on the tree: what is taken behind a part of it are the identities of that part. -/
theorem buildForest_forestDoms (fresh : Nat → String) :
    ∀ (ns : List Node) {editable : Bool} {w : Walk}, w.styling = .verbatim → BuiltAll editable ns →
      (∀ n ∈ preorderAll ns, n.Canonical) → CanTake (identities ns) w.taken →
      buildForest ⟨fresh, true⟩ editable none (forestDoms ns) w =
        (ns, (preorderAll ns).foldl Walk.accept w)
  | [], editable, w, _, _, _, _ => by
      rw [forestDoms, buildForest, preorderAll]
      rfl
  | ⟨tag, attrs, text, children, id⟩ :: ns, editable, w, hw, hbuilt, hcanon, htake => by
      rw [preorderAll_cons, List.cons_append] at hcanon
      obtain ⟨hn, hcanon⟩ := List.forall_mem_cons.1 hcanon
      rw [identities_cons, canTake_append, canTake_append, canTake_toList] at htake
      obtain ⟨⟨hown, htakeBelow⟩, htakeBehind⟩ := htake
      have hfree : ∀ i, id = some i → i ∉ w.taken := fun i hi => (hown i hi).2
      have hw' := (styling_accept w ⟨tag, attrs, text, children, id⟩).trans hw
      have htaken := taken_accept w ⟨tag, attrs, text, children, id⟩
      rw [preorderAll_cons, List.cons_append, List.foldl_cons, List.foldl_append]
      cases hbuilt with
      | cons hbuilt hbuiltBehind =>
        have hbehind := buildForest_forestDoms fresh ns
          ((styling_foldl_accept _ (preorderAll children)).trans hw') hbuiltBehind
          (fun n hn => hcanon n (List.mem_append_right _ hn)) (by
            rw [taken_foldl_accept, htaken, ← List.append_assoc, ← List.reverse_append]
            exact htakeBehind)
        rw [forestDoms]
        cases hbuilt with
        | text hne hnormal hid =>
          refine (buildForest_ofText hne hnormal hid hn.identity hfree _).trans ?_
          simp only [Node.ofText, preorderAll, List.foldl_nil] at hbehind ⊢
          rw [hbehind]
        | element hattrs hid hchildren =>
          have hself := buildSelf_writtenAttributes fresh hw hattrs hn hid hfree
          have hbelow := buildForest_forestDoms fresh children hw' hchildren
            (fun n hn => hcanon n (List.mem_append_left _ hn)) (htaken.symm ▸ htakeBelow)
          have hlower : Text.lower tag = tag := hn.lower rfl
          have hskip : isSkipped (Text.lower tag) = false := hlower.symm ▸ hn.kept rfl
          rw [Node.doms, List.singleton_append, buildForest_kept _ _ _ _ hskip, hlower]
          simp only [hself, hbelow, hbehind]

/-! ## What was recorded at first -/

section congr

variable {attrs attrs' : Attributes} (hsame : ∀ name, isAllowedAttribute name = true →
  name ≠ "class" → attributeOf? attrs' name = attributeOf? attrs name)
include hsame

/-- What is read of an attribute is read of the one that is kept. -/
theorem filledAttribute?_congr (name : String) (hname : isAllowedAttribute name = true)
    (hne : name ≠ "class") : filledAttribute? attrs' name = filledAttribute? attrs name := by
  rw [filledAttribute?, filledAttribute?, hsame name hname hne]

/-- Hints are told by attributes that a node may keep. -/
theorem hints_congr : Hints.ofAttributes attrs' = Hints.ofAttributes attrs := by
  have hfilled := filledAttribute?_congr hsame
  rw [Hints.ofAttributes, Hints.ofAttributes, hfilled "data-file-id" (by decide) (by decide),
    hfilled "data-collection" (by decide) (by decide),
    hfilled "data-image-key" (by decide) (by decide)]

end congr

/-- An asset that is not a background image is told by the tag and by attributes that a node may
keep, the class not among them. -/
theorem extract?_congr {tag : String} {attrs attrs' : Attributes} {a : Asset}
    {classes : List String} {backgroundFor? : String → Option String}
    (h : Asset.extract? tag attrs classes backgroundFor? = some a) (ha : a.isBackground = false)
    (hsame : ∀ name, isAllowedAttribute name = true → name ≠ "class" →
      attributeOf? attrs' name = attributeOf? attrs name)
    (classes' : List String) (backgroundFor?' : String → Option String) :
    Asset.extract? tag attrs' classes' backgroundFor?' = some a := by
  have hfilled := filledAttribute?_congr hsame
  have haction : ButtonAction.ofAttributes attrs' = ButtonAction.ofAttributes attrs := by
    rw [ButtonAction.ofAttributes, ButtonAction.ofAttributes,
      hfilled "data-callback" (by decide) (by decide), hfilled "data-video" (by decide) (by decide),
      hsame "data-external" (by decide) (by decide)]
  obtain ⟨content, hcontent, rfl⟩ := Option.map_eq_some_iff.1 h
  rw [Asset.extract?, hints_congr hsame]
  refine Option.map_eq_some_iff.2 ⟨content, ?_, rfl⟩
  rw [AssetContent.extract?] at hcontent ⊢
  split at hcontent
  · rw [← hcontent, if_pos ‹_›, hfilled "src" (by decide) (by decide),
      hfilled "srcset" (by decide) (by decide), hsame "alt" (by decide) (by decide)]
  · next himg =>
    rw [if_neg himg]
    split at hcontent
    · rw [← hcontent, if_pos ‹_›, hfilled "href" (by decide) (by decide), haction]
    · next hlink =>
      rw [if_neg hlink]
      split at hcontent
      · rw [← hcontent, if_pos ‹_›, haction]
      · -- anything else is a background image
        obtain ⟨url, -, rfl⟩ := Option.map_eq_some_iff.1 hcontent
        cases ha

/-- Where no attribute is given twice, the written attributes of a built element are those that it
was built from, save for its classes and what it may not keep. -/
theorem attributeOf?_written_keptAttributes {attrs : Attributes} (hnodup : (attrs.map (·.1)).Nodup)
    (classes : List String) (id : Option String) {name : String}
    (hname : isAllowedAttribute name = true) (hne : name ≠ "class") :
    attributeOf? (writtenAttributes (keptAttributes attrs classes) id) name =
      attributeOf? attrs name := by
  rw [attributeOf?_writtenAttributes_of_allowed id
    (fun key hkey => isAllowedAttribute_of_mem_keys hkey) hname, attributeOf?, ← Table.get?,
    get?_keptAttributes, if_neg hne, if_pos hname, Table.lookup_reverse hnodup, attributeOf?]

variable {p : Policy}

/-- **What is recorded is told by the tree alone**, if it is not a background image and no element
has an attribute twice. -/
theorem recorded_of_buildTree {styling : Styling} {forest : List Dom}
    (hnodup : ∀ e ∈ keptElements forest, (e.attrs.map (·.1)).Nodup) {id : String} {a : Asset}
    (ha : a.isBackground = false)
    (h : (buildTree p styling forest).2.assets.get? id = some a) :
    ∃ n ∈ preorderAll (buildTree p styling forest).1, n.id = some id ∧ n.ownAsset? = some a := by
  obtain ⟨i, n, s, hn, htold, hid⟩ := recorded_at h
  obtain ⟨s', hs, hmade⟩ := made_at hn
  have htold' := getElem?_told p (spots [] [] forest) { styling := styling } i
  rw [htold, hs, Option.map_some] at htold'
  generalize (visitAll p ((spots [] [] forest).take i) { styling := styling }).2 = w at hmade htold'
  obtain ⟨rfl, htell⟩ := Prod.mk.inj (Option.some.inj htold')
  refine ⟨n, List.mem_of_getElem? hn, hid, ?_⟩
  cases s with
  | text around before content => cases htell
  | element tag attrs =>
    have hself : (buildSelf p tag attrs w).1 = n.withoutChildren := hmade
    have htag : n.tag = tag := (congrArg Node.tag hself).symm.trans (buildSelf_tag ..)
    have hattrs : n.attrs = keptAttributes attrs (w.classTokens attrs).1 :=
      (congrArg Node.attrs hself).symm.trans (buildSelf_attrs ..)
    obtain ⟨e, he, -, rfl⟩ := exists_keptElement (List.mem_of_getElem? hs)
    rw [tell_element] at htell
    rw [Node.ownAsset?, htag, hattrs]
    exact extract?_congr htell.symm ha
      (fun name hname hne => attributeOf?_written_keptAttributes (hnodup e he) _ _ hname hne) _ _

/-! ## Every built tree -/

/-- **Building inverts writing.**  Take the tree that is built of any forest, over a registry that
calls lead to or over none, in which no element has the tag of runs of text and no void element has
children.  The forest that it is written as is the one that the printer writes, and building that
forest as it stands, with any supply, gives the tree back and mints nothing.  If moreover no element
of the first forest has an attribute twice, every image, link and button that was recorded then is
recorded again. -/
theorem rebuilding_inverts_writing {fresh : Nat → String} {forest : List Dom} {styling : Styling}
    (hsupply : Supply fresh (embeddedIdentities forest))
    (htrimmed : ∀ k, Text.trimmed? (fresh k) = some (fresh k))
    (hstyling : styling = .verbatim ∨
      ∃ percentUnits calls, styling = .registry ((Registry.empty percentUnits).run calls))
    (trusted : Bool)
    (htext : ∀ n ∈ preorderAll (buildTree ⟨fresh, trusted⟩ styling forest).1,
      n.text = none → n.tag ≠ Node.textTag)
    (hvoid : ∀ n ∈ preorderAll (buildTree ⟨fresh, trusted⟩ styling forest).1,
      isVoid n.tag = true → n.children = [])
    (fresh' : Nat → String) :
    let first := buildTree ⟨fresh, trusted⟩ styling forest
    let again := buildTree ⟨fresh', true⟩ .verbatim (forestDoms first.1)
    domsChars (forestDoms first.1) = forestChars first.1 ∧
      again.1 = first.1 ∧ again.2.minted = 0 ∧
      ((∀ e ∈ keptElements forest, (e.attrs.map (·.1)).Nodup) →
        ∀ id a, first.2.assets.get? id = some a → a.isBackground = false →
          again.2.assets.get? id = some a) := by
  intro first again
  have hsound : styling.Sound := by
    rcases hstyling with rfl | ⟨percentUnits, calls, rfl⟩
    · trivial
    · exact Style.Registry.sound_run calls (Style.Registry.sound_empty percentUnits)
  have hbuilt : BuiltAll false first.1 := builtAll_buildForest ⟨fresh, trusted⟩ forest false none _
  have hcanon : ∀ n ∈ preorderAll first.1, n.Canonical :=
    canonical_buildTree (p := ⟨fresh, trusted⟩) htrimmed hsound forest
  have htake : CanTake (identities first.1) [] :=
    canTake_nil_iff.2 ⟨nodup_identities (p := ⟨fresh, trusted⟩) hsupply.injective
      hsupply.apart styling, empty_notMem_identities hsupply styling⟩
  have hagain :
      again = (first.1, (preorderAll first.1).foldl Walk.accept { styling := .verbatim }) :=
    buildForest_forestDoms fresh' first.1 (w := { styling := .verbatim }) rfl hbuilt hcanon htake
  refine ⟨?_, by rw [hagain], by rw [hagain, minted_foldl_accept], fun hnodup id a ha hkind => ?_⟩
  · exact domsChars_forestDoms fun n hn =>
      ⟨htext n hn, tag_of_built_text hbuilt n hn, hvoid n hn⟩
  · obtain ⟨n, hn, hid, hasset⟩ := recorded_of_buildTree hnodup hkind ha
    rw [hagain, get?_assets_foldl_accept htake.1, nodeOf?_of_mem htake.1 hn hid,
      Option.bind_some, hasset, Option.some_or]

/-- The identities of this supply are trimmed. -/
theorem trimmed?_replicate (k : Nat) :
    Text.trimmed? (String.ofList (List.replicate (k + 1) 'n')) =
      some (String.ofList (List.replicate (k + 1) 'n')) := by
  have hstart : Text.trimStart (List.replicate (k + 1) 'n') = List.replicate (k + 1) 'n' :=
    List.dropWhile_cons_of_neg (by decide)
  have hend : Text.trimEnd (List.replicate (k + 1) 'n') = List.replicate (k + 1) 'n' := by
    rw [Text.trimEnd, List.reverse_replicate]
    exact (congrArg List.reverse hstart).trans (List.reverse_replicate ..)
  rw [Text.trimmed?, Text.trimmed, String.toList_ofList, Text.trim, hstart, hend]
  exact if_neg (by simp [List.replicate_succ])

/-- A paragraph with a class, and a picture in it, are built again. -/
theorem classed_paragraph_is_built_again :
    let forest : List Dom := [.element "P" [("class", "a b")]
      [.text " To  x ", .element "img" [("src", "/a.png"), ("alt", "A")] []]]
    let fresh := fun k => String.ofList (List.replicate (k + 1) 'n')
    let r := (Registry.empty true).run [.sheet ".a\x7bcolor:red\x7d"]
    ∃ first again, buildTree ⟨fresh, false⟩ (.registry r) forest = first ∧
      buildTree ⟨fresh, true⟩ .verbatim (forestDoms first.1) = again ∧
      identities first.1 = ["n", "nn", "nnn"] ∧ again.1 = first.1 ∧ again.2.minted = 0 ∧
      again.2.assets.get? "nnn" = some ⟨"img", .image (some "/a.png") none (some "A"), {}⟩ := by
  intro forest fresh r
  have hrun : let first := buildTree ⟨fresh, false⟩ (.registry r) forest
      identities first.1 = ["n", "nn", "nnn"] ∧
      first.2.assets.get? "nnn" = some ⟨"img", .image (some "/a.png") none (some "A"), {}⟩ ∧
      (∀ n ∈ preorderAll first.1, n.text = none → n.tag ≠ Node.textTag) ∧
      ∀ n ∈ preorderAll first.1, isVoid n.tag = true → n.children = [] := by
    decide +kernel
  obtain ⟨hids, hasset, htext, hvoid⟩ := hrun
  have hnodup : ∀ e ∈ keptElements forest, (e.attrs.map (·.1)).Nodup := by decide
  obtain ⟨-, htree, hminted, hassets⟩ := @rebuilding_inverts_writing fresh forest (.registry r)
    (supply_replicate (by decide)) trimmed?_replicate (.inr ⟨true, _, rfl⟩) false htext hvoid fresh
  exact ⟨_, _, rfl, rfl, hids, htree, hminted, hassets hnodup "nnn" _ hasset (by decide)⟩

end Pane
