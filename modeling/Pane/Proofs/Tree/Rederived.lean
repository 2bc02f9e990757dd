import Pane.Proofs.Tree.Edited
import Pane.Proofs.Tree.Entries
import Pane.Proofs.Tree.Rebuilt

/-!
# The table of a tree that is written and built again

A patch does not keep the table of a pane.  The tree is written, read and built again over a
registry, and the table is derived anew.  If the markup is read as it was written, what is found in
the new table is a matter of the single node: its own attributes tell the asset, and for a
background the registry has its say.

* `Node.assetIn?` — the asset that a node is told to be by itself and by the styles.
* `Node.Faithful` — what is needed for a node to be found again where it was written.
* **`spots_forestDoms`** — the spots of the forest that a tree is written as.
* **`get?_assets_eq_some_iff`** — where every identity arrives once, the entry of an identity is
  that of the spot where it arrives.
* **`get?_assets_forestDoms`** — the entry of an identity is what its node is told to be.
* **`get?_assets_of_compile`**, **`get?_assets_of_rehydrate`** — so it is when the markup of a tree
  is compiled or read back.
-/

namespace Pane

open Markup

/-! ## What a node is told to be -/

/-- The asset that a node is told to be once it is written, if styles are resolved in some way. -/
def Node.assetIn? (styling : Styling) (n : Node) : Option Asset :=
  match n.text with
  | some _ => none
  | none => Walk.assetOf? { styling := styling } n.tag (writtenAttributes n.attrs n.id)

/-- What is needed of a node to be found again where it was written. -/
structure Node.Faithful (n : Node) : Prop where
  attrs : ∀ key ∈ n.attrs.keys, isAllowedAttribute key = true
  lower : n.text = none → Text.lower n.tag = n.tag
  kept : n.text = none → isSkipped n.tag = false
  content : ∀ content, n.text = some content → content ≠ "" ∧ normalizeText content = content
  childless : n.text.isSome = true → n.children = []
  identity : n.id.bind Text.trimmed? = n.id

theorem faithful_of_built {n : Node} {editable : Bool} (h : n.Built editable) (hn : n.Canonical) :
    n.Faithful := by
  cases h with
  | text hne hnormal hid =>
    refine ⟨fun key hkey => absurd hkey List.not_mem_nil, hn.lower, hn.kept,
      fun content hcontent => ?_, fun _ => rfl, hn.identity⟩
    obtain rfl := Option.some.inj hcontent
    exact ⟨hne, hnormal⟩
  | element hattrs hid hchildren =>
    exact ⟨hattrs, hn.lower, hn.kept, fun _ h => (by cases h), fun h => (by cases h), hn.identity⟩

/-- **The nodes of a built tree are found again**, if no identity has space at its ends. -/
theorem faithful_buildTree {p : Policy} {styling : Styling}
    (hfresh : ∀ k, Text.trimmed? (p.fresh k) = some (p.fresh k)) (hsound : styling.Sound)
    (forest : List Dom) : ∀ n ∈ preorderAll (buildTree p styling forest).1, n.Faithful := by
  intro n hn
  obtain ⟨editable, hbuilt⟩ := built_of_mem (builtAll_buildForest p forest false none _) n hn
  exact faithful_of_built hbuilt (canonical_buildTree hfresh hsound forest n hn)

/-- Without a style attribute the class tokens leave the styles as they are. -/
theorem classTokens_of_no_style {w : Walk} {attrs : Attributes}
    (h : attributeOf? attrs "style" = none) : (w.classTokens attrs).2 = w := by
  rw [Walk.classTokens, h]

/-! ## The spots of what is written -/

/-- A run of text that was written: its identity arrives in the comment in front of it. -/
theorem spots_ofText (styling : Styling) (around : List String) {before : List Dom}
    {tag : String} {attrs : Table String} {content : String} {id : Option String}
    (hn : (⟨tag, attrs, some content, [], id⟩ : Node).Faithful)
    (hbefore : markerBefore before = none)
    (rest : List Dom) :
    ∃ before' : List Dom, markerBefore before' = none ∧
      (spots around before ((⟨tag, attrs, some content, [], id⟩ : Node).doms ++ rest)).map
          (fun s => (s.arriving?, s.tell styling)) =
        (id, none, styling) ::
          (spots around before' rest).map fun s => (s.arriving?, s.tell styling) := by
  obtain ⟨hne, hnormal⟩ := hn.content content rfl
  cases id with
  | none =>
    refine ⟨.text content :: before, rfl, ?_⟩
    rw [Node.doms, Option.toList_none, List.map_nil, List.nil_append, List.singleton_append, spots,
      Dom.spots, if_neg (hnormal.symm ▸ hne), List.singleton_append, List.map_cons]
    rw [Spot.arriving?, hbefore]
    rfl
  | some i =>
    have hmarker : identityOf? (markerContent i) = some i := identityOf?_markerContent hn.identity
    refine ⟨.text content :: .comment (markerContent i) :: before, rfl, ?_⟩
    rw [Node.doms, Option.toList_some, List.map_singleton, List.singleton_append, List.cons_append,
      List.singleton_append, spots, Dom.spots, List.nil_append, spots, Dom.spots,
      if_neg (hnormal.symm ▸ hne), List.singleton_append, List.map_cons]
    rw [Spot.arriving?, markerBefore, hmarker]
    rfl

/-- **The spots of the forest that a tree is written as** are those of its nodes: the identity of
each node arrives, the node is told to be what it is by itself, and the styles are left as they
are. -/
theorem spots_forestDoms (styling : Styling) :
    ∀ (ns : List Node) (around : List String) (before : List Dom),
      (∀ n ∈ preorderAll ns, n.Faithful) → markerBefore before = none →
      (spots around before (forestDoms ns)).map (fun s => (s.arriving?, s.tell styling)) =
        (preorderAll ns).map fun n => (n.id, n.assetIn? styling, styling)
  | [], _, _, _, _ => rfl
  | ⟨tag, attrs, text, children, id⟩ :: ns, around, before, h, hbefore => by
      rw [preorderAll_cons, List.cons_append] at h
      obtain ⟨hn, hbelow⟩ := List.forall_mem_cons.1 h
      have hns := fun before hbefore => spots_forestDoms styling ns around before
        (fun n hn => hbelow n (List.mem_append_right _ hn)) hbefore
      rw [preorderAll_cons, forestDoms]
      cases text with
      | some content =>
        obtain rfl : children = [] := hn.childless rfl
        obtain ⟨before', hbefore', hspots⟩ := spots_ofText styling around hn hbefore (forestDoms ns)
        rw [hspots, hns before' hbefore', preorderAll]
        rfl
      | none =>
        have hlower : Text.lower tag = tag := hn.lower rfl
        have hkept : isSkipped (Text.lower tag) = false := hlower.symm ▸ hn.kept rfl
        have harrive : (Spot.element tag (writtenAttributes attrs id)).arriving? = id := by
          rw [Spot.arriving?, embeddedIdentity?_writtenAttributes hn.attrs hn.identity, hn.identity]
        have htell : (Spot.element tag (writtenAttributes attrs id)).tell styling =
            (Node.assetIn? styling ⟨tag, attrs, none, children, id⟩, styling) := by
          rw [Spot.tell, classTokens_of_no_style (attributeOf?_style_writtenAttributes id hn.attrs)]
          rfl
        have hchildren := spots_forestDoms styling children (tag :: around) []
          (fun n hn => hbelow n (List.mem_append_left _ hn)) rfl
        rw [Node.doms, List.singleton_append, spots, Dom.spots, hkept, if_neg Bool.false_ne_true,
          hlower, List.map_append, List.map_cons, harrive, htell, hchildren, hns _ rfl]
        simp only [List.map_cons, List.map_append, List.cons_append]

/-- Where no spot registers a style, each of them is told by the styles that there are at first. -/
theorem told_of_constant {styling : Styling} : ∀ {ss : List Spot},
    (∀ s ∈ ss, (s.tell styling).2 = styling) →
      told styling ss = ss.map fun s => (s, (s.tell styling).1)
  | [], _ => rfl
  | s :: ss, h => by
      obtain ⟨hs, hss⟩ := List.forall_mem_cons.1 h
      rw [told, hs, told_of_constant hss, List.map_cons]

/-- What arrives at the spots of a written tree, and what is told there. -/
theorem told_forestDoms (styling : Styling) {ns : List Node}
    (h : ∀ n ∈ preorderAll ns, n.Faithful) :
    (told styling (spots [] [] (forestDoms ns))).map (fun x => (x.1.arriving?, x.2)) =
      (preorderAll ns).map fun n => (n.id, n.assetIn? styling) := by
  have hspots := spots_forestDoms styling ns [] [] h rfl
  have hconstant : ∀ s ∈ spots [] [] (forestDoms ns), (s.tell styling).2 = styling := by
    intro s hs
    have hmem := List.mem_map_of_mem (f := fun s : Spot => (s.arriving?, s.tell styling)) hs
    rw [hspots] at hmem
    obtain ⟨n, -, hn⟩ := List.mem_map.1 hmem
    exact (congrArg (fun x => x.2.2) hn).symm
  have hpairs := congrArg (List.map fun x : Option String × Option Asset × Styling => (x.1, x.2.1))
    hspots
  rw [List.map_map, List.map_map] at hpairs
  rw [told_of_constant hconstant, List.map_map]
  exact hpairs

/-! ## What is found again -/

/-- An identity that the supply does not make has arrived where it is given. -/
theorem Ledger.arrived_of_give {fresh : Nat → String} {l : Ledger} {a : Option String}
    (hkey : ∀ k, fresh k ≠ (l.give fresh a).1) : a = some (l.give fresh a).1 := by
  cases a with
  | none => exact absurd rfl (hkey l.minted)
  | some id =>
    rw [Ledger.give] at hkey ⊢
    split at hkey
    · exact absurd rfl (hkey l.minted)
    · next hfree => rw [if_neg hfree]

section tree

variable {p : Policy} {forest : List Dom} {styling : Styling} {key : String}

/-- A node with an identity that the supply does not make: the identity has arrived at its spot. -/
theorem arriving_at {i : Nat} {n : Node} (hkey : ∀ k, p.fresh k ≠ key)
    (hn : (preorderAll (buildTree p styling forest).1)[i]? = some n) (hid : n.id = some key) :
    ∃ x, (told styling (spots [] [] forest))[i]? = some x ∧ x.1.arriving? = some key := by
  obtain ⟨s, -, htold, hvisited⟩ := visited_at hn
  refine ⟨_, htold, ?_⟩
  have hgiven : some key = _ := hid.symm.trans hvisited.id
  split at hgiven
  · have hgiven := Option.some.inj hgiven
    rw [hgiven] at hkey ⊢
    exact Ledger.arrived_of_give hkey
  · cases hgiven

/-- Of spots at which nothing arrives twice, the one where an identity arrives. -/
theorem eq_of_arriving {xs : List (Spot × Option Asset)}
    (hnodup : (xs.filterMap fun x => x.1.arriving?).Nodup) {i j : Nat} {x y : Spot × Option Asset}
    (hx : xs[i]? = some x) (hy : xs[j]? = some y) (hxkey : x.1.arriving? = some key)
    (hykey : y.1.arriving? = some key) : i = j := by
  rw [List.Nodup, List.pairwise_filterMap, List.pairwise_iff_getElem] at hnodup
  obtain ⟨hi, rfl⟩ := List.getElem?_eq_some_iff.1 hx
  obtain ⟨hj, rfl⟩ := List.getElem?_eq_some_iff.1 hy
  rcases Nat.lt_trichotomy i j with hlt | heq | hlt
  · exact absurd rfl (hnodup i j hi hj hlt key hxkey key hykey)
  · exact heq
  · exact absurd rfl (hnodup j i hj hi hlt key hykey key hxkey)

/-- **Where every identity arrives once, the entry of an identity is that of the spot where it
arrives**, unless the supply makes the identity too. -/
theorem get?_assets_eq_some_iff (hinj : ∀ j k, p.fresh j = p.fresh k → j = k)
    (hapart : ∀ k, p.fresh k ∉ embeddedIdentities forest)
    (hnodup : ((told styling (spots [] [] forest)).filterMap fun x => x.1.arriving?).Nodup)
    (hkey : ∀ k, p.fresh k ≠ key) (a : Asset) :
    (buildTree p styling forest).2.assets.get? key = some a ↔
      ∃ x ∈ told styling (spots [] [] forest), x.1.arriving? = some key ∧ x.2 = some a := by
  constructor
  · intro ha
    obtain ⟨n, hn, hid⟩ := List.mem_filterMap.1 (mem_identities_of_get? ha)
    obtain ⟨i, hi⟩ := List.mem_iff_getElem?.1 hn
    obtain ⟨x, hx, harrive⟩ := arriving_at hkey hi hid
    exact ⟨x, List.mem_of_getElem? hx, harrive,
      (get?_assets_buildTree hinj hapart styling hi hx hid).symm.trans ha⟩
  · rintro ⟨x, hx, harrive, hasset⟩
    obtain ⟨i, hi⟩ := List.mem_iff_getElem?.1 hx
    have hlt : i < (preorderAll (buildTree p styling forest).1).length := by
      rw [length_preorderAll_buildTree]
      exact (List.getElem?_eq_some_iff.1 hi).1
    have hn := List.getElem?_eq_getElem hlt
    obtain ⟨s, -, htold, hvisited⟩ := visited_at hn
    obtain rfl := Option.some.inj (hi.symm.trans htold)
    -- no node before this one has the identity: it would have arrived there as well
    have hfree : key ∉ (visitAll p ((spots [] [] forest).take i)
        { styling := styling }).2.taken := by
      intro htaken
      rw [mem_taken_at hinj hapart] at htaken
      obtain ⟨m, hm, hmid⟩ := List.mem_map.1 htaken
      obtain ⟨j, hj⟩ := List.mem_iff_getElem?.1 hm
      rw [List.getElem?_take] at hj
      split at hj
      · obtain ⟨y, hy, hyarrive⟩ := arriving_at hkey hj hmid
        have := eq_of_arriving hnodup hi hy harrive hyarrive
        omega
      · cases hj
    have hid : _ = some key := hvisited.id.trans (by
      rw [if_pos (isOwed_of_tell (Option.isSome_iff_exists.2 ⟨a, hasset⟩) p.trusted), harrive]
      exact congrArg some (Ledger.give_arriving key hfree))
    rw [get?_assets_buildTree hinj hapart styling hn hi hid]
    exact hasset

end tree

/-- The identities that a written tree carries are those of its nodes. -/
theorem embeddedIdentities_forestDoms : ∀ (ns : List Node), (∀ n ∈ preorderAll ns, n.Faithful) →
    embeddedIdentities (forestDoms ns) = identities ns
  | [], _ => rfl
  | ⟨tag, attrs, text, children, id⟩ :: ns, h => by
      rw [preorderAll_cons, List.cons_append] at h
      obtain ⟨hn, hbelow⟩ := List.forall_mem_cons.1 h
      have hns := embeddedIdentities_forestDoms ns fun n hn => hbelow n (List.mem_append_right _ hn)
      rw [identities_cons, forestDoms]
      cases text with
      | some content =>
        obtain rfl : children = [] := hn.childless rfl
        cases id with
        | none => exact hns
        | some i =>
          have hmarker : identityOf? (markerContent i) = some i :=
            identityOf?_markerContent hn.identity
          rw [Node.doms, Option.toList_some, List.map_singleton, List.singleton_append,
            List.cons_append, List.singleton_append, embeddedIdentities, embeddedIdentities, hns,
            Dom.embeddedIdentities, Dom.embeddedIdentities, hmarker]
          rfl
      | none =>
        have hchildren := embeddedIdentities_forestDoms children
          fun n hn => hbelow n (List.mem_append_left _ hn)
        rw [Node.doms, List.singleton_append, embeddedIdentities, hns, Dom.embeddedIdentities,
          hchildren, embeddedIdentity?_writtenAttributes hn.attrs hn.identity, hn.identity]

/-- **The entry of an identity is what its node is told to be**, where the tree is built again from
the forest that it is written as. -/
theorem get?_assets_forestDoms {p : Policy} {styling : Styling} {ns : List Node} {key : String}
    (hinj : ∀ j k, p.fresh j = p.fresh k → j = k) (hapart : ∀ k, p.fresh k ∉ identities ns)
    (h : ∀ n ∈ preorderAll ns, n.Faithful) (hnodup : (identities ns).Nodup)
    (hkey : ∀ k, p.fresh k ≠ key) :
    (buildTree p styling (forestDoms ns)).2.assets.get? key =
      (nodeOf? (preorderAll ns) key).bind (Node.assetIn? styling) := by
  have htold := told_forestDoms styling h
  have harrivals : (told styling (spots [] [] (forestDoms ns))).filterMap (fun x => x.1.arriving?) =
      identities ns := by
    have hids := congrArg (List.filterMap Prod.fst) htold
    rw [List.filterMap_map, List.filterMap_map] at hids
    exact hids
  have hapart' : ∀ k, p.fresh k ∉ embeddedIdentities (forestDoms ns) := by
    rw [embeddedIdentities_forestDoms ns h]
    exact hapart
  refine Option.ext fun a => ?_
  rw [get?_assets_eq_some_iff hinj hapart' (harrivals.symm ▸ hnodup) hkey, Option.bind_eq_some_iff]
  constructor
  · rintro ⟨x, hx, harrive, hasset⟩
    have hmem := List.mem_map_of_mem (f := fun x : Spot × Option Asset => (x.1.arriving?, x.2)) hx
    rw [htold] at hmem
    obtain ⟨n, hn, he⟩ := List.mem_map.1 hmem
    obtain ⟨hid, hsame⟩ := Prod.mk.inj he
    exact ⟨n, nodeOf?_of_mem hnodup hn (hid.trans harrive), hsame.trans hasset⟩
  · rintro ⟨n, hn, hasset⟩
    have hid : n.id = some key := by simpa using List.find?_some hn
    have hmem := List.mem_map_of_mem (f := fun n : Node => (n.id, n.assetIn? styling))
      (List.mem_of_find?_eq_some hn)
    rw [← htold] at hmem
    obtain ⟨x, hx, he⟩ := List.mem_map.1 hmem
    obtain ⟨harrive, hsame⟩ := Prod.mk.inj he
    exact ⟨x, hx, harrive.trans hid, hsame.trans hasset⟩

/-! ## Panes -/

section panes

variable {fresh : Nat → String} {ns : List Node} {key : String}
  (hfaithful : ∀ n ∈ preorderAll ns, n.Faithful) (hnodup : (identities ns).Nodup)
  (hinj : ∀ j k, fresh j = fresh k → j = k) (hapart : ∀ k, fresh k ∉ identities ns)
  (hkey : ∀ k, fresh k ≠ key)
include hfaithful hnodup hinj hapart hkey

/-- **What compiling a written tree records** is what its nodes are told to be over all the style,
if the markup is read as it was written. -/
theorem get?_assets_of_compile {o : Options} {expanded authored : String} {pane : Payload}
    (hread : readFragment (splitStyles o (serialize ns)).1 = .ok (forestDoms ns))
    (h : compile fresh o (serialize ns) expanded authored = .ok pane) :
    pane.assets.get? key = (nodeOf? (preorderAll ns) key).bind (Node.assetIn?
      (.registry (populate o expanded authored (splitStyles o (serialize ns)).2))) := by
  obtain ⟨forest, _, hforest, rfl, -, rfl⟩ := compile_eq_ok_iff.1 h
  obtain rfl : forestDoms ns = forest := Except.ok.inj (hread.symm.trans hforest)
  rw [payloadOf_assets]
  exact get?_assets_forestDoms (p := ⟨fresh, false⟩) hinj hapart hfaithful hnodup hkey

/-- **What is recorded when a written tree is read back** is what its nodes are told to be without a
registry. -/
theorem get?_assets_of_rehydrate {result : List Node × Table Asset}
    (hread : readFragment (serialize ns) = .ok (forestDoms ns))
    (h : rehydrate fresh (serialize ns) = .ok result) :
    result.2.get? key = (nodeOf? (preorderAll ns) key).bind (Node.assetIn? .verbatim) := by
  obtain ⟨forest, hforest, -, rfl⟩ := rehydrate_eq_ok_iff.1 h
  obtain rfl : forestDoms ns = forest := Except.ok.inj (hread.symm.trans hforest)
  exact get?_assets_forestDoms (p := ⟨fresh, true⟩) hinj hapart hfaithful hnodup hkey

end panes

/-- **A node that is told to be the same whatever the styles are** is on record as that asset
wherever the tree is compiled or read back. -/
theorem recorded_of_assetIn? {fresh : Nat → String} {tree : List Node} {n : Node} {id : String}
    {a : Asset} (hn : n ∈ preorderAll tree) (hid : n.id = some id)
    (htold : ∀ styling, n.assetIn? styling = some a)
    (hfaithful : ∀ m ∈ preorderAll tree, m.Faithful) (hnodup : (identities tree).Nodup)
    (hinj : ∀ j k, fresh j = fresh k → j = k) (hapart : ∀ k, fresh k ∉ identities tree) :
    (∀ o expanded authored pane,
      readFragment (splitStyles o (serialize tree)).1 = .ok (forestDoms tree) →
      compile fresh o (serialize tree) expanded authored = .ok pane →
      pane.assets.get? id = some a) ∧
    ∀ result, readFragment (serialize tree) = .ok (forestDoms tree) →
      rehydrate fresh (serialize tree) = .ok result → result.2.get? id = some a := by
  have hminted : ∀ k, fresh k ≠ id := fun k he => hapart k (List.mem_filterMap.2 ⟨n, hn, he ▸ hid⟩)
  have hnode := nodeOf?_of_mem hnodup hn hid
  refine ⟨fun o expanded authored pane hread hpane => ?_, fun result hread hresult => ?_⟩
  · rw [get?_assets_of_compile hfaithful hnodup hinj hapart hminted hread hpane, hnode]
    exact htold _
  · rw [get?_assets_of_rehydrate hfaithful hnodup hinj hapart hminted hread hresult, hnode]
    exact htold _

end Pane
