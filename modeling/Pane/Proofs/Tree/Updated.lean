import Pane.Patch
import Pane.Proofs.Tree.Rederived

/-!
# The tree that a patch writes

A patch changes the attributes of one node at most: the first that has the identity of the target.
Every other node stays what it is, apart from what is below it, and no identity changes, so whatever
is told of another identity by what its node has of its own is told of the changed tree as well.

* `allowed_onNode` — an update touches attributes only that a node may keep.
* `editOf`, **`patchTree_eq`** — the changed tree.
* **`nodeOf?_patchTree`** — the node of another identity.
* **`faithful_patchTree`** — a changed tree can be found again where it is written.
-/

namespace Pane

/-! ## What an update touches -/

/-- Attributes that a node may keep. -/
def Allowed (attrs : Table String) : Prop := ∀ key ∈ attrs.keys, isAllowedAttribute key = true

section allowed

variable {attrs : Table String} {name : String}

/-- Attributes stay allowed if an allowed one is set. -/
theorem Allowed.insert (h : Allowed attrs) (hname : isAllowedAttribute name = true)
    (value : String) : Allowed (attrs.insert name value) := by
  intro key hkey
  rw [mem_keys_iff, Table.get?_insert] at hkey
  split at hkey
  · next he => exact he ▸ hname
  · exact h key (mem_keys_iff.2 hkey)

/-- They stay so if one is taken away. -/
theorem Allowed.erase (h : Allowed attrs) (name : String) : Allowed (attrs.erase name) := by
  intro key hkey
  rw [mem_keys_iff, Table.get?_erase] at hkey
  split at hkey
  · cases hkey
  · exact h key (mem_keys_iff.2 hkey)

/-- They stay so under a change of an allowed one. -/
theorem Allowed.onAttribute (h : Allowed attrs) (hname : isAllowedAttribute name = true)
    (change : HintChange) : Allowed (change.onAttribute name attrs) := by
  cases change with
  | keep => exact h
  | set value => exact h.insert hname value
  | clear => exact h.erase name

theorem Allowed.setOrRemove (h : Allowed attrs) (hname : isAllowedAttribute name = true)
    (value : Option String) : Allowed (setOrRemove name value attrs) := by
  cases value with
  | none => exact h
  | some v =>
    rw [Pane.setOrRemove]
    split
    · exact h.erase name
    · exact h.insert hname v

theorem Allowed.setVerbatim (h : Allowed attrs) (hname : isAllowedAttribute name = true)
    (value : Option String) : Allowed (setVerbatim name value attrs) := by
  cases value with
  | none => exact h
  | some v => exact h.insert hname v

theorem Allowed.onAction (h : Allowed attrs) (u : ActionUpdate) : Allowed (u.onAttributes attrs) :=
  (((h.setOrRemove (by decide) _).setVerbatim (by decide) _).setOrRemove (by decide) _)

theorem Allowed.onContent (h : Allowed attrs) (u : ContentUpdate) :
    Allowed (u.onAttributes attrs) := by
  cases u with
  | image src srcSet alt =>
    exact ((h.setOrRemove (by decide) src).setOrRemove (by decide) srcSet).setVerbatim
      (by decide) alt
  | link href action => exact (h.setOrRemove (by decide) href).onAction action
  | button action => exact h.onAction action
  | background url => exact h

/-- **An update touches attributes only that a node may keep.** -/
theorem allowed_onNode {n : Node} (h : Allowed n.attrs) (u : AssetUpdate)
    (known : Option AssetKind) : Allowed (u.onNode known n).attrs := by
  have hhints : Allowed (u.hints.onAttributes n.attrs) :=
    ((h.onAttribute (by decide) _).onAttribute (by decide) _).onAttribute (by decide) _
  rw [AssetUpdate.onNode]
  dsimp only
  split
  · exact hhints.onContent u.content
  · exact hhints

end allowed

/-! ## The changed tree -/

/-- The change of the first node that has an identity. -/
def editOf (tree : List Node) (target : String) (change : Node → Node) : Change :=
  match (preorderAll tree).findIdx? fun n => n.id = some target with
  | some i => changeAt i change
  | none => fun _ n => n

/-- The tree that a patch writes. -/
theorem patchTree_eq (tree : List Node) (target : String) (known : Option AssetKind)
    (u : AssetUpdate) :
    (patchTree tree target known u).1 = changeAll (editOf tree target (u.onNode known)) 0 tree := by
  rw [patchTree, FlatTree.find?_ofTree, editOf]
  cases (preorderAll tree).findIdx? fun n => n.id = some target with
  | none => exact (FlatTree.toTree_ofTree tree).trans (changeAll_self 0 tree).symm
  | some i => exact FlatTree.toTree_modify tree i (u.onNode known)

/-- A node is left as it is, or it has the identity and is changed. -/
theorem editOf_apply {tree : List Node} (target : String) (change : Node → Node) {k : Nat}
    {n : Node} (hn : (preorderAll tree)[k]? = some n) (m : Node) :
    editOf tree target change k m = m ∨
      editOf tree target change k m = change m ∧ n.id = some target := by
  rw [editOf]
  cases hfind : (preorderAll tree).findIdx? fun n => n.id = some target with
  | none => exact .inl rfl
  | some i =>
    by_cases hk : k = i
    · subst hk
      obtain ⟨hlt, hid, -⟩ := List.findIdx?_eq_some_iff_getElem.1 hfind
      obtain ⟨-, rfl⟩ := List.getElem?_eq_some_iff.1 hn
      exact .inr ⟨if_pos rfl, by simpa using hid⟩
    · exact .inl (if_neg hk)

/-- What a list shows of an identity, if each of its nodes is changed and those that have the
identity are left as they are. -/
theorem nodeOf?_mapIdx {id : String} : ∀ (ns : List Node) (g : Change),
    (∀ k n, ns[k]? = some n → (g k n).id = n.id) →
    (∀ k n, ns[k]? = some n → n.id = some id → g k n = n) →
    nodeOf? (ns.mapIdx g) id = nodeOf? ns id
  | [], _, _, _ => rfl
  | n :: ns, g, hid, hsame => by
      have hns := nodeOf?_mapIdx ns (fun k => g (k + 1)) (fun k m hm => hid (k + 1) m hm)
        fun k m hm => hsame (k + 1) m hm
      rw [nodeOf?, nodeOf?] at hns
      rw [List.mapIdx_cons, nodeOf?, nodeOf?, List.find?_cons, List.find?_cons, hns, hid 0 n rfl]
      by_cases h : n.id = some id
      · rw [hsame 0 n rfl h]
      · rw [decide_eq_false h]

/-- The node of an identity without its children. -/
theorem nodeOf?_map_withoutChildren (ns : List Node) (id : String) :
    nodeOf? (ns.map Node.withoutChildren) id = (nodeOf? ns id).map Node.withoutChildren := by
  rw [nodeOf?, List.find?_map]
  rfl

section patchTree

variable {tree : List Node} {target : String} {known : Option AssetKind} {u : AssetUpdate}

/-- The nodes that a patch writes, without their children. -/
theorem map_withoutChildren_patchTree (tree : List Node) (target : String)
    (known : Option AssetKind) (u : AssetUpdate) :
    (preorderAll (patchTree tree target known u).1).map Node.withoutChildren =
      ((preorderAll tree).map Node.withoutChildren).mapIdx fun k n =>
        (editOf tree target (u.onNode known) k n).withoutChildren := by
  rw [patchTree_eq, preorderAll_changeAll]
  refine List.ext_getElem? fun k => ?_
  rw [List.getElem?_map, List.getElem?_mapIdx, List.getElem?_mapIdx, List.getElem?_map,
    Option.map_map, Option.map_map]
  refine congrArg (Option.map · _) (funext fun n => ?_)
  rw [Function.comp_apply, Function.comp_apply, Nat.zero_add]
  cases n
  rfl

/-- An edit changes no identity. -/
theorem id_editOf (tree : List Node) (target : String) (k : Nat) (n : Node) :
    (editOf tree target (u.onNode known) k n).id = n.id := by
  rw [editOf]
  cases (preorderAll tree).findIdx? fun n => n.id = some target with
  | none => rfl
  | some i =>
    simp only [changeAt]
    split <;> rfl

/-- **A patch changes no identity.** -/
theorem identities_patchTree : identities (patchTree tree target known u).1 = identities tree := by
  have hids : ∀ ns : List Node, ns.filterMap Node.id =
      ((ns.map Node.withoutChildren).map Node.id).filterMap fun id => id := fun ns => by
    rw [List.map_map, List.filterMap_map]
    rfl
  rw [identities, identities, hids, hids, map_withoutChildren_patchTree]
  refine congrArg (List.filterMap _) (List.ext_getElem? fun k => ?_)
  simp only [List.getElem?_map, List.getElem?_mapIdx, Option.map_map]
  exact congrArg (Option.map · _) (funext fun n => id_editOf tree target k n.withoutChildren)

/-- **The node of another identity** is left as it is, apart from what is below it. -/
theorem nodeOf?_patchTree {id : String} (hne : id ≠ target) :
    (nodeOf? (preorderAll (patchTree tree target known u).1) id).map Node.withoutChildren =
      (nodeOf? (preorderAll tree) id).map Node.withoutChildren := by
  rw [← nodeOf?_map_withoutChildren, ← nodeOf?_map_withoutChildren, map_withoutChildren_patchTree]
  refine nodeOf?_mapIdx _ _ (fun k n _ => id_editOf tree target k n) fun k n hn hid => ?_
  rw [List.getElem?_map] at hn
  obtain ⟨m, hm, rfl⟩ := Option.map_eq_some_iff.1 hn
  rcases editOf_apply target (u.onNode known) hm m.withoutChildren with he | ⟨-, htarget⟩
  · rw [he]
    rfl
  · exact absurd (Option.some.inj (hid.symm.trans htarget)) hne

/-- A changed tree is its changed node over the changed children. -/
theorem changed_eq (g : Change) (k : Nat) (n : Node) :
    n.changed g k = { g k n.withoutChildren with children := changeAll g (k + 1) n.children } := by
  cases n
  rfl

/-- Children and attributes apart, what a node has of its own decides whether it is found again. -/
theorem Node.Faithful.congr {n : Node} (h : n.Faithful) {attrs : Table String}
    (hattrs : Allowed attrs) {children : List Node} (hchildren : n.children = [] → children = []) :
    (⟨n.tag, attrs, n.text, children, n.id⟩ : Node).Faithful where
  attrs := hattrs
  lower := h.lower
  kept := h.kept
  content := h.content
  childless htext := hchildren (h.childless htext)
  identity := h.identity

/-- **A changed tree can be found again where it is written.** -/
theorem faithful_patchTree (h : ∀ n ∈ preorderAll tree, n.Faithful) :
    ∀ n ∈ preorderAll (patchTree tree target known u).1, n.Faithful := by
  intro n' hn'
  rw [patchTree_eq, preorderAll_changeAll] at hn'
  obtain ⟨k, hk⟩ := List.mem_iff_getElem?.1 hn'
  rw [List.getElem?_mapIdx, Nat.zero_add] at hk
  obtain ⟨n, hn, rfl⟩ := Option.map_eq_some_iff.1 hk
  have hf := h n (List.mem_of_getElem? hn)
  have hchildren : n.children = [] →
      changeAll (editOf tree target (u.onNode known)) (k + 1) n.children = [] := by
    intro hnil
    rw [hnil, changeAll]
  rw [changed_eq]
  rcases editOf_apply target (u.onNode known) hn n.withoutChildren with he | ⟨he, -⟩
  · rw [he]
    exact hf.congr hf.attrs hchildren
  · rw [he]
    exact hf.congr (allowed_onNode (n := n.withoutChildren) hf.attrs u known) hchildren

end patchTree

end Pane
