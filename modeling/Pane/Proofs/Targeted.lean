import Pane.Proofs.Asset.Agreement
import Pane.Proofs.Patched

/-!
# What a patch does to its target

A patch works on one node, the first in pre-order that has the identity of the target.  Hints are
written whatever the node is, and what is of the update's kind if the target is on record as an
asset of this kind; a field that the update leaves out touches nothing.  Everything else of the tree
is compiled as it was.

**The tree that is written.**  `patchedTree_eq` — it is the tree of the pane with one node changed;
`patch_eq` — it is compiled, and the entry of the target is overlaid.
**`patch_edits_its_target_alone`** — both, and what happens to which attribute.

**The entry of the target.**  `nodeOf?_patchTree_target` — the node of the target in the tree that
is written.  **`target_entry_of_patch`** — what the patch records of the target, and what the pane
that it leads to tells of it.
-/

namespace Pane

open Markup

section

variable {c : Compiler} {fresh : Nat → String} {p p' : Payload} {target : String} {u : AssetUpdate}

/-! ## The tree that is written -/

/-- A node with attributes changed, one after the other. -/
theorem onNode_eq (u : AssetUpdate) (known : Option AssetKind) :
    u.onNode known = fun n => { n with attrs := carryOut (u.changes known) n.attrs } := by
  funext n
  have hattrs := attrs_onNode u known n
  rw [AssetUpdate.onNode] at hattrs ⊢
  exact congrArg (fun attrs => { n with attrs := attrs }) hattrs

/-- **The tree that a patch writes** is the tree of the pane with one node changed, if one has the
identity of the target. -/
theorem patchedTree_eq (p : Payload) (target : String) (u : AssetUpdate) :
    patchedTree p target u =
      match (preorderAll p.tree).findIdx? fun n => n.id = some target with
      | none => p.tree
      | some i => changeOne (u.onNode ((p.assets.get? target).map Asset.kind)) i p.tree := by
  rw [patchedTree, patchTree_eq, editOf]
  cases (preorderAll p.tree).findIdx? fun n => n.id = some target with
  | none => exact changeAll_self 0 p.tree
  | some i => exact changeAll_changeAt_zero p.tree i

/-- **A patch compiles the tree that it writes**, and carries the update out on the entry of the
target then. -/
theorem patch_eq (c : Compiler) (fresh : Nat → String) (p : Payload) (target : String)
    (u : AssetUpdate) :
    patch c fresh p target u =
      (c.compile fresh (serialize (patchedTree p target u)) (patchedText p target u)).map
        fun pane => { pane with
          assets := u.onTable target (p.assets.get? target)
            ((patchTree p.tree target ((p.assets.get? target).map Asset.kind) u).2.map Node.tag)
            pane.assets } := by
  have hmap : ∀ (result : Except CompileError Payload) (overlay : Payload → Payload),
      (do let pane ← result; return overlay pane) = result.map overlay := by
    intro result overlay
    cases result <;> rfl
  rw [patch]
  exact hmap _ _

/-- **A patch edits its target alone.**  It compiles the tree and the style text of the pane with
the target edited, for any compiler, and overlays the entry of the target.

The tree that is compiled is the tree of the pane if no node has the identity of the target.
Otherwise it is this tree with the first node in pre-order that has it changed in its attributes:
its tag, its text, its identity and its children are kept, and so are all other nodes.  What happens
to an attribute is told by its name.  It is kept unless it is the attribute of a hint, or the node
is on record as an asset of the update's kind and the attribute is one of this kind; and then it is
set or cleared as the field of the update says, and kept if the update leaves the field out. -/
theorem patch_edits_its_target_alone (p : Payload) (target : String) (u : AssetUpdate) :
    let known := (p.assets.get? target).map Asset.kind
    (∀ (c : Compiler) (fresh : Nat → String), patch c fresh p target u =
        (c.compile fresh (serialize (patchedTree p target u)) (patchedText p target u)).map
          fun pane => { pane with
            assets := u.onTable target (p.assets.get? target)
              ((patchTree p.tree target known u).2.map Node.tag) pane.assets }) ∧
      patchedTree p target u =
        (match (preorderAll p.tree).findIdx? fun n => n.id = some target with
        | none => p.tree
        | some i => changeOne
            (fun n => { n with attrs := carryOut (u.changes known) n.attrs }) i p.tree) ∧
      (∀ attrs name, (carryOut (u.changes known) attrs).get? name =
        (u.changeOf known name).onValue (attrs.get? name)) ∧
      ∀ name, u.changeOf known name ≠ .keep →
        name ∈ hintAttributes ∨ known = some u.kind ∧ name ∈ u.kind.attributes := by
  intro known
  refine ⟨fun c fresh => patch_eq c fresh p target u, ?_, fun attrs name => ?_,
    fun name => mem_of_changeOf⟩
  · rw [patchedTree_eq, onNode_eq]
  · exact get?_carryOut attrs (nodup_changes u known)

/-! ## The entry of the target -/

/-- The node of an identity, if each node is changed and keeps its identity. -/
theorem nodeOf?_mapIdx_of_id {ns : List Node} {g : Change} (hid : ∀ k n, (g k n).id = n.id)
    (id : String) : nodeOf? (ns.mapIdx g) id =
      (ns.findIdx? fun n => n.id = some id).bind fun i => ns[i]?.map (g i) := by
  have hmap : ∀ l : List Node, (l.findIdx? fun n => n.id = some id) =
      (l.map Node.id).findIdx? fun i => i = some id := by
    intro l
    rw [List.findIdx?_map]
    rfl
  have hids : (ns.mapIdx g).map Node.id = ns.map Node.id := by
    refine List.ext_getElem? fun k => ?_
    simp only [List.getElem?_map, List.getElem?_mapIdx, Option.map_map]
    exact congrArg (Option.map · _) (funext fun n => hid k n)
  rw [nodeOf?, List.find?_eq_bind_findIdx?_getElem?, hmap, hids, ← hmap]
  simp only [List.getElem?_mapIdx]

/-- **The node of the target** has the update carried out on its attributes. -/
theorem nodeOf?_patchTree_target (tree : List Node) (target : String) (known : Option AssetKind)
    (u : AssetUpdate) :
    (nodeOf? (preorderAll (patchTree tree target known u).1) target).map Node.withoutChildren =
      (nodeOf? (preorderAll tree) target).map fun n => (u.onNode known n).withoutChildren := by
  have hid : ∀ k n, (Node.changed (editOf tree target (u.onNode known)) (0 + k) n).id = n.id := by
    intro k n
    rw [changed_eq]
    exact id_editOf tree target (0 + k) n.withoutChildren
  rw [patchTree_eq, preorderAll_changeAll, nodeOf?_mapIdx_of_id hid, nodeOf?,
    List.find?_eq_bind_findIdx?_getElem?]
  cases hfind : (preorderAll tree).findIdx? fun n => n.id = some target with
  | none => rfl
  | some i =>
    rw [Option.bind_some, Option.bind_some, Option.map_map, Nat.zero_add]
    refine congrArg (Option.map · _) (funext fun n => ?_)
    rw [Function.comp_apply, changed_eq, editOf, hfind]
    simp only [changeAt, if_true]
    rfl

/-- **The entry of the target.**  Take a pane that compiling and patches lead to, and an update for
a target that is a picture, a link or a button by its attributes and on record as such an asset.  If
the tree of the patch is read back as it was written, the patch records what the attributes of the
target told, with the update carried out on it; and the pane that it leads to tells the same by
itself, with the update as it is read. -/
theorem target_entry_of_patch (hp : Reachable p)
    (hfresh : ∀ k, Text.trimmed? (fresh k) = some (fresh k))
    (hinj : ∀ j k, fresh j = fresh k → j = k) (hapart : ∀ k, fresh k ∉ identities p.tree)
    (hpatch : patch c fresh p target u = .ok p')
    (hread : readFragment (splitStyles c.options (serialize (patchedTree p target u))).1 =
      .ok (forestDoms (patchedTree p target u)))
    (hminted : ∀ k, fresh k ≠ target) {a : Asset} (hown : p.assetIn? .verbatim target = some a)
    (hknown : (p.assets.get? target).map Asset.kind = some a.kind) (hkind : u.kind = a.kind) :
    p'.assets.get? target = some (u.onAsset a) ∧
      p'.assetIn? .verbatim target = some (u.asRead.onAsset a) := by
  obtain ⟨n, hn, hasset⟩ := Option.bind_eq_some_iff.1 hown
  have hfaithful := hp.faithful.1 n (List.mem_of_find?_eq_some hn)
  obtain ⟨htext, htag, htold⟩ := of_assetIn?_verbatim hfaithful hasset
  have hextract : Asset.extract? n.tag n.attrs.entries [] (fun _ => none) = some a := by
    have hpicture := Asset.isBackground_of_extract? htag htold
    refine extract?_congr htold hpicture (fun name hname _ => ?_) _ _
    exact (attributeOf?_writtenAttributes_of_allowed n.id hfaithful.attrs hname).symm
  have hnew := assetIn?_onNode htext hfaithful.attrs htag hextract hkind
  have hnode : ∀ styling, (nodeOf? (preorderAll (patchedTree p target u)) target).bind
      (Node.assetIn? styling) = some (u.asRead.onAsset a) := by
    intro styling
    rw [← bind_assetIn?_withoutChildren, patchedTree, hknown, nodeOf?_patchTree_target, hn]
    exact hnew styling
  obtain ⟨pane, hpane, htree, -⟩ := of_patch hpatch
  have hget : pane.assets.get? target = some (u.asRead.onAsset a) := by
    rw [get?_assets_of_recompiled hp hpane hread hinj hapart hminted, hnode]
  have hbackground : (u.asRead.onAsset a).isBackground = false := by
    have hchanged := extract?_onNode (u := u) htag hextract hkind
    exact Asset.isBackground_of_extract? htag hchanged
  rw [patch_eq, hpane] at hpatch
  obtain rfl : _ = p' := Except.ok.inj hpatch
  refine ⟨?_, assetIn?_verbatim_of_recompiled hp hfresh hpane hread hbackground hget⟩
  show (u.onTable target _ _ pane.assets).get? target = _
  rw [AssetUpdate.onTable, Table.get?_insert, if_pos rfl, hget, Option.getD_some, onAsset_asRead]

end

end Pane
