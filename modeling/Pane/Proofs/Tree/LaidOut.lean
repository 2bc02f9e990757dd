import Pane.Tree.Flat

/-!
# What a tree is laid out as

Laying out goes from node to node and carries along what there is so far: a slot is added for each
node, a position is filled in later, an identity is entered unless it is known.  What comes of it
can be told from the tree alone, since a node whose position is given has its children at the
positions behind it, each as far behind its elder sibling as this one has nodes.

**Slots.**  `slotsOf`, `slotsOfAll`, `positionsOf` — the slots and the positions that a tree should
get.  **`slotsOfAll_eq`** — one slot for each node, in pre-order.

**Laying out.**  `grown` — the slots so far with some behind them; **`insert_eq`** — laying out a
tree adds its slots, whatever is there before.

**Looking up.**  **`find?_ofTree`** — what is found under an identity.  `get?_ofTree` — what is
found at a position.
-/

namespace Pane.FlatTree

/-! ## Slots -/

mutual

/-- The slots of a tree whose root has the given position. -/
def slotsOf (position : Nat) : Node → List Slot
  | ⟨tag, attrs, text, children, id⟩ =>
    ⟨⟨tag, attrs, text, [], id⟩, positionsOf (position + 1) children⟩ ::
      slotsOfAll (position + 1) children

/-- The slots of some trees, the first root of which has the given position. -/
def slotsOfAll (position : Nat) : List Node → List Slot
  | [] => []
  | n :: ns => slotsOf position n ++ slotsOfAll (position + n.size) ns

/-- The positions of the roots of some trees, the first of which has the given one. -/
def positionsOf (position : Nat) : List Node → List Nat
  | [] => []
  | n :: ns => position :: positionsOf (position + n.size) ns

end

mutual

/-- The slots of a tree are those of its nodes in pre-order, each with the places of its
children. -/
theorem slotsOf_eq (position : Nat) : ∀ n : Node, slotsOf position n =
    n.preorder.mapIdx fun k m => ⟨m.withoutChildren, positionsOf (position + k + 1) m.children⟩
  | ⟨tag, attrs, text, children, id⟩ => by
      have hshift : (fun (k : Nat) (m : Node) =>
            (⟨m.withoutChildren, positionsOf (position + 1 + k + 1) m.children⟩ : Slot)) =
          fun k m => ⟨m.withoutChildren, positionsOf (position + (k + 1) + 1) m.children⟩ := by
        funext k m
        rw [Nat.add_right_comm position, Nat.add_assoc position]
      rw [slotsOf, slotsOfAll_eq (position + 1) children, Node.preorder, List.mapIdx_cons, hshift]
      rfl

/-- **There is a slot for each node**, in pre-order: it holds the node without its children, which
have the positions behind it. -/
theorem slotsOfAll_eq (position : Nat) : ∀ ns : List Node, slotsOfAll position ns =
    (preorderAll ns).mapIdx fun k m =>
      ⟨m.withoutChildren, positionsOf (position + k + 1) m.children⟩
  | [] => rfl
  | n :: ns => by
      have hshift : (fun (k : Nat) (m : Node) =>
            (⟨m.withoutChildren, positionsOf (position + n.size + k + 1) m.children⟩ : Slot)) =
          fun k m => ⟨m.withoutChildren, positionsOf (position + (k + n.size) + 1) m.children⟩ := by
        funext k m
        rw [Nat.add_assoc position, Nat.add_comm n.size]
      rw [slotsOfAll, slotsOf_eq position n, slotsOfAll_eq (position + n.size) ns, preorderAll,
        List.mapIdx_append, n.length_preorder, hshift]

end

/-- A tree takes as many slots as it has nodes. -/
theorem length_slotsOf (position : Nat) (n : Node) : (slotsOf position n).length = n.size := by
  rw [slotsOf_eq, List.length_mapIdx, n.length_preorder]

theorem length_slotsOfAll (position : Nat) (ns : List Node) :
    (slotsOfAll position ns).length = sizeAll ns := by
  rw [slotsOfAll_eq, List.length_mapIdx, length_preorderAll]

/-- What stands in the slots is the nodes in pre-order, without their children. -/
theorem map_node_slotsOfAll (position : Nat) (ns : List Node) :
    (slotsOfAll position ns).map Slot.node = (preorderAll ns).map Node.withoutChildren := by
  refine List.ext_getElem? fun k => ?_
  simp only [slotsOfAll_eq, List.getElem?_map, List.getElem?_mapIdx, Option.map_map]
  rfl

/-! ## Laying out -/

/-- The index with the identities of some slots, the first of which has the given position. -/
def enterAll (index : List (String × Nat)) (position : Nat) : List Slot → List (String × Nat)
  | [] => index
  | s :: rest => enterAll (enter index s.node.id position) (position + 1) rest

/-- Identities are entered slot by slot. -/
theorem enterAll_append (part' : List Slot) : ∀ (part : List Slot) (index : List (String × Nat))
    (position : Nat), enterAll index position (part ++ part') =
      enterAll (enterAll index position part) (position + part.length) part'
  | [], _, _ => rfl
  | s :: part, index, position => by
      rw [List.cons_append, enterAll, enterAll, enterAll_append part' part, List.length_cons,
        Nat.add_assoc, Nat.add_comm 1]

/-- The slots so far with some behind them, the identities of which are entered. -/
def grown (t : FlatTree) (part : List Slot) : FlatTree :=
  { t with
    slots := t.slots ++ part
    index := enterAll t.index t.slots.length part }

theorem grown_nil (t : FlatTree) : t.grown [] = t := by
  rw [grown, List.append_nil, enterAll]

/-- Slots that are laid out one after the other are laid out together. -/
theorem grown_append (t : FlatTree) (part part' : List Slot) :
    (t.grown part).grown part' = t.grown (part ++ part') := by
  simp only [grown, List.append_assoc, List.length_append, enterAll_append]

/-- The positions of the children that are filled in for a slot behind those so far. -/
theorem link_grown (t : FlatTree) (n : Node) (part : List Slot) (positions : List Nat) :
    (t.grown (⟨n, []⟩ :: part)).link t.slots.length positions =
      t.grown (⟨n, positions⟩ :: part) := by
  have hslots : (t.slots ++ ⟨n, []⟩ :: part).modify t.slots.length
      (fun s => { s with children := positions }) = t.slots ++ ⟨n, positions⟩ :: part := by
    rw [List.modify_eq_take_cons_drop (by simp)]
    simp
  simp only [link, grown, hslots, enterAll]

mutual

/-- **A tree is laid out by its slots**, which come behind those so far. -/
theorem insert_eq (t : FlatTree) :
    ∀ n : Node, t.insert n = (t.grown (slotsOf t.slots.length n), t.slots.length)
  | ⟨tag, attrs, text, children, id⟩ => by
      have hslot : t.addSlot ⟨tag, attrs, text, children, id⟩ =
          t.grown [⟨⟨tag, attrs, text, [], id⟩, []⟩] := rfl
      have hlength : (t.grown [⟨⟨tag, attrs, text, [], id⟩, []⟩]).slots.length =
          t.slots.length + 1 := List.length_append
      rw [insert, hslot, insertAll_eq _ children, hlength]
      dsimp only
      rw [grown_append, List.singleton_append, link_grown, slotsOf]

/-- Laying out a forest behind some slots adds its slots. -/
theorem insertAll_eq (t : FlatTree) : ∀ ns : List Node, insertAll t ns =
    (t.grown (slotsOfAll t.slots.length ns), positionsOf t.slots.length ns)
  | [] => by rw [insertAll, slotsOfAll, positionsOf, grown_nil]
  | n :: ns => by
      have hlength : (t.grown (slotsOf t.slots.length n)).slots.length =
          t.slots.length + n.size := by
        rw [grown, List.length_append, length_slotsOf]
      rw [insertAll, insert_eq t n]
      dsimp only
      rw [insertAll_eq _ ns, hlength, grown_append, slotsOfAll, positionsOf]

end

/-- The slots of a tree that is laid out alone. -/
theorem slots_ofTree (tree : List Node) : (ofTree tree).slots = slotsOfAll 0 tree := by
  rw [ofTree, insertAll_eq]
  rfl

theorem roots_ofTree (tree : List Node) : (ofTree tree).roots = positionsOf 0 tree := by
  rw [ofTree, insertAll_eq]
  rfl

/-- The index of a tree is entered slot by slot. -/
theorem index_ofTree (tree : List Node) :
    (ofTree tree).index = enterAll [] 0 (slotsOfAll 0 tree) := by
  rw [ofTree, insertAll_eq]
  rfl

/-! ## Looking up -/

/-- What is found at a position is the node that comes there in pre-order, without its children. -/
theorem get?_ofTree (tree : List Node) (position : Nat) :
    (ofTree tree).get? position = (preorderAll tree)[position]?.map Node.withoutChildren := by
  rw [get?, slots_ofTree, ← List.getElem?_map, map_node_slotsOfAll, List.getElem?_map]

/-- An identity is entered if it is new. -/
theorem lookup_enter (index : List (String × Nat)) (entered : Option String) (position : Nat)
    (id : String) : (enter index entered position).lookup id =
      (index.lookup id).or (if entered = some id then some position else none) := by
  cases entered with
  | none => simp [enter]
  | some entered =>
    rw [enter]
    by_cases hid : entered = id
    · subst hid
      cases hknown : index.lookup entered with
      | none => simp
      | some found => simp [hknown]
    · have hne : id ≠ entered := fun he => hid he.symm
      simp only [Option.some.injEq, hid, if_false, Option.or_none]
      split
      · rfl
      · rw [Table.lookup_cons_ite, if_neg hne]

/-- Of several slots with one identity the first is found, unless the identity was known before. -/
theorem lookup_enterAll (id : String) : ∀ (slots : List Slot) (index : List (String × Nat))
    (position : Nat), (enterAll index position slots).lookup id =
      (index.lookup id).or
        ((slots.findIdx? fun s => s.node.id = some id).map (position + ·))
  | [], index, _ => by simp [enterAll]
  | s :: slots, index, position => by
      have hshift : (fun k => position + (k + 1)) = fun k => position + 1 + k := by
        funext k
        omega
      rw [enterAll, lookup_enterAll id slots, lookup_enter, Option.or_assoc, List.findIdx?_cons]
      by_cases hs : s.node.id = some id
      · simp [hs]
      · simp [hs, Function.comp_def, hshift]

/-- **What is found under an identity** is the position of the first node that has it. -/
theorem find?_ofTree (tree : List Node) (id : String) :
    (ofTree tree).find? id = (preorderAll tree).findIdx? fun n => n.id = some id := by
  have hslots : (slotsOfAll 0 tree).findIdx? (fun s => s.node.id = some id) =
      ((slotsOfAll 0 tree).map Slot.node).findIdx? fun n => n.id = some id := by
    rw [List.findIdx?_map]
    rfl
  rw [find?, index_ofTree, lookup_enterAll, hslots, map_node_slotsOfAll, List.findIdx?_map]
  simp only [Nat.zero_add, Option.map_id', List.lookup_nil, Option.none_or]
  rfl

end Pane.FlatTree
