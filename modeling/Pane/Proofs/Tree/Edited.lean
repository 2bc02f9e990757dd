import Pane.Proofs.Tree.LaidOut
import Pane.Proofs.Tree.Walk

/-!
# Editing a tree that is laid out flat

A change in place of one slot is meant to change one node, and nothing else of the tree.  This is
made precise by the tree in which the node at each position of the pre-order is changed in its own
way.  Putting slots together gives that tree, whatever the changes are, and without a change it
gives the tree that was laid out.

**Changed trees.**  `Node.changed`, `changeAll` — a tree with the node at each position changed.
**`preorderAll_changeAll`** — the nodes of a changed tree.  `Node.changedAt`, `changeOne` — a tree
with one node changed; **`changeAll_changeAt`** — it is the tree in which all other changes are
none.

**Putting together.**  The nodes are taken out of their slots in the order of the positions, so
those that are left are always the ones from some position on: `leftFrom`.  `FlatTree.Holds` — where
the slots of a part of the tree are found; **`assemble_positionsOf`** — they are put together, and
the slots behind them are left.

**Edits.**  `FlatTree.Carries` — the tree that was laid out and the changes made since.
`Carries.modify` — one more change; **`toTree_edits`** — the tree after any number of changes.
**`flat_tree_restores_tree`** — a flat tree and the tree it was made of.
-/

namespace Pane

/-! ## Changed trees -/

/-- A change for each position of the pre-order.  It bears on what a node has of its own. -/
abbrev Change := Nat → Node → Node

/-- The change of the node at one position. -/
def changeAt (i : Nat) (change : Node → Node) : Change := fun k n => if k = i then change n else n

/-- Changes, after which the node at one position is changed once more. -/
def Change.andAt (g : Change) (i : Nat) (change : Node → Node) : Change :=
  fun k n => if k = i then change (g k n) else g k n

mutual

/-- A node and the nodes below it, changed; its position is given. -/
def Node.changed (g : Change) (position : Nat) : Node → Node
  | ⟨tag, attrs, text, children, id⟩ =>
    { g position ⟨tag, attrs, text, [], id⟩ with children := changeAll g (position + 1) children }

/-- Some trees with their nodes changed; the position of the first root is given. -/
def changeAll (g : Change) (position : Nat) : List Node → List Node
  | [] => []
  | n :: ns => n.changed g position :: changeAll g (position + n.size) ns

end

mutual

/-- A change that changes nothing leaves a tree as it is. -/
theorem Node.changed_self (position : Nat) : ∀ n : Node, n.changed (fun _ n => n) position = n
  | ⟨tag, attrs, text, children, id⟩ => by rw [Node.changed, changeAll_self (position + 1) children]

/-- Without a change the tree stays what it is. -/
theorem changeAll_self (position : Nat) :
    ∀ ns : List Node, changeAll (fun _ n => n) position ns = ns
  | [] => rfl
  | n :: ns => by
      rw [changeAll, Node.changed_self position n, changeAll_self (position + n.size) ns]

end

mutual

/-- The nodes of a changed tree in pre-order are those of the tree, each changed at its place. -/
theorem Node.preorder_changed (g : Change) (position : Nat) :
    ∀ n : Node, (n.changed g position).preorder =
      n.preorder.mapIdx fun k m => m.changed g (position + k)
  | ⟨tag, attrs, text, children, id⟩ => by
      have hbelow := preorderAll_changeAll g (position + 1) children
      have hshift : (fun k m => Node.changed g (position + 1 + k) m) =
          fun k m => Node.changed g (position + (k + 1)) m := by
        funext k m
        rw [Nat.add_right_comm, Nat.add_assoc]
      rw [hshift] at hbelow
      rw [Node.preorder, List.mapIdx_cons, ← hbelow, Node.changed]
      rfl

/-- **The nodes of a changed tree**, in pre-order, are those of the tree, each of them changed. -/
theorem preorderAll_changeAll (g : Change) (position : Nat) :
    ∀ ns : List Node, preorderAll (changeAll g position ns) =
      (preorderAll ns).mapIdx fun k m => m.changed g (position + k)
  | [] => rfl
  | n :: ns => by
      have hns := preorderAll_changeAll g (position + n.size) ns
      have hshift : (fun k m => Node.changed g (position + n.size + k) m) =
          fun k m => Node.changed g (position + (k + n.preorder.length)) m := by
        funext k m
        rw [n.length_preorder, Nat.add_assoc, Nat.add_comm k]
      rw [hshift] at hns
      rw [changeAll, preorderAll, preorderAll, List.mapIdx_append, ← hns,
        Node.preorder_changed g position n]

end

mutual

/-- A tree is changed by what a change does at the places of its nodes. -/
theorem Node.changed_congr {g g' : Change} : ∀ (n : Node) (position : Nat),
    (∀ k m, position ≤ k → k < position + n.size → g k m = g' k m) →
      n.changed g position = n.changed g' position
  | ⟨tag, attrs, text, children, id⟩, position, h => by
      rw [Node.size] at h
      have hown := h position ⟨tag, attrs, text, [], id⟩ (by omega) (by omega)
      have hbelow := changeAll_congr children (position + 1) fun k m _ _ =>
        h k m (by omega) (by omega)
      rw [Node.changed, Node.changed, hown, hbelow]

/-- A changed tree depends on the changes at its positions only. -/
theorem changeAll_congr {g g' : Change} : ∀ (ns : List Node) (position : Nat),
    (∀ k m, position ≤ k → k < position + sizeAll ns → g k m = g' k m) →
      changeAll g position ns = changeAll g' position ns
  | [], _, _ => rfl
  | n :: ns, position, h => by
      rw [sizeAll] at h
      have hn := n.changed_congr position fun k m _ _ => h k m (by omega) (by omega)
      have hns := changeAll_congr ns (position + n.size) fun k m _ _ => h k m (by omega) (by omega)
      rw [changeAll, changeAll, hn, hns]

end

/-! ## One node changed -/

mutual

/-- A node with one of the nodes of its pre-order changed, the node itself being the first.  The
change bears on what that node has of its own; its children stay. -/
def Node.changedAt (change : Node → Node) (i : Nat) : Node → Node
  | ⟨tag, attrs, text, children, id⟩ =>
    match i with
    | 0 => { change ⟨tag, attrs, text, [], id⟩ with children := children }
    | i + 1 => ⟨tag, attrs, text, changeOne change i children, id⟩

/-- Some trees with one of the nodes of their pre-order changed, and all else kept. -/
def changeOne (change : Node → Node) (i : Nat) : List Node → List Node
  | [] => []
  | n :: ns =>
    if i < n.size then n.changedAt change i :: ns else n :: changeOne change (i - n.size) ns

end

section changeAt

variable {change : Node → Node}

/-- A node whose pre-order the position is not in is left as it is. -/
theorem Node.changed_changeAt_of_not_mem {n : Node} {i position : Nat}
    (h : i < position ∨ position + n.size ≤ i) : n.changed (changeAt i change) position = n := by
  refine (n.changed_congr position fun k m hle hlt => ?_).trans (Node.changed_self position n)
  exact if_neg (by omega)

/-- A change in front of a forest does not meet it. -/
theorem changeAll_changeAt_of_lt {ns : List Node} {i position : Nat} (h : i < position) :
    changeAll (changeAt i change) position ns = ns := by
  refine (changeAll_congr ns position fun k m hle hlt => ?_).trans (changeAll_self position ns)
  exact if_neg (by omega)

mutual

/-- The change at one place within a tree. -/
theorem Node.changed_changeAt (position : Nat) : ∀ (n : Node) {i : Nat}, i < n.size →
    n.changed (changeAt (position + i) change) position = n.changedAt change i
  | ⟨tag, attrs, text, children, id⟩, 0, _ => by
      rw [Node.changed, Node.changedAt, Nat.add_zero, changeAll_changeAt_of_lt (Nat.lt_succ_self _),
        changeAt, if_pos rfl]
  | ⟨tag, attrs, text, children, id⟩, i + 1, _ => by
      have hbelow := changeAll_changeAt (position + 1) children i
      rw [Nat.add_assoc, Nat.add_comm 1] at hbelow
      have hown : changeAt (position + (i + 1)) change position ⟨tag, attrs, text, [], id⟩ =
          ⟨tag, attrs, text, [], id⟩ := if_neg (by omega)
      rw [Node.changed, Node.changedAt, hown, hbelow]

/-- **A change at one position changes the node there**, and all else is kept. -/
theorem changeAll_changeAt (position : Nat) : ∀ (ns : List Node) (i : Nat),
    changeAll (changeAt (position + i) change) position ns = changeOne change i ns
  | [], _ => rfl
  | n :: ns, i => by
      rw [changeAll, changeOne]
      split
      · next hlt =>
        rw [Node.changed_changeAt position n hlt, changeAll_changeAt_of_lt (by omega)]
      · next hle =>
        have hns := changeAll_changeAt (position + n.size) ns (i - n.size)
        rw [show position + n.size + (i - n.size) = position + i by omega] at hns
        rw [Node.changed_changeAt_of_not_mem (.inr (by omega)), hns]

end

theorem changeAll_changeAt_zero (ns : List Node) (i : Nat) :
    changeAll (changeAt i change) 0 ns = changeOne change i ns := by
  rw [← changeAll_changeAt 0 ns i, Nat.zero_add]

end changeAt

namespace FlatTree

/-! ## Putting together -/

/-- Where some slots, each of them changed, stand among others: from a position on. -/
def Holds (g : Change) (slots : List Slot) (position : Nat) (part : List Slot) : Prop :=
  ∀ (k : Nat) (s : Slot), part[k]? = some s →
    slots[position + k]? = some { s with node := g (position + k) s.node }

section holds

variable {g : Change} {slots part part' : List Slot} {position : Nat}

/-- Slots that hold a part hold the front of it. -/
theorem Holds.left (h : Holds g slots position (part ++ part')) : Holds g slots position part := by
  intro k s hk
  refine h k s ?_
  rw [List.getElem?_append_left (List.getElem?_eq_some_iff.1 hk).1]
  exact hk

/-- They hold the back of it too. -/
theorem Holds.right (h : Holds g slots position (part ++ part')) :
    Holds g slots (position + part.length) part' := by
  intro k s hk
  have hget := h (part.length + k) s (by
    rw [List.getElem?_append_right (Nat.le_add_right ..), Nat.add_sub_cancel_left]
    exact hk)
  rwa [Nat.add_assoc]

theorem Holds.tail {s : Slot} (h : Holds g slots position (s :: part)) :
    Holds g slots (position + 1) part := by
  intro k s' hk
  have hget := h (k + 1) s' hk
  rwa [Nat.add_comm k, ← Nat.add_assoc] at hget

/-- One slot changed once more. -/
theorem Holds.modify (h : Holds g slots position part) (i : Nat) (change : Node → Node) :
    Holds (g.andAt i change) (slots.modify i fun s => { s with node := change s.node })
      position part := by
  intro k s hk
  rw [List.getElem?_modify, h k s hk, Change.andAt]
  by_cases hi : position + k = i
  · simp [hi]
  · simp [hi, Ne.symm hi]

end holds

/-- The nodes that are left when those in front of a position have been taken. -/
def leftFrom (slots : List Slot) (position : Nat) : List (Option Node) :=
  slots.mapIdx fun k s => if k < position then none else some s.node

section left

variable (slots : List Slot)

theorem leftFrom_zero : leftFrom slots 0 = slots.map fun s => some s.node := by
  refine List.ext_getElem? fun k => ?_
  simp [leftFrom]

/-- The node at the position is still there. -/
theorem join_leftFrom (position : Nat) :
    (leftFrom slots position)[position]?.join = slots[position]?.map Slot.node := by
  cases h : slots[position]? <;> simp [leftFrom, h]

/-- When it is taken, the nodes from the next position on are left. -/
theorem set_leftFrom (position : Nat) :
    (leftFrom slots position).set position none = leftFrom slots (position + 1) := by
  refine List.ext_getElem? fun k => ?_
  rw [List.getElem?_set, leftFrom, leftFrom, List.getElem?_mapIdx, List.getElem?_mapIdx,
    List.length_mapIdx]
  by_cases hk : position = k
  · subst hk
    by_cases hlt : position < slots.length
    · simp [hlt]
    · simp [hlt]
  · have hiff : k < position ↔ k < position + 1 := by omega
    simp [hk, hiff]

end left

/-- **Slots that are changed are put together to the changed tree**, and what is left are the nodes
behind them: none of them has been taken before, and each is taken once.  By induction on the depth,
and for each depth on the trees. -/
theorem assemble_positionsOf {g : Change} {slots : List Slot} :
    ∀ (depth : Nat) (ns : List Node) (position : Nat), sizeAll ns ≤ depth →
      Holds g slots position (slotsOfAll position ns) →
      assemble (slots.map Slot.children) depth (positionsOf position ns) (leftFrom slots position) =
        (changeAll g position ns, leftFrom slots (position + sizeAll ns))
  | 0, [], _, _, _ => rfl
  | 0, ⟨_, _, _, _, _⟩ :: _, _, hsize, _ => by
      rw [sizeAll, Node.size] at hsize
      omega
  | depth + 1, [], _, _, _ => rfl
  | depth + 1, ⟨tag, attrs, text, children, id⟩ :: ns, position, hsize, hholds => by
      rw [sizeAll, Node.size] at hsize
      rw [slotsOfAll, slotsOf] at hholds
      have hroot := hholds 0 _ rfl
      rw [Nat.add_zero] at hroot
      have hbelow := assemble_positionsOf depth children (position + 1) (by omega) hholds.left.tail
      have hholds' := hholds.right
      rw [List.length_cons, length_slotsOfAll, ← Node.size] at hholds'
      have hbehind := assemble_positionsOf (depth + 1) ns _ (by omega) hholds'
      have hlinks : (slots.map Slot.children)[position]?.getD [] =
          positionsOf (position + 1) children := by
        rw [List.getElem?_map, hroot]
        rfl
      have hnext : position + 1 + sizeAll children =
          position + (⟨tag, attrs, text, children, id⟩ : Node).size := by
        rw [Node.size]
        omega
      rw [assemble] at hbehind
      rw [positionsOf, assemble, takeEach, join_leftFrom, hroot, hlinks, set_leftFrom]
      dsimp only [Option.map_some]
      rw [hbelow]
      dsimp only
      rw [hnext, hbehind, changeAll, Node.changed, sizeAll, Nat.add_assoc]

/-! ## Edits -/

/-- A flat tree that a tree was laid out as, with changes made since. -/
structure Carries (g : Change) (tree : List Node) (t : FlatTree) : Prop where
  roots : t.roots = positionsOf 0 tree
  length : t.slots.length = sizeAll tree
  slots : Holds g t.slots 0 (slotsOfAll 0 tree)

/-- A tree that was laid out carries itself. -/
theorem carries_ofTree (tree : List Node) : Carries (fun _ n => n) tree (ofTree tree) where
  roots := roots_ofTree tree
  length := by rw [slots_ofTree, length_slotsOfAll]
  slots := by
    intro k s hk
    rw [slots_ofTree, Nat.zero_add]
    exact hk

section carries

variable {g : Change} {tree : List Node} {t : FlatTree}

/-- One more change. -/
theorem Carries.modify (h : Carries g tree t) (i : Nat) (change : Node → Node) :
    Carries (g.andAt i change) tree (t.modify i change) where
  roots := h.roots
  length := (List.length_modify ..).trans h.length
  slots := h.slots.modify i change

/-- Any number of changes, one after the other. -/
theorem Carries.edits (h : Carries g tree t) (edits : List (Nat × (Node → Node))) :
    Carries (edits.foldl (fun g e => g.andAt e.1 e.2) g) tree
      (edits.foldl (fun t e => t.modify e.1 e.2) t) := by
  induction edits generalizing g t with
  | nil => exact h
  | cons e edits ih => exact ih (h.modify e.1 e.2)

/-- What is put together is the tree with the changes. -/
theorem Carries.toTree (h : Carries g tree t) : t.toTree = changeAll g 0 tree := by
  rw [FlatTree.toTree, h.roots, h.length, ← leftFrom_zero,
    assemble_positionsOf _ tree 0 (Nat.le_refl _) h.slots]

end carries

/-- **The tree after any number of changes**: the node at each position has been changed by those
made there, in their order. -/
theorem toTree_edits (tree : List Node) (edits : List (Nat × (Node → Node))) :
    (edits.foldl (fun t e => t.modify e.1 e.2) (ofTree tree)).toTree =
      changeAll (edits.foldl (fun g e => g.andAt e.1 e.2) fun _ n => n) 0 tree :=
  ((carries_ofTree tree).edits edits).toTree

/-- **Laying out loses nothing.** -/
theorem toTree_ofTree (tree : List Node) : (ofTree tree).toTree = tree := by
  rw [(carries_ofTree tree).toTree, changeAll_self]

/-- **A slot that is changed in place** changes the node at its position, and no other. -/
theorem toTree_modify (tree : List Node) (i : Nat) (change : Node → Node) :
    ((ofTree tree).modify i change).toTree = changeAll (changeAt i change) 0 tree :=
  toTree_edits tree [(i, change)]

/-- **A flat tree is the tree it was made of.**  It has a slot for each node, in pre-order and
without its children; an identity leads to the first node in pre-order that has it, if there is one;
and it is put together to the tree again.  If a node is changed in place, in whatever way, be it
that the change writes children, it is put together to the tree in which what this node has of its
own is changed: its children and all other nodes are those of the tree. -/
theorem flat_tree_restores_tree (tree : List Node) :
    (ofTree tree).size = (preorderAll tree).length ∧
      (∀ i, (ofTree tree).get? i = (preorderAll tree)[i]?.map Node.withoutChildren) ∧
      (∀ id, (ofTree tree).find? id = (preorderAll tree).findIdx? fun n => n.id = some id) ∧
      (ofTree tree).toTree = tree ∧
      ∀ (i : Nat) (change : Node → Node),
        ((ofTree tree).modify i change).toTree = changeOne change i tree := by
  refine ⟨?_, get?_ofTree tree, find?_ofTree tree, toTree_ofTree tree, fun i change => ?_⟩
  · rw [size, slots_ofTree, length_slotsOfAll, length_preorderAll]
  · rw [toTree_modify, changeAll_changeAt_zero]

/-- A change that drops the children of a node renames it only. -/
example :
    let b : Node := ⟨"b", Table.empty, none, [], some "x"⟩
    ((ofTree [⟨"a", Table.empty, none, [b], some "x"⟩]).modify 0
      fun n => { n with tag := "c", children := [] }).toTree =
        [⟨"c", Table.empty, none, [b], some "x"⟩] := rfl

end FlatTree

end Pane
