import Pane.Tree.Node

/-!
# Trees as a flat list of slots

An edit addresses one node by its identity.  For that a tree is laid out flat: a slot for each node
in pre-order, holding the node without its children and the positions of those.  A node gets its
slot when it is reached; the positions of its children are known, and filled in, once everything
below it has been laid out.  The identities are indexed on the way, and of several nodes with one
identity the first is found.

Putting the slots together again takes every node out of its slot, so no slot can be used twice, and
takes the children from the positions only.  So whatever an edit writes into the children of a
slot's node is without effect.

* `FlatTree` — slots, roots and index.
* `FlatTree.ofTree`, `FlatTree.toTree` — laying out and putting together.
* `FlatTree.find?`, `FlatTree.get?`, `FlatTree.modify` — access by identity and position.
-/

namespace Pane

/-- A node without its children, and their positions. -/
structure Slot where
  node : Node
  children : List Nat
  deriving DecidableEq

/-- A tree laid out flat. -/
structure FlatTree where
  slots : List Slot
  roots : List Nat
  index : List (String × Nat)
  deriving DecidableEq

namespace FlatTree

def empty : FlatTree := ⟨[], [], []⟩

/-! ## Laying out -/

/-- The index with the identity of a node, unless the identity is in it already. -/
def enter (index : List (String × Nat)) (id : Option String) (position : Nat) :
    List (String × Nat) :=
  match id with
  | none => index
  | some id => if (index.lookup id).isSome then index else (id, position) :: index

/-- The slots so far and one for a node, of whose children nothing is known yet. -/
def addSlot (t : FlatTree) (n : Node) : FlatTree :=
  { t with
    slots := t.slots ++ [⟨n.withoutChildren, []⟩]
    index := enter t.index n.id t.slots.length }

/-- The slots with the positions of the children filled in for the node at a position. -/
def link (t : FlatTree) (position : Nat) (children : List Nat) : FlatTree :=
  { t with slots := t.slots.modify position fun s => { s with children := children } }

mutual

/-- A node laid out behind the slots so far, and its position. -/
def insert (t : FlatTree) : Node → FlatTree × Nat
  | ⟨tag, attrs, text, children, id⟩ =>
    let position := t.slots.length
    let (filled, positions) := insertAll (t.addSlot ⟨tag, attrs, text, children, id⟩) children
    (filled.link position positions, position)

/-- Some trees laid out one behind the other, and the positions of their roots. -/
def insertAll (t : FlatTree) : List Node → FlatTree × List Nat
  | [] => (t, [])
  | n :: ns =>
    let (t, position) := t.insert n
    let (t, positions) := insertAll t ns
    (t, position :: positions)

end

def ofTree (tree : List Node) : FlatTree :=
  let (t, roots) := insertAll empty tree
  { t with roots := roots }

/-! ## Access -/

def size (t : FlatTree) : Nat := t.slots.length

/-- The position of the first node that had the identity when the tree was laid out. -/
def find? (t : FlatTree) (id : String) : Option Nat := t.index.lookup id

def get? (t : FlatTree) (position : Nat) : Option Node := t.slots[position]?.map Slot.node

/-- The positions of the children of the node at a position. -/
def childrenOf (t : FlatTree) (position : Nat) : List Nat :=
  (t.slots[position]?.map Slot.children).getD []

/-- The tree with the node at a position changed in place. -/
def modify (t : FlatTree) (position : Nat) (change : Node → Node) : FlatTree :=
  { t with slots := t.slots.modify position fun s => { s with node := change s.node } }

/-! ## Putting together -/

/-- The nodes at some positions, taken one after the other out of the nodes that are left, and what
is left then; `below` puts together what is below a node, from the positions of its children.  Where
there is no node left, nothing is taken. -/
def takeEach (links : List (List Nat))
    (below : List Nat → List (Option Node) → List Node × List (Option Node)) :
    List Nat → List (Option Node) → List Node × List (Option Node)
  | [], left => ([], left)
  | p :: ps, left =>
    match left[p]?.join with
    | none => takeEach links below ps left
    | some n =>
      let (children, left) := below (links[p]?.getD []) (left.set p none)
      let (behind, left) := takeEach links below ps left
      ({ n with children := children } :: behind, left)

/-- The nodes at some positions with what is below them; `depth` bounds the levels. -/
def assemble (links : List (List Nat)) :
    Nat → List Nat → List (Option Node) → List Node × List (Option Node)
  | 0 => fun _ left => ([], left)
  | depth + 1 => takeEach links (assemble links depth)

/-- The tree that was laid out, with the changes made since.  No level is without a slot, so there
are no more levels than slots. -/
def toTree (t : FlatTree) : List Node :=
  (assemble (t.slots.map Slot.children) t.slots.length t.roots
    (t.slots.map fun s => some s.node)).1

end FlatTree

end Pane
