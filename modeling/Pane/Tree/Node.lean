import Pane.Table

/-!
# Nodes of a pane

A pane is a list of trees.  An element has a tag, attributes in the order of their names, children
and perhaps an identity; a run of text is a node with the tag `text`, which has content in place of
children.  Nothing in the type keeps the two apart: trees also arrive from outside, and `checkTree`
is what tells the good ones.

* `Node` — the nodes, with decidable equality.
* `Node.preorder`, `preorderAll` — a node, then the nodes below it, child by child.
* `identities` — the identities of some trees in that order.
* **`length_preorderAll`** — pre-order meets each node once: as many as `sizeAll` counts.
-/

namespace Pane

/-- A node: an element with its attributes and children, or a run of text with its content.  An
identity may be had by either. -/
structure Node where
  tag : String
  attrs : Table String := Table.empty
  text : Option String := none
  children : List Node := []
  id : Option String := none

namespace Node

/-- The tag of a run of text, which an element of drawings may have as well. -/
def textTag : String := "text"

/-- An element that has nothing but a tag. -/
def element (tag : String) : Node := { tag := tag }

/-- A run of text. -/
def ofText (content : String) (id : Option String) : Node :=
  { tag := textTag, text := some content, id := id }

/-- Whether a node counts as a run of text. -/
def isText (n : Node) : Bool := n.tag = textTag

/-- What a node has of its own. -/
def withoutChildren (n : Node) : Node := { n with children := [] }

instance : Inhabited Node := ⟨element ""⟩

/-! ## Equality -/

mutual

/-- Equality of nodes is decided along the trees below them. -/
def decideEq : (a b : Node) → Decidable (a = b)
  | ⟨t, as, x, cs, i⟩, ⟨t', as', x', cs', i'⟩ =>
    if h : t = t' ∧ as = as' ∧ x = x' ∧ i = i' then
      match decideEqAll cs cs' with
      | isTrue hc => isTrue (by rw [h.1, h.2.1, h.2.2.1, h.2.2.2, hc])
      | isFalse hc => isFalse (by intro e; cases e; exact hc rfl)
    else isFalse (by intro e; cases e; exact h ⟨rfl, rfl, rfl, rfl⟩)

def decideEqAll : (as bs : List Node) → Decidable (as = bs)
  | [], [] => isTrue rfl
  | [], _ :: _ => isFalse (by simp)
  | _ :: _, [] => isFalse (by simp)
  | a :: as, b :: bs =>
    match decideEq a b, decideEqAll as bs with
    | isTrue h, isTrue h' => isTrue (by rw [h, h'])
    | isFalse h, _ => isFalse (by intro e; cases e; exact h rfl)
    | _, isFalse h => isFalse (by intro e; cases e; exact h rfl)

end

end Node

instance : DecidableEq Node := Node.decideEq

/-! ## Pre-order -/

mutual

/-- A node and the nodes below it, in pre-order. -/
def Node.preorder : Node → List Node
  | ⟨t, as, x, cs, i⟩ => ⟨t, as, x, cs, i⟩ :: preorderAll cs

/-- The nodes of some trees, one tree after the other. -/
def preorderAll : List Node → List Node
  | [] => []
  | n :: ns => n.preorder ++ preorderAll ns

end

mutual

/-- The number of nodes of a tree. -/
def Node.size : Node → Nat
  | ⟨_, _, _, cs, _⟩ => sizeAll cs + 1

/-- The number of nodes of some trees. -/
def sizeAll : List Node → Nat
  | [] => 0
  | n :: ns => n.size + sizeAll ns

end

/-- The identities of some trees in pre-order, repetitions included. -/
def identities (tree : List Node) : List String := (preorderAll tree).filterMap Node.id

mutual

theorem Node.length_preorder : ∀ n : Node, n.preorder.length = n.size
  | ⟨_, _, _, cs, _⟩ => by rw [Node.preorder, Node.size, List.length_cons, length_preorderAll cs]

/-- **Pre-order meets each node once.** -/
theorem length_preorderAll : ∀ ns : List Node, (preorderAll ns).length = sizeAll ns
  | [] => rfl
  | n :: ns => by
      rw [preorderAll, sizeAll, List.length_append, n.length_preorder, length_preorderAll ns]

end

end Pane
