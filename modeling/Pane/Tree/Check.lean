import Pane.Error
import Pane.Tree.Node
import Pane.Tree.Vocabulary

/-!
# The rules of a released tree

A tree that leaves the compiler keeps four rules: identities are not empty, no two nodes share one,
nodes keep allowed attributes only, and runs of text have no children.  The check walks in pre-order
and reports the first breach it meets; within a node the order is identity, attributes, children.

* `checkNode`, `checkForest` — the walk; it carries the identities that are taken.
* `checkTree` — the check of a whole tree.
* `checkIdentity_eq_ok_iff` — when the identity of a node passes.
-/

namespace Pane

/-- The identities taken behind a node, if its own is neither empty nor taken. -/
def checkIdentity (tag : String) (taken : List String) :
    Option String → Except CompileError (List String)
  | none => .ok taken
  | some id =>
    if id = "" then .error (.emptyIdentity tag)
    else if id ∈ taken then .error (.duplicateIdentity id tag)
    else .ok (id :: taken)

/-- The first attribute that no node may keep. -/
def forbiddenAttribute? (attrs : Table String) : Option String :=
  attrs.keys.find? fun name => !isAllowedAttribute name

/-- The identities taken behind a node, children not counted, if the node itself keeps the rules. -/
def checkSelf (n : Node) (taken : List String) : Except CompileError (List String) := do
  let taken ← checkIdentity n.tag taken n.id
  match forbiddenAttribute? n.attrs with
  | some name => .error (.attributeNotAllowed name n.tag)
  | none =>
    if n.isText && !n.children.isEmpty then .error .textWithChildren else .ok taken

mutual

/-- The identities taken behind a node, if it and all below it keep the rules. -/
def checkNode : Node → List String → Except CompileError (List String)
  | ⟨tag, attrs, text, children, id⟩, taken => do
    checkForest children (← checkSelf ⟨tag, attrs, text, children, id⟩ taken)

/-- The identities taken behind some nodes, if they and all below them keep the rules. -/
def checkForest : List Node → List String → Except CompileError (List String)
  | [], taken => .ok taken
  | n :: ns, taken => do checkForest ns (← checkNode n taken)

end

/-- Checks the rules of a released tree. -/
def checkTree (tree : List Node) : Except CompileError Unit :=
  (checkForest tree []).map fun _ => ()

/-- The identity of a node passes if there is none, or if it is new and has characters. -/
theorem checkIdentity_eq_ok_iff {tag : String} {taken taken' : List String} {id : Option String} :
    checkIdentity tag taken id = .ok taken' ↔
      (∀ i, id = some i → i ≠ "" ∧ i ∉ taken) ∧ taken' = id.toList ++ taken := by
  cases id with
  | none => simp [checkIdentity, eq_comm]
  | some i =>
    by_cases h : i = ""
    · simp [checkIdentity, h]
    · by_cases h' : i ∈ taken
      · simp [checkIdentity, h, h']
      · simp [checkIdentity, h, h', eq_comm]

end Pane
