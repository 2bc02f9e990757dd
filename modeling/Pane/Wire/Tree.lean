import Pane.Tree.Node
import Pane.Wire.Record

/-!
# Trees in JSON

A node is written as an object that leaves out what is empty or absent, and only its tag is needed
to read it back.  Reading follows the structure of the value, so it ends whatever the depth.

* `nodeToJson`, `treeToJson` — the value of a node and of a tree.
* `node?`, `tree?` — the node and the tree of a value.
-/

namespace Pane.Wire

/-! ## Writing -/

mutual

def nodeToJson : Node → Json
  | ⟨tag, attrs, text, children, id⟩ =>
    .obj (("tag", .str tag) ::
      (if attrs.entries.isEmpty then [] else [("attrs", tableToJson .str attrs)]) ++
      presentMember "text" text ++
      (if children.isEmpty then [] else [("children", .arr (nodesToJson children))]) ++
      presentMember "id" id)

def nodesToJson : List Node → List Json
  | [] => []
  | n :: ns => nodeToJson n :: nodesToJson ns

end

def treeToJson (tree : List Node) : Json := .arr (nodesToJson tree)

/-! ## Reading -/

/-- The fields of a node that have been read. -/
structure NodeDraft where
  tag : Option String := none
  attrs : Option (Table String) := none
  text : Option (Option String) := none
  children : Option (List Node) := none
  id : Option (Option String) := none

/-- A field set for the first time, if its value can be read. -/
def setOnce {α : Type} (current : Option α) (value : Option α) : Option (Option α) :=
  if current.isSome then none else value.map some

namespace NodeDraft

/-- A draft with a field read, the children excepted; a name that is unknown changes nothing. -/
def put? (d : NodeDraft) (name : String) (v : Json) : Option NodeDraft :=
  if name = "tag" then (setOnce d.tag (string? v)).map fun x => { d with tag := x }
  else if name = "attrs" then
    (setOnce d.attrs (table? string? v)).map fun x => { d with attrs := x }
  else if name = "text" then (setOnce d.text (stringOrNull? v)).map fun x => { d with text := x }
  else if name = "id" then (setOnce d.id (stringOrNull? v)).map fun x => { d with id := x }
  else some d

/-- The node of a draft that has a tag. -/
def node? (d : NodeDraft) : Option Node :=
  d.tag.map fun tag =>
    ⟨tag, d.attrs.getD Table.empty, d.text.getD none, d.children.getD [], d.id.getD none⟩

end NodeDraft

/-- The names of the fields of a node, in their order. -/
def nodeFields : List String := ["tag", "attrs", "text", "children", "id"]

mutual

def node? : Json → Option Node
  | .obj members => (memberDraft? {} members).bind NodeDraft.node?
  | .arr items => (itemDraft? nodeFields {} items).bind NodeDraft.node?
  | _ => none

def nodes? : Json → Option (List Node)
  | .arr items => nodeList? items
  | _ => none

def nodeList? : List Json → Option (List Node)
  | [] => some []
  | v :: vs =>
    match node? v, nodeList? vs with
    | some n, some ns => some (n :: ns)
    | _, _ => none

/-- A draft with the members of an object read. -/
def memberDraft? (d : NodeDraft) : List (String × Json) → Option NodeDraft
  | [] => some d
  | (name, v) :: rest =>
    if name = "children" then
      match setOnce d.children (nodes? v) with
      | some x => memberDraft? { d with children := x } rest
      | none => none
    else
      match d.put? name v with
      | some d => memberDraft? d rest
      | none => none

/-- A draft with the items of an array read, each as the field of the name at its place. -/
def itemDraft? (names : List String) (d : NodeDraft) : List Json → Option NodeDraft
  | [] => some d
  | v :: vs =>
    match names with
    | [] => none
    | name :: names =>
      if name = "children" then
        match setOnce d.children (nodes? v) with
        | some x => itemDraft? names { d with children := x } vs
        | none => none
      else
        match d.put? name v with
        | some d => itemDraft? names d vs
        | none => none

end

def tree? (v : Json) : Option (List Node) := nodes? v

end Pane.Wire
