import Pane.Tree.Node
import Pane.Tree.Vocabulary

/-!
# Writing a tree as markup

The markup of a tree shows everything that is needed to read it back: attributes in the order of
their names, the identity of an element as a last attribute, and the identity of a run of text as a
comment in front of it.  Text and attribute values are escaped so that neither can be left early.

* `escapeText`, `escapeAttribute` — the escapes.
* `Node.chars`, `forestChars` — the markup of a node and of a forest.
* `serialize` — the markup of a tree as a string.
-/

namespace Pane

/-! ## Escapes -/

/-- A character of running text as it is written. -/
def escapeTextChar (c : Char) : List Char :=
  if c = '&' then "&amp;".toList
  else if c = '<' then "&lt;".toList
  else if c = '>' then "&gt;".toList
  else [c]

/-- A character of a quoted attribute value as it is written. -/
def escapeAttributeChar (c : Char) : List Char :=
  if c = '&' then "&amp;".toList
  else if c = '"' then "&quot;".toList
  else if c = '<' then "&lt;".toList
  else if c = '>' then "&gt;".toList
  else [c]

def escapeText (s : List Char) : List Char := s.flatMap escapeTextChar

/-- The inside of a quoted attribute value as it is written. -/
def escapeAttribute (s : List Char) : List Char := s.flatMap escapeAttributeChar

/-! ## Markup -/

/-- An attribute behind a tag's name or another attribute. -/
def attributeChars (name value : String) : List Char :=
  ' ' :: name.toList ++ '=' :: '"' :: escapeAttribute value.toList ++ ['"']

def openTagChars (tag : String) (attrs : Table String) (id : Option String) : List Char :=
  '<' :: tag.toList ++ attrs.entries.flatMap (fun (name, value) => attributeChars name value) ++
    (match id with
    | some i => attributeChars identityAttribute i
    | none => []) ++ ['>']

def closeTagChars (tag : String) : List Char := '<' :: '/' :: tag.toList ++ ['>']

/-- The comment that carries the identity of a run of text. -/
def markerChars (id : String) : List Char :=
  "<!--".toList ++ markerStart.toList ++ id.toList ++ "-->".toList

/-- A run of text behind the comment that carries its identity. -/
def textChars (text id : Option String) : List Char :=
  (match id with
  | some i => markerChars i
  | none => []) ++ escapeText (text.getD "").toList

mutual

def Node.chars : Node → List Char
  | ⟨tag, attrs, text, children, id⟩ =>
    if tag = Node.textTag then textChars text id
    else if isVoid tag then openTagChars tag attrs id
    else openTagChars tag attrs id ++ forestChars children ++ closeTagChars tag

def forestChars : List Node → List Char
  | [] => []
  | n :: ns => n.chars ++ forestChars ns

end

def serialize (tree : List Node) : String := String.ofList (forestChars tree)

end Pane
