import Pane.Markup.Construction.State

/-!
# Inserting nodes

A node usually becomes the last child of the innermost element.  While nodes are fostered and that
element is part of a table, it goes in front of the table instead, so that it is shown before it.

* `Place`, `Construction.placeAt` — where a node goes.
* `Construction.insertElement`, `insertChar`, `insertComment` — insertion at the innermost element.
* `Construction.reopenFormatting` — opens the formatting elements again that are not open.
-/

namespace Pane.Markup

inductive Place where
  /-- Behind the children of an element. -/
  | within (key : Nat)
  /-- In front of an element. -/
  | before (key : Nat)
  deriving DecidableEq, Repr

/-- A document with a node put in its place. -/
def insertAt (place : Place) (n : Grown) (document : List Grown) : List Grown :=
  match place with
  | .within key => onChildren key (appendNode n) document
  | .before key => onSiblings key (fun before rest => appendNode n before ++ rest) document

/-- A document with a character put in a place. -/
def insertCharAt (place : Place) (c : Char) (document : List Grown) : List Grown :=
  match place with
  | .within key => onChildren key (appendChar c) document
  | .before key => onSiblings key (fun before rest => appendChar c before ++ rest) document

/-- The place of a node that is fostered: in the content of the innermost template or in front of
the innermost table, whichever is deeper. -/
def fosterPlace : List Opened → Place
  | [] => .within 0
  | [e] => .within e.key
  | e :: stack =>
    if e.isHtml "template" then .within e.key
    else if e.isHtml "table" then .before e.key
    else fosterPlace stack

/-- An element of documents in attributes of which its content is said to be markup of documents. -/
def annotatesHtml (space : Space) (name : String) (attrs : List (String × String)) : Bool :=
  space = .mathml && name = "annotation-xml" &&
    attrs.any fun (n, v) =>
      n = "encoding" &&
        decide (v.map Char.toLower ∈ ["text/html", "application/xhtml+xml"])

namespace Construction

/-- The place of a node that is meant for an element. -/
def placeAt (s : Construction) (target : Opened) : Place :=
  if s.fostering && target.isHtmlIn ["table", "tbody", "tfoot", "thead", "tr"] then
    fosterPlace s.stack
  else .within target.key

/-- The place of a node that is meant for the innermost element. -/
def place (s : Construction) : Place :=
  match s.stack with
  | e :: _ => s.placeAt e
  | [] => .within 0

/-- An element that is not in the document yet, and the state with its key used up. -/
def newElement (s : Construction) (space : Space) (tag : Tag) : Opened × Construction :=
  (⟨s.nextKey, space, tag.name, annotatesHtml space tag.name tag.attrs⟩,
    { s with nextKey := s.nextKey + 1 })

/-- The state with an element inserted, and the element. -/
def addElement (s : Construction) (space : Space) (tag : Tag) : Opened × Construction :=
  let place := s.place
  let (e, s) := s.newElement space tag
  (e, { s with
    document := insertAt place (.element e.key space tag.name tag.attrs []) s.document })

/-- The state with an element inserted and opened. -/
def insertIn (s : Construction) (space : Space) (tag : Tag) : Construction :=
  let (e, s) := s.addElement space tag
  { s with stack := e :: s.stack }

/-- The state with an element of documents inserted and opened. -/
def insertElement (s : Construction) (tag : Tag) : Construction := s.insertIn .html tag

/-- The state with an element inserted and opened for which there was no tag. -/
def insertImplied (s : Construction) (name : String) : Construction :=
  s.insertElement { name := name }

/-- The state with an element inserted that has no content. -/
def insertVoid (s : Construction) (tag : Tag) : Construction := (s.addElement .html tag).2

def insertChar (s : Construction) (c : Char) : Construction :=
  { s with document := insertCharAt s.place c s.document }

def insertComment (s : Construction) (content : List Char) : Construction :=
  { s with document := insertAt s.place (.comment content) s.document }

/-- The state with a comment inserted behind the children of the outermost element. -/
def insertCommentAtRoot (s : Construction) (content : List Char) : Construction :=
  match s.stack.getLast? with
  | some e => { s with document := insertAt (.within e.key) (.comment content) s.document }
  | none => s

/-- The state with the outermost element in the document and open. -/
def insertRoot (s : Construction) (attrs : List (String × String)) : Construction :=
  let (e, s) := s.newElement .html { name := "html" }
  { s with document := [.element e.key .html "html" attrs []], stack := [e] }

/-- The state with an element inserted whose content is read on its own. -/
def insertRaw (s : Construction) (tag : Tag) (kind : TextKind) : Construction :=
  { s.insertElement tag with returnMode := s.mode, mode := .text, textKind := kind }

/-! ## Formatting elements -/

/-- Whether an entry needs not be opened again: a marker, or an element that is open. -/
def isMarkerOrOpen (s : Construction) : Formatting → Bool
  | .marker => true
  | .element key _ => s.stack.any fun e => e.key = key

/-- The state with the formatting elements opened, from the first entry to the last, and the entries
of the elements that were opened, the latest first. -/
def reopen (s : Construction) : List Formatting → List Formatting → Construction × List Formatting
  | [], opened => (s, opened)
  | .marker :: rest, opened => reopen s rest opened
  | .element _ tag :: rest, opened =>
    let (e, s) := s.addElement .html tag
    reopen { s with stack := e :: s.stack } rest (.element e.key tag :: opened)

/-- The state with the latest formatting elements opened again that are not open, up to a marker or
an open one. -/
def reopenFormatting (s : Construction) : Construction :=
  let closed := s.formatting.takeWhile fun f => !s.isMarkerOrOpen f
  let kept := s.formatting.dropWhile fun f => !s.isMarkerOrOpen f
  if closed = [] then s
  else
    let (s, opened) := s.reopen closed.reverse []
    { s with formatting := opened ++ kept }

end Construction

end Pane.Markup
