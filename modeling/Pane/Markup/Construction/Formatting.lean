import Pane.Markup.Construction.Insertion

/-!
# Formatting that overlaps other elements

Formatting such as `<b>1<p>2</b>3</p>` does not nest.  When a formatting element is closed while a
*block* is open in it, the formatting is given to the content of the block instead, and the block
moves out of the formatting.  This is repeated a few times at most.

* `Construction.openFormatting` — opens a formatting element; of equal ones no more than three
  count.
* `Construction.closeOrdinary` — closes an element that has no rule of its own.
* `Construction.closeFormatting` — closes a formatting element.
-/

namespace Pane.Markup

/-! ## Entries -/

/-- The entries behind the last marker. -/
def currentFormatting (fs : List Formatting) : List Formatting := fs.takeWhile (· ≠ .marker)

/-- The element of the latest entry with a name behind the last marker, and its tag. -/
def findFormatting? (name : String) : List Formatting → Option (Nat × Tag)
  | [] => none
  | .marker :: _ => none
  | .element key tag :: fs => if tag.name = name then some (key, tag) else findFormatting? name fs

def Formatting.isOf (key : Nat) : Formatting → Bool
  | .marker => false
  | .element k _ => k = key

def removeFormatting (key : Nat) (fs : List Formatting) : List Formatting :=
  fs.filter fun f => !f.isOf key

/-- Attributes in an order of their own, by name and then by value. -/
def sortAttributes (attrs : List (String × String)) : List (String × String) :=
  attrs.mergeSort fun a b => a.1 < b.1 || (a.1 = b.1 && a.2 ≤ b.2)

/-- Whether two tags are the same but for the order of their attributes. -/
def sameTag (a b : Tag) : Bool :=
  a.name = b.name && sortAttributes a.attrs = sortAttributes b.attrs

/-- Entries of which the earliest is removed that equals a tag, if there are three behind the last
marker. -/
def makeRoom (tag : Tag) (fs : List Formatting) : List Formatting :=
  let equal := (currentFormatting fs).filterMap fun
    | .element key t => if sameTag t tag then some key else none
    | .marker => none
  if 3 ≤ equal.length then
    match equal.getLast? with
    | some key => removeFormatting key fs
    | none => fs
  else fs

namespace Construction

/-- The state with a formatting element inserted, opened and entered in the list. -/
def openFormatting (s : Construction) (tag : Tag) : Construction :=
  let s := { s with formatting := makeRoom tag s.formatting }
  let (e, s) := s.addElement .html tag
  { s with stack := e :: s.stack, formatting := .element e.key tag :: s.formatting }

/-! ## Ordinary elements -/

/-- The stack below the innermost element of a name; `none` if a special element or the end of the
stack comes first. -/
def belowOrdinary? (name : String) : List Opened → Option (List Opened)
  | [] => none
  | e :: stack =>
    if e.isHtml name then some stack
    else if e.isSpecial then none
    else belowOrdinary? name stack

/-- The state with the innermost element of a name closed and all within it, unless it lies beyond a
special element. -/
def closeOrdinary (s : Construction) (name : String) : Construction :=
  match belowOrdinary? name s.stack with
  | some stack => { s with stack := stack }
  | none => s

/-! ## Closing a formatting element -/

/-- What has become of the elements between a block and a formatting element around it. -/
structure Between where
  /-- Those that stay open, the innermost first. -/
  stack : List Opened := []
  /-- The tree that is moved: the block, wrapped in copies of those elements. -/
  moved : Grown
  /-- The innermost copy, if there is one. -/
  firstCopy : Option Nat := none

/-- Goes outward through the elements between a block and a formatting element, of which `count`
have been passed.  A formatting element among the first three is replaced by a copy around the moved
tree; the others are closed. -/
def wrapBetween : Nat → List Opened → Between → Construction → Between × Construction
  | _, [], b, s => (b, s)
  | count, e :: outer, b, s =>
    let entry? := if count < 3 then s.formatting.find? (Formatting.isOf e.key) else none
    match entry? with
    | some (.element _ tag) =>
      let (copy, s) := s.newElement .html tag
      let replaced := s.formatting.map fun f =>
        if f.isOf e.key then Formatting.element copy.key tag else f
      wrapBetween (count + 1) outer
        { stack := b.stack ++ [copy],
          moved := .element copy.key .html tag.name tag.attrs [b.moved],
          firstCopy := b.firstCopy <|> some copy.key }
        { s with formatting := replaced }
    | _ =>
      wrapBetween (count + 1) outer b
        { s with formatting := removeFormatting e.key s.formatting }

/-- Entries in which that of a new element takes the place of the one of a formatting element: right
behind that of a copy if there is one, else where the old one was. -/
def replaceFormatting (old : Nat) (new : Formatting) (firstCopy : Option Nat)
    (fs : List Formatting) : List Formatting :=
  match firstCopy with
  | none => fs.map fun f => if f.isOf old then new else f
  | some copy => removeFormatting old (fs.flatMap fun f => if f.isOf copy then [new, f] else [f])

/-- The state with the content of a block formatted in place of the block.  `inner` are the elements
in the block, `between` those between it and the formatting element, `outer` those around that. -/
def exchange (s : Construction) (inner : List Opened) (block : Opened) (between : List Opened)
    (element : Nat) (tag : Tag) (outer : List Opened) : Construction :=
  match findIn? block.key s.document, outer with
  | some tree, ancestor :: _ =>
    let s := { s with document := detach block.key s.document }
    let (b, s) := wrapBetween 0 between { moved := tree } s
    let s := { s with document := insertAt (s.placeAt ancestor) b.moved s.document }
    let (new, s) := s.newElement .html tag
    { s with
      document := onChildren block.key
        (fun children => [.element new.key .html tag.name tag.attrs children]) s.document,
      formatting := replaceFormatting element (.element new.key tag) b.firstCopy s.formatting,
      stack := inner ++ new :: block :: b.stack ++ outer }
  | _, _ => s

/-- A stack around an element: the elements within it and those outside. -/
def splitStack (key : Nat) (stack : List Opened) : List Opened × List Opened :=
  (stack.takeWhile fun e => e.key ≠ key, (stack.dropWhile fun e => e.key ≠ key).drop 1)

/-- The outermost special element of some, with those within it and those outside, if there is
one. -/
def outermostSpecial? (es : List Opened) : Option (List Opened × Opened × List Opened) :=
  match (es.reverse.dropWhile fun e => !e.isSpecial) with
  | [] => none
  | block :: inner =>
    some (inner.reverse, block, (es.reverse.takeWhile fun e => !e.isSpecial).reverse)

/-- The state with the latest formatting element of a name closed, in up to `rounds` exchanges. -/
def exchangeFormatting (name : String) : Nat → Construction → Construction
  | 0, s => s
  | rounds + 1, s =>
    match findFormatting? name s.formatting with
    | none => s.closeOrdinary name
    | some (element, tag) =>
      if s.stack.all fun e => e.key ≠ element then
        { s with formatting := removeFormatting element s.formatting }
      else if !inScope Opened.isBoundary (fun e => e.key = element) s.stack then s
      else
        let (within, outer) := splitStack element s.stack
        match outermostSpecial? within with
        | none =>
          { s with stack := outer, formatting := removeFormatting element s.formatting }
        | some (inner, block, between) =>
          exchangeFormatting name rounds (s.exchange inner block between element tag outer)

def closeFormatting (s : Construction) (name : String) : Construction :=
  match s.stack with
  | e :: _ =>
    if e.isHtml name && !s.formatting.any (Formatting.isOf e.key) then s.pop
    else exchangeFormatting name 8 s
  | [] => s

/-- The state with a link closed that is still in the list of formatting elements. -/
def closeLink (s : Construction) : Construction :=
  match findFormatting? "a" s.formatting with
  | none => s
  | some (key, _) =>
    let s := s.closeFormatting "a"
    { s with
      formatting := removeFormatting key s.formatting,
      stack := s.stack.filter fun e => e.key ≠ key }

end Construction

end Pane.Markup
