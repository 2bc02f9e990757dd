import Pane.Markup.Construction.Body

/-!
# The rules of tables

A table only holds captions, groups of columns, and rows in bodies; what is missing of these is made
up.  Anything else that comes outside a cell is *fostered*: it goes in front of the table.
Characters outside cells are collected first, because white space alone stays where it is.

* `foster` — the rules of the body with fostering.
* `inTable`, `inTableText`, `inCaption`, `inColumnGroup`, `inTableBody`, `inRow`, `inCell` — the
  rules of each part.
-/

namespace Pane.Markup

/-- The rules of the body, applied so that nodes meant for a table go in front of it. -/
def foster (s : Construction) (t : Token) : Step :=
  (inBody { s with fostering := true } t).map fun s => { s with fostering := false }

/-- The elements of a table in which its bodies stand. -/
def tableContext : List String := ["html", "table", "template"]

/-- The elements of a table in which its rows stand. -/
def tableBodyContext : List String := ["tbody", "tfoot", "thead", "template", "html"]

/-- The elements of a table in which its cells stand. -/
def tableRowContext : List String := ["tr", "template", "html"]

/-- The parts of a table that hold no text. -/
def tableParts : List String := ["table", "tbody", "tfoot", "thead", "tr"]

def tableBodies : List String := ["tbody", "tfoot", "thead"]

def cells : List String := ["td", "th"]

/-! ## The table itself -/

namespace Construction

/-- The state with a table closed, in the mode of what is around it. -/
def closeTable (s : Construction) : Construction := (s.popThroughNamed "table").resetMode

/-- Whether an element of a name is open in the innermost table. -/
def inTableScope (s : Construction) (name : String) : Bool :=
  s.inScopeNamed Opened.isTableBoundary name

end Construction

def startInTable (s : Construction) (tag : Tag) : Step :=
  let s' := s.popUntilIn tableContext
  if tag.name = "caption" then
    .done ((s'.markFormatting.insertElement tag).enter .inCaption)
  else if tag.name = "colgroup" then .done ((s'.insertElement tag).enter .inColumnGroup)
  else if tag.name = "col" then .again ((s'.insertImplied "colgroup").enter .inColumnGroup)
  else if tag.name ∈ tableBodies then .done ((s'.insertElement tag).enter .inTableBody)
  else if tag.name ∈ ["td", "th", "tr"] then
    .again ((s'.insertImplied "tbody").enter .inTableBody)
  else if tag.name = "table" then
    if s.inTableScope "table" then .again s.closeTable else .done s
  else if tag.name ∈ ["style", "script", "template"] then inHead s (.startTag tag)
  else if tag.name = "input" ∧ isHiddenInput tag = true then .done (s.insertVoid tag)
  else if tag.name = "form" then
    if !s.hasOpen "template" && s.form.isNone then
      let (e, s) := s.addElement .html tag
      .done { s with form := some e.key }
    else .done s
  else foster s (.startTag tag)

def inTable (s : Construction) (t : Token) : Step :=
  match t with
  | .char _ =>
    if s.currentIn tableParts then
      .again { s with tableText := [], returnMode := s.mode, mode := .inTableText }
    else foster s t
  | .comment content => .done (s.insertComment content)
  | .startTag tag => startInTable s tag
  | .endTag name =>
    if name = "table" then .done (if s.inTableScope "table" then s.closeTable else s)
    else if name ∈ ["body", "caption", "col", "colgroup", "html", "tbody", "td", "tfoot", "th",
      "thead", "tr"] then .done s
    else if name = "template" then .done s.closeTemplate
    else foster s t
  | .eof => inBody s t
  | _ => .done s

/-- The rules of characters in a table outside its cells.  They are kept until something else comes,
and are then inserted: in front of the table, unless they are all white space. -/
def inTableText (s : Construction) (t : Token) : Step :=
  match t with
  | .char c =>
    .done (if c = '\x00' then s else { s with tableText := s.tableText ++ [c] })
  | _ =>
    let text := s.tableText
    let s := { s with tableText := [] }
    let s :=
      if text.all Text.isAsciiSpace then text.foldl Construction.insertChar s
      else text.foldl (fun s c => (foster s (.char c)).state) s
    .again (s.enter s.returnMode)

/-! ## Captions and columns -/

def inCaption (s : Construction) (t : Token) : Step :=
  let close :=
    (s.closeImplied.popThroughNamed "caption").clearFormatting.enter .inTable
  match t with
  | .startTag tag =>
    if tag.name ∈ ["caption", "col", "colgroup", "tbody", "td", "tfoot", "th", "thead", "tr"] then
      if s.inTableScope "caption" then .again close else .done s
    else inBody s t
  | .endTag name =>
    if name = "caption" then .done (if s.inTableScope "caption" then close else s)
    else if name = "table" then if s.inTableScope "caption" then .again close else .done s
    else if name ∈ ["body", "col", "colgroup", "html", "tbody", "td", "tfoot", "th", "thead", "tr"]
    then .done s
    else inBody s t
  | _ => inBody s t

def inColumnGroup (s : Construction) (t : Token) : Step :=
  let otherwise : Step :=
    if s.currentIn ["colgroup"] then .again (s.pop.enter .inTable) else .done s
  match t with
  | .char c => if Text.isAsciiSpace c then .done (s.insertChar c) else otherwise
  | .comment content => .done (s.insertComment content)
  | .startTag tag =>
    if tag.name = "html" then .done (s.mergeRoot tag)
    else if tag.name = "col" then .done (s.insertVoid tag)
    else if tag.name = "template" then inHead s t
    else otherwise
  | .endTag name =>
    if name = "colgroup" then
      .done (if s.currentIn ["colgroup"] then s.pop.enter .inTable else s)
    else if name = "col" then .done s
    else if name = "template" then .done s.closeTemplate
    else otherwise
  | .eof => inBody s t
  | _ => .done s

/-! ## Bodies, rows and cells -/

def inTableBody (s : Construction) (t : Token) : Step :=
  let s' := s.popUntilIn tableBodyContext
  let close : Step :=
    if inScope Opened.isTableBoundary (fun e => e.isHtmlIn ["table", "tbody", "tfoot"]) s.stack then
      .again (s'.pop.enter .inTable)
    else .done s
  match t with
  | .startTag tag =>
    if tag.name = "tr" then .done ((s'.insertElement tag).enter .inRow)
    else if tag.name ∈ cells then .again ((s'.insertImplied "tr").enter .inRow)
    else if tag.name ∈ ["caption", "col", "colgroup", "tbody", "tfoot", "thead"] then close
    else inTable s t
  | .endTag name =>
    if name ∈ tableBodies then
      .done (if s.inTableScope name then s'.pop.enter .inTable else s)
    else if name = "table" then close
    else if name ∈ ["body", "caption", "col", "colgroup", "html", "td", "th", "tr"] then .done s
    else inTable s t
  | _ => inTable s t

def inRow (s : Construction) (t : Token) : Step :=
  let close := (s.popUntilIn tableRowContext).pop.enter .inTableBody
  let closeForToken : Step := if s.inTableScope "tr" then .again close else .done s
  match t with
  | .startTag tag =>
    if tag.name ∈ cells then
      .done (((s.popUntilIn tableRowContext).insertElement tag).markFormatting.enter .inCell)
    else if tag.name ∈ ["caption", "col", "colgroup", "tbody", "tfoot", "thead", "tr"] then
      closeForToken
    else inTable s t
  | .endTag name =>
    if name = "tr" then .done (if s.inTableScope "tr" then close else s)
    else if name = "table" then closeForToken
    else if name ∈ tableBodies then if s.inTableScope name then closeForToken else .done s
    else if name ∈ ["body", "caption", "col", "colgroup", "html", "td", "th"] then .done s
    else inTable s t
  | _ => inTable s t

/-- The state with the innermost cell closed, in the mode of its row. -/
def Construction.closeCell (s : Construction) : Construction :=
  let s := s.closeImplied
  ({ s with stack := popThrough (fun e => e.isHtmlIn cells) s.stack }).clearFormatting.enter .inRow

def inCell (s : Construction) (t : Token) : Step :=
  match t with
  | .startTag tag =>
    if tag.name ∈ ["caption", "col", "colgroup", "tbody", "td", "tfoot", "th", "thead", "tr"] then
      if inScope Opened.isTableBoundary (fun e => e.isHtmlIn cells) s.stack then .again s.closeCell
      else .done s
    else inBody s t
  | .endTag name =>
    if name ∈ cells then
      .done (if s.inTableScope name then
        (s.closeImplied.popThroughNamed name).clearFormatting.enter .inRow else s)
    else if name ∈ ["body", "caption", "col", "colgroup", "html"] then .done s
    else if name ∈ ["table", "tbody", "tfoot", "thead", "tr"] then
      if s.inTableScope name then .again s.closeCell else .done s
    else inBody s t
  | _ => inBody s t

end Pane.Markup
