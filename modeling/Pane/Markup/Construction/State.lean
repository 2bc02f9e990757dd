import Pane.Markup.Document
import Pane.Markup.Token

/-!
# The state of the construction of a document

A document is constructed token by token.  Which rules apply to a token is the *mode*; where it goes
is mostly decided by the stack of open elements.  Formatting elements that are closed by the end of
another element are kept in a list, from which they are opened again when text comes.

* `Mode` — the modes.
* `Opened` — an open element.
* `Formatting` — an entry of the list of formatting elements, or a marker in it.
* `Construction` — the state.
* `inScope`, `popThrough`, `popUntil` — searching and shortening the stack.
-/

namespace Pane.Markup

/-- The rules that apply to the next token. -/
inductive Mode where
  | initial
  | beforeHtml
  | beforeHead
  | inHead
  | afterHead
  | inBody
  | text
  | inTable
  | inTableText
  | inCaption
  | inColumnGroup
  | inTableBody
  | inRow
  | inCell
  | inSelect
  | inSelectInTable
  | inTemplate
  | afterBody
  | inFrameset
  | afterFrameset
  | afterAfterBody
  | afterAfterFrameset
  deriving DecidableEq, Repr

structure Opened where
  key : Nat
  space : Space
  name : String
  /-- Whether it is an annotation that says that its content is markup of documents. -/
  annotatesHtml : Bool := false
  deriving DecidableEq, Repr

/-- An entry of the list of formatting elements. -/
inductive Formatting where
  /-- The start of an element that formatting does not reach across. -/
  | marker
  /-- A formatting element, and the tag that made it. -/
  | element (key : Nat) (tag : Tag)
  deriving DecidableEq, Repr

/-- The state of the construction.  The stack has the innermost element first, the list of
formatting elements the latest entry, the modes of templates the innermost one. -/
structure Construction where
  document : List Grown := []
  nextKey : Nat := 0
  stack : List Opened := []
  formatting : List Formatting := []
  mode : Mode := .initial
  /-- The mode to return to behind text that is read on its own. -/
  returnMode : Mode := .initial
  templateModes : List Mode := []
  head : Option Opened := none
  form : Option Nat := none
  /-- Whether nothing so far keeps a set of frames from taking the place of the body. -/
  framesetOk : Bool := true
  /-- Whether nodes that would land in a table go in front of it. -/
  fostering : Bool := false
  /-- Whether tables leave paragraphs open, as in documents of old. -/
  legacy : Bool := false
  /-- Whether a line feed that comes next is dropped. -/
  skipNewline : Bool := false
  /-- The characters met in a table outside its cells. -/
  tableText : List Char := []
  /-- How the text ahead is to be read. -/
  textKind : TextKind := .markup
  deriving Repr

/-! ## Elements by name -/

def Opened.isHtmlIn (e : Opened) (names : List String) : Bool :=
  e.space = .html && decide (e.name ∈ names)

def Opened.isHtml (e : Opened) (name : String) : Bool := e.space = .html && e.name = name

/-- Elements of formulas whose content is running text. -/
def Opened.isFormulaText (e : Opened) : Bool :=
  e.space = .mathml && decide (e.name ∈ ["mi", "mo", "mn", "ms", "mtext"])

/-- Elements of drawings whose content is markup of documents. -/
def Opened.isDrawingText (e : Opened) : Bool :=
  e.space = .svg && decide (e.name ∈ ["foreignObject", "desc", "title"])

/-- Elements whose end a paragraph does not outlive, and which end most searches of the stack. -/
def Opened.isBoundary (e : Opened) : Bool :=
  e.isHtmlIn ["applet", "caption", "html", "table", "td", "th", "marquee", "object", "template"] ||
    e.isFormulaText || e.isDrawingText

def Opened.isListBoundary (e : Opened) : Bool := e.isBoundary || e.isHtmlIn ["ol", "ul"]

def Opened.isButtonBoundary (e : Opened) : Bool := e.isBoundary || e.isHtml "button"

def Opened.isTableBoundary (e : Opened) : Bool := e.isHtmlIn ["html", "table", "template"]

/-- Boundaries for selections: everything but options. -/
def Opened.isSelectBoundary (e : Opened) : Bool := !e.isHtmlIn ["optgroup", "option"]

/-- Elements with an end tag that may be left out. -/
def impliedEndTags : List String :=
  ["dd", "dt", "li", "option", "optgroup", "p", "rb", "rp", "rt", "rtc"]

/-- Elements that the end of a template closes. -/
def thoroughEndTags : List String :=
  impliedEndTags ++ ["caption", "colgroup", "tbody", "td", "tfoot", "th", "thead", "tr"]

def headingTags : List String := ["h1", "h2", "h3", "h4", "h5", "h6"]

/-- Elements that the end tag of an ordinary element does not reach across. -/
def specialTags : List String :=
  ["address", "applet", "area", "article", "aside", "base", "basefont", "bgsound", "blockquote",
    "body", "br", "button", "caption", "center", "col", "colgroup", "dd", "details", "dir", "div",
    "dl", "dt", "embed", "fieldset", "figcaption", "figure", "footer", "form", "frame", "frameset",
    "h1", "h2", "h3", "h4", "h5", "h6", "head", "header", "hgroup", "hr", "html", "iframe", "img",
    "input", "isindex", "li", "link", "listing", "main", "marquee", "menu", "meta", "nav",
    "noembed", "noframes", "noscript", "object", "ol", "p", "param", "plaintext", "pre", "script",
    "section", "select", "source", "style", "summary", "table", "tbody", "td", "template",
    "textarea", "tfoot", "th", "thead", "title", "tr", "track", "ul", "wbr", "xmp"]

def Opened.isSpecial (e : Opened) : Bool := e.isHtmlIn specialTags

/-! ## The stack -/

/-- Whether a search of the stack for an element ends at it, and not at a boundary before. -/
def inScope (boundary wanted : Opened → Bool) : List Opened → Bool
  | [] => false
  | e :: stack => wanted e || (!boundary e && inScope boundary wanted stack)

/-- The stack below the innermost element of a kind. -/
def popThrough (wanted : Opened → Bool) : List Opened → List Opened
  | [] => []
  | e :: stack => if wanted e then stack else popThrough wanted stack

/-- The stack from the innermost element of a kind on. -/
def popUntil (wanted : Opened → Bool) (stack : List Opened) : List Opened :=
  stack.dropWhile fun e => !wanted e

/-- The stack without the elements on top of it whose end tags may be left out. -/
def popImplied (names : List String) (stack : List Opened) : List Opened :=
  stack.dropWhile fun e => e.isHtmlIn names

namespace Construction

/-- Whether the innermost element is one of documents with one of the names. -/
def currentIn (s : Construction) (names : List String) : Bool :=
  s.stack.head?.any fun e => e.isHtmlIn names

/-- Whether an element of documents with the name is open. -/
def hasOpen (s : Construction) (name : String) : Bool := s.stack.any fun e => e.isHtml name

/-- Whether an element of documents with the name is in scope. -/
def inScopeNamed (s : Construction) (boundary : Opened → Bool) (name : String) : Bool :=
  inScope boundary (fun e => e.isHtml name) s.stack

def pop (s : Construction) : Construction := { s with stack := s.stack.drop 1 }

/-- The state with the elements on top closed up to and with the innermost one of a name. -/
def popThroughNamed (s : Construction) (name : String) : Construction :=
  { s with stack := popThrough (fun e => e.isHtml name) s.stack }

/-- The state with the elements on top closed until one of the names is innermost. -/
def popUntilIn (s : Construction) (names : List String) : Construction :=
  { s with stack := popUntil (fun e => e.isHtmlIn names) s.stack }

/-- The state with the elements on top closed whose end tags may be left out. -/
def closeImplied (s : Construction) : Construction :=
  { s with stack := popImplied impliedEndTags s.stack }

/-- The same, elements of one name excepted. -/
def closeImpliedExcept (s : Construction) (name : String) : Construction :=
  { s with stack := popImplied (impliedEndTags.filter (· ≠ name)) s.stack }

def closeParagraph (s : Construction) : Construction :=
  (s.closeImpliedExcept "p").popThroughNamed "p"

/-- The state with the paragraph closed that is in scope, if there is one. -/
def closeParagraphInScope (s : Construction) : Construction :=
  if s.inScopeNamed Opened.isButtonBoundary "p" then s.closeParagraph else s

/-- The state with the list of formatting elements shortened to its last marker, which goes too. -/
def clearFormatting (s : Construction) : Construction :=
  { s with formatting := (s.formatting.dropWhile (· ≠ .marker)).drop 1 }

/-- The state with a mark in the list of formatting elements. -/
def markFormatting (s : Construction) : Construction :=
  { s with formatting := .marker :: s.formatting }

def enter (s : Construction) (mode : Mode) : Construction := { s with mode := mode }

/-- The state in which frames are out of the question. -/
def refuseFrames (s : Construction) : Construction := { s with framesetOk := false }

end Construction

/-! ## The mode that an open element stands for -/

/-- The mode of the content of an element, if its name decides it; `outer` are the elements around
it. -/
def modeOf? (s : Construction) (e : Opened) (outer : List Opened) : Option Mode :=
  if e.space ≠ .html then none
  else if e.name = "select" then
    match outer.find? fun e => e.isHtmlIn ["template", "table"] with
    | some e => some (if e.name = "table" then .inSelectInTable else .inSelect)
    | none => some .inSelect
  else if (e.name = "td" ∨ e.name = "th") ∧ outer ≠ [] then some .inCell
  else if e.name = "tr" then some .inRow
  else if e.name = "tbody" ∨ e.name = "thead" ∨ e.name = "tfoot" then some .inTableBody
  else if e.name = "caption" then some .inCaption
  else if e.name = "colgroup" then some .inColumnGroup
  else if e.name = "table" then some .inTable
  else if e.name = "template" then some (s.templateModes.headD .inBody)
  else if e.name = "head" ∧ outer ≠ [] then some .inHead
  else if e.name = "body" then some .inBody
  else if e.name = "frameset" then some .inFrameset
  else if e.name = "html" then some (if s.head.isSome then .afterHead else .beforeHead)
  else none

/-- The mode that the innermost element that decides it stands for. -/
def modeOfStack (s : Construction) : List Opened → Mode
  | [] => .inBody
  | e :: outer => (modeOf? s e outer).getD (modeOfStack s outer)

/-- The state in the mode that its stack stands for. -/
def Construction.resetMode (s : Construction) : Construction :=
  s.enter (modeOfStack s s.stack)

end Pane.Markup
