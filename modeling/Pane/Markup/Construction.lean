import Pane.Markup.Construction.Doctype
import Pane.Markup.Construction.Other
import Pane.Markup.Lexer
import Pane.Markup.Lexer.Source

/-!
# Constructing a document from its text

The lexer and the rules of construction take turns: the stretch of text ahead is cut into tokens,
each token is processed by the rules of the mode it meets, and what it leaves decides how the next
stretch is read.  A rule may leave its token to another mode; every chain of such rules shortens the
stack of open elements or leads on toward the body, which bounds its length.

* `inMode`, `inForeign` — the rules of a mode, and those of drawings and formulas.
* `process` — a token processed.
* `construct` — the document of a text.
-/

namespace Pane.Markup

def inMode (s : Construction) (t : Token) : Step :=
  match s.mode with
  | .initial => initial s t
  | .beforeHtml => beforeHtml s t
  | .beforeHead => beforeHead s t
  | .inHead => inHead s t
  | .afterHead => afterHead s t
  | .inBody => inBody s t
  | .text => inText s t
  | .inTable => inTable s t
  | .inTableText => inTableText s t
  | .inCaption => inCaption s t
  | .inColumnGroup => inColumnGroup s t
  | .inTableBody => inTableBody s t
  | .inRow => inRow s t
  | .inCell => inCell s t
  | .inSelect => inSelect s t
  | .inSelectInTable => inSelectInTable s t
  | .inTemplate => inTemplate s t
  | .afterBody => afterBody s t
  | .inFrameset => inFrameset s t
  | .afterFrameset => afterFrameset s t
  | .afterAfterBody => afterAfterBody s t
  | .afterAfterFrameset => afterAfterFrameset s t

/-- A token that can only mean a document, met in a drawing or a formula: what is open of these
ends, and the rules of the document's mode apply. -/
def breakOut (s : Construction) (t : Token) : Step :=
  inMode { s with stack := popUntil Opened.hostsDocument s.stack } t

def inForeign (s : Construction) (t : Token) : Step :=
  match t with
  | .char c =>
    if c = '\x00' then .done (s.insertChar replacement)
    else .done ((if Text.isAsciiSpace c then s else s.refuseFrames).insertChar c)
  | .comment content => .done (s.insertComment content)
  | .startTag tag =>
    if breaksOut tag then breakOut s t
    else .done (s.openForeign ((s.stack.head?.map Opened.space).getD .html) tag)
  | .endTag name =>
    if name ∈ breakoutEndTags then breakOut s t
    else
      match foreignEnd name true s.stack with
      | .close stack => .done { s with stack := stack }
      | .document => inMode s t
      | .nothing => .done s
  | _ => .done s

def dispatch (s : Construction) (t : Token) : Step :=
  if s.stack.head?.any fun e => usesForeignRules e t then inForeign s t else inMode s t

/-- A token processed, the rules of up to `fuel` modes applied to it. -/
def processSteps : Nat → Construction → Token → Construction
  | 0, s, _ => s
  | fuel + 1, s, t =>
    match dispatch s t with
    | .done s => s
    | .again s => processSteps fuel s t

/-- How many rules may be applied to a token in a state. -/
def stepBound (s : Construction) : Nat :=
  8 * (s.stack.length + s.templateModes.length) + 16

/-- A token processed.  Behind some tags a line feed does not count, if it comes next. -/
def process (s : Construction) (t : Token) : Construction :=
  let skip := s.skipNewline
  let s := { s with skipNewline := false }
  match t with
  | .malformed => s
  | .doctype d =>
    if s.mode = .initial then { s with legacy := d.isLegacy, mode := .beforeHtml } else s
  | .char c => if skip && c = '\n' then s else processSteps (stepBound s) s t
  | t => processSteps (stepBound s) s t

/-- Whether sections of plain text are known in a state: within drawings and formulas. -/
def knowsSections (s : Construction) : Bool := s.stack.head?.any fun e => e.space ≠ .html

/-- A stretch of text processed, and what follows it. -/
def advance (source : Source) (s : Construction) (text : List Char) : Construction × List Char :=
  let lexeme := lex s.textKind (knowsSections s) text
  (lexeme.tokens.foldl process { s with textKind := .markup },
    if s.textKind = .script then source.resume lexeme.rest else lexeme.rest)

/-- A rest of a text processed up to its end, in up to `fuel` stretches. -/
def run (source : Source) : Nat → Construction → List Char → Construction
  | 0, s, _ => s
  | _ + 1, s, [] => s
  | fuel + 1, s, c :: cs =>
    let (s, rest) := advance source s (c :: cs)
    run source fuel s rest

/-- The document of a text: its outermost element, as the only node. -/
def construct (text : String) : List Dom :=
  let source := Source.ofChars text.toList
  domForest (process (run source source.text.length {} source.text) .eof).document

end Pane.Markup
