import Pane.Markup.Construction.Foreign
import Pane.Markup.Construction.Formatting
import Pane.Markup.Construction.Head

/-!
# The rules of the body

Most tags just open or close an element.  The others differ in a few ways — whether an open
paragraph ends first, whether formatting is opened again, what the content is read as — and a tag's
*role* says which of these applies to it.

* `StartRole`, `EndRole` — the roles of opening tags and of end tags.
* `startInBody`, `endInBody` — the rules of tags.
* `inBody` — the rules of the body.
-/

namespace Pane.Markup

/-! ## Roles -/

/-- What an opening tag does in the body. -/
inductive StartRole where
  | root
  | head
  | body
  | frameset
  /-- Ends a paragraph. -/
  | block
  | heading
  /-- Ends a paragraph, and a line feed behind it does not count. -/
  | preformatted
  | form
  | item
  | definition
  | plaintext
  | button
  | anchor
  | formatting
  | noBreak
  /-- Formatting does not reach into it. -/
  | object
  | table
  | void
  | input
  /-- Has no content and opens no formatting. -/
  | parameter
  | rule
  | image
  | textarea
  | sample
  | frame
  /-- Its content is plain text. -/
  | raw
  | select
  | option
  | rubyBase
  | rubyText
  | formula
  | drawing
  /-- Means nothing here. -/
  | stray
  | ordinary
  deriving DecidableEq, Repr

/-- Tags by role. -/
def startRoles : List (StartRole × List String) := [
  (.root, ["html"]),
  (.head, headTags),
  (.body, ["body"]),
  (.frameset, ["frameset"]),
  (.block, ["address", "article", "aside", "blockquote", "center", "details", "dialog", "dir",
    "div", "dl", "fieldset", "figcaption", "figure", "footer", "header", "hgroup", "main", "menu",
    "nav", "ol", "p", "search", "section", "summary", "ul"]),
  (.heading, headingTags),
  (.preformatted, ["pre", "listing"]),
  (.form, ["form"]),
  (.item, ["li"]),
  (.definition, ["dd", "dt"]),
  (.plaintext, ["plaintext"]),
  (.button, ["button"]),
  (.anchor, ["a"]),
  (.formatting, ["b", "big", "code", "em", "font", "i", "s", "small", "strike", "strong", "tt",
    "u"]),
  (.noBreak, ["nobr"]),
  (.object, ["applet", "marquee", "object"]),
  (.table, ["table"]),
  (.void, ["area", "br", "embed", "img", "keygen", "wbr"]),
  (.input, ["input"]),
  (.parameter, ["param", "source", "track"]),
  (.rule, ["hr"]),
  (.image, ["image"]),
  (.textarea, ["textarea"]),
  (.sample, ["xmp"]),
  (.frame, ["iframe"]),
  (.raw, ["noembed", "noscript"]),
  (.select, ["select"]),
  (.option, ["optgroup", "option"]),
  (.rubyBase, ["rb", "rtc"]),
  (.rubyText, ["rp", "rt"]),
  (.formula, ["math"]),
  (.drawing, ["svg"]),
  (.stray, ["caption", "col", "colgroup", "frame", "head", "tbody", "td", "tfoot", "th", "thead",
    "tr"])]

/-- The role that a table of roles gives to a name. -/
def roleIn {ρ : Type} (roles : List (ρ × List String)) (otherwise : ρ) (name : String) : ρ :=
  ((roles.find? fun r => decide (name ∈ r.2)).map (·.1)).getD otherwise

/-- The role of an opening tag; a name without one opens an ordinary element. -/
def startRole (name : String) : StartRole := roleIn startRoles .ordinary name

/-- What an end tag does in the body. -/
inductive EndRole where
  | template
  | body
  | root
  | block
  | form
  | paragraph
  | item
  | definition
  | heading
  | formatting
  | object
  | lineBreak
  | ordinary
  deriving DecidableEq, Repr

/-- End tags by role. -/
def endRoles : List (EndRole × List String) := [
  (.template, ["template"]),
  (.body, ["body"]),
  (.root, ["html"]),
  (.block, ["address", "article", "aside", "blockquote", "button", "center", "details", "dialog",
    "dir", "div", "dl", "fieldset", "figcaption", "figure", "footer", "header", "hgroup", "listing",
    "main", "menu", "nav", "ol", "pre", "search", "section", "summary", "ul"]),
  (.form, ["form"]),
  (.paragraph, ["p"]),
  (.item, ["li"]),
  (.definition, ["dd", "dt"]),
  (.heading, headingTags),
  (.formatting, ["a", "b", "big", "code", "em", "font", "i", "nobr", "s", "small", "strike",
    "strong", "tt", "u"]),
  (.object, ["applet", "marquee", "object"]),
  (.lineBreak, ["br"])]

def endRole (name : String) : EndRole := roleIn endRoles .ordinary name

/-! ## Opening tags -/

/-- The innermost open element of some names, if no special element other than an address, a
division or a paragraph is within it. -/
def openItem? (names : List String) : List Opened → Option String
  | [] => none
  | e :: stack =>
    if e.isHtmlIn names then some e.name
    else if e.isSpecial && !e.isHtmlIn ["address", "div", "p"] then none
    else openItem? names stack

/-- Whether a field is not to be seen, in which case frames may still come. -/
def isHiddenInput (tag : Tag) : Bool :=
  tag.attrs.any fun (name, value) => name = "type" && value.map Char.toLower = "hidden"

namespace Construction

/-- The state with the list item or the definition ended that a new one of the names would stand
in. -/
def endItem (s : Construction) (names : List String) : Construction :=
  match openItem? names s.stack with
  | some name => (s.closeImpliedExcept name).popThroughNamed name
  | none => s

/-- The state with the body element open, if it is. -/
def body? (s : Construction) : Option Opened :=
  match s.stack.reverse with
  | _ :: e :: _ => if e.isHtml "body" then some e else none
  | _ => none

/-- The state with the attributes of another tag added to the body. -/
def mergeBody (s : Construction) (tag : Tag) : Construction :=
  match s.body? with
  | some e =>
    if s.hasOpen "template" then s
    else { s.refuseFrames with document := addAttributesIn e.key tag.attrs s.document }
  | none => s

/-- The state with a set of frames in place of the body, if that can still be. -/
def replaceBody (s : Construction) (tag : Tag) : Construction :=
  if s.framesetOk then
    match s.body? with
    | some e =>
      let s := { s with
        document := detach e.key s.document,
        stack := s.stack.drop (s.stack.length - 1) }
      (s.insertElement tag).enter .inFrameset
    | none => s
  else s

/-- The state with a form opened, unless one is open already. -/
def openForm (s : Construction) (tag : Tag) : Construction :=
  let inTemplate := s.hasOpen "template"
  if s.form.isSome && !inTemplate then s
  else
    let s := s.closeParagraphInScope.insertElement tag
    if inTemplate then s else { s with form := s.stack.head?.map Opened.key }

/-- The state with a button opened, which ends an open one. -/
def openButton (s : Construction) (tag : Tag) : Construction :=
  let s := if s.inScopeNamed Opened.isBoundary "button" then
    s.closeImplied.popThroughNamed "button" else s
  (s.reopenFormatting.insertElement tag).refuseFrames

/-- The state with an element opened whose text must not break, which ends an open one. -/
def openNoBreak (s : Construction) (tag : Tag) : Construction :=
  let s := s.reopenFormatting
  let s := if s.inScopeNamed Opened.isBoundary "nobr" then
    (s.closeFormatting "nobr").reopenFormatting else s
  s.openFormatting tag

/-- The mode of the content of a selection, for the mode that it stands in. -/
def selectMode : Mode → Mode
  | .inTable | .inCaption | .inTableBody | .inRow | .inCell => .inSelectInTable
  | _ => .inSelect

/-- The state with a selection opened.  In a table its content has rules of its own. -/
def openSelect (s : Construction) (tag : Tag) : Construction :=
  let s := (s.reopenFormatting.insertElement tag).refuseFrames
  s.enter (selectMode s.mode)

/-- The state with an option opened, which ends an open one. -/
def openOption (s : Construction) (tag : Tag) : Construction :=
  let s := if s.currentIn ["option"] then s.pop else s
  s.reopenFormatting.insertElement tag

/-- The state with a ruby text opened. -/
def openRuby (s : Construction) (tag : Tag) (close : Construction → Construction) : Construction :=
  (if s.inScopeNamed Opened.isBoundary "ruby" then close s else s).insertElement tag

/-- The state with an element opened that has no content, within the formatting that is open. -/
def openVoid (s : Construction) (tag : Tag) : Construction := s.reopenFormatting.insertVoid tag

end Construction

/-- The rules of opening tags, role by role. -/
def startInBody (s : Construction) (tag : Tag) : Step :=
  match startRole tag.name with
  | .root => .done (s.mergeRoot tag)
  | .head => inHead s (.startTag tag)
  | .body => .done (s.mergeBody tag)
  | .frameset => .done (s.replaceBody tag)
  | .block => .done (s.closeParagraphInScope.insertElement tag)
  | .heading =>
    let s := s.closeParagraphInScope
    .done ((if s.currentIn headingTags then s.pop else s).insertElement tag)
  | .preformatted =>
    .done { (s.closeParagraphInScope.insertElement tag).refuseFrames with skipNewline := true }
  | .form => .done (s.openForm tag)
  | .item => .done (((s.refuseFrames.endItem ["li"]).closeParagraphInScope).insertElement tag)
  | .definition =>
    .done (((s.refuseFrames.endItem ["dd", "dt"]).closeParagraphInScope).insertElement tag)
  | .plaintext =>
    .done { s.closeParagraphInScope.insertElement tag with textKind := .plaintext }
  | .button => .done (s.openButton tag)
  | .anchor => .done (s.closeLink.reopenFormatting.openFormatting tag)
  | .formatting => .done (s.reopenFormatting.openFormatting tag)
  | .noBreak => .done (s.openNoBreak tag)
  | .object => .done ((s.reopenFormatting.insertElement tag).markFormatting.refuseFrames)
  | .table =>
    let s := if s.legacy then s else s.closeParagraphInScope
    .done ((s.insertElement tag).refuseFrames.enter .inTable)
  | .void => .done (s.openVoid tag).refuseFrames
  | .input =>
    let s := s.openVoid tag
    .done (if isHiddenInput tag then s else s.refuseFrames)
  | .parameter => .done (s.insertVoid tag)
  | .rule => .done (s.closeParagraphInScope.insertVoid tag).refuseFrames
  | .image => .done (s.openVoid { tag with name := "img" }).refuseFrames
  | .textarea =>
    .done { s.refuseFrames.insertRaw tag (.references tag.name) with skipNewline := true }
  | .sample =>
    .done (s.closeParagraphInScope.reopenFormatting.refuseFrames.insertRaw tag (.raw tag.name))
  | .frame => .done (s.refuseFrames.insertRaw tag (.raw tag.name))
  | .raw => .done (s.insertRaw tag (.raw tag.name))
  | .select => .done (s.openSelect tag)
  | .option => .done (s.openOption tag)
  | .rubyBase => .done (s.openRuby tag Construction.closeImplied)
  | .rubyText => .done (s.openRuby tag fun s => s.closeImpliedExcept "rtc")
  | .formula => .done (s.openForeign .mathml tag)
  | .drawing => .done (s.openForeign .svg tag)
  | .stray => .done s
  | .ordinary => .done (s.reopenFormatting.insertElement tag)

/-! ## End tags -/

namespace Construction

/-- The state with the innermost element of a name closed, if it is in scope. -/
def closeInScope (s : Construction) (boundary : Opened → Bool) (name : String) : Construction :=
  if s.inScopeNamed boundary name then (s.closeImpliedExcept name).popThroughNamed name else s

/-- The state with the open form closed.  Outside a template it is the one that is on record as
open, and it is taken out of the stack wherever it stands there. -/
def closeForm (s : Construction) : Construction :=
  if s.hasOpen "template" then
    if s.inScopeNamed Opened.isBoundary "form" then s.closeImplied.popThroughNamed "form" else s
  else
    match s.form with
    | none => s
    | some key =>
      let s := { s with form := none }
      if inScope Opened.isBoundary (fun e => e.key = key) s.stack then
        let s := s.closeImplied
        { s with stack := s.stack.filter fun e => e.key ≠ key }
      else s

/-- The state with a heading closed, of whatever rank, if one is in scope. -/
def closeHeading (s : Construction) : Construction :=
  if inScope Opened.isBoundary (fun e => e.isHtmlIn headingTags) s.stack then
    let s := s.closeImplied
    { s with stack := popThrough (fun e => e.isHtmlIn headingTags) s.stack }
  else s

end Construction

/-- The rules of end tags, role by role. -/
def endInBody (s : Construction) (name : String) : Step :=
  match endRole name with
  | .template => .done s.closeTemplate
  | .body =>
    .done (if s.inScopeNamed Opened.isBoundary "body" then s.enter .afterBody else s)
  | .root =>
    if s.inScopeNamed Opened.isBoundary "body" then .again (s.enter .afterBody) else .done s
  | .block =>
    .done (if s.inScopeNamed Opened.isBoundary name then
      s.closeImplied.popThroughNamed name else s)
  | .form => .done s.closeForm
  | .paragraph =>
    let s := if s.inScopeNamed Opened.isButtonBoundary "p" then s else s.insertImplied "p"
    .done s.closeParagraph
  | .item => .done (s.closeInScope Opened.isListBoundary name)
  | .definition => .done (s.closeInScope Opened.isBoundary name)
  | .heading => .done s.closeHeading
  | .formatting => .done (s.closeFormatting name)
  | .object =>
    .done (if s.inScopeNamed Opened.isBoundary name then
      (s.closeImplied.popThroughNamed name).clearFormatting else s)
  | .lineBreak => .done (s.openVoid { name := "br" }).refuseFrames
  | .ordinary => .done (s.closeOrdinary name)

/-! ## The end of the text -/

/-- The rules of the end of the text where a template may be open. -/
def eofInTemplate (s : Construction) : Step :=
  if s.hasOpen "template" then
    let s := (s.popThroughNamed "template").clearFormatting
    .again { s with templateModes := s.templateModes.drop 1 }.resetMode
  else .done s

/-! ## The body -/

/-- **The rules of the body.**  A null character counts for nothing, and any other character but
white space settles that there are no frames. -/
def inBody (s : Construction) (t : Token) : Step :=
  match t with
  | .char c =>
    if c = '\x00' then .done s
    else
      let s := s.reopenFormatting
      .done ((if Text.isAsciiSpace c then s else s.refuseFrames).insertChar c)
  | .comment content => .done (s.insertComment content)
  | .startTag tag => startInBody s tag
  | .endTag name => endInBody s name
  | .eof => if s.templateModes = [] then .done s else eofInTemplate s
  | _ => .done s

end Pane.Markup
