import Pane.Text.Basic
import Pane.Markup.Construction.Insertion

/-!
# The rules in front of the body

Until the body begins, the outermost element and the head are made up where their tags are missing,
so that every document has both.  What belongs into the head is also understood elsewhere.

* `Step` — what a rule leaves: the next state, and whether the token is to be processed again there.
* `Construction.mergeRoot` — a second tag of the outermost element adds its attributes.
* `inHead` — the rules of the head; `initial`, `beforeHtml`, `beforeHead`, `afterHead` — those
  around it.
-/

namespace Pane.Markup

/-- What a rule leaves. -/
inductive Step where
  /-- The token has been dealt with. -/
  | done (s : Construction)
  /-- The token is to be processed again in the mode of the state. -/
  | again (s : Construction)

def Step.state : Step → Construction
  | done s => s
  | again s => s

def Step.map (f : Construction → Construction) : Step → Step
  | done s => done (f s)
  | again s => again (f s)

namespace Construction

/-- The state with the attributes of another tag added to the outermost element; in a template such
a tag means nothing. -/
def mergeRoot (s : Construction) (tag : Tag) : Construction :=
  if s.hasOpen "template" then s
  else
    match s.stack.getLast? with
    | some e => { s with document := addAttributesIn e.key tag.attrs s.document }
    | none => s

/-- The state with a template closed, if one is open. -/
def closeTemplate (s : Construction) : Construction :=
  if s.hasOpen "template" then
    let s := { s with stack := popImplied thoroughEndTags s.stack }
    let s := (s.popThroughNamed "template").clearFormatting
    { s with templateModes := s.templateModes.drop 1 }.resetMode
  else s

def openTemplate (s : Construction) (tag : Tag) : Construction :=
  let s := ((s.insertElement tag).markFormatting).refuseFrames
  { s with mode := .inTemplate, templateModes := .inTemplate :: s.templateModes }

end Construction

/-! ## The head -/

/-- Tags of the head whose elements have no content. -/
def headVoidTags : List String := ["base", "basefont", "bgsound", "link", "meta"]

/-- Opening tags that the rules of the head deal with wherever they stand. -/
def headTags : List String :=
  headVoidTags ++ ["noframes", "script", "style", "template", "title"]

/-- End tags in front of which missing elements are made up. -/
def implyingEndTags : List String := ["body", "html", "br"]

def inHead (s : Construction) (t : Token) : Step :=
  let otherwise := Step.again (s.pop.enter .afterHead)
  match t with
  | .char c => if Text.isAsciiSpace c then .done (s.insertChar c) else otherwise
  | .comment content => .done (s.insertComment content)
  | .startTag tag =>
    if tag.name = "html" then .done (s.mergeRoot tag)
    else if tag.name ∈ headVoidTags then .done (s.insertVoid tag)
    else if tag.name = "title" then .done (s.insertRaw tag (.references tag.name))
    else if tag.name ∈ ["noframes", "style", "noscript"] then
      .done (s.insertRaw tag (.raw tag.name))
    else if tag.name = "script" then .done (s.insertRaw tag .script)
    else if tag.name = "template" then .done (s.openTemplate tag)
    else if tag.name = "head" then .done s
    else otherwise
  | .endTag name =>
    if name = "head" then .done (s.pop.enter .afterHead)
    else if name = "template" then .done s.closeTemplate
    else if name ∈ implyingEndTags then otherwise
    else .done s
  | .eof => otherwise
  | _ => .done s

/-! ## Around the head -/

def initial (s : Construction) (t : Token) : Step :=
  let otherwise := Step.again { s with legacy := true, mode := .beforeHtml }
  match t with
  | .char c => if Text.isAsciiSpace c then .done s else otherwise
  | .comment _ => .done s
  | _ => otherwise

def beforeHtml (s : Construction) (t : Token) : Step :=
  let otherwise := Step.again ((s.insertRoot []).enter .beforeHead)
  match t with
  | .char c => if Text.isAsciiSpace c then .done s else otherwise
  | .comment _ => .done s
  | .startTag tag =>
    if tag.name = "html" then .done ((s.insertRoot tag.attrs).enter .beforeHead) else otherwise
  | .endTag name => if name ∈ "head" :: implyingEndTags then otherwise else .done s
  | _ => otherwise

def Construction.openHead (s : Construction) (tag : Tag) : Construction :=
  let s := s.insertElement tag
  { s with head := s.stack.head?, mode := .inHead }

def beforeHead (s : Construction) (t : Token) : Step :=
  let otherwise := Step.again (s.openHead { name := "head" })
  match t with
  | .char c => if Text.isAsciiSpace c then .done s else otherwise
  | .comment content => .done (s.insertComment content)
  | .startTag tag =>
    if tag.name = "html" then .done (s.mergeRoot tag)
    else if tag.name = "head" then .done (s.openHead tag)
    else otherwise
  | .endTag name => if name ∈ "head" :: implyingEndTags then otherwise else .done s
  | _ => otherwise

/-- A rule of the head applied with the head open once more. -/
def withHeadOpen (s : Construction) (t : Token) : Step :=
  match s.head with
  | some head =>
    (inHead { s with stack := head :: s.stack } t).map fun s =>
      { s with stack := s.stack.filter fun e => e.key ≠ head.key }
  | none => .done s

/-- The rules between head and body. -/
def afterHead (s : Construction) (t : Token) : Step :=
  let otherwise := Step.again ((s.insertImplied "body").enter .inBody)
  match t with
  | .char c => if Text.isAsciiSpace c then .done (s.insertChar c) else otherwise
  | .comment content => .done (s.insertComment content)
  | .startTag tag =>
    if tag.name = "html" then .done (s.mergeRoot tag)
    else if tag.name = "body" then .done (((s.insertElement tag).refuseFrames).enter .inBody)
    else if tag.name = "frameset" then .done ((s.insertElement tag).enter .inFrameset)
    else if tag.name ∈ headTags then withHeadOpen s t
    else if tag.name = "head" then .done s
    else otherwise
  | .endTag name =>
    if name = "template" then inHead s t
    else if name ∈ implyingEndTags then otherwise
    else .done s
  | _ => otherwise

end Pane.Markup
