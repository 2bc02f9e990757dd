import Pane.Markup.Construction.Table

/-!
# The rules of selections, templates, frames and of what follows the body

* `inText` — the rules of text that is read on its own.
* `inSelect`, `inSelectInTable` — the rules of selections.
* `inTemplate` — the rules of templates.
* `afterBody`, `afterAfterBody` — the rules behind the body.
* `inFrameset`, `afterFrameset`, `afterAfterFrameset` — the rules of frames.
-/

namespace Pane.Markup

/-! ## Text that is read on its own -/

def inText (s : Construction) (t : Token) : Step :=
  match t with
  | .char c => .done (s.insertChar c)
  | .endTag _ => .done (s.pop.enter s.returnMode)
  | .eof => .again (s.pop.enter s.returnMode)
  | _ => .done s

/-! ## Selections -/

namespace Construction

/-- The state with a selection closed, in the mode of what is around it. -/
def closeSelect (s : Construction) : Construction := (s.popThroughNamed "select").resetMode

/-- Whether a selection is open that can be closed here. -/
def selectInScope (s : Construction) : Bool := s.inScopeNamed Opened.isSelectBoundary "select"

/-- The state with the group of options closed that is innermost, or next to that an option. -/
def closeOptionGroup (s : Construction) : Construction :=
  let s := match s.stack with
    | e :: e' :: _ => if e.isHtml "option" && e'.isHtml "optgroup" then s.pop else s
    | _ => s
  if s.currentIn ["optgroup"] then s.pop else s

/-- The state with the option closed that is innermost. -/
def closeOption (s : Construction) : Construction := if s.currentIn ["option"] then s.pop else s

/-- The state with the option closed that is innermost, and with the group of options closed that is
innermost then. -/
def closeOptions (s : Construction) : Construction :=
  let s := s.closeOption
  if s.currentIn ["optgroup"] then s.pop else s

end Construction

def inSelect (s : Construction) (t : Token) : Step :=
  match t with
  | .char c => .done (if c = '\x00' then s else s.insertChar c)
  | .comment content => .done (s.insertComment content)
  | .startTag tag =>
    if tag.name = "html" then .done (s.mergeRoot tag)
    else if tag.name = "option" then .done (s.closeOption.insertElement tag)
    else if tag.name = "optgroup" then .done (s.closeOptions.insertElement tag)
    else if tag.name = "hr" then .done (s.closeOptions.insertVoid tag)
    else if tag.name = "select" then .done (if s.selectInScope then s.closeSelect else s)
    else if tag.name ∈ ["input", "keygen", "textarea"] then
      if s.selectInScope then .again s.closeSelect else .done s
    else if tag.name ∈ ["script", "template"] then inHead s t
    else .done s
  | .endTag name =>
    if name = "optgroup" then .done s.closeOptionGroup
    else if name = "option" then .done s.closeOption
    else if name = "select" then .done (if s.selectInScope then s.closeSelect else s)
    else if name = "template" then .done s.closeTemplate
    else .done s
  | .eof => inBody s t
  | _ => .done s

/-- The tags of a table that end a selection in it. -/
def selectEnders : List String :=
  ["caption", "table", "tbody", "tfoot", "thead", "tr", "td", "th"]

def inSelectInTable (s : Construction) (t : Token) : Step :=
  match t with
  | .startTag tag => if tag.name ∈ selectEnders then .again s.closeSelect else inSelect s t
  | .endTag name =>
    if name ∈ selectEnders then
      if s.inTableScope name then .again s.closeSelect else .done s
    else inSelect s t
  | _ => inSelect s t

/-! ## Templates -/

def Construction.changeTemplateMode (s : Construction) (mode : Mode) : Construction :=
  { s with templateModes := mode :: s.templateModes.drop 1, mode := mode }

/-- The rules of templates: the first tag that is met decides what the template is the content
of. -/
def inTemplate (s : Construction) (t : Token) : Step :=
  match t with
  | .char _ => inBody s t
  | .comment _ => inBody s t
  | .startTag tag =>
    if tag.name ∈ headTags then inHead s t
    else if tag.name ∈ ["caption", "colgroup", "tbody", "tfoot", "thead"] then
      .again (s.changeTemplateMode .inTable)
    else if tag.name = "col" then .again (s.changeTemplateMode .inColumnGroup)
    else if tag.name = "tr" then .again (s.changeTemplateMode .inTableBody)
    else if tag.name ∈ cells then .again (s.changeTemplateMode .inRow)
    else .again (s.changeTemplateMode .inBody)
  | .endTag name => .done (if name = "template" then s.closeTemplate else s)
  | .eof => eofInTemplate s
  | _ => .done s

/-! ## Behind the body -/

def afterBody (s : Construction) (t : Token) : Step :=
  let otherwise := Step.again (s.enter .inBody)
  match t with
  | .char c => if Text.isAsciiSpace c then inBody s t else otherwise
  | .comment content => .done (s.insertCommentAtRoot content)
  | .startTag tag => if tag.name = "html" then .done (s.mergeRoot tag) else otherwise
  | .endTag name => if name = "html" then .done (s.enter .afterAfterBody) else otherwise
  | .eof => .done s
  | _ => otherwise

/-- The rules behind the document. -/
def afterAfterBody (s : Construction) (t : Token) : Step :=
  let otherwise := Step.again (s.enter .inBody)
  match t with
  | .char c => if Text.isAsciiSpace c then inBody s t else otherwise
  | .comment _ => .done s
  | .startTag tag => if tag.name = "html" then .done (s.mergeRoot tag) else otherwise
  | .eof => .done s
  | _ => otherwise

/-! ## Frames -/

def inFrameset (s : Construction) (t : Token) : Step :=
  match t with
  | .char c => .done (if Text.isAsciiSpace c then s.insertChar c else s)
  | .comment content => .done (s.insertComment content)
  | .startTag tag =>
    if tag.name = "html" then .done (s.mergeRoot tag)
    else if tag.name = "frameset" then .done (s.insertElement tag)
    else if tag.name = "frame" then .done (s.insertVoid tag)
    else if tag.name = "noframes" then inHead s t
    else .done s
  | .endTag name =>
    if name = "frameset" ∧ 1 < s.stack.length then
      let s := s.pop
      .done (if s.currentIn ["frameset"] then s else s.enter .afterFrameset)
    else .done s
  | _ => .done s

def afterFrameset (s : Construction) (t : Token) : Step :=
  match t with
  | .char c => .done (if Text.isAsciiSpace c then s.insertChar c else s)
  | .comment content => .done (s.insertComment content)
  | .startTag tag =>
    if tag.name = "html" then .done (s.mergeRoot tag)
    else if tag.name = "noframes" then inHead s t
    else .done s
  | .endTag name => .done (if name = "html" then s.enter .afterAfterFrameset else s)
  | _ => .done s

def afterAfterFrameset (s : Construction) (t : Token) : Step :=
  match t with
  | .char c => if Text.isAsciiSpace c then inBody s t else .done s
  | .startTag tag =>
    if tag.name = "html" then .done (s.mergeRoot tag)
    else if tag.name = "noframes" then inHead s t
    else .done s
  | _ => .done s

end Pane.Markup
