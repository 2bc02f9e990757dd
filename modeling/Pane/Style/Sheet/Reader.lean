import Pane.Style.Comment
import Pane.Style.MinWidth
import Pane.Style.Outline

/-!
# Reading a sheet

A sheet is read from its outline.  A block whose prelude starts with `@` is a group of rules if the
prelude is a minimum-width query, and is otherwise carried along as text; any other block with a
prelude is a rule.  Statements are carried along if they start with `@` and dropped otherwise.  Only
rules are kept of what stands inside a group.

Reading never fails: what cannot be read is left out.

* `readDeclarations` — the declarations of a block.
* `Piece.rule?`, `Piece.item?` — the meaning of a piece inside a group and at the top.
* `Sheet.read` — the sheet of a text.
* **`readItems_append`** — a text whose last piece is complete can be read on its own.
-/

namespace Pane.Style

/-! ## Declarations -/

/-- A property's name as it is compared: in lower case, unless it is a custom one. -/
def propertyName (p : List Char) : List Char :=
  if "--".toList.isPrefixOf p then p else p.map Char.toLower

/-- The declaration of a text between semicolons: a property and a value, neither of them blank,
around the first colon. -/
def declaration? (s : List Char) : Option Declaration :=
  match Text.splitFirst ':' s with
  | none => none
  | some (p, v) =>
    let p := Text.trim p
    let v := Text.trim v
    if p = [] ∨ v = [] then none
    else some ⟨String.ofList (propertyName p), String.ofList v⟩

def readDeclarations (body : List Char) : List Declaration :=
  (cutTopLevel ';' body).filterMap declaration?

def declarationsOf (body : String) : List Declaration := readDeclarations body.toList

/-! ## Items -/

/-- Whether a prelude starts an at-rule. -/
def isAtRule : List Char → Bool
  | '@' :: _ => true
  | _ => false

/-- The selectors of a prelude, without blank ones. -/
def readSelectors (prelude : List Char) : List String :=
  (((cutTopLevel ',' prelude).map Text.trim).filter fun s => !s.isEmpty).map String.ofList

def readRule (prelude body : List Char) : Rule := ⟨readSelectors prelude, readDeclarations body⟩

/-- The meaning of a piece inside a group: only rules count. -/
def Piece.rule? : Piece → Option Rule
  | .statement _ => none
  | .block prelude body =>
    if isAtRule prelude ∨ prelude = [] then none else some (readRule prelude body)

/-- The meaning of a piece at the top of a sheet. -/
def Piece.item? : Piece → Option Item
  | .statement prelude =>
    if isAtRule prelude then some (.verbatim (String.ofList (prelude ++ [';']))) else none
  | .block prelude body =>
    if isAtRule prelude then
      match readMinWidth prelude with
      | some width => some (.media width ((outline body).filterMap Piece.rule?))
      | none => some (.verbatim (String.ofList (prelude ++ '{' :: Text.trim body ++ ['}'])))
    else (Piece.rule? (.block prelude body)).map Item.rule

/-- The items of a text without comments. -/
def readItems (s : List Char) : List Item := (outline s).filterMap Piece.item?

def Sheet.readChars (s : List Char) : Sheet := ⟨readItems (stripComments s)⟩

def Sheet.read (text : String) : Sheet := Sheet.readChars text.toList

/-- **Items of a text in front of another.**  If the first text ends where nothing has been begun,
the items are those of the first and then those of the second. -/
theorem readItems_append {s : List Char} (t : List Char) (h : Reading.start.after s = .start) :
    readItems (s ++ t) = readItems s ++ readItems t := by
  simp [readItems, outline, outlineFrom_append, h]

end Pane.Style
