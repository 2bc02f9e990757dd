import Pane.Style.Sheet.Reader
import Pane.Style.ClassSelector

/-!
# Background images

A background image is the first `url(…)` in the value of a `background-image` or `background`
declaration.  Its address stands in double quotes, in single quotes or bare, tried in this order,
and space around it does not count; a quoted form that never closes is read as a bare one if it can
be.

* `urlAt?`, `findUrl?` — the `url(…)` at the start of a text, and the first one in it.
* `backgroundUrl?` — the address of the first background image of some declarations.
* `replaceBackground?` — the same declarations with another address in its place.
* `substituteBackground?` — a sheet in which the rules of some classes show another background.
-/

namespace Pane.Style

/-! ## One reference -/

/-- What is left behind the bracket that closes a reference, spaces before it skipped. -/
def closing? (s : List Char) : Option (List Char) :=
  match Text.trimStart s with
  | ')' :: rest => some rest
  | _ => none

/-- An address between two of the given quotes with the closing bracket behind it, and the rest. -/
def quotedAddress? (quote : Char) : List Char → Option (List Char × List Char)
  | [] => none
  | c :: cs =>
    if c = quote then
      match Text.splitFirst quote cs with
      | some (address, rest) => (closing? rest).map (address, ·)
      | none => none
    else none

/-- A character that an address without quotes may hold. -/
def isBareChar (c : Char) : Bool := c ≠ ')' && !Text.isSpace c

/-- An address without quotes with the closing bracket behind it, and the rest. -/
def bareAddress? (s : List Char) : Option (List Char × List Char) :=
  (closing? (s.dropWhile isBareChar)).map (s.takeWhile isBareChar, ·)

/-- The address of a reference at the start of a text, and what follows the reference. -/
def urlAt? (s : List Char) : Option (List Char × List Char) := do
  let s ← Text.dropFront? "url(".toList s
  let s := Text.trimStart s
  quotedAddress? '"' s <|> quotedAddress? '\'' s <|> bareAddress? s

/-- A reference within a text: what precedes it, its address and what follows it. -/
structure UrlMatch where
  before : List Char
  address : List Char
  rest : List Char
  deriving DecidableEq, Repr

/-- The first reference of a text. -/
def findUrl? : List Char → Option UrlMatch
  | [] => none
  | c :: cs =>
    match urlAt? (c :: cs) with
    | some (address, rest) => some ⟨[], address, rest⟩
    | none => (findUrl? cs).map fun m => { m with before := c :: m.before }

/-- The address of the first reference of a value, if it is not blank. -/
def urlOf? (value : String) : Option String :=
  match findUrl? value.toList with
  | some m => Text.trimmed? (String.ofList m.address)
  | none => none

/-! ## Declarations -/

/-- Whether a property shows a background image. -/
def isBackground (property : String) : Bool :=
  property = "background-image" || property = "background"

/-- The address that a declaration shows as background. -/
def Declaration.backgroundUrl? (d : Declaration) : Option String :=
  if isBackground d.property then urlOf? d.value else none

/-- The address of the first background image of some declarations. -/
def backgroundUrl? (ds : List Declaration) : Option String :=
  ds.findSome? Declaration.backgroundUrl?

/-- A reference to an address, which is written in double quotes with its own ones encoded. -/
def urlReference (address : String) : List Char :=
  "url(\"".toList ++ address.toList.flatMap (fun c => if c = '"' then "%22".toList else [c]) ++
    "\")".toList

/-- A value with its first reference turned to another address. -/
def replaceUrl (address value : String) : String :=
  match findUrl? value.toList with
  | some m => String.ofList (m.before ++ urlReference address ++ m.rest)
  | none => value

/-- Declarations with the first background image turned to another address, if they show one. -/
def replaceBackground? (address : String) : List Declaration → Option (List Declaration)
  | [] => none
  | d :: ds =>
    if d.backgroundUrl?.isSome then some ({ d with value := replaceUrl address d.value } :: ds)
    else (replaceBackground? address ds).map (d :: ·)

/-! ## Sheets -/

/-- Whether one of the classes is the class of a selector of the rule. -/
def Rule.selects (r : Rule) (classes : List String) : Bool :=
  r.selectors.any fun s =>
    match ClassSelector.read? s with
    | some sel => decide (sel.name ∈ classes)
    | none => false

/-- A rule of one of the classes with its background turned to another address, if it shows one. -/
def Rule.replaceBackground? (r : Rule) (classes : List String) (address : String) : Option Rule :=
  if r.selects classes then
    (Style.replaceBackground? address r.declarations).map fun ds => { r with declarations := ds }
  else none

/-- The first member that a function changes, changed, the others as they are. -/
def replaceFirst? {α : Type} (change : α → Option α) : List α → Option (List α)
  | [] => none
  | x :: xs =>
    match change x with
    | some y => some (y :: xs)
    | none => (replaceFirst? change xs).map (x :: ·)

/-- An item with the background of its first rule that has one and is of one of the classes turned
to another address. -/
def Item.replaceBackground? (classes : List String) (address : String) : Item → Option Item
  | .rule r => (r.replaceBackground? classes address).map .rule
  | .media width rules =>
    (replaceFirst? (fun r => r.replaceBackground? classes address) rules).map (.media width)
  | .verbatim _ => none

/-- A sheet with the background of its first rule that has one and is of one of the classes turned
to another address. -/
def Sheet.replaceBackground? (s : Sheet) (classes : List String) (address : String) :
    Option Sheet :=
  (replaceFirst? (Item.replaceBackground? classes address) s.items).map Sheet.mk

/-- The text of a sheet in which the first background that some classes show is another one. -/
def substituteBackground? (text : String) (classes : List String) (address : String) :
    Option String :=
  ((Sheet.read text).replaceBackground? classes address).map Sheet.render

end Pane.Style
