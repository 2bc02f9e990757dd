import Pane.Text.Basic

/-!
# JSON values and their text

Panes travel as JSON.  A value is kept with the members of its objects in the order in which they
were written and with repetitions, because a reader may have to refuse those.

A text can be well-formed and still hold a part that stands for nothing: a string with half of a
surrogate pair, a number beyond the range of doubles, a value nested too deeply.  Such a part may be
skipped over, but it cannot be used, and it becomes the value `invalid`.

* `Json` — the values.
* `Json.usable` — whether a value has no invalid part.
* `Json.chars`, `Json.render` — the text of a value.
-/

namespace Pane.Wire

inductive Json where
  | null
  | bool (b : Bool)
  /-- A whole number within sixty-four bits, written without point and exponent. -/
  | int (n : Int)
  /-- Any other number, by its text. -/
  | real (text : String)
  | str (s : String)
  | arr (items : List Json)
  | obj (members : List (String × Json))
  /-- A part of a text that stands for nothing. -/
  | invalid
  deriving Repr, BEq, Inhabited

namespace Json

mutual

/-- Whether a value has no invalid part. -/
def usable : Json → Bool
  | .invalid => false
  | .arr items => usableAll items
  | .obj members => usableMembers members
  | _ => true

def usableAll : List Json → Bool
  | [] => true
  | v :: vs => usable v && usableAll vs

def usableMembers : List (String × Json) → Bool
  | [] => true
  | (_, v) :: ms => usable v && usableMembers ms

end

/-! ## Text -/

/-- A character within a string: quotes, backslashes and control characters are escaped. -/
def escapeChar (c : Char) : List Char :=
  if c = '"' then ['\\', '"']
  else if c = '\\' then ['\\', '\\']
  else if c = '\n' then ['\\', 'n']
  else if c = '\r' then ['\\', 'r']
  else if c = '\t' then ['\\', 't']
  else if c.toNat < 32 then
    ['\\', 'u', '0', '0', Text.hexDigit (c.toNat / 16), Text.hexDigit (c.toNat % 16)]
  else [c]

def quote (s : String) : List Char := '"' :: s.toList.flatMap escapeChar ++ ['"']

def intChars (n : Int) : List Char :=
  if n < 0 then '-' :: Nat.toDigits 10 n.natAbs else Nat.toDigits 10 n.natAbs

mutual

/-- The text of a value, without any space. -/
def chars : Json → List Char
  | .null => "null".toList
  | .bool true => "true".toList
  | .bool false => "false".toList
  | .int n => intChars n
  | .real text => text.toList
  | .str s => quote s
  | .arr items => '[' :: itemChars true items ++ [']']
  | .obj members => '{' :: memberChars true members ++ ['}']
  | .invalid => "null".toList

/-- The items of an array, a comma before each but the first. -/
def itemChars (first : Bool) : List Json → List Char
  | [] => []
  | v :: vs => (if first then [] else [',']) ++ chars v ++ itemChars false vs

/-- The members of an object, a comma before each but the first. -/
def memberChars (first : Bool) : List (String × Json) → List Char
  | [] => []
  | (k, v) :: ms =>
    (if first then [] else [',']) ++ quote k ++ ':' :: chars v ++ memberChars false ms

end

def render (v : Json) : String := String.ofList v.chars

/-! ## Making values -/

def ofOption : Option String → Json
  | some s => .str s
  | none => .null

def ofStrings (ss : List String) : Json := .arr (ss.map .str)

def ofNat (n : Nat) : Json := .int n

end Json

end Pane.Wire
