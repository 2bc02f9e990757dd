import Pane.Number.Rounding
import Pane.Text.Basic
import Pane.Wire.Json

/-!
# Reading JSON text

The grammar of JSON to the letter: no comments, no trailing commas, no control characters in
strings, no leading zeros.  Values may be nested to a hundred and twenty-seven levels; deeper ones
are invalid, and so are numbers beyond the range of doubles.

* `readString` — the inside of a string.
* `readNumber` — a number.
* `Json.parse?` — the value of a text.
-/

namespace Pane.Wire

open Number (doubleBound toDouble)
open Text (isHexDigit hexadecimalValue decimalValue)

/-! ## Strings -/

/-- The number that four hexadecimal digits spell. -/
def hexQuad? (a b c d : Char) : Option Nat :=
  if isHexDigit a && isHexDigit b && isHexDigit c && isHexDigit d then
    some (hexadecimalValue [a, b, c, d])
  else none

/-- Whether a unit is the first half of a surrogate pair. -/
def isHighSurrogate (n : Nat) : Bool := 0xD800 ≤ n && n < 0xDC00

/-- Whether a unit is the second half of a surrogate pair. -/
def isLowSurrogate (n : Nat) : Bool := 0xDC00 ≤ n && n < 0xE000

def pairChar (high low : Nat) : Char :=
  Char.ofNat (0x10000 + (high - 0xD800) * 0x400 + (low - 0xDC00))

/-- The character that a letter stands for behind a backslash. -/
def shortEscape? (c : Char) : Option Char :=
  if c = '"' ∨ c = '\\' ∨ c = '/' then some c
  else if c = 'b' then some '\x08'
  else if c = 'f' then some '\x0c'
  else if c = 'n' then some '\n'
  else if c = 'r' then some '\r'
  else if c = 't' then some '\t'
  else none

/-- Adds a character to the string that is read behind it. -/
def addChar (c : Char) (r : Option (Option (List Char) × List Char)) :
    Option (Option (List Char) × List Char) :=
  r.map fun (s, rest) => (s.map (c :: ·), rest)

/-- Spoils the string that is read behind it. -/
def spoil (r : Option (Option (List Char) × List Char)) : Option (Option (List Char) × List Char) :=
  r.map fun (_, rest) => (none, rest)

/-- The inside of a string up to its closing quote, and what follows that.  The string is missing if
it holds half of a surrogate pair. -/
def readString : List Char → Option (Option (List Char) × List Char)
  | [] => none
  | '"' :: rest => some (some [], rest)
  | '\\' :: 'u' :: a :: b :: c :: d :: '\\' :: 'u' :: e :: f :: g :: h :: rest =>
    match hexQuad? a b c d, hexQuad? e f g h with
    | some m, some n =>
      if isHighSurrogate m && isLowSurrogate n then addChar (pairChar m n) (readString rest)
      else if isHighSurrogate m || isLowSurrogate m then
        spoil (readString ('\\' :: 'u' :: e :: f :: g :: h :: rest))
      else addChar (Char.ofNat m) (readString ('\\' :: 'u' :: e :: f :: g :: h :: rest))
    | _, _ => none
  | '\\' :: 'u' :: a :: b :: c :: d :: rest =>
    match hexQuad? a b c d with
    | some m =>
      if isHighSurrogate m || isLowSurrogate m then spoil (readString rest)
      else addChar (Char.ofNat m) (readString rest)
    | none => none
  | '\\' :: c :: rest =>
    match shortEscape? c with
    | some x => addChar x (readString rest)
    | none => none
  | c :: rest => if c.toNat < 32 ∨ c = '\\' then none else addChar c (readString rest)

/-! ## Numbers -/

/-- A number with more digits appended, as many of them as sixty-four bits hold, and the digits that
are left over. -/
def appendDigits : Nat → List Char → Nat × List Char
  | n, [] => (n, [])
  | n, c :: cs =>
    let m := 10 * n + decimalValue [c]
    if m < 1 <<< 64 then appendDigits m cs else (n, c :: cs)

/-- Whether `n` times ten to the power of `up - down` is beyond the range of doubles, where both
factors are rounded before they are multiplied. -/
def exceedsDouble (n up down : Nat) : Bool :=
  if n = 0 ∨ up ≤ down then false
  else if 308 + down < up then true
  else decide (doubleBound ≤ toDouble n * toDouble (Nat.pow 10 (up - down)))

/-- Whether a number is beyond the range of doubles.  Only its first digits count, as many as
sixty-four bits hold; the other whole digits are as good as zeros. -/
def outOfRange (whole places : List Char) (exponent : Option (Bool × List Char)) : Bool :=
  let (n, more) := appendDigits 0 whole
  let (n, rest) := appendDigits n places
  let (up, down) := match exponent with
    | some (true, e) => (0, decimalValue e)
    | some (false, e) => (decimalValue e, 0)
    | none => (0, 0)
  exceedsDouble n (more.length + up) (places.length - rest.length + down)

/-- The value of a number from its parts: sign, whole digits, digits behind the point, and exponent.
It is a whole number if it has only whole digits and fits sixty-four bits. -/
def numberValue (text : List Char) (negative : Bool) (whole : List Char)
    (places : Option (List Char)) (exponent : Option (Bool × List Char)) : Json :=
  let n := decimalValue whole
  let fits := if negative then 0 < n && n ≤ 1 <<< 63 else n < 1 <<< 64
  if places = none ∧ exponent = none ∧ fits then .int (if negative then -(n : Int) else n)
  else if outOfRange whole (places.getD []) exponent then .invalid
  else .real (String.ofList text)

/-- The digits behind a point, if there is one; a point without digits is an error. -/
def fraction? : List Char → Option (Option (List Char) × List Char)
  | '.' :: s =>
    let places := s.takeWhile Char.isDigit
    if places = [] then none else some (some places, s.dropWhile Char.isDigit)
  | s => some (none, s)

/-- The exponent with its sign, if there is one; an exponent without digits is an error. -/
def exponent? (s : List Char) : Option (Option (Bool × List Char) × List Char) :=
  match s with
  | c :: t =>
    if c = 'e' ∨ c = 'E' then
      let (negative, t) := match t with
        | '-' :: t => (true, t)
        | '+' :: t => (false, t)
        | t => (false, t)
      let e := t.takeWhile Char.isDigit
      if e = [] then none else some (some (negative, e), t.dropWhile Char.isDigit)
    else some (none, s)
  | [] => some (none, [])

def readNumber (s : List Char) : Option (Json × List Char) := do
  let (negative, t) := match s with
    | '-' :: t => (true, t)
    | t => (false, t)
  let whole := t.takeWhile Char.isDigit
  if whole = [] ∨ (whole.head? = some '0' ∧ whole ≠ ['0']) then none
  else
    let (places, t) ← fraction? (t.dropWhile Char.isDigit)
    let (exponent, t) ← exponent? t
    some (numberValue (s.take (s.length - t.length)) negative whole places exponent, t)

/-! ## Values -/

def isJsonSpace (c : Char) : Bool := c = ' ' || c = '\t' || c = '\n' || c = '\r'

/-- Text without the blanks at its start. -/
def skipSpace (s : List Char) : List Char := s.dropWhile isJsonSpace

/-- How many levels of arrays and objects may be nested, counting one more than that. -/
def maxDepth : Nat := 128

/-- An array or object, invalid if it stands too deep. -/
def atDepth (depth : Nat) (v : Json) : Json := if depth ≤ 1 then .invalid else v

/-- An object, invalid if one of its names is. -/
def objectOf (members : List (Option String × Json)) : Json :=
  if members.all fun m => m.1.isSome then .obj (members.map fun m => (m.1.getD "", m.2))
  else .invalid

mutual

def readValue : Nat → Nat → List Char → Option (Json × List Char)
  | 0, _, _ => none
  | fuel + 1, depth, s =>
    match skipSpace s with
    | '"' :: t =>
      (readString t).map fun (s?, rest) =>
        ((s?.map fun s => Json.str (String.ofList s)).getD .invalid, rest)
    | '[' :: t =>
      match skipSpace t with
      | ']' :: rest => some (atDepth depth (.arr []), rest)
      | t => (readItems fuel (depth - 1) t).map fun (vs, rest) => (atDepth depth (.arr vs), rest)
    | '{' :: t =>
      match skipSpace t with
      | '}' :: rest => some (atDepth depth (.obj []), rest)
      | t =>
        (readMembers fuel (depth - 1) t).map fun (ms, rest) => (atDepth depth (objectOf ms), rest)
    | t =>
      match Text.dropFront? "null".toList t with
      | some rest => some (.null, rest)
      | none =>
        match Text.dropFront? "true".toList t with
        | some rest => some (.bool true, rest)
        | none =>
          match Text.dropFront? "false".toList t with
          | some rest => some (.bool false, rest)
          | none => readNumber t

/-- The items of an array up to its closing bracket, and what follows that. -/
def readItems : Nat → Nat → List Char → Option (List Json × List Char)
  | 0, _, _ => none
  | fuel + 1, depth, s =>
    match readValue fuel depth s with
    | none => none
    | some (v, rest) =>
      match skipSpace rest with
      | ']' :: rest => some ([v], rest)
      | ',' :: rest => (readItems fuel depth rest).map fun (vs, rest) => (v :: vs, rest)
      | _ => none

/-- The members of an object up to its closing brace, and what follows that. -/
def readMembers : Nat → Nat → List Char → Option (List (Option String × Json) × List Char)
  | 0, _, _ => none
  | fuel + 1, depth, s =>
    match skipSpace s with
    | '"' :: t =>
      match readString t with
      | none => none
      | some (name, rest) =>
        match skipSpace rest with
        | ':' :: rest =>
          match readValue fuel depth rest with
          | none => none
          | some (v, rest) =>
            match skipSpace rest with
            | '}' :: rest => some ([(name.map String.ofList, v)], rest)
            | ',' :: rest =>
              (readMembers fuel depth rest).map fun (ms, rest) =>
                ((name.map String.ofList, v) :: ms, rest)
            | _ => none
        | _ => none
    | _ => none

end

/-- The value of a text, if the text is one value and nothing else. -/
def Json.parse? (text : String) : Option Json :=
  let s := text.toList
  match readValue (2 * s.length + 2) maxDepth s with
  | some (v, rest) => if skipSpace rest = [] then some v else none
  | none => none

end Pane.Wire
