import Pane.Text.Basic
import Pane.Markup.Reference.Names

/-!
# Character references

A reference is written behind an ampersand: a number with `#`, or a name.  A number that no
character may have stands for the replacement character, and the numbers of the C1 controls stand
for what an old code page has there.  A name is read as far as possible; the old names may do
without a semicolon, but in an attribute only if neither a letter, a digit nor `=` follows.

* `Reference` — the characters that a reference stands for, and what follows it.
* `reference?` — the reference behind an ampersand, if there is one.
* `numericChar` — the character of a number.
-/

namespace Pane.Markup

structure Reference where
  chars : List Char
  /-- Whether it was written without the semicolon that should end it. -/
  unfinished : Bool
  rest : List Char
  deriving DecidableEq, Repr

/-! ## Numbers -/

/-- What the numbers from 128 to 159 stand for; zero where they stand for themselves. -/
def codePage : List Nat :=
  [0x20AC, 0, 0x201A, 0x0192, 0x201E, 0x2026, 0x2020, 0x2021, 0x02C6, 0x2030, 0x0160, 0x2039,
    0x0152, 0, 0x017D, 0, 0, 0x2018, 0x2019, 0x201C, 0x201D, 0x2022, 0x2013, 0x2014, 0x02DC, 0x2122,
    0x0161, 0x203A, 0x0153, 0, 0x017E, 0x0178]

def replacement : Char := '\uFFFD'

def numericChar (n : Nat) : Char :=
  if n = 0 then replacement
  else if 128 ≤ n ∧ n < 160 then
    let m := codePage.getD (n - 128) 0
    Char.ofNat (if m = 0 then n else m)
  else if h : n.isValidChar then Char.ofNatAux n h
  else replacement

/-- The reference of a number whose digits have been read. -/
def numericReference (n : Nat) : List Char → Reference
  | ';' :: rest => ⟨[numericChar n], false, rest⟩
  | rest => ⟨[numericChar n], true, rest⟩

def numeric? (s : List Char) : Option Reference :=
  let hexadecimal (t : List Char) : Option Reference :=
    let digits := t.takeWhile Text.isHexDigit
    if digits = [] then none
    else some (numericReference (Text.hexadecimalValue digits) (t.dropWhile Text.isHexDigit))
  let decimal (t : List Char) : Option Reference :=
    let digits := t.takeWhile Char.isDigit
    if digits = [] then none
    else some (numericReference (Text.decimalValue digits) (t.dropWhile Char.isDigit))
  match s with
  | 'x' :: t => hexadecimal t
  | 'X' :: t => hexadecimal t
  | t => decimal t

/-! ## Names -/

def named? (name : List Char) : Option (List Char) :=
  match name with
  | [] => none
  | c :: _ => ((Reference.namesOf c).lookup (String.ofList name)).map String.toList

/-- The longest beginning of a run of letters and digits, of at most `n` characters, that is a name
which may stand without a semicolon. -/
def longestBare? (run : List Char) : Nat → Option (List Char)
  | 0 => none
  | n + 1 =>
    let name := run.take (n + 1)
    if String.ofList name ∈ Reference.bareNames then some name else longestBare? run n

/-- The length of the longest name that may stand without a semicolon. -/
def longestBareLength : Nat := 6

/-- Whether a name without a semicolon is no reference in an attribute, for what follows it. -/
def continuesInAttribute : List Char → Bool
  | c :: _ => Text.isAlphanumeric c || c = '='
  | [] => false

/-- The reference of a name behind an ampersand. -/
def namedReference? (inAttribute : Bool) (s : List Char) : Option Reference :=
  let run := s.takeWhile Text.isAlphanumeric
  let bare : Option Reference :=
    match longestBare? run (min run.length longestBareLength) with
    | none => none
    | some name =>
      let rest := s.drop name.length
      if inAttribute && continuesInAttribute rest then none
      else (named? name).map fun chars => ⟨chars, true, rest⟩
  match s.dropWhile Text.isAlphanumeric with
  | ';' :: rest =>
    match named? run with
    | some chars => some ⟨chars, false, rest⟩
    | none => bare
  | _ => bare

/-- The reference behind an ampersand, if there is one. -/
def reference? (inAttribute : Bool) : List Char → Option Reference
  | '#' :: s => numeric? s
  | s => namedReference? inAttribute s

end Pane.Markup
