import Pane.Text.Basic

/-!
# Class selectors

A selector is useful to a pane if it starts with a class.  Its class name is decoded: a backslash
takes the next character as it is, or, if hexadecimal digits follow, up to six of them as a code
point, together with one space behind them.  A code that no character has stands for the replacement
character.  What follows the name is the *suffix* of the selector.

* `Spelling` — where the next character stands while a name is read.
* `ClassSelector` — a class name and a suffix.
* `ClassSelector.read?` — the class selector of a text.
-/

namespace Pane.Style

/-- A character that a class name holds without an escape. -/
def isNameChar (c : Char) : Bool :=
  Text.isAlphanumeric c || c = '-' || c = '_' || 128 ≤ c.toNat

/-- The character of a code point, or the replacement character if there is none. -/
def charOfCode (code : Nat) : Char :=
  if h : code.isValidChar then Char.ofNatAux code h else '\uFFFD'

/-- Where the next character stands while a class name is read. -/
inductive Spelling where
  | plain
  /-- Behind a backslash. -/
  | backslash
  /-- In a code point of which up to `room` more digits may follow. -/
  | code (value room : Nat)
  /-- Behind an escape that is complete and spells a character. -/
  | done (c : Char)
  deriving DecidableEq, Repr

namespace Spelling

/-- The state after a character that belongs to the escape at hand. -/
def absorb : Spelling → Char → Option Spelling
  | .plain, _ => none
  | .backslash, c => some (if Text.isHexDigit c then .code (Text.hexValue c) 5 else .done c)
  | .code value room, c =>
    if 0 < room ∧ Text.isHexDigit c = true then
      some (.code (16 * value + Text.hexValue c) (room - 1))
    else if c = ' ' then some (.done (charOfCode value))
    else none
  | .done _, _ => none

/-- The character that the escape at hand has spelled by now. -/
def spelled : Spelling → List Char
  | .plain => []
  | .backslash => []
  | .code value _ => [charOfCode value]
  | .done c => [c]

end Spelling

/-- The class name at the start of a text and what follows it.  A backslash at the very end spells
nothing, and then there is no name. -/
def readName : Spelling → List Char → Option (List Char × List Char)
  | .backslash, [] => none
  | state, [] => some (state.spelled, [])
  | state, c :: cs =>
    match state.absorb c with
    | some state' => readName state' cs
    | none =>
      if c = '\\' then
        (readName .backslash cs).map fun (name, rest) => (state.spelled ++ name, rest)
      else if isNameChar c then
        (readName .plain cs).map fun (name, rest) => (state.spelled ++ c :: name, rest)
      else some (state.spelled, c :: cs)

/-- A selector that starts with a class: the decoded class name, and the rest of the selector. -/
structure ClassSelector where
  name : String
  suffix : String
  deriving DecidableEq, Repr

/-- The class selector of a text, unless it does not start with a class.  A lone hyphen is no class
name. -/
def ClassSelector.readChars? (selector : List Char) : Option ClassSelector :=
  match Text.trim selector with
  | '.' :: rest =>
    match readName .plain rest with
    | none => none
    | some (name, suffix) =>
      if name = [] ∨ name = ['-'] then none
      else some ⟨String.ofList name, String.ofList (Text.trimEnd suffix)⟩
  | _ => none

def ClassSelector.read? (selector : String) : Option ClassSelector :=
  ClassSelector.readChars? selector.toList

end Pane.Style
