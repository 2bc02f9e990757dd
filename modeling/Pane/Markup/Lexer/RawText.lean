import Pane.Markup.Lexer.Tag

/-!
# Text that is not markup

The content of some elements is plain text up to their own end tag.  A script has a peculiarity:
behind `<!--` an opening tag of another script hides the next end tag, until `-->` or that end tag.

* `endsElement` — whether the end tag of an element stands at the start of a text.
* `cutRawText` — a text cut in front of the end tag of an element.
* `cutScript` — the same for a script.
-/

namespace Pane.Markup

/-- Whether the end tag of an element stands at the start of a text. -/
def endsElement (element : String) : List Char → Bool
  | '<' :: '/' :: s =>
    let name := s.takeWhile Char.isAlpha
    match s.dropWhile Char.isAlpha with
    | c :: _ => endsTagName c && tagName name = element
    | [] => false
  | _ => false

/-- A text cut in front of the end tag of an element. -/
def cutRawText (element : String) : List Char → List Char × List Char
  | [] => ([], [])
  | c :: cs =>
    if endsElement element (c :: cs) then ([], c :: cs)
    else
      let (text, rest) := cutRawText element cs
      (c :: text, rest)

/-! ## Scripts -/

/-- How far the text of a script is from hiding its end tag.  Dashes are counted up to two. -/
inductive ScriptPart where
  | plain
  /-- Behind `<!--`. -/
  | escaped (dashes : Nat)
  /-- Behind the opening tag of another script there. -/
  | hidden (dashes : Nat)
  deriving DecidableEq, Repr

/-- Whether a tag named `script`, of which the opening bracket or slash is past, stands at the start
of a text: its name in any letter case, and then a space, a slash or the end of the tag. -/
def namesScript (s : List Char) : Bool :=
  match s.dropWhile Char.isAlpha with
  | c :: _ => endsTagName c && tagName (s.takeWhile Char.isAlpha) = "script"
  | [] => false

/-- The part of a script behind a character; `cs` is what follows the character. -/
def ScriptPart.next (p : ScriptPart) (c : Char) (cs : List Char) : ScriptPart :=
  match p with
  | plain => if c = '<' ∧ "!--".toList.isPrefixOf cs = true then .escaped 0 else .plain
  | escaped dashes =>
    if c = '-' then .escaped (min (dashes + 1) 2)
    else if c = '>' ∧ dashes = 2 then .plain
    else if c = '<' ∧ namesScript cs = true then .hidden 0
    else .escaped 0
  | hidden dashes =>
    if c = '-' then .hidden (min (dashes + 1) 2)
    else if c = '>' ∧ dashes = 2 then .plain
    else if c = '<' then
      match cs with
      | '/' :: name => if namesScript name then .escaped 0 else .hidden 0
      | _ => .hidden 0
    else .hidden 0

/-- Whether the end tag of the script is seen in a part of it. -/
def ScriptPart.seesEnd : ScriptPart → Bool
  | hidden _ => false
  | _ => true

/-- The text of a script from the given part on, cut in front of its end tag. -/
def cutScriptFrom : ScriptPart → List Char → List Char × List Char
  | _, [] => ([], [])
  | p, c :: cs =>
    if p.seesEnd && endsElement "script" (c :: cs) then ([], c :: cs)
    else
      let (text, rest) := cutScriptFrom (p.next c cs) cs
      (c :: text, rest)

def cutScript (s : List Char) : List Char × List Char := cutScriptFrom .plain s

end Pane.Markup
