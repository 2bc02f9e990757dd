import Pane.Style.Sheet

/-!
# Where a character stands: quotes, escapes and brackets

A brace, comma or semicolon of style text means something only where it stands bare: outside
strings, not behind a backslash and, for some of them, outside brackets.  That is decided from left
to right by a small automaton, which is shared by every reader of style text.

* `Quoting` — plain text, a string, or the character after a backslash in either.
* `Nesting` — the same together with the number of round and square brackets that are open.
* `cutTopLevel` — a text cut at every separator that stands bare and outside brackets.
* **`joinChars_cutTopLevel`** — cutting loses nothing: the parts joined by the separator are the
  text.
-/

namespace Pane.Style

/-! ## The automaton -/

/-- The standing of the next character with respect to strings and backslashes. -/
inductive Quoting where
  /-- Outside strings. -/
  | plain
  /-- Outside strings, behind a backslash. -/
  | escaped
  /-- In a string that the given quote closes. -/
  | quoted (quote : Char)
  /-- In a string, behind a backslash. -/
  | quotedEscaped (quote : Char)
  deriving DecidableEq, Repr

/-- The standing of what follows a character. -/
def Quoting.next : Quoting → Char → Quoting
  | .plain, c =>
    if c = '\\' then .escaped else if c = '"' || c = '\'' then .quoted c else .plain
  | .escaped, _ => .plain
  | .quoted q, c => if c = '\\' then .quotedEscaped q else if c = q then .plain else .quoted q
  | .quotedEscaped q, _ => .quoted q

/-- The standing with respect to strings, backslashes and brackets.  The number of open brackets has
no bound here.  A text that is read in place has it counted in thirty-two bits, with a sign; below 2
^ 31 bytes that comes to the same (`style_text_is_cut_between_characters`). -/
structure Nesting where
  quoting : Quoting
  depth : Nat
  deriving DecidableEq, Repr

namespace Nesting

def top : Nesting := ⟨.plain, 0⟩

/-- The standing of what follows a character.  A closing bracket without an opening one counts for
nothing. -/
def next (n : Nesting) (c : Char) : Nesting :=
  ⟨n.quoting.next c,
    if n.quoting = .plain then
      if c = '(' || c = '[' then n.depth + 1
      else if c = ')' || c = ']' then n.depth - 1
      else n.depth
    else n.depth⟩

def after (n : Nesting) (s : List Char) : Nesting := s.foldl next n

end Nesting

/-! ## Cutting at separators -/

/-- The first part and the further ones of a text cut at the separators that stand bare and outside
brackets, the text starting at the given standing. -/
def cutFrom (separator : Char) : Nesting → List Char → List Char × List (List Char)
  | _, [] => ([], [])
  | n, c :: cs =>
    if n = .top ∧ c = separator then
      let (part, parts) := cutFrom separator .top cs
      ([], part :: parts)
    else
      let (part, parts) := cutFrom separator (n.next c) cs
      (c :: part, parts)

/-- The parts of a text between the separators that stand bare and outside brackets. -/
def cutTopLevel (separator : Char) (s : List Char) : List (List Char) :=
  let (part, parts) := cutFrom separator .top s
  part :: parts

theorem joinChars_cons_head (separator : List Char) (c : Char) (s : List Char)
    (ss : List (List Char)) :
    joinChars separator ((c :: s) :: ss) = c :: joinChars separator (s :: ss) := by
  cases ss <;> rfl

theorem joinChars_cutFrom (separator : Char) :
    ∀ (n : Nesting) (s : List Char),
      joinChars [separator] ((cutFrom separator n s).1 :: (cutFrom separator n s).2) = s
  | _, [] => rfl
  | n, c :: cs => by
      rw [cutFrom]
      split
      · next h => simp [joinChars, joinChars_cutFrom separator .top cs, h.2]
      · simp [joinChars_cons_head, joinChars_cutFrom separator (n.next c) cs]

/-- **Cutting loses nothing.** -/
theorem joinChars_cutTopLevel (separator : Char) (s : List Char) :
    joinChars [separator] (cutTopLevel separator s) = s :=
  joinChars_cutFrom separator .top s

end Pane.Style
