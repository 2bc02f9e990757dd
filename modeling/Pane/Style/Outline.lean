import Pane.Text.Basic
import Pane.Style.Quoting

/-!
# The outline of a sheet: its top-level statements and blocks

Before a sheet means anything it is cut into pieces: statements, which a semicolon ends, and blocks,
which a brace opens and its partner closes.  What stands before either is the *prelude* of the
piece.  Inside a block only braces, strings and backslashes count, so a block may hold further
blocks; the outline of those is taken where they are wanted.

Text that never reaches its end — a prelude without a block, a block that is not closed — yields no
piece.  Reading is a run of an automaton over the characters, so what a text yields in front of
another text can be told from the state it ends in.

* `Piece` — a statement or a block.
* `Reading`, `Reading.next` — the state of the automaton and its step.
* `outline` — the pieces of a text.
* **`outlineFrom_append`** — the pieces of a text followed by another are the pieces of the first,
  and then those of the second from the state that the first ends in.
-/

namespace Pane.Style

/-- A top-level piece of a sheet.  Preludes are trimmed, bodies are not. -/
inductive Piece where
  | statement (prelude : List Char)
  | block (prelude body : List Char)
  deriving DecidableEq, Repr

/-- What has been read of the piece at hand; `seen` is in reverse.  Like the brackets of a standing,
the braces of a block are counted without a bound, and read in place they are counted in thirty-two
bits, with a sign; below 2 ^ 31 bytes that comes to the same
(`style_text_is_cut_between_characters`). -/
inductive Reading where
  /-- In a prelude, at some standing. -/
  | inPrelude (seen : List Char) (standing : Nesting)
  /-- In the block of a prelude, with `depth` further braces open in it. -/
  | inBody (prelude seen : List Char) (quoting : Quoting) (depth : Nat)
  deriving DecidableEq, Repr

namespace Reading

def start : Reading := .inPrelude [] .top

/-- The state after a character, and the piece that the character completes. -/
def next : Reading → Char → Reading × Option Piece
  | .inPrelude seen standing, c =>
    if standing = .top ∧ c = ';' then (start, some (.statement (Text.trim seen.reverse)))
    else if standing = .top ∧ c = '{' then (.inBody (Text.trim seen.reverse) [] .plain 0, none)
    else (.inPrelude (c :: seen) (standing.next c), none)
  | .inBody prelude seen quoting depth, c =>
    if quoting = .plain ∧ c = '}' then
      match depth with
      | 0 => (start, some (.block prelude seen.reverse))
      | n + 1 => (.inBody prelude (c :: seen) (quoting.next c) n, none)
    else
      let deeper := if quoting = .plain ∧ c = '{' then depth + 1 else depth
      (.inBody prelude (c :: seen) (quoting.next c) deeper, none)

/-- The state after a whole text. -/
def after (r : Reading) (s : List Char) : Reading := s.foldl (fun r c => (r.next c).1) r

end Reading

/-- The pieces that a text completes, read from the given state. -/
def outlineFrom : Reading → List Char → List Piece
  | _, [] => []
  | r, c :: cs => (r.next c).2.toList ++ outlineFrom (r.next c).1 cs

def outline (s : List Char) : List Piece := outlineFrom .start s

/-- **Pieces of a text in front of another.** -/
theorem outlineFrom_append :
    ∀ (r : Reading) (s t : List Char),
      outlineFrom r (s ++ t) = outlineFrom r s ++ outlineFrom (r.after s) t
  | _, [], _ => rfl
  | r, c :: cs, t => by
      simp [outlineFrom, Reading.after, outlineFrom_append (r.next c).1 cs t]

end Pane.Style
