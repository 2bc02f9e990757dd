/-!
# Texts as they are read

A text arrives in portions of its encoding, and a byte order mark at the start of a portion is taken
for a sign of the encoding: it is left out.  A character that lies across the border of two portions
is read as a portion of its own.  Reading also starts anew behind a script, where a mark is left out
as well, unless one was left out there as the start of a portion.  All line ends are single line
feeds.

* `portions` — the portions of a text.
* `Source`, `Source.ofChars` — a text without its marks, and the places where they stood.
* `Source.resume` — a rest of the text, read on behind a script.
* **`flatten_portions`** — the portions of a text are the text.
-/

namespace Pane.Markup

/-! ## Portions -/

/-- How many bytes a portion has. -/
def portionSize : Nat := 4096

/-- The rest of the portion that a text starts in, which has room for some more bytes, and the
portions behind it. -/
def cutPortions : Nat → List Char → List Char × List (List Char)
  | _, [] => ([], [])
  | room, c :: cs =>
    let size := c.utf8Size
    if size < room then
      let (portion, more) := cutPortions (room - size) cs
      (c :: portion, more)
    else
      let (portion, more) := cutPortions (room + portionSize - size) cs
      if size = room then ([c], portion :: more) else ([], [c] :: portion :: more)

/-- The portions of a text. -/
def portions (s : List Char) : List (List Char) :=
  let (portion, more) := cutPortions portionSize s
  portion :: more

/-- The portions behind a place are the text behind it. -/
theorem flatten_cutPortions (room : Nat) (s : List Char) :
    (cutPortions room s).1 ++ (cutPortions room s).2.flatten = s := by
  induction s generalizing room with
  | nil => rfl
  | cons c cs ih =>
    simp only [cutPortions]
    split
    · simp [ih (room - c.utf8Size)]
    · have h := ih (room + portionSize - c.utf8Size)
      split <;> simp [h]

/-- **The portions of a text are the text.** -/
theorem flatten_portions (s : List Char) : (portions s).flatten = s :=
  flatten_cutPortions portionSize s

/-! ## Marks and line ends -/

/-- Every line end as a single line feed. -/
def normalizeNewlines : List Char → List Char
  | [] => []
  | '\r' :: '\n' :: cs => '\n' :: normalizeNewlines cs
  | c :: cs => (if c = '\r' then '\n' else c) :: normalizeNewlines cs

def byteOrderMark : Char := '\uFEFF'

/-- A text without the byte order mark that it may start with. -/
def dropMark : List Char → List Char
  | c :: cs => if c = byteOrderMark then cs else c :: cs
  | [] => []

/-- Whether a text starts with a byte order mark. -/
def hasMark (s : List Char) : Bool := s.head? = some byteOrderMark

/-- A text without the marks that portions start with. -/
structure Source where
  text : List Char
  /-- How much of the text is ahead at each place where a mark stood. -/
  marks : List Nat

namespace Source

/-- Portions put together without their marks, and what is ahead at each place where one stood. -/
def join : List (List Char) → List Char × List (List Char)
  | [] => ([], [])
  | portion :: more =>
    let (text, places) := join more
    let text := dropMark portion ++ text
    (text, if hasMark portion then text :: places else places)

/-- A text as it is read. -/
def ofChars (s : List Char) : Source :=
  let (text, places) := join (portions s)
  ⟨normalizeNewlines text, places.map fun ahead => (normalizeNewlines ahead).length⟩

/-- A rest of the text, read on from its start. -/
def resume (source : Source) (rest : List Char) : List Char :=
  if rest.length ∈ source.marks then rest else dropMark rest

end Source

end Pane.Markup
