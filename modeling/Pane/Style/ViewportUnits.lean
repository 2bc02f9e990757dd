import Pane.Text.Basic
import Pane.Text.Word
import Pane.Style.Quoting

/-!
# Viewport units as percentages

A pane is drawn on a surface of fixed width, where the viewport units `vw` and `vh` mean nothing.
Snapshots therefore show them as percentages.  Strings and `url(…)` references are literals and are
copied as they are; between literals, a number with a viewport unit becomes a percentage if it
starts where no word, dot or hyphen precedes it and if the unit ends its word.

* `Segment`, `segments` — the literals of a text and the plain text between them.
* `numberWithUnit?` — the number of a viewport unit at the start of a text.
* `percentPlain` — plain text with percentages.
* `withPercentages` — a whole text with percentages.
* **`text_segments`** — the segments make up the text.
-/

namespace Pane.Style

/-! ## Literals -/

inductive Segment where
  | plain (text : List Char)
  | literal (text : List Char)
  deriving DecidableEq, Repr

def Segment.text : Segment → List Char
  | .plain s => s
  | .literal s => s

/-- Where the next character stands while literals are sought. -/
inductive Region where
  | plain
  | string (quoting : Quoting)
  /-- In the opening `url(`, of which some characters are to come. -/
  | opening (left : Nat)
  /-- In the argument of a `url(…)`. -/
  | argument (quoting : Quoting)
  deriving DecidableEq, Repr

/-- Whether a reference opens here: `url(` in any letter case, and not at the end of a longer
name. -/
def opensUrl (previous : Option Char) : List Char → Bool
  | u :: r :: l :: b :: _ =>
    !(previous.any fun p => Text.isAlphanumeric p || p = '-') &&
      u.toLower = 'u' && r.toLower = 'r' && l.toLower = 'l' && b = '('
  | _ => false

/-- The segments of a text that starts in the given region, the characters of the segment at hand
given in reverse. -/
def segmentsFrom : Region → List Char → List Char → List Segment
  | .plain, seen, [] => [.plain seen.reverse]
  | _, seen, [] => [.literal seen.reverse]
  | .plain, seen, c :: cs =>
    if c = '"' || c = '\'' then
      .plain seen.reverse :: segmentsFrom (.string (.quoted c)) [c] cs
    else if opensUrl seen.head? (c :: cs) then
      .plain seen.reverse :: segmentsFrom (.opening 3) [c] cs
    else segmentsFrom .plain (c :: seen) cs
  | .string quoting, seen, c :: cs =>
    match quoting.next c with
    | .plain => .literal (c :: seen).reverse :: segmentsFrom .plain [] cs
    | quoting' => segmentsFrom (.string quoting') (c :: seen) cs
  | .opening left, seen, c :: cs =>
    segmentsFrom (if left ≤ 1 then .argument .plain else .opening (left - 1)) (c :: seen) cs
  | .argument quoting, seen, c :: cs =>
    if quoting = .plain ∧ c = ')' then
      .literal (c :: seen).reverse :: segmentsFrom .plain [] cs
    else segmentsFrom (.argument (quoting.next c)) (c :: seen) cs

def segments (s : List Char) : List Segment := segmentsFrom .plain [] s

theorem text_segmentsFrom :
    ∀ (r : Region) (seen s : List Char),
      (segmentsFrom r seen s).flatMap Segment.text = seen.reverse ++ s
  | .plain, seen, [] => by simp [segmentsFrom, Segment.text]
  | .string _, seen, [] => by simp [segmentsFrom, Segment.text]
  | .opening _, seen, [] => by simp [segmentsFrom, Segment.text]
  | .argument _, seen, [] => by simp [segmentsFrom, Segment.text]
  | .plain, seen, c :: cs => by
      rw [segmentsFrom]
      split
      · simp [Segment.text, text_segmentsFrom _ _ cs]
      · split
        · simp [Segment.text, text_segmentsFrom _ _ cs]
        · simp [text_segmentsFrom _ _ cs]
  | .string quoting, seen, c :: cs => by
      rw [segmentsFrom]
      split
      · simp [Segment.text, text_segmentsFrom _ _ cs]
      · simp [text_segmentsFrom _ _ cs]
  | .opening left, seen, c :: cs => by
      rw [segmentsFrom]
      simp [text_segmentsFrom _ _ cs]
  | .argument quoting, seen, c :: cs => by
      rw [segmentsFrom]
      split
      · simp [Segment.text, text_segmentsFrom _ _ cs]
      · simp [text_segmentsFrom _ _ cs]

/-- **The segments make up the text.** -/
theorem text_segments (s : List Char) : (segments s).flatMap Segment.text = s := by
  simp [segments, text_segmentsFrom]

/-! ## Numbers with a unit -/

/-- A decimal number without a sign at the start of a text, and what follows it.  The digits before
or those behind the point may be missing, but not both. -/
def unsigned? (s : List Char) : Option (List Char × List Char) :=
  let whole := s.takeWhile Text.isDigit
  match s.dropWhile Text.isDigit with
  | '.' :: tail =>
    let places := tail.takeWhile Text.isDigit
    if whole = [] ∧ places = [] then none
    else some (whole ++ '.' :: places, tail.dropWhile Text.isDigit)
  | rest => if whole = [] then none else some (whole, rest)

/-- A decimal number at the start of a text, and what follows it. -/
def number? : List Char → Option (List Char × List Char)
  | '-' :: s => (unsigned? s).map fun (n, rest) => ('-' :: n, rest)
  | s => unsigned? s

/-- Whether a viewport unit that ends its word stands at the start of a text. -/
def startsWithUnit : List Char → Bool
  | 'v' :: d :: rest => (d = 'w' || d = 'h') && !(rest.head?.any Text.isWord)
  | _ => false

/-- The number of a viewport unit at the start of a text. -/
def numberWithUnit? (s : List Char) : Option (List Char) :=
  match number? s with
  | some (n, rest) => if startsWithUnit rest then some n else none
  | none => none

/-! ## Percentages -/

/-- Whether a number may start behind a character. -/
def separatesNumbers (c : Char) : Bool := !Text.isWord c && c ≠ '.' && c ≠ '-'

/-- What is being copied: ordinary text, behind which a number may start or not, or the rest of a
number of which `left` characters are to come before its unit. -/
inductive Copying where
  | text (mayStart : Bool)
  | number (left : Nat)
  deriving DecidableEq, Repr

/-- Plain text with its viewport units turned to percentages, from the given state. -/
def percentFrom : Copying → List Char → List Char
  | _, [] => []
  | .number (n + 1), c :: cs => c :: percentFrom (.number n) cs
  | .number 0, [c] => [c]
  | .number 0, _ :: _ :: cs => '%' :: percentFrom (.text false) cs
  | .text mayStart, c :: cs =>
    match if mayStart then numberWithUnit? (c :: cs) else none with
    | some n => c :: percentFrom (.number (n.length - 1)) cs
    | none => c :: percentFrom (.text (separatesNumbers c)) cs

def percentPlain (s : List Char) : List Char := percentFrom (.text true) s

/-- A segment with its viewport units turned to percentages, unless it is a literal. -/
def Segment.withPercentages : Segment → List Char
  | .plain s => percentPlain s
  | .literal s => s

/-- A text with its viewport units turned to percentages, outside literals. -/
def percentChars (s : List Char) : List Char := (segments s).flatMap Segment.withPercentages

/-- A text with its viewport units turned to percentages, outside literals. -/
def withPercentages (s : String) : String := String.ofList (percentChars s.toList)

/-- A declaration with the viewport units of its value turned to percentages. -/
def Declaration.withPercentages (d : Declaration) : Declaration :=
  { d with value := Style.withPercentages d.value }

end Pane.Style
