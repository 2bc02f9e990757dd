/-!
# Character classes and cuts of plain text

Style text and markup disagree about white space.  Markup separates class tokens and collapses text
at five ASCII characters; everything that is *trimmed* loses every Unicode space, the no-break space
included.  Both classes are here, once, so that each reader can say which of them it means.

All scanning is on `List Char`; the `String` versions at the end of the file are the ones that the
rest of the library stores and compares.

* `isAsciiSpace`, `isSpace` — the two classes; `isSpace_of_isAsciiSpace` says that one is within the
  other.
* `trim`, `trimEnd` — removal of Unicode space at the ends.
* `pieces`, `words` — cutting at separators, with and without empty pieces.
* **`trim_trim`** — trimming twice is trimming once.
-/

namespace Pane.Text

/-! ## Classes -/

/-- The white space of markup: tab, line feed, form feed, carriage return and space. -/
def isAsciiSpace (c : Char) : Bool :=
  c = ' ' || c = '\t' || c = '\n' || c = '\x0c' || c = '\r'

/-- The Unicode property `White_Space`. -/
def isSpace (c : Char) : Bool :=
  (9 ≤ c.toNat && c.toNat ≤ 13) || c.toNat = 0x20 || c.toNat = 0x85 || c.toNat = 0xA0 ||
  c.toNat = 0x1680 || (0x2000 ≤ c.toNat && c.toNat ≤ 0x200A) || c.toNat = 0x2028 ||
  c.toNat = 0x2029 || c.toNat = 0x202F || c.toNat = 0x205F || c.toNat = 0x3000

/-- Every space of markup is a Unicode space. -/
theorem isSpace_of_isAsciiSpace {c : Char} (h : isAsciiSpace c = true) : isSpace c = true := by
  simp only [isAsciiSpace, Bool.or_eq_true, decide_eq_true_eq] at h
  rcases h with (((h | h) | h) | h) | h <;> subst h <;> decide

/-- A letter or a digit of ASCII. -/
def isAlphanumeric (c : Char) : Bool := c.isAlpha || c.isDigit

def isHexDigit (c : Char) : Bool :=
  c.isDigit || ('a' ≤ c && c ≤ 'f') || ('A' ≤ c && c ≤ 'F')

/-- The value of a hexadecimal digit; anything else counts as zero. -/
def hexValue (c : Char) : Nat :=
  if c.isDigit then c.toNat - 48
  else if 'a' ≤ c && c ≤ 'f' then c.toNat - 87
  else if 'A' ≤ c && c ≤ 'F' then c.toNat - 55
  else 0

/-- The digit of a number below sixteen, a letter in lower case from ten on. -/
def hexDigit (n : Nat) : Char :=
  if n < 10 then Char.ofNat (48 + n) else Char.ofNat (87 + n)

/-- The value of a run of hexadecimal digits. -/
def hexadecimalValue (digits : List Char) : Nat :=
  digits.foldl (fun n c => 16 * n + hexValue c) 0

/-- The value of a run of decimal digits. -/
def decimalValue (digits : List Char) : Nat :=
  digits.foldl (fun n c => 10 * n + (c.toNat - 48)) 0

/-! ## Trimming -/

/-- Text without the spaces at its start. -/
def trimStart (s : List Char) : List Char := s.dropWhile isSpace

/-- Text without the spaces at its end. -/
def trimEnd (s : List Char) : List Char := (s.reverse.dropWhile isSpace).reverse

/-- Text without the spaces at either end. -/
def trim (s : List Char) : List Char := trimEnd (trimStart s)

/-- Whether nothing but spaces is in the text. -/
def isBlank (s : List Char) : Bool := s.all isSpace

/-- The first character that `dropWhile` leaves fails the test. -/
theorem of_dropWhile_eq_cons {p : Char → Bool} :
    ∀ {s : List Char} {c : Char} {cs : List Char}, s.dropWhile p = c :: cs → p c = false
  | [], _, _, h => by simp at h
  | d :: ds, c, cs, h => by
      cases hd : p d
      · rw [List.dropWhile_cons_of_neg (by simp [hd])] at h
        cases h
        exact hd
      · rw [List.dropWhile_cons_of_pos hd] at h
        exact of_dropWhile_eq_cons h

/-- What `dropWhile` leaves is left alone by a second `dropWhile`. -/
theorem dropWhile_dropWhile (p : Char → Bool) (s : List Char) :
    (s.dropWhile p).dropWhile p = s.dropWhile p := by
  cases h : s.dropWhile p with
  | nil => rfl
  | cons c cs => rw [List.dropWhile_cons_of_neg (by simp [of_dropWhile_eq_cons h])]

theorem trimEnd_trimEnd (s : List Char) : trimEnd (trimEnd s) = trimEnd s := by
  simp [trimEnd, dropWhile_dropWhile]

theorem trimStart_trimEnd_trimStart (s : List Char) :
    trimStart (trimEnd (trimStart s)) = trimEnd (trimStart s) := by
  cases h : trimStart s with
  | nil => rfl
  | cons c cs =>
    have hc : isSpace c = false := of_dropWhile_eq_cons h
    have hd : trimEnd (c :: cs) = c :: trimEnd cs := by
      simp only [trimEnd, List.reverse_cons, List.dropWhile_append]
      split
      · next he => simp [hc, List.isEmpty_iff.1 he]
      · simp
    rw [hd, trimStart, List.dropWhile_cons_of_neg (by simp [hc])]

/-- **Trimming twice is trimming once.** -/
theorem trim_trim (s : List Char) : trim (trim s) = trim s := by
  rw [trim, trim, trimStart_trimEnd_trimStart, trimEnd_trimEnd]

/-! ## Cutting -/

/-- The text before and after the first `sep`, if there is one. -/
def splitFirst (sep : Char) : List Char → Option (List Char × List Char)
  | [] => none
  | c :: cs => if c = sep then some ([], cs) else (splitFirst sep cs).map fun (a, b) => (c :: a, b)

/-- The stretches between separators; there is always one more of them than separators. -/
def pieces (separator : Char → Bool) : List Char → List (List Char)
  | [] => [[]]
  | c :: cs =>
    if separator c then [] :: pieces separator cs
    else match pieces separator cs with
      | [] => [[c]]
      | w :: ws => (c :: w) :: ws

/-- The non-empty stretches between white space of markup. -/
def words (s : List Char) : List (List Char) :=
  (pieces isAsciiSpace s).filter fun w => !w.isEmpty

/-- What follows a given beginning, if the text begins so. -/
def dropFront? : List Char → List Char → Option (List Char)
  | [], s => some s
  | _ :: _, [] => none
  | p :: ps, c :: cs => if p = c then dropFront? ps cs else none

/-! ## The same on strings -/

/-- A string without the spaces at either end. -/
def trimmed (s : String) : String := String.ofList (trim s.toList)

/-- A string without the spaces at either end, unless nothing is left. -/
def trimmed? (s : String) : Option String :=
  let t := trimmed s
  if t = "" then none else some t

/-- The tokens of a space-separated attribute, in order and with repetitions. -/
def tokens (s : String) : List String := (words s.toList).map String.ofList

/-- Tokens back in one attribute, a single space between them. -/
def joinTokens (ts : List String) : String := String.intercalate " " ts

/-- A string with ASCII letters in lower case. -/
def lower (s : String) : String := String.ofList (s.toList.map Char.toLower)

/-- Members of a list in the order of their first occurrence. -/
def dedup (xs : List String) : List String :=
  xs.foldl (fun seen x => if x ∈ seen then seen else seen ++ [x]) []

end Pane.Text
