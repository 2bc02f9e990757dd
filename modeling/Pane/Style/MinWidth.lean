import Pane.Number.Rounding
import Pane.Text.Keyword
import Pane.Style.Sheet

/-!
# Preludes that ask for a minimum width

A group of rules is understood if its prelude is exactly a minimum-width query: `@media`, perhaps
`only`, perhaps `screen and` or `all and`, then `(min-width: …)` with an amount in `px`, `em` or
`rem`.  Letter case does not matter, and an `em` counts sixteen pixels.

The amount is a decimal that is first rounded to the nearest double-precision number and then to the
nearest whole number of pixels, a half away from zero.  Both roundings are exact arithmetic here.
What exceeds the range of a width is the widest width.

* `readMinWidth` — the width that a prelude asks for, if it is such a query.
* `pixels` — the rounding.
* **`pixels_whole`** — an amount without a fraction loses nothing but what exceeds the range.
-/

namespace Pane.Style

open Number (roundToEven roundToEven_one)

/-! ## Rounding -/

def maxWidth : Nat := 4294967295

/-- The power of two by which `n / d` is scaled so that its whole part has fifty-three bits. -/
def scale (n d : Nat) : Nat :=
  let s := 53 + d.log2 - n.log2
  if (n <<< s) / d < 1 <<< 53 then s else s - 1

/-- The pixels of `n / d` units, each of `unit` pixels: the amount is rounded to fifty-three bits,
multiplied, rounded to a whole number with halves going up, and held within the range. -/
def pixels (unit n d : Nat) : Nat :=
  if d <<< 53 ≤ n then maxWidth
  else if 64 * n < d then 0
  else
    let s := scale n d
    let m := roundToEven (n <<< s) d
    min ((2 * (m * unit) + 1 <<< s) >>> (s + 1)) maxWidth

/-- **A whole amount is exact until it exceeds the range.** -/
theorem pixels_whole (unit n : Nat) (h : 0 < unit) : pixels unit n 1 = min (n * unit) maxWidth := by
  unfold pixels
  have hn : n ≤ n * unit := Nat.le_mul_of_pos_right n h
  split
  · next hb =>
    have : maxWidth ≤ n * unit := by
      simp only [maxWidth, Nat.shiftLeft_eq] at hb ⊢
      omega
    exact (Nat.min_eq_right this).symm
  · split
    · next hz =>
      have : n = 0 := by omega
      subst this
      simp
    · simp only [roundToEven_one, Nat.shiftLeft_eq, Nat.shiftRight_eq_div_pow, Nat.one_mul]
      generalize scale n 1 = s
      have hp : 0 < 2 ^ (s + 1) := Nat.two_pow_pos _
      have : (2 * (n * 2 ^ s * unit) + 2 ^ s) / 2 ^ (s + 1) = n * unit := by
        have e : 2 * (n * 2 ^ s * unit) + 2 ^ s = 2 ^ s + 2 ^ (s + 1) * (n * unit) := by
          rw [Nat.pow_succ]
          simp only [Nat.mul_comm, Nat.mul_left_comm, Nat.mul_assoc, Nat.add_comm]
        rw [e, Nat.add_mul_div_left _ _ hp, Nat.div_eq_of_lt, Nat.zero_add]
        rw [Nat.pow_succ]
        have := Nat.two_pow_pos s
        omega
      rw [this]

/-! ## Words of a query -/

/-- What follows a keyword and at least one space. -/
def keywordSpace? (k s : List Char) : Option (List Char) :=
  match Text.keyword? k s with
  | some (c :: cs) => if Text.isSpace c then some (Text.trimStart cs) else none
  | _ => none

/-- What follows `screen and` or `all and`, each word with its space, after an optional `only`. -/
def mediaType? (s : List Char) : Option (List Char) :=
  let named := (keywordSpace? "only".toList s).getD s
  match keywordSpace? "screen".toList named <|> keywordSpace? "all".toList named with
  | some rest => keywordSpace? "and".toList rest
  | none => none

/-! ## The query -/

/-- An amount as a fraction of whole numbers, and what follows it. -/
def amount? (s : List Char) : Option ((Nat × Nat) × List Char) :=
  let whole := s.takeWhile Char.isDigit
  let rest := s.dropWhile Char.isDigit
  if whole = [] then none
  else match rest with
    | '.' :: tail =>
      let places := tail.takeWhile Char.isDigit
      if places = [] then some ((Text.decimalValue whole, 1), rest)
      else some ((Text.decimalValue (whole ++ places), Nat.pow 10 places.length),
        tail.dropWhile Char.isDigit)
    | _ => some ((Text.decimalValue whole, 1), rest)

/-- The pixels of a unit, and what follows its name. -/
def unit? (s : List Char) : Option (Nat × List Char) :=
  ((Text.keyword? "px".toList s).map (1, ·)) <|> ((Text.keyword? "em".toList s).map (16, ·)) <|>
    ((Text.keyword? "rem".toList s).map (16, ·))

/-- The width of a bracketed feature `(min-width: amount)` with nothing behind it. -/
def feature? (s : List Char) : Option UInt32 := do
  let s ← Text.keyword? ['('] s
  let s ← Text.keyword? "min-width".toList (Text.trimStart s)
  let s ← Text.keyword? [':'] (Text.trimStart s)
  let ((n, d), s) ← amount? (Text.trimStart s)
  let (unit, s) ← unit? s
  if Text.trimStart s = [')'] then some (UInt32.ofNat (pixels unit n d)) else none

/-- The width that a prelude asks for, if it is a minimum-width query and nothing else. -/
def readMinWidth (prelude : List Char) : Option UInt32 := do
  let s ← keywordSpace? "@media".toList (Text.trim prelude)
  feature? ((mediaType? s).getD s)

end Pane.Style
