/-!
# Rounding to double precision

A double-precision number has fifty-three significant bits.  Rounding to one is done here in exact
arithmetic on whole numbers, with ties going to the even neighbour.

* `roundToEven` — a quotient rounded to a whole number.
* `toDouble` — a whole number rounded to fifty-three significant bits.
* `doubleBound` — the end of the range of doubles.
-/

namespace Pane.Number

/-- The quotient rounded to the nearest whole number, ties to the even one. -/
def roundToEven (n d : Nat) : Nat :=
  let q := n / d
  let twice := 2 * (n % d)
  if twice < d then q else if d < twice then q + 1 else if q % 2 = 0 then q else q + 1

/-- A whole number rounded to fifty-three significant bits, ties to the even neighbour. -/
def toDouble (n : Nat) : Nat :=
  let s := n.log2 - 52
  roundToEven n (1 <<< s) <<< s

/-- The least number that is no longer rounded to a finite double. -/
def doubleBound : Nat := 1 <<< 1024 - 1 <<< 970

/-- A quotient by one is not changed by rounding. -/
theorem roundToEven_one (n : Nat) : roundToEven n 1 = n := by
  simp [roundToEven, Nat.mod_one]

end Pane.Number
