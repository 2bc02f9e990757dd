import Mathlib
import Pane.Style.MinWidth

/-!
# Whole numbers in double precision

An amount without a fraction is read as the nearest double, is perhaps taken sixteen times, and is
then rounded to a width.  A number of up to fifty-three bits comes through this unchanged.  A longer
one is rounded, or becomes infinite, but it remains far beyond the widest width.  The doubles are
those of `Float.Model`, bit by bit.

* `Significand` — a significand of exactly fifty-three bits.
* **`unpack_pack`** — a packed double is the same one, or infinite if its exponent is too large.
* **`round_shiftLeft`**, **`round_of_long`** — what fits is kept by rounding, and what is longer
  keeps its magnitude.
* `unpack_ofNat`, `unpack_ofNat_of_long`, `unpack_mul_sixteen` — the doubles at hand.
* `nearestWhole`, `widthOf` — a double as a whole number, a half away from zero, and as a width.
* **`widthOf_ofNat`**, **`widthOf_ofNat_mul_sixteen`** — the width of a whole number, taken once or
  sixteen times.
-/

namespace Pane.Number

open Float.Model Float.Model.UnpackedFloat
open Style (maxWidth)

/-! ## Significands -/

/-- A significand of exactly fifty-three bits. -/
structure Significand (m : Nat) : Prop where
  lower : 2 ^ 52 ≤ m
  upper : m < 2 ^ 53

theorem Significand.pos {m : Nat} (h : Significand m) : 0 < m :=
  Nat.lt_of_lt_of_le (by decide) h.lower

/-- Significands are the numbers of fifty-three bits. -/
theorem significand_iff {m : Nat} (hm : m ≠ 0) : Significand m ↔ m.log2 = 52 := by
  rw [Nat.log2_eq_iff hm]
  exact ⟨fun h => ⟨h.lower, h.upper⟩, fun h => ⟨h.1, h.2⟩⟩

theorem Significand.log2 {m : Nat} (h : Significand m) : m.log2 = 52 :=
  (significand_iff (Nat.ne_of_gt h.pos)).1 h

/-- Shifting adds bits. -/
theorem log2_shiftLeft {n : Nat} (hn : n ≠ 0) (k : Nat) : (n <<< k).log2 = n.log2 + k := by
  obtain ⟨hlower, hupper⟩ := (Nat.log2_eq_iff hn).1 rfl
  refine (Nat.log2_eq_iff (mt Nat.shiftLeft_eq_zero_iff.1 hn)).2 ⟨?_, ?_⟩
  · rw [Nat.shiftLeft_eq, Nat.pow_add]
    exact Nat.mul_le_mul_right _ hlower
  · rw [Nat.shiftLeft_eq, Nat.add_right_comm, Nat.pow_add]
    exact Nat.mul_lt_mul_of_pos_right hupper (Nat.two_pow_pos k)

/-- A number of at most fifty-three bits is a significand with zeros behind it. -/
theorem significand_shiftLeft {n : Nat} (hn : n ≠ 0) (hlog : n.log2 ≤ 52) :
    Significand (n <<< (52 - n.log2)) := by
  rw [significand_iff (mt Nat.shiftLeft_eq_zero_iff.1 hn), log2_shiftLeft hn]
  omega

/-- The leading bits of a longer number are a significand. -/
theorem significand_div {n : Nat} (hlog : 52 ≤ n.log2) : Significand (n / 2 ^ (n.log2 - 52)) := by
  have hn : n ≠ 0 := by
    rintro rfl
    exact absurd hlog (by decide)
  obtain ⟨hlower, hupper⟩ := (Nat.log2_eq_iff hn).1 rfl
  have hpos := Nat.two_pow_pos (n.log2 - 52)
  have hbits : 53 + (n.log2 - 52) = n.log2 + 1 := by omega
  refine ⟨(Nat.le_div_iff_mul_le hpos).2 ?_, (Nat.div_lt_iff_lt_mul hpos).2 ?_⟩
  · rwa [← Nat.pow_add, Nat.add_sub_cancel' hlog]
  · rwa [← Nat.pow_add, hbits]

/-! ## Packed doubles -/

theorem pos_append (m : BitVec 52) : 0 < (1#1 ++ m).toNat := by
  rw [BitVec.toNat_append]
  exact Nat.lt_of_lt_of_le (by decide) Nat.left_le_or

/-- What is unpacked from an exponent and the bits behind the leading one. -/
theorem unpack_packComponents {e : BitVec 11} (m : BitVec 52) (hzero : e ≠ 0#11)
    (hones : e ≠ -1#11) :
    UnpackedFloat.unpack Format.binary64 (packComponents Format.binary64 .positive e m) =
      .finite .positive (1#1 ++ m).toNat ((e.toNat : Int) - 1075) (pos_append m) := by
  rw [UnpackedFloat.unpack]
  simp only [unpackExponent_packComponents, unpackMantissa_packComponents,
    unpackSign_packComponents]
  rw [if_neg hones, if_neg hzero]
  rfl

/-- A field of eleven bits that is neither empty nor full. -/
theorem exponent_bits {k : Nat} (hpos : 0 < k) (hlast : k < 2047) :
    (BitVec.ofNat 11 k).toNat = k ∧ BitVec.ofNat 11 k ≠ 0#11 ∧ BitVec.ofNat 11 k ≠ -1#11 := by
  have hfield : (BitVec.ofNat 11 k).toNat = k := by
    rw [BitVec.toNat_ofNat]
    omega
  refine ⟨hfield, ?_, ?_⟩
  · intro heq
    have hnat := congrArg BitVec.toNat heq
    rw [hfield, BitVec.toNat_zero] at hnat
    omega
  · intro heq
    have hnat := congrArg BitVec.toNat heq
    have hfull : (-1#11).toNat = 2047 := rfl
    rw [hfield, hfull] at hnat
    omega

section packing

variable {m : Nat} {e : Int} (hm : Significand m)
include hm

/-- The leading bit of a significand is not stored, and is put in front again. -/
theorem toNat_append_significand : (1#1 ++ BitVec.ofNat 52 m).toNat = m := by
  have hlower := hm.lower
  have hupper := hm.upper
  have hrest : (BitVec.ofNat 52 m).toNat = m - 2 ^ 52 := by
    rw [BitVec.toNat_ofNat]
    omega
  rw [BitVec.toNat_append, ← Nat.shiftLeft_add_eq_or_of_lt (BitVec.isLt _), hrest,
    BitVec.toNat_ofNat, Nat.shiftLeft_eq]
  omega

/-- A double with an exponent in range is packed into its fields. -/
theorem pack_of_le (he : -1074 ≤ e) (hfits : e ≤ 971) :
    UnpackedFloat.pack Format.binary64 (.finite .positive m e hm.pos) =
      packComponents Format.binary64 .positive (BitVec.ofNat 11 (e + 1075).toNat)
        (BitVec.ofNat 52 m) := by
  have hbiased : (e + (Format.binary64.exponentBias : Nat) +
      Format.binary64.mantissaBitsWithoutImplicit).toNat = (e + 1075).toNat := by
    show (e + 1023 + 52).toNat = _
    omega
  have hroom : ¬2 ^ 11 ≤ (e + 1075).toNat + 1 := by omega
  have hbits : m.log2 + 1 = Format.binary64.mantissaBits := by
    rw [hm.log2]
    rfl
  rw [UnpackedFloat.pack, hbiased]
  dsimp only
  rw [if_neg hroom, if_pos hbits]

/-- What fits is unpacked as it was packed. -/
theorem unpack_pack_of_le (he : -1074 ≤ e) (hfits : e ≤ 971) :
    (Float.Model.pack (.finite .positive m e hm.pos)).unpack = .finite .positive m e hm.pos := by
  obtain ⟨hfield, hzero, hones⟩ := exponent_bits (k := (e + 1075).toNat) (by omega) (by omega)
  rw [Float.Model.unpack, Float.Model.pack]
  dsimp only
  rw [pack_of_le hm he hfits, unpack_packComponents _ hzero hones]
  congr 1
  · exact toNat_append_significand hm
  · rw [hfield]
    omega

/-- What is too large is packed as infinity. -/
theorem unpack_pack_of_lt (hlarge : 971 < e) :
    (Float.Model.pack (.finite .positive m e hm.pos)).unpack = .infinity .positive := by
  have hpack : UnpackedFloat.pack Format.binary64 (.finite .positive m e hm.pos) =
      packedInfinity Format.binary64 .positive := by
    have hroom : 2 ^ 11 ≤ (e + 1023 + 52).toNat + 1 := by omega
    rw [UnpackedFloat.pack]
    exact if_pos hroom
  rw [Float.Model.unpack, Float.Model.pack]
  dsimp only
  rw [hpack]
  rfl

/-- **A packed double is the same one, or infinite.** -/
theorem unpack_pack (he : -1074 ≤ e) :
    (Float.Model.pack (.finite .positive m e hm.pos)).unpack =
      if e ≤ 971 then .finite .positive m e hm.pos else .infinity .positive := by
  split
  · next hfits => exact unpack_pack_of_le hm he hfits
  · next hlarge => exact unpack_pack_of_lt hm (Int.not_le.1 hlarge)

end packing

/-! ## Rounding -/

/-- A number is rounded to fifty-three bits, or to the least exponent. -/
theorem targetExponent_eq (m : Nat) (e : Int) :
    Format.binary64.targetExponent (totalExponent m e) = max (m.log2 + e - 52) (-1074) := by
  have hmin : Format.binary64.minExponent = -1074 := rfl
  have hbits : ((Format.binary64.mantissaBits : Nat) : Int) = 53 := rfl
  rw [Format.targetExponent, totalExponent, hmin, hbits]
  omega

/-- Zeros behind a significand are shifted out, and nothing else is. -/
theorem shiftLeft_shiftRight (m k : Nat) :
    (ExtendedMantissa.mk (m <<< k) false false) >>> k = ⟨m, false, false⟩ := by
  induction k generalizing m with
  | zero => rfl
  | succ k ih =>
    have hrest := ih (m <<< 1)
    show ExtendedMantissa.shiftRightOne
      ((ExtendedMantissa.mk (m <<< (k + 1)) false false) >>> k) = _
    rw [Nat.add_comm k 1, Nat.shiftLeft_add, hrest]
    simp [ExtendedMantissa.shiftRightOne, Nat.shiftLeft_eq]

/-- Shifting to the right is dividing. -/
theorem mantissa_shiftRight (em : ExtendedMantissa) (k : Nat) :
    (em >>> k).mantissa = em.mantissa / 2 ^ k := by
  induction k with
  | zero => exact (Nat.div_one _).symm
  | succ k ih =>
    show (em >>> k).mantissa / 2 = _
    rw [ih, Nat.div_div_eq_div_mul, ← Nat.pow_succ]

/-- Rounding adds one at most. -/
theorem roundedMantissa_bounds (em : ExtendedMantissa) :
    em.mantissa ≤ em.roundedMantissa ∧ em.roundedMantissa ≤ em.mantissa + 1 := by
  obtain ⟨m, round, sticky⟩ := em
  cases round <;> cases sticky <;>
    simp only [ExtendedMantissa.roundedMantissa, ExtendedMantissa.accuracy,
      Accuracy.roundToNearestEven] <;> omega

/-- A significand with noughts behind it loses the noughts alone. -/
theorem shiftToTargetExponent_shiftLeft {m : Nat} (hm : Significand m) {e : Int} {k : Nat}
    (he : -1074 ≤ e + k) :
    shiftToTargetExponent Format.binary64 (m <<< k) e .exact = (⟨m, false, false⟩, e + k) := by
  have htarget : Format.binary64.targetExponent (totalExponent (m <<< k) e) = e + k := by
    rw [targetExponent_eq, log2_shiftLeft (Nat.ne_of_gt hm.pos), hm.log2]
    omega
  have hamount : (e + k - e).toNat = k := by omega
  rw [shiftToTargetExponent, htarget, shiftToExponent, hamount]
  exact congrArg (·, e + (k : Int)) (shiftLeft_shiftRight m k)

/-- **What fits is kept.** -/
theorem round_shiftLeft {m : Nat} (hm : Significand m) {e : Int} {k : Nat} (he : -1074 ≤ e + k) :
    roundWithAccuracy Format.binary64 .positive (m <<< k) e .exact =
      .finite .positive m (e + k) hm.pos := by
  have hagain : shiftToTargetExponent Format.binary64 m (e + k) .exact =
      (⟨m, false, false⟩, e + k) := by
    have h := shiftToTargetExponent_shiftLeft hm (e := e + k) (k := 0) (by omega)
    rwa [Nat.shiftLeft_zero, Int.natCast_zero, Int.add_zero] at h
  have hrounded : (ExtendedMantissa.mk m false false).roundedMantissa = m := rfl
  rw [roundWithAccuracy, shiftToTargetExponent_shiftLeft hm he]
  dsimp only
  rw [hrounded, hagain]
  exact dif_neg (Nat.ne_of_gt hm.pos)

/-- **What is longer keeps its magnitude.** -/
theorem round_of_long {n : Nat} (hlog : 53 ≤ n.log2) :
    ∃ m e, ∃ hm : Significand m, 1 ≤ e ∧
      roundWithAccuracy Format.binary64 .positive n 0 .exact = .finite .positive m e hm.pos := by
  obtain ⟨k, hk⟩ : ∃ k, n.log2 = k + 53 := ⟨_, (Nat.sub_add_cancel hlog).symm⟩
  have htarget : Format.binary64.targetExponent (totalExponent n 0) = k + 1 := by
    rw [targetExponent_eq, hk]
    omega
  have hamount : ((k + 1 : Int) - 0).toNat = k + 1 := by omega
  obtain ⟨em, hem⟩ : ∃ em, (ExtendedMantissa.mk n false false) >>> (k + 1) = em := ⟨_, rfl⟩
  have hshift : shiftToTargetExponent Format.binary64 n 0 .exact = (em, (k + 1 : Int)) := by
    rw [shiftToTargetExponent, htarget, shiftToExponent, hamount, ← hem]
    exact congrArg (_, ·) (by omega)
  have hmantissa : em.mantissa = n / 2 ^ (n.log2 - 52) := by
    rw [← hem, mantissa_shiftRight, hk]
    rfl
  obtain ⟨hlower, hupper⟩ := hmantissa ▸ significand_div (n := n) (by omega)
  obtain ⟨hfloor, hceil⟩ := roundedMantissa_bounds em
  -- what is rounded fits, or has been carried into a fifty-fourth bit
  obtain ⟨m, j, hm, hrounded⟩ : ∃ m j, Significand m ∧ em.roundedMantissa = m <<< j := by
    by_cases hfits : em.roundedMantissa < 2 ^ 53
    · exact ⟨em.roundedMantissa, 0, ⟨by omega, hfits⟩, rfl⟩
    · exact ⟨2 ^ 52, 1, ⟨by decide, by decide⟩, by rw [Nat.shiftLeft_eq]; omega⟩
  refine ⟨m, k + 1 + j, hm, by omega, ?_⟩
  rw [roundWithAccuracy, hshift]
  dsimp only
  rw [hrounded, shiftToTargetExponent_shiftLeft hm (by omega)]
  exact dif_neg (Nat.ne_of_gt hm.pos)

/-! ## Whole numbers and their multiples -/

/-- A whole number is rounded from its bits. -/
theorem ofNat_eq_round {n : Nat} (hn : n ≠ 0) :
    UnpackedFloat.ofNat Format.binary64 n =
      roundWithAccuracy Format.binary64 .positive (n <<< (52 - n.log2))
        (0 - ((52 - n.log2 : Nat) : Int)) .exact := by
  have hpos : compare (n : Int) 0 = .gt := by
    rw [Int.compare_eq_gt]
    omega
  have htarget : Format.binary64.targetExponent (totalExponent n 0) = n.log2 - 52 := by
    rw [targetExponent_eq]
    omega
  have hamount : (0 - (n.log2 - 52) : Int).toNat = 52 - n.log2 := by omega
  rw [UnpackedFloat.ofNat, UnpackedFloat.ofInt, UnpackedFloat.normalize, hpos]
  dsimp only
  rw [UnpackedFloat.round, Int.toNat_natCast, htarget, decreaseExponent, hamount]

/-- A number of at most fifty-three bits is a double. -/
theorem unpack_ofNat {n : Nat} (hn : n ≠ 0) (hlog : n.log2 ≤ 52) :
    (Float.Model.ofNat n).unpack =
      .finite .positive (n <<< (52 - n.log2)) (0 - ((52 - n.log2 : Nat) : Int))
        (significand_shiftLeft hn hlog).pos := by
  have hm := significand_shiftLeft hn hlog
  have hround := round_shiftLeft hm (e := 0 - ((52 - n.log2 : Nat) : Int)) (k := 0) (by omega)
  rw [Nat.shiftLeft_zero, Int.natCast_zero, Int.add_zero] at hround
  rw [Float.Model.ofNat, ofNat_eq_round hn, hround]
  exact unpack_pack_of_le hm (by omega) (by omega)

/-- A longer number stays large, or becomes infinite. -/
theorem unpack_ofNat_of_long {n : Nat} (hlog : 53 ≤ n.log2) :
    (Float.Model.ofNat n).unpack = .infinity .positive ∨
      ∃ m e, ∃ hm : Significand m, 1 ≤ e ∧
        (Float.Model.ofNat n).unpack = .finite .positive m e hm.pos := by
  have hn : n ≠ 0 := by
    rintro rfl
    exact absurd hlog (by decide)
  have hzeros : 52 - n.log2 = 0 := by omega
  obtain ⟨m, e, hm, he, hround⟩ := round_of_long hlog
  have hofNat : UnpackedFloat.ofNat Format.binary64 n = .finite .positive m e hm.pos := by
    rw [ofNat_eq_round hn, hzeros]
    exact hround
  rw [Float.Model.ofNat, hofNat, unpack_pack hm (by omega)]
  split
  · exact .inr ⟨m, e, hm, he, rfl⟩
  · exact .inl rfl

theorem unpack_mul (x y : Float.Model) : (x * y).unpack =
    (Float.Model.pack (UnpackedFloat.mul Format.binary64 x.unpack y.unpack)).unpack := rfl

/-- Taking a double sixteen times raises its exponent. -/
theorem unpack_mul_sixteen {x : Float.Model} {m : Nat} {e : Int} (hm : Significand m)
    (he : -1074 ≤ e) (hx : x.unpack = .finite .positive m e hm.pos) :
    (x * Float.Model.ofNat 16).unpack =
      if e + 4 ≤ 971 then .finite .positive m (e + 4) hm.pos else .infinity .positive := by
  have hsixteen :
      (Float.Model.ofNat 16).unpack = .finite .positive (2 ^ 52) (-48) (by decide) := rfl
  have hexponent : e + -48 + (52 : Nat) = e + 4 := by omega
  have hround := round_shiftLeft hm (e := e + -48) (k := 52) (by omega)
  have hmul : UnpackedFloat.mul Format.binary64 (.finite .positive m e hm.pos)
      (.finite .positive (2 ^ 52) (-48) (by decide)) = .finite .positive m (e + 4) hm.pos := by
    rw [UnpackedFloat.mul, ← Nat.shiftLeft_eq]
    simp only [hexponent] at hround
    exact hround
  rw [unpack_mul, hx, hsixteen, hmul]
  exact unpack_pack hm (by omega)

/-! ## Widths -/

/-- The whole number next to `m * 2 ^ e`, a half counting upward. -/
def nearestWhole (m : Nat) (e : Int) : Nat :=
  if 0 ≤ e then m <<< e.toNat else (2 * m + 1 <<< (-e).toNat) >>> ((-e).toNat + 1)

/-- The width of a double: the nearest whole number, a half away from zero, held within the range of
a width.  What is no number has none. -/
def widthOf (x : Float.Model) : UInt32 :=
  match x.unpack with
  | .finite .positive m e _ => UInt32.ofNat (min (nearestWhole m e) maxWidth)
  | .infinity .positive => UInt32.ofNat maxWidth
  | _ => 0

/-- A whole number is the nearest to itself, however it is written. -/
theorem nearestWhole_fraction (n k : Nat) : nearestWhole (n <<< k) (-k) = n := by
  rw [nearestWhole]
  split
  · next h =>
    obtain rfl : k = 0 := by omega
    rfl
  · have hpos := Nat.two_pow_pos (k + 1)
    have hhalf : 2 ^ k < 2 ^ (k + 1) := Nat.pow_lt_pow_right (by decide) (Nat.lt_succ_self k)
    have hsum : 2 * (n * 2 ^ k) + 1 * 2 ^ k = 2 ^ k + 2 ^ (k + 1) * n := by
      rw [Nat.pow_succ]
      ring
    rw [Int.neg_neg, Int.toNat_natCast, Nat.shiftRight_eq_div_pow, Nat.shiftLeft_eq,
      Nat.shiftLeft_eq, hsum, Nat.add_mul_div_left _ _ hpos, Nat.div_eq_of_lt hhalf, Nat.zero_add]

/-- A whole number is told whatever its exponent. -/
theorem nearestWhole_shiftLeft (n k j : Nat) : nearestWhole (n <<< k) (j - k) = n <<< j := by
  by_cases h : k ≤ j
  · have hexponent : ((j : Int) - k).toNat = j - k := by omega
    rw [nearestWhole, if_pos (by omega), hexponent, ← Nat.shiftLeft_add, Nat.add_sub_cancel' h]
  · have hshift : n <<< k = (n <<< j) <<< (k - j) := by
      rw [← Nat.shiftLeft_add, Nat.add_sub_cancel' (by omega)]
    have hexponent : (j : Int) - k = -((k - j : Nat) : Int) := by omega
    rw [hshift, hexponent, nearestWhole_fraction]

/-- Fifty-three bits in front of the point are more than any width. -/
theorem maxWidth_le_nearestWhole {m : Nat} (hm : Significand m) {e : Int} (he : 0 ≤ e) :
    maxWidth ≤ nearestWhole m e := by
  have hlower := hm.lower
  have hpos := Nat.two_pow_pos e.toNat
  rw [nearestWhole, if_pos he, Nat.shiftLeft_eq, maxWidth]
  exact Nat.le_trans (by omega) (Nat.le_mul_of_pos_right m hpos)

/-- Such a number saturates. -/
theorem widthOf_large {x : Float.Model} {m : Nat} {e : Int} (hm : Significand m) (he : 0 ≤ e)
    (hx : x.unpack = .finite .positive m e hm.pos) : widthOf x = UInt32.ofNat maxWidth := by
  rw [widthOf, hx]
  dsimp only
  rw [Nat.min_eq_right (maxWidth_le_nearestWhole hm he)]

/-- So does infinity. -/
theorem widthOf_infinity {x : Float.Model} (hx : x.unpack = .infinity .positive) :
    widthOf x = UInt32.ofNat maxWidth := by
  rw [widthOf, hx]

/-- A number of more than fifty-three bits is beyond the range of a width. -/
theorem maxWidth_le_of_long {n : Nat} (hlog : 53 ≤ n.log2) : maxWidth ≤ n := by
  have hn : n ≠ 0 := by
    rintro rfl
    exact absurd hlog (by decide)
  exact Nat.le_trans (by decide) ((Nat.le_log2 hn).1 hlog)

/-- **The width of a whole number** is the number itself, or the widest width. -/
theorem widthOf_ofNat (n : Nat) :
    widthOf (Float.Model.ofNat n) = UInt32.ofNat (min n maxWidth) := by
  by_cases hn : n = 0
  · subst hn
    rfl
  · by_cases hlog : n.log2 ≤ 52
    · have hwhole := nearestWhole_shiftLeft n (52 - n.log2) 0
      rw [widthOf, unpack_ofNat hn hlog]
      dsimp only
      rw [Int.natCast_zero] at hwhole
      rw [hwhole, Nat.shiftLeft_zero]
    · have hlong : 53 ≤ n.log2 := by omega
      rw [Nat.min_eq_right (maxWidth_le_of_long hlong)]
      rcases unpack_ofNat_of_long hlong with hx | ⟨m, e, hm, he, hx⟩
      · exact widthOf_infinity hx
      · exact widthOf_large hm (by omega) hx

/-- **The width of sixteen times a whole number** is this product, or the widest width. -/
theorem widthOf_ofNat_mul_sixteen (n : Nat) :
    widthOf (Float.Model.ofNat n * Float.Model.ofNat 16) =
      UInt32.ofNat (min (n * 16) maxWidth) := by
  by_cases hn : n = 0
  · subst hn
    rfl
  · by_cases hlog : n.log2 ≤ 52
    · have hx :=
        unpack_mul_sixteen (significand_shiftLeft hn hlog) (by omega) (unpack_ofNat hn hlog)
      have hexponent :
          0 - ((52 - n.log2 : Nat) : Int) + 4 = (4 : Nat) - ((52 - n.log2 : Nat) : Int) := by
        omega
      have hwhole := nearestWhole_shiftLeft n (52 - n.log2) 4
      rw [if_pos (by omega)] at hx
      rw [widthOf, hx]
      dsimp only
      rw [hexponent, hwhole, Nat.shiftLeft_eq]
    · have hlong : 53 ≤ n.log2 := by omega
      have hmax := maxWidth_le_of_long hlong
      rw [Nat.min_eq_right (by omega)]
      rcases unpack_ofNat_of_long hlong with hx | ⟨m, e, hm, he, hx⟩
      · refine widthOf_infinity ?_
        rw [unpack_mul, hx]
        rfl
      · have hproduct := unpack_mul_sixteen hm (by omega) hx
        split at hproduct
        · exact widthOf_large hm (by omega) hproduct
        · exact widthOf_infinity hproduct

end Pane.Number
