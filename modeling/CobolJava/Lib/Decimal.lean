/-
**Decimal rounding.**

Rounding of exact numbers to a number of decimal places or to a number of significant digits, and
the remainder that truncation leaves, over any linearly ordered field with a floor.

Main definitions:

* `truncate`, `RoundingMode.toInt` — rounding to a whole number;
* `setScale`, `roundToPrecision` — rounding to decimal places, and to significant digits;
* `remainder` — what truncation leaves.

Main results:

* `truncate_div`, `remainder_intCast` — truncated division and remainder of whole numbers;
* `abs_remainder_lt`, `remainder_of_abs_lt` — a remainder is below its divisor, and a number below
  it is its own remainder.
-/

import Mathlib.Data.Int.Log
import Mathlib.Data.Rat.Floor
import Mathlib.Tactic.FieldSimp
import Mathlib.Tactic.Linarith
import Mathlib.Tactic.Push
import Mathlib.Tactic.Positivity
import Mathlib.Tactic.Ring

set_option autoImplicit false

namespace CobolJava.Decimal

variable {K : Type*} [Field K] [LinearOrder K] [IsStrictOrderedRing K] [FloorRing K]

/-! ### Rounding to a whole number -/

/-- The whole part of `x`. -/
def truncate (x : K) : ℤ :=
  if 0 ≤ x then ⌊x⌋ else ⌈x⌉

/-- The ways a decimal is rounded. -/
inductive RoundingMode
  /-- Towards zero. -/
  | down
  /-- To the nearest whole number, a half away from zero. -/
  | halfUp
  /-- To the nearest whole number, a half to the even neighbour. -/
  | halfEven
  deriving DecidableEq, Repr

/-- The whole number `x` is rounded to. -/
def RoundingMode.toInt (mode : RoundingMode) (x : K) : ℤ :=
  match mode with
  | .down => truncate x
  | .halfUp => if 0 ≤ x then ⌊x + 1 / 2⌋ else ⌈x - 1 / 2⌉
  | .halfEven =>
      if x - ⌊x⌋ < 1 / 2 then ⌊x⌋
      else if 1 / 2 < x - ⌊x⌋ then ⌊x⌋ + 1
      else ⌊x⌋ + ⌊x⌋ % 2

omit [IsStrictOrderedRing K] in
@[simp] theorem toInt_down (x : K) : RoundingMode.down.toInt x = truncate x :=
  rfl

@[simp] theorem truncate_intCast (n : ℤ) : truncate (n : K) = n := by
  simp [truncate]

@[simp] theorem toInt_intCast (mode : RoundingMode) (n : ℤ) : mode.toInt (n : K) = n := by
  have hhalf : ⌊(1 / 2 : K)⌋ = 0 := by
    rw [Int.floor_eq_iff]
    constructor <;> norm_num
  have hneg : ⌈(-(1 / 2) : K)⌉ = 0 := by rw [Int.ceil_neg, hhalf, neg_zero]
  cases mode with
  | down => simp
  | halfUp =>
      simp only [RoundingMode.toInt]
      rw [Int.floor_intCast_add, hhalf, sub_eq_add_neg, Int.ceil_intCast_add, hneg]
      simp
  | halfEven => simp [RoundingMode.toInt]

theorem toInt_nonneg (mode : RoundingMode) {x : K} (hx : 0 ≤ x) : 0 ≤ mode.toInt x := by
  have hfloor : 0 ≤ ⌊x⌋ := Int.floor_nonneg.2 hx
  cases mode with
  | down =>
      rw [toInt_down, truncate, if_pos hx]
      exact hfloor
  | halfUp =>
      simp only [RoundingMode.toInt, if_pos hx]
      exact Int.floor_nonneg.2 (by linarith)
  | halfEven =>
      simp only [RoundingMode.toInt]
      split_ifs <;> omega

theorem truncate_neg (x : K) : truncate (-x) = -truncate x := by
  unfold truncate
  rcases lt_trichotomy x 0 with hx | rfl | hx
  · rw [if_pos (by linarith), if_neg (by linarith), Int.floor_neg]
  · simp
  · rw [if_neg (by linarith), if_pos hx.le, Int.ceil_neg]

theorem abs_truncate_le (x : K) : |(truncate x : K)| ≤ |x| := by
  unfold truncate
  split_ifs with hx
  · have hfloor : (0 : K) ≤ (⌊x⌋ : K) := by exact_mod_cast Int.floor_nonneg.2 hx
    rw [abs_of_nonneg hfloor, abs_of_nonneg hx]
    exact Int.floor_le x
  · have hneg : x < 0 := not_le.1 hx
    have hceil : (⌈x⌉ : K) ≤ 0 := by exact_mod_cast Int.ceil_le.2 (by simpa using hneg.le)
    rw [abs_of_nonpos hceil, abs_of_neg hneg]
    linarith [Int.le_ceil x]

theorem abs_sub_truncate_lt (x : K) : |x - (truncate x : K)| < 1 := by
  unfold truncate
  split_ifs with hx
  · rw [abs_lt]
    constructor <;> linarith [Int.floor_le x, Int.lt_floor_add_one x]
  · rw [abs_lt]
    constructor <;> linarith [Int.le_ceil x, Int.ceil_lt_add_one x]

/-- **Truncated division of whole numbers.** -/
theorem truncate_div (a b : ℤ) : truncate ((a : K) / b) = a.tdiv b := by
  -- the quotient of the magnitudes is a floor; the signs are put back by oddness
  have hnat : ∀ m n : ℕ, truncate ((m : K) / n) = (m : ℤ).tdiv n := by
    intro m n
    have hnonneg : (0 : K) ≤ (m : K) / n := by positivity
    rw [truncate, if_pos hnonneg, Int.floor_div_natCast, Int.floor_natCast,
      Int.natCast_tdiv_eq_ediv]
  rcases Int.eq_nat_or_neg a with ⟨m, rfl | rfl⟩ <;> rcases Int.eq_nat_or_neg b with ⟨n, rfl | rfl⟩
  · simpa using hnat m n
  · simpa [div_neg, truncate_neg] using hnat m n
  · simpa [neg_div, truncate_neg] using hnat m n
  · simpa using hnat m n

/-! ### Decimal places -/

/-- `x` rounded to a number of decimal places. -/
def setScale (mode : RoundingMode) (places : ℕ) (x : K) : K :=
  (mode.toInt (x * 10 ^ places) : K) / 10 ^ places

theorem setScale_nonneg (mode : RoundingMode) (places : ℕ) {x : K} (hx : 0 ≤ x) :
    0 ≤ setScale mode places x := by
  have hround : (0 : K) ≤ (mode.toInt (x * 10 ^ places) : K) := by
    have hscaled : (0 : K) ≤ x * 10 ^ places := by positivity
    exact_mod_cast toInt_nonneg mode hscaled
  unfold setScale
  positivity

omit [IsStrictOrderedRing K] in
@[simp] theorem setScale_zero_places (mode : RoundingMode) (x : K) :
    setScale mode 0 x = (mode.toInt x : K) := by
  simp [setScale]

/-! ### Remainder -/

/-- What is left of `x` after the whole multiples of `m` are taken away, with the sign of `x`. -/
def remainder (x m : K) : K :=
  x - m * (truncate (x / m) : K)

theorem remainder_intCast (a m : ℤ) : remainder (a : K) (m : K) = (a.tmod m : ℤ) := by
  rw [remainder, truncate_div, Int.tmod_def]
  push_cast
  ring

theorem abs_remainder_lt (x : K) {m : K} (hm : 0 < m) : |remainder x m| < m := by
  have hdrop := abs_sub_truncate_lt (x / m)
  have hscale : remainder x m = m * (x / m - (truncate (x / m) : K)) := by
    unfold remainder
    field_simp
  rw [hscale, abs_mul, abs_of_pos hm]
  calc m * |x / m - (truncate (x / m) : K)| < m * 1 := by
        exact mul_lt_mul_of_pos_left hdrop hm
    _ = m := mul_one m

theorem remainder_of_abs_lt {x m : K} (h : |x| < m) : remainder x m = x := by
  have hm : 0 < m := lt_of_le_of_lt (abs_nonneg x) h
  have hquot : |x / m| < 1 := by
    rw [abs_div, abs_of_pos hm, div_lt_one hm]
    exact h
  have hzero : truncate (x / m) = 0 := by
    have hle := (abs_truncate_le (x / m)).trans_lt hquot
    have hint : |truncate (x / m)| < 1 := by exact_mod_cast hle
    exact Int.abs_lt_one_iff.1 hint
  simp [remainder, hzero]

theorem remainder_nonneg {x m : K} (hx : 0 ≤ x) (hm : 0 < m) : 0 ≤ remainder x m := by
  have hquot : 0 ≤ x / m := by positivity
  have hfloor := Int.floor_le (x / m)
  have hscale : m * (⌊x / m⌋ : K) ≤ x := by
    calc m * (⌊x / m⌋ : K) ≤ m * (x / m) := by gcongr
      _ = x := by field_simp
  simp only [remainder, truncate, if_pos hquot]
  linarith

/-! ### Significant digits -/

/-- `x` rounded to a number of significant digits, a half to the even neighbour. -/
def roundToPrecision (digits : ℕ) (x : K) : K :=
  if x = 0 then 0
  else
    (RoundingMode.halfEven.toInt (x / 10 ^ (Int.log 10 |x| + 1 - digits)) : K) *
      10 ^ (Int.log 10 |x| + 1 - digits)

theorem roundToPrecision_nonneg (digits : ℕ) {x : K} (hx : 0 ≤ x) :
    0 ≤ roundToPrecision digits x := by
  unfold roundToPrecision
  split_ifs with hzero
  · exact le_rfl
  · have hquantum : (0 : K) < 10 ^ (Int.log 10 |x| + 1 - digits) := zpow_pos (by norm_num) _
    have hquot : 0 ≤ x / 10 ^ (Int.log 10 |x| + 1 - digits) := div_nonneg hx hquantum.le
    have hround : (0 : K) ≤
        (RoundingMode.halfEven.toInt (x / 10 ^ (Int.log 10 |x| + 1 - digits)) : K) := by
      exact_mod_cast toInt_nonneg .halfEven hquot
    exact mul_nonneg hround hquantum.le

/-- **A number of few enough digits is not rounded.** -/
theorem roundToPrecision_of_intCast {digits places : ℕ} {x : K} {m : ℤ}
    (hm : x * 10 ^ places = m) (hdigits : |m| < 10 ^ digits) : roundToPrecision digits x = x := by
  by_cases hx : x = 0
  · simp [roundToPrecision, hx]
  · rw [roundToPrecision, if_neg hx]
    have hpos : (0 : K) < |x| := abs_pos.2 hx
    have hlow : (10 : K) ^ Int.log 10 |x| ≤ |x| := by
      exact_mod_cast Int.zpow_log_le_self (b := 10) (by norm_num) hpos
    -- the last digit kept is not above the last one of the number
    have hquantum : Int.log 10 |x| + 1 - digits + places ≤ 0 := by
      have hbound : |x| * 10 ^ places < 10 ^ digits := by
        rw [← abs_of_pos (show (0 : K) < 10 ^ places by positivity), ← abs_mul, hm]
        exact_mod_cast hdigits
      have hlt : (10 : K) ^ (Int.log 10 |x| + places) < 10 ^ (digits : ℤ) := by
        rw [zpow_add₀ (by norm_num), zpow_natCast, zpow_natCast]
        exact (mul_le_mul_of_nonneg_right hlow (by positivity)).trans_lt hbound
      have := (zpow_lt_zpow_iff_right₀ (show (1 : K) < 10 by norm_num)).1 hlt
      omega
    obtain ⟨n, hn⟩ : ∃ n : ℕ, Int.log 10 |x| + 1 - digits + places = -(n : ℤ) :=
      ⟨(-(Int.log 10 |x| + 1 - digits + places)).toNat, by omega⟩
    have hexponent : Int.log 10 |x| + 1 - digits = -((places : ℤ) + n) := by omega
    have hinteger : x / 10 ^ (Int.log 10 |x| + 1 - digits) = ((m * 10 ^ n : ℤ) : K) := by
      rw [hexponent, zpow_neg, div_inv_eq_mul, zpow_add₀ (by norm_num), zpow_natCast, zpow_natCast,
        ← mul_assoc, hm]
      push_cast
      rfl
    rw [hinteger, toInt_intCast, ← hinteger]
    have hne : (10 : K) ^ (Int.log 10 |x| + 1 - digits) ≠ 0 := zpow_ne_zero _ (by norm_num)
    exact div_mul_cancel₀ x hne

end CobolJava.Decimal
