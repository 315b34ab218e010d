/-
**Python decimals.**

Finite numbers of the module `decimal` with their coefficients and exponents, and what the default
context does to them: 28 significant digits, a half rounded to the even neighbour, and exponents up
to 999999.

Main definitions:

* `Py.Decimal` — a finite decimal; `Py.Decimal.toRat` — the number it stands for;
* `Py.Decimal.ofText` — `Decimal(text)`;
* `Py.Decimal.add`, `Py.Decimal.scaleDown` — the sum, and the quotient by a power of ten;
* `Py.Decimal.format` — `format(value, "f")`.

Main results:

* `Py.Decimal.toRat_fix` — **the context rounds to 28 significant digits**;
* `Py.Decimal.toRat_addExact`, `Py.Decimal.toRat_scaleDown` — sums before rounding, and scaling, are
  exact.
-/

import Mathlib.Data.Nat.Log
import Mathlib.Tactic.Ring
import CobolJava.Lib.Decimal
import CobolJava.Lib.PyLines

set_option autoImplicit false

namespace Py

open CobolJava.Decimal (RoundingMode roundToPrecision)

/-- A finite decimal number. -/
structure Decimal where
  negative : Bool
  coefficient : ℕ
  exponent : ℤ
deriving DecidableEq

namespace Decimal

/-! ### Numbers -/

def signed (d : Decimal) : ℤ := if d.negative then -d.coefficient else d.coefficient

/-- The number a decimal stands for. -/
def toRat (d : Decimal) : ℚ := d.signed * 10 ^ d.exponent

/-- The decimal with a signed coefficient. -/
def ofSigned (z exponent : ℤ) : Decimal := ⟨z < 0, z.natAbs, exponent⟩

/-- The number of digits of a coefficient. -/
def width (c : ℕ) : ℕ := Nat.log 10 c + 1

/-- The exponent of the first digit. -/
def adjusted (d : Decimal) : ℤ := d.exponent + width d.coefficient - 1

@[simp] theorem signed_ofSigned (z e : ℤ) : (ofSigned z e).signed = z := by
  rw [ofSigned, signed]
  by_cases h : z < 0
  · simp only [h, decide_true, if_true]
    omega
  · simp only [h, decide_false, Bool.false_eq_true, if_false]
    omega

theorem toRat_ofSigned (z e : ℤ) : (ofSigned z e).toRat = z * 10 ^ e := by
  rw [toRat, signed_ofSigned, ofSigned]

/-- `format(value, "f")` -/
def format (d : Decimal) : List Char :=
  let digits := Nat.toDigits 10 d.coefficient
  let sign := if d.negative then ['-'] else []
  if 0 ≤ d.exponent then
    sign ++ digits ++ (if d.coefficient = 0 then [] else List.replicate d.exponent.toNat '0')
  else
    let places := (-d.exponent).toNat
    let padded := List.replicate (places + 1 - digits.length) '0' ++ digits
    sign ++ padded.take (padded.length - places) ++ '.' :: padded.drop (padded.length - places)

/-! ### Texts -/

/-- The decimal unless its exponents are out of the range that is held exactly. -/
def held (d : Decimal) : Option Decimal :=
  if -1999999999999999997 ≤ d.exponent ∧ d.adjusted ≤ 999999999999999999 then some d else none

def splitSign : List Char → Bool × List Char
  | '-' :: rest => (true, rest)
  | '+' :: rest => (false, rest)
  | rest => (false, rest)

/-- The number some digits denote, none of them missing. -/
def digitsValue (s : List Char) : Option ℕ :=
  if s ≠ [] ∧ s.all Char.isDigit then some (Nat.ofDigitChars 10 s 0) else none

/-- The number an exponent denotes, the letter before it included. -/
def exponentValue : List Char → Option ℤ
  | [] => some 0
  | _ :: s => (digitsValue (splitSign s).2).map fun n => if (splitSign s).1 then -(n : ℤ) else n

/-- `Decimal(text)` of a finite number; `none` where an exception is raised. -/
def ofText (text : List Char) : Option Decimal :=
  let (negative, s) := splitSign ((Chars.strip text).filter (· ≠ '_'))
  let mantissa := s.takeWhile fun c => c ≠ 'e' && c ≠ 'E'
  let whole := mantissa.takeWhile (· ≠ '.')
  let fraction := (mantissa.dropWhile (· ≠ '.')).drop 1
  (digitsValue (whole ++ fraction)).bind fun coefficient =>
    (exponentValue (s.dropWhile fun c => c ≠ 'e' && c ≠ 'E')).bind fun exponent =>
      held ⟨negative, coefficient, exponent - fraction.length⟩

/-! ### The default context -/

/-- The number of significant digits. -/
def precision : ℕ := 28

/-- The largest exponent of a first digit. -/
def maxExponent : ℤ := 999999

/-- The quotient rounded to a whole number, a half to the even neighbour. -/
def roundQuotient (c m : ℕ) : ℕ :=
  if 2 * (c % m) < m then c / m
  else if m < 2 * (c % m) then c / m + 1
  else c / m + c / m % 2

/-- The decimal rounded to the digits of the context. -/
def fix (d : Decimal) : Decimal :=
  if width d.coefficient ≤ precision then d
  else
    let dropped := width d.coefficient - precision
    let c := roundQuotient d.coefficient (10 ^ dropped)
    if c = 10 ^ precision then ⟨d.negative, 10 ^ (precision - 1), d.exponent + dropped + 1⟩
    else ⟨d.negative, c, d.exponent + dropped⟩

def addExact (a b : Decimal) : Decimal :=
  let e := min a.exponent b.exponent
  ofSigned (a.signed * 10 ^ (a.exponent - e).toNat + b.signed * 10 ^ (b.exponent - e).toNat) e

/-- The sum `a + b`; `none` is an overflow. -/
def add (a b : Decimal) : Option Decimal :=
  let sum := fix (addExact a b)
  if maxExponent < sum.adjusted then none else some sum

/-- The coefficient without its last zeros, at most `n` of them, and how many are left to drop. -/
def dropZeros : ℕ → ℕ → ℕ × ℕ
  | 0, c => (c, 0)
  | n + 1, c => if c % 10 = 0 then dropZeros n (c / 10) else (c, n + 1)

/-- The quotient `d / Decimal(10) ** places` of a number with the digits of the context; `none` is
an overflow of the power. -/
def scaleDown (d : Decimal) (places : ℕ) : Option Decimal :=
  if maxExponent < places then none
  else
    -- the power has an exponent of its own as soon as its digits exceed the precision
    let wanted := min places (precision - 1)
    let (c, left) := dropZeros wanted d.coefficient
    some ⟨d.negative, c, d.exponent - places + (wanted - left : ℕ)⟩

/-! ### Rounding -/

/-- A half to the even neighbour is symmetric. -/
theorem toInt_halfEven_neg (x : ℚ) :
    RoundingMode.halfEven.toInt (-x) = -RoundingMode.halfEven.toInt x := by
  by_cases hx : Int.fract x = 0
  · obtain ⟨n, rfl⟩ := Int.fract_eq_zero_iff.1 hx
    rw [← Int.cast_neg, CobolJava.Decimal.toInt_intCast, CobolJava.Decimal.toInt_intCast]
  · have hfract : x - ⌊x⌋ = Int.fract x := Int.self_sub_floor x
    have hfloor : ⌊-x⌋ = -⌊x⌋ - 1 := by
      have hneg : Int.fract (-x) = 1 - Int.fract x := Int.fract_neg hx
      have hcast : ((⌊-x⌋ : ℤ) : ℚ) = ((-⌊x⌋ - 1 : ℤ) : ℚ) := by
        push_cast
        linarith [Int.self_sub_floor (-x)]
      exact_mod_cast hcast
    have hrest : -x - ((-⌊x⌋ - 1 : ℤ) : ℚ) = 1 - Int.fract x := by
      rw [← hfract]
      push_cast
      ring
    simp only [RoundingMode.toInt, hfloor, hrest, hfract]
    rcases lt_trichotomy (Int.fract x) (1 / 2) with h | h | h
    · rw [if_neg (by linarith), if_pos (by linarith), if_pos h]
      ring
    · rw [if_neg (by linarith), if_neg (by linarith), if_neg (by linarith), if_neg (by linarith)]
      omega
    · rw [if_pos (by linarith), if_neg (by linarith), if_pos h]
      ring

/-- Rounding a quotient of whole numbers. -/
theorem toInt_halfEven_div (c : ℕ) {m : ℕ} (hm : 0 < m) :
    RoundingMode.halfEven.toInt ((c : ℚ) / m) = roundQuotient c m := by
  have hm' : (0 : ℚ) < m := by exact_mod_cast hm
  have hfloor : ⌊(c : ℚ) / m⌋ = ((c / m : ℕ) : ℤ) := by
    rw [Rat.floor_natCast_div_natCast]
    norm_cast
  have hrest : (c : ℚ) / m - ((c / m : ℕ) : ℤ) = ((c % m : ℕ) : ℚ) / m := by
    have hdiv : (m : ℚ) * ((c / m : ℕ) : ℚ) + ((c % m : ℕ) : ℚ) = c := by
      exact_mod_cast Nat.div_add_mod c m
    rw [Int.cast_natCast, sub_eq_iff_eq_add, div_add' _ _ _ hm'.ne', div_left_inj' hm'.ne']
    linarith
  have hlt : ((c % m : ℕ) : ℚ) / m < 1 / 2 ↔ 2 * (c % m) < m := by
    rw [div_lt_div_iff₀ hm' (by norm_num), one_mul, mul_comm]
    exact_mod_cast Iff.rfl
  have hgt : 1 / 2 < ((c % m : ℕ) : ℚ) / m ↔ m < 2 * (c % m) := by
    rw [div_lt_div_iff₀ (by norm_num) hm', one_mul, mul_comm]
    exact_mod_cast Iff.rfl
  simp only [RoundingMode.toInt, hfloor, hrest, hlt, hgt, roundQuotient]
  split_ifs
  · rfl
  · push_cast
    rfl
  · push_cast
    rfl

theorem signed_eq (d : Decimal) : (d.signed : ℚ) = (if d.negative then -1 else 1) * d.coefficient := by
  rw [signed]
  split_ifs <;> simp

theorem toInt_halfEven_signed (d : Decimal) {m : ℕ} (hm : 0 < m) :
    RoundingMode.halfEven.toInt ((d.signed : ℚ) / m) =
      (⟨d.negative, roundQuotient d.coefficient m, d.exponent⟩ : Decimal).signed := by
  have hdiv := toInt_halfEven_div d.coefficient hm
  rw [signed, signed]
  cases d.negative with
  | false => simpa using hdiv
  | true =>
      simp only [if_true, Int.cast_neg, Int.cast_natCast, neg_div]
      rw [toInt_halfEven_neg, hdiv]

theorem ten_pow_width_le {c : ℕ} (h : c ≠ 0) : 10 ^ (width c - 1) ≤ c :=
  Nat.pow_log_le_self 10 h

theorem lt_ten_pow_width (c : ℕ) : c < 10 ^ width c :=
  Nat.lt_pow_succ_log_self (by decide) c

/-- The logarithm of a number is the exponent of its first digit. -/
theorem log_abs_toRat {d : Decimal} (h : d.coefficient ≠ 0) :
    Int.log 10 |d.toRat| = d.adjusted := by
  have hpow : (0 : ℚ) < 10 ^ d.exponent := zpow_pos (by norm_num) _
  have habs : |d.toRat| = d.coefficient * 10 ^ d.exponent := by
    rw [toRat, abs_mul, abs_of_pos hpow, signed_eq, abs_mul]
    cases d.negative <;> simp
  have hone : (1 : ℕ) < 10 := by decide
  have hlow : ((10 : ℕ) : ℚ) ^ d.adjusted ≤ |d.toRat| := by
    rw [habs, adjusted]
    have hc : ((10 ^ (width d.coefficient - 1) : ℕ) : ℚ) ≤ d.coefficient := by
      exact_mod_cast ten_pow_width_le h
    have hexp : d.exponent + width d.coefficient - 1 =
        ((width d.coefficient - 1 : ℕ) : ℤ) + d.exponent := by
      have : 1 ≤ width d.coefficient := Nat.le_add_left ..
      omega
    rw [hexp, zpow_add₀ (by norm_num), zpow_natCast]
    push_cast at hc ⊢
    gcongr
  have hhigh : |d.toRat| < ((10 : ℕ) : ℚ) ^ (d.adjusted + 1) := by
    rw [habs, adjusted]
    have hc : (d.coefficient : ℚ) < ((10 ^ width d.coefficient : ℕ) : ℚ) := by
      exact_mod_cast lt_ten_pow_width d.coefficient
    have hexp : d.exponent + width d.coefficient - 1 + 1 =
        (width d.coefficient : ℤ) + d.exponent := by omega
    rw [hexp, zpow_add₀ (by norm_num), zpow_natCast]
    push_cast at hc ⊢
    gcongr
  have hpos : 0 < |d.toRat| := lt_of_lt_of_le (zpow_pos (by norm_num) _) hlow
  refine le_antisymm ?_ ?_
  · exact Int.lt_add_one_iff.1 ((Int.lt_zpow_iff_log_lt hone hpos).1 hhigh)
  · exact (Int.zpow_le_iff_le_log hone hpos).1 hlow

theorem toRat_eq_zero {d : Decimal} : d.toRat = 0 ↔ d.coefficient = 0 := by
  have hpow : (10 : ℚ) ^ d.exponent ≠ 0 := zpow_ne_zero _ (by norm_num)
  rw [toRat, mul_eq_zero, or_iff_left hpow, signed_eq]
  cases d.negative <;> simp

/-- What the context makes of a decimal with too many digits, before a carry is taken up. -/
theorem roundToPrecision_wide {d : Decimal} (h : precision < width d.coefficient) :
    roundToPrecision precision d.toRat =
      (⟨d.negative, roundQuotient d.coefficient (10 ^ (width d.coefficient - precision)),
        d.exponent + (width d.coefficient - precision : ℕ)⟩ : Decimal).toRat := by
  have hne : d.coefficient ≠ 0 := by
    rintro hzero
    rw [hzero] at h
    exact absurd h (by decide)
  have hexp : d.exponent + width d.coefficient - 1 + 1 - (precision : ℤ) =
      d.exponent + ((width d.coefficient - precision : ℕ) : ℤ) := by omega
  have hquot : d.toRat / 10 ^ (d.exponent + ((width d.coefficient - precision : ℕ) : ℤ)) =
      (d.signed : ℚ) / ((10 ^ (width d.coefficient - precision) : ℕ) : ℚ) := by
    have hpow : (10 : ℚ) ^ d.exponent ≠ 0 := zpow_ne_zero _ (by norm_num)
    rw [toRat, zpow_add₀ (by norm_num), zpow_natCast]
    push_cast
    field_simp
  rw [roundToPrecision, if_neg (mt toRat_eq_zero.1 hne), log_abs_toRat hne, adjusted, hexp, hquot,
    toInt_halfEven_signed d (by positivity), toRat]
  rfl

/-- **The context rounds to its number of significant digits.** -/
theorem toRat_fix (d : Decimal) : (fix d).toRat = roundToPrecision precision d.toRat := by
  rw [fix]
  dsimp only
  split_ifs with hwidth hcarry
  · by_cases hzero : d.coefficient = 0
    · rw [roundToPrecision, if_pos (toRat_eq_zero.2 hzero), toRat_eq_zero.2 hzero]
    · -- the quantum divides the number
      have hexp : d.exponent + width d.coefficient - 1 + 1 - (precision : ℤ) =
          d.exponent - ((precision - width d.coefficient : ℕ) : ℤ) := by omega
      have hint : d.toRat / 10 ^ (d.exponent - ((precision - width d.coefficient : ℕ) : ℤ)) =
          ((d.signed * 10 ^ (precision - width d.coefficient) : ℤ) : ℚ) := by
        rw [toRat, zpow_sub₀ (by norm_num), zpow_natCast]
        have hpow : (10 : ℚ) ^ d.exponent ≠ 0 := zpow_ne_zero _ (by norm_num)
        push_cast
        field_simp
      rw [roundToPrecision, if_neg (mt toRat_eq_zero.1 hzero), log_abs_toRat hzero, adjusted, hexp,
        hint, CobolJava.Decimal.toInt_intCast, ← hint]
      field_simp
  · -- a carry moves the first digit
    rw [roundToPrecision_wide (not_le.1 hwidth), toRat, toRat, signed_eq, signed_eq, hcarry,
      zpow_add₀ (by norm_num : (10 : ℚ) ≠ 0) _ 1]
    push_cast [precision]
    ring
  · rw [roundToPrecision_wide (not_le.1 hwidth)]

/-! ### Sums -/

theorem toRat_align (d : Decimal) {e : ℤ} (h : e ≤ d.exponent) :
    ((d.signed * 10 ^ (d.exponent - e).toNat : ℤ) : ℚ) * 10 ^ e = d.toRat := by
  have hexp : (((d.exponent - e).toNat : ℕ) : ℤ) = d.exponent - e := Int.toNat_of_nonneg (by omega)
  rw [toRat]
  push_cast
  rw [mul_assoc, ← zpow_natCast, hexp, ← zpow_add₀ (by norm_num), sub_add_cancel]

theorem toRat_addExact (a b : Decimal) : (addExact a b).toRat = a.toRat + b.toRat := by
  rw [addExact, toRat_ofSigned, ← toRat_align a (min_le_left a.exponent b.exponent),
    ← toRat_align b (min_le_right a.exponent b.exponent), ← add_mul]
  push_cast
  rfl

theorem toRat_add {a b s : Decimal} (h : add a b = some s) :
    s.toRat = roundToPrecision precision (a.toRat + b.toRat) := by
  rw [add] at h
  split_ifs at h
  rw [← Option.some.inj h, toRat_fix, toRat_addExact]

/-! ### Scaling -/

theorem dropZeros_spec (n c : ℕ) :
    (dropZeros n c).1 * 10 ^ (n - (dropZeros n c).2) = c ∧ (dropZeros n c).2 ≤ n := by
  induction n generalizing c with
  | zero => simp [dropZeros]
  | succ n ih =>
      rw [dropZeros]
      split_ifs with hc
      · obtain ⟨hvalue, hleft⟩ := ih (c / 10)
        refine ⟨?_, by omega⟩
        rw [Nat.succ_sub hleft, pow_succ, ← mul_assoc, hvalue]
        omega
      · simp

theorem toRat_scaleDown {d q : Decimal} {places : ℕ} (h : scaleDown d places = some q) :
    q.toRat = d.toRat / 10 ^ places := by
  rw [scaleDown] at h
  split_ifs at h
  obtain ⟨hvalue, -⟩ := dropZeros_spec (min places (precision - 1)) d.coefficient
  have hten : (10 : ℚ) ≠ 0 := by norm_num
  have hvalue' := congrArg (Nat.cast (R := ℚ)) hvalue
  push_cast at hvalue'
  rw [← Option.some.inj h, toRat, toRat, signed_eq, signed_eq, ← hvalue', zpow_add₀ hten,
    zpow_sub₀ hten, zpow_natCast, zpow_natCast]
  field_simp

end Decimal

end Py
