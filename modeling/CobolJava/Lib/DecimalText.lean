/-
**Digits.**

A text of decimal digits writes a number, and behind a decimal point a fraction.  Cutting the text
is arithmetic: the last digits are the number modulo a power of ten, the first digits behind the
point are the fraction truncated.

Main definitions:

* `DecimalText.number`, `DecimalText.fraction` — what digits write, alone and behind a point;
* `DecimalText.dropZeros`, `DecimalText.dropFinalZeros` — digits without leading or final zeros;
* `DecimalText.fit` — the digits behind a point cut or filled to a width.

Main results:

* `DecimalText.number_drop` — **the last digits are a remainder**;
* `DecimalText.number_fit` — **the first digits of a fraction are its truncation**;
* `DecimalText.cons_zero_iff` — a leading zero is a matter of size.
-/

import CobolJava.Lib.JavaText
import Mathlib.Data.Rat.Floor
import Mathlib.Tactic.Linarith
import Mathlib.Tactic.Positivity

set_option autoImplicit false

namespace DecimalText

def number (s : List Char) : ℕ := Nat.ofDigitChars 10 s 0

/-- The fraction that digits behind a point write. -/
def fraction (s : List Char) : ℚ := number s / 10 ^ s.length

/-- The digits without leading zeros. -/
def dropZeros (s : List Char) : List Char := s.dropWhile (· == '0')

/-- The digits without final zeros. -/
def dropFinalZeros (s : List Char) : List Char := s.rdropWhile (· == '0')

/-- Digits behind a point, cut or filled with zeros to a width. -/
def fit (width : ℕ) (s : List Char) : List Char :=
  s.take width ++ List.replicate (width - s.length) '0'

/-! ### Numbers -/

@[simp] theorem number_nil : number [] = 0 := rfl

theorem number_append (s t : List Char) : number (s ++ t) = number s * 10 ^ t.length + number t := by
  rw [number, Nat.ofDigitChars_append, Nat.ofDigitChars_eq_ofDigitChars_zero, Nat.mul_comm]
  rfl

theorem number_zeros (n : ℕ) : number (List.replicate n '0') = 0 := by
  rw [number, Nat.ofDigitChars_replicate_zero, Nat.mul_zero]

theorem number_cons (c : Char) (s : List Char) :
    number (c :: s) = (c.toNat - 48) * 10 ^ s.length + number s := by
  have hsplit := number_append [c] s
  rw [List.singleton_append] at hsplit
  rw [hsplit]
  congr 2
  rw [number, Nat.ofDigitChars_cons, Nat.ofDigitChars_nil]
  have : '0'.toNat = 48 := rfl
  omega

theorem number_lt {s : List Char} (h : ∀ c ∈ s, c.isDigit = true) : number s < 10 ^ s.length :=
  Java.ofDigitChars_lt h

theorem toNat_of_isDigit {c : Char} (h : c.isDigit = true) : 48 ≤ c.toNat ∧ c.toNat ≤ 57 := by
  simp only [Char.isDigit, Bool.and_eq_true, decide_eq_true_eq] at h
  exact ⟨h.1, h.2⟩

/-- **A leading zero is a matter of size.** -/
theorem cons_zero_iff {c : Char} {s : List Char} (h : ∀ d ∈ c :: s, d.isDigit = true) :
    c = '0' ↔ number (c :: s) < 10 ^ s.length := by
  rw [List.forall_mem_cons] at h
  have hs := number_lt h.2
  constructor
  · rintro rfl
    rw [number_cons]
    have : '0'.toNat = 48 := rfl
    rw [this, Nat.sub_self, Nat.zero_mul, Nat.zero_add]
    exact hs
  · intro hlt
    by_contra hne
    have hc := toNat_of_isDigit h.1
    have h48 : c.toNat ≠ 48 := by
      intro heq
      exact hne (Char.toNat_inj.1 heq)
    have hpos : 1 * 10 ^ s.length ≤ (c.toNat - 48) * 10 ^ s.length :=
      Nat.mul_le_mul_right _ (by omega)
    rw [number_cons] at hlt
    omega

theorem number_dropZeros (s : List Char) : number (dropZeros s) = number s := by
  induction s with
  | nil => rfl
  | cons c s ih =>
      rw [dropZeros] at ih ⊢
      rw [List.dropWhile_cons]
      split_ifs with hc
      · rw [ih, number_cons, eq_of_beq hc]
        have : '0'.toNat = 48 := rfl
        rw [this, Nat.sub_self, Nat.zero_mul, Nat.zero_add]
      · rfl

theorem head_dropZeros {s t : List Char} {c : Char} (h : dropZeros s = c :: t) : c ≠ '0' := by
  rintro rfl
  have hhead := List.head?_dropWhile_not (· == '0') s
  rw [dropZeros] at h
  rw [h] at hhead
  simp at hhead

theorem mem_of_mem_dropZeros {s : List Char} {c : Char} (h : c ∈ dropZeros s) : c ∈ s :=
  List.dropWhile_subset _ h

/-- **The last digits are a remainder.** -/
theorem number_drop {s : List Char} (h : ∀ c ∈ s, c.isDigit = true) {i : ℕ} (hi : i ≤ s.length) :
    number (s.drop (s.length - i)) = number s % 10 ^ i := by
  have hlength : (s.drop (s.length - i)).length = i := by
    rw [List.length_drop]
    omega
  have hlt := number_lt (s := s.drop (s.length - i)) fun c hc => h c (List.mem_of_mem_drop hc)
  have hsplit := number_append (s.take (s.length - i)) (s.drop (s.length - i))
  rw [List.take_append_drop, hlength] at hsplit
  rw [hlength] at hlt
  rw [hsplit, Nat.mul_comm, Nat.mul_add_mod, Nat.mod_eq_of_lt hlt]

/-! ### Fractions -/

theorem fraction_nonneg (s : List Char) : 0 ≤ fraction s := by
  rw [fraction]
  positivity

theorem fraction_lt_one {s : List Char} (h : ∀ c ∈ s, c.isDigit = true) : fraction s < 1 := by
  have hpos : (0 : ℚ) < 10 ^ s.length := by positivity
  rw [fraction, div_lt_one hpos]
  exact_mod_cast number_lt h

theorem fraction_append_zeros (s : List Char) (n : ℕ) :
    fraction (s ++ List.replicate n '0') = fraction s := by
  have hpos : (10 : ℚ) ^ n ≠ 0 := by positivity
  rw [fraction, fraction, number_append, number_zeros, List.length_append, List.length_replicate,
    Nat.add_zero, Nat.cast_mul, Nat.cast_pow, pow_add, Nat.cast_ofNat, mul_div_mul_right _ _ hpos]

theorem exists_dropFinalZeros (s : List Char) :
    ∃ n, s = dropFinalZeros s ++ List.replicate n '0' := by
  have hzeros : ∀ c ∈ s.rtakeWhile (· == '0'), c = '0' := fun c hc =>
    by simpa using List.mem_rtakeWhile_imp hc
  refine ⟨(s.rtakeWhile (· == '0')).length, ?_⟩
  rw [← List.eq_replicate_iff.2 ⟨rfl, hzeros⟩]
  exact List.rdropWhile_append_rtakeWhile.symm

theorem fraction_dropFinalZeros (s : List Char) : fraction (dropFinalZeros s) = fraction s := by
  obtain ⟨n, hn⟩ := exists_dropFinalZeros s
  conv_rhs => rw [hn]
  rw [fraction_append_zeros]

theorem length_fit (width : ℕ) (s : List Char) : (fit width s).length = width := by
  rw [fit, List.length_append, List.length_take, List.length_replicate]
  omega

/-- **The first digits of a fraction are its truncation.** -/
theorem number_fit (width : ℕ) {s : List Char} (h : ∀ c ∈ s, c.isDigit = true) :
    number (fit width s) = ⌊fraction s * 10 ^ width⌋₊ := by
  have hwidth : (0 : ℚ) < 10 ^ width := by positivity
  symm
  rw [Nat.floor_eq_iff (mul_nonneg (fraction_nonneg s) hwidth.le), fit]
  rcases le_or_gt s.length width with hle | hlt
  · -- all digits are kept, and zeros are filled in
    have hsplit : (10 : ℚ) ^ width = 10 ^ s.length * 10 ^ (width - s.length) := by
      rw [← pow_add, Nat.add_sub_cancel' hle]
    have hlength : (0 : ℚ) < 10 ^ s.length := by positivity
    have hexact : fraction s * 10 ^ width = number s * 10 ^ (width - s.length) := by
      rw [hsplit, fraction, ← mul_assoc, div_mul_cancel₀ _ hlength.ne']
    rw [hexact, List.take_of_length_le hle, number_append, number_zeros, List.length_replicate]
    push_cast
    constructor <;> linarith
  · -- the digits that are cut write less than one unit of the last kept place
    have hrest := fraction_lt_one (s := s.drop width) fun c hc => h c (List.mem_of_mem_drop hc)
    have hnonneg := fraction_nonneg (s.drop width)
    have hkept : fraction s * 10 ^ width = number (s.take width) + fraction (s.drop width) := by
      have hpos : (0 : ℚ) < 10 ^ (s.drop width).length := by positivity
      have hlength : s.length = width + (s.drop width).length := by
        rw [List.length_drop]
        omega
      have hnumber : (number s : ℚ) =
          number (s.take width) * 10 ^ (s.drop width).length + number (s.drop width) := by
        conv_lhs => rw [← List.take_append_drop width s, number_append]
        push_cast
        rfl
      rw [fraction, fraction, hnumber, hlength, pow_add]
      field_simp
    rw [Nat.sub_eq_zero_of_le hlt.le, List.replicate_zero, List.append_nil, hkept]
    constructor <;> linarith

end DecimalText
