/-
**The scaled expression of a receiver.**

The expression of an arithmetic statement is scaled to the decimal places of its receiver and cut to
its whole digits.  Each lane of the lowering does so with operations of its own; here is what the
emitted Java evaluates to in each of them.

Main definitions:

* `cut`, `signedAs`, `wholeCut` — high-order truncation, and the dropped sign;
* `reducesNative` — whether a native expression is reduced.

Main results:

* `signedAs_cut_eq_iff` — the truncation yields what the receiver keeps, but for a receiver without
  whole digits;
* `evaluate_scaleDecimalReceiver`, `evaluate_scaleNative`, `evaluate_scaleExact` — **the scaled
  expression in each lane**.
-/

import CobolJava.Transformation.ExactLane

set_option autoImplicit false

namespace CobolJava.Transformation

open Decimal (setScale remainder truncate roundToPrecision)

/-! ### Truncation to the receiver -/

/-- High-order truncation, which a receiver without whole digits does not get. -/
def cut (item : DataItem) (y : ℚ) : ℚ :=
  if item.integerDigits > 0 then remainder y (10 ^ item.integerDigits) else y

/-- The sign of an unsigned receiver is dropped. -/
def signedAs (item : DataItem) (y : ℚ) : ℚ :=
  if item.signed then y else |y|

theorem kept_of_integerDigits_pos {item : DataItem} (h : 0 < item.integerDigits) (y : ℚ) :
    kept item y = signedAs item (cut item y) := by
  unfold kept signedAs cut
  rw [if_pos h]

theorem abs_signedAs (item : DataItem) (y : ℚ) : |signedAs item y| = |y| := by
  unfold signedAs
  split <;> simp

theorem abs_kept_lt (item : DataItem) (y : ℚ) : |kept item y| < 10 ^ item.integerDigits := by
  have hlow := Decimal.abs_remainder_lt y (show (0 : ℚ) < 10 ^ item.integerDigits by positivity)
  unfold kept
  split <;> simpa using hlow

/-- What the truncation yields is what the receiver keeps, but for a receiver without whole
digits. -/
theorem signedAs_cut_eq_iff (item : DataItem) (y s : ℚ) :
    signedAs item (cut item y) = kept item s ↔
      kept item y = kept item s ∧ (item.integerDigits = 0 → |y| < 1) := by
  rcases Nat.eq_zero_or_pos item.integerDigits with hzero | hpos
  · have hcut : cut item y = y := by
      unfold cut
      rw [if_neg (by omega)]
    have hsmall : |y| < 1 → kept item y = signedAs item y := by
      intro hy
      unfold kept signedAs
      rw [hzero, pow_zero, Decimal.remainder_of_abs_lt hy]
    rw [hcut]
    constructor
    · intro h
      have hlt : |y| < 1 := by
        rw [← abs_signedAs item, h]
        simpa [hzero] using abs_kept_lt item s
      exact ⟨(hsmall hlt).trans h, fun _ => hlt⟩
    · rintro ⟨h, hlt⟩
      exact (hsmall (hlt hzero)).symm.trans h
  · rw [← kept_of_integerDigits_pos hpos y]
    constructor
    · intro h
      exact ⟨h, fun hzero => by omega⟩
    · exact And.left

/-- High-order truncation of a whole number. -/
def wholeCut (item : DataItem) (n : ℤ) : ℤ :=
  if item.integerDigits > 0 then n.tmod (10 ^ item.integerDigits) else n

theorem cut_intCast (item : DataItem) (n : ℤ) : cut item n = (wholeCut item n : ℤ) := by
  unfold cut wholeCut
  split
  · rw [← Decimal.remainder_intCast]
    push_cast
    rfl
  · rfl

theorem wholeCut_of_abs_lt {item : DataItem} {n : ℤ} (h : |n| < 10 ^ item.integerDigits) :
    wholeCut item n = n := by
  have hcut := cut_intCast item n
  unfold cut at hcut
  unfold wholeCut at hcut ⊢
  split
  · rename_i hpos
    rw [if_pos hpos, if_pos hpos,
      Decimal.remainder_of_abs_lt (by exact_mod_cast h)] at hcut
    exact_mod_cast hcut.symm
  · rfl

section Scaled

variable {program : CobolProgram} {state : JavaState}

/-! ### Digits -/

/-- A value that is found to fit has no more digits. -/
theorem abs_lt_of_fitsDigits {digits : ℕ} {e : JavaExpression} {dimensions : List ℕ} {x : ℚ}
    (hstate : WithinPictures program state) (h : Arithmetic program e dimensions)
    (hfits : expressionFitsDigits program digits e = true)
    (hx : denote program state e = some (.number x)) : |x| < 10 ^ digits := by
  induction h generalizing x with
  | literal negative unscaled places =>
      simp only [numericJavaLiteral, expressionFitsDigits, NumericLiteral.isDigits,
        NumericLiteral.digitCount, Bool.and_eq_true, decide_eq_true_eq] at hfits
      obtain ⟨rfl, hcount⟩ := hfits
      simp only [pow_zero, Nat.div_one, Nat.add_zero] at hcount
      have hdigits : unscaled < 10 ^ (Nat.log 10 unscaled + 1) :=
        Nat.lt_pow_succ_log_self (by norm_num) unscaled
      have hpow : 10 ^ (Nat.log 10 unscaled + 1) ≤ 10 ^ digits :=
        Nat.pow_le_pow_right (by norm_num) (of_decide_eq_true hcount)
      have habs : |x| = unscaled := by
        simp only [numericJavaLiteral, denote, Option.some.injEq, CobolValue.number.injEq] at hx
        rw [← hx, NumericLiteral.value_of_places_eq_zero rfl]
        unfold NumericLiteral.signedDigits
        split <;> simp
      rw [habs]
      exact_mod_cast hdigits.trans_le hpow
  | @item name item dimensions h hdims =>
      simp only [expressionFitsDigits, h.found, Bool.and_eq_true, decide_eq_true_eq] at hfits
      obtain ⟨⟨⟨-, hplaces⟩, -⟩, hlength⟩ := hfits
      simp only [denote, h.found, Option.map_some, Option.some.injEq, selected] at hx
      split at hx
      · have hbound := (hstate name item h.found h.numeric []).1
        have hpow : (10 : ℤ) ^ item.picLength ≤ 10 ^ digits := by
          exact_mod_cast Nat.pow_le_pow_right (by norm_num) hlength
        rw [← CobolValue.number.inj hx, contents, hplaces, pow_zero, div_one]
        exact_mod_cast hbound.trans_le hpow
      · cases hx
  | element harray hsubscript hone hwhole => cases hfits
  | binary hleft hright hoperator =>
      rcases hoperator with rfl | rfl | rfl <;> cases hfits
  | negate h ih =>
      obtain ⟨y, hy, heq⟩ := denote_neg hx
      obtain rfl := CobolValue.number.inj heq
      rw [abs_neg]
      exact ih hfits hy

/-- The truncated value of a whole expression that is found to fit has no more digits. -/
theorem abs_truncate_lt_of_fitsDigits {digits : ℕ} {e : JavaExpression} {x : ℚ}
    (hstate : WithinPictures program state) (h : ArithmeticRoot program e)
    (hwhole : requiresFractionalType program e = false)
    (hfits : expressionFitsDigits program digits e = true)
    (hx : denote program state e = some (.number x)) : |truncate x| < 10 ^ digits := by
  have hquot : |x| < 10 ^ digits := by
    cases h with
    | plain h => exact abs_lt_of_fitsDigits hstate h hfits hx
    | quotient hleft hright =>
        obtain ⟨y, z, w, hy, hz, hresult, heq⟩ := denote_binaryOp hx
        obtain rfl := CobolValue.number.inj heq
        rw [requiresFractionalType, Bool.or_eq_false_iff] at hwhole
        obtain ⟨n, rfl⟩ := denote_integral hright hwhole.2 hz
        rw [exactResult] at hresult
        split at hresult
        · cases hresult
        · rename_i hzero
          obtain rfl := Option.some.inj hresult
          have hn : (1 : ℚ) ≤ |(n : ℚ)| := by
            have : (1 : ℤ) ≤ |n| := Int.one_le_abs (by simpa using hzero)
            exact_mod_cast this
          rw [abs_div]
          exact (div_le_self (abs_nonneg y) hn).trans_lt (abs_lt_of_fitsDigits hstate hleft hfits hy)
  have hround := (Decimal.abs_truncate_le x).trans_lt hquot
  exact_mod_cast hround

/-- In the native lane the scaled value is the truncated one: a rounded statement there does not
divide. -/
theorem toInt_of_nativeLane {item : DataItem} {e : JavaExpression} {rounded : Bool} {x : ℚ}
    (h : ArithmeticRoot program e) (hlane : nativeLane program e item rounded = true)
    (hx : denote program state e = some (.number x)) :
    (receiverRounding rounded).toInt x = truncate x := by
  simp only [nativeLane, exactIntermediates, Bool.and_eq_true, Bool.not_eq_true',
    Bool.or_eq_false_iff] at hlane
  cases rounded with
  | false => rfl
  | true =>
      cases h with
      | plain h =>
          obtain ⟨n, rfl⟩ := denote_integral h hlane.1 hx
          rw [Decimal.toInt_intCast, Decimal.truncate_intCast]
      | quotient hleft hright => simp [containsDivision] at hlane

/-! ### The scaled expression -/

theorem evaluate_powerLiteral (program : CobolProgram) (state : JavaState) {d : ℕ} {isLong : Bool}
    (javaType : JavaBasicType) (htype : javaType ≠ .decimal) (hrange : inRange isLong (10 ^ d)) :
    evaluate true program state (.literal ⟨false, 10 ^ d, 0, isLong⟩ (some javaType)) =
      .ok (integral isLong (10 ^ d)) := by
  simp only [evaluate, literalValue, NumericLiteral.signedDigits]
  rw [if_neg (by simpa using htype)]
  simp [hrange]

theorem evaluate_boundDecimal {d : ℕ} {isLong : Bool} (hrange : inRange isLong (10 ^ d))
    {v : JavaValue} :
    evaluate true program state (boundDecimal d isLong) = .ok v ↔
      True ∧ v = .decimal (10 ^ d) := by
  have hliteral := evaluate_powerLiteral program state .long (by simp) hrange
  simp only [boundDecimal, evaluate] at hliteral ⊢
  rw [hliteral]
  change applyStatic true .valueOf (integral isLong (10 ^ d)) = .ok v ↔ _
  simp only [applyStatic, asIntegral_integral]
  simp [eq_comm]

theorem inRange_suffix {d : ℕ} (hd : d ≤ 18) :
    inRange (javaIntegralSuffix false (10 ^ d) 0) (10 ^ d) := by
  cases hsuffix : javaIntegralSuffix false (10 ^ d) 0 with
  | true => exact inRange_pow hd (by simp)
  | false =>
      have hrange : javaIntMin ≤ (10 : ℤ) ^ d ∧ (10 : ℤ) ^ d ≤ javaIntMax := by
        simpa [javaIntegralSuffix, and_comm] using hsuffix
      exact hrange

theorem applyDecimalOperation_remainder (x : ℚ) (d : ℕ) :
    applyDecimalOperation .remainder (.decimal x) (.decimal (10 ^ d)) =
      .ok (.decimal (remainder x (10 ^ d))) :=
  if_neg (by positivity)

/-- The expression of a decimal receiver. -/
theorem evaluate_scaleDecimalReceiver {item : DataItem} {raw : JavaExpression} {x : ℚ}
    (hstate : WithinPictures program state) (h : ArithmeticRoot program raw)
    (hx : denote program state raw = some (.number x)) (hdigits : item.picLength ≤ 18)
    {rounded : Bool} {v : JavaValue} :
    evaluate true program state (scaleDecimalReceiver program raw item rounded) = .ok v ↔
      Fits program state .exact raw ∧
        v = .decimal (cut item (scaled item rounded (carried raw x))) := by
  have hscaled : ∀ v, evaluate true program state
      (.decimalMethod (promoteToDecimal program raw)
        (.setScale item.decimalPlaces (receiverRounding rounded))) = .ok v ↔
      Fits program state .exact raw ∧ v = .decimal (scaled item rounded (carried raw x)) :=
    fun v => evaluate_decimalMethod (fun v => evaluate_promoted hstate h hx) rfl
  unfold scaleDecimalReceiver cut
  by_cases hpos : item.integerDigits > 0
  · simp only [if_pos hpos]
    have hbound : item.integerDigits ≤ 18 := (Nat.sub_le _ _).trans hdigits
    rw [evaluate_decimalOperation hscaled
      (fun v => evaluate_boundDecimal (inRange_suffix hbound))
      (applyDecimalOperation_remainder _ _), and_true]
  · simp only [if_neg hpos]
    exact hscaled v

/-- Whether the native expression of an integral receiver is reduced by a `%`. -/
def reducesNative (program : CobolProgram) (raw : JavaExpression) (item : DataItem) : Bool :=
  !(item.integerDigits = 0 || expressionFitsDigits program item.integerDigits raw)

/-- The native expression of an integral receiver. -/
theorem evaluate_scaleNative {item : DataItem} {raw : JavaExpression} {x : ℚ}
    (hstate : WithinPictures program state) (h : ArithmeticRoot program raw)
    (hx : denote program state raw = some (.number x)) (hdigits : item.picLength ≤ 18)
    (hwhole : requiresFractionalType program raw = false) {v : JavaValue} :
    evaluate true program state (scaleNative program raw item) = .ok v ↔
      Fits program state (.native (some (targetDigits item))) raw ∧
        v = integral (nativeLong program (some (targetDigits item)) raw ||
          reducesNative program raw item && decide (item.picLength > 9))
          (wholeCut item (truncate x)) := by
  have hnative : ∀ v, evaluate true program state (protectIntegralOverflow program item raw) =
      .ok v ↔ Fits program state (.native (some (targetDigits item))) raw ∧
        v = integral (nativeLong program (some (targetDigits item)) raw) (truncate x) :=
    fun v => evaluate_native hstate h hwhole hx (some item)
  unfold scaleNative reducesNative
  by_cases hbare : item.integerDigits = 0 || expressionFitsDigits program item.integerDigits raw
  · have hcut : wholeCut item (truncate x) = truncate x := by
      rcases Bool.or_eq_true_iff.1 hbare with hzero | hfits
      · unfold wholeCut
        rw [if_neg (by simpa using hzero)]
      · exact wholeCut_of_abs_lt (abs_truncate_lt_of_fitsDigits hstate h hwhole hfits hx)
    rw [if_pos hbare, hcut, hbare, hnative]
    simp
  · have hpos : item.integerDigits > 0 := by
      have := hbare
      simp only [Bool.or_eq_true, decide_eq_true_eq, not_or] at this
      omega
    have hmodulus : (10 : ℤ) ^ item.integerDigits ≠ 0 := by positivity
    have hrange : inRange (decide (item.picLength > 9)) (10 ^ item.integerDigits) := by
      have hlength : item.integerDigits ≤ item.picLength := Nat.sub_le _ _
      exact inRange_of_picLength hdigits (by simpa using pow_le_pow_right₀ (by norm_num) hlength)
    have hliteral := evaluate_powerLiteral program state
      (if item.picLength > 9 then .long else .int) (by split <;> simp) hrange
    rw [if_neg hbare]
    simp only [Bool.not_eq_true] at hbare
    have hreduced : ∀ isLong n, applyBinary true .mod (integral isLong n)
        (integral (decide (item.picLength > 9)) (10 ^ item.integerDigits)) =
          .ok (integral (isLong || decide (item.picLength > 9))
            (n.tmod (10 ^ item.integerDigits))) := by
      intro isLong n
      simp only [applyBinary, promoted_integral]
      exact if_neg hmodulus
    rw [hbare, Bool.not_false, Bool.true_and, wholeCut, if_pos hpos]
    simp only [evaluate] at hliteral ⊢
    rw [Py.bind_eq_ok_iff_of_unique hnative, if_neg (by simp), hliteral]
    change _ ∧ applyBinary true .mod _ _ = .ok v ↔ _
    rw [hreduced, Except.ok.injEq, eq_comm]

theorem narrowExact_intCast (isLong : Bool) (n : ℤ) :
    narrowExact isLong (n : ℚ) = checked isLong n := by
  simp [narrowExact]

/-- The exact expression of an integral receiver. -/
theorem evaluate_scaleExact {item : DataItem} {raw : JavaExpression} {x : ℚ}
    (hstate : WithinPictures program state) (h : ArithmeticRoot program raw)
    (hx : denote program state raw = some (.number x)) (hdigits : item.picLength ≤ 18)
    {rounded : Bool} {v : JavaValue} :
    evaluate true program state (scaleExact program raw item rounded) = .ok v ↔
      (Fits program state .exact raw ∧ inRange (item.picLength > 9)
          (wholeCut item ((receiverRounding rounded).toInt (carried raw x)))) ∧
        v = integral (item.picLength > 9)
          (wholeCut item ((receiverRounding rounded).toInt (carried raw x))) := by
  set n := (receiverRounding rounded).toInt (carried raw x) with hn
  have hscaled : ∀ v, evaluate true program state
      (.decimalMethod (promoteToDecimal program raw) (.setScale 0 (receiverRounding rounded))) =
        .ok v ↔ Fits program state .exact raw ∧ v = .decimal (n : ℚ) := by
    refine fun v => evaluate_decimalMethod (fun v => evaluate_promoted hstate h hx) ?_
    rw [hn, ← Decimal.setScale_zero_places]
    rfl
  have htruncated : ∀ v, evaluate true program state
      (if item.integerDigits > 0 then
        .decimalOperation (.decimalMethod (promoteToDecimal program raw)
          (.setScale 0 (receiverRounding rounded))) .remainder
          (boundDecimal item.integerDigits true)
      else .decimalMethod (promoteToDecimal program raw)
        (.setScale 0 (receiverRounding rounded))) = .ok v ↔
      Fits program state .exact raw ∧ v = .decimal ((wholeCut item n : ℤ) : ℚ) := by
    intro v
    rw [← cut_intCast, cut]
    by_cases hpos : item.integerDigits > 0
    · rw [if_pos hpos, if_pos hpos]
      have hbound : item.integerDigits ≤ 18 := (Nat.sub_le _ _).trans hdigits
      rw [evaluate_decimalOperation hscaled
        (fun v => evaluate_boundDecimal (inRange_pow hbound (by simp)))
        (applyDecimalOperation_remainder _ _), and_true]
    · rw [if_neg hpos, if_neg hpos]
      exact hscaled v
  unfold scaleExact
  have hnarrow : ∀ isLong v, applyDecimalMethod
      (if isLong = true then .longValueExact else .intValueExact)
      (.decimal ((wholeCut item n : ℤ) : ℚ)) = .ok v ↔
        inRange isLong (wholeCut item n) ∧ v = integral isLong (wholeCut item n) := by
    intro isLong v
    rw [← checked_eq_ok, ← narrowExact_intCast]
    cases isLong <;> rfl
  have hmethod : (if item.picLength > 9 then DecimalMethod.longValueExact else .intValueExact) =
      if decide (item.picLength > 9) = true then .longValueExact else .intValueExact := by
    simp
  rw [hmethod, and_assoc, ← hnarrow]
  exact Py.bind_eq_ok_iff_of_unique htruncated

end Scaled

end CobolJava.Transformation
