/-
**Bounded native arithmetic.**

What `nativeIntegralBound` guarantees of the expressions it knows a bound of: over fields and
unsigned literals no native operation leaves the Java type it is evaluated in.

Main definitions:

* `isScalar` — neither table elements nor signed literals;
* `BoundedBy`, `HasBound` — a bound of an expression and of its native operations is right.

Main results:

* `hasBound_arithmetic` — a right bound is known of every whole expression over fields;
* `nativeIntegralBound_sound` — **native arithmetic computes the value within the bound**.
-/

import CobolJava.Transformation.ReceiverStores

set_option autoImplicit false

namespace CobolJava.Transformation

open Decimal (truncate)

section Bounds

variable {program : CobolProgram} {state : JavaState}

/-! ### Bounded expressions -/

/-- No table element, and only unsigned literals of at most 18 digits. -/
def isScalar : JavaExpression → Bool
  | .literal value _ => !value.negative && value.unscaled < 10 ^ 18
  | .variableRef _ => true
  | .binaryOp left _ right => isScalar left && isScalar right
  | .unaryOp _ operand => isScalar operand
  | _ => false

/-- The bound of an expression is right: it bounds the value, it is in the range of the type the
expression is evaluated in, and no operation leaves its type. -/
structure BoundedBy (program : CobolProgram) (state : JavaState) (e : JavaExpression) (n : ℤ)
    (magnitude : ℕ) (isLong : Bool) : Prop where
  bound : |n| ≤ magnitude
  inType : (magnitude : ℤ) ≤ typeMax isLong
  native : ∀ digits : Option ℕ, (digits = some 9 → isLong = false) →
    nativeLong program digits e = isLong ∧ Fits program state (.native digits) e

/-- A right bound of the expression is known, or it is found to overflow. -/
def HasBound (program : CobolProgram) (state : JavaState) (e : JavaExpression) (n : ℤ) : Prop :=
  nativeIntegralBound program e = .overflows ∨
    ∃ magnitude isLong, nativeIntegralBound program e = .bounded magnitude isLong ∧
      BoundedBy program state e n magnitude isLong

theorem showsSign_of_isScalar {e : JavaExpression} (h : isScalar e = true) (lane : Lane) :
    lane.showsSign e = false := by
  cases lane with
  | exact => rfl
  | native digits =>
      cases e with
      | literal value javaType =>
          simp only [isScalar, Bool.and_eq_true, Bool.not_eq_true'] at h
          simp [Lane.showsSign, isSignedLiteral, h.1]
      | _ => rfl

theorem boundedBy_literal {unscaled : ℕ} (hdigits : unscaled < 10 ^ 18) :
    ∃ magnitude isLong,
      nativeIntegralBound program (numericJavaLiteral false unscaled 0) =
          .bounded magnitude isLong ∧
        BoundedBy program state (numericJavaLiteral false unscaled 0) unscaled magnitude isLong := by
  have hsuffix : javaIntegralSuffix false unscaled 0 = decide ((unscaled : ℤ) > javaIntMax) := by
    have hmin : ¬(unscaled : ℤ) < javaIntMin := by
      unfold javaIntMin
      omega
    simp [javaIntegralSuffix, hmin]
  have hmax : (unscaled : ℤ) ≤ typeMax (decide ((unscaled : ℤ) > javaIntMax)) := by
    unfold typeMax javaLongMax
    split
    · omega
    · simp_all
  refine ⟨unscaled, decide ((unscaled : ℤ) > javaIntMax), ?_, by simp, hmax, ?_⟩
  · simp [nativeIntegralBound, numericJavaLiteral, NumericLiteral.isDigits, hsuffix]
  · intro digits hnarrow
    have hlong : nativeLong program digits (numericJavaLiteral false unscaled 0) =
        decide ((unscaled : ℤ) > javaIntMax) := by
      simp only [numericJavaLiteral, nativeLong, hsuffix]
      by_cases hdigits : digits = some 9
      · simp [hnarrow hdigits]
      · simp [hdigits]
    refine ⟨hlong, ?_⟩
    intro x hx
    obtain rfl : ((unscaled : ℤ) : ℚ) = x := by
      simpa [numericJavaLiteral, denote, NumericLiteral.value, NumericLiteral.signedDigits] using hx
    rw [Decimal.truncate_intCast]
    exact hlong ▸ inRange_of_abs_le (by simpa using hmax)

theorem boundedBy_item {name : String} {item : DataItem} (h : NumericItem program name item)
    (hstate : WithinPictures program state) (hwhole : item.decimalPlaces = 0)
    (hscalar : item.dimensions = []) :
    ∃ magnitude isLong,
      nativeIntegralBound program (.variableRef name) = .bounded magnitude isLong ∧
        BoundedBy program state (.variableRef name) (state name []) magnitude isLong := by
  have hpicture := hstate name item h.found h.numeric []
  have hpow : 0 < 10 ^ item.picLength := by positivity
  have hmax : ((10 ^ item.picLength - 1 : ℕ) : ℤ) ≤ typeMax (decide (item.picLength > 9)) := by
    have hle : ∀ d, item.picLength ≤ d → 10 ^ item.picLength ≤ 10 ^ d :=
      fun d hd => Nat.pow_le_pow_right (by norm_num) hd
    unfold typeMax javaLongMax javaIntMax
    by_cases hlong : item.picLength > 9
    · have := hle 18 h.digits
      simp only [hlong, decide_true, if_true]
      omega
    · have := hle 9 (not_lt.1 hlong)
      simp only [hlong, decide_false, Bool.false_eq_true, if_false]
      omega
  have hbound : |state name []| ≤ ((10 ^ item.picLength - 1 : ℕ) : ℤ) := by
    have := hpicture.1
    push_cast [Nat.cast_sub hpow]
    omega
  refine ⟨10 ^ item.picLength - 1, decide (item.picLength > 9), ?_, hbound, hmax, ?_⟩
  · simp [nativeIntegralBound, h.found, h.numeric, hwhole]
  · intro digits hnarrow
    have hlong : nativeLong program digits (.variableRef name) = decide (item.picLength > 9) := by
      simp only [nativeLong, h.found]
      by_cases hdigits : digits = some 9
      · simp [hnarrow hdigits]
      · simp [hdigits]
    refine ⟨hlong, ?_⟩
    intro x hx
    obtain rfl : ((state name [] : ℤ) : ℚ) = x := by
      simpa [denote, h.found, selected, hscalar, contents, hwhole] using hx
    rw [Decimal.truncate_intCast, hlong]
    exact inRange_of_abs_le (hbound.trans hmax)

theorem abs_wholeResult_le {operator : BinaryOperator} {m n : ℤ} {left right : ℕ}
    (hm : |m| ≤ left) (hn : |n| ≤ right) (hop : IsOperation operator n) :
    |wholeResult operator m n| ≤ (combinedMagnitude operator left right : ℤ) := by
  rcases hop with rfl | rfl | rfl | ⟨rfl, hzero⟩
  · have := abs_add_le m n
    simp only [wholeResult, combinedMagnitude]
    push_cast
    omega
  · have := abs_sub m n
    simp only [wholeResult, combinedMagnitude]
    push_cast
    omega
  · simp only [wholeResult, combinedMagnitude, abs_mul]
    push_cast
    exact mul_le_mul hm hn (abs_nonneg n) (by positivity)
  · simp only [wholeResult, combinedMagnitude]
    rw [Int.abs_eq_natAbs, Int.natAbs_tdiv]
    have hdiv : m.natAbs.div n.natAbs ≤ m.natAbs := Nat.div_le_self _ _
    rw [Int.abs_eq_natAbs] at hm
    omega

/-- **A bounded operation**: where the combination of the bounds does not overflow, the operation
stays in its type. -/
theorem boundedBy_binaryOp {left right : JavaExpression} {operator : BinaryOperator} {m n : ℤ}
    {z : ℚ} {leftMagnitude rightMagnitude magnitude : ℕ} {leftLong rightLong isLong : Bool}
    (hleft : BoundedBy program state left m leftMagnitude leftLong)
    (hright : BoundedBy program state right n rightMagnitude rightLong)
    (hop : IsOperation operator n) (htruncate : truncate z = wholeResult operator m n)
    (hz : denote program state (.binaryOp left operator right) = some (.number z))
    (hcombined : combineBounds operator (.bounded leftMagnitude leftLong)
      (.bounded rightMagnitude rightLong) = .bounded magnitude isLong) :
    BoundedBy program state (.binaryOp left operator right) (wholeResult operator m n) magnitude
      isLong := by
  simp only [combineBounds] at hcombined
  split at hcombined
  · cases hcombined
  · rename_i hle
    obtain ⟨rfl, rfl⟩ := NativeBound.bounded.inj hcombined
    have hbound := abs_wholeResult_le hleft.bound hright.bound hop
    have htype := not_lt.1 hle
    refine ⟨hbound, htype, ?_⟩
    intro digits hnarrow
    have hl := hleft.native digits fun hdigits => (Bool.or_eq_false_iff.1 (hnarrow hdigits)).1
    have hr := hright.native digits fun hdigits => (Bool.or_eq_false_iff.1 (hnarrow hdigits)).2
    have hlong : nativeLong program digits (.binaryOp left operator right) =
        (leftLong || rightLong) := by
      rw [nativeLong, hl.1, hr.1]
    refine ⟨hlong, hl.2, hr.2, ?_⟩
    intro x hx
    obtain rfl := CobolValue.number.inj (Option.some.inj (hz.symm.trans hx))
    rw [htruncate, hlong]
    exact inRange_of_abs_le (hbound.trans htype)

/-- The bound known of an operation of two expressions is right when theirs are. -/
theorem HasBound.binaryOp {left right : JavaExpression} {operator : BinaryOperator} {m n : ℤ} {z : ℚ}
    (hleft : HasBound program state left m) (hright : HasBound program state right n)
    (hop : IsOperation operator n) (htruncate : truncate z = wholeResult operator m n)
    (hz : denote program state (.binaryOp left operator right) = some (.number z)) :
    HasBound program state (.binaryOp left operator right) (truncate z) := by
  have hbound : nativeIntegralBound program (.binaryOp left operator right) =
      combineBounds operator (nativeIntegralBound program left)
        (nativeIntegralBound program right) := by
    rcases hop with rfl | rfl | rfl | ⟨rfl, -⟩ <;> rfl
  unfold HasBound
  rw [hbound, htruncate]
  rcases hleft with hl | ⟨a, aLong, ha, hl⟩
  · rw [hl]
    exact .inl rfl
  rcases hright with hr | ⟨b, bLong, hb, hr⟩
  · rw [ha, hr]
    exact .inl rfl
  rw [ha, hb]
  cases hcombined : combineBounds operator (.bounded a aLong) (.bounded b bLong) with
  | overflows => exact .inl rfl
  | unknown =>
      simp only [combineBounds] at hcombined
      split at hcombined <;> cases hcombined
  | bounded magnitude isLong =>
      exact .inr ⟨magnitude, isLong, rfl, boundedBy_binaryOp hl hr hop htruncate hz hcombined⟩

theorem HasBound.negate {operand : JavaExpression} {n : ℤ} (h : HasBound program state operand n)
    (hscalar : isScalar operand = true)
    (hn : denote program state (.unaryOp .neg operand) = some (.number ((-n : ℤ) : ℚ))) :
    HasBound program state (.unaryOp .neg operand) (-n) := by
  rcases h with hl | ⟨a, aLong, ha, hl⟩
  · exact .inl hl
  refine .inr ⟨a, aLong, ha, (abs_neg n).le.trans hl.bound, hl.inType, ?_⟩
  intro digits hnarrow
  have hoperand := hl.native digits hnarrow
  refine ⟨hoperand.1, hoperand.2, showsSign_of_isScalar hscalar _, ?_⟩
  rw [inRange_native_iff hn, nativeLong, hoperand.1]
  exact inRange_of_abs_le ((abs_neg n).le.trans (hl.bound.trans hl.inType))

/-- **A right bound is known of every whole expression over fields**, or it is found to overflow. -/
theorem hasBound_arithmetic {e : JavaExpression} {dimensions : List ℕ} {x : ℚ}
    (hstate : WithinPictures program state) (h : Arithmetic program e dimensions)
    (hdims : dimensions = []) (hscalar : isScalar e = true)
    (hwhole : requiresFractionalType program e = false)
    (hx : denote program state e = some (.number x)) : HasBound program state e (truncate x) := by
  induction h generalizing x with
  | literal negative unscaled places =>
      obtain rfl := numericJavaLiteral_places hwhole
      have hplain : negative = false ∧ unscaled < 10 ^ 18 := by
        simpa [numericJavaLiteral, isScalar] using hscalar
      obtain ⟨rfl, hdigits⟩ := hplain
      obtain rfl : ((unscaled : ℤ) : ℚ) = x := by
        simpa [numericJavaLiteral, denote, NumericLiteral.value, NumericLiteral.signedDigits] using hx
      rw [Decimal.truncate_intCast]
      exact .inr (boundedBy_literal hdigits)
  | @item name item dimensions h hdims' =>
      rw [requiresFractionalType_reference (show IsReference (.variableRef name) from trivial)
        h.found] at hwhole
      have hplaces : item.decimalPlaces = 0 := by simpa using hwhole
      have hrank : item.dimensions = [] := hdims'.trans hdims
      obtain rfl : ((state name [] : ℤ) : ℚ) = x := by
        simpa [denote, h.found, selected, hrank, contents, hplaces] using hx
      rw [Decimal.truncate_intCast]
      exact .inr (boundedBy_item h hstate hplaces hrank)
  | element harray hsubscript hone hwhole' => cases hscalar
  | @binary left right operator hleft hright hoperator ihleft ihright =>
      obtain ⟨y, z, w, hy, hz, hresult, heq⟩ := denote_binaryOp hx
      obtain rfl := CobolValue.number.inj heq
      rw [requiresFractionalType, Bool.or_eq_false_iff] at hwhole
      rw [isScalar, Bool.and_eq_true] at hscalar
      have hl := ihleft rfl hscalar.1 hwhole.1 hy
      have hr := ihright rfl hscalar.2 hwhole.2 hz
      obtain ⟨m, rfl⟩ := denote_integral hleft hwhole.1 hy
      obtain ⟨n, rfl⟩ := denote_integral hright hwhole.2 hz
      rw [Decimal.truncate_intCast] at hl hr
      obtain ⟨hop, htruncate⟩ := truncate_exactResult hresult
      exact hl.binaryOp hr hop htruncate hx
  | @negate operand h ih =>
      obtain ⟨y, hy, heq⟩ := denote_neg hx
      obtain rfl := CobolValue.number.inj heq
      have hl := ih rfl hscalar hwhole hy
      obtain ⟨n, rfl⟩ := denote_integral h hwhole hy
      rw [← Int.cast_neg] at hx ⊢
      rw [Decimal.truncate_intCast] at hl ⊢
      exact hl.negate hscalar hx

/-! ### The root of an expression -/

/-- The bound of an expression with at most one division, at the root. -/
theorem hasBound_root {e : JavaExpression} {x : ℚ} (hstate : WithinPictures program state)
    (h : ArithmeticRoot program e) (hscalar : isScalar e = true)
    (hwhole : requiresFractionalType program e = false)
    (hx : denote program state e = some (.number x)) : HasBound program state e (truncate x) := by
  cases h with
  | plain h => exact hasBound_arithmetic hstate h rfl hscalar hwhole hx
  | @quotient left right hleft hright =>
      obtain ⟨y, z, w, hy, hz, hresult, heq⟩ := denote_binaryOp hx
      obtain rfl := CobolValue.number.inj heq
      rw [requiresFractionalType, Bool.or_eq_false_iff] at hwhole
      rw [isScalar, Bool.and_eq_true] at hscalar
      have hl := hasBound_arithmetic hstate hleft rfl hscalar.1 hwhole.1 hy
      have hr := hasBound_arithmetic hstate hright rfl hscalar.2 hwhole.2 hz
      obtain ⟨m, rfl⟩ := denote_integral hleft hwhole.1 hy
      obtain ⟨n, rfl⟩ := denote_integral hright hwhole.2 hz
      rw [Decimal.truncate_intCast] at hl hr
      obtain ⟨hop, htruncate⟩ := truncate_exactResult hresult
      exact hl.binaryOp hr hop htruncate hx

end Bounds

end CobolJava.Transformation
