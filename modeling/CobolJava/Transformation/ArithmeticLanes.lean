/-
**The lanes of an arithmetic expression.**

An arithmetic expression is evaluated in native Java arithmetic, as it stands or protected for a
receiver, or exactly in `BigDecimal`.  Here is what each lane relies on, and the step lemmas of
native arithmetic: an operation succeeds precisely when its operands do and its result is in the
range of the promoted type, whether the operation is protected or not.

Main definitions:

* `Lane` — how an expression is evaluated;
* `nativeLong` — the Java type of a native expression;
* `Fits` — **what a lane relies on**.

Main results:

* `evaluate_guarded_binaryOp`, `evaluate_guarded_neg` — one native operation.
-/

import CobolJava.Transformation.CobolArithmetic

set_option autoImplicit false

namespace CobolJava.Transformation

open Decimal (truncate)

/-! ### Lanes -/

/-- How an expression is evaluated. -/
inductive Lane
  /-- In `BigDecimal`. -/
  | exact
  /-- In `int` and `long` arithmetic, protected for a receiver of so many digits or not at all. -/
  | native (digits : Option ℕ)
  deriving DecidableEq, Repr

/-- Whether a native expression is evaluated as `long`; for a receiver of nine digits the literals
and the fields are narrowed to `int`, table elements are not. -/
def nativeLong (program : CobolProgram) (digits : Option ℕ) : JavaExpression → Bool
  | .literal value _ => value.longSuffix && digits != some 9
  | .variableRef name =>
      match findDataItem program name with
      | some item => item.picLength > 9 && digits != some 9
      | none => false
  | .arrayAccess array index =>
      match findDataItem program (arrayBaseName (.arrayAccess array index)) with
      | some item => item.picLength > 9
      | none => false
  | .binaryOp left _ right => nativeLong program digits left || nativeLong program digits right
  | .unaryOp _ operand => nativeLong program digits operand
  | _ => false

/-- The value of an expression is in the range of the type it is evaluated in. -/
def Lane.InRange (program : CobolProgram) (state : JavaState) (lane : Lane)
    (expression : JavaExpression) : Prop :=
  match lane with
  | .exact => True
  | .native digits =>
      ∀ x, denote program state expression = some (.number x) →
        inRange (nativeLong program digits expression) (truncate x)

/-- A signed literal is left as it is, so that a minus sign in front of it makes `--`. -/
def Lane.showsSign (lane : Lane) (expression : JavaExpression) : Bool :=
  match lane, expression with
  | .native digits, .literal value javaType =>
      isSignedLiteral (.literal value javaType) && digits.all fun d => value.digitCount ≤ d
  | _, _ => false

/-- What a lane relies on: every value stays in the range of its type, and every subscript is an
`int` that is computed without leaving it. -/
def Fits (program : CobolProgram) (state : JavaState) : Lane → JavaExpression → Prop
  | lane, .literal value javaType => lane.InRange program state (.literal value javaType)
  | lane, .variableRef name => lane.InRange program state (.variableRef name)
  | _, .arrayAccess array index =>
      Fits program state .exact array ∧ Fits program state (.native none) index ∧
        nativeLong program none index = false
  | lane, .binaryOp left operator right =>
      Fits program state lane left ∧ Fits program state lane right ∧
        lane.InRange program state (.binaryOp left operator right)
  | lane, .unaryOp operator operand =>
      Fits program state lane operand ∧ lane.showsSign operand = false ∧
        lane.InRange program state (.unaryOp operator operand)
  | _, _ => True

/-! ### Native operations -/

/-- The whole result of a native operation. -/
def wholeResult (operator : BinaryOperator) (m n : ℤ) : ℤ :=
  match operator with
  | .add => m + n
  | .sub => m - n
  | .mul => m * n
  | .div => m.tdiv n
  | _ => 0

/-- An operation of an arithmetic expression; the divisor is not zero. -/
def IsOperation (operator : BinaryOperator) (n : ℤ) : Prop :=
  operator = .add ∨ operator = .sub ∨ operator = .mul ∨ operator = .div ∧ n ≠ 0

attribute [grind =] nativeLong Fits

theorem truncate_exactResult {operator : BinaryOperator} {m n : ℤ} {z : ℚ}
    (h : exactResult operator m n = some z) :
    IsOperation operator n ∧ truncate z = wholeResult operator m n := by
  cases operator with
  | add =>
      refine ⟨.inl rfl, ?_⟩
      rw [← Option.some.inj h, ← Int.cast_add, Decimal.truncate_intCast, wholeResult]
  | sub =>
      refine ⟨.inr (.inl rfl), ?_⟩
      rw [← Option.some.inj h, ← Int.cast_sub, Decimal.truncate_intCast, wholeResult]
  | mul =>
      refine ⟨.inr (.inr (.inl rfl)), ?_⟩
      rw [← Option.some.inj h, ← Int.cast_mul, Decimal.truncate_intCast, wholeResult]
  | div =>
      rw [exactResult] at h
      split at h
      · cases h
      · rename_i hn
        refine ⟨.inr (.inr (.inr ⟨rfl, by simpa using hn⟩)), ?_⟩
        rw [← Option.some.inj h, Decimal.truncate_div, wholeResult]
  | mod | eq | or => cases h

theorem applyBinary_eq_ok {operator : BinaryOperator} {leftLong rightLong : Bool} {m n : ℤ}
    (h : IsOperation operator n) {v : JavaValue} :
    applyBinary true operator (integral leftLong m) (integral rightLong n) = .ok v ↔
      inRange (leftLong || rightLong) (wholeResult operator m n) ∧
        v = integral (leftLong || rightLong) (wholeResult operator m n) := by
  rcases h with rfl | rfl | rfl | ⟨rfl, hn⟩
  · simp only [applyBinary, promoted_integral]
    exact wrapping_trapped_eq_ok
  · simp only [applyBinary, promoted_integral]
    exact wrapping_trapped_eq_ok
  · simp only [applyBinary, promoted_integral]
    exact wrapping_trapped_eq_ok
  · simp only [applyBinary, promoted_integral]
    refine Iff.trans ?_ wrapping_trapped_eq_ok
    exact iff_of_eq (congrArg (· = Except.ok v) (if_neg hn))

theorem applyExact_eq_ok {operator : BinaryOperator} {method : ExactMethod}
    {leftLong rightLong : Bool} {m n : ℤ} (h : exactMethodOf operator = some method)
    {v : JavaValue} :
    applyExact method (integral leftLong m) (integral rightLong n) = .ok v ↔
      inRange (leftLong || rightLong) (wholeResult operator m n) ∧
        v = integral (leftLong || rightLong) (wholeResult operator m n) := by
  cases operator with
  | add | sub | mul =>
      obtain rfl := Option.some.inj h
      simp only [applyExact, promoted_integral]
      exact checked_eq_ok
  | div | mod | eq | or => cases h

theorem applyUnary_neg_eq_ok {isLong : Bool} {n : ℤ} {v : JavaValue} :
    applyUnary true .neg (integral isLong n) = .ok v ↔
      inRange isLong (-n) ∧ v = integral isLong (-n) := by
  cases isLong with
  | true => exact wrapping_trapped_eq_ok
  | false => exact wrapping_trapped_eq_ok

theorem applyStatic_negateExact_eq_ok {trap isLong : Bool} {n : ℤ} {v : JavaValue} :
    applyStatic trap .negateExact (integral isLong n) = .ok v ↔
      inRange isLong (-n) ∧ v = integral isLong (-n) := by
  simp only [applyStatic, asIntegral_integral]
  exact checked_eq_ok

theorem applyStatic_toIntExact_eq_ok {trap isLong : Bool} {n : ℤ} {v : JavaValue} :
    applyStatic trap .toIntExact (integral isLong n) = .ok v ↔
      inRange false n ∧ v = integral false n := by
  simp only [applyStatic, asIntegral_integral]
  exact checked_eq_ok

section Evaluation

variable {program : CobolProgram} {state : JavaState}

/-! ### Evaluation of native expressions -/

/-- An expression as it stands, or as it is protected for a receiver. -/
def guarded (program : CobolProgram) (receiver : Option DataItem) (expression : JavaExpression) :
    JavaExpression :=
  match receiver with
  | none => expression
  | some item => protectIntegralOverflow program item expression

/-- The digits an expression is protected for. -/
def guardDigits (receiver : Option DataItem) : Option ℕ :=
  receiver.map targetDigits

/-- **A native binary operation** succeeds when its operands do and its result is in range. -/
theorem evaluate_binaryOp_eq_ok {left right : JavaExpression} {operator : BinaryOperator}
    {F G : Prop} {leftLong rightLong : Bool} {m n : ℤ} (hop : IsOperation operator n)
    (hleft : ∀ v, evaluate true program state left = .ok v ↔ F ∧ v = integral leftLong m)
    (hright : ∀ v, evaluate true program state right = .ok v ↔ G ∧ v = integral rightLong n)
    {v : JavaValue} :
    evaluate true program state (.binaryOp left operator right) = .ok v ↔
      (F ∧ G ∧ inRange (leftLong || rightLong) (wholeResult operator m n)) ∧
        v = integral (leftLong || rightLong) (wholeResult operator m n) := by
  have hor : ∀ w : JavaValue, ¬(operator = .or ∧ w = .boolean true) := by
    rintro w ⟨rfl, -⟩
    rcases hop with h | h | h | h <;> simp at h
  simp only [evaluate]
  rw [Py.bind_eq_ok_iff_of_unique hleft, if_neg (hor _), Py.bind_eq_ok_iff_of_unique hright,
    applyBinary_eq_ok hop, and_assoc, and_assoc]

theorem evaluate_exactMethod_eq_ok {left right : JavaExpression} {operator : BinaryOperator}
    {method : ExactMethod} {F G : Prop} {leftLong rightLong : Bool} {m n : ℤ}
    (hmethod : exactMethodOf operator = some method)
    (hleft : ∀ v, evaluate true program state left = .ok v ↔ F ∧ v = integral leftLong m)
    (hright : ∀ v, evaluate true program state right = .ok v ↔ G ∧ v = integral rightLong n)
    {v : JavaValue} :
    evaluate true program state (.exactMethod method left right) = .ok v ↔
      (F ∧ G ∧ inRange (leftLong || rightLong) (wholeResult operator m n)) ∧
        v = integral (leftLong || rightLong) (wholeResult operator m n) := by
  simp only [evaluate]
  rw [Py.bind_eq_ok_iff_of_unique hleft, Py.bind_eq_ok_iff_of_unique hright,
    applyExact_eq_ok hmethod, and_assoc, and_assoc]

/-- The protection of an operation changes how an overflow ends, not whether there is one. -/
theorem evaluate_guarded_binaryOp {receiver : Option DataItem} {left right : JavaExpression}
    {operator : BinaryOperator} {F G : Prop} {leftLong rightLong : Bool} {m n : ℤ}
    (hop : IsOperation operator n)
    (hleft : ∀ v, evaluate true program state (guarded program receiver left) = .ok v ↔
      F ∧ v = integral leftLong m)
    (hright : ∀ v, evaluate true program state (guarded program receiver right) = .ok v ↔
      G ∧ v = integral rightLong n) {v : JavaValue} :
    evaluate true program state (guarded program receiver (.binaryOp left operator right)) = .ok v ↔
      (F ∧ G ∧ inRange (leftLong || rightLong) (wholeResult operator m n)) ∧
        v = integral (leftLong || rightLong) (wholeResult operator m n) := by
  cases receiver with
  | none => exact evaluate_binaryOp_eq_ok hop hleft hright
  | some item =>
      simp only [guarded, protectIntegralOverflow] at hleft hright ⊢
      split
      · split
        · rename_i method hmethod
          exact evaluate_exactMethod_eq_ok hmethod hleft hright
        · exact evaluate_binaryOp_eq_ok hop hleft hright
      · exact evaluate_binaryOp_eq_ok hop hleft hright

/-- A protected expression is a bare literal only when the literal is not too wide. -/
theorem isSignedLiteral_guarded (program : CobolProgram) {receiver : Option DataItem} {operand : JavaExpression}
    (h : ∀ item, receiver = some item →
      integralDigitWidth program (guarded program receiver operand) ≤ targetDigits item) :
    isSignedLiteral (guarded program receiver operand) =
      (Lane.native (guardDigits receiver)).showsSign operand := by
  cases receiver with
  | none =>
      cases operand with
      | literal value javaType => simp [guarded, guardDigits, Lane.showsSign]
      | _ => rfl
  | some item =>
      have hwidth := h item rfl
      cases operand with
      | literal value javaType =>
          simp only [guarded, protectIntegralOverflow, protectLeaf] at hwidth ⊢
          simp only [guardDigits, Option.map_some, Lane.showsSign, Option.all_some]
          by_cases hnarrow : targetDigits item = 9 && targetDigits item <
              integralDigitWidth program (.literal value javaType)
          · rw [if_pos hnarrow]
            have hwide : targetDigits item < value.digitCount := by
              exact of_decide_eq_true (Bool.and_eq_true_iff.1 hnarrow).2
            simp [isSignedLiteral, hwide]
          · rw [if_neg hnarrow] at hwidth ⊢
            simp only [integralDigitWidth] at hwidth
            simp [hwidth]
      | variableRef name =>
          simp only [guarded, protectIntegralOverflow, protectLeaf]
          split <;> rfl
      | binaryOp left operator right =>
          simp only [guarded, protectIntegralOverflow]
          split
          · split <;> rfl
          · rfl
      | unaryOp operator operand =>
          simp only [guarded, protectIntegralOverflow]
          split <;> rfl
      | _ =>
          simp only [guarded, protectIntegralOverflow, protectLeaf]
          split <;> rfl

theorem width_of_showsSign (program : CobolProgram) {item : DataItem} {operand : JavaExpression}
    (h : (Lane.native (some (targetDigits item))).showsSign operand = true) :
    integralDigitWidth program (protectIntegralOverflow program item operand) ≤
      targetDigits item := by
  cases operand with
  | literal value javaType =>
      simp only [Lane.showsSign, Option.all_some, Bool.and_eq_true, decide_eq_true_eq] at h
      have hbare : protectLeaf program item (.literal value javaType) = .literal value javaType := by
        refine if_neg ?_
        intro hnarrow
        have hwide : targetDigits item < value.digitCount :=
          of_decide_eq_true (Bool.and_eq_true_iff.1 hnarrow).2
        omega
      simp only [protectIntegralOverflow, hbare, integralDigitWidth]
      exact h.2
  | _ => cases h

theorem evaluate_neg_eq_ok {operand : JavaExpression} {F : Prop} {isLong : Bool} {n : ℤ}
    (hoperand : ∀ v, evaluate true program state operand = .ok v ↔ F ∧ v = integral isLong n)
    {v : JavaValue} :
    evaluate true program state (.unaryOp .neg operand) = .ok v ↔
      (F ∧ isSignedLiteral operand = false ∧ inRange isLong (-n)) ∧ v = integral isLong (-n) := by
  simp only [evaluate, true_and]
  by_cases hsigned : isSignedLiteral operand = true
  · simp [hsigned]
  · rw [if_neg hsigned]
    have hbare : isSignedLiteral operand = false := by simpa using hsigned
    rw [Py.bind_eq_ok_iff_of_unique hoperand, applyUnary_neg_eq_ok, and_iff_right hbare, and_assoc]

theorem evaluate_guarded_neg {receiver : Option DataItem} {operand : JavaExpression} {F : Prop}
    {isLong : Bool} {n : ℤ}
    (hoperand : ∀ v, evaluate true program state (guarded program receiver operand) = .ok v ↔
      F ∧ v = integral isLong n) {v : JavaValue} :
    evaluate true program state (guarded program receiver (.unaryOp .neg operand)) = .ok v ↔
      (F ∧ (Lane.native (guardDigits receiver)).showsSign operand = false ∧ inRange isLong (-n)) ∧
        v = integral isLong (-n) := by
  cases receiver with
  | none =>
      rw [← isSignedLiteral_guarded program (by simp)]
      exact evaluate_neg_eq_ok hoperand
  | some item =>
      simp only [guarded, protectIntegralOverflow, decide_true, Bool.true_and,
        decide_eq_true_eq] at hoperand ⊢
      by_cases hwide : targetDigits item <
          integralDigitWidth program (.unaryOp .neg (protectIntegralOverflow program item operand))
      · -- `Math.negateExact`: the operand is too wide to be a bare literal
        have hsign : (Lane.native (guardDigits (some item))).showsSign operand = false := by
          by_contra hshows
          have := width_of_showsSign program (by simpa [guardDigits] using hshows)
          simp only [integralDigitWidth] at hwide
          omega
        rw [if_pos hwide, and_iff_right hsign, and_assoc, ← applyStatic_negateExact_eq_ok]
        exact Py.bind_eq_ok_iff_of_unique hoperand
      · rw [if_neg hwide, ← isSignedLiteral_guarded program]
        · exact evaluate_neg_eq_ok hoperand
        · rintro item' heq
          obtain rfl := Option.some.inj heq
          simpa [integralDigitWidth, guarded] using hwide

end Evaluation

end CobolJava.Transformation
