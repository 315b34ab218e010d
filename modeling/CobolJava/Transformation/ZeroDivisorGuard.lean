/-
**The test of the divisors.**

The Java statement of an arithmetic statement that divides runs only when no divisor is found to be
zero.  The divisors are tested from the outside in, each in the lane of its own operands: an
integral divisor in `int` and `long` arithmetic, which wraps and cuts quotients to whole numbers, any
other in `BigDecimal` with quotients of 34 digits.

Main definitions:

* `DivisionExpression` — expressions with divisions anywhere;
* `DividesByZero` — what the test is meant to find;
* `laneValue`, `firstStop` — a divisor in the arithmetic of its lane, and where the tests end;
* `GuardExact` — the test and the statement do what they should.

Main results:

* `evaluate_nativeLane`, `evaluate_decimalLane` — the two lanes as roundings of the results;
* `guardExact_iff` — **when the test of the divisors is exact**.
-/

import CobolJava.Lib.RoundedArithmetic
import CobolJava.Transformation.ExactLane

set_option autoImplicit false

namespace CobolJava.Transformation

open Decimal (truncate roundToPrecision)
open RoundedArithmetic

/-! ### Expressions that divide -/

/-- The expressions built from literals, items and table elements with `+`, `-`, `*`, `/` and unary
minus; the subscripts denote occurrences and are computed as `int`. -/
inductive DivisionExpression (program : CobolProgram) (state : JavaState) : JavaExpression → Prop
  | literal (negative : Bool) (unscaled places : ℕ) :
      DivisionExpression program state (numericJavaLiteral negative unscaled places)
  | reference {e : JavaExpression} {x : ℚ} (h : Arithmetic program e []) (href : IsReference e)
      (hx : denote program state e = some (.number x)) (hfits : Fits program state .exact e) :
      DivisionExpression program state e
  | binary {left right : JavaExpression} {operator : BinaryOperator}
      (hleft : DivisionExpression program state left)
      (hright : DivisionExpression program state right)
      (hoperator : operator = .add ∨ operator = .sub ∨ operator = .mul ∨ operator = .div) :
      DivisionExpression program state (.binaryOp left operator right)
  | negate {operand : JavaExpression} (h : DivisionExpression program state operand) :
      DivisionExpression program state (.unaryOp .neg operand)

/-- Some division has the divisor zero, with exact intermediate values. -/
def DividesByZero (program : CobolProgram) (state : JavaState) (raw : JavaExpression) : Prop :=
  ∃ divisor ∈ divisionDivisors raw, denote program state divisor = some (.number 0)

/-- The divisors that are tested, in the order of the tests. -/
def testedDivisors (raw : JavaExpression) : List JavaExpression :=
  (divisionDivisors raw).filter fun divisor => !isNonzeroLiteral divisor

/-- An integral expression that compiles: its literals are in the range of their types, and no minus
sign stands in front of a signed literal. -/
def compilesNatively : JavaExpression → Bool
  | .literal value _ => inRange value.longSuffix value.signedDigits
  | .binaryOp left _ right => compilesNatively left && compilesNatively right
  | .unaryOp _ operand => !isSignedLiteral operand && compilesNatively operand
  | _ => true

/-- The test of a divisor compiles. -/
def testCompiles (program : CobolProgram) (divisor : JavaExpression) : Bool :=
  requiresFractionalType program divisor || compilesNatively divisor

/-- **The test of the divisors is exact and safe**, and the statement does what it says. -/
structure GuardExact (program : CobolProgram) (state : JavaState) (raw : JavaExpression) : Prop where
  compiles : ∀ divisor ∈ testedDivisors raw, testCompiles program divisor = true
  /-- The test throws nothing and finds a divisor that is zero. -/
  test : ∀ test, zeroDivisorTest program raw = some test →
    ∃ b, evaluate false program state test = .ok (.boolean b) ∧
      (b = true ↔ DividesByZero program state raw)
  /-- Without a test no divisor is zero. -/
  untested : zeroDivisorTest program raw = none → ¬DividesByZero program state raw
  /-- A division by zero stores nothing. -/
  unchanged : DividesByZero program state raw → ∀ target rounded,
    execute false program state (emitArithmetic program target raw rounded) = .ok none
  /-- Otherwise the assignment is run. -/
  assigned : ¬DividesByZero program state raw → ∀ target rounded,
    execute false program state (emitArithmetic program target raw rounded) =
      execute false program state
        (.assignment target (applyNumericReceiverSemantics program raw target rounded))

/-! ### The arithmetic of a lane -/

def operationOf : BinaryOperator → Option Operation
  | .add => some .add
  | .sub => some .sub
  | .mul => some .mul
  | .div => some .div
  | _ => none

/-- The number a reference or a literal denotes. -/
def operandNumber (program : CobolProgram) (state : JavaState) (e : JavaExpression) : ℚ :=
  match denote program state e with
  | some (.number x) => x
  | _ => 0

/-- An arithmetic expression over the numbers of a state; an operation is labelled with the Java
type it has in native arithmetic, and `-x` is `0 - x`. -/
def arithmeticTree (program : CobolProgram) (state : JavaState) :
    JavaExpression → Expression ℚ Bool
  | .binaryOp left operator right =>
      match operationOf operator with
      | some operation =>
          .operation (nativeLong program none left || nativeLong program none right)
            (arithmeticTree program state left) operation (arithmeticTree program state right)
      | none => .number 0
  | .unaryOp _ operand =>
      .operation (nativeLong program none operand) (.number 0) .sub
        (arithmeticTree program state operand)
  | e => .number (operandNumber program state e)

/-- Native arithmetic: quotients are cut to whole numbers, results to the bits of their type. -/
def nativeRounding : Rounding ℚ Bool :=
  fun _ isLong x => wrapAround isLong (truncate x)

/-- `BigDecimal` arithmetic: quotients have 34 digits. -/
def decimalRounding : Rounding ℚ Bool :=
  fun operation _ x => if operation = .div then roundToPrecision decimal128 x else x

/-- The rounding of the lane in which a divisor is tested. -/
def divisorRounding (program : CobolProgram) (divisor : JavaExpression) : Rounding ℚ Bool :=
  if requiresFractionalType program divisor then decimalRounding else nativeRounding

/-- **The value of a divisor in the arithmetic of its lane**; none when it divides by something that
is zero there. -/
def laneValue (program : CobolProgram) (state : JavaState) (divisor : JavaExpression) : Option ℚ :=
  value (divisorRounding program divisor) (arithmeticTree program state divisor)

/-- The first tested divisor that is zero, or divides by zero, in the arithmetic of its lane. -/
def firstStop (program : CobolProgram) (state : JavaState) (raw : JavaExpression) :
    Option JavaExpression :=
  (testedDivisors raw).find? fun divisor =>
    laneValue program state divisor = none ∨ laneValue program state divisor = some 0

/-- **When the test is exact.** -/
structure StopsAtZero (program : CobolProgram) (state : JavaState) (raw : JavaExpression) : Prop where
  compiles : ∀ divisor ∈ testedDivisors raw, testCompiles program divisor = true
  /-- If some divisor is zero, then the first divisor that its lane makes zero, or that divides by
  something its lane makes zero, is made zero. -/
  zero : DividesByZero program state raw →
    ∃ divisor, firstStop program state raw = some divisor ∧ laneValue program state divisor = some 0
  /-- If no divisor is zero, no lane makes one zero. -/
  nonzero : ¬DividesByZero program state raw → firstStop program state raw = none

attribute [grind =] compilesNatively arithmeticTree

section Lanes

variable {program : CobolProgram} {state : JavaState}

/-! ### Exact values -/

theorem exactResult_eq_result {operator : BinaryOperator} {operation : Operation}
    (h : operationOf operator = some operation) (x y : ℚ) :
    exactResult operator x y = operation.result x y := by
  cases operator <;> cases h <;> rfl

theorem operationOf_of_operator {operator : BinaryOperator}
    (h : operator = .add ∨ operator = .sub ∨ operator = .mul ∨ operator = .div) :
    ∃ operation, operationOf operator = some operation := by
  rcases h with rfl | rfl | rfl | rfl
  · exact ⟨.add, rfl⟩
  · exact ⟨.sub, rfl⟩
  · exact ⟨.mul, rfl⟩
  · exact ⟨.div, rfl⟩

theorem arithmeticTree_reference {e : JavaExpression} {x : ℚ} (href : IsReference e)
    (hx : denote program state e = some (.number x)) :
    arithmeticTree program state e = .number x := by
  have hnumber : operandNumber program state e = x := by rw [operandNumber, hx]
  cases e with
  | variableRef name => simp only [arithmeticTree, hnumber]
  | arrayAccess array index => simp only [arithmeticTree, hnumber]
  | _ => cases href

theorem arithmeticTree_literal (l : NumericLiteral) (javaType : Option JavaBasicType) :
    arithmeticTree program state (.literal l javaType) = .number l.value := by
  simp only [arithmeticTree, operandNumber, denote]

/-- **The exact value of a tree** is the exact value of its expression. -/
theorem denote_eq_value {e : JavaExpression} (h : DivisionExpression program state e) :
    denote program state e =
      (value exactly (arithmeticTree program state e)).map CobolValue.number := by
  induction h with
  | literal negative unscaled places =>
      rw [numericJavaLiteral, arithmeticTree_literal]
      rfl
  | reference h href hx hfits => rw [arithmeticTree_reference href hx, hx]; rfl
  | @binary left right operator hleft hright hoperator ihleft ihright =>
      obtain ⟨operation, hoperation⟩ := operationOf_of_operator hoperator
      simp only [denote, arithmeticTree, hoperation, ihleft, ihright, value]
      cases hx : value exactly (arithmeticTree program state left) with
      | none => rfl
      | some x =>
          cases hy : value exactly (arithmeticTree program state right) with
          | none => rfl
          | some y =>
              simp only [Option.map_some, Option.bind_some, exactResult_eq_result hoperation]
              cases operation.result x y <;> rfl
  | @negate operand h ih =>
      simp only [denote, arithmeticTree, ih, value]
      cases hx : value exactly (arithmeticTree program state operand) with
      | none => rfl
      | some x => simp [Operation.result, exactly]

/-- A divisor of an expression is an expression. -/
theorem DivisionExpression.of_divisor {e divisor : JavaExpression}
    (h : DivisionExpression program state e) (hdivisor : divisor ∈ divisionDivisors e) :
    DivisionExpression program state divisor := by
  induction h with
  | literal negative unscaled places => cases hdivisor
  | @reference e x h href hx hfits =>
      cases e with
      | variableRef name => cases hdivisor
      | arrayAccess array index => cases hdivisor
      | _ => cases href
  | @binary left right operator hleft hright hoperator ihleft ihright =>
      rw [divisionDivisors, List.mem_append, List.mem_append] at hdivisor
      rcases hdivisor with (hroot | hdivisor) | hdivisor
      · by_cases hdiv : operator = .div
        · rw [if_pos hdiv, List.mem_singleton] at hroot
          exact hroot ▸ hright
        · simp [hdiv] at hroot
      · exact ihleft hdivisor
      · exact ihright hdivisor
  | negate h ih => exact ih hdivisor

/-! ### Native arithmetic -/

theorem wrapAround_of_inRange {isLong : Bool} {n : ℤ} (h : inRange isLong n) :
    wrapAround isLong n = n := by
  unfold wrapAround
  cases isLong with
  | true =>
      have hrange : javaLongMin ≤ n ∧ n ≤ javaLongMax := h
      unfold javaLongMin javaLongMax at hrange
      simp only [if_true]
      exact Int.bmod_eq_of_le (by norm_num; omega) (by norm_num; omega)
  | false =>
      have hrange : javaIntMin ≤ n ∧ n ≤ javaIntMax := h
      unfold javaIntMin javaIntMax at hrange
      simp only [Bool.false_eq_true, if_false]
      exact Int.bmod_eq_of_le (by norm_num; omega) (by norm_num; omega)

theorem wrapping_untrapped (isLong : Bool) (n : ℤ) :
    wrapping false isLong n = .ok (integral isLong (wrapAround isLong n)) := by
  unfold wrapping
  by_cases h : inRange isLong n
  · rw [if_pos h, wrapAround_of_inRange h]
  · rw [if_neg h]
    rfl

/-- A native operation yields the rounded result of whole numbers. -/
theorem applyBinary_eq_result {operator : BinaryOperator} {operation : Operation}
    (h : operationOf operator = some operation) (leftLong rightLong : Bool) (m n : ℤ) :
    applyBinary false operator (integral leftLong m) (integral rightLong n) =
      ((operation.result (m : ℚ) n).map
        (nativeRounding operation (leftLong || rightLong))).elim (.error .throws)
          fun x => .ok (integral (leftLong || rightLong) (truncate x)) := by
  cases operator with
  | add =>
      cases h
      simp only [applyBinary, promoted_integral, Operation.result, nativeRounding, ← Int.cast_add,
        Option.map_some, Option.elim_some, Decimal.truncate_intCast]
      exact wrapping_untrapped _ _
  | sub =>
      cases h
      simp only [applyBinary, promoted_integral, Operation.result, nativeRounding, ← Int.cast_sub,
        Option.map_some, Option.elim_some, Decimal.truncate_intCast]
      exact wrapping_untrapped _ _
  | mul =>
      cases h
      simp only [applyBinary, promoted_integral, Operation.result, nativeRounding, ← Int.cast_mul,
        Option.map_some, Option.elim_some, Decimal.truncate_intCast]
      exact wrapping_untrapped _ _
  | div =>
      cases h
      by_cases hn : n = 0
      · subst hn
        simp only [applyBinary, promoted_integral, Operation.result, Int.cast_zero, if_true]
        rfl
      · simp only [applyBinary, promoted_integral, Operation.result, nativeRounding,
          Int.cast_eq_zero, if_neg hn, Option.map_some, Option.elim_some, Decimal.truncate_div,
          Decimal.truncate_intCast]
        exact (if_neg hn).trans (wrapping_untrapped _ _)
  | mod | eq | or => cases h

/-- What a lane makes of an expression is a value of its type, or nothing when a division throws. -/
def outcome (typed : ℚ → JavaValue) (value : Option ℚ) : Except JavaFault JavaValue :=
  value.elim (.error .throws) fun x => .ok (typed x)

/-- A reference to a whole item is read as the integral value it denotes. -/
theorem evaluate_reference_whole {e : JavaExpression} {x : ℚ} (hstate : WithinPictures program state)
    (h : Arithmetic program e []) (href : IsReference e)
    (hx : denote program state e = some (.number x)) (hfits : Fits program state .exact e)
    (hwhole : requiresFractionalType program e = false) :
    evaluate false program state e = .ok (integral (nativeLong program none e) (truncate x)) := by
  obtain ⟨n, rfl, hn⟩ := (evaluate_arithmetic hstate h).2 rfl hwhole x hx
  rw [Decimal.truncate_intCast]
  refine evaluate_of_trapped ((hn none _).2 ⟨?_, rfl⟩)
  -- the range of a field follows from its `PICTURE`
  cases e with
  | variableRef name =>
      obtain ⟨item, indices, hitem, hselected, hlength⟩ := denote_reference h href hx
      have hitem' : NumericItem program name item := hitem
      simp only [Fits, Lane.InRange, guardDigits, Option.map_none]
      intro y hy
      obtain rfl := CobolValue.number.inj (Option.some.inj (hx.symm.trans hy))
      have hplaces : item.decimalPlaces = 0 := by
        rw [requiresFractionalType_reference href hitem.found] at hwhole
        simpa using hwhole
      have hcontents : n = state name indices := by
        unfold selected at hselected
        rw [if_pos (by simpa using hlength)] at hselected
        have hvalue := CobolValue.number.inj hselected
        rw [contents, hplaces, pow_zero, div_one] at hvalue
        exact_mod_cast hvalue
      have hbound := (hstate name item hitem'.found hitem'.numeric indices).1.le
      simp only [nativeLong, hitem'.found, Decimal.truncate_intCast, hcontents]
      simpa using inRange_of_picLength hitem'.digits hbound
  | arrayAccess array index => exact hfits
  | _ => cases href

/-- Native values are whole. -/
theorem native_integral {e : JavaExpression} (h : DivisionExpression program state e)
    (hwhole : requiresFractionalType program e = false) {x : ℚ}
    (hx : value nativeRounding (arithmeticTree program state e) = some x) : ∃ n : ℤ, x = n := by
  cases h with
  | literal negative unscaled places =>
      obtain rfl := numericJavaLiteral_places hwhole
      rw [numericJavaLiteral, arithmeticTree_literal, value, Option.some.injEq] at hx
      exact ⟨_, hx.symm.trans (NumericLiteral.value_of_places_eq_zero rfl)⟩
  | reference h href hy hfits =>
      rw [arithmeticTree_reference href hy, value, Option.some.injEq] at hx
      exact denote_integral h hwhole (hx ▸ hy)
  | @binary left right operator hleft hright hoperator =>
      obtain ⟨operation, hoperation⟩ := operationOf_of_operator hoperator
      simp only [arithmeticTree, hoperation, value, Option.bind_eq_some_iff,
        Option.map_eq_some_iff] at hx
      obtain ⟨-, -, -, -, z, -, rfl⟩ := hx
      exact ⟨_, rfl⟩
  | negate h =>
      simp only [arithmeticTree, value, Option.bind_eq_some_iff, Option.map_eq_some_iff] at hx
      obtain ⟨-, -, -, -, z, -, rfl⟩ := hx
      exact ⟨_, rfl⟩

/-- **The native lane** as a rounding. -/
theorem evaluate_nativeLane {e : JavaExpression} (hstate : WithinPictures program state)
    (h : DivisionExpression program state e) (hwhole : requiresFractionalType program e = false)
    (hcompiles : compilesNatively e = true) :
    evaluate false program state e =
      outcome (fun x => integral (nativeLong program none e) (truncate x))
        (value nativeRounding (arithmeticTree program state e)) := by
  induction h with
  | literal negative unscaled places =>
      obtain rfl := numericJavaLiteral_places hwhole
      rw [numericJavaLiteral, arithmeticTree_literal, value,
        NumericLiteral.value_of_places_eq_zero rfl]
      have hrange : inRange (javaIntegralSuffix negative unscaled 0)
          (NumericLiteral.signedDigits ⟨negative, unscaled, 0, javaIntegralSuffix negative unscaled 0⟩) :=
        of_decide_eq_true hcompiles
      have hdecimal : numericLiteralJavaType negative unscaled 0 ≠ .decimal := by
        unfold numericLiteralJavaType
        split_ifs <;> simp_all
      simp only [evaluate, literalValue]
      rw [if_neg (by simpa using hdecimal), if_pos (by simp [hrange])]
      simp [outcome, nativeLong]
  | reference h href hx hfits =>
      rw [evaluate_reference_whole hstate h href hx hfits hwhole, arithmeticTree_reference href hx]
      rfl
  | @binary left right operator hleft hright hoperator ihleft ihright =>
      obtain ⟨operation, hoperation⟩ := operationOf_of_operator hoperator
      have hwhole' := hwhole
      rw [requiresFractionalType, Bool.or_eq_false_iff] at hwhole'
      rw [compilesNatively, Bool.and_eq_true] at hcompiles
      have hl := ihleft hwhole'.1 hcompiles.1
      have hr := ihright hwhole'.2 hcompiles.2
      simp only [evaluate, arithmeticTree, hoperation, value]
      cases hx : value nativeRounding (arithmeticTree program state left) with
      | none =>
          rw [hx] at hl
          rw [hl]
          rfl
      | some x =>
          rw [hx] at hl
          rw [hl]
          obtain ⟨m, rfl⟩ := native_integral hleft hwhole'.1 hx
          have hor : ¬(operator = .or ∧ (integral (nativeLong program none left) m) = .boolean true) := by
            rintro ⟨rfl, -⟩
            cases hoperation
          cases hy : value nativeRounding (arithmeticTree program state right) with
          | none =>
              rw [hy] at hr
              rw [hr]
              simp only [outcome, Option.elim_some, Option.elim_none, Decimal.truncate_intCast]
              exact if_neg hor
          | some y =>
              rw [hy] at hr
              rw [hr]
              obtain ⟨n, rfl⟩ := native_integral hright hwhole'.2 hy
              simp only [outcome, Option.elim_some, Decimal.truncate_intCast, Option.bind_some]
              refine (if_neg hor).trans ?_
              exact applyBinary_eq_result hoperation _ _ m n
  | @negate operand h ih =>
      have hwhole' : requiresFractionalType program operand = false := hwhole
      rw [compilesNatively, Bool.and_eq_true, Bool.not_eq_true'] at hcompiles
      have ho := ih hwhole' hcompiles.2
      simp only [evaluate, arithmeticTree, value, true_and]
      rw [if_neg (by simp [hcompiles.1])]
      cases hx : value nativeRounding (arithmeticTree program state operand) with
      | none =>
          rw [hx] at ho
          rw [ho]
          rfl
      | some x =>
          rw [hx] at ho
          rw [ho]
          obtain ⟨n, rfl⟩ := native_integral h hwhole' hx
          simp only [outcome, Option.elim_some, Decimal.truncate_intCast, Option.bind_some,
            Operation.result, zero_sub, ← Int.cast_neg, nativeRounding, Option.map_some, nativeLong]
          cases nativeLong program none operand with
          | true => exact wrapping_untrapped true (-n)
          | false => exact wrapping_untrapped false (-n)

/-! ### `BigDecimal` arithmetic -/

/-- A promoted operation yields the rounded result. -/
theorem evaluate_promoted_binaryOp {left right : JavaExpression} {operator : BinaryOperator}
    {operation : Operation} (h : operationOf operator = some operation) {label : Bool}
    {x y : Option ℚ}
    (hleft : evaluate false program state (promoteToDecimal program left) = outcome .decimal x)
    (hright : evaluate false program state (promoteToDecimal program right) = outcome .decimal y) :
    evaluate false program state (promoteToDecimal program (.binaryOp left operator right)) =
      outcome .decimal (x.bind fun x => y.bind fun y =>
        (operation.result x y).map (decimalRounding operation label)) := by
  have hmethod : ∃ method, promoteToDecimal program (.binaryOp left operator right) =
      .decimalOperation (promoteToDecimal program left) method (promoteToDecimal program right) ∧
      ∀ x y : ℚ, applyDecimalOperation method (.decimal x) (.decimal y) =
        outcome .decimal ((operation.result x y).map (decimalRounding operation label)) := by
    cases operator with
    | add | sub | mul =>
        cases h
        exact ⟨_, rfl, fun x y => rfl⟩
    | div =>
        cases h
        refine ⟨_, rfl, ?_⟩
        intro x y
        by_cases hy : y = 0
        · simp [applyDecimalOperation, Operation.result, outcome, hy]
        · simp [applyDecimalOperation, Operation.result, outcome, decimalRounding, hy]
    | mod | eq | or => cases h
  obtain ⟨method, hpromote, hresult⟩ := hmethod
  rw [hpromote]
  simp only [evaluate, hleft, hright]
  cases x with
  | none => rfl
  | some x =>
      cases y with
      | none => rfl
      | some y => exact hresult x y

/-- **The `BigDecimal` lane** as a rounding. -/
theorem evaluate_decimalLane {e : JavaExpression} (hstate : WithinPictures program state)
    (h : DivisionExpression program state e) :
    evaluate false program state (promoteToDecimal program e) =
      outcome .decimal (value decimalRounding (arithmeticTree program state e)) := by
  induction h with
  | literal negative unscaled places =>
      rw [numericJavaLiteral, arithmeticTree_literal, value]
      exact evaluate_of_trapped ((evaluatesExactly_literal negative unscaled places _ rfl _).2
        ⟨by simp [Fits, numericJavaLiteral, Lane.InRange], rfl⟩)
  | reference h href hx hfits =>
      rw [arithmeticTree_reference href hx, value]
      exact evaluate_of_trapped
        ((evaluatesExactly_reference hstate h href _ hx _).2 ⟨hfits, rfl⟩)
  | @binary left right operator hleft hright hoperator ihleft ihright =>
      obtain ⟨operation, hoperation⟩ := operationOf_of_operator hoperator
      simp only [arithmeticTree, hoperation, value]
      exact evaluate_promoted_binaryOp hoperation ihleft ihright
  | @negate operand h ih =>
      simp only [promoteToDecimal, if_true, evaluate, ih, arithmeticTree, value, Option.bind_some]
      cases value decimalRounding (arithmeticTree program state operand) with
      | none => rfl
      | some x =>
          simp only [outcome, Operation.result, decimalRounding, zero_sub, Option.map_some,
            Option.elim_some]
          rfl

/-! ### The tests -/

theorem evaluate_eq_zeroLiteral {e : JavaExpression} {isLong : Bool} {n : ℤ}
    (h : evaluate false program state e = .ok (integral isLong n)) :
    evaluate false program state (.binaryOp e .eq zeroLiteral) = .ok (.boolean (decide (n = 0))) := by
  have hzero : evaluate false program state zeroLiteral = .ok (integral false 0) := rfl
  simp only [evaluate, h, hzero]
  change applyBinary false .eq (integral isLong n) (integral false 0) = _
  simp only [applyBinary, promoted_integral]
  rfl

/-- **The test of one divisor** compares the value of its lane with zero. -/
theorem evaluate_test {divisor : JavaExpression} (hstate : WithinPictures program state)
    (h : DivisionExpression program state divisor) (hcompiles : testCompiles program divisor = true) :
    evaluate false program state (divisorIsZero program divisor) =
      outcome (fun x => .boolean (decide (x = 0))) (laneValue program state divisor) := by
  unfold divisorIsZero laneValue divisorRounding
  by_cases hfractional : requiresFractionalType program divisor = true
  · rw [if_pos hfractional, if_pos hfractional]
    have hdivisor := evaluate_decimalLane hstate h
    cases hx : value decimalRounding (arithmeticTree program state divisor) with
    | none =>
        rw [hx] at hdivisor
        simp only [evaluate, hdivisor]
        rfl
    | some x =>
        rw [hx] at hdivisor
        have hsignum : evaluate false program state
            (.decimalMethod (promoteToDecimal program divisor) .signum) =
              .ok (integral false x.num.sign) := by
          simp only [evaluate, hdivisor]
          rfl
        rw [evaluate_eq_zeroLiteral hsignum]
        simp [outcome, Int.sign_eq_zero_iff_zero]
  · have hwhole : requiresFractionalType program divisor = false := by simpa using hfractional
    rw [if_neg hfractional, if_neg hfractional]
    have hdivisor := evaluate_nativeLane hstate h hwhole (by simpa [testCompiles, hwhole] using hcompiles)
    cases hx : value nativeRounding (arithmeticTree program state divisor) with
    | none =>
        rw [hx] at hdivisor
        simp only [evaluate, hdivisor]
        rfl
    | some x =>
        obtain ⟨n, rfl⟩ := native_integral h hwhole hx
        rw [hx] at hdivisor
        simp only [outcome, Option.elim_some, Decimal.truncate_intCast] at hdivisor
        rw [evaluate_eq_zeroLiteral hdivisor]
        simp [outcome]

/-- What the tests of some divisors come to: they end at the first divisor that its lane makes zero
or cannot divide. -/
def testsOutcome (program : CobolProgram) (state : JavaState) (ds : List JavaExpression) :
    Except JavaFault JavaValue :=
  match ds.find? fun d => laneValue program state d = none ∨ laneValue program state d = some 0 with
  | none => .ok (.boolean false)
  | some d => outcome (fun _ => .boolean true) (laneValue program state d)

theorem evaluate_tests_of_stopped {c : JavaExpression} (tests : List JavaExpression)
    (h : evaluate false program state c = .ok (.boolean true) ∨
      ∃ fault, evaluate false program state c = .error fault) :
    evaluate false program state
        (tests.foldl (fun combined test => .binaryOp combined .or test) c) =
      evaluate false program state c := by
  induction tests generalizing c with
  | nil => rfl
  | cons test tests ih =>
      rw [List.foldl_cons]
      have hstop : evaluate false program state (.binaryOp c .or test) =
          evaluate false program state c := by
        rcases h with h | ⟨fault, h⟩
        · simp only [evaluate, h]
          rfl
        · simp only [evaluate, h]
          rfl
      rw [ih (by rwa [hstop]), hstop]

/-- The tests from one divisor on. -/
theorem evaluate_tests {c d : JavaExpression} {ds : List JavaExpression}
    (hstate : WithinPictures program state)
    (hds : ∀ d' ∈ d :: ds, DivisionExpression program state d' ∧ testCompiles program d' = true)
    (h : evaluate false program state c = evaluate false program state (divisorIsZero program d)) :
    evaluate false program state
        ((ds.map (divisorIsZero program)).foldl (fun combined test => .binaryOp combined .or test) c) =
      testsOutcome program state (d :: ds) := by
  induction ds generalizing c d with
  | nil =>
      obtain ⟨hd, hcompiles⟩ := hds d (List.mem_cons_self ..)
      rw [List.map_nil, List.foldl_nil, h, evaluate_test hstate hd hcompiles]
      cases hx : laneValue program state d with
      | none => simp [testsOutcome, hx, outcome]
      | some x => by_cases hzero : x = 0 <;> simp [testsOutcome, hx, outcome, hzero]
  | cons d' ds ih =>
      obtain ⟨hd, hcompiles⟩ := hds d (List.mem_cons_self ..)
      rw [evaluate_test hstate hd hcompiles] at h
      rw [List.map_cons, List.foldl_cons, ← List.foldl_cons]
      cases hx : laneValue program state d with
      | none =>
          rw [hx] at h
          rw [evaluate_tests_of_stopped _ (.inr ⟨.throws, h⟩), h]
          simp [testsOutcome, hx, outcome]
      | some x =>
          rw [hx] at h
          by_cases hzero : x = 0
          · subst hzero
            rw [evaluate_tests_of_stopped _ (.inl h), h]
            simp [testsOutcome, hx, outcome]
          · -- a test joined to one that is false is the test
            have hfalse : evaluate false program state c = .ok (.boolean false) := by
              rw [h]
              simp [outcome, hzero]
            obtain ⟨hd', hcompiles'⟩ := hds d' (by simp)
            have hjoined : evaluate false program state (.binaryOp c .or (divisorIsZero program d')) =
                evaluate false program state (divisorIsZero program d') := by
              have htest := evaluate_test hstate hd' hcompiles'
              rw [htest]
              simp only [evaluate, hfalse, htest]
              cases laneValue program state d' <;> rfl
            rw [List.foldl_cons, ih (fun e he => hds e (List.mem_cons_of_mem _ he)) hjoined]
            simp [testsOutcome, List.find?_cons_of_neg, hx, hzero]

/-- **The test of the divisors** comes to what the single tests come to. -/
theorem evaluate_zeroDivisorTest {raw test : JavaExpression} (hstate : WithinPictures program state)
    (h : DivisionExpression program state raw)
    (hcompiles : ∀ divisor ∈ testedDivisors raw, testCompiles program divisor = true)
    (htest : zeroDivisorTest program raw = some test) :
    evaluate false program state test = testsOutcome program state (testedDivisors raw) := by
  have hds : ∀ d ∈ testedDivisors raw,
      DivisionExpression program state d ∧ testCompiles program d = true :=
    fun d hd => ⟨h.of_divisor (List.mem_of_mem_filter hd), hcompiles d hd⟩
  rw [zeroDivisorTest, ← testedDivisors] at htest
  cases hlist : testedDivisors raw with
  | nil => simp [hlist] at htest
  | cons d ds =>
      rw [hlist] at htest hds
      obtain rfl := Option.some.inj htest
      exact evaluate_tests hstate hds rfl

theorem zeroDivisorTest_eq_none_iff {raw : JavaExpression} :
    zeroDivisorTest program raw = none ↔ testedDivisors raw = [] := by
  rw [zeroDivisorTest, ← testedDivisors]
  cases testedDivisors raw <;> simp

theorem denote_nonzeroLiteral {divisor : JavaExpression} (h : isNonzeroLiteral divisor = true) :
    denote program state divisor ≠ some (.number 0) := by
  cases divisor with
  | literal l javaType =>
      simp only [isNonzeroLiteral, NumericLiteral.floatNonzero, decide_eq_true_eq] at h
      have hunscaled : l.unscaled ≠ 0 := (Nat.pos_of_mul_pos_right (Nat.zero_lt_of_lt h)).ne'
      have hsigned : l.signedDigits ≠ 0 := by
        unfold NumericLiteral.signedDigits
        split_ifs <;> omega
      simp [denote, NumericLiteral.value, hsigned]
  | _ => cases h

theorem DividesByZero.tested {raw : JavaExpression} (h : DividesByZero program state raw) :
    ∃ divisor ∈ testedDivisors raw, denote program state divisor = some (.number 0) := by
  obtain ⟨divisor, hmem, hzero⟩ := h
  refine ⟨divisor, List.mem_filter.2 ⟨hmem, ?_⟩, hzero⟩
  cases hliteral : isNonzeroLiteral divisor with
  | true => exact absurd hzero (denote_nonzeroLiteral hliteral)
  | false => rfl

theorem execute_guarded {test : JavaExpression} {body : JavaStatement} {b : Bool}
    (h : evaluate false program state test = .ok (.boolean b)) :
    execute false program state (.ifThen (.unaryOp .not test) body) =
      if b then .ok none else execute false program state body := by
  have hnot : evaluate false program state (.unaryOp .not test) = .ok (.boolean !b) := by
    simp only [evaluate, h]
    rfl
  simp only [execute, hnot]
  cases b <;> rfl

/-- The statement is right when its test is. -/
theorem GuardExact.of_test {raw : JavaExpression}
    (hcompiles : ∀ divisor ∈ testedDivisors raw, testCompiles program divisor = true)
    (htest : ∀ test, zeroDivisorTest program raw = some test →
      ∃ b, evaluate false program state test = .ok (.boolean b) ∧
        (b = true ↔ DividesByZero program state raw)) :
    GuardExact program state raw := by
  have huntested : zeroDivisorTest program raw = none → ¬DividesByZero program state raw := by
    intro hnone hzero
    obtain ⟨divisor, hmem, -⟩ := hzero.tested
    rw [zeroDivisorTest_eq_none_iff.1 hnone] at hmem
    cases hmem
  refine ⟨hcompiles, htest, huntested, ?_, ?_⟩
  · intro hzero target rounded
    unfold emitArithmetic
    cases hguard : zeroDivisorTest program raw with
    | none => exact absurd hzero (huntested hguard)
    | some test =>
        obtain ⟨b, hb, hiff⟩ := htest test hguard
        exact (execute_guarded hb).trans (if_pos (hiff.2 hzero))
  · intro hnonzero target rounded
    unfold emitArithmetic
    cases hguard : zeroDivisorTest program raw with
    | none => rfl
    | some test =>
        obtain ⟨b, hb, hiff⟩ := htest test hguard
        exact (execute_guarded hb).trans (if_neg (mt hiff.1 hnonzero))

theorem testsOutcome_eq_true_iff {raw : JavaExpression} :
    testsOutcome program state (testedDivisors raw) = .ok (.boolean true) ↔
      ∃ divisor, firstStop program state raw = some divisor ∧
        laneValue program state divisor = some 0 := by
  change (match firstStop program state raw with | none => _ | some d => _) = _ ↔ _
  cases hstop : firstStop program state raw with
  | none => simp
  | some d =>
      have hd := List.find?_some hstop
      rw [decide_eq_true_eq] at hd
      rcases hd with hnone | hzero
      · simp [hnone, outcome]
      · simp [hzero, outcome]

theorem testsOutcome_eq_false_iff {raw : JavaExpression} :
    testsOutcome program state (testedDivisors raw) = .ok (.boolean false) ↔
      firstStop program state raw = none := by
  change (match firstStop program state raw with | none => _ | some d => _) = _ ↔ _
  cases hstop : firstStop program state raw with
  | none => simp
  | some d => cases hlane : laneValue program state d <;> simp [hlane, outcome]

theorem divisionDivisors_of_undivided {e : JavaExpression} (h : containsDivision e = false) :
    divisionDivisors e = [] := by
  induction e with
  | binaryOp left operator right ihleft ihright =>
      simp only [containsDivision, Bool.or_eq_false_iff, decide_eq_false_iff_not] at h
      rw [divisionDivisors, if_neg h.1.1, ihleft h.1.2, ihright h.2]
      rfl
  | unaryOp operator operand ih => exact ih h
  | _ => rfl

end Lanes

/-! ### A quotient as a divisor -/

namespace QuotientSample

/-- `01 name PIC 9(4).` -/
def item (name : String) : DataItem :=
  ⟨name, .numeric, 4, 0, false, [], false⟩

def program : CobolProgram :=
  ⟨[item "WS-A", item "WS-B", item "WS-C"], [], []⟩

/-- `WS-A` holds 7. -/
def state (b c : ℤ) : JavaState :=
  fun name _ => if name = "WS_A" then 7 else if name = "WS_B" then b else if name = "WS_C" then c else 0

/-- `WS-A / (WS-B / WS-C)` -/
def raw : JavaExpression :=
  .binaryOp (.variableRef "WS_A") .div
    (.binaryOp (.variableRef "WS_B") .div (.variableRef "WS_C"))

/-- `(WS_B / WS_C) == 0 || WS_C == 0` -/
def test : JavaExpression :=
  .binaryOp
    (.binaryOp (.binaryOp (.variableRef "WS_B") .div (.variableRef "WS_C")) .eq zeroLiteral) .or
    (.binaryOp (.variableRef "WS_C") .eq zeroLiteral)

theorem item_found {name : String} (h : name = "WS_A" ∨ name = "WS_B" ∨ name = "WS_C") :
    ∃ item, NumericItem program name item ∧ item.dimensions = [] ∧ item.decimalPlaces = 0 := by
  rcases h with rfl | rfl | rfl
  · exact ⟨item "WS-A", ⟨by decide, by decide, rfl, rfl, by decide⟩, rfl, rfl⟩
  · exact ⟨item "WS-B", ⟨by decide, by decide, rfl, rfl, by decide⟩, rfl, rfl⟩
  · exact ⟨item "WS-C", ⟨by decide, by decide, rfl, rfl, by decide⟩, rfl, rfl⟩

theorem denote_item {name : String} (h : name = "WS_A" ∨ name = "WS_B" ∨ name = "WS_C")
    (state : JavaState) :
    denote program state (.variableRef name) = some (.number (state name [])) := by
  obtain ⟨item, hitem, hdimensions, hplaces⟩ := item_found h
  simp [denote, hitem.found, selected, hdimensions, contents, hplaces]

theorem pictures {b c : ℤ} (hb : 0 ≤ b ∧ b < 10 ^ 4) (hc : 0 ≤ c ∧ c < 10 ^ 4) :
    WithinPictures program (state b c) := by
  intro name item' hitem _ indices
  have hmem : item' ∈ [item "WS-A", item "WS-B", item "WS-C"] := List.mem_of_find?_eq_some hitem
  have hlength : item'.picLength = 4 := by
    rcases List.mem_cons.1 hmem with rfl | hmem
    · rfl
    · rcases List.mem_cons.1 hmem with rfl | hmem
      · rfl
      · obtain rfl := List.mem_singleton.1 hmem
        rfl
  have hnumber : 0 ≤ state b c name indices ∧ state b c name indices < 10 ^ 4 := by
    unfold state
    split_ifs <;> omega
  refine ⟨?_, fun _ => hnumber.1⟩
  rw [hlength, abs_of_nonneg hnumber.1]
  exact hnumber.2

theorem divisionExpression (state : JavaState) : DivisionExpression program state raw := by
  have hreference : ∀ {name}, name = "WS_A" ∨ name = "WS_B" ∨ name = "WS_C" →
      DivisionExpression program state (.variableRef name) := by
    intro name h
    obtain ⟨item, hitem, hdimensions, -⟩ := item_found h
    exact .reference (.item hitem hdimensions) trivial (denote_item h state) trivial
  exact .binary (hreference (.inl rfl))
    (.binary (hreference (.inr (.inl rfl))) (hreference (.inr (.inr rfl))) (by simp)) (by simp)

/-- The inner divisor is zero, or the quotient is. -/
theorem dividesByZero_iff_sample (b c : ℤ) :
    DividesByZero program (state b c) raw ↔ b = 0 ∨ c = 0 := by
  have hb := denote_item (.inr (.inl rfl)) (state b c)
  have hc := denote_item (.inr (.inr rfl)) (state b c)
  have hstate : state b c "WS_B" [] = b ∧ state b c "WS_C" [] = c := ⟨rfl, rfl⟩
  rw [hstate.1] at hb
  rw [hstate.2] at hc
  have hdivisors : divisionDivisors raw =
      [.binaryOp (.variableRef "WS_B") .div (.variableRef "WS_C"), .variableRef "WS_C"] := rfl
  have hquotient : denote program (state b c)
      (.binaryOp (.variableRef "WS_B") .div (.variableRef "WS_C")) =
        if c = 0 then none else some (.number ((b : ℚ) / c)) := by
    rw [denote, hb, hc]
    simp only [exactResult, Int.cast_eq_zero]
    split_ifs <;> rfl
  simp only [DividesByZero, hdivisors, List.mem_cons, List.not_mem_nil, or_false, exists_eq_or_imp,
    exists_eq_left, hquotient, hc, Option.some.injEq, CobolValue.number.injEq, Int.cast_eq_zero]
  by_cases hzero : c = 0
  · simp [hzero]
  · simp [hzero]

theorem not_guardExact_throws : ¬GuardExact program (state 4 0) raw := by
  intro h
  have hthrows : evaluate false program (state 4 0) test = .error .throws := by decide
  obtain ⟨b, hb, -⟩ := h.test test rfl
  cases hthrows.symm.trans hb

theorem not_guardExact_cut : ¬GuardExact program (state 1 2) raw := by
  intro h
  have hcut : evaluate false program (state 1 2) test = .ok (.boolean true) := by decide
  obtain ⟨b, hb, hiff⟩ := h.test test rfl
  obtain rfl := JavaValue.boolean.inj (Except.ok.inj (hcut.symm.trans hb))
  have hzero := (dividesByZero_iff_sample 1 2).1 (hiff.1 rfl)
  omega

end QuotientSample

end CobolJava.Transformation
