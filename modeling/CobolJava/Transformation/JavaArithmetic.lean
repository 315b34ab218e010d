/-
**Java arithmetic.**

Evaluation of the lowered expressions as Java evaluates them: `int` and `long` arithmetic in two's
complement with binary numeric promotion, the `Math.*Exact` methods, `BigDecimal` by its numeric
value, and the checks of the compiler on operand and assignment types.  An evaluation can also be
run with overflow trapped, which tells whether an `int` or `long` operation wraps.

Main definitions:

* `JavaValue`, `JavaFault`, `JavaState` — values, what ends an evaluation without one, and states;
* `evaluate`, `execute` — an expression, and a statement.

Main results:

* `evaluate_of_trapped` — **a trapped evaluation that succeeds is the Java evaluation**;
* `execute_of_trapped` — so is a trapped run.
-/

import CobolJava.Lib.PyExc
import CobolJava.Transformation.NumericReceiver

set_option autoImplicit false

namespace CobolJava.Transformation

open Decimal (setScale remainder roundToPrecision)

/-- A Java value; a table whose subscripts are not all given yet is the part of it selected so
far. -/
inductive JavaValue
  | int (n : ℤ)
  | long (n : ℤ)
  | decimal (x : ℚ)
  | boolean (b : Bool)
  | array (name : String) (indices : List ℤ)
  deriving DecidableEq, Repr

/-- Why a statement stores nothing. -/
inductive JavaFault
  | doesNotCompile
  | throws
  /-- An `int` or `long` operation leaves its range while overflow is trapped. -/
  | wraps
  deriving DecidableEq, Repr

/-- The unscaled contents of every field and table element. -/
abbrev JavaState := String → List ℤ → ℤ

/-! ### Integral arithmetic -/

/-- The range of `int` (`false`) or `long` (`true`). -/
def inRange (isLong : Bool) (n : ℤ) : Prop :=
  if isLong then javaLongMin ≤ n ∧ n ≤ javaLongMax else javaIntMin ≤ n ∧ n ≤ javaIntMax

instance (isLong : Bool) (n : ℤ) : Decidable (inRange isLong n) := by
  unfold inRange
  infer_instance

/-- A value of type `int` or `long`. -/
def integral (isLong : Bool) (n : ℤ) : JavaValue :=
  if isLong then .long n else .int n

/-- The type and the number of an integral value. -/
def asIntegral : JavaValue → Option (Bool × ℤ)
  | .int n => some (false, n)
  | .long n => some (true, n)
  | _ => none

/-- The low-order bits of an exact result. -/
def wrapAround (isLong : Bool) (n : ℤ) : ℤ :=
  n.bmod (if isLong then 2 ^ 64 else 2 ^ 32)

/-- The result of an operation that wraps. -/
def wrapping (trap isLong : Bool) (n : ℤ) : Except JavaFault JavaValue :=
  if inRange isLong n then .ok (integral isLong n)
  else if trap then .error .wraps
  else .ok (integral isLong (wrapAround isLong n))

/-- The result of a `Math.*Exact` operation. -/
def checked (isLong : Bool) (n : ℤ) : Except JavaFault JavaValue :=
  if inRange isLong n then .ok (integral isLong n) else .error .throws

theorem asIntegral_integral (isLong : Bool) (n : ℤ) :
    asIntegral (integral isLong n) = some (isLong, n) := by
  cases isLong <;> rfl

theorem wrapping_trapped_eq_ok {isLong : Bool} {n : ℤ} {v : JavaValue} :
    wrapping true isLong n = .ok v ↔ inRange isLong n ∧ v = integral isLong n := by
  unfold wrapping
  by_cases h : inRange isLong n
  · rw [if_pos h]
    exact ⟨fun hv => ⟨h, (Except.ok.inj hv).symm⟩, fun hv => by rw [hv.2]⟩
  · simp [h]

theorem checked_eq_ok {isLong : Bool} {n : ℤ} {v : JavaValue} :
    checked isLong n = .ok v ↔ inRange isLong n ∧ v = integral isLong n := by
  unfold checked
  by_cases h : inRange isLong n
  · rw [if_pos h]
    exact ⟨fun hv => ⟨h, (Except.ok.inj hv).symm⟩, fun hv => by rw [hv.2]⟩
  · simp [h]

theorem wrapping_of_trapped {trap isLong : Bool} {n : ℤ} {v : JavaValue}
    (h : wrapping true isLong n = .ok v) : wrapping trap isLong n = .ok v := by
  obtain ⟨hrange, rfl⟩ := wrapping_trapped_eq_ok.1 h
  rw [wrapping, if_pos hrange]

/-- Binary numeric promotion: both operands in the wider of their types. -/
def promoted (left right : JavaValue) : Except JavaFault (Bool × ℤ × ℤ) :=
  match asIntegral left, asIntegral right with
  | some (leftLong, m), some (rightLong, n) => .ok (leftLong || rightLong, m, n)
  | _, _ => .error .doesNotCompile

@[simp] theorem promoted_integral (leftLong rightLong : Bool) (m n : ℤ) :
    promoted (integral leftLong m) (integral rightLong n) = .ok (leftLong || rightLong, m, n) := by
  simp only [promoted, asIntegral_integral]

/-- A binary operator on evaluated operands. -/
def applyBinary (trap : Bool) (operator : BinaryOperator) (left right : JavaValue) :
    Except JavaFault JavaValue :=
  match operator with
  | .add => do let (isLong, m, n) ← promoted left right; wrapping trap isLong (m + n)
  | .sub => do let (isLong, m, n) ← promoted left right; wrapping trap isLong (m - n)
  | .mul => do let (isLong, m, n) ← promoted left right; wrapping trap isLong (m * n)
  | .div => do
      let (isLong, m, n) ← promoted left right
      if n = 0 then .error .throws else wrapping trap isLong (m.tdiv n)
  | .mod => do
      let (isLong, m, n) ← promoted left right
      if n = 0 then .error .throws else .ok (integral isLong (m.tmod n))
  | .eq => do let (_, m, n) ← promoted left right; .ok (.boolean (m = n))
  | .or =>
      match left, right with
      | .boolean b, .boolean c => .ok (.boolean (b || c))
      | _, _ => .error .doesNotCompile

/-- A unary operator on an evaluated operand. -/
def applyUnary (trap : Bool) (operator : UnaryOperator) (operand : JavaValue) :
    Except JavaFault JavaValue :=
  match operator, operand with
  | .neg, .int n => wrapping trap false (-n)
  | .neg, .long n => wrapping trap true (-n)
  | .plus, .int n => .ok (.int n)
  | .plus, .long n => .ok (.long n)
  | .not, .boolean b => .ok (.boolean !b)
  | _, _ => .error .doesNotCompile

/-- `Math.addExact` and the like, at the overload of the promoted operands. -/
def applyExact (method : ExactMethod) (left right : JavaValue) : Except JavaFault JavaValue := do
  let (isLong, m, n) ← promoted left right
  match method with
  | .addExact => checked isLong (m + n)
  | .subtractExact => checked isLong (m - n)
  | .multiplyExact => checked isLong (m * n)

/-- The static methods of one argument. -/
def applyStatic (trap : Bool) (method : StaticMethod) (argument : JavaValue) :
    Except JavaFault JavaValue :=
  match asIntegral argument with
  | none => .error .doesNotCompile
  | some (isLong, n) =>
      match method with
      | .valueOf => .ok (.decimal n)
      | .toIntExact => checked false n
      | .negateExact => checked isLong (-n)
      | .abs => wrapping trap isLong |n|

theorem applyBinary_of_trapped {trap : Bool} {operator : BinaryOperator} {left right v : JavaValue}
    (h : applyBinary true operator left right = .ok v) :
    applyBinary trap operator left right = .ok v := by
  cases operator with
  | add | sub | mul =>
      obtain ⟨operands, hoperands, happly⟩ := Py.bind_ok h
      simp only [applyBinary, hoperands]
      exact wrapping_of_trapped happly
  | div =>
      obtain ⟨⟨isLong, m, n⟩, hoperands, happly⟩ := Py.bind_ok h
      simp only [applyBinary, hoperands]
      simp only at happly
      by_cases hn : n = 0
      · rw [if_pos hn] at happly
        cases happly
      · rw [if_neg hn] at happly
        exact (if_neg hn).trans (wrapping_of_trapped happly)
  | mod | eq | or => exact h

theorem applyUnary_of_trapped {trap : Bool} {operator : UnaryOperator} {operand v : JavaValue}
    (h : applyUnary true operator operand = .ok v) : applyUnary trap operator operand = .ok v := by
  cases operator <;> cases operand <;> first | exact h | exact wrapping_of_trapped h

theorem applyStatic_of_trapped {trap : Bool} {method : StaticMethod} {argument v : JavaValue}
    (h : applyStatic true method argument = .ok v) : applyStatic trap method argument = .ok v := by
  unfold applyStatic at h ⊢
  cases hargument : asIntegral argument with
  | none => simp [hargument] at h
  | some operand =>
      rw [hargument] at h
      cases method with
      | abs => exact wrapping_of_trapped h
      | valueOf | toIntExact | negateExact => exact h

/-! ### `BigDecimal` -/

/-- `intValueExact` and `longValueExact`. -/
def narrowExact (isLong : Bool) (x : ℚ) : Except JavaFault JavaValue :=
  if x.den = 1 then checked isLong x.num else .error .throws

/-- A `BigDecimal` method without a `BigDecimal` argument. -/
def applyDecimalMethod (method : DecimalMethod) (object : JavaValue) : Except JavaFault JavaValue :=
  match object with
  | .decimal x =>
      match method with
      | .signum => .ok (.int x.num.sign)
      | .negate => .ok (.decimal (-x))
      | .abs => .ok (.decimal |x|)
      | .setScale newScale roundingMode => .ok (.decimal (setScale roundingMode newScale x))
      | .intValueExact => narrowExact false x
      | .longValueExact => narrowExact true x
  | _ => .error .doesNotCompile

/-- Significant digits of `MathContext.DECIMAL128`, which rounds a half to even. -/
def decimal128 : ℕ := 34

/-- A `BigDecimal` method with a `BigDecimal` argument. -/
def applyDecimalOperation (method : DecimalOperation) (object argument : JavaValue) :
    Except JavaFault JavaValue :=
  match object, argument with
  | .decimal x, .decimal y =>
      match method with
      | .add => .ok (.decimal (x + y))
      | .subtract => .ok (.decimal (x - y))
      | .multiply => .ok (.decimal (x * y))
      | .divide =>
          if y = 0 then .error .throws else .ok (.decimal (roundToPrecision decimal128 (x / y)))
      | .remainder => if y = 0 then .error .throws else .ok (.decimal (remainder x y))
  | _, _ => .error .doesNotCompile

/-! ### Expressions -/

/-- A numeric literal, typed by its text. -/
def literalValue (value : NumericLiteral) (javaType : Option JavaBasicType) :
    Except JavaFault JavaValue :=
  if javaType = some .decimal then .ok (.decimal value.value)
  else if value.places = 0 && inRange value.longSuffix value.signedDigits then
    .ok (integral value.longSuffix value.signedDigits)
  else .error .doesNotCompile

/-- The contents of a field or table element, in the Java type of its item. -/
def readCell (item : DataItem) (unscaled : ℤ) : Except JavaFault JavaValue :=
  match mapPicToJavaType item with
  | .int => .ok (.int unscaled)
  | .long => .ok (.long unscaled)
  | .decimal => .ok (.decimal ((unscaled : ℚ) / 10 ^ item.decimalPlaces))
  | _ => .error .doesNotCompile

/-- What some subscripts of an item select: a field, an element, or a part of its table. -/
def select (state : JavaState) (item : DataItem) (name : String) (indices : List ℤ) :
    Except JavaFault JavaValue :=
  if indices.length = item.dimensions.length then readCell item (state name indices)
  else .ok (.array name indices)

/-- A field, declared under the Java spelling of its item's name. -/
def declaredItem (program : CobolProgram) (name : String) : Except JavaFault DataItem :=
  match findDataItem program name with
  | some item => if javaName item.name = name.toList then .ok item else .error .doesNotCompile
  | none => .error .doesNotCompile

/-- One more subscript of an array. -/
def indexArray (program : CobolProgram) (state : JavaState) (array index : JavaValue) :
    Except JavaFault JavaValue :=
  match array, index with
  | .array name indices, .int k => do
      let item ← declaredItem program name
      match item.dimensions[indices.length]? with
      | none => .error .doesNotCompile
      | some dimension =>
          if 0 ≤ k ∧ k < dimension then select state item name (indices ++ [k]) else .error .throws
  | _, _ => .error .doesNotCompile

/-- A minus sign in front of a signed literal is rendered as `--`. -/
def isSignedLiteral : JavaExpression → Bool
  | .literal value javaType => value.negative && javaType != some .decimal
  | _ => false

/-- Evaluation of an expression, with overflow trapped or not. -/
def evaluate (trap : Bool) (program : CobolProgram) (state : JavaState) :
    JavaExpression → Except JavaFault JavaValue
  | .literal value javaType => literalValue value javaType
  | .variableRef name => do
      let item ← declaredItem program name
      select state item name []
  | .arrayAccess array index => do
      let array' ← evaluate trap program state array
      let index' ← evaluate trap program state index
      indexArray program state array' index'
  | .binaryOp left operator right => do
      let left' ← evaluate trap program state left
      if operator = .or ∧ left' = .boolean true then .ok left'
      else do
        let right' ← evaluate trap program state right
        applyBinary trap operator left' right'
  | .unaryOp operator operand => do
      if operator = .neg ∧ isSignedLiteral operand then .error .doesNotCompile
      else do
        let operand' ← evaluate trap program state operand
        applyUnary trap operator operand'
  | .decimalMethod objectRef method => do
      let object ← evaluate trap program state objectRef
      applyDecimalMethod method object
  | .decimalOperation objectRef method argument => do
      let object ← evaluate trap program state objectRef
      let argument' ← evaluate trap program state argument
      applyDecimalOperation method object argument'
  | .staticMethod method argument => do
      let argument' ← evaluate trap program state argument
      applyStatic trap method argument'
  | .exactMethod method left right => do
      let left' ← evaluate trap program state left
      let right' ← evaluate trap program state right
      applyExact method left' right'
  | .unsupported _ _ => .error .doesNotCompile

/-- **A trapped evaluation that succeeds is the Java evaluation.** -/
theorem evaluate_of_trapped {trap : Bool} {program : CobolProgram} {state : JavaState}
    {expression : JavaExpression} {v : JavaValue}
    (h : evaluate true program state expression = .ok v) :
    evaluate trap program state expression = .ok v := by
  induction expression generalizing v with
  | literal value javaType => exact h
  | variableRef name => exact h
  | arrayAccess array index iharray ihindex =>
      obtain ⟨array', harray, h⟩ := Py.bind_ok h
      obtain ⟨index', hindex, h⟩ := Py.bind_ok h
      simp only [evaluate, iharray harray, ihindex hindex]
      exact h
  | binaryOp left operator right ihleft ihright =>
      obtain ⟨left', hleft, h⟩ := Py.bind_ok h
      simp only [evaluate, ihleft hleft]
      by_cases hshort : operator = .or ∧ left' = .boolean true
      · rw [if_pos hshort] at h
        exact (if_pos hshort).trans h
      · rw [if_neg hshort] at h
        obtain ⟨right', hright, h⟩ := Py.bind_ok h
        refine (if_neg hshort).trans ?_
        rw [ihright hright]
        exact applyBinary_of_trapped h
  | unaryOp operator operand ih =>
      simp only [evaluate] at h ⊢
      by_cases hsigned : operator = .neg ∧ isSignedLiteral operand
      · rw [if_pos hsigned] at h
        cases h
      · rw [if_neg hsigned] at h ⊢
        obtain ⟨operand', hoperand, h⟩ := Py.bind_ok h
        rw [ih hoperand]
        exact applyUnary_of_trapped h
  | decimalMethod objectRef method ih =>
      obtain ⟨object, hobject, h⟩ := Py.bind_ok h
      simp only [evaluate, ih hobject]
      exact h
  | decimalOperation objectRef method argument ihobject ihargument =>
      obtain ⟨object, hobject, h⟩ := Py.bind_ok h
      obtain ⟨argument', hargument, h⟩ := Py.bind_ok h
      simp only [evaluate, ihobject hobject, ihargument hargument]
      exact h
  | staticMethod method argument ih =>
      obtain ⟨argument', hargument, h⟩ := Py.bind_ok h
      simp only [evaluate, ih hargument]
      exact applyStatic_of_trapped h
  | exactMethod method left right ihleft ihright =>
      obtain ⟨left', hleft, h⟩ := Py.bind_ok h
      obtain ⟨right', hright, h⟩ := Py.bind_ok h
      simp only [evaluate, ihleft hleft, ihright hright]
      exact h
  | unsupported sourceExpression reason => cases h

/-! ### Statements -/

/-- Assignment conversion to the Java type of the receiver. -/
def assignable (javaType : JavaBasicType) (value : JavaValue) : Except JavaFault JavaValue :=
  match javaType, value with
  | .int, .int n => .ok (.int n)
  | .long, .int n => .ok (.long n)
  | .long, .long n => .ok (.long n)
  | .decimal, .decimal x => .ok (.decimal x)
  | _, _ => .error .doesNotCompile

/-- The value a statement stores in its receiver, `none` when it stores nothing. -/
def execute (trap : Bool) (program : CobolProgram) (state : JavaState) :
    JavaStatement → Except JavaFault (Option JavaValue)
  | .assignment target expression => do
      let item ← declaredItem program (arrayBaseName target)
      -- the receiver's subscripts are evaluated before the expression
      let _ ← evaluate trap program state target
      let value ← evaluate trap program state expression
      let stored ← assignable (mapPicToJavaType item) value
      .ok (some stored)
  | .ifThen condition thenBody => do
      match ← evaluate trap program state condition with
      | .boolean true => execute trap program state thenBody
      | .boolean false => .ok none
      | _ => .error .doesNotCompile

/-- A trapped run that stores a value stores it in Java too. -/
theorem execute_of_trapped {trap : Bool} {program : CobolProgram} {state : JavaState}
    {statement : JavaStatement} {v : Option JavaValue}
    (h : execute true program state statement = .ok v) :
    execute trap program state statement = .ok v := by
  induction statement with
  | assignment target expression =>
      obtain ⟨item, hitem, h⟩ := Py.bind_ok h
      obtain ⟨location, htarget, h⟩ := Py.bind_ok h
      obtain ⟨value, hvalue, h⟩ := Py.bind_ok h
      simp only [execute, hitem, evaluate_of_trapped htarget, evaluate_of_trapped hvalue]
      exact h
  | ifThen condition thenBody ih =>
      obtain ⟨value, hvalue, h⟩ := Py.bind_ok h
      simp only [execute, evaluate_of_trapped hvalue]
      cases value with
      | boolean b =>
          cases b with
          | true => exact ih h
          | false => exact h
      | int _ | long _ | decimal _ | array _ _ => cases h

end CobolJava.Transformation
