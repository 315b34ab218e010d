/-
**Lowering of an arithmetic statement.**

The analyses of an arithmetic expression and the Java statement that stores it in its receiver
(`_emit_arithmetic`, `_apply_numeric_receiver_semantics`, `_scale_numeric_receiver` of
`cobol_to_java_mapping.py`), for a statement without `ON SIZE ERROR`.

Main definitions:

* `requiresFractionalType`, `canBeNegative`, `nativeIntegralBound` — the analyses of an expression;
* `protectIntegralOverflow`, `promoteToDecimal` — the expression in native and in exact arithmetic;
* `scaleNumericReceiver`, `applyNumericReceiverSemantics` — the expression as its receiver gets it;
* `zeroDivisorTest`, `emitArithmetic` — the statement.
-/

import CobolJava.Transformation.JavaIr

set_option autoImplicit false

namespace CobolJava.Transformation

open Decimal (RoundingMode)

variable (program : CobolProgram)

/-! ### Analyses of an expression -/

/-- Whether an arithmetic expression can produce a fractional value. -/
def requiresFractionalType : JavaExpression → Bool
  | .literal _ javaType => javaType = some .double || javaType = some .decimal
  | .variableRef name =>
      match findDataItem program name with
      | some item => item.decimalPlaces > 0
      | none => false
  | .arrayAccess array index =>
      match findDataItem program (arrayBaseName (.arrayAccess array index)) with
      | some item => item.decimalPlaces > 0
      | none => false
  | .binaryOp left _ right => requiresFractionalType left || requiresFractionalType right
  | .unaryOp _ operand => requiresFractionalType operand
  | _ => true

/-- Decimal digits an integral expression may need. -/
def integralDigitWidth : JavaExpression → ℕ
  | .variableRef name =>
      match findDataItem program name with
      | some item => if item.isNumeric then item.picLength else 0
      | none => 0
  | .literal value _ => value.digitCount
  | .unaryOp .neg operand => integralDigitWidth operand
  | .binaryOp left operator right =>
      match operator with
      | .add | .sub => max (integralDigitWidth left) (integralDigitWidth right) + 1
      | .mul => integralDigitWidth left + integralDigitWidth right
      | .div | .mod => integralDigitWidth left
      | _ => 0
  | _ => 0

/-- What `_native_integral_bound` returns. -/
inductive NativeBound
  /-- No bound is known. -/
  | unknown
  /-- Some operation could exceed the Java type it is evaluated in. -/
  | overflows
  /-- Magnitude bound, and whether the expression is evaluated as `long`. -/
  | bounded (magnitude : ℕ) (isLong : Bool)
  deriving DecidableEq, Repr

/-- The largest value of `int` (`false`) or `long` (`true`). -/
def typeMax (isLong : Bool) : ℤ :=
  if isLong then javaLongMax else javaIntMax

/-- Magnitude bound of the result of an operation. -/
def combinedMagnitude (operator : BinaryOperator) (left right : ℕ) : ℕ :=
  match operator with
  | .add | .sub => left + right
  | .mul => left * right
  | _ => left

/-- The bound of an operation whose operands are bounded. -/
def combineBounds (operator : BinaryOperator) : NativeBound → NativeBound → NativeBound
  | .overflows, _ => .overflows
  | _, .overflows => .overflows
  | .unknown, _ => .unknown
  | _, .unknown => .unknown
  | .bounded left leftLong, .bounded right rightLong =>
      let isLong := leftLong || rightLong
      let bound := combinedMagnitude operator left right
      if (bound : ℤ) > typeMax isLong then .overflows
      else .bounded bound isLong

/-- Magnitude bound of an integral expression and whether it is evaluated as `long`. -/
def nativeIntegralBound : JavaExpression → NativeBound
  | .variableRef name =>
      match findDataItem program name with
      | some item =>
          if !item.isNumeric || item.decimalPlaces > 0 then .unknown
          else .bounded (10 ^ item.picLength - 1) (item.picLength > 9)
      | none => .unknown
  | .literal value _ =>
      if value.isDigits then
        .bounded value.unscaled (value.longSuffix || (value.unscaled : ℤ) > javaIntMax)
      else .unknown
  | .unaryOp .neg operand => nativeIntegralBound operand
  | .binaryOp left operator right =>
      match operator with
      | .add | .sub | .mul | .div | .mod =>
          combineBounds operator (nativeIntegralBound left) (nativeIntegralBound right)
      | _ => .unknown
  | _ => .unknown

/-- Whether an arithmetic tree divides. -/
def containsDivision : JavaExpression → Bool
  | .binaryOp left operator right =>
      operator = .div || containsDivision left || containsDivision right
  | .unaryOp _ operand => containsDivision operand
  | _ => false

/-- Whether a division sits below the root. -/
def hasNestedDivision : JavaExpression → Bool
  | .binaryOp left _ right => containsDivision left || containsDivision right
  | .unaryOp _ operand => containsDivision operand
  | _ => false

/-- Whether every value of an integral expression fits a number of digits. -/
def expressionFitsDigits (digits : ℕ) : JavaExpression → Bool
  | .literal value _ => value.isDigits && value.digitCount ≤ digits
  | .variableRef name =>
      match findDataItem program name with
      | some source =>
          source.isNumeric && source.decimalPlaces = 0 && 0 < source.picLength
            && source.picLength ≤ digits
      | none => false
  | .unaryOp .neg operand => expressionFitsDigits digits operand
  | .binaryOp left .div _ => expressionFitsDigits digits left
  | _ => false

/-- Whether an expression cannot be shown to be at least zero. -/
def canBeNegative : JavaExpression → Bool
  | .literal value _ => value.negative
  | .variableRef name =>
      match findDataItem program name with
      | some item => if item.isNumeric then item.signed else true
      | none => true
  | .unaryOp .plus operand => canBeNegative operand
  | .unaryOp _ _ => true
  | .binaryOp left operator right =>
      match operator with
      | .add | .mul | .div => canBeNegative left || canBeNegative right
      | .mod => canBeNegative left
      | _ => true
  | .staticMethod .abs _ => false
  | _ => true

/-! ### Rewritings of an expression -/

/-- Digits of the Java type of a receiver. -/
def targetDigits (targetItem : DataItem) : ℕ :=
  if targetItem.picLength ≤ 9 then 9 else 18

/-- The `Math` method that replaces an operator in an expression that may be too wide. -/
def exactMethodOf : BinaryOperator → Option ExactMethod
  | .add => some .addExact
  | .sub => some .subtractExact
  | .mul => some .multiplyExact
  | _ => none

/-- A leaf is narrowed for an `int` receiver. -/
def protectLeaf (targetItem : DataItem) (expression : JavaExpression) : JavaExpression :=
  if targetDigits targetItem = 9 && targetDigits targetItem < integralDigitWidth program expression
  then .staticMethod .toIntExact expression
  else expression

/-- Overflow that would wrap silently is made to throw. -/
def protectIntegralOverflow (targetItem : DataItem) : JavaExpression → JavaExpression
  | .binaryOp left operator right =>
      let width := integralDigitWidth program (.binaryOp left operator right)
      let left' := protectIntegralOverflow targetItem left
      let right' := protectIntegralOverflow targetItem right
      if targetDigits targetItem < width then
        match exactMethodOf operator with
        | some method => .exactMethod method left' right'
        | none => .binaryOp left' operator right'
      else .binaryOp left' operator right'
  | .unaryOp operator operand =>
      let operand' := protectIntegralOverflow targetItem operand
      let candidate := JavaExpression.unaryOp operator operand'
      if operator = .neg && targetDigits targetItem < integralDigitWidth program candidate then
        .staticMethod .negateExact operand'
      else candidate
  | expression => protectLeaf program targetItem expression

/-- Whether a `BigDecimal` method of the promotion yields a `BigDecimal`. -/
def isBigDecimalInstanceMethod : DecimalMethod → Bool
  | .negate | .setScale _ _ | .abs => true
  | _ => false

/-- A reference as a `BigDecimal`: a decimal item already is one. -/
def promoteReference (expression : JavaExpression) : JavaExpression :=
  match findDataItem program (arrayBaseName expression) with
  | some item =>
      if item.isNumeric && item.decimalPlaces > 0 then expression
      else .staticMethod .valueOf expression
  | none => .staticMethod .valueOf expression

/-- An arithmetic expression in exact `BigDecimal` form. -/
def promoteToDecimal : JavaExpression → JavaExpression
  | .decimalMethod objectRef method =>
      if isBigDecimalInstanceMethod method then .decimalMethod objectRef method
      else .staticMethod .valueOf (.decimalMethod objectRef method)
  | .decimalOperation objectRef method argument => .decimalOperation objectRef method argument
  | .binaryOp left operator right =>
      let left' := promoteToDecimal left
      let right' := promoteToDecimal right
      match operator with
      | .add => .decimalOperation left' .add right'
      | .sub => .decimalOperation left' .subtract right'
      | .mul => .decimalOperation left' .multiply right'
      | .mod => .decimalOperation left' .remainder right'
      | .div => .decimalOperation left' .divide right'
      | _ => .staticMethod .valueOf (.binaryOp left operator right)
  | .unaryOp operator operand =>
      if operator = .neg then .decimalMethod (promoteToDecimal operand) .negate
      else promoteToDecimal operand
  | .literal value javaType =>
      match javaType with
      | none | some .decimal => .literal value javaType
      | some .int | some .long => .literal { value with longSuffix := false } (some .decimal)
      | _ => .staticMethod .valueOf (.literal value javaType)
  | .variableRef name => promoteReference program (.variableRef name)
  | .arrayAccess array index => promoteReference program (.arrayAccess array index)
  | expression => .staticMethod .valueOf expression

/-! ### The receiver -/

def receiverRounding (rounded : Bool) : RoundingMode :=
  if rounded then .halfUp else .down

/-- Whether an integral receiver's expression is computed exactly whatever its operands are. -/
def exactIntermediates (expression : JavaExpression) (item : DataItem) (rounded : Bool) : Bool :=
  (if rounded then containsDivision expression else hasNestedDivision expression) ||
    match nativeIntegralBound program expression with
    | .overflows => true
    | .bounded _ isLong => isLong && item.picLength ≤ 9
    | .unknown => false

/-- Whether an integral receiver's expression is computed in native Java arithmetic. -/
def nativeLane (expression : JavaExpression) (item : DataItem) (rounded : Bool) : Bool :=
  !requiresFractionalType program expression && !exactIntermediates program expression item rounded

/-- `BigDecimal.valueOf(bound)` for the first power of ten the receiver's whole digits cannot
hold. -/
def boundDecimal (integerDigits : ℕ) (longSuffix : Bool) : JavaExpression :=
  .staticMethod .valueOf (.literal ⟨false, 10 ^ integerDigits, 0, longSuffix⟩ (some .long))

/-- Scale and truncation of a decimal receiver. -/
def scaleDecimalReceiver (expression : JavaExpression) (item : DataItem) (rounded : Bool) :
    JavaExpression :=
  let scaled : JavaExpression :=
    .decimalMethod (promoteToDecimal program expression)
      (.setScale item.decimalPlaces (receiverRounding rounded))
  if item.integerDigits > 0 then
    .decimalOperation scaled .remainder
      (boundDecimal item.integerDigits (javaIntegralSuffix false (10 ^ item.integerDigits) 0))
  else scaled

/-- Native arithmetic for an integral receiver, with the silent high-order truncation. -/
def scaleNative (expression : JavaExpression) (item : DataItem) : JavaExpression :=
  let native := protectIntegralOverflow program item expression
  if item.integerDigits = 0 || expressionFitsDigits program item.integerDigits expression then native
  else
    .binaryOp native .mod
      (.literal ⟨false, 10 ^ item.integerDigits, 0, item.picLength > 9⟩
        (some (if item.picLength > 9 then .long else .int)))

/-- Exact arithmetic for an integral receiver, narrowed at the end. -/
def scaleExact (expression : JavaExpression) (item : DataItem) (rounded : Bool) : JavaExpression :=
  let scaled : JavaExpression :=
    .decimalMethod (promoteToDecimal program expression) (.setScale 0 (receiverRounding rounded))
  let truncated : JavaExpression :=
    if item.integerDigits > 0 then
      .decimalOperation scaled .remainder (boundDecimal item.integerDigits true)
    else scaled
  .decimalMethod truncated (if item.picLength > 9 then .longValueExact else .intValueExact)

/-- An expression scaled and truncated to its receiver. -/
def scaleNumericReceiver (expression : JavaExpression) (item : DataItem) (rounded : Bool) :
    JavaExpression :=
  if item.decimalPlaces > 0 then scaleDecimalReceiver program expression item rounded
  else if nativeLane program expression item rounded then scaleNative program expression item
  else scaleExact program expression item rounded

/-- An expression with the magnitude taken for an unsigned receiver. -/
def applyNumericReceiverSemantics (expression target : JavaExpression) (rounded : Bool) :
    JavaExpression :=
  match expression with
  | .unsupported sourceExpression reason => .unsupported sourceExpression reason
  | expression =>
      match findDataItem program (arrayBaseName target) with
      | none => expression
      | some item =>
          if !item.isNumeric then expression
          else
            let scaled := scaleNumericReceiver program expression item rounded
            if item.signed || !canBeNegative program expression then scaled
            else if item.decimalPlaces > 0 then .decimalMethod scaled .abs
            else .staticMethod .abs scaled

/-! ### The statement -/

/-- Right operands of every division in an arithmetic expression. -/
def divisionDivisors : JavaExpression → List JavaExpression
  | .binaryOp left operator right =>
      (if operator = .div then [right] else []) ++ divisionDivisors left ++ divisionDivisors right
  | .unaryOp _ operand => divisionDivisors operand
  | _ => []

/-- Whether a divisor is a literal other than zero. -/
def isNonzeroLiteral : JavaExpression → Bool
  | .literal value _ => value.floatNonzero
  | _ => false

def zeroLiteral : JavaExpression :=
  .literal ⟨false, 0, 0, false⟩ none

/-- The test that one divisor is zero. -/
def divisorIsZero (divisor : JavaExpression) : JavaExpression :=
  if requiresFractionalType program divisor then
    .binaryOp (.decimalMethod (promoteToDecimal program divisor) .signum) .eq zeroLiteral
  else .binaryOp divisor .eq zeroLiteral

/-- The test that some divisor is zero, when one is not a literal other than zero. -/
def zeroDivisorTest (expression : JavaExpression) : Option JavaExpression :=
  match ((divisionDivisors expression).filter fun divisor => !isNonzeroLiteral divisor).map
      (divisorIsZero program) with
  | [] => none
  | test :: tests => some (tests.foldl (fun combined test => .binaryOp combined .or test) test)

/-- The statement that stores an arithmetic result. -/
def emitArithmetic (target raw : JavaExpression) (rounded : Bool) : JavaStatement :=
  let assignment :=
    JavaStatement.assignment target (applyNumericReceiverSemantics program raw target rounded)
  match zeroDivisorTest program raw with
  | none => assignment
  | some zero => .ifThen (.unaryOp .not zero) assignment

attribute [grind =] requiresFractionalType integralDigitWidth containsDivision canBeNegative protectIntegralOverflow divisionDivisors

end CobolJava.Transformation
