/-
**Data items and Java expressions.**

The data items of a COBOL program with their `PICTURE`, and the Java expressions and statements the
arithmetic statements are lowered to (`ir.py`, `java_ir.py`).

Main definitions:

* `DataItem`, `CobolProgram`, `findDataItem` — the items of a program;
* `mapPicToJavaType` — the Java type of an item;
* `NumericLiteral` — a literal by its digits;
* `JavaExpression`, `JavaStatement` — the lowered program.
-/

import CobolJava.Lib.Decimal

set_option autoImplicit false

namespace CobolJava.Transformation

open Decimal (RoundingMode)

/-! ### Data items -/

/-- Category of a `PICTURE`. -/
inductive PicType
  | alphanumeric
  | numeric
  deriving DecidableEq, Repr

/-- A data item, with the chain of `OCCURS` counts that apply to it, outermost first. -/
structure DataItem where
  name : String
  picType : PicType
  /-- Every digit position of the `PICTURE`. -/
  picLength : ℕ
  /-- Digit positions after the `V`. -/
  decimalPlaces : ℕ
  signed : Bool
  dimensions : List ℕ
  /-- The item has children other than condition names. -/
  hasSubstantiveChildren : Bool
  deriving DecidableEq, Repr

namespace DataItem

def isNumeric (item : DataItem) : Bool :=
  item.picType = .numeric

/-- Whole digit positions; every use of the source takes `max(0, …)`. -/
def integerDigits (item : DataItem) : ℕ :=
  item.picLength - item.decimalPlaces

end DataItem

/-- The parts of a program in which a data name is looked up. -/
structure CobolProgram where
  workingStorage : List DataItem
  linkageSection : List DataItem
  /-- The record items of each file definition. -/
  fileDefinitions : List (List DataItem)

/-- `name.replace("-", "_")`: the Java spelling of a data name. -/
def javaName (name : String) : List Char :=
  name.toList.map fun c => if c = '-' then '_' else c

/-- The spelling under which names are compared. -/
def normalizedName (name : String) : List Char :=
  (javaName name).map Char.toUpper

/-- The data item of a name: working storage first, then linkage, then the file records. -/
def findDataItem (program : CobolProgram) (name : String) : Option DataItem :=
  (program.workingStorage ++ program.linkageSection ++ program.fileDefinitions.flatten).find?
    fun item => normalizedName item.name = normalizedName name

/-- Basic Java types a `PICTURE` or a literal has. -/
inductive JavaBasicType
  | int
  | long
  | double
  | decimal
  | string
  deriving DecidableEq, Repr

/-- The Java type of an item (or of one element of its table). -/
def mapPicToJavaType (item : DataItem) : JavaBasicType :=
  if item.hasSubstantiveChildren then .string
  else if item.isNumeric then
    if item.decimalPlaces > 0 then .decimal
    else if item.picLength > 9 then .long
    else .int
  else .string

/-! ### Literals -/

def javaIntMax : ℤ := 2 ^ 31 - 1

def javaIntMin : ℤ := -2 ^ 31

def javaLongMax : ℤ := 2 ^ 63 - 1

def javaLongMin : ℤ := -2 ^ 63

/-- The text of a numeric Java literal: `unscaled / 10 ^ places` with its sign, and the `L`
suffix. -/
structure NumericLiteral where
  negative : Bool
  unscaled : ℕ
  /-- Digits after the point; there is a point when this is positive. -/
  places : ℕ
  longSuffix : Bool
  deriving DecidableEq, Repr

namespace NumericLiteral

/-- The whole number the digits spell, with the sign. -/
def signedDigits (l : NumericLiteral) : ℤ :=
  if l.negative then -(l.unscaled : ℤ) else l.unscaled

def value (l : NumericLiteral) : ℚ :=
  (l.signedDigits : ℚ) / 10 ^ l.places

theorem value_of_places_eq_zero {l : NumericLiteral} (h : l.places = 0) :
    l.value = l.signedDigits := by
  rw [value, h, pow_zero, div_one]

/-- `digits.isdigit()` once the sign and the suffix are stripped. -/
def isDigits (l : NumericLiteral) : Bool :=
  l.places = 0

/-- `len(value.replace(".", ""))` once the sign and the suffix are stripped. -/
def digitCount (l : NumericLiteral) : ℕ :=
  Nat.log 10 (l.unscaled / 10 ^ l.places) + 1 + l.places

/-- `float(value) != 0`: a magnitude up to half the least subnormal reads as zero. -/
def floatNonzero (l : NumericLiteral) : Bool :=
  10 ^ l.places < l.unscaled * 2 ^ 1075

end NumericLiteral

/-- Whether `java_integral_suffix` is `"L"`: a whole literal outside Java's `int` range. -/
def javaIntegralSuffix (negative : Bool) (unscaled places : ℕ) : Bool :=
  let value : ℤ := if negative then -(unscaled : ℤ) else unscaled
  places = 0 && (javaIntMax < value || value < javaIntMin)

/-- The Java type implied by a numeric literal spelling. -/
def numericLiteralJavaType (negative : Bool) (unscaled places : ℕ) : JavaBasicType :=
  if places > 0 then .decimal
  else if javaIntegralSuffix negative unscaled places then .long
  else .int

/-! ### Expressions -/

inductive BinaryOperator
  | add
  | sub
  | mul
  | div
  | mod
  | eq
  | or
  deriving DecidableEq, Repr

inductive UnaryOperator
  | neg
  | plus
  | not
  deriving DecidableEq, Repr

/-- `BigDecimal` methods without a `BigDecimal` argument. -/
inductive DecimalMethod
  | signum
  | negate
  | abs
  | setScale (newScale : ℕ) (roundingMode : RoundingMode)
  | intValueExact
  | longValueExact
  deriving DecidableEq, Repr

/-- `BigDecimal` methods with one `BigDecimal` argument; `divide` also passes
`MathContext.DECIMAL128`. -/
inductive DecimalOperation
  | add
  | subtract
  | multiply
  | divide
  | remainder
  deriving DecidableEq, Repr

/-- Static methods of one argument. -/
inductive StaticMethod
  /-- `java.math.BigDecimal.valueOf` -/
  | valueOf
  | toIntExact
  | negateExact
  | abs
  deriving DecidableEq, Repr

/-- Static methods of two arguments. -/
inductive ExactMethod
  | addExact
  | subtractExact
  | multiplyExact
  deriving DecidableEq, Repr

/-- Java expressions; a method call has one constructor for each shape of call. -/
inductive JavaExpression
  | literal (value : NumericLiteral) (javaType : Option JavaBasicType)
  | variableRef (name : String)
  | arrayAccess (array index : JavaExpression)
  | binaryOp (left : JavaExpression) (operator : BinaryOperator) (right : JavaExpression)
  | unaryOp (operator : UnaryOperator) (operand : JavaExpression)
  /-- `objectRef.method()` -/
  | decimalMethod (objectRef : JavaExpression) (method : DecimalMethod)
  /-- `objectRef.method(argument)` -/
  | decimalOperation (objectRef : JavaExpression) (method : DecimalOperation)
      (argument : JavaExpression)
  /-- `method(argument)` -/
  | staticMethod (method : StaticMethod) (argument : JavaExpression)
  /-- `Math.method(left, right)` -/
  | exactMethod (method : ExactMethod) (left right : JavaExpression)
  /-- Text the lowering refused; no Java is rendered for it. -/
  | unsupported (sourceExpression reason : String)
  deriving DecidableEq, Repr

/-- A numeric Java literal with its type and suffix, from the normalized COBOL spelling. -/
def numericJavaLiteral (negative : Bool) (unscaled places : ℕ) : JavaExpression :=
  .literal ⟨negative, unscaled, places, javaIntegralSuffix negative unscaled places⟩
    (some (numericLiteralJavaType negative unscaled places))

/-- Name of a reference or of the table an element belongs to. -/
def arrayBaseName : JavaExpression → String
  | .variableRef name => name
  | .arrayAccess array _ => arrayBaseName array
  | _ => ""

/-- Statements an arithmetic statement is lowered to.  The receiver is kept as the reference that
its text spells. -/
inductive JavaStatement
  | assignment (target expression : JavaExpression)
  | ifThen (condition : JavaExpression) (thenBody : JavaStatement)
  deriving DecidableEq, Repr

end CobolJava.Transformation
