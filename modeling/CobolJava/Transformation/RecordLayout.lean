/-
**Record images of a file.**

The expression that builds the image of a record for `WRITE` and the statements that take a read
image apart (`_record_layout`, `_assembly_expression`, `_disassembly_statements` of
`cobol_to_java_mapping.py`), with the routine of the runtime they call, and the characters a
`DISPLAY` item stores.

Main definitions:

* `RecordItem`, `RecordLayout` — the items of a record description;
* `pad` — `CobolFileIo.pad`;
* `assemblyExpression`, `disassemblyStatements` — the two generators;
* `RecordExpression.eval`, `runAssignments` — what the generated Java computes;
* `displayStorage`, `recordArea` — the record area COBOL writes.
-/

import CobolJava.Lib.JavaText
import CobolJava.Transformation.CobolArithmetic

set_option autoImplicit false

namespace CobolJava.Transformation

/-! ### Record items -/

/-- An item of a record description. -/
structure RecordItem extends DataItem where
  level : ℕ
  /-- The item has children. -/
  isGroup : Bool
  deriving DecidableEq, Repr

namespace RecordItem

def isConditionName (item : RecordItem) : Bool :=
  item.level = 88

def formatWidth (item : RecordItem) : ℕ :=
  item.picLength

/-- Positions the item takes in the record. -/
def width (item : RecordItem) : ℕ :=
  if item.isNumeric then item.formatWidth else item.picLength

def field (item : RecordItem) : List Char :=
  javaName item.name

/-- An elementary `DISPLAY` item with a `PICTURE`; its name is a COBOL word. -/
structure IsElementary (item : RecordItem) : Prop where
  notGroup : item.isGroup = false
  noSubstantiveChildren : item.hasSubstantiveChildren = false
  notConditionName : item.isConditionName = false
  noDimensions : item.dimensions = []
  positivePicture : 0 < item.picLength
  placesWithinPicture : item.decimalPlaces ≤ item.picLength
  /-- A word starts with a letter or a digit. -/
  wordStart : item.field.head? ≠ some '_'

@[simp] theorem width_eq (item : RecordItem) : item.width = item.picLength := by
  simp [width, formatWidth]

end RecordItem

/-- The record description of a file: elementary items in declaration order. -/
structure RecordLayout where
  items : List RecordItem
  nonempty : items ≠ []
  elementary : ∀ item ∈ items, item.IsElementary

/-! ### Java fields -/

/-- The value of a Java field. -/
inductive FieldValue
  | int (value : ℤ)
  | long (value : ℤ)
  | decimal (value : Java.BigDecimal)
  | string (value : List Char)
  deriving DecidableEq, Repr

namespace FieldValue

/-- `String.valueOf`. -/
def valueOf : FieldValue → List Char
  | .int n => Java.ofInteger n
  | .long n => Java.ofInteger n
  | .decimal d => d.toText
  | .string s => s

def text? : FieldValue → Option (List Char)
  | .string s => some s
  | _ => none

/-- Values that a COBOL program cannot tell apart: equal numbers, and texts equal up to blanks at
their end. -/
def Same : FieldValue → FieldValue → Prop
  | .int m, .int n => m = n
  | .long m, .long n => m = n
  | .decimal d, .decimal e => d.toRat = e.toRat
  | .string s, .string t => s.rdropWhile (· = ' ') = t.rdropWhile (· = ' ')
  | _, _ => False

theorem Same.refl (v : FieldValue) : v.Same v := by
  cases v <;> exact rfl

end FieldValue

/-- The Java fields and local variables by name. -/
abbrev JavaFields :=
  List Char → FieldValue

/-! ### Generated expressions -/

/-- `CobolFileIo.pad`. -/
def pad (s : List Char) (width : ℕ) (numeric : Bool) : List Char :=
  if numeric then
    let s := Java.zeroFill width s
    s.drop (s.length - width)
  else (s ++ List.replicate (width - s.length) ' ').take width

/-- The expressions the generators build. -/
inductive RecordExpression
  | variableRef (name : List Char)
  /-- `String.valueOf(argument)` -/
  | valueOf (argument : RecordExpression)
  /-- `CobolFileIo.pad(argument, width, numeric)` -/
  | pad (argument : RecordExpression) (width : ℕ) (numeric : Bool)
  | concat (left right : RecordExpression)
  /-- `object.substring(start, stop)` -/
  | substring (object : RecordExpression) (start stop : ℕ)
  /-- `object.trim()` -/
  | trim (object : RecordExpression)
  /-- `new java.math.BigDecimal(argument)` -/
  | newBigDecimal (argument : RecordExpression)
  /-- `Integer.parseInt(argument)` -/
  | parseInt (argument : RecordExpression)
  /-- `Long.parseLong(argument)` -/
  | parseLong (argument : RecordExpression)
  deriving DecidableEq, Repr

namespace RecordExpression

/-- The value of an expression, if no exception is thrown. -/
def eval (fields : JavaFields) : RecordExpression → Option FieldValue
  | .variableRef name => some (fields name)
  | .valueOf argument => do
      let value ← eval fields argument
      some (.string value.valueOf)
  | .pad argument width numeric => do
      let s ← (← eval fields argument).text?
      some (.string (Transformation.pad s width numeric))
  | .concat left right => do
      let s ← (← eval fields left).text?
      let t ← (← eval fields right).text?
      some (.string (s ++ t))
  | .substring object start stop => do
      let s ← (← eval fields object).text?
      let t ← Java.substring s start stop
      some (.string t)
  | .trim object => do
      let s ← (← eval fields object).text?
      some (.string (Java.trim s))
  | .newBigDecimal argument => do
      let s ← (← eval fields argument).text?
      let d ← Java.BigDecimal.parse s
      some (.decimal d)
  | .parseInt argument => do
      let s ← (← eval fields argument).text?
      let n ← Java.parseInteger javaIntMin javaIntMax s
      some (.int n)
  | .parseLong argument => do
      let s ← (← eval fields argument).text?
      let n ← Java.parseInteger javaLongMin javaLongMax s
      some (.long n)

attribute [grind =] eval

end RecordExpression

/-- A generated `JavaAssignment`. -/
structure RecordAssignment where
  target : List Char
  expression : RecordExpression
  deriving DecidableEq, Repr

/-- The fields after the assignments, if no exception is thrown. -/
def runAssignments (fields : JavaFields) : List RecordAssignment → Option JavaFields
  | [] => some fields
  | stmt :: rest => do
      let value ← stmt.expression.eval fields
      runAssignments (Function.update fields stmt.target value) rest

/-! ### Assembly -/

/-- An entry of `_record_layout`. -/
structure LayoutEntry where
  javaName : List Char
  width : ℕ
  isNumeric : Bool
  isLong : Bool
  deriving DecidableEq, Repr

def layoutEntry (item : RecordItem) : LayoutEntry :=
  ⟨item.field, item.width, item.isNumeric, item.isNumeric && decide (item.picLength > 9)⟩

/-- One entry for each item that is neither a condition name nor a group. -/
def recordLayout (items : List RecordItem) : List LayoutEntry :=
  items.filterMap fun item =>
    if item.isConditionName || item.isGroup then none
    else if item.width ≤ 0 then none
    else some (layoutEntry item)

def recordTotalWidth (items : List RecordItem) : ℕ :=
  ((recordLayout items).map LayoutEntry.width).sum

/-- The characters of one entry at its width. -/
def assemblyPart (entry : LayoutEntry) : RecordExpression :=
  let val := .variableRef entry.javaName
  .pad (if entry.isNumeric then .valueOf val else val) entry.width entry.isNumeric

/-- The padded fixed-length record image for `WRITE` and `REWRITE`. -/
def assemblyExpression (items : List RecordItem) (contentVar : List Char) :
    Option RecordExpression :=
  match (recordLayout items).map assemblyPart with
  | part :: parts => some (parts.foldl .concat part)
  | [] => if contentVar ≠ [] then some (.variableRef contentVar) else none

/-! ### Disassembly -/

/-- Parsing a fixed-format numeric field. -/
def numericParseCall (item : RecordItem) (value : RecordExpression) : RecordExpression :=
  if item.decimalPlaces > 0 then .newBigDecimal (.trim value)
  else if item.picLength > 9 then .parseLong (.trim value)
  else .parseInt (.trim value)

/-- The loop of `_disassembly_statements` from an offset on. -/
def splitStatements (padded : RecordExpression) : ℕ → List RecordItem → List RecordAssignment
  | _, [] => []
  | offset, item :: rest =>
      let window := .substring padded offset (offset + item.width)
      ⟨item.field, if item.isNumeric then numericParseCall item window else window⟩ ::
        splitStatements padded (offset + item.width) rest

/-- The statements that split a read record image back into the fields of the record. -/
def disassemblyStatements (items : List RecordItem) (readVar : List Char) :
    List RecordAssignment :=
  let items := items.filter fun item => !item.isConditionName && !item.isGroup
  let total := (items.map RecordItem.width).sum
  splitStatements (.pad (.variableRef readVar) total false) 0 items

/-- `_fresh_io_var`: a scratch variable. -/
def freshIoVar (base : List Char) (count : ℕ) : List Char :=
  '_' :: base ++ '_' :: Nat.toDigits 10 count

/-! ### The record area of COBOL -/

/-- The value in units of the last decimal place. -/
def storedUnits (item : RecordItem) : FieldValue → ℤ
  | .int n => n
  | .long n => n
  | .decimal d => (d.toRat * 10 ^ item.decimalPlaces).num
  | .string _ => 0

/-- A value of the Java type of the item that its `PICTURE` can hold. -/
def FieldWithin (item : RecordItem) : FieldValue → Prop
  | .int n => mapPicToJavaType item.toDataItem = .int ∧ WithinPicture item.toDataItem n
  | .long n => mapPicToJavaType item.toDataItem = .long ∧ WithinPicture item.toDataItem n ∧
      javaLongMin ≤ n ∧ n ≤ javaLongMax
  | .decimal d => mapPicToJavaType item.toDataItem = .decimal ∧
      WithinPicture item.toDataItem (storedUnits item (.decimal d)) ∧
      (d.toRat * 10 ^ item.decimalPlaces).den = 1
  | .string s => mapPicToJavaType item.toDataItem = .string ∧ s.length ≤ item.picLength

/-- The letter that stands for a last digit under a negative sign. -/
def overpunch (digit : Char) : Char :=
  Char.ofNat ('p'.toNat + (digit.toNat - '0'.toNat))

/-- The characters of a numeric `DISPLAY` item: zero-filled digits without a point, the last one
overpunched when the value is negative. -/
def numericStorage (width : ℕ) (units : ℤ) : List Char :=
  let digits := Java.digitsAt width units.natAbs
  if units < 0 then digits.dropLast ++ digits.getLast?.toList.map overpunch else digits

def displayStorage (item : RecordItem) : FieldValue → List Char
  | .string s => s ++ List.replicate (item.picLength - s.length) ' '
  | value => numericStorage item.picLength (storedUnits item value)

def recordArea (items : List RecordItem) (fields : JavaFields) : List Char :=
  items.flatMap fun item => displayStorage item (fields item.field)

end CobolJava.Transformation
