/-
**Reading arithmetic expressions.**

`CobolParser._build_expression` of `engine/transformation/cobol_parser.py`: the text of an expression
is stripped of its outer parentheses, tried as a constant, tried as a negation, and split at the
rightmost operator of the loosest group that has one outside of parentheses.  Letters and digits are
the ASCII ones, and diagnostics are left out.

Main definitions:

* `Formula.Expression` — the expressions of the intermediate representation;
* `Formula.findBinaryOperatorFromRight`, `Formula.splitExpression` — the search for the operator;
* `Formula.buildExpression` — the reader;
* `Formula.Expression.value` — the exact value of an expression.
-/

import CobolJava.Lib.InfixText
import CobolJava.Lib.PyFloat
import CobolJava.Transformation.CodeLines
import Mathlib.Data.Rat.Defs

set_option autoImplicit false

namespace CobolJava.Formula

open Py (isSpace isFloat)
open Py.Chars

abbrev Text : Type := List Char

/-! ### Operators -/

/-- The binary operators of expressions and conditions. -/
inductive Operator
  | and
  | or
  | notEqual
  | notLess
  | notGreater
  | equal
  | greater
  | less
  | plus
  | minus
  | times
  | divided
deriving DecidableEq, Repr

def Operator.spelling : Operator → Text
  | .and => ['A', 'N', 'D']
  | .or => ['O', 'R']
  | .notEqual => ['<', '>']
  | .notLess => ['>', '=']
  | .notGreater => ['<', '=']
  | .equal => ['=']
  | .greater => ['>']
  | .less => ['<']
  | .plus => ['+']
  | .minus => ['-']
  | .times => ['*']
  | .divided => ['/']

def logicalOperators : List Operator := [.and, .or]

def relationalOperators : List Operator :=
  [.notEqual, .notLess, .notGreater, .equal, .greater, .less]

def additiveOperators : List Operator := [.plus, .minus]

def multiplicativeOperators : List Operator := [.times, .divided]

/-- The groups of operators, the loosest first. -/
def operatorGroups : List (List Operator) :=
  [logicalOperators, relationalOperators, additiveOperators, multiplicativeOperators]

/-- The method `isalnum` of a character that may be missing. -/
def isAlnum (c : Option Char) : Bool := c.any Char.isAlphanum

/-- Whether a minus sign behind this character is no binary operator. -/
def unaryBehind : Option Char → Bool
  | none => true
  | some c => ['+', '-', '*', '/', '(', '=', '<', '>'].contains c

/-- Where an operator starts that ends a text; the text is given from its end. -/
def operatorAt (operators : List Operator) (upTo after : Text) : Option ℕ :=
  operators.findSome? fun op =>
    let before := upTo.drop op.spelling.length
    if upper (upTo.take op.spelling.length).reverse ≠ op.spelling then none
    else if op = .minus ∧ unaryBehind before.head? then none
    else if isAlnum before.head? ∨ isAlnum after.head? then none
    else some before.length

/-- `_find_binary_operator_from_right` -/
def findBinaryOperatorFromRight (text : Text) (operators : List Operator) : Option ℕ :=
  Infix.findRight (operatorAt operators) text.reverse [] 0

/-- Whether a text spells an operator at a position. -/
def spellsAt (text : Text) (pos : ℕ) (op : Operator) : Bool :=
  upper ((text.drop pos).take op.spelling.length) = op.spelling

/-- The operator of the loosest group that is found, and the texts on either side. -/
def splitExpression (text : Text) : Option (Text × Operator × Text) :=
  operatorGroups.findSome? fun operators =>
    (findBinaryOperatorFromRight text operators).bind fun pos =>
      (operators.find? (spellsAt text pos)).map fun op =>
        (text.take pos, op, text.drop (pos + op.spelling.length))

/-! ### Constants -/

/-- The kinds of figurative constants. -/
inductive FigurativeKind
  | zero
  | spaces
  | quotes
  | lowValue
  | highValue
  | all
deriving DecidableEq, Repr

/-- `CANONICAL_FIGURATIVES` -/
def canonicalFiguratives : List (Text × FigurativeKind) :=
  [("ZERO".toList, .zero), ("ZEROS".toList, .zero), ("ZERO-ZERO-ZERO".toList, .zero),
    ("ZEROES".toList, .zero), ("SPACE".toList, .spaces), ("SPACES".toList, .spaces),
    ("QUOTE".toList, .quotes), ("QUOTES".toList, .quotes), ("LOW-VALUE".toList, .lowValue),
    ("LOW-VALUES".toList, .lowValue), ("HIGH-VALUE".toList, .highValue),
    ("HIGH-VALUES".toList, .highValue)]

/-- Whether a text starts and ends with a quote. -/
def quotedBy (quote : Char) (text : Text) : Bool :=
  text.head? = some quote && text.getLast? = some quote

/-- A text without its first and its last character. -/
def inner (text : Text) : Text := (text.drop 1).dropLast

/-- What follows a word and white space. -/
def behindWord (word text : Text) : Option Text :=
  if upper (text.take word.length) = word ∧ (text.drop word.length).head?.any isSpace then
    some (lstrip (text.drop word.length))
  else none

/-- The kind of `ALL "x"`, and of `ALL` before a figurative constant. -/
def allConstant (text : Text) : Option FigurativeKind :=
  (behindWord ['A', 'L', 'L'] text).bind fun rest =>
    if ['"', '\''].any (fun quote => quotedBy quote rest && !(inner rest).isEmpty &&
        !(inner rest).contains quote) then some .all
    else (canonicalFiguratives.find? fun e => e.1 = upper rest).map Prod.snd

/-- `parse_figurative_constant` of a stripped text that is not quoted. -/
def parseFigurativeConstant (text : Text) : Option FigurativeKind :=
  ((canonicalFiguratives.find? fun e => e.1 = upper text).map Prod.snd).or (allConstant text)

/-- `^FUNCTION\s+([A-Z][A-Z0-9-]*)\s*\(.*\)$` -/
def intrinsicName (text : Text) : Option Text :=
  (behindWord "FUNCTION".toList text).bind fun rest =>
    let name := rest.takeWhile fun c => c.isAlphanum || c = '-'
    let arguments := lstrip (rest.drop name.length)
    if name.head?.any Char.isAlpha ∧ arguments.head? = some '(' ∧ arguments.getLast? = some ')' then
      some (upper name)
    else none

/-! ### The reader -/

/-- The operators before a single operand. -/
inductive UnaryOperator
  | not
  | minus
deriving DecidableEq, Repr

/-- The expressions of the intermediate representation. -/
inductive Expression
  | literal (value : Text) (isNumeric isSigned : Bool)
  | fieldReference (name : Text)
  | figurativeConstant (kind : FigurativeKind) (text : Text)
  | intrinsicCall (name arguments : Text)
  | unary (operator : UnaryOperator) (operand : Expression)
  | binary (left : Expression) (operator : Operator) (right : Expression)
deriving DecidableEq, Repr

/-- Whether a text is one pair of parentheses and what stands in it. -/
def enclosed (text : Text) : Bool :=
  2 ≤ text.length && text.head? = some '(' && text.getLast? = some ')' &&
    Infix.closesLast 0 text && Infix.depthAfter 0 text = 0

/-- A text that is one operand, if it is one. -/
def constant (text : Text) : Option Expression :=
  if quotedBy '\'' text || quotedBy '"' text then some (.literal (inner text) false false)
  else
    match parseFigurativeConstant text with
    | some kind => some (.figurativeConstant kind text)
    | none =>
        match intrinsicName text with
        | some name => some (.intrinsicCall name text)
        | none =>
            -- exponentiation is recorded as it stands, not read as two multiplications
            if contains (SourceFormat.maskQuoted text) ['*', '*'] then
              some (.intrinsicCall ['*', '*'] text)
            else if isFloat text then some (.literal text true (text.head? = some '-'))
            else none

/-- `_build_expression` of a text with at most `fuel` characters. -/
def buildExpressionFrom : ℕ → Text → Expression
  | 0, _ => .fieldReference []
  | fuel + 1, text =>
      let text := strip text
      if enclosed text then buildExpressionFrom fuel (inner text)
      else
        match constant text with
        | some expression => expression
        | none =>
            if startswith (upper text) ['N', 'O', 'T', ' '] then
              .unary .not (buildExpressionFrom fuel (text.drop 4))
            else if text.head? = some '-' ∧ 1 < text.length then
              .unary .minus (buildExpressionFrom fuel (text.drop 1))
            else
              match splitExpression text with
              | some (left, op, right) =>
                  .binary (buildExpressionFrom fuel left) op (buildExpressionFrom fuel right)
              | none => .fieldReference text

/-- `_build_expression` -/
def buildExpression (text : Text) : Expression := buildExpressionFrom text.length text

/-! ### Values -/

/-- The number of a decimal numeral. -/
def decimalValue (text : Text) : Option ℚ :=
  let digits := Py.dropSign text
  let whole := digits.takeWhile (· ≠ '.')
  let fraction := (digits.dropWhile (· ≠ '.')).drop 1
  if (whole ++ fraction).all Char.isDigit then
    let magnitude : ℚ := (Nat.ofDigitChars 10 (whole ++ fraction) 0 : ℚ) / 10 ^ fraction.length
    some (if text.head? = some '-' then -magnitude else magnitude)
  else none

/-- The result of an arithmetic operator; there is none for a division by zero. -/
def Operator.apply (x y : ℚ) : Operator → Option ℚ
  | .plus => some (x + y)
  | .minus => some (x - y)
  | .times => some (x * y)
  | .divided => if y = 0 then none else some (x / y)
  | _ => none

/-- The exact value of an expression under an assignment of the names. -/
def Expression.value (assignment : Text → ℚ) : Expression → Option ℚ
  | .literal text isNumeric _ => if isNumeric then decimalValue text else none
  | .fieldReference name => some (assignment name)
  | .figurativeConstant kind _ => if kind = .zero then some 0 else none
  | .intrinsicCall _ _ => none
  | .unary .minus operand => (operand.value assignment).map (- ·)
  | .unary .not _ => none
  | .binary left op right =>
      (left.value assignment).bind fun x => (right.value assignment).bind fun y => op.apply x y

end CobolJava.Formula
