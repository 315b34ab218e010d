/-
**Reading conditions.**

`CobolParser._build_condition` of `engine/transformation/cobol_parser.py`: sign conditions are
rewritten, outer parentheses are taken off, a leading NOT negates what follows it, and the text is
split at the first AND, at the first OR, or at the first relational operator, each searched for
outside of parentheses.

Main definitions:

* `Formula.Condition` — the conditions of the intermediate representation, with their truth;
* `Formula.findBinaryOperator` — the search for an operator;
* `Formula.buildConditionFrom` — the reader.
-/

import CobolJava.Transformation.SignConditions

set_option autoImplicit false

namespace CobolJava.Formula

open Py.Chars

/-! ### Conditions -/

/-- The conditions of the intermediate representation. -/
inductive Condition
  | comparison (left : Expression) (operator : Operator) (right : Expression)
  | logical (left : Condition) (operator : Operator) (right : Condition)
  | negated (condition : Condition)
  | boolean (field : Text)
deriving DecidableEq, Repr

/-- The truth of a condition, given that of its comparisons and of its Boolean fields. -/
def Condition.holds (comparisons : Expression → Operator → Expression → Bool)
    (fields : Text → Bool) : Condition → Bool
  | .comparison left op right => comparisons left op right
  | .logical left op right =>
      if op = .and then left.holds comparisons fields && right.holds comparisons fields
      else left.holds comparisons fields || right.holds comparisons fields
  | .negated condition => !condition.holds comparisons fields
  | .boolean field => fields field

/-! ### The search for an operator -/

/-- Where an operator starts that starts a text; the text before it is given from its end. -/
def operatorStarts (op : Operator) (before text : Text) : Option ℕ :=
  if upper (text.take op.spelling.length) = op.spelling ∧ ¬ isAlnum before.head? ∧
      ¬ isAlnum (text.drop op.spelling.length).head? then some before.length
  else none

/-- `_find_binary_operator` -/
def findBinaryOperator (text : Text) (op : Operator) : Option ℕ :=
  Infix.findLeft (operatorStarts op) [] text 0

/-- The texts on either side of the first operator that is found. -/
def splitAt (operators : List Operator) (text : Text) : Option (Text × Operator × Text) :=
  operators.findSome? fun op =>
    (findBinaryOperator text op).map fun pos =>
      (text.take pos, op, text.drop (pos + op.spelling.length))

/-! ### The reader -/

/-- Whether no character but the last one closes down to depth 0. -/
def closesLate (depth : ℤ) : Text → Bool
  | [] => true
  | c :: rest =>
      let after := if c = '(' then depth + 1 else if c = ')' then depth - 1 else depth
      if after = 0 ∧ rest ≠ [] then false else closesLate after rest

/-- Whether the outer parentheses are taken off. -/
def parenthesized (text : Text) : Bool :=
  text.head? = some '(' && text.getLast? = some ')' && closesLate 0 text

/-- `_build_condition`, if `fuel` nested calls are enough. -/
def buildConditionFrom : ℕ → Text → Option Condition
  | 0, _ => none
  | fuel + 1, text =>
      let text := rewriteSignConditions (strip text)
      if parenthesized text then buildConditionFrom fuel (inner text)
      else if startswith (upper text) ['N', 'O', 'T', ' '] then
        (buildConditionFrom fuel (text.drop 4)).map .negated
      else
        match splitAt logicalOperators text with
        | some (left, op, right) =>
            (buildConditionFrom fuel left).bind fun l =>
              (buildConditionFrom fuel right).map fun r => .logical l op r
        | none =>
            match splitAt relationalOperators text with
            | some (left, op, right) =>
                some (.comparison (buildExpression left) op (buildExpression right))
            | none => some (.boolean text)

attribute [grind =] closesLate buildConditionFrom

end CobolJava.Formula
