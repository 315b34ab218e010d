/-
**Arithmetic expressions and their texts.**

An arithmetic expression is a tree over data names and unsigned numeric literals.  Its COBOL text has
parentheses exactly where the precedence and the left associativity of the operators require them.
Between the two stands the phrase of a tree, which says where the parentheses are.

Main definitions:

* `Formula.DataName`, `Formula.UnsignedLiteral` — names and numbers;
* `Formula.ArithmeticTree` — the trees, with their values;
* `Formula.Phrase` — texts with explicit parentheses, with the levels of their operators;
* `Formula.ArithmeticTree.phrase`, `Formula.ArithmeticTree.text` — the text of a tree.

Main results:

* `Formula.ArithmeticTree.phrase_wellFormed` — the parentheses of a tree are enough;
* `Formula.ArithmeticTree.phrase_value` — the phrase of a tree has its value.
-/

import CobolJava.Transformation.ExpressionReader

set_option autoImplicit false

namespace CobolJava.Formula

open Py.Chars

/-! ### Names and literals -/

/-- The reserved words that the readers of expressions and conditions know. -/
def reservedWords : List Text :=
  ["AND".toList, "OR".toList, "NOT".toList, "ALL".toList, "FUNCTION".toList, "IS".toList,
    "POSITIVE".toList, "NEGATIVE".toList, "ZERO".toList, "ZEROS".toList, "ZEROES".toList,
    "SPACE".toList, "SPACES".toList, "QUOTE".toList, "QUOTES".toList, "LOW-VALUE".toList,
    "LOW-VALUES".toList, "HIGH-VALUE".toList, "HIGH-VALUES".toList]

/-- A data name: letters, digits and hyphens, with a letter and without a hyphen at either end. -/
structure DataName where
  /-- The name. -/
  text : Text
  /-- Its characters. -/
  chars : ∀ c ∈ text, c.isAlphanum = true ∨ c = '-'
  /-- It has a letter. -/
  letter : ∃ c ∈ text, c.isAlpha = true
  /-- It does not start with a hyphen. -/
  first : text.head? ≠ some '-'
  /-- It does not end with a hyphen. -/
  last : text.getLast? ≠ some '-'
  /-- It is not reserved. -/
  free : upper text ∉ reservedWords

/-- An unsigned numeric literal: digits, with a point before some of them. -/
structure UnsignedLiteral where
  /-- The digits before the point. -/
  whole : Text
  /-- The digits behind the point; without any there is no point. -/
  fraction : Text
  /-- There are digits. -/
  digits : whole ++ fraction ≠ []
  /-- The characters before the point. -/
  wholeDigits : ∀ c ∈ whole, c.isDigit = true
  /-- The characters behind the point. -/
  fractionDigits : ∀ c ∈ fraction, c.isDigit = true

def UnsignedLiteral.text (l : UnsignedLiteral) : Text :=
  if l.fraction = [] then l.whole else l.whole ++ '.' :: l.fraction

def UnsignedLiteral.value (l : UnsignedLiteral) : ℚ :=
  (Nat.ofDigitChars 10 (l.whole ++ l.fraction) 0 : ℚ) / 10 ^ l.fraction.length

/-! ### Trees -/

/-- The binary operators of arithmetic. -/
inductive ArithmeticOperator
  | add
  | subtract
  | multiply
  | divide
deriving DecidableEq, Repr

namespace ArithmeticOperator

def sign : ArithmeticOperator → Char
  | add => '+'
  | subtract => '-'
  | multiply => '*'
  | divide => '/'

/-- The operator of the intermediate representation. -/
def operator : ArithmeticOperator → Operator
  | add => .plus
  | subtract => .minus
  | multiply => .times
  | divide => .divided

def level : ArithmeticOperator → ℕ
  | add => 1
  | subtract => 1
  | multiply => 2
  | divide => 2

end ArithmeticOperator

/-- An arithmetic expression. -/
inductive ArithmeticTree
  | name (n : DataName)
  | literal (l : UnsignedLiteral)
  | negate (t : ArithmeticTree)
  | binary (op : ArithmeticOperator) (l r : ArithmeticTree)

/-- The value of an expression under an assignment of the names; there is none if it divides by
zero. -/
def ArithmeticTree.value (assignment : Text → ℚ) : ArithmeticTree → Option ℚ
  | .name n => some (assignment n.text)
  | .literal l => some l.value
  | .negate t => (t.value assignment).map (- ·)
  | .binary op l r =>
      (l.value assignment).bind fun x => (r.value assignment).bind fun y => op.operator.apply x y

/-! ### Phrases -/

/-- A text with its parentheses. -/
inductive Phrase
  | name (n : DataName)
  | literal (l : UnsignedLiteral)
  | paren (p : Phrase)
  | negate (p : Phrase)
  | binary (op : ArithmeticOperator) (l r : Phrase)

namespace Phrase

def level : Phrase → ℕ
  | name _ => 4
  | literal _ => 4
  | paren _ => 4
  | negate _ => 3
  | binary op _ _ => op.level

/-- The operands of each operator are bound tightly enough; those on the right of a binary operator
more tightly than the operator. -/
def WellFormed : Phrase → Prop
  | name _ => True
  | literal _ => True
  | paren p => p.WellFormed
  | negate p => 4 ≤ p.level ∧ p.WellFormed
  | binary op l r => op.level ≤ l.level ∧ op.level < r.level ∧ l.WellFormed ∧ r.WellFormed

def text : Phrase → Text
  | name n => n.text
  | literal l => l.text
  | paren p => '(' :: (p.text ++ [')'])
  | negate p => '-' :: p.text
  | binary op l r => l.text ++ ' ' :: op.sign :: ' ' :: r.text

def value (assignment : Text → ℚ) : Phrase → Option ℚ
  | name n => some (assignment n.text)
  | literal l => some l.value
  | paren p => p.value assignment
  | negate p => (p.value assignment).map (- ·)
  | binary op l r =>
      (l.value assignment).bind fun x => (r.value assignment).bind fun y => op.operator.apply x y

/-- A phrase, in parentheses if it is bound less tightly than a level. -/
def enclose (level : ℕ) (p : Phrase) : Phrase :=
  if p.level < level then paren p else p

theorem level_enclose {n : ℕ} (h : n ≤ 4) (p : Phrase) : n ≤ (p.enclose n).level := by
  rw [enclose]
  split_ifs with hlow
  · exact h
  · omega

theorem wellFormed_enclose {p : Phrase} (h : p.WellFormed) (n : ℕ) : (p.enclose n).WellFormed := by
  rw [enclose]
  split_ifs
  · exact h
  · exact h

theorem value_enclose (p : Phrase) (n : ℕ) (assignment : Text → ℚ) :
    (p.enclose n).value assignment = p.value assignment := by
  rw [enclose]
  split_ifs
  · rfl
  · rfl

end Phrase

/-! ### The text of a tree -/

/-- The phrase of a tree, with the parentheses that the operators require. -/
def ArithmeticTree.phrase : ArithmeticTree → Phrase
  | .name n => .name n
  | .literal l => .literal l
  | .negate t => .negate (t.phrase.enclose 4)
  | .binary op l r => .binary op (l.phrase.enclose op.level) (r.phrase.enclose (op.level + 1))

def ArithmeticTree.text (t : ArithmeticTree) : Text := t.phrase.text

theorem ArithmeticOperator.level_le (op : ArithmeticOperator) : op.level ≤ 2 := by
  cases op <;> decide

theorem ArithmeticOperator.level_pos (op : ArithmeticOperator) : 1 ≤ op.level := by
  cases op <;> decide

theorem ArithmeticTree.phrase_wellFormed (t : ArithmeticTree) : t.phrase.WellFormed := by
  induction t with
  | name n => trivial
  | literal l => trivial
  | negate t ih => exact ⟨Phrase.level_enclose le_rfl _, Phrase.wellFormed_enclose ih _⟩
  | binary op l r ihl ihr =>
      have hlevel := op.level_le
      exact ⟨Phrase.level_enclose (by omega) _, Phrase.level_enclose (by omega) _,
        Phrase.wellFormed_enclose ihl _, Phrase.wellFormed_enclose ihr _⟩

theorem ArithmeticTree.phrase_value (t : ArithmeticTree) (assignment : Text → ℚ) :
    t.phrase.value assignment = t.value assignment := by
  induction t with
  | name n => rfl
  | literal l => rfl
  | negate t ih => rw [phrase, Phrase.value, Phrase.value_enclose, ih, value]
  | binary op l r ihl ihr =>
      rw [phrase, Phrase.value, Phrase.value_enclose, Phrase.value_enclose, ihl, ihr, value]

end CobolJava.Formula
