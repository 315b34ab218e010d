/-
**Arithmetic with rounded results.**

Arithmetic expressions whose operations are labelled, say with the type they are evaluated in, and
their value under a rounding of every result.  A quotient has no value when its divisor is zero, and
the divisors of an expression are listed from the outside in, those of a left operand first.

Main definitions:

* `Expression`, `divisors` — labelled expressions, and what they divide by;
* `value` — **the value of an expression under a rounding**;
* `exactly` — the rounding that changes nothing;
* `Unrounded` — a rounding changes no result of an expression.

Main results:

* `value_of_unrounded` — a rounding that changes no result gives the exact value.
-/

import Mathlib.Algebra.Field.Defs

set_option autoImplicit false

namespace CobolJava.RoundedArithmetic

/-! ### Expressions -/

inductive Operation
  | add
  | sub
  | mul
  | div
  deriving DecidableEq, Repr

/-- A number, or a labelled operation. -/
inductive Expression (K α : Type*)
  | number (x : K)
  | operation (label : α) (left : Expression K α) (operation : Operation) (right : Expression K α)

variable {K α : Type*}

/-- Right operands of the divisions of an expression. -/
def divisors : Expression K α → List (Expression K α)
  | .number _ => []
  | .operation _ left operation right =>
      (if operation = .div then [right] else []) ++ divisors left ++ divisors right

/-- What is made of the result of an operation. -/
abbrev Rounding (K α : Type*) :=
  Operation → α → K → K

/-- The rounding that changes nothing. -/
def exactly : Rounding K α :=
  fun _ _ x => x

section Values

variable [Field K] [DecidableEq K]

/-- The result of an operation before it is rounded. -/
def Operation.result : Operation → K → K → Option K
  | .add, x, y => some (x + y)
  | .sub, x, y => some (x - y)
  | .mul, x, y => some (x * y)
  | .div, x, y => if y = 0 then none else some (x / y)

/-! ### Values -/

/-- **The value of an expression under a rounding.** -/
def value (round : Rounding K α) : Expression K α → Option K
  | .number x => some x
  | .operation label left operation right =>
      (value round left).bind fun x =>
        (value round right).bind fun y => (operation.result x y).map (round operation label)

variable {round : Rounding K α}

/-- The rounding changes no result of an expression, as far as it has results. -/
def Unrounded (round : Rounding K α) : Expression K α → Prop
  | .number _ => True
  | .operation label left operation right =>
      Unrounded round left ∧ Unrounded round right ∧
        ∀ x ∈ value exactly (.operation label left operation right), round operation label x = x

/-- **A rounding that changes no result gives the exact value.** -/
theorem value_of_unrounded {e : Expression K α} (h : Unrounded round e) :
    value round e = value exactly e := by
  induction e with
  | number x => rfl
  | operation label left operation right ihleft ihright =>
      obtain ⟨hleft, hright, hresult⟩ := h
      rw [value] at hresult ⊢
      rw [value, ihleft hleft, ihright hright]
      cases hx : value exactly left with
      | none => rfl
      | some x =>
          cases hy : value exactly right with
          | none => rfl
          | some y =>
              cases hz : operation.result x y with
              | none => simp [hz]
              | some z =>
                  have hround := hresult z (by simp [hx, hy, hz, exactly])
                  simp [hz, hround, exactly]

end Values

end CobolJava.RoundedArithmetic
