/-
**Java statements one behind another.**

The state a Java statement leaves.

Main definitions:

* `location`, `storeAt`, `stateAfter` — the place of a receiver, and the state behind a statement.
-/

import CobolJava.Transformation.CobolArithmetic

set_option autoImplicit false

namespace CobolJava.Transformation

open Decimal (truncate)

/-! ### A statement behind another -/

section Runs

variable (program : CobolProgram) (state : JavaState)

def JavaStatement.receiver : JavaStatement → JavaExpression
  | .assignment target _ => target
  | .ifThen _ thenBody => thenBody.receiver

/-- The field or table element a reference stands for. -/
def location : JavaExpression → Except JavaFault (String × List ℤ)
  | .variableRef name => .ok (name, [])
  | .arrayAccess array index => do
      let (name, indices) ← location array
      match ← evaluate false program state index with
      | .int k => .ok (name, indices ++ [k])
      | _ => .error .doesNotCompile
  | _ => .error .doesNotCompile

/-- The contents of an item that holds a value of its type. -/
def unscaledContents (item : DataItem) (value : JavaValue) : ℤ :=
  match value.number with
  | some x => truncate (x * 10 ^ item.decimalPlaces)
  | none => 0

/-- A state with the contents of one field or table element replaced. -/
def storeAt (place : String × List ℤ) (unscaled : ℤ) : JavaState :=
  fun name indices => if (name, indices) = place then unscaled else state name indices

def stateAfter (statement : JavaStatement) : Except JavaFault JavaState := do
  match ← execute false program state statement with
  | none => .ok state
  | some value => do
      let item ← declaredItem program (arrayBaseName statement.receiver)
      let place ← location program state statement.receiver
      .ok (storeAt state place (unscaledContents item value))

end Runs

section Congruence

variable {program : CobolProgram} {state : JavaState}

theorem receiver_emitArithmetic (target raw : JavaExpression) (rounded : Bool) :
    (emitArithmetic program target raw rounded).receiver = target := by
  rw [emitArithmetic]
  split <;> rfl

end Congruence

end CobolJava.Transformation
