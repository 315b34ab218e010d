/-
**The exact lane.**

Expressions promoted to `BigDecimal` have their exact value; a quotient is rounded to the 34 digits
of `DECIMAL128`.

Main definitions:

* `EvaluatesExactly` — an expression has its exact value when promoted;
* `carried` — the value an expression is carried as.

Main results:

* `evaluatesExactly_arithmetic` — the lane without a division;
* `evaluate_promoted` — **the exact lane**, with at most one division.
-/

import CobolJava.Transformation.NativeLane

set_option autoImplicit false

namespace CobolJava.Transformation

open Decimal (roundToPrecision)

section Exact

variable {program : CobolProgram} {state : JavaState}

/-! ### Exact expressions -/

/-- An expression has its exact value when promoted. -/
def EvaluatesExactly (program : CobolProgram) (state : JavaState) (e : JavaExpression) : Prop :=
  ∀ x, denote program state e = some (.number x) →
    ∀ v, evaluate true program state (promoteToDecimal program e) = .ok v ↔
      Fits program state .exact e ∧ v = .decimal x

theorem evaluate_decimalOperation {left right : JavaExpression} {method : DecimalOperation}
    {F G : Prop} {x y z : ℚ}
    (hleft : ∀ v, evaluate true program state left = .ok v ↔ F ∧ v = .decimal x)
    (hright : ∀ v, evaluate true program state right = .ok v ↔ G ∧ v = .decimal y)
    (hresult : applyDecimalOperation method (.decimal x) (.decimal y) = .ok (.decimal z))
    {v : JavaValue} :
    evaluate true program state (.decimalOperation left method right) = .ok v ↔
      (F ∧ G) ∧ v = .decimal z := by
  simp only [evaluate]
  rw [Py.bind_eq_ok_iff_of_unique hleft, Py.bind_eq_ok_iff_of_unique hright, hresult,
    Except.ok.injEq, eq_comm, and_assoc]

theorem evaluate_decimalMethod {operand : JavaExpression} {method : DecimalMethod} {F : Prop} {x : ℚ}
    {w : JavaValue}
    (hoperand : ∀ v, evaluate true program state operand = .ok v ↔ F ∧ v = .decimal x)
    (hresult : applyDecimalMethod method (.decimal x) = .ok w) {v : JavaValue} :
    evaluate true program state (.decimalMethod operand method) = .ok v ↔ F ∧ v = w := by
  simp only [evaluate]
  rw [Py.bind_eq_ok_iff_of_unique hoperand, hresult, Except.ok.injEq, eq_comm]

theorem evaluatesExactly_literal (negative : Bool) (unscaled places : ℕ) :
    EvaluatesExactly program state (numericJavaLiteral negative unscaled places) := by
  intro x hx v
  have hvalue : ∀ suffix, literalValue ⟨negative, unscaled, places, suffix⟩ (some .decimal) =
      .ok (.decimal x) := by
    intro suffix
    simp only [numericJavaLiteral, denote, Option.some.injEq, CobolValue.number.injEq] at hx
    rw [← hx]
    rfl
  have hpromoted : evaluate true program state
      (promoteToDecimal program (numericJavaLiteral negative unscaled places)) =
        .ok (.decimal x) := by
    unfold numericJavaLiteral numericLiteralJavaType
    split_ifs
    · exact hvalue _
    · exact hvalue _
    · exact hvalue _
  rw [hpromoted]
  simp [Fits, numericJavaLiteral, Lane.InRange, eq_comm]

theorem evaluatesExactly_reference {e : JavaExpression} (hstate : WithinPictures program state)
    (h : Arithmetic program e []) (href : IsReference e) : EvaluatesExactly program state e := by
  intro x hx v
  obtain ⟨item, indices, hitem, -, -⟩ := denote_reference h href hx
  have hreads := (evaluate_arithmetic hstate h).1 href item _ hitem.found hx
  have hpromote : promoteToDecimal program e = promoteReference program e := by
    cases e with
    | variableRef name => rfl
    | arrayAccess array index => rfl
    | _ => cases href
  rw [hpromote]
  unfold promoteReference
  simp only [hitem.found, hitem.numeric, Bool.true_and, decide_eq_true_eq]
  by_cases hplaces : item.decimalPlaces > 0
  · rw [if_pos hplaces, hreads]
    simp [typedValue, mapPicToJavaType, hitem.numeric, hitem.elementary, hplaces]
  · have hwhole : requiresFractionalType program e = false := by
      rw [requiresFractionalType_reference href hitem.found]
      simpa using hplaces
    obtain ⟨n, rfl⟩ := denote_integral h hwhole hx
    rw [if_neg hplaces]
    rw [typedValue_whole hitem (by omega)] at hreads
    simp only [evaluate]
    rw [Py.bind_eq_ok_iff_of_unique hreads]
    simp only [applyStatic, asIntegral_integral, Except.ok.injEq, eq_comm]

/-- **The exact lane** has the exact value of every expression without a division. -/
theorem evaluatesExactly_arithmetic {e : JavaExpression} {dimensions : List ℕ}
    (hstate : WithinPictures program state) (h : Arithmetic program e dimensions)
    (hdims : dimensions = []) : EvaluatesExactly program state e := by
  induction h with
  | literal negative unscaled places => exact evaluatesExactly_literal negative unscaled places
  | item h hdims' =>
      exact evaluatesExactly_reference hstate (.item h (hdims'.trans hdims)) trivial
  | element harray hsubscript hone hwhole =>
      subst hdims
      exact evaluatesExactly_reference hstate (.element harray hsubscript hone hwhole) trivial
  | @binary left right operator hleft hright hoperator ihleft ihright =>
      intro z hz v
      obtain ⟨x, y, z', hx, hy, hresult, heq⟩ := denote_binaryOp hz
      obtain rfl := CobolValue.number.inj heq
      have hl := ihleft rfl x hx
      have hr := ihright rfl y hy
      rcases hoperator with rfl | rfl | rfl <;> obtain rfl := Option.some.inj hresult <;>
        simp only [promoteToDecimal, Fits, Lane.InRange, and_true]
      · exact evaluate_decimalOperation hl hr rfl
      · exact evaluate_decimalOperation hl hr rfl
      · exact evaluate_decimalOperation hl hr rfl
  | @negate operand h ih =>
      intro z hz v
      obtain ⟨x, hx, heq⟩ := denote_neg hz
      obtain rfl := CobolValue.number.inj heq
      simp only [promoteToDecimal, if_true, Fits, Lane.InRange, Lane.showsSign, and_true]
      exact evaluate_decimalMethod (ih rfl x hx) rfl

theorem Arithmetic.containsDivision_eq_false {e : JavaExpression} {dimensions : List ℕ}
    (h : Arithmetic program e dimensions) : containsDivision e = false := by
  induction h with
  | literal negative unscaled places => rfl
  | item h hdims => rfl
  | element harray hsubscript hone hwhole iharray ihsubscript => rfl
  | binary hleft hright hoperator ihleft ihright =>
      rcases hoperator with rfl | rfl | rfl <;> simp [containsDivision, ihleft, ihright]
  | negate h ih => simpa [containsDivision] using ih

/-- The value an expression is carried as in the exact lane: a quotient has 34 digits. -/
def carried (e : JavaExpression) (x : ℚ) : ℚ :=
  if containsDivision e then roundToPrecision decimal128 x else x

/-- **The exact lane**, with at most one division, at the root. -/
theorem evaluate_promoted {e : JavaExpression} {x : ℚ} (hstate : WithinPictures program state)
    (h : ArithmeticRoot program e) (hx : denote program state e = some (.number x)) {v : JavaValue} :
    evaluate true program state (promoteToDecimal program e) = .ok v ↔
      Fits program state .exact e ∧ v = .decimal (carried e x) := by
  cases h with
  | plain h =>
      simp only [carried, h.containsDivision_eq_false, Bool.false_eq_true, if_false]
      exact evaluatesExactly_arithmetic hstate h rfl x hx v
  | @quotient left right hleft hright =>
      obtain ⟨y, z, w, hy, hz, hresult, heq⟩ := denote_binaryOp hx
      obtain rfl := CobolValue.number.inj heq
      rw [exactResult] at hresult
      split at hresult
      · cases hresult
      · rename_i hzero
        obtain rfl := Option.some.inj hresult
        simp only [promoteToDecimal, Fits, Lane.InRange, and_true, carried, containsDivision,
          decide_true, Bool.true_or, if_true]
        refine evaluate_decimalOperation (evaluatesExactly_arithmetic hstate hleft rfl y hy)
          (evaluatesExactly_arithmetic hstate hright rfl z hz) ?_
        simp [applyDecimalOperation, hzero]

end Exact

end CobolJava.Transformation
