/-
**What an arithmetic statement stores.**

The Java statement emitted for an arithmetic statement stores what COBOL stores precisely when its
lane keeps the exact value: no native operation leaves its type, the 34 digits of a quotient do not
change the digits the receiver keeps, and a receiver without whole digits gets a value below one.

Main definitions:

* `divisorLane`, `DivisorsFit` — the comparison of the divisors with zero;
* `StoresWhen` — when the emitted statement stores what COBOL stores.

Main results:

* `stores_exact_value_iff` — **the statement stores the exact value exactly then**;
* `table_product_wraps` — a product of table elements that wraps.
-/

import CobolJava.Transformation.AssignedReceiver

set_option autoImplicit false

namespace CobolJava.Transformation

open Decimal (remainder truncate)

/-! ### The condition -/

/-- The lane in which a divisor is compared with zero. -/
def divisorLane (program : CobolProgram) (divisor : JavaExpression) : Lane :=
  if requiresFractionalType program divisor then .exact else .native none

/-- Every divisor that is compared with zero fits the lane of the comparison. -/
def DivisorsFit (program : CobolProgram) (state : JavaState) (raw : JavaExpression) : Prop :=
  ∀ divisor ∈ divisionDivisors raw, isNonzeroLiteral divisor = false →
    Fits program state (divisorLane program divisor) divisor

/-- **When the emitted statement stores what COBOL stores.** -/
structure StoresWhen (program : CobolProgram) (state : JavaState) (target raw : JavaExpression)
    (item : DataItem) (rounded : Bool) (x : ℚ) : Prop where
  /-- The subscripts of the receiver are `int`s. -/
  receiver : Fits program state .exact target
  divisors : DivisorsFit program state raw
  /-- No operation of the lane leaves its type. -/
  expression : Fits program state (receiverLane program item raw rounded) raw
  narrow : NarrowEnough program item raw rounded
  magnitude : MagnitudeFits program item raw rounded x
  /-- The 34 digits of a quotient do not change what the receiver keeps. -/
  quotient : stored item rounded (intermediate (receiverLane program item raw rounded) raw x) =
    stored item rounded x
  /-- A receiver without whole digits gets a value below one. -/
  whole : item.integerDigits = 0 →
    |scaled item rounded (intermediate (receiverLane program item raw rounded) raw x)| < 1

section Stores

variable {program : CobolProgram} {state : JavaState}

/-! ### The statement -/

theorem storesExactly_iff {statement : JavaStatement} {s : ℚ} :
    StoresExactly program state statement s ↔
      ∃ value, value.number = some s ∧ execute true program state statement = .ok (some value) := by
  constructor
  · rintro ⟨value, hnumber, -, hvalue⟩
    exact ⟨value, hnumber, hvalue⟩
  · rintro ⟨value, hnumber, hvalue⟩
    exact ⟨value, hnumber, execute_of_trapped hvalue, hvalue⟩

/-- An assignment stores when its receiver can be read and its expression be assigned. -/
theorem storesExactly_assignment_iff {target expression : JavaExpression} {item : DataItem} {s y : ℚ}
    (hstate : WithinPictures program state)
    (hitem : NumericItem program (arrayBaseName target) item) (href : IsReference target)
    (htarget : Arithmetic program target [])
    (hlocated : denote program state target = some (.number y)) :
    StoresExactly program state (.assignment target expression) s ↔
      Fits program state .exact target ∧ Assigns program state item expression s := by
  have hreads := (evaluate_arithmetic hstate htarget).1 href item _ hitem.found hlocated
  rw [storesExactly_iff]
  constructor
  · rintro ⟨value, hnumber, hvalue⟩
    obtain ⟨item', hitem', hvalue⟩ := Py.bind_ok hvalue
    obtain rfl := Except.ok.inj ((declaredItem_eq hitem).symm.trans hitem')
    obtain ⟨location, hlocation, hvalue⟩ := Py.bind_ok hvalue
    obtain ⟨v, hv, hvalue⟩ := Py.bind_ok hvalue
    obtain ⟨w, hw, hvalue⟩ := Py.bind_ok hvalue
    obtain rfl := Option.some.inj (Except.ok.inj hvalue)
    exact ⟨((hreads location).1 hlocation).1, v, w, hv, hw, hnumber⟩
  · rintro ⟨hfits, v, w, hv, hw, hnumber⟩
    refine ⟨w, hnumber, Py.bind_eq_ok_iff.2 ⟨item, declaredItem_eq hitem, ?_⟩⟩
    refine Py.bind_eq_ok_iff.2 ⟨_, (hreads _).2 ⟨hfits, rfl⟩, ?_⟩
    exact Py.bind_eq_ok_iff.2 ⟨v, hv, Py.bind_eq_ok_iff.2 ⟨w, hw, rfl⟩⟩

theorem evaluate_eq_zero {expression : JavaExpression} {F : Prop} {isLong : Bool} {n : ℤ}
    (hvalue : ∀ v, evaluate true program state expression = .ok v ↔ F ∧ v = integral isLong n)
    (hn : n ≠ 0) {v : JavaValue} :
    evaluate true program state (.binaryOp expression .eq zeroLiteral) = .ok v ↔
      F ∧ v = .boolean false := by
  have hzero : evaluate true program state zeroLiteral = .ok (integral false 0) := rfl
  have hcompare : applyBinary true .eq (integral isLong n) (integral false 0) =
      .ok (.boolean false) := by
    simp only [applyBinary, promoted_integral]
    exact congrArg (fun b => Except.ok (JavaValue.boolean b)) (decide_eq_false hn)
  simp only [evaluate]
  rw [Py.bind_eq_ok_iff_of_unique hvalue, if_neg (by simp), hzero]
  change F ∧ applyBinary true .eq _ _ = .ok v ↔ _
  rw [hcompare, Except.ok.injEq, eq_comm]

/-- The test of a divisor that is not zero. -/
theorem evaluate_divisorIsZero {divisor : JavaExpression} {y : ℚ}
    (hstate : WithinPictures program state) (h : Arithmetic program divisor [])
    (hy : denote program state divisor = some (.number y)) (hzero : y ≠ 0) {v : JavaValue} :
    evaluate true program state (divisorIsZero program divisor) = .ok v ↔
      Fits program state (divisorLane program divisor) divisor ∧ v = .boolean false := by
  unfold divisorIsZero divisorLane
  by_cases hfractional : requiresFractionalType program divisor = true
  · rw [if_pos hfractional, if_pos hfractional]
    have hsign : y.num.sign ≠ 0 := by
      rw [Ne, Int.sign_eq_zero_iff_zero, Rat.num_eq_zero]
      exact hzero
    have hsignum : ∀ v, evaluate true program state
        (.decimalMethod (promoteToDecimal program divisor) .signum) = .ok v ↔
        Fits program state .exact divisor ∧ v = integral false y.num.sign :=
      fun v => evaluate_decimalMethod (evaluatesExactly_arithmetic hstate h rfl y hy) rfl
    exact evaluate_eq_zero hsignum hsign
  · rw [if_neg hfractional, if_neg hfractional]
    obtain ⟨n, rfl, hn⟩ := (evaluate_arithmetic hstate h).2 rfl (by simpa using hfractional) y hy
    exact evaluate_eq_zero (hn none) (by exact_mod_cast hzero)

/-- A guarded statement runs when its test does not find a zero. -/
theorem storesExactly_ifThen_iff {zero : JavaExpression} {body : JavaStatement} {F : Prop} {s : ℚ}
    (hzero : ∀ v, evaluate true program state zero = .ok v ↔ F ∧ v = .boolean false) :
    StoresExactly program state (.ifThen (.unaryOp .not zero) body) s ↔
      F ∧ StoresExactly program state body s := by
  have hcondition : ∀ v, evaluate true program state (.unaryOp .not zero) = .ok v ↔
      F ∧ v = .boolean true := by
    intro v
    have hnot : applyUnary true .not (.boolean false) = .ok (.boolean true) := rfl
    simp only [evaluate]
    rw [if_neg (by simp), Py.bind_eq_ok_iff_of_unique hzero, hnot, Except.ok.injEq, eq_comm]
  rw [storesExactly_iff, storesExactly_iff]
  constructor
  · rintro ⟨value, hnumber, hvalue⟩
    obtain ⟨condition, hc, hvalue⟩ := Py.bind_ok hvalue
    obtain ⟨hF, rfl⟩ := (hcondition condition).1 hc
    exact ⟨hF, value, hnumber, hvalue⟩
  · rintro ⟨hF, value, hnumber, hvalue⟩
    exact ⟨value, hnumber, Py.bind_eq_ok_iff.2 ⟨_, (hcondition _).2 ⟨hF, rfl⟩, hvalue⟩⟩

theorem Arithmetic.divisionDivisors_eq_nil {e : JavaExpression} {dimensions : List ℕ}
    (h : Arithmetic program e dimensions) : divisionDivisors e = [] := by
  induction h with
  | literal negative unscaled places => rfl
  | item h hdims => rfl
  | element harray hsubscript hone hwhole iharray ihsubscript => rfl
  | binary hleft hright hoperator ihleft ihright =>
      rcases hoperator with rfl | rfl | rfl <;> simp [divisionDivisors, ihleft, ihright]
  | negate h ih => simpa [divisionDivisors] using ih

/-- The test of the divisors guards the assignment. -/
theorem storesExactly_emitArithmetic_iff {target raw : JavaExpression} {rounded : Bool} {x s : ℚ}
    (hstate : WithinPictures program state) (h : ArithmeticRoot program raw)
    (hx : denote program state raw = some (.number x)) :
    StoresExactly program state (emitArithmetic program target raw rounded) s ↔
      DivisorsFit program state raw ∧
        StoresExactly program state
          (.assignment target (applyNumericReceiverSemantics program raw target rounded)) s := by
  cases h with
  | plain h =>
      have hdivisors := h.divisionDivisors_eq_nil
      have htest : zeroDivisorTest program raw = none := by simp [zeroDivisorTest, hdivisors]
      have hfit : DivisorsFit program state raw := by simp [DivisorsFit, hdivisors]
      unfold emitArithmetic
      rw [htest]
      exact (and_iff_right hfit).symm
  | @quotient left right hleft hright =>
      obtain ⟨y, z, w, hy, hz, hresult, heq⟩ := denote_binaryOp hx
      have hzero : z ≠ 0 := by
        rintro rfl
        cases hresult
      have hdivisors : divisionDivisors (.binaryOp left .div right) = [right] := by
        simp [divisionDivisors, hleft.divisionDivisors_eq_nil, hright.divisionDivisors_eq_nil]
      have hfit : DivisorsFit program state (.binaryOp left .div right) ↔
          (isNonzeroLiteral right = false →
            Fits program state (divisorLane program right) right) := by
        simp [DivisorsFit, hdivisors]
      rw [hfit]
      unfold emitArithmetic zeroDivisorTest
      rw [hdivisors]
      cases hliteral : isNonzeroLiteral right with
      | true => simp [hliteral]
      | false =>
          simp only [List.filter_cons, hliteral, Bool.not_false, if_true, List.filter_nil,
            List.map_cons, List.map_nil, List.foldl_nil, forall_const]
          exact storesExactly_ifThen_iff fun v => evaluate_divisorIsZero hstate hright hz hzero

/-- **When an arithmetic statement stores what COBOL stores.** -/
theorem stores_exact_value_iff {target raw : JavaExpression} {item : DataItem} {x : ℚ}
    (h : ArithmeticStatement program state target raw item x) (rounded : Bool) :
    StoresExactly program state (emitArithmetic program target raw rounded)
        (stored item rounded x) ↔
      StoresWhen program state target raw item rounded x := by
  obtain ⟨y, hlocated⟩ := h.located
  have hkept : |stored item rounded x| < 10 ^ item.integerDigits := abs_kept_lt item _
  have hassigns : Assigns program state item
      (applyNumericReceiverSemantics program raw target rounded) (stored item rounded x) ↔
        Fits program state (receiverLane program item raw rounded) raw ∧
          NarrowEnough program item raw rounded ∧ MagnitudeFits program item raw rounded x ∧
          signedAs item (cut item (scaled item rounded
            (intermediate (receiverLane program item raw rounded) raw x))) =
              stored item rounded x := by
    rcases Nat.eq_zero_or_pos item.decimalPlaces with hplaces | hplaces
    · exact assigns_whole_iff h.pictures h.receiver h.expression h.value hplaces hkept
    · have hlane : receiverLane program item raw rounded = .exact :=
        receiverLane_exact (.inl hplaces)
      rw [assigns_decimal_iff h.pictures h.receiver h.expression h.value hplaces, hlane]
      simp [NarrowEnough, MagnitudeFits, hlane]
  rw [storesExactly_emitArithmetic_iff h.pictures h.expression h.value,
    storesExactly_assignment_iff h.pictures h.receiver h.reference h.wellFormed hlocated, hassigns,
    stored, signedAs_cut_eq_iff]
  constructor
  · rintro ⟨hdivisors, hreceiver, hfits, hnarrow, hmagnitude, hquotient, hwhole⟩
    exact ⟨hreceiver, hdivisors, hfits, hnarrow, hmagnitude, hquotient, hwhole⟩
  · rintro ⟨hreceiver, hdivisors, hfits, hnarrow, hmagnitude, hquotient, hwhole⟩
    exact ⟨hdivisors, hreceiver, hfits, hnarrow, hmagnitude, hquotient, hwhole⟩

end Stores

/-! ### A product of table elements -/

namespace TableSample

/-- `05 WS-T PIC S9(9) OCCURS 2.` -/
def table : DataItem :=
  ⟨"WS-T", .numeric, 9, 0, true, [2], false⟩

/-- `01 WS-C PIC S9(9).` -/
def total : DataItem :=
  ⟨"WS-C", .numeric, 9, 0, true, [], false⟩

def program : CobolProgram :=
  ⟨[table, total], [], []⟩

def state : JavaState := fun name _ => if name = "WS_T" then 65536 else 0

def target : JavaExpression :=
  .variableRef "WS_C"

/-- `WS-T(k)` -/
def element (k : ℕ) : JavaExpression :=
  .arrayAccess (.variableRef "WS_T")
    (.binaryOp (numericJavaLiteral false k 0) .sub (.literal ⟨false, 1, 0, false⟩ none))

/-- `WS-T(1) operator WS-T(2)` -/
def raw (operator : BinaryOperator) : JavaExpression :=
  .binaryOp (element 1) operator (element 2)

theorem table_item : NumericItem program "WS_T" table :=
  ⟨by decide, by decide, rfl, rfl, by decide⟩

theorem total_item : NumericItem program "WS_C" total :=
  ⟨by decide, by decide, rfl, rfl, by decide⟩

theorem element_arithmetic (k : ℕ) : Arithmetic program (element k) [] :=
  .element (.item table_item rfl) (.literal false k 0) (.inl rfl) (by
    unfold numericJavaLiteral numericLiteralJavaType
    split_ifs <;> simp_all [requiresFractionalType])

theorem pictures : WithinPictures program state := by
  intro name item hitem _ indices
  have hmem : item ∈ [table, total] := List.mem_of_find?_eq_some hitem
  have hlength : item.picLength = 9 ∧ item.signed = true := by
    rcases List.mem_cons.1 hmem with rfl | hmem
    · exact ⟨rfl, rfl⟩
    · obtain rfl := List.mem_singleton.1 hmem
      exact ⟨rfl, rfl⟩
  refine ⟨?_, by simp [hlength.2]⟩
  rw [hlength.1]
  unfold state
  split <;> norm_num

theorem denote_element {k : ℕ} (hk : k = 1 ∨ k = 2) :
    denote program state (element k) = some (.number 65536) := by
  have htable : findDataItem program "WS_T" = some table := table_item.found
  rcases hk with rfl | rfl <;>
    norm_num [element, numericJavaLiteral, denote, htable, selected, subscripted, exactResult,
      NumericLiteral.value, NumericLiteral.signedDigits, table, contents, state]

theorem arithmeticStatement {operator : BinaryOperator} {x : ℚ}
    (hoperator : operator = .add ∨ operator = .sub ∨ operator = .mul)
    (hx : exactResult operator 65536 65536 = some x) :
    ArithmeticStatement program state target (raw operator) total x where
  receiver := total_item
  reference := trivial
  wellFormed := .item total_item rfl
  located := ⟨0, by
    have htotal : findDataItem program "WS_C" = some total := total_item.found
    simp [target, denote, htotal, selected, total, contents, state]⟩
  expression := .plain (.binary (element_arithmetic 1) (element_arithmetic 2) hoperator)
  value := by
    simp only [raw, denote, denote_element (.inl rfl), denote_element (.inr rfl)]
    rw [hx]
    rfl
  pictures := pictures

theorem stored_total (n : ℤ) : stored total false (n : ℚ) = (n.tmod (10 ^ 9) : ℤ) := by
  have hscaled : scaled total false (n : ℚ) = n := by simp [scaled, total]
  have hkept : kept total (n : ℚ) = remainder (n : ℚ) ((10 ^ 9 : ℤ) : ℚ) := by
    norm_num [kept, total, DataItem.integerDigits]
  rw [stored, hscaled, hkept, Decimal.remainder_intCast]

end TableSample

open TableSample in
/-- **A product of table elements wraps.** `COMPUTE WS-C = WS-T(1) * WS-T(2)` with 65536 in both
elements stores 0, where COBOL stores 294967296: the lowering knows no bound of a table element and
multiplies two `int`s. -/
theorem table_product_wraps :
    ¬(∀ (program : CobolProgram) (state : JavaState) (target raw : JavaExpression) (item : DataItem)
        (x : ℚ) (rounded : Bool), ArithmeticStatement program state target raw item x →
        StoresExactly program state (emitArithmetic program target raw rounded)
          (stored item rounded x)) ∧
      ArithmeticStatement program state target (raw .mul) total 4294967296 ∧
      execute false program state (emitArithmetic program target (raw .mul) false) =
        .ok (some (.int 0)) ∧
      stored total false 4294967296 = 294967296 := by
  have hstatement : ArithmeticStatement program state target (raw .mul) total 4294967296 :=
    arithmeticStatement (.inr (.inr rfl)) (by norm_num [exactResult])
  have htrapped : execute true program state (emitArithmetic program target (raw .mul) false) =
      .error .wraps := by decide
  have hstored : stored total false 4294967296 = 294967296 := by
    have h := stored_total 4294967296
    norm_num at h
    exact h
  refine ⟨?_, hstatement, by decide, hstored⟩
  intro hclaim
  obtain ⟨value, -, -, hvalue⟩ := hclaim _ _ _ _ _ _ false hstatement
  cases htrapped.symm.trans hvalue

open TableSample in
/-- The sum of the two elements meets the condition, their product does not. -/
theorem stores_exact_value_iff_sample :
    StoresWhen program state target (raw .add) total false 131072 ∧
      ¬StoresWhen program state target (raw .mul) total false 4294967296 := by
  constructor
  · have hstatement : ArithmeticStatement program state target (raw .add) total 131072 :=
      arithmeticStatement (.inl rfl) (by norm_num [exactResult])
    have hstored : stored total false 131072 = 131072 := by
      have h := stored_total 131072
      norm_num at h
      exact h
    refine (stores_exact_value_iff hstatement false).1 ⟨.int 131072, ?_, by decide, by decide⟩
    rw [hstored]
    rfl
  · intro hwhen
    have hstatement : ArithmeticStatement program state target (raw .mul) total 4294967296 :=
      arithmeticStatement (.inr (.inr rfl)) (by norm_num [exactResult])
    have htrapped : execute true program state (emitArithmetic program target (raw .mul) false) =
        .error .wraps := by decide
    obtain ⟨value, -, -, hvalue⟩ := (stores_exact_value_iff hstatement false).2 hwhen
    cases htrapped.symm.trans hvalue

end CobolJava.Transformation
