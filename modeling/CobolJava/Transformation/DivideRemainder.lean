/-
**`DIVIDE … REMAINDER`.**

The two statements emitted for a `DIVIDE` with a `REMAINDER` phrase (`map_cobol_statement` of
`cobol_to_java_mapping.py`): the quotient is stored first, and the remainder is computed from the
operands as they are read behind that store, with an intermediate quotient of 34 digits.

Main definitions:

* `DivideStatement`, `mapDivide` — the statement, and what it is lowered to;
* `RemainderExact` — the remainder is assigned what the division identity says;
* `KeepsIdentity` — when it is.

Main results:

* `remainderExact_iff` — **when the division identity holds**.
-/

import CobolJava.Lib.PyLines
import CobolJava.Transformation.ScaledReceiver
import CobolJava.Transformation.SizeErrors
import CobolJava.Transformation.StatementStates

set_option autoImplicit false

namespace CobolJava.Transformation

open Decimal (setScale remainder truncate roundToPrecision)

/-! ### The statement -/

/-- An operand or a receiver as the statement spells it, with the Java it is lowered to. -/
structure DivideOperand where
  text : List Char
  java : JavaExpression

/-- `DIVIDE source BY divisor GIVING target [ROUNDED] [REMAINDER remainder]` with its phrases. -/
structure DivideStatement (β : Type) where
  source : DivideOperand
  divisor : DivideOperand
  target : DivideOperand
  remainder : Option DivideOperand
  rounded : Bool
  sizeErrorBody : List β
  notSizeErrorBody : List β

section Emission

variable (program : CobolProgram) {β : Type}

/-- `str(text).strip().upper()` -/
def operandKey (operand : DivideOperand) : List Char :=
  Py.Chars.upper (Py.Chars.strip operand.text)

/-- The quotient receiver is spelled like one of the operands. -/
def overlapsOperand (stmt : DivideStatement β) : Bool :=
  [operandKey stmt.source, operandKey stmt.divisor].contains (operandKey stmt.target)

/-- `source / divisor` -/
def quotientExpression (stmt : DivideStatement β) : JavaExpression :=
  .binaryOp stmt.source.java .div stmt.divisor.java

/-- Decimal places of the quotient receiver. -/
def quotientScale (target : JavaExpression) : ℕ :=
  match findDataItem program (arrayBaseName target) with
  | some item => if item.isNumeric then item.decimalPlaces else 0
  | none => 0

/-- `source - quotient * divisor`, with the quotient cut to the places of its receiver. -/
def remainderRaw (stmt : DivideStatement β) : JavaExpression :=
  let intermediateQuotient : JavaExpression :=
    .decimalMethod (promoteToDecimal program (quotientExpression stmt))
      (.setScale (quotientScale program stmt.target.java) .down)
  .binaryOp stmt.source.java .sub
    (.binaryOp intermediateQuotient .mul stmt.divisor.java)

/-- What the remainder is assigned. -/
def remainderExpression (stmt : DivideStatement β) (remainder : DivideOperand) : JavaExpression :=
  if stmt.rounded || overlapsOperand stmt then
    .unsupported ("DIVIDE ... REMAINDER " ++ String.ofList remainder.text)
      "REMAINDER with ROUNDED or with an overlapping quotient receiver is not certified"
  else applyNumericReceiverSemantics program (remainderRaw program stmt) remainder.java false

/-- The statement that stores the remainder. -/
def remainderStatement (stmt : DivideStatement β) (remainder : DivideOperand) : JavaStatement :=
  let assignment :=
    JavaStatement.assignment remainder.java (remainderExpression program stmt remainder)
  match zeroDivisorTest program (quotientExpression stmt) with
  | none => assignment
  | some zero => .ifThen (.unaryOp .not zero) assignment

/-- The statements a `DIVIDE` is lowered to. -/
def mapDivide (count : ℕ) (stmt : DivideStatement β) : List (SizeStatement β) :=
  let quotient := emitSized program "DivideStatement" stmt.target.java (quotientExpression stmt)
    stmt.rounded count stmt.sizeErrorBody stmt.notSizeErrorBody
  match stmt.remainder with
  | none => [quotient]
  | some remainder =>
      if !(stmt.sizeErrorBody.isEmpty && stmt.notSizeErrorBody.isEmpty) then
        [.assignment stmt.target.java (.java (.unsupported
          ("DIVIDE ... REMAINDER " ++ String.ofList remainder.text ++ " ON SIZE ERROR")
          "SIZE ERROR with REMAINDER is not certified"))]
      else [quotient, .java (remainderStatement program stmt remainder)]

end Emission

/-! ### The division identity -/

/-- **The remainder of the division identity**: the exact quotient is truncated to the places of its
receiver. -/
def identityRemainder (places : ℕ) (x y : ℚ) : ℚ :=
  x - setScale .down places (x / y) * y

/-- The remainder with a quotient of 34 digits. -/
def carriedRemainder (places : ℕ) (x y : ℚ) : ℚ :=
  x - setScale .down places (roundToPrecision decimal128 (x / y)) * y

/-- What the Java receiver holds of a value: without whole digits nothing is cut. -/
def held (item : DataItem) (x : ℚ) : ℚ :=
  signedAs item (cut item (scaled item false x))

/-- A literal of at most 18 digits, or a reference to a numeric item or table element. -/
inductive IsDivideOperand (program : CobolProgram) : JavaExpression → Prop
  | literal (negative : Bool) {unscaled : ℕ} (places : ℕ) (hdigits : unscaled < 10 ^ 18) :
      IsDivideOperand program (numericJavaLiteral negative unscaled places)
  | reference {e : JavaExpression} {item : DataItem}
      (hitem : NumericItem program (arrayBaseName e) item) (href : IsReference e) :
      IsDivideOperand program e

/-- **A `DIVIDE` with a remainder and a state it is run in**: both receivers are numeric items or
table elements, and the operands have the values `x` and `y`, which is not zero. -/
structure RemainderDivision (program : CobolProgram) (state : JavaState) {β : Type}
    (stmt : DivideStatement β) (remainder : DivideOperand) (quotientItem remainderItem : DataItem)
    (x y : ℚ) : Prop where
  phrase : stmt.remainder = some remainder
  unrounded : stmt.rounded = false
  quotientReceiver : NumericItem program (arrayBaseName stmt.target.java) quotientItem
  remainderReceiver : NumericItem program (arrayBaseName remainder.java) remainderItem
  /-- A numeric `PICTURE` has a digit position. -/
  digits : 0 < remainderItem.picLength
  source : IsDivideOperand program stmt.source.java
  divisor : IsDivideOperand program stmt.divisor.java
  dividendValue : denote program state stmt.source.java = some (.number x)
  divisorValue : denote program state stmt.divisor.java = some (.number y)
  nonzero : y ≠ 0

/-- **The division identity holds**: the statement behind the one for the quotient assigns the
remainder of the operands' values before both. -/
def RemainderExact (program : CobolProgram) (state : JavaState) {β : Type} (count : ℕ)
    (stmt : DivideStatement β) (quotientItem remainderItem : DataItem) (x y : ℚ) : Prop :=
  ∃ quotientStatement remainderStatement next value,
    mapDivide program count stmt = [.java quotientStatement, .java remainderStatement] ∧
    stateAfter program state quotientStatement = .ok next ∧
    execute false program next remainderStatement = .ok (some value) ∧
    value.number =
      some (stored remainderItem false (identityRemainder quotientItem.decimalPlaces x y))

/-- An operand is read as a number. -/
def ReadsNumber (program : CobolProgram) (state : JavaState) (e : JavaExpression) (x : ℚ) : Prop :=
  evaluate false program state (promoteToDecimal program e) = .ok (.decimal x)

/-- **When the identity holds**: the statement has no phrase and its quotient receiver is not
spelled like an operand; and behind the store of the quotient the remainder receiver exists, the
divisor is not zero, and the operands as they are read there, with a quotient of 34 digits, leave
what the remainder receiver is to hold. -/
structure KeepsIdentity (program : CobolProgram) (state : JavaState) {β : Type}
    (stmt : DivideStatement β) (remainder : DivideOperand) (quotientItem remainderItem : DataItem)
    (x y : ℚ) : Prop where
  unphrased : stmt.sizeErrorBody = [] ∧ stmt.notSizeErrorBody = []
  admitted : overlapsOperand stmt = false
  again : ∃ next,
    stateAfter program state
        (emitArithmetic program stmt.target.java (quotientExpression stmt) false) = .ok next ∧
    (∃ v, evaluate false program next remainder.java = .ok v) ∧
    ∃ x' y', ReadsNumber program next stmt.source.java x' ∧
      ReadsNumber program next stmt.divisor.java y' ∧ y' ≠ 0 ∧
      held remainderItem (carriedRemainder quotientItem.decimalPlaces x' y') =
        stored remainderItem false (identityRemainder quotientItem.decimalPlaces x y)

section Law

variable {program : CobolProgram} {state : JavaState} {β : Type}

/-! ### `BigDecimal` methods -/

theorem evaluate_decimalMethod_eq_ok {object : JavaExpression} {method : DecimalMethod}
    {v : JavaValue} :
    evaluate false program state (.decimalMethod object method) = .ok v ↔
      ∃ x, evaluate false program state object = .ok (.decimal x) ∧
        applyDecimalMethod method (.decimal x) = .ok v := by
  simp only [evaluate, Py.bind_eq_ok_iff]
  constructor
  · rintro ⟨value, hvalue, happly⟩
    cases value with
    | decimal x => exact ⟨x, hvalue, happly⟩
    | int _ | long _ | boolean _ | array _ _ => cases happly
  · rintro ⟨x, hx, happly⟩
    exact ⟨_, hx, happly⟩

theorem evaluate_decimalOperation_eq_ok {object argument : JavaExpression}
    {method : DecimalOperation} {v : JavaValue} :
    evaluate false program state (.decimalOperation object method argument) = .ok v ↔
      ∃ x y, evaluate false program state object = .ok (.decimal x) ∧
        evaluate false program state argument = .ok (.decimal y) ∧
        applyDecimalOperation method (.decimal x) (.decimal y) = .ok v := by
  simp only [evaluate, Py.bind_eq_ok_iff]
  constructor
  · rintro ⟨left, hleft, right, hright, happly⟩
    cases left with
    | decimal x =>
        cases right with
        | decimal y => exact ⟨x, y, hleft, hright, happly⟩
        | int _ | long _ | boolean _ | array _ _ => cases happly
    | int _ | long _ | boolean _ | array _ _ => cases happly
  · rintro ⟨x, y, hx, hy, happly⟩
    exact ⟨_, hx, _, hy, happly⟩

/-- **The remainder before it is scaled.** -/
theorem evaluate_remainderRaw {stmt : DivideStatement β} {v : JavaValue} :
    evaluate false program state (promoteToDecimal program (remainderRaw program stmt)) = .ok v ↔
      ∃ x y, ReadsNumber program state stmt.source.java x ∧
        ReadsNumber program state stmt.divisor.java y ∧ y ≠ 0 ∧
        v = .decimal (carriedRemainder (quotientScale program stmt.target.java) x y) := by
  have hpromoted : promoteToDecimal program (remainderRaw program stmt) =
      .decimalOperation (promoteToDecimal program stmt.source.java) .subtract
        (.decimalOperation
          (.decimalMethod
            (.decimalOperation (promoteToDecimal program stmt.source.java) .divide
              (promoteToDecimal program stmt.divisor.java))
            (.setScale (quotientScale program stmt.target.java) .down)) .multiply
          (promoteToDecimal program stmt.divisor.java)) := rfl
  rw [hpromoted]
  constructor
  · intro h
    obtain ⟨x, z, hx, hz, hv⟩ := evaluate_decimalOperation_eq_ok.1 h
    obtain ⟨q, y, hq, hy, hz⟩ := evaluate_decimalOperation_eq_ok.1 hz
    obtain ⟨q', hquotient, hq⟩ := evaluate_decimalMethod_eq_ok.1 hq
    obtain ⟨x', y', hx', hy', hquotient⟩ := evaluate_decimalOperation_eq_ok.1 hquotient
    obtain rfl := JavaValue.decimal.inj (Except.ok.inj (hx.symm.trans hx'))
    obtain rfl := JavaValue.decimal.inj (Except.ok.inj (hy.symm.trans hy'))
    by_cases hzero : y = 0
    · simp [applyDecimalOperation, hzero] at hquotient
    · simp only [applyDecimalOperation, hzero, if_false, Except.ok.injEq,
        JavaValue.decimal.injEq] at hquotient hz hv
      simp only [applyDecimalMethod, Except.ok.injEq, JavaValue.decimal.injEq] at hq
      refine ⟨x, y, hx, hy, hzero, ?_⟩
      rw [← hv, ← hz, ← hq, ← hquotient, carriedRemainder]
  · rintro ⟨x, y, hx, hy, hzero, rfl⟩
    refine evaluate_decimalOperation_eq_ok.2 ⟨x, _, hx, ?_, rfl⟩
    refine evaluate_decimalOperation_eq_ok.2 ⟨_, y, ?_, hy, rfl⟩
    refine evaluate_decimalMethod_eq_ok.2 ⟨_, ?_, rfl⟩
    exact evaluate_decimalOperation_eq_ok.2 ⟨x, y, hx, hy, if_neg hzero⟩

/-! ### The remainder receiver -/

/-- What is assigned is scaled in the exact lane, with its magnitude taken for an unsigned
receiver. -/
theorem applyNumericReceiverSemantics_remainderRaw {stmt : DivideStatement β}
    {target : JavaExpression} {item : DataItem}
    (hitem : NumericItem program (arrayBaseName target) item) :
    applyNumericReceiverSemantics program (remainderRaw program stmt) target false =
      let scaled :=
        if item.decimalPlaces > 0 then
          scaleDecimalReceiver program (remainderRaw program stmt) item false
        else scaleExact program (remainderRaw program stmt) item false
      if item.signed then scaled
      else if item.decimalPlaces > 0 then .decimalMethod scaled .abs
      else .staticMethod .abs scaled := by
  have hlane : nativeLane program (remainderRaw program stmt) item false = false := by
    have hfractional : requiresFractionalType program (remainderRaw program stmt) = true := by
      simp [remainderRaw, requiresFractionalType]
    simp [nativeLane, hfractional]
  have hnegative : canBeNegative program (remainderRaw program stmt) = true := rfl
  have hscale : scaleNumericReceiver program (remainderRaw program stmt) item false =
      if item.decimalPlaces > 0 then
        scaleDecimalReceiver program (remainderRaw program stmt) item false
      else scaleExact program (remainderRaw program stmt) item false := by
    simp [scaleNumericReceiver, hlane]
  have hraw : remainderRaw program stmt = .binaryOp stmt.source.java .sub
      (.binaryOp (.decimalMethod (promoteToDecimal program (quotientExpression stmt))
        (.setScale (quotientScale program stmt.target.java) .down)) .mul stmt.divisor.java) := rfl
  dsimp only
  rw [← hscale]
  rw [hraw] at hnegative ⊢
  simp only [applyNumericReceiverSemantics, hitem.found, hitem.numeric, hnegative]
  simp

variable (program state) in
theorem evaluate_bound_remainder {item : DataItem} (suffix : Bool)
    (hrange : inRange suffix (10 ^ item.integerDigits)) :
    evaluate false program state (boundDecimal item.integerDigits suffix) =
      .ok (.decimal (10 ^ item.integerDigits)) :=
  evaluate_of_trapped ((evaluate_boundDecimal hrange).2 ⟨trivial, rfl⟩)

/-- A number that is scaled and cut to the receiver. -/
theorem evaluate_cut {raw : JavaExpression} {item : DataItem} {places : ℕ} (suffix : Bool)
    (hrange : inRange suffix (10 ^ item.integerDigits)) {v : JavaValue} :
    evaluate false program state
        (if item.integerDigits > 0 then
          .decimalOperation
            (.decimalMethod (promoteToDecimal program raw) (.setScale places .down)) .remainder
            (boundDecimal item.integerDigits suffix)
        else .decimalMethod (promoteToDecimal program raw) (.setScale places .down)) = .ok v ↔
      ∃ z, ReadsNumber program state raw z ∧
        v = .decimal (cut item (setScale .down places z)) := by
  have hscaled : ∀ {v}, evaluate false program state
      (.decimalMethod (promoteToDecimal program raw) (.setScale places .down)) = .ok v ↔
      ∃ z, ReadsNumber program state raw z ∧ v = .decimal (setScale .down places z) := by
    intro v
    rw [evaluate_decimalMethod_eq_ok]
    simp only [applyDecimalMethod, Except.ok.injEq, eq_comm, ReadsNumber]
  by_cases hpos : item.integerDigits > 0
  · have hbound := evaluate_bound_remainder program state suffix hrange
    rw [if_pos hpos, evaluate_decimalOperation_eq_ok]
    simp only [cut, if_pos hpos]
    constructor
    · rintro ⟨y, m, hy, hm, hv⟩
      obtain ⟨z, hz, hyz⟩ := hscaled.1 hy
      obtain rfl := JavaValue.decimal.inj hyz
      obtain rfl := JavaValue.decimal.inj (Except.ok.inj (hm.symm.trans hbound))
      rw [applyDecimalOperation_remainder] at hv
      exact ⟨z, hz, (Except.ok.inj hv).symm⟩
    · rintro ⟨z, hz, rfl⟩
      exact ⟨_, _, hscaled.2 ⟨z, hz, rfl⟩, hbound, applyDecimalOperation_remainder _ _⟩
  · rw [if_neg hpos]
    simp only [cut, if_neg hpos]
    exact hscaled

theorem held_whole {item : DataItem} (hplaces : item.decimalPlaces = 0) (z : ℚ) :
    held item z = ((if item.signed then wholeCut item (truncate z)
      else |wholeCut item (truncate z)| : ℤ) : ℚ) := by
  have hcut : cut item (scaled item false z) = (wholeCut item (truncate z) : ℤ) := by
    rw [← cut_intCast, scaled, hplaces, Decimal.setScale_zero_places]
    rfl
  rw [held, hcut, signedAs]
  split
  · rfl
  · exact Int.cast_abs.symm

theorem abs_wholeCut_lt {item : DataItem} (hpos : item.integerDigits > 0) (n : ℤ) :
    |wholeCut item n| < 10 ^ item.integerDigits := by
  have hpower : (0 : ℚ) < 10 ^ item.integerDigits := by positivity
  have hlt := Decimal.abs_remainder_lt (n : ℚ) hpower
  have hcut := cut_intCast item n
  rw [cut, if_pos hpos] at hcut
  rw [hcut] at hlt
  exact_mod_cast hlt

theorem number_storedValue_held (item : DataItem) (z : ℚ) :
    (storedValue item (held item z)).number = some (held item z) := by
  rw [storedValue]
  by_cases hplaces : item.decimalPlaces = 0
  · rw [if_pos hplaces, held_whole hplaces, Rat.num_intCast]
    cases decide (item.picLength > 9) <;> rfl
  · rw [if_neg hplaces]
    rfl

/-- A whole receiver is narrowed to its type, which its digits fit. -/
theorem evaluate_scaleExact_remainder {stmt : DivideStatement β} {item : DataItem} {name : String}
    (hitem : NumericItem program name item) (hpos : item.integerDigits > 0) {v : JavaValue} :
    evaluate false program state (scaleExact program (remainderRaw program stmt) item false) =
        .ok v ↔
      ∃ z, ReadsNumber program state (remainderRaw program stmt) z ∧
        v = integral (item.picLength > 9) (wholeCut item (truncate z)) := by
  have hdigits : item.integerDigits ≤ 18 := (Nat.sub_le _ _).trans hitem.digits
  have hnarrow : ∀ z : ℚ, applyDecimalMethod
      (if item.picLength > 9 then .longValueExact else .intValueExact)
      (.decimal (cut item (setScale .down 0 z))) =
        .ok (integral (item.picLength > 9) (wholeCut item (truncate z))) := by
    intro z
    have hcut : cut item (setScale .down 0 z) = (wholeCut item (truncate z) : ℤ) := by
      rw [← cut_intCast, Decimal.setScale_zero_places]
      rfl
    have hrange : inRange (item.picLength > 9) (wholeCut item (truncate z)) :=
      inRange_of_picLength hitem.digits ((abs_wholeCut_lt hpos _).le.trans
        (pow_le_pow_right₀ (by norm_num) (Nat.sub_le _ _)))
    have hchecked := checked_eq_ok.2 ⟨hrange, rfl⟩
    rw [← narrowExact_intCast] at hchecked
    rw [hcut, ← hchecked]
    by_cases hlong : item.picLength > 9
    · simp only [hlong, decide_true, if_true]
      rfl
    · simp only [hlong, decide_false, if_false]
      rfl
  rw [scaleExact, evaluate_decimalMethod_eq_ok]
  constructor
  · rintro ⟨y, hy, hv⟩
    obtain ⟨z, hz, hyz⟩ := (evaluate_cut true (inRange_pow hdigits (by simp))).1 hy
    obtain rfl := JavaValue.decimal.inj hyz
    exact ⟨z, hz, Except.ok.inj (hv.symm.trans (hnarrow z))⟩
  · rintro ⟨z, hz, rfl⟩
    exact ⟨_, (evaluate_cut true (inRange_pow hdigits (by simp))).2 ⟨z, hz, rfl⟩, hnarrow z⟩

/-- **What is assigned to the remainder receiver.** -/
theorem evaluate_received {stmt : DivideStatement β} {target : JavaExpression} {item : DataItem}
    (hitem : NumericItem program (arrayBaseName target) item) (hdigits : 0 < item.picLength)
    {v : JavaValue} :
    evaluate false program state
        (applyNumericReceiverSemantics program (remainderRaw program stmt) target false) = .ok v ↔
      ∃ z, ReadsNumber program state (remainderRaw program stmt) z ∧
        v = storedValue item (held item z) := by
  rw [applyNumericReceiverSemantics_remainderRaw hitem]
  dsimp only
  rcases Nat.eq_zero_or_pos item.decimalPlaces with hplaces | hplaces
  · have hpos : item.integerDigits > 0 := by
      rw [DataItem.integerDigits, hplaces]
      omega
    have hvalue : ∀ z : ℚ, storedValue item (held item z) = integral (item.picLength > 9)
        (if item.signed then wholeCut item (truncate z) else |wholeCut item (truncate z)|) := by
      intro z
      rw [storedValue, if_pos hplaces, held_whole hplaces, Rat.num_intCast]
    have hscale : ∀ v, evaluate false program state
        (scaleExact program (remainderRaw program stmt) item false) = .ok v ↔
          ∃ z, ReadsNumber program state (remainderRaw program stmt) z ∧
            v = integral (item.picLength > 9) (wholeCut item (truncate z)) :=
      fun v => evaluate_scaleExact_remainder hitem hpos
    have hnot : ¬item.decimalPlaces > 0 := by omega
    simp only [hvalue, hnot, if_false]
    cases hsigned : item.signed with
    | true => simpa using hscale v
    | false =>
        have habs : ∀ z : ℚ, applyStatic false .abs
            (integral (item.picLength > 9) (wholeCut item (truncate z))) =
              .ok (integral (item.picLength > 9) |wholeCut item (truncate z)|) := by
          intro z
          have hrange : inRange (item.picLength > 9) |wholeCut item (truncate z)| := by
            refine inRange_of_picLength hitem.digits ?_
            rw [abs_abs]
            exact (abs_wholeCut_lt hpos _).le.trans
              (pow_le_pow_right₀ (by norm_num) (Nat.sub_le _ _))
          simp only [applyStatic, asIntegral_integral, wrapping, if_pos hrange]
        simp only [Bool.false_eq_true, if_false, evaluate, Py.bind_eq_ok_iff, hscale]
        constructor
        · rintro ⟨u, ⟨z, hz, rfl⟩, hv⟩
          exact ⟨z, hz, Except.ok.inj (hv.symm.trans (habs z))⟩
        · rintro ⟨z, hz, rfl⟩
          exact ⟨_, ⟨z, hz, rfl⟩, habs z⟩
  · have hvalue : ∀ z, storedValue item (held item z) =
        .decimal (signedAs item (cut item (setScale .down item.decimalPlaces z))) := by
      intro z
      rw [storedValue, if_neg (by omega)]
      rfl
    have hbound : item.integerDigits ≤ 18 := (Nat.sub_le _ _).trans hitem.digits
    have hscale : ∀ v, evaluate false program state
        (scaleDecimalReceiver program (remainderRaw program stmt) item false) = .ok v ↔
          ∃ z, ReadsNumber program state (remainderRaw program stmt) z ∧
            v = .decimal (cut item (setScale .down item.decimalPlaces z)) :=
      fun v => evaluate_cut _ (inRange_suffix hbound)
    have hpos : item.decimalPlaces > 0 := hplaces
    simp only [hvalue, signedAs, hpos, if_true]
    cases hsigned : item.signed with
    | true => simpa using hscale v
    | false =>
        simp only [Bool.false_eq_true, if_false, evaluate_decimalMethod_eq_ok, hscale]
        constructor
        · rintro ⟨y, ⟨z, hz, hyz⟩, hv⟩
          obtain rfl := JavaValue.decimal.inj hyz
          exact ⟨z, hz, (Except.ok.inj hv).symm⟩
        · rintro ⟨z, hz, rfl⟩
          exact ⟨_, ⟨z, hz, rfl⟩, rfl⟩

theorem assignable_storedValue {item : DataItem} {name : String}
    (hitem : NumericItem program name item) (x : ℚ) :
    assignable (mapPicToJavaType item) (storedValue item x) = .ok (storedValue item x) := by
  rw [storedValue]
  by_cases hplaces : item.decimalPlaces = 0
  · by_cases hlong : item.picLength > 9
    · simp [mapPicToJavaType, hitem.numeric, hitem.elementary, hplaces, hlong, integral, assignable]
    · simp [mapPicToJavaType, hitem.numeric, hitem.elementary, hplaces, hlong, integral, assignable]
  · simp [mapPicToJavaType, hitem.numeric, hitem.elementary, hplaces, Nat.pos_of_ne_zero hplaces,
      assignable]

/-- **The assignment of the remainder.** -/
theorem execute_assignment_remainder {stmt : DivideStatement β} {target : JavaExpression}
    {item : DataItem} (hitem : NumericItem program (arrayBaseName target) item)
    (hdigits : 0 < item.picLength) {value : JavaValue} :
    execute false program state (.assignment target
        (applyNumericReceiverSemantics program (remainderRaw program stmt) target false)) =
          .ok (some value) ↔
      (∃ v, evaluate false program state target = .ok v) ∧
        ∃ z, ReadsNumber program state (remainderRaw program stmt) z ∧
          value = storedValue item (held item z) := by
  simp only [execute, declaredItem_eq hitem, Py.ok_bind]
  constructor
  · intro h
    obtain ⟨place, hplace, h⟩ := Py.bind_ok h
    obtain ⟨v, hv, h⟩ := Py.bind_ok h
    obtain ⟨z, hz, rfl⟩ := (evaluate_received hitem hdigits).1 hv
    rw [assignable_storedValue hitem] at h
    exact ⟨⟨place, hplace⟩, z, hz, (Option.some.inj (Except.ok.inj h)).symm⟩
  · rintro ⟨⟨place, hplace⟩, z, hz, rfl⟩
    rw [hplace, (evaluate_received hitem hdigits).2 ⟨z, hz, rfl⟩]
    simp only [Py.ok_bind, assignable_storedValue hitem]

/-! ### The test of the divisor -/

theorem IsDivideOperand.divisionDivisors {e : JavaExpression} (h : IsDivideOperand program e) :
    divisionDivisors e = [] := by
  cases h with
  | literal negative places hdigits => rfl
  | reference hitem href =>
      cases e with
      | variableRef name => rfl
      | arrayAccess array index => rfl
      | _ => cases href

/-- A whole literal is read in the type its suffix says. -/
theorem evaluate_wholeLiteral (negative : Bool) {unscaled : ℕ} (hdigits : unscaled < 10 ^ 18) :
    evaluate false program state (numericJavaLiteral negative unscaled 0) =
      .ok (integral (javaIntegralSuffix negative unscaled 0)
        (if negative then -(unscaled : ℤ) else unscaled)) := by
  set n : ℤ := if negative then -(unscaled : ℤ) else unscaled with hn
  have hbound : |n| ≤ 10 ^ 18 := by
    rw [hn]
    split <;> simp <;> omega
  have hrange : inRange (javaIntegralSuffix negative unscaled 0) n := by
    cases hsuffix : javaIntegralSuffix negative unscaled 0 with
    | true =>
        have hdigits : 18 ≤ (if true = true then 18 else 9) := le_rfl
        exact inRange_pow hdigits hbound
    | false =>
        rw [javaIntegralSuffix, ← hn] at hsuffix
        simp only [decide_true, Bool.true_and, Bool.or_eq_false_iff, decide_eq_false_iff_not,
          not_lt] at hsuffix
        exact ⟨hsuffix.2, hsuffix.1⟩
  have htype : ¬numericLiteralJavaType negative unscaled 0 = .decimal := by
    unfold numericLiteralJavaType
    split_ifs <;> simp_all
  have hsigned : NumericLiteral.signedDigits
      ⟨negative, unscaled, 0, javaIntegralSuffix negative unscaled 0⟩ = n := rfl
  simp only [numericJavaLiteral, evaluate, literalValue, Option.some.injEq, if_neg htype, hsigned]
  rw [if_pos (by simpa using hrange)]

theorem readsNumber_wholeLiteral {negative : Bool} {unscaled : ℕ} {y : ℚ}
    (h : ReadsNumber program state (numericJavaLiteral negative unscaled 0) y) :
    y = ((if negative then -(unscaled : ℤ) else unscaled : ℤ) : ℚ) := by
  have hvalue : evaluate false program state
      (promoteToDecimal program (numericJavaLiteral negative unscaled 0)) =
        .ok (.decimal (NumericLiteral.value
          ⟨negative, unscaled, 0, javaIntegralSuffix negative unscaled 0⟩)) := by
    unfold numericJavaLiteral numericLiteralJavaType
    split_ifs
    · omega
    · rfl
    · rfl
  rw [ReadsNumber, hvalue] at h
  rw [← JavaValue.decimal.inj (Except.ok.inj h), NumericLiteral.value_of_places_eq_zero rfl]
  rfl

/-- **A divisor that is not zero passes its test.** -/
theorem evaluate_divisorIsZero_of_reads {e : JavaExpression} {y : ℚ}
    (h : IsDivideOperand program e) (hreads : ReadsNumber program state e y) (hzero : y ≠ 0) :
    evaluate false program state (divisorIsZero program e) = .ok (.boolean false) := by
  have hcompare : ∀ (isLong : Bool) {left : JavaExpression} {n : ℤ}, n ≠ 0 →
      evaluate false program state left = .ok (integral isLong n) →
      evaluate false program state (.binaryOp left .eq zeroLiteral) = .ok (.boolean false) := by
    intro isLong left n hn hleft
    have hliteral : evaluate false program state zeroLiteral = .ok (integral false 0) := rfl
    simp only [evaluate, hleft, Py.ok_bind] at hliteral ⊢
    rw [if_neg (by simp), hliteral]
    simp only [Py.ok_bind, applyBinary, promoted_integral, decide_eq_false hn]
  have hsign : y.num.sign ≠ 0 := by
    rw [Ne, Int.sign_eq_zero_iff_zero, Rat.num_eq_zero]
    exact hzero
  have hexact : evaluate false program state
      (.binaryOp (.decimalMethod (promoteToDecimal program e) .signum) .eq zeroLiteral) =
        .ok (.boolean false) :=
    hcompare false hsign (evaluate_decimalMethod_eq_ok.2 ⟨y, hreads, rfl⟩)
  rw [divisorIsZero]
  split
  · exact hexact
  · rename_i hfractional
    have hwhole : requiresFractionalType program e = false := by simpa using hfractional
    -- a whole divisor is compared natively
    cases h with
    | @literal negative unscaled places hdigits =>
        obtain rfl := numericJavaLiteral_places hwhole
        obtain rfl := readsNumber_wholeLiteral hreads
        exact hcompare _ (by exact_mod_cast hzero) (evaluate_wholeLiteral negative hdigits)
    | @reference _ item hitem href =>
        have hplaces : ¬item.decimalPlaces > 0 := by
          rw [requiresFractionalType_reference href hitem.found] at hwhole
          simpa using hwhole
        have hpromote : promoteToDecimal program e = .staticMethod .valueOf e := by
          have hreference : promoteToDecimal program e = promoteReference program e := by
            cases e with
            | variableRef name => rfl
            | arrayAccess array index => rfl
            | _ => cases href
          rw [hreference, promoteReference]
          simp [hitem.found, hplaces]
        rw [ReadsNumber, hpromote] at hreads
        obtain ⟨u, hu, happly⟩ := Py.bind_ok hreads
        cases u with
        | int n =>
            obtain rfl := JavaValue.decimal.inj (Except.ok.inj happly)
            exact hcompare false (by exact_mod_cast hzero) hu
        | long n =>
            obtain rfl := JavaValue.decimal.inj (Except.ok.inj happly)
            exact hcompare true (by exact_mod_cast hzero) hu
        | decimal _ | boolean _ | array _ _ => cases happly

/-- **The statement for the remainder** assigns behind its test. -/
theorem execute_remainderStatement {stmt : DivideStatement β} {remainder : DivideOperand}
    {value : JavaValue} (hsource : IsDivideOperand program stmt.source.java)
    (hdivisor : IsDivideOperand program stmt.divisor.java) :
    execute false program state (remainderStatement program stmt remainder) = .ok (some value) ↔
      (isNonzeroLiteral stmt.divisor.java = true ∨
        evaluate false program state (divisorIsZero program stmt.divisor.java) =
          .ok (.boolean false)) ∧
      execute false program state (.assignment remainder.java
        (remainderExpression program stmt remainder)) = .ok (some value) := by
  have htest : zeroDivisorTest program (quotientExpression stmt) =
      if isNonzeroLiteral stmt.divisor.java then none
      else some (divisorIsZero program stmt.divisor.java) := by
    have hdivisors : divisionDivisors (quotientExpression stmt) = [stmt.divisor.java] := by
      simp [quotientExpression, divisionDivisors, hsource.divisionDivisors,
        hdivisor.divisionDivisors]
    rw [zeroDivisorTest, hdivisors]
    cases hliteral : isNonzeroLiteral stmt.divisor.java with
    | true => simp [hliteral]
    | false => simp [hliteral]
  rw [remainderStatement, htest]
  cases isNonzeroLiteral stmt.divisor.java with
  | true => simp
  | false =>
      simp only [Bool.false_eq_true, if_false, false_or]
      constructor
      · intro h
        obtain ⟨condition, hcondition, h⟩ := Py.bind_ok h
        obtain ⟨b, hb, hnot⟩ := Py.bind_ok hcondition
        cases b with
        | boolean b =>
            obtain rfl := Except.ok.inj hnot
            cases b with
            | true => cases h
            | false => exact ⟨hb, h⟩
        | int _ | long _ | decimal _ | array _ _ => cases hnot
      · rintro ⟨hzero, h⟩
        rw [execute_guarded hzero]
        exact h

/-! ### The law -/

/-- Without a phrase there is a statement for the quotient and one for the remainder. -/
theorem mapDivide_eq_iff {stmt : DivideStatement β} {remainder : DivideOperand} {count : ℕ}
    (hphrase : stmt.remainder = some remainder) (hrounded : stmt.rounded = false)
    {q r : JavaStatement} :
    mapDivide program count stmt = [.java q, .java r] ↔
      (stmt.sizeErrorBody = [] ∧ stmt.notSizeErrorBody = []) ∧
        q = emitArithmetic program stmt.target.java (quotientExpression stmt) false ∧
        r = remainderStatement program stmt remainder := by
  rw [mapDivide]
  simp only [hphrase, hrounded]
  by_cases hbodies : stmt.sizeErrorBody = [] ∧ stmt.notSizeErrorBody = []
  · simp [hbodies, emitSized, eq_comm]
  · have hrefused : (!(stmt.sizeErrorBody.isEmpty && stmt.notSizeErrorBody.isEmpty)) = true := by
      rw [Bool.not_eq_true', Bool.and_eq_false_iff]
      by_contra hempty
      push Not at hempty
      exact hbodies ⟨by simpa using hempty.1, by simpa using hempty.2⟩
    rw [if_pos hrefused]
    refine iff_of_false ?_ fun h => hbodies h.1
    intro h
    cases h

/-- The statement for the remainder, for operands that are not refused. -/
theorem execute_admitted {stmt : DivideStatement β} {remainder : DivideOperand}
    {quotientItem remainderItem : DataItem} {x y : ℚ} {next : JavaState} {value : JavaValue}
    (h : RemainderDivision program state stmt remainder quotientItem remainderItem x y)
    (hadmitted : overlapsOperand stmt = false) :
    execute false program next (remainderStatement program stmt remainder) = .ok (some value) ↔
      (∃ v, evaluate false program next remainder.java = .ok v) ∧
      ∃ x' y', ReadsNumber program next stmt.source.java x' ∧
        ReadsNumber program next stmt.divisor.java y' ∧ y' ≠ 0 ∧
        value = storedValue remainderItem
          (held remainderItem (carriedRemainder quotientItem.decimalPlaces x' y')) := by
  have hscale : quotientScale program stmt.target.java = quotientItem.decimalPlaces := by
    simp [quotientScale, h.quotientReceiver.found, h.quotientReceiver.numeric]
  have hexpression : remainderExpression program stmt remainder =
      applyNumericReceiverSemantics program (remainderRaw program stmt) remainder.java false := by
    simp [remainderExpression, h.unrounded, hadmitted]
  rw [execute_remainderStatement h.source h.divisor, hexpression,
    execute_assignment_remainder h.remainderReceiver h.digits]
  constructor
  · rintro ⟨-, hreceiver, z, hz, rfl⟩
    obtain ⟨x', y', hx, hy, hzero, hvalue⟩ := evaluate_remainderRaw.1 hz
    obtain rfl := JavaValue.decimal.inj hvalue
    exact ⟨hreceiver, x', y', hx, hy, hzero, by rw [hscale]⟩
  · rintro ⟨hreceiver, x', y', hx, hy, hzero, rfl⟩
    refine ⟨.inr (evaluate_divisorIsZero_of_reads h.divisor hy hzero), hreceiver, _, ?_, rfl⟩
    exact evaluate_remainderRaw.2 ⟨x', y', hx, hy, hzero, by rw [hscale]⟩

theorem execute_refused {stmt : DivideStatement β} {remainder : DivideOperand}
    {quotientItem remainderItem : DataItem} {x y : ℚ} {next : JavaState} {value : JavaValue}
    (h : RemainderDivision program state stmt remainder quotientItem remainderItem x y)
    (hrefused : overlapsOperand stmt = true) :
    execute false program next (remainderStatement program stmt remainder) ≠ .ok (some value) := by
  intro hrun
  obtain ⟨-, hassigned⟩ := (execute_remainderStatement h.source h.divisor).1 hrun
  rw [remainderExpression, if_pos (by simp [hrefused])] at hassigned
  obtain ⟨item, -, hassigned⟩ := Py.bind_ok hassigned
  obtain ⟨place, -, hassigned⟩ := Py.bind_ok hassigned
  obtain ⟨v, hunsupported, -⟩ := Py.bind_ok hassigned
  cases hunsupported

end Law

/-! ### A quotient receiver that is read again -/

namespace OverlapSample

/-- `05 WS-T PIC 9(4) OCCURS 2.` -/
def table : DataItem :=
  ⟨"WS-T", .numeric, 4, 0, false, [2], false⟩

/-- `01 WS-I PIC 9.` -/
def index : DataItem :=
  ⟨"WS-I", .numeric, 1, 0, false, [], false⟩

/-- `01 WS-R PIC 9(4).` -/
def rest : DataItem :=
  ⟨"WS-R", .numeric, 4, 0, false, [], false⟩

def program : CobolProgram :=
  ⟨[table, index, rest], [], []⟩

def state (i : ℤ) : JavaState :=
  fun name _ => if name = "WS_T" then 9 else if name = "WS_I" then i else 0

/-- `WS_T[subscript - 1]` -/
def element (subscript : JavaExpression) : JavaExpression :=
  .arrayAccess (.variableRef "WS_T") (.binaryOp subscript .sub (.literal ⟨false, 1, 0, false⟩ none))

def remainder : DivideOperand :=
  ⟨"WS-R".toList, .variableRef "WS_R"⟩

/-- `DIVIDE WS-T(WS-I) BY 2 GIVING WS-T(1) REMAINDER WS-R` -/
def stmt : DivideStatement Unit where
  source := ⟨"WS-T(WS-I)".toList, element (.variableRef "WS_I")⟩
  divisor := ⟨"2".toList, numericJavaLiteral false 2 0⟩
  target := ⟨"WS-T(1)".toList, element (numericJavaLiteral false 1 0)⟩
  remainder := some remainder
  rounded := false
  sizeErrorBody := []
  notSizeErrorBody := []

theorem table_item : NumericItem program "WS_T" table :=
  ⟨by decide, by decide, rfl, rfl, by decide⟩

theorem rest_item : NumericItem program "WS_R" rest :=
  ⟨by decide, by decide, rfl, rfl, by decide⟩

theorem denote_source {i : ℤ} (hi : i = 1 ∨ i = 2) :
    denote program (state i) stmt.source.java = some (.number 9) := by
  have hsource : stmt.source.java = element (.variableRef "WS_I") := rfl
  have htable : findDataItem program "WS_T" = some table := table_item.found
  have hindex : findDataItem program "WS_I" = some index := by rfl
  have hname : ¬"WS_I" = "WS_T" := by decide
  rw [hsource]
  rcases hi with rfl | rfl <;>
    norm_num [hname, element, denote, htable, hindex, selected, subscripted, exactResult,
      NumericLiteral.value, NumericLiteral.signedDigits, table, index, contents, state]

theorem division {i : ℤ} (hi : i = 1 ∨ i = 2) :
    RemainderDivision program (state i) stmt remainder table rest 9 2 where
  phrase := rfl
  unrounded := rfl
  quotientReceiver := table_item
  remainderReceiver := rest_item
  digits := by decide
  source := .reference table_item trivial
  divisor := .literal false 0 (by norm_num)
  dividendValue := denote_source hi
  divisorValue := by
    have hdivisor : stmt.divisor.java = numericJavaLiteral false 2 0 := rfl
    rw [hdivisor]
    simp [numericJavaLiteral, denote, NumericLiteral.value, NumericLiteral.signedDigits]
  nonzero := by norm_num

/-- The quotient 4 is stored in the first element. -/
theorem stateAfter_quotient {i : ℤ} (hi : i = 1 ∨ i = 2) :
    stateAfter program (state i)
        (emitArithmetic program stmt.target.java (quotientExpression stmt) false) =
      .ok (storeAt (state i) ("WS_T", [0]) 4) := by
  have hexecute : execute false program (state i)
      (emitArithmetic program stmt.target.java (quotientExpression stmt) false) =
        .ok (some (.int 4)) := by
    rcases hi with rfl | rfl <;> decide +kernel
  rw [stateAfter, hexecute]
  have hplace : location program (state i) stmt.target.java = .ok ("WS_T", [0]) := by
    rcases hi with rfl | rfl <;> decide
  have hcontents : unscaledContents table (.int 4) = 4 := by
    simp [unscaledContents, JavaValue.number, table, truncate]
  simp only [Py.ok_bind, receiver_emitArithmetic]
  have hname : arrayBaseName stmt.target.java = "WS_T" := rfl
  rw [hplace, hname, declaredItem_eq table_item]
  simp only [Py.ok_bind, hcontents]

theorem reads_source {i : ℤ} (hi : i = 1 ∨ i = 2) :
    ReadsNumber program (storeAt (state i) ("WS_T", [0]) 4) stmt.source.java
      (if i = 1 then 4 else 9) := by
  rcases hi with rfl | rfl <;> rfl

theorem reads_divisor (s : JavaState) : ReadsNumber program s stmt.divisor.java 2 := by
  have hdivisor : stmt.divisor.java = numericJavaLiteral false 2 0 := rfl
  have hpromoted : promoteToDecimal program (numericJavaLiteral false 2 0) =
      .literal ⟨false, 2, 0, false⟩ (some .decimal) := rfl
  rw [ReadsNumber, hdivisor, hpromoted]
  simp [evaluate, literalValue, NumericLiteral.value, NumericLiteral.signedDigits]

theorem round_half {n : ℤ} (h : |n| < 10) :
    roundToPrecision decimal128 ((n : ℚ) / 2) = (n : ℚ) / 2 := by
  have hplace : (n : ℚ) / 2 * 10 ^ 1 = ((5 * n : ℤ) : ℚ) := by
    push_cast
    ring
  refine Decimal.roundToPrecision_of_intCast hplace ?_
  have hfive : |(5 : ℤ)| = 5 := rfl
  rw [abs_mul, hfive, decimal128]
  omega

theorem setScale_half (n : ℤ) :
    setScale .down 0 ((n : ℚ) / 2) = ((n.tdiv 2 : ℤ) : ℚ) := by
  rw [Decimal.setScale_zero_places, Decimal.toInt_down]
  exact_mod_cast congrArg (Int.cast (R := ℚ)) (Decimal.truncate_div (K := ℚ) n 2)

theorem carriedRemainder_half {n : ℤ} (h : |n| < 10) :
    carriedRemainder 0 (n : ℚ) 2 = ((n.tmod 2 : ℤ) : ℚ) := by
  rw [carriedRemainder, round_half h, setScale_half, Int.tmod_def]
  push_cast
  ring

theorem identityRemainder_nine : identityRemainder 0 9 2 = ((1 : ℤ) : ℚ) := by
  have hnine := setScale_half 9
  rw [identityRemainder]
  push_cast at hnine
  rw [hnine]
  norm_num

theorem stored_whole {n : ℤ} (hn : 0 ≤ n) (hlt : n < 10 ^ 4) :
    stored rest false (n : ℚ) = n ∧ held rest (n : ℚ) = n := by
  have hscaled : scaled rest false (n : ℚ) = n := by
    have hplaces : rest.decimalPlaces = 0 := rfl
    rw [scaled, hplaces, Decimal.setScale_zero_places, Decimal.toInt_intCast]
  have hnonneg : (0 : ℚ) ≤ n := by exact_mod_cast hn
  have hsmall : |(n : ℚ)| < 10 ^ 4 := by
    rw [abs_of_nonneg hnonneg]
    exact_mod_cast hlt
  have hdigits : rest.integerDigits = 4 := rfl
  have hstored : stored rest false (n : ℚ) = n := by
    rw [stored, hscaled, kept, hdigits, Decimal.remainder_of_abs_lt hsmall]
    exact abs_of_nonneg hnonneg
  refine ⟨hstored, ?_⟩
  rw [held, ← kept_of_integerDigits_pos (by decide)]
  exact hstored

theorem keepsIdentity : KeepsIdentity program (state 2) stmt remainder table rest 9 2 where
  unphrased := ⟨rfl, rfl⟩
  admitted := by decide
  again := by
    refine ⟨_, stateAfter_quotient (.inr rfl), ⟨.int 0, by rfl⟩, 9, 2, reads_source (.inr rfl),
      reads_divisor _, by norm_num, ?_⟩
    have hplaces : table.decimalPlaces = 0 := rfl
    have hnine := carriedRemainder_half (n := 9) (by decide)
    rw [hplaces, identityRemainder_nine]
    push_cast at hnine
    rw [hnine]
    exact (stored_whole (n := 1) (by norm_num) (by norm_num)).2.trans
      (stored_whole (n := 1) (by norm_num) (by norm_num)).1.symm

/-- With `WS-I = 1` the remainder is that of the quotient. -/
theorem not_remainderExact :
    ¬RemainderExact program (state 1) 0 stmt table rest 9 2 := by
  rintro ⟨q, r, next, value, hmap, hnext, hrun, hnumber⟩
  obtain ⟨-, hq, hr⟩ := (mapDivide_eq_iff (division (.inl rfl)).phrase rfl).1 hmap
  have hquotient := stateAfter_quotient (i := 1) (.inl rfl)
  rw [hq, hquotient] at hnext
  obtain rfl := Except.ok.inj hnext
  rw [hr] at hrun
  have hdivision := division (i := 1) (.inl rfl)
  obtain ⟨-, x', y', hx, hy, -, rfl⟩ := (execute_admitted hdivision (by decide)).1 hrun
  obtain rfl := JavaValue.decimal.inj (Except.ok.inj ((reads_source (.inl rfl)).symm.trans hx))
  obtain rfl := JavaValue.decimal.inj (Except.ok.inj ((reads_divisor _).symm.trans hy))
  have hplaces : table.decimalPlaces = 0 := rfl
  have hfour := carriedRemainder_half (n := 4) (by decide)
  push_cast at hfour
  rw [number_storedValue_held, hplaces, identityRemainder_nine, if_pos rfl, hfour,
    (stored_whole (n := 1) (by norm_num) (by norm_num)).1] at hnumber
  have hzero := (stored_whole (n := 0) le_rfl (by norm_num)).2
  rw [Int.cast_zero] at hzero
  rw [hzero] at hnumber
  norm_num at hnumber

end OverlapSample

end CobolJava.Transformation
