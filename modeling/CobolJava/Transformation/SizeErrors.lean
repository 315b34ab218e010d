/-
**Arithmetic statements with `ON SIZE ERROR`.**

The Java emitted for an arithmetic statement with a `[NOT] ON SIZE ERROR` phrase (`_emit_arithmetic`
of `cobol_to_java_mapping.py`): a flag is set when a divisor is found to be zero, or when the exact
result at the scale of the receiver is too large; one of the two bodies is run, behind the store of
the result when there is no size error.  The bodies are statements of any kind.

Main definitions:

* `ScratchExpression`, `SizeStatement` — Java with the flag and the exact result;
* `SizeStatement.run` — a run, with its effects;
* `emitSized` — the statement;
* `SizeErrorExact` — the phrase is honoured;
* `HandlesSizeErrors` — when it is.

Main results:

* `run_sizeBlock` — what the emitted statement does;
* `sizeErrorExact_iff` — **when the phrase is honoured**;
* `handlesSizeErrors_of_undivided` — without a division it always is.
-/

import Mathlib.Logic.Function.Basic
import CobolJava.Transformation.ZeroDivisorGuard

set_option autoImplicit false

namespace CobolJava.Transformation

open RoundedArithmetic

/-! ### Scratch variables -/

/-- Expressions over the scratch variables of a statement. -/
inductive ScratchExpression
  /-- An expression without scratch variables. -/
  | java (e : JavaExpression)
  | scratch (name : String)
  | boolean (b : Bool)
  | null
  | not (e : ScratchExpression)
  /-- `object.method()` -/
  | method (object : ScratchExpression) (method : DecimalMethod)
  /-- `object.compareTo(argument)` -/
  | compareTo (object : ScratchExpression) (argument : JavaExpression)
  /-- `e >= 0` -/
  | atLeastZero (e : ScratchExpression)

/-- The contents of a scratch variable; `none` is `null`. -/
abbrev ScratchValue := Option JavaValue

/-- The scratch variables that are declared. -/
abbrev Frame := String → Option ScratchValue

/-- Java statements with scratch variables; `body` is a statement of one of the phrases. -/
inductive SizeStatement (β : Type)
  | skip
  | seq (first rest : SizeStatement β)
  /-- Declaration or assignment of a scratch variable. -/
  | setScratch (name : String) (e : ScratchExpression)
  | assignment (target : JavaExpression) (e : ScratchExpression)
  | ifThenElse (condition : ScratchExpression) (thenBody elseBody : SizeStatement β)
  /-- A statement without scratch variables. -/
  | java (s : JavaStatement)
  | body (s : β)

/-- What a run does to the program: it stores a value in the receiver, or runs a statement of a
phrase. -/
inductive Effect (β : Type)
  | store (value : JavaValue)
  | run (s : β)

section Emission

variable (program : CobolProgram) {β : Type}

/-- `_fresh_io_var`: a scratch name that is not used yet. -/
def freshIoVarName (stem : String) (count : ℕ) : String := "_" ++ stem ++ "_" ++ toString count

/-- The first power of ten that the receiver cannot hold. -/
def sizeBound (item : DataItem) : JavaExpression :=
  .literal ⟨false, 10 ^ item.integerDigits, 0, false⟩ (some .decimal)

def bodies : List β → SizeStatement β
  | [] => .skip
  | s :: ss => .seq (.body s) (bodies ss)

/-- The exact result is computed and compared, unless a divisor is zero. -/
def exactStep (raw : JavaExpression) (item : DataItem) (rounded : Bool) (flag exact : String) :
    SizeStatement β :=
  .ifThenElse (.not (.scratch flag))
    (.seq
      (.setScratch exact (.java (.decimalMethod (promoteToDecimal program raw)
        (.setScale item.decimalPlaces (receiverRounding rounded)))))
      (.setScratch flag
        (.atLeastZero (.compareTo (.method (.scratch exact) .abs) (sizeBound item)))))
    .skip

/-- The exact result as the receiver gets it. -/
def storedResult (item : DataItem) (exact : String) : ScratchExpression :=
  let magnitude : ScratchExpression :=
    if item.signed then .scratch exact else .method (.scratch exact) .abs
  if item.decimalPlaces = 0 then
    .method magnitude (if item.picLength > 9 then .longValueExact else .intValueExact)
  else magnitude

/-- The test of the divisors, `false` when there is none. -/
def zeroFlag (raw : JavaExpression) : ScratchExpression :=
  match zeroDivisorTest program raw with
  | some zero => .java zero
  | none => .boolean false

def sizeBlock (target raw : JavaExpression) (item : DataItem) (rounded : Bool) (count : ℕ)
    (sizeErrorBody notSizeErrorBody : List β) : SizeStatement β :=
  let flag := freshIoVarName "size" count
  let exact := freshIoVarName "exact" (count + 1)
  .seq (.setScratch flag (zeroFlag program raw)) <|
  .seq (.setScratch exact .null) <|
  .seq (exactStep program raw item rounded flag exact) <|
  .ifThenElse (.scratch flag) (bodies sizeErrorBody)
    (.seq (.assignment target (storedResult item exact)) (bodies notSizeErrorBody))

/-- An expression that was not lowered. -/
def isUnsupported : JavaExpression → Bool
  | .unsupported _ _ => true
  | _ => false

/-- What is emitted in place of a statement with a phrase that is refused. -/
def refusedSize (className : String) (target : JavaExpression) : SizeStatement β :=
  .assignment target (.java (.unsupported (className ++ " ... ON SIZE ERROR")
    "SIZE ERROR needs a numeric receiver and a lowered expression"))

/-- The statement that stores an arithmetic result, with its phrases; `className` is the class of
the COBOL statement. -/
def emitSized (className : String) (target raw : JavaExpression) (rounded : Bool) (count : ℕ)
    (sizeErrorBody notSizeErrorBody : List β) : SizeStatement β :=
  if sizeErrorBody.isEmpty && notSizeErrorBody.isEmpty then
    .java (emitArithmetic program target raw rounded)
  else
    match findDataItem program (arrayBaseName target) with
    | none => refusedSize className target
    | some item =>
        if item.isNumeric && !isUnsupported raw then
          sizeBlock program target raw item rounded count sizeErrorBody notSizeErrorBody
        else refusedSize className target

end Emission

/-! ### Runs -/

section Runs

variable (program : CobolProgram) (state : JavaState) {β : Type}

/-- The value of an expression over scratch variables. -/
def evaluateScratch (frame : Frame) : ScratchExpression → Except JavaFault ScratchValue
  | .java e => (evaluate false program state e).map some
  | .scratch name =>
      match frame name with
      | some value => .ok value
      | none => .error .doesNotCompile
  | .boolean b => .ok (some (.boolean b))
  | .null => .ok none
  | .not e => do
      match ← evaluateScratch frame e with
      | some (.boolean b) => .ok (some (.boolean !b))
      | _ => .error .doesNotCompile
  | .method object method => do
      match ← evaluateScratch frame object with
      | some value => (applyDecimalMethod method value).map some
      | none => .error .throws
  | .compareTo object argument => do
      match ← evaluateScratch frame object with
      | some (.decimal x) =>
          match ← evaluate false program state argument with
          | .decimal y => .ok (some (.int (x - y).num.sign))
          | _ => .error .doesNotCompile
      | some _ => .error .doesNotCompile
      | none => .error .throws
  | .atLeastZero e => do
      match ← evaluateScratch frame e with
      | some (.int n) => .ok (some (.boolean (decide (0 ≤ n))))
      | _ => .error .doesNotCompile

/-- The value that is assigned to a receiver. -/
def assigned (frame : Frame) (target : JavaExpression) (e : ScratchExpression) :
    Except JavaFault JavaValue := do
  let item ← declaredItem program (arrayBaseName target)
  let _ ← evaluate false program state target
  match ← evaluateScratch program state frame e with
  | some value => assignable (mapPicToJavaType item) value
  | none => .error .doesNotCompile

/-- A run: the scratch variables it leaves, and its effects in order. -/
def SizeStatement.run (frame : Frame) :
    SizeStatement β → Except JavaFault (Frame × List (Effect β))
  | .skip => .ok (frame, [])
  | .seq first rest => do
      let (frame, before) ← first.run frame
      let (frame, behind) ← rest.run frame
      return (frame, before ++ behind)
  | .setScratch name e => do
      let value ← evaluateScratch program state frame e
      return (Function.update frame name (some value), [])
  | .assignment target e => do
      let value ← assigned program state frame target e
      return (frame, [.store value])
  | .ifThenElse condition thenBody elseBody => do
      match ← evaluateScratch program state frame condition with
      | some (.boolean true) => thenBody.run frame
      | some (.boolean false) => elseBody.run frame
      | _ => .error .doesNotCompile
  | .java s => do
      match ← execute false program state s with
      | some value => return (frame, [.store value])
      | none => return (frame, [])
  | .body s => .ok (frame, [.run s])

/-- The effects of a statement that starts without scratch variables. -/
def effectsOf (statement : SizeStatement β) : Except JavaFault (List (Effect β)) :=
  (statement.run program state fun _ => none).map Prod.snd

attribute [grind =] evaluateScratch SizeStatement.run

end Runs

/-! ### The phrase -/

/-- **A statement with a phrase and a state it is run in**: the receiver is a numeric item or an
existing table element of at most 18 digits with `int` subscripts, the expression is built from such
items and literals, and every item is within its `PICTURE`. -/
structure SizedStatement (program : CobolProgram) (state : JavaState)
    (target raw : JavaExpression) (item : DataItem) : Prop where
  receiver : NumericItem program (arrayBaseName target) item
  reference : IsReference target
  wellFormed : Arithmetic program target []
  located : ∃ y, denote program state target = some (.number y)
  subscripts : Fits program state .exact target
  expression : DivisionExpression program state raw
  pictures : WithinPictures program state

/-- The scaled result has too many whole digits for the receiver. -/
def TooLarge (item : DataItem) (rounded : Bool) (x : ℚ) : Prop :=
  10 ^ item.integerDigits ≤ |scaled item rounded x|

instance (item : DataItem) (rounded : Bool) (x : ℚ) : Decidable (TooLarge item rounded x) := by
  unfold TooLarge
  infer_instance

/-- What a receiver gets of a scaled result: an unsigned one gets the magnitude. -/
def received (item : DataItem) (rounded : Bool) (x : ℚ) : ℚ :=
  if item.signed then scaled item rounded x else |scaled item rounded x|

/-- A divisor is zero, or the exact result at the scale of the receiver is too large. -/
def SizeError (program : CobolProgram) (state : JavaState) (raw : JavaExpression) (item : DataItem)
    (rounded : Bool) : Prop :=
  DividesByZero program state raw ∨
    ∃ x, denote program state raw = some (.number x) ∧ TooLarge item rounded x

/-- **The phrase is honoured.** -/
structure SizeErrorExact (program : CobolProgram) (state : JavaState) (target raw : JavaExpression)
    (item : DataItem) (rounded : Bool) : Prop where
  compiles : ∀ divisor ∈ testedDivisors raw, testCompiles program divisor = true
  /-- At a size error nothing is stored, and only the `SIZE ERROR` body is run. -/
  sizeError : SizeError program state raw item rounded →
    ∀ {β : Type} (className : String) (count : ℕ) (sizeErrorBody notSizeErrorBody : List β),
      ¬(sizeErrorBody = [] ∧ notSizeErrorBody = []) →
      effectsOf program state
          (emitSized program className target raw rounded count sizeErrorBody notSizeErrorBody) =
        .ok (sizeErrorBody.map .run)
  /-- Otherwise the exact result is stored, and only the `NOT ON SIZE ERROR` body is run. -/
  otherwise : ∀ x, denote program state raw = some (.number x) → ¬TooLarge item rounded x →
    ∃ value, value.number = some (received item rounded x) ∧
    ∀ {β : Type} (className : String) (count : ℕ) (sizeErrorBody notSizeErrorBody : List β),
      ¬(sizeErrorBody = [] ∧ notSizeErrorBody = []) →
      effectsOf program state
          (emitSized program className target raw rounded count sizeErrorBody notSizeErrorBody) =
        .ok (.store value :: notSizeErrorBody.map .run)

/-- The result with every quotient rounded to 34 digits. -/
def roundedResult (program : CobolProgram) (state : JavaState) (raw : JavaExpression) : Option ℚ :=
  value decimalRounding (arithmeticTree program state raw)

/-- **When the phrase is honoured.** -/
structure HandlesSizeErrors (program : CobolProgram) (state : JavaState) (raw : JavaExpression)
    (item : DataItem) (rounded : Bool) : Prop where
  compiles : ∀ divisor ∈ testedDivisors raw, testCompiles program divisor = true
  /-- At a size error the tests of the divisors end at one that its lane makes zero; or none of them
  is zero or divides by zero in its lane, and the rounded result is too large as well. -/
  sizeError : SizeError program state raw item rounded →
    (∃ divisor, firstStop program state raw = some divisor ∧
      laneValue program state divisor = some 0) ∨
    firstStop program state raw = none ∧
      ∃ y, roundedResult program state raw = some y ∧ TooLarge item rounded y
  /-- Otherwise no tested divisor is zero or divides by zero in its lane, and the receiver gets the
  same of the rounded result. -/
  otherwise : ∀ x, denote program state raw = some (.number x) → ¬TooLarge item rounded x →
    firstStop program state raw = none ∧
      ∃ y, roundedResult program state raw = some y ∧
        received item rounded y = received item rounded x

section Law

variable {program : CobolProgram} {state : JavaState} {β : Type}

/-! ### Steps of a run -/

theorem run_seq {first rest : SizeStatement β} {frame frame' : Frame}
    (h : first.run program state frame = .ok (frame', [])) :
    (SizeStatement.seq first rest).run program state frame = rest.run program state frame' := by
  simp only [SizeStatement.run, h, Py.ok_bind, List.nil_append]
  cases rest.run program state frame' <;> rfl

theorem run_seq_store {first rest : SizeStatement β} {frame frame' : Frame} {value : JavaValue}
    {effects : List (Effect β)} (h : first.run program state frame = .ok (frame, [.store value]))
    (hrest : rest.run program state frame = .ok (frame', effects)) :
    (SizeStatement.seq first rest).run program state frame =
      .ok (frame', .store value :: effects) := by
  simp only [SizeStatement.run, h, Py.ok_bind, hrest]
  rfl

theorem run_seq_fault {first rest : SizeStatement β} {frame : Frame} {fault : JavaFault}
    (h : first.run program state frame = .error fault) :
    (SizeStatement.seq first rest).run program state frame = .error fault := by
  rw [SizeStatement.run, h]
  rfl

theorem run_setScratch {name : String} {e : ScratchExpression} {frame : Frame} {v : ScratchValue}
    (h : evaluateScratch program state frame e = .ok v) :
    (SizeStatement.setScratch (β := β) name e).run program state frame =
      .ok (Function.update frame name (some v), []) := by
  rw [SizeStatement.run, h]
  rfl

theorem run_setScratch_fault {name : String} {e : ScratchExpression} {frame : Frame}
    {fault : JavaFault} (h : evaluateScratch program state frame e = .error fault) :
    (SizeStatement.setScratch (β := β) name e).run program state frame = .error fault := by
  rw [SizeStatement.run, h]
  rfl

theorem run_ifThenElse {condition : ScratchExpression} {thenBody elseBody : SizeStatement β}
    {frame : Frame} {b : Bool}
    (h : evaluateScratch program state frame condition = .ok (some (.boolean b))) :
    (SizeStatement.ifThenElse condition thenBody elseBody).run program state frame =
      if b then thenBody.run program state frame else elseBody.run program state frame := by
  simp only [SizeStatement.run, h, Py.ok_bind]
  cases b <;> rfl

/-! ### The parts of the statement -/

theorem freshIoVarName_ne (m n : ℕ) : freshIoVarName "size" m ≠ freshIoVarName "exact" n := by
  intro h
  have hsecond := congrArg (fun s : String => s.toList[1]?) h
  simp [freshIoVarName, String.toList_append] at hsecond

theorem run_bodies (frame : Frame) (ss : List β) :
    (bodies ss).run program state frame = .ok (frame, ss.map .run) := by
  induction ss with
  | nil => rfl
  | cons s ss ih =>
      simp only [bodies, SizeStatement.run, Py.ok_bind, ih]
      rfl

theorem evaluate_zeroFlag {raw : JavaExpression} (hstate : WithinPictures program state)
    (h : DivisionExpression program state raw)
    (hcompiles : ∀ divisor ∈ testedDivisors raw, testCompiles program divisor = true)
    (frame : Frame) :
    evaluateScratch program state frame (zeroFlag program raw) =
      (testsOutcome program state (testedDivisors raw)).map some := by
  rw [zeroFlag]
  cases htest : zeroDivisorTest program raw with
  | some zero =>
      rw [evaluateScratch, evaluate_zeroDivisorTest hstate h hcompiles htest]
  | none =>
      rw [zeroDivisorTest_eq_none_iff.1 htest]
      rfl

theorem evaluate_exact {raw : JavaExpression} (hstate : WithinPictures program state)
    (h : DivisionExpression program state raw) (item : DataItem) (rounded : Bool) (frame : Frame) :
    evaluateScratch program state frame (.java (.decimalMethod (promoteToDecimal program raw)
        (.setScale item.decimalPlaces (receiverRounding rounded)))) =
      (outcome (fun y => .decimal (scaled item rounded y)) (roundedResult program state raw)).map
        some := by
  have hlane := evaluate_decimalLane hstate h
  rw [evaluateScratch, roundedResult]
  cases hy : value decimalRounding (arithmeticTree program state raw) with
  | none =>
      rw [hy] at hlane
      simp only [evaluate, hlane]
      rfl
  | some y =>
      rw [hy] at hlane
      simp only [evaluate, hlane]
      rfl

theorem evaluate_bound {frame : Frame} {exact : String} {item : DataItem} {x : ℚ}
    (h : frame exact = some (some (.decimal x))) :
    evaluateScratch program state frame
        (.atLeastZero (.compareTo (.method (.scratch exact) .abs) (sizeBound item))) =
      .ok (some (.boolean (decide (10 ^ item.integerDigits ≤ |x|)))) := by
  have hbound : evaluate false program state (sizeBound item) =
      .ok (.decimal (10 ^ item.integerDigits)) := by
    simp [sizeBound, evaluate, literalValue, NumericLiteral.value, NumericLiteral.signedDigits]
  have hsign : (0 ≤ (|x| - 10 ^ item.integerDigits).num.sign) ↔ 10 ^ item.integerDigits ≤ |x| := by
    rw [Int.sign_nonneg_iff, Rat.num_nonneg, sub_nonneg]
  simp only [evaluateScratch, h]
  simp only [Py.ok_bind, applyDecimalMethod, Except.map, hbound, hsign]

/-! ### The store -/

/-- The Java value of a number in a receiver. -/
def storedValue (item : DataItem) (x : ℚ) : JavaValue :=
  if item.decimalPlaces = 0 then integral (item.picLength > 9) x.num else .decimal x

theorem received_whole {item : DataItem} (h : item.decimalPlaces = 0) (rounded : Bool) (y : ℚ) :
    ∃ n : ℤ, received item rounded y = n := by
  rw [received, scaled, h, Decimal.setScale_zero_places]
  split
  · exact ⟨_, rfl⟩
  · exact ⟨|_|, (Int.cast_abs).symm⟩

theorem number_storedValue (item : DataItem) (rounded : Bool) (y : ℚ) :
    (storedValue item (received item rounded y)).number = some (received item rounded y) := by
  rw [storedValue]
  split
  · rename_i hplaces
    obtain ⟨n, hn⟩ := received_whole hplaces rounded y
    rw [hn, Rat.num_intCast]
    cases decide (item.picLength > 9) <;> rfl
  · rfl

theorem abs_received (item : DataItem) (rounded : Bool) (y : ℚ) :
    |received item rounded y| = |scaled item rounded y| := by
  rw [received]
  split
  · rfl
  · exact abs_abs _

/-- **The assignment** of a result that is not too large. -/
theorem assigned_storedResult {target raw : JavaExpression} {item : DataItem} {rounded : Bool}
    {frame : Frame} {exact : String} {y : ℚ} (h : SizedStatement program state target raw item)
    (hframe : frame exact = some (some (.decimal (scaled item rounded y))))
    (hy : ¬TooLarge item rounded y) :
    assigned program state frame target (storedResult item exact) =
      .ok (storedValue item (received item rounded y)) := by
  obtain ⟨z, hz⟩ := h.located
  have htarget : evaluate false program state target = .ok _ := evaluate_of_trapped
    (((evaluate_arithmetic h.pictures h.wellFormed).1 h.reference item _ h.receiver.found hz _).2
      ⟨h.subscripts, rfl⟩)
  -- the magnitude is taken before the result is narrowed
  have hmagnitude : evaluateScratch program state frame
      (if item.signed then .scratch exact else .method (.scratch exact) .abs) =
        .ok (some (.decimal (received item rounded y))) := by
    rw [received]
    split
    · simp only [evaluateScratch, hframe]
    · simp only [evaluateScratch, hframe]
      rfl
  simp only [assigned, declaredItem_eq h.receiver, htarget, storedResult, Py.ok_bind]
  rw [storedValue]
  by_cases hplaces : item.decimalPlaces = 0
  · rw [if_pos hplaces, if_pos hplaces]
    obtain ⟨n, hn⟩ := received_whole hplaces rounded y
    have hrange : inRange (item.picLength > 9) n := by
      refine inRange_of_picLength h.receiver.digits ?_
      rw [TooLarge, ← abs_received, hn, not_le] at hy
      have hlt : |n| < 10 ^ item.integerDigits := by exact_mod_cast hy
      exact hlt.le.trans (pow_le_pow_right₀ (by norm_num) (Nat.sub_le ..))
    have hassignable : assignable (mapPicToJavaType item) (integral (item.picLength > 9) n) =
        .ok (integral (item.picLength > 9) n) := by
      by_cases hlong : item.picLength > 9
      · simp [mapPicToJavaType, h.receiver.numeric, h.receiver.elementary, hplaces, hlong, integral,
          assignable]
      · simp [mapPicToJavaType, h.receiver.numeric, h.receiver.elementary, hplaces, hlong, integral,
          assignable]
    have hnarrow : evaluateScratch program state frame
        (.method (if item.signed then .scratch exact else .method (.scratch exact) .abs)
          (if item.picLength > 9 then .longValueExact else .intValueExact)) =
        .ok (some (integral (item.picLength > 9) n)) := by
      have hchecked : narrowExact (item.picLength > 9) (n : ℚ) =
          .ok (integral (item.picLength > 9) n) := by
        rw [narrowExact, if_pos (Rat.den_intCast n), Rat.num_intCast]
        exact checked_eq_ok.2 ⟨hrange, rfl⟩
      rw [evaluateScratch, hmagnitude, hn]
      by_cases hlong : item.picLength > 9
      · simp only [hlong, decide_true, if_true] at hchecked ⊢
        simp only [Py.ok_bind, applyDecimalMethod, hchecked]
        rfl
      · simp only [hlong, decide_false, if_false] at hchecked ⊢
        simp only [Py.ok_bind, applyDecimalMethod, hchecked]
        rfl
    rw [hnarrow, hn, Rat.num_intCast]
    exact hassignable
  · rw [if_neg hplaces, if_neg hplaces, hmagnitude]
    have htype : mapPicToJavaType item = .decimal := by
      simp [mapPicToJavaType, h.receiver.numeric, h.receiver.elementary,
        Nat.pos_of_ne_zero hplaces]
    simp only [Py.ok_bind, htype]
    rfl

/-! ### The run of the statement -/

theorem run_exactStep_zero {raw : JavaExpression} {item : DataItem} {rounded : Bool} {frame : Frame}
    {flag exact : String} (hflag : frame flag = some (some (.boolean true))) :
    (exactStep (β := β) program raw item rounded flag exact).run program state frame =
      .ok (frame, []) := by
  have hnot : evaluateScratch program state frame (.not (.scratch flag)) =
      .ok (some (.boolean false)) := by
    simp only [evaluateScratch, hflag]
    rfl
  rw [exactStep, run_ifThenElse hnot]
  rfl

/-- **The exact step**: the result, and whether it is too large. -/
theorem run_exactStep {raw : JavaExpression} (item : DataItem) (rounded : Bool) {frame : Frame}
    {flag : String} (exact : String) (hstate : WithinPictures program state)
    (h : DivisionExpression program state raw)
    (hflag : frame flag = some (some (.boolean false))) :
    (exactStep (β := β) program raw item rounded flag exact).run program state frame =
      (roundedResult program state raw).elim (.error .throws) fun y =>
        .ok (Function.update
          (Function.update frame exact (some (some (.decimal (scaled item rounded y)))))
          flag (some (some (.boolean (decide (TooLarge item rounded y))))), []) := by
  have hnot : evaluateScratch program state frame (.not (.scratch flag)) =
      .ok (some (.boolean true)) := by
    simp only [evaluateScratch, hflag]
    rfl
  have hexact := evaluate_exact hstate h item rounded frame
  rw [exactStep, run_ifThenElse hnot, if_pos rfl]
  cases hy : roundedResult program state raw with
  | none =>
      rw [hy] at hexact
      exact run_seq_fault (run_setScratch_fault hexact)
  | some y =>
      rw [hy] at hexact
      rw [run_seq (run_setScratch hexact)]
      exact run_setScratch (evaluate_bound (Function.update_self ..))

theorem run_choice_sizeError {target : JavaExpression} {e : ScratchExpression} {frame : Frame}
    {flag : String} (sizeErrorBody notSizeErrorBody : List β)
    (hflag : frame flag = some (some (.boolean true))) :
    (SizeStatement.ifThenElse (.scratch flag) (bodies sizeErrorBody)
      (.seq (.assignment target e) (bodies notSizeErrorBody))).run program state frame =
      .ok (frame, sizeErrorBody.map .run) := by
  have hscratch : evaluateScratch program state frame (.scratch flag) =
      .ok (some (.boolean true)) := by
    rw [evaluateScratch, hflag]
  rw [run_ifThenElse hscratch, if_pos rfl, run_bodies]

/-- The choice of the body when there is no size error. -/
theorem run_choice_stored {target : JavaExpression} {e : ScratchExpression} {frame : Frame}
    {flag : String} {value : JavaValue} (sizeErrorBody notSizeErrorBody : List β)
    (hflag : frame flag = some (some (.boolean false)))
    (hvalue : assigned program state frame target e = .ok value) :
    (SizeStatement.ifThenElse (.scratch flag) (bodies sizeErrorBody)
      (.seq (.assignment target e) (bodies notSizeErrorBody))).run program state frame =
      .ok (frame, .store value :: notSizeErrorBody.map .run) := by
  have hscratch : evaluateScratch program state frame (.scratch flag) =
      .ok (some (.boolean false)) := by
    rw [evaluateScratch, hflag]
  have hstore : (SizeStatement.assignment (β := β) target e).run program state frame =
      .ok (frame, [.store value]) := by
    rw [SizeStatement.run, hvalue]
    rfl
  rw [run_ifThenElse hscratch, if_neg Bool.false_ne_true]
  exact run_seq_store hstore (run_bodies frame notSizeErrorBody)

/-- What the statement does when the flag was not set by the tests. -/
def sizedEffects (item : DataItem) (rounded : Bool) (sizeErrorBody notSizeErrorBody : List β)
    (y : ℚ) : List (Effect β) :=
  if TooLarge item rounded y then sizeErrorBody.map .run
  else .store (storedValue item (received item rounded y)) :: notSizeErrorBody.map .run

/-- Effects that depend on a value, which is missing when a division throws. -/
def ended (effects : ℚ → List (Effect β)) (value : Option ℚ) :
    Except JavaFault (List (Effect β)) :=
  value.elim (.error .throws) fun x => .ok (effects x)

/-- **What the statement does**: the tests of the divisors first, then the result with its rounded
quotients. -/
theorem effectsOf_sizeBlock {target raw : JavaExpression} {item : DataItem} (rounded : Bool)
    (h : SizedStatement program state target raw item)
    (hcompiles : ∀ divisor ∈ testedDivisors raw, testCompiles program divisor = true) (count : ℕ)
    (sizeErrorBody notSizeErrorBody : List β) :
    effectsOf program state
        (sizeBlock program target raw item rounded count sizeErrorBody notSizeErrorBody) =
      match firstStop program state raw with
      | some divisor => ended (fun _ => sizeErrorBody.map .run) (laneValue program state divisor)
      | none => ended (sizedEffects item rounded sizeErrorBody notSizeErrorBody)
          (roundedResult program state raw) := by
  have hne := freshIoVarName_ne count (count + 1)
  have hflag := evaluate_zeroFlag h.pictures h.expression hcompiles fun _ => none
  rw [effectsOf, sizeBlock]
  generalize freshIoVarName "size" count = flag at hne ⊢
  generalize freshIoVarName "exact" (count + 1) = exact at hne ⊢
  -- the tests set the flag, unless they throw
  rw [testsOutcome, ← firstStop] at hflag
  cases hstop : firstStop program state raw with
  | some divisor =>
      rw [hstop] at hflag
      dsimp only at hflag ⊢
      cases hlane : laneValue program state divisor with
      | none =>
          rw [hlane] at hflag
          rw [run_seq_fault (run_setScratch_fault hflag)]
          rfl
      | some x =>
          rw [hlane] at hflag
          rw [run_seq (run_setScratch hflag), run_seq (run_setScratch rfl),
            run_seq (run_exactStep_zero ?_), run_choice_sizeError]
          · rfl
          · rw [Function.update_of_ne hne, Function.update_self]
          · rw [Function.update_of_ne hne, Function.update_self]
  | none =>
      rw [hstop] at hflag
      dsimp only at hflag ⊢
      have hfalse : (Function.update (Function.update (fun _ => none) flag
          (some (some (JavaValue.boolean false)))) exact (some none) : Frame) flag =
            some (some (.boolean false)) := by
        rw [Function.update_of_ne hne, Function.update_self]
      have hexact := run_exactStep (β := β) item rounded exact h.pictures h.expression hfalse
      rw [run_seq (run_setScratch hflag), run_seq (run_setScratch rfl)]
      cases hy : roundedResult program state raw with
      | none =>
          rw [hy] at hexact
          rw [run_seq_fault hexact]
          rfl
      | some y =>
          rw [hy] at hexact
          rw [run_seq hexact, ended, Option.elim_some, sizedEffects]
          by_cases hlarge : TooLarge item rounded y
          · rw [if_pos hlarge, run_choice_sizeError]
            · rfl
            · rw [Function.update_self, decide_eq_true hlarge]
          · rw [if_neg hlarge, run_choice_stored _ _ _ (assigned_storedResult h _ hlarge)]
            · rfl
            · rw [Function.update_self, decide_eq_false hlarge]
            · rw [Function.update_of_ne hne.symm, Function.update_self]

/-- A statement with a phrase. -/
theorem emitSized_eq {className : String} {target raw : JavaExpression} {item : DataItem}
    {rounded : Bool} {count : ℕ} {sizeErrorBody notSizeErrorBody : List β}
    (h : SizedStatement program state target raw item)
    (hbodies : ¬(sizeErrorBody = [] ∧ notSizeErrorBody = [])) :
    emitSized program className target raw rounded count sizeErrorBody notSizeErrorBody =
      sizeBlock program target raw item rounded count sizeErrorBody notSizeErrorBody := by
  have hraw : isUnsupported raw = false := by
    cases h.expression with
    | literal negative unscaled places => rfl
    | @reference e x _ href =>
        cases raw with
        | unsupported source reason => cases href
        | _ => rfl
    | binary hleft hright hoperator => rfl
    | negate h => rfl
  have hphrase : (sizeErrorBody.isEmpty && notSizeErrorBody.isEmpty) = false := by
    cases sizeErrorBody <;> cases notSizeErrorBody <;> simp_all
  simp only [emitSized, hphrase, h.receiver.found, h.receiver.numeric, hraw]
  rfl

/-! ### The law -/

theorem firstStop_lane {raw divisor : JavaExpression}
    (h : firstStop program state raw = some divisor) :
    laneValue program state divisor = none ∨ laneValue program state divisor = some 0 := by
  simpa using List.find?_some h

/-- Results are only rounded behind a division. -/
theorem unrounded_of_undivided {e : JavaExpression} (h : DivisionExpression program state e)
    (hdivision : containsDivision e = false) :
    Unrounded decimalRounding (arithmeticTree program state e) := by
  induction h with
  | literal negative unscaled places =>
      rw [numericJavaLiteral, arithmeticTree_literal]
      trivial
  | reference h href hx hfits =>
      rw [arithmeticTree_reference href hx]
      trivial
  | @binary left right operator hleft hright hoperator ihleft ihright =>
      simp only [containsDivision, Bool.or_eq_false_iff, decide_eq_false_iff_not] at hdivision
      obtain ⟨operation, hoperation⟩ := operationOf_of_operator hoperator
      have hdiv : operation ≠ .div := by
        rintro rfl
        cases operator <;> cases hoperation
        exact hdivision.1.1 rfl
      simp only [arithmeticTree, hoperation]
      exact ⟨ihleft hdivision.1.2, ihright hdivision.2, fun x _ => if_neg hdiv⟩
  | negate h ih =>
      exact ⟨trivial, ih hdivision, fun x _ => rfl⟩

/-- **Without a division** the phrase is always honoured. -/
theorem handlesSizeErrors_of_undivided {raw : JavaExpression} (item : DataItem) (rounded : Bool)
    (h : DivisionExpression program state raw) (hdivision : containsDivision raw = false) :
    HandlesSizeErrors program state raw item rounded := by
  have hdivisors : divisionDivisors raw = [] := divisionDivisors_of_undivided hdivision
  have htested : testedDivisors raw = [] := by rw [testedDivisors, hdivisors, List.filter_nil]
  have hstop : firstStop program state raw = none := by rw [firstStop, htested, List.find?_nil]
  have hrounded : roundedResult program state raw =
      value exactly (arithmeticTree program state raw) :=
    value_of_unrounded (unrounded_of_undivided h hdivision)
  have hresult : ∀ x, denote program state raw = some (.number x) →
      roundedResult program state raw = some x := by
    intro x hx
    rw [denote_eq_value h, Option.map_eq_some_iff] at hx
    obtain ⟨y, hy, heq⟩ := hx
    rw [hrounded, hy, CobolValue.number.inj heq]
  refine ⟨by simp [htested], ?_, fun x hx _ => ⟨hstop, x, hresult x hx, rfl⟩⟩
  rintro (⟨divisor, hmem, -⟩ | ⟨x, hx, hlarge⟩)
  · rw [hdivisors] at hmem
    cases hmem
  · exact .inr ⟨hstop, x, hresult x hx, hlarge⟩

end Law

/-! ### A quotient as a divisor -/

namespace QuotientSample

theorem numericItem : NumericItem program "WS_A" (item "WS-A") :=
  ⟨by decide, by decide, rfl, rfl, by decide⟩

theorem statement {b c : ℤ} (hb : 0 ≤ b ∧ b < 10 ^ 4) (hc : 0 ≤ c ∧ c < 10 ^ 4)
    {e : JavaExpression} (he : DivisionExpression program (state b c) e) :
    SizedStatement program (state b c) (.variableRef "WS_A") e (item "WS-A") where
  receiver := numericItem
  reference := trivial
  wellFormed := .item numericItem rfl
  located := ⟨_, denote_item (.inl rfl) _⟩
  subscripts := trivial
  expression := he
  pictures := pictures hb hc

/-- The statement on `WS-A`, with `false` for the size error and `true` for its absence. -/
def sized (e : JavaExpression) : SizeStatement Bool :=
  emitSized program "ComputeStatement" (.variableRef "WS_A") e false 0 [false] [true]

theorem denote_raw : denote program (state 1 2) raw = some (.number 14) := by
  have ha := denote_item (.inl rfl) (state 1 2)
  have hb := denote_item (.inr (.inl rfl)) (state 1 2)
  have hc := denote_item (.inr (.inr rfl)) (state 1 2)
  have hstate : state 1 2 "WS_A" [] = 7 ∧ state 1 2 "WS_B" [] = 1 ∧ state 1 2 "WS_C" [] = 2 :=
    ⟨rfl, rfl, rfl⟩
  rw [hstate.1] at ha
  rw [hstate.2.1] at hb
  rw [hstate.2.2] at hc
  rw [raw, denote, ha, denote, hb, hc]
  norm_num [exactResult]

theorem not_sizeError : ¬SizeError program (state 1 2) raw (item "WS-A") false := by
  rintro (hzero | ⟨x, hx, hlarge⟩)
  · have h := (dividesByZero_iff_sample 1 2).1 hzero
    omega
  · obtain rfl := CobolValue.number.inj (Option.some.inj (denote_raw.symm.trans hx))
    rw [TooLarge, scaled, show (item "WS-A").decimalPlaces = 0 from rfl,
      Decimal.setScale_zero_places, show (14 : ℚ) = ((14 : ℤ) : ℚ) by norm_num,
      Decimal.toInt_intCast, show (item "WS-A").integerDigits = 4 from rfl] at hlarge
    norm_num at hlarge

theorem effectsOf_throws : effectsOf program (state 4 0) (sized raw) = .error .throws := by rfl

theorem not_sizeErrorExact :
    ¬SizeErrorExact program (state 4 0) (.variableRef "WS_A") raw (item "WS-A") false := by
  intro hexact
  have hrun := hexact.sizeError (.inl ((dividesByZero_iff_sample 4 0).2 (.inr rfl)))
    "ComputeStatement" 0 [false] [true] (by simp)
  cases effectsOf_throws.symm.trans hrun

/-- `WS-A + WS-B` -/
def sum : JavaExpression :=
  .binaryOp (.variableRef "WS_A") .add (.variableRef "WS_B")

theorem divisionExpression_sum (state : JavaState) : DivisionExpression program state sum := by
  have hreference : ∀ {name}, name = "WS_A" ∨ name = "WS_B" ∨ name = "WS_C" →
      DivisionExpression program state (.variableRef name) := by
    intro name h
    obtain ⟨item, hitem, hdimensions, -⟩ := item_found h
    exact .reference (.item hitem hdimensions) trivial (denote_item h state) trivial
  exact .binary (hreference (.inl rfl)) (hreference (.inr (.inl rfl))) (by simp)

end QuotientSample

end CobolJava.Transformation
