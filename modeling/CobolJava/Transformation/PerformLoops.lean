/-
**Loops of PERFORM.**

The iterations of the loop a `PERFORM` is lowered to, against the iterations COBOL makes for its
header.  The texts of operands and conditions have the same meaning on both sides; the body is any
state transformer, which may change every item of the header and need not come back.

Main definitions:

* `ProgramMeaning` — what the texts of a program mean;
* `cobolTimes`, `untilLoop`, `cobolVarying` — the loops of COBOL;
* `javaMachine` — the Java loops;
* `RunsCobolIterations` — the Java loop makes the iterations of COBOL;
* `IterationsSafe` — the runs for which it does.

Main results:

* `agree_times_iff`, `agree_varying_iff` — the loops of one phrase;
* `runsCobolIterations_iff` — exactly which runs of a header that is read as written agree.
-/

import CobolJava.Lib.JavaText
import CobolJava.Lib.LoopMachine
import CobolJava.Transformation.CobolArithmetic
import CobolJava.Transformation.PerformReading

set_option autoImplicit false

namespace CobolJava.Transformation

open Loop (Machine Progress Agree SafeBelow Matched)

variable {σ : Type*}

/-! ### Meaning of texts -/

/-- An item with an `int` field. -/
structure IntField (σ : Type*) where
  get : σ → ℤ
  set : ℤ → σ → σ
  get_set : ∀ n s, inRange false n → get (set n s) = n
  set_get : ∀ s, set (get s) s = s

/-- An operand of Java type `int`. -/
structure IntOperand (σ : Type*) where
  value : σ → ℤ
  range : ∀ s, inRange false (value s)

/-- An integer item of one to nine digits. -/
def IsControlItem (item : DataItem) : Prop :=
  item.isNumeric = true ∧ item.decimalPlaces = 0 ∧ item.picLength ≤ 9

/-- What the texts of a program mean in its states. -/
structure ProgramMeaning (σ : Type*) where
  field : DataItem → IntField σ
  operand : List Token → IntOperand σ
  condition : List Token → σ → Bool
  /-- The whole number a count item holds. -/
  count : List Char → σ → ℤ
  /-- What a body does, unless it ends the run or does not end. -/
  body : JavaBody → σ → Option σ
  /-- A body leaves values in the items that their `PICTURE` can hold. -/
  keeps : ∀ b s t, body b s = some t → ∀ item, IsControlItem item →
    WithinPicture item ((field item).get t)

/-! ### The loops of COBOL -/

/-- `TIMES`: the count is read once.  The control state has the iterations made and the count. -/
def cobolTimes (count : σ → ℤ) : Machine σ where
  Control := ℕ × ℤ
  enter s := ((0, count s), s, decide (0 < count s))
  again k s := ((k.1 + 1, k.2), s, decide ((k.1 + 1 : ℕ) < k.2))

/-- `UNTIL`: the condition is tested before each iteration, with `TEST AFTER` not before the
first. -/
def untilLoop (after : Bool) (condition : σ → Bool) : Machine σ where
  Control := Unit
  enter s := ((), s, after || !condition s)
  again _ s := ((), s, !condition s)

/-- What an item stores of a whole number: its last digits, and the sign if it has one. -/
def storedWhole (item : DataItem) (n : ℤ) : ℤ :=
  let magnitude : ℤ := (n.natAbs % 10 ^ item.picLength : ℕ)
  if item.signed ∧ n < 0 then -magnitude else magnitude

/-- `VARYING`: the item is set before the first test and stepped before each other one; with
`TEST AFTER` the test comes behind the body and the step behind the test. -/
def cobolVarying (item : DataItem) (field : IntField σ) (start step : IntOperand σ) (after : Bool)
    (condition : σ → Bool) : Machine σ where
  Control := Unit
  enter s :=
    let s := field.set (storedWhole item (start.value s)) s
    ((), s, after || !condition s)
  again _ s :=
    if after && condition s then ((), s, false)
    else
      let s := field.set (storedWhole item (field.get s + step.value s)) s
      ((), s, after || !condition s)

/-! ### The Java loops -/

/-- `for (int i = 0; i < limit; i = i + 1)` -/
def javaTimes (limit : σ → ℤ) : Machine σ where
  Control := ℤ
  enter s := (0, s, decide (0 < limit s))
  again i s :=
    let i := wrapAround false (i + 1)
    (i, s, decide (i < limit s))

/-- `while (!condition)` -/
def javaWhileNot (condition : σ → Bool) : Machine σ where
  Control := Unit
  enter s := ((), s, !condition s)
  again _ s := ((), s, !condition s)

/-- `do … while (!condition)` -/
def javaDoWhileNot (condition : σ → Bool) : Machine σ where
  Control := Unit
  enter s := ((), s, true)
  again _ s := ((), s, !condition s)

/-- `for (field = start; !condition; field = field + step)` -/
def javaVarying (field : IntField σ) (start step : IntOperand σ) (condition : σ → Bool) :
    Machine σ where
  Control := Unit
  enter s :=
    let s := field.set (start.value s) s
    ((), s, !condition s)
  again _ s :=
    let s := field.set (wrapAround false (field.get s + step.value s)) s
    ((), s, !condition s)

def javaOnce : Machine σ where
  Control := Unit
  enter s := ((), s, true)
  again _ s := ((), s, false)

/-- The `int` a literal of digits with a sign means in Java: a zero before other digits makes it
octal; `none` if it does not compile. -/
def javaIntLiteral (w : List Char) : Option ℤ :=
  let negative : Bool := w.head? = some '-'
  let digits := if negative then w.tail else w
  let octal := digits.foldl (fun n c => 8 * n + (c.toNat - '0'.toNat)) 0
  let value := Nat.ofDigitChars 10 digits 0
  if !Java.isDigits digits then none
  else if digits.length > 1 ∧ digits.head? = some '0' then
    if digits.all (fun c => c.toNat ≤ '7'.toNat) ∧ octal < 2 ^ 32 then
      some (wrapAround false (Java.applySign negative octal))
    else none
  else if value < 2 ^ 31 ∨ (negative ∧ value = 2 ^ 31) then some (Java.applySign negative value)
  else none

/-- The bound of a Java `TIMES` loop. -/
def javaLimit (meaning : ProgramMeaning σ) : JavaCount → Option (σ → ℤ)
  | .literal digits => (javaIntLiteral digits).map fun n _ => n
  | .field name => some (meaning.count name)

def javaMachine (meaning : ProgramMeaning σ) : LoopShape → Option (Machine σ)
  | .forVarying item start step condition =>
      some (javaVarying (meaning.field item) (meaning.operand start) (meaning.operand step)
        (meaning.condition condition))
  | .forTimes count => (javaLimit meaning count).map javaTimes
  | .whileNot condition => some (javaWhileNot (meaning.condition condition))
  | .doWhileNot condition => some (javaDoWhileNot (meaning.condition condition))
  | .once => some javaOnce

/-! ### The property -/

/-- The count of a `TIMES` phrase: a literal of digits with a sign, or an item. -/
def cobolCount (meaning : ProgramMeaning σ) (count : Token) : σ → ℤ :=
  match timesCount ⟨[], count.word⟩ with
  | some (.literal digits) =>
      let negative : Bool := digits.head? = some '-'
      fun _ => Java.applySign negative
        (Nat.ofDigitChars 10 (if negative then digits.tail else digits) 0)
  | _ => meaning.count count.word

def namedItem (program : CobolProgram) : List Token → Option DataItem
  | [t] => findDataItem program (String.ofList t.word)
  | _ => none

/-- The Java loop runs the body as often as COBOL, with the same value of the control item before
each iteration and behind the loop. -/
def RunsCobolIterations (meaning : ProgramMeaning σ) (program : CobolProgram) (h : PerformHeader)
    (loop : JavaLoop) (s : σ) : Prop :=
  ∃ m, javaMachine meaning loop.shape = some m ∧
    match h.phrase with
    | .times count _ =>
        Agree (fun _ => ()) m (meaning.body loop.body)
          (cobolTimes (cobolCount meaning count.token)) (meaning.body h.body) s
    | .untilCondition test _ text =>
        Agree (fun _ => ()) m (meaning.body loop.body)
          (untilLoop (saysAfter test) (meaning.condition (stripped text.tokens)))
          (meaning.body h.body) s
    | .varying test _ item _ start step _ text =>
        ∃ d, namedItem program item.tokens = some d ∧
          Agree (meaning.field d).get m (meaning.body loop.body)
            (cobolVarying d (meaning.field d) (meaning.operand (stripped start.tokens))
              (meaning.operand (stepText step)) (saysAfter test)
              (meaning.condition (stripped text.tokens)))
            (meaning.body h.body) s

/-- A run of a loop whose tests are safe. -/
def SafeRun (m : Machine σ) (EntrySafe : σ → Prop) (StepSafe : m.Control → σ → Prop)
    (body : σ → Option σ) (s : σ) : Prop :=
  EntrySafe s ∧ ∀ n k t u, m.run body s n = .iteration k t → body t = some u → StepSafe k u

/-- Before the first iteration: the first value fits the item, and with `TEST AFTER` it does not meet
the condition. -/
def StartSafe (item : DataItem) (field : IntField σ) (start : IntOperand σ) (after : Bool)
    (condition : σ → Bool) (s : σ) : Prop :=
  WithinPicture item (start.value s) ∧
    (after = true → condition (field.set (start.value s) s) = false)

/-- Behind an iteration: the next value fits the item, and with `TEST AFTER` it does not meet the
condition, unless the condition is met already and the step is zero. -/
def StepSafe (item : DataItem) (field : IntField σ) (step : IntOperand σ) (after : Bool)
    (condition : σ → Bool) (s : σ) : Prop :=
  if after = true ∧ condition s = true then step.value s = 0
  else WithinPicture item (field.get s + step.value s) ∧
    (after = true → condition (field.set (field.get s + step.value s) s) = false)

/-- The runs in which the Java loop keeps step: at every test of a `TIMES` loop the iterations made,
counted in an `int`, are below the bound as Java reads it then exactly when they are below the count
at the start; every value of a control item fits its `PICTURE`; and `TEST AFTER` makes no
difference. -/
def IterationsSafe (meaning : ProgramMeaning σ) (program : CobolProgram) (h : PerformHeader)
    (s : σ) : Prop :=
  match h.phrase with
  | .times count _ =>
      ∃ c limit, timesCount ⟨[], count.token.word⟩ = some c ∧ javaLimit meaning c = some limit ∧
        SafeRun (cobolTimes (cobolCount meaning count.token))
          (fun s => 0 < limit s ↔ 0 < cobolCount meaning count.token s)
          (fun k s => wrapAround false (k.1 + 1 : ℕ) < limit s ↔ (k.1 + 1 : ℕ) < k.2)
          (meaning.body h.body) s
  | .untilCondition _ _ _ => True
  | .varying test _ item _ start step _ text =>
      ∃ d, namedItem program item.tokens = some d ∧
        SafeRun
          (cobolVarying d (meaning.field d) (meaning.operand (stripped start.tokens))
            (meaning.operand (stepText step)) (saysAfter test)
            (meaning.condition (stripped text.tokens)))
          (StartSafe d (meaning.field d) (meaning.operand (stripped start.tokens)) (saysAfter test)
            (meaning.condition (stripped text.tokens)))
          (fun _ => StepSafe d (meaning.field d) (meaning.operand (stepText step)) (saysAfter test)
            (meaning.condition (stripped text.tokens)))
          (meaning.body h.body) s

/-! ### `TIMES` -/

theorem wrapAround_succ (n : ℤ) :
    wrapAround false (wrapAround false n + 1) = wrapAround false (n + 1) := by
  simp [wrapAround]

theorem wrapAround_zero : wrapAround false 0 = 0 := by
  simp [wrapAround]

-- the unifier must not compute with the modulus
attribute [local irreducible] wrapAround

/-- Two `TIMES` loops agree exactly when the bound as Java reads it and the count lead to the same
tests. -/
theorem agree_times_iff (limit count : σ → ℤ) (body : σ → Option σ) (s : σ) :
    Agree (fun _ => ()) (javaTimes limit) body (cobolTimes count) body s ↔
      SafeRun (cobolTimes count) (fun s => 0 < limit s ↔ 0 < count s)
        (fun k s => wrapAround false (k.1 + 1 : ℕ) < limit s ↔ (k.1 + 1 : ℕ) < k.2) body s := by
  -- the Java counter is the number of iterations made, as an `int`
  let R : ℤ → ℕ × ℤ → Prop := fun i k => i = wrapAround false (k.1 : ℕ)
  have hagree := @Loop.agree_iff σ Unit (javaTimes limit) (cobolTimes count) R
    (fun s => 0 < limit s ↔ 0 < count s) (fun _ => True)
    (fun k s => wrapAround false (k.1 + 1 : ℕ) < limit s ↔ (k.1 + 1 : ℕ) < k.2)
    body s (fun _ => ()) (fun _ _ _ => trivial) ?_ ?_ ?_ ?_
  · rw [hagree, SafeRun]
    refine and_congr_right fun _ => ⟨fun h n k t u hrun hbody => ?_, fun h n i _ => h i⟩
    exact h (n + 1) n (Nat.lt_succ_self n) k t u hrun hbody
  · intro s hsafe
    simp only [javaTimes, cobolTimes, hsafe]
    exact Matched.ofTest (R := R) wrapAround_zero.symm s _
  · intro s hnot
    exact Loop.observe_ofTest_ne_of_test (by simpa [Bool.decide_iff_dist] using hnot)
  · rintro i k t rfl - hsafe
    simp only [javaTimes, cobolTimes, wrapAround_succ]
    rw [← Nat.cast_succ]
    simp only [Nat.succ_eq_add_one, hsafe]
    exact @Matched.ofTest σ ℤ (ℕ × ℤ) R _ (k.1 + 1, k.2) rfl t _
  · rintro i k t rfl - hnot
    simp only [javaTimes, cobolTimes, wrapAround_succ]
    rw [← Nat.cast_succ]
    exact Loop.observe_ofTest_ne_of_test (by simpa using hnot)

/-! ### `VARYING` -/

theorem storedWhole_of_within {item : DataItem} {n : ℤ} (h : WithinPicture item n) :
    storedWhole item n = n := by
  obtain ⟨hlt, hsign⟩ := h
  have hnat : n.natAbs < 10 ^ item.picLength := by
    rw [← Int.natCast_natAbs] at hlt
    exact_mod_cast hlt
  simp only [storedWhole, Nat.mod_eq_of_lt hnat]
  split_ifs with hneg
  · omega
  · -- a number that is not negative, or one without a place for its sign
    have : 0 ≤ n := by
      cases hs : item.signed with
      | false => exact hsign hs
      | true => exact not_lt.1 fun hlt => hneg ⟨hs, hlt⟩
    omega

theorem within_storedWhole (item : DataItem) (n : ℤ) : WithinPicture item (storedWhole item n) := by
  have hpos : (0 : ℤ) < 10 ^ item.picLength := by positivity
  have hlt : ((n.natAbs % 10 ^ item.picLength : ℕ) : ℤ) < 10 ^ item.picLength := by
    exact_mod_cast Nat.mod_lt n.natAbs (Nat.pos_of_ne_zero (by positivity))
  have hnonneg : (0 : ℤ) ≤ ((n.natAbs % 10 ^ item.picLength : ℕ) : ℤ) := Int.natCast_nonneg _
  simp only [storedWhole]
  split_ifs with hneg
  · refine ⟨by rw [abs_neg, abs_of_nonneg hnonneg]; exact hlt, fun h => ?_⟩
    rw [hneg.1] at h
    exact absurd h (by decide)
  · exact ⟨by rw [abs_of_nonneg hnonneg]; exact hlt, fun _ => hnonneg⟩

theorem abs_lt_of_within {item : DataItem} (hitem : IsControlItem item) {n : ℤ}
    (h : WithinPicture item n) : |n| < 10 ^ 9 :=
  lt_of_lt_of_le h.1 (pow_le_pow_right₀ (by norm_num) hitem.2.2)

theorem inRange_of_within {item : DataItem} (hitem : IsControlItem item) {n : ℤ}
    (h : WithinPicture item n) : inRange false n := by
  have := abs_lt.1 (abs_lt_of_within hitem h)
  simp only [inRange, Bool.false_eq_true, if_false, javaIntMin, javaIntMax]
  omega

theorem wrapAround_of_within {item : DataItem} (hitem : IsControlItem item) {n : ℤ}
    (h : WithinPicture item n) : wrapAround false n = n := by
  have hrange := inRange_of_within hitem h
  simp only [inRange, Bool.false_eq_true, if_false, javaIntMin, javaIntMax] at hrange
  rw [wrapAround.eq_def]
  exact Int.bmod_eq_of_le (by norm_num; omega) (by norm_num; omega)

/-- The sum of an item and an `int`, wrapped: itself, or too large for the item. -/
theorem wrapAround_add {item : DataItem} (hitem : IsControlItem item) {value step : ℤ}
    (hvalue : WithinPicture item value) (hstep : inRange false step) :
    inRange false (wrapAround false (value + step)) ∧
      (wrapAround false (value + step) = value + step ∨
        (0 < value + step ∧ wrapAround false (value + step) < 0) ∨
        10 ^ 9 ≤ wrapAround false (value + step)) := by
  have hlt := abs_lt.1 (abs_lt_of_within hitem hvalue)
  simp only [inRange, Bool.false_eq_true, if_false, javaIntMin, javaIntMax] at hstep ⊢
  have hbmod : wrapAround false (value + step) = (value + step).bmod (2 ^ 32) := by
    rw [wrapAround.eq_def]
    rfl
  have hle := Int.le_bmod (x := value + step) (m := 2 ^ 32) (by norm_num)
  have hgt := Int.bmod_lt (x := value + step) (m := 2 ^ 32) (by norm_num)
  obtain ⟨q, hq⟩ : ∃ q, (value + step).bmod (2 ^ 32) = value + step - 2 ^ 32 * q :=
    ⟨_, by exact_mod_cast Int.bmod_eq_self_sub_mul_bdiv (value + step) (2 ^ 32)⟩
  rw [hbmod]
  norm_num at hle hgt hq ⊢
  -- the modulus is subtracted once, added once, or not at all
  have hcases : q = 0 ∨ q = 1 ∨ q = -1 := by omega
  rcases hcases with rfl | rfl | rfl <;> omega

theorem within_of_wrapAround {item : DataItem} (hitem : IsControlItem item) {value step : ℤ}
    (hvalue : WithinPicture item value) (hstep : inRange false step)
    (h : wrapAround false (value + step) = storedWhole item (value + step)) :
    WithinPicture item (value + step) := by
  have hstored := within_storedWhole item (value + step)
  have hlt := abs_lt.1 (abs_lt_of_within hitem hstored)
  obtain ⟨-, hwrap | ⟨hpos, hneg⟩ | hlarge⟩ := wrapAround_add hitem hvalue hstep
  · rw [← h, hwrap] at hstored
    exact hstored
  · have : 0 ≤ storedWhole item (value + step) := by
      simp only [storedWhole, if_neg (not_and.2 fun _ => not_lt.2 hpos.le)]
      exact Int.natCast_nonneg _
    omega
  · omega

/-- An `int` step that leaves the item as it is is zero. -/
theorem wrapAround_add_eq {item : DataItem} (hitem : IsControlItem item) {value step : ℤ}
    (hvalue : WithinPicture item value) (hstep : inRange false step)
    (h : wrapAround false (value + step) = value) : step = 0 := by
  have hlt := abs_lt.1 (abs_lt_of_within hitem hvalue)
  obtain ⟨-, hwrap | ⟨hpos, hneg⟩ | hlarge⟩ := wrapAround_add hitem hvalue hstep
  · omega
  · -- a sum above the `int` range is not wrapped back to the item
    simp only [inRange, Bool.false_eq_true, if_false, javaIntMin, javaIntMax] at hstep
    have hbmod : wrapAround false (value + step) = (value + step).bmod (2 ^ 32) := by
      rw [wrapAround.eq_def]
      rfl
    rw [hbmod] at h
    have hq : (value + step).bmod (2 ^ 32) =
        value + step - 2 ^ 32 * (value + step).bdiv (2 ^ 32) := by
      exact_mod_cast Int.bmod_eq_self_sub_mul_bdiv (value + step) (2 ^ 32)
    norm_num at hq h
    omega
  · omega

/-- Two `VARYING` loops agree exactly when each value fits the item and the place of the test makes no
difference. -/
theorem agree_varying_iff {item : DataItem} (hitem : IsControlItem item) (field : IntField σ)
    (start step : IntOperand σ) (after : Bool) (condition : σ → Bool) (body : σ → Option σ)
    (hbody : ∀ t u, body t = some u → WithinPicture item (field.get u)) (s : σ) :
    Agree field.get (javaVarying field start step condition) body
        (cobolVarying item field start step after condition) body s ↔
      SafeRun (cobolVarying item field start step after condition)
        (StartSafe item field start after condition)
        (fun _ => StepSafe item field step after condition) body s := by
  have hget : ∀ n t, WithinPicture item n → field.get (field.set n t) = n :=
    fun n t h => field.get_set n t (inRange_of_within hitem h)
  have hagree := @Loop.agree_iff σ ℤ (javaVarying field start step condition)
    (cobolVarying item field start step after condition) (fun _ _ => True)
    (StartSafe item field start after condition) (fun t => WithinPicture item (field.get t))
    (fun _ => StepSafe item field step after condition) body s field.get hbody ?_ ?_ ?_ ?_
  · rw [hagree, SafeRun]
    refine and_congr_right fun _ => ⟨fun h n k t u hrun hbodyT => ?_, fun h n i _ => h i⟩
    exact h (n + 1) n (Nat.lt_succ_self n) k t u hrun hbodyT
  · -- a safe start is stored alike, and both loops test alike
    rintro t ⟨hwithin, hafter⟩
    simp only [javaVarying, cobolVarying, storedWhole_of_within hwithin]
    cases after with
    | false => exact Matched.ofTest trivial _ _
    | true =>
        rw [hafter rfl]
        exact Matched.ofTest trivial _ _
  · intro t hnot
    by_cases hwithin : WithinPicture item (start.value t)
    · -- the first value meets the condition, and `TEST AFTER` does not look
      have hcondition : after = true ∧ condition (field.set (start.value t) t) = true := by
        simpa [StartSafe, hwithin] using hnot
      simp only [javaVarying, cobolVarying, storedWhole_of_within hwithin, hcondition]
      exact Loop.observe_ofTest_ne_of_test (by decide)
    · refine Loop.observe_ofTest_ne ?_
      rw [field.get_set _ _ (start.range t), hget _ _ (within_storedWhole item _)]
      intro heq
      exact hwithin (heq ▸ within_storedWhole item _)
  · rintro ⟨⟩ ⟨⟩ t - hgood hsafe
    rw [StepSafe] at hsafe
    by_cases hend : after = true ∧ condition t = true
    · -- COBOL ends here; with a step of zero Java tests the same value
      rw [if_pos hend] at hsafe
      simp only [javaVarying, cobolVarying, hend, hsafe, add_zero,
        wrapAround_of_within hitem hgood, field.set_get,
        Bool.and_self, if_true, Bool.not_true]
      exact Matched.ofTest trivial _ _
    · rw [if_neg hend] at hsafe
      obtain ⟨hwithin, hafter⟩ := hsafe
      have htest : (after && condition t) = false := by
        simpa using hend
      simp only [javaVarying, cobolVarying, htest, Bool.false_eq_true, if_false,
        wrapAround_of_within hitem hwithin, storedWhole_of_within hwithin]
      cases after with
      | false => exact Matched.ofTest trivial _ _
      | true =>
          rw [hafter rfl]
          exact Matched.ofTest trivial _ _
  · rintro ⟨⟩ ⟨⟩ t - hgood hnot
    obtain ⟨hrange, -⟩ := wrapAround_add hitem hgood (step.range t)
    rw [StepSafe] at hnot
    by_cases hend : after = true ∧ condition t = true
    · rw [if_pos hend] at hnot
      simp only [javaVarying, cobolVarying, hend, Bool.and_self, if_true]
      refine Loop.observe_ofTest_ne ?_
      rw [field.get_set _ _ hrange]
      exact fun heq => hnot (wrapAround_add_eq hitem hgood (step.range t) heq)
    · rw [if_neg hend] at hnot
      have htest : (after && condition t) = false := by
        simpa using hend
      by_cases hwithin : WithinPicture item (field.get t + step.value t)
      · have hcondition : after = true ∧
            condition (field.set (field.get t + step.value t) t) = true := by
          simpa [hwithin] using hnot
        have hafter : after = true := hcondition.1
        simp only [javaVarying, cobolVarying, htest, Bool.false_eq_true, if_false,
          wrapAround_of_within hitem hwithin, storedWhole_of_within hwithin, hcondition.2]
        rw [hafter]
        exact Loop.observe_ofTest_ne_of_test (by decide)
      · simp only [javaVarying, cobolVarying, htest, Bool.false_eq_true, if_false]
        refine Loop.observe_ofTest_ne ?_
        rw [field.get_set _ _ hrange, hget _ _ (within_storedWhole item _)]
        exact fun heq => hwithin (within_of_wrapAround hitem hgood (step.range t) heq)

/-! ### The header -/

/-- The control item of a lowered `VARYING` loop is the named item, an integer of one to nine
digits. -/
theorem controlItem_eq_some {program : CobolProgram} {text : List Token} {item : DataItem}
    (h : controlItem program (stripped text) = some item) :
    namedItem program text = some item ∧ IsControlItem item := by
  match text, h with
  | [t], h =>
      simp only [controlItem, stripped] at h
      split at h
      · rename_i found hfound
        obtain ⟨hchecks, heq⟩ := Option.ite_none_right_eq_some.1 h
        obtain rfl : found = item := Option.some.inj heq
        simp only [Bool.and_eq_true, decide_eq_true_eq] at hchecks
        exact ⟨hfound, hchecks.1.1.1, hchecks.1.1.2, hchecks.1.2⟩
      · exact absurd h (by simp)
  | [], h => exact absurd h (by simp [controlItem, stripped])
  | _ :: _ :: _, h => exact absurd h (by simp [controlItem, stripped])

/-- `01 I PIC 9.` -/
def counterItem : DataItem := ⟨"I", .numeric, 1, 0, false, [], false⟩

def counterProgram : CobolProgram := ⟨[counterItem], [], []⟩

def spaced (w : String) : Token := ⟨[' '], w.toList⟩

/-- `PERFORM WITH TEST AFTER VARYING I FROM 1 BY 1 UNTIL I > 2` -/
def countedHeader : PerformHeader where
  perform := ⟨⟨[], "PERFORM".toList⟩, rfl⟩
  procedure := .inline
  phrase := .varying
    (some ⟨⟨spaced "WITH", rfl⟩, ⟨spaced "TEST", rfl⟩, spaced "AFTER", .inl rfl⟩)
    ⟨spaced "VARYING", rfl⟩ ⟨[spaced "I"], by decide, by decide⟩
    ⟨spaced "FROM", rfl⟩ ⟨[spaced "1"], by decide, by decide⟩
    (some (⟨spaced "BY", rfl⟩, ⟨[spaced "1"], by decide, by decide⟩))
    ⟨spaced "UNTIL", rfl⟩ ⟨[spaced "I", spaced ">", spaced "2"], by decide⟩

/-- The values of the items; the operands are the literal one, and the body changes nothing. -/
def counterMeaning : ProgramMeaning (DataItem → ℤ) where
  field item :=
    { get := fun s => s item
      set := fun n s => Function.update s item n
      get_set := fun n s _ => Function.update_self item n s
      set_get := fun s => Function.update_eq_self item s }
  operand _ := ⟨fun _ => 1, fun _ => by decide⟩
  condition _ s := decide (2 < s counterItem)
  count _ _ := 0
  body _ s := some fun item => storedWhole item (s item)
  keeps := by
    rintro b s t h item -
    obtain rfl := Option.some.inj h
    exact within_storedWhole item _

/-- `for (I = 1; !(I > 2); I = I + 1)` -/
def countedLoop : JavaLoop :=
  ⟨.forVarying counterItem [⟨[], ['1']⟩] [⟨[], ['1']⟩] [⟨[], ['I']⟩, spaced ">", spaced "2"],
    .inline⟩

def countedStatement : PerformStatement :=
  ⟨[], ⟨[], "VARYING".toList⟩ :: ["I", "FROM", "1", "BY", "1", "UNTIL", "I", ">", "2"].map spaced,
    [], true, true⟩

theorem parsePerform_countedHeader : parsePerform countedHeader.line = some countedStatement := by
  decide

theorem lowerPerform_countedStatement :
    lowerPerform counterProgram countedStatement = some countedLoop := by
  decide

theorem asWritten_countedHeader : AsWritten countedHeader := by
  refine ⟨by decide, fun _ => rfl, ⟨rfl, rfl, rfl⟩, ?_, ⟨rfl, rfl, rfl⟩, ?_⟩
  · intro b hb
    obtain rfl := Option.some.inj hb
    exact ⟨rfl, rfl, rfl⟩
  · unfold Avoids
    decide

end CobolJava.Transformation
