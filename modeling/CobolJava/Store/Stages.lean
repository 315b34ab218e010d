/-
**Run stages.**

The lifecycle of a run, from `api/models.py` and the head of `api/store.py`: the stages, their
order, and the transitions a write may make.

Main definitions:

* `RunStage`, `stageOrder`, `stageIndex` — the stages, and the position of each in the order;
* `isValidTransition`, `GoesForward` — the permitted transitions, as the code decides them and as a
  relation;
* `parseStage` — the reading of a persisted stage;
* `lastStageAnchor` — the anchor a write leaves.

Main results:

* `parseStage_value` — a stage is read back from its text;
* `isValidTransition_iff` — **the code decides the relation**;
* `GoesForward.trans`, `GoesForward.eq_of_terminal`, `GoesForward.index_le` — what a sequence of
  permitted transitions keeps.
-/

import CobolJava.Lib.PyText
import CobolJava.Lib.PyExc

set_option autoImplicit false

namespace CobolJava

/-- The lifecycle stages of a run. -/
inductive RunStage where
  | CREATED
  | INGESTING
  | DISCOVERING
  | DISCOVERY_COMPLETED
  | ANALYZING
  | ANALYSIS_COMPLETED
  | PLANNING
  | PLAN_COMPLETED
  | TRANSFORMING
  | GENERATING
  | ASSEMBLING
  | ASSEMBLY_COMPLETED
  | BUILDING
  | EXECUTING_ORACLE
  | EXECUTING_GENERATED
  | COMPARING
  | VALIDATING_EVIDENCE
  | COMPLETED
  | FAILED
deriving DecidableEq

namespace RunStage

/-- The members of the enumeration. -/
def all : List RunStage :=
  [CREATED, INGESTING, DISCOVERING, DISCOVERY_COMPLETED, ANALYZING, ANALYSIS_COMPLETED, PLANNING,
    PLAN_COMPLETED, TRANSFORMING, GENERATING, ASSEMBLING, ASSEMBLY_COMPLETED, BUILDING,
    EXECUTING_ORACLE, EXECUTING_GENERATED, COMPARING, VALIDATING_EVIDENCE, COMPLETED, FAILED]

def value : RunStage → String
  | CREATED => "CREATED"
  | INGESTING => "INGESTING"
  | DISCOVERING => "DISCOVERING"
  | DISCOVERY_COMPLETED => "DISCOVERY_COMPLETED"
  | ANALYZING => "ANALYZING"
  | ANALYSIS_COMPLETED => "ANALYSIS_COMPLETED"
  | PLANNING => "PLANNING"
  | PLAN_COMPLETED => "PLAN_COMPLETED"
  | TRANSFORMING => "TRANSFORMING"
  | GENERATING => "GENERATING"
  | ASSEMBLING => "ASSEMBLING"
  | ASSEMBLY_COMPLETED => "ASSEMBLY_COMPLETED"
  | BUILDING => "BUILDING"
  | EXECUTING_ORACLE => "EXECUTING_ORACLE"
  | EXECUTING_GENERATED => "EXECUTING_GENERATED"
  | COMPARING => "COMPARING"
  | VALIDATING_EVIDENCE => "VALIDATING_EVIDENCE"
  | COMPLETED => "COMPLETED"
  | FAILED => "FAILED"

/-- The member with the given text. -/
def ofValue? (text : String) : Option RunStage := all.find? fun s => decide (s.value = text)

theorem ofValue?_value (s : RunStage) : ofValue? s.value = some s := by
  cases s <;> decide

theorem value_of_ofValue? {text : String} {s : RunStage} (h : ofValue? text = some s) :
    s.value = text := by
  simpa using List.find?_some h

theorem value_injective : Function.Injective value := by
  intro s t h
  have hs := ofValue?_value s
  rw [h, ofValue?_value] at hs
  exact (Option.some.inj hs).symm

end RunStage

open RunStage

/-! ### The order of the stages -/

/-- The stages a run passes, in order; `FAILED` is no step of the way. -/
def stageOrder : List RunStage :=
  [CREATED, INGESTING, DISCOVERING, DISCOVERY_COMPLETED, ANALYZING, ANALYSIS_COMPLETED, PLANNING,
    PLAN_COMPLETED, TRANSFORMING, GENERATING, ASSEMBLING, ASSEMBLY_COMPLETED, EXECUTING_ORACLE,
    BUILDING, EXECUTING_GENERATED, COMPARING, VALIDATING_EVIDENCE, COMPLETED]

/-- The position of a stage in the order. -/
def stageIndex (s : RunStage) : Option ℕ := stageOrder.findIdx? fun t => decide (t = s)

def terminalStages : List RunStage := [COMPLETED, FAILED]

/-- Whether a run may go from one stage to another. -/
def isValidTransition (current target : RunStage) : Bool :=
  if current = target then true
  else if current ∈ terminalStages then false
  else if target = FAILED then true
  else if target = COMPLETED then true
  else
    match stageIndex current, stageIndex target with
    | some i, some j => decide (i ≤ j)
    | _, _ => false

theorem stageIndex_of_ne {s : RunStage} (h : s ≠ FAILED) : ∃ i ≤ 17, stageIndex s = some i := by
  cases s with
  | FAILED => exact absurd rfl h
  | _ => exact ⟨_, by decide, rfl⟩

theorem stageIndex_completed : stageIndex COMPLETED = some 17 := rfl

/-- A write from `s` to `t` goes forward: it keeps the stage, or leaves one that is not terminal for
`FAILED` or for a stage not before it. -/
def GoesForward (s t : RunStage) : Prop :=
  s = t ∨ (s ∉ terminalStages ∧
    (t = FAILED ∨ ∃ i j, stageIndex s = some i ∧ stageIndex t = some j ∧ i ≤ j))

/-- **The permitted transitions** are those that go forward. -/
theorem isValidTransition_iff (s t : RunStage) :
    isValidTransition s t = true ↔ GoesForward s t := by
  unfold isValidTransition GoesForward
  by_cases hst : s = t
  · simp [hst]
  by_cases hs : s ∈ terminalStages
  · simp [hst, hs]
  by_cases hf : t = FAILED
  · simp [hs, hf]
  obtain ⟨i, hi, hsi⟩ : ∃ i ≤ 17, stageIndex s = some i := by
    refine stageIndex_of_ne ?_
    rintro rfl
    exact hs (by decide)
  by_cases hc : t = COMPLETED
  · -- every stage stands before `COMPLETED`
    simp [hs, hc, hsi, stageIndex_completed, hi]
  obtain ⟨j, -, htj⟩ := stageIndex_of_ne hf
  simp [hst, hs, hf, hc, hsi, htj]

theorem GoesForward.refl (s : RunStage) : GoesForward s s := .inl rfl

theorem GoesForward.trans {s t u : RunStage} (h : GoesForward s t) (h' : GoesForward t u) :
    GoesForward s u := by
  rcases h with rfl | ⟨hs, h⟩
  · exact h'
  rcases h' with rfl | ⟨ht, h'⟩
  · exact .inr ⟨hs, h⟩
  refine .inr ⟨hs, ?_⟩
  rcases h with rfl | ⟨i, j, hi, hj, hij⟩
  · exact absurd (by decide) ht
  rcases h' with rfl | ⟨j', k, hj', hk, hjk⟩
  · exact .inl rfl
  obtain rfl : j = j' := Option.some.inj (hj.symm.trans hj')
  exact .inr ⟨i, k, hi, hk, hij.trans hjk⟩

theorem GoesForward.eq_of_terminal {s t : RunStage} (h : GoesForward s t)
    (hs : s ∈ terminalStages) : t = s := by
  rcases h with rfl | ⟨hs', -⟩
  · rfl
  · exact absurd hs hs'

theorem GoesForward.index_le {s t : RunStage} {i j : ℕ} (h : GoesForward s t)
    (hi : stageIndex s = some i) (hj : stageIndex t = some j) : i ≤ j := by
  rcases h with rfl | ⟨-, rfl | ⟨i', j', hi', hj', hle⟩⟩
  · exact (Option.some.inj (hi.symm.trans hj)).le
  · cases hj
  · rwa [Option.some.inj (hi.symm.trans hi'), Option.some.inj (hj.symm.trans hj')]

/-! ### Persisted stages -/

/-- The reading of a persisted stage; an unknown text is refused. -/
def parseStage (py : Py.Rendering) (text place : String) : Except Py.Exc RunStage :=
  match RunStage.ofValue? text with
  | some s => .ok s
  | none =>
      .error (.declared "PersistenceCorruptionError"
        (place ++ " contains unknown run stage " ++ py.repr text))

theorem parseStage_value (py : Py.Rendering) (s : RunStage) (place : String) :
    parseStage py s.value place = .ok s := by
  rw [parseStage, RunStage.ofValue?_value]

theorem parseStage_eq_ok_iff {py : Py.Rendering} {text place : String} {s : RunStage} :
    parseStage py text place = .ok s ↔ s.value = text := by
  constructor
  · intro h
    rw [parseStage] at h
    split at h
    · next t ht =>
      rw [← Except.ok.inj h]
      exact RunStage.value_of_ofValue? ht
    · cases h
  · rintro rfl
    exact parseStage_value py s place

/-- The `last_stage` a move to `stage` leaves: a terminal stage keeps the one before. -/
def lastStageAnchor (stage : RunStage) (previous : Option String) : Option String :=
  if stage ∈ terminalStages then previous else some stage.value

end CobolJava
