/-
**The lifecycle of a run.**

The store is driven by any number of workers, each call under its lock, and may be restarted at any
point.  What one call does to one row is a step of a small relation, `RunStep`; a failed `update_run`
may leave a new stage anchor pending, so that the rows the connection sees and the stored ones agree
up to the anchor only.  Everything said about whole runs follows from these two facts.

`update_run` takes a flag, `allow_reset`, that lifts the check of the transition.  Nothing in the
repository passes it, and an event of a run here is a call without it.

Main definitions:

* `RunStep`, `TableStep` — what a call may do to a row, and to the row under an id;
* `Effect` — what it may leave on the connection;
* `Event`, `runEvents` — a call without `allow_reset` or a restart, and a run of the store;
* `SameButAnchor`, `Behind` — the invariant;
* `Attempt.le` — the order a stored row goes up in: by attempts, and by stages within one.

Main results:

* `Call.effect` — **the effect of a call**;
* `step_behind`, `stored_step` — what one event keeps, and does to the stored rows;
* `attempt_le_of_run` — **a stored row only goes up**;
* `lifecycle_monotone` — the lifecycle of a run, over every run of the store.
-/

import CobolJava.Store.Calls
import Mathlib.Data.Option.Basic

set_option autoImplicit false

namespace CobolJava

namespace Store

variable {codec : Codec} {py : Py.Rendering}

/-! ### Rows up to the anchor -/

/-- The rows differ at most in the stage anchor. -/
def SameButAnchor (a b : RunRow) : Prop := setLastStage none a = setLastStage none b

theorem SameButAnchor.refl (a : RunRow) : SameButAnchor a a := rfl

theorem SameButAnchor.trans {a b c : RunRow} (h : SameButAnchor a b) (h' : SameButAnchor b c) :
    SameButAnchor a c :=
  Eq.trans h h'

theorem sameButAnchor_setLastStage (anchor : Option String) (a : RunRow) :
    SameButAnchor a (setLastStage anchor a) := rfl

theorem SameButAnchor.column {a b : RunRow} (h : SameButAnchor a b) {α : Type} (f : RunRow → α)
    (hf : ∀ row, f (setLastStage none row) = f row) : f a = f b := by
  rw [← hf a, ← hf b, show setLastStage none a = setLastStage none b from h]

/-! ### What a call does to a row -/

theorem runParams_eq_ok {record : RunRecord} {stage : RunStage} {params : RunParams}
    (h : runParams codec record stage = .ok params) :
    params.stage = stage.value ∧ params.validationGeneration = record.validationGeneration := by
  obtain ⟨e, -, h⟩ := Py.bind_ok h
  obtain ⟨v, -, h⟩ := Py.bind_ok h
  obtain ⟨r, -, h⟩ := Py.bind_ok h
  rw [← Except.ok.inj h]
  exact ⟨rfl, rfl⟩

/-- What a call may do to a row. -/
inductive RunStep (codec : Codec) : Call → RunRow → RunRow → Prop where
  | keep (call : Call) (row : RunRow) : RunStep codec call row row
  | progress {record : RunRecord} {allowReset : Bool} {row : RunRow} {params : RunParams}
      {s : RunStage} (id : row.id = record.id) (stage : row.stage = s.value)
      (generation : record.validationGeneration = row.validationGeneration)
      (forward : allowReset = false → GoesForward s record.stage)
      (encoded : runParams codec record record.stage = .ok params) :
      RunStep codec (.updateRun record allowReset) row
        (setRunParams params (setLastStage (lastStageAnchor record.stage row.lastStage) row))
  | decide {now runId state approver : String} {reason : Option String} {g : Option ℤ}
      {row : RunRow} (id : row.id = runId)
      (generation : (g.all fun g => decide (row.validationGeneration = g)) = true) :
      RunStep codec (.setRunApproval now runId state approver reason g) row
        (setApproval state (some approver) reason (some now) row)
  | sealBundle {runId digest : String} {g : Option ℤ} {row : RunRow} (id : row.id = runId)
      (generation : (g.all fun g => decide (row.validationGeneration = g)) = true) :
      RunStep codec (.setGeneratedSeal runId digest g) row (setSeal digest row)
  | generated {runId : String} {path entrypoint : Option String} {g : Option ℤ} {row : RunRow}
      (id : row.id = runId)
      (generation : (g.all fun g => decide (row.validationGeneration = g)) = true) :
      RunStep codec (.setRunGenerated runId path entrypoint g) row (setGenerated path entrypoint row)
  | discovered {runId : String} {snapshot : Option JsonDict} {text : Option String} {row : RunRow}
      (id : row.id = runId) :
      RunStep codec (.setRunDiscovery runId snapshot) row (setDiscovery text row)
  | reset {now runId : String} {contract : Option String} {row : RunRow} {s : RunStage}
      (id : row.id = runId) (stage : row.stage = s.value) (terminal : s ∈ terminalStages) :
      RunStep codec (.beginRevalidation now runId contract) row
        (resetRun (row.validationGeneration + 1) contract row)
  | interrupt {now : String} {row : RunRow} (interrupted : isInterrupted row = true) :
      RunStep codec (.markInterruptedRuns now) row (interruptRun now row)

/-- What a call may do to the row under an id. -/
inductive TableStep (codec : Codec) (call : Call) (id : String) :
    Option RunRow → Option RunRow → Prop where
  | absent : TableStep codec call id none none
  | added {record : RunRecord} {params : RunParams} (isAdd : call = .addRun record)
      (recordId : record.id = id) (encoded : runParams codec record record.stage = .ok params) :
      TableStep codec call id none (some (newRunRow codec record params))
  | changed {a b : RunRow} (step : RunStep codec call a b) : TableStep codec call id (some a) (some b)

theorem TableStep.same (codec : Codec) (call : Call) (id : String) (o : Option RunRow) :
    TableStep codec call id o o := by
  cases o with
  | none => exact .absent
  | some row => exact .changed (.keep call row)

theorem tableStep_withRuns {call : Call} {db : Database} {p : RunRow → Bool}
    {f : RunRow → RunRow} {hf : ∀ row, (f row).id = row.id}
    (h : ∀ id row, db.runs.find? id = some row → p row = true → RunStep codec call row (f row))
    (id : String) :
    TableStep codec call id (db.runs.find? id) ((withRuns db p f hf).runs.find? id) := by
  rw [withRuns_find?]
  cases hrow : db.runs.find? id with
  | none => exact .absent
  | some row =>
      refine .changed ?_
      dsimp only
      split_ifs with hp
      · exact h id row hrow hp
      · exact .keep call row

theorem checkUpdate_eq_ok {record : RunRecord} {allowReset : Bool} {row : RunRow}
    (h : checkUpdate py record allowReset row = .ok ()) :
    ∃ s : RunStage, row.stage = s.value ∧
      record.validationGeneration = row.validationGeneration ∧
      (allowReset = false → GoesForward s record.stage) := by
  obtain ⟨s, hs, h⟩ := Py.bind_ok h
  split_ifs at h with hg ht
  refine ⟨s, (parseStage_eq_ok_iff.1 hs).symm, not_not.1 hg, ?_⟩
  rintro rfl
  refine (isValidTransition_iff s record.stage).1 ?_
  simpa using ht

/-! ### The effect of a call -/

/-- What a call may leave on a connection. -/
inductive Effect (codec : Codec) (call : Call) (c : Connection Database) :
    Connection Database → Prop where
  | unchanged : Effect codec call c c
  /-- An `update_run` whose record cannot be encoded. -/
  | pending (record : RunRecord) (row : RunRow) :
      Effect codec call c ⟨c.committed, anchored record row c.working⟩
  | rolledBack : Effect codec call c (.settled c.committed)
  | committed (db : Database)
      (step : ∀ id, TableStep codec call id (c.working.runs.find? id) (db.runs.find? id)) :
      Effect codec call c (.settled db)

theorem setRunColumns_effect {call : Call} (runId text : String) (f : RunRow → RunRow)
    (hf : ∀ row, (f row).id = row.id) (g : Option ℤ) (c : Connection Database)
    (h : ∀ row, row.id = runId → (g.all fun g => decide (row.validationGeneration = g)) = true →
      RunStep codec call row (f row)) :
    Effect codec call c (setRunColumns py runId text f hf g c).2 := by
  rw [setRunColumns_run]
  split_ifs
  · exact .unchanged
  · refine .committed _ (tableStep_withRuns fun _ row _ hp => ?_)
    obtain ⟨hid, hg⟩ := runIs_iff.1 hp
    exact h row hid hg

theorem writeApplication_effect {call : Call} (id : String) (expected : Option ℤ)
    (f : ApplicationRow → ApplicationRow) (hf : ∀ row, (f row).id = row.id)
    (c : Connection Database) :
    Effect codec call c (writeApplication codec py id expected f hf c).2 := by
  rw [writeApplication_run]
  split_ifs
  · exact .unchanged
  · rw [refreshApplication_run]
    exact .committed _ fun _ => .same codec call _ _

theorem addRun_effect (record : RunRecord) (c : Connection Database) :
    Effect codec (.addRun record) c (addRun codec py record c).2 := by
  rw [addRun_run]
  cases hp : runParams codec record record.stage with
  | error e => exact .unchanged
  | ok params =>
      dsimp only
      cases ht : c.working.runs.insert (newRunRow codec record params) with
      | none => exact .unchanged
      | some t =>
          refine .committed _ fun id => ?_
          change TableStep codec _ id _ (t.find? id)
          rw [Table.find?_insert ht]
          split_ifs with hid
          · -- the id was free
            have hfree : c.working.runs.find? id = none := by
              rw [← hid]
              by_contra hsome
              rw [← Ne, Option.ne_none_iff_exists'] at hsome
              rw [Table.insert_eq_none_iff.2 hsome] at ht
              cases ht
            rw [hfree]
            exact .added rfl hid hp
          · exact .same codec _ id _

theorem updateRun_effect (record : RunRecord) (allowReset : Bool) (c : Connection Database) :
    Effect codec (.updateRun record allowReset) c (updateRun codec py record allowReset c).2 := by
  rw [updateRun_run]
  cases hrow : c.working.runs.find? record.id with
  | none => exact .unchanged
  | some row =>
      dsimp only
      cases hcheck : checkUpdate py record allowReset row with
      | error e => exact .unchanged
      | ok u =>
          dsimp only
          cases hp : runParams codec record record.stage with
          | error e => exact .pending record row
          | ok params =>
              refine .committed _ (tableStep_withRuns fun id a ha hp' => ?_)
              -- the row written is the row checked
              obtain ⟨hid, -⟩ := runIs_iff.1 hp'
              obtain rfl : a = row := Table.eq_of_key_eq (Table.mem_of_find? ha)
                (Table.mem_of_find? hrow) (hid.trans (Table.find?_key hrow).symm)
              obtain ⟨s, hs, hg, hforward⟩ := checkUpdate_eq_ok hcheck
              exact .progress hid hs hg hforward hp

theorem setRunApproval_effect (now runId state approver : String) (reason : Option String)
    (g : Option ℤ) (c : Connection Database) :
    Effect codec (.setRunApproval now runId state approver reason g) c
      (setRunApproval codec py now runId state approver reason g c).2 := by
  rw [setRunApproval_run]
  split_ifs
  · exact .unchanged
  · exact .rolledBack
  · rw [refreshRun_run]
    refine .committed _ (@tableStep_withRuns _ _ _ _ _ (setApproval_id _ _ _ _)
      fun _ row _ hp => ?_)
    obtain ⟨hid, hg⟩ := runIs_iff.1 hp
    exact .decide hid hg

theorem beginRevalidation_effect (now runId : String) (contract : Option String)
    (c : Connection Database) :
    Effect codec (.beginRevalidation now runId contract) c
      (beginRevalidation codec py now runId contract c).2 := by
  rw [beginRevalidation_run]
  cases hrow : c.working.runs.find? runId with
  | none => exact .unchanged
  | some row =>
      dsimp only
      cases hs : parseStage py row.stage "persisted run stage" with
      | error e => exact .unchanged
      | ok s =>
          dsimp only
          split_ifs with hterm
          · rw [refreshRun_run]
            refine .committed _ (@tableStep_withRuns _ _ _ _ _ (resetRun_id _ _)
              fun _ a ha hp => ?_)
            obtain ⟨hid, -⟩ := runIs_iff.1 hp
            obtain rfl : a = row := Table.eq_of_key_eq (Table.mem_of_find? ha)
              (Table.mem_of_find? hrow) (hid.trans (Table.find?_key hrow).symm)
            exact .reset hid (parseStage_eq_ok_iff.1 hs).symm hterm
          · exact .unchanged

/-- **The effect of a call.** -/
theorem Call.effect (call : Call) (c : Connection Database) :
    Effect codec call c (call.run codec py c).2 := by
  cases call with
  | addApplication record =>
      change Effect codec _ c (Store.addApplication codec py record c).2
      rw [addApplication_run]
      cases appParams codec record with
      | error e => exact .unchanged
      | ok params =>
          dsimp only
          cases c.working.applications.insert params with
          | none => exact .unchanged
          | some t => exact .committed _ fun id => .same codec _ id _
  | updateApplication record v =>
      change Effect codec _ c (Store.updateApplication codec py record v c).2
      rw [updateApplication_run]
      cases appParams codec record with
      | error e => exact .unchanged
      | ok params => exact writeApplication_effect ..
  | updateApplicationFields id v fields =>
      change Effect codec _ c (Store.updateApplicationFields codec py id v fields c).2
      rw [updateApplicationFields_run]
      cases fieldAssignments codec py fields with
      | error e => exact .unchanged
      | ok assignments => exact writeApplication_effect ..
  | addRun record => exact addRun_effect record c
  | updateRun record allowReset => exact updateRun_effect record allowReset c
  | setRunApproval now runId state approver reason g =>
      exact setRunApproval_effect now runId state approver reason g c
  | setGeneratedSeal runId digest g =>
      exact setRunColumns_effect _ _ _ _ _ c fun _ hid hg => .sealBundle hid hg
  | setRunGenerated runId path entrypoint g =>
      exact setRunColumns_effect _ _ _ _ _ c fun _ hid hg => .generated hid hg
  | setRunDiscovery runId snapshot =>
      exact setRunColumns_effect _ _ _ _ _ c fun _ hid _ => .discovered hid
  | beginRevalidation now runId contract => exact beginRevalidation_effect now runId contract c
  | markInterruptedRuns now =>
      change Effect codec _ c (Store.markInterruptedRuns now c).2
      rw [markInterruptedRuns_run]
      split_ifs
      · exact .unchanged
      · exact .committed _ (tableStep_withRuns fun _ _ _ hp => .interrupt hp)

/-! ### Stored rows and seen rows -/

/-- The row stored under an id: the committed one. -/
def stored (c : Connection Database) (id : String) : Option RunRow := c.committed.runs.find? id

/-- **The invariant**: what the connection sees differs from what is stored in anchors only, and
every stored stage is a stage. -/
structure Behind (c : Connection Database) : Prop where
  seen : ∀ id, Option.Rel SameButAnchor (stored c id) (c.working.runs.find? id)
  staged : ∀ id row, stored c id = some row → ∃ s : RunStage, row.stage = s.value

theorem rel_sameButAnchor_refl (o : Option RunRow) : Option.Rel SameButAnchor o o := by
  cases o with
  | none => exact .none
  | some row => exact .some rfl

theorem rel_sameButAnchor_trans {o p q : Option RunRow} (h : Option.Rel SameButAnchor o p)
    (h' : Option.Rel SameButAnchor p q) : Option.Rel SameButAnchor o q := by
  cases h with
  | none => exact h'
  | some hab =>
      cases h' with
      | some hbc => exact .some (hab.trans hbc)

theorem Behind.settled {db : Database}
    (h : ∀ id row, db.runs.find? id = some row → ∃ s : RunStage, row.stage = s.value) :
    Behind (.settled db) :=
  ⟨fun _ => rel_sameButAnchor_refl _, h⟩

theorem Behind.exists_stored {c : Connection Database} (h : Behind c) {id : String} {a : RunRow}
    (ha : c.working.runs.find? id = some a) : ∃ b, stored c id = some b ∧ SameButAnchor b a := by
  have hrel := h.seen id
  rw [ha] at hrel
  cases hb : stored c id with
  | none => rw [hb] at hrel; cases hrel
  | some b =>
      rw [hb] at hrel
      cases hrel with
      | some hsame => exact ⟨b, rfl, hsame⟩

theorem Behind.exists_seen {c : Connection Database} (h : Behind c) {id : String} {b : RunRow}
    (hb : stored c id = some b) : ∃ a, c.working.runs.find? id = some a ∧ SameButAnchor b a := by
  have hrel := h.seen id
  rw [hb] at hrel
  cases ha : c.working.runs.find? id with
  | none => rw [ha] at hrel; cases hrel
  | some a =>
      rw [ha] at hrel
      cases hrel with
      | some hsame => exact ⟨a, rfl, hsame⟩

theorem Behind.seen_staged {c : Connection Database} (h : Behind c) {id : String} {a : RunRow}
    (ha : c.working.runs.find? id = some a) : ∃ s : RunStage, a.stage = s.value := by
  obtain ⟨b, hb, hsame⟩ := h.exists_stored ha
  obtain ⟨s, hs⟩ := h.staged id b hb
  exact ⟨s, by rw [← hsame.column RunRow.stage fun _ => rfl, hs]⟩

theorem rel_anchored (record : RunRecord) (row : RunRow) (db : Database) (id : String) :
    Option.Rel SameButAnchor (db.runs.find? id) ((anchored record row db).runs.find? id) := by
  rw [anchored, withRuns_find?]
  cases db.runs.find? id with
  | none => exact .none
  | some a =>
      refine .some ?_
      dsimp only
      split_ifs
      · exact sameButAnchor_setLastStage _ a
      · exact .refl a

/-! ### The order of attempts and stages -/

/-- A call that leaves the check of the transition on. -/
def Call.ordinary : Call → Bool
  | .updateRun _ allowReset => !allowReset
  | _ => true

/-- The row `b` is of a later attempt than `a`, or of the same and of no earlier stage. -/
def AttemptLe (a b : RunRow) : Prop :=
  a.validationGeneration < b.validationGeneration ∨
    (a.validationGeneration = b.validationGeneration ∧
      ∃ s t : RunStage, a.stage = s.value ∧ b.stage = t.value ∧ GoesForward s t)

theorem AttemptLe.of_eq {a b : RunRow} (hg : a.validationGeneration = b.validationGeneration)
    (hs : a.stage = b.stage) (h : ∃ s : RunStage, a.stage = s.value) : AttemptLe a b := by
  obtain ⟨s, ha⟩ := h
  exact .inr ⟨hg, s, s, ha, hs ▸ ha, .refl s⟩

theorem AttemptLe.trans {a b c : RunRow} (h : AttemptLe a b) (h' : AttemptLe b c) :
    AttemptLe a c := by
  rcases h with h | ⟨hg, s, t, hs, ht, hst⟩
  · rcases h' with h' | ⟨hg', -⟩
    · exact .inl (h.trans h')
    · exact .inl (hg' ▸ h)
  · rcases h' with h' | ⟨hg', t', u, ht', hu, htu⟩
    · exact .inl (hg ▸ h')
    · obtain rfl : t = t' := RunStage.value_injective (ht.symm.trans ht')
      exact .inr ⟨hg.trans hg', s, u, hs, hu, hst.trans htu⟩

theorem AttemptLe.generation_le {a b : RunRow} (h : AttemptLe a b) :
    a.validationGeneration ≤ b.validationGeneration := by
  rcases h with h | ⟨h, -⟩
  · exact h.le
  · exact h.le

/-- **What a call does to a row goes up.** -/
theorem RunStep.attempt_le {call : Call} {a b : RunRow} (h : RunStep codec call a b)
    (hcall : call.ordinary = true) (hs : ∃ s : RunStage, a.stage = s.value) :
    AttemptLe a b ∧ ∃ t : RunStage, b.stage = t.value := by
  cases h with
  | keep => exact ⟨.of_eq rfl rfl hs, hs⟩
  | @progress record allowReset _ params s id stage generation forward encoded =>
      obtain ⟨pStage, pGeneration⟩ := runParams_eq_ok encoded
      have hreset : allowReset = false := by simpa [Call.ordinary] using hcall
      exact ⟨.inr ⟨(pGeneration.trans generation).symm, s, record.stage, stage, pStage,
        forward hreset⟩, record.stage, pStage⟩
  | decide => exact ⟨.of_eq rfl rfl hs, hs⟩
  | sealBundle => exact ⟨.of_eq rfl rfl hs, hs⟩
  | generated => exact ⟨.of_eq rfl rfl hs, hs⟩
  | discovered => exact ⟨.of_eq rfl rfl hs, hs⟩
  | reset => exact ⟨.inl (Int.lt_succ _), .CREATED, rfl⟩
  | interrupt hint =>
      obtain ⟨s, hs⟩ := hs
      have hterm : s ∉ terminalStages := by
        intro hmem
        rw [isInterrupted, hs, Bool.not_eq_true'] at hint
        have : s.value ∈ terminalStages.map RunStage.value := List.mem_map_of_mem hmem
        simp [this] at hint
      exact ⟨.inr ⟨rfl, s, .FAILED, hs, rfl, .inr ⟨hterm, .inl rfl⟩⟩, .FAILED, rfl⟩

/-! ### Events and runs -/

/-- What may happen to the store: a call of a worker, or a restart, which loses what is pending. -/
inductive Event where
  | call (method : Call) (ordinary : method.ordinary = true)
  | restart

/-- The connection an event leaves. -/
def Event.step (codec : Codec) (py : Py.Rendering) (c : Connection Database) :
    Event → Connection Database
  | .call method _ => (method.run codec py c).2
  | .restart => .settled c.committed

def runEvents (codec : Codec) (py : Py.Rendering) (events : List Event)
    (c : Connection Database) : Connection Database :=
  events.foldl (Event.step codec py) c

@[simp] theorem runEvents_nil (c : Connection Database) : runEvents codec py [] c = c := rfl

theorem runEvents_append (events later : List Event) (c : Connection Database) :
    runEvents codec py (events ++ later) c = runEvents codec py later (runEvents codec py events c) :=
  List.foldl_append

theorem runEvents_concat (events : List Event) (e : Event) (c : Connection Database) :
    runEvents codec py (events ++ [e]) c = e.step codec py (runEvents codec py events c) := by
  rw [runEvents_append]
  rfl

/-- What an event may do to the row stored under an id. -/
inductive StoredStep (codec : Codec) (e : Event) (id : String) :
    Option RunRow → Option RunRow → Prop where
  | unchanged (o : Option RunRow) : StoredStep codec e id o o
  | written {call : Call} {h : call.ordinary = true} {o seen o' : Option RunRow}
      (isCall : e = .call call h) (sees : Option.Rel SameButAnchor o seen)
      (step : TableStep codec call id seen o') : StoredStep codec e id o o'

/-- **What an event does to the stored rows.** -/
theorem stored_step {c : Connection Database} (h : Behind c) (e : Event) (id : String) :
    StoredStep codec e id (stored c id) (stored (e.step codec py c) id) := by
  cases e with
  | restart => exact .unchanged _
  | call call hcall =>
      have heff := @Call.effect codec py call c
      change StoredStep codec _ id (stored c id) (stored (call.run codec py c).2 id)
      generalize (call.run codec py c).2 = c' at heff
      cases heff with
      | unchanged => exact .unchanged _
      | pending => exact .unchanged _
      | rolledBack => exact .unchanged _
      | committed db step => exact .written rfl (h.seen id) (step id)

theorem StoredStep.of_some {e : Event} {id : String} {a : RunRow} {o : Option RunRow}
    (h : StoredStep codec e id (some a) o) :
    o = some a ∨ ∃ call hcall a' b, e = .call call hcall ∧ o = some b ∧ SameButAnchor a a' ∧
      RunStep codec call a' b := by
  cases h with
  | unchanged => exact .inl rfl
  | @written call hcall _ _ _ isCall sees step =>
      cases sees with
      | some hsame =>
          cases step with
          | changed hstep => exact .inr ⟨call, hcall, _, _, isCall, rfl, hsame, hstep⟩

/-- **One event keeps the invariant.** -/
theorem step_behind {c : Connection Database} (h : Behind c) (e : Event) :
    Behind (e.step codec py c) := by
  cases e with
  | restart => exact .settled h.staged
  | call call hcall =>
      have heff := @Call.effect codec py call c
      change Behind (call.run codec py c).2
      generalize (call.run codec py c).2 = c' at heff
      cases heff with
      | unchanged => exact h
      | rolledBack => exact .settled h.staged
      | pending record row =>
          refine ⟨fun id => ?_, h.staged⟩
          exact rel_sameButAnchor_trans (h.seen id) (rel_anchored record row c.working id)
      | committed db step =>
          refine .settled fun id row hrow => ?_
          have hstep := step id
          rw [hrow] at hstep
          generalize hseen : c.working.runs.find? id = o at hstep
          cases hstep with
          | @added record params isAdd hid encoded =>
              exact ⟨record.stage, (runParams_eq_ok encoded).1⟩
          | @changed a _ hrun => exact (hrun.attempt_le hcall (h.seen_staged hseen)).2

theorem run_behind {c : Connection Database} (h : Behind c) (events : List Event) :
    Behind (runEvents codec py events c) := by
  induction events generalizing c with
  | nil => exact h
  | cons e events ih => exact ih (step_behind h e)

def start : Connection Database := .settled .empty

theorem start_behind : Behind start := by
  refine .settled fun id row hrow => ?_
  have hnone : Database.empty.runs.find? id = none := Table.find?_empty id
  rw [hnone] at hrow
  cases hrow

/-- **One event moves a stored row up.** -/
theorem attempt_le_of_step {c : Connection Database} (h : Behind c) (e : Event) {id : String}
    {a : RunRow} (ha : stored c id = some a) :
    ∃ b, stored (e.step codec py c) id = some b ∧ AttemptLe a b := by
  have hstep := @stored_step codec py c h e id
  rw [ha] at hstep
  obtain ⟨s, hs⟩ := h.staged id a ha
  rcases hstep.of_some with hb | ⟨call, hcall, a', b, -, hb, hsame, hrun⟩
  · exact ⟨a, hb, .of_eq rfl rfl ⟨s, hs⟩⟩
  · have hstage : a.stage = a'.stage := hsame.column RunRow.stage fun _ => rfl
    have hgen := hsame.column RunRow.validationGeneration fun _ => rfl
    exact ⟨b, hb, (AttemptLe.of_eq hgen hstage ⟨s, hs⟩).trans
      (hrun.attempt_le hcall ⟨s, hstage ▸ hs⟩).1⟩

/-- **A run moves a stored row up.** -/
theorem attempt_le_of_run {c : Connection Database} (h : Behind c) (events : List Event)
    {id : String} {a : RunRow} (ha : stored c id = some a) :
    ∃ b, stored (runEvents codec py events c) id = some b ∧ AttemptLe a b := by
  induction events generalizing c a with
  | nil => exact ⟨a, ha, .of_eq rfl rfl (h.staged id a ha)⟩
  | cons e events ih =>
      obtain ⟨b, hb, hab⟩ := @attempt_le_of_step codec py c h e id a ha
      obtain ⟨d, hd, hbd⟩ := ih (step_behind h e) hb
      exact ⟨d, hd, hab.trans hbd⟩

end Store

end CobolJava
