/-
**What a failed write leaves.**

A call of the store that raises should leave every row as it was, for good.  Two things stand in the
way.  `update_run` writes the stage anchor in a statement of its own before it encodes the payloads
of the record: when one of them is refused, the anchor stays pending, and the next commit on the
connection makes it permanent.  And the calls that return the row they wrote read it back after
their commit: when the row cannot be read, they raise although the write stands.

Main definitions:

* `FailureChangesNothing` — a call that raises leaves the rows, and what any later calls make of
  them, as without it;
* `Call.ReadsBack`, `Call.FailsWhole` — the condition on a call and on the rows it finds.

Main results:

* `failureChangesNothing_iff` — **a call meets the property exactly under the condition**.
-/

import CobolJava.Store.Calls
import CobolJava.Store.Sample

set_option autoImplicit false

namespace CobolJava

namespace Store

variable {codec : Codec} {py : Py.Rendering}

/-! ### The property -/

/-- The connection that calls leave, one after the other. -/
def runCalls (codec : Codec) (py : Py.Rendering) (calls : List Call)
    (c : Connection Database) : Connection Database :=
  calls.foldl (fun c call => (call.run codec py c).2) c

theorem runCalls_cons (call : Call) (calls : List Call) (c : Connection Database) :
    runCalls codec py (call :: calls) c = runCalls codec py calls (call.run codec py c).2 := rfl

/-- When the call raises, every row is as before it, seen on the connection and stored, and later
calls leave the rows they would have left without it. -/
def FailureChangesNothing (codec : Codec) (py : Py.Rendering) (call : Call)
    (c : Connection Database) : Prop :=
  ∀ e, (call.run codec py c).1 = .error e →
    (call.run codec py c).2.working = c.working ∧
      (call.run codec py c).2.committed = c.committed ∧
      ∀ later, runCalls codec py later (call.run codec py c).2 = runCalls codec py later c

theorem failureChangesNothing_of_eq {call : Call} {c : Connection Database}
    (h : ∀ e, (call.run codec py c).1 = .error e → (call.run codec py c).2 = c) :
    FailureChangesNothing codec py call c := by
  intro e he
  rw [h e he]
  exact ⟨rfl, rfl, fun _ => rfl⟩

theorem FailureChangesNothing.eq {call : Call} {c : Connection Database} {e : Py.Exc}
    (h : FailureChangesNothing codec py call c) (he : (call.run codec py c).1 = .error e) :
    (call.run codec py c).2 = c := by
  obtain ⟨hw, hc, -⟩ := h e he
  exact Connection.ext hc hw

/-! ### The condition -/

/-- The update of an application whose row cannot be read back once written. -/
def ReadsBackApplication (codec : Codec) (id : String) (expected : Option ℤ)
    (f : ApplicationRow → ApplicationRow) (db : Database) : Prop :=
  ∀ row, db.applications.find? id = some row →
    (expected.all fun v => decide (row.version = v)) = true →
      ∃ record, appFromRow codec (f row) = .ok record

/-- The condition under which a call that raises has changed nothing, on the call and on the
connection it finds. -/
def Call.FailsWhole (codec : Codec) (py : Py.Rendering) (c : Connection Database) : Call → Prop
  | .updateApplication record v =>
      ∀ params, appParams codec record = .ok params →
        ReadsBackApplication codec record.id v (setApplication params) c.working
  | .updateApplicationFields id v fields =>
      ∀ assignments, fieldAssignments codec py fields = .ok assignments →
        ReadsBackApplication codec id v (setFields assignments) c.working
  | .updateRun record allowReset =>
      -- the anchor stays, or the payloads of the record can be encoded
      ∀ row, c.working.runs.find? record.id = some row →
        checkUpdate py record allowReset row = .ok () →
          lastStageAnchor record.stage row.lastStage = row.lastStage ∨
            ∃ params, runParams codec record record.stage = .ok params
  | .setRunApproval _ id state _ _ g =>
      state = "APPROVED" ∨ state = "REJECTED" →
        -- a refused decision has nothing of an earlier call to roll back
        (c.working.runs.rowcount (runIs id g) = 0 → c.Idle) ∧
          ∀ row, c.working.runs.find? id = some row →
            (g.all fun g => decide (row.validationGeneration = g)) = true →
              ∃ record, runFromRow codec py row = .ok record
  | .beginRevalidation _ id contract =>
      ∀ row s, c.working.runs.find? id = some row → row.stage = RunStage.value s →
        s ∈ terminalStages →
          ∃ record, runFromRow codec py (resetRun (row.validationGeneration + 1) contract row) =
            .ok record
  | _ => True

/-! ### Calls that check before they write -/

theorem setRunColumns_atomic (runId text : String) (f : RunRow → RunRow)
    (hf : ∀ row, (f row).id = row.id) (g : Option ℤ) :
    (setRunColumns py runId text f hf g).Atomic := by
  intro c e he
  rw [setRunColumns_run] at he ⊢
  split_ifs at he ⊢
  rfl

theorem addRun_atomic (record : RunRecord) : (addRun codec py record).Atomic := by
  intro c e he
  rw [addRun_run] at he ⊢
  cases hp : runParams codec record record.stage with
  | error e' => rfl
  | ok params =>
      cases ht : c.working.runs.insert (newRunRow codec record params) with
      | none => simp only [ht]
      | some t => simp only [hp, ht] at he; cases he

theorem addApplication_atomic (record : ApplicationRecord) :
    (addApplication codec py record).Atomic := by
  intro c e he
  rw [addApplication_run] at he ⊢
  cases hp : appParams codec record with
  | error e' => rfl
  | ok params =>
      cases ht : c.working.applications.insert params with
      | none => simp only [ht]
      | some t => simp only [hp, ht] at he; cases he

theorem markInterruptedRuns_atomic (now : String) : (markInterruptedRuns now).Atomic := by
  intro c e he
  rw [markInterruptedRuns_run] at he
  split_ifs at he

/-! ### Calls that read back what they wrote -/

/-- The update of an application changes nothing when it raises, exactly when the row it writes can
be read back. -/
theorem writeApplication_atomic_iff (id : String) (expected : Option ℤ)
    (f : ApplicationRow → ApplicationRow) (hf : ∀ row, (f row).id = row.id)
    (hversion : ∀ row, (f row).version = row.version + 1) (c : Connection Database) :
    (∀ e, (writeApplication codec py id expected f hf c).1 = .error e →
      (writeApplication codec py id expected f hf c).2 = c) ↔
      ReadsBackApplication codec id expected f c.working := by
  rw [writeApplication_run]
  split_ifs with hcount
  · refine ⟨fun _ row hrow hv => ?_, fun _ _ _ => rfl⟩
    have hnone := rowcount_applicationIs_eq_zero.1 hcount row hrow
    rw [hv] at hnone
    cases hnone
  · -- the row is there, and of the version expected
    obtain ⟨row, hrow, hv⟩ : ∃ row, c.working.applications.find? id = some row ∧
        (expected.all fun v => decide (row.version = v)) = true := by
      by_contra hno
      refine hcount (rowcount_applicationIs_eq_zero.2 fun row hrow => ?_)
      by_contra hv
      exact hno ⟨row, hrow, by simpa using hv⟩
    have hp : applicationIs id expected row = true := by
      rw [applicationIs, hv, Table.find?_key hrow]
      simp
    have hfind : (withApplications c.working (applicationIs id expected) f hf).applications.find?
        id = some (f row) := by
      rw [withApplications_find?, hrow, Option.map_some, if_pos hp]
    rw [refreshApplication_run]
    simp only [Connection.settled_working, hfind]
    constructor
    · intro h row' hrow' _
      obtain rfl : row = row' := Option.some.inj (hrow.symm.trans hrow')
      cases hread : appFromRow codec (f row) with
      | ok record => exact ⟨record, rfl⟩
      | error e =>
          -- the version of the row has moved
          have hsame := congrArg Connection.working (h e hread)
          rw [Connection.settled_working] at hsame
          rw [hsame, hrow] at hfind
          have := congrArg ApplicationRow.version (Option.some.inj hfind)
          rw [hversion] at this
          omega
    · intro h e he
      obtain ⟨record, hread⟩ := h row hrow hv
      rw [hread] at he
      cases he

theorem runFromRow_setApproval (state : String) (approver reason decidedAt : Option String)
    (row : RunRow) :
    (∃ record, runFromRow codec py (setApproval state approver reason decidedAt row) = .ok record) ↔
      ∃ record, runFromRow codec py row = .ok record := by
  simp only [runFromRow, setApproval, Py.bind_eq_ok_iff]
  constructor <;> rintro ⟨_, stage, hs, e, he, v, hv, r, hr, -⟩ <;>
    exact ⟨_, stage, hs, e, he, v, hv, r, hr, rfl⟩

theorem setRunApproval_atomic_iff (now id state approver : String) (reason : Option String)
    (g : Option ℤ) (c : Connection Database) :
    (∀ e, (setRunApproval codec py now id state approver reason g c).1 = .error e →
      (setRunApproval codec py now id state approver reason g c).2 = c) ↔
      (Call.setRunApproval now id state approver reason g).FailsWhole codec py c := by
  rw [setRunApproval_run]
  simp only [Call.FailsWhole]
  split_ifs with hs hcount
  · refine ⟨fun _ hdecision => ?_, fun _ _ _ => rfl⟩
    rcases hdecision with rfl | rfl
    · exact absurd rfl hs.1
    · exact absurd rfl hs.2
  · have hdecision : state = "APPROVED" ∨ state = "REJECTED" := by
      by_contra hno
      exact hs (not_or.1 hno)
    constructor
    · intro h _
      refine ⟨fun _ => (congrArg Connection.working (h _ rfl)).symm, fun row hrow hg => ?_⟩
      have hnone := rowcount_runIs_eq_zero.1 hcount row hrow
      rw [hg] at hnone
      cases hnone
    · intro h _ _
      exact Connection.ext rfl ((h hdecision).1 hcount).symm
  · obtain ⟨row, hrow, hg⟩ : ∃ row, c.working.runs.find? id = some row ∧
        (g.all fun g => decide (row.validationGeneration = g)) = true := by
      by_contra hno
      refine hcount (rowcount_runIs_eq_zero.2 fun row hrow => ?_)
      by_contra hg
      exact hno ⟨row, hrow, by simpa using hg⟩
    have hfind : (decided now id state approver reason g c.working).runs.find? id =
        some (setApproval state (some approver) reason (some now) row) := by
      change (withRuns _ _ _ (setApproval_id _ _ _ _)).runs.find? id = _
      rw [withRuns_find?, hrow, Option.map_some, if_pos (runIs_iff.2 ⟨Table.find?_key hrow, hg⟩)]
    rw [refreshRun_run]
    simp only [Connection.settled_working, hfind]
    have hdecision : state = "APPROVED" ∨ state = "REJECTED" := by
      by_contra hno
      exact hs (not_or.1 hno)
    constructor
    · intro h _
      refine ⟨fun hzero => absurd hzero hcount, fun row' hrow' _ => ?_⟩
      obtain rfl : row = row' := Option.some.inj (hrow.symm.trans hrow')
      refine (runFromRow_setApproval state (some approver) reason (some now) row).1 ?_
      cases hread : runFromRow codec py (setApproval state (some approver) reason (some now) row) with
      | ok record => exact ⟨record, rfl⟩
      | error e =>
          -- the audit trail has one more event
          have hsame := congrArg Connection.working (h e hread)
          have hlength := congrArg (fun db => db.approvalEvents.length) hsame
          simp [decided, Connection.settled] at hlength
    · intro h e he
      obtain ⟨record, hread⟩ :=
        (runFromRow_setApproval state (some approver) reason (some now) row).2
          ((h hdecision).2 row hrow hg)
      rw [hread] at he
      cases he

theorem beginRevalidation_atomic_iff (now id : String) (contract : Option String)
    (c : Connection Database) :
    (∀ e, (beginRevalidation codec py now id contract c).1 = .error e →
      (beginRevalidation codec py now id contract c).2 = c) ↔
      (Call.beginRevalidation now id contract).FailsWhole codec py c := by
  rw [beginRevalidation_run]
  simp only [Call.FailsWhole]
  cases hrow : c.working.runs.find? id with
  | none => exact ⟨fun _ _ _ hnone => absurd hnone (by simp), fun _ _ _ => rfl⟩
  | some row =>
      dsimp only
      cases hs : parseStage py row.stage "persisted run stage" with
      | error e =>
          refine ⟨fun _ row' s hrow' hstage _ => ?_, fun _ _ _ => rfl⟩
          obtain rfl := Option.some.inj hrow'
          rw [hstage, parseStage_value] at hs
          cases hs
      | ok s =>
          have hstage := parseStage_eq_ok_iff.1 hs
          dsimp only
          split_ifs with hterm
          · have hfind : (revalidated now id contract row c.working).runs.find? id =
                some (resetRun (row.validationGeneration + 1) contract row) := by
              change (withRuns _ _ _ (resetRun_id _ _)).runs.find? id = _
              rw [withRuns_find?, hrow, Option.map_some,
                if_pos (runIs_iff.2 ⟨Table.find?_key hrow, rfl⟩)]
            rw [refreshRun_run]
            simp only [Connection.settled_working, hfind]
            constructor
            · intro h row' s' hrow' _ _
              obtain rfl := Option.some.inj hrow'
              cases hread : runFromRow codec py
                  (resetRun (row.validationGeneration + 1) contract row) with
              | ok record => exact ⟨record, rfl⟩
              | error e =>
                  -- the attempt of the row has moved
                  have hsame := congrArg Connection.working (h e hread)
                  rw [Connection.settled_working] at hsame
                  rw [hsame, hrow] at hfind
                  have := congrArg RunRow.validationGeneration (Option.some.inj hfind)
                  simp only [resetRun] at this
                  omega
            · intro h e he
              obtain ⟨record, hread⟩ := h row s rfl hstage.symm hterm
              rw [hread] at he
              cases he
          · refine ⟨fun _ row' s' hrow' hstage' hterm' => ?_, fun _ _ _ => rfl⟩
            obtain rfl := Option.some.inj hrow'
            obtain rfl : s = s' := RunStage.value_injective (hstage.trans hstage')
            exact absurd hterm' hterm

/-! ### The update of a run -/

theorem updateRun_atomic_iff (record : RunRecord) (allowReset : Bool) (c : Connection Database) :
    (∀ e, (updateRun codec py record allowReset c).1 = .error e →
      (updateRun codec py record allowReset c).2 = c) ↔
      (Call.updateRun record allowReset).FailsWhole codec py c := by
  rw [updateRun_run]
  simp only [Call.FailsWhole]
  cases hrow : c.working.runs.find? record.id with
  | none => exact ⟨fun _ _ hnone => absurd hnone (by simp), fun _ _ _ => rfl⟩
  | some row =>
      dsimp only
      cases hcheck : checkUpdate py record allowReset row with
      | error e =>
          refine ⟨fun _ row' hrow' hcheck' => ?_, fun _ _ _ => rfl⟩
          obtain rfl := Option.some.inj hrow'
          rw [hcheck] at hcheck'
          cases hcheck'
      | ok u =>
          dsimp only
          cases hp : runParams codec record record.stage with
          | ok params => exact ⟨fun _ _ _ _ => .inr ⟨params, rfl⟩, fun _ e h => by cases h⟩
          | error e =>
              constructor
              · intro h row' hrow' _
                obtain rfl := Option.some.inj hrow'
                -- the row that is seen has the anchor of the one read
                have hsame : anchored record row c.working = c.working :=
                  congrArg Connection.working (h e rfl)
                have hfind : (anchored record row c.working).runs.find? record.id =
                    some (setLastStage (lastStageAnchor record.stage row.lastStage) row) := by
                  rw [anchored, withRuns_find?, hrow, Option.map_some,
                    if_pos (runIs_iff.2 ⟨Table.find?_key hrow, rfl⟩)]
                rw [hsame, hrow] at hfind
                exact .inl (congrArg RunRow.lastStage (Option.some.inj hfind)).symm
              · intro h e' _
                rcases h row rfl hcheck with ha | ⟨params, hparams⟩
                · exact Connection.ext rfl (anchored_eq_self hrow ha)
                · cases hparams

/-! ### All calls -/

/-- **A call that raises changes nothing exactly under the condition.** -/
theorem failureChangesNothing_iff (codec : Codec) (py : Py.Rendering) (call : Call)
    (c : Connection Database) :
    FailureChangesNothing codec py call c ↔ call.FailsWhole codec py c := by
  have hiff : FailureChangesNothing codec py call c ↔
      ∀ e, (call.run codec py c).1 = .error e → (call.run codec py c).2 = c :=
    ⟨fun h _ he => h.eq he, failureChangesNothing_of_eq⟩
  rw [hiff]
  cases call with
  | addApplication record =>
      refine iff_of_true (fun e he => ?_) trivial
      exact addApplication_atomic record c e (Tx.discard_eq_error_iff.1 he)
  | updateApplication record v =>
      simp only [Call.run, Tx.discard_snd, Tx.discard_eq_error_iff, updateApplication_run,
        Call.FailsWhole]
      cases hp : appParams codec record with
      | error e => exact ⟨fun _ => nofun, fun _ _ _ => rfl⟩
      | ok params =>
          simp only [Except.ok.injEq, forall_eq']
          exact writeApplication_atomic_iff record.id v (setApplication params)
            (setApplication_id params) (fun _ => rfl) c
  | updateApplicationFields id v fields =>
      simp only [Call.run, Tx.discard_snd, Tx.discard_eq_error_iff, updateApplicationFields_run,
        Call.FailsWhole]
      cases hp : fieldAssignments codec py fields with
      | error e => exact ⟨fun _ => nofun, fun _ _ _ => rfl⟩
      | ok assignments =>
          simp only [Except.ok.injEq, forall_eq']
          exact writeApplication_atomic_iff id v (setFields assignments)
            (setFields_id assignments) (fun _ => rfl) c
  | addRun record =>
      refine iff_of_true (fun e he => ?_) trivial
      exact addRun_atomic record c e (Tx.discard_eq_error_iff.1 he)
  | updateRun record allowReset => exact updateRun_atomic_iff record allowReset c
  | setRunApproval now id state approver reason g =>
      simp only [Call.run, Tx.discard_snd, Tx.discard_eq_error_iff]
      exact setRunApproval_atomic_iff now id state approver reason g c
  | setGeneratedSeal id digest g =>
      exact iff_of_true (fun e he => setRunColumns_atomic _ _ _ _ _ c e he) trivial
  | setRunGenerated id path entrypoint g =>
      exact iff_of_true (fun e he => setRunColumns_atomic _ _ _ _ _ c e he) trivial
  | setRunDiscovery id snapshot =>
      exact iff_of_true (fun e he => setRunColumns_atomic _ _ _ _ _ c e he) trivial
  | beginRevalidation now id contract =>
      simp only [Call.run, Tx.discard_snd, Tx.discard_eq_error_iff]
      exact beginRevalidation_atomic_iff now id contract c
  | markInterruptedRuns now =>
      refine iff_of_true (fun e he => ?_) trivial
      exact markInterruptedRuns_atomic now c e (Tx.discard_eq_error_iff.1 he)

/-- The run moves on with a manifest whose seal was taken off after it was built. -/
def unsealedUpdate : Call :=
  .updateRun { Sample.run with
    stage := .INGESTING
    evidenceManifest := some { Sample.matching with sealedHash := none } } false

/-- **The anchor of a refused update stays**: the manifest is refused, and the next commit on the
connection makes the new anchor permanent. -/
theorem failureChangesNothing_unsealed : ¬ ∀ (call : Call) (c : Connection Database),
    FailureChangesNothing Sample.codec Sample.plain call c := by
  intro h
  obtain ⟨e, he⟩ : ∃ e, (unsealedUpdate.run Sample.codec Sample.plain Sample.added).1 = .error e :=
    ⟨_, rfl⟩
  have hworking := (h unsealedUpdate Sample.added e he).1
  have hrows := congrArg (fun db => db.runs.rows.map RunRow.lastStage) hworking
  exact absurd hrows (by decide)

end Store

end CobolJava
