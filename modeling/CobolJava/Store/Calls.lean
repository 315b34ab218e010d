/-
**What a call of the store leaves.**

For each mutator, its whole effect on the connection in one equation: which checks end it before it
writes, what it writes, and whether the write is committed, pending or rolled back when it ends.
Every invariant of the store is read off these.

Main definitions:

* `Connection.settled` — a connection on which everything is committed;
* `Store.Call`, `Store.Call.run` — the calls, and their runs.

Main results:

* `Store.setRunColumns_run`, `Store.setRunApproval_run`, `Store.beginRevalidation_run`,
  `Store.markInterruptedRuns_run`, `Store.updateRun_run`, `Store.addRun_run`,
  `Store.addApplication_run`, `Store.writeApplication_run`, `Store.updateApplication_run`,
  `Store.updateApplicationFields_run` — **the equations**.
-/

import Mathlib
import CobolJava.Store.Mutators

set_option autoImplicit false

/-- A connection whose writes are committed. -/
def Connection.settled {σ : Type*} (s : σ) : Connection σ := ⟨s, s⟩

@[simp] theorem Connection.settled_committed {σ : Type*} (s : σ) :
    (Connection.settled s).committed = s := rfl

@[simp] theorem Connection.settled_working {σ : Type*} (s : σ) :
    (Connection.settled s).working = s := rfl

namespace CobolJava

namespace Store

variable {codec : Codec} {py : Py.Rendering}

/-! ### The statements -/

/-- The database after an update of runs. -/
def withRuns (db : Database) (p : RunRow → Bool) (f : RunRow → RunRow)
    (hf : ∀ row, (f row).id = row.id) : Database :=
  { db with runs := db.runs.update p f hf }

/-- The database after an update of applications. -/
def withApplications (db : Database) (p : ApplicationRow → Bool)
    (f : ApplicationRow → ApplicationRow) (hf : ∀ row, (f row).id = row.id) : Database :=
  { db with applications := db.applications.update p f hf }

theorem withRuns_of_rowcount_eq_zero {db : Database} {p : RunRow → Bool} {f : RunRow → RunRow}
    {hf : ∀ row, (f row).id = row.id} (h : db.runs.rowcount p = 0) : withRuns db p f hf = db := by
  rw [withRuns, Table.update_of_rowcount_eq_zero h]

theorem withApplications_of_rowcount_eq_zero {db : Database} {p : ApplicationRow → Bool}
    {f : ApplicationRow → ApplicationRow} {hf : ∀ row, (f row).id = row.id}
    (h : db.applications.rowcount p = 0) : withApplications db p f hf = db := by
  rw [withApplications, Table.update_of_rowcount_eq_zero h]

@[simp] theorem withRuns_find? (db : Database) (p : RunRow → Bool) (f : RunRow → RunRow)
    (hf : ∀ row, (f row).id = row.id) (id : String) :
    (withRuns db p f hf).runs.find? id =
      (db.runs.find? id).map fun row => if p row then f row else row :=
  Table.find?_update db.runs p f hf id

@[simp] theorem withApplications_find? (db : Database) (p : ApplicationRow → Bool)
    (f : ApplicationRow → ApplicationRow) (hf : ∀ row, (f row).id = row.id) (id : String) :
    (withApplications db p f hf).applications.find? id =
      (db.applications.find? id).map fun row => if p row then f row else row :=
  Table.find?_update db.applications p f hf id

theorem updateRuns_bind {α : Type} (p : RunRow → Bool) (f : RunRow → RunRow)
    (hf : ∀ row, (f row).id = row.id) (g : ℕ → Method α) (c : Connection Database) :
    (updateRuns p f hf >>= g) c =
      g (c.working.runs.rowcount p) { c with working := withRuns c.working p f hf } := rfl

theorem updateApplications_bind {α : Type} (p : ApplicationRow → Bool)
    (f : ApplicationRow → ApplicationRow) (hf : ∀ row, (f row).id = row.id) (g : ℕ → Method α)
    (c : Connection Database) :
    (updateApplications p f hf >>= g) c =
      g (c.working.applications.rowcount p)
        { c with working := withApplications c.working p f hf } := rfl

theorem runIs_iff {id : String} {g : Option ℤ} {row : RunRow} :
    runIs id g row = true ↔
      row.id = id ∧ (g.all fun g => decide (row.validationGeneration = g)) = true := by
  simp [runIs]

theorem rowcount_runIs_eq_zero {db : Database} {id : String} {generation : Option ℤ} :
    db.runs.rowcount (runIs id generation) = 0 ↔ ∀ row, db.runs.find? id = some row →
      (generation.all fun g => decide (row.validationGeneration = g)) = false :=
  Table.rowcount_key_eq_zero

theorem rowcount_applicationIs_eq_zero {db : Database} {id : String} {version : Option ℤ} :
    db.applications.rowcount (applicationIs id version) = 0 ↔
      ∀ row, db.applications.find? id = some row →
        (version.all fun v => decide (row.version = v)) = false :=
  Table.rowcount_key_eq_zero

theorem rowcount_runIs_ne_zero {db : Database} {id : String} {row : RunRow}
    (h : db.runs.find? id = some row) : db.runs.rowcount (runIs id none) ≠ 0 := by
  rw [Ne, rowcount_runIs_eq_zero]
  intro hall
  simpa using hall row h

/-! ### Applications -/

theorem addApplication_run (record : ApplicationRecord) (c : Connection Database) :
    addApplication codec py record c =
      match appParams codec record with
      | .error e => (.error e, c)
      | .ok params =>
        match c.working.applications.insert params with
        | none =>
          (.error (conflictError ("Application " ++ py.repr record.id ++ " already exists")), c)
        | some t => (.ok record, .settled { c.working with applications := t }) := by
  rw [addApplication, Tx.ofExcept_bind]
  cases appParams codec record with
  | error e => rfl
  | ok params =>
      dsimp only
      cases h : c.working.applications.insert params with
      | none => rw [Tx.executeOrRaise_none_bind (by rw [h]; rfl)]
      | some t =>
          rw [Tx.executeOrRaise_some_bind (s := { c.working with applications := t })
            (by rw [h]; rfl)]
          rfl

theorem refreshApplication_run (id : String) (c : Connection Database) :
    refreshApplication codec id c =
      (match c.working.applications.find? id with
        | none => .error (.declared "TypeError" "'NoneType' object is not subscriptable")
        | some row => appFromRow codec row, c) := by
  change (match c.working.applications.find? id with
    | none => Tx.raise (.declared "TypeError" "'NoneType' object is not subscriptable")
    | some row => Tx.ofExcept (appFromRow codec row) : Method ApplicationRecord) c = _
  cases c.working.applications.find? id <;> rfl

theorem writeApplication_run (id : String) (expected : Option ℤ)
    (f : ApplicationRow → ApplicationRow) (hf : ∀ row, (f row).id = row.id)
    (c : Connection Database) :
    writeApplication codec py id expected f hf c =
      if c.working.applications.rowcount (applicationIs id expected) = 0 then
        (.error (unmatched py "Application" id ("Application " ++ py.repr id ++
          " version conflict (expected " ++ (expected.map toString).getD "None" ++ ")")
          (c.working.applications.find? id).isSome), c)
      else
        refreshApplication codec id
          (.settled (withApplications c.working (applicationIs id expected) f hf)) := by
  rw [writeApplication, updateApplications_bind]
  split_ifs with h
  · rw [withApplications_of_rowcount_eq_zero h]
    rfl
  · rfl

theorem updateApplication_run (record : ApplicationRecord) (expected : Option ℤ)
    (c : Connection Database) :
    updateApplication codec py record expected c =
      match appParams codec record with
      | .error e => (.error e, c)
      | .ok params =>
        writeApplication codec py record.id expected (setApplication params)
          (setApplication_id params) c := by
  rw [updateApplication, Tx.ofExcept_bind]
  cases appParams codec record <;> rfl

theorem updateApplicationFields_run (id : String) (expected : Option ℤ)
    (fields : List ApplicationField) (c : Connection Database) :
    updateApplicationFields codec py id expected fields c =
      match fieldAssignments codec py fields with
      | .error e => (.error e, c)
      | .ok assignments =>
        writeApplication codec py id expected (setFields assignments)
          (setFields_id assignments) c := by
  rw [updateApplicationFields, Tx.ofExcept_bind]
  cases fieldAssignments codec py fields <;> rfl

/-! ### Columns of one run -/

theorem setRunColumns_run (runId text : String) (f : RunRow → RunRow)
    (hf : ∀ row, (f row).id = row.id) (generation : Option ℤ) (c : Connection Database) :
    setRunColumns py runId text f hf generation c =
      if c.working.runs.rowcount (runIs runId generation) = 0 then
        (.error (unmatched py "Run" runId ("Run " ++ py.repr runId ++
          " was reset by a newer validation attempt; discarding stale " ++ text)
          (c.working.runs.find? runId).isSome), c)
      else (.ok (), .settled (withRuns c.working (runIs runId generation) f hf)) := by
  rw [setRunColumns, updateRuns_bind]
  split_ifs with h
  · rw [withRuns_of_rowcount_eq_zero h]
    rfl
  · rfl

theorem decided_id (now state approver : String) (reason : Option String) (row : RunRow) :
    (setApproval state (some approver) reason (some now) row).id = row.id :=
  setApproval_id _ _ _ _ row

/-- The database after a recorded decision. -/
def decided (now runId state approver : String) (reason : Option String)
    (generation : Option ℤ) (db : Database) : Database :=
  { withRuns db (runIs runId generation) (setApproval state (some approver) reason (some now))
      (decided_id now state approver reason) with
    approvalEvents := db.approvalEvents ++ [⟨runId, state, some approver, reason, now⟩] }

theorem refreshRun_run (runId : String) (c : Connection Database) :
    refreshRun codec py runId c =
      (match c.working.runs.find? runId with
        | none => .error (.declared "AssertionError" "")
        | some row => runFromRow codec py row, c) := by
  change (match c.working.runs.find? runId with
    | none => Tx.raise (.declared "AssertionError" "")
    | some row => Tx.ofExcept (runFromRow codec py row) : Method RunRecord) c = _
  cases c.working.runs.find? runId <;> rfl

theorem setRunApproval_run (now runId state approver : String) (reason : Option String)
    (generation : Option ℤ) (c : Connection Database) :
    setRunApproval codec py now runId state approver reason generation c =
      if state ≠ "APPROVED" ∧ state ≠ "REJECTED" then
        (.error (.valueError ("invalid approval decision " ++ py.repr state)), c)
      else if c.working.runs.rowcount (runIs runId generation) = 0 then
        (.error (unmatched py "Run" runId ("Run " ++ py.repr runId ++
          " was reset by a newer validation attempt after it was checked; the decision was not" ++
          " recorded") (c.committed.runs.find? runId).isSome), .settled c.committed)
      else
        refreshRun codec py runId
          (.settled (decided now runId state approver reason generation c.working)) := by
  rw [setRunApproval]
  split_ifs with hs h
  · rfl
  · rw [updateRuns_bind, if_pos h]
    rfl
  · rw [updateRuns_bind, if_neg h]
    rfl

def revalidated (now runId : String) (contract : Option String) (row : RunRow) (db : Database) :
    Database :=
  { withRuns db (runIs runId none) (resetRun (row.validationGeneration + 1) contract)
      (resetRun_id _ _) with
    approvalEvents := db.approvalEvents ++ resetEvents now (row.validationGeneration + 1) row }

theorem beginRevalidation_run (now runId : String) (contract : Option String)
    (c : Connection Database) :
    beginRevalidation codec py now runId contract c =
      match c.working.runs.find? runId with
      | none => (.error (notFoundError py "Run" runId), c)
      | some row =>
        match parseStage py row.stage "persisted run stage" with
        | .error e => (.error e, c)
        | .ok current =>
          if current ∉ terminalStages then
            (.error (conflictError ("Run " ++ py.repr runId ++ " is not revalidatable: stage " ++
              current.value ++ " (only terminal runs are)")), c)
          else
            refreshRun codec py runId
              (.settled (revalidated now runId contract row c.working)) := by
  rw [beginRevalidation, selectRun, Tx.fetch_bind]
  cases c.working.runs.find? runId with
  | none => rfl
  | some row =>
      dsimp only
      rw [Tx.ofExcept_bind]
      cases parseStage py row.stage "persisted run stage" with
      | error e => rfl
      | ok current =>
          dsimp only
          split_ifs <;> rfl

theorem markInterruptedRuns_run (now : String) (c : Connection Database) :
    markInterruptedRuns now c =
      if c.working.runs.rowcount isInterrupted = 0 then (.ok 0, c)
      else (.ok (c.working.runs.rowcount isInterrupted),
        .settled (withRuns c.working isInterrupted (interruptRun now) (interruptRun_id now))) := by
  rw [markInterruptedRuns, Tx.fetch_bind]
  split_ifs <;> rfl

/-! ### Whole runs -/

/-- The database after an update whose record is encoded. -/
def updated (record : RunRecord) (row : RunRow) (params : RunParams) (db : Database) : Database :=
  withRuns db (runIs record.id none)
    (fun r => setRunParams params (setLastStage (lastStageAnchor record.stage row.lastStage) r))
    fun _ => rfl

/-- The database with the new anchor alone. -/
def anchored (record : RunRecord) (row : RunRow) (db : Database) : Database :=
  withRuns db (runIs record.id none) (setLastStage (lastStageAnchor record.stage row.lastStage))
    (setLastStage_id _)

theorem anchored_eq_self {record : RunRecord} {row : RunRow} {db : Database}
    (h : db.runs.find? record.id = some row)
    (ha : lastStageAnchor record.stage row.lastStage = row.lastStage) :
    anchored record row db = db := by
  have hrows : (anchored record row db).runs = db.runs := by
    refine Table.ext_rows ?_
    change db.runs.rows.map _ = _
    refine (List.map_congr_left fun a hmem => ?_).trans (List.map_id _)
    split_ifs with hp
    · -- the only row of that id is the one read
      have hid : a.id = record.id := by simpa [runIs] using hp
      obtain rfl : row = a := Table.eq_of_key_eq (Table.mem_of_find? h) hmem
        ((Table.find?_key h).trans hid.symm)
      rw [ha]
      rfl
    · rfl
  exact Database.ext rfl hrows rfl

theorem withRuns_anchored (record : RunRecord) (row : RunRow) (params : RunParams)
    (db : Database) :
    withRuns (anchored record row db) (runIs record.id none) (setRunParams params)
        (setRunParams_id params) =
      updated record row params db := by
  have hrows : (withRuns (anchored record row db) (runIs record.id none) (setRunParams params)
      (setRunParams_id params)).runs = (updated record row params db).runs := by
    refine Table.ext_rows ?_
    change (db.runs.rows.map _).map _ = db.runs.rows.map _
    rw [List.map_map]
    refine List.map_congr_left fun a _ => ?_
    by_cases hp : runIs record.id none a = true
    · have hp' : runIs record.id none
          (setLastStage (lastStageAnchor record.stage row.lastStage) a) = true := hp
      simp only [Function.comp_apply, hp, hp', if_true]
    · simp only [Function.comp_apply, hp, Bool.false_eq_true, if_false]
  exact Database.ext rfl hrows rfl

theorem updateRun_run (record : RunRecord) (allowReset : Bool) (c : Connection Database) :
    updateRun codec py record allowReset c =
      match c.working.runs.find? record.id with
      | none => (.error (notFoundError py "Run" record.id), c)
      | some row =>
        match checkUpdate py record allowReset row with
        | .error e => (.error e, c)
        | .ok () =>
          match runParams codec record record.stage with
          | .error e => (.error e, { c with working := anchored record row c.working })
          | .ok params => (.ok (), .settled (updated record row params c.working)) := by
  rw [updateRun, selectRun, Tx.fetch_bind]
  cases hrow : c.working.runs.find? record.id with
  | none => rfl
  | some row =>
      dsimp only
      rw [Tx.ofExcept_bind]
      cases checkUpdate py record allowReset row with
      | error e => rfl
      | ok u =>
          dsimp only
          -- the anchor statement leaves the new anchor, whether or not it runs
          have hanchor : ∀ g : Unit → Method Unit,
              ((if lastStageAnchor record.stage row.lastStage = row.lastStage then pure ()
                else do
                  let _ ← updateRuns (runIs record.id none)
                    (setLastStage (lastStageAnchor record.stage row.lastStage)) (setLastStage_id _)
                  pure () : Method Unit) >>= g) c =
                g () { c with working := anchored record row c.working } := by
            intro g
            split_ifs with ha
            · rw [anchored_eq_self hrow ha]
              rfl
            · rfl
          rw [hanchor, Tx.ofExcept_bind]
          cases runParams codec record record.stage with
          | error e => rfl
          | ok params =>
              have hcount : (anchored record row c.working).runs.rowcount
                  (runIs record.id none) ≠ 0 := by
                have hfind : (anchored record row c.working).runs.find? record.id =
                    some (if runIs record.id none row then
                      setLastStage (lastStageAnchor record.stage row.lastStage) row else row) := by
                  rw [anchored, withRuns_find?, hrow]
                  rfl
                exact rowcount_runIs_ne_zero hfind
              dsimp only
              rw [updateRuns_bind, if_neg hcount, withRuns_anchored]
              rfl

theorem addRun_run (record : RunRecord) (c : Connection Database) :
    addRun codec py record c =
      match runParams codec record record.stage with
      | .error e => (.error e, c)
      | .ok params =>
        match c.working.runs.insert (newRunRow codec record params) with
        | none => (.error (conflictError ("Run " ++ py.repr record.id ++ " already exists")), c)
        | some t => (.ok record, .settled { c.working with runs := t }) := by
  rw [addRun, Tx.ofExcept_bind]
  cases runParams codec record record.stage with
  | error e => rfl
  | ok params =>
      dsimp only
      cases h : c.working.runs.insert (newRunRow codec record params) with
      | none =>
          rw [Tx.executeOrRaise_none_bind (by rw [h]; rfl)]
      | some t =>
          rw [Tx.executeOrRaise_some_bind (s := { c.working with runs := t }) (by rw [h]; rfl)]
          rfl

/-! ### The calls -/

/-- A call of a mutator, with its arguments and the time it reads from the clock. -/
inductive Call where
  | addApplication (record : ApplicationRecord)
  | updateApplication (record : ApplicationRecord) (expectedVersion : Option ℤ)
  | updateApplicationFields (appId : String) (expectedVersion : Option ℤ)
      (fields : List ApplicationField)
  | addRun (record : RunRecord)
  | updateRun (record : RunRecord) (allowReset : Bool)
  | setRunApproval (now runId state approver : String) (reason : Option String)
      (expectedGeneration : Option ℤ)
  | setGeneratedSeal (runId digest : String) (expectedGeneration : Option ℤ)
  | setRunGenerated (runId : String) (path entrypoint : Option String)
      (expectedGeneration : Option ℤ)
  | setRunDiscovery (runId : String) (snapshot : Option JsonDict)
  | beginRevalidation (now runId : String) (contract : Option String)
  | markInterruptedRuns (now : String)

/-- The run of a call: whether it ends with an exception, and the connection it leaves. -/
def Call.run (codec : Codec) (py : Py.Rendering) : Call → Method Unit
  | .addApplication record => (Store.addApplication codec py record).discard
  | .updateApplication record v => (Store.updateApplication codec py record v).discard
  | .updateApplicationFields id v fields =>
      (Store.updateApplicationFields codec py id v fields).discard
  | .addRun record => (Store.addRun codec py record).discard
  | .updateRun record allowReset => Store.updateRun codec py record allowReset
  | .setRunApproval now id state approver reason g =>
      (Store.setRunApproval codec py now id state approver reason g).discard
  | .setGeneratedSeal id digest g => Store.setGeneratedSeal py id digest g
  | .setRunGenerated id path entrypoint g => Store.setRunGenerated py id path entrypoint g
  | .setRunDiscovery id snapshot => Store.setRunDiscovery codec py id snapshot
  | .beginRevalidation now id contract => (Store.beginRevalidation codec py now id contract).discard
  | .markInterruptedRuns now => (Store.markInterruptedRuns now).discard

end Store

end CobolJava
