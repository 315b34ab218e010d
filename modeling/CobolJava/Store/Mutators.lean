/-
**The mutators of the store.**

The methods of `Store` in `api/store.py` that write, statement by statement, over the one connection
the store owns.  Each runs under the lock of the store, so that a run of the store is a sequence of
whole calls.  The clock is an argument of the calls that read it, and the text of an exception is the
one its constructor is given.

Main definitions:

* `Store.addApplication`, `Store.getApplication`, `Store.updateApplication`,
  `Store.updateApplicationFields`;
* `Store.addRun`, `Store.getRun`, `Store.listRunsForApplication`, `Store.updateRun`;
* `Store.setRunApproval`, `Store.setGeneratedSeal`, `Store.setRunGenerated`,
  `Store.setRunDiscovery`, `Store.beginRevalidation`, `Store.markInterruptedRuns`.
-/

import CobolJava.Lib.Transaction
import CobolJava.Store.Records

set_option autoImplicit false

namespace CobolJava

namespace Store

abbrev Method (α : Type) : Type := Tx Database Py.Exc α

variable (codec : Codec) (py : Py.Rendering)

/-! ### Exceptions -/

def notFoundError (kind id : String) : Py.Exc :=
  .declared "NotFoundError" (kind ++ " " ++ py.repr id ++ " not found")

def conflictError (text : String) : Py.Exc := .declared "ConflictError" text

/-- What a method raises whose update matched no row. -/
def unmatched (kind id text : String) (exists? : Bool) : Py.Exc :=
  if exists? then conflictError text else notFoundError py kind id

/-! ### Statements -/

/-- `UPDATE applications SET … WHERE …`. -/
def updateApplications (p : ApplicationRow → Bool) (f : ApplicationRow → ApplicationRow)
    (hf : ∀ row, (f row).id = row.id) : Method ℕ :=
  Tx.executeCount (fun db => db.applications.rowcount p)
    fun db => { db with applications := db.applications.update p f hf }

/-- `UPDATE runs SET … WHERE …`. -/
def updateRuns (p : RunRow → Bool) (f : RunRow → RunRow)
    (hf : ∀ row, (f row).id = row.id) : Method ℕ :=
  Tx.executeCount (fun db => db.runs.rowcount p)
    fun db => { db with runs := db.runs.update p f hf }

/-- `INSERT INTO approval_events …`. -/
def insertEvent (event : ApprovalEvent) : Method Unit :=
  Tx.execute fun db => { db with approvalEvents := db.approvalEvents ++ [event] }

/-- The condition `WHERE id = ?`, with ` AND version = ?` when a version is expected. -/
def applicationIs (id : String) (version : Option ℤ) (row : ApplicationRow) : Bool :=
  decide (row.id = id) && version.all fun v => decide (row.version = v)

/-- The condition `WHERE id = ?`, with ` AND validation_generation = ?` when a generation is
expected. -/
def runIs (id : String) (generation : Option ℤ) (row : RunRow) : Bool :=
  decide (row.id = id) && generation.all fun g => decide (row.validationGeneration = g)

/-- `SELECT * FROM applications WHERE id = ?`. -/
def selectApplication (id : String) : Method (Option ApplicationRow) :=
  Tx.fetch fun db => db.applications.find? id

/-- `SELECT * FROM runs WHERE id = ?`. -/
def selectRun (id : String) : Method (Option RunRow) := Tx.fetch fun db => db.runs.find? id

/-! ### Applications -/

def addApplication (record : ApplicationRecord) : Method ApplicationRecord := do
  let params ← Tx.ofExcept (appParams codec record)
  Tx.executeOrRaise
    (fun db => (db.applications.insert params).map fun t => { db with applications := t })
    (conflictError ("Application " ++ py.repr record.id ++ " already exists"))
  Tx.commit
  return record

def getApplication (appId : String) : Method (Option ApplicationRecord) := do
  match ← selectApplication appId with
  | none => return none
  | some row => Tx.ofExcept ((appFromRow codec row).map some)

/-- The reading of an application that was just written. -/
def refreshApplication (id : String) : Method ApplicationRecord := do
  match ← selectApplication id with
  | none => Tx.raise (.declared "TypeError" "'NoneType' object is not subscriptable")
  | some row => Tx.ofExcept (appFromRow codec row)

/-- The update of one application, conditional on its version when one is expected, and what both
methods that update applications do after the statement. -/
def writeApplication (id : String) (expected : Option ℤ) (f : ApplicationRow → ApplicationRow)
    (hf : ∀ row, (f row).id = row.id) : Method ApplicationRecord := do
  let rowcount ← updateApplications (applicationIs id expected) f hf
  if rowcount = 0 then
    let found ← selectApplication id
    Tx.raise (unmatched py "Application" id ("Application " ++ py.repr id ++
      " version conflict (expected " ++ (expected.map toString).getD "None" ++ ")") found.isSome)
  else
    Tx.commit
    refreshApplication codec id

/-- The columns a full-row update writes. -/
def setApplication (params : ApplicationRow) (row : ApplicationRow) : ApplicationRow :=
  { params with id := row.id, version := row.version + 1 }

@[simp] theorem setApplication_id (params row : ApplicationRow) :
    (setApplication params row).id = row.id := rfl

def updateApplication (record : ApplicationRecord) (expectedVersion : Option ℤ) :
    Method ApplicationRecord := do
  let params ← Tx.ofExcept (appParams codec record)
  writeApplication codec py record.id expectedVersion (setApplication params)
    (setApplication_id params)

/-- A keyword argument of `update_application_fields`: a column with its value, or a name that is no
column. -/
inductive ApplicationField where
  | name (v : String)
  | description (v : String)
  | workloadId (v : String)
  | javaEntrypoint (v : String)
  | targetRuntime (v : String)
  | cobolSourcePath (v : Option String)
  | javaCandidatePath (v : Option String)
  | discoveredProgramIds (v : List String)
  | generatedAppPath (v : Option String)
  | generatedEntrypoint (v : Option String)
  | generatedProgramIds (v : List String)
  | createdAt (v : String)
  | other (key : String)

def assignField : ApplicationField → Except Py.Exc (ApplicationRow → ApplicationRow)
  | .name v => .ok fun row => { row with name := v }
  | .description v => .ok fun row => { row with description := v }
  | .workloadId v => .ok fun row => { row with workloadId := v }
  | .javaEntrypoint v => .ok fun row => { row with javaEntrypoint := v }
  | .targetRuntime v => .ok fun row => { row with targetRuntime := v }
  | .cobolSourcePath v => .ok fun row => { row with cobolSourcePath := v }
  | .javaCandidatePath v => .ok fun row => { row with javaCandidatePath := v }
  | .discoveredProgramIds v =>
      (codec.encodeStrList v).map fun text row => { row with discoveredProgramIds := text }
  | .generatedAppPath v => .ok fun row => { row with generatedAppPath := v }
  | .generatedEntrypoint v => .ok fun row => { row with generatedEntrypoint := v }
  | .generatedProgramIds v =>
      (codec.encodeStrList v).map fun text row => { row with generatedProgramIds := text }
  | .createdAt v => .ok fun row => { row with createdAt := v }
  | .other _ => .ok id

/-- The name of a keyword argument that is no column. -/
def ApplicationField.unknown? : ApplicationField → Option String
  | .other key => some key
  | _ => none

/-- The row after the assignments of one statement; the id is no column of it. -/
def setFields (assignments : List (ApplicationRow → ApplicationRow)) (row : ApplicationRow) :
    ApplicationRow :=
  { assignments.foldl (fun r f => f r) row with id := row.id, version := row.version + 1 }

@[simp] theorem setFields_id (assignments : List (ApplicationRow → ApplicationRow))
    (row : ApplicationRow) : (setFields assignments row).id = row.id := rfl

/-- The assignments of an update, unless it is empty or names an unknown column. -/
def fieldAssignments (fields : List ApplicationField) :
    Except Py.Exc (List (ApplicationRow → ApplicationRow)) :=
  if fields.isEmpty then
    .error (.valueError "update_application_fields requires at least one field")
  else if fields.filterMap ApplicationField.unknown? ≠ [] then
    .error (.valueError ("unknown application column(s): " ++
      py.listStr (Py.sortedSet (fields.filterMap ApplicationField.unknown?))))
  else fields.mapM (assignField codec)

def updateApplicationFields (appId : String) (expectedVersion : Option ℤ)
    (fields : List ApplicationField) : Method ApplicationRecord := do
  let assignments ← Tx.ofExcept (fieldAssignments codec py fields)
  writeApplication codec py appId expectedVersion (setFields assignments) (setFields_id assignments)

/-! ### Runs -/

/-- The row `add_run` inserts. -/
def newRunRow (record : RunRecord) (params : RunParams) : RunRow where
  id := record.id
  applicationId := params.applicationId
  workloadId := params.workloadId
  stage := params.stage
  createdAt := params.createdAt
  completedAt := params.completedAt
  error := params.error
  evidenceBlob := params.evidenceBlob
  verdictBlob := params.verdictBlob
  reportBlob := params.reportBlob
  validationGeneration := params.validationGeneration
  certificationContract := params.certificationContract
  approvalState := record.approvalState
  approvalApprover := record.approvalApprover
  approvalReason := record.approvalReason
  approvalDecidedAt := record.approvalDecidedAt
  generatedSeal := record.generatedSeal
  lastStage := lastStageAnchor record.stage record.lastStage
  sourcePath := record.sourcePath
  generatedAppPath := record.generatedAppPath
  generatedEntrypoint := record.generatedEntrypoint
  discoveryJson := codec.encodeSnapshot record.discoverySnapshot

def addRun (record : RunRecord) : Method RunRecord := do
  let params ← Tx.ofExcept (runParams codec record record.stage)
  Tx.executeOrRaise
    (fun db => (db.runs.insert (newRunRow codec record params)).map fun t => { db with runs := t })
    (conflictError ("Run " ++ py.repr record.id ++ " already exists"))
  Tx.commit
  return record

def getRun (runId : String) : Method (Option RunRecord) := do
  match ← selectRun runId with
  | none => return none
  | some row => Tx.ofExcept ((runFromRow codec py row).map some)

/-- All runs of an application, in the order of their creation. -/
def listRunsForApplication (appId : String) : Method (List RunRecord) := do
  let rows ← Tx.fetch fun db =>
    (db.runs.rows.filter fun row => decide (row.applicationId = appId)).insertionSort fun a b =>
      a.createdAt < b.createdAt ∨ (a.createdAt = b.createdAt ∧ a.id ≤ b.id)
  Tx.ofExcept (rows.mapM (runFromRow codec py))

/-- The columns `update_run` writes. -/
def setRunParams (params : RunParams) (row : RunRow) : RunRow :=
  { row with
    applicationId := params.applicationId
    workloadId := params.workloadId
    stage := params.stage
    createdAt := params.createdAt
    completedAt := params.completedAt
    error := params.error
    evidenceBlob := params.evidenceBlob
    verdictBlob := params.verdictBlob
    reportBlob := params.reportBlob
    validationGeneration := params.validationGeneration
    certificationContract := params.certificationContract }

@[simp] theorem setRunParams_id (params : RunParams) (row : RunRow) :
    (setRunParams params row).id = row.id := rfl

/-- The column of the stage anchor. -/
def setLastStage (anchor : Option String) (row : RunRow) : RunRow := { row with lastStage := anchor }

@[simp] theorem setLastStage_id (anchor : Option String) (row : RunRow) :
    (setLastStage anchor row).id = row.id := rfl

/-- The checks of `update_run` on the persisted row. -/
def checkUpdate (record : RunRecord) (allowReset : Bool) (row : RunRow) : Except Py.Exc Unit := do
  let current ← parseStage py row.stage "persisted run stage"
  if record.validationGeneration ≠ row.validationGeneration then
    .error (conflictError ("Run " ++ py.repr record.id ++
      " was reset by a newer validation attempt; discarding stale update"))
  else if !allowReset && !isValidTransition current record.stage then
    .error (.declared "InvalidStateTransitionError" ("invalid run state transition " ++
      current.value ++ " -> " ++ record.stage.value))
  else .ok ()

def updateRun (record : RunRecord) (allowReset : Bool) : Method Unit := do
  match ← selectRun record.id with
  | none => Tx.raise (notFoundError py "Run" record.id)
  | some row =>
    Tx.ofExcept (checkUpdate py record allowReset row)
    let newLastStage := lastStageAnchor record.stage row.lastStage
    -- a statement of its own, before the payloads are encoded
    (if newLastStage = row.lastStage then pure ()
      else do
        let _ ← updateRuns (runIs record.id none) (setLastStage newLastStage)
          (setLastStage_id newLastStage)
        pure ())
    let params ← Tx.ofExcept (runParams codec record record.stage)
    let rowcount ← updateRuns (runIs record.id none) (setRunParams params)
      (setRunParams_id params)
    if rowcount = 0 then Tx.raise (notFoundError py "Run" record.id)
    else Tx.commit

/-! ### Approval, seal and attempts -/

def setApproval (state : String) (approver reason decidedAt : Option String) (row : RunRow) :
    RunRow :=
  { row with
    approvalState := state
    approvalApprover := approver
    approvalReason := reason
    approvalDecidedAt := decidedAt }

@[simp] theorem setApproval_id (state : String) (approver reason decidedAt : Option String)
    (row : RunRow) : (setApproval state approver reason decidedAt row).id = row.id := rfl

/-- The reading of a run that was just written. -/
def refreshRun (runId : String) : Method RunRecord := do
  match ← selectRun runId with
  | none => Tx.raise (.declared "AssertionError" "")
  | some row => Tx.ofExcept (runFromRow codec py row)

def setRunApproval (now runId state approver : String) (reason : Option String)
    (expectedGeneration : Option ℤ) : Method RunRecord := do
  if state ≠ "APPROVED" ∧ state ≠ "REJECTED" then
    Tx.raise (.valueError ("invalid approval decision " ++ py.repr state))
  else
    let rowcount ← updateRuns (runIs runId expectedGeneration)
      (setApproval state (some approver) reason (some now)) (setApproval_id _ _ _ _)
    if rowcount = 0 then
      Tx.rollback
      let found ← selectRun runId
      Tx.raise (unmatched py "Run" runId ("Run " ++ py.repr runId ++
        " was reset by a newer validation attempt after it was checked; the decision was not" ++
        " recorded") found.isSome)
    else
      insertEvent ⟨runId, state, some approver, reason, now⟩
      Tx.commit
      refreshRun codec py runId

/-- An update of some columns of one run, bound to an attempt when a generation is expected. -/
def setRunColumns (runId text : String) (f : RunRow → RunRow)
    (hf : ∀ row, (f row).id = row.id) (expectedGeneration : Option ℤ) : Method Unit := do
  let rowcount ← updateRuns (runIs runId expectedGeneration) f hf
  if rowcount = 0 then
    let found ← selectRun runId
    Tx.raise (unmatched py "Run" runId ("Run " ++ py.repr runId ++
      " was reset by a newer validation attempt; discarding stale " ++ text) found.isSome)
  else Tx.commit

def setSeal (digest : String) (row : RunRow) : RunRow := { row with generatedSeal := some digest }

@[simp] theorem setSeal_id (digest : String) (row : RunRow) : (setSeal digest row).id = row.id := rfl

def setGeneratedSeal (runId digest : String) (expectedGeneration : Option ℤ) : Method Unit :=
  setRunColumns py runId "seal" (setSeal digest) (setSeal_id digest) expectedGeneration

def setGenerated (path entrypoint : Option String) (row : RunRow) : RunRow :=
  { row with generatedAppPath := path, generatedEntrypoint := entrypoint }

@[simp] theorem setGenerated_id (path entrypoint : Option String) (row : RunRow) :
    (setGenerated path entrypoint row).id = row.id := rfl

def setRunGenerated (runId : String) (generatedAppPath generatedEntrypoint : Option String)
    (expectedGeneration : Option ℤ) : Method Unit :=
  setRunColumns py runId "write" (setGenerated generatedAppPath generatedEntrypoint)
    (setGenerated_id _ _) expectedGeneration

def setDiscovery (text : Option String) (row : RunRow) : RunRow := { row with discoveryJson := text }

@[simp] theorem setDiscovery_id (text : Option String) (row : RunRow) :
    (setDiscovery text row).id = row.id := rfl

def setRunDiscovery (runId : String) (snapshot : Option JsonDict) : Method Unit :=
  setRunColumns py runId "write" (setDiscovery (codec.encodeSnapshot snapshot)) (setDiscovery_id _)
    none

/-- The reset of a run for another attempt. -/
def resetRun (generation : ℤ) (certificationContract : Option String) (row : RunRow) : RunRow :=
  { row with
    stage := RunStage.CREATED.value
    completedAt := none
    error := none
    evidenceBlob := none
    verdictBlob := none
    validationGeneration := generation
    certificationContract := certificationContract
    approvalState := "PENDING"
    approvalApprover := none
    approvalReason := none
    approvalDecidedAt := none
    generatedSeal := none
    lastStage := none }

@[simp] theorem resetRun_id (generation : ℤ) (contract : Option String) (row : RunRow) :
    (resetRun generation contract row).id = row.id := rfl

/-- What the reset leaves in the audit trail: a discarded decision. -/
def resetEvents (now : String) (generation : ℤ) (row : RunRow) : List ApprovalEvent :=
  if row.approvalState = "PENDING" then []
  else [⟨row.id, "RESET", none, some ("revalidation generation " ++ toString generation), now⟩]

def beginRevalidation (now runId : String) (certificationContract : Option String) :
    Method RunRecord := do
  match ← selectRun runId with
  | none => Tx.raise (notFoundError py "Run" runId)
  | some row =>
    let current ← Tx.ofExcept (parseStage py row.stage "persisted run stage")
    if current ∉ terminalStages then
      Tx.raise (conflictError ("Run " ++ py.repr runId ++ " is not revalidatable: stage " ++
        current.value ++ " (only terminal runs are)"))
    else
      let generation := row.validationGeneration + 1
      let _ ← updateRuns (runIs runId none) (resetRun generation certificationContract)
        (resetRun_id _ _)
      Tx.execute fun db =>
        { db with approvalEvents := db.approvalEvents ++ resetEvents now generation row }
      Tx.commit
      refreshRun codec py runId

/-- A run left in a stage that is not terminal. -/
def isInterrupted (row : RunRow) : Bool := !(terminalStages.map RunStage.value).contains row.stage

/-- The columns of a run that a restart ends. -/
def interruptRun (now : String) (row : RunRow) : RunRow :=
  { row with
    stage := RunStage.FAILED.value
    completedAt := some now
    error := some "Interrupted by process restart before completion" }

@[simp] theorem interruptRun_id (now : String) (row : RunRow) : (interruptRun now row).id = row.id :=
  rfl

def markInterruptedRuns (now : String) : Method ℕ := do
  let count ← Tx.fetch fun db => db.runs.rowcount isInterrupted
  if count = 0 then return 0
  else
    let _ ← updateRuns isInterrupted (interruptRun now) (interruptRun_id now)
    Tx.commit
    return count

end Store

end CobolJava
