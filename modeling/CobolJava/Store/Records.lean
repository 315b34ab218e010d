/-
**Records and rows of the store.**

The records of `api/store.py`, the rows of its three tables, and the mapping between them.  The
payload columns of a run hold bytes; how a payload becomes bytes and is read back is the matter of
`api/serialization.py` and enters here as a `Codec`, so that what is said of the store holds whatever
the codec refuses.

Main definitions:

* `ApplicationRecord`, `RunRecord` — the records;
* `Codec` — the encoders and decoders of the payload columns;
* `ApplicationRow`, `RunRow`, `ApprovalEvent`, `Database` — the tables;
* `Store.appParams`, `Store.appFromRow`, `Store.runParams`, `Store.runFromRow` — the row mapping.
-/

import CobolJava.Lib.Table
import CobolJava.Evidence.Models
import CobolJava.Verdict.Derivation
import CobolJava.Store.Stages

set_option autoImplicit false

namespace CobolJava

/-! ### Records -/

/-- An application. -/
structure ApplicationRecord where
  id : String
  name : String
  description : String
  workloadId : String
  javaEntrypoint : String
  targetRuntime : String
  cobolSourcePath : Option String
  javaCandidatePath : Option String
  discoveredProgramIds : List String
  generatedAppPath : Option String
  generatedEntrypoint : Option String
  generatedProgramIds : List String
  createdAt : String
  /-- Incremented on every successful write. -/
  version : ℤ

/-- A run. -/
structure RunRecord where
  id : String
  applicationId : String
  workloadId : String
  stage : RunStage
  createdAt : String
  completedAt : Option String
  error : Option String
  evidenceManifest : Option EvidenceManifest
  verdict : Option Verdict
  modernizationReport : Option JsonDict
  /-- The validation attempt the record belongs to. -/
  validationGeneration : ℤ
  certificationContract : Option String
  approvalState : String
  approvalApprover : Option String
  approvalReason : Option String
  approvalDecidedAt : Option String
  /-- The seal of the generated bundle; `none` is unsealed. -/
  generatedSeal : Option String
  /-- The last stage that was not terminal. -/
  lastStage : Option String
  sourcePath : Option String
  generatedAppPath : Option String
  generatedEntrypoint : Option String
  discoverySnapshot : Option JsonDict

/-- The encoders and decoders of the payload columns. -/
structure Codec where
  encodeEvidenceManifest : EvidenceManifest → Except Py.Exc Py.Bytes
  decodeEvidenceManifest : Option Py.Bytes → Except Py.Exc (Option EvidenceManifest)
  encodeVerdict : Verdict → Except Py.Exc Py.Bytes
  decodeVerdict : Option Py.Bytes → Except Py.Exc (Option Verdict)
  encodeReport : Option JsonDict → Except Py.Exc (Option Py.Bytes)
  decodeReport : Option Py.Bytes → Except Py.Exc (Option JsonDict)
  encodeStrList : List String → Except Py.Exc String
  decodeStrList : String → Except Py.Exc (List String)
  encodeSnapshot : Option JsonDict → Option String
  decodeSnapshot : Option String → Option JsonDict

/-! ### Tables -/

/-- A row of `applications`. -/
structure ApplicationRow where
  id : String
  name : String
  description : String
  workloadId : String
  javaEntrypoint : String
  targetRuntime : String
  cobolSourcePath : Option String
  javaCandidatePath : Option String
  discoveredProgramIds : String
  generatedAppPath : Option String
  generatedEntrypoint : Option String
  generatedProgramIds : String
  createdAt : String
  version : ℤ

/-- A row of `runs`. -/
structure RunRow where
  id : String
  applicationId : String
  workloadId : String
  stage : String
  createdAt : String
  completedAt : Option String
  error : Option String
  evidenceBlob : Option Py.Bytes
  verdictBlob : Option Py.Bytes
  reportBlob : Option Py.Bytes
  validationGeneration : ℤ
  certificationContract : Option String
  approvalState : String
  approvalApprover : Option String
  approvalReason : Option String
  approvalDecidedAt : Option String
  generatedSeal : Option String
  lastStage : Option String
  sourcePath : Option String
  generatedAppPath : Option String
  generatedEntrypoint : Option String
  discoveryJson : Option String

/-- A row of `approval_events`, which are inserted and never updated. -/
structure ApprovalEvent where
  runId : String
  state : String
  approver : Option String
  reason : Option String
  recordedAt : String

/-- The tables. -/
@[ext]
structure Database where
  applications : Table ApplicationRow.id
  runs : Table RunRow.id
  approvalEvents : List ApprovalEvent

def Database.empty : Database := ⟨.empty, .empty, []⟩

/-! ### The row mapping -/

namespace Store

variable (codec : Codec)

def appParams (record : ApplicationRecord) : Except Py.Exc ApplicationRow := do
  let discovered ← codec.encodeStrList record.discoveredProgramIds
  let generated ← codec.encodeStrList record.generatedProgramIds
  return {
    id := record.id
    name := record.name
    description := record.description
    workloadId := record.workloadId
    javaEntrypoint := record.javaEntrypoint
    targetRuntime := record.targetRuntime
    cobolSourcePath := record.cobolSourcePath
    javaCandidatePath := record.javaCandidatePath
    discoveredProgramIds := discovered
    generatedAppPath := record.generatedAppPath
    generatedEntrypoint := record.generatedEntrypoint
    generatedProgramIds := generated
    createdAt := record.createdAt
    version := record.version }

def appFromRow (row : ApplicationRow) : Except Py.Exc ApplicationRecord := do
  let discovered ← codec.decodeStrList row.discoveredProgramIds
  let generated ← codec.decodeStrList row.generatedProgramIds
  return {
    id := row.id
    name := row.name
    description := row.description
    workloadId := row.workloadId
    javaEntrypoint := if row.javaEntrypoint = "" then "Main" else row.javaEntrypoint
    targetRuntime := if row.targetRuntime = "" then "spring_boot" else row.targetRuntime
    cobolSourcePath := row.cobolSourcePath
    javaCandidatePath := row.javaCandidatePath
    discoveredProgramIds := discovered
    generatedAppPath := row.generatedAppPath
    generatedEntrypoint := row.generatedEntrypoint
    generatedProgramIds := generated
    createdAt := row.createdAt
    version := row.version }

/-- The columns of a run that `add_run` and `update_run` both write, beside its id. -/
structure RunParams where
  applicationId : String
  workloadId : String
  stage : String
  createdAt : String
  completedAt : Option String
  error : Option String
  evidenceBlob : Option Py.Bytes
  verdictBlob : Option Py.Bytes
  reportBlob : Option Py.Bytes
  validationGeneration : ℤ
  certificationContract : Option String

/-- The encoding of a payload that may be absent. -/
def encodeOptional {α : Type} (encode : α → Except Py.Exc Py.Bytes) :
    Option α → Except Py.Exc (Option Py.Bytes)
  | none => .ok none
  | some a => (encode a).map some

def runParams (record : RunRecord) (stage : RunStage) : Except Py.Exc RunParams := do
  let evidence ← encodeOptional codec.encodeEvidenceManifest record.evidenceManifest
  let verdict ← encodeOptional codec.encodeVerdict record.verdict
  let report ← codec.encodeReport record.modernizationReport
  return {
    applicationId := record.applicationId
    workloadId := record.workloadId
    stage := stage.value
    createdAt := record.createdAt
    completedAt := record.completedAt
    error := record.error
    evidenceBlob := evidence
    verdictBlob := verdict
    reportBlob := report
    validationGeneration := record.validationGeneration
    certificationContract := record.certificationContract }

def runFromRow (py : Py.Rendering) (row : RunRow) : Except Py.Exc RunRecord := do
  let stage ← parseStage py row.stage "persisted run stage"
  let evidence ← codec.decodeEvidenceManifest row.evidenceBlob
  let verdict ← codec.decodeVerdict row.verdictBlob
  let report ← codec.decodeReport row.reportBlob
  return {
    id := row.id
    applicationId := row.applicationId
    workloadId := row.workloadId
    stage := stage
    createdAt := row.createdAt
    completedAt := row.completedAt
    error := row.error
    evidenceManifest := evidence
    verdict := verdict
    modernizationReport := report
    validationGeneration := row.validationGeneration
    certificationContract := row.certificationContract
    approvalState := if row.approvalState = "" then "PENDING" else row.approvalState
    approvalApprover := row.approvalApprover
    approvalReason := row.approvalReason
    approvalDecidedAt := row.approvalDecidedAt
    generatedSeal := row.generatedSeal
    lastStage := row.lastStage
    sourcePath := row.sourcePath
    generatedAppPath := row.generatedAppPath
    generatedEntrypoint := row.generatedEntrypoint
    discoverySnapshot := codec.decodeSnapshot row.discoveryJson }

end Store

end CobolJava
