/-
**Verdict derivation.**

`engine/verdict/derivation.py`: the seven-state verdict derived from an evidence manifest by an
ordered chain of checks, and the two entry points of the trust boundary, for a validated manifest
and for one that failed validation.  A manifest without oracle identity makes every entry point
raise, since each verdict names the oracle.

Main definitions:

* `Verdict` — a derived verdict with its scope;
* `checkForErrors`, `checkForUnavailable`, `checkForUnsupported`, `analyze` — the steps;
* `derive`, `deriveFromValidated`, `deriveUntrusted` — the entry points.
-/

import CobolJava.Evidence.Integrity
import CobolJava.Lib.PyExc

set_option autoImplicit false

namespace CobolJava

/-- A derived verdict with its complete scope. -/
structure Verdict where
  state : VerdictState
  workloadId : WorkloadId
  runId : String
  sourceHash : String
  candidateHash : Option String
  oracleId : String
  oracleDigest : String
  executedCheckCount : ℤ
  skippedCount : ℤ
  unavailableCount : ℤ
  supportedScopeStatement : String
  evidenceManifestHash : String
  derivationTimestamp : String
  differences : List String
deriving DecidableEq

namespace VerdictDeriver

/-! ### The scope statement -/

/-- The lane of the candidate: the first base system an environment of the candidate records. -/
def candidateLane (envs : List EnvironmentIdentity) : Option String :=
  envs.findSome? fun env =>
    if Py.startswith env.runtimeId "candidate" then
      env.osBase.filter fun osBase => osBase ≠ ""
    else none

def scopeFor (m : EvidenceManifest) (oracle : OracleIdentity) : String :=
  let candidate := match candidateLane m.environmentIdentities with
    | some lane => s!"Java candidate ({lane})"
    | none => "Java candidate (lane not recorded)"
  let compiler := if oracle.compilerVersion = "" then "(unrecorded)" else oracle.compilerVersion
  s!"V1 validation scope: GnuCOBOL {compiler} oracle (Docker), {candidate}, " ++
    "artifact types STDOUT, STDERR, EXIT_STATUS, TEXT_FILE, " ++
    "FIXED_RECORD as the run's contract declares them; " ++
    "derived BUSINESS_INVARIANT reports gate business rules; " ++
    "INDEXED/RELATIVE/SQL/DATABASE excluded (UNSUPPORTED); " ++
    "substring containment permanently forbidden."

/-! ### The checks -/

/-- An execution that could not serve as evidence. -/
def unusable (e : ExecutionEvidence) : Bool :=
  incompleteStatuses.contains e.terminationStatus ||
    (e.isOracle && e.terminationStatus == "nonzero_exit")

def createVerdict (state : VerdictState) (m : EvidenceManifest) (differences : List String)
    (now : String) : Except Py.Exc Verdict :=
  match m.oracleIdentity with
  | none => .error (.noneAttribute "oracle_id")
  | some oracle => .ok
      { state := state
        workloadId := m.workloadId
        runId := m.runId.value
        sourceHash := m.sourceIdentity.sourceHash.toStr
        candidateHash := m.candidateIdentity.map fun c => c.candidateHash.toStr
        oracleId := oracle.oracleId
        oracleDigest := oracle.imageDigest
        executedCheckCount := m.comparisonEvidence.length
        skippedCount := 0
        unavailableCount := m.executionEvidence.countP unusable
        supportedScopeStatement := scopeFor m oracle
        evidenceManifestHash := m.manifestHash.toStr
        derivationTimestamp := now
        differences := differences }

/-- Platform or validator errors: an execution that ended in error or timed out. -/
def checkForErrors (m : EvidenceManifest) : Option VerdictState :=
  if m.executionEvidence.any fun e => e.terminationStatus == "error" || e.timeoutApplied then
    some .ERROR
  else none

/-- The statuses under which the oracle is no reference. -/
def oracleUnavailableStatuses : List String := ["error", "timeout", "nonzero_exit"]

/-- The statuses under which the candidate produced nothing to compare. -/
def candidateUnavailableStatuses : List String := ["error", "timeout"]

/-- Unavailable infrastructure: a side without execution, or with an unusable one. -/
def checkForUnavailable (m : EvidenceManifest) : Option VerdictState :=
  if m.oracleExecs.isEmpty then some .UNAVAILABLE
  else if m.oracleExecs.any fun e => oracleUnavailableStatuses.contains e.terminationStatus then
    some .UNAVAILABLE
  else if m.candidateExecs.isEmpty then some .UNAVAILABLE
  else if m.candidateExecs.any fun e =>
      candidateUnavailableStatuses.contains e.terminationStatus then
    some .UNAVAILABLE
  else none

/-- Why the reference is unusable: the exit status of the compiler, when one is recorded. -/
def unavailableReason (m : EvidenceManifest) : String :=
  let compilerStatus (e : ExecutionEvidence) : Option String :=
    if e.isOracle then
      let status := Py.strip ((e.compilationDiagnostics.bind fun d => d.get? "exit_code").getD "")
      if status ≠ "" ∧ status ≠ "0" then some status else none
    else none
  match m.executionEvidence.findSome? compilerStatus with
  | some status =>
      "COBOL source does not compile on the oracle " ++
        s!"(cobc exit {status}); no reference behaviour exists"
  | none => "Required infrastructure unavailable"

/-- The artifact types a verdict covers. -/
def supportedTypes : List String :=
  ["STDOUT", "STDERR", "EXIT_STATUS", "TEXT_FILE", "FIXED_RECORD", "BUSINESS_INVARIANT"]

def checkForUnsupported (m : EvidenceManifest) : Option VerdictState :=
  if m.artifactEvidence.any fun a => !supportedTypes.contains a.artifact.artifactType then
    some .UNSUPPORTED
  else none

/-- What the loop over the comparisons has seen. -/
structure Analysis where
  hasMismatch : Bool
  hasInconclusive : Bool
  hasUnknown : Bool
  differences : List String

/-- The loop before its first iteration. -/
def Analysis.init : Analysis := ⟨false, false, false, []⟩

def Analysis.step (py : Py.Rendering) (s : Analysis) (c : ComparisonEvidence) : Analysis :=
  if c.result = "MISMATCH" then
    { s with hasMismatch := true, differences := s.differences ++ c.differences }
  else if c.result = "INCONCLUSIVE" then { s with hasInconclusive := true }
  else if c.result ≠ "MATCH" then
    { s with
      hasUnknown := true
      differences := s.differences ++
        [s!"Unknown comparison result {py.repr c.result} for " ++
          s!"comparison {py.repr c.comparisonId}"] }
  else s

/-- The state the comparisons lead to. -/
def Analysis.state (s : Analysis) : VerdictState :=
  if s.hasUnknown then .ERROR
  else if s.hasMismatch then .FAILED
  else if s.hasInconclusive then .PARTIAL
  else .VERIFIED

def analyze (py : Py.Rendering) (comparisons : List ComparisonEvidence) : Analysis :=
  comparisons.foldl (Analysis.step py) Analysis.init

/-! ### The entry points -/

/-- **The derivation** of a verdict from a manifest. -/
def derive (py : Py.Rendering) (m : EvidenceManifest) (now : String) : Except Py.Exc Verdict :=
  match checkForErrors m with
  | some state => createVerdict state m ["Platform/validator error detected"] now
  | none =>
      match checkForUnavailable m with
      | some state => createVerdict state m [unavailableReason m] now
      | none =>
          match checkForUnsupported m with
          | some state => createVerdict state m ["Unsupported artifact type encountered"] now
          | none =>
              if !m.isComplete then
                createVerdict .UNPROVEN m ["Incomplete evidence manifest"] now
              else if m.comparisonEvidence.length = 0 then
                createVerdict .UNPROVEN m ["Zero executed checks"] now
              else
                let analysis := analyze py m.comparisonEvidence
                createVerdict analysis.state m analysis.differences now

/-- The verdict that takes the place of one that may not stand. -/
def failClosed (m : EvidenceManifest) (scope : String) (hash : ContentHash)
    (differences : List String) (now : String) : Except Py.Exc Verdict :=
  match m.oracleIdentity with
  | none => .error (.noneAttribute "oracle_id")
  | some oracle => .ok
      { state := .ERROR
        workloadId := m.workloadId
        runId := m.runId.value
        sourceHash := m.sourceIdentity.sourceHash.toStr
        candidateHash := m.candidateIdentity.map fun c => c.candidateHash.toStr
        oracleId := oracle.oracleId
        oracleDigest := oracle.imageDigest
        executedCheckCount := 0
        skippedCount := 0
        unavailableCount := 0
        supportedScopeStatement := scope
        evidenceManifestHash := hash.toStr
        derivationTimestamp := now
        differences := differences }

/-- The verdict of a validated manifest: one whose graph has changed since fails closed. -/
def deriveFromValidated (py : Py.Rendering) (validated : ValidatedEvidenceManifest)
    (now : String) : Except Py.Exc Verdict :=
  let manifest := validated.manifest
  let liveHash := manifest.manifestHash
  if liveHash ≠ validated.integrityHash then
    failClosed manifest "Evidence mutated after validation; derivation fails closed" liveHash
      ["Post-validation mutation detected: manifest hash" ++
        s!" {liveHash.toStr} no longer matches the validation-time" ++
        s!" integrity hash {validated.integrityHash.toStr}"] now
  else derive py manifest now

/-- The verdict of a manifest that failed validation: the natural one, but never a certification. -/
def deriveUntrusted (py : Py.Rendering) (m : EvidenceManifest) (vs : List IntegrityViolation)
    (now : String) : Except Py.Exc Verdict := do
  let verdict ← derive py m now
  if verdict.state ≠ .VERIFIED then return verdict
  else
    failClosed m "Evidence trust boundary violation" m.manifestHash
      (vs.map IntegrityViolation.description) now

end VerdictDeriver

end CobolJava
