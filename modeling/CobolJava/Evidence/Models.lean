/-
**The evidence model.**

The records of `engine/evidence/models.py` and the canonical evidence graph whose JSON text is
hashed to seal a manifest.  The oracle identity of a manifest is optional here: the type of the
source does not allow `None`, but the graph and the validator both provide for it.  The dicts of
`field_level_results` hold JSON values.

Main definitions:

* `ExecutionEvidence`, `ArtifactEvidence`, `ComparisonEvidence`, `EvidenceManifest` — the records;
* `canonicalEvidenceGraph`, `graphHash` — the graph, and the hash of its text;
* `EvidenceManifest.postInit` — the seal a manifest is constructed with;
* `EvidenceManifest.isComplete` — completeness for a verdict.
-/

import CobolJava.Domain.Identities
import CobolJava.Lib.Json

set_option autoImplicit false

namespace CobolJava

/-! ### Records -/

/-- Evidence from a single execution, of the oracle or of the candidate. -/
structure ExecutionEvidence where
  executionId : ExecutionId
  runId : RunId
  runtimeId : String
  command : String
  workingDirectory : String
  environmentVariables : PyDict String
  startTime : String
  endTime : String
  exitCode : Option ℤ
  stdoutHash : ContentHash
  stderrHash : ContentHash
  generatedFiles : PyDict ContentHash
  sourceTreeHashBefore : ContentHash
  sourceTreeHashAfter : ContentHash
  /-- One of `normal`, `timeout`, `nonzero_exit`, `return_code` and `error`. -/
  terminationStatus : String
  timeoutApplied : Bool
  timeoutDuration : Option ℤ
  compilationDiagnostics : Option (PyDict String)
  /-- The workload this execution belongs to, when the adapter knew it. -/
  workloadId : Option WorkloadId
  /-- The immutable identity of the image that ran. -/
  imageDigest : Option String
  /-- The phase: `EXECUTE` when the program really ran, `BUILD` for a compilation. -/
  executionPhase : String

/-- Evidence of an artifact capture. -/
structure ArtifactEvidence where
  artifact : ArtifactIdentity
  executionId : ExecutionId
  captureTime : String
  contentHash : ContentHash
  sizeBytes : ℤ
  recordCount : Option ℤ
deriving DecidableEq

/-- A dict of JSON values, whose nested dicts are also held in key order, each key once. -/
structure JsonDict where
  fields : PyDict Json
  nested : ∀ e ∈ fields.entries, Json.sortKeys e.2 = e.2
  keyed : ∀ e ∈ fields.entries, Json.Keyed e.2

/-- Evidence from a comparison of two artifacts. -/
structure ComparisonEvidence where
  comparisonId : String
  runId : RunId
  comparatorId : String
  comparatorVersion : String
  oracleArtifactId : String
  candidateArtifactId : String
  artifactType : String
  /-- One of `MATCH`, `MISMATCH` and `INCONCLUSIVE`; nothing enforces it here. -/
  result : String
  normalizationApplied : List String
  differences : List String
  fieldLevelResults : List JsonDict
  contentHash : ContentHash
  orderingApplied : String
  failurePolicy : String
  /-- The workload this comparison belongs to, when the producer knew it. -/
  workloadId : Option WorkloadId

/-- Evidence of a verdict derivation. -/
structure VerdictEvidence where
  runId : RunId
  workloadId : WorkloadId
  verdictState : String
  executedCheckCount : ℤ
  skippedCount : ℤ
  unavailableCount : ℤ
  supportedScopeStatement : String
  evidenceManifestHash : ContentHash
  derivationTimestamp : String

/-- The complete evidence of a run of a workload. -/
structure EvidenceManifest where
  manifestVersion : String
  runId : RunId
  workloadId : WorkloadId
  sourceIdentity : SourceIdentity
  candidateIdentity : Option CandidateIdentity
  oracleIdentity : Option OracleIdentity
  environmentIdentities : List EnvironmentIdentity
  controlledInput : InputIdentity
  executionEvidence : List ExecutionEvidence
  artifactEvidence : List ArtifactEvidence
  comparisonEvidence : List ComparisonEvidence
  verdictEvidence : Option VerdictEvidence
  createdAt : String
  /-- The seal captured at construction. -/
  sealedHash : Option ContentHash

/-! ### The canonical evidence graph -/

open Json (ofDict ofOption)

def hashJson (h : ContentHash) : Json := Json.str h.toStr

def sourceIdentityJson (s : SourceIdentity) : Json :=
  .obj [("source_id", .str s.sourceId),
    ("source_hash", hashJson s.sourceHash),
    ("file_count", .int s.fileCount),
    ("total_size_bytes", .int s.totalSizeBytes)]

def candidateIdentityJson (c : CandidateIdentity) : Json :=
  .obj [("candidate_id", .str c.candidateId),
    ("candidate_hash", hashJson c.candidateHash),
    ("source_hash", hashJson c.sourceHash),
    ("file_count", .int c.fileCount),
    ("total_size_bytes", .int c.totalSizeBytes)]

def oracleIdentityJson (o : OracleIdentity) : Json :=
  .obj [("oracle_id", .str o.oracleId),
    ("image_digest", .str o.imageDigest),
    ("compiler_version", .str o.compilerVersion),
    ("preprocessor_version", ofOption .str o.preprocessorVersion),
    ("base_image", ofOption .str o.baseImage)]

def environmentIdentityJson (env : EnvironmentIdentity) : Json :=
  .obj [("runtime_id", .str env.runtimeId),
    ("java_version", ofOption .str env.javaVersion),
    ("cobol_compiler", ofOption .str env.cobolCompiler),
    ("os_base", ofOption .str env.osBase),
    ("network_policy", .str env.networkPolicy),
    ("resource_limits", ofDict .str env.resourceLimits)]

def inputIdentityJson (i : InputIdentity) : Json :=
  .obj [("input_id", .str i.inputId),
    ("stdin_hash", ofOption hashJson i.stdinHash),
    ("input_files", ofDict hashJson i.inputFiles)]

def executionEvidenceJson (e : ExecutionEvidence) : Json :=
  .obj [("execution_id", .str e.executionId.value),
    ("run_id", .str e.runId.value),
    ("workload_id", ofOption (fun w => .str w.value) e.workloadId),
    ("runtime_id", .str e.runtimeId),
    ("command", .str e.command),
    ("working_directory", .str e.workingDirectory),
    ("environment_variables", ofDict .str e.environmentVariables),
    ("start_time", .str e.startTime),
    ("end_time", .str e.endTime),
    ("exit_code", ofOption .int e.exitCode),
    ("stdout_hash", hashJson e.stdoutHash),
    ("stderr_hash", hashJson e.stderrHash),
    ("generated_files", ofDict hashJson e.generatedFiles),
    ("source_tree_hash_before", hashJson e.sourceTreeHashBefore),
    ("source_tree_hash_after", hashJson e.sourceTreeHashAfter),
    ("termination_status", .str e.terminationStatus),
    ("timeout_applied", .bool e.timeoutApplied),
    ("timeout_duration", ofOption .int e.timeoutDuration),
    ("compilation_diagnostics", ofOption (ofDict .str) e.compilationDiagnostics),
    ("image_digest", ofOption .str e.imageDigest),
    ("execution_phase", .str e.executionPhase)]

/-- The graph of an artifact: of the nested identity it holds the id, type, name and role, the hash
and the sizes are those of the evidence. -/
def artifactEvidenceJson (a : ArtifactEvidence) : Json :=
  .obj [("artifact_id", .str a.artifact.artifactId),
    ("artifact_type", .str a.artifact.artifactType),
    ("logical_name", .str a.artifact.logicalName),
    ("producer_role", .str a.artifact.producerRole),
    ("content_hash", hashJson a.contentHash),
    ("size_bytes", .int a.sizeBytes),
    ("record_count", ofOption .int a.recordCount),
    ("execution_id", .str a.executionId.value),
    ("capture_time", .str a.captureTime)]

def comparisonEvidenceJson (c : ComparisonEvidence) : Json :=
  .obj [("comparison_id", .str c.comparisonId),
    ("run_id", .str c.runId.value),
    ("workload_id", ofOption (fun w => .str w.value) c.workloadId),
    ("comparator_id", .str c.comparatorId),
    ("comparator_version", .str c.comparatorVersion),
    ("oracle_artifact_id", .str c.oracleArtifactId),
    ("candidate_artifact_id", .str c.candidateArtifactId),
    ("artifact_type", .str c.artifactType),
    ("result", .str c.result),
    ("normalization_applied", .arr (c.normalizationApplied.map .str)),
    ("differences", .arr (c.differences.map .str)),
    ("field_level_results", .arr (c.fieldLevelResults.map fun d => ofDict id d.fields)),
    ("ordering_applied", .str c.orderingApplied),
    ("failure_policy", .str c.failurePolicy),
    ("content_hash", hashJson c.contentHash)]

/-- **The canonical evidence graph** of a manifest. -/
def canonicalEvidenceGraph (m : EvidenceManifest) : Json :=
  .obj [("manifest_version", .str m.manifestVersion),
    ("run_id", .str m.runId.value),
    ("workload_id", .str m.workloadId.value),
    ("source_identity", sourceIdentityJson m.sourceIdentity),
    ("candidate_identity", ofOption candidateIdentityJson m.candidateIdentity),
    ("oracle_identity", ofOption oracleIdentityJson m.oracleIdentity),
    ("environment_identities", .arr (m.environmentIdentities.map environmentIdentityJson)),
    ("controlled_input", inputIdentityJson m.controlledInput),
    ("execution_evidence", .arr (m.executionEvidence.map executionEvidenceJson)),
    ("artifact_evidence", .arr (m.artifactEvidence.map artifactEvidenceJson)),
    ("comparison_evidence", .arr (m.comparisonEvidence.map comparisonEvidenceJson))]

def graphText (m : EvidenceManifest) : String := Json.dumps (canonicalEvidenceGraph m)

def graphHash (m : EvidenceManifest) : ContentHash := ContentHash.fromString (graphText m)

/-! ### The manifest -/

/-- The seal taken when a manifest is constructed. -/
def EvidenceManifest.postInit (m : EvidenceManifest) : EvidenceManifest :=
  { m with sealedHash := some (graphHash m) }

/-- The hash covering the complete evidence graph. -/
def EvidenceManifest.manifestHash (m : EvidenceManifest) : ContentHash := graphHash m

def ExecutionEvidence.isOracle (e : ExecutionEvidence) : Bool := Py.startswith e.runtimeId "oracle"

def ExecutionEvidence.isCandidate (e : ExecutionEvidence) : Bool :=
  Py.startswith e.runtimeId "candidate"

def EvidenceManifest.oracleExecs (m : EvidenceManifest) : List ExecutionEvidence :=
  m.executionEvidence.filter ExecutionEvidence.isOracle

/-- The executions of the candidate. -/
def EvidenceManifest.candidateExecs (m : EvidenceManifest) : List ExecutionEvidence :=
  m.executionEvidence.filter ExecutionEvidence.isCandidate

/-- The statuses of an execution that did not complete. -/
def incompleteStatuses : List String := ["error", "timeout"]

/-- Whether the manifest is complete for a verdict: a completed execution on each side, and some
artifact and comparison evidence. -/
def EvidenceManifest.isComplete (m : EvidenceManifest) : Bool :=
  if !m.oracleExecs.any (fun e => !incompleteStatuses.contains e.terminationStatus) then false
  else if !m.candidateExecs.any (fun e => !incompleteStatuses.contains e.terminationStatus) then
    false
  else if m.artifactEvidence.isEmpty then false
  else !m.comparisonEvidence.isEmpty

end CobolJava
