/-
**The persistence codec.**

The functions of `api/serialization.py`: every payload is a JSON document with its schema and its
version, decoded field by field.  The encoders copy the fields of a record; the decoders check each
field and refuse the document at the first that does not pass.  A message of the source that shows a
set or a value by its `repr` shows it here by the interpreter's own rendering.

Main definitions:

* `Serialization.encodeEnvelope`, `Serialization.decodeEnvelope` — the envelope;
* `Serialization.encodeEvidenceManifest`, `Serialization.decodeEvidenceManifest` — evidence;
* `Serialization.encodeVerdict`, `Serialization.decodeVerdict` — verdicts;
* `Serialization.encodeReport`, `Serialization.encodeStrList` and their decoders;
* `Serialization.codec` — the codec of the store.
-/

import CobolJava.Lib.JsonReader
import CobolJava.Lib.PyBytes
import CobolJava.Store.Records

set_option autoImplicit false

namespace CobolJava

namespace Serialization

open Json (ofDict ofOption)

variable (py : Py.Rendering)

/-! ### Schemas -/

def schemaEvidence : String := "evidence-manifest"
def schemaVerdict : String := "verdict"
def schemaReport : String := "modernization-report"

/-- The first and only format of the payloads. -/
def currentSchemaVersion : ℤ := 1

/-! ### Validation helpers -/

/-- The exception of a document that deviates from its schema. -/
def corrupt {α : Type} (message : String) : Except Py.Exc α :=
  .error (.declared "PersistenceCorruptionError" message)

/-- The exception of a document of another version. -/
def unsupported {α : Type} (message : String) : Except Py.Exc α :=
  .error (.declared "UnsupportedSchemaError" message)

/-- The name of the type of a value. -/
def typeName : Json → String
  | .null => "NoneType"
  | .bool _ => "bool"
  | .int _ => "int"
  | .str _ => "str"
  | .arr _ => "list"
  | .obj _ => "dict"

mutual

/-- The call `repr(value)`. -/
def reprJson : Json → String
  | .null => "None"
  | .bool true => "True"
  | .bool false => "False"
  | .int z => toString z
  | .str s => py.repr s
  | .arr xs => "[" ++ ", ".intercalate (reprItems xs) ++ "]"
  | .obj fs => "\x7b" ++ ", ".intercalate (reprFields fs) ++ "\x7d"

def reprItems : List Json → List String
  | [] => []
  | x :: xs => reprJson x :: reprItems xs

def reprFields : List (String × Json) → List String
  | [] => []
  | (k, v) :: fs => (py.repr k ++ ": " ++ reprJson v) :: reprFields fs

end

/-- The lookup `payload.get(key, default)`. -/
def getD (payload : List (String × Json)) (key : String) (default : Json) : Json :=
  match payload.find? fun e => decide (e.1 = key) with
  | some e => e.2
  | none => default

/-- The lookup `payload.get(key)`. -/
def get (payload : List (String × Json)) (key : String) : Json := getD payload key .null

def expectDict (value : Json) (place : String) : Except Py.Exc (List (String × Json)) :=
  match value with
  | .obj fs => .ok fs
  | v => corrupt (place ++ " must be an object, got " ++ typeName v)

def expectList (value : Json) (place : String) : Except Py.Exc (List Json) :=
  match value with
  | .arr xs => .ok xs
  | v => corrupt (place ++ " must be an array, got " ++ typeName v)

def missing {α : Type} (place : String) : Except Py.Exc α :=
  corrupt ("missing or null required field " ++ py.repr place)

/-- A string, which must not be empty unless `allowEmpty`. -/
def expectStr (value : Json) (place : String) (allowEmpty : Bool) : Except Py.Exc String :=
  match value with
  | .null => missing py place
  | .str s => if !allowEmpty && decide (s = "") then corrupt (place ++ " must not be empty") else .ok s
  | v => corrupt (place ++ " must be a string, got " ++ typeName v)

def expectInt (value : Json) (place : String) : Except Py.Exc ℤ :=
  match value with
  | .null => missing py place
  | .int z => .ok z
  | v => corrupt (place ++ " must be an integer, got " ++ typeName v)

def expectBool (value : Json) (place : String) : Except Py.Exc Bool :=
  match value with
  | .null => missing py place
  | .bool b => .ok b
  | v => corrupt (place ++ " must be a boolean, got " ++ typeName v)

/-- A value that may be absent, checked when it is present. -/
def optional {α : Type} (check : Json → Except Py.Exc α) : Json → Except Py.Exc (Option α)
  | .null => .ok none
  | v => (check v).map some

def optStr (payload : List (String × Json)) (key : String) : Except Py.Exc (Option String) :=
  optional (fun v => expectStr py v key false) (get payload key)

def isHexDigit (c : Char) : Bool := "0123456789abcdef".toList.contains c

/-- The text without the prefix `sha256:`, when it has it. -/
def stripSha256 (text : String) : String :=
  if Py.startswith text "sha256:" then String.ofList (text.toList.drop 7) else text

def parseHash (value : Json) (place : String) : Except Py.Exc ContentHash := do
  let text ← expectStr py value place false
  let digest := stripSha256 text
  if h : digest.length = 64 then
    if digest.toList.all isHexDigit then .ok ⟨digest, h⟩
    else corrupt (place ++ " is not a sha256 digest")
  else corrupt (place ++ " is not a sha256 digest")

def hashField (payload : List (String × Json)) (key place : String) : Except Py.Exc ContentHash :=
  match get payload key with
  | .null => corrupt (place ++ "." ++ key ++ " is required")
  | v => parseHash py v (place ++ "." ++ key)

def hashMap (value : Json) (place : String) : Except Py.Exc (PyDict ContentHash) := do
  let raw ← expectDict value place
  let out ← raw.mapM fun e => (parseHash py e.2 (place ++ "." ++ e.1)).map fun h => (e.1, h)
  return .ofList out

def strList (value : Json) (place : String) : Except Py.Exc (List String) := do
  let raw ← expectList value place
  raw.mapM fun item =>
    match item with
    | .str s => .ok s
    | _ => corrupt (place ++ " entries must be strings")

/-- A dict whose values must be strings. -/
def strMap (value : Json) (place : String) : Except Py.Exc (PyDict String) := do
  let raw ← expectDict value place
  let out ← raw.mapM fun e =>
    match e.2 with
    | .str s => .ok (e.1, s)
    | _ => corrupt (place ++ " must map strings")
  return .ofList out

def jsonDict (fs : List (String × Json)) : JsonDict where
  fields := .ofList (Json.normalFields fs)
  nested e he := Json.sortKeys_normalFields fs e (PyDict.mem_ofList he)
  keyed e he := Json.keyed_normalFields fs e (PyDict.mem_ofList he)

/-! ### Envelope -/

def document (schema : String) (payload : List (String × Json)) : List (String × Json) :=
  [("schema", .str schema), ("schema_version", .int currentSchemaVersion),
    ("payload", .obj payload)]

def encodeEnvelope (schema : String) (payload : List (String × Json)) : Py.Bytes :=
  Py.encode (Json.dumps (.obj (document schema payload)))

/-- The payload of a document, `none` when nothing was persisted. -/
def decodeEnvelope (raw : Option Py.Bytes) (expectedSchema : String) :
    Except Py.Exc (Option (List (String × Json))) :=
  match raw with
  | none => .ok none
  | some raw => do
      let text ← (match Py.decode raw with
        | some text => .ok text
        | none => corrupt "persisted payload is not UTF-8 JSON (legacy or corrupted)")
      let document ← (match Json.loads text with
        | some document => .ok document
        | none => corrupt "persisted payload is not valid JSON")
      let doc ← expectDict document "persisted payload"
      (match get doc "schema" with
        | .str schema =>
            if schema = expectedSchema then .ok ()
            else corrupt ("unexpected persisted schema " ++ py.repr schema ++ ", expected " ++
              py.repr expectedSchema)
        | v => corrupt ("unexpected persisted schema " ++ reprJson py v ++ ", expected " ++
            py.repr expectedSchema))
      (match get doc "schema_version" with
        | .int version =>
            if version = currentSchemaVersion then .ok ()
            else unsupported ("unsupported persisted schema version " ++ toString version ++
              " (supported: " ++ toString currentSchemaVersion ++ ")")
        | _ => corrupt "persisted payload has no integer schema_version")
      let payload ← expectDict (get doc "payload") "payload"
      return some payload

/-! ### Evidence manifest: encoding -/

/-- The entries of the dict of an execution that are always there. -/
def executionFields (e : ExecutionEvidence) : List (String × Json) :=
  [("execution_id", .str e.executionId.value),
    ("run_id", .str e.runId.value),
    ("runtime_id", .str e.runtimeId),
    ("command", .str e.command),
    ("working_directory", .str e.workingDirectory),
    ("environment_variables", ofDict .str e.environmentVariables),
    ("start_time", .str e.startTime),
    ("end_time", .str e.endTime),
    ("exit_code", ofOption .int e.exitCode),
    ("stdout_hash", hashJson e.stdoutHash),
    ("stderr_hash", hashJson e.stderrHash),
    ("generated_files", ofDict hashJson e.generatedFiles),
    ("source_tree_hash_before", hashJson e.sourceTreeHashBefore),
    ("source_tree_hash_after", hashJson e.sourceTreeHashAfter),
    ("termination_status", .str e.terminationStatus),
    ("timeout_applied", .bool e.timeoutApplied),
    ("timeout_duration", ofOption .int e.timeoutDuration),
    ("workload_id", ofOption (fun w => .str w.value) e.workloadId),
    ("image_digest", ofOption .str e.imageDigest),
    ("execution_phase", .str e.executionPhase)]

/-- The entry of the diagnostics, left out when there are none. -/
def diagnosticsFields : Option (PyDict String) → List (String × Json)
  | none => []
  | some d => [("compilation_diagnostics", ofDict .str d)]

def executionToDict (e : ExecutionEvidence) : Json :=
  .obj (executionFields e ++ diagnosticsFields e.compilationDiagnostics)

/-- The identity of an artifact keeps its own hash, size and count. -/
def artifactIdentityFields (a : ArtifactIdentity) : List (String × Json) :=
  [("artifact_id", .str a.artifactId),
    ("artifact_type", .str a.artifactType),
    ("logical_name", .str a.logicalName),
    ("producer_role", .str a.producerRole),
    ("content_hash", hashJson a.contentHash),
    ("size_bytes", .int a.sizeBytes),
    ("record_count", ofOption .int a.recordCount)]

def artifactFields (a : ArtifactEvidence) : List (String × Json) :=
  [("artifact", .obj (artifactIdentityFields a.artifact)),
    ("execution_id", .str a.executionId.value),
    ("capture_time", .str a.captureTime),
    ("content_hash", hashJson a.contentHash),
    ("size_bytes", .int a.sizeBytes),
    ("record_count", ofOption .int a.recordCount)]

def artifactToDict (a : ArtifactEvidence) : Json := .obj (artifactFields a)

def comparisonFields (c : ComparisonEvidence) : List (String × Json) :=
  [("comparison_id", .str c.comparisonId),
    ("run_id", .str c.runId.value),
    ("comparator_id", .str c.comparatorId),
    ("comparator_version", .str c.comparatorVersion),
    ("oracle_artifact_id", .str c.oracleArtifactId),
    ("candidate_artifact_id", .str c.candidateArtifactId),
    ("artifact_type", .str c.artifactType),
    ("result", .str c.result),
    ("normalization_applied", .arr (c.normalizationApplied.map .str)),
    ("differences", .arr (c.differences.map .str)),
    ("field_level_results", .arr (c.fieldLevelResults.map fun d => ofDict id d.fields)),
    ("ordering_applied", .str c.orderingApplied),
    ("failure_policy", .str c.failurePolicy),
    ("workload_id", ofOption (fun w => .str w.value) c.workloadId),
    ("content_hash", hashJson c.contentHash)]

def comparisonToDict (c : ComparisonEvidence) : Json := .obj (comparisonFields c)

def verdictEvidenceToDict (v : VerdictEvidence) : Json :=
  .obj [("run_id", .str v.runId.value),
    ("workload_id", .str v.workloadId.value),
    ("verdict_state", .str v.verdictState),
    ("executed_check_count", .int v.executedCheckCount),
    ("skipped_count", .int v.skippedCount),
    ("unavailable_count", .int v.unavailableCount),
    ("supported_scope_statement", .str v.supportedScopeStatement),
    ("evidence_manifest_hash", hashJson v.evidenceManifestHash),
    ("derivation_timestamp", .str v.derivationTimestamp)]

/-- The entries of a manifest whose oracle is known. -/
def manifestFields (m : EvidenceManifest) (oracle : OracleIdentity) : List (String × Json) :=
  [("manifest_version", .str m.manifestVersion),
    ("run_id", .str m.runId.value),
    ("workload_id", .str m.workloadId.value),
    ("source_identity", sourceIdentityJson m.sourceIdentity),
    ("candidate_identity", ofOption candidateIdentityJson m.candidateIdentity),
    ("oracle_identity", oracleIdentityJson oracle),
    ("environment_identities", .arr (m.environmentIdentities.map environmentIdentityJson)),
    ("controlled_input", inputIdentityJson m.controlledInput),
    ("execution_evidence", .arr (m.executionEvidence.map executionToDict)),
    ("artifact_evidence", .arr (m.artifactEvidence.map artifactToDict)),
    ("comparison_evidence", .arr (m.comparisonEvidence.map comparisonToDict)),
    ("verdict_evidence", ofOption verdictEvidenceToDict m.verdictEvidence),
    ("created_at", .str m.createdAt),
    ("sealed_hash", ofOption hashJson m.sealedHash)]

/-- The bytes of a manifest; a stale seal is refused at the write boundary. -/
def encodeEvidenceManifest (m : EvidenceManifest) : Except Py.Exc Py.Bytes :=
  if m.sealedHash = some m.manifestHash then
    match m.oracleIdentity with
    | some oracle => .ok (encodeEnvelope schemaEvidence (manifestFields m oracle))
    | none => .error (.noneAttribute "oracle_id")
  else
    corrupt ("refusing to persist evidence manifest with a stale seal (sealed_hash=" ++
      (m.sealedHash.map ContentHash.toStr).getD "None" ++ ", recomputed=" ++
      m.manifestHash.toStr ++ ")")

/-! ### Evidence manifest: decoding -/

/-- The exception of a constructor that refuses its arguments. -/
def refused {α : Type} (text : String) : Except Py.Exc α := .error (.valueError text)

def runId (value : String) : Except Py.Exc RunId :=
  if h : value ≠ "" then .ok ⟨value, h⟩ else refused "RunId cannot be empty"

def workloadId (value : String) : Except Py.Exc WorkloadId :=
  if h : value ≠ "" then .ok ⟨value, h⟩ else refused "WorkloadId cannot be empty"

def executionId (value : String) : Except Py.Exc ExecutionId :=
  if h : value ≠ "" then .ok ⟨value, h⟩ else refused "ExecutionId cannot be empty"

/-- The workload an entry may name. -/
def optWorkloadId (item : List (String × Json)) (place : String) :
    Except Py.Exc (Option WorkloadId) := do
  match ← optional (fun v => expectStr py v (place ++ ".workload_id") false)
      (get item "workload_id") with
  | none => return none
  | some value => if h : value ≠ "" then return some ⟨value, h⟩ else return none

def optInt (item : List (String × Json)) (key place : String) : Except Py.Exc (Option ℤ) :=
  optional (fun v => expectInt py v (place ++ "." ++ key)) (get item key)

def decodeExecution (raw : Json) (index : ℕ) : Except Py.Exc ExecutionEvidence := do
  let place := "execution_evidence[" ++ toString index ++ "]"
  let item ← expectDict raw place
  let generated := getD item "generated_files" (.obj [])
  let compilation ← optional (fun v => strMap v (place ++ ".compilation_diagnostics"))
    (get item "compilation_diagnostics")
  let workload ← optWorkloadId py item place
  let timeoutDuration ← optInt py item "timeout_duration" place
  let exitCode ← optInt py item "exit_code" place
  let execution ← expectStr py (get item "execution_id") (place ++ ".execution_id") false
  let execution ← executionId execution
  let run ← expectStr py (get item "run_id") (place ++ ".run_id") false
  let run ← runId run
  let runtimeId ← expectStr py (get item "runtime_id") (place ++ ".runtime_id") false
  let command ← expectStr py (get item "command") (place ++ ".command") true
  let workingDirectory ← expectStr py (get item "working_directory")
    (place ++ ".working_directory") true
  let environmentVariables ← strMap (get item "environment_variables")
    (place ++ ".environment_variables")
  let startTime ← expectStr py (get item "start_time") (place ++ ".start_time") true
  let endTime ← expectStr py (get item "end_time") (place ++ ".end_time") true
  let stdoutHash ← hashField py item "stdout_hash" place
  let stderrHash ← hashField py item "stderr_hash" place
  let generatedFiles ← hashMap py generated (place ++ ".generated_files")
  let sourceTreeHashBefore ← hashField py item "source_tree_hash_before" place
  let sourceTreeHashAfter ← hashField py item "source_tree_hash_after" place
  let terminationStatus ← expectStr py (get item "termination_status")
    (place ++ ".termination_status") false
  let timeoutApplied ← expectBool py (get item "timeout_applied") (place ++ ".timeout_applied")
  let imageDigest ← optStr py item "image_digest"
  let executionPhase ← expectStr py (getD item "execution_phase" (.str "EXECUTE"))
    (place ++ ".execution_phase") false
  return {
    executionId := execution
    runId := run
    runtimeId := runtimeId
    command := command
    workingDirectory := workingDirectory
    environmentVariables := environmentVariables
    startTime := startTime
    endTime := endTime
    exitCode := exitCode
    stdoutHash := stdoutHash
    stderrHash := stderrHash
    generatedFiles := generatedFiles
    sourceTreeHashBefore := sourceTreeHashBefore
    sourceTreeHashAfter := sourceTreeHashAfter
    terminationStatus := terminationStatus
    timeoutApplied := timeoutApplied
    timeoutDuration := timeoutDuration
    compilationDiagnostics := compilation
    workloadId := workload
    imageDigest := imageDigest
    executionPhase := executionPhase }

/-- The constructor of an artifact identity. -/
def artifactIdentity (artifactId artifactType logicalName producerRole : String)
    (contentHash : ContentHash) (sizeBytes : ℤ) (recordCount : Option ℤ) :
    Except Py.Exc ArtifactIdentity :=
  if ht : artifactType ∈ validArtifactTypes then
    if hr : producerRole ∈ producerRoles then
      .ok ⟨artifactId, artifactType, logicalName, producerRole, contentHash, sizeBytes, recordCount,
        ht, hr⟩
    else refused ("producer_role must be ORACLE or CANDIDATE, got " ++ producerRole)
  else refused ("artifact_type must be one of " ++ py.setStr validArtifactTypes ++ ", got " ++
    artifactType)

def decodeArtifact (raw : Json) (index : ℕ) : Except Py.Exc ArtifactEvidence := do
  let place := "artifact_evidence[" ++ toString index ++ "]"
  let item ← expectDict raw place
  let recordCount ← optInt py item "record_count" place
  let identityRaw ← expectDict (get item "artifact") (place ++ ".artifact")
  let artifactRecordCount ← optInt py identityRaw "record_count" (place ++ ".artifact")
  let artifactId ← expectStr py (get identityRaw "artifact_id") (place ++ ".artifact.artifact_id")
    false
  let artifactType ← expectStr py (get identityRaw "artifact_type")
    (place ++ ".artifact.artifact_type") false
  let logicalName ← expectStr py (get identityRaw "logical_name")
    (place ++ ".artifact.logical_name") true
  let producerRole ← expectStr py (get identityRaw "producer_role")
    (place ++ ".artifact.producer_role") false
  let artifactHash ← hashField py identityRaw "content_hash" (place ++ ".artifact")
  let artifactSize ← expectInt py (get identityRaw "size_bytes") (place ++ ".artifact.size_bytes")
  let identity ← artifactIdentity py artifactId artifactType logicalName producerRole artifactHash
    artifactSize artifactRecordCount
  let execution ← expectStr py (get item "execution_id") (place ++ ".execution_id") false
  let execution ← executionId execution
  let captureTime ← expectStr py (get item "capture_time") (place ++ ".capture_time") true
  let contentHash ← hashField py item "content_hash" place
  let sizeBytes ← expectInt py (get item "size_bytes") (place ++ ".size_bytes")
  return ⟨identity, execution, captureTime, contentHash, sizeBytes, recordCount⟩

def decodeComparison (raw : Json) (index : ℕ) : Except Py.Exc ComparisonEvidence := do
  let place := "comparison_evidence[" ++ toString index ++ "]"
  let item ← expectDict raw place
  let fieldResults ← expectList (get item "field_level_results") (place ++ ".field_level_results")
  let fieldResults ← fieldResults.mapM fun entry =>
    (expectDict entry (place ++ ".field_level_results entry")).map jsonDict
  let workload ← optWorkloadId py item place
  let comparisonId ← expectStr py (get item "comparison_id") (place ++ ".comparison_id") false
  let run ← expectStr py (get item "run_id") (place ++ ".run_id") false
  let run ← runId run
  let comparatorId ← expectStr py (get item "comparator_id") (place ++ ".comparator_id") false
  let comparatorVersion ← expectStr py (get item "comparator_version")
    (place ++ ".comparator_version") true
  let oracleArtifactId ← expectStr py (get item "oracle_artifact_id")
    (place ++ ".oracle_artifact_id") false
  let candidateArtifactId ← expectStr py (get item "candidate_artifact_id")
    (place ++ ".candidate_artifact_id") false
  let artifactType ← expectStr py (get item "artifact_type") (place ++ ".artifact_type") false
  let result ← expectStr py (get item "result") (place ++ ".result") false
  let normalizationApplied ← strList (get item "normalization_applied")
    (place ++ ".normalization_applied")
  let differences ← strList (get item "differences") (place ++ ".differences")
  let contentHash ← hashField py item "content_hash" place
  let orderingApplied ← expectStr py (getD item "ordering_applied" (.str "SEQUENTIAL"))
    (place ++ ".ordering_applied") false
  let failurePolicy ← expectStr py (getD item "failure_policy" (.str ""))
    (place ++ ".failure_policy") true
  return {
    comparisonId := comparisonId
    runId := run
    comparatorId := comparatorId
    comparatorVersion := comparatorVersion
    oracleArtifactId := oracleArtifactId
    candidateArtifactId := candidateArtifactId
    artifactType := artifactType
    result := result
    normalizationApplied := normalizationApplied
    differences := differences
    fieldLevelResults := fieldResults
    contentHash := contentHash
    orderingApplied := orderingApplied
    failurePolicy := failurePolicy
    workloadId := workload }

def decodeVerdictEvidence (raw : Json) : Except Py.Exc (Option VerdictEvidence) :=
  match raw with
  | .null => .ok none
  | raw => do
      let item ← expectDict raw "verdict_evidence"
      let run ← expectStr py (get item "run_id") "verdict_evidence.run_id" false
      let run ← runId run
      let workload ← expectStr py (get item "workload_id") "verdict_evidence.workload_id" false
      let workload ← workloadId workload
      let verdictState ← expectStr py (get item "verdict_state") "verdict_evidence.verdict_state"
        false
      let executedCheckCount ← expectInt py (get item "executed_check_count")
        "verdict_evidence.executed_check_count"
      let skippedCount ← expectInt py (get item "skipped_count") "verdict_evidence.skipped_count"
      let unavailableCount ← expectInt py (get item "unavailable_count")
        "verdict_evidence.unavailable_count"
      let supportedScopeStatement ← expectStr py (get item "supported_scope_statement")
        "verdict_evidence.supported_scope_statement" true
      let evidenceManifestHash ← parseHash py (get item "evidence_manifest_hash")
        "verdict_evidence.evidence_manifest_hash"
      let derivationTimestamp ← expectStr py (get item "derivation_timestamp")
        "verdict_evidence.derivation_timestamp" false
      return some ⟨run, workload, verdictState, executedCheckCount, skippedCount, unavailableCount,
        supportedScopeStatement, evidenceManifestHash, derivationTimestamp⟩

def decodeEnvironment (raw : Json) (index : ℕ) : Except Py.Exc EnvironmentIdentity := do
  let place := "environment_identities[" ++ toString index ++ "]"
  let env ← expectDict raw place
  let limits ← strMap (getD env "resource_limits" (.obj [])) (place ++ ".resource_limits")
  let runtimeId ← expectStr py (get env "runtime_id") (place ++ ".runtime_id") false
  let javaVersion ← optStr py env "java_version"
  let cobolCompiler ← optStr py env "cobol_compiler"
  let osBase ← optStr py env "os_base"
  let networkPolicy ← expectStr py (getD env "network_policy" (.str "none"))
    (place ++ ".network_policy") false
  return ⟨runtimeId, javaVersion, cobolCompiler, osBase, networkPolicy, limits⟩

def decodeInput (controlled : List (String × Json)) : Except Py.Exc InputIdentity := do
  let stdinHash ← optional (fun v => parseHash py v "controlled_input.stdin_hash")
    (get controlled "stdin_hash")
  let inputId ← expectStr py (get controlled "input_id") "controlled_input.input_id" false
  let inputFiles ← hashMap py (getD controlled "input_files" (.obj []))
    "controlled_input.input_files"
  return ⟨inputId, stdinHash, inputFiles⟩

def decodeSource (raw : List (String × Json)) : Except Py.Exc SourceIdentity := do
  let sourceId ← expectStr py (get raw "source_id") "source_identity.source_id" false
  let sourceHash ← hashField py raw "source_hash" "source_identity"
  let fileCount ← expectInt py (get raw "file_count") "source_identity.file_count"
  let totalSizeBytes ← expectInt py (get raw "total_size_bytes")
    "source_identity.total_size_bytes"
  if h : sourceId ≠ "" then return ⟨sourceId, sourceHash, fileCount, totalSizeBytes, h⟩
  else refused "source_id cannot be empty"

def decodeCandidate (raw : List (String × Json)) : Except Py.Exc CandidateIdentity := do
  let candidateId ← expectStr py (get raw "candidate_id") "candidate_identity.candidate_id" false
  let candidateHash ← hashField py raw "candidate_hash" "candidate_identity"
  let sourceHash ← hashField py raw "source_hash" "candidate_identity"
  let fileCount ← expectInt py (get raw "file_count") "candidate_identity.file_count"
  let totalSizeBytes ← expectInt py (get raw "total_size_bytes")
    "candidate_identity.total_size_bytes"
  if h : candidateId ≠ "" then
    return ⟨candidateId, candidateHash, sourceHash, fileCount, totalSizeBytes, h⟩
  else refused "candidate_id cannot be empty"

/-- The constructor of an oracle identity. -/
def oracleIdentity (oracleId imageDigest compilerVersion : String)
    (preprocessorVersion baseImage : Option String) : Except Py.Exc OracleIdentity :=
  if ho : oracleId ≠ "" then
    if hi : Py.startswith imageDigest "sha256:" = true then
      if hc : compilerVersion ≠ "" then
        .ok ⟨oracleId, imageDigest, compilerVersion, preprocessorVersion, baseImage, ho, hi, hc⟩
      else refused "compiler_version cannot be empty"
    else refused "image_digest must be sha256-pinned (never mutable tag)"
  else refused "oracle_id cannot be empty"

def decodeOracle (raw : List (String × Json)) : Except Py.Exc OracleIdentity := do
  let oracleId ← expectStr py (get raw "oracle_id") "oracle_identity.oracle_id" false
  let imageDigest ← expectStr py (get raw "image_digest") "oracle_identity.image_digest" false
  let compilerVersion ← expectStr py (get raw "compiler_version")
    "oracle_identity.compiler_version" false
  let preprocessorVersion ← optStr py raw "preprocessor_version"
  let baseImage ← optStr py raw "base_image"
  oracleIdentity oracleId imageDigest compilerVersion preprocessorVersion baseImage

/-- What a `ValueError` of the last part of the decoding becomes. -/
def malformed {α : Type} : Except Py.Exc α → Except Py.Exc α
  | .error (.valueError text) => corrupt ("persisted evidence manifest is malformed: " ++ text)
  | r => r

def decodeEvidenceManifest (raw : Option Py.Bytes) : Except Py.Exc (Option EvidenceManifest) := do
  match ← decodeEnvelope py raw schemaEvidence with
  | none => return none
  | some payload =>
    let sourceRaw ← expectDict (get payload "source_identity") "source_identity"
    let candidateRaw ← optional (fun v => expectDict v "candidate_identity")
      (get payload "candidate_identity")
    let oracleRaw ← expectDict (get payload "oracle_identity") "oracle_identity"
    let controlledRaw ← expectDict (get payload "controlled_input") "controlled_input"
    let environments ← expectList (get payload "environment_identities") "environment_identities"
    let environments ← environments.zipIdx.mapM fun p => decodeEnvironment py p.1 p.2
    let executions ← expectList (get payload "execution_evidence") "execution_evidence"
    let executions ← executions.zipIdx.mapM fun p => decodeExecution py p.1 p.2
    let artifacts ← expectList (get payload "artifact_evidence") "artifact_evidence"
    let artifacts ← artifacts.zipIdx.mapM fun p => decodeArtifact py p.1 p.2
    let comparisons ← expectList (get payload "comparison_evidence") "comparison_evidence"
    let comparisons ← comparisons.zipIdx.mapM fun p => decodeComparison py p.1 p.2
    let controlled ← decodeInput py controlledRaw
    let manifestSeal ← (match get payload "sealed_hash" with
      | .str s => if s = "" then corrupt "persisted evidence manifest has no seal" else .ok s
      | _ => corrupt "persisted evidence manifest has no seal")
    let manifest ← malformed (do
      let manifestVersion ← expectStr py (get payload "manifest_version") "manifest_version" false
      let run ← expectStr py (get payload "run_id") "run_id" false
      let run ← runId run
      let workload ← expectStr py (get payload "workload_id") "workload_id" false
      let workload ← workloadId workload
      let source ← decodeSource py sourceRaw
      let candidate ← candidateRaw.mapM (decodeCandidate py)
      let oracle ← decodeOracle py oracleRaw
      let verdictEvidence ← decodeVerdictEvidence py (get payload "verdict_evidence")
      let createdAt ← expectStr py (get payload "created_at") "created_at" false
      return EvidenceManifest.postInit {
        manifestVersion := manifestVersion
        runId := run
        workloadId := workload
        sourceIdentity := source
        candidateIdentity := candidate
        oracleIdentity := some oracle
        environmentIdentities := environments
        controlledInput := controlled
        executionEvidence := executions
        artifactEvidence := artifacts
        comparisonEvidence := comparisons
        verdictEvidence := verdictEvidence
        createdAt := createdAt
        sealedHash := none })
    if manifest.sealedHash.map ContentHash.toStr = some manifestSeal then return some manifest
    else corrupt "persisted evidence seal mismatch (evidence was modified)"

/-! ### Verdict -/

/-- The fields of a persisted verdict. -/
def verdictFields : List String :=
  ["state", "workload_id", "run_id", "source_hash", "candidate_hash", "oracle_id", "oracle_digest",
    "executed_check_count", "skipped_count", "unavailable_count", "supported_scope_statement",
    "evidence_manifest_hash", "derivation_timestamp", "differences"]

/-- The state of a value, when it is one. -/
def verdictStateOf (value : String) : Option VerdictState :=
  [VerdictState.VERIFIED, .PARTIAL, .FAILED, .UNPROVEN, .UNAVAILABLE, .UNSUPPORTED, .ERROR].find?
    fun state => decide (state.value = value)

theorem verdictStateOf_value (state : VerdictState) : verdictStateOf state.value = some state := by
  cases state <;> decide

def verdictEntries (v : Verdict) : List (String × Json) :=
  [("state", .str v.state.value),
    ("workload_id", .str v.workloadId.value),
    ("run_id", .str v.runId),
    ("source_hash", .str v.sourceHash),
    ("candidate_hash", ofOption .str v.candidateHash),
    ("oracle_id", .str v.oracleId),
    ("oracle_digest", .str v.oracleDigest),
    ("executed_check_count", .int v.executedCheckCount),
    ("skipped_count", .int v.skippedCount),
    ("unavailable_count", .int v.unavailableCount),
    ("supported_scope_statement", .str v.supportedScopeStatement),
    ("evidence_manifest_hash", .str v.evidenceManifestHash),
    ("derivation_timestamp", .str v.derivationTimestamp),
    ("differences", .arr (v.differences.map .str))]

def encodeVerdict (v : Verdict) : Except Py.Exc Py.Bytes :=
  .ok (encodeEnvelope schemaVerdict (verdictEntries v))

/-- What a `ValueError` of the constructor of a verdict becomes. -/
def malformedVerdict {α : Type} : Except Py.Exc α → Except Py.Exc α
  | .error (.valueError text) => corrupt ("persisted verdict is malformed: " ++ text)
  | r => r

def decodeVerdict (raw : Option Py.Bytes) : Except Py.Exc (Option Verdict) := do
  match ← decodeEnvelope py raw schemaVerdict with
  | none => return none
  | some payload =>
    let absent := verdictFields.filter fun key => !(payload.map Prod.fst).contains key
    if absent ≠ [] then
      corrupt ("persisted verdict is missing fields: " ++ ", ".intercalate absent)
    else
      let stateRaw ← expectStr py (get payload "state") "state" false
      let state ← (match verdictStateOf stateRaw with
        | some state => .ok state
        | none => corrupt ("persisted verdict state " ++ py.repr stateRaw ++
            " is not a valid verdict state"))
      let candidateHash ← optStr py payload "candidate_hash"
      let verdict ← malformedVerdict (do
        let workload ← expectStr py (get payload "workload_id") "workload_id" false
        let workload ← workloadId workload
        let run ← expectStr py (get payload "run_id") "run_id" false
        let sourceHash ← expectStr py (get payload "source_hash") "source_hash" false
        let oracleId ← expectStr py (get payload "oracle_id") "oracle_id" false
        let oracleDigest ← expectStr py (get payload "oracle_digest") "oracle_digest" false
        let executedCheckCount ← expectInt py (get payload "executed_check_count")
          "executed_check_count"
        let skippedCount ← expectInt py (get payload "skipped_count") "skipped_count"
        let unavailableCount ← expectInt py (get payload "unavailable_count") "unavailable_count"
        let supportedScopeStatement ← expectStr py (get payload "supported_scope_statement")
          "supported_scope_statement" true
        let evidenceManifestHash ← expectStr py (get payload "evidence_manifest_hash")
          "evidence_manifest_hash" false
        let derivationTimestamp ← expectStr py (get payload "derivation_timestamp")
          "derivation_timestamp" false
        let differences ← strList (get payload "differences") "differences"
        return {
          state := state
          workloadId := workload
          runId := run
          sourceHash := sourceHash
          candidateHash := candidateHash
          oracleId := oracleId
          oracleDigest := oracleDigest
          executedCheckCount := executedCheckCount
          skippedCount := skippedCount
          unavailableCount := unavailableCount
          supportedScopeStatement := supportedScopeStatement
          evidenceManifestHash := evidenceManifestHash
          derivationTimestamp := derivationTimestamp
          differences := differences })
      return some verdict

/-! ### Report, string lists and snapshots -/

def encodeReport : Option JsonDict → Except Py.Exc (Option Py.Bytes)
  | none => .ok none
  | some report => .ok (some (encodeEnvelope schemaReport [("report", ofDict id report.fields)]))

def decodeReport (raw : Option Py.Bytes) : Except Py.Exc (Option JsonDict) := do
  match ← decodeEnvelope py raw schemaReport with
  | none => return none
  | some payload =>
    match get payload "report" with
    | .obj report => return some (jsonDict report)
    | _ => corrupt "persisted modernization report must be an object"

def encodeStrList (values : List String) : Except Py.Exc String :=
  .ok (Json.dumps (.arr (values.map .str)))

def decodeStrList (raw : String) : Except Py.Exc (List String) :=
  if Py.strip raw = "" then corrupt "string list column is empty"
  else
    match Json.loads raw with
    | none => corrupt "string list column is not valid JSON"
    | some (.arr items) => items.mapM fun item =>
        match item with
        | .str s => .ok s
        | _ => corrupt "string list column entries must be strings"
    | some _ => corrupt "string list column must contain a JSON array"

/-- The column of a discovery snapshot. -/
def encodeSnapshot (snapshot : Option JsonDict) : Option String :=
  snapshot.map fun s => Json.dumps (ofDict id s.fields)

/-- The snapshot a column holds; an unreadable one is treated as absent. -/
def decodeSnapshot : Option String → Option JsonDict
  | none => none
  | some text =>
      match Json.loads text with
      | some (.obj snapshot) => some (jsonDict snapshot)
      | _ => none

def codec : Codec where
  encodeEvidenceManifest := encodeEvidenceManifest
  decodeEvidenceManifest := decodeEvidenceManifest py
  encodeVerdict := encodeVerdict
  decodeVerdict := decodeVerdict py
  encodeReport := encodeReport
  decodeReport := decodeReport py
  encodeStrList := encodeStrList
  decodeStrList := decodeStrList
  encodeSnapshot := encodeSnapshot
  decodeSnapshot := decodeSnapshot

end Serialization

end CobolJava
