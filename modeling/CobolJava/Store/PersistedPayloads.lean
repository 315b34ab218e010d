/-
**The decoders of persisted payloads, on every value of a column.**

The decoders of `api/serialization.py` again, over the values that `json.loads` can yield: floats,
strings that are no Unicode text, dicts of any values.  A table lists the fields of each object in
the order in which the source checks them; a decoded object is the list of its attributes.  The
`json` module works under the recursion limit of the interpreter, so that it is a parameter.

Main definitions:

* `PersistedPayloads.Check`, `PersistedPayloads.Field` — the checks of values, and the tables;
* `PersistedPayloads.decodeEnvelope` — the envelope;
* `PersistedPayloads.decodeEvidenceManifest`, `PersistedPayloads.canonicalEvidenceGraph` — evidence;
* `PersistedPayloads.decodeVerdict`, `PersistedPayloads.decodeReport`,
  `PersistedPayloads.decodeStrList` — the other columns.
-/

import CobolJava.Lib.PyJson
import CobolJava.Store.Serialization

set_option autoImplicit false

namespace CobolJava

namespace PersistedPayloads

open Serialization (corrupt unsupported refused schemaEvidence schemaVerdict schemaReport
  currentSchemaVersion)

/-! ### Values -/

/-- A value of a column, as `sqlite3` hands it out. -/
inductive SqlValue where
  | null
  | integer (z : ℤ)
  /-- A float, by its bits. -/
  | real (bits : UInt64)
  | text (s : String)
  | blob (content : Py.Bytes)

/-- The name of the type of a value of a column. -/
def SqlValue.typeName : SqlValue → String
  | .null => "NoneType"
  | .integer _ => "int"
  | .real _ => "float"
  | .text _ => "str"
  | .blob _ => "bytes"

/-- Why `json.loads` raises. -/
inductive LoadFailure where
  /-- The text is no JSON document, or a number has too many digits. -/
  | valueError
  /-- The document is nested deeper than the recursion limit allows. -/
  | recursion
deriving DecidableEq

/-- The interpreter: its `json` module under its recursion limit, and its renderings of values. -/
structure Interpreter extends Py.Rendering where
  /-- `json.loads(text)`.  A decimal stands for the float it is rounded to; the entries of a dict
  stand in the order of insertion. -/
  loads : String → Except LoadFailure PyJson
  /-- `json.dumps(value, sort_keys=True, default=str).encode("utf-8")`, and `none` when the value is
  nested too deep. -/
  dumps : PyJson → Option Py.Bytes
  /-- `repr(value)`. -/
  reprValue : PyJson → String
  /-- The string in the text of an exception. -/
  shown : PyStr → String

/-- The exception of a value that is nested too deep. -/
def recursionError : Py.Exc := .declared "RecursionError" "maximum recursion depth exceeded"

/-- The name of the type of a value. -/
def typeName : PyJson → String
  | .null => "NoneType"
  | .bool _ => "bool"
  | .int _ => "int"
  | .decimal _ => "float"
  | .constant _ => "float"
  | .str _ => "str"
  | .arr _ => "list"
  | .obj _ => "dict"

abbrev Entries := List (PyStr × PyJson)

/-- The lookup `payload.get(key, default)`. -/
def getD (payload : Entries) (key : String) (default : PyJson) : PyJson :=
  (PyJson.field payload key).getD default

/-- The lookup `payload.get(key)`. -/
def get (payload : Entries) (key : String) : PyJson := getD payload key .null

variable (py : Interpreter)

/-! ### Validation helpers -/

def expectDict (value : PyJson) (place : String) : Except Py.Exc Entries :=
  match value with
  | .obj fs => .ok fs
  | v => corrupt (place ++ " must be an object, got " ++ typeName v)

def expectList (value : PyJson) (place : String) : Except Py.Exc (List PyJson) :=
  match value with
  | .arr xs => .ok xs
  | v => corrupt (place ++ " must be an array, got " ++ typeName v)

def missing {α : Type} (place : String) : Except Py.Exc α :=
  corrupt ("missing or null required field " ++ py.repr place)

/-- A string, which must not be empty unless `allowEmpty`. -/
def expectStr (value : PyJson) (place : String) (allowEmpty : Bool) : Except Py.Exc PyStr :=
  match value with
  | .null => missing py place
  | .str s => if !allowEmpty && s.isEmpty then corrupt (place ++ " must not be empty") else .ok s
  | v => corrupt (place ++ " must be a string, got " ++ typeName v)

def expectInt (value : PyJson) (place : String) : Except Py.Exc ℤ :=
  match value with
  | .null => missing py place
  | .int z => .ok z
  | v => corrupt (place ++ " must be an integer, got " ++ typeName v)

def expectBool (value : PyJson) (place : String) : Except Py.Exc Bool :=
  match value with
  | .null => missing py place
  | .bool b => .ok b
  | v => corrupt (place ++ " must be a boolean, got " ++ typeName v)

def sha256Mark : PyStr := PyStr.of "sha256:"

/-- The text without the prefix `sha256:`, when it has it. -/
def digestOf (text : PyStr) : PyStr :=
  if sha256Mark.isPrefixOf text then text.drop sha256Mark.length else text

def isHex (c : ℕ) : Bool := (PyStr.of "0123456789abcdef").contains c

/-- The constructor of a content hash, as its spelling `sha256:<digest>`. -/
def contentHash (digest : PyStr) : Except Py.Exc PyStr :=
  if digest.length ≠ 64 then
    refused ("SHA-256 digest must be 64 hex chars, got " ++ toString digest.length)
  else .ok (sha256Mark ++ digest)

def parseHash (value : PyJson) (place : String) : Except Py.Exc PyStr := do
  let text ← expectStr py value place false
  let digest := digestOf text
  if digest.length ≠ 64 ∨ digest.all isHex = false then corrupt (place ++ " is not a sha256 digest")
  else contentHash digest

def hashMap (value : PyJson) (place : String) : Except Py.Exc Entries := do
  let raw ← expectDict value place
  raw.mapM fun e => (parseHash py e.2 (place ++ "." ++ py.shown e.1)).map fun h => (e.1, .str h)

def strList (value : PyJson) (place : String) : Except Py.Exc (List PyJson) := do
  let raw ← expectList value place
  raw.mapM fun item =>
    match item with
    | .str s => .ok (.str s)
    | _ => corrupt (place ++ " entries must be strings")

/-- A dict whose values must be strings. -/
def strMap (value : PyJson) (place : String) : Except Py.Exc Entries := do
  let raw ← expectDict value place
  raw.mapM fun e =>
    match e.2 with
    | .str s => .ok (e.1, .str s)
    | _ => corrupt (place ++ " must map strings")

def dictList (value : PyJson) (place : String) : Except Py.Exc (List PyJson) := do
  let raw ← expectList value place
  raw.mapM fun entry => (expectDict entry (place ++ " entry")).map .obj

/-- The constructor of an identifier of a class. -/
def identifier (className : String) (value : PyStr) : Except Py.Exc PyStr :=
  if value.isEmpty then refused (className ++ " cannot be empty") else .ok value

/-! ### Tables of fields -/

/-- The check of the value of a field. -/
inductive Check where
  | str (allowEmpty : Bool)
  /-- A string that an identifier of a class is made of. -/
  | identifier (className : String)
  | int
  | bool
  /-- The helper `_hash`. -/
  | hash
  /-- The helper `_parse_hash`. -/
  | parsedHash
  | hashMap
  | strMap
  | dict
  | strList
  | dictList
  /-- A value that may be `None`. -/
  | optional (check : Check)

/-- The value as the check hands it on, a hash in its spelling `sha256:<digest>`. -/
def Check.apply : Check → PyJson → String → Except Py.Exc PyJson
  | .str allowEmpty, v, label => (expectStr py v label allowEmpty).map .str
  | .identifier className, v, label => do
      let text ← expectStr py v label false
      (PersistedPayloads.identifier className text).map .str
  | .int, v, label => (expectInt py v label).map .int
  | .bool, v, label => (expectBool py v label).map .bool
  | .hash, v, label =>
      match v with
      | .null => corrupt (label ++ " is required")
      | v => (parseHash py v label).map .str
  | .parsedHash, v, label => (parseHash py v label).map .str
  | .hashMap, v, label => (PersistedPayloads.hashMap py v label).map .obj
  | .strMap, v, label => (PersistedPayloads.strMap v label).map .obj
  | .dict, v, label => (expectDict v label).map .obj
  | .strList, v, label => (PersistedPayloads.strList v label).map .arr
  | .dictList, v, label => (PersistedPayloads.dictList v label).map .arr
  | .optional check, v, label =>
      match v with
      | .null => .ok .null
      | v => check.apply v label

/-- A field of an object. -/
structure Field where
  key : String
  check : Check
  /-- What is checked when the key is missing. -/
  default : PyJson := .null
  /-- Whether a message names the key alone, without the place of the object. -/
  bare : Bool := false

/-- The name of a field in a message. -/
def Field.label (f : Field) (place : String) : String :=
  if f.bare then f.key else place ++ "." ++ f.key

/-- The value of a field in an object. -/
def Field.read (f : Field) (item : Entries) : PyJson := getD item f.key f.default

/-- The attributes of a decoded object. -/
abbrev Attributes := List (String × PyJson)

/-- The fields of an object, checked one after the other. -/
def decodeFields (fields : List Field) (item : Entries) (place : String) :
    Except Py.Exc Attributes :=
  fields.mapM fun f => (f.check.apply py (f.read item) (f.label place)).map fun v => (f.key, v)

/-- An attribute of a decoded object. -/
def attr (attrs : Attributes) (name : String) : PyJson :=
  match attrs.find? fun a => decide (a.1 = name) with
  | some a => a.2
  | none => .null

def textAttribute (attrs : Attributes) (name : String) : PyStr :=
  match attr attrs name with
  | .str s => s
  | _ => []

/-- The entries of a list, decoded one after the other with their indices. -/
def decodeEntries {α : Type} (decode : PyJson → ℕ → Except Py.Exc α) (payload : Entries)
    (key : String) : Except Py.Exc (List α) := do
  let raw ← expectList (get payload key) key
  raw.zipIdx.mapM fun p => decode p.1 p.2

/-- The place of an entry of a list. -/
def entryPlace (key : String) (index : ℕ) : String := key ++ "[" ++ toString index ++ "]"

/-! ### Envelope -/

/-- The schema of a document is the expected one. -/
def expectSchema (doc : Entries) (expectedSchema : String) : Except Py.Exc Unit :=
  let unexpected := corrupt ("unexpected persisted schema " ++ py.reprValue (get doc "schema") ++
    ", expected " ++ py.repr expectedSchema)
  match get doc "schema" with
  | .str schema => if schema = PyStr.of expectedSchema then .ok () else unexpected
  | _ => unexpected

/-- The version of a document is the current one. -/
def expectVersion (doc : Entries) : Except Py.Exc Unit :=
  match get doc "schema_version" with
  | .int version =>
      if version = currentSchemaVersion then .ok ()
      else unsupported ("unsupported persisted schema version " ++ toString version ++
        " (supported: " ++ toString currentSchemaVersion ++ ")")
  | _ => corrupt "persisted payload has no integer schema_version"

def payloadOf (document : PyJson) (expectedSchema : String) : Except Py.Exc Entries := do
  let doc ← expectDict document "persisted payload"
  expectSchema py doc expectedSchema
  expectVersion doc
  expectDict (get doc "payload") "payload"

/-- The document that a text holds. -/
def loadDocument (text : String) : Except Py.Exc PyJson :=
  match py.loads text with
  | .ok document => .ok document
  | .error .valueError => corrupt "persisted payload is not valid JSON"
  | .error .recursion => .error recursionError

/-- The payload of a column, `none` when nothing was persisted. -/
def decodeEnvelope (raw : SqlValue) (expectedSchema : String) : Except Py.Exc (Option Entries) :=
  match raw with
  | .null => .ok none
  | .blob content =>
      match Py.decode content with
      | some text => do
          let document ← loadDocument py text
          (payloadOf py document expectedSchema).map some
      | none => corrupt "persisted payload is not UTF-8 JSON (legacy or corrupted)"
  | _ => corrupt "persisted payload must be bytes"

/-! ### Evidence manifest: entries -/

/-- The fields of an execution; those that stand before the constructor come first. -/
def executionFields : List Field :=
  [⟨"compilation_diagnostics", .optional .strMap, .null, false⟩,
    ⟨"workload_id", .optional (.str false), .null, false⟩,
    ⟨"timeout_duration", .optional .int, .null, false⟩,
    ⟨"exit_code", .optional .int, .null, false⟩,
    ⟨"execution_id", .identifier "ExecutionId", .null, false⟩,
    ⟨"run_id", .identifier "RunId", .null, false⟩,
    ⟨"runtime_id", .str false, .null, false⟩,
    ⟨"command", .str true, .null, false⟩,
    ⟨"working_directory", .str true, .null, false⟩,
    ⟨"environment_variables", .dict, .null, false⟩,
    ⟨"start_time", .str true, .null, false⟩,
    ⟨"end_time", .str true, .null, false⟩,
    ⟨"stdout_hash", .hash, .null, false⟩,
    ⟨"stderr_hash", .hash, .null, false⟩,
    ⟨"generated_files", .hashMap, .obj [], false⟩,
    ⟨"source_tree_hash_before", .hash, .null, false⟩,
    ⟨"source_tree_hash_after", .hash, .null, false⟩,
    ⟨"termination_status", .str false, .null, false⟩,
    ⟨"timeout_applied", .bool, .null, false⟩,
    ⟨"image_digest", .optional (.str false), .null, true⟩,
    ⟨"execution_phase", .str false, .str (PyStr.of "EXECUTE"), false⟩]

def decodeExecution (raw : PyJson) (index : ℕ) : Except Py.Exc Attributes := do
  let place := entryPlace "execution_evidence" index
  let item ← expectDict raw place
  decodeFields py executionFields item place

/-- The fields of the identity of an artifact. -/
def artifactIdentityFields : List Field :=
  [⟨"record_count", .optional .int, .null, false⟩,
    ⟨"artifact_id", .str false, .null, false⟩,
    ⟨"artifact_type", .str false, .null, false⟩,
    ⟨"logical_name", .str true, .null, false⟩,
    ⟨"producer_role", .str false, .null, false⟩,
    ⟨"content_hash", .hash, .null, false⟩,
    ⟨"size_bytes", .int, .null, false⟩]

/-- The field of an artifact that is checked before its identity. -/
def artifactCountFields : List Field := [⟨"record_count", .optional .int, .null, false⟩]

/-- The fields of an artifact that are checked behind its identity. -/
def artifactFields : List Field :=
  [⟨"execution_id", .identifier "ExecutionId", .null, false⟩,
    ⟨"capture_time", .str true, .null, false⟩,
    ⟨"content_hash", .hash, .null, false⟩,
    ⟨"size_bytes", .int, .null, false⟩]

/-- The names as strings of the payload. -/
def namesOf (names : List String) : List PyStr := names.map PyStr.of

/-- The constructor of an artifact identity. -/
def artifactIdentity (attrs : Attributes) : Except Py.Exc Attributes :=
  if textAttribute attrs "artifact_type" ∉ namesOf validArtifactTypes then
    refused ("artifact_type must be one of " ++ py.setStr validArtifactTypes ++ ", got " ++
      py.shown (textAttribute attrs "artifact_type"))
  else if textAttribute attrs "producer_role" ∉ namesOf producerRoles then
    refused ("producer_role must be ORACLE or CANDIDATE, got " ++
      py.shown (textAttribute attrs "producer_role"))
  else .ok attrs

/-- A decoded artifact. -/
structure Artifact where
  identity : Attributes
  evidence : Attributes

def decodeArtifact (raw : PyJson) (index : ℕ) : Except Py.Exc Artifact := do
  let place := entryPlace "artifact_evidence" index
  let item ← expectDict raw place
  let count ← decodeFields py artifactCountFields item place
  let identityRaw ← expectDict (get item "artifact") (place ++ ".artifact")
  let attrs ← decodeFields py artifactIdentityFields identityRaw (place ++ ".artifact")
  let identity ← artifactIdentity py attrs
  let rest ← decodeFields py artifactFields item place
  return ⟨identity, count ++ rest⟩

def comparisonFields : List Field :=
  [⟨"field_level_results", .dictList, .null, false⟩,
    ⟨"workload_id", .optional (.str false), .null, false⟩,
    ⟨"comparison_id", .str false, .null, false⟩,
    ⟨"run_id", .identifier "RunId", .null, false⟩,
    ⟨"comparator_id", .str false, .null, false⟩,
    ⟨"comparator_version", .str true, .null, false⟩,
    ⟨"oracle_artifact_id", .str false, .null, false⟩,
    ⟨"candidate_artifact_id", .str false, .null, false⟩,
    ⟨"artifact_type", .str false, .null, false⟩,
    ⟨"result", .str false, .null, false⟩,
    ⟨"normalization_applied", .strList, .null, false⟩,
    ⟨"differences", .strList, .null, false⟩,
    ⟨"content_hash", .hash, .null, false⟩,
    ⟨"ordering_applied", .str false, .str (PyStr.of "SEQUENTIAL"), false⟩,
    ⟨"failure_policy", .str true, .str [], false⟩]

def decodeComparison (raw : PyJson) (index : ℕ) : Except Py.Exc Attributes := do
  let place := entryPlace "comparison_evidence" index
  let item ← expectDict raw place
  decodeFields py comparisonFields item place

/-- The fields of an environment; the limits are checked before the constructor. -/
def environmentFields : List Field :=
  [⟨"resource_limits", .strMap, .obj [], false⟩,
    ⟨"runtime_id", .str false, .null, false⟩,
    ⟨"java_version", .optional (.str false), .null, true⟩,
    ⟨"cobol_compiler", .optional (.str false), .null, true⟩,
    ⟨"os_base", .optional (.str false), .null, true⟩,
    ⟨"network_policy", .str false, .str (PyStr.of "none"), false⟩]

def decodeEnvironment (raw : PyJson) (index : ℕ) : Except Py.Exc Attributes := do
  let place := entryPlace "environment_identities" index
  let env ← expectDict raw place
  decodeFields py environmentFields env place

/-- The fields of the derivation of a verdict. -/
def verdictEvidenceFields : List Field :=
  [⟨"run_id", .identifier "RunId", .null, false⟩,
    ⟨"workload_id", .identifier "WorkloadId", .null, false⟩,
    ⟨"verdict_state", .str false, .null, false⟩,
    ⟨"executed_check_count", .int, .null, false⟩,
    ⟨"skipped_count", .int, .null, false⟩,
    ⟨"unavailable_count", .int, .null, false⟩,
    ⟨"supported_scope_statement", .str true, .null, false⟩,
    ⟨"evidence_manifest_hash", .parsedHash, .null, false⟩,
    ⟨"derivation_timestamp", .str false, .null, false⟩]

def decodeVerdictEvidence (raw : PyJson) : Except Py.Exc (Option Attributes) :=
  match raw with
  | .null => .ok none
  | raw => do
      let item ← expectDict raw "verdict_evidence"
      let attrs ← decodeFields py verdictEvidenceFields item "verdict_evidence"
      return some attrs

/-! ### Evidence manifest: identities -/

/-- The fields of the controlled inputs. -/
def inputFields : List Field :=
  [⟨"stdin_hash", .optional .parsedHash, .null, false⟩,
    ⟨"input_id", .str false, .null, false⟩,
    ⟨"input_files", .hashMap, .obj [], false⟩]

def sourceFields : List Field :=
  [⟨"source_id", .str false, .null, false⟩,
    ⟨"source_hash", .hash, .null, false⟩,
    ⟨"file_count", .int, .null, false⟩,
    ⟨"total_size_bytes", .int, .null, false⟩]

def candidateFields : List Field :=
  [⟨"candidate_id", .str false, .null, false⟩,
    ⟨"candidate_hash", .hash, .null, false⟩,
    ⟨"source_hash", .hash, .null, false⟩,
    ⟨"file_count", .int, .null, false⟩,
    ⟨"total_size_bytes", .int, .null, false⟩]

def oracleFields : List Field :=
  [⟨"oracle_id", .str false, .null, false⟩,
    ⟨"image_digest", .str false, .null, false⟩,
    ⟨"compiler_version", .str false, .null, false⟩,
    ⟨"preprocessor_version", .optional (.str false), .null, true⟩,
    ⟨"base_image", .optional (.str false), .null, true⟩]

/-- The fields of the manifest itself that its constructor reads first. -/
def manifestFields : List Field :=
  [⟨"manifest_version", .str false, .null, true⟩,
    ⟨"run_id", .identifier "RunId", .null, true⟩,
    ⟨"workload_id", .identifier "WorkloadId", .null, true⟩]

/-- The field that the constructor of the manifest reads last. -/
def createdFields : List Field := [⟨"created_at", .str false, .null, true⟩]

/-- A constructor that refuses an empty attribute. -/
def constructed (name : String) (attrs : Attributes) : Except Py.Exc Attributes :=
  if (textAttribute attrs name).isEmpty then refused (name ++ " cannot be empty") else .ok attrs

/-- The constructor of an oracle identity. -/
def oracleIdentity (attrs : Attributes) : Except Py.Exc Attributes := do
  let attrs ← constructed "oracle_id" attrs
  if sha256Mark.isPrefixOf (textAttribute attrs "image_digest") = false then
    refused "image_digest must be sha256-pinned (never mutable tag)"
  else constructed "compiler_version" attrs

/-- The candidate, when there is one. -/
def decodeCandidate : Option Entries → Except Py.Exc (Option Attributes)
  | none => .ok none
  | some raw => do
      let attrs ← decodeFields py candidateFields raw "candidate_identity"
      let candidate ← constructed "candidate_id" attrs
      return some candidate

/-! ### Evidence manifest: the graph and its seal -/

/-- The evidence of a manifest. -/
structure Evidence where
  manifest : Attributes
  sourceIdentity : Attributes
  candidateIdentity : Option Attributes
  oracleIdentity : Attributes
  environmentIdentities : List Attributes
  controlledInput : Attributes
  executionEvidence : List Attributes
  artifactEvidence : List Artifact
  comparisonEvidence : List Attributes
  verdictEvidence : Option Attributes
  created : Attributes

def pick (names : List String) (attrs : Attributes) : PyJson :=
  .obj (names.map fun name => (PyStr.of name, attr attrs name))

/-- The dict of an artifact in the graph: its identity without hash and counts. -/
def artifactGraph (a : Artifact) : PyJson :=
  .obj ((["artifact_id", "artifact_type", "logical_name", "producer_role"].map fun name =>
      (PyStr.of name, attr a.identity name)) ++
    ["content_hash", "size_bytes", "record_count", "execution_id", "capture_time"].map fun name =>
      (PyStr.of name, attr a.evidence name))

/-- The complete evidence, without the time of creation and the derivation of the verdict. -/
def canonicalEvidenceGraph (e : Evidence) : PyJson :=
  .obj [(PyStr.of "manifest_version", attr e.manifest "manifest_version"),
    (PyStr.of "run_id", attr e.manifest "run_id"),
    (PyStr.of "workload_id", attr e.manifest "workload_id"),
    (PyStr.of "source_identity",
      pick ["source_id", "source_hash", "file_count", "total_size_bytes"] e.sourceIdentity),
    (PyStr.of "candidate_identity",
      match e.candidateIdentity with
      | some candidate =>
          pick ["candidate_id", "candidate_hash", "source_hash", "file_count", "total_size_bytes"]
            candidate
      | none => .null),
    (PyStr.of "oracle_identity",
      pick ["oracle_id", "image_digest", "compiler_version", "preprocessor_version", "base_image"]
        e.oracleIdentity),
    (PyStr.of "environment_identities",
      .arr (e.environmentIdentities.map
        (pick ["runtime_id", "java_version", "cobol_compiler", "os_base", "network_policy",
          "resource_limits"]))),
    (PyStr.of "controlled_input", pick ["input_id", "stdin_hash", "input_files"] e.controlledInput),
    (PyStr.of "execution_evidence",
      .arr (e.executionEvidence.map
        (pick ["execution_id", "run_id", "workload_id", "runtime_id", "command",
          "working_directory", "environment_variables", "start_time", "end_time", "exit_code",
          "stdout_hash", "stderr_hash", "generated_files", "source_tree_hash_before",
          "source_tree_hash_after", "termination_status", "timeout_applied", "timeout_duration",
          "compilation_diagnostics", "image_digest", "execution_phase"]))),
    (PyStr.of "artifact_evidence", .arr (e.artifactEvidence.map artifactGraph)),
    (PyStr.of "comparison_evidence",
      .arr (e.comparisonEvidence.map
        (pick ["comparison_id", "run_id", "workload_id", "comparator_id", "comparator_version",
          "oracle_artifact_id", "candidate_artifact_id", "artifact_type", "result",
          "normalization_applied", "differences", "field_level_results", "ordering_applied",
          "failure_policy", "content_hash"])))]

/-- A manifest, sealed when it was constructed. -/
structure Manifest extends Evidence where
  sealedHash : ContentHash

/-- The constructor of a manifest hashes its graph. -/
def evidenceManifest (e : Evidence) : Except Py.Exc Manifest :=
  match py.dumps (canonicalEvidenceGraph e) with
  | some content => .ok ⟨e, ContentHash.fromBytes content⟩
  | none => .error recursionError

/-! ### Evidence manifest: decoding -/

/-- The name of the class of an exception. -/
def className : Py.Exc → String
  | .valueError _ => "ValueError"
  | .attributeError _ => "AttributeError"
  | .declared name _ => name

def textOf : Py.Exc → String
  | .valueError text => text
  | .attributeError text => text
  | .declared _ text => text

/-- The guard around the constructors: exceptions of some classes are reported as corruption. -/
def malformed {α : Type} (caught : List String) (what : String) (x : Except Py.Exc α) :
    Except Py.Exc α :=
  match x with
  | .error e =>
      if className e ∈ caught then corrupt (what ++ " is malformed: " ++ textOf e) else .error e
  | .ok a => .ok a

/-- What is decoded before the manifest is constructed. -/
structure Decoded where
  sourceRaw : Entries
  candidateRaw : Option Entries
  oracleRaw : Entries
  controlledRaw : Entries
  environments : List Attributes
  executions : List Attributes
  artifacts : List Artifact
  comparisons : List Attributes
  controlled : Attributes
  sealText : PyStr

def decodeSeal (value : PyJson) : Except Py.Exc PyStr :=
  match value with
  | .str text =>
      if text.isEmpty then corrupt "persisted evidence manifest has no seal" else .ok text
  | _ => corrupt "persisted evidence manifest has no seal"

/-- A dict that may be `None`. -/
def optionalDict (value : PyJson) (place : String) : Except Py.Exc (Option Entries) :=
  match value with
  | .null => .ok none
  | v => (expectDict v place).map some

/-- The part of the decoder before the constructors are guarded. -/
def decodeParts (payload : Entries) : Except Py.Exc Decoded := do
  let sourceRaw ← expectDict (get payload "source_identity") "source_identity"
  let candidateRaw ← optionalDict (get payload "candidate_identity") "candidate_identity"
  let oracleRaw ← expectDict (get payload "oracle_identity") "oracle_identity"
  let controlledRaw ← expectDict (get payload "controlled_input") "controlled_input"
  let environments ← decodeEntries (decodeEnvironment py) payload "environment_identities"
  let executions ← decodeEntries (decodeExecution py) payload "execution_evidence"
  let artifacts ← decodeEntries (decodeArtifact py) payload "artifact_evidence"
  let comparisons ← decodeEntries (decodeComparison py) payload "comparison_evidence"
  let controlled ← decodeFields py inputFields controlledRaw "controlled_input"
  let sealText ← decodeSeal (get payload "sealed_hash")
  return ⟨sourceRaw, candidateRaw, oracleRaw, controlledRaw, environments, executions, artifacts,
    comparisons, controlled, sealText⟩

/-- The arguments of the manifest, in the order in which they are evaluated. -/
def decodeEvidence (payload : Entries) (d : Decoded) : Except Py.Exc Evidence := do
  let manifest ← decodeFields py manifestFields payload ""
  let source ← decodeFields py sourceFields d.sourceRaw "source_identity"
  let source ← constructed "source_id" source
  let candidate ← decodeCandidate py d.candidateRaw
  let oracle ← decodeFields py oracleFields d.oracleRaw "oracle_identity"
  let oracle ← oracleIdentity oracle
  let verdict ← decodeVerdictEvidence py (get payload "verdict_evidence")
  let created ← decodeFields py createdFields payload ""
  return ⟨manifest, source, candidate, oracle, d.environments, d.controlled, d.executions,
    d.artifacts, d.comparisons, verdict, created⟩

def decodePayload (payload : Entries) : Except Py.Exc Manifest := do
  let parts ← decodeParts py payload
  let manifest ← malformed ["ValueError", "TypeError", "KeyError", "AttributeError"]
    "persisted evidence manifest" (do
      let evidence ← decodeEvidence py payload parts
      evidenceManifest py evidence)
  if PyStr.of manifest.sealedHash.toStr ≠ parts.sealText then
    corrupt "persisted evidence seal mismatch (evidence was modified)"
  else return manifest

def decodeEvidenceManifest (raw : SqlValue) : Except Py.Exc (Option Manifest) := do
  match ← decodeEnvelope py raw schemaEvidence with
  | none => return none
  | some payload => (decodePayload py payload).map some

/-! ### Verdict -/

/-- The keys that a verdict must have. -/
def verdictKeys : List String :=
  ["state", "workload_id", "run_id", "source_hash", "candidate_hash", "oracle_id", "oracle_digest",
    "executed_check_count", "skipped_count", "unavailable_count", "supported_scope_statement",
    "evidence_manifest_hash", "derivation_timestamp", "differences"]

/-- The values of the enumeration of the states. -/
def verdictStates : List String :=
  ["VERIFIED", "PARTIAL", "FAILED", "UNPROVEN", "UNAVAILABLE", "UNSUPPORTED", "ERROR"]

/-- The field that is read before the constructor. -/
def verdictCandidateFields : List Field :=
  [⟨"candidate_hash", .optional (.str false), .null, true⟩]

/-- The fields of a verdict behind its state. -/
def verdictFields : List Field :=
  [⟨"workload_id", .identifier "WorkloadId", .null, true⟩,
    ⟨"run_id", .str false, .null, true⟩,
    ⟨"source_hash", .str false, .null, true⟩,
    ⟨"oracle_id", .str false, .null, true⟩,
    ⟨"oracle_digest", .str false, .null, true⟩,
    ⟨"executed_check_count", .int, .null, true⟩,
    ⟨"skipped_count", .int, .null, true⟩,
    ⟨"unavailable_count", .int, .null, true⟩,
    ⟨"supported_scope_statement", .str true, .null, true⟩,
    ⟨"evidence_manifest_hash", .str false, .null, true⟩,
    ⟨"derivation_timestamp", .str false, .null, true⟩,
    ⟨"differences", .strList, .null, true⟩]

def decodeState (payload : Entries) : Except Py.Exc PyJson := do
  let state ← expectStr py (get payload "state") "state" false
  if state ∈ namesOf verdictStates then return .str state
  else corrupt ("persisted verdict state " ++ py.reprValue (.str state) ++
    " is not a valid verdict state")

def decodeVerdictPayload (payload : Entries) : Except Py.Exc Attributes := do
  let missing := verdictKeys.filter fun key => (PyJson.field payload key).isNone
  if missing ≠ [] then
    corrupt ("persisted verdict is missing fields: " ++ ", ".intercalate missing)
  else
    let state ← decodeState py payload
    let candidate ← decodeFields py verdictCandidateFields payload ""
    let attrs ← malformed ["ValueError", "TypeError", "KeyError"] "persisted verdict"
      (decodeFields py verdictFields payload "")
    return ("state", state) :: (candidate ++ attrs)

def decodeVerdict (raw : SqlValue) : Except Py.Exc (Option Attributes) := do
  match ← decodeEnvelope py raw schemaVerdict with
  | none => return none
  | some payload => (decodeVerdictPayload py payload).map some

/-! ### Report and string lists -/

def decodeReport (raw : SqlValue) : Except Py.Exc (Option Entries) := do
  match ← decodeEnvelope py raw schemaReport with
  | none => return none
  | some payload =>
      match get payload "report" with
      | .obj report => return some report
      | _ => corrupt "persisted modernization report must be an object"

/-- The text of a column of strings. -/
def strListText (raw : SqlValue) : Except Py.Exc String :=
  match raw with
  | .blob content =>
      match Py.decode content with
      | some text => .ok text
      | none => corrupt "string list column is not UTF-8"
  | .text s => .ok s
  | v => corrupt ("string list column must be text, got " ++ v.typeName)

def strItems (items : List PyJson) : Except Py.Exc (List PyStr) :=
  items.mapM fun item =>
    match item with
    | .str s => .ok s
    | _ => corrupt "string list column entries must be strings"

def parseStrList (text : String) : Except Py.Exc (List PyStr) :=
  if Py.strip text = "" then corrupt "string list column is empty"
  else
    match py.loads text with
    | .ok (.arr items) => strItems items
    | .ok _ => corrupt "string list column must contain a JSON array"
    | .error .valueError => corrupt "string list column is not valid JSON"
    | .error .recursion => .error recursionError

def decodeStrList (raw : SqlValue) : Except Py.Exc (List PyStr) :=
  match raw with
  | .null => .ok []
  | raw => do
      let text ← strListText raw
      parseStrList py text

attribute [grind =] Check.apply

end PersistedPayloads

end CobolJava
