/-
**Core identities.**

The value objects of `engine/domain/identities.py`.  A constructor that refuses a value in the
source is a field here, so that a value of the type has passed the check: a digest has 64
characters, an identifier is not empty, an artifact is of a registered type or of a marker type and
has one of the two roles.  The algorithm of a `ContentHash` can only be `sha256`, so it is not held.
-/

import CobolJava.Lib.PyText
import CobolJava.Lib.PyBytes
import CobolJava.Lib.PyDict
import CobolJava.Lib.Sha256

set_option autoImplicit false

namespace CobolJava

/-! ### Content hashes -/

/-- A SHA-256 content hash. -/
structure ContentHash where
  /-- The hexadecimal digest. -/
  digest : String
  /-- A digest of another length is refused. -/
  digest_length : digest.length = 64
deriving DecidableEq

def ContentHash.fromBytes (data : Py.Bytes) : ContentHash :=
  ⟨Sha256.hexdigest data, Sha256.hexdigest_length data⟩

/-- The hash of the UTF-8 bytes of a string. -/
def ContentHash.fromString (text : String) : ContentHash := ContentHash.fromBytes (Py.encode text)

/-- The spelling `sha256:<digest>`. -/
def ContentHash.toStr (h : ContentHash) : String := "sha256:" ++ h.digest

theorem ContentHash.toStr_injective : Function.Injective ContentHash.toStr := by
  rintro ⟨d, hd⟩ ⟨d', hd'⟩ h
  obtain rfl : d = d' := by simpa [ContentHash.toStr] using h
  rfl

/-! ### Identities -/

/-- Unique identifier of a workload. -/
structure WorkloadId where
  value : String
  value_ne : value ≠ "" := by decide
deriving DecidableEq

/-- Unique identifier of a validation run. -/
structure RunId where
  value : String
  value_ne : value ≠ "" := by decide
deriving DecidableEq

/-- Unique identifier of an execution. -/
structure ExecutionId where
  value : String
  value_ne : value ≠ "" := by decide
deriving DecidableEq

theorem WorkloadId.value_injective : Function.Injective WorkloadId.value := by
  rintro ⟨v, _⟩ ⟨v', _⟩ h
  cases h
  rfl

theorem RunId.value_injective : Function.Injective RunId.value := by
  rintro ⟨v, _⟩ ⟨v', _⟩ h
  cases h
  rfl

theorem ExecutionId.value_injective : Function.Injective ExecutionId.value := by
  rintro ⟨v, _⟩ ⟨v', _⟩ h
  cases h
  rfl

/-- Identity of the COBOL source tree. -/
structure SourceIdentity where
  sourceId : String
  sourceHash : ContentHash
  fileCount : ℤ
  totalSizeBytes : ℤ
  sourceId_ne : sourceId ≠ "" := by decide
deriving DecidableEq

/-- Identity of a Java candidate package. -/
structure CandidateIdentity where
  candidateId : String
  candidateHash : ContentHash
  /-- The binding to the COBOL source. -/
  sourceHash : ContentHash
  fileCount : ℤ
  totalSizeBytes : ℤ
  candidateId_ne : candidateId ≠ "" := by decide
deriving DecidableEq

/-- Identity of the COBOL oracle, pinned by digest. -/
structure OracleIdentity where
  oracleId : String
  imageDigest : String
  compilerVersion : String
  preprocessorVersion : Option String
  baseImage : Option String
  oracleId_ne : oracleId ≠ "" := by decide
  imageDigest_pinned : Py.startswith imageDigest "sha256:" = true := by decide
  compilerVersion_ne : compilerVersion ≠ "" := by decide
deriving DecidableEq

/-- Identity of an execution environment. -/
structure EnvironmentIdentity where
  runtimeId : String
  javaVersion : Option String
  cobolCompiler : Option String
  osBase : Option String
  networkPolicy : String
  resourceLimits : PyDict String
deriving DecidableEq

/-- Identity of the controlled inputs of an execution. -/
structure InputIdentity where
  inputId : String
  stdinHash : Option ContentHash
  inputFiles : PyDict ContentHash
deriving DecidableEq

/-! ### Artifacts -/

/-- Effects no comparator observes; an artifact of such a type is a marker without content. -/
def unobservedEffectTypes : List String :=
  ["DATABASE_STATE", "TRANSACTION_EFFECTS", "MESSAGE_QUEUE_EFFECTS"]

/-- The types an artifact may have. -/
def validArtifactTypes : List String :=
  ["STDOUT", "STDERR", "EXIT_STATUS", "TEXT_FILE", "FIXED_RECORD", "BUSINESS_INVARIANT"] ++
    unobservedEffectTypes

/-- The roles an artifact may have. -/
def producerRoles : List String := ["ORACLE", "CANDIDATE"]

theorem stdout_mem_validArtifactTypes : "STDOUT" ∈ validArtifactTypes := by decide

theorem textFile_mem_validArtifactTypes : "TEXT_FILE" ∈ validArtifactTypes := by decide

theorem oracle_mem_producerRoles : "ORACLE" ∈ producerRoles := by decide

theorem candidate_mem_producerRoles : "CANDIDATE" ∈ producerRoles := by decide

/-- Identity of a captured artifact. -/
structure ArtifactIdentity where
  artifactId : String
  artifactType : String
  logicalName : String
  producerRole : String
  contentHash : ContentHash
  sizeBytes : ℤ
  recordCount : Option ℤ
  artifactType_mem : artifactType ∈ validArtifactTypes := by decide
  producerRole_mem : producerRole ∈ producerRoles := by decide
deriving DecidableEq

/-! ### Verdict states -/

/-- The seven verdict states. -/
inductive VerdictState where
  | VERIFIED
  | PARTIAL
  | FAILED
  | UNPROVEN
  | UNAVAILABLE
  | UNSUPPORTED
  | ERROR
deriving DecidableEq

def VerdictState.value : VerdictState → String
  | VERIFIED => "VERIFIED"
  | PARTIAL => "PARTIAL"
  | FAILED => "FAILED"
  | UNPROVEN => "UNPROVEN"
  | UNAVAILABLE => "UNAVAILABLE"
  | UNSUPPORTED => "UNSUPPORTED"
  | ERROR => "ERROR"

end CobolJava
