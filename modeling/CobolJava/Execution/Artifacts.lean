/-
**Artifact capture.**

`engine/execution/artifacts.py`: the content of an observed output with its identity.  A declared
artifact that was not produced is captured as a sentinel without content.  The clock is read as
`now` throughout a run.

Main definitions:

* `Side` — the execution an artifact is captured from;
* `CapturedArtifact`, `CapturedArtifact.toEvidence` — a captured artifact, and its evidence;
* `captureStdout` … `captureMissing` — the captures.
-/

import CobolJava.Evidence.Models
import CobolJava.Lib.PyExc

set_option autoImplicit false

namespace CobolJava

open Py (Bytes Exc)

/-- The two executions of a run. -/
inductive Side where
  | oracle
  | candidate
deriving DecidableEq

/-- The role of what an execution produced. -/
def Side.role : Side → String
  | .oracle => "ORACLE"
  | .candidate => "CANDIDATE"

theorem Side.role_mem (side : Side) : side.role ∈ producerRoles := by
  cases side <;> decide

/-- A captured artifact with its content, unless it is missing. -/
structure CapturedArtifact where
  artifact : ArtifactIdentity
  content : Option Bytes
  contentHash : ContentHash
  sizeBytes : ℤ
  executionId : ExecutionId
  captureTime : String

/-- The evidence of a captured artifact. -/
def CapturedArtifact.toEvidence (c : CapturedArtifact) : ArtifactEvidence where
  artifact := c.artifact
  executionId := c.executionId
  captureTime := c.captureTime
  contentHash := c.contentHash
  sizeBytes := c.sizeBytes
  recordCount := none

section Capture

variable (now : String) (executionId : ExecutionId)

/-- The capture of a content under an id made of `idPrefix` and the execution. -/
def capture (idPrefix artifactType logicalName : String) (content : Bytes) (side : Side)
    (recordCount : Option ℤ) (htype : artifactType ∈ validArtifactTypes := by decide) :
    CapturedArtifact where
  artifact :=
    { artifactId := s!"{idPrefix}-{executionId.value}"
      artifactType := artifactType
      logicalName := logicalName
      producerRole := side.role
      contentHash := ContentHash.fromBytes content
      sizeBytes := content.length
      recordCount := recordCount
      artifactType_mem := htype
      producerRole_mem := side.role_mem }
  content := some content
  contentHash := ContentHash.fromBytes content
  sizeBytes := content.length
  executionId := executionId
  captureTime := now

def captureStdout (content : Bytes) (logicalName : String) (side : Side) : CapturedArtifact :=
  capture now executionId "stdout" "STDOUT" logicalName content side none
    stdout_mem_validArtifactTypes

def captureStderr (content : Bytes) (logicalName : String) (side : Side) : CapturedArtifact :=
  capture now executionId "stderr" "STDERR" logicalName content side none

def captureExitStatus (exitCode : ℤ) (side : Side) : CapturedArtifact :=
  capture now executionId "exit" "EXIT_STATUS" "exit_status" (Py.encode (toString exitCode)) side
    none

def captureTextFileFromBytes (content : Bytes) (logicalName : String) (side : Side) :
    CapturedArtifact :=
  capture now executionId s!"text-{logicalName}" "TEXT_FILE" logicalName content side none

/-- Fixed records are refused when the record length does not divide the content. -/
def captureFixedRecord (content : Bytes) (logicalName : String) (side : Side)
    (recordLength : Option ℤ) : Except Exc CapturedArtifact :=
  let captured (recordCount : Option ℤ) :=
    capture now executionId s!"fixed-{logicalName}" "FIXED_RECORD" logicalName content side
      recordCount
  match recordLength with
  | some length =>
      if 0 < length then
        if (content.length : ℤ) % length ≠ 0 then
          .error (.valueError (s!"Content length {content.length} not divisible by " ++
            s!"record_length {length}"))
        else .ok (captured (some ((content.length : ℤ) / length)))
      else .ok (captured none)
  | none => .ok (captured none)

/-- The sentinel of a declared artifact that was not produced. -/
def captureMissing (artifactType logicalName : String) (side : Side)
    (htype : artifactType ∈ validArtifactTypes) : CapturedArtifact :=
  { capture now executionId s!"missing-{logicalName}" artifactType logicalName [] side
      (if artifactType = "FIXED_RECORD" then some 0 else none) htype with
    content := none }

end Capture

end CobolJava
