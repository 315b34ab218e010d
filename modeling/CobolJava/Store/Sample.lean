/-
**A small store.**

One run without evidence, one application without programs, and the stores that hold them, on which
the results about the store are exercised.
-/

import CobolJava.Evidence.Sample
import CobolJava.Store.Calls
import CobolJava.Store.Serialization

set_option autoImplicit false

namespace CobolJava.Sample

def codec : Codec := Serialization.codec plain

def run : RunRecord where
  id := "run-1"
  applicationId := "app-1"
  workloadId := "payroll"
  stage := .CREATED
  createdAt := "t0"
  completedAt := none
  error := none
  evidenceManifest := none
  verdict := none
  modernizationReport := none
  validationGeneration := 0
  certificationContract := none
  approvalState := "PENDING"
  approvalApprover := none
  approvalReason := none
  approvalDecidedAt := none
  generatedSeal := none
  lastStage := some "CREATED"
  sourcePath := none
  generatedAppPath := none
  generatedEntrypoint := none
  discoverySnapshot := none

/-- The store once the run is added. -/
def added : Connection Database :=
  ((Store.Call.addRun run).run codec plain (.settled .empty)).2

/-- The row of an application that was just created. -/
def application : ApplicationRow where
  id := "app-1"
  name := "Payroll"
  description := ""
  workloadId := "payroll"
  javaEntrypoint := "Main"
  targetRuntime := "spring_boot"
  cobolSourcePath := none
  javaCandidatePath := none
  discoveredProgramIds := Json.dumps (.arr [])
  generatedAppPath := none
  generatedEntrypoint := none
  generatedProgramIds := Json.dumps (.arr [])
  createdAt := "t0"
  version := 0

/-- The store that holds the application. -/
def stored : Connection Database :=
  .settled { Database.empty with applications := ⟨[application], List.nodup_singleton _⟩ }

end CobolJava.Sample
