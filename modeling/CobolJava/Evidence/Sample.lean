/-
**Small manifests.**

Builders for the manifests on which the results about evidence are exercised: one execution of each
side, and any artifacts and comparisons over them.  Whatever they are, the seal is intact, so such a
manifest is accepted as soon as the other passes find nothing.
-/

import Mathlib
import CobolJava.Evidence.Admission

set_option autoImplicit false

namespace CobolJava.Sample

/-- A rendering that leaves strings as they are. -/
def plain : Py.Rendering := ⟨fun s => "'" ++ s ++ "'", fun xs => ", ".intercalate xs⟩

/-- The hash whose digits are all `c`. -/
def hashOf (c : Char) : ContentHash := ⟨String.ofList (List.replicate 64 c), by simp⟩

/-- A run of the program on one side. -/
def execution (executionId : ExecutionId) (runtimeId : String) : ExecutionEvidence where
  executionId := executionId
  runId := ⟨"run-1", by decide⟩
  runtimeId := runtimeId
  command := "run"
  workingDirectory := "/workspace"
  environmentVariables := .empty
  startTime := "t0"
  endTime := "t1"
  exitCode := some 0
  stdoutHash := hashOf '0'
  stderrHash := hashOf '0'
  generatedFiles := .empty
  sourceTreeHashBefore := hashOf 'a'
  sourceTreeHashAfter := hashOf 'a'
  terminationStatus := "normal"
  timeoutApplied := false
  timeoutDuration := none
  compilationDiagnostics := none
  workloadId := none
  imageDigest := none
  executionPhase := "EXECUTE"

def oracleRun : ExecutionEvidence := execution ⟨"exec-o", by decide⟩ "oracle-gnucobol"

/-- The execution of the candidate. -/
def candidateRun : ExecutionEvidence := execution ⟨"exec-c", by decide⟩ "candidate-java"

/-- The standard output captured from an execution under a role. -/
def stdout (artifactId role : String) (executionId : ExecutionId) (hash : ContentHash)
    (hrole : role ∈ producerRoles := by
      first | exact oracle_mem_producerRoles | exact candidate_mem_producerRoles) :
    ArtifactEvidence where
  artifact :=
    { artifactId := artifactId
      artifactType := "STDOUT"
      logicalName := "stdout"
      producerRole := role
      contentHash := hash
      sizeBytes := 5
      recordCount := none
      artifactType_mem := stdout_mem_validArtifactTypes
      producerRole_mem := hrole }
  executionId := executionId
  captureTime := "t1"
  contentHash := hash
  sizeBytes := 5
  recordCount := none

/-- A comparison of two standard outputs that ended in `result`. -/
def comparison (oracleArtifactId candidateArtifactId result : String) : ComparisonEvidence where
  comparisonId := "comp-1"
  runId := ⟨"run-1", by decide⟩
  comparatorId := "STDOUT_COMPARATOR"
  comparatorVersion := "1.0.0"
  oracleArtifactId := oracleArtifactId
  candidateArtifactId := candidateArtifactId
  artifactType := "STDOUT"
  result := result
  normalizationApplied := []
  differences := []
  fieldLevelResults := []
  contentHash := hashOf 'd'
  orderingApplied := "SEQUENTIAL"
  failurePolicy := ""
  workloadId := none

/-- A manifest of the two executions, with the given artifacts and comparisons. -/
def manifest (artifacts : List ArtifactEvidence) (comparisons : List ComparisonEvidence) :
    EvidenceManifest :=
  EvidenceManifest.postInit
    { manifestVersion := "1.0"
      runId := ⟨"run-1", by decide⟩
      workloadId := ⟨"payroll", by decide⟩
      sourceIdentity := ⟨"cobol-payroll", hashOf 'a', 1, 100, by decide⟩
      candidateIdentity := some ⟨"java-payroll", hashOf 'b', hashOf 'a', 1, 200, by decide⟩
      oracleIdentity := some ⟨"gnucobol-3.1.2", "sha256:abc", "3.1.2.0", none, none, by decide,
        by decide, by decide⟩
      environmentIdentities := []
      controlledInput := ⟨"input-1", none, .empty⟩
      executionEvidence := [oracleRun, candidateRun]
      artifactEvidence := artifacts
      comparisonEvidence := comparisons
      verdictEvidence := none
      createdAt := "t2"
      sealedHash := none }

theorem manifest_sealed (artifacts : List ArtifactEvidence)
    (comparisons : List ComparisonEvidence) :
    (manifest artifacts comparisons).sealedHash =
      some (manifest artifacts comparisons).manifestHash := rfl

/-- The validated form of a manifest. -/
def validated (m : EvidenceManifest) (now : String) : ValidatedEvidenceManifest where
  manifest := m
  integrityHash := m.manifestHash
  validatedAt := now
  validationSummary := "All binding and integrity checks passed"

theorem validate_manifest {artifacts : List ArtifactEvidence}
    {comparisons : List ComparisonEvidence} (now : String)
    (h : bindingViolations plain (manifest artifacts comparisons) = [] ∧
      validateRequiredEvidence plain (manifest artifacts comparisons) = []) :
    validate plain (manifest artifacts comparisons) now =
      .ok (validated (manifest artifacts comparisons) now) := by
  have hv : ¬ violations plain (manifest artifacts comparisons) ≠ [] :=
    not_not.2 (violations_eq_nil.2 ⟨bound_iff.1 h, manifest_sealed artifacts comparisons⟩)
  rw [validate, if_neg hv]
  rfl

/-- Both sides printed the same, and the comparison says so. -/
def matching : EvidenceManifest :=
  manifest [stdout "stdout-o" "ORACLE" oracleRun.executionId (hashOf '1'),
      stdout "stdout-c" "CANDIDATE" candidateRun.executionId (hashOf '1')]
    [comparison "stdout-o" "stdout-c" "MATCH"]

theorem validate_matching (now : String) :
    validate plain matching now = .ok (validated matching now) :=
  validate_manifest now (by decide)

end CobolJava.Sample
