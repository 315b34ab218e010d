/-
**Workload declarations.**

`engine/workload.py`: the artifacts a workload declares for capture and comparison.  A declaration
the constructors refuse cannot be built.  The inputs of a workload and its business invariants are
left out: no input is read when outputs are compared, and the comparisons here are those of a
workload without invariants.

Main definitions:

* `WorkloadArtifact`, `WorkloadDefinition` — the declarations;
* `WorkloadArtifact.policy` — the policies an artifact is compared under.
-/

import CobolJava.Comparators.Framework

set_option autoImplicit false

namespace CobolJava

/-- The types a declared artifact may have. -/
def workloadArtifactTypes : List String :=
  ["STDOUT", "STDERR", "EXIT_STATUS", "TEXT_FILE", "FIXED_RECORD"]

/-- The types of an artifact that is a file. -/
def fileArtifactTypes : List String := ["TEXT_FILE", "FIXED_RECORD"]

/-- A declared artifact to capture and compare. -/
structure WorkloadArtifact where
  logicalName : String
  artifactType : String
  comparatorId : String
  outputPath : Option String
  normalization : Option NormalizationPolicy
  ordering : Option OrderingPolicy
  failure : Option FailurePolicy
  recordLength : Option ℤ
  artifactType_mem : artifactType ∈ workloadArtifactTypes := by decide
  outputPath_ne : artifactType ∈ fileArtifactTypes → outputPath ≠ none := by
    simp [fileArtifactTypes]
  recordLength_pos : artifactType = "FIXED_RECORD" → ∀ n, recordLength = some n → 0 < n := by simp

theorem WorkloadArtifact.artifactType_valid (a : WorkloadArtifact) :
    a.artifactType ∈ validArtifactTypes := by
  have h : ∀ t ∈ workloadArtifactTypes, t ∈ validArtifactTypes := by decide
  exact h _ a.artifactType_mem

/-- The policies a declared artifact is compared under. -/
def WorkloadArtifact.policy (a : WorkloadArtifact) : ComparisonPolicy where
  normalizations := match a.normalization with
    | some p => p.allowedNormalizations
    | none => []
  ordering := match a.ordering with
    | some p => p.order
    | none => "SEQUENTIAL"
  failure := a.failure

/-- A declared workload. -/
structure WorkloadDefinition where
  workloadId : String
  description : String
  artifacts : List WorkloadArtifact
  artifacts_ne : artifacts ≠ []
  logicalNames_nodup : (artifacts.map WorkloadArtifact.logicalName).Nodup

end CobolJava
