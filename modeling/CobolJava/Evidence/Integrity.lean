/-
**Evidence integrity and binding validation.**

`engine/evidence/integrity.py`: the trust boundary an evidence manifest passes before a verdict is
derived from it.  Each pass returns the violations it finds; `validate` accepts a manifest when no
pass finds any.

Main definitions:

* `ViolationType`, `IntegrityViolation` — what a pass reports;
* `EvidenceManifest.resolve` — the artifact record an artifact id stands for;
* `validateRunBindings` … `validateRequiredEvidence` — the passes;
* `passes`, `validate` — the passes in order, and the validator.
-/

import CobolJava.Evidence.Models
import CobolJava.Comparators.Binding

set_option autoImplicit false

namespace CobolJava

open Py (collect)

/-! ### Violations -/

/-- The kinds of violation. -/
inductive ViolationType where
  | RUN_BINDING_MISMATCH
  | WORKLOAD_BINDING_MISMATCH
  | SOURCE_CANDIDATE_MISMATCH
  | ORACLE_IDENTITY_MISMATCH
  | IMAGE_IDENTITY_MISMATCH
  | ARTIFACT_EXECUTION_MISMATCH
  | COMPARISON_ARTIFACT_MISMATCH
  | COMPARATOR_BINDING_MISMATCH
  | CONTENT_HASH_MISMATCH
  | MANIFEST_HASH_MISMATCH
  | SOURCE_MUTATION
  | UNKNOWN_COMPARISON_RESULT
  | MISSING_REQUIRED_EVIDENCE
  | MISSING_EXIT_STATUS
  | CROSS_RUN_REPLAY
  | CROSS_WORKLOAD_REPLAY
  | ORPHAN_ARTIFACT
  | ORPHAN_COMPARISON
  | MALFORMED_EVIDENCE
deriving DecidableEq

/-- The results a comparison may have. -/
def knownComparisonResults : List String := ["MATCH", "MISMATCH", "INCONCLUSIVE"]

/-- A single violation. -/
structure IntegrityViolation where
  violationType : ViolationType
  description : String
  fieldPath : String
  expected : String
  actual : String
deriving DecidableEq

/-- A manifest that has passed the validator. -/
structure ValidatedEvidenceManifest where
  manifest : EvidenceManifest
  integrityHash : ContentHash
  validatedAt : String
  validationSummary : String

/-- The artifact record an id stands for: the last one that carries it. -/
def EvidenceManifest.resolve (m : EvidenceManifest) (artifactId : String) :
    Option ArtifactEvidence :=
  Py.lastBy (fun a => a.artifact.artifactId) m.artifactEvidence artifactId

/-! ### The passes -/

section Passes

variable (py : Py.Rendering) (m : EvidenceManifest)

/-- The ids of the executions of the declared run. -/
def validExecIds : List String :=
  (m.executionEvidence.filter fun e => e.runId.value = m.runId.value).map
    fun e => e.executionId.value

/-- All nested evidence is bound to the run of the manifest. -/
def validateRunBindings : List IntegrityViolation :=
  let expectedRun := m.runId.value
  collect m.executionEvidence (fun i e =>
    if e.runId.value ≠ expectedRun then
      [{ violationType := .CROSS_RUN_REPLAY
         description := s!"Execution evidence [{i}] has run_id '{e.runId.value}' " ++
           s!"but manifest declares '{expectedRun}'"
         fieldPath := s!"execution_evidence[{i}].run_id"
         expected := expectedRun
         actual := e.runId.value }]
    else []) ++
  collect m.artifactEvidence (fun i a =>
    if a.executionId.value ∉ validExecIds m then
      [{ violationType := .CROSS_RUN_REPLAY
         description := s!"Artifact evidence [{i}] has execution_id " ++
           s!"'{a.executionId.value}' not found in " ++
           s!"manifest execution evidence for run '{expectedRun}'"
         fieldPath := s!"artifact_evidence[{i}].execution_id"
         expected := s!"one of {py.setStr (validExecIds m)}"
         actual := a.executionId.value }]
    else []) ++
  collect m.comparisonEvidence (fun i c =>
    if c.runId.value ≠ expectedRun then
      [{ violationType := .CROSS_RUN_REPLAY
         description := s!"Comparison evidence [{i}] has run_id " ++
           s!"'{c.runId.value}' but manifest declares '{expectedRun}'"
         fieldPath := s!"comparison_evidence[{i}].run_id"
         expected := expectedRun
         actual := c.runId.value }]
    else [])

/-- The violation of a record of `field` bound to the workload `w`, if it is another one. -/
def workloadViolation (kind field : String) (i : ℕ) : Option WorkloadId → List IntegrityViolation
  | none => []
  | some w =>
      if w.value ≠ m.workloadId.value then
        [{ violationType := .WORKLOAD_BINDING_MISMATCH
           description := s!"{kind} evidence [{i}] is bound to workload " ++
             s!"'{w.value}' but manifest declares " ++ s!"'{m.workloadId.value}'"
           fieldPath := s!"{field}[{i}].workload_id"
           expected := m.workloadId.value
           actual := w.value }]
      else []

/-- Evidence that names a workload names the one of the manifest. -/
def validateWorkloadBindings : List IntegrityViolation :=
  collect m.executionEvidence (fun i e =>
    workloadViolation m "Execution" "execution_evidence" i e.workloadId) ++
  collect m.comparisonEvidence (fun i c =>
    workloadViolation m "Comparison" "comparison_evidence" i c.workloadId)

/-- The source hash of the candidate is the one of the manifest. -/
def validateSourceCandidateBinding : List IntegrityViolation :=
  match m.candidateIdentity with
  | none => []
  | some candidate =>
      let manifestSourceHash := m.sourceIdentity.sourceHash.toStr
      let candidateSourceHash := candidate.sourceHash.toStr
      if candidateSourceHash ≠ manifestSourceHash then
        [{ violationType := .SOURCE_CANDIDATE_MISMATCH
           description := s!"Candidate source_hash '{candidateSourceHash}' " ++
             s!"does not match manifest source_hash '{manifestSourceHash}'"
           fieldPath := "candidate_identity.source_hash"
           expected := manifestSourceHash
           actual := candidateSourceHash }]
      else []

/-- The oracle executions ran the image the manifest claims. -/
def validateOracleBinding : List IntegrityViolation :=
  match m.oracleIdentity with
  | none =>
      [{ violationType := .ORACLE_IDENTITY_MISMATCH
         description := "Manifest has no oracle_identity"
         fieldPath := "oracle_identity"
         expected := "non-null OracleIdentity"
         actual := "None" }]
  | some oracle =>
      collect m.oracleExecs fun i e =>
        match e.imageDigest with
        | none => []
        | some digest =>
            if digest ≠ oracle.imageDigest then
              [{ violationType := .IMAGE_IDENTITY_MISMATCH
                 description := s!"Oracle execution [{i}] ran image " ++
                   s!"'{digest}' but manifest claims " ++
                   s!"oracle identity '{oracle.imageDigest}'"
                 fieldPath := s!"execution_evidence[{i}].image_digest"
                 expected := oracle.imageDigest
                 actual := digest }]
            else []

/-- The execution an artifact names is in the manifest. -/
def validateArtifactExecutionBinding : List IntegrityViolation :=
  let ids := m.executionEvidence.map fun e => e.executionId.value
  collect m.artifactEvidence fun i a =>
    if a.executionId.value ∉ ids then
      [{ violationType := .ARTIFACT_EXECUTION_MISMATCH
         description := s!"Artifact [{i}] references execution_id " ++
           s!"'{a.executionId.value}' not in manifest execution evidence"
         fieldPath := s!"artifact_evidence[{i}].execution_id"
         expected := s!"one of {py.setStr ids}"
         actual := a.executionId.value }]
    else []

/-- The violation of one comparison: the message `description`, at `field`. -/
def comparisonViolation (i : ℕ) (kind : ViolationType) (description field expected actual : String) :
    IntegrityViolation where
  violationType := kind
  description := s!"Comparison [{i}] {description}"
  fieldPath := s!"comparison_evidence[{i}].{field}"
  expected := expected
  actual := actual

/-- The violation of a side of a comparison that resolves to an artifact of another role. -/
def roleViolation (i : ℕ) (role description field : String) (artifact : Option ArtifactIdentity) :
    List IntegrityViolation :=
  match artifact with
  | none => []
  | some a =>
      if a.producerRole ≠ role then
        [comparisonViolation i .COMPARISON_ARTIFACT_MISMATCH description field
          s!"producer_role {role}" a.producerRole]
      else []

/-- The violation of a side of a comparison that resolves to an artifact of another type. -/
def typeViolation (i : ℕ) (c : ComparisonEvidence) (side : String)
    (artifact : Option ArtifactIdentity) : List IntegrityViolation :=
  match artifact with
  | none => []
  | some a =>
      if a.artifactType ≠ c.artifactType then
        [comparisonViolation i .COMPARISON_ARTIFACT_MISMATCH
          s!"{side} artifact type differs from the comparison's" s!"{side}_artifact_id"
          c.artifactType a.artifactType]
      else []

/-- A comparison pairs one artifact of the oracle with one of the candidate, both of its own type,
and a match records no differences. -/
def comparisonPairingViolations (i : ℕ) (c : ComparisonEvidence) : List IntegrityViolation :=
  let oracle := (m.resolve c.oracleArtifactId).map ArtifactEvidence.artifact
  let candidate := (m.resolve c.candidateArtifactId).map ArtifactEvidence.artifact
  (if c.oracleArtifactId = c.candidateArtifactId then
    [comparisonViolation i .COMPARISON_ARTIFACT_MISMATCH "compares an artifact with itself"
      "candidate_artifact_id" "an artifact other than the oracle's" c.candidateArtifactId]
  else []) ++
  roleViolation i "ORACLE" "oracle side is not an ORACLE artifact" "oracle_artifact_id" oracle ++
  roleViolation i "CANDIDATE" "candidate side is not a CANDIDATE artifact"
    "candidate_artifact_id" candidate ++
  typeViolation i c "oracle" oracle ++ typeViolation i c "candidate" candidate ++
  (if c.result = "MATCH" ∧ c.differences ≠ [] then
    [comparisonViolation i .MALFORMED_EVIDENCE "is a MATCH that records differences" "differences"
      "no differences for MATCH" s!"{c.differences.length} difference(s)"]
  else [])

/-- The violation of a side of a comparison whose artifact is not in the manifest. -/
def referenceViolation (i : ℕ) (field artifactId : String) : List IntegrityViolation :=
  let ids := m.artifactEvidence.map fun a => a.artifact.artifactId
  if artifactId ∉ ids then
    [{ violationType := .COMPARISON_ARTIFACT_MISMATCH
       description := s!"Comparison [{i}] references {field} " ++
         s!"'{artifactId}' not in manifest artifact evidence"
       fieldPath := s!"comparison_evidence[{i}].{field}"
       expected := s!"one of {py.setStr ids}"
       actual := artifactId }]
  else []

/-- A comparison names artifacts of the manifest, properly paired. -/
def validateComparisonArtifactBinding : List IntegrityViolation :=
  collect m.comparisonEvidence fun i c =>
    referenceViolation py m i "oracle_artifact_id" c.oracleArtifactId ++
    referenceViolation py m i "candidate_artifact_id" c.candidateArtifactId ++
    comparisonPairingViolations m i c

/-- A comparison is attributed to the comparator registered for its artifact type. -/
def validateComparatorBinding : List IntegrityViolation :=
  collect m.comparisonEvidence fun i c =>
    match canonicalComparatorIds.lookup c.artifactType with
    | none => []
    | some expected =>
        if resolveAlias c.comparatorId ≠ expected then
          [{ violationType := .COMPARATOR_BINDING_MISMATCH
             description := s!"Comparison [{i}] for artifact_type=" ++
               s!"{py.repr c.artifactType} is attributed to " ++
               s!"comparator {py.repr c.comparatorId} but the " ++
               s!"registered comparator is {py.repr expected}"
             fieldPath := s!"comparison_evidence[{i}].comparator_id"
             expected := expected
             actual := c.comparatorId }]
        else []

/-- The results of comparisons are known ones. -/
def validateComparisonResults : List IntegrityViolation :=
  let known := py.listStr (Py.sortedSet knownComparisonResults)
  collect m.comparisonEvidence fun i c =>
    if c.result ∉ knownComparisonResults then
      [{ violationType := .UNKNOWN_COMPARISON_RESULT
         description := s!"Comparison [{i}] has unknown result " ++
           s!"{py.repr c.result}; known results are " ++ s!"{known}"
         fieldPath := s!"comparison_evidence[{i}].result"
         expected := s!"one of {known}"
         actual := c.result }]
    else []

/-- An execution leaves the source tree as it was. -/
def validateSourceMutation : List IntegrityViolation :=
  collect m.executionEvidence fun i e =>
    let before := e.sourceTreeHashBefore.toStr
    let after := e.sourceTreeHashAfter.toStr
    if before ≠ after then
      [{ violationType := .SOURCE_MUTATION
         description := s!"Execution [{i}] ({e.runtimeId}) modified " ++
           "the source tree during execution"
         fieldPath := s!"execution_evidence[{i}].source_tree_hash_after"
         expected := before
         actual := after }]
    else []

/-- Whether the exit status is behaviour being certified: the candidate exited nonzero, or the
oracle ended with a return code of the program. -/
def exitStatusCertified : Bool :=
  m.executionEvidence.any fun e =>
    (e.isCandidate && e.terminationStatus == "nonzero_exit") ||
      (e.isOracle && e.terminationStatus == "return_code")

/-- An exit status being certified is captured and compared. -/
def validateExitStatusCompleteness : List IntegrityViolation :=
  if exitStatusCertified m then
    (if "EXIT_STATUS" ∉ m.artifactEvidence.map (fun a => a.artifact.artifactType) then
      [{ violationType := .MISSING_EXIT_STATUS
         description := "Candidate has nonzero_exit but EXIT_STATUS is not in artifact evidence"
         fieldPath := "artifact_evidence"
         expected := "EXIT_STATUS present"
         actual := "EXIT_STATUS absent" }]
    else []) ++
    (if "EXIT_STATUS" ∉ m.comparisonEvidence.map (fun c => c.artifactType) then
      [{ violationType := .MISSING_EXIT_STATUS
         description := "Candidate has nonzero_exit but EXIT_STATUS is not in comparison evidence"
         fieldPath := "comparison_evidence"
         expected := "EXIT_STATUS comparison present"
         actual := "EXIT_STATUS comparison absent" }]
    else [])
  else []

/-- The seal is the hash of the graph as it is now. -/
def validateManifestIntegrity : List IntegrityViolation :=
  match m.sealedHash with
  | none =>
      [{ violationType := .MANIFEST_HASH_MISMATCH
         description := "Manifest carries no construction-time seal; " ++
           "evidence integrity cannot be established"
         fieldPath := "sealed_hash"
         expected := "sha256 seal of the evidence graph"
         actual := "None" }]
  | some sealed =>
      if sealed ≠ m.manifestHash then
        [{ violationType := .MANIFEST_HASH_MISMATCH
           description := "Manifest evidence was mutated after construction: " ++
             "the construction-time seal no longer matches the current evidence graph"
           fieldPath := "sealed_hash"
           expected := sealed.toStr
           actual := m.manifestHash.toStr }]
      else []

/-- A violation of the minimum evidence. -/
def missing (description field expected actual : String) : IntegrityViolation where
  violationType := .MISSING_REQUIRED_EVIDENCE
  description := description
  fieldPath := field
  expected := expected
  actual := actual

/-- The artifacts captured from the given executions. -/
def artifactsOf (execs : List ExecutionEvidence) : List ArtifactEvidence :=
  m.artifactEvidence.filter fun a =>
    a.executionId.value ∈ execs.map fun e => e.executionId.value

def comparedIds : List String :=
  m.comparisonEvidence.flatMap fun c => [c.oracleArtifactId, c.candidateArtifactId]

/-- The minimum evidence is present: executions and artifacts of both sides, an executed candidate,
a comparison, and a comparison for every artifact. -/
def validateRequiredEvidence : List IntegrityViolation :=
  if m.executionEvidence = [] then
    [missing "No execution evidence in manifest" "execution_evidence"
      "oracle and candidate execution evidence" "0"]
  else
    (if m.oracleExecs = [] then
      [missing "No oracle execution evidence" "execution_evidence" "at least 1 oracle execution"
        "0 oracle executions"]
    else []) ++
    (if m.candidateExecs = [] then
      [missing "No candidate execution evidence" "execution_evidence"
        "at least 1 candidate execution" "0 candidate executions"]
    else if ¬ m.candidateExecs.any (fun e => e.executionPhase == "EXECUTE") then
      [missing ("Candidate evidence contains no executed run: " ++
          "a build failure is not execution evidence") "execution_evidence"
        "at least 1 candidate execution with phase EXECUTE"
        s!"phases present: {py.listStr (Py.sortedSet (m.candidateExecs.map (·.executionPhase)))}"]
    else []) ++
    (if artifactsOf m m.oracleExecs = [] then
      [missing "No oracle artifact evidence" "artifact_evidence" "at least 1 oracle artifact"
        "0 oracle artifacts"]
    else []) ++
    (if artifactsOf m m.candidateExecs = [] then
      [missing "No candidate artifact evidence" "artifact_evidence"
        "at least 1 candidate artifact" "0 candidate artifacts"]
    else []) ++
    collect m.artifactEvidence (fun _ a =>
      if a.artifact.artifactId ∉ comparedIds m then
        [missing s!"Artifact '{a.artifact.artifactId}' is not covered by any comparison"
          "comparison_evidence" s!"comparison referencing {a.artifact.artifactId}"
          "artifact is unreferenced"]
      else []) ++
    (if m.comparisonEvidence = [] then
      [missing "No comparison evidence in manifest" "comparison_evidence" "at least 1 comparison"
        "0 comparisons"]
    else [])

/-! ### The validator -/

/-- The violations all passes but the one of the seal find before it. -/
def bindingViolations : List IntegrityViolation :=
  validateRunBindings py m ++ validateWorkloadBindings m ++ validateSourceCandidateBinding m ++
    validateOracleBinding m ++ validateArtifactExecutionBinding py m ++
    validateComparisonArtifactBinding py m ++ validateComparatorBinding py m ++
    validateComparisonResults py m ++ validateSourceMutation m ++ validateExitStatusCompleteness m

/-- The violations of all passes, in order. -/
def violations : List IntegrityViolation :=
  bindingViolations py m ++ validateManifestIntegrity m ++ validateRequiredEvidence py m

/-- The hash of the complete evidence graph. -/
def computeIntegrityHash : ContentHash := m.manifestHash

/-- **The validator**: the violations found, or the validated manifest. -/
def validate (now : String) : Except (List IntegrityViolation) ValidatedEvidenceManifest :=
  if violations py m ≠ [] then .error (violations py m)
  else .ok
    { manifest := m
      integrityHash := computeIntegrityHash m
      validatedAt := now
      validationSummary := "All binding and integrity checks passed" }

end Passes

end CobolJava
