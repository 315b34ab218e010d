/-
**What the validator accepts.**

Each pass of `Evidence/Integrity.lean` finds no violation exactly when a condition on the records
holds; together the conditions say what an accepted manifest is.  The conditions only speak of the
part of the manifest the seal covers, so they carry over to any manifest with the same graph.

Main definitions:

* `Paired` — a comparison of an artifact of the oracle with one of the candidate;
* `Bound` — the conditions of all passes but the one of the seal.

Main results:

* `bound_iff` — **the passes find nothing exactly when the manifest is bound**;
* `bindingViolations_covered`, `validateRequiredEvidence_covered` — the passes only read the
  covered part of a manifest.
-/

import CobolJava.Evidence.Integrity
import CobolJava.Evidence.Seal

set_option autoImplicit false

namespace CobolJava

open Py (collect collect_eq_nil)

variable {py : Py.Rendering} {m m' : EvidenceManifest}

/-! ### Resolving artifact ids -/

theorem resolve_mem {k : String} {a : ArtifactEvidence} (h : m.resolve k = some a) :
    a ∈ m.artifactEvidence := Py.lastBy_mem h

theorem resolve_artifactId {k : String} {a : ArtifactEvidence} (h : m.resolve k = some a) :
    a.artifact.artifactId = k :=
  Py.lastBy_key (fun a : ArtifactEvidence => a.artifact.artifactId) h

theorem exists_resolve {a : ArtifactEvidence} (ha : a ∈ m.artifactEvidence) :
    ∃ b, m.resolve a.artifact.artifactId = some b := Py.lastBy_isSome _ ha

theorem exists_resolve_of_mem {k : String}
    (hk : k ∈ m.artifactEvidence.map fun a => a.artifact.artifactId) :
    ∃ b, m.resolve k = some b := by
  obtain ⟨a, ha, rfl⟩ := List.mem_map.1 hk
  exact exists_resolve ha

/-! ### The conditions -/

/-- A comparison of an artifact of the oracle with an artifact of the candidate, both of the type
the comparison is of; a match records no differences. -/
structure Paired (m : EvidenceManifest) (c : ComparisonEvidence) : Prop where
  distinct : c.oracleArtifactId ≠ c.candidateArtifactId
  oracle : ∃ a, m.resolve c.oracleArtifactId = some a ∧ a.artifact.producerRole = "ORACLE" ∧
    a.artifact.artifactType = c.artifactType
  candidate : ∃ a, m.resolve c.candidateArtifactId = some a ∧
    a.artifact.producerRole = "CANDIDATE" ∧ a.artifact.artifactType = c.artifactType
  no_differences : c.result = "MATCH" → c.differences = []

/-- **The conditions of all passes** but the one of the seal. -/
structure Bound (m : EvidenceManifest) : Prop where
  exec_run : ∀ e ∈ m.executionEvidence, e.runId = m.runId
  artifact_exec : ∀ a ∈ m.artifactEvidence, ∃ e ∈ m.executionEvidence,
    e.executionId = a.executionId
  comparison_run : ∀ c ∈ m.comparisonEvidence, c.runId = m.runId
  exec_workload : ∀ e ∈ m.executionEvidence, ∀ w, e.workloadId = some w → w = m.workloadId
  comparison_workload : ∀ c ∈ m.comparisonEvidence, ∀ w, c.workloadId = some w → w = m.workloadId
  candidate_source : ∀ c, m.candidateIdentity = some c →
    c.sourceHash = m.sourceIdentity.sourceHash
  oracle_image : ∃ o, m.oracleIdentity = some o ∧ ∀ e ∈ m.oracleExecs, ∀ d,
    e.imageDigest = some d → d = o.imageDigest
  paired : ∀ c ∈ m.comparisonEvidence, Paired m c
  comparator : ∀ c ∈ m.comparisonEvidence, ∀ expected,
    canonicalComparatorIds.lookup c.artifactType = some expected →
      resolveAlias c.comparatorId = expected
  known_result : ∀ c ∈ m.comparisonEvidence, c.result ∈ knownComparisonResults
  source_unchanged : ∀ e ∈ m.executionEvidence, e.sourceTreeHashBefore = e.sourceTreeHashAfter
  exit_status : exitStatusCertified m = true →
    (∃ a ∈ m.artifactEvidence, a.artifact.artifactType = "EXIT_STATUS") ∧
      ∃ c ∈ m.comparisonEvidence, c.artifactType = "EXIT_STATUS"
  oracle_exec : m.oracleExecs ≠ []
  candidate_executed : ∃ e ∈ m.candidateExecs, e.executionPhase = "EXECUTE"
  oracle_artifact : artifactsOf m m.oracleExecs ≠ []
  candidate_artifact : artifactsOf m m.candidateExecs ≠ []
  covered : ∀ a ∈ m.artifactEvidence, a.artifact.artifactId ∈ comparedIds m
  compared : m.comparisonEvidence ≠ []

/-! ### Pass by pass -/

theorem ite_violation {α : Type*} {p : Prop} [Decidable p] {v : α} :
    (if p then [v] else []) = [] ↔ ¬p := by
  split_ifs with h <;> simp [h]

theorem mem_validExecIds {k : String} :
    k ∈ validExecIds m ↔ ∃ e ∈ m.executionEvidence, e.runId = m.runId ∧
      e.executionId.value = k := by
  simp only [validExecIds, List.mem_map, List.mem_filter, decide_eq_true_eq,
    RunId.value_injective.eq_iff, and_assoc]

theorem validateRunBindings_eq_nil :
    validateRunBindings py m = [] ↔
      (∀ e ∈ m.executionEvidence, e.runId = m.runId) ∧
      (∀ a ∈ m.artifactEvidence, a.executionId.value ∈ validExecIds m) ∧
      ∀ c ∈ m.comparisonEvidence, c.runId = m.runId := by
  simp only [validateRunBindings, List.append_eq_nil_iff, and_assoc]
  refine and_congr ?_ (and_congr ?_ ?_)
  · exact collect_eq_nil fun i e => by
      rw [ite_violation, not_not, RunId.value_injective.eq_iff]
  · exact collect_eq_nil fun i a => by rw [ite_violation, not_not]
  · exact collect_eq_nil fun i c => by
      rw [ite_violation, not_not, RunId.value_injective.eq_iff]

theorem workloadViolation_eq_nil {kind field : String} {i : ℕ} {o : Option WorkloadId} :
    workloadViolation m kind field i o = [] ↔ ∀ w, o = some w → w = m.workloadId := by
  cases o with
  | none => simp [workloadViolation]
  | some w =>
      simp only [workloadViolation, ite_violation, not_not, WorkloadId.value_injective.eq_iff,
        Option.some.injEq]
      exact ⟨fun h w' hw => hw ▸ h, fun h => h w rfl⟩

theorem validateWorkloadBindings_eq_nil :
    validateWorkloadBindings m = [] ↔
      (∀ e ∈ m.executionEvidence, ∀ w, e.workloadId = some w → w = m.workloadId) ∧
      ∀ c ∈ m.comparisonEvidence, ∀ w, c.workloadId = some w → w = m.workloadId := by
  rw [validateWorkloadBindings, List.append_eq_nil_iff]
  exact and_congr (collect_eq_nil fun _ _ => workloadViolation_eq_nil)
    (collect_eq_nil fun _ _ => workloadViolation_eq_nil)

theorem validateSourceCandidateBinding_eq_nil :
    validateSourceCandidateBinding m = [] ↔ ∀ c, m.candidateIdentity = some c →
      c.sourceHash = m.sourceIdentity.sourceHash := by
  unfold validateSourceCandidateBinding
  cases m.candidateIdentity with
  | none => simp
  | some c =>
      simp only [ite_violation, not_not, ContentHash.toStr_injective.eq_iff, Option.some.injEq]
      exact ⟨fun h c' hc => hc ▸ h, fun h => h c rfl⟩

theorem validateOracleBinding_eq_nil :
    validateOracleBinding m = [] ↔ ∃ o, m.oracleIdentity = some o ∧ ∀ e ∈ m.oracleExecs, ∀ d,
      e.imageDigest = some d → d = o.imageDigest := by
  unfold validateOracleBinding
  cases m.oracleIdentity with
  | none => simp
  | some o =>
      simp only [Option.some.injEq, exists_eq_left']
      refine collect_eq_nil fun i e => ?_
      cases e.imageDigest with
      | none => simp
      | some d =>
          simp only [ite_violation, not_not, Option.some.injEq]
          exact ⟨fun h d' hd => hd ▸ h, fun h => h d rfl⟩

theorem validateArtifactExecutionBinding_eq_nil :
    validateArtifactExecutionBinding py m = [] ↔ ∀ a ∈ m.artifactEvidence,
      a.executionId.value ∈ m.executionEvidence.map fun e => e.executionId.value := by
  unfold validateArtifactExecutionBinding
  exact collect_eq_nil fun i a => by rw [ite_violation, not_not]

theorem roleViolation_eq_nil {i : ℕ} {role description field : String}
    {o : Option ArtifactIdentity} :
    roleViolation i role description field o = [] ↔ ∀ a, o = some a → a.producerRole = role := by
  cases o with
  | none => simp [roleViolation]
  | some a =>
      simp only [roleViolation, ite_violation, not_not, Option.some.injEq]
      exact ⟨fun h a' ha => ha ▸ h, fun h => h a rfl⟩

theorem typeViolation_eq_nil {i : ℕ} {c : ComparisonEvidence} {side : String}
    {o : Option ArtifactIdentity} :
    typeViolation i c side o = [] ↔ ∀ a, o = some a → a.artifactType = c.artifactType := by
  cases o with
  | none => simp [typeViolation]
  | some a =>
      simp only [typeViolation, ite_violation, not_not, Option.some.injEq]
      exact ⟨fun h a' ha => ha ▸ h, fun h => h a rfl⟩

theorem referenceViolation_eq_nil {i : ℕ} {field k : String} :
    referenceViolation py m i field k = [] ↔ ∃ a, m.resolve k = some a := by
  simp only [referenceViolation, ite_violation, not_not]
  refine ⟨exists_resolve_of_mem, ?_⟩
  rintro ⟨a, ha⟩
  exact List.mem_map.2 ⟨a, resolve_mem ha, resolve_artifactId ha⟩

/-- One comparison passes when it is paired. -/
theorem comparison_eq_nil {i : ℕ} {c : ComparisonEvidence} :
    referenceViolation py m i "oracle_artifact_id" c.oracleArtifactId ++
      referenceViolation py m i "candidate_artifact_id" c.candidateArtifactId ++
      comparisonPairingViolations m i c = [] ↔ Paired m c := by
  simp only [List.append_eq_nil_iff, comparisonPairingViolations, referenceViolation_eq_nil,
    roleViolation_eq_nil, typeViolation_eq_nil, ite_violation]
  constructor
  · rintro ⟨⟨⟨a, ha⟩, b, hb⟩, ⟨⟨⟨⟨hne, hor⟩, hcr⟩, hot⟩, hct⟩, hmatch⟩
    rw [ha] at hor hot
    rw [hb] at hcr hct
    refine ⟨hne, ⟨a, ha, hor _ rfl, hot _ rfl⟩, ⟨b, hb, hcr _ rfl, hct _ rfl⟩, ?_⟩
    intro hr
    by_contra hd
    exact hmatch ⟨hr, hd⟩
  · rintro ⟨hne, ⟨a, ha, har, hat⟩, ⟨b, hb, hbr, hbt⟩, hmatch⟩
    refine ⟨⟨⟨a, ha⟩, b, hb⟩, ⟨⟨⟨⟨hne, ?_⟩, ?_⟩, ?_⟩, ?_⟩, ?_⟩
    · rw [ha]; rintro _ ⟨⟩; exact har
    · rw [hb]; rintro _ ⟨⟩; exact hbr
    · rw [ha]; rintro _ ⟨⟩; exact hat
    · rw [hb]; rintro _ ⟨⟩; exact hbt
    · rintro ⟨hr, hd⟩
      exact hd (hmatch hr)

theorem validateComparisonArtifactBinding_eq_nil :
    validateComparisonArtifactBinding py m = [] ↔ ∀ c ∈ m.comparisonEvidence, Paired m c :=
  collect_eq_nil fun _ _ => comparison_eq_nil

theorem validateComparatorBinding_eq_nil :
    validateComparatorBinding py m = [] ↔ ∀ c ∈ m.comparisonEvidence, ∀ expected,
      canonicalComparatorIds.lookup c.artifactType = some expected →
        resolveAlias c.comparatorId = expected := by
  refine collect_eq_nil fun i c => ?_
  cases canonicalComparatorIds.lookup c.artifactType with
  | none => simp
  | some expected =>
      simp only [ite_violation, not_not, Option.some.injEq]
      exact ⟨fun h e he => he ▸ h, fun h => h expected rfl⟩

theorem validateComparisonResults_eq_nil :
    validateComparisonResults py m = [] ↔ ∀ c ∈ m.comparisonEvidence,
      c.result ∈ knownComparisonResults := by
  unfold validateComparisonResults
  exact collect_eq_nil fun i c => by rw [ite_violation, not_not]

theorem validateSourceMutation_eq_nil :
    validateSourceMutation m = [] ↔ ∀ e ∈ m.executionEvidence,
      e.sourceTreeHashBefore = e.sourceTreeHashAfter := by
  unfold validateSourceMutation
  exact collect_eq_nil fun i e => by
    simp only [ite_violation, not_not, ContentHash.toStr_injective.eq_iff]

theorem validateExitStatusCompleteness_eq_nil :
    validateExitStatusCompleteness m = [] ↔ (exitStatusCertified m = true →
      (∃ a ∈ m.artifactEvidence, a.artifact.artifactType = "EXIT_STATUS") ∧
        ∃ c ∈ m.comparisonEvidence, c.artifactType = "EXIT_STATUS") := by
  unfold validateExitStatusCompleteness
  by_cases h : exitStatusCertified m = true
  · rw [if_pos h, List.append_eq_nil_iff, ite_violation, ite_violation, not_not, not_not,
      List.mem_map, List.mem_map]
    exact ⟨fun hx _ => hx, fun hx => hx h⟩
  · rw [if_neg h]
    exact ⟨fun _ hx => absurd hx h, fun _ => rfl⟩

theorem candidate_eq_nil {α : Type*} {execs : List ExecutionEvidence} {v w : α} :
    (if execs = [] then [v]
      else if ¬ execs.any (fun e => e.executionPhase == "EXECUTE") then [w]
      else []) = [] ↔ ∃ e ∈ execs, e.executionPhase = "EXECUTE" := by
  split_ifs with h1 h2
  · simp [h1]
  · simpa using h2
  · simpa using h2

theorem validateRequiredEvidence_eq_nil :
    validateRequiredEvidence py m = [] ↔
      m.oracleExecs ≠ [] ∧ (∃ e ∈ m.candidateExecs, e.executionPhase = "EXECUTE") ∧
      artifactsOf m m.oracleExecs ≠ [] ∧ artifactsOf m m.candidateExecs ≠ [] ∧
      (∀ a ∈ m.artifactEvidence, a.artifact.artifactId ∈ comparedIds m) ∧
      m.comparisonEvidence ≠ [] := by
  unfold validateRequiredEvidence
  by_cases hexec : m.executionEvidence = []
  · have horacle : m.oracleExecs = [] := by rw [EvidenceManifest.oracleExecs, hexec]; rfl
    simp [hexec, horacle]
  · rw [if_neg hexec]
    simp only [List.append_eq_nil_iff, ite_violation, candidate_eq_nil, and_assoc]
    refine and_congr Iff.rfl (and_congr Iff.rfl (and_congr Iff.rfl (and_congr Iff.rfl
      (and_congr ?_ Iff.rfl))))
    exact collect_eq_nil fun i a => by rw [ite_violation, not_not]

/-! ### All passes -/

/-- **The passes find nothing exactly when the manifest is bound.** -/
theorem bound_iff :
    bindingViolations py m = [] ∧ validateRequiredEvidence py m = [] ↔ Bound m := by
  simp only [bindingViolations, List.append_eq_nil_iff, validateRunBindings_eq_nil,
    validateWorkloadBindings_eq_nil, validateSourceCandidateBinding_eq_nil,
    validateOracleBinding_eq_nil, validateArtifactExecutionBinding_eq_nil,
    validateComparisonArtifactBinding_eq_nil, validateComparatorBinding_eq_nil,
    validateComparisonResults_eq_nil, validateSourceMutation_eq_nil,
    validateExitStatusCompleteness_eq_nil, validateRequiredEvidence_eq_nil, and_assoc]
  constructor
  · rintro ⟨her, har, hcr, hew, hcw, hsrc, hor, -, hpair, hcmp, hres, hmut, hexit, ho, hc, hoa,
      hca, hcov, hne⟩
    refine ⟨her, fun a ha => ?_, hcr, hew, hcw, hsrc, hor, hpair, hcmp, hres, hmut, hexit, ho, hc,
      hoa, hca, hcov, hne⟩
    obtain ⟨e, he, -, hid⟩ := mem_validExecIds.1 (har a ha)
    exact ⟨e, he, ExecutionId.value_injective hid⟩
  · intro h
    refine ⟨h.exec_run, fun a ha => ?_, h.comparison_run, h.exec_workload, h.comparison_workload,
      h.candidate_source, h.oracle_image, fun a ha => ?_, h.paired, h.comparator, h.known_result,
      h.source_unchanged, h.exit_status, h.oracle_exec, h.candidate_executed, h.oracle_artifact,
      h.candidate_artifact, h.covered, h.compared⟩
    · obtain ⟨e, he, hid⟩ := h.artifact_exec a ha
      exact mem_validExecIds.2 ⟨e, he, h.exec_run e he, congrArg _ hid⟩
    · obtain ⟨e, he, hid⟩ := h.artifact_exec a ha
      exact List.mem_map.2 ⟨e, he, congrArg _ hid⟩

theorem validateManifestIntegrity_eq_nil :
    validateManifestIntegrity m = [] ↔ m.sealedHash = some m.manifestHash := by
  unfold validateManifestIntegrity
  cases m.sealedHash with
  | none => simp
  | some s => simp only [ite_violation, not_not, Option.some.injEq]

theorem violations_eq_nil :
    violations py m = [] ↔ Bound m ∧ m.sealedHash = some m.manifestHash := by
  rw [violations, List.append_eq_nil_iff, List.append_eq_nil_iff,
    validateManifestIntegrity_eq_nil, ← @bound_iff py]
  tauto

theorem validate_ok {now : String} {v : ValidatedEvidenceManifest}
    (h : validate py m now = .ok v) :
    Bound m ∧ m.sealedHash = some m.manifestHash ∧ v.manifest = m ∧
      v.integrityHash = m.manifestHash := by
  unfold validate at h
  split_ifs at h with hv
  rw [not_not] at hv
  obtain ⟨hb, hs⟩ := violations_eq_nil.1 hv
  cases h
  exact ⟨hb, hs, rfl, rfl⟩

/-! ### The passes read the covered part -/

theorem resolve_covered (k : String) :
    m.covered.resolve k = (m.resolve k).map ArtifactEvidence.covered :=
  Py.lastBy_map ArtifactEvidence.covered _ _ _

theorem comparisonPairingViolations_covered (i : ℕ) (c : ComparisonEvidence) :
    comparisonPairingViolations m.covered i c = comparisonPairingViolations m i c := by
  simp only [comparisonPairingViolations, resolve_covered]
  cases m.resolve c.oracleArtifactId <;> cases m.resolve c.candidateArtifactId <;> rfl

theorem artifactIds_covered :
    m.covered.artifactEvidence.map (fun a => a.artifact.artifactId) =
      m.artifactEvidence.map fun a => a.artifact.artifactId := by
  simp only [EvidenceManifest.covered, List.map_map]
  rfl

/-- The binding passes read the covered part of the manifest only. -/
theorem bindingViolations_covered :
    bindingViolations py m.covered = bindingViolations py m := by
  have hrun : validateRunBindings py m.covered = validateRunBindings py m := by
    simp only [validateRunBindings, EvidenceManifest.covered, Py.collect_map]
    rfl
  have hae : validateArtifactExecutionBinding py m.covered =
      validateArtifactExecutionBinding py m := by
    simp only [validateArtifactExecutionBinding, EvidenceManifest.covered, Py.collect_map]
    rfl
  have hcomp : validateComparisonArtifactBinding py m.covered =
      validateComparisonArtifactBinding py m := by
    simp only [validateComparisonArtifactBinding, referenceViolation, artifactIds_covered,
      comparisonPairingViolations_covered]
    rfl
  have hexit : validateExitStatusCompleteness m.covered = validateExitStatusCompleteness m := by
    have htypes : m.covered.artifactEvidence.map (fun a => a.artifact.artifactType) =
        m.artifactEvidence.map fun a => a.artifact.artifactType := by
      simp only [EvidenceManifest.covered, List.map_map]
      rfl
    simp only [validateExitStatusCompleteness, htypes]
    rfl
  simp only [bindingViolations, hrun, hae, hcomp, hexit]
  rfl

theorem artifactsOf_covered (execs : List ExecutionEvidence) :
    artifactsOf m.covered execs = (artifactsOf m execs).map ArtifactEvidence.covered := by
  simp only [artifactsOf, EvidenceManifest.covered, List.filter_map]
  rfl

theorem validateRequiredEvidence_covered :
    validateRequiredEvidence py m.covered = validateRequiredEvidence py m := by
  have horacle : m.covered.oracleExecs = m.oracleExecs := rfl
  have hcand : m.covered.candidateExecs = m.candidateExecs := rfl
  simp only [validateRequiredEvidence, horacle, hcand, artifactsOf_covered, List.map_eq_nil_iff]
  simp only [EvidenceManifest.covered, Py.collect_map]
  rfl

theorem Bound.of_covered_eq (hb : Bound m) (h : m.covered = m'.covered) : Bound m' := by
  have py : Py.Rendering := ⟨id, fun _ => ""⟩
  rw [← @bound_iff py] at hb ⊢
  rwa [← bindingViolations_covered, ← validateRequiredEvidence_covered, ← h,
    bindingViolations_covered, validateRequiredEvidence_covered]

end CobolJava
