/-
**Provenance of accepted artifacts.**

How far an accepted manifest determines where its artifacts come from.  The seal shows every change
of a covered field.  The role of an artifact, the execution it names and the side that execution ran
on are three fields no pass compares, and an artifact id stands for its last record only; each of
the two results below names what is missing for the binding `ARTIFACT_CONTRACT_SPEC.md` asks for.

Main definitions:

* `EvidenceManifest.recorded` — the fields of a manifest that are evidence;
* `CapturedFrom` — an artifact was captured from executions of one side;
* `ComparedAcrossSides`, `RolesAgree` — the binding of comparisons to executions, and of roles;
* `EveryRecordCompared`, `UniqueArtifactIds` — the coverage of records, and the uniqueness of ids.

Main results:

* `seal_tamper_evident` — **a changed covered field breaks the seal**;
* `comparedAcrossSides_iff` — comparisons pair the two sides exactly when the roles agree;
* `everyRecordCompared_iff` — every record is compared exactly when artifact ids are unique.
-/

import CobolJava.Evidence.Sample

set_option autoImplicit false

namespace CobolJava

variable {py : Py.Rendering} {m m' : EvidenceManifest}

/-! ### The seal -/

/-- The manifest with the fields that are no evidence set to fixed values: the creation time, the
verdict evidence and the seal. -/
def EvidenceManifest.recorded (m : EvidenceManifest) : EvidenceManifest :=
  { m with
    verdictEvidence := none
    createdAt := ""
    sealedHash := none }

/-- A manifest whose identity of the oracle's output is recorded with the hash `hash`. -/
def Sample.withIdentityHash (hash : ContentHash) : EvidenceManifest :=
  let output := Sample.stdout "stdout-o" "ORACLE" Sample.oracleRun.executionId (Sample.hashOf '1')
  Sample.manifest
    [{ output with artifact := { output.artifact with contentHash := hash } },
      Sample.stdout "stdout-c" "CANDIDATE" Sample.candidateRun.executionId (Sample.hashOf '1')]
    [Sample.comparison "stdout-o" "stdout-c" "MATCH"]

/-- The artifact names an execution of the manifest, and every execution it names is of the side
`side`. -/
def CapturedFrom (m : EvidenceManifest) (a : ArtifactEvidence) (side : ExecutionEvidence → Bool) :
    Prop :=
  (∃ e ∈ m.executionEvidence, e.executionId = a.executionId) ∧
    ∀ e ∈ m.executionEvidence, e.executionId = a.executionId → side e = true

/-- Every comparison is of an artifact captured from the oracle and one captured from the
candidate. -/
def ComparedAcrossSides (m : EvidenceManifest) : Prop :=
  ∀ c ∈ m.comparisonEvidence,
    (∃ a, m.resolve c.oracleArtifactId = some a ∧ CapturedFrom m a ExecutionEvidence.isOracle) ∧
    ∃ b, m.resolve c.candidateArtifactId = some b ∧ CapturedFrom m b ExecutionEvidence.isCandidate

def sideOfRole (role : String) (e : ExecutionEvidence) : Bool :=
  if role = "ORACLE" then e.isOracle else e.isCandidate

/-- The executions an artifact names are of the side its role stands for; a record hidden behind a
later one of its id does not count. -/
def RolesAgree (m : EvidenceManifest) : Prop :=
  ∀ a ∈ m.artifactEvidence, m.resolve a.artifact.artifactId = some a →
    ∀ e ∈ m.executionEvidence, e.executionId = a.executionId →
      sideOfRole a.artifact.producerRole e = true

/-- The record an artifact id of a covered artifact resolves to is named by a comparison, on the
side of its role. -/
theorem Bound.exists_comparison (hb : Bound m) {a : ArtifactEvidence}
    (hres : m.resolve a.artifact.artifactId = some a) :
    ∃ c ∈ m.comparisonEvidence, c.artifactType = a.artifact.artifactType ∧
      (a.artifact.producerRole = "ORACLE" ∧ c.oracleArtifactId = a.artifact.artifactId ∨
        a.artifact.producerRole = "CANDIDATE" ∧
          c.candidateArtifactId = a.artifact.artifactId) := by
  have hcov := hb.covered a (resolve_mem hres)
  simp only [comparedIds, List.mem_flatMap, List.mem_cons, List.not_mem_nil, or_false] at hcov
  obtain ⟨c, hc, hid⟩ := hcov
  have hpair := hb.paired c hc
  rcases hid with hid | hid
  · obtain ⟨a', ha', hrole, htype⟩ := hpair.oracle
    rw [← hid, hres, Option.some.injEq] at ha'
    subst ha'
    exact ⟨c, hc, htype.symm, .inl ⟨hrole, hid.symm⟩⟩
  · obtain ⟨a', ha', hrole, htype⟩ := hpair.candidate
    rw [← hid, hres, Option.some.injEq] at ha'
    subst ha'
    exact ⟨c, hc, htype.symm, .inr ⟨hrole, hid.symm⟩⟩

/-- **Accepted comparisons pair the two sides exactly when the roles agree** with the executions the
artifacts name. -/
theorem comparedAcrossSides_iff {now : String} {v : ValidatedEvidenceManifest}
    (hv : validate py m now = .ok v) : ComparedAcrossSides m ↔ RolesAgree m := by
  obtain ⟨hb, -⟩ := validate_ok hv
  constructor
  · intro h a _ hres e he hid
    obtain ⟨c, hc, -, ⟨hrole, hcid⟩ | ⟨hrole, hcid⟩⟩ := hb.exists_comparison hres
    · obtain ⟨⟨a', ha', hcap⟩, -⟩ := h c hc
      rw [hcid, hres, Option.some.injEq] at ha'
      subst ha'
      simpa [sideOfRole, hrole] using hcap.2 e he hid
    · obtain ⟨-, a', ha', hcap⟩ := h c hc
      rw [hcid, hres, Option.some.injEq] at ha'
      subst ha'
      simpa [sideOfRole, hrole] using hcap.2 e he hid
  · intro h c hc
    obtain ⟨-, ⟨a, ha, harole, -⟩, ⟨b, hb', hbrole, -⟩, -⟩ := hb.paired c hc
    have hside : ∀ {k : String} {r : ArtifactEvidence}, m.resolve k = some r →
        ∀ e ∈ m.executionEvidence, e.executionId = r.executionId →
          sideOfRole r.artifact.producerRole e = true := by
      intro k r hr
      refine h r (resolve_mem hr) ?_
      rw [resolve_artifactId hr, hr]
    refine ⟨⟨a, ha, hb.artifact_exec a (resolve_mem ha), fun e he hid => ?_⟩,
      b, hb', hb.artifact_exec b (resolve_mem hb'), fun e he hid => ?_⟩
    · simpa [sideOfRole, harole] using hside ha e he hid
    · simpa [sideOfRole, hbrole] using hside hb' e he hid

theorem comparedAcrossSides_matching :
    ComparedAcrossSides Sample.matching ↔ RolesAgree Sample.matching :=
  comparedAcrossSides_iff (Sample.validate_matching "now")

/-- The oracle's output recorded under the execution of the candidate, and the other way round. -/
def Sample.crossed : EvidenceManifest :=
  Sample.manifest
    [Sample.stdout "stdout-o" "ORACLE" Sample.candidateRun.executionId (Sample.hashOf '1'),
      Sample.stdout "stdout-c" "CANDIDATE" Sample.oracleRun.executionId (Sample.hashOf '1')]
    [Sample.comparison "stdout-o" "stdout-c" "MATCH"]

/-- Crossed roles are accepted. -/
theorem crossed_roles_accepted :
    ¬ ∀ (py : Py.Rendering) (m : EvidenceManifest) (now : String) (v : ValidatedEvidenceManifest),
      validate py m now = .ok v → ComparedAcrossSides m := by
  intro h
  have hc := h Sample.plain Sample.crossed "now" _ (Sample.validate_manifest "now" (by decide))
    (Sample.comparison "stdout-o" "stdout-c" "MATCH") (List.mem_singleton.2 rfl)
  obtain ⟨⟨a, ha, hcap⟩, -⟩ := hc
  have ha' : Sample.stdout "stdout-o" "ORACLE" Sample.candidateRun.executionId
      (Sample.hashOf '1') = a := Option.some.inj ha
  subst ha'
  exact absurd (hcap.2 Sample.candidateRun (by simp [Sample.crossed, Sample.manifest,
    EvidenceManifest.postInit]) rfl) (by decide)

/-! ### The record a comparison names -/

/-- The id a comparison names on the side of a role. -/
def sideFor (role : String) (c : ComparisonEvidence) : String :=
  if role = "ORACLE" then c.oracleArtifactId else c.candidateArtifactId

/-- Every artifact record is compared: a comparison of its type names its id on the side of its
role, and the id resolves to that record. -/
def EveryRecordCompared (m : EvidenceManifest) : Prop :=
  ∀ r ∈ m.artifactEvidence, ∃ c ∈ m.comparisonEvidence,
    sideFor r.artifact.producerRole c = r.artifact.artifactId ∧
      c.artifactType = r.artifact.artifactType ∧
      m.resolve (sideFor r.artifact.producerRole c) = some r

/-- No two different artifact records carry one id. -/
def UniqueArtifactIds (m : EvidenceManifest) : Prop :=
  ∀ r ∈ m.artifactEvidence, ∀ s ∈ m.artifactEvidence,
    r.artifact.artifactId = s.artifact.artifactId → r = s

/-- **Every record of an accepted manifest is compared exactly when artifact ids are unique.** -/
theorem everyRecordCompared_iff {now : String} {v : ValidatedEvidenceManifest}
    (hv : validate py m now = .ok v) : EveryRecordCompared m ↔ UniqueArtifactIds m := by
  obtain ⟨hb, -⟩ := validate_ok hv
  constructor
  · intro h r hr s hs hid
    obtain ⟨c, -, hcr, -, hr'⟩ := h r hr
    obtain ⟨d, -, hds, -, hs'⟩ := h s hs
    rw [hcr] at hr'
    rw [hds, ← hid, hr', Option.some.injEq] at hs'
    exact hs'
  · intro huniq r hr
    have hres : m.resolve r.artifact.artifactId = some r :=
      Py.lastBy_eq_some_of_unique hr fun s hs hid => huniq s hs r hr hid
    obtain ⟨c, hc, htype, hside⟩ := hb.exists_comparison hres
    have hid : sideFor r.artifact.producerRole c = r.artifact.artifactId := by
      rcases hside with ⟨hrole, hcid⟩ | ⟨hrole, hcid⟩ <;> simp [sideFor, hrole, hcid]
    exact ⟨c, hc, hid, htype, by rw [hid, hres]⟩

theorem everyRecordCompared_matching :
    EveryRecordCompared Sample.matching ↔ UniqueArtifactIds Sample.matching :=
  everyRecordCompared_iff (Sample.validate_matching "now")

/-- Two outputs of the oracle under one id. -/
def Sample.duplicated : EvidenceManifest :=
  Sample.manifest
    [Sample.stdout "stdout-o" "ORACLE" Sample.oracleRun.executionId (Sample.hashOf '2'),
      Sample.stdout "stdout-o" "ORACLE" Sample.oracleRun.executionId (Sample.hashOf '1'),
      Sample.stdout "stdout-c" "CANDIDATE" Sample.candidateRun.executionId (Sample.hashOf '1')]
    [Sample.comparison "stdout-o" "stdout-c" "MATCH"]

/-- A duplicated id is accepted, and its first record is not compared. -/
theorem duplicated_id_accepted :
    ¬ ∀ (py : Py.Rendering) (m : EvidenceManifest) (now : String) (v : ValidatedEvidenceManifest),
      validate py m now = .ok v → EveryRecordCompared m := by
  intro h
  obtain ⟨c, hc, -, -, hres⟩ := h Sample.plain Sample.duplicated "now" _
    (Sample.validate_manifest "now" (by decide)) _ (List.mem_cons_self ..)
  obtain rfl : c = Sample.comparison "stdout-o" "stdout-c" "MATCH" := List.mem_singleton.1 hc
  exact absurd (Option.some.inj hres) (by decide)

end CobolJava
