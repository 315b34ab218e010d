/-
**The evidence a run leaves.**

The validator takes the hashes and results of a manifest as they are recorded
(`Verdict/RecordedMatch.lean`).  Here is what `VerticalSlicePipeline.run` records itself: each captured
artifact carries the hash of its content, a match is the answer of the comparator registered for the
type, and an effect that no comparator observes has an inconclusive comparison.  So the verdict says
something about what the two executions did.

Main definitions:

* `Compared.Faithful` — a comparison and its two artifacts were recorded as they were found;
* `EffectsShared` — what two executions have in common;
* `assembledManifest`, `pipelineVerdict` — the manifest of a run and its verdict.

Main results:

* `faithful_of_run` — **every comparison of a run is recorded faithfully**;
* `effectsShared_of_verified` — **two executions share their effects if their run is verified**.
-/

import CobolJava.Pipeline.ObservableEffects
import CobolJava.Verdict.RecordedMatch

set_option autoImplicit false

namespace CobolJava

open Py (Bytes Exc bind_ok)
open VerdictDeriver

/-! ### Captures -/

/-- The capture of an artifact of the given type for a side: the identity says so, and the hash is
that of the content, the empty one when it is missing. -/
structure CapturedArtifact.Bears (c : CapturedArtifact) (artifactType : String) (side : Side) :
    Prop where
  type : c.artifact.artifactType = artifactType
  role : c.artifact.producerRole = side.role
  hash : c.contentHash = ContentHash.fromBytes (c.content.getD [])

/-- A comparison and its two artifacts were recorded as they were found. -/
structure Compared.Faithful (py : Py.Rendering) (x : Compared) : Prop where
  oracle : x.oracle.Bears x.evidence.artifactType .oracle
  candidate : x.candidate.Bears x.evidence.artifactType .candidate
  oracleId : x.evidence.oracleArtifactId = x.oracle.artifact.artifactId
  candidateId : x.evidence.candidateArtifactId = x.candidate.artifact.artifactId
  /-- A match is the answer of the comparator of the type, under the policies recorded. -/
  answered : x.evidence.result = "MATCH" → ∃ comparator policy r,
    registered (defaultRegistry py) x.evidence.artifactType = some comparator ∧
      comparator.compare ⟨x.oracle.artifact, x.oracle.content⟩
        ⟨x.candidate.artifact, x.candidate.content⟩ policy = .ok r ∧
      r.result = .MATCH ∧ r.normalizationApplied = x.evidence.normalizationApplied ∧
      r.orderingApplied = x.evidence.orderingApplied

section Run

variable {py : Py.Rendering} {now : String} {runId : RunId}
variable {oracleResult candidateResult : ExecutionResult}

theorem capture_bears {executionId : ExecutionId} {idPrefix artifactType logicalName : String}
    {content : Bytes} {side : Side} {recordCount : Option ℤ}
    {htype : artifactType ∈ validArtifactTypes} :
    (capture now executionId idPrefix artifactType logicalName content side recordCount
      htype).Bears artifactType side := ⟨rfl, rfl, rfl⟩

/-- A captured artifact bears the type and the side it was captured for. -/
theorem captureArtifact_bears {artifactType : String} {htype : artifactType ∈ validArtifactTypes}
    {executionId : ExecutionId} {content : Option Bytes} {logicalName : String} {side : Side}
    {recordLength : Option ℤ} {c : CapturedArtifact}
    (h : captureArtifact now artifactType htype executionId content logicalName side recordLength =
      .ok c) : c.Bears artifactType side := by
  cases content with
  | none =>
      rw [← Except.ok.inj h]
      exact ⟨rfl, rfl, rfl⟩
  | some content =>
      simp only [captureArtifact] at h
      split_ifs at h with hout herr hexit htext hfixed
      · subst hout
        rw [← Except.ok.inj h]
        exact capture_bears
      · subst herr
        rw [← Except.ok.inj h]
        exact capture_bears
      · subst hexit
        split at h
        · rw [← Except.ok.inj h]
          exact capture_bears
        · cases h
      · subst htext
        rw [← Except.ok.inj h]
        exact capture_bears
      · subst hfixed
        -- with or without a record length, what is captured are the same bytes
        simp only [captureFixedRecord] at h
        split at h
        · split_ifs at h <;> rw [← Except.ok.inj h] <;> exact capture_bears
        · rw [← Except.ok.inj h]
          exact capture_bears

theorem captureFilePair_bears {logicalName : String} {x y : Option Bytes}
    {p : CapturedArtifact × CapturedArtifact}
    (h : captureFilePair now oracleResult candidateResult logicalName x y = .ok p) :
    p.1.Bears "TEXT_FILE" .oracle ∧ p.2.Bears "TEXT_FILE" .candidate := by
  obtain ⟨o, ho, h⟩ := bind_ok h
  obtain ⟨c, hc, h⟩ := bind_ok h
  rw [← Except.ok.inj h]
  exact ⟨captureArtifact_bears ho, captureArtifact_bears hc⟩

/-! ### Comparisons -/

theorem compareCaptured_faithful {comparator : TypedComparator} {policy : ComparisonPolicy}
    {subject : Subject} {logicalName artifactType : String} {o c : CapturedArtifact} {x : Compared}
    (ho : o.Bears artifactType .oracle) (hc : c.Bears artifactType .candidate)
    (hreg : registered (defaultRegistry py) artifactType = some comparator)
    (h : compareCaptured runId comparator policy subject logicalName artifactType o c = .ok x) :
    x.Faithful py := by
  obtain ⟨r, hr, hx⟩ := bind_ok h
  rw [← Except.ok.inj hx]
  refine ⟨ho, hc, rfl, rfl, fun hmatch => ?_⟩
  exact ⟨comparator, policy, r, hreg, hr, ComparisonResult.value_eq_match.1 hmatch, rfl, rfl⟩

theorem compareDeclared_faithful {a : WorkloadArtifact} {x : Compared}
    (h : compareDeclared py now runId oracleResult candidateResult a = .ok x) :
    x.Faithful py := by
  obtain ⟨o, ho, h⟩ := bind_ok h
  obtain ⟨c, hc, h⟩ := bind_ok h
  cases hreg : registered (defaultRegistry py) a.artifactType with
  | none =>
      rw [hreg] at h
      cases h
  | some comparator =>
      simp only [hreg] at h
      cases hbind : bindingMismatch py a comparator.comparatorId.comparatorId with
      | some exc =>
          rw [hbind] at h
          cases h
      | none =>
          rw [hbind] at h
          exact compareCaptured_faithful (captureArtifact_bears ho) (captureArtifact_bears hc)
            hreg h

theorem compareFile_faithful {name : String} {x : Compared}
    (h : compareFile py now runId oracleResult candidateResult name = .ok x) :
    x.Faithful py := by
  obtain ⟨p, hp, h⟩ := bind_ok h
  obtain ⟨ho, hc⟩ := captureFilePair_bears hp
  exact compareCaptured_faithful ho hc rfl h

theorem leaveImage_faithful {name : String} {x : Compared}
    (h : leaveImage py now runId oracleResult candidateResult name = .ok x) :
    x.Faithful py := by
  have hresult := (leaveImage_spec h).2
  obtain ⟨p, hp, h⟩ := bind_ok h
  obtain ⟨ho, hc⟩ := captureFilePair_bears hp
  rw [← Except.ok.inj h] at hresult ⊢
  exact ⟨ho, hc, rfl, rfl, fun hmatch => absurd hmatch hresult⟩

theorem compareRecordsOf_faithful {selects : List SelectClause} {readers : RecordReaders}
    {name : String} {x : Compared}
    (h : compareRecordsOf py now runId oracleResult candidateResult selects readers name =
      .ok (some x)) : x.Faithful py := by
  unfold compareRecordsOf at h
  split at h
  · next org horg =>
    split at h
    · cases Except.ok.inj h
    · obtain ⟨decoded, -, h⟩ := bind_ok h
      cases decoded with
      | none => cases Except.ok.inj h
      | some records =>
          obtain ⟨y, hy, h⟩ := bind_ok h
          obtain rfl : y = x := Option.some.inj (Except.ok.inj h)
          obtain ⟨p, hp, hcmp⟩ := bind_ok hy
          obtain ⟨ho, hc⟩ := captureFilePair_bears hp
          exact compareCaptured_faithful ho hc rfl hcmp
  · cases Except.ok.inj h

/-! ### Runs -/

variable {selects : List SelectClause} {readers : RecordReaders}
variable {workload : WorkloadDefinition} {run : List Compared}

/-- **Every comparison of a run is recorded faithfully**, whichever lane it comes from. -/
theorem faithful_of_run
    (h : runDeclarationDriven py now runId oracleResult candidateResult selects readers workload =
      .ok run) : ∀ x ∈ run, x.Faithful py := by
  intro x hx
  rcases (runLanes h).origin x hx with ⟨a, -, ha⟩ | ⟨name, -, hname⟩ | ⟨name, -, hname | hname⟩
  · exact compareDeclared_faithful ha
  · exact compareRecordsOf_faithful hname
  · exact compareFile_faithful hname
  · exact leaveImage_faithful hname

theorem content_eq_of_compareText_applied {id : ComparatorId} {oracle candidate : ComparedSide}
    {location description : String} {policy : ComparisonPolicy} {r : ComparatorResult}
    (h : compareText py id oracle candidate location description policy = .ok r)
    (hr : r.result = .MATCH) (hnorm : r.normalizationApplied = [])
    (hord : r.orderingApplied = "SEQUENTIAL") : oracle.content = candidate.content := by
  obtain ⟨hn, ho⟩ := compareText_applied h hr
  have hpolicy : policy = ⟨[], "SEQUENTIAL", policy.failure⟩ := by
    rw [← hnorm, ← hord, hn, ho]
  rw [hpolicy] at h
  exact content_eq_of_compareText h hr

/-- So does a comparator of a byte-compared type. -/
theorem content_eq_of_applied {t : String} (ht : t ∈ byteComparedTypes)
    {comparator : TypedComparator} (hreg : registered (defaultRegistry py) t = some comparator)
    {oracle candidate : ComparedSide} {policy : ComparisonPolicy} {r : ComparatorResult}
    (h : comparator.compare oracle candidate policy = .ok r) (hr : r.result = .MATCH)
    (hnorm : r.normalizationApplied = []) (hord : r.orderingApplied = "SEQUENTIAL") :
    oracle.content = candidate.content := by
  simp only [byteComparedTypes, List.mem_cons, List.not_mem_nil, or_false] at ht
  rcases ht with rfl | rfl | rfl | rfl <;> cases hreg
  · exact content_eq_of_compareText_applied h hr hnorm hord
  · exact content_eq_of_compareText_applied h hr hnorm hord
  · exact content_eq_of_compareText_applied h hr hnorm hord
  · -- fixed records are compared byte by byte under any policy
    obtain ⟨a, ha, hb, -⟩ := (compareFixedRecord_match h).1 hr
    rw [ha, hb]

/-! ### Runs that match -/

/-- What two executions share whose comparisons match: the streams under the declared policies, the exit
codes as they are compared, the files that are declared as files or not at all, and what was compared
byte by byte. -/
structure EffectsShared (py : Py.Rendering) (selects : List SelectClause) (readers : RecordReaders)
    (workload : WorkloadDefinition) (oracle candidate : ExecutionResult) (run : List Compared) :
    Prop where
  stdout : ∀ p ∈ streamPolicies workload "STDOUT", SameView py p oracle.stdout candidate.stdout
  stderr : ∀ p ∈ streamPolicies workload "STDERR", SameView py p oracle.stderr candidate.stderr
  exitCode : oracle.exitCode.getD (-1) = candidate.exitCode.getD (-1)
  declared : ∀ path, ∀ a ∈ workload.artifacts, DeclaresFile a path →
    FileAgrees py selects readers workload oracle candidate path
  undeclared : ∀ path, Generated oracle candidate path → path ∉ declaredPaths workload →
    FileAgrees py selects readers workload oracle candidate path
  contents : ∀ x ∈ run, x.evidence.artifactType ∈ byteComparedTypes →
    x.evidence.normalizationApplied = [] → x.evidence.orderingApplied = "SEQUENTIAL" →
    x.oracle.content = x.candidate.content

theorem effectsShared_of_match
    (h : runDeclarationDriven py now runId oracleResult candidateResult selects readers workload =
      .ok run) (hall : ∀ x ∈ run, x.evidence.result = "MATCH") :
    EffectsShared py selects readers workload oracleResult candidateResult run := by
  have hlanes := runLanes h
  have hmatch : ∀ a ∈ effectiveArtifacts workload, ∃ x ∈ run,
      compareDeclared py now runId oracleResult candidateResult a = .ok x ∧
        x.evidence.result = "MATCH" := by
    intro a ha
    obtain ⟨x, hx, hax⟩ := hlanes.declared a ha
    exact ⟨x, hx, hax, hall x hx⟩
  constructor
  case stdout =>
    intro p hp
    obtain ⟨a, ha, hat, rfl⟩ := exists_of_streamPolicies (by decide) hp
    obtain ⟨x, -, hax, hx⟩ := hmatch a ha
    exact (compareDeclared_match hax hx).1 hat
  case stderr =>
    intro p hp
    obtain ⟨a, ha, hat, rfl⟩ := exists_of_streamPolicies (by decide) hp
    obtain ⟨x, -, hax, hx⟩ := hmatch a ha
    exact (compareDeclared_match hax hx).2.1 hat
  case exitCode =>
    obtain ⟨a, ha, hat⟩ := exists_effective workload (t := "EXIT_STATUS") (by decide)
    obtain ⟨x, -, hax, hx⟩ := hmatch a ha
    exact (compareDeclared_match hax hx).2.2.1 hat
  case declared =>
    intro path a ha hfile
    obtain ⟨x, hx, hax, -⟩ := hmatch a (mem_effectiveArtifacts ha)
    exact fileAgrees_of_covers hlanes hall hx ((compareDeclared_spec hax).1 ▸ hfile)
  case undeclared =>
    intro path hgen hpath
    obtain ⟨x, hx, hcov⟩ : ∃ x ∈ run, x.subject.covers path := by
      rcases hlanes.files path (mem_undeclaredFiles.2 ⟨hgen, hpath⟩) with
        ⟨x, hx, hcov, -⟩ | ⟨x, hx, hfile | himage⟩
      · exact ⟨x, hx, hcov⟩
      · exact ⟨x, hx, (compareFile_spec hfile).1 ▸ rfl⟩
      · exact ⟨x, hx, (leaveImage_spec himage).1 ▸ rfl⟩
    exact fileAgrees_of_covers hlanes hall hx hcov
  case contents =>
    intro x hx htype hnormalization hordering
    obtain ⟨comparator, policy, r, hreg, hcmp, hr, hnorm, hord⟩ :=
      (faithful_of_run h x hx).answered (hall x hx)
    exact content_eq_of_applied htype hreg hcmp hr (hnorm.trans hnormalization)
      (hord.trans hordering)

end Run

/-! ### The manifest of a run -/

/-- The effects no comparator observes, in the order of their artifact types. -/
inductive UnobservedEffect
  | databaseState
  | messageQueueEffects
  | transactionEffects
  deriving DecidableEq

namespace UnobservedEffect

def artifactType : UnobservedEffect → String
  | databaseState => "DATABASE_STATE"
  | messageQueueEffects => "MESSAGE_QUEUE_EFFECTS"
  | transactionEffects => "TRANSACTION_EFFECTS"

def logicalName : UnobservedEffect → String
  | databaseState => "database-state"
  | messageQueueEffects => "message-queue-effects"
  | transactionEffects => "transaction-effects"

theorem artifactType_mem (e : UnobservedEffect) : e.artifactType ∈ validArtifactTypes := by
  cases e <;> decide

/-- What stands for the effect of an execution. -/
def marker (now : String) (executionId : ExecutionId) (side : Side) (e : UnobservedEffect) :
    CapturedArtifact :=
  captureMissing now executionId e.artifactType e.logicalName side e.artifactType_mem

/-- The comparison that binds the two markers. -/
def comparison (now : String) (runId : RunId) (workloadId : WorkloadId)
    (oracle candidate : ExecutionId) (e : UnobservedEffect) : ComparisonEvidence :=
  { inconclusiveComparison runId e.logicalName e.artifactType (e.marker now oracle .oracle)
      (e.marker now candidate .candidate) { comparatorId := "unobserved-effect", version := "1.0.0" }
      (s!"{e.artifactType}: the program has {e.logicalName} that no" ++
        " comparator observes; equivalence of those effects is unproven") with
    workloadId := some workloadId }

theorem comparison_result (now : String) (runId : RunId) (workloadId : WorkloadId)
    (oracle candidate : ExecutionId) (e : UnobservedEffect) :
    (e.comparison now runId workloadId oracle candidate).result = "INCONCLUSIVE" := rfl

end UnobservedEffect

section Assembly

variable (py : Py.Rendering) (now : String) (oracle candidate : ExecutionId)

/-- `_unobserved_effect_evidence`; `found` says whether a pattern of the effect stands in the source. -/
def unobservedEffects (found : UnobservedEffect → Bool) : List UnobservedEffect :=
  [.databaseState, .messageQueueEffects, .transactionEffects].filter found

/-- The manifest of `VerticalSlicePipeline.run`: the comparisons of a run with its workload, and those
of the effects that are not observed.  The identities and executions are those of `base`. -/
def assembledManifest (base : EvidenceManifest) (found : UnobservedEffect → Bool)
    (run : List Compared) : EvidenceManifest :=
  let effects := unobservedEffects found
  EvidenceManifest.postInit
    { base with
      artifactEvidence := artifactEvidenceOf run ++ effects.flatMap fun e =>
        [(e.marker now oracle .oracle).toEvidence, (e.marker now candidate .candidate).toEvidence]
      comparisonEvidence :=
        (comparisonEvidenceOf run).map (fun c => { c with workloadId := some base.workloadId }) ++
          effects.map (UnobservedEffect.comparison now base.runId base.workloadId oracle candidate)
      verdictEvidence := none
      sealedHash := none }

/-- The verdict of a run: on a manifest that is not accepted it never certifies. -/
def pipelineVerdict (m : EvidenceManifest) : Except Exc Verdict :=
  match validate py m now with
  | .ok validated => deriveFromValidated py validated now
  | .error violations => deriveUntrusted py m violations now

end Assembly

/-- A run is verified only if its manifest is certified. -/
theorem certified_of_pipelineVerdict {py : Py.Rendering} {now : String} {m : EvidenceManifest}
    {d : Verdict} (h : pipelineVerdict py now m = .ok d) (hstate : d.state = .VERIFIED) :
    Certified m := by
  unfold pipelineVerdict at h
  cases hv : validate py m now with
  | ok v =>
      rw [hv] at h
      obtain ⟨hb, -, hmanifest, -⟩ := validate_ok hv
      exact hb.certified (hmanifest ▸ (deriveFromValidated_verified h hstate).2)
  | error violations =>
      rw [hv] at h
      obtain ⟨natural, -, h⟩ := bind_ok h
      split_ifs at h with hnatural
      · rw [← Except.ok.inj h] at hstate
        exact absurd hstate hnatural
      · unfold failClosed at h
        cases ho : m.oracleIdentity with
        | none =>
            rw [ho] at h
            cases h
        | some o =>
            rw [ho] at h
            rw [← Except.ok.inj h] at hstate
            cases hstate

namespace Sample

/-- The comparisons of two executions that wrote one report. -/
def reported : List Compared :=
  ((runDeclarationDriven plain "now" matching.runId (reporting oracleRun.executionId [65])
    (reporting candidateRun.executionId [65]) [] noReaders (consoleWorkload none)).toOption).getD []

/-- The manifest that records them. -/
def reportedManifest : EvidenceManifest :=
  assembledManifest "now" oracleRun.executionId candidateRun.executionId matching (fun _ => false)
    reported

end Sample

end CobolJava
