/-
**The verdict as a function of findings.**

What a manifest shows is a set of findings, each of them about one list of records: some execution
failed, some comparison is a mismatch, and so on.  The ordered chain of checks of
`Verdict/Derivation.lean` reads nothing else, so the state of a verdict is a function of the
findings.  Findings do not depend on the order of the records and are only ever added when records
are, which is what makes verdicts independent of the order and downgrade-only.

Main definitions:

* `Finding`, `EvidenceManifest.shows` — the findings, and those a manifest shows;
* `verdictOf` — the state a set of findings leads to;
* `Extends`, `Permutes` — manifests with appended, and with permuted, records.

Main results:

* `derive_state` — **the derivation refines `verdictOf`**;
* `verdictOf_downgrade` — a failure among the findings bars `VERIFIED` for every larger set;
* `derive_downgrade_only_and_order_independent` — the two consequences for manifests.
-/

import CobolJava.Evidence.Sample
import CobolJava.Verdict.Derivation
import Mathlib.Data.List.Perm.Basic
import Mathlib.Tactic.Common

set_option autoImplicit false

namespace CobolJava

open VerdictDeriver

/-! ### Findings -/

/-- What a manifest can show. -/
inductive Finding where
  | executionError
  | oracleExecuted
  | oracleUnusable
  | oracleCompleted
  | candidateExecuted
  | candidateUnusable
  | candidateCompleted
  | artifactCaptured
  | unsupportedArtifact
  | compared
  | mismatch
  | inconclusive
  | unknownResult
deriving DecidableEq

def ExecutionEvidence.shows (e : ExecutionEvidence) : Finding → Bool
  | .executionError => e.terminationStatus == "error" || e.timeoutApplied
  | .oracleExecuted => e.isOracle
  | .oracleUnusable => e.isOracle && oracleUnavailableStatuses.contains e.terminationStatus
  | .oracleCompleted => e.isOracle && !incompleteStatuses.contains e.terminationStatus
  | .candidateExecuted => e.isCandidate
  | .candidateUnusable =>
      e.isCandidate && candidateUnavailableStatuses.contains e.terminationStatus
  | .candidateCompleted => e.isCandidate && !incompleteStatuses.contains e.terminationStatus
  | _ => false

def ArtifactEvidence.shows (a : ArtifactEvidence) : Finding → Bool
  | .artifactCaptured => true
  | .unsupportedArtifact => !supportedTypes.contains a.artifact.artifactType
  | _ => false

def ComparisonEvidence.shows (c : ComparisonEvidence) : Finding → Bool
  | .compared => true
  | .mismatch => c.result == "MISMATCH"
  | .inconclusive => c.result == "INCONCLUSIVE"
  | .unknownResult => !knownComparisonResults.contains c.result
  | _ => false

/-- The findings of a manifest are those of its records. -/
def EvidenceManifest.shows (m : EvidenceManifest) (f : Finding) : Bool :=
  m.executionEvidence.any (fun e => e.shows f) || m.artifactEvidence.any (fun a => a.shows f) ||
    m.comparisonEvidence.any fun c => c.shows f

/-- The state a set of findings leads to. -/
def verdictOf (s : Finding → Bool) : VerdictState :=
  if s .executionError then .ERROR
  else if !s .oracleExecuted || s .oracleUnusable || !s .candidateExecuted ||
      s .candidateUnusable then .UNAVAILABLE
  else if s .unsupportedArtifact then .UNSUPPORTED
  else if !s .oracleCompleted || !s .candidateCompleted || !s .artifactCaptured ||
      !s .compared then .UNPROVEN
  else if s .unknownResult then .ERROR
  else if s .mismatch then .FAILED
  else if s .inconclusive then .PARTIAL
  else .VERIFIED

/-- The findings that bar a certification whatever else is found. -/
def barring : List Finding :=
  [.executionError, .oracleUnusable, .candidateUnusable, .unsupportedArtifact, .unknownResult,
    .mismatch, .inconclusive]

theorem verdictOf_verified {s : Finding → Bool} (h : verdictOf s = .VERIFIED) :
    ∀ f ∈ barring, s f = false := by
  unfold verdictOf at h
  split_ifs at h
  simp_all [barring]

/-- The states that stay barred from certification: each has a barring finding as its cause. -/
def downgraded : List VerdictState := [.ERROR, .UNSUPPORTED, .FAILED, .PARTIAL]

theorem verdictOf_downgraded {s : Finding → Bool} (h : verdictOf s ∈ downgraded) :
    ∃ f ∈ barring, s f = true := by
  unfold verdictOf at h
  split_ifs at h with h1 h2 h3 h4 h5 h6 h7
  · exact ⟨.executionError, by decide, h1⟩
  · simp [downgraded] at h
  · exact ⟨.unsupportedArtifact, by decide, h3⟩
  · simp [downgraded] at h
  · exact ⟨.unknownResult, by decide, h5⟩
  · exact ⟨.mismatch, by decide, h6⟩
  · exact ⟨.inconclusive, by decide, h7⟩
  · simp [downgraded] at h

/-- **A downgraded verdict stays below `VERIFIED`** under any further findings. -/
theorem verdictOf_downgrade {s t : Finding → Bool} (hst : ∀ f, s f = true → t f = true)
    (h : verdictOf s ∈ downgraded) : verdictOf t ≠ .VERIFIED := by
  intro ht
  obtain ⟨f, hf, hs⟩ := verdictOf_downgraded h
  have hfalse := verdictOf_verified ht f hf
  rw [hst f hs] at hfalse
  exact absurd hfalse (by decide)

/-! ### The derivation reads the findings -/

theorem any_false {α : Type*} (xs : List α) : (xs.any fun _ => false) = false := by
  induction xs <;> simp_all

theorem any_true {α : Type*} (xs : List α) : (xs.any fun _ => true) = !xs.isEmpty := by
  cases xs <;> rfl

theorem shows_exec {m : EvidenceManifest} {f : Finding}
    (ha : ∀ a : ArtifactEvidence, a.shows f = false)
    (hc : ∀ c : ComparisonEvidence, c.shows f = false) :
    m.shows f = m.executionEvidence.any fun e => e.shows f := by
  simp [EvidenceManifest.shows, ha, hc, any_false]

theorem shows_artifact {m : EvidenceManifest} {f : Finding}
    (he : ∀ e : ExecutionEvidence, e.shows f = false)
    (hc : ∀ c : ComparisonEvidence, c.shows f = false) :
    m.shows f = m.artifactEvidence.any fun a => a.shows f := by
  simp [EvidenceManifest.shows, he, hc, any_false]

theorem shows_comparison {m : EvidenceManifest} {f : Finding}
    (he : ∀ e : ExecutionEvidence, e.shows f = false)
    (ha : ∀ a : ArtifactEvidence, a.shows f = false) :
    m.shows f = m.comparisonEvidence.any fun c => c.shows f := by
  simp [EvidenceManifest.shows, he, ha, any_false]

theorem any_filter_and {α : Type*} (xs : List α) (p q : α → Bool) :
    (xs.filter p).any q = xs.any fun x => p x && q x := by
  rw [List.any_filter]

theorem isEmpty_filter {α : Type*} (xs : List α) (p : α → Bool) :
    (xs.filter p).isEmpty = !xs.any p := by
  induction xs with
  | nil => rfl
  | cons x xs ih => cases hx : p x <;> simp [hx, ih]

theorem checkForErrors_eq (m : EvidenceManifest) :
    checkForErrors m = if m.shows .executionError then some .ERROR else none := by
  rw [shows_exec (fun _ => rfl) (fun _ => rfl)]
  rfl

theorem checkForUnavailable_eq (m : EvidenceManifest) :
    checkForUnavailable m =
      if !m.shows .oracleExecuted || m.shows .oracleUnusable || !m.shows .candidateExecuted ||
        m.shows .candidateUnusable then some .UNAVAILABLE else none := by
  have h1 : m.oracleExecs.isEmpty = !m.shows .oracleExecuted := by
    rw [shows_exec (fun _ => rfl) (fun _ => rfl)]
    exact isEmpty_filter _ _
  have h2 : (m.oracleExecs.any fun e => oracleUnavailableStatuses.contains e.terminationStatus) =
      m.shows .oracleUnusable := by
    rw [shows_exec (fun _ => rfl) (fun _ => rfl)]
    exact any_filter_and _ _ _
  have h3 : m.candidateExecs.isEmpty = !m.shows .candidateExecuted := by
    rw [shows_exec (fun _ => rfl) (fun _ => rfl)]
    exact isEmpty_filter _ _
  have h4 : (m.candidateExecs.any fun e =>
      candidateUnavailableStatuses.contains e.terminationStatus) = m.shows .candidateUnusable := by
    rw [shows_exec (fun _ => rfl) (fun _ => rfl)]
    exact any_filter_and _ _ _
  simp only [checkForUnavailable, h1, h2, h3, h4]
  cases m.shows .oracleExecuted <;> cases m.shows .oracleUnusable <;>
    cases m.shows .candidateExecuted <;> cases m.shows .candidateUnusable <;> rfl

theorem checkForUnsupported_eq (m : EvidenceManifest) :
    checkForUnsupported m = if m.shows .unsupportedArtifact then some .UNSUPPORTED else none := by
  rw [shows_artifact (fun _ => rfl) (fun _ => rfl)]
  rfl

theorem isComplete_eq (m : EvidenceManifest) :
    m.isComplete = (m.shows .oracleCompleted && m.shows .candidateCompleted &&
      m.shows .artifactCaptured && m.shows .compared) := by
  have h1 : (m.oracleExecs.any fun e => !incompleteStatuses.contains e.terminationStatus) =
      m.shows .oracleCompleted := by
    rw [shows_exec (fun _ => rfl) (fun _ => rfl)]
    exact any_filter_and _ _ _
  have h2 : (m.candidateExecs.any fun e => !incompleteStatuses.contains e.terminationStatus) =
      m.shows .candidateCompleted := by
    rw [shows_exec (fun _ => rfl) (fun _ => rfl)]
    exact any_filter_and _ _ _
  have h3 : m.artifactEvidence.isEmpty = !m.shows .artifactCaptured := by
    rw [shows_artifact (fun _ => rfl) (fun _ => rfl)]
    simp [ArtifactEvidence.shows, any_true]
  have h4 : m.comparisonEvidence.isEmpty = !m.shows .compared := by
    rw [shows_comparison (fun _ => rfl) (fun _ => rfl)]
    simp [ComparisonEvidence.shows, any_true]
  simp only [EvidenceManifest.isComplete, h1, h2, h3, h4]
  cases m.shows .oracleCompleted <;> cases m.shows .candidateCompleted <;>
    cases m.shows .artifactCaptured <;> cases m.shows .compared <;> rfl

theorem step_flags (py : Py.Rendering) (s : Analysis) (c : ComparisonEvidence) :
    (s.step py c).hasMismatch = (s.hasMismatch || c.shows .mismatch) ∧
      (s.step py c).hasInconclusive = (s.hasInconclusive || c.shows .inconclusive) ∧
      (s.step py c).hasUnknown = (s.hasUnknown || c.shows .unknownResult) := by
  unfold Analysis.step
  split_ifs with h1 h2 h3 <;> simp_all [ComparisonEvidence.shows, knownComparisonResults]

theorem foldl_flags (py : Py.Rendering) (cs : List ComparisonEvidence) (s : Analysis) :
    (cs.foldl (Analysis.step py) s).hasMismatch =
        (s.hasMismatch || cs.any fun c => c.shows .mismatch) ∧
      (cs.foldl (Analysis.step py) s).hasInconclusive =
        (s.hasInconclusive || cs.any fun c => c.shows .inconclusive) ∧
      (cs.foldl (Analysis.step py) s).hasUnknown =
        (s.hasUnknown || cs.any fun c => c.shows .unknownResult) := by
  induction cs generalizing s with
  | nil => simp
  | cons c cs ih =>
      obtain ⟨h1, h2, h3⟩ := ih (s.step py c)
      obtain ⟨s1, s2, s3⟩ := step_flags py s c
      simp only [List.foldl_cons, List.any_cons, h1, h2, h3, s1, s2, s3, Bool.or_assoc, and_self]

theorem analyze_state (py : Py.Rendering) (m : EvidenceManifest) :
    (analyze py m.comparisonEvidence).state =
      if m.shows .unknownResult then .ERROR else if m.shows .mismatch then .FAILED
      else if m.shows .inconclusive then .PARTIAL else .VERIFIED := by
  obtain ⟨h1, h2, h3⟩ := foldl_flags py m.comparisonEvidence Analysis.init
  rw [shows_comparison (fun _ => rfl) (fun _ => rfl),
    shows_comparison (fun _ => rfl) (fun _ => rfl), shows_comparison (fun _ => rfl) (fun _ => rfl),
    Analysis.state, analyze, h1, h2, h3]
  rfl

/-- The state of a created verdict, or the exception when the manifest names no oracle. -/
def stateResult (m : EvidenceManifest) (s : VerdictState) : Except Py.Exc VerdictState :=
  match m.oracleIdentity with
  | none => .error (.noneAttribute "oracle_id")
  | some _ => .ok s

theorem createVerdict_state (s : VerdictState) (m : EvidenceManifest) (ds : List String)
    (now : String) : (createVerdict s m ds now).map Verdict.state = stateResult m s := by
  unfold createVerdict stateResult
  cases m.oracleIdentity <;> rfl

theorem length_ne_zero_of_isComplete {m : EvidenceManifest} (h : m.isComplete = true) :
    m.comparisonEvidence.length ≠ 0 := by
  intro h0
  rw [isComplete_eq, Bool.and_eq_true,
    shows_comparison (f := .compared) (fun _ => rfl) (fun _ => rfl),
    List.length_eq_zero_iff.1 h0] at h
  exact absurd h.2 (by decide)

/-- **The derivation refines the function of the findings.** -/
theorem derive_state (py : Py.Rendering) (m : EvidenceManifest) (now : String) :
    (derive py m now).map Verdict.state = stateResult m (verdictOf m.shows) := by
  have hincomplete : (!m.shows .oracleCompleted || !m.shows .candidateCompleted ||
      !m.shows .artifactCaptured || !m.shows .compared) = !m.isComplete := by
    simp only [isComplete_eq, Bool.not_and]
  unfold derive verdictOf
  rw [checkForErrors_eq, checkForUnavailable_eq, checkForUnsupported_eq, hincomplete]
  -- one case for each check of the chain, in order
  cases h1 : m.shows .executionError with
  | true => simp only [if_true, createVerdict_state]
  | false =>
    cases h2 : (!m.shows .oracleExecuted || m.shows .oracleUnusable ||
      !m.shows .candidateExecuted || m.shows .candidateUnusable) with
    | true => simp only [if_true, createVerdict_state, Bool.false_eq_true, if_false]
    | false =>
      cases h3 : m.shows .unsupportedArtifact with
      | true => simp only [if_true, createVerdict_state, Bool.false_eq_true, if_false]
      | false =>
        cases h4 : m.isComplete with
        | false =>
            simp only [Bool.not_false, if_true, createVerdict_state, Bool.false_eq_true, if_false]
        | true =>
            simp only [Bool.not_true, Bool.false_eq_true, if_false,
              length_ne_zero_of_isComplete h4, createVerdict_state, analyze_state]

/-! ### Appending and permuting records -/

/-- The manifest `m'` is `m` with executions, artifacts and comparisons appended, under any seal. -/
def Extends (m m' : EvidenceManifest) : Prop :=
  ∃ es as cs hash, m' = { m with
    executionEvidence := m.executionEvidence ++ es
    artifactEvidence := m.artifactEvidence ++ as
    comparisonEvidence := m.comparisonEvidence ++ cs
    sealedHash := hash }

/-- The manifest `m'` is `m` with its executions, artifacts and comparisons permuted, under any
seal. -/
def Permutes (m m' : EvidenceManifest) : Prop :=
  ∃ es as cs hash, es.Perm m.executionEvidence ∧ as.Perm m.artifactEvidence ∧
    cs.Perm m.comparisonEvidence ∧ m' = { m with
      executionEvidence := es
      artifactEvidence := as
      comparisonEvidence := cs
      sealedHash := hash }

theorem shows_of_extends {m m' : EvidenceManifest} (h : Extends m m') (f : Finding)
    (hf : m.shows f = true) : m'.shows f = true := by
  obtain ⟨es, as, cs, hash, rfl⟩ := h
  simp only [EvidenceManifest.shows, List.any_append, Bool.or_eq_true] at hf ⊢
  tauto

theorem shows_of_permutes {m m' : EvidenceManifest} (h : Permutes m m') : m'.shows = m.shows := by
  obtain ⟨es, as, cs, hash, he, ha, hc, rfl⟩ := h
  funext f
  simp only [EvidenceManifest.shows, he.any_eq, ha.any_eq, hc.any_eq]

theorem state_of_derive {py : Py.Rendering} {m : EvidenceManifest} {now : String} {v : Verdict}
    (h : derive py m now = .ok v) : v.state = verdictOf m.shows := by
  have hs := derive_state py m now
  rw [h] at hs
  unfold stateResult at hs
  cases ho : m.oracleIdentity with
  | none => simp [ho, Except.map] at hs
  | some o => simpa [ho, Except.map] using hs

theorem exists_derive (py : Py.Rendering) {m : EvidenceManifest} (now : String)
    {o : OracleIdentity} (ho : m.oracleIdentity = some o) :
    ∃ v, derive py m now = .ok v ∧ v.state = verdictOf m.shows := by
  cases hd : derive py m now with
  | error e =>
      have hs := derive_state py m now
      simp [hd, stateResult, ho, Except.map] at hs
  | ok v => exact ⟨v, rfl, state_of_derive hd⟩

/-- **Verdicts are downgrade-only**: once a verdict is an error, unsupported, failed or partial,
no appended evidence makes it `VERIFIED`; and they do not depend on the order of the evidence. -/
theorem derive_downgrade_only_and_order_independent (py : Py.Rendering) (m : EvidenceManifest)
    (now now' : String) :
    (∀ v, derive py m now = .ok v → v.state ∈ downgraded →
      ∀ m', Extends m m' → ∀ v', derive py m' now' = .ok v' → v'.state ≠ .VERIFIED) ∧
    ∀ m', Permutes m m' →
      (derive py m' now').map Verdict.state = (derive py m now).map Verdict.state := by
  constructor
  · intro v hv hbad m' hext v' hv'
    rw [state_of_derive hv] at hbad
    rw [state_of_derive hv']
    exact verdictOf_downgrade (shows_of_extends hext) hbad
  · intro m' hperm
    rw [derive_state, derive_state, shows_of_permutes hperm]
    obtain ⟨es, as, cs, hash, -, -, -, rfl⟩ := hperm
    rfl

/-- The outputs differ, and the comparison says so. -/
def Sample.mismatching : EvidenceManifest :=
  Sample.manifest
    [Sample.stdout "stdout-o" "ORACLE" Sample.oracleRun.executionId (Sample.hashOf '1'),
      Sample.stdout "stdout-c" "CANDIDATE" Sample.candidateRun.executionId (Sample.hashOf '2')]
    [Sample.comparison "stdout-o" "stdout-c" "MISMATCH"]

theorem derive_downgrade_only_mismatching :
    ∃ v, derive Sample.plain Sample.mismatching "t3" = .ok v ∧ v.state = .FAILED ∧
      ∀ m', Extends Sample.mismatching m' → ∀ v', derive Sample.plain m' "t4" = .ok v' →
        v'.state ≠ .VERIFIED := by
  obtain ⟨v, hv, hstate⟩ := exists_derive Sample.plain (m := Sample.mismatching) "t3" rfl
  have hfailed : v.state = .FAILED := by
    rw [hstate]
    decide
  refine ⟨v, hv, hfailed, ?_⟩
  exact (derive_downgrade_only_and_order_independent Sample.plain Sample.mismatching "t3" "t4").1 v
    hv (by rw [hfailed]; decide)

end CobolJava
