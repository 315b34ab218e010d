/-
**The trust boundary.**

What the validator and the derivation guarantee together.  A `VERIFIED` verdict derived from a
validated manifest certifies the manifest as it is at that moment, even if the object was mutated
after the validation; and nothing outside the canonical evidence graph has a say in the outcome.

Main definitions:

* `Certified` — what a `VERIFIED` verdict certifies;
* `Verdict.timeless` — a verdict without the time of its derivation;
* `SameOutcome` — validation and derivation make the same of two manifests.

Main results:

* `certified_of_verified` — **soundness of `VERIFIED`** through the boundary;
* `sameOutcome_of_graph_eq` — **the outcome is a function of the sealed graph**.
-/

import CobolJava.Evidence.Sample
import CobolJava.Verdict.Findings

set_option autoImplicit false

namespace CobolJava

open VerdictDeriver

/-! ### What a certification says -/

/-- What a `VERIFIED` verdict certifies of a manifest. -/
structure Certified (m : EvidenceManifest) : Prop where
  no_error : ∀ e ∈ m.executionEvidence, e.terminationStatus ≠ "error" ∧ e.timeoutApplied = false
  oracle_exists : ∃ e ∈ m.executionEvidence, e.isOracle = true
  oracle_usable : ∀ e ∈ m.executionEvidence, e.isOracle = true →
    e.terminationStatus ∉ ["error", "timeout", "nonzero_exit"]
  candidate_executed : ∃ e ∈ m.executionEvidence, e.isCandidate = true ∧
    e.executionPhase = "EXECUTE"
  candidate_usable : ∀ e ∈ m.executionEvidence, e.isCandidate = true →
    e.terminationStatus ∉ ["error", "timeout"]
  execution_bound : ∀ e ∈ m.executionEvidence, e.runId = m.runId ∧
    ∀ w, e.workloadId = some w → w = m.workloadId
  comparison_bound : ∀ c ∈ m.comparisonEvidence, c.runId = m.runId ∧
    ∀ w, c.workloadId = some w → w = m.workloadId
  source_unchanged : ∀ e ∈ m.executionEvidence, e.sourceTreeHashBefore = e.sourceTreeHashAfter
  candidate_source : ∀ c, m.candidateIdentity = some c →
    c.sourceHash = m.sourceIdentity.sourceHash
  supported : ∀ a ∈ m.artifactEvidence, a.artifact.artifactType ∈ supportedTypes
  compared : m.comparisonEvidence ≠ []
  comparison_match : ∀ c ∈ m.comparisonEvidence, c.result = "MATCH" ∧ c.differences = [] ∧
    Paired m c ∧ ∃ id, canonicalComparatorIds.lookup c.artifactType = some id ∧
      resolveAlias c.comparatorId = id

theorem lookup_of_supported : ∀ t ∈ supportedTypes, ∃ id,
    canonicalComparatorIds.lookup t = some id := by
  intro t ht
  simp only [supportedTypes, List.mem_cons, List.not_mem_nil, or_false] at ht
  rcases ht with rfl | rfl | rfl | rfl | rfl | rfl <;> exact ⟨_, rfl⟩

theorem shows_eq_false {m : EvidenceManifest} {f : Finding} (h : m.shows f = false) :
    (∀ e ∈ m.executionEvidence, e.shows f = false) ∧
      (∀ a ∈ m.artifactEvidence, a.shows f = false) ∧
      ∀ c ∈ m.comparisonEvidence, c.shows f = false := by
  simp only [EvidenceManifest.shows, Bool.or_eq_false_iff, List.any_eq_false, Bool.not_eq_true] at h
  exact ⟨h.1.1, h.1.2, h.2⟩

/-- A bound manifest whose findings lead to `VERIFIED` is certified. -/
theorem Bound.certified {m : EvidenceManifest} (hb : Bound m)
    (hv : verdictOf m.shows = .VERIFIED) : Certified m := by
  have hbar := fun f hf => shows_eq_false (verdictOf_verified hv f hf)
  have herr := (hbar .executionError (by decide)).1
  have horacle := (hbar .oracleUnusable (by decide)).1
  have hcand := (hbar .candidateUnusable (by decide)).1
  have hsupp := (hbar .unsupportedArtifact (by decide)).2.1
  have hmis := (hbar .mismatch (by decide)).2.2
  have hinc := (hbar .inconclusive (by decide)).2.2
  have hsupported : ∀ a ∈ m.artifactEvidence, a.artifact.artifactType ∈ supportedTypes := by
    intro a ha
    simpa [ArtifactEvidence.shows] using hsupp a ha
  refine
    { no_error := fun e he => by simpa [ExecutionEvidence.shows] using herr e he
      oracle_exists := ?_
      oracle_usable := fun e he ho => by
        simpa [ExecutionEvidence.shows, ho, oracleUnavailableStatuses] using horacle e he
      candidate_executed := ?_
      candidate_usable := fun e he hc => by
        simpa [ExecutionEvidence.shows, hc, candidateUnavailableStatuses] using hcand e he
      execution_bound := fun e he => ⟨hb.exec_run e he, hb.exec_workload e he⟩
      comparison_bound := fun c hc => ⟨hb.comparison_run c hc, hb.comparison_workload c hc⟩
      source_unchanged := hb.source_unchanged
      candidate_source := hb.candidate_source
      supported := hsupported
      compared := hb.compared
      comparison_match := ?_ }
  · obtain ⟨e, he⟩ := List.exists_mem_of_ne_nil _ hb.oracle_exec
    obtain ⟨hmem, hor⟩ := List.mem_filter.1 he
    exact ⟨e, hmem, hor⟩
  · obtain ⟨e, he, hphase⟩ := hb.candidate_executed
    obtain ⟨hmem, hcd⟩ := List.mem_filter.1 he
    exact ⟨e, hmem, hcd, hphase⟩
  · intro c hc
    have hpair := hb.paired c hc
    -- a known result that is neither a mismatch nor inconclusive
    have hres : c.result = "MATCH" := by
      have hknown := hb.known_result c hc
      have h1 := hmis c hc
      have h2 := hinc c hc
      simp only [ComparisonEvidence.shows, beq_eq_false_iff_ne] at h1 h2
      simp only [knownComparisonResults, List.mem_cons, List.not_mem_nil, or_false] at hknown
      tauto
    obtain ⟨a, ha, -, htype⟩ := hpair.oracle
    obtain ⟨id, hid⟩ := lookup_of_supported _ (hsupported a (resolve_mem ha))
    rw [htype] at hid
    exact ⟨hres, hpair.no_differences hres, hpair, id, hid, hb.comparator c hc id hid⟩

/-- A verdict derived from a validated manifest is `VERIFIED` only if the graph is the one that
was validated and its findings lead there. -/
theorem deriveFromValidated_verified {py : Py.Rendering} {v : ValidatedEvidenceManifest}
    {now : String} {d : Verdict} (h : deriveFromValidated py v now = .ok d)
    (hd : d.state = .VERIFIED) :
    v.manifest.manifestHash = v.integrityHash ∧ verdictOf v.manifest.shows = .VERIFIED := by
  unfold deriveFromValidated at h
  by_cases hh : v.manifest.manifestHash = v.integrityHash
  · simp only [hh, ne_eq, not_true_eq_false, if_false] at h
    exact ⟨hh, by rw [← state_of_derive h, hd]⟩
  · simp only [ne_eq, hh, not_false_eq_true, if_true] at h
    unfold failClosed at h
    cases ho : v.manifest.oracleIdentity with
    | none => simp [ho] at h
    | some o =>
        simp only [ho, Except.ok.injEq] at h
        rw [← h] at hd
        simp at hd

theorem deriveFromValidated_of_unchanged (py : Py.Rendering) {v : ValidatedEvidenceManifest}
    (now : String) {o : OracleIdentity} (hhash : v.manifest.manifestHash = v.integrityHash)
    (ho : v.manifest.oracleIdentity = some o) :
    ∃ d, deriveFromValidated py v now = .ok d ∧ d.state = verdictOf v.manifest.shows := by
  simp only [deriveFromValidated, hhash, ne_eq, not_true_eq_false, if_false]
  exact exists_derive py now ho

/-- **Soundness of `VERIFIED`**: when the validator accepted `m` and the verdict derived from the
same object, mutated to `m'` in between, is `VERIFIED`, then the graph of `m'` is the one that was
validated and `m'` is certified; provided the two texts hashed do not collide. -/
theorem certified_of_verified {py : Py.Rendering} {m m' : EvidenceManifest} {now now' : String}
    {v : ValidatedEvidenceManifest} {d : Verdict}
    (hcf : graphHash m' = graphHash m → graphText m' = graphText m)
    (hv : validate py m now = .ok v)
    (hd : deriveFromValidated py { v with manifest := m' } now' = .ok d)
    (hstate : d.state = .VERIFIED) :
    canonicalEvidenceGraph m' = canonicalEvidenceGraph m ∧ Certified m' := by
  obtain ⟨hb, -, -, hhash⟩ := validate_ok hv
  obtain ⟨hlive, hfind⟩ := deriveFromValidated_verified hd hstate
  have htext : graphText m' = graphText m := hcf (hlive.trans hhash)
  have hcov : m'.covered = m.covered := covered_of_graphText htext
  exact ⟨canonicalEvidenceGraph_eq_iff.2 hcov, (hb.of_covered_eq hcov.symm).certified hfind⟩

theorem certified_of_verified_matching :
    canonicalEvidenceGraph Sample.matching = canonicalEvidenceGraph Sample.matching ∧
      Certified Sample.matching := by
  obtain ⟨d, hd, hstate⟩ := deriveFromValidated_of_unchanged Sample.plain
    (v := Sample.validated Sample.matching "now") "now" rfl rfl
  rw [show verdictOf (Sample.validated Sample.matching "now").manifest.shows = .VERIFIED by
    decide] at hstate
  exact certified_of_verified (fun _ => rfl) (Sample.validate_matching "now") hd hstate

/-! ### The outcome is a function of the sealed graph -/

/-- A verdict without the time of its derivation. -/
def Verdict.timeless (v : Verdict) : Verdict := { v with derivationTimestamp := "" }

@[simp] theorem Verdict.timeless_state (v : Verdict) : v.timeless.state = v.state := rfl

/-- Two derivations agree up to the time of the derivation. -/
def SameVerdict (d d' : Except Py.Exc Verdict) : Prop :=
  d.map Verdict.timeless = d'.map Verdict.timeless

/-- Validation accepts both manifests or rejects both with the same violations, and the verdicts
derived from the outcome agree up to the time of the derivation. -/
def SameOutcome (py : Py.Rendering) (m m' : EvidenceManifest) (now now' : String) : Prop :=
  (∃ v v', validate py m now = .ok v ∧ validate py m' now' = .ok v' ∧
    SameVerdict (deriveFromValidated py v now) (deriveFromValidated py v' now')) ∨
  ∃ vs, validate py m now = .error vs ∧ validate py m' now' = .error vs ∧
    SameVerdict (deriveUntrusted py m vs now) (deriveUntrusted py m' vs now')

theorem createVerdict_covered (s : VerdictState) (m : EvidenceManifest) (ds : List String)
    (now : String) : createVerdict s m.covered ds now = createVerdict s m ds now := by
  have hhash : m.covered.manifestHash = m.manifestHash := by
    simp only [EvidenceManifest.manifestHash, graphHash, graphText, canonicalEvidenceGraph_covered]
  simp only [createVerdict, hhash]
  rfl

theorem checkForUnsupported_covered (m : EvidenceManifest) :
    checkForUnsupported m.covered = checkForUnsupported m := by
  simp only [checkForUnsupported, EvidenceManifest.covered, List.any_map]
  rfl

theorem isComplete_covered (m : EvidenceManifest) : m.covered.isComplete = m.isComplete := by
  have hempty : m.covered.artifactEvidence.isEmpty = m.artifactEvidence.isEmpty := by
    simp [EvidenceManifest.covered]
  simp only [EvidenceManifest.isComplete, hempty]
  rfl

theorem derive_covered (py : Py.Rendering) (m : EvidenceManifest) (now : String) :
    derive py m.covered now = derive py m now := by
  have herr : checkForErrors m.covered = checkForErrors m := rfl
  have hunav : checkForUnavailable m.covered = checkForUnavailable m := rfl
  have hreason : unavailableReason m.covered = unavailableReason m := rfl
  have hcomp : m.covered.comparisonEvidence = m.comparisonEvidence := rfl
  simp only [derive, herr, hunav, hreason, hcomp, checkForUnsupported_covered,
    isComplete_covered, createVerdict_covered]

theorem failClosed_covered (m : EvidenceManifest) (scope : String) (hash : ContentHash)
    (ds : List String) (now : String) :
    failClosed m.covered scope hash ds now = failClosed m scope hash ds now := rfl

theorem createVerdict_timeless (s : VerdictState) (m : EvidenceManifest) (ds : List String)
    (now now' : String) : SameVerdict (createVerdict s m ds now) (createVerdict s m ds now') := by
  unfold SameVerdict createVerdict
  cases m.oracleIdentity <;> rfl

theorem failClosed_timeless (m : EvidenceManifest) (scope : String) (hash : ContentHash)
    (ds : List String) (now now' : String) :
    SameVerdict (failClosed m scope hash ds now) (failClosed m scope hash ds now') := by
  unfold SameVerdict failClosed
  cases m.oracleIdentity <;> rfl

theorem derive_timeless (py : Py.Rendering) (m : EvidenceManifest) (now now' : String) :
    SameVerdict (derive py m now) (derive py m now') := by
  unfold derive
  cases checkForErrors m with
  | some s => exact createVerdict_timeless s m _ now now'
  | none =>
    cases checkForUnavailable m with
    | some s => exact createVerdict_timeless s m _ now now'
    | none =>
      cases checkForUnsupported m with
      | some s => exact createVerdict_timeless s m _ now now'
      | none =>
        by_cases hc : (!m.isComplete) = true
        · simp only [hc, if_true]
          exact createVerdict_timeless _ m _ now now'
        · by_cases h0 : m.comparisonEvidence.length = 0
          · simp only [hc, h0, if_true]
            exact createVerdict_timeless _ m _ now now'
          · simp only [hc, h0, if_false]
            exact createVerdict_timeless _ m _ now now'

theorem derive_congr {m m' : EvidenceManifest} (h : m.covered = m'.covered) (py : Py.Rendering)
    (now now' : String) : SameVerdict (derive py m now) (derive py m' now') := by
  rw [← derive_covered py m, h, derive_covered]
  exact derive_timeless py m' now now'

/-- An untrusted derivation sees the derived verdict up to its time. -/
theorem deriveUntrusted_congr {m m' : EvidenceManifest} (h : m.covered = m'.covered)
    (py : Py.Rendering) (vs : List IntegrityViolation) (now now' : String) :
    SameVerdict (deriveUntrusted py m vs now) (deriveUntrusted py m' vs now') := by
  have hd := derive_congr h py now now'
  have hhash : m.manifestHash = m'.manifestHash := congrArg ContentHash.fromString
    (graphText_eq_iff.2 h)
  have hclosed : ∀ scope hash ds, SameVerdict (failClosed m scope hash ds now)
      (failClosed m' scope hash ds now') := by
    intro scope hash ds
    rw [← failClosed_covered m, h, failClosed_covered]
    exact failClosed_timeless m' scope hash ds now now'
  unfold deriveUntrusted
  cases hm : derive py m now with
  | error e =>
      cases hm' : derive py m' now' with
      | error e' => rwa [hm, hm'] at hd
      | ok d' => rw [hm, hm'] at hd; cases hd
  | ok d =>
      cases hm' : derive py m' now' with
      | error e' => rw [hm, hm'] at hd; cases hd
      | ok d' =>
          rw [hm, hm'] at hd
          have ht : d.timeless = d'.timeless := by simpa [SameVerdict, Except.map] using hd
          have hstate : d.state = d'.state := by
            rw [← d.timeless_state, ht, d'.timeless_state]
          by_cases hv : d.state = .VERIFIED
          · simp only [bind, Except.bind, hv, hstate ▸ hv, ne_eq, not_true_eq_false, if_false, hhash]
            exact hclosed _ _ _
          · have hv' : d'.state ≠ .VERIFIED := hstate ▸ hv
            simp only [bind, Except.bind, hv, hv', ne_eq, not_false_eq_true, if_true]
            exact hd

/-- **The verdict is a function of the sealed graph**: two manifests with one graph and intact seals
have the same outcome. -/
theorem sameOutcome_of_graph_eq (py : Py.Rendering) {m m' : EvidenceManifest} (now now' : String)
    (hgraph : canonicalEvidenceGraph m = canonicalEvidenceGraph m')
    (hseal : m.sealedHash = some m.manifestHash) (hseal' : m'.sealedHash = some m'.manifestHash) :
    SameOutcome py m m' now now' := by
  have hcov := canonicalEvidenceGraph_eq_iff.1 hgraph
  have hhash : m.manifestHash = m'.manifestHash := congrArg ContentHash.fromString
    (graphText_eq_iff.2 hcov)
  have hviol : violations py m = violations py m' := by
    rw [violations, violations, validateManifestIntegrity_eq_nil.2 hseal,
      validateManifestIntegrity_eq_nil.2 hseal', ← bindingViolations_covered (m := m),
      ← validateRequiredEvidence_covered (m := m), hcov, bindingViolations_covered,
      validateRequiredEvidence_covered]
  by_cases hv : violations py m' ≠ []
  · refine .inr ⟨violations py m', ?_, ?_, deriveUntrusted_congr hcov py _ now now'⟩
    · rw [validate, hviol, if_pos hv]
    · rw [validate, if_pos hv]
  · refine .inl ⟨_, _, by rw [validate, hviol, if_neg hv], by rw [validate, if_neg hv], ?_⟩
    simp only [deriveFromValidated, computeIntegrityHash, ne_eq, not_true_eq_false, if_false]
    exact derive_congr hcov py now now'

theorem sameOutcome_of_graph_eq_matching :
    SameOutcome Sample.plain Sample.matching { Sample.matching with createdAt := "t3" } "n" "n'" :=
  sameOutcome_of_graph_eq Sample.plain "n" "n'" rfl rfl rfl

end CobolJava
