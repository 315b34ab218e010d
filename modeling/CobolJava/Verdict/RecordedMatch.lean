/-
**What a recorded match says about the hashes.**

The validator takes the result of a comparison as recorded: no pass runs a comparator again or looks
at a content hash.  A match therefore names equal hashes when the evidence is what the registered
comparators recorded of the captured contents, and not for evidence written by hand.

Main definitions:

* `Recorded` — the evidence is what the comparators recorded of the given contents;
* `ByteExactMatch` — a match without normalization and ordering of a byte-compared type.

Main results:

* `hashes_eq_of_recorded_match` — **a recorded byte-exact match names equal hashes**;
* `forged_match_verified` — a forged one is accepted, and derives `VERIFIED`.
-/

import CobolJava.Comparators.Framework
import CobolJava.Verdict.TrustBoundary

set_option autoImplicit false

namespace CobolJava

/-- The evidence of `m` is what the registered comparators recorded of the contents: each artifact
record carries the hash of its content, that of the empty one if it is missing, and each comparison
the result of its comparator on the two contents under the policies it records. -/
structure Recorded (py : Py.Rendering) (m : EvidenceManifest)
    (content : ArtifactEvidence → Option Py.Bytes) : Prop where
  hash : ∀ a ∈ m.artifactEvidence, a.contentHash = ContentHash.fromBytes ((content a).getD [])
  result : ∀ c ∈ m.comparisonEvidence, ∀ a b, m.resolve c.oracleArtifactId = some a →
    m.resolve c.candidateArtifactId = some b →
    ∃ comparator failure r, registered (defaultRegistry py) c.artifactType = some comparator ∧
      comparator.compare ⟨a.artifact, content a⟩ ⟨b.artifact, content b⟩
        ⟨c.normalizationApplied, c.orderingApplied, failure⟩ = .ok r ∧
      c.result = r.result.value

/-- The types whose contents are compared byte by byte. -/
def byteComparedTypes : List String := ["STDOUT", "STDERR", "TEXT_FILE", "FIXED_RECORD"]

/-- A match of a byte-compared type without normalization and ordering. -/
structure ByteExactMatch (c : ComparisonEvidence) : Prop where
  result : c.result = "MATCH"
  type : c.artifactType ∈ byteComparedTypes
  normalization : c.normalizationApplied = []
  ordering : c.orderingApplied = "SEQUENTIAL"

theorem view_exact (py : Py.Rendering) (failure : Option FailurePolicy) (content : Py.Bytes) :
    view py ⟨[], "SEQUENTIAL", failure⟩ content = .ok content := rfl

theorem content_eq_of_compareText {py : Py.Rendering} {id : ComparatorId}
    {oracle candidate : ComparedSide} {location description : String}
    {failure : Option FailurePolicy} {r : ComparatorResult}
    (h : compareText py id oracle candidate location description ⟨[], "SEQUENTIAL", failure⟩ = .ok r)
    (hr : r.result = .MATCH) : oracle.content = candidate.content := by
  obtain ⟨a, b, v, ha, hb, hva, hvb⟩ := (compareText_match h).1 hr
  rw [view_exact, Except.ok.injEq] at hva hvb
  rw [ha, hb, hva, hvb]

theorem content_eq_of_compare {py : Py.Rendering} {t : String} (ht : t ∈ byteComparedTypes)
    {comparator : TypedComparator} (hreg : registered (defaultRegistry py) t = some comparator)
    {oracle candidate : ComparedSide} {failure : Option FailurePolicy} {r : ComparatorResult}
    (h : comparator.compare oracle candidate ⟨[], "SEQUENTIAL", failure⟩ = .ok r)
    (hr : r.result = .MATCH) : oracle.content = candidate.content := by
  simp only [byteComparedTypes, List.mem_cons, List.not_mem_nil, or_false] at ht
  rcases ht with rfl | rfl | rfl | rfl <;> cases hreg
  · exact content_eq_of_compareText h hr
  · exact content_eq_of_compareText h hr
  · exact content_eq_of_compareText h hr
  · obtain ⟨a, ha, hb, -⟩ := (compareFixedRecord_match h).1 hr
    rw [ha, hb]

/-- **A recorded byte-exact match names equal hashes**: both sides of an accepted comparison resolve
to records with one content hash. -/
theorem hashes_eq_of_recorded_match {py : Py.Rendering} {m : EvidenceManifest} {now : String}
    {v : ValidatedEvidenceManifest} {content : ArtifactEvidence → Option Py.Bytes}
    (hv : validate py m now = .ok v) (hrec : Recorded py m content) :
    ∀ c ∈ m.comparisonEvidence, ByteExactMatch c →
      ∃ a b, m.resolve c.oracleArtifactId = some a ∧ m.resolve c.candidateArtifactId = some b ∧
        a.contentHash = b.contentHash := by
  intro c hc hmatch
  obtain ⟨hb, -⟩ := validate_ok hv
  obtain ⟨-, ⟨a, ha, -⟩, ⟨b, hb', -⟩, -⟩ := hb.paired c hc
  obtain ⟨comparator, failure, r, hreg, hcmp, hres⟩ := hrec.result c hc a b ha hb'
  rw [hmatch.normalization, hmatch.ordering] at hcmp
  have hr : r.result = .MATCH := ComparisonResult.value_eq_match.1 (hres.symm.trans hmatch.result)
  have hcontent : content a = content b := content_eq_of_compare hmatch.type hreg hcmp hr
  refine ⟨a, b, ha, hb', ?_⟩
  rw [hrec.hash a (resolve_mem ha), hrec.hash b (resolve_mem hb'), hcontent]

/-- Both sides printed nothing, and the hashes are those of the empty content. -/
def Sample.silent : EvidenceManifest :=
  Sample.manifest
    [Sample.stdout "stdout-o" "ORACLE" Sample.oracleRun.executionId (ContentHash.fromBytes []),
      Sample.stdout "stdout-c" "CANDIDATE" Sample.candidateRun.executionId
        (ContentHash.fromBytes [])]
    [Sample.comparison "stdout-o" "stdout-c" "MATCH"]

theorem Sample.silent_recorded : Recorded Sample.plain Sample.silent fun _ => some [] := by
  constructor
  · intro a ha
    simp only [Sample.silent, Sample.manifest, EvidenceManifest.postInit, List.mem_cons,
      List.not_mem_nil, or_false] at ha
    rcases ha with rfl | rfl <;> rfl
  · intro c hc a b _ _
    obtain rfl : c = Sample.comparison "stdout-o" "stdout-c" "MATCH" := List.mem_singleton.1 hc
    exact ⟨stdoutComparator Sample.plain, none, _, rfl, rfl, rfl⟩

theorem hashes_eq_of_recorded_match_silent :
    ∃ a b, Sample.silent.resolve "stdout-o" = some a ∧ Sample.silent.resolve "stdout-c" = some b ∧
      a.contentHash = b.contentHash :=
  hashes_eq_of_recorded_match (Sample.validate_manifest "now" (by decide)) Sample.silent_recorded
    (Sample.comparison "stdout-o" "stdout-c" "MATCH") (List.mem_singleton.2 rfl)
    ⟨rfl, by decide, rfl, rfl⟩

/-- The hashes differ, and the comparison claims a match. -/
def Sample.forged : EvidenceManifest :=
  Sample.manifest
    [Sample.stdout "stdout-o" "ORACLE" Sample.oracleRun.executionId (Sample.hashOf '1'),
      Sample.stdout "stdout-c" "CANDIDATE" Sample.candidateRun.executionId (Sample.hashOf '2')]
    [Sample.comparison "stdout-o" "stdout-c" "MATCH"]

/-- **A forged match is accepted and derives `VERIFIED`**, though its two records carry different
hashes. -/
theorem forged_match_verified :
    ∃ v d c a b, validate Sample.plain Sample.forged "now" = .ok v ∧
      VerdictDeriver.deriveFromValidated Sample.plain v "now" = .ok d ∧ d.state = .VERIFIED ∧
      c ∈ Sample.forged.comparisonEvidence ∧ ByteExactMatch c ∧
      Sample.forged.resolve c.oracleArtifactId = some a ∧
      Sample.forged.resolve c.candidateArtifactId = some b ∧ a.contentHash ≠ b.contentHash := by
  obtain ⟨d, hd, hstate⟩ := deriveFromValidated_of_unchanged Sample.plain
    (v := Sample.validated Sample.forged "now") "now" rfl rfl
  rw [show verdictOf (Sample.validated Sample.forged "now").manifest.shows = .VERIFIED by
    decide] at hstate
  refine ⟨_, d, Sample.comparison "stdout-o" "stdout-c" "MATCH", _, _,
    Sample.validate_manifest "now" (by decide), hd, hstate, List.mem_singleton.2 rfl,
    ⟨rfl, by decide, rfl, rfl⟩, rfl, rfl, by decide⟩

end CobolJava
