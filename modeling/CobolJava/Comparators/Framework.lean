/-
**The typed comparators.**

`engine/comparators/framework.py`: the comparators of the five observed artifact types and their
registry.  Three of them compare the contents after the declared normalization and ordering, the
exit status is compared as an integer, and fixed records byte by byte.

Main definitions:

* `ComparatorResult`, `TypedComparator` — what a comparison yields, and a comparator;
* `view` — a content after normalization and ordering;
* `compareText`, `compareExitStatus`, `compareFixedRecord` — the comparisons;
* `defaultRegistry`, `registered` — the registry.

Main results:

* `compareText_match` — a text comparison matches exactly when the views agree;
* `compareExitStatus_match` — an exit status matches only when both sides read as one integer;
* `compareFixedRecord_match` — **fixed records match exactly when the bytes agree** and the record
  counts do not contradict each other.
-/

import CobolJava.Contracts.Models
import CobolJava.Domain.Identities
import CobolJava.Lib.PyExc

set_option autoImplicit false

namespace CobolJava

open Py (Bytes Exc)

/-! ### Results -/

/-- The results of a comparison. -/
inductive ComparisonResult where
  | MATCH
  | MISMATCH
  | INCONCLUSIVE
deriving DecidableEq

def ComparisonResult.value : ComparisonResult → String
  | .MATCH => "MATCH"
  | .MISMATCH => "MISMATCH"
  | .INCONCLUSIVE => "INCONCLUSIVE"

theorem ComparisonResult.value_eq_match {r : ComparisonResult} : r.value = "MATCH" ↔ r = .MATCH := by
  cases r <;> decide

/-- A single difference found by a comparison. -/
structure ComparisonDifference where
  location : String
  expected : String
  actual : String
  description : String
deriving DecidableEq

/-- Unique identifier of a comparator. -/
structure ComparatorId where
  comparatorId : String
  version : String
  comparatorId_ne : comparatorId ≠ "" := by decide

theorem ComparatorId.ext_iff {a b : ComparatorId} :
    (a.comparatorId, a.version) = (b.comparatorId, b.version) ↔ a = b := by
  obtain ⟨id, version, -⟩ := a
  obtain ⟨id', version', -⟩ := b
  simp

instance instDecidableEqComparatorId : DecidableEq ComparatorId := fun _ _ =>
  decidable_of_iff _ ComparatorId.ext_iff

/-- Result of a comparison. -/
structure ComparatorResult where
  comparatorId : ComparatorId
  oracleArtifact : ArtifactIdentity
  candidateArtifact : ArtifactIdentity
  result : ComparisonResult
  differences : List ComparisonDifference
  normalizationApplied : List String
  orderingApplied : String
  failurePolicy : String

/-- What a comparison is given of one side: the identity, and the content unless it is missing. -/
structure ComparedSide where
  artifact : ArtifactIdentity
  content : Option Bytes

/-- The policies a comparison is run under. -/
structure ComparisonPolicy where
  normalizations : List String
  ordering : String
  failure : Option FailurePolicy

/-- A comparator of one artifact type. -/
structure TypedComparator where
  comparatorId : ComparatorId
  artifactType : String
  compare : ComparedSide → ComparedSide → ComparisonPolicy → Except Exc ComparatorResult

/-! ### Common steps -/

section Common

variable (py : Py.Rendering) (id : ComparatorId) (oracle candidate : ComparedSide)

/-- The result of a comparison without differences. -/
def matchResult (normalizations : List String) (ordering : String) : ComparatorResult where
  comparatorId := id
  oracleArtifact := oracle.artifact
  candidateArtifact := candidate.artifact
  result := .MATCH
  differences := []
  normalizationApplied := normalizations
  orderingApplied := ordering
  failurePolicy := ""

/-- The result of a comparison with differences. -/
def mismatchResult (differences : List ComparisonDifference) (normalizations : List String)
    (ordering : String) : ComparatorResult :=
  { matchResult id oracle candidate normalizations ordering with
    result := .MISMATCH
    differences := differences }

/-- The result when a side is missing. -/
def handleMissing (failure : Option FailurePolicy) : ComparatorResult :=
  let policy := match failure with
    | some p => p.onMissing
    | none => "UNAVAILABLE"
  let presence (content : Option Bytes) := if content.isSome then "PRESENT" else "MISSING"
  let description :=
    if oracle.content.isNone && candidate.content.isNone then
      "Both declared artifacts are missing/unavailable"
    else if oracle.content.isNone then "Oracle declared artifact is missing/unavailable"
    else "Candidate declared artifact is missing/unavailable"
  { matchResult id oracle candidate [] "SEQUENTIAL" with
    result := if policy = "UNAVAILABLE" then .INCONCLUSIVE else .MISMATCH
    differences :=
      [⟨"artifact", presence oracle.content, presence candidate.content, description⟩]
    failurePolicy := policy }

theorem handleMissing_ne_match (failure : Option FailurePolicy) :
    (handleMissing id oracle candidate failure).result ≠ .MATCH := by
  have h : ∀ p : Prop, ∀ _ : Decidable p,
      (if p then ComparisonResult.INCONCLUSIVE else .MISMATCH) ≠ .MATCH := by
    intro p _
    split_ifs <;> decide
  exact h _ _

/-- The content with its lines sorted, unless the ordering is sequential. -/
def applyOrdering (content : Bytes) (ordering : String) : Except Exc Bytes :=
  if ordering = "SEQUENTIAL" then .ok content
  else if ordering = "SORTED" ∨ ordering = "UNORDERED" then
    .ok (Py.sortedBytes (Py.splitlines content)).flatten
  else .error (.valueError s!"Unsupported ordering policy: {ordering}")

/-- The content after the given normalizations, the only one implemented being `crlf_to_lf`. -/
def normalize (content : Bytes) : List String → Except Exc Bytes
  | [] => .ok content
  | norm :: norms =>
      if norm = "crlf_to_lf" then normalize (Py.replaceCrlf content) norms
      else .error (.valueError (s!"Unsupported normalization {py.repr norm}; " ++
        "V1 implements only 'crlf_to_lf'"))

/-- The content as a text comparison sees it. -/
def view (policy : ComparisonPolicy) (content : Bytes) : Except Exc Bytes := do
  let normalized ← normalize py content policy.normalizations
  applyOrdering normalized policy.ordering

/-! ### The comparisons -/

/-- The comparison of two texts, whose differences are reported at `location`. -/
def compareText (location description : String) (policy : ComparisonPolicy) :
    Except Exc ComparatorResult :=
  match oracle.content, candidate.content with
  | some oracleContent, some candidateContent => do
      let oracleNormalized ← view py policy oracleContent
      let candidateNormalized ← view py policy candidateContent
      if oracleNormalized = candidateNormalized then
        return matchResult id oracle candidate policy.normalizations policy.ordering
      else
        return mismatchResult id oracle candidate
          [⟨location, Py.bytesStr oracleNormalized, Py.bytesStr candidateNormalized, description⟩]
          policy.normalizations policy.ordering
  | _, _ => return handleMissing id oracle candidate policy.failure

/-- The comparison of two exit statuses. -/
def compareExitStatus (policy : ComparisonPolicy) : Except Exc ComparatorResult :=
  match oracle.content, candidate.content with
  | some oracleContent, some candidateContent =>
      match Py.intOfBytes oracleContent, Py.intOfBytes candidateContent with
      | some oracleExit, some candidateExit =>
          if oracleExit = candidateExit then
            return matchResult id oracle candidate [] "SEQUENTIAL"
          else
            return mismatchResult id oracle candidate
              [⟨"exit_code", toString oracleExit, toString candidateExit,
                s!"Exit code differs: {oracleExit} vs {candidateExit}"⟩] [] "SEQUENTIAL"
      | _, _ =>
          let differences := [⟨"exit_code", Py.bytesStr oracleContent,
            Py.bytesStr candidateContent, "Invalid exit code format"⟩]
          return { matchResult id oracle candidate [] "SEQUENTIAL" with
            result := .INCONCLUSIVE, differences := differences }
  | _, _ => return handleMissing id oracle candidate policy.failure

/-- The record length the identities lead to, from their sizes and record counts. -/
def inferRecordLength (oracle candidate : ArtifactIdentity) : Option ℤ :=
  let lengthOf (a : ArtifactIdentity) : Option ℤ :=
    match a.recordCount with
    | some count => if 0 < count then some (a.sizeBytes / count) else none
    | none => none
  (lengthOf oracle).or (lengthOf candidate)

/-- The difference at record `i` of the contents, cut into records of the given length. -/
def recordDifference (oracleContent candidateContent : Bytes) (recordLength i : ℕ) :
    List ComparisonDifference :=
  let oracleRec := (oracleContent.drop (i * recordLength)).take recordLength
  let candidateRec := (candidateContent.drop (i * recordLength)).take recordLength
  if oracleContent.length / recordLength ≤ i then
    [⟨s!"record[{i}]", "<missing>", Py.bytesStr candidateRec,
      s!"Extra candidate record at index {i}"⟩]
  else if candidateContent.length / recordLength ≤ i then
    [⟨s!"record[{i}]", Py.bytesStr oracleRec, "<missing>",
      s!"Missing candidate record at index {i}"⟩]
  else if oracleRec ≠ candidateRec then
    [⟨s!"record[{i}]", Py.bytesStr oracleRec, Py.bytesStr candidateRec, s!"Record {i} differs"⟩]
  else []

/-- The differences of the contents record by record, and of what follows the last whole records. -/
def recordDifferences (oracleContent candidateContent : Bytes) (recordLength : ℕ) :
    List ComparisonDifference :=
  let oracleCount := oracleContent.length / recordLength
  let candidateCount := candidateContent.length / recordLength
  let maxCount := max oracleCount candidateCount
  let oracleTail := oracleContent.drop (oracleCount * recordLength)
  let candidateTail := candidateContent.drop (candidateCount * recordLength)
  (List.range maxCount).flatMap (recordDifference oracleContent candidateContent recordLength) ++
    if oracleTail ≠ candidateTail then
      [⟨"trailing_partial_record", Py.bytesStr oracleTail, Py.bytesStr candidateTail,
        s!"Trailing partial-record bytes differ: oracle {oracleTail.length} byte(s) " ++
          s!"vs candidate {candidateTail.length} " ++
          s!"beyond {maxCount} whole record(s) of length {recordLength}"⟩]
    else []

/-- The comparison of two contents record by record. -/
def compareRecordByRecord (oracleContent candidateContent : Bytes) (recordLength : ℕ) :
    ComparatorResult :=
  let differences := recordDifferences oracleContent candidateContent recordLength
  if differences ≠ [] then mismatchResult id oracle candidate differences [] "SEQUENTIAL"
  else matchResult id oracle candidate [] "SEQUENTIAL"

/-- Two record counts that are both known and differ. -/
def countsContradict (oracle candidate : ArtifactIdentity) : Bool :=
  match oracle.recordCount, candidate.recordCount with
  | some oracleCount, some candidateCount => oracleCount ≠ candidateCount
  | _, _ => false

/-- The text of an optional number. -/
def optStr : Option ℤ → String
  | some n => toString n
  | none => "None"

/-- The comparison of two contents of fixed records. -/
def compareFixedRecord (policy : ComparisonPolicy) : Except Exc ComparatorResult :=
  match oracle.content, candidate.content with
  | some oracleContent, some candidateContent =>
      if countsContradict oracle.artifact candidate.artifact then
        let oracleRl := optStr oracle.artifact.recordCount
        let candidateRl := optStr candidate.artifact.recordCount
        return mismatchResult id oracle candidate
          [⟨"record_count", oracleRl, candidateRl,
            s!"Record count differs: oracle={oracleRl} candidate={candidateRl}"⟩] [] "SEQUENTIAL"
      else if oracleContent = candidateContent then
        return matchResult id oracle candidate [] "SEQUENTIAL"
      else
        match inferRecordLength oracle.artifact candidate.artifact with
        | some recordLength =>
            if 0 < recordLength then
              return compareRecordByRecord id oracle candidate oracleContent candidateContent
                recordLength.toNat
            else
              return mismatchResult id oracle candidate
                [⟨"records", toString oracleContent.length, toString candidateContent.length,
                  "FIXED_RECORD content differs (byte-level fallback)"⟩] [] "SEQUENTIAL"
        | none =>
            return mismatchResult id oracle candidate
              [⟨"records", toString oracleContent.length, toString candidateContent.length,
                "FIXED_RECORD content differs (byte-level fallback)"⟩] [] "SEQUENTIAL"
  | _, _ => return handleMissing id oracle candidate policy.failure

end Common

/-! ### When a comparison matches -/

section Match

variable {py : Py.Rendering} {id : ComparatorId} {oracle candidate : ComparedSide}

theorem not_match_of_missing {failure : Option FailurePolicy} {r : ComparatorResult}
    (h : (Except.ok (handleMissing id oracle candidate failure) : Except Exc ComparatorResult) =
      .ok r) : r.result ≠ .MATCH := by
  rw [← Except.ok.inj h]
  exact handleMissing_ne_match id oracle candidate failure

/-- A text comparison matches exactly when both contents are there and their views agree. -/
theorem compareText_match {location description : String} {policy : ComparisonPolicy}
    {r : ComparatorResult}
    (h : compareText py id oracle candidate location description policy = .ok r) :
    r.result = .MATCH ↔ ∃ a b v, oracle.content = some a ∧ candidate.content = some b ∧
      view py policy a = .ok v ∧ view py policy b = .ok v := by
  unfold compareText at h
  cases ho : oracle.content with
  | none =>
      rw [ho] at h
      simp [not_match_of_missing h]
  | some a =>
      cases hc : candidate.content with
      | none =>
          rw [ho, hc] at h
          simp [not_match_of_missing h]
      | some b =>
          rw [ho, hc] at h
          simp only [Option.some.injEq, exists_eq_left', exists_and_left] at h ⊢
          cases hva : view py policy a with
          | error e => simp [hva, bind, Except.bind] at h
          | ok va =>
              cases hvb : view py policy b with
              | error e => simp [hva, hvb, bind, Except.bind] at h
              | ok vb =>
                  simp only [hva, hvb, bind, Except.bind, pure, Except.pure] at h
                  by_cases heq : va = vb
                  · rw [if_pos heq] at h
                    rw [← Except.ok.inj h]
                    simp [matchResult, heq]
                  · rw [if_neg heq] at h
                    rw [← Except.ok.inj h]
                    simp [mismatchResult, Ne.symm heq]

theorem compareText_applied {location description : String} {policy : ComparisonPolicy}
    {r : ComparatorResult}
    (h : compareText py id oracle candidate location description policy = .ok r)
    (hr : r.result = .MATCH) :
    r.normalizationApplied = policy.normalizations ∧ r.orderingApplied = policy.ordering := by
  obtain ⟨a, b, v, ha, hb, hva, hvb⟩ := (compareText_match h).1 hr
  simp only [compareText, ha, hb, hva, hvb, bind, Except.bind, pure, Except.pure, if_true] at h
  rw [← Except.ok.inj h]
  exact ⟨rfl, rfl⟩

/-- An exit status matches exactly when both sides read as one integer. -/
theorem compareExitStatus_match {policy : ComparisonPolicy} {r : ComparatorResult}
    (h : compareExitStatus id oracle candidate policy = .ok r) :
    r.result = .MATCH ↔ ∃ a b n, oracle.content = some a ∧ candidate.content = some b ∧
      Py.intOfBytes a = some n ∧ Py.intOfBytes b = some n := by
  unfold compareExitStatus at h
  cases ho : oracle.content with
  | none =>
      rw [ho] at h
      simp [not_match_of_missing h]
  | some a =>
      cases hc : candidate.content with
      | none =>
          rw [ho, hc] at h
          simp [not_match_of_missing h]
      | some b =>
          rw [ho, hc] at h
          simp only [Option.some.injEq, exists_eq_left', exists_and_left] at h ⊢
          cases hna : Py.intOfBytes a with
          | none =>
              simp only [hna, pure, Except.pure, Except.ok.injEq] at h
              simp [← h]
          | some na =>
              cases hnb : Py.intOfBytes b with
              | none =>
                  simp only [hna, hnb, pure, Except.pure, Except.ok.injEq] at h
                  simp [← h]
              | some nb =>
                  simp only [hna, hnb, pure, Except.pure] at h
                  by_cases heq : na = nb
                  · rw [if_pos heq] at h
                    rw [← Except.ok.inj h]
                    simp [matchResult, heq]
                  · rw [if_neg heq] at h
                    rw [← Except.ok.inj h]
                    simp [mismatchResult, Ne.symm heq]

theorem take_eq_of_records {as bs : Bytes} {recordLength n : ℕ}
    (h : ∀ i < n, (as.drop (i * recordLength)).take recordLength =
      (bs.drop (i * recordLength)).take recordLength) :
    as.take (n * recordLength) = bs.take (n * recordLength) := by
  induction n with
  | zero => simp
  | succ n ih =>
      rw [Nat.succ_mul, List.take_add, List.take_add, ih fun i hi => h i (by omega), h n (by omega)]

/-- Unequal contents differ in some record or in what follows the last whole one. -/
theorem recordDifferences_ne_nil {as bs : Bytes} (recordLength : ℕ) (hne : as ≠ bs) :
    recordDifferences as bs recordLength ≠ [] := by
  intro hnil
  rw [recordDifferences, List.append_eq_nil_iff, List.flatMap_eq_nil_iff] at hnil
  obtain ⟨hrecords, htail⟩ := hnil
  have htail' : as.drop (as.length / recordLength * recordLength) =
      bs.drop (bs.length / recordLength * recordLength) := by
    by_contra h
    simp [h] at htail
  have hrecord : ∀ i < max (as.length / recordLength) (bs.length / recordLength),
      i < as.length / recordLength ∧ i < bs.length / recordLength ∧
        (as.drop (i * recordLength)).take recordLength =
          (bs.drop (i * recordLength)).take recordLength := by
    intro i hi
    have hi' := hrecords i (List.mem_range.2 hi)
    unfold recordDifference at hi'
    by_cases h1 : as.length / recordLength ≤ i
    · simp [h1] at hi'
    · by_cases h2 : bs.length / recordLength ≤ i
      · simp [h1, h2] at hi'
      · simp only [if_neg h1, if_neg h2, ne_eq, ite_not, ite_eq_left_iff, List.cons_ne_nil,
          imp_false, not_not] at hi'
        exact ⟨not_le.1 h1, not_le.1 h2, hi'⟩
  have hcount : as.length / recordLength = bs.length / recordLength := by
    -- the last record of the longer side is one of both sides
    rcases Nat.lt_trichotomy (as.length / recordLength) (bs.length / recordLength) with h | h | h
    · exact absurd (hrecord (as.length / recordLength) (by omega)).1 (lt_irrefl _)
    · exact h
    · exact absurd (hrecord (bs.length / recordLength) (by omega)).2.1 (lt_irrefl _)
  have hhead := take_eq_of_records (n := as.length / recordLength)
    fun i hi => (hrecord i (by omega)).2.2
  refine hne ?_
  rw [← List.take_append_drop (as.length / recordLength * recordLength) as, hhead, htail', hcount,
    List.take_append_drop]

/-- **Fixed records match exactly when the bytes agree** and the record counts do not contradict
each other. -/
theorem compareFixedRecord_match {policy : ComparisonPolicy} {r : ComparatorResult}
    (h : compareFixedRecord id oracle candidate policy = .ok r) :
    r.result = .MATCH ↔ ∃ a, oracle.content = some a ∧ candidate.content = some a ∧
      countsContradict oracle.artifact candidate.artifact = false := by
  unfold compareFixedRecord at h
  cases ho : oracle.content with
  | none =>
      rw [ho] at h
      simp [not_match_of_missing h]
  | some a =>
      cases hc : candidate.content with
      | none =>
          rw [ho, hc] at h
          simp [not_match_of_missing h]
      | some b =>
          rw [ho, hc] at h
          simp only [Option.some.injEq, exists_eq_left', pure, Except.pure] at h ⊢
          by_cases hcount : countsContradict oracle.artifact candidate.artifact = true
          · rw [if_pos hcount] at h
            rw [← Except.ok.inj h]
            simp [mismatchResult, hcount]
          · rw [if_neg hcount] at h
            by_cases heq : a = b
            · rw [if_pos heq] at h
              rw [← Except.ok.inj h]
              simp [matchResult, heq, hcount]
            · rw [if_neg heq] at h
              have hrecords := recordDifferences_ne_nil
                ((inferRecordLength oracle.artifact candidate.artifact).elim 0 Int.toNat) heq
              have hmis : r.result = .MISMATCH := by
                cases hl : inferRecordLength oracle.artifact candidate.artifact with
                | none =>
                    rw [hl] at h
                    rw [← Except.ok.inj h]
                    rfl
                | some recordLength =>
                    rw [hl] at h hrecords
                    by_cases hpos : 0 < recordLength
                    · simp only [if_pos hpos, compareRecordByRecord] at h
                      rw [if_pos (by simpa using hrecords)] at h
                      rw [← Except.ok.inj h]
                      rfl
                    · simp only [if_neg hpos] at h
                      rw [← Except.ok.inj h]
                      rfl
              simp [hmis, Ne.symm heq]

end Match

/-! ### The registry -/

section Registry

variable (py : Py.Rendering)

def stdoutComparator : TypedComparator where
  comparatorId := { comparatorId := "STDOUT_COMPARATOR", version := "1.0.0" }
  artifactType := "STDOUT"
  compare := fun oracle candidate => compareText py
    { comparatorId := "STDOUT_COMPARATOR", version := "1.0.0" } oracle candidate
    "stdout" "STDOUT output differs"

def stderrComparator : TypedComparator where
  comparatorId := { comparatorId := "STDERR_COMPARATOR", version := "1.0.0" }
  artifactType := "STDERR"
  compare := fun oracle candidate => compareText py
    { comparatorId := "STDERR_COMPARATOR", version := "1.0.0" } oracle candidate
    "stderr" "STDERR output differs"

def exitStatusComparator : TypedComparator where
  comparatorId := { comparatorId := "EXIT_STATUS_COMPARATOR", version := "1.0.0" }
  artifactType := "EXIT_STATUS"
  compare := compareExitStatus { comparatorId := "EXIT_STATUS_COMPARATOR", version := "1.0.0" }

def textFileComparator : TypedComparator where
  comparatorId := { comparatorId := "TEXT_FILE_COMPARATOR", version := "1.0.0" }
  artifactType := "TEXT_FILE"
  compare := fun oracle candidate => compareText py
    { comparatorId := "TEXT_FILE_COMPARATOR", version := "1.0.0" } oracle candidate
    "file_content" "TEXT_FILE content differs"

def fixedRecordComparator : TypedComparator where
  comparatorId := { comparatorId := "FIXED_RECORD_COMPARATOR", version := "1.0.0" }
  artifactType := "FIXED_RECORD"
  compare := compareFixedRecord { comparatorId := "FIXED_RECORD_COMPARATOR", version := "1.0.0" }

/-- The registry of the five observed artifact types. -/
def defaultRegistry : List TypedComparator :=
  [stdoutComparator py, stderrComparator py, exitStatusComparator, textFileComparator py,
    fixedRecordComparator]

/-- The comparator registered for an artifact type. -/
def registered (registry : List TypedComparator) (artifactType : String) :
    Option TypedComparator :=
  registry.find? fun c => decide (c.artifactType = artifactType)

end Registry

end CobolJava
