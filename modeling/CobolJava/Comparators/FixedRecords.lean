/-
**Fixed records are compared byte for byte, whatever their length is taken to be.**

The record length of a fixed-record artifact is inferred from a size and a record count that need
not fit the content.  Whole, missing and extra records and the bytes after the last whole record
are compared apart, and together they cover every position of both contents.

Main definitions:

* `DiffersAt` — a position at which two contents differ;
* `InTrailingRecord` — a position behind the last whole record of a content;
* `Reported` — a difference is reported under a location.

Main results:

* `reported_of_differsAt` — a position inside the whole records of a side is reported with its
  record;
* `fixedRecordComparator_exact` — **the comparison is byte exact**, and record by record every
  differing byte is accounted for.
-/

import CobolJava.Comparators.Framework

set_option autoImplicit false

namespace CobolJava

open Py (Bytes Exc)

/-! ### Positions -/

/-- The contents differ at position `p`: other bytes, or a byte on one side only. -/
def DiffersAt (a b : Bytes) (p : ℕ) : Prop := a[p]? ≠ b[p]?

/-- Position `p` lies in the partial record behind the last whole one. -/
def InTrailingRecord (content : Bytes) (recordLength p : ℕ) : Prop :=
  content.length / recordLength * recordLength ≤ p ∧ p < content.length

/-- Some difference is reported under the given location. -/
def Reported (differences : List ComparisonDifference) (location : String) : Prop :=
  ∃ d ∈ differences, d.location = location

variable {a b : Bytes} {recordLength p : ℕ}

theorem getElem?_record (hpos : 0 < recordLength) (a : Bytes) (p : ℕ) :
    ((a.drop (p / recordLength * recordLength)).take recordLength)[p % recordLength]? = a[p]? := by
  have hp : p / recordLength * recordLength + p % recordLength = p := by
    rw [mul_comm]
    exact Nat.div_add_mod p recordLength
  rw [List.getElem?_take_of_lt (Nat.mod_lt p hpos), List.getElem?_drop, hp]

/-- A record that holds a differing byte is reported, be it on both sides or on one. -/
theorem exists_recordDifference (hpos : 0 < recordLength) (hdiff : DiffersAt a b p) :
    ∃ d ∈ recordDifference a b recordLength (p / recordLength),
      d.location = s!"record[{p / recordLength}]" := by
  unfold recordDifference
  by_cases hextra : a.length / recordLength ≤ p / recordLength
  · rw [if_pos hextra]
    exact ⟨_, List.mem_singleton_self _, rfl⟩
  · rw [if_neg hextra]
    by_cases hmissing : b.length / recordLength ≤ p / recordLength
    · rw [if_pos hmissing]
      exact ⟨_, List.mem_singleton_self _, rfl⟩
    · rw [if_neg hmissing]
      have hrec : (a.drop (p / recordLength * recordLength)).take recordLength ≠
          (b.drop (p / recordLength * recordLength)).take recordLength := by
        intro heq
        refine hdiff ?_
        rw [← getElem?_record hpos a p, heq, getElem?_record hpos b p]
      rw [if_pos hrec]
      exact ⟨_, List.mem_singleton_self _, rfl⟩

theorem reported_of_differsAt (hpos : 0 < recordLength) (hdiff : DiffersAt a b p)
    (hwhole : p < max (a.length / recordLength) (b.length / recordLength) * recordLength) :
    Reported (recordDifferences a b recordLength) s!"record[{p / recordLength}]" := by
  obtain ⟨d, hd, hloc⟩ := exists_recordDifference hpos hdiff
  refine ⟨d, ?_, hloc⟩
  refine List.mem_append_left _ (List.mem_flatMap.2 ⟨p / recordLength, ?_, hd⟩)
  exact List.mem_range.2 ((Nat.div_lt_iff_lt_mul hpos).2 hwhole)

theorem inTrailingRecord_of_differsAt (hdiff : DiffersAt a b p)
    (hbehind : max (a.length / recordLength) (b.length / recordLength) * recordLength ≤ p) :
    InTrailingRecord a recordLength p ∨ InTrailingRecord b recordLength p := by
  have ha : a.length / recordLength * recordLength ≤ p :=
    (Nat.mul_le_mul_right _ (le_max_left _ _)).trans hbehind
  have hb : b.length / recordLength * recordLength ≤ p :=
    (Nat.mul_le_mul_right _ (le_max_right _ _)).trans hbehind
  by_cases hpa : p < a.length
  · exact .inl ⟨ha, hpa⟩
  · by_cases hpb : p < b.length
    · exact .inr ⟨hb, hpb⟩
    · refine absurd ?_ hdiff
      rw [List.getElem?_eq_none (not_lt.1 hpa), List.getElem?_eq_none (not_lt.1 hpb)]

theorem reported_trailing (hcount : a.length / recordLength = b.length / recordLength)
    (hdiff : DiffersAt a b p) (hbehind : a.length / recordLength * recordLength ≤ p) :
    Reported (recordDifferences a b recordLength) "trailing_partial_record" := by
  have htail : a.drop (a.length / recordLength * recordLength) ≠
      b.drop (b.length / recordLength * recordLength) := by
    intro heq
    rw [← hcount] at heq
    have hp : a.length / recordLength * recordLength +
        (p - a.length / recordLength * recordLength) = p := by omega
    refine hdiff ?_
    rw [← hp, ← List.getElem?_drop, ← List.getElem?_drop, heq]
  rw [recordDifferences, if_pos htail]
  exact ⟨_, List.mem_append_right _ (List.mem_singleton_self _), rfl⟩

/-! ### The comparison -/

theorem countsContradict_eq_false_iff {oracle candidate : ArtifactIdentity} :
    countsContradict oracle candidate = false ↔
      ∀ m n, oracle.recordCount = some m → candidate.recordCount = some n → m = n := by
  unfold countsContradict
  cases ho : oracle.recordCount with
  | none => simp
  | some m => cases hc : candidate.recordCount <;> simp

theorem exists_compareFixedRecord (id : ComparatorId) (oracle candidate : ComparedSide)
    (policy : ComparisonPolicy) :
    ∃ r, compareFixedRecord id oracle candidate policy = .ok r := by
  unfold compareFixedRecord
  simp only [pure, Except.pure]
  split
  · split_ifs
    · exact ⟨_, rfl⟩
    · exact ⟨_, rfl⟩
    · split
      · split_ifs <;> exact ⟨_, rfl⟩
      · exact ⟨_, rfl⟩
  · exact ⟨_, rfl⟩

theorem compareRecordByRecord_of_ne (id : ComparatorId) (oracle candidate : ComparedSide)
    (hne : a ≠ b) (recordLength : ℕ) :
    (compareRecordByRecord id oracle candidate a b recordLength).result = .MISMATCH ∧
      (compareRecordByRecord id oracle candidate a b recordLength).differences =
        recordDifferences a b recordLength := by
  have hrecords := recordDifferences_ne_nil recordLength hne
  simp [compareRecordByRecord, hrecords, mismatchResult]

/-- **Fixed records match exactly when both contents are there, the record counts do not contradict
each other and the bytes agree.**  Record by record, unequal contents always yield a difference,
and each differing byte lies in a reported record or in a trailing partial record, which is
reported itself when both sides have as many whole records. -/
theorem fixedRecordComparator_exact (oracle candidate : ComparedSide) (policy : ComparisonPolicy) :
    (∃ r, fixedRecordComparator.compare oracle candidate policy = .ok r ∧
      (r.result = .MATCH ↔
        (∃ content, oracle.content = some content ∧ candidate.content = some content) ∧
        ∀ m n, oracle.artifact.recordCount = some m → candidate.artifact.recordCount = some n →
          m = n)) ∧
    ∀ (a b : Bytes) (recordLength : ℕ), 0 < recordLength → a ≠ b →
      let r := compareRecordByRecord fixedRecordComparator.comparatorId oracle candidate a b
        recordLength
      r.result = .MISMATCH ∧ r.differences ≠ [] ∧
      ∀ p, DiffersAt a b p →
        Reported r.differences s!"record[{p / recordLength}]" ∨
        ((InTrailingRecord a recordLength p ∨ InTrailingRecord b recordLength p) ∧
          (a.length / recordLength = b.length / recordLength →
            Reported r.differences "trailing_partial_record")) := by
  constructor
  · obtain ⟨r, hr⟩ :=
      exists_compareFixedRecord fixedRecordComparator.comparatorId oracle candidate policy
    refine ⟨r, hr, ?_⟩
    rw [compareFixedRecord_match hr, ← countsContradict_eq_false_iff]
    constructor
    · rintro ⟨content, ho, hc, hcount⟩
      exact ⟨⟨content, ho, hc⟩, hcount⟩
    · rintro ⟨⟨content, ho, hc⟩, hcount⟩
      exact ⟨content, ho, hc, hcount⟩
  · intro a b recordLength hpos hne r
    obtain ⟨hresult, hdifferences⟩ := compareRecordByRecord_of_ne
      fixedRecordComparator.comparatorId oracle candidate hne recordLength
    refine ⟨hresult, by rw [hdifferences]; exact recordDifferences_ne_nil recordLength hne, ?_⟩
    intro p hdiff
    rw [hdifferences]
    -- the position lies within the whole records of the longer side, or behind those of both
    rcases Nat.lt_or_ge p
      (max (a.length / recordLength) (b.length / recordLength) * recordLength) with h | h
    · exact .inl (reported_of_differsAt hpos hdiff h)
    · refine .inr ⟨inTrailingRecord_of_differsAt hdiff h, fun hcount => ?_⟩
      refine reported_trailing hcount hdiff ?_
      rwa [hcount, max_self, ← hcount] at h

end CobolJava
