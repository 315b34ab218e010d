/-
**Order-insensitive comparison of texts.**

With the orderings `SORTED` and `UNORDERED` the text comparators compare the sorted lines of two
contents, glued together again.  Lines keep their terminators, the comparison being byte exact
unless a normalization is declared; and gluing may run lines into one where a line lacks its
terminator.

Main definitions:

* `textComparators` — the comparators of the standard streams and of text files;
* `bareLines` — the lines of a content without their terminators.

Main results:

* `compareText_eq` — a comparison of two normalizable texts, in terms of their views;
* `textComparators_match` — **equal multisets of lines match, and for contents whose lines are kept
  apart only these do**; sequentially the normalized bytes are compared;
* `lineOrder_not_bareLines` — terminators count, and an unterminated line may hide another.
-/

import CobolJava.Comparators.Framework
import CobolJava.Lib.ByteLines

set_option autoImplicit false

namespace CobolJava

open Py (Bytes Exc)

/-- The comparators that compare texts line by line or as a whole. -/
def textComparators (py : Py.Rendering) : List TypedComparator :=
  [stdoutComparator py, stderrComparator py, textFileComparator py]

variable {py : Py.Rendering} {id : ComparatorId} {oracle candidate : ComparedSide}
  {location description : String} {policy : ComparisonPolicy} {a b normalizedA normalizedB : Bytes}

/-! ### Views -/

theorem view_sequential (h : normalize py a policy.normalizations = .ok normalizedA)
    (hord : policy.ordering = "SEQUENTIAL") : view py policy a = .ok normalizedA := by
  rw [view, h, hord]
  rfl

theorem view_sorted (h : normalize py a policy.normalizations = .ok normalizedA)
    (hord : policy.ordering = "SORTED" ∨ policy.ordering = "UNORDERED") :
    view py policy a = .ok (Py.sortedLines normalizedA).flatten := by
  rw [view, h]
  rcases hord with hord | hord
  · rw [hord]
    rfl
  · rw [hord]
    rfl

theorem compareText_eq {viewA viewB : Bytes} (ho : oracle.content = some a)
    (hc : candidate.content = some b) (ha : view py policy a = .ok viewA)
    (hb : view py policy b = .ok viewB) :
    ∃ r, compareText py id oracle candidate location description policy = .ok r ∧
      (r.result = .MATCH ↔ viewA = viewB) := by
  simp only [compareText, ho, hc, ha, hb, bind, Except.bind, pure, Except.pure]
  by_cases h : viewA = viewB
  · exact ⟨_, if_pos h, by simp [matchResult, h]⟩
  · exact ⟨_, if_neg h, by simp [mismatchResult, h]⟩

theorem exists_compare_of_mem {comparator : TypedComparator}
    (h : comparator ∈ textComparators py) : ∃ id location description,
      comparator.compare = fun oracle candidate =>
        compareText py id oracle candidate location description := by
  simp only [textComparators, List.mem_cons, List.not_mem_nil, or_false] at h
  rcases h with rfl | rfl | rfl
  · exact ⟨_, _, _, rfl⟩
  · exact ⟨_, _, _, rfl⟩
  · exact ⟨_, _, _, rfl⟩

/-! ### When texts match -/

/-- **Sequentially, texts match exactly when their normalized bytes agree.  Sorted, they match when
the multisets of their lines agree, terminators included, and only then where the sorted lines of
both sides are kept apart.** -/
theorem textComparators_match {comparator : TypedComparator}
    (hcomparator : comparator ∈ textComparators py) (ho : oracle.content = some a)
    (hc : candidate.content = some b)
    (ha : normalize py a policy.normalizations = .ok normalizedA)
    (hb : normalize py b policy.normalizations = .ok normalizedB) :
    (policy.ordering = "SEQUENTIAL" →
      ∃ r, comparator.compare oracle candidate policy = .ok r ∧
        (r.result = .MATCH ↔ normalizedA = normalizedB)) ∧
    (policy.ordering = "SORTED" ∨ policy.ordering = "UNORDERED" →
      ∃ r, comparator.compare oracle candidate policy = .ok r ∧
        (Py.lines normalizedA = Py.lines normalizedB → r.result = .MATCH) ∧
        (Py.KeptApart normalizedA → Py.KeptApart normalizedB →
          (r.result = .MATCH ↔ Py.lines normalizedA = Py.lines normalizedB))) := by
  obtain ⟨id, location, description, hcompare⟩ := exists_compare_of_mem hcomparator
  rw [hcompare]
  constructor
  · intro hord
    exact compareText_eq ho hc (view_sequential ha hord) (view_sequential hb hord)
  · intro hord
    obtain ⟨r, hr, hmatch⟩ : ∃ r,
        compareText py id oracle candidate location description policy = .ok r ∧
        (r.result = .MATCH ↔ _) :=
      compareText_eq ho hc (view_sorted ha hord) (view_sorted hb hord)
    refine ⟨r, hr, fun hlines => ?_, fun happartA happartB => ?_⟩
    · rw [hmatch, Py.sortedLines_eq_iff.2 hlines]
    · rw [hmatch, Py.flatten_sortedLines_eq_iff happartA happartB]

/-! ### Terminators count -/

def bareLine (line : Bytes) : Bytes := line.filter fun b => b ≠ 10 ∧ b ≠ 13

/-- The lines of a content without their terminators. -/
def bareLines (content : Bytes) : Multiset Bytes := (Py.lines content).map bareLine

namespace LineOrder

/-- A standard output with the given content. -/
def side (role : String) (content : Bytes) (hrole : role ∈ producerRoles := by decide) :
    ComparedSide where
  artifact :=
    { artifactId := "stdout-" ++ role
      artifactType := "STDOUT"
      logicalName := "stdout"
      producerRole := role
      contentHash := ⟨String.ofList (List.replicate 64 'a'), by decide⟩
      sizeBytes := content.length
      recordCount := none
      producerRole_mem := hrole }
  content := some content

/-- The policy that sorts and normalizes nothing. -/
def sorted : ComparisonPolicy where
  normalizations := []
  ordering := "SORTED"
  failure := none

/-- How quotes are written does not matter here. -/
def plain : Py.Rendering := ⟨fun s => "'" ++ s ++ "'", fun xs => ", ".intercalate xs⟩

/-- The result of comparing two standard outputs line by line in any order. -/
def result (a b : Bytes) : Option ComparisonResult :=
  match (stdoutComparator plain).compare (side "ORACLE" a) (side "CANDIDATE" b) sorted with
  | .ok r => some r.result
  | .error _ => none

end LineOrder

/-- A final terminator counts, and a line without one is run into the line sorted behind it. -/
theorem lineOrder_not_bareLines :
    (LineOrder.result [120] [120, 10] = some .MISMATCH ∧ bareLines [120] = bareLines [120, 10]) ∧
      (LineOrder.result [98, 10, 97] [97, 98, 10] = some .MATCH ∧
        bareLines [98, 10, 97] ≠ bareLines [97, 98, 10]) := by
  decide

/-- Outputs whose lines all end in a line feed match exactly when they have the same lines. -/
theorem textComparators_match_swapped :
    (∃ r, (stdoutComparator LineOrder.plain).compare (LineOrder.side "ORACLE" [98, 10, 97, 10])
      (LineOrder.side "CANDIDATE" [97, 10, 98, 10]) LineOrder.sorted = .ok r ∧
      r.result = .MATCH) ∧
    ∃ r, (stdoutComparator LineOrder.plain).compare (LineOrder.side "ORACLE" [98, 10, 97, 10])
      (LineOrder.side "CANDIDATE" [97, 10, 97, 10]) LineOrder.sorted = .ok r ∧
      r.result ≠ .MATCH := by
  have hmem : stdoutComparator LineOrder.plain ∈ textComparators LineOrder.plain :=
    List.mem_cons_self ..
  have hcontent : ∀ role content (hrole : role ∈ producerRoles),
      (LineOrder.side role content hrole).content = some content := fun _ _ _ => rfl
  have hplain : ∀ content : Bytes,
      normalize LineOrder.plain content LineOrder.sorted.normalizations = .ok content :=
    fun _ => rfl
  constructor
  · obtain ⟨r, hr, hmatch, -⟩ := (textComparators_match hmem
      (hcontent "ORACLE" [98, 10, 97, 10] (by decide))
      (hcontent "CANDIDATE" [97, 10, 98, 10] (by decide)) (hplain _) (hplain _)).2 (.inl rfl)
    exact ⟨r, hr, hmatch (by decide)⟩
  · obtain ⟨r, hr, -, hmatch⟩ := (textComparators_match hmem
      (hcontent "ORACLE" [98, 10, 97, 10] (by decide))
      (hcontent "CANDIDATE" [97, 10, 97, 10] (by decide)) (hplain _) (hplain _)).2 (.inl rfl)
    refine ⟨r, hr, fun h => ?_⟩
    have hlines := (hmatch (Py.keptApart_of_feeds (by decide))
      (Py.keptApart_of_feeds (by decide))).1 h
    exact absurd hlines (by decide)

end CobolJava
