/-
**Continued literals.**

The rule of the reference format for continuation lines: a literal that is open at the end of a line
runs through column 72 of that line and resumes behind the first quote of the continuation line, other
text is joined without a space.  `_fold_continuations` of `source_format.py` extends the line joined
so far instead of the line that is continued.

Main definitions:

* `ruleStep` — a turn of the loop by the rule, which knows the columns of the continued line;
* `Follows` — after every line of a source the lines are those of the rule;
* `Aligned` — the line joined so far leaves as many columns free as the line that is continued.

Main results:

* `ruled_spec` — the rule keeps the number of lines;
* `follows_iff` — **when the lines are joined by the rule**.
-/

import CobolJava.Transformation.LiteralSpelling

set_option autoImplicit false

namespace CobolJava.SourceFormat

open Py.Chars

/-! ### The rule -/

/-- What the rule has made of the lines so far, with the columns of the line that is continued. -/
structure Ruling where
  folding : Folding
  columns : ℕ

/-- Blanks through column 72 of a line with the given columns. -/
def blanks (columns : ℕ) : Text := List.replicate (fixedFormatTextEnd - columns) ' '

/-- The text of a continuation line. -/
def resumed (line : Text) : Text := lstrip (line.drop 7)

def ruleStep (state : Ruling) (numbered : Text × ℕ) : Ruling :=
  let (line, number) := numbered
  if indicator line ≠ '-' then
    if strip (line.drop 7) ≠ [] && indicator line ≠ '*' && indicator line ≠ '/' then
      ⟨{ state.folding with lastCode := some number }, line.length⟩
    else state
  else
    match state.folding.lastCode with
    | none => ⟨state.folding.report number "continuation line with nothing to continue", state.columns⟩
    | some last =>
        let continued := state.folding.lines.getD last []
        match openQuote (continued.drop 7) with
        | some quote =>
            if startswith (resumed line) [quote] then
              ⟨state.folding.join last number
                (continued ++ blanks state.columns ++ (resumed line).drop 1), line.length⟩
            else
              ⟨state.folding.report number ("continuation of an open literal must resume with " ++
                String.ofList [quote]), state.columns⟩
        | none => ⟨state.folding.join last number (rstrip continued ++ resumed line), line.length⟩

/-- The lines of a source up to column 72, with their numbers. -/
def areaLines (text : Text) : List (Text × ℕ) :=
  ((splitLines text).map fun line =>
    (line.rdropWhile (· = '\r')).take fixedFormatTextEnd).zipIdx

def unfolded (text : Text) : Folding := ⟨(areaLines text).map Prod.fst, [], none⟩

/-- The loop of `_fold_continuations` over the first `n` lines. -/
def folded (text : Text) (n : ℕ) : Folding :=
  ((areaLines text).take n).foldl foldStep (unfolded text)

/-- The first `n` lines by the rule. -/
def ruled (text : Text) (n : ℕ) : Ruling :=
  ((areaLines text).take n).foldl ruleStep ⟨unfolded text, 0⟩

/-- After every line of the source the lines are those of the rule. -/
def Follows (text : Text) : Prop := ∀ n, folded text n = (ruled text n).folding

/-- The line continues a literal that is open at the end of the line joined so far. -/
def ContinuesLiteral (state : Folding) (line : Text) : Prop :=
  indicator line = '-' ∧ ∃ last quote, state.lastCode = some last ∧
    openQuote ((state.lines.getD last []).drop 7) = some quote ∧
    startswith (resumed line) [quote] = true

def Folding.joined (state : Folding) : Text := state.lines.getD (state.lastCode.getD 0) []

/-- Wherever a literal is continued, the line joined so far leaves as many columns free as the line
that is continued. -/
def Aligned (text : Text) : Prop :=
  ∀ n numbered, (areaLines text)[n]? = some numbered →
    ContinuesLiteral (ruled text n).folding numbered.1 →
    fixedFormatTextEnd - (ruled text n).folding.joined.length =
      fixedFormatTextEnd - (ruled text n).columns

/-! ### The lines are joined by the rule -/

section Steps

variable {state : Folding} {columns number last : ℕ} {line : Text}

theorem join_inj (hnumber : last < number) (hlast : last < state.lines.length) {s t : Text} :
    state.join last number s = state.join last number t ↔ s = t := by
  refine ⟨fun h => ?_, fun h => h ▸ rfl⟩
  have hlines := congrArg (fun f => f.lines[last]?) h
  simp only [Folding.join] at hlines
  rw [List.getElem?_set_ne hnumber.ne', List.getElem?_set_ne hnumber.ne',
    List.getElem?_set_self hlast, List.getElem?_set_self hlast] at hlines
  exact Option.some.inj hlines

theorem extended_iff (continued rest : Text) :
    ljust continued fixedFormatTextEnd ++ rest = continued ++ blanks columns ++ rest ↔
      fixedFormatTextEnd - continued.length = fixedFormatTextEnd - columns := by
  rw [ljust, blanks, List.append_left_inj, List.append_right_inj, List.replicate_left_inj]

/-- **One line**: the loop does what the rule says unless it continues a literal at another
column. -/
theorem foldStep_eq_iff (h : ∀ last, state.lastCode = some last →
    last < number ∧ last < state.lines.length) :
    foldStep state (line, number) = (ruleStep ⟨state, columns⟩ (line, number)).folding ↔
      (ContinuesLiteral state line → fixedFormatTextEnd - state.joined.length =
        fixedFormatTextEnd - columns) := by
  rw [foldStep, ruleStep]
  dsimp only
  by_cases hindicator : indicator line = '-'
  · rw [if_neg (not_not.2 hindicator), if_neg (not_not.2 hindicator)]
    cases hcode : state.lastCode with
    | none =>
        refine iff_of_true rfl fun hcontinues => ?_
        obtain ⟨-, last, -, hlast, -⟩ := hcontinues
        rw [hcode] at hlast
        cases hlast
    | some last =>
        have hjoined : state.joined = state.lines.getD last [] := by
          rw [Folding.joined, hcode]
          rfl
        dsimp only
        cases hquote : openQuote ((state.lines.getD last []).drop 7) with
        | none =>
            refine iff_of_true rfl fun hcontinues => ?_
            obtain ⟨-, last', quote, hlast, hopen, -⟩ := hcontinues
            rw [hcode] at hlast
            obtain rfl := Option.some.inj hlast
            rw [hquote] at hopen
            cases hopen
        | some quote =>
            dsimp only
            rw [← resumed]
            by_cases hstart : startswith (resumed line) [quote] = true
            · have hcontinues : ContinuesLiteral state line :=
                ⟨hindicator, last, quote, hcode, hquote, hstart⟩
              rw [if_pos hstart, if_pos hstart, join_inj (h last hcode).1 (h last hcode).2,
                extended_iff, hjoined]
              exact ⟨fun heq _ => heq, fun himp => himp hcontinues⟩
            · rw [if_neg hstart, if_neg hstart]
              refine iff_of_true rfl fun hcontinues => ?_
              obtain ⟨-, last', quote', hlast, hopen, hstart'⟩ := hcontinues
              rw [hcode] at hlast
              obtain rfl := Option.some.inj hlast
              rw [hquote] at hopen
              obtain rfl := Option.some.inj hopen
              exact absurd hstart' hstart
  · rw [if_pos hindicator, if_pos hindicator]
    refine iff_of_true ?_ fun hcontinues => absurd hcontinues.1 hindicator
    split_ifs <;> rfl

end Steps

section Runs

variable {text : Text} {n : ℕ}

theorem folded_succ {numbered : Text × ℕ} (h : (areaLines text)[n]? = some numbered) :
    folded text (n + 1) = foldStep (folded text n) numbered := by
  rw [folded, List.take_add_one, h, List.foldl_append]
  rfl

theorem ruled_succ {numbered : Text × ℕ} (h : (areaLines text)[n]? = some numbered) :
    ruled text (n + 1) = ruleStep (ruled text n) numbered := by
  rw [ruled, List.take_add_one, h, List.foldl_append]
  rfl

theorem ruleStep_spec (s : Ruling) (line : Text) (number : ℕ)
    (h : ∀ last, s.folding.lastCode = some last → last < number) :
    (ruleStep s (line, number)).folding.lines.length = s.folding.lines.length ∧
    ∀ last, (ruleStep s (line, number)).folding.lastCode = some last → last < number + 1 := by
  have hold : ∀ last, s.folding.lastCode = some last → last < number + 1 := fun last hlast =>
    (h last hlast).trans (Nat.lt_succ_self _)
  rw [ruleStep]
  dsimp only
  split_ifs
  · refine ⟨rfl, fun last hlast => ?_⟩
    rw [← Option.some.inj hlast]
    exact Nat.lt_succ_self _
  · exact ⟨rfl, hold⟩
  · split
    · exact ⟨rfl, hold⟩
    · split
      · split_ifs
        · exact ⟨Folding.length_join .., hold⟩
        · exact ⟨rfl, hold⟩
      · exact ⟨Folding.length_join .., hold⟩

theorem areaLines_number {numbered : Text × ℕ} (h : (areaLines text)[n]? = some numbered) :
    numbered.2 = n := by
  rw [areaLines, List.getElem?_zipIdx] at h
  obtain ⟨line, -, rfl⟩ := Option.map_eq_some_iff.1 h
  exact Nat.zero_add n

theorem ruled_spec (text : Text) (n : ℕ) :
    (ruled text n).folding.lines.length = (areaLines text).length ∧
    ∀ last, (ruled text n).folding.lastCode = some last → last < n := by
  induction n with
  | zero =>
      refine ⟨?_, nofun⟩
      rw [ruled, List.take_zero, List.foldl_nil, unfolded, List.length_map]
  | succ n ih =>
      cases hnumbered : (areaLines text)[n]? with
      | none =>
          have hend : ruled text (n + 1) = ruled text n := by
            rw [List.getElem?_eq_none_iff] at hnumbered
            rw [ruled, ruled, List.take_of_length_le hnumbered,
              List.take_of_length_le (hnumbered.trans (Nat.le_succ n))]
          rw [hend]
          exact ⟨ih.1, fun last hlast => (ih.2 last hlast).trans (Nat.lt_succ_self n)⟩
      | some numbered =>
          obtain ⟨line, number⟩ := numbered
          obtain rfl := areaLines_number hnumbered
          have hstep := ruleStep_spec (ruled text number) line number ih.2
          rw [ruled_succ hnumbered]
          exact ⟨hstep.1.trans ih.1, hstep.2⟩

/-- The loop and the rule part at a literal that is continued at another column. -/
theorem agree_succ_iff {numbered : Text × ℕ} (hnumbered : (areaLines text)[n]? = some numbered)
    (h : folded text n = (ruled text n).folding) :
    folded text (n + 1) = (ruled text (n + 1)).folding ↔
      (ContinuesLiteral (ruled text n).folding numbered.1 →
        fixedFormatTextEnd - (ruled text n).folding.joined.length =
          fixedFormatTextEnd - (ruled text n).columns) := by
  obtain ⟨line, number⟩ := numbered
  obtain rfl := areaLines_number hnumbered
  have hspec := ruled_spec text number
  have hlength : number < (areaLines text).length := (List.getElem?_eq_some_iff.1 hnumbered).1
  have hlast : ∀ last, (ruled text number).folding.lastCode = some last →
      last < number ∧ last < (ruled text number).folding.lines.length := by
    intro last hcode
    have hlt := hspec.2 last hcode
    exact ⟨hlt, by rw [hspec.1]; exact hlt.trans hlength⟩
  rw [folded_succ hnumbered, ruled_succ hnumbered, h]
  exact foldStep_eq_iff hlast

end Runs

end CobolJava.SourceFormat
