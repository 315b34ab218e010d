/-
**No JCL statement is lost.**

Every `JOB`, `EXEC` and `DD` statement of a source stands in the parsed jobs where it belongs, or an
error is recorded, exactly when some line is diagnosed or every statement is taken for what it is.

Main definitions:

* `Complete`, `NoStatementLost` — the statements of a source stand in its jobs, or there is an error;
* `FieldsStand` — the operands of a statement are where the parser looks for them;
* `Readable` — the statements are taken for what they are;
* `Diagnosed` — a line leads to an error.

Main results:

* `entityRead_eq_iff` — reading the fields of a statement;
* `any_isError_iff_diagnosed` — the errors;
* `complete_iff_readable` — the jobs;
* `noStatementLost_iff` — exactly the sources without a loss;
* `complete_of_full` — a source of status full.
-/

import Mathlib.Data.List.Infix
import CobolJava.Jcl.Placement

set_option autoImplicit false

namespace CobolJava.Jcl

open Py (isSpace)
open Py.Chars

variable {lines : List Text}

/-! ### The property -/

def JclStatement.entity (st : JclStatement) : Entity :=
  match st.operation with
  | .job => .job st.name st.cond
  | .exec => .step st.name st.program st.procedure st.cond
  | .dd => .dd st.name st.dataset

/-- Every statement stands in the jobs, with the job and the step it follows, in source order. -/
def Complete (lines : List Text) (jobs : List JclJob) : Prop :=
  (∀ i st, statementAt lines i = some st →
    ⟨i, ownerUpTo lines (i + 1), st.entity⟩ ∈ jobs.flatMap jobPlacements) ∧
  ((jobs.flatMap jobPlacements).filter fun p => (statementAt lines p.line).isSome).Pairwise
    fun p q => p.line < q.line

/-- The statements of a source stand in its jobs, or an error is recorded. -/
def NoStatementLost (source : Text) : Prop :=
  Complete (splitlines source) (parseJobs source) ∨
    (build source).any JclDiagnostic.isError = true

/-! ### The condition -/

/-- The operands of a statement are where the parser looks for them.  The name field of an `EXEC` or
`DD` statement is not empty.  `PGM=` is the first operand of an `EXEC` statement and the last one, and
nothing behind names a procedure.  Read to the end of the line, comment included, the `COND` and the
`DSN` parameter are those of the operand field. -/
def FieldsStand (st : JclStatement) : Prop :=
  match st.operation with
  | .job =>
      if st.name = [] then startsWithKey "JOB" st.text = false ∧ st.cond = none
      else (parseParameters st.text).get "COND" = st.cond
  | .exec =>
      st.name ≠ [] ∧ startsWithKey "PGM=" st.text = true ∧ word (st.text.drop 4) ≠ [] ∧
        ',' ∉ dropCommas (word (st.text.drop 4)) ∧ dropCommas (searchWord "PROC=" st.text) = [] ∧
        (parseParameters st.text).get "COND" = st.cond
  | .dd => st.name ≠ [] ∧ st.text ≠ [] ∧ ddValue "DSN=" st.text = st.dataset

/-- Every statement is taken for what it is, with its operands, and the last lines before it that are
taken for a `JOB` and an `EXEC` statement are the last such statements; before the first `JOB`
statement there are only statements if no line is taken for one. -/
def Readable (lines : List Text) : Prop :=
  ∀ i st, statementAt lines i = some st →
    takenAt lines i = some st.operation ∧ FieldsStand st ∧
      (st.operation ≠ .job →
        takenOwnerUpTo lines (i + 1) = ownerUpTo lines (i + 1) ∧
          ((ownerUpTo lines (i + 1)).job = none → ∀ j, takenAt lines j ≠ some .job))

/-- The text of an `EXEC` line gives no program. -/
def namesNoProgram (text : Text) : Bool :=
  match matchHeader "EXEC" text with
  | none => true
  | some (_, execStr) => dropCommas (searchWord "PGM=" execStr) = []

/-- A line leads to an error: the scan finds it, it is taken for an `EXEC` statement and gives no
program, or it is taken for a `DD` statement before the first step of its job. -/
def Diagnosed (lines : List Text) : Prop :=
  (∃ line ∈ lines, scanFails line = true) ∨
    (∃ i, takenAt lines i = some .exec ∧
      namesNoProgram (textRead (modeAt lines i) ((lines[i]?).getD [])) = true) ∨
    ∃ i, takenAt lines i = some .dd ∧ (takenOwnerUpTo lines (i + 1)).step = none

/-! ### Fields -/

theorem textRead_slashes (mode : Bool) (r : Text) :
    textRead mode ('/' :: '/' :: r) = strip r := by
  have hslash : isSpace '/' = false := by decide
  unfold textRead
  split
  · rw [stepContent, strip_cons hslash, rstrip_cons hslash, List.drop_succ_cons,
      List.drop_succ_cons, List.drop_zero, strip_rstrip]
  · rfl

section Fields

variable {c : Text} {keyword : String}

theorem length_of_upper_word {s : Text} (h : upper (word s) = keyword.toList) :
    (word s).length = keyword.length := by
  rw [← String.length_toList, ← h, upper, List.length_map]

theorem drop_keyword {s : Text} (h : upper (word s) = keyword.toList) :
    s.drop keyword.length = afterWord s := by
  conv_lhs => rw [← word_append_afterWord s, ← length_of_upper_word h]
  exact List.drop_left

theorem startsWithKey_word {s : Text} (h : upper (word s) = keyword.toList) :
    startsWithKey keyword s = true := by
  rw [startsWithKey, startswith, List.isPrefixOf_iff_prefix, ← h, upper, upper]
  exact List.IsPrefix.map _ (List.takeWhile_prefix _)

/-- The header of a statement with a name. -/
theorem matchHeader_named (hc : rstrip c = c) (hname : word c ≠ [])
    (hop : upper (word (lstrip (afterWord c))) = keyword.toList) (hkeyword : keyword.toList ≠ []) :
    matchHeader keyword c =
      if keyword ≠ "JOB" ∧ lstrip (afterWord (lstrip (afterWord c))) = [] then none
      else some (word c, lstrip (afterWord (lstrip (afterWord c)))) := by
  have hafter : afterWord c ≠ [] := by
    intro hnil
    rw [hnil] at hop
    exact hkeyword hop.symm
  have htail : afterWord (lstrip (afterWord c)) <:+ c :=
    (afterWord_suffix _).trans ((lstrip_suffix _).trans (afterWord_suffix _))
  have hstripped : rstrip (afterWord (lstrip (afterWord c))) =
      afterWord (lstrip (afterWord c)) := rstrip_eq_self_of_suffix hc htail
  have hstrip : strip (afterWord (lstrip (afterWord c))) =
      lstrip (afterWord (lstrip (afterWord c))) := by
    rw [strip, ← lstrip_rstrip, hstripped]
  have hhead : (afterWord (lstrip (afterWord c))).head?.any isSpace = true ↔
      lstrip (afterWord (lstrip (afterWord c))) ≠ [] := by
    rw [Ne, lstrip_eq_nil hstripped]
    cases htailcases : afterWord (lstrip (afterWord c)) with
    | nil => simp
    | cons d rest =>
        have := isSpace_of_afterWord (c := d) (by rw [htailcases]; rfl)
        simp [this]
  simp only [matchHeader, drop_keyword hop, startsWithKey_word hop, hname, hafter, Bool.not_true,
    Bool.false_eq_true, or_self, if_false, hstrip]
  by_cases hempty : lstrip (afterWord (lstrip (afterWord c))) = []
  · have : (afterWord (lstrip (afterWord c))).head?.any isSpace = false := by
      rw [← Bool.not_eq_true, hhead]
      exact fun h => h hempty
    simp [this, hempty]
  · simp [hhead.2 hempty, hempty]

theorem name_ne_nil_of_matchHeader {text name rest : Text}
    (h : matchHeader keyword text = some (name, rest)) : name ≠ [] := by
  simp only [matchHeader] at h
  split_ifs at h with hfail
  obtain ⟨rfl, -⟩ := Prod.mk.inj (Option.some.inj h)
  exact fun hnil => hfail (.inl hnil)

theorem matchHeader_job (text : Text) (hword : word text ≠ []) :
    (matchHeader "JOB" text).map Prod.fst =
      if startsWithKey "JOB" (lstrip (afterWord text)) then some (word text) else none := by
  have hempty : afterWord text = [] → startsWithKey "JOB" (lstrip (afterWord text)) = false := by
    intro hnil
    rw [hnil]
    rfl
  simp only [matchHeader, hword, false_or, ne_eq, not_true_eq_false, false_and, if_false]
  cases hkey : startsWithKey "JOB" (lstrip (afterWord text)) with
  | false => simp
  | true =>
      have hafter : afterWord text ≠ [] := fun hnil => by
        rw [hempty hnil] at hkey
        exact absurd hkey (by simp)
      simp [hafter]

end Fields

/-- Up to the first comma, or without the commas at the end. -/
theorem dropCommas_eq_iff (w : Text) :
    dropCommas w = w.takeWhile (fun c => decide (c ≠ ',')) ↔ ',' ∉ dropCommas w := by
  constructor
  · intro heq hmem
    rw [heq] at hmem
    exact absurd (List.mem_takeWhile_imp hmem) (by decide)
  · intro hnot
    have hsplit : dropCommas w ++ w.rtakeWhile (fun c => decide (c = ',')) = w :=
      List.rdropWhile_append_rtakeWhile
    have hcommas : (w.rtakeWhile (fun c => decide (c = ','))).takeWhile
        (fun c => decide (c ≠ ',')) = [] := by
      cases hrest : w.rtakeWhile (fun c => decide (c = ',')) with
      | nil => rfl
      | cons d rest =>
          have hd : d = ',' := by
            have := List.mem_rtakeWhile_imp (hrest ▸ List.mem_cons_self :
              d ∈ w.rtakeWhile (fun c => decide (c = ',')))
            simpa using this
          simp [hd]
    conv_rhs => rw [← hsplit]
    rw [List.takeWhile_append_of_pos, hcommas, List.append_nil]
    intro c hc
    exact decide_eq_true fun heq => hnot (heq ▸ hc)

theorem nameAt_eq (text : Text) : nameAt text = (word text).takeWhile fun c => decide (c ≠ ',') := by
  rw [nameAt, word, List.takeWhile_takeWhile]
  congr 1
  funext c
  simp [Bool.and_comm]

theorem searchWord_of_startsWith {text : Text} (h : startsWithKey "PGM=" text = true)
    (hword : word (text.drop 4) ≠ []) : searchWord "PGM=" text = word (text.drop 4) := by
  cases text with
  | nil => exact absurd h (by decide)
  | cons c rest =>
      rw [searchWord]
      exact if_pos ⟨h, hword⟩

/-- The program that is read is the one of the operands exactly when `PGM=` is the first operand and
the last one. -/
theorem program_eq_iff {st : JclStatement} (hread : dropCommas (searchWord "PGM=" st.text) ≠ []) :
    dropCommas (searchWord "PGM=" st.text) = st.program ↔
      startsWithKey "PGM=" st.text = true ∧ word (st.text.drop 4) ≠ [] ∧
        ',' ∉ dropCommas (word (st.text.drop 4)) := by
  constructor
  · intro heq
    have hkey : startsWithKey "PGM=" st.text = true := by
      by_contra hkey
      rw [JclStatement.program, if_neg hkey] at heq
      exact hread heq
    rw [JclStatement.program, if_pos hkey, nameAt_eq] at heq
    have hword : word (st.text.drop 4) ≠ [] := by
      intro hnil
      rw [hnil] at heq
      exact hread heq
    rw [searchWord_of_startsWith hkey hword] at heq
    exact ⟨hkey, hword, (dropCommas_eq_iff _).1 heq⟩
  · rintro ⟨hkey, hword, hcommas⟩
    rw [JclStatement.program, if_pos hkey, nameAt_eq, searchWord_of_startsWith hkey hword]
    exact (dropCommas_eq_iff _).2 hcommas

/-- A line that is taken for a `DD` statement mentions `DD` between blanks, or starts with it. -/
theorem mentions_of_takenFor_dd {mode : Bool} {r : Text}
    (h : takenFor mode ('/' :: '/' :: r) = some .dd) :
    contains (upper (strip r)) " DD ".toList = true ∨ startsWithKey "DD " (strip r) = true := by
  have hupper : contains (strip r) " DD ".toList = true →
      contains (upper (strip r)) " DD ".toList = true := by
    intro hcontains
    obtain ⟨t, ht, hprefix⟩ := List.any_eq_true.1 hcontains
    refine List.any_eq_true.2 ⟨upper t, ?_, ?_⟩
    · exact (List.mem_tails _ _).2 (((List.mem_tails _ _).1 ht).map Char.toUpper)
    · exact List.isPrefixOf_iff_prefix.2 ((List.isPrefixOf_iff_prefix.1 hprefix).map Char.toUpper)
  have hcontent : stepContent ('/' :: '/' :: r) = strip r := by
    have hslash : isSpace '/' = false := by decide
    rw [stepContent, strip_cons hslash, rstrip_cons hslash, List.drop_succ_cons,
      List.drop_succ_cons, List.drop_zero, strip_rstrip]
  rw [takenFor] at h
  split at h
  · -- `_parse_exec` takes the line
    rename_i hstep
    rw [Bool.and_eq_true, isStepDD, hcontent, Bool.and_eq_true, Bool.or_eq_true] at hstep
    exact hstep.2.2
  · -- the main loop does
    simp only [mainKind, List.drop_succ_cons, List.drop_zero] at h
    split_ifs at h with _ _ _ hmentions
    · exact absurd h (by decide)
    · exact absurd h (by decide)
    · exact (Bool.or_eq_true_iff.1 hmentions).imp hupper id

/-- A `DD` statement whose name is no `DD` has operands if its line is taken for one. -/
theorem operands_of_takenFor_dd {mode : Bool} {r : Text} (hstrip : strip r = rstrip r)
    (h : takenFor mode ('/' :: '/' :: r) = some .dd)
    (hname : word (rstrip r) = "UNKNOWN".toList) :
    lstrip (afterWord (lstrip (afterWord (rstrip r)))) ≠ [] := by
  have hfirst : startsWithKey "DD " (rstrip r) = false := by
    rw [← word_append_afterWord (rstrip r), hname]
    rfl
  have hmentions := mentions_of_takenFor_dd h
  rw [hstrip, hfirst, or_iff_left (by simp)] at hmentions
  obtain ⟨t, ht, hprefix⟩ := List.any_eq_true.1 hmentions
  obtain ⟨before, hbefore⟩ := (List.mem_tails _ _).1 ht
  obtain ⟨behind, rfl⟩ := List.isPrefixOf_iff_prefix.1 hprefix
  obtain ⟨u, v, huv, -, hv⟩ := List.map_eq_append_iff.1 hbefore.symm
  obtain ⟨blank, v, rfl, hblank, hv⟩ := List.map_eq_cons_iff.1 hv
  obtain ⟨d, v, rfl, hd, hv⟩ := List.map_eq_cons_iff.1 hv
  obtain ⟨d', v, rfl, -, hv⟩ := List.map_eq_cons_iff.1 hv
  obtain ⟨blank', v, rfl, hblank', -⟩ := List.map_eq_cons_iff.1 hv
  have hspace : isSpace blank = true := by rw [← Py.Chars.isSpace_toUpper, hblank]; rfl
  have hspace' : isSpace blank' = true := by rw [← Py.Chars.isSpace_toUpper, hblank']; rfl
  have hletter : isSpace d = false := by rw [← Py.Chars.isSpace_toUpper, hd]; rfl
  -- the second blank stands behind the second word
  have hbehind : lstrip (afterWord (rstrip r)) =
      lstrip (u.dropWhile (fun c => !isSpace c) ++ [blank]) ++ d :: d' :: blank' :: v := by
    rw [huv, afterWord, dropWhile_append_cons (by simp [hspace]), lstrip, lstrip,
      ← dropWhile_append_cons hletter, List.append_assoc]
    rfl
  have hafter : afterWord (lstrip (afterWord (rstrip r))) ≠ [] :=
    afterWord_ne_nil (by rw [hbehind]; simp) hspace'
  rw [Ne, lstrip_eq_nil]
  · exact hafter
  · exact rstrip_eq_self_of_suffix (rstrip_rstrip r)
      ((afterWord_suffix _).trans ((lstrip_suffix _).trans (afterWord_suffix _)))

/-! ### Statements -/

theorem statementOf_eq_some {line : Text} {rest : List Text} {st : JclStatement}
    (h : statementOf line rest = some st) :
    ∃ r, line = '/' :: '/' :: r ∧ st.name = word (rstrip r) ∧
      upper (word (lstrip (afterWord (rstrip r)))) = st.operation.keyword.toList ∧
      st.text = lstrip (afterWord (lstrip (afterWord (rstrip r)))) := by
  rw [statementOf] at h
  split_ifs at h with hline
  rw [Bool.or_eq_true, not_or, Bool.not_eq_true', Bool.not_eq_false] at hline
  obtain ⟨r, rfl⟩ := List.isPrefixOf_iff_prefix.1 hline.1
  obtain ⟨op, hop, rfl⟩ := Option.map_eq_some_iff.1 h
  refine ⟨r, rfl, rfl, ?_, rfl⟩
  simpa using List.find?_some hop

/-- The entity that is read of a statement's line is the one it declares exactly when its fields are
where the parser looks for them. -/
theorem entityRead_eq_iff {mode : Bool} {line : Text} {rest : List Text} {st : JclStatement}
    (hst : statementOf line rest = some st) (htaken : takenFor mode line = some st.operation)
    (hprogram : st.operation = .exec → namesNoProgram (textRead mode line) = false) :
    entityRead st.operation (textRead mode line) = st.entity ↔ FieldsStand st := by
  obtain ⟨r, rfl, hname, hop, htext⟩ := statementOf_eq_some hst
  rw [textRead_slashes] at hprogram ⊢
  have hkeyword : st.operation.keyword.toList ≠ [] := by
    cases st.operation <;> decide
  have hword : word (lstrip (afterWord (rstrip r))) ≠ [] := by
    intro hnil
    rw [hnil] at hop
    exact hkeyword hop.symm
  by_cases hempty : st.name = []
  · -- without a name, the first word is the operation
    have hstrip : strip r = lstrip (afterWord (rstrip r)) := by
      rw [afterWord_eq_self (hname.symm.trans hempty), lstrip_rstrip, strip]
    rw [hstrip] at hprogram ⊢
    cases hcase : st.operation with
    | job =>
        have hheader := matchHeader_job _ hword
        rw [← htext] at hheader
        simp only [entityRead, JclStatement.entity, FieldsStand, hcase, hempty, if_true, parseJob]
        cases hmatch : matchHeader "JOB" (lstrip (afterWord (rstrip r))) with
        | none =>
            have hkey : startsWithKey "JOB" st.text = false := by
              rw [hmatch] at hheader
              by_contra hkey
              rw [if_pos (by simpa using hkey)] at hheader
              exact absurd hheader (by simp)
            rw [hkey]
            simp [Parameters.get, eq_comm]
        | some header =>
            have hkey : startsWithKey "JOB" st.text = true := by
              rw [hmatch] at hheader
              by_contra hkey
              rw [if_neg hkey] at hheader
              exact absurd hheader (by simp)
            rw [hkey]
            simp [name_ne_nil_of_matchHeader hmatch]
    | exec =>
        have hread := hprogram hcase
        rw [namesNoProgram] at hread
        simp only [entityRead, JclStatement.entity, FieldsStand, hcase, hempty, parseExec,
          stepEntity]
        cases hmatch : matchHeader "EXEC" (lstrip (afterWord (rstrip r))) with
        | none =>
            rw [hmatch] at hread
            exact absurd hread (by simp)
        | some header => simp [name_ne_nil_of_matchHeader hmatch]
    | dd =>
        simp only [entityRead, JclStatement.entity, FieldsStand, hcase, hempty, parseDD]
        cases hmatch : matchHeader "DD" (lstrip (afterWord (rstrip r))) with
        | none => simp
        | some header => simp [name_ne_nil_of_matchHeader hmatch]
  · have hstrip : strip r = rstrip r := by
      refine strip_eq_rstrip fun c hc => ?_
      cases hr : r with
      | nil => exact absurd (by rw [hname, hr]; rfl) hempty
      | cons d rest' =>
          obtain rfl : d = c := by simpa [hr] using hc
          by_contra hspace
          refine hempty ?_
          obtain ⟨tail, htail⟩ := List.rdropWhile_prefix isSpace (l := r)
          rw [hname]
          cases hfirst : rstrip r with
          | nil => rfl
          | cons e rest'' =>
              obtain rfl : e = d := by
                rw [← rstrip, hfirst, hr] at htail
                exact (List.cons.inj htail).1
              simpa [word] using hspace
    rw [hstrip] at hprogram ⊢
    have hheader := matchHeader_named (rstrip_rstrip r) (hname ▸ hempty) hop hkeyword
    rw [← hname, ← htext] at hheader
    cases hcase : st.operation with
    | job =>
        rw [hcase] at hheader
        simp only [Operation.keyword, ne_eq, not_true_eq_false, false_and, if_false] at hheader
        simp only [entityRead, JclStatement.entity, FieldsStand, hcase, hempty, if_false, parseJob,
          hheader, Entity.job.injEq, true_and]
    | exec =>
        have hread := hprogram hcase
        rw [hcase, show Operation.exec.keyword = "EXEC" from rfl] at hheader
        rw [namesNoProgram] at hread
        have htextNe : st.text ≠ [] := by
          intro hnil
          rw [hheader, if_pos ⟨by decide, hnil⟩] at hread
          exact absurd hread (by simp)
        rw [if_neg (fun h => htextNe h.2)] at hheader
        rw [hheader] at hread
        have hne : dropCommas (searchWord "PGM=" st.text) ≠ [] := by simpa using hread
        simp only [entityRead, JclStatement.entity, FieldsStand, hcase, hempty, parseExec, hheader,
          stepEntity, parseExecParams, Option.map_some, Option.getD_some, Entity.step.injEq,
          true_and, program_eq_iff hne, ne_eq, not_false_eq_true]
        constructor
        · rintro ⟨⟨hkey, hfound, hcommas⟩, hprocedure, hcond⟩
          refine ⟨hkey, hfound, hcommas, ?_, hcond⟩
          rw [hprocedure, JclStatement.procedure, if_pos hkey]
        · rintro ⟨hkey, hfound, hcommas, hprocedure, hcond⟩
          refine ⟨⟨hkey, hfound, hcommas⟩, ?_, hcond⟩
          rw [hprocedure, JclStatement.procedure, if_pos hkey]
    | dd =>
        rw [hcase, show Operation.dd.keyword = "DD" from rfl] at hheader
        rw [hcase] at htaken
        simp only [entityRead, JclStatement.entity, FieldsStand, hcase, parseDD]
        by_cases hoperands : st.text = []
        · rw [if_pos ⟨by decide, hoperands⟩] at hheader
          simp only [hheader, hoperands, ne_eq, not_true_eq_false, false_and, and_false, iff_false,
            Entity.dd.injEq, not_and]
          intro hunknown
          rw [hname] at hunknown
          exact absurd (htext ▸ hoperands) (operands_of_takenFor_dd hstrip htaken hunknown.symm)
        · rw [if_neg (fun h => hoperands h.2)] at hheader
          simp [hheader, hoperands, hempty]

/-! ### Errors -/

/-- The placement makes the builder record an error. -/
def Placement.Fails (p : Placement) : Prop :=
  match p.entity with
  | .job _ _ => False
  | .step _ program _ _ => program = []
  | .dd _ _ => p.owner.step = none

theorem fails_stepPlacements (job : Option ℕ) (step : JclStep) :
    (∃ p ∈ stepPlacements job step, p.Fails) ↔ step.runsProgram = false := by
  have hdd : ¬ ∃ p ∈ step.ddStatements.map (ddPlacement ⟨job, some step.line⟩), p.Fails := by
    rintro ⟨p, hp, hfails⟩
    obtain ⟨dd, -, rfl⟩ := List.mem_map.1 hp
    exact absurd hfails (by simp [Placement.Fails, ddPlacement])
  rw [stepPlacements, List.exists_mem_cons_iff, or_iff_left hdd, JclStep.runsProgram]
  cases hexec : step.exec with
  | none => simp [Placement.Fails, stepEntity, hexec]
  | some exec => simp [Placement.Fails, stepEntity, hexec]

theorem fails_jobPlacements (job : JclJob) :
    (∃ p ∈ jobPlacements job, p.Fails) ↔
      (∃ step ∈ job.steps, step.runsProgram = false) ∨ job.jobDdStatements ≠ [] := by
  have hjob : ¬ ∃ p ∈ (job.line.map fun i =>
      (⟨i, ⟨some i, none⟩, .job job.name (job.parameters.get "COND")⟩ : Placement)).toList,
      p.Fails := by
    rintro ⟨p, hp, hfails⟩
    obtain ⟨i, -, rfl⟩ := Option.map_eq_some_iff.1 (Option.mem_toList.1 hp)
    exact hfails
  have hdds : (∃ p ∈ job.jobDdStatements.map (ddPlacement ⟨job.line, none⟩), p.Fails) ↔
      job.jobDdStatements ≠ [] := by
    cases job.jobDdStatements with
    | nil => simp
    | cons dd rest => simp [Placement.Fails, ddPlacement]
  have hsteps : (∃ p ∈ job.steps.flatMap (stepPlacements job.line), p.Fails) ↔
      ∃ step ∈ job.steps, step.runsProgram = false := by
    simp only [List.mem_flatMap, ← fails_stepPlacements job.line]
    constructor
    · rintro ⟨p, ⟨step, hstep, hp⟩, hfails⟩
      exact ⟨step, hstep, p, hp, hfails⟩
    · rintro ⟨step, hstep, p, hp, hfails⟩
      exact ⟨p, ⟨step, hstep, hp⟩, hfails⟩
  rw [← hdds, ← hsteps, or_comm]
  simp only [jobPlacements, List.mem_append, or_and_right, exists_or]
  exact or_iff_right hjob

theorem program_entityRead (text : Text) :
    (∀ owner i, Placement.Fails ⟨i, owner, entityRead .exec text⟩ ↔ namesNoProgram text = true) := by
  intro owner i
  simp only [Placement.Fails, entityRead, stepEntity, parseExec, namesNoProgram]
  cases matchHeader "EXEC" text with
  | none => simp
  | some header => simp [parseExecParams]

/-- An error is recorded exactly when a line leads to one. -/
theorem any_isError_iff_diagnosed (lines : List Text) :
    (buildLines lines).any JclDiagnostic.isError = true ↔ Diagnosed lines := by
  have hplaced : (∃ job ∈ parseLines lines, (∃ step ∈ job.steps, step.runsProgram = false) ∨
      job.jobDdStatements ≠ []) ↔ ∃ p ∈ placedUpTo lines lines.length, p.Fails := by
    rw [← placements_parseLines]
    simp only [List.mem_flatMap, ← fails_jobPlacements]
    exact ⟨fun ⟨job, hjob, p, hp, hfails⟩ => ⟨p, ⟨job, hjob, hp⟩, hfails⟩,
      fun ⟨p, ⟨job, hjob, hp⟩, hfails⟩ => ⟨job, hjob, p, hp, hfails⟩⟩
  have hlength : ∀ {i op}, takenAt lines i = some op → i < lines.length := by
    intro i op h
    obtain ⟨line, hline, -⟩ := Option.bind_eq_some_iff.1 h
    exact (List.getElem?_eq_some_iff.1 hline).1
  rw [any_isError_buildLines, hplaced, Diagnosed]
  refine or_congr Iff.rfl ⟨?_, ?_⟩
  · rintro ⟨p, hp, hfails⟩
    obtain ⟨op, hplacement⟩ := mem_placedUpTo hp
    cases op with
    | job =>
        rw [Placement.Fails, hplacement.entity] at hfails
        exact hfails.elim
    | exec =>
        refine .inl ⟨p.line, hplacement.taken, (program_entityRead _ p.owner p.line).1 ?_⟩
        rw [Placement.Fails, hplacement.entity] at hfails
        exact hfails
    | dd =>
        refine .inr ⟨p.line, hplacement.taken, ?_⟩
        rw [← hplacement.step (by decide)]
        rw [Placement.Fails, hplacement.entity] at hfails
        exact hfails
  · rintro (⟨i, htaken, hprogram⟩ | ⟨i, htaken, hstep⟩)
    · obtain ⟨p, hp, rfl⟩ := exists_mem_placedUpTo (hlength htaken) htaken
      obtain ⟨op, hplacement⟩ := mem_placedUpTo hp
      obtain rfl := Option.some.inj (hplacement.taken.symm.trans htaken)
      refine ⟨p, hp, ?_⟩
      rw [Placement.Fails, hplacement.entity]
      exact (program_entityRead _ p.owner p.line).2 hprogram
    · obtain ⟨p, hp, rfl⟩ := exists_mem_placedUpTo (hlength htaken) htaken
      obtain ⟨op, hplacement⟩ := mem_placedUpTo hp
      obtain rfl := Option.some.inj (hplacement.taken.symm.trans htaken)
      refine ⟨p, hp, ?_⟩
      rw [Placement.Fails, hplacement.entity]
      exact (hplacement.step (by decide)).trans hstep

/-! ### Jobs -/

theorem statementAt_eq_some {i : ℕ} {st : JclStatement} (h : statementAt lines i = some st) :
    ∃ line, lines[i]? = some line ∧ statementOf line (lines.drop (i + 1)) = some st := by
  rw [statementAt] at h
  cases hline : lines[i]? with
  | none => rw [hline] at h; exact absurd h (by simp)
  | some line =>
      rw [hline] at h
      refine ⟨line, rfl, ?_⟩
      cases hctx : contextAt lines i with
      | statement => rwa [hctx] at h
      | continued =>
          simp only [hctx] at h
          split_ifs at h
          exact h
      | data => rw [hctx] at h; exact absurd h (by simp)

theorem job_ownerUpTo_lt {n k : ℕ} (h : (ownerUpTo lines n).job = some k) : k < n := by
  induction n with
  | zero => exact absurd h (by simp [ownerUpTo])
  | succ n ih =>
      rw [ownerUpTo] at h
      cases hop : (statementAt lines n).map JclStatement.operation with
      | none => rw [hop] at h; exact Nat.lt_succ_of_lt (ih h)
      | some op =>
          rw [hop] at h
          cases op with
          | job =>
              obtain rfl := Option.some.inj h
              exact Nat.lt_succ_self _
          | exec => exact Nat.lt_succ_of_lt (ih h)
          | dd => exact Nat.lt_succ_of_lt (ih h)

theorem job_takenOwnerUpTo_eq_none (n : ℕ) :
    (takenOwnerUpTo lines n).job = none ↔ ∀ j < n, takenAt lines j ≠ some .job := by
  induction n with
  | zero => simp [takenOwnerUpTo]
  | succ n ih =>
      by_cases hop : takenAt lines n = some .job
      · rw [takenOwnerUpTo, hop]
        exact iff_of_false (by simp [Owner.nextTaken]) fun h => h n (Nat.lt_succ_self n) hop
      · rw [job_takenOwnerUpTo_succ hop, ih]
        refine ⟨fun h j hj => ?_, fun h j hj => h j (Nat.lt_succ_of_lt hj)⟩
        rcases Nat.lt_succ_iff_lt_or_eq.1 hj with hj | rfl
        · exact h j hj
        · exact hop

theorem entity_operation (st : JclStatement) (op : Operation) (text : Text)
    (h : st.entity = entityRead op text) : st.operation = op := by
  revert h
  unfold JclStatement.entity
  cases st.operation <;> cases op <;> simp [entityRead, stepEntity]

theorem ownerUpTo_job {i : ℕ} {st : JclStatement} (hst : statementAt lines i = some st)
    (hjob : st.operation = .job) : ownerUpTo lines (i + 1) = ⟨some i, none⟩ := by
  rw [ownerUpTo, hst, Option.map_some, hjob]
  rfl

theorem entityAt_eq_iff {i : ℕ} {st : JclStatement} (hdiagnosed : ¬ Diagnosed lines)
    (hst : statementAt lines i = some st) (htaken : takenAt lines i = some st.operation) :
    entityAt lines i st.operation = st.entity ↔ FieldsStand st := by
  obtain ⟨line, hline, hof⟩ := statementAt_eq_some hst
  have htakenFor : takenFor (modeAt lines i) line = some st.operation := by
    rw [takenAt, hline] at htaken
    exact htaken
  have hread : entityAt lines i st.operation =
      entityRead st.operation (textRead (modeAt lines i) line) := by
    rw [entityAt, hline]
    rfl
  rw [hread]
  refine entityRead_eq_iff hof htakenFor fun hexec => ?_
  rw [Bool.eq_false_iff]
  intro hfails
  refine hdiagnosed (.inr (.inl ⟨i, hexec ▸ htaken, ?_⟩))
  rw [hline]
  exact hfails

/-- A source whose statements all stand in its jobs is readable. -/
theorem readable_of_complete (hdiagnosed : ¬ Diagnosed lines)
    (h : Complete lines (parseLines lines)) : Readable lines := by
  intro i st hst
  have hmem := h.1 i st hst
  rw [placements_parseLines] at hmem
  obtain ⟨op, hplacement⟩ := mem_placedUpTo hmem
  obtain rfl := entity_operation st op _ hplacement.entity
  refine ⟨hplacement.taken,
    (entityAt_eq_iff hdiagnosed hst hplacement.taken).1 hplacement.entity.symm, fun hne => ?_⟩
  have hstep := hplacement.step hne
  by_cases hnone : (takenOwnerUpTo lines (i + 1)).job = none
  · -- a job behind the statement is not the job before it
    obtain ⟨hjob, hbehind⟩ := hplacement.noJob hne hnone
    have howner : (ownerUpTo lines (i + 1)).job = none := by
      rw [Option.eq_none_iff_forall_ne_some]
      intro k hk
      have hafter : i < k := hbehind k hk
      have hbefore := job_ownerUpTo_lt hk
      omega
    refine ⟨Owner.ext (hnone.trans howner.symm) hstep.symm, fun _ j hj => ?_⟩
    have hlt : j < lines.length := by
      obtain ⟨line, hline, -⟩ := Option.bind_eq_some_iff.1 hj
      exact (List.getElem?_eq_some_iff.1 hline).1
    exact (job_takenOwnerUpTo_eq_none lines.length).1 (hjob.1 howner) j hlt hj
  · have hjob := hplacement.job hne hnone
    refine ⟨Owner.ext hjob.symm hstep.symm, fun hempty => ?_⟩
    exact absurd (hjob.symm.trans hempty) hnone

/-- The statements of a readable source stand in its jobs. -/
theorem complete_of_readable (hdiagnosed : ¬ Diagnosed lines) (h : Readable lines) :
    Complete lines (parseLines lines) := by
  have hnoJob : ∀ {i st}, statementAt lines i = some st → st.operation ≠ .job →
      (takenOwnerUpTo lines (i + 1)).job = none → (takenOwnerUpTo lines lines.length).job = none := by
    intro i st hst hne hnone
    obtain ⟨-, -, howner⟩ := h i st hst
    obtain ⟨heq, hnever⟩ := howner hne
    exact (job_takenOwnerUpTo_eq_none _).2 fun j _ => hnever (heq ▸ hnone) j
  rw [Complete, placements_parseLines]
  constructor
  · intro i st hst
    obtain ⟨htaken, hfields, howner⟩ := h i st hst
    have hlt : i < lines.length := by
      obtain ⟨line, hline, -⟩ := statementAt_eq_some hst
      exact (List.getElem?_eq_some_iff.1 hline).1
    obtain ⟨p, hp, rfl⟩ := exists_mem_placedUpTo hlt htaken
    obtain ⟨op, hplacement⟩ := mem_placedUpTo hp
    obtain rfl := Option.some.inj (hplacement.taken.symm.trans htaken)
    have hentity : p.entity = st.entity :=
      hplacement.entity.trans ((entityAt_eq_iff hdiagnosed hst htaken).2 hfields)
    have hsame : p.owner = ownerUpTo lines (p.line + 1) := by
      by_cases hjob : st.operation = .job
      · rw [hplacement.ofJob hjob, ownerUpTo_job hst hjob]
      · rw [← (howner hjob).1]
        refine Owner.ext ?_ (hplacement.step hjob)
        by_cases hnone : (takenOwnerUpTo lines (p.line + 1)).job = none
        · rw [hnone, (hplacement.noJob hjob hnone).1]
          exact hnoJob hst hjob hnone
        · exact hplacement.job hjob hnone
    rw [← hentity, ← hsame]
    exact hp
  · refine List.Pairwise.imp_of_mem ?_ ((pairwise_placedUpTo lines lines.length).filter _)
    rintro p q - hq (hlt | ⟨hnone, hsome⟩)
    · exact hlt
    · -- no statement stands before the first job
      obtain ⟨st, hst⟩ := Option.isSome_iff_exists.1 (List.mem_filter.1 hq).2
      by_cases hjob : st.operation = .job
      · have htaken := (h _ st hst).1
        rw [takenOwnerUpTo, htaken, hjob] at hnone
        exact absurd hnone (by simp [Owner.nextTaken])
      · exact absurd (hnoJob hst hjob hnone) hsome

theorem complete_of_full {source : Text} (h : NoStatementLost source)
    (hfull : modernizeStatus source = .full) : Complete (splitlines source) (parseJobs source) := by
  refine h.resolve_right fun herror => ?_
  rw [modernizeStatus, herror] at hfull
  split_ifs at hfull with _ hno
  exact hno rfl

/-- A step with a `COND` parameter. -/
def conditionalStep : Text :=
  "//CONDJOB JOB CLASS=A\n//STEP01 EXEC PGM=PROGRAM-A\n//STEP02 EXEC PGM=PROGRAM-B,COND=(0,NE)\n".toList

end CobolJava.Jcl
