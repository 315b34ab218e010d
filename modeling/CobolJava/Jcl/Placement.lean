/-
**Where the statements of a JCL source stand in its jobs.**

A placement is a job, a step or a data definition with the line it was read from and with the job and
the step it is attached to.  The placements of the parsed jobs are computed line by line from what
each line is taken for.

Main definitions:

* `Placement`, `jobPlacements` — what stands where in parsed jobs;
* `takenFor`, `modeAt`, `takenAt` — what the parser takes the lines of a source for;
* `takenOwnerUpTo`, `placedUpTo` — the placements of the lines.

Main results:

* `placements_parseLines` — the placements of the parsed jobs;
* `mem_placedUpTo`, `exists_mem_placedUpTo` — a placement per line that is taken for a statement;
* `pairwise_placedUpTo` — the order of the placements.
-/

import CobolJava.Jcl.Statements
import CobolJava.Jcl.Builder

set_option autoImplicit false

namespace CobolJava.Jcl

open Py.Chars

variable {lines : List Text}

/-! ### Placements -/

/-- What a statement declares. -/
inductive Entity
  | job (name : Text) (cond : Option Text)
  | step (name program procedure : Text) (cond : Option Text)
  | dd (name dataset : Text)
  deriving DecidableEq, Repr

structure Placement where
  line : ℕ
  owner : Owner
  entity : Entity
  deriving DecidableEq, Repr

/-- The program and the procedure of a step; none for a step without `EXEC`. -/
def stepEntity (step : JclStep) : Entity :=
  .step step.name ((step.exec.map JclExec.program).getD [])
    ((step.exec.map JclExec.procedure).getD []) step.condition

def ddPlacement (owner : Owner) (dd : JclDD) : Placement :=
  ⟨dd.line, owner, .dd dd.name dd.dataset⟩

def stepPlacements (job : Option ℕ) (step : JclStep) : List Placement :=
  ⟨step.line, ⟨job, some step.line⟩, stepEntity step⟩ ::
    step.ddStatements.map (ddPlacement ⟨job, some step.line⟩)

def jobPlacements (job : JclJob) : List Placement :=
  (job.line.map fun i => ⟨i, ⟨some i, none⟩, .job job.name (job.parameters.get "COND")⟩).toList ++
    (job.jobDdStatements.map (ddPlacement ⟨job.line, none⟩) ++
      job.steps.flatMap (stepPlacements job.line))

/-! ### What lines are taken for -/

/-- What the parser takes a line for; `inStep` says that `_parse_exec` is collecting. -/
def takenFor (inStep : Bool) (line : Text) : Option Operation :=
  if inStep && isStepDD line then some .dd else mainKind line

/-- The text of a line that is read. -/
def textRead (inStep : Bool) (line : Text) : Text :=
  if inStep && isStepDD line then stepContent line else strip (line.drop 2)

/-- Whether `_parse_exec` is collecting behind a line. -/
def nextMode (inStep : Bool) (line : Text) : Bool :=
  (inStep && isStepDD line) ||
    (mainKind line = some .exec && (matchHeader "EXEC" (strip (line.drop 2))).isSome)

def modeAt (lines : List Text) (i : ℕ) : Bool :=
  (lines.take i).foldl nextMode false

def takenAt (lines : List Text) (i : ℕ) : Option Operation :=
  lines[i]?.bind (takenFor (modeAt lines i))

def entityRead (op : Operation) (text : Text) : Entity :=
  match op with
  | .job => .job (parseJob text).1 ((parseJob text).2.get "COND")
  | .exec => stepEntity (parseExec 0 text)
  | .dd => .dd (parseDD 0 text).name (parseDD 0 text).dataset

def entityAt (lines : List Text) (i : ℕ) (op : Operation) : Entity :=
  entityRead op (textRead (modeAt lines i) ((lines[i]?).getD []))

/-- The owner behind a line that is taken for a statement: the first `JOB` statement takes over the
steps before it. -/
def Owner.nextTaken (o : Owner) (i : ℕ) : Option Operation → Owner
  | some .job => ⟨some i, if o.job = none then o.step else none⟩
  | some .exec => ⟨o.job, some i⟩
  | _ => o

def takenOwnerUpTo (lines : List Text) : ℕ → Owner
  | 0 => ⟨none, none⟩
  | n + 1 => (takenOwnerUpTo lines n).nextTaken n (takenAt lines n)

/-- The placements of the first `n` lines. -/
def placedUpTo (lines : List Text) : ℕ → List Placement
  | 0 => []
  | n + 1 =>
      match takenAt lines n with
      | none => placedUpTo lines n
      | some .job =>
          let placed : Placement := ⟨n, ⟨some n, none⟩, entityAt lines n .job⟩
          if (takenOwnerUpTo lines n).job = none then
            placed :: (placedUpTo lines n).map fun p => { p with owner := ⟨some n, p.owner.step⟩ }
          else placedUpTo lines n ++ [placed]
      | some op => placedUpTo lines n ++ [⟨n, takenOwnerUpTo lines (n + 1), entityAt lines n op⟩]

attribute [grind =] takenOwnerUpTo placedUpTo

theorem placedUpTo_none {n : ℕ} (h : takenAt lines n = none) :
    placedUpTo lines (n + 1) = placedUpTo lines n := by
  rw [placedUpTo, h]

theorem placedUpTo_owned {n : ℕ} {op : Operation} (h : takenAt lines n = some op) (hop : op ≠ .job) :
    placedUpTo lines (n + 1) =
      placedUpTo lines n ++ [⟨n, takenOwnerUpTo lines (n + 1), entityAt lines n op⟩] := by
  rw [placedUpTo, h]
  cases op with
  | job => exact absurd rfl hop
  | exec => rfl
  | dd => rfl

theorem placedUpTo_job {n : ℕ} (h : takenAt lines n = some .job) :
    placedUpTo lines (n + 1) =
      if (takenOwnerUpTo lines n).job = none then
        ⟨n, ⟨some n, none⟩, entityAt lines n .job⟩ ::
          (placedUpTo lines n).map fun p => { p with owner := ⟨some n, p.owner.step⟩ }
      else placedUpTo lines n ++ [⟨n, ⟨some n, none⟩, entityAt lines n .job⟩] := by
  rw [placedUpTo, h]

theorem ddPlacement_parseDD (owner : Owner) (i : ℕ) (text : Text) :
    ddPlacement owner (parseDD i text) = ⟨i, owner, entityRead .dd text⟩ := by
  simp only [ddPlacement, entityRead, parseDD]
  cases matchHeader "DD" text <;> rfl

theorem stepPlacements_parseExec (job : Option ℕ) (i : ℕ) (text : Text) :
    stepPlacements job (parseExec i text) = [⟨i, ⟨job, some i⟩, entityRead .exec text⟩] := by
  simp only [stepPlacements, entityRead, parseExec]
  cases matchHeader "EXEC" text <;> rfl

theorem line_parseExec (i : ℕ) (text : Text) : (parseExec i text).line = i := by
  simp only [parseExec]
  cases matchHeader "EXEC" text <;> rfl

/-! ### The pass -/

namespace ParserState

def placements (s : ParserState) : List Placement :=
  s.jobs.flatMap jobPlacements ++ jobPlacements s.current

/-- The state agrees with what the first `n` lines were taken for. -/
structure Agrees (lines : List Text) (n : ℕ) (mode : Bool) (s : ParserState) : Prop where
  inStep : s.inStep = mode
  job : s.current.line = (takenOwnerUpTo lines n).job
  jobSeen : s.jobSeen = (takenOwnerUpTo lines n).job.isSome
  step : s.current.steps.getLast?.map JclStep.line = (takenOwnerUpTo lines n).step
  jobs : s.jobSeen = false → s.jobs = []
  placed : s.placements = placedUpTo lines n

theorem run_append (s : ParserState) (i : ℕ) (before : List Text) (line : Text) :
    s.run i (before ++ [line]) = (s.run i before).feed (i + before.length) line := by
  induction before generalizing s i with
  | nil => rfl
  | cons first rest ih =>
      rw [List.cons_append, run, run, ih, List.length_cons]
      congr 1
      omega

theorem placements_addStep (s : ParserState) (step : JclStep) (inStep : Bool) :
    placements { s with
        current := { s.current with steps := s.current.steps ++ [step] }
        inStep := inStep } =
      s.placements ++ stepPlacements s.current.line step := by
  simp [placements, jobPlacements, List.append_assoc]

/-- A data definition stands behind everything else. -/
theorem placements_addDD (s : ParserState) (dd : JclDD) :
    (s.addDD dd).placements = s.placements ++
      [ddPlacement ⟨s.current.line, s.current.steps.getLast?.map JclStep.line⟩ dd] := by
  unfold addDD
  cases hlast : s.current.steps.getLast? with
  | none =>
      have hsteps : s.current.steps = [] := List.getLast?_eq_none_iff.1 hlast
      simp [placements, jobPlacements, hsteps]
  | some step =>
      have hsteps : s.current.steps.dropLast ++ [step] = s.current.steps :=
        List.dropLast_append_getLast? step hlast
      have hflat : s.current.steps.flatMap (stepPlacements s.current.line) =
          s.current.steps.dropLast.flatMap (stepPlacements s.current.line) ++
            stepPlacements s.current.line step := by
        conv_lhs => rw [← hsteps]
        simp
      simp only [placements, jobPlacements, hflat, List.flatMap_append, List.flatMap_cons,
        List.flatMap_nil, List.append_nil, stepPlacements, List.map_append, List.map_cons,
        List.map_nil, Option.map_some, List.append_assoc, List.cons_append]
      rfl

theorem addDD_frame (s : ParserState) (dd : JclDD) :
    (s.addDD dd).jobs = s.jobs ∧ (s.addDD dd).jobSeen = s.jobSeen ∧
      (s.addDD dd).inStep = s.inStep ∧ (s.addDD dd).current.line = s.current.line ∧
      (s.addDD dd).current.steps.getLast?.map JclStep.line =
        s.current.steps.getLast?.map JclStep.line := by
  unfold addDD
  cases hlast : s.current.steps.getLast? with
  | none => simp [hlast]
  | some step => simp

theorem modeAt_succ {n : ℕ} {line : Text} (hline : lines[n]? = some line) :
    modeAt lines (n + 1) = nextMode (modeAt lines n) line := by
  rw [modeAt, modeAt, List.take_add_one, hline, List.foldl_append]
  rfl

theorem Agrees.addDD {n : ℕ} {mode : Bool} {s : ParserState} {text : Text}
    (h : Agrees lines n mode s) (hop : takenAt lines n = some .dd)
    (hentity : entityAt lines n .dd = entityRead .dd text) :
    Agrees lines (n + 1) mode (s.addDD (parseDD n text)) := by
  obtain ⟨hjobs, hseen, hin, hcurrent, hlast⟩ := addDD_frame s (parseDD n text)
  have howner : takenOwnerUpTo lines (n + 1) = takenOwnerUpTo lines n := by
    rw [takenOwnerUpTo, hop]
    rfl
  constructor
  · rw [hin, h.inStep]
  · rw [hcurrent, h.job, howner]
  · rw [hseen, h.jobSeen, howner]
  · rw [hlast, h.step, howner]
  · rw [hjobs, hseen]
    exact h.jobs
  · rw [placements_addDD, h.placed, h.job, h.step, ddPlacement_parseDD,
      placedUpTo_owned hop (by decide), howner, hentity]

theorem Agrees.addStep {n : ℕ} {mode : Bool} {s : ParserState} {text : Text} (inStep : Bool)
    (h : Agrees lines n mode s) (hop : takenAt lines n = some .exec)
    (hentity : entityAt lines n .exec = entityRead .exec text) :
    Agrees lines (n + 1) inStep { s with
      current := { s.current with steps := s.current.steps ++ [parseExec n text] }
      inStep := inStep } := by
  have howner : takenOwnerUpTo lines (n + 1) = ⟨(takenOwnerUpTo lines n).job, some n⟩ := by
    rw [takenOwnerUpTo, hop]
    rfl
  constructor
  · rfl
  · rw [howner]
    exact h.job
  · rw [howner]
    exact h.jobSeen
  · rw [howner]
    simp [line_parseExec]
  · exact h.jobs
  · rw [placements_addStep, placedUpTo_owned hop (by decide), howner, hentity,
      stepPlacements_parseExec, h.placed, h.job]

theorem jobPlacements_named (job : JclJob) (hline : job.line = none) (i : ℕ) (name : Text)
    (parameters : Parameters) :
    jobPlacements { job with line := some i, name := name, parameters := parameters } =
      ⟨i, ⟨some i, none⟩, .job name (parameters.get "COND")⟩ ::
        (jobPlacements job).map fun p => { p with owner := ⟨some i, p.owner.step⟩ } := by
  simp only [jobPlacements, hline, List.map_flatMap, List.map_append, List.map_map, Option.map_some,
    Option.map_none, Option.toList_some, Option.toList_none, List.nil_append, List.cons_append]
  congr 2
  refine List.flatMap_congr fun step _ => ?_
  simp only [stepPlacements, List.map_cons, List.map_map]
  rfl

/-- A line that is taken for a `JOB` statement. -/
theorem Agrees.startJob {n : ℕ} {mode : Bool} {s : ParserState} {text : Text}
    (h : Agrees lines n mode s) (hop : takenAt lines n = some .job)
    (hentity : entityAt lines n .job = entityRead .job text) :
    Agrees lines (n + 1) mode (s.startJob n text) := by
  have howner : takenOwnerUpTo lines (n + 1) =
      ⟨some n, if (takenOwnerUpTo lines n).job = none then (takenOwnerUpTo lines n).step
        else none⟩ := by
    rw [takenOwnerUpTo, hop]
    rfl
  have hplaced := h.placed
  cases hseen : s.jobSeen with
  | true =>
      -- the job before is closed
      have hjob : (takenOwnerUpTo lines n).job ≠ none := by
        rw [← Option.isSome_iff_ne_none, ← h.jobSeen, hseen]
      rw [if_neg hjob] at howner
      have hstart : s.startJob n text = { s.flush with
          jobSeen := true
          current := { emptyJob with
            line := some n, name := (parseJob text).1, parameters := (parseJob text).2 } } := by
        simp only [ParserState.startJob, hseen, if_true]
        rfl
      rw [hstart]
      refine ⟨h.inStep, by rw [howner], by rw [howner]; rfl, by rw [howner]; rfl,
        fun hfalse => absurd hfalse (by simp), ?_⟩
      rw [placedUpTo_job hop, if_neg hjob, hentity, ← hplaced]
      simp [placements, flush, jobPlacements, emptyJob, entityRead]
  | false =>
      -- the steps before are taken over
      have hjob : (takenOwnerUpTo lines n).job = none := by
        rw [← Option.isNone_iff_eq_none, ← Option.not_isSome, ← h.jobSeen, hseen]
        rfl
      rw [if_pos hjob] at howner
      have hline : s.current.line = none := h.job.trans hjob
      have hstart : s.startJob n text = { s with
          jobSeen := true
          current := { s.current with
            line := some n, name := (parseJob text).1, parameters := (parseJob text).2 } } := by
        simp only [ParserState.startJob, hseen, Bool.false_eq_true, if_false]
      rw [hstart]
      refine ⟨h.inStep, by rw [howner], by rw [howner]; rfl, by rw [howner]; exact h.step,
        fun hfalse => absurd hfalse (by simp), ?_⟩
      rw [placements, h.jobs hseen, List.flatMap_nil, List.nil_append] at hplaced
      rw [placedUpTo_job hop, if_pos hjob, hentity, ← hplaced, placements]
      dsimp only
      rw [h.jobs hseen, List.flatMap_nil, List.nil_append, jobPlacements_named _ hline]
      rfl

/-- One line keeps the state in agreement. -/
theorem Agrees.feed {n : ℕ} {s : ParserState} {line : Text} (h : Agrees lines n (modeAt lines n) s)
    (hline : lines[n]? = some line) :
    Agrees lines (n + 1) (modeAt lines (n + 1)) (s.feed n line) := by
  have hmode := modeAt_succ hline
  have htaken : takenAt lines n = takenFor s.inStep line := by
    rw [takenAt, hline, h.inStep]
    rfl
  have hentity : ∀ op, entityAt lines n op = entityRead op (textRead s.inStep line) := by
    intro op
    rw [entityAt, hline, h.inStep]
    rfl
  rw [← h.inStep] at hmode
  unfold ParserState.feed
  by_cases hstep : (s.inStep && isStepDD line) = true
  · -- `_parse_exec` takes the line
    have htext : textRead s.inStep line = stepContent line := by rw [textRead, if_pos hstep]
    have hin : modeAt lines (n + 1) = modeAt lines n := by
      rw [hmode, nextMode, hstep, Bool.true_or, ← h.inStep, (Bool.and_eq_true_iff.1 hstep).1]
    rw [if_pos hstep, hin]
    exact h.addDD (by rw [htaken, takenFor, if_pos hstep]) (by rw [hentity, htext])
  · have htext : textRead s.inStep line = strip (line.drop 2) := by rw [textRead, if_neg hstep]
    rw [Bool.not_eq_true] at hstep
    have hkind : takenAt lines n = mainKind line := by
      rw [htaken, takenFor, hstep]
      rfl
    rw [nextMode, hstep, Bool.false_or] at hmode
    rw [htext] at hentity
    simp only [hstep, Bool.false_eq_true, if_false, feedMain]
    -- the loop of `_parse_exec` is left
    have hleft : Agrees lines n false { s with inStep := false } := ⟨rfl, h.2, h.3, h.4, h.5, h.6⟩
    cases hmain : mainKind line with
    | none =>
        rw [hmain] at hkind hmode
        have howner : takenOwnerUpTo lines (n + 1) = takenOwnerUpTo lines n := by
          rw [takenOwnerUpTo, hkind]
          rfl
        have hkept : Agrees lines (n + 1) false { s with inStep := false } :=
          ⟨rfl, howner ▸ hleft.2, howner ▸ hleft.3, howner ▸ hleft.4, hleft.5,
            (placedUpTo_none hkind) ▸ hleft.6⟩
        rw [show modeAt lines (n + 1) = false by rw [hmode]; rfl]
        dsimp only
        split
        · exact ⟨rfl, hkept.2, hkept.3, hkept.4, hkept.5, hkept.6⟩
        · exact hkept
    | some op =>
        rw [hmain] at hkind hmode
        cases op with
        | dd =>
            rw [show modeAt lines (n + 1) = false by rw [hmode]; rfl]
            exact hleft.addDD hkind (hentity .dd)
        | exec =>
            rw [show modeAt lines (n + 1) = (matchHeader "EXEC" (strip (line.drop 2))).isSome by
              rw [hmode]; simp]
            exact hleft.addStep _ hkind (hentity .exec)
        | job =>
            rw [show modeAt lines (n + 1) = false by rw [hmode]; rfl]
            exact hleft.startJob hkind (hentity .job)

theorem agrees_run (n : ℕ) (hn : n ≤ lines.length) :
    Agrees lines n (modeAt lines n) (initial.run 0 (lines.take n)) := by
  induction n with
  | zero => exact ⟨rfl, rfl, rfl, rfl, fun _ => rfl, rfl⟩
  | succ n ih =>
      obtain ⟨line, hline⟩ : ∃ line, lines[n]? = some line :=
        ⟨_, List.getElem?_eq_getElem (Nat.lt_of_succ_le hn)⟩
      have hlength : (lines.take n).length = n :=
        List.length_take_of_le (Nat.le_of_succ_le hn)
      rw [List.take_add_one, hline, Option.toList_some, run_append, hlength, Nat.zero_add]
      exact (ih (Nat.le_of_succ_le hn)).feed hline

end ParserState

theorem placements_parseLines (lines : List Text) :
    (parseLines lines).flatMap jobPlacements = placedUpTo lines lines.length := by
  have hagrees := ParserState.agrees_run lines.length (le_refl lines.length)
  rw [List.take_length] at hagrees
  rw [parseLines, ParserState.finish, ← hagrees.placed]
  split
  · simp [ParserState.flush, ParserState.placements]
  · -- nothing was accumulated
    rename_i hempty
    simp only [Bool.or_eq_true, decide_eq_true_eq, not_or, not_not, Bool.not_eq_true] at hempty
    obtain ⟨⟨⟨⟨⟨hseen, hsteps⟩, -⟩, -⟩, -⟩, hdds⟩ := hempty
    have hline : (ParserState.initial.run 0 lines).current.line = none := by
      rw [hagrees.job, ← Option.isNone_iff_eq_none, ← Option.not_isSome, ← hagrees.jobSeen, hseen]
      rfl
    simp [ParserState.placements, jobPlacements, hline, hsteps, hdds]

/-! ### One placement per line -/

theorem job_takenOwnerUpTo_mono {n m : ℕ} (hle : n ≤ m)
    (h : (takenOwnerUpTo lines m).job = none) : (takenOwnerUpTo lines n).job = none := by
  induction m, hle using Nat.le_induction with
  | base => exact h
  | succ m _ ih =>
      refine ih ?_
      rw [takenOwnerUpTo] at h
      cases hop : takenAt lines m with
      | none => rwa [hop] at h
      | some op =>
          rw [hop] at h
          cases op with
          | job => exact absurd h (by simp [Owner.nextTaken])
          | exec => exact h
          | dd => exact h

/-- The placement is the one of a line among the first `n`: a job owns itself, the rest belongs to the
job and the step in effect; before the first `JOB` statement it belongs to the first job behind. -/
structure IsPlacement (lines : List Text) (n : ℕ) (op : Operation) (p : Placement) : Prop where
  lt : p.line < n
  taken : takenAt lines p.line = some op
  entity : p.entity = entityAt lines p.line op
  ofJob : op = .job → p.owner = ⟨some p.line, none⟩
  step : op ≠ .job → p.owner.step = (takenOwnerUpTo lines (p.line + 1)).step
  job : op ≠ .job → (takenOwnerUpTo lines (p.line + 1)).job ≠ none →
    p.owner.job = (takenOwnerUpTo lines (p.line + 1)).job
  noJob : op ≠ .job → (takenOwnerUpTo lines (p.line + 1)).job = none →
    (p.owner.job = none ↔ (takenOwnerUpTo lines n).job = none) ∧
      ∀ k, p.owner.job = some k → p.line < k

theorem IsPlacement.mono {n : ℕ} {op : Operation} {p : Placement} (h : IsPlacement lines n op p)
    (hjob : (takenOwnerUpTo lines (n + 1)).job = none ↔ (takenOwnerUpTo lines n).job = none) :
    IsPlacement lines (n + 1) op p :=
  ⟨Nat.lt_succ_of_lt h.lt, h.taken, h.entity, h.ofJob, h.step, h.job, fun hop hnone =>
    ⟨(h.noJob hop hnone).1.trans hjob.symm, (h.noJob hop hnone).2⟩⟩

theorem isPlacement_owned {n : ℕ} {op : Operation} (hop : takenAt lines n = some op)
    (hne : op ≠ .job) :
    IsPlacement lines (n + 1) op ⟨n, takenOwnerUpTo lines (n + 1), entityAt lines n op⟩ :=
  ⟨Nat.lt_succ_self n, hop, rfl, fun h => absurd h hne, fun _ => rfl, fun _ _ => rfl,
    fun _ hnone => ⟨Iff.rfl, fun k hk => absurd (hnone.symm.trans hk) (by simp)⟩⟩

theorem isPlacement_job {n : ℕ} (hop : takenAt lines n = some .job) :
    IsPlacement lines (n + 1) .job ⟨n, ⟨some n, none⟩, entityAt lines n .job⟩ :=
  ⟨Nat.lt_succ_self n, hop, rfl, fun _ => rfl, fun h => absurd rfl h, fun h => absurd rfl h,
    fun h => absurd rfl h⟩

theorem IsPlacement.takeOver {n : ℕ} {op : Operation} {p : Placement} (h : IsPlacement lines n op p)
    (hjob : takenAt lines n = some .job) (hfirst : (takenOwnerUpTo lines n).job = none) :
    IsPlacement lines (n + 1) op { p with owner := ⟨some n, p.owner.step⟩ } := by
  have hnone := job_takenOwnerUpTo_mono (Nat.succ_le_of_lt h.lt) hfirst
  have hne : op ≠ .job := by
    rintro rfl
    rw [takenOwnerUpTo, h.taken] at hnone
    exact absurd hnone (by simp [Owner.nextTaken])
  have hsucc : (takenOwnerUpTo lines (n + 1)).job = some n := by
    rw [takenOwnerUpTo, hjob]
    rfl
  refine ⟨Nat.lt_succ_of_lt h.lt, h.taken, h.entity, fun heq => absurd heq hne, h.step,
    fun _ hsome => absurd hnone hsome, fun _ _ => ⟨by simp [hsucc], ?_⟩⟩
  rintro k hk
  obtain rfl := Option.some.inj hk
  exact h.lt

theorem job_takenOwnerUpTo_succ {n : ℕ} (h : takenAt lines n ≠ some .job) :
    (takenOwnerUpTo lines (n + 1)).job = (takenOwnerUpTo lines n).job := by
  rw [takenOwnerUpTo]
  cases hop : takenAt lines n with
  | none => rfl
  | some op =>
      cases op with
      | job => exact absurd hop h
      | exec => rfl
      | dd => rfl

/-- Every placement is the one of a line. -/
theorem mem_placedUpTo {n : ℕ} {p : Placement} (h : p ∈ placedUpTo lines n) :
    ∃ op, IsPlacement lines n op p := by
  induction n generalizing p with
  | zero => exact absurd h (by simp [placedUpTo])
  | succ n ih =>
      cases hop : takenAt lines n with
      | none =>
          rw [placedUpTo_none hop] at h
          obtain ⟨op, hp⟩ := ih h
          exact ⟨op, hp.mono (by rw [job_takenOwnerUpTo_succ (by simp [hop])])⟩
      | some op =>
          by_cases hjob : op = .job
          · subst hjob
            rw [placedUpTo_job hop] at h
            by_cases hfirst : (takenOwnerUpTo lines n).job = none
            · rw [if_pos hfirst] at h
              rcases List.mem_cons.1 h with rfl | h
              · exact ⟨_, isPlacement_job hop⟩
              · obtain ⟨q, hq, rfl⟩ := List.mem_map.1 h
                obtain ⟨op, hop'⟩ := ih hq
                exact ⟨op, hop'.takeOver hop hfirst⟩
            · rw [if_neg hfirst] at h
              rcases List.mem_append.1 h with h | h
              · obtain ⟨op, hp⟩ := ih h
                refine ⟨op, hp.mono (iff_of_false ?_ hfirst)⟩
                exact fun hnone => hfirst (job_takenOwnerUpTo_mono (Nat.le_succ n) hnone)
              · obtain rfl := List.mem_singleton.1 h
                exact ⟨_, isPlacement_job hop⟩
          · rw [placedUpTo_owned hop hjob] at h
            rcases List.mem_append.1 h with h | h
            · obtain ⟨op', hp⟩ := ih h
              exact ⟨op', hp.mono (by rw [job_takenOwnerUpTo_succ (by simp [hop, hjob])])⟩
            · obtain rfl := List.mem_singleton.1 h
              exact ⟨_, isPlacement_owned hop hjob⟩

/-- Every line that is taken for a statement has a placement. -/
theorem exists_mem_placedUpTo {n i : ℕ} {op : Operation} (hi : i < n)
    (hop : takenAt lines i = some op) :
    ∃ p ∈ placedUpTo lines n, p.line = i := by
  induction n, hi using Nat.le_induction with
  | base =>
      by_cases hjob : op = .job
      · subst hjob
        rw [placedUpTo_job hop]
        split
        · exact ⟨_, List.mem_cons_self, rfl⟩
        · exact ⟨_, List.mem_append_right _ (List.mem_singleton.2 rfl), rfl⟩
      · rw [placedUpTo_owned hop hjob]
        exact ⟨_, List.mem_append_right _ (List.mem_singleton.2 rfl), rfl⟩
  | succ n _ ih =>
      obtain ⟨p, hp, hline⟩ := ih
      cases hlast : takenAt lines n with
      | none =>
          rw [placedUpTo_none hlast]
          exact ⟨p, hp, hline⟩
      | some last =>
          by_cases hjob : last = .job
          · subst hjob
            rw [placedUpTo_job hlast]
            split
            · exact ⟨_, List.mem_cons_of_mem _ (List.mem_map_of_mem hp), hline⟩
            · exact ⟨p, List.mem_append_left _ hp, hline⟩
          · rw [placedUpTo_owned hlast hjob]
            exact ⟨p, List.mem_append_left _ hp, hline⟩

/-- The placements follow the lines, but for the first job that takes over what stands before it. -/
theorem pairwise_placedUpTo (lines : List Text) (n : ℕ) :
    (placedUpTo lines n).Pairwise fun p q =>
      p.line < q.line ∨
        ((takenOwnerUpTo lines (q.line + 1)).job = none ∧ (takenOwnerUpTo lines n).job ≠ none) := by
  induction n with
  | zero => exact List.Pairwise.nil
  | succ n ih =>
      have hmono : ∀ {p q : Placement}, (p.line < q.line ∨
          ((takenOwnerUpTo lines (q.line + 1)).job = none ∧ (takenOwnerUpTo lines n).job ≠ none)) →
          p.line < q.line ∨ ((takenOwnerUpTo lines (q.line + 1)).job = none ∧
            (takenOwnerUpTo lines (n + 1)).job ≠ none) := by
        rintro p q (hlt | ⟨hq, hn⟩)
        · exact .inl hlt
        · exact .inr ⟨hq, fun hnone => hn (job_takenOwnerUpTo_mono (Nat.le_succ n) hnone)⟩
      have hlast : ∀ {placed : Placement}, placed.line = n →
          (placedUpTo lines n ++ [placed]).Pairwise fun p q => p.line < q.line ∨
            ((takenOwnerUpTo lines (q.line + 1)).job = none ∧
              (takenOwnerUpTo lines (n + 1)).job ≠ none) := by
        intro placed hline
        refine List.pairwise_append.2 ⟨ih.imp hmono, List.pairwise_singleton _ _, ?_⟩
        rintro p hp q hq
        obtain rfl := List.mem_singleton.1 hq
        obtain ⟨op, hplacement⟩ := mem_placedUpTo hp
        exact .inl (hline ▸ hplacement.lt)
      cases hop : takenAt lines n with
      | none =>
          rw [placedUpTo_none hop]
          exact ih.imp hmono
      | some op =>
          by_cases hjob : op = .job
          · subst hjob
            rw [placedUpTo_job hop]
            split
            · rename_i hfirst
              have hsucc : (takenOwnerUpTo lines (n + 1)).job = some n := by
                rw [takenOwnerUpTo, hop]
                rfl
              refine List.pairwise_cons.2 ⟨?_, List.pairwise_map.2 (ih.imp hmono)⟩
              rintro q hq
              obtain ⟨p, hp, rfl⟩ := List.mem_map.1 hq
              obtain ⟨op, hplacement⟩ := mem_placedUpTo hp
              exact .inr ⟨job_takenOwnerUpTo_mono (Nat.succ_le_of_lt hplacement.lt) hfirst,
                by simp [hsucc]⟩
            · exact hlast rfl
          · rw [placedUpTo_owned hop hjob]
            exact hlast rfl

end CobolJava.Jcl
