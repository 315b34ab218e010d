/-
**Diagnostics of the JCL lane.**

The diagnostics `JclSemanticBuilder` of `engine/jcl/builder.py` records for a source and its jobs,
without their texts, and the status `modernize_jcl` derives from them.

Main definitions:

* `JclDiagnostic` — a diagnostic;
* `scanLine`, `scanUnsupported` — the scan of the raw lines;
* `buildExec`, `buildResource`, `buildControl`, `buildJob` — the diagnostics of the parsed jobs;
* `build`, `modernizeStatus` — the diagnostics of a source, and the status.

Main results:

* `any_isError_buildLines` — an error comes from a line of the source, from a step or from a job-level
  data definition.
-/

import CobolJava.Jcl.Parser

set_option autoImplicit false

namespace CobolJava.Jcl

open Py (isSpace)
open Py.Chars

/-! ### Diagnostics -/

inductive JclDiagnosticLevel
  | info
  | warning
  | error
  deriving DecidableEq, Repr

inductive JclDiagnosticCode
  | partialCondSemantics
  | unresolvedSymbol
  | symbolSetPreserved
  | dummyResource
  | jobLevelDd
  | stepNoExec
  | unsupportedProcedure
  | unsupportedControlBlock
  | unsupportedStatement
  | unsupportedContinuation
  deriving DecidableEq, Repr

structure JclDiagnostic where
  level : JclDiagnosticLevel
  code : JclDiagnosticCode
  job : Text
  step : Text
  /-- The number of the line, for a diagnostic of the scan. -/
  location : Option ℕ
  deriving DecidableEq, Repr

def JclDiagnostic.isError (d : JclDiagnostic) : Bool :=
  d.level = .error

/-! ### The scan -/

/-- `\w`, within ASCII -/
def isWordChar (c : Char) : Bool :=
  c.isAlphanum || c = '_'

/-- `\s*\(.*\)\s*THEN\b` at the start of a text. -/
def thenFollows (text : Text) : Bool :=
  startswith (lstrip text) ['('] &&
    ((lstrip text).drop 1).tails.any fun t =>
      let rest := lstrip (t.drop 1)
      startswith t [')'] && startswith rest "THEN".toList && !(rest.drop 4).head?.any isWordChar

/-- `re.search(r"\bIF\b\s*\(.*\)\s*THEN\b", text)`, behind the character `before`. -/
def isControlBlock (before : Option Char) : Text → Bool
  | [] => false
  | c :: rest =>
      (!before.any isWordChar && startswith (c :: rest) "IF".toList &&
        thenFollows (rest.drop 1)) || isControlBlock (some c) rest

def unsupportedStatements : List String :=
  ["JCLLIB", "INCLUDE", "OUTPUT", "XMIT", "TWRS", "CMPSC", "PROCESS", "NETVIEW"]

/-- What the scan records for a line that is a statement. -/
def scanStatement (stripped : Text) : Option (JclDiagnosticLevel × JclDiagnosticCode) :=
  let parts := split (upper stripped)
  let first := parts.head?.getD []
  if startswith stripped [','] then some (.error, .unsupportedContinuation)
  else if first = "ELSE".toList ∨ first = "ENDIF".toList ∨ isControlBlock none (upper stripped) then
    some (.error, .unsupportedControlBlock)
  else if first = "SET".toList ∨ ["JOB", "EXEC", "DD"].any fun k => parts.contains k.toList then
    if first = "SET".toList then some (.info, .symbolSetPreserved) else none
  else if first = "PROC".toList ∨ parts[1]? = some "PROC".toList then
    some (.error, .unsupportedProcedure)
  else if strip (upper stripped) = "PEND".toList then some (.error, .unsupportedProcedure)
  else if unsupportedStatements.any fun k => first = k.toList then
    some (.error, .unsupportedStatement)
  else some (.error, .unsupportedStatement)

/-- What the scan records for a line. -/
def scanLine (raw : Text) : Option (JclDiagnosticLevel × JclDiagnosticCode) :=
  let content := raw.drop 2
  if !startswith raw "//".toList || strip content = [] || startswith (lstrip content) ['*'] then none
  else scanStatement (strip content)

/-- `re.match(r"(\S+)\s+JOB\b", stripped)` in any case -/
def scanJobName (raw : Text) : Option Text :=
  let stripped := strip (raw.drop 2)
  let rest := lstrip (afterWord stripped)
  if startswith raw "//".toList && !startswith (lstrip (raw.drop 2)) ['*'] &&
      word stripped ≠ [] && afterWord stripped ≠ [] && startsWithKey "JOB" rest &&
      !(rest.drop 3).head?.any isWordChar then
    some (word stripped)
  else none

/-- The scan from a line on; a `JOB` statement switches the attribution. -/
def scanFrom (jobInEffect : Text) (i : ℕ) : List Text → List JclDiagnostic
  | [] => []
  | raw :: rest =>
      let job := (scanJobName raw).getD jobInEffect
      ((scanLine raw).map fun (level, code) => ⟨level, code, job, [], some (i + 1)⟩).toList ++
        scanFrom job (i + 1) rest

def scanUnsupported (lines : List Text) : List JclDiagnostic :=
  scanFrom [] 0 lines

/-! ### The parsed jobs -/

def buildExec (step : JclStep) (jobName : Text) : List JclDiagnostic :=
  match step.exec with
  | none => [⟨.error, .stepNoExec, jobName, step.name, none⟩]
  | some exec =>
      if exec.program ≠ [] then
        if exec.program.contains '&' then
          [⟨.warning, .unresolvedSymbol, jobName, step.name, none⟩]
        else []
      else if exec.procedure ≠ [] then
        [⟨.error, .unsupportedProcedure, jobName, step.name, none⟩]
      else [⟨.error, .stepNoExec, jobName, step.name, none⟩]

def buildResource (dd : JclDD) (step : JclStep) (jobName : Text) : List JclDiagnostic :=
  if dd.sysout ≠ [] ∨ dd.isInline ∨ dd.isTemporary ∨ dd.dataset ≠ [] then []
  else [⟨.warning, .dummyResource, jobName, step.name, none⟩]

def buildControl (step : JclStep) (jobName : Text) : List JclDiagnostic :=
  match step.condition with
  | none => []
  | some code =>
      let raw := upper (strip code)
      if raw = "EVEN".toList ∨ raw = "ONLY".toList then []
      else [⟨.warning, .partialCondSemantics, jobName, step.name, none⟩]

def buildStep (jobName : Text) (step : JclStep) : List JclDiagnostic :=
  buildExec step jobName ++ step.ddStatements.flatMap (buildResource · step jobName) ++
    buildControl step jobName

def buildJob (job : JclJob) : List JclDiagnostic :=
  job.steps.flatMap (buildStep job.name) ++
    job.jobDdStatements.map fun _ => ⟨.error, .jobLevelDd, job.name, [], none⟩

/-- The diagnostics of the lines of a source. -/
def buildLines (lines : List Text) : List JclDiagnostic :=
  scanUnsupported lines ++ (parseLines lines).flatMap buildJob

/-- The diagnostics of `JclSemanticBuilder.build` on a source that was parsed. -/
def build (source : Text) : List JclDiagnostic :=
  buildLines (splitlines source)

inductive JclProfileStatus
  | empty
  | partly
  | full
  deriving DecidableEq, Repr

/-- The status of `modernize_jcl`. -/
def modernizeStatus (source : Text) : JclProfileStatus :=
  if parseJobs source = [] then .empty
  else if (build source).any JclDiagnostic.isError then .partly
  else .full

/-! ### Errors -/

/-- The scan records an error for a line. -/
def scanFails (raw : Text) : Bool :=
  (scanLine raw).any fun found => found.1 = .error

def JclStep.runsProgram (step : JclStep) : Bool :=
  step.exec.any fun exec => exec.program ≠ []

theorem any_isError_scanFrom (jobInEffect : Text) (i : ℕ) (lines : List Text) :
    (scanFrom jobInEffect i lines).any JclDiagnostic.isError = lines.any scanFails := by
  induction lines generalizing jobInEffect i with
  | nil => rfl
  | cons raw rest ih =>
      simp only [scanFrom, List.any_append, List.any_cons, ih, scanFails]
      cases scanLine raw with
      | none => rfl
      | some found => simp [JclDiagnostic.isError]

theorem any_isError_buildExec (step : JclStep) (jobName : Text) :
    (buildExec step jobName).any JclDiagnostic.isError = !step.runsProgram := by
  unfold buildExec JclStep.runsProgram
  cases step.exec with
  | none => rfl
  | some exec =>
      by_cases hprogram : exec.program = []
      · by_cases hprocedure : exec.procedure = []
        · simp [hprogram, hprocedure, JclDiagnostic.isError]
        · simp [hprogram, hprocedure, JclDiagnostic.isError]
      · by_cases hsymbol : '&' ∈ exec.program
        · simp [hprogram, hsymbol, JclDiagnostic.isError]
        · simp [hprogram, hsymbol]

theorem any_isError_buildStep (jobName : Text) (step : JclStep) :
    (buildStep jobName step).any JclDiagnostic.isError = !step.runsProgram := by
  have hresources : (step.ddStatements.flatMap (buildResource · step jobName)).any
      JclDiagnostic.isError = false := by
    rw [List.any_flatMap, List.any_eq_false]
    intro dd _
    unfold buildResource
    split <;> simp [JclDiagnostic.isError]
  have hcontrol : (buildControl step jobName).any JclDiagnostic.isError = false := by
    unfold buildControl
    cases step.condition with
    | none => rfl
    | some code =>
        dsimp only
        split <;> rfl
  rw [buildStep, List.any_append, List.any_append, any_isError_buildExec, hresources, hcontrol,
    Bool.or_false, Bool.or_false]

/-- An error comes from a line of the source, from a step that runs no program or from a job-level data
definition. -/
theorem any_isError_buildLines (lines : List Text) :
    (buildLines lines).any JclDiagnostic.isError = true ↔
      (∃ line ∈ lines, scanFails line = true) ∨
        ∃ job ∈ parseLines lines, (∃ step ∈ job.steps, step.runsProgram = false) ∨
          job.jobDdStatements ≠ [] := by
  rw [buildLines, List.any_append, Bool.or_eq_true, scanUnsupported, any_isError_scanFrom,
    List.any_eq_true, List.any_flatMap, List.any_eq_true]
  refine or_congr Iff.rfl (exists_congr fun job => and_congr_right fun _ => ?_)
  rw [buildJob, List.any_append, Bool.or_eq_true, List.any_flatMap, List.any_eq_true]
  refine or_congr (exists_congr fun step => and_congr_right fun _ => ?_) ?_
  · rw [any_isError_buildStep, Bool.not_eq_true']
  · cases job.jobDdStatements with
    | nil => simp
    | cons dd rest => simp [JclDiagnostic.isError]

end CobolJava.Jcl
