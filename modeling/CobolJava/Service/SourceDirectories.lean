/-
**Source directories of runs.**

The requests of `api/service.py` that replace the COBOL source of an application
(`ingest_application`, `upload_cobol_source`) and those that admit a run (`modernize`,
`revalidate`), cut at every access to the store, to the job slots and to the disk, and the workers
that take the runs to a terminal stage.  Directories are numbered; a new one gets a number that was
never used.

Main definitions:

* `Request`, `Run`, `State` — the requests in flight, the runs and what they share;
* `Action`, `Step` — the steps, in any order;
* `SourceSurvives` — the law of the source directories;
* `Undisturbed` — the steps of requests that do not overlap on one directory.

Main results:

* `intact_step` — **one step** keeps the directories that are still needed;
* `sourceSurvives_of_undisturbed` — **the source of a run survives the run**, in every interleaving
  of such steps.
-/

import CobolJava.Lib.Interleaving
import CobolJava.Store.Stages

set_option autoImplicit false

namespace CobolJava.Service

/-! ### States -/

abbrev Directory : Type := ℕ

/-- The two requests that replace the source of an application. -/
inductive Replacement
  | ingest
  | upload
  deriving DecidableEq

/-- The two requests that admit a run. -/
inductive Admission
  | modernize
  | revalidate (run : ℕ)
  deriving DecidableEq

/-- How far a request has got. -/
inductive Request
  | idle
  /-- An ingest has found no active run and has no job slot yet. -/
  | checked
  /-- `get_application` is next. -/
  | entered (kind : Replacement)
  /-- The row was read; `previous` is its `cobol_source_path`. -/
  | readRow (kind : Replacement) (previous : Option Directory)
  /-- The new source is on disk. -/
  | wrote (kind : Replacement) (previous : Option Directory) (workspace : Directory)
  /-- The record points at the new source. -/
  | updated (kind : Replacement) (previous : Option Directory)
  /-- The source of the run to be admitted was read. -/
  | sourceRead (admission : Admission) (source : Directory)
  /-- A job slot is reserved. -/
  | slotHeld (admission : Admission) (source : Directory)
  /-- The run is admitted, and its worker is to be launched. -/
  | launching (run : ℕ)
  deriving DecidableEq

namespace Request

/-- The directory the request is going to clean up. -/
def previous : Request → Option Directory
  | .readRow _ previous | .wrote _ previous _ | .updated _ previous => previous
  | _ => none

/-- The directory the record does not point at any more. -/
def superseded : Request → Option Directory
  | .updated _ previous => previous
  | _ => none

/-- The directory that was written and is not in use yet. -/
def workspace : Request → Option Directory
  | .wrote _ _ workspace => some workspace
  | _ => none

/-- The source of the run that is going to be admitted. -/
def admits : Request → Option Directory
  | .sourceRead _ source | .slotHeld _ source => some source
  | _ => none

/-- The run that is going to be revalidated, with its source. -/
def revalidates : Request → Option (ℕ × Directory)
  | .sourceRead (.revalidate run) source | .slotHeld (.revalidate run) source => some (run, source)
  | _ => none

end Request

structure Run where
  sourcePath : Directory
  stage : RunStage
  /-- The workers that were launched and have not ended. -/
  workers : ℕ
  deriving DecidableEq

/-- The run has not reached a terminal stage. -/
def Run.active (run : Run) : Prop := run.stage ∉ terminalStages

structure State where
  cobolSourcePath : Option Directory
  directories : List Directory
  nextDirectory : Directory
  runs : List Run
  requests : ℕ → Request
  activeJobs : ℕ

namespace State

/-- The state after a request has got further. -/
def set (s : State) (r : ℕ) (request : Request) : State :=
  { s with requests := fun i => if i = r then request else s.requests i }

/-- `_cleanup_temp_dir` -/
def remove (s : State) (directory : Option Directory) : State :=
  { s with directories := s.directories.filter fun d => some d ≠ directory }

def withJobs (s : State) (activeJobs : ℕ) : State :=
  { s with activeJobs }

/-- The state after a run was changed. -/
def setRun (s : State) (i : ℕ) (run : Run) : State :=
  { s with runs := s.runs.set i run }

end State

/-- An application without source and runs. -/
def started : State :=
  ⟨none, [], 0, [], fun _ => .idle, 0⟩

/-! ### Steps -/

inductive Action
  | refuseWhileRunActive (r : ℕ) (kind : Replacement)
  | acquireJobSlot (r : ℕ)
  | getApplication (r : ℕ)
  | writeWorkspace (r : ℕ)
  | updateApplicationFields (r : ℕ)
  | cleanup (r : ℕ)
  | cleanupFails (r : ℕ)
  | fail (r : ℕ)
  | readSource (r : ℕ) (admission : Admission)
  | addRun (r : ℕ)
  | beginRevalidation (r : ℕ)
  | launch (r : ℕ)
  | launchFails (r : ℕ)
  | advance (run : ℕ) (stage : RunStage)
  | workerEnds (run : ℕ)
  deriving DecidableEq

/-- The slots a request that replaces the source gives back when it ends. -/
def Replacement.slots : Replacement → ℕ
  | .ingest => 1
  | .upload => 0

/-- What follows the check for active runs; an upload takes no job slot. -/
def Replacement.afterCheck : Replacement → Request
  | .ingest => .checked
  | .upload => .entered .upload

/-- A request raises an exception: the state it leaves, unless it is at a point where none is raised.
An ingest removes its workspace, an upload leaves it behind. -/
def abandoned (s : State) (r : ℕ) : Option State :=
  match s.requests r with
  | .checked | .sourceRead _ _ => some (s.set r .idle)
  | .entered kind | .readRow kind _ => some ((s.set r .idle).withJobs (s.activeJobs - kind.slots))
  | .wrote .upload _ _ => some (s.set r .idle)
  | .wrote .ingest _ workspace =>
      some (((s.set r .idle).remove (some workspace)).withJobs (s.activeJobs - 1))
  | .slotHeld _ _ => some ((s.set r .idle).withJobs (s.activeJobs - 1))
  | .idle | .updated _ _ | .launching _ => none

/-- One step of a request or of a worker. -/
inductive Step (jobLimit : ℕ) : State → Action → State → Prop
  | refuseWhileRunActive {s : State} {r : ℕ} (kind : Replacement) (hidle : s.requests r = .idle)
      (hnone : ∀ run ∈ s.runs, ¬ run.active) :
      Step jobLimit s (.refuseWhileRunActive r kind) (s.set r kind.afterCheck)
  | ingestSlot {s : State} {r : ℕ} (h : s.requests r = .checked) (hfree : s.activeJobs < jobLimit) :
      Step jobLimit s (.acquireJobSlot r) ((s.set r (.entered .ingest)).withJobs (s.activeJobs + 1))
  | admissionSlot {s : State} {r : ℕ} {admission : Admission} {source : Directory}
      (h : s.requests r = .sourceRead admission source) (hfree : s.activeJobs < jobLimit) :
      Step jobLimit s (.acquireJobSlot r)
        ((s.set r (.slotHeld admission source)).withJobs (s.activeJobs + 1))
  | getApplication {s : State} {r : ℕ} {kind : Replacement} (h : s.requests r = .entered kind) :
      Step jobLimit s (.getApplication r) (s.set r (.readRow kind s.cobolSourcePath))
  | writeWorkspace {s : State} {r : ℕ} {kind : Replacement} {previous : Option Directory}
      (h : s.requests r = .readRow kind previous) :
      Step jobLimit s (.writeWorkspace r)
        { s.set r (.wrote kind previous s.nextDirectory) with
          directories := s.directories ++ [s.nextDirectory]
          nextDirectory := s.nextDirectory + 1 }
  | updateApplicationFields {s : State} {r : ℕ} {kind : Replacement}
      {previous : Option Directory} {workspace : Directory}
      (h : s.requests r = .wrote kind previous workspace) :
      Step jobLimit s (.updateApplicationFields r)
        { s.set r (.updated kind previous) with cobolSourcePath := some workspace }
  | cleanup {s : State} {r : ℕ} {kind : Replacement} {previous : Option Directory}
      (h : s.requests r = .updated kind previous) :
      Step jobLimit s (.cleanup r)
        (((s.set r .idle).remove previous).withJobs (s.activeJobs - kind.slots))
  | cleanupFails {s : State} {r : ℕ} {kind : Replacement} {previous : Option Directory}
      (h : s.requests r = .updated kind previous) :
      Step jobLimit s (.cleanupFails r) ((s.set r .idle).withJobs (s.activeJobs - kind.slots))
  | fail {s t : State} {r : ℕ} (h : abandoned s r = some t) : Step jobLimit s (.fail r) t
  | modernize {s : State} {r : ℕ} {source : Directory} (hidle : s.requests r = .idle)
      (hsource : s.cobolSourcePath = some source) :
      Step jobLimit s (.readSource r .modernize) (s.set r (.sourceRead .modernize source))
  | revalidate {s : State} {r i : ℕ} {run : Run} (hidle : s.requests r = .idle)
      (hrun : s.runs[i]? = some run) (hdirectory : run.sourcePath ∈ s.directories) :
      Step jobLimit s (.readSource r (.revalidate i))
        (s.set r (.sourceRead (.revalidate i) run.sourcePath))
  | addRun {s : State} {r : ℕ} {source : Directory}
      (h : s.requests r = .slotHeld .modernize source) :
      Step jobLimit s (.addRun r)
        { s.set r (.launching s.runs.length) with runs := s.runs ++ [⟨source, .CREATED, 0⟩] }
  | beginRevalidation {s : State} {r i : ℕ} {source : Directory} {run : Run}
      (h : s.requests r = .slotHeld (.revalidate i) source) (hrun : s.runs[i]? = some run)
      (hterminal : ¬ run.active) :
      Step jobLimit s (.beginRevalidation r)
        ((s.set r (.launching i)).setRun i { run with stage := .CREATED })
  | launch {s : State} {r i : ℕ} {run : Run} (h : s.requests r = .launching i)
      (hrun : s.runs[i]? = some run) :
      Step jobLimit s (.launch r)
        ((s.set r .idle).setRun i { run with workers := run.workers + 1 })
  | launchFails {s : State} {r i : ℕ} {run : Run} (h : s.requests r = .launching i)
      (hrun : s.runs[i]? = some run) {stage : RunStage} (hstage : stage = run.stage ∨ stage = .FAILED) :
      Step jobLimit s (.launchFails r)
        (((s.set r .idle).setRun i { run with stage }).withJobs (s.activeJobs - 1))
  | advance {s : State} {i : ℕ} {run : Run} {stage : RunStage} (hrun : s.runs[i]? = some run)
      (hworker : 0 < run.workers) (hvalid : isValidTransition run.stage stage = true) :
      Step jobLimit s (.advance i stage) (s.setRun i { run with stage })
  | workerEnds {s : State} {i : ℕ} {run : Run} (hrun : s.runs[i]? = some run)
      (hworker : 0 < run.workers) :
      Step jobLimit s (.workerEnds i)
        ((s.setRun i { run with workers := run.workers - 1 }).withJobs (s.activeJobs - 1))

/-! ### The law -/

/-- The source of a run that has not reached a terminal stage is on disk. -/
def SourceSurvives (s : State) : Prop :=
  ∀ run ∈ s.runs, run.active → run.sourcePath ∈ s.directories

/-- Requests do not overlap on one directory: a request that replaces the source does not read the row
while a run works on the source it names, no run is admitted whose source is about to be cleaned up, and
no directory is cleaned up that a request has read to admit a run. -/
def Undisturbed (s : State) : Action → Prop
  | .getApplication _ => ∀ run ∈ s.runs, run.active → s.cobolSourcePath ≠ some run.sourcePath
  | .addRun r | .beginRevalidation r => ∀ source, (s.requests r).admits = some source →
      ∀ other, (s.requests other).previous ≠ some source
  | .cleanup r => ∀ directory, (s.requests r).previous = some directory →
      ∀ other, (s.requests other).admits ≠ some directory
  | _ => True

/-! ### What every step keeps -/

/-- The record, a run or a request that read it refers to the directory. -/
def Named (s : State) (d : Directory) : Prop :=
  s.cobolSourcePath = some d ∨ (∃ run ∈ s.runs, run.sourcePath = d) ∨
    (∃ r, (s.requests r).previous = some d) ∨ ∃ r, (s.requests r).admits = some d

/-- The directories that are still needed are there. -/
structure Intact (s : State) : Prop where
  survives : SourceSurvives s
  current : ∀ d, s.cobolSourcePath = some d → d ∈ s.directories
  admits : ∀ r d, (s.requests r).admits = some d → d ∈ s.directories
  /-- No active run works on what is going to be cleaned up. -/
  unused : ∀ r d, (s.requests r).previous = some d → ∀ run ∈ s.runs, run.active → run.sourcePath ≠ d
  superseded : ∀ r d, (s.requests r).superseded = some d → s.cobolSourcePath ≠ some d
  /-- A workspace is there, and nobody knows it but its request. -/
  workspace : ∀ r w, (s.requests r).workspace = some w → w ∈ s.directories ∧ ¬ Named s w
  workspaces : ∀ r r' w, (s.requests r).workspace = some w → (s.requests r').workspace = some w →
    r = r'
  revalidates : ∀ r i d, (s.requests r).revalidates = some (i, d) →
    ∃ run, s.runs[i]? = some run ∧ run.sourcePath = d
  named_lt : ∀ d, Named s d → d < s.nextDirectory
  directory_lt : ∀ d ∈ s.directories, d < s.nextDirectory

theorem intact_started : Intact started := by
  have hnone : ∀ d, ¬ Named started d := by
    rintro d (h | ⟨run, h, -⟩ | ⟨r, h⟩ | ⟨r, h⟩)
    · cases h
    · cases h
    · cases h
    · cases h
  refine ⟨?_, ?_, ?_, ?_, ?_, ?_, ?_, ?_, fun d h => absurd h (hnone d), ?_⟩
  · intro run h
    cases h
  · intro d h
    cases h
  · intro r d h
    cases h
  · intro r d h
    cases h
  · intro r d h
    cases h
  · intro r w h
    cases h
  · intro r r' w h
    cases h
  · intro r i d h
    cases h
  · intro d h
    cases h

section Changes

variable {s : State} {r : ℕ} {q : Request}

theorem Intact.withJobs (h : Intact s) (activeJobs : ℕ) : Intact (s.withJobs activeJobs) :=
  ⟨h.survives, h.current, h.admits, h.unused, h.superseded, h.workspace, h.workspaces,
    h.revalidates, h.named_lt, h.directory_lt⟩

theorem State.forall_set {P : ℕ → Request → Prop} (hq : P r q) (h : ∀ i, P i (s.requests i)) (i : ℕ) :
    P i ((s.set r q).requests i) := by
  by_cases hi : i = r
  · subst hi
    simpa [State.set] using hq
  · simpa [State.set, hi] using h i

theorem Named.of_set {d : Directory} (h : Named (s.set r q) d)
    (hprevious : ∀ d, q.previous = some d → Named s d)
    (hadmits : ∀ d, q.admits = some d → Named s d) : Named s d := by
  rcases h with h | h | ⟨i, h⟩ | ⟨i, h⟩
  · exact .inl h
  · exact .inr (.inl h)
  · exact State.forall_set (P := fun _ p => p.previous = some d → Named s d) (hprevious d)
      (fun i h => .inr (.inr (.inl ⟨i, h⟩))) i h
  · exact State.forall_set (P := fun _ p => p.admits = some d → Named s d) (hadmits d)
      (fun i h => .inr (.inr (.inr ⟨i, h⟩))) i h

/-- **A request gets further**, with what it refers to still needed or not in use. -/
theorem Intact.set (h : Intact s)
    (hprevious : ∀ d, q.previous = some d →
      Named s d ∧ ∀ run ∈ s.runs, run.active → run.sourcePath ≠ d)
    (hsuperseded : ∀ d, q.superseded = some d → s.cobolSourcePath ≠ some d)
    (hworkspace : ∀ w, q.workspace = some w → (s.requests r).workspace = some w)
    (hadmits : ∀ d, q.admits = some d → d ∈ s.directories ∧ Named s d)
    (hrevalidates : ∀ i d, q.revalidates = some (i, d) →
      ∃ run, s.runs[i]? = some run ∧ run.sourcePath = d) : Intact (s.set r q) := by
  have hnamed : ∀ d, Named (s.set r q) d → Named s d := fun d hd =>
    hd.of_set (fun d hd => (hprevious d hd).1) fun d hd => (hadmits d hd).2
  have hold : ∀ i w, ((s.set r q).requests i).workspace = some w →
      (s.requests i).workspace = some w := by
    intro i w
    refine State.forall_set (P := fun i p => p.workspace = some w → (s.requests i).workspace = some w)
      (hworkspace w) (fun i h => h) i
  refine ⟨h.survives, h.current, ?_, ?_, ?_, ?_, ?_, ?_, ?_, h.directory_lt⟩
  · intro i d
    exact State.forall_set (P := fun _ p => p.admits = some d → d ∈ s.directories)
      (fun hd => (hadmits d hd).1) (fun i => h.admits i d) i
  · intro i d
    exact State.forall_set (P := fun _ p => p.previous = some d → ∀ run ∈ s.runs, run.active →
      run.sourcePath ≠ d) (fun hd => (hprevious d hd).2) (fun i => h.unused i d) i
  · intro i d
    exact State.forall_set (P := fun _ p => p.superseded = some d → s.cobolSourcePath ≠ some d)
      (hsuperseded d) (fun i => h.superseded i d) i
  · intro i w hw
    obtain ⟨hmem, hfree⟩ := h.workspace i w (hold i w hw)
    exact ⟨hmem, fun hn => hfree (hnamed w hn)⟩
  · intro i j w hi hj
    exact h.workspaces i j w (hold i w hi) (hold j w hj)
  · intro i k d
    exact State.forall_set (P := fun _ p => p.revalidates = some (k, d) →
      ∃ run, s.runs[k]? = some run ∧ run.sourcePath = d) (hrevalidates k d)
      (fun i => h.revalidates i k d) i
  · intro d hd
    exact h.named_lt d (hnamed d hd)

/-- A request that refers to no directory. -/
structure Request.Plain (q : Request) : Prop where
  previous : q.previous = none
  workspace : q.workspace = none
  admits : q.admits = none

theorem Request.Plain.superseded {q : Request} (h : q.Plain) : q.superseded = none := by
  have hprevious := h.previous
  cases q with
  | updated kind previous => exact hprevious
  | _ => rfl

theorem Request.Plain.revalidates {q : Request} (h : q.Plain) : q.revalidates = none := by
  have hadmits := h.admits
  cases q with
  | sourceRead | slotHeld => cases hadmits
  | _ => rfl

theorem Request.plain_idle : Request.idle.Plain := ⟨rfl, rfl, rfl⟩

theorem Request.plain_launching (i : ℕ) : (Request.launching i).Plain := ⟨rfl, rfl, rfl⟩

theorem Intact.set_plain (h : Intact s) (hq : q.Plain) : Intact (s.set r q) := by
  refine h.set ?_ ?_ ?_ ?_ ?_
  · intro d hd
    rw [hq.previous] at hd
    cases hd
  · intro d hd
    rw [hq.superseded] at hd
    cases hd
  · intro w hw
    rw [hq.workspace] at hw
    cases hw
  · intro d hd
    rw [hq.admits] at hd
    cases hd
  · intro i d hd
    rw [hq.revalidates] at hd
    cases hd

/-- **A directory is removed** that nobody needs. -/
theorem Intact.remove (h : Intact s) {directory : Option Directory}
    (hruns : ∀ run ∈ s.runs, run.active → some run.sourcePath ≠ directory)
    (hcurrent : ∀ d, s.cobolSourcePath = some d → some d ≠ directory)
    (hadmits : ∀ i d, (s.requests i).admits = some d → some d ≠ directory)
    (hworkspace : ∀ i w, (s.requests i).workspace = some w → some w ≠ directory) :
    Intact (s.remove directory) := by
  have hkeep : ∀ d ∈ s.directories, some d ≠ directory → d ∈ (s.remove directory).directories :=
    fun d hd hne => List.mem_filter.2 ⟨hd, decide_eq_true hne⟩
  refine ⟨?_, ?_, ?_, h.unused, h.superseded, ?_, h.workspaces, h.revalidates, h.named_lt, ?_⟩
  · intro run hrun hactive
    exact hkeep _ (h.survives run hrun hactive) (hruns run hrun hactive)
  · intro d hd
    exact hkeep d (h.current d hd) (hcurrent d hd)
  · intro i d hd
    exact hkeep d (h.admits i d hd) (hadmits i d hd)
  · intro i w hw
    obtain ⟨hmem, hfree⟩ := h.workspace i w hw
    exact ⟨hkeep w hmem (hworkspace i w hw), hfree⟩
  · intro d hd
    exact h.directory_lt d (List.mem_filter.1 hd).1

theorem getElem?_setRun {i j : ℕ} {run run' : Run} (hrun : s.runs[i]? = some run) :
    (s.setRun i run').runs[j]? = if j = i then some run' else s.runs[j]? := by
  have hlt := (List.getElem?_eq_some_iff.1 hrun).1
  rw [State.setRun, List.getElem?_set]
  by_cases hij : i = j
  · rw [if_pos hij, if_pos hij.symm, if_pos hlt]
  · rw [if_neg hij, if_neg (Ne.symm hij)]

theorem mem_setRun {i : ℕ} {run' a : Run} (ha : a ∈ (s.setRun i run').runs) :
    a = run' ∨ a ∈ s.runs :=
  (List.mem_or_eq_of_mem_set ha).symm

/-- **A run is changed** that keeps its source; if it becomes active, its source is there and is not
going to be cleaned up. -/
theorem Intact.setRun (h : Intact s) {i : ℕ} {run : Run} (run' : Run) (hrun : s.runs[i]? = some run)
    (hsource : run'.sourcePath = run.sourcePath)
    (hactive : run'.active → run.sourcePath ∈ s.directories ∧
      ∀ j, (s.requests j).previous ≠ some run.sourcePath) : Intact (s.setRun i run') := by
  have hmem := List.mem_of_getElem? hrun
  have hnamed : ∀ d, Named (s.setRun i run') d → Named s d := by
    rintro d (hd | ⟨a, ha, rfl⟩ | hd)
    · exact .inl hd
    · rcases mem_setRun ha with rfl | ha
      · exact .inr (.inl ⟨run, hmem, hsource.symm⟩)
      · exact .inr (.inl ⟨a, ha, rfl⟩)
    · exact .inr (.inr hd)
  refine ⟨?_, h.current, h.admits, ?_, h.superseded, ?_, h.workspaces, ?_, ?_, h.directory_lt⟩
  · intro a ha hact
    rcases mem_setRun ha with rfl | ha
    · rw [hsource]
      exact (hactive hact).1
    · exact h.survives a ha hact
  · intro j d hd a ha hact
    rcases mem_setRun ha with rfl | ha
    · rintro rfl
      exact (hactive hact).2 j (hsource ▸ hd)
    · exact h.unused j d hd a ha hact
  · intro j w hw
    obtain ⟨hdir, hfree⟩ := h.workspace j w hw
    exact ⟨hdir, fun hn => hfree (hnamed w hn)⟩
  · intro j k d hd
    obtain ⟨a, ha, rfl⟩ := h.revalidates j k d hd
    rw [getElem?_setRun hrun]
    by_cases hk : k = i
    · subst hk
      rw [hrun] at ha
      obtain rfl := Option.some.inj ha
      exact ⟨run', if_pos rfl, hsource⟩
    · exact ⟨a, (if_neg hk).trans ha, rfl⟩
  · intro d hd
    exact h.named_lt d (hnamed d hd)

theorem Intact.setRun_active (h : Intact s) {i : ℕ} {run : Run} (run' : Run)
    (hrun : s.runs[i]? = some run) (hsource : run'.sourcePath = run.sourcePath) (hactive : run'.active → run.active) :
    Intact (s.setRun i run') := by
  have hmem := List.mem_of_getElem? hrun
  refine h.setRun run' hrun hsource fun hact => ⟨h.survives run hmem (hactive hact), fun j hj => ?_⟩
  exact h.unused j _ hj run hmem (hactive hact) rfl

/-- **A run is added** whose source is there and is not going to be cleaned up. -/
theorem Intact.addRun (h : Intact s) {run : Run} (hdirectory : run.sourcePath ∈ s.directories)
    (hnamed : Named s run.sourcePath)
    (hprevious : ∀ j, (s.requests j).previous ≠ some run.sourcePath) :
    Intact { s with runs := s.runs ++ [run] } := by
  have hmem : ∀ a ∈ s.runs ++ [run], a ∈ s.runs ∨ a = run := by simp
  have hback : ∀ d, Named { s with runs := s.runs ++ [run] } d → Named s d := by
    rintro d (hd | ⟨a, ha, rfl⟩ | hd)
    · exact .inl hd
    · rcases hmem a ha with ha | rfl
      · exact .inr (.inl ⟨a, ha, rfl⟩)
      · exact hnamed
    · exact .inr (.inr hd)
  refine ⟨?_, h.current, h.admits, ?_, h.superseded, ?_, h.workspaces, ?_, ?_, h.directory_lt⟩
  · intro a ha hact
    rcases hmem a ha with ha | rfl
    · exact h.survives a ha hact
    · exact hdirectory
  · intro j d hd a ha hact
    rcases hmem a ha with ha | rfl
    · exact h.unused j d hd a ha hact
    · rintro rfl
      exact hprevious j hd
  · intro j w hw
    obtain ⟨hdir, hfree⟩ := h.workspace j w hw
    exact ⟨hdir, fun hn => hfree (hback w hn)⟩
  · intro j k d hd
    obtain ⟨a, ha, hsource⟩ := h.revalidates j k d hd
    exact ⟨a, (List.getElem?_append_left (List.getElem?_eq_some_iff.1 ha).1).trans ha, hsource⟩
  · intro d hd
    exact h.named_lt d (hback d hd)

/-- **A new source is written** into a directory with an unused number. -/
theorem Intact.write (h : Intact s) {kind : Replacement} {previous : Option Directory}
    (hr : s.requests r = .readRow kind previous) :
    Intact { s.set r (.wrote kind previous s.nextDirectory) with
      directories := s.directories ++ [s.nextDirectory]
      nextDirectory := s.nextDirectory + 1 } := by
  have hold : ∀ i d, (s.requests i).previous = some d → Named s d :=
    fun i d hd => .inr (.inr (.inl ⟨i, hd⟩))
  have hprevious : ∀ d, previous = some d → (s.requests r).previous = some d := by
    intro d hd
    rw [hr, hd]
    rfl
  have hnamed : ∀ d, Named (s.set r (.wrote kind previous s.nextDirectory)) d → Named s d := by
    intro d hd
    refine hd.of_set (fun d hd => hold r d (hprevious d hd)) fun d hd => ?_
    cases hd
  have hnew : ∀ i w, ((s.set r (.wrote kind previous s.nextDirectory)).requests i).workspace =
      some w → (i = r ∧ w = s.nextDirectory) ∨ (s.requests i).workspace = some w := by
    intro i w
    refine State.forall_set (P := fun i p => p.workspace = some w →
      (i = r ∧ w = s.nextDirectory) ∨ (s.requests i).workspace = some w) ?_ (fun i h => .inr h) i
    intro hw
    exact .inl ⟨rfl, (Option.some.inj hw).symm⟩
  have hlt : ∀ i w, (s.requests i).workspace = some w → w < s.nextDirectory :=
    fun i w hw => h.directory_lt w (h.workspace i w hw).1
  refine ⟨?_, ?_, ?_, ?_, ?_, ?_, ?_, ?_, ?_, ?_⟩
  · intro run hrun hactive
    exact List.mem_append_left _ (h.survives run hrun hactive)
  · intro d hd
    exact List.mem_append_left _ (h.current d hd)
  · intro i d
    refine State.forall_set (P := fun _ p => p.admits = some d →
      d ∈ s.directories ++ [s.nextDirectory]) ?_
      (fun i hd => List.mem_append_left _ (h.admits i d hd)) i
    intro hd
    cases hd
  · intro i d
    refine State.forall_set (P := fun _ p => p.previous = some d → ∀ run ∈ s.runs, run.active →
      run.sourcePath ≠ d) ?_ (fun i => h.unused i d) i
    exact fun hd => h.unused r d (hprevious d hd)
  · intro i d
    refine State.forall_set (P := fun _ p => p.superseded = some d → s.cobolSourcePath ≠ some d) ?_
      (fun i => h.superseded i d) i
    intro hd
    cases hd
  · intro i w hw
    rcases hnew i w hw with ⟨-, rfl⟩ | hw
    · refine ⟨List.mem_append_right _ (List.mem_singleton_self _), fun hn => ?_⟩
      exact absurd (h.named_lt _ (hnamed _ hn)) (lt_irrefl _)
    · obtain ⟨hdir, hfree⟩ := h.workspace i w hw
      exact ⟨List.mem_append_left _ hdir, fun hn => hfree (hnamed w hn)⟩
  · intro i j w hi hj
    -- the number of the new directory is greater than those of all others
    rcases hnew i w hi with ⟨hir, hw⟩ | hi'
    · rcases hnew j w hj with ⟨hjr, -⟩ | hj'
      · exact hir.trans hjr.symm
      · exact absurd (hw ▸ hlt j w hj') (lt_irrefl _)
    · rcases hnew j w hj with ⟨-, hw⟩ | hj'
      · exact absurd (hw ▸ hlt i w hi') (lt_irrefl _)
      · exact h.workspaces i j w hi' hj'
  · intro i k d
    refine State.forall_set (P := fun _ p => p.revalidates = some (k, d) →
      ∃ run, s.runs[k]? = some run ∧ run.sourcePath = d) ?_ (fun i => h.revalidates i k d) i
    intro hd
    cases hd
  · intro d hd
    exact (h.named_lt d (hnamed d hd)).trans (Nat.lt_succ_self _)
  · intro d hd
    rcases List.mem_append.1 hd with hd | hd
    · exact (h.directory_lt d hd).trans (Nat.lt_succ_self _)
    · rw [List.mem_singleton.1 hd]
      exact Nat.lt_succ_self _

/-- **The record points at the new source**, and at no other that a request refers to. -/
theorem Intact.update (h : Intact s) {kind : Replacement} {previous : Option Directory}
    {workspace : Directory} (hr : s.requests r = .wrote kind previous workspace) :
    Intact { s.set r (.updated kind previous) with cobolSourcePath := some workspace } := by
  have hrequest : (s.requests r).workspace = some workspace := by
    rw [hr]
    rfl
  obtain ⟨hdir, hfree⟩ := h.workspace r workspace hrequest
  have hprevious : ∀ d, previous = some d → (s.requests r).previous = some d := by
    intro d hd
    rw [hr, hd]
    rfl
  have hunnamed : ∀ i d, (s.requests i).previous = some d → workspace ≠ d := by
    rintro i d hd rfl
    exact hfree (.inr (.inr (.inl ⟨i, hd⟩)))
  have hsuperseded : ∀ p : Request, ∀ d, p.superseded = some d → p.previous = some d := by
    intro p d hd
    cases p with
    | updated kind previous => exact hd
    | _ => cases hd
  have hold : ∀ i w, ((s.set r (.updated kind previous)).requests i).workspace = some w →
      i ≠ r ∧ (s.requests i).workspace = some w := by
    intro i w
    by_cases hi : i = r
    · simp [State.set, hi, Request.workspace]
    · simp [State.set, hi]
  have hnamed : ∀ d, Named { s.set r (.updated kind previous) with
      cobolSourcePath := some workspace } d → d = workspace ∨ Named s d := by
    rintro d (hd | hd | ⟨i, hd⟩ | ⟨i, hd⟩)
    · exact .inl (Option.some.inj hd).symm
    · exact .inr (.inr (.inl hd))
    · refine .inr (.inr (.inr (.inl ?_)))
      refine State.forall_set (P := fun _ p => p.previous = some d →
        ∃ i, (s.requests i).previous = some d) ?_ (fun i hd => ⟨i, hd⟩) i hd
      exact fun hd => ⟨r, hprevious d hd⟩
    · refine .inr (.inr (.inr (.inr ?_)))
      refine State.forall_set (P := fun _ p => p.admits = some d →
        ∃ i, (s.requests i).admits = some d) ?_ (fun i hd => ⟨i, hd⟩) i hd
      intro hd
      cases hd
  refine ⟨h.survives, ?_, ?_, ?_, ?_, ?_, ?_, ?_, ?_, h.directory_lt⟩
  · intro d hd
    rwa [← Option.some.inj hd]
  · intro i d
    refine State.forall_set (P := fun _ p => p.admits = some d → d ∈ s.directories) ?_
      (fun i => h.admits i d) i
    intro hd
    cases hd
  · intro i d
    refine State.forall_set (P := fun _ p => p.previous = some d → ∀ run ∈ s.runs, run.active →
      run.sourcePath ≠ d) ?_ (fun i => h.unused i d) i
    exact fun hd => h.unused r d (hprevious d hd)
  · intro i d
    refine State.forall_set (P := fun _ p => p.superseded = some d → some workspace ≠ some d) ?_ ?_ i
    · intro hd heq
      exact hunnamed r d (hprevious d hd) (Option.some.inj heq)
    · intro i hd heq
      exact hunnamed i d (hsuperseded _ d hd) (Option.some.inj heq)
  · intro i w hw
    obtain ⟨hi, hw'⟩ := hold i w hw
    obtain ⟨hmem, hn⟩ := h.workspace i w hw'
    refine ⟨hmem, fun hd => ?_⟩
    rcases hnamed w hd with heq | hd
    · exact hi (h.workspaces i r w hw' (heq ▸ hrequest))
    · exact hn hd
  · intro i j w hi hj
    exact h.workspaces i j w (hold i w hi).2 (hold j w hj).2
  · intro i k d
    refine State.forall_set (P := fun _ p => p.revalidates = some (k, d) →
      ∃ run, s.runs[k]? = some run ∧ run.sourcePath = d) ?_ (fun i => h.revalidates i k d) i
    intro hd
    cases hd
  · intro d hd
    rcases hnamed d hd with rfl | hd
    · exact h.directory_lt _ hdir
    · exact h.named_lt d hd

theorem State.requests_set_idle {β : Type} {f : Request → Option β} (hf : f .idle = none) {i : ℕ}
    {b : β} (h : f ((s.set r .idle).requests i) = some b) : i ≠ r ∧ f (s.requests i) = some b := by
  by_cases hi : i = r
  · simp [State.set, hi, hf] at h
  · exact ⟨hi, by simpa [State.set, hi] using h⟩

/-- **A source that was replaced is cleaned up.** -/
theorem Intact.cleanup (h : Intact s) {kind : Replacement} {previous : Option Directory}
    (hr : s.requests r = .updated kind previous)
    (hok : ∀ d, (s.requests r).previous = some d → ∀ i, (s.requests i).admits ≠ some d) :
    Intact ((s.set r .idle).remove previous) := by
  have hprevious : ∀ {d}, some d = previous → (s.requests r).previous = some d := by
    rintro d rfl
    rw [hr]
    rfl
  refine (h.set_plain Request.plain_idle).remove ?_ ?_ ?_ ?_
  · intro run hrun hactive heq
    exact h.unused r _ (hprevious heq) run hrun hactive rfl
  · intro d hd heq
    refine h.superseded r d ?_ hd
    rw [hr, Request.superseded, ← heq]
  · intro i d hd heq
    exact hok d (hprevious heq) i (State.requests_set_idle rfl hd).2
  · intro i w hw heq
    have hfree := (h.workspace i w (State.requests_set_idle rfl hw).2).2
    exact hfree (.inr (.inr (.inl ⟨r, hprevious heq⟩)))

/-- **A workspace is removed** whose ingest has failed. -/
theorem Intact.discard (h : Intact s) {kind : Replacement} {previous : Option Directory}
    {workspace : Directory} (hr : s.requests r = .wrote kind previous workspace) :
    Intact ((s.set r .idle).remove (some workspace)) := by
  have hrequest : (s.requests r).workspace = some workspace := by
    rw [hr]
    rfl
  have hfree := (h.workspace r workspace hrequest).2
  refine (h.set_plain Request.plain_idle).remove ?_ ?_ ?_ ?_
  · intro run hrun _ heq
    exact hfree (.inr (.inl ⟨run, hrun, Option.some.inj heq⟩))
  · intro d hd heq
    exact hfree (.inl (hd.trans heq))
  · intro i d hd heq
    exact hfree (.inr (.inr (.inr ⟨i, (State.requests_set_idle rfl hd).2.trans heq⟩)))
  · intro i w hw heq
    obtain ⟨hi, hw⟩ := State.requests_set_idle rfl hw
    exact hi (h.workspaces i r workspace (hw.trans heq) hrequest)

/-- **A request that fails** leaves what others need. -/
theorem Intact.abandoned {t : State} (h : Intact s) (ht : abandoned s r = some t) : Intact t := by
  have hidle : Intact (s.set r .idle) := h.set_plain Request.plain_idle
  unfold Service.abandoned at ht
  split at ht
  case h_1 | h_2 | h_5 =>
      obtain rfl := Option.some.inj ht
      exact hidle
  case h_3 | h_4 | h_7 =>
      obtain rfl := Option.some.inj ht
      exact hidle.withJobs _
  case h_6 _ hr =>
      obtain rfl := Option.some.inj ht
      exact (h.discard hr).withJobs _
  all_goals cases ht

end Changes

/-- **One step** keeps the directories that are still needed. -/
theorem intact_step {jobLimit : ℕ} {s t : State} {a : Action} (h : Intact s) (hok : Undisturbed s a)
    (hstep : Step jobLimit s a t) : Intact t := by
  cases hstep with
  | refuseWhileRunActive kind hidle hnone =>
      refine h.set_plain ?_
      cases kind <;> exact ⟨rfl, rfl, rfl⟩
  | ingestSlot hr hfree => exact (h.set_plain ⟨rfl, rfl, rfl⟩).withJobs _
  | @admissionSlot r admission source hr hfree =>
      have hadmits : (s.requests r).admits = some source := by
        rw [hr]
        rfl
      refine Intact.withJobs (h.set ?_ ?_ ?_ ?_ ?_) _
      · intro d hd
        cases hd
      · intro d hd
        cases hd
      · intro w hw
        cases hw
      · intro d hd
        obtain rfl := Option.some.inj hd
        exact ⟨h.admits r _ hadmits, .inr (.inr (.inr ⟨r, hadmits⟩))⟩
      · intro i d hd
        refine h.revalidates r i d ?_
        rw [hr]
        cases admission with
        | modernize => cases hd
        | revalidate run => exact hd
  | @getApplication r kind hr =>
      refine h.set ?_ ?_ ?_ ?_ ?_
      · intro d hd
        refine ⟨.inl hd, fun run hrun hactive hsource => ?_⟩
        exact hok run hrun hactive (hsource ▸ hd)
      · intro d hd
        cases hd
      · intro w hw
        cases hw
      · intro d hd
        cases hd
      · intro i d hd
        cases hd
  | writeWorkspace hr => exact h.write hr
  | updateApplicationFields hr => exact h.update hr
  | cleanup hr => exact (h.cleanup hr hok).withJobs _
  | cleanupFails hr => exact (h.set_plain Request.plain_idle).withJobs _
  | fail ht => exact h.abandoned ht
  | @modernize r source hidle hsource =>
      refine h.set ?_ ?_ ?_ ?_ ?_
      · intro d hd
        cases hd
      · intro d hd
        cases hd
      · intro w hw
        cases hw
      · intro d hd
        obtain rfl := Option.some.inj hd
        exact ⟨h.current _ hsource, .inl hsource⟩
      · intro i d hd
        cases hd
  | @revalidate r i run hidle hrun hdirectory =>
      refine h.set ?_ ?_ ?_ ?_ ?_
      · intro d hd
        cases hd
      · intro d hd
        cases hd
      · intro w hw
        cases hw
      · intro d hd
        obtain rfl := Option.some.inj hd
        exact ⟨hdirectory, .inr (.inl ⟨run, List.mem_of_getElem? hrun, rfl⟩)⟩
      · intro k d hd
        obtain ⟨rfl, rfl⟩ := Prod.mk.inj (Option.some.inj hd)
        exact ⟨run, hrun, rfl⟩
  | @addRun r source hr =>
      have hadmits : (s.requests r).admits = some source := by
        rw [hr]
        rfl
      exact (h.addRun (h.admits r _ hadmits) (.inr (.inr (.inr ⟨r, hadmits⟩)))
        (hok source hadmits)).set_plain (Request.plain_launching _)
  | @beginRevalidation r i source run hr hrun hterminal =>
      have hadmits : (s.requests r).admits = some source := by
        rw [hr]
        rfl
      obtain ⟨run', hrun', hsource⟩ := h.revalidates r i source (by rw [hr]; rfl)
      rw [hrun] at hrun'
      obtain rfl := Option.some.inj hrun'
      refine (h.setRun { run with stage := .CREATED } hrun rfl fun _ => ?_).set_plain (Request.plain_launching _)
      exact ⟨hsource ▸ h.admits r _ hadmits, hsource ▸ hok source hadmits⟩
  | @launch r i run hr hrun =>
      exact (h.setRun_active { run with workers := run.workers + 1 } hrun rfl
        fun hactive => hactive).set_plain Request.plain_idle
  | @launchFails r i run hr hrun stage hstage =>
      refine ((h.setRun_active { run with stage } hrun rfl
        fun hactive => ?_).set_plain Request.plain_idle).withJobs _
      rcases hstage with rfl | rfl
      · exact hactive
      · exact absurd (List.mem_cons_of_mem _ (List.mem_singleton_self _)) hactive
  | @advance i run stage hrun hworker hvalid =>
      refine h.setRun_active { run with stage } hrun rfl fun hactive hterminal => ?_
      rw [isValidTransition_iff] at hvalid
      exact hactive (hvalid.eq_of_terminal hterminal ▸ hterminal)
  | @workerEnds i run hrun hworker =>
      exact (h.setRun_active { run with workers := run.workers - 1 } hrun rfl
        fun hactive => hactive).withJobs _

/-- **The source of a run survives the run**, in every interleaving of steps of requests that do not
overlap on one directory. -/
theorem sourceSurvives_of_undisturbed {jobLimit : ℕ} {s : State}
    (h : Interleaving.Reached (· = started) (Step jobLimit) Undisturbed s) : SourceSurvives s := by
  have hintact : Intact s := by
    refine h.invariant ?_ fun s a t hs hok hstep => intact_step hs hok hstep
    rintro s rfl
    exact intact_started
  exact hintact.survives

/-- The run that is admitted behind an upload keeps the uploaded source. -/
theorem sourceSurvives_after_upload :
    ∃ s : State, s.runs = [⟨0, .CREATED, 0⟩] ∧ s.directories = [0] ∧ SourceSurvives s := by
  have h : Interleaving.Reached (· = started) (Step 1) Undisturbed _ := .start rfl
  have h := h.step (by exact trivial)
    (.refuseWhileRunActive (r := 0) .upload rfl (by simp [started]))
  have h := h.step (by simp [Undisturbed, started, State.set]) (.getApplication (r := 0) rfl)
  have h := h.step (by exact trivial) (.writeWorkspace (r := 0) rfl)
  have h := h.step (by exact trivial) (.updateApplicationFields (r := 0) rfl)
  have h := h.step (by intro d hd; cases hd) (.cleanup (r := 0) rfl)
  have h := h.step (by exact trivial) (.modernize (r := 1) rfl rfl)
  have h := h.step (by exact trivial) (.admissionSlot (r := 1) rfl (by decide))
  have h := h.step ?_ (.addRun (r := 1) rfl)
  · exact ⟨_, rfl, rfl, sourceSurvives_of_undisturbed h⟩
  · -- no other request is in flight
    intro source _ other
    simp only [State.set, State.remove, State.withJobs, started]
    split_ifs <;> simp [Request.previous]

/-! ### An upload and a run -/

/-- A run is admitted between the check of an upload and its cleanup. -/
theorem admittedRun_loses_source :
    ¬ ∀ jobLimit s, Interleaving.Reachable (· = started) (Step jobLimit) s → SourceSurvives s := by
  intro h
  -- the first upload gives the application a source
  have h₁ : Interleaving.Reachable (· = started) (Step 1) _ :=
    Interleaving.Reachable.of_start rfl
  have h₁ := h₁.next (.refuseWhileRunActive (r := 0) .upload rfl (by simp [started]))
  have h₁ := h₁.next (.getApplication (r := 0) rfl)
  have h₁ := h₁.next (.writeWorkspace (r := 0) rfl)
  have h₁ := h₁.next (.updateApplicationFields (r := 0) rfl)
  have h₁ := h₁.next (.cleanup (r := 0) rfl)
  -- the second one is checked, and a run of that source is admitted
  have h₂ := h₁.next (.refuseWhileRunActive (r := 1) .upload rfl
    (by simp [started, State.set, State.remove, State.withJobs]))
  have h₂ := h₂.next (.modernize (r := 2) rfl rfl)
  have h₂ := h₂.next (.admissionSlot (r := 2) rfl (by decide))
  have h₂ := h₂.next (.addRun (r := 2) rfl)
  -- then the second upload goes on
  have h₃ := h₂.next (.getApplication (r := 1) rfl)
  have h₃ := h₃.next (.writeWorkspace (r := 1) rfl)
  have h₃ := h₃.next (.updateApplicationFields (r := 1) rfl)
  have h₃ := h₃.next (.cleanup (r := 1) rfl)
  have hactive : RunStage.CREATED ∉ terminalStages := by decide
  have hlost := h 1 _ h₃ ⟨0, .CREATED, 0⟩ (List.mem_singleton_self _) hactive
  exact absurd hlost (by decide)

end CobolJava.Service
