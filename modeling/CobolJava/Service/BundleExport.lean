/-
**Export of generated bundles.**

Approval and download of the bundle of a run (`set_run_approval` and `require_verified_evidence` of
`api/service.py`, `download_generated` of `api/app.py`, `api/artifact_seal.py`), beside the workers
that generate, validate and seal it and the requests that revalidate a run.  Requests and workers are
cut at every access to the row of the run and to the files of a bundle, and whatever lies on disk may
change between any two steps; a re-ingest touches no row of a run, so that its effect is such a change.

Main definitions:

* `Row`, `Approval`, `Proven` — what the row of a run holds, and the gate before approval and export;
* `Scan` — the reading of a bundle, file by file;
* `Thread`, `State`, `Step` — requests and workers, and their steps;
* `ExportSound`, `ExportChecked` — the law of an archive with the files on disk at the approval, and
  with the files the approval has read.

Main results:

* `guarded_step` — **one step** keeps what is sealed and approved in a generation;
* `exportChecked_of_reachable` — **every archive served** holds the sealed files of a verified run
  whose approval has read the sealed files;
* `substituted_bundle_not_sound` — the files on disk may have changed when the approval is recorded.
-/

import Mathlib
import CobolJava.Lib.Interleaving
import CobolJava.Lib.PyDict
import CobolJava.Evidence.Sample
import CobolJava.Store.Stages
import CobolJava.Verdict.Derivation

set_option autoImplicit false

namespace CobolJava.Service.Export

/-! ### Seals -/

/-- The files of a bundle by their paths. -/
abbrev Files : Type := PyDict Py.Bytes

/-- `SEAL_ALGORITHM` -/
def sealAlgorithm : String := "sha256"

structure SealDocument where
  algorithm : String
  files : PyDict String
  deriving DecidableEq

/-- `compute_generated_seal`, of the bytes that were read. -/
def computeGeneratedSeal (files : Files) : SealDocument :=
  ⟨sealAlgorithm, files.map Sha256.hexdigest⟩

/-- There is a seal, and the files that were read are the sealed ones. -/
def Matches (document : Option SealDocument) (files : Files) : Prop :=
  ∃ recorded, document = some recorded ∧ recorded.algorithm = sealAlgorithm ∧
    files.map Sha256.hexdigest = recorded.files

theorem matches_computeGeneratedSeal (files : Files) :
    Matches (some (computeGeneratedSeal files)) files :=
  ⟨_, rfl, rfl, rfl⟩

/-! ### Rows -/

abbrev Directory : Type := ℕ

/-- How a decision to approve came about; the column holds its state only. -/
structure Check where
  generation : ℕ
  bundle : Option Directory
  /-- The files the request has read. -/
  seen : Files
  /-- The files of the bundle when the decision was recorded. -/
  onDisk : Option Files

inductive Approval
  | pending
  | rejected
  | approved (check : Check)

structure Row where
  stage : RunStage
  validationGeneration : ℕ
  verdict : Option Verdict
  evidenceManifest : Option EvidenceManifest
  generatedSeal : Option SealDocument
  approval : Approval
  generatedAppPath : Option Directory

/-- `require_verified_evidence` lets the run pass: its verdict is VERIFIED, matches the hash of the
evidence, and the evidence has no violations. -/
def Proven (py : Py.Rendering) (row : Row) : Prop :=
  ∃ verdict manifest, row.verdict = some verdict ∧ row.evidenceManifest = some manifest ∧
    verdict.state = .VERIFIED ∧ verdict.evidenceManifestHash = manifest.manifestHash.toStr ∧
      violations py manifest = []

/-- The row of a run that was just admitted. -/
def newRow : Row :=
  ⟨.CREATED, 0, none, none, none, .pending, none⟩

namespace Row

/-- `begin_revalidation` -/
def reset (row : Row) : Row :=
  { row with
    stage := .CREATED
    validationGeneration := row.validationGeneration + 1
    verdict := none
    evidenceManifest := none
    generatedSeal := none
    approval := .pending }

/-- `update_run`, with the stage, verdict and evidence a worker holds. -/
def update (row : Row) (stage : RunStage) (judgement : Option (Verdict × EvidenceManifest)) : Row :=
  { row with
    stage
    verdict := judgement.map Prod.fst
    evidenceManifest := judgement.map Prod.snd }

/-- `set_generated_seal`, of the bytes that were read. -/
def sealed (row : Row) (files : Files) : Row :=
  { row with generatedSeal := some (computeGeneratedSeal files) }

/-- `set_run_generated` -/
def generated (row : Row) (directory : Directory) : Row :=
  { row with generatedAppPath := some directory }

/-- `set_run_approval` -/
def decided (row : Row) (approval : Approval) : Row :=
  { row with approval }

end Row

/-! ### Scans -/

/-- A scan of a bundle: the names that were listed and not read yet, and what was read. -/
structure Scan where
  directory : Directory
  pending : List String
  files : List (String × Py.Bytes)

namespace Scan

def start (disk : Directory → Option Files) (directory : Directory) : Option Scan :=
  (disk directory).map fun files => ⟨directory, files.keys, []⟩

def next (disk : Directory → Option Files) (scan : Scan) : Option Scan :=
  match scan.pending with
  | [] => none
  | name :: pending =>
      ((disk scan.directory).bind fun files => files.get? name).map fun content =>
        { scan with pending, files := scan.files ++ [(name, content)] }

def read (scan : Scan) : Files :=
  PyDict.ofList scan.files

theorem start_directory {disk : Directory → Option Files} {directory : Directory} {scan : Scan}
    (h : start disk directory = some scan) : scan.directory = directory := by
  obtain ⟨files, -, rfl⟩ := Option.map_eq_some_iff.1 h
  rfl

theorem next_directory {disk : Directory → Option Files} {scan scan' : Scan}
    (h : next disk scan = some scan') : scan'.directory = scan.directory := by
  unfold next at h
  split at h
  · cases h
  · obtain ⟨content, -, rfl⟩ := Option.map_eq_some_iff.1 h
    rfl

end Scan

/-! ### Requests and workers -/

/-- What a worker starts with: it generates a bundle, or validates one that exists. -/
inductive Start
  | generate
  | validate (directory : Directory)

/-- How far a worker has got. -/
inductive Phase
  | generating
  | sealing (scan : Scan)
  /-- The interim seal is stored. -/
  | interim (directory : Directory)
  | validating (directory : Directory)
  | judged (directory : Directory) (verdict : Verdict) (manifest : EvidenceManifest)
  | resealing (verdict : Verdict) (manifest : EvidenceManifest) (scan : Scan)
  /-- The final seal is stored. -/
  | resealed (verdict : Verdict) (manifest : EvidenceManifest)
  /-- The verdict is stored. -/
  | recorded (verdict : Verdict) (manifest : EvidenceManifest)

def Start.phase : Start → Phase
  | .generate => .generating
  | .validate directory => .validating directory

namespace Phase

/-- The verdict and evidence the worker holds. -/
def judgement : Phase → Option (Verdict × EvidenceManifest)
  | .judged _ verdict manifest | .resealing verdict manifest _ | .resealed verdict manifest
  | .recorded verdict manifest => some (verdict, manifest)
  | _ => none

/-- The verdict and evidence the worker has stored. -/
def stored : Phase → Option (Verdict × EvidenceManifest)
  | .recorded verdict manifest => some (verdict, manifest)
  | _ => none

/-- The next file of a bundle that is being sealed. -/
def next (disk : Directory → Option Files) : Phase → Option Phase
  | .sealing scan => (scan.next disk).map .sealing
  | .resealing verdict manifest scan => (scan.next disk).map (.resealing verdict manifest)
  | _ => none

/-- Stages are reported while a bundle is generated or validated. -/
def reports : Phase → Bool
  | .generating | .validating _ => true
  | _ => false

end Phase

structure Worker where
  run : ℕ
  generation : ℕ
  phase : Phase

/-- How far a request or a worker has got; `snapshot` is the row a request has read. -/
inductive Thread
  | idle
  | launching (run generation : ℕ) (start : Start)
  | working (worker : Worker)
  | approving (run : ℕ) (snapshot : Row) (scan : Option Scan)
  | downloading (snapshot : Row) (scan : Option Scan)

/-- An archive, with the row its request has read. -/
structure Served where
  row : Row
  archive : Files

structure State where
  disk : Directory → Option Files
  rows : List Row
  threads : ℕ → Thread
  served : List Served

namespace State

def setThread (s : State) (r : ℕ) (thread : Thread) : State :=
  { s with threads := fun i => if i = r then thread else s.threads i }

def setRow (s : State) (i : ℕ) (row : Row) : State :=
  { s with rows := s.rows.set i row }

def addRow (s : State) (row : Row) : State :=
  { s with rows := s.rows ++ [row] }

def serve (s : State) (e : Served) : State :=
  { s with served := s.served ++ [e] }

end State

def Started (s : State) : Prop :=
  s.rows = [] ∧ (∀ r, s.threads r = .idle) ∧ s.served = []

/-! ### Steps -/

/-- A write of a worker to the row of its run, which is refused when the run has been reset. -/
structure Writes (s : State) (r : ℕ) (phase : Phase) (i g : ℕ) (row : Row) : Prop where
  works : s.threads r = .working ⟨i, g, phase⟩
  found : s.rows[i]? = some row
  current : row.validationGeneration = g

/-- One step of a request, of a worker, or of whoever changes the files on disk. -/
inductive Step (py : Py.Rendering) (production : Bool) : State → State → Prop
  | changeDisk {s : State} (disk : Directory → Option Files) :
      Step py production s { s with disk }
  | modernize {s : State} {r : ℕ} (start : Start) (hidle : s.threads r = .idle) :
      Step py production s
        ((s.addRow newRow).setThread r (.launching s.rows.length 0 start))
  | launch {s : State} {r i g : ℕ} {start : Start} (h : s.threads r = .launching i g start) :
      Step py production s (s.setThread r (.working ⟨i, g, start.phase⟩))
  | launchFails {s : State} {r i g : ℕ} {start : Start} {row : Row}
      (h : s.threads r = .launching i g start) (hrow : s.rows[i]? = some row)
      (hgeneration : row.validationGeneration = g)
      (hvalid : isValidTransition row.stage .FAILED = true) :
      Step py production s ((s.setRow i (row.update .FAILED none)).setThread r .idle)
  | launchLost {s : State} {r i g : ℕ} {start : Start} (h : s.threads r = .launching i g start) :
      Step py production s (s.setThread r .idle)
  | advance {s : State} {r i g : ℕ} {phase : Phase} {row : Row} {stage : RunStage}
      (h : Writes s r phase i g row) (hreports : phase.reports = true)
      (hvalid : isValidTransition row.stage stage = true) (hactive : stage ∉ terminalStages) :
      Step py production s (s.setRow i (row.update stage none))
  | startSeal {s : State} {r i g : ℕ} {directory : Directory} {scan : Scan}
      (h : s.threads r = .working ⟨i, g, .generating⟩)
      (hscan : Scan.start s.disk directory = some scan) :
      Step py production s (s.setThread r (.working ⟨i, g, .sealing scan⟩))
  | readSealed {s : State} {r i g : ℕ} {phase phase' : Phase}
      (h : s.threads r = .working ⟨i, g, phase⟩) (hnext : phase.next s.disk = some phase') :
      Step py production s (s.setThread r (.working ⟨i, g, phase'⟩))
  | setGeneratedSeal {s : State} {r i g : ℕ} {scan : Scan} {row : Row}
      (h : Writes s r (.sealing scan) i g row) (hdone : scan.pending = []) :
      Step py production s
        ((s.setRow i (row.sealed scan.read)).setThread r
          (.working ⟨i, g, .interim scan.directory⟩))
  | setRunGenerated {s : State} {r i g : ℕ} {directory : Directory} {row : Row}
      (h : Writes s r (.interim directory) i g row) :
      Step py production s
        ((s.setRow i (row.generated directory)).setThread r
          (.working ⟨i, g, .validating directory⟩))
  | judge {s : State} {r i g : ℕ} {directory : Directory} (verdict : Verdict)
      (manifest : EvidenceManifest) (h : s.threads r = .working ⟨i, g, .validating directory⟩) :
      Step py production s
        (s.setThread r (.working ⟨i, g, .judged directory verdict manifest⟩))
  | startReseal {s : State} {r i g : ℕ} {directory : Directory} {verdict : Verdict}
      {manifest : EvidenceManifest} {scan : Scan}
      (h : s.threads r = .working ⟨i, g, .judged directory verdict manifest⟩)
      (hscan : Scan.start s.disk directory = some scan) :
      Step py production s (s.setThread r (.working ⟨i, g, .resealing verdict manifest scan⟩))
  | reseal {s : State} {r i g : ℕ} {verdict : Verdict} {manifest : EvidenceManifest} {scan : Scan}
      {row : Row} (h : Writes s r (.resealing verdict manifest scan) i g row)
      (hdone : scan.pending = []) :
      Step py production s
        ((s.setRow i (row.sealed scan.read)).setThread r
          (.working ⟨i, g, .resealed verdict manifest⟩))
  | record {s : State} {r i g : ℕ} {verdict : Verdict} {manifest : EvidenceManifest} {row : Row}
      {stage : RunStage} (h : Writes s r (.resealed verdict manifest) i g row)
      (hvalid : isValidTransition row.stage stage = true) (hactive : stage ∉ terminalStages) :
      Step py production s
        ((s.setRow i (row.update stage (some (verdict, manifest)))).setThread r
          (.working ⟨i, g, .recorded verdict manifest⟩))
  | finish {s : State} {r i g : ℕ} {verdict : Verdict} {manifest : EvidenceManifest} {row : Row}
      (h : Writes s r (.recorded verdict manifest) i g row)
      (hvalid : isValidTransition row.stage .COMPLETED = true) :
      Step py production s
        ((s.setRow i (row.update .COMPLETED (some (verdict, manifest)))).setThread r .idle)
  | fail {s : State} {r i g : ℕ} {phase : Phase} {row : Row} (h : Writes s r phase i g row)
      (hvalid : isValidTransition row.stage .FAILED = true) :
      Step py production s ((s.setRow i (row.update .FAILED phase.judgement)).setThread r .idle)
  | vanish {s : State} {r : ℕ} {worker : Worker} (h : s.threads r = .working worker) :
      Step py production s (s.setThread r .idle)
  | revalidate {s : State} {r i : ℕ} {row : Row} {directory : Directory}
      (hidle : s.threads r = .idle) (hrow : s.rows[i]? = some row)
      (hterminal : row.stage ∈ terminalStages)
      (hbundle : row.generatedAppPath = some directory ∨ row.generatedAppPath = none) :
      Step py production s
        ((s.setRow i row.reset).setThread r
          (.launching i (row.validationGeneration + 1) (.validate directory)))
  | approve {s : State} {r i : ℕ} {row : Row} (hidle : s.threads r = .idle)
      (hrow : s.rows[i]? = some row) (hproven : Proven py row) :
      Step py production s (s.setThread r (.approving i row none))
  | openApproved {s : State} {r i : ℕ} {snapshot : Row} {directory : Directory} {scan : Scan}
      (h : s.threads r = .approving i snapshot none)
      (hbundle : snapshot.generatedAppPath = some directory)
      (hscan : Scan.start s.disk directory = some scan) :
      Step py production s (s.setThread r (.approving i snapshot (some scan)))
  | readApproved {s : State} {r i : ℕ} {snapshot : Row} {scan scan' : Scan}
      (h : s.threads r = .approving i snapshot (some scan)) (hnext : scan.next s.disk = some scan') :
      Step py production s (s.setThread r (.approving i snapshot (some scan')))
  | recordApproval {s : State} {r i : ℕ} {snapshot row : Row} {scan : Scan}
      (h : s.threads r = .approving i snapshot (some scan)) (hdone : scan.pending = [])
      (hmatches : Matches snapshot.generatedSeal scan.read) (hrow : s.rows[i]? = some row)
      (hgeneration : row.validationGeneration = snapshot.validationGeneration) :
      Step py production s
        ((s.setRow i (row.decided (.approved ⟨row.validationGeneration, some scan.directory, scan.read,
          s.disk scan.directory⟩))).setThread r .idle)
  | recordUnbundled {s : State} {r i : ℕ} {snapshot row : Row} (hproduction : production = false)
      (h : s.threads r = .approving i snapshot none) (hbundle : snapshot.generatedAppPath = none)
      (hrow : s.rows[i]? = some row)
      (hgeneration : row.validationGeneration = snapshot.validationGeneration) :
      Step py production s
        ((s.setRow i (row.decided (.approved ⟨row.validationGeneration, none, .empty, none⟩))).setThread
          r .idle)
  | reject {s : State} {i : ℕ} {row : Row} (hrow : s.rows[i]? = some row) :
      Step py production s (s.setRow i (row.decided .rejected))
  | download {s : State} {r i : ℕ} {row : Row} {check : Check} (hidle : s.threads r = .idle)
      (hrow : s.rows[i]? = some row) (happroved : row.approval = .approved check)
      (hproven : Proven py row) :
      Step py production s (s.setThread r (.downloading row none))
  | openDownload {s : State} {r : ℕ} {snapshot : Row} {directory : Directory} {scan : Scan}
      (h : s.threads r = .downloading snapshot none)
      (hbundle : snapshot.generatedAppPath = some directory)
      (hscan : Scan.start s.disk directory = some scan) :
      Step py production s (s.setThread r (.downloading snapshot (some scan)))
  | readDownload {s : State} {r : ℕ} {snapshot : Row} {scan scan' : Scan}
      (h : s.threads r = .downloading snapshot (some scan)) (hnext : scan.next s.disk = some scan') :
      Step py production s (s.setThread r (.downloading snapshot (some scan')))
  | serve {s : State} {r : ℕ} {snapshot : Row} {scan : Scan}
      (h : s.threads r = .downloading snapshot (some scan)) (hdone : scan.pending = [])
      (hmatches : Matches snapshot.generatedSeal scan.read) :
      Step py production s
        ((s.serve ⟨snapshot, scan.read⟩).setThread r .idle)
  | refuseApproval {s : State} {r i : ℕ} {snapshot : Row} {scan : Option Scan}
      (h : s.threads r = .approving i snapshot scan) : Step py production s (s.setThread r .idle)
  | refuseDownload {s : State} {r : ℕ} {snapshot : Row} {scan : Option Scan}
      (h : s.threads r = .downloading snapshot scan) : Step py production s (s.setThread r .idle)

/-! ### The law -/

/-- The archive holds the sealed files of a verified run, and the approval in force was recorded in the
same generation while the bundle on disk was the sealed one. -/
def ExportSound (py : Py.Rendering) (e : Served) : Prop :=
  Proven py e.row ∧ Matches e.row.generatedSeal e.archive ∧
    ∃ check files, e.row.approval = .approved check ∧
      check.generation = e.row.validationGeneration ∧ check.onDisk = some files ∧
        Matches e.row.generatedSeal files

/-- The archive holds the sealed files of a verified run, and the request that recorded the approval in
force has read, in the same generation, the sealed files from the bundle. -/
def ExportChecked (py : Py.Rendering) (e : Served) : Prop :=
  Proven py e.row ∧ Matches e.row.generatedSeal e.archive ∧
    ∃ check, e.row.approval = .approved check ∧
      check.generation = e.row.validationGeneration ∧ check.bundle = e.row.generatedAppPath ∧
        Matches e.row.generatedSeal check.seen

variable {py : Py.Rendering} {production : Bool} {s t : State} {r i g : ℕ} {row row' : Row}

/-! ### What every step keeps -/

/-- An approval in force was recorded in the generation of the row, for a verified run, and its request
has read the sealed files from the bundle. -/
def Row.Sound (py : Py.Rendering) (row : Row) : Prop :=
  ∀ check, row.approval = .approved check → check.generation = row.validationGeneration ∧
    Proven py row ∧ check.bundle = row.generatedAppPath ∧
      ∀ directory, row.generatedAppPath = some directory → Matches row.generatedSeal check.seen

/-- The row of a run with a worker that has stored a verdict, or none. -/
structure Owned (row : Row) (g : ℕ) (stored : Option (Verdict × EvidenceManifest)) : Prop where
  generation : row.validationGeneration = g
  active : row.stage ∉ terminalStages
  verdict : row.verdict = stored.map Prod.fst
  evidence : row.evidenceManifest = stored.map Prod.snd

/-- The row has been reset since the snapshot was taken, or holds the same verdict and bundle. -/
def Follows (snapshot row : Row) : Prop :=
  snapshot.validationGeneration < row.validationGeneration ∨
    snapshot.validationGeneration = row.validationGeneration ∧ row.verdict = snapshot.verdict ∧
      row.evidenceManifest = snapshot.evidenceManifest ∧
        row.generatedSeal = snapshot.generatedSeal ∧
          row.generatedAppPath = snapshot.generatedAppPath

/-- The run and the generation of a worker, with the verdict it has stored. -/
def Thread.owns : Thread → Option (ℕ × ℕ × Option (Verdict × EvidenceManifest))
  | .launching run generation _ => some (run, generation, none)
  | .working worker => some (worker.run, worker.generation, worker.phase.stored)
  | _ => none

/-- What a request or a worker relies on. -/
def Thread.Guarded (py : Py.Rendering) (rows : List Row) : Thread → Prop
  | .approving run snapshot scan => Proven py snapshot ∧
      (∃ row, rows[run]? = some row ∧ Follows snapshot row) ∧
        ∀ opened, scan = some opened → snapshot.generatedAppPath = some opened.directory
  | .downloading snapshot scan => snapshot.Sound py ∧ (∃ check, snapshot.approval = .approved check) ∧
      ∀ opened, scan = some opened → snapshot.generatedAppPath = some opened.directory
  | _ => True

/-- What is sealed and approved in a generation stays. -/
structure Guarded (py : Py.Rendering) (s : State) : Prop where
  rows : ∀ row ∈ s.rows, row.Sound py
  threads : ∀ r, (s.threads r).Guarded py s.rows
  /-- A worker has the generation of its run, which is active. -/
  owned : ∀ r i g stored, (s.threads r).owns = some (i, g, stored) →
    ∃ row, s.rows[i]? = some row ∧ Owned row g stored
  /-- A run has one worker. -/
  unique : ∀ r r' i g g' stored stored', (s.threads r).owns = some (i, g, stored) →
    (s.threads r').owns = some (i, g', stored') → r = r'
  served : ∀ e ∈ s.served, ExportChecked py e

theorem guarded_started (h : Started s) : Guarded py s := by
  obtain ⟨hrows, hidle, hserved⟩ := h
  refine ⟨?_, ?_, ?_, ?_, ?_⟩
  · simp [hrows]
  · intro r
    rw [hidle]
    trivial
  · intro r i g stored hr
    rw [hidle] at hr
    cases hr
  · intro r r' i g g' stored stored' hr
    rw [hidle] at hr
    cases hr
  · simp [hserved]

theorem Follows.refl (row : Row) : Follows row row :=
  .inr ⟨rfl, rfl, rfl, rfl, rfl⟩

theorem Follows.lt_of_unjudged {snapshot : Row} (h : Follows snapshot row)
    (hproven : Proven py snapshot) (hverdict : row.verdict = none) :
    snapshot.validationGeneration < row.validationGeneration := by
  obtain ⟨verdict, manifest, hv, -⟩ := hproven
  rcases h with h | ⟨-, h, -⟩
  · exact h
  · rw [hverdict, hv] at h
    cases h

theorem Row.Sound.not_approved (h : row.Sound py) (hverdict : row.verdict = none) (check : Check) :
    row.approval ≠ .approved check := by
  intro happroved
  obtain ⟨-, ⟨verdict, manifest, hv, -⟩, -⟩ := h check happroved
  rw [hverdict] at hv
  cases hv

theorem sound_of_not_approved (h : ∀ check, row.approval ≠ .approved check) : row.Sound py :=
  fun check happroved => absurd happroved (h check)

theorem getElem?_setRow {k : ℕ} (hrow : s.rows[i]? = some row) :
    (s.setRow i row').rows[k]? = if k = i then some row' else s.rows[k]? := by
  have hlt := (List.getElem?_eq_some_iff.1 hrow).1
  rw [State.setRow, List.getElem?_set]
  by_cases hik : i = k
  · rw [if_pos hik, if_pos hik.symm, if_pos hlt]
  · rw [if_neg hik, if_neg (Ne.symm hik)]

theorem Thread.Guarded.setRow {thread : Thread} (h : thread.Guarded py s.rows)
    (hrow : s.rows[i]? = some row)
    (hfollows : ∀ snapshot, Proven py snapshot → Follows snapshot row → Follows snapshot row') :
    thread.Guarded py (s.setRow i row').rows := by
  cases thread with
  | approving run snapshot scan =>
      obtain ⟨hproven, ⟨found, hfound, hfoll⟩, hscan⟩ := h
      refine ⟨hproven, ?_, hscan⟩
      rw [getElem?_setRow hrow]
      by_cases hrun : run = i
      · subst hrun
        rw [hrow] at hfound
        obtain rfl := Option.some.inj hfound
        exact ⟨row', if_pos rfl, hfollows snapshot hproven hfoll⟩
      · exact ⟨found, (if_neg hrun).trans hfound, hfoll⟩
  | idle | launching | working | downloading => exact h

/-- One thread goes on. -/
theorem Guarded.setThread {thread : Thread} (h : Guarded py s) (hthread : thread.Guarded py s.rows)
    (hfound : ∀ j g stored, thread.owns = some (j, g, stored) →
      ∃ row, s.rows[j]? = some row ∧ Owned row g stored)
    (halone : ∀ j g stored, thread.owns = some (j, g, stored) → ∀ k g' stored', k ≠ r →
      (s.threads k).owns ≠ some (j, g', stored')) :
    Guarded py (s.setThread r thread) := by
  refine ⟨h.rows, ?_, ?_, ?_, h.served⟩
  · intro k
    by_cases hk : k = r
    · simpa [State.setThread, hk] using hthread
    · simpa [State.setThread, hk] using h.threads k
  · intro k j g stored hk
    by_cases hkr : k = r
    · simp only [State.setThread, if_pos hkr] at hk
      exact hfound j g stored hk
    · simp only [State.setThread, if_neg hkr] at hk
      exact h.owned k j g stored hk
  · intro k k' j g g' stored stored' hk hk'
    by_cases hkr : k = r <;> by_cases hkr' : k' = r
    · exact hkr.trans hkr'.symm
    · simp only [State.setThread, if_pos hkr, if_neg hkr'] at hk hk'
      exact absurd hk' (halone j g stored hk k' g' stored' hkr')
    · simp only [State.setThread, if_neg hkr, if_pos hkr'] at hk hk'
      exact absurd hk (halone j g' stored' hk' k g stored hkr)
    · simp only [State.setThread, if_neg hkr, if_neg hkr'] at hk hk'
      exact h.unique k k' j g g' stored stored' hk hk'

theorem Guarded.proceed {thread : Thread} (h : Guarded py s) (hthread : thread.Guarded py s.rows)
    (howns : ∀ o, thread.owns = some o → (s.threads r).owns = some o) :
    Guarded py (s.setThread r thread) := by
  refine h.setThread hthread ?_ ?_
  · intro j g stored ho
    exact h.owned r j g stored (howns _ ho)
  · intro j g stored ho k g' stored' hk hother
    exact hk (h.unique k r j g' g stored' stored hother (howns _ ho))

theorem Guarded.idle (h : Guarded py s) : Guarded py (s.setThread r .idle) :=
  h.proceed trivial fun _ ho => nomatch ho

theorem Guarded.setRow (h : Guarded py s) (hrow : s.rows[i]? = some row) (hsound : row'.Sound py)
    (hfollows : ∀ snapshot, Proven py snapshot → Follows snapshot row → Follows snapshot row')
    (howned : ∀ k g stored, (s.threads k).owns = some (i, g, stored) → Owned row' g stored) :
    Guarded py (s.setRow i row') := by
  refine ⟨?_, ?_, ?_, h.unique, h.served⟩
  · intro a ha
    rcases List.mem_or_eq_of_mem_set ha with ha | rfl
    · exact h.rows a ha
    · exact hsound
  · intro k
    exact (h.threads k).setRow hrow hfollows
  · intro k j g stored hk
    rw [getElem?_setRow hrow]
    by_cases hj : j = i
    · subst hj
      exact ⟨row', if_pos rfl, howned k g stored hk⟩
    · obtain ⟨found, hfound, hof⟩ := h.owned k j g stored hk
      exact ⟨found, (if_neg hj).trans hfound, hof⟩

theorem setThread_setThread (thread thread' : Thread) :
    (s.setThread r thread).setThread r thread' = s.setThread r thread' := by
  simp only [State.setThread]
  congr 1
  funext k
  by_cases hk : k = r <;> simp [hk]

/-- A thread writes the row of a run that no other thread owns. -/
theorem Guarded.write {thread : Thread} (h : Guarded py s) (hrow : s.rows[i]? = some row)
    (halone : ∀ k g stored, k ≠ r → (s.threads k).owns ≠ some (i, g, stored))
    (hsound : row'.Sound py)
    (hfollows : ∀ snapshot, Proven py snapshot → Follows snapshot row → Follows snapshot row')
    (hthread : ∀ rows, thread.Guarded py rows)
    (howned : ∀ j g stored, thread.owns = some (j, g, stored) → j = i ∧ Owned row' g stored) :
    Guarded py ((s.setRow i row').setThread r thread) := by
  -- the thread leaves the run, writes and takes it again
  have hleft : Guarded py ((s.setThread r .idle).setRow i row') := by
    refine h.idle.setRow hrow hsound hfollows ?_
    intro k g stored hk
    by_cases hkr : k = r
    · simp only [State.setThread, if_pos hkr] at hk
      cases hk
    · simp only [State.setThread, if_neg hkr] at hk
      exact absurd hk (halone k g stored hkr)
  have hset : (s.setRow i row').setThread r thread =
      ((s.setThread r .idle).setRow i row').setThread r thread :=
    (setThread_setThread (s := s.setRow i row') .idle thread).symm
  rw [hset]
  refine hleft.setThread (hthread _) ?_ ?_
  · intro j g stored ho
    obtain ⟨rfl, hof⟩ := howned j g stored ho
    exact ⟨row', by rw [getElem?_setRow (s := s.setThread r .idle) hrow, if_pos rfl], hof⟩
  · intro j g stored ho k g' stored' hkr hother
    obtain ⟨rfl, -⟩ := howned j g stored ho
    simp only [State.setThread, State.setRow, if_neg hkr] at hother
    exact halone k g' stored' hkr hother

/-! ### Writes of a worker -/

theorem Owned.sound_of_unjudged (howned : Owned row g none) (hsound : row.Sound py)
    (happroval : row'.approval = row.approval) : row'.Sound py := by
  refine sound_of_not_approved fun check hc => ?_
  exact hsound.not_approved howned.verdict check (happroval ▸ hc)

theorem Owned.follows_of_unjudged {snapshot : Row} (howned : Owned row g none)
    (hgeneration : row'.validationGeneration = row.validationGeneration)
    (hproven : Proven py snapshot) (h : Follows snapshot row) : Follows snapshot row' :=
  .inl (hgeneration ▸ h.lt_of_unjudged hproven howned.verdict)

theorem Phase.stored_none_or (phase : Phase) :
    phase.stored = none ∨ phase.stored = phase.judgement := by
  cases phase <;> simp [stored, judgement]

variable {stored judgement : Option (Verdict × EvidenceManifest)} {stage : RunStage}

theorem Owned.update_of_eq (howned : Owned row g stored) :
    row.update stage stored = { row with stage } := by
  rw [Row.update, ← howned.verdict, ← howned.evidence]

theorem Owned.update_sound (howned : Owned row g stored) (hsound : row.Sound py)
    (h : stored = none ∨ stored = judgement) : (row.update stage judgement).Sound py := by
  rcases h with rfl | rfl
  · exact howned.sound_of_unjudged hsound rfl
  · rw [howned.update_of_eq]
    exact hsound

theorem Owned.update_follows {snapshot : Row} (howned : Owned row g stored)
    (h : stored = none ∨ stored = judgement) (hproven : Proven py snapshot)
    (hfollows : Follows snapshot row) : Follows snapshot (row.update stage judgement) := by
  rcases h with rfl | rfl
  · exact howned.follows_of_unjudged rfl hproven hfollows
  · rw [howned.update_of_eq]
    exact hfollows

theorem Writes.owned {phase : Phase} (hw : Writes s r phase i g row) (h : Guarded py s) :
    Owned row g phase.stored := by
  have howns : (s.threads r).owns = some (i, g, phase.stored) := by
    rw [hw.works]
    rfl
  obtain ⟨found, hfound, hof⟩ := h.owned r i g _ howns
  rw [hw.found] at hfound
  obtain rfl := Option.some.inj hfound
  exact hof

theorem Guarded.alone (h : Guarded py s) (howns : (s.threads r).owns = some (i, g, stored)) (k g' : ℕ)
    (stored' : Option (Verdict × EvidenceManifest)) (hk : k ≠ r) :
    (s.threads k).owns ≠ some (i, g', stored') :=
  fun hother => hk (h.unique k r i g' g stored' stored hother howns)

theorem Writes.alone {phase : Phase} (hw : Writes s r phase i g row) (h : Guarded py s) (k g' : ℕ)
    (stored' : Option (Verdict × EvidenceManifest)) (hk : k ≠ r) :
    (s.threads k).owns ≠ some (i, g', stored') := by
  have howns : (s.threads r).owns = some (i, g, phase.stored) := by
    rw [hw.works]
    rfl
  exact h.alone howns k g' stored' hk

/-! ### One step -/

theorem Phase.next_stored {disk : Directory → Option Files} {phase phase' : Phase}
    (h : phase.next disk = some phase') : phase'.stored = phase.stored := by
  cases phase with
  | sealing | resealing =>
      obtain ⟨scan, -, rfl⟩ := Option.map_eq_some_iff.1 h
      rfl
  | _ => cases h

theorem Phase.stored_of_reports {phase : Phase} (h : phase.reports = true) : phase.stored = none := by
  cases phase <;> first | rfl | cases h

theorem Guarded.decide {approval : Approval} (h : Guarded py s) (hrow : s.rows[i]? = some row)
    (hsound : (row.decided approval).Sound py) : Guarded py (s.setRow i (row.decided approval)) := by
  refine h.setRow hrow hsound (fun _ _ hf => hf) ?_
  intro k g stored hk
  obtain ⟨found, hfound, hof⟩ := h.owned k i g stored hk
  rw [hrow] at hfound
  obtain rfl := Option.some.inj hfound
  exact ⟨hof.generation, hof.active, hof.verdict, hof.evidence⟩

/-- A row of a new run. -/
theorem Guarded.addRow (h : Guarded py s) : Guarded py (s.addRow newRow) := by
  have hkept : ∀ (j : ℕ) (found : Row), s.rows[j]? = some found →
      (s.addRow newRow).rows[j]? = some found := by
    intro j found hfound
    have hlt := (List.getElem?_eq_some_iff.1 hfound).1
    rw [State.addRow, List.getElem?_append_left hlt, hfound]
  refine ⟨?_, ?_, ?_, h.unique, h.served⟩
  · intro a ha
    rcases List.mem_append.1 ha with ha | ha
    · exact h.rows a ha
    · rw [List.mem_singleton.1 ha]
      exact sound_of_not_approved fun check hc => nomatch hc
  · intro k
    have hk := h.threads k
    cases hthread : s.threads k with
    | approving run snapshot scan =>
        rw [hthread] at hk
        obtain ⟨hproven, ⟨found, hfound, hfollows⟩, hscan⟩ := hk
        simp only [State.addRow, hthread]
        exact ⟨hproven, ⟨found, hkept run found hfound, hfollows⟩, hscan⟩
    | idle | launching | working => simp only [State.addRow, hthread, Thread.Guarded]
    | downloading =>
        rw [hthread] at hk
        simp only [State.addRow, hthread]
        exact hk
  · intro k j g stored hk
    obtain ⟨found, hfound, hof⟩ := h.owned k j g stored hk
    exact ⟨found, hkept j found hfound, hof⟩

theorem Guarded.work {phase phase' : Phase} (h : Guarded py s)
    (hr : s.threads r = .working ⟨i, g, phase⟩) (hstored : phase'.stored = phase.stored) :
    Guarded py (s.setThread r (.working ⟨i, g, phase'⟩)) := by
  refine h.proceed trivial fun o ho => ?_
  rw [hr]
  simpa [Thread.owns, hstored] using ho

/-- **One step** keeps what is sealed and approved in a generation. -/
theorem guarded_step (h : Guarded py s) (hstep : Step py production s t) : Guarded py t := by
  cases hstep with
  | changeDisk disk => exact ⟨h.rows, h.threads, h.owned, h.unique, h.served⟩
  | @modernize r start hidle =>
      refine h.addRow.setThread trivial ?_ ?_
      · rintro j g stored ho
        obtain ⟨rfl, rfl, rfl⟩ : s.rows.length = j ∧ 0 = g ∧ none = stored := by
          simpa [Thread.owns] using ho
        exact ⟨newRow, by simp [State.addRow], rfl, by decide, rfl, rfl⟩
      · rintro j g stored ho k g' stored' hk hother
        obtain ⟨rfl, -⟩ : s.rows.length = j ∧ _ := by simpa [Thread.owns] using ho
        -- the position is new
        obtain ⟨found, hfound, -⟩ := h.owned k _ g' stored' hother
        exact absurd (List.getElem?_eq_some_iff.1 hfound).1 (lt_irrefl _)
  | @launch r i g start hr =>
      refine h.proceed trivial fun o ho => ?_
      rw [hr]
      cases start <;> exact ho
  | @launchFails r i g start row hr hrow hgeneration hvalid =>
      have howns : (s.threads r).owns = some (i, g, none) := by
        rw [hr]
        rfl
      obtain ⟨found, hfound, howned⟩ := h.owned r i g none howns
      rw [hrow] at hfound
      obtain rfl := Option.some.inj hfound
      refine h.write hrow (h.alone howns) ?_ ?_ (fun _ => trivial) fun _ _ _ ho => nomatch ho
      · exact howned.update_sound (h.rows row (List.mem_of_getElem? hrow)) (.inl rfl)
      · exact fun _ hproven hf => howned.update_follows (.inl rfl) hproven hf
  | launchLost => exact h.idle
  | @advance r i g phase row stage hw hreports hvalid hactive =>
      have howned := hw.owned h
      rw [Phase.stored_of_reports hreports] at howned
      refine h.setRow hw.found ?_ ?_ ?_
      · exact howned.update_sound (h.rows row (List.mem_of_getElem? hw.found)) (.inl rfl)
      · exact fun _ hproven hf => howned.update_follows (.inl rfl) hproven hf
      · intro k g' stored hk
        obtain rfl : k = r := by
          by_contra hkr
          exact hw.alone h k g' stored hkr hk
        rw [hw.works] at hk
        obtain ⟨rfl, rfl⟩ : g = g' ∧ phase.stored = stored := by simpa [Thread.owns] using hk
        rw [Phase.stored_of_reports hreports]
        exact ⟨howned.generation, hactive, rfl, rfl⟩
  | startSeal hr => exact h.work hr rfl
  | readSealed hr hnext => exact h.work hr (Phase.next_stored hnext)
  | @setGeneratedSeal r i g scan row hw hdone =>
      have howned := hw.owned h
      refine h.write hw.found (hw.alone h) ?_ ?_ (fun _ => trivial) ?_
      · exact howned.sound_of_unjudged (h.rows row (List.mem_of_getElem? hw.found)) rfl
      · exact fun _ hproven hf => howned.follows_of_unjudged rfl hproven hf
      · rintro j g' stored ho
        obtain ⟨rfl, rfl, rfl⟩ : i = j ∧ g = g' ∧ none = stored := by
          simpa [Thread.owns, Phase.stored] using ho
        exact ⟨rfl, howned.generation, howned.active, howned.verdict, howned.evidence⟩
  | @setRunGenerated r i g directory row hw =>
      have howned := hw.owned h
      refine h.write hw.found (hw.alone h) ?_ ?_ (fun _ => trivial) ?_
      · exact howned.sound_of_unjudged (h.rows row (List.mem_of_getElem? hw.found)) rfl
      · exact fun _ hproven hf => howned.follows_of_unjudged rfl hproven hf
      · rintro j g' stored ho
        obtain ⟨rfl, rfl, rfl⟩ : i = j ∧ g = g' ∧ none = stored := by
          simpa [Thread.owns, Phase.stored] using ho
        exact ⟨rfl, howned.generation, howned.active, howned.verdict, howned.evidence⟩
  | judge _ _ hr => exact h.work hr rfl
  | startReseal hr => exact h.work hr rfl
  | @reseal r i g verdict manifest scan row hw hdone =>
      have howned := hw.owned h
      refine h.write hw.found (hw.alone h) ?_ ?_ (fun _ => trivial) ?_
      · exact howned.sound_of_unjudged (h.rows row (List.mem_of_getElem? hw.found)) rfl
      · exact fun _ hproven hf => howned.follows_of_unjudged rfl hproven hf
      · rintro j g' stored ho
        obtain ⟨rfl, rfl, rfl⟩ : i = j ∧ g = g' ∧ none = stored := by
          simpa [Thread.owns, Phase.stored] using ho
        exact ⟨rfl, howned.generation, howned.active, howned.verdict, howned.evidence⟩
  | @record r i g verdict manifest row stage hw hvalid hactive =>
      have howned := hw.owned h
      refine h.write hw.found (hw.alone h) ?_ ?_ (fun _ => trivial) ?_
      · exact howned.update_sound (h.rows row (List.mem_of_getElem? hw.found)) (.inl rfl)
      · exact fun _ hproven hf => howned.update_follows (.inl rfl) hproven hf
      · rintro j g' stored ho
        obtain ⟨rfl, rfl, rfl⟩ : i = j ∧ g = g' ∧ some (verdict, manifest) = stored := by
          simpa [Thread.owns, Phase.stored] using ho
        exact ⟨rfl, howned.generation, hactive, rfl, rfl⟩
  | @finish r i g verdict manifest row hw hvalid =>
      have howned := hw.owned h
      refine h.write hw.found (hw.alone h) ?_ ?_ (fun _ => trivial) fun _ _ _ ho => nomatch ho
      · exact howned.update_sound (h.rows row (List.mem_of_getElem? hw.found)) (.inr rfl)
      · exact fun _ hproven hf => howned.update_follows (.inr rfl) hproven hf
  | @fail r i g phase row hw hvalid =>
      have howned := hw.owned h
      refine h.write hw.found (hw.alone h) ?_ ?_ (fun _ => trivial) fun _ _ _ ho => nomatch ho
      · exact howned.update_sound (h.rows row (List.mem_of_getElem? hw.found)) phase.stored_none_or
      · exact fun _ hproven hf => howned.update_follows phase.stored_none_or hproven hf
  | vanish => exact h.idle
  | @revalidate r i row directory hidle hrow hterminal hbundle =>
      -- a worker would own an active run
      have halone : ∀ k g stored, (s.threads k).owns ≠ some (i, g, stored) := by
        intro k g stored hk
        obtain ⟨found, hfound, howned⟩ := h.owned k i g stored hk
        rw [hrow] at hfound
        obtain rfl := Option.some.inj hfound
        exact howned.active hterminal
      refine h.write hrow (fun k g stored _ => halone k g stored) ?_ ?_ (fun _ => trivial) ?_
      · exact sound_of_not_approved fun check hc => nomatch hc
      · rintro snapshot - hf
        refine .inl ?_
        rcases hf with hf | ⟨hf, -⟩
        · exact Nat.lt_succ_of_lt hf
        · exact Nat.lt_succ_of_le hf.le
      · rintro j g stored ho
        obtain ⟨rfl, rfl, rfl⟩ : i = j ∧ row.validationGeneration + 1 = g ∧ none = stored := by
          simpa [Thread.owns] using ho
        have hactive : RunStage.CREATED ∉ terminalStages := by decide
        exact ⟨rfl, rfl, hactive, rfl, rfl⟩
  | @approve r i row hidle hrow hproven =>
      refine h.proceed ⟨hproven, ⟨row, hrow, .refl row⟩, ?_⟩ fun _ ho => nomatch ho
      intro opened ho
      cases ho
  | @openApproved r i snapshot directory scan hr hbundle hscan =>
      have hthread := h.threads r
      rw [hr] at hthread
      obtain ⟨hproven, hfound, -⟩ := hthread
      refine h.proceed ⟨hproven, hfound, ?_⟩ fun _ ho => nomatch ho
      intro opened ho
      obtain rfl := Option.some.inj ho
      rw [hbundle, Scan.start_directory hscan]
  | @readApproved r i snapshot scan scan' hr hnext =>
      have hthread := h.threads r
      rw [hr] at hthread
      obtain ⟨hproven, hfound, hopened⟩ := hthread
      refine h.proceed ⟨hproven, hfound, ?_⟩ fun _ ho => nomatch ho
      intro opened ho
      obtain rfl := Option.some.inj ho
      rw [hopened scan rfl, Scan.next_directory hnext]
  | @recordApproval r i snapshot row scan hr hdone hmatches hrow hgeneration =>
      have hthread := h.threads r
      rw [hr] at hthread
      obtain ⟨hproven, ⟨found, hfound, hf⟩, hopened⟩ := hthread
      rw [hrow] at hfound
      obtain rfl := Option.some.inj hfound
      refine (h.decide hrow fun check hc => ?_).idle
      obtain rfl := Approval.approved.inj hc
      -- the row has not been reset since the request has read it
      rcases hf with hlt | ⟨-, hverdict, hevidence, hseal, hpath⟩
      · exact absurd hlt (hgeneration ▸ lt_irrefl _)
      · obtain ⟨verdict, manifest, hv, hm, hrest⟩ := hproven
        refine ⟨rfl, ⟨verdict, manifest, hverdict.trans hv, hevidence.trans hm, hrest⟩, ?_, ?_⟩
        · exact ((hpath.trans (hopened scan rfl))).symm
        · rintro directory -
          show Matches row.generatedSeal scan.read
          rw [hseal]
          exact hmatches
  | @recordUnbundled r i snapshot row hproduction hr hbundle hrow hgeneration =>
      have hthread := h.threads r
      rw [hr] at hthread
      obtain ⟨hproven, ⟨found, hfound, hf⟩, -⟩ := hthread
      rw [hrow] at hfound
      obtain rfl := Option.some.inj hfound
      refine (h.decide hrow fun check hc => ?_).idle
      obtain rfl := Approval.approved.inj hc
      rcases hf with hlt | ⟨-, hverdict, hevidence, -, hpath⟩
      · exact absurd hlt (hgeneration ▸ lt_irrefl _)
      · obtain ⟨verdict, manifest, hv, hm, hrest⟩ := hproven
        have hnone : row.generatedAppPath = none := hpath.trans hbundle
        refine ⟨rfl, ⟨verdict, manifest, hverdict.trans hv, hevidence.trans hm, hrest⟩, hnone.symm,
          ?_⟩
        intro directory hdirectory
        rw [Row.decided, hnone] at hdirectory
        cases hdirectory
  | reject hrow =>
      exact h.decide hrow (sound_of_not_approved fun check hc => nomatch hc)
  | @download r i row check hidle hrow happroved hproven =>
      refine h.proceed ⟨h.rows row (List.mem_of_getElem? hrow), ⟨check, happroved⟩, ?_⟩
        fun _ ho => nomatch ho
      intro opened ho
      cases ho
  | @openDownload r snapshot directory scan hr hbundle hscan =>
      have hthread := h.threads r
      rw [hr] at hthread
      obtain ⟨hsound, happroved, -⟩ := hthread
      refine h.proceed ⟨hsound, happroved, ?_⟩ fun _ ho => nomatch ho
      intro opened ho
      obtain rfl := Option.some.inj ho
      rw [hbundle, Scan.start_directory hscan]
  | @readDownload r snapshot scan scan' hr hnext =>
      have hthread := h.threads r
      rw [hr] at hthread
      obtain ⟨hsound, happroved, hopened⟩ := hthread
      refine h.proceed ⟨hsound, happroved, ?_⟩ fun _ ho => nomatch ho
      intro opened ho
      obtain rfl := Option.some.inj ho
      rw [hopened scan rfl, Scan.next_directory hnext]
  | @serve r snapshot scan hr hdone hmatches =>
      have hthread := h.threads r
      rw [hr] at hthread
      obtain ⟨hsound, ⟨check, happroved⟩, hopened⟩ := hthread
      have hserved : Guarded py (s.serve ⟨snapshot, scan.read⟩) := by
        refine ⟨h.rows, h.threads, h.owned, h.unique, ?_⟩
        intro e he
        rcases List.mem_append.1 he with he | he
        · exact h.served e he
        · rw [List.mem_singleton.1 he]
          obtain ⟨hgeneration, hproven, hbundle, hseen⟩ := hsound check happroved
          exact ⟨hproven, hmatches, check, happroved, hgeneration, hbundle,
            hseen _ (hopened scan rfl)⟩
      exact hserved.idle
  | refuseApproval => exact h.idle
  | refuseDownload => exact h.idle

/-- The states reached in any interleaving. -/
def Reachable (py : Py.Rendering) (production : Bool) : State → Prop :=
  Interleaving.Reachable Started fun s (_ : Unit) t => Step py production s t

theorem Reachable.next (h : Reachable py production s) (hstep : Step py production s t) :
    Reachable py production t :=
  Interleaving.Reachable.next (a := ()) h hstep

theorem guarded_of_reachable (h : Reachable py production s) : Guarded py s :=
  Interleaving.Reachable.invariant h (fun _ hs => guarded_started hs)
    fun _ _ _ hs hstep => guarded_step hs hstep

/-- **Every archive served** holds the sealed files of a verified run, whose approval was recorded in
the same generation by a request that has read the sealed files from the bundle. -/
theorem exportChecked_of_reachable (h : Reachable py production s) :
    ∀ e ∈ s.served, ExportChecked py e :=
  (guarded_of_reachable h).served

/-! ### A substitution during an approval -/

def bundle : Files := ⟨[("App.java", [0x41])], List.pairwise_singleton _ _⟩

theorem payroll_ne : "payroll" ≠ "" := by decide

/-- The verdict on `Sample.matching`. -/
def verified : Verdict where
  state := .VERIFIED
  workloadId := ⟨"payroll", payroll_ne⟩
  runId := "run-1"
  sourceHash := ""
  candidateHash := none
  oracleId := "gnucobol-3.1.2"
  oracleDigest := "sha256:abc"
  executedCheckCount := 1
  skippedCount := 0
  unavailableCount := 0
  supportedScopeStatement := ""
  evidenceManifestHash := Sample.matching.manifestHash.toStr
  derivationTimestamp := "t3"
  differences := []

theorem proven_verified {row : Row} (hverdict : row.verdict = some verified)
    (hevidence : row.evidenceManifest = some Sample.matching) : Proven Sample.plain row := by
  refine ⟨verified, Sample.matching, hverdict, hevidence, rfl, rfl, ?_⟩
  have hnone : bindingViolations Sample.plain Sample.matching = [] ∧
      validateRequiredEvidence Sample.plain Sample.matching = [] := by decide
  exact violations_eq_nil.2 ⟨bound_iff.1 hnone, Sample.manifest_sealed _ _⟩

/-- The scan of the bundle when its file is listed. -/
def listed : Scan := ⟨0, ["App.java"], []⟩

/-- The same scan when the file is read. -/
def scanned : Scan := ⟨0, [], [("App.java", [0x41])]⟩

theorem start_listed : Scan.start (fun _ => some bundle) 0 = some listed := rfl

theorem next_listed : listed.next (fun _ => some bundle) = some scanned := by
  simp [Scan.next, listed, scanned, bundle, PyDict.get?]

theorem read_scanned : scanned.read = bundle := by
  decide

/-- A run is generated, verified and approved while its bundle is replaced, and its archive served when
the bundle is back. -/
theorem served_substituted : ∃ s, Reachable Sample.plain true s ∧
    ∃ e ∈ s.served, ∃ check, e.row.approval = .approved check ∧ check.onDisk = some .empty ∧
      e.row.generatedSeal = some (computeGeneratedSeal bundle) := by
  have h : Reachable Sample.plain true ⟨fun _ => some bundle, [], fun _ => .idle, []⟩ :=
    .of_start ⟨rfl, fun _ => rfl, rfl⟩
  -- the worker generates, seals and validates the bundle
  have h := h.next (.modernize (r := 0) .generate rfl)
  have h := h.next (.launch (r := 0) rfl)
  have h := h.next (.startSeal (r := 0) rfl start_listed)
  have h := h.next (.readSealed (r := 0) rfl (congrArg (Option.map Phase.sealing) next_listed))
  have h := h.next (.setGeneratedSeal (r := 0) ⟨rfl, rfl, rfl⟩ rfl)
  have h := h.next (.setRunGenerated (r := 0) ⟨rfl, rfl, rfl⟩)
  have h := h.next (.judge (r := 0) verified Sample.matching rfl)
  have h := h.next (.startReseal (r := 0) rfl start_listed)
  have h := h.next (.readSealed (r := 0) rfl
    (congrArg (Option.map (Phase.resealing verified Sample.matching)) next_listed))
  have h := h.next (.reseal (r := 0) ⟨rfl, rfl, rfl⟩ rfl)
  have hvalid : isValidTransition .CREATED .VALIDATING_EVIDENCE = true := rfl
  have h := h.next (.record (r := 0) ⟨rfl, rfl, rfl⟩ hvalid (by decide))
  have h := h.next (.finish (r := 0) ⟨rfl, rfl, rfl⟩ rfl)
  -- the bundle that is approved is replaced before the approval is recorded
  have h := h.next (.approve (r := 0) (i := 0) rfl rfl (proven_verified rfl rfl))
  have h := h.next (.openApproved (r := 0) rfl rfl start_listed)
  have h := h.next (.readApproved (r := 0) rfl next_listed)
  have h := h.next (.changeDisk fun _ => some .empty)
  have h := h.next (.recordApproval (r := 0) (i := 0) rfl rfl (matches_computeGeneratedSeal _) rfl
    rfl)
  -- then the bundle is back
  have h := h.next (.changeDisk fun _ => some bundle)
  have h := h.next (.download (r := 0) (i := 0) rfl rfl rfl (proven_verified rfl rfl))
  have h := h.next (.openDownload (r := 0) rfl rfl start_listed)
  have h := h.next (.readDownload (r := 0) rfl next_listed)
  have h := h.next (.serve (r := 0) rfl rfl (matches_computeGeneratedSeal _))
  exact ⟨_, h, _, List.mem_singleton_self _, _, rfl, rfl, by rw [← read_scanned]; rfl⟩

/-- An archive is served. -/
theorem exportChecked_substituted : ∃ s, Reachable Sample.plain true s ∧ s.served ≠ [] ∧
    ∀ e ∈ s.served, ExportChecked Sample.plain e := by
  obtain ⟨s, h, e, he, -⟩ := served_substituted
  exact ⟨s, h, List.ne_nil_of_mem he, exportChecked_of_reachable h⟩

/-- The bundle need not match the seal when the approval is recorded. -/
theorem substituted_bundle_not_sound :
    ¬ ∀ py production s, Reachable py production s → ∀ e ∈ s.served, ExportSound py e := by
  intro hsound
  obtain ⟨s, h, e, he, check, happroved, hdisk, hseal⟩ := served_substituted
  obtain ⟨-, -, check', files, happroved', -, hfiles, recorded, hrecorded, -, hdigests⟩ :=
    hsound _ _ s h e he
  obtain rfl := Approval.approved.inj (happroved.symm.trans happroved')
  obtain rfl := Option.some.inj (hdisk.symm.trans hfiles)
  obtain rfl := Option.some.inj (hseal.symm.trans hrecorded)
  have hkeys : (PyDict.empty : PyDict String).keys = (bundle.map Sha256.hexdigest).keys :=
    congrArg PyDict.keys hdigests
  cases hkeys

end CobolJava.Service.Export
