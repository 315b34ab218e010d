/-
**Files that an execution left behind.**

`engine/execution/workspace_files.py`: the files of the output mount and of the working directory,
collected into one dict under the key of the file.  The trees do not change while they are read.

Main definitions:

* `Root` — what stands where a mount is expected;
* `readSandboxFile`, `walkRegularFiles`, `collectGeneratedFiles` — the functions;
* `effects` — the regular files that a run is to be judged by;
* `CollectsAll` — a map that is returned has each of them under a key of its own;
* `Refused`, `Apart` — what raises, and trees whose keys differ.

Main results:

* `collectGeneratedFiles_isOk_iff` — when a map is returned;
* `collectsAll_iff` — **when no file effect is lost**.
-/

import Mathlib
import CobolJava.Lib.WalkedTree

set_option autoImplicit false

namespace CobolJava.WorkspaceFiles

open WalkedTree

/-! ### The functions -/

/-- `MAX_SANDBOX_FILE_BYTES` -/
def maxSandboxFileBytes : ℕ := 64 * 1024 * 1024

/-- `MAX_SANDBOX_TOTAL_BYTES` -/
def maxSandboxTotalBytes : ℕ := 256 * 1024 * 1024

/-- `WORKSPACE_PREFIX`, without its `/`. -/
def workspaceName : Name := "workspace".toList

/-- The reasons of `UnsafeSandboxOutput`. -/
inductive UnsafeSandboxOutput
  | linkedDirectory (name : Name)
  | symbolicLink (name : Name)
  | specialFile (name : Name)
  | notOpened (name : Name)
  | tooLarge (name : Name) (size limit : ℕ)
  | totalTooLarge (limit : ℕ)
deriving DecidableEq

/-- `read_sandbox_file` -/
def readSandboxFile (name : Name) : Node UInt8 → Except UnsafeSandboxOutput (List UInt8)
  | .link _ => .error (.symbolicLink name)
  | .special => .error (.specialFile name)
  | .dir _ _ => .error (.specialFile name)
  | .file content readable =>
      if readable then
        if content.length > maxSandboxFileBytes then
          .error (.tooLarge name content.length maxSandboxFileBytes)
        else .ok content
      else .error (.notOpened name)

/-- The loop of `_walk_regular_files` over the steps of `os.walk`. -/
def foundFiles : List (Step UInt8) → Except UnsafeSandboxOutput (List (Path × Node UInt8))
  | [] => .ok []
  | step :: steps =>
      match step.dirs.find? fun e => e.2.isLinkedDir with
      | some e => .error (.linkedDirectory e.1)
      | none => do
          let found ← foundFiles steps
          pure (step.found ++ found)

/-- `_walk_regular_files` -/
def walkRegularFiles (root : Node UInt8) :
    Except UnsafeSandboxOutput (List (Path × Node UInt8)) := do
  let found ← foundFiles (walk [] root)
  pure (found.insertionSort fun a b => a.1 ≤ b.1)

/-- The state of `collect_generated_files`: the bytes read, and the dict. -/
structure Collected where
  total : ℕ
  files : List Char → Option (List UInt8)

/-- `_take` on one file after another. -/
def takeAll : List (List Char × Path × Node UInt8) → Collected →
    Except UnsafeSandboxOutput Collected
  | [], state => .ok state
  | (key, path, node) :: entries, state => do
      let data ← readSandboxFile (path.getLastD []) node
      let total := state.total + data.length
      if total > maxSandboxTotalBytes then .error (.totalTooLarge maxSandboxTotalBytes)
      else takeAll entries ⟨total, Function.update state.files key (some data)⟩

/-- What stands under the path of a mount; a linked root is a link to a directory. -/
inductive Root
  | absent
  | linked (listable : Bool) (entries : Entries UInt8)
  | directory (listable : Bool) (entries : Entries UInt8)

/-- The tree that is walked for the output mount, which is not followed when it is a link. -/
def Root.outputTree : Root → Option (Node UInt8)
  | .directory listable entries => some (.dir listable entries)
  | _ => none

/-- The tree that is walked for the working directory. -/
def Root.workspaceTree : Root → Option (Node UInt8)
  | .absent => none
  | .linked listable entries => some (.dir listable entries)
  | .directory listable entries => some (.dir listable entries)

/-- A path that is not below a mount point. -/
def outside (mountPoints : List Name) (path : Path) : Bool :=
  path.head?.all fun name => !mountPoints.contains name

/-- The key of an output file, and that of a file of the working directory. -/
def outputKey (path : Path) : List Char := posix path
def workspaceKey (path : Path) : List Char := workspaceName ++ '/' :: posix path

/-- The files of a tree that may be absent. -/
def walkTree (tree : Option (Node UInt8)) : Except UnsafeSandboxOutput (List (Path × Node UInt8)) :=
  tree.elim (.ok []) walkRegularFiles

/-- `collect_generated_files` -/
def collectGeneratedFiles (output workspace : Root) (mountPoints : List Name) :
    Except UnsafeSandboxOutput (List Char → Option (List UInt8)) := do
  let found ← walkTree output.outputTree
  let state ← takeAll (found.map fun e => (outputKey e.1, e)) ⟨0, fun _ => none⟩
  let found ← walkTree workspace.workspaceTree
  let state ← takeAll ((found.filter fun e => outside mountPoints e.1).map fun e =>
    (workspaceKey e.1, e)) state
  pure state.files

/-! ### What is to be collected -/

/-- The regular files of a root; those of a link are not its own. -/
def Root.regularFiles : Root → List (Path × List UInt8)
  | .directory _ entries => filesBelow entries
  | _ => []

/-- No link, no special file, and no directory that cannot be listed. -/
def Root.isClean : Root → Bool
  | .absent => true
  | .linked _ _ => false
  | .directory listable entries => listable && cleanBelow entries

def Root.WellFormed : Root → Prop
  | .absent => True
  | .linked _ entries => WellFormedBelow entries
  | .directory _ entries => WellFormedBelow entries

/-- **The file effects of a run**: the regular files of the output mount (`true`), and those of the
working directory outside the mount points (`false`). -/
def effects (output workspace : Root) (mountPoints : List Name) :
    List ((Bool × Path) × List UInt8) :=
  (output.regularFiles.map fun f => ((true, f.1), f.2)) ++
    ((workspace.regularFiles.filter fun f => outside mountPoints f.1).map fun f =>
      ((false, f.1), f.2))

/-- A map that loses no effect: each has a key of its own with its bytes, the total is within the
limit, and there is nothing in the trees that cannot be collected. -/
def Complete (output workspace : Root) (mountPoints : List Name)
    (files : List Char → Option (List UInt8)) : Prop :=
  (∃ key : Bool × Path → List Char,
    (∀ e ∈ effects output workspace mountPoints, ∀ e' ∈ effects output workspace mountPoints,
      key e.1 = key e'.1 → e.1 = e'.1) ∧
    ∀ e ∈ effects output workspace mountPoints, files (key e.1) = some e.2) ∧
  ((effects output workspace mountPoints).map fun e => e.2.length).sum ≤ maxSandboxTotalBytes ∧
  output.isClean = true ∧ workspace.isClean = true

/-- **No file effect is lost in collection.** -/
def CollectsAll (output workspace : Root) (mountPoints : List Name) : Prop :=
  ∀ files, collectGeneratedFiles output workspace mountPoints = .ok files →
    Complete output workspace mountPoints files

/-- The entries of a tree that are met and no directories. -/
def metIn (tree : Option (Node UInt8)) : List (Path × Node UInt8) :=
  tree.elim [] met

def linkedIn (tree : Option (Node UInt8)) : Bool :=
  tree.elim false linked

/-- A regular file that can be opened, within the limit. -/
def isReadable : Node UInt8 → Bool
  | .file content readable => readable && content.length ≤ maxSandboxFileBytes
  | _ => false

/-- The entries that are to be read, with their keys. -/
def keyed (output workspace : Root) (mountPoints : List Name) :
    List (List Char × Path × Node UInt8) :=
  ((metIn output.outputTree).map fun e => (outputKey e.1, e)) ++
    ((metIn workspace.workspaceTree).filter fun e => outside mountPoints e.1).map fun e =>
      (workspaceKey e.1, e)

/-- **What raises**: a link to a directory that is met, an entry to be read that is no readable file
within its limit, or all together beyond the limit of the total. -/
def Refused (output workspace : Root) (mountPoints : List Name) : Prop :=
  linkedIn output.outputTree = true ∨ linkedIn workspace.workspaceTree = true ∨
    (∃ e ∈ keyed output workspace mountPoints, isReadable e.2.2 = false) ∨
    maxSandboxTotalBytes <
      ((keyed output workspace mountPoints).map fun e => e.2.2.content.length).sum

/-- No output file has the path that a file of the working directory is keyed by. -/
def Apart (output workspace : Root) (mountPoints : List Name) : Prop :=
  ∀ f ∈ output.regularFiles, ∀ f' ∈ workspace.regularFiles, outside mountPoints f'.1 = true →
    f.1 ≠ workspaceName :: f'.1

/-! ### When a map is returned -/

section Collecting

variable {name : Name} {node : Node UInt8} {found : List (Path × Node UInt8)}
  {entries : List (List Char × Path × Node UInt8)} {state : Collected}

theorem readSandboxFile_of_readable (h : isReadable node = true) :
    readSandboxFile name node = .ok node.content := by
  cases node with
  | file content readable =>
      simp only [isReadable, Bool.and_eq_true, decide_eq_true_eq] at h
      simp [readSandboxFile, h.1, h.2, Node.content]
  | _ => cases h

theorem isReadable_of_readSandboxFile {data : List UInt8} (h : readSandboxFile name node = .ok data) :
    isReadable node = true := by
  cases node with
  | file content readable =>
      rw [readSandboxFile] at h
      split at h
      · split at h
        · cases h
        · simp only [isReadable, Bool.and_eq_true, decide_eq_true_eq]
          exact ⟨‹_›, by omega⟩
      · cases h
  | _ => cases h

/-- A step with a link to a directory. -/
def hasLink (step : Step UInt8) : Bool :=
  step.dirs.any fun e => e.2.isLinkedDir

theorem find?_dirs_eq_none {step : Step UInt8} :
    (step.dirs.find? fun e => e.2.isLinkedDir) = none ↔ hasLink step = false := by
  rw [List.find?_eq_none, hasLink, List.any_eq_false]

theorem foundFiles_eq_ok {steps : List (Step UInt8)} (h : steps.any hasLink = false) :
    foundFiles steps = .ok (steps.flatMap Step.found) := by
  induction steps with
  | nil => rfl
  | cons step steps ih =>
      rw [List.any_cons, Bool.or_eq_false_iff] at h
      rw [foundFiles, find?_dirs_eq_none.2 h.1, ih h.2]
      rfl

theorem foundFiles_eq_error {steps : List (Step UInt8)} (h : steps.any hasLink = true) :
    ∃ e, foundFiles steps = .error e := by
  induction steps with
  | nil => cases h
  | cons step steps ih =>
      rw [foundFiles]
      cases hfind : step.dirs.find? fun e => e.2.isLinkedDir with
      | some e => exact ⟨_, rfl⟩
      | none =>
          rw [List.any_cons, find?_dirs_eq_none.1 hfind, Bool.false_or] at h
          obtain ⟨e, he⟩ := ih h
          exact ⟨e, by rw [he]; rfl⟩

/-- What stands at the root of a walked tree is a directory and no link. -/
def IsDirectory (tree : Option (Node UInt8)) : Prop :=
  ∀ root ∈ tree, root.isDir = true ∧ root.isLinkedDir = false

theorem isDirectory_outputTree (output : Root) : IsDirectory output.outputTree := by
  intro root hroot
  cases output with
  | directory listable entries =>
      obtain rfl := Option.some.inj hroot
      exact ⟨rfl, rfl⟩
  | _ => cases hroot

theorem isDirectory_workspaceTree (workspace : Root) : IsDirectory workspace.workspaceTree := by
  intro root hroot
  cases workspace with
  | absent => cases hroot
  | _ =>
      obtain rfl := Option.some.inj hroot
      exact ⟨rfl, rfl⟩

/-- Without a link to a directory the entries that are met are found, in some order. -/
theorem walkTree_eq_ok {tree : Option (Node UInt8)} (hdir : IsDirectory tree)
    (h : linkedIn tree = false) : ∃ found, walkTree tree = .ok found ∧ found.Perm (metIn tree) := by
  cases tree with
  | none => exact ⟨[], rfl, List.Perm.nil⟩
  | some root =>
      obtain ⟨hisDir, hnotLink⟩ := hdir root rfl
      have hlinked := any_linked_walk [] root
      rw [hnotLink, Bool.false_or] at hlinked
      have hperm := walk_perm_met [] root
      rw [hisDir, if_pos rfl, List.nil_append] at hperm
      have hmet : (met root).map (under []) = met root :=
        (List.map_congr_left fun e _ => under_nil e).trans (List.map_id _)
      rw [hmet] at hperm
      have hsort := List.perm_insertionSort (fun a b : Path × Node UInt8 => a.1 ≤ b.1)
        ((walk [] root).flatMap Step.found)
      refine ⟨_, ?_, hsort.trans hperm⟩
      rw [walkTree, Option.elim_some, walkRegularFiles, foundFiles_eq_ok (hlinked.trans h)]
      rfl

theorem walkTree_eq_error {tree : Option (Node UInt8)} (hdir : IsDirectory tree)
    (h : linkedIn tree = true) : ∃ e, walkTree tree = .error e := by
  cases tree with
  | none => cases h
  | some root =>
      have hlinked := any_linked_walk [] root
      rw [(hdir root rfl).2, Bool.false_or] at hlinked
      obtain ⟨e, he⟩ := foundFiles_eq_error (hlinked.trans h)
      exact ⟨e, by rw [walkTree, Option.elim_some, walkRegularFiles, he]; rfl⟩

/-- The bytes of the entries that are read. -/
def bytesOf (entries : List (List Char × Path × Node UInt8)) : ℕ :=
  (entries.map fun e => e.2.2.content.length).sum

/-- The dict after some more files. -/
def filesAfter (entries : List (List Char × Path × Node UInt8))
    (files : List Char → Option (List UInt8)) : List Char → Option (List UInt8) :=
  entries.foldl (fun files e => Function.update files e.1 (some e.2.2.content)) files

/-- Readable entries within the limit of the total are all taken. -/
theorem takeAll_eq_ok (hread : ∀ e ∈ entries, isReadable e.2.2 = true)
    (htotal : state.total + bytesOf entries ≤ maxSandboxTotalBytes) :
    takeAll entries state = .ok ⟨state.total + bytesOf entries, filesAfter entries state.files⟩ := by
  induction entries generalizing state with
  | nil => rfl
  | cons entry entries ih =>
      obtain ⟨key, path, node⟩ := entry
      have hbytes : bytesOf ((key, path, node) :: entries) = node.content.length + bytesOf entries :=
        List.sum_cons
      rw [hbytes] at htotal ⊢
      rw [takeAll, readSandboxFile_of_readable (hread _ List.mem_cons_self)]
      have hstep : ¬ state.total + node.content.length > maxSandboxTotalBytes := by omega
      simp only [Bind.bind, Except.bind, if_neg hstep]
      rw [ih (fun e he => hread e (List.mem_cons_of_mem _ he)) (by simpa [Nat.add_assoc] using htotal)]
      simp [filesAfter, Nat.add_assoc]

/-- Otherwise the files are not taken. -/
theorem takeAll_eq_error (hstate : state.total ≤ maxSandboxTotalBytes)
    (h : (∃ e ∈ entries, isReadable e.2.2 = false) ∨
      maxSandboxTotalBytes < state.total + bytesOf entries) :
    ∃ e, takeAll entries state = .error e := by
  induction entries generalizing state with
  | nil =>
      rcases h with ⟨e, he, -⟩ | h
      · cases he
      · simp only [bytesOf, List.map_nil, List.sum_nil] at h
        omega
  | cons entry entries ih =>
      obtain ⟨key, path, node⟩ := entry
      have hbytes : bytesOf ((key, path, node) :: entries) = node.content.length + bytesOf entries :=
        List.sum_cons
      rw [takeAll]
      cases hread : readSandboxFile (path.getLastD []) node with
      | error e => exact ⟨e, rfl⟩
      | ok data =>
          have hreadable := isReadable_of_readSandboxFile hread
          rw [readSandboxFile_of_readable hreadable] at hread
          obtain rfl := Except.ok.inj hread
          simp only [Bind.bind, Except.bind]
          split
          · exact ⟨_, rfl⟩
          · rename_i hle
            refine ih (Nat.not_lt.1 hle) ?_
            rcases h with ⟨e, he, hnot⟩ | h
            · rcases List.mem_cons.1 he with rfl | he
              · rw [hreadable] at hnot
                cases hnot
              · exact Or.inl ⟨e, he, hnot⟩
            · exact Or.inr (by rw [hbytes] at h; simpa [Nat.add_assoc] using h)

end Collecting

section Law

variable {output workspace : Root} {mountPoints : List Name}

/-- **What is returned, when nothing is refused.** -/
theorem collectGeneratedFiles_eq_ok (h : ¬ Refused output workspace mountPoints) :
    ∃ entries, entries.Perm (keyed output workspace mountPoints) ∧
      collectGeneratedFiles output workspace mountPoints =
        .ok (filesAfter entries fun _ => none) := by
  simp only [Refused, not_or, Bool.not_eq_true, not_exists, not_and, Bool.not_eq_false,
    Nat.not_lt] at h
  obtain ⟨houtput, hworkspace, hread, htotal⟩ := h
  obtain ⟨found, hfound, hperm⟩ := walkTree_eq_ok (isDirectory_outputTree output) houtput
  obtain ⟨found', hfound', hperm'⟩ :=
    walkTree_eq_ok (isDirectory_workspaceTree workspace) hworkspace
  have hentries := hperm.map fun e => (outputKey e.1, e)
  have hentries' := (hperm'.filter fun e => outside mountPoints e.1).map fun e =>
    (workspaceKey e.1, e)
  have hkeyed := hentries.append hentries'
  have hsum : bytesOf (found.map fun e => (outputKey e.1, e)) +
      bytesOf ((found'.filter fun e => outside mountPoints e.1).map fun e => (workspaceKey e.1, e)) ≤
      maxSandboxTotalBytes := by
    have heq := (hkeyed.map fun e => e.2.2.content.length).sum_nat
    rw [List.map_append, List.sum_append] at heq
    exact heq.le.trans htotal
  have hreadable : ∀ e ∈ (found.map fun e => (outputKey e.1, e)) ++
      (found'.filter fun e => outside mountPoints e.1).map fun e => (workspaceKey e.1, e),
      isReadable e.2.2 = true := fun e he => hread e (hkeyed.subset he)
  refine ⟨_, hkeyed, ?_⟩
  rw [collectGeneratedFiles, hfound, hfound']
  simp only [Bind.bind, Except.bind]
  rw [takeAll_eq_ok (fun e he => hreadable e (List.mem_append_left _ he)) (by simp only; omega)]
  simp only
  rw [takeAll_eq_ok (fun e he => hreadable e (List.mem_append_right _ he)) (by simp only; omega)]
  simp [filesAfter, List.foldl_append, Pure.pure, Except.pure]

/-- What is refused raises. -/
theorem collectGeneratedFiles_eq_error (h : Refused output workspace mountPoints) :
    ∃ e, collectGeneratedFiles output workspace mountPoints = .error e := by
  rw [collectGeneratedFiles]
  by_cases houtput : linkedIn output.outputTree = true
  · obtain ⟨e, he⟩ := walkTree_eq_error (isDirectory_outputTree output) houtput
    exact ⟨e, by rw [he]; rfl⟩
  obtain ⟨found, hfound, hperm⟩ :=
    walkTree_eq_ok (isDirectory_outputTree output) (Bool.not_eq_true _ ▸ houtput)
  have hentries := hperm.map fun e => (outputKey e.1, e)
  rw [hfound]
  simp only [Bind.bind, Except.bind]
  generalize found.map (fun e => (outputKey e.1, e)) = entries at hentries ⊢
  -- the files of the output mount are taken, or one of them raises
  by_cases htaken : (∃ e ∈ entries, isReadable e.2.2 = false) ∨
      maxSandboxTotalBytes < 0 + bytesOf entries
  · obtain ⟨e, he⟩ := @takeAll_eq_error entries ⟨0, fun _ => none⟩ (Nat.zero_le _) htaken
    exact ⟨e, by rw [he]⟩
  simp only [not_or, not_exists, not_and, Bool.not_eq_false, Nat.not_lt] at htaken
  rw [@takeAll_eq_ok entries ⟨0, fun _ => none⟩ htaken.1 htaken.2]
  simp only
  by_cases hworkspace : linkedIn workspace.workspaceTree = true
  · obtain ⟨e, he⟩ := walkTree_eq_error (isDirectory_workspaceTree workspace) hworkspace
    exact ⟨e, by rw [he]⟩
  obtain ⟨found', hfound', hperm'⟩ :=
    walkTree_eq_ok (isDirectory_workspaceTree workspace) (Bool.not_eq_true _ ▸ hworkspace)
  have hentries' := (hperm'.filter fun e => outside mountPoints e.1).map fun e =>
    (workspaceKey e.1, e)
  rw [hfound']
  simp only
  generalize (found'.filter fun e => outside mountPoints e.1).map
    (fun e => (workspaceKey e.1, e)) = entries' at hentries' ⊢
  have hkeyed := hentries.append hentries'
  obtain ⟨e, he⟩ := @takeAll_eq_error entries'
      ⟨0 + bytesOf entries, filesAfter entries fun _ => none⟩ htaken.2 (by
    rcases h with h | h | ⟨e, he, hnot⟩ | h
    · exact absurd h houtput
    · exact absurd h hworkspace
    · rcases List.mem_append.1 (hkeyed.symm.subset he) with he | he
      · rw [htaken.1 e he] at hnot
        cases hnot
      · exact Or.inl ⟨e, he, hnot⟩
    · have heq := (hkeyed.map fun e => e.2.2.content.length).sum_nat
      rw [List.map_append, List.sum_append] at heq
      exact Or.inr (h.trans_eq (by rw [keyed, ← heq, Nat.zero_add]; rfl)))
  exact ⟨e, by rw [he]⟩

/-! ### Keys -/

theorem key_mem_of_filesAfter {entries : List (List Char × Path × Node UInt8)}
    {files : List Char → Option (List UInt8)} {key : List Char} {data : List UInt8}
    (h : filesAfter entries files key = some data) :
    key ∈ entries.map Prod.fst ∨ files key = some data := by
  induction entries generalizing files with
  | nil => exact Or.inr h
  | cons entry entries ih =>
      rcases ih h with hmem | hfiles
      · exact Or.inl (List.mem_cons_of_mem _ hmem)
      · by_cases heq : key = entry.1
        · exact Or.inl (heq ▸ List.mem_cons_self)
        · exact Or.inr ((Function.update_of_ne heq ..).symm.trans hfiles)

/-- Files of different keys are all in the dict. -/
theorem filesAfter_of_mem {entries : List (List Char × Path × Node UInt8)}
    {files : List Char → Option (List UInt8)} (hnodup : (entries.map Prod.fst).Nodup)
    {entry : List Char × Path × Node UInt8} (h : entry ∈ entries) :
    filesAfter entries files entry.1 = some entry.2.2.content := by
  have hkeep : ∀ (entries : List (List Char × Path × Node UInt8))
      (files : List Char → Option (List UInt8)) (key : List Char), key ∉ entries.map Prod.fst →
      filesAfter entries files key = files key := by
    intro entries
    induction entries with
    | nil => exact fun _ _ _ => rfl
    | cons other entries ih =>
        intro files key hkey
        rw [List.map_cons, List.mem_cons, not_or] at hkey
        exact (ih _ key hkey.2).trans (Function.update_of_ne hkey.1 ..)
  induction entries generalizing files with
  | nil => cases h
  | cons other entries ih =>
      rw [List.map_cons, List.nodup_cons] at hnodup
      rcases List.mem_cons.1 h with rfl | h
      · exact (hkeep entries _ _ hnodup.1).trans (Function.update_self ..)
      · exact ih hnodup.2 h

def effectKey (id : Bool × Path) : List Char :=
  if id.1 then outputKey id.2 else workspaceKey id.2

theorem metIn_of_isClean (h : output.isClean = true) :
    (metIn output.outputTree).map (fun e => (e.1, e.2.content)) = output.regularFiles ∧
      (metIn output.workspaceTree).map (fun e => (e.1, e.2.content)) = output.regularFiles := by
  cases output with
  | absent => exact ⟨rfl, rfl⟩
  | linked listable entries => cases h
  | directory listable entries =>
      have hmet := (@met_of_clean _ (.dir listable entries) h).1
      exact ⟨hmet, hmet⟩

/-- **In clean trees the entries to be read are the effects.** -/
theorem keyed_of_isClean (houtput : output.isClean = true) (hworkspace : workspace.isClean = true) :
    (keyed output workspace mountPoints).map (fun e => (e.1, e.2.2.content)) =
      (effects output workspace mountPoints).map fun e => (effectKey e.1, e.2) := by
  rw [keyed, effects, List.map_append, List.map_append, ← (metIn_of_isClean houtput).1,
    ← (metIn_of_isClean hworkspace).2, List.filter_map]
  simp [Function.comp_def, effectKey]

theorem plain_of_mem_regularFiles (h : output.WellFormed) {f : Path × List UInt8}
    (hf : f ∈ output.regularFiles) : Plain f.1 ∧ f.1 ≠ [] := by
  cases output with
  | directory listable entries =>
      obtain ⟨name, path, heq, -⟩ := exists_head hf
      exact ⟨plain_of_mem_filesBelow h f hf, heq ▸ List.cons_ne_nil name path⟩
  | _ => cases hf

theorem nodup_regularFiles (h : output.WellFormed) : (output.regularFiles.map Prod.fst).Nodup := by
  cases output with
  | directory listable entries => exact nodup_filesBelow h
  | _ => exact List.nodup_nil

theorem nodup_effects (houtput : output.WellFormed) (hworkspace : workspace.WellFormed) :
    ((effects output workspace mountPoints).map Prod.fst).Nodup := by
  have hpaths : (effects output workspace mountPoints).map Prod.fst =
      (output.regularFiles.map Prod.fst).map (Prod.mk true) ++
        ((workspace.regularFiles.filter fun f => outside mountPoints f.1).map Prod.fst).map
          (Prod.mk false) := by
    simp [effects, Function.comp_def]
  rw [hpaths]
  refine ((nodup_regularFiles houtput).map (Prod.mk_right_injective true)).append
    (List.Nodup.map (Prod.mk_right_injective false) ?_) ?_
  · exact ((nodup_regularFiles hworkspace).sublist (List.filter_sublist.map Prod.fst))
  · intro id hid hid'
    obtain ⟨p, -, rfl⟩ := List.mem_map.1 hid
    obtain ⟨q, -, heq⟩ := List.mem_map.1 hid'
    cases heq

theorem mem_effects {e : (Bool × Path) × List UInt8}
    (h : e ∈ effects output workspace mountPoints) :
    (e.1.1 = true ∧ (e.1.2, e.2) ∈ output.regularFiles) ∨
      (e.1.1 = false ∧ (e.1.2, e.2) ∈ workspace.regularFiles ∧ outside mountPoints e.1.2 = true) := by
  rcases List.mem_append.1 h with h | h
  · obtain ⟨f, hf, rfl⟩ := List.mem_map.1 h
    exact Or.inl ⟨rfl, hf⟩
  · obtain ⟨f, hf, rfl⟩ := List.mem_map.1 h
    exact Or.inr ⟨rfl, (List.mem_filter.1 hf).1, (List.mem_filter.1 hf).2⟩

theorem outputKey_eq_iff (houtput : output.WellFormed) (hworkspace : workspace.WellFormed)
    {f f' : Path × List UInt8} (hf : f ∈ output.regularFiles) (hf' : f' ∈ workspace.regularFiles) :
    outputKey f.1 = workspaceKey f'.1 ↔ f.1 = workspaceName :: f'.1 := by
  obtain ⟨hplain, hne⟩ := plain_of_mem_regularFiles houtput hf
  obtain ⟨hplain', hne'⟩ := plain_of_mem_regularFiles hworkspace hf'
  have hname : workspaceName ≠ [] ∧ '/' ∉ workspaceName := by decide
  rw [outputKey, workspaceKey, ← posix_cons workspaceName hne']
  refine ⟨posix_injective hplain ?_ hne (List.cons_ne_nil _ _), fun heq => heq ▸ rfl⟩
  intro part hpart
  rcases List.mem_cons.1 hpart with rfl | hpart
  · exact hname
  · exact hplain' part hpart

/-- **Effects of trees that are apart have different keys.** -/
theorem effectKey_injective (houtput : output.WellFormed) (hworkspace : workspace.WellFormed)
    (hapart : Apart output workspace mountPoints) {e e' : (Bool × Path) × List UInt8}
    (he : e ∈ effects output workspace mountPoints) (he' : e' ∈ effects output workspace mountPoints)
    (h : effectKey e.1 = effectKey e'.1) : e.1 = e'.1 := by
  obtain ⟨⟨side, p⟩, data⟩ := e
  obtain ⟨⟨side', q⟩, data'⟩ := e'
  rcases mem_effects he with ⟨hside, hmem⟩ | ⟨hside, hmem, hout⟩ <;>
    rcases mem_effects he' with ⟨hside', hmem'⟩ | ⟨hside', hmem', hout'⟩ <;>
    dsimp only at hside hside' <;> subst hside hside'
  · obtain ⟨hplain, hne⟩ := plain_of_mem_regularFiles houtput hmem
    obtain ⟨hplain', hne'⟩ := plain_of_mem_regularFiles houtput hmem'
    have hpaths : p = q := posix_injective hplain hplain' hne hne' h
    rw [hpaths]
  · exact absurd ((outputKey_eq_iff houtput hworkspace hmem hmem').1 h) (hapart _ hmem _ hmem' hout')
  · exact absurd ((outputKey_eq_iff houtput hworkspace hmem' hmem).1 h.symm)
      (hapart _ hmem' _ hmem hout)
  · obtain ⟨hplain, hne⟩ := plain_of_mem_regularFiles hworkspace hmem
    obtain ⟨hplain', hne'⟩ := plain_of_mem_regularFiles hworkspace hmem'
    have hposix : posix p = posix q := by
      have hkeys : workspaceName ++ '/' :: posix p = workspaceName ++ '/' :: posix q := h
      exact (List.cons.inj (List.append_cancel_left hkeys)).2
    have hpaths : p = q := posix_injective hplain hplain' hne hne' hposix
    rw [hpaths]

/-! ### The law -/

theorem nodup_keys (houtput : output.WellFormed) (hworkspace : workspace.WellFormed)
    {key : Bool × Path → List Char}
    (hinj : ∀ e ∈ effects output workspace mountPoints,
      ∀ e' ∈ effects output workspace mountPoints, key e.1 = key e'.1 → e.1 = e'.1) :
    ((effects output workspace mountPoints).map fun e => key e.1).Nodup := by
  have hids := @nodup_effects output workspace mountPoints houtput hworkspace
  have hmap := List.Nodup.map_on (f := key) (fun a ha b hb heq => ?_) hids
  · simpa [Function.comp_def] using hmap
  · obtain ⟨e, he, rfl⟩ := List.mem_map.1 ha
    obtain ⟨e', he', rfl⟩ := List.mem_map.1 hb
    exact hinj e he e' he' heq

theorem length_effects_le {entries : List (List Char × Path × Node UInt8)}
    (houtput : output.WellFormed) (hworkspace : workspace.WellFormed)
    (h : Complete output workspace mountPoints (filesAfter entries fun _ => none)) :
    (effects output workspace mountPoints).length ≤ (entries.map Prod.fst).dedup.length := by
  obtain ⟨⟨key, hinj, hfiles⟩, -⟩ := h
  have hnodup := nodup_keys houtput hworkspace hinj
  have hsubset : ((effects output workspace mountPoints).map fun e => key e.1) ⊆
      (entries.map Prod.fst).dedup := by
    intro k hk
    obtain ⟨e, he, rfl⟩ := List.mem_map.1 hk
    exact List.mem_dedup.2 ((key_mem_of_filesAfter (hfiles e he)).resolve_right nofun)
  have hlength := (List.subperm_of_subset hnodup hsubset).length_le
  rwa [List.length_map] at hlength

theorem keys_of_isClean (houtput : output.isClean = true) (hworkspace : workspace.isClean = true) :
    (keyed output workspace mountPoints).map Prod.fst =
      (effects output workspace mountPoints).map fun e => effectKey e.1 := by
  have hmap := congrArg (List.map Prod.fst)
    (@keyed_of_isClean output workspace mountPoints houtput hworkspace)
  simpa [Function.comp_def] using hmap

/-- A complete map is one of trees that are apart. -/
theorem apart_of_complete {entries : List (List Char × Path × Node UInt8)}
    (houtput : output.WellFormed) (hworkspace : workspace.WellFormed)
    (hperm : entries.Perm (keyed output workspace mountPoints))
    (h : Complete output workspace mountPoints (filesAfter entries fun _ => none)) :
    Apart output workspace mountPoints := by
  intro f hf f' hf' hout heq
  have hle := length_effects_le houtput hworkspace h
  have hkeys := @keys_of_isClean output workspace mountPoints h.2.2.1 h.2.2.2
  have hlength : (effects output workspace mountPoints).length = (entries.map Prod.fst).length := by
    rw [(hperm.map Prod.fst).length_eq, hkeys, List.length_map]
  -- the keys of as many entries as there are keys are all different
  have hnodup : (entries.map Prod.fst).Nodup := by
    rw [hlength] at hle
    have hsame := (List.dedup_sublist (entries.map Prod.fst)).eq_of_length_le hle
    exact List.dedup_eq_self.1 hsame
  rw [(hperm.map Prod.fst).nodup_iff, hkeys, effects, List.map_append, List.nodup_append] at hnodup
  refine hnodup.2.2 (outputKey f.1) ?_ (workspaceKey f'.1) ?_
    ((outputKey_eq_iff houtput hworkspace hf hf').2 heq)
  · exact List.mem_map.2 ⟨_, List.mem_map_of_mem hf, rfl⟩
  · exact List.mem_map.2 ⟨_, List.mem_map_of_mem (List.mem_filter.2 ⟨hf', hout⟩), rfl⟩

/-- Clean trees that are apart give a complete map. -/
theorem complete_of_apart {entries : List (List Char × Path × Node UInt8)}
    (houtput : output.WellFormed) (hworkspace : workspace.WellFormed)
    (hperm : entries.Perm (keyed output workspace mountPoints))
    (htotal : ((keyed output workspace mountPoints).map fun e => e.2.2.content.length).sum ≤
      maxSandboxTotalBytes)
    (hclean : output.isClean = true) (hclean' : workspace.isClean = true)
    (hapart : Apart output workspace mountPoints) :
    Complete output workspace mountPoints (filesAfter entries fun _ => none) := by
  have hkeyed := @keyed_of_isClean output workspace mountPoints hclean hclean'
  have hnodup : (entries.map Prod.fst).Nodup := by
    rw [(hperm.map Prod.fst).nodup_iff, keys_of_isClean hclean hclean']
    exact nodup_keys houtput hworkspace fun e he e' he' =>
      effectKey_injective houtput hworkspace hapart he he'
  refine ⟨⟨effectKey, fun e he e' he' => effectKey_injective houtput hworkspace hapart he he',
    fun e he => ?_⟩, ?_, hclean, hclean'⟩
  · have hmem : (effectKey e.1, e.2) ∈ (keyed output workspace mountPoints).map
        (fun e => (e.1, e.2.2.content)) :=
      hkeyed ▸ List.mem_map_of_mem he
    obtain ⟨entry, hentry, heq⟩ := List.mem_map.1 hmem
    obtain ⟨hkey, hcontent⟩ := Prod.mk.inj heq
    rw [← hkey, ← hcontent]
    exact filesAfter_of_mem hnodup (hperm.symm.subset hentry)
  · have hlengths := congrArg (fun entries => (entries.map fun e => e.2.length).sum) hkeyed
    simp only [List.map_map, Function.comp_def] at hlengths
    exact hlengths.symm.le.trans htotal

/-- **When no file effect is lost in collection.** -/
theorem collectsAll_iff (houtput : output.WellFormed) (hworkspace : workspace.WellFormed)
    (mountPoints : List Name) :
    CollectsAll output workspace mountPoints ↔ Refused output workspace mountPoints ∨
      output.isClean = true ∧ workspace.isClean = true ∧ Apart output workspace mountPoints := by
  by_cases hrefused : Refused output workspace mountPoints
  · obtain ⟨e, he⟩ := collectGeneratedFiles_eq_error hrefused
    refine iff_of_true (fun files hfiles => ?_) (Or.inl hrefused)
    rw [he] at hfiles
    cases hfiles
  · obtain ⟨entries, hperm, hfiles⟩ := collectGeneratedFiles_eq_ok hrefused
    rw [CollectsAll, hfiles]
    constructor
    · intro hall
      have hcomplete := hall _ rfl
      exact Or.inr ⟨hcomplete.2.2.1, hcomplete.2.2.2,
        apart_of_complete houtput hworkspace hperm hcomplete⟩
    · rintro (h | ⟨hclean, hclean', hapart⟩) files heq
      · exact absurd h hrefused
      · obtain rfl := Except.ok.inj heq
        simp only [Refused, not_or, Nat.not_lt] at hrefused
        exact complete_of_apart houtput hworkspace hperm hrefused.2.2.2 hclean hclean' hapart

end Law

/-! ### Samples -/

instance (output workspace : Root) (mountPoints : List Name) :
    Decidable (Refused output workspace mountPoints) :=
  inferInstanceAs (Decidable (_ ∨ _ ∨ _ ∨ _))

namespace TreeSample

/-- A file `x`. -/
def x (content : List UInt8) : Name × Node UInt8 := ("x".toList, .file content true)

/-- A directory with some entries, as a mount. -/
def mount (entries : Entries UInt8) : Root := .directory true entries

/-- A file `workspace/x` of the output mount. -/
def nested : Root := mount [("workspace".toList, .dir true [x [1]])]

/-- A directory that cannot be listed. -/
def unlisted : Root := mount [("d".toList, .dir false [x [1]])]

/-- A link below the mount point `source`. -/
def staged : Root := mount [("source".toList, .dir true [("l".toList, .link false)]), x [1]]

end TreeSample

open TreeSample in
/-- The output file `workspace/x` is lost under the key of the file `x` of the working directory; the
files of a directory that cannot be listed are left out; an output mount that is a link and a link
below a mount point are passed over. -/
theorem not_collectsAll :
    ¬ CollectsAll nested (mount [x [2]]) [] ∧ ¬ CollectsAll unlisted .absent [] ∧
      ¬ CollectsAll (.linked true [x [1]]) .absent [] ∧
      ¬ CollectsAll .absent staged ["source".toList] := by
  refine ⟨fun h => ?_, fun h => ?_, fun h => ?_, fun h => ?_⟩
  · obtain ⟨entries, hperm, hfiles⟩ := @collectGeneratedFiles_eq_ok nested (mount [x [2]]) []
      (by decide)
    have hwf : nested.WellFormed ∧ (mount [x [2]]).WellFormed := by
      simp [nested, mount, x, Root.WellFormed, WellFormedBelow, WellFormed]
    have hapart := apart_of_complete hwf.1 hwf.2 hperm (h _ hfiles)
    exact hapart (["workspace".toList, "x".toList], [1]) List.mem_cons_self (["x".toList], [2])
      List.mem_cons_self rfl rfl
  · exact absurd (h _ rfl).2.2.1 (by decide)
  · exact absurd (h _ rfl).2.2.1 (by decide)
  · exact absurd (h _ rfl).2.2.2 (by decide)

open TreeSample in
/-- A file in each place, with a directory between. -/
theorem collectsAll_sample :
    CollectsAll (mount [x [1], ("d".toList, .dir true [x [2]])]) (mount [x [3]]) [] := by
  have hwf : (mount [x [1], ("d".toList, .dir true [x [2]])]).WellFormed ∧
      (mount [x [3]]).WellFormed := by
    simp [mount, x, Root.WellFormed, WellFormedBelow, WellFormed]
  refine (collectsAll_iff hwf.1 hwf.2 []).2 (Or.inr ⟨by decide, by decide, ?_⟩)
  unfold Apart
  decide

end CobolJava.WorkspaceFiles
