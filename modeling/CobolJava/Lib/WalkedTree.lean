/-
**Walking a directory tree.**

Directories with files, symbolic links and special files in them, as `os.walk` reports them without
following links: one step for every directory that can be listed, with the names of the directories
in it, links to directories included, and the other names.

Main definitions:

* `WalkedTree.Node`, `WalkedTree.Entries` — what a name stands for, and a directory's names;
* `WalkedTree.walk` — the steps of `os.walk`;
* `WalkedTree.met` — the entries that are no directories, of the directories that can be listed;
* `WalkedTree.files` — all regular files of a tree, and `WalkedTree.clean` — no link, no special
  file, and no directory that cannot be listed.

Main results:

* `WalkedTree.walk_perm_met` — the walk reports what is met, once;
* `WalkedTree.met_of_clean` — in a clean tree the regular files are met;
* `WalkedTree.nodup_files` — regular files have different paths;
* `WalkedTree.posix_injective` — paths of names without `/` are told apart as texts.
-/

import Mathlib.Data.List.Perm.Basic
import Mathlib.Data.List.Nodup

set_option autoImplicit false

namespace WalkedTree

variable {α : Type}

abbrev Name := List Char

/-- A path from the root of a tree, its outermost name first. -/
abbrev Path := List Name

/-- What a name stands for. -/
inductive Node (α : Type)
  | file (content : List α) (readable : Bool)
  | link (toDirectory : Bool)
  | special
  | dir (listable : Bool) (entries : List (Name × Node α))

abbrev Entries (α : Type) := List (Name × Node α)

/-- `entry.is_dir()`, which follows links. -/
def Node.isDir : Node α → Bool
  | .dir _ _ => true
  | .link toDirectory => toDirectory
  | _ => false

def Node.isLinkedDir : Node α → Bool
  | .link toDirectory => toDirectory
  | _ => false

/-! ### The walk -/

/-- One step of `os.walk`: where it is, the names of directories, and the other names. -/
structure Step (α : Type) where
  here : Path
  dirs : Entries α
  others : Entries α

def stepAt (here : Path) (entries : Entries α) : Step α :=
  ⟨here, entries.filter fun e => e.2.isDir, entries.filter fun e => !e.2.isDir⟩

mutual

/-- **`os.walk(followlinks=False)`** from a node on; a directory that cannot be listed is no step. -/
def walk (here : Path) : Node α → List (Step α)
  | .dir true entries => stepAt here entries :: walkBelow here entries
  | _ => []

def walkBelow (here : Path) : Entries α → List (Step α)
  | [] => []
  | (name, node) :: rest => walk (here ++ [name]) node ++ walkBelow here rest

end

/-- The other names of a step, with their paths. -/
def Step.found (step : Step α) : List (Path × Node α) :=
  step.others.map fun e => (step.here ++ [e.1], e.2)

def under {β : Type} (here : Path) (e : Path × β) : Path × β :=
  (here ++ e.1, e.2)

mutual

/-- The entries that are no directories, of the directories that can be listed. -/
def met : Node α → List (Path × Node α)
  | .dir true entries => metBelow entries
  | .dir false _ => []
  | .link true => []
  | node => [([], node)]

def metBelow : Entries α → List (Path × Node α)
  | [] => []
  | (name, node) :: rest => (met node).map (under [name]) ++ metBelow rest

end

mutual

def linked : Node α → Bool
  | .dir true entries => linkedBelow entries
  | .link toDirectory => toDirectory
  | _ => false

def linkedBelow : Entries α → Bool
  | [] => false
  | (_, node) :: rest => linked node || linkedBelow rest

end

mutual

def files : Node α → List (Path × List α)
  | .file content _ => [([], content)]
  | .dir _ entries => filesBelow entries
  | _ => []

def filesBelow : Entries α → List (Path × List α)
  | [] => []
  | (name, node) :: rest => (files node).map (under [name]) ++ filesBelow rest

end

mutual

/-- No link, no special file, and no directory that cannot be listed. -/
def clean : Node α → Bool
  | .file _ _ => true
  | .dir listable entries => listable && cleanBelow entries
  | _ => false

def cleanBelow : Entries α → Bool
  | [] => true
  | (_, node) :: rest => clean node && cleanBelow rest

end

mutual

/-- Names are not empty and have no `/`, and a directory has each of them once. -/
def WellFormed : Node α → Prop
  | .dir _ entries => WellFormedBelow entries
  | _ => True

def WellFormedBelow : Entries α → Prop
  | [] => True
  | (name, node) :: rest =>
      (name ≠ [] ∧ '/' ∉ name) ∧ name ∉ rest.map Prod.fst ∧ WellFormed node ∧ WellFormedBelow rest

end

/-! ### What the walk reports -/

theorem under_nil {β : Type} (e : Path × β) : under [] e = e := rfl

theorem under_under {β : Type} (here below : Path) (e : Path × β) :
    under here (under below e) = under (here ++ below) e := by
  rw [under, under, under, List.append_assoc]

mutual

/-- **The walk reports what is met, once.** -/
theorem walk_perm_met (here : Path) (node : Node α) :
    (((if node.isDir then [] else [(here, node)]) ++ (walk here node).flatMap Step.found)).Perm
      ((met node).map (under here)) := by
  cases node with
  | file content readable => simp [Node.isDir, walk, met, under]
  | link toDirectory => cases toDirectory <;> simp [Node.isDir, walk, met, under]
  | special => simp [Node.isDir, walk, met, under]
  | dir listable entries =>
      cases listable with
      | false => simp [Node.isDir, walk, met]
      | true =>
          rw [walk, met, List.flatMap_cons]
          exact walkBelow_perm_met here entries

theorem walkBelow_perm_met (here : Path) (entries : Entries α) :
    ((stepAt here entries).found ++ (walkBelow here entries).flatMap Step.found).Perm
      ((metBelow entries).map (under here)) := by
  cases entries with
  | nil => simp [stepAt, Step.found, walkBelow, metBelow]
  | cons entry rest =>
      obtain ⟨name, node⟩ := entry
      have hnode := walk_perm_met (here ++ [name]) node
      have hrest := walkBelow_perm_met here rest
      have hfound : (stepAt here ((name, node) :: rest)).found =
          (if node.isDir then [] else [(here ++ [name], node)]) ++ (stepAt here rest).found := by
        cases hdir : node.isDir <;> simp [stepAt, Step.found, hdir]
      have hmet : (metBelow ((name, node) :: rest)).map (under here) =
          (met node).map (under (here ++ [name])) ++ (metBelow rest).map (under here) := by
        simp [metBelow, Function.comp_def, under_under]
      rw [hfound, walkBelow, List.flatMap_append, hmet]
      -- what is found here stands before what is found below
      refine List.Perm.trans ?_ (hnode.append hrest)
      rw [List.append_assoc, List.append_assoc]
      refine List.Perm.append_left _ ?_
      rw [← List.append_assoc, ← List.append_assoc]
      exact List.perm_append_comm.append_right _

end

mutual

theorem any_linked_walk (here : Path) (node : Node α) :
    ((node.isLinkedDir || (walk here node).any fun step => step.dirs.any fun e => e.2.isLinkedDir)) =
      linked node := by
  cases node with
  | file content readable => rfl
  | link toDirectory => simp [Node.isLinkedDir, walk, linked]
  | special => rfl
  | dir listable entries =>
      cases listable with
      | false => rfl
      | true =>
          rw [walk, linked, List.any_cons]
          exact any_linked_walkBelow here entries

theorem any_linked_walkBelow (here : Path) (entries : Entries α) :
    (((stepAt here entries).dirs.any fun e => e.2.isLinkedDir) ||
        (walkBelow here entries).any fun step => step.dirs.any fun e => e.2.isLinkedDir) =
      linkedBelow entries := by
  cases entries with
  | nil => rfl
  | cons entry rest =>
      obtain ⟨name, node⟩ := entry
      have hnode := any_linked_walk (here ++ [name]) node
      have hrest := any_linked_walkBelow here rest
      have hdirs : ((stepAt here ((name, node) :: rest)).dirs.any fun e => e.2.isLinkedDir) =
          (node.isLinkedDir || (stepAt here rest).dirs.any fun e => e.2.isLinkedDir) := by
        cases node with
        | link toDirectory => cases toDirectory <;> simp [stepAt, Node.isDir, Node.isLinkedDir]
        | _ => simp [stepAt, Node.isDir, Node.isLinkedDir]
      rw [hdirs, walkBelow, List.any_append, linkedBelow, ← hnode, ← hrest]
      simp only [Bool.or_assoc, Bool.or_left_comm]

end

/-! ### Clean trees -/

def Node.content : Node α → List α
  | .file content _ => content
  | _ => []

def Node.isFile : Node α → Bool
  | .file _ _ => true
  | _ => false

mutual

/-- **In a clean tree the regular files are met**, and nothing else. -/
theorem met_of_clean {node : Node α} (h : clean node = true) :
    (met node).map (fun e => (e.1, e.2.content)) = files node ∧
      ∀ e ∈ met node, e.2.isFile = true := by
  cases node with
  | file content readable => simp [met, files, Node.content, Node.isFile]
  | link toDirectory => cases h
  | special => cases h
  | dir listable entries =>
      rw [clean, Bool.and_eq_true] at h
      obtain ⟨rfl, hbelow⟩ := h
      rw [met, files]
      exact metBelow_of_clean hbelow

theorem metBelow_of_clean {entries : Entries α} (h : cleanBelow entries = true) :
    (metBelow entries).map (fun e => (e.1, e.2.content)) = filesBelow entries ∧
      ∀ e ∈ metBelow entries, e.2.isFile = true := by
  cases entries with
  | nil => simp [metBelow, filesBelow]
  | cons entry rest =>
      obtain ⟨name, node⟩ := entry
      rw [cleanBelow, Bool.and_eq_true] at h
      obtain ⟨hnode, hfile⟩ := met_of_clean h.1
      obtain ⟨hrest, hfiles⟩ := metBelow_of_clean h.2
      rw [metBelow, filesBelow, ← hnode, ← hrest]
      refine ⟨by simp [Function.comp_def, under], fun e he => ?_⟩
      rcases List.mem_append.1 he with he | he
      · obtain ⟨e', he', rfl⟩ := List.mem_map.1 he
        exact hfile e' he'
      · exact hfiles e he

end

/-! ### Paths -/

/-- A path of names that are not empty and have no `/`. -/
def Plain (path : Path) : Prop :=
  ∀ name ∈ path, name ≠ [] ∧ '/' ∉ name

mutual

theorem plain_of_mem_files {node : Node α} (h : WellFormed node) :
    ∀ f ∈ files node, Plain f.1 := by
  cases node with
  | file content readable =>
      intro f hf
      obtain rfl := List.mem_singleton.1 hf
      exact fun name hname => nomatch hname
  | link toDirectory => exact fun f hf => nomatch hf
  | special => exact fun f hf => nomatch hf
  | dir listable entries => exact plain_of_mem_filesBelow h

theorem plain_of_mem_filesBelow {entries : Entries α} (h : WellFormedBelow entries) :
    ∀ f ∈ filesBelow entries, Plain f.1 := by
  cases entries with
  | nil => exact fun f hf => nomatch hf
  | cons entry rest =>
      obtain ⟨name, node⟩ := entry
      obtain ⟨hname, -, hnode, hrest⟩ := h
      intro f hf
      rcases List.mem_append.1 hf with hf | hf
      · obtain ⟨f', hf', rfl⟩ := List.mem_map.1 hf
        intro part hpart
        rcases List.mem_cons.1 hpart with rfl | hpart
        · exact hname
        · exact plain_of_mem_files hnode f' hf' part hpart
      · exact plain_of_mem_filesBelow hrest f hf

end

theorem exists_head {entries : Entries α} {f : Path × List α} (h : f ∈ filesBelow entries) :
    ∃ name path, f.1 = name :: path ∧ name ∈ entries.map Prod.fst := by
  induction entries with
  | nil => cases h
  | cons entry rest ih =>
      obtain ⟨name, node⟩ := entry
      rcases List.mem_append.1 h with h | h
      · obtain ⟨f', -, rfl⟩ := List.mem_map.1 h
        exact ⟨name, f'.1, rfl, List.mem_cons_self⟩
      · obtain ⟨name', path, heq, hmem⟩ := ih h
        exact ⟨name', path, heq, List.mem_cons_of_mem _ hmem⟩

mutual

/-- **Regular files have different paths.** -/
theorem nodup_files {node : Node α} (h : WellFormed node) : ((files node).map Prod.fst).Nodup := by
  cases node with
  | file content readable => exact List.nodup_singleton _
  | link toDirectory => exact List.nodup_nil
  | special => exact List.nodup_nil
  | dir listable entries => exact nodup_filesBelow h

theorem nodup_filesBelow {entries : Entries α} (h : WellFormedBelow entries) :
    ((filesBelow entries).map Prod.fst).Nodup := by
  cases entries with
  | nil => exact List.nodup_nil
  | cons entry rest =>
      obtain ⟨name, node⟩ := entry
      obtain ⟨-, hnew, hnode, hrest⟩ := h
      have hbelow : ((files node).map (under [name])).map Prod.fst =
          ((files node).map Prod.fst).map (name :: ·) := by
        simp [Function.comp_def, under]
      rw [filesBelow, List.map_append, hbelow]
      refine List.Nodup.append ((nodup_files hnode).map (List.cons_injective)) (nodup_filesBelow hrest) ?_
      -- another name of the directory begins another path
      intro path hpath hpath'
      obtain ⟨path', -, rfl⟩ := List.mem_map.1 hpath
      obtain ⟨f, hf, heq⟩ := List.mem_map.1 hpath'
      obtain ⟨name', path'', heq', hmem⟩ := exists_head hf
      rw [heq'] at heq
      cases heq
      exact hnew hmem

end

/-- A relative path as text, `as_posix()`. -/
def posix : Path → List Char
  | [] => []
  | [name] => name
  | name :: rest => name ++ '/' :: posix rest

theorem posix_cons (name : Name) {path : Path} (h : path ≠ []) :
    posix (name :: path) = name ++ '/' :: posix path := by
  cases path with
  | nil => exact absurd rfl h
  | cons first rest => rfl

theorem append_slash_inj {a b x y : List Char} (ha : '/' ∉ a) (hb : '/' ∉ b)
    (h : a ++ '/' :: x = b ++ '/' :: y) : a = b ∧ x = y := by
  induction a generalizing b with
  | nil =>
      cases b with
      | nil => exact ⟨rfl, (List.cons.inj h).2⟩
      | cons d b => exact absurd ((List.cons.inj h).1 ▸ List.mem_cons_self) hb
  | cons c a ih =>
      cases b with
      | nil => exact absurd ((List.cons.inj h).1 ▸ List.mem_cons_self) ha
      | cons d b =>
          obtain ⟨rfl, hrest⟩ := List.cons.inj h
          obtain ⟨rfl, rfl⟩ := ih (fun hmem => ha (List.mem_cons_of_mem _ hmem))
            (fun hmem => hb (List.mem_cons_of_mem _ hmem)) hrest
          exact ⟨rfl, rfl⟩

/-- **Paths of names without `/` are told apart as texts.** -/
theorem posix_injective {p q : Path} (hp : Plain p) (hq : Plain q) (hpne : p ≠ []) (hqne : q ≠ [])
    (h : posix p = posix q) : p = q := by
  induction p generalizing q with
  | nil => exact absurd rfl hpne
  | cons a p ih =>
      obtain ⟨b, q, rfl⟩ := List.exists_cons_of_ne_nil hqne
      have ha := (hp a List.mem_cons_self).2
      have hb := (hq b List.mem_cons_self).2
      by_cases hpnil : p = []
      · by_cases hqnil : q = []
        · rw [hpnil, hqnil] at h ⊢
          exact congrArg (· :: []) h
        · rw [hpnil, posix_cons b hqnil] at h
          have ha' : a = b ++ '/' :: posix q := h
          exact absurd (by simp [ha']) ha
      · by_cases hqnil : q = []
        · rw [hqnil, posix_cons a hpnil] at h
          have hb' : a ++ '/' :: posix p = b := h
          exact absurd (by simp [← hb']) hb
        · rw [posix_cons a hpnil, posix_cons b hqnil] at h
          obtain ⟨rfl, hrest⟩ := append_slash_inj ha hb h
          rw [ih (fun name hname => hp name (List.mem_cons_of_mem _ hname))
            (fun name hname => hq name (List.mem_cons_of_mem _ hname)) hpnil hqnil hrest]

end WalkedTree
