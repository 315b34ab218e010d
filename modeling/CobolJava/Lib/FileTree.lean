/-
**A tree of files.**

Files and directories under their paths, as the calls of an operating system see them: a path is
walked from the root, and every name before the last one must be that of a directory.  There are no
links.  A call may also fail for a reason of the system's own, which enters as a parameter; a call
that fails changes nothing, a program of several calls keeps what it has done.

Main definitions:

* `FileTree.Path`, `FileTree.Node`, `FileTree.Tree` — the tree, a path with its innermost name first;
* `FileTree.lookup` — the walk along a path;
* `FileTree.Op` — programs over a tree, which may raise;
* `FileTree.mkdir`, `FileTree.mkdirs`, `FileTree.openWrite`, `FileTree.append`,
  `FileTree.removeTree` — the calls.

Main results:

* `FileTree.mkdirs_changed` — making directories changes no file, and only the path itself and the
  paths above it;
* `FileTree.openWrite_ok`, `FileTree.append_ok` — writing changes one file;
* `FileTree.openWrite_error`, `FileTree.append_error` — a call that fails changes nothing.
-/

import Mathlib.Data.List.Infix
import Mathlib.Logic.Function.Basic
import Mathlib.Tactic.Common

set_option autoImplicit false

namespace FileTree

variable {α β γ ε : Type}

/-- A path from the root, its innermost name first. -/
abbrev Path : Type := List (List Char)

/-- What stands under a path. -/
inductive Node (α : Type) where
  | dir
  | file (content : List α)

/-- What stands under each path; the root itself is always a directory. -/
abbrev Tree (α : Type) : Type := Path → Option (Node α)

/-- Why a call fails. -/
inductive Fault where
  | missing
  | notDirectory
  | exists
  | isDirectory
  /-- Any other reason: the name is too long, the disk is full. -/
  | system
deriving DecidableEq

/-- The walk along a path: what stands there, if every name before the last is a directory's. -/
def lookup (t : Tree α) : Path → Except Fault (Option (Node α))
  | [] => .ok (some .dir)
  | name :: parent =>
      match lookup t parent with
      | .ok (some .dir) => .ok (t (name :: parent))
      | .ok (some (.file _)) => .error .notDirectory
      | .ok none => .error .missing
      | .error e => .error e

/-- The path is that of a directory. -/
def isDir (t : Tree α) (p : Path) : Bool :=
  match lookup t p with
  | .ok (some .dir) => true
  | _ => false

theorem lookup_of_isDir {t : Tree α} {p : Path} (h : isDir t p = true) :
    lookup t p = .ok (some .dir) := by
  rw [isDir] at h
  split at h
  · assumption
  · cases h

theorem isDir_tail {t : Tree α} {name : List Char} {parent : Path}
    (h : isDir t (name :: parent) = true) :
    isDir t parent = true ∧ t (name :: parent) = some .dir := by
  have hlookup := lookup_of_isDir h
  rw [lookup] at hlookup
  split at hlookup
  · next hparent => exact ⟨by rw [isDir, hparent], Except.ok.inj hlookup⟩
  all_goals cases hlookup

theorem eq_of_lookup {t : Tree α} {p : Path} {node : Option (Node α)} (hne : p ≠ [])
    (h : lookup t p = .ok node) : t p = node := by
  cases p with
  | nil => exact absurd rfl hne
  | cons name parent =>
      rw [lookup] at h
      split at h
      · exact Except.ok.inj h
      all_goals cases h

/-! ### Programs -/

/-- A program over a tree: its result or its exception, and the tree it leaves. -/
def Op (α ε β : Type) : Type := Tree α → Except ε β × Tree α

namespace Op

instance : Monad (Op α ε) where
  pure a := fun t => (.ok a, t)
  bind x f := fun t =>
    match x t with
    | (.ok a, t') => f a t'
    | (.error e, t') => (.error e, t')

def raise (e : ε) : Op α ε β := fun t => (.error e, t)

/-- A result that is known, or an exception. -/
def ofExcept (x : Except ε β) : Op α ε β := fun t => (x, t)

/-- The exceptions of a program, as others. -/
def mapError {ε' : Type} (f : ε → ε') (x : Op α ε β) : Op α ε' β := fun t =>
  match x t with
  | (.ok a, t') => (.ok a, t')
  | (.error e, t') => (.error (f e), t')

theorem bind_apply (x : Op α ε β) (f : β → Op α ε γ) (t : Tree α) :
    (x >>= f) t = match x t with
      | (.ok a, t') => f a t'
      | (.error e, t') => (.error e, t') := by
  simp only [bind]
  rcases x t with ⟨_ | b, s⟩ <;> rfl

theorem bind_eq_ok {x : Op α ε β} {f : β → Op α ε γ} {t t' : Tree α} {c : γ}
    (h : (x >>= f) t = (.ok c, t')) : ∃ b s, x t = (.ok b, s) ∧ f b s = (.ok c, t') := by
  rw [bind_apply] at h
  rcases hx : x t with ⟨_ | b, s⟩
  · rw [hx] at h
    cases h
  · rw [hx] at h
    exact ⟨b, s, rfl, h⟩

theorem bind_eq_error {x : Op α ε β} {f : β → Op α ε γ} {t t' : Tree α} {e : ε}
    (h : (x >>= f) t = (.error e, t')) :
    x t = (.error e, t') ∨ ∃ b s, x t = (.ok b, s) ∧ f b s = (.error e, t') := by
  rw [bind_apply] at h
  rcases hx : x t with ⟨e' | b, s⟩
  · rw [hx] at h
    cases h
    exact .inl rfl
  · rw [hx] at h
    exact .inr ⟨b, s, rfl, h⟩

theorem bind_snd (x : Op α ε β) (f : β → Op α ε γ) (t : Tree α) :
    ((x >>= f) t).2 = (x t).2 ∨ ∃ b, ((x >>= f) t).2 = (f b (x t).2).2 := by
  rw [bind_apply]
  rcases x t with ⟨_ | b, s⟩
  · exact .inl rfl
  · exact .inr ⟨b, rfl⟩

/-- A relation of trees that a program keeps to, whether it raises or not. -/
def Within (R : Tree α → Tree α → Prop) (x : Op α ε β) : Prop := ∀ t, R t (x t).2

theorem Within.bind {R : Tree α → Tree α → Prop} (htrans : ∀ t s u, R t s → R s u → R t u)
    {x : Op α ε β} {f : β → Op α ε γ} (hx : Within R x) (hf : ∀ b, Within R (f b)) :
    Within R (x >>= f) := by
  intro t
  rcases bind_snd x f t with h | ⟨b, h⟩
  · rw [h]
    exact hx t
  · rw [h]
    exact htrans _ _ _ (hx t) (hf b _)

end Op

/-! ### Calls -/

variable (refuses : Tree α → Path → Bool)

/-- The call `os.mkdir(p)`. -/
def mkdir (p : Path) : Op α Fault Unit := fun t =>
  match lookup t p with
  | .error e => (.error e, t)
  | .ok (some _) => (.error .exists, t)
  | .ok none =>
      if refuses t p then (.error .system, t)
      else (.ok (), Function.update t p (some .dir))

/-- The call `p.mkdir(exist_ok=True)`, whatever stands behind it when a name before the last is
missing. -/
def mkdirOr (p : Path) (whenMissing : Op α Fault Unit) : Op α Fault Unit := fun t =>
  match mkdir refuses p t with
  | (.error .missing, t') => whenMissing t'
  | (.error e, t') => if isDir t' p then (.ok (), t') else (.error e, t')
  | (.ok (), t') => (.ok (), t')

/-- The call `p.mkdir(parents=True, exist_ok=True)`. -/
def mkdirs : Path → Op α Fault Unit
  | [] => mkdirOr refuses [] (Op.raise .missing)
  | name :: parent => mkdirOr refuses (name :: parent) do
      mkdirs parent
      mkdirOr refuses (name :: parent) (Op.raise .missing)

/-- The call `open(p, "wb")`. -/
def openWrite (p : Path) : Op α Fault Unit := fun t =>
  match lookup t p with
  | .error e => (.error e, t)
  | .ok (some .dir) => (.error .isDirectory, t)
  | .ok _ =>
      if refuses t p then (.error .system, t)
      else (.ok (), Function.update t p (some (.file [])))

def append (p : Path) (chunk : List α) : Op α Fault Unit := fun t =>
  match t p with
  | some (.file content) =>
      if refuses t p then (.error .system, t)
      else (.ok (), Function.update t p (some (.file (content ++ chunk))))
  | _ => (.error .system, t)

/-- The call `shutil.rmtree(p, ignore_errors=True)`. -/
def removeTree (p : Path) : Op α ε Unit := fun t =>
  (.ok (), fun q => if p.isSuffixOf q then none else t q)

/-! ### What the calls change -/

/-- Directories are made at some paths that were free, and nothing else changes. -/
def MakesDirs (allowed : Path → Prop) (t t' : Tree α) : Prop :=
  ∀ q, t' q ≠ t q → allowed q ∧ t q = none ∧ t' q = some .dir

theorem MakesDirs.refl (allowed : Path → Prop) (t : Tree α) : MakesDirs allowed t t :=
  fun _ h => absurd rfl h

theorem MakesDirs.trans {allowed : Path → Prop} {t s u : Tree α} (h : MakesDirs allowed t s)
    (h' : MakesDirs allowed s u) : MakesDirs allowed t u := by
  intro q hq
  by_cases hs : s q = t q
  · obtain ⟨ha, hnone, hdir⟩ := h' q fun heq => hq (heq.trans hs)
    exact ⟨ha, hs ▸ hnone, hdir⟩
  · obtain ⟨ha, hnone, hdir⟩ := h q hs
    refine ⟨ha, hnone, ?_⟩
    by_cases hu : u q = s q
    · rw [hu, hdir]
    · rw [(h' q hu).2.1] at hdir
      cases hdir

theorem MakesDirs.mono {allowed allowed' : Path → Prop} {t t' : Tree α}
    (h : MakesDirs allowed t t') (ha : ∀ q, allowed q → allowed' q) : MakesDirs allowed' t t' :=
  fun q hq => ⟨ha q (h q hq).1, (h q hq).2⟩

variable {refuses}

theorem mkdir_makesDirs (p : Path) (t : Tree α) :
    MakesDirs (fun q => q = p ∧ q ≠ []) t (mkdir refuses p t).2 := by
  rw [mkdir]
  split
  · exact .refl _ t
  · exact .refl _ t
  · next hlookup =>
      split_ifs
      · exact .refl _ t
      · intro q hq
        obtain rfl : q = p := by
          by_contra hne
          exact hq (Function.update_of_ne hne ..)
        have hne : q ≠ [] := by
          rintro rfl
          rw [lookup] at hlookup
          cases hlookup
        exact ⟨⟨rfl, hne⟩, eq_of_lookup hne hlookup, Function.update_self ..⟩

theorem mkdirOr_makesDirs {allowed : Path → Prop} {p : Path} {whenMissing : Op α Fault Unit}
    (hp : p ≠ [] → allowed p) (h : Op.Within (MakesDirs allowed) whenMissing) :
    Op.Within (MakesDirs allowed) (mkdirOr refuses p whenMissing) := by
  intro t
  have hmkdir : MakesDirs allowed t (mkdir refuses p t).2 :=
    (mkdir_makesDirs p t).mono fun q hq => hq.1 ▸ hp (hq.1 ▸ hq.2)
  rw [mkdirOr]
  split
  · next heq =>
      rw [heq] at hmkdir
      exact hmkdir.trans (h _)
  · next heq =>
      rw [heq] at hmkdir
      split_ifs <;> exact hmkdir
  · next heq =>
      rw [heq] at hmkdir
      exact hmkdir

/-- A path above another one, or the path itself; the root is always there. -/
def Above (p q : Path) : Prop := q <:+ p ∧ q ≠ []

/-- **Making directories** changes no file, and only the path itself and the paths above it. -/
theorem mkdirs_changed :
    ∀ p : Path, Op.Within (MakesDirs (Above p)) (mkdirs refuses p : Op α Fault Unit)
  | [] => mkdirOr_makesDirs (fun h => absurd rfl h) fun t => .refl _ t
  | name :: parent =>
      have hself (_ : name :: parent ≠ []) : Above (name :: parent) (name :: parent) :=
        ⟨List.suffix_rfl, List.cons_ne_nil _ _⟩
      mkdirOr_makesDirs hself <|
        Op.Within.bind (fun _ _ _ h h' => h.trans h')
          (fun t => (mkdirs_changed parent t).mono fun _ hq =>
            ⟨hq.1.trans (List.suffix_cons ..), hq.2⟩)
          fun _ => mkdirOr_makesDirs hself fun t => .refl _ t

theorem openWrite_ok {p : Path} {t t' : Tree α} (h : openWrite refuses p t = (.ok (), t')) :
    t' = Function.update t p (some (.file [])) ∧ t p ≠ some .dir ∧ p ≠ [] := by
  rw [openWrite] at h
  split at h
  · cases h
  · cases h
  · next node hnode hlookup =>
      have hne : p ≠ [] := by
        rintro rfl
        rw [lookup] at hlookup
        exact hnode (Except.ok.inj hlookup).symm
      split_ifs at h
      · cases h
      · refine ⟨((Prod.mk.inj h).2).symm, ?_, hne⟩
        rw [eq_of_lookup hne hlookup]
        exact hnode

theorem append_ok {p : Path} {chunk : List α} {t t' : Tree α}
    (h : append refuses p chunk t = (.ok (), t')) :
    ∃ content, t p = some (.file content) ∧
      t' = Function.update t p (some (.file (content ++ chunk))) := by
  rw [append] at h
  split at h
  · next content hcontent =>
      split_ifs at h
      · cases h
      · exact ⟨content, hcontent, ((Prod.mk.inj h).2).symm⟩
  · cases h

theorem openWrite_error {p : Path} {t t' : Tree α} {e : Fault}
    (h : openWrite refuses p t = (.error e, t')) : t' = t := by
  rw [openWrite] at h
  split at h
  · exact ((Prod.mk.inj h).2).symm
  · exact ((Prod.mk.inj h).2).symm
  · split_ifs at h
    · exact ((Prod.mk.inj h).2).symm
    · cases h

theorem append_error {p : Path} {chunk : List α} {t t' : Tree α} {e : Fault}
    (h : append refuses p chunk t = (.error e, t')) : t' = t := by
  rw [append] at h
  split at h
  · split_ifs at h
    · exact ((Prod.mk.inj h).2).symm
    · cases h
  · exact ((Prod.mk.inj h).2).symm

end FileTree
