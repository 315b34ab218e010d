/-
**Python exceptions.**

The exceptions a modelled function can end with, with the text they carry, and loops whose body may
raise.

Main definitions:

* `Py.Exc` — the exceptions;
* `Py.RaisesOnly`, `Py.OnlyValueError` — a step from which no other exception escapes;
* `Py.Reads` — a step that yields one value, and does so exactly under a condition.

Main results:

* `Py.mapM_ok` — a loop that ends without an exception has run its body on every element;
* `Py.raisesOnly_bind`, `Py.raisesOnly_mapM` — steps and loops from which none escapes;
* `Py.Reads.bind`, `Py.Reads.mapM` — **steps and loops that read** what was written, the conditions
  of their parts together.
-/

import Mathlib.Data.List.Forall2

set_option autoImplicit false

namespace Py

/-- An exception. -/
inductive Exc where
  | attributeError (text : String)
  | valueError (text : String)
  /-- An exception of a class the program declares. -/
  | declared (name text : String)
deriving DecidableEq

/-- What reading an attribute of `None` raises. -/
def Exc.noneAttribute (name : String) : Exc :=
  .attributeError s!"'NoneType' object has no attribute '{name}'"

section Loops

variable {α β ε : Type}

theorem bind_ok {x : Except ε α} {f : α → Except ε β} {b : β} (h : (x >>= f) = .ok b) :
    ∃ a, x = .ok a ∧ f a = .ok b := by
  cases x with
  | error e => cases h
  | ok a => exact ⟨a, rfl, h⟩

theorem bind_eq_ok_iff {x : Except ε α} {f : α → Except ε β} {b : β} :
    (x >>= f) = .ok b ↔ ∃ a, x = .ok a ∧ f a = .ok b := by
  constructor
  · exact bind_ok
  · rintro ⟨a, rfl, hf⟩
    exact hf

theorem bind_eq_ok_iff_of_unique {x : Except ε α} {f : α → Except ε β} {F : Prop} {a : α} {b : β}
    (h : ∀ v, x = .ok v ↔ F ∧ v = a) : (x >>= f) = .ok b ↔ F ∧ f a = .ok b := by
  rw [bind_eq_ok_iff]
  constructor
  · rintro ⟨v, hv, hf⟩
    obtain ⟨hF, rfl⟩ := (h v).1 hv
    exact ⟨hF, hf⟩
  · rintro ⟨hF, hf⟩
    exact ⟨a, (h a).2 ⟨hF, rfl⟩, hf⟩

theorem map_eq_ok {x : Except ε α} {f : α → β} {b : β} :
    x.map f = .ok b ↔ ∃ a, x = .ok a ∧ f a = b := by
  cases x with
  | error e => exact iff_of_false nofun fun ⟨_, h, _⟩ => nomatch h
  | ok a => simp [Except.map]

theorem map_eq_error {x : Except ε α} {f : α → β} {e : ε} : x.map f = .error e ↔ x = .error e := by
  cases x <;> simp [Except.map]

theorem map_ok {x : Except ε α} {f : α → β} {b : β} (h : x.map f = .ok b) :
    ∃ a, x = .ok a ∧ f a = b :=
  map_eq_ok.1 h

theorem toOption_eq_some {x : Except ε α} {a : α} : x.toOption = some a ↔ x = .ok a := by
  cases x <;> simp [Except.toOption]

/-- **A loop that ends without an exception** has run its body on every element, in order. -/
theorem mapM_ok {f : α → Except ε β} {xs : List α} {ys : List β} (h : xs.mapM f = .ok ys) :
    List.Forall₂ (fun x y => f x = .ok y) xs ys := by
  induction xs generalizing ys with
  | nil =>
      obtain rfl : [] = ys := by simpa [pure, Except.pure] using h
      exact .nil
  | cons x xs ih =>
      rw [List.mapM_cons] at h
      cases hx : f x with
      | error e => simp [hx, bind, Except.bind] at h
      | ok y =>
          cases hxs : xs.mapM f with
          | error e => simp [hx, hxs, bind, Except.bind] at h
          | ok zs =>
              obtain rfl : y :: zs = ys := by
                simpa [hx, hxs, bind, Except.bind, pure, Except.pure] using h
              exact .cons hx (ih hxs)

theorem mapM_eq_ok {f : α → Except ε β} {xs : List α} {ys : List β}
    (h : List.Forall₂ (fun x y => f x = .ok y) xs ys) : xs.mapM f = .ok ys := by
  induction h with
  | nil => rfl
  | @cons x y xs ys hxy _ ih =>
      rw [List.mapM_cons, hxy, ih]
      rfl

theorem mapM_some {f : α → Option β} {xs : List α} {ys : List β} (h : xs.mapM f = some ys) :
    List.Forall₂ (fun x y => f x = some y) xs ys := by
  induction xs generalizing ys with
  | nil =>
      obtain rfl : [] = ys := by simpa using h
      exact .nil
  | cons x xs ih =>
      simp only [List.mapM_cons, Option.bind_eq_bind, Option.bind_eq_some_iff, Option.pure_def,
        Option.some.injEq] at h
      obtain ⟨y, hy, ys, hys, rfl⟩ := h
      exact .cons hy (ih hys)

theorem exists_mapM_some {f : α → Option β} {xs : List α} (h : ∀ x ∈ xs, ∃ y, f x = some y) :
    ∃ ys, xs.mapM f = some ys := by
  induction xs with
  | nil => exact ⟨[], rfl⟩
  | cons x xs ih =>
      rw [List.forall_mem_cons] at h
      obtain ⟨y, hy⟩ := h.1
      obtain ⟨ys, hys⟩ := ih h.2
      exact ⟨y :: ys, by rw [List.mapM_cons, hy, hys]; rfl⟩

theorem exists_of_forall₂ {R : α → β → Prop} {xs : List α} {ys : List β}
    (h : List.Forall₂ R xs ys) : ∀ y ∈ ys, ∃ x ∈ xs, R x y := by
  induction h with
  | nil => simp
  | @cons x y xs ys hxy _ ih =>
      intro y' hy'
      rcases List.mem_cons.1 hy' with rfl | hy'
      · exact ⟨x, List.mem_cons_self .., hxy⟩
      · obtain ⟨x', hx', hR⟩ := ih y' hy'
        exact ⟨x', List.mem_cons_of_mem _ hx', hR⟩

theorem exists_of_mapM_some {f : α → Option β} {xs : List α} {ys : List β}
    (h : xs.mapM f = some ys) : ∀ x ∈ xs, ∃ y ∈ ys, f x = some y :=
  exists_of_forall₂ (mapM_some h).flip

theorem mem_of_mapM_some {f : α → Option β} {xs : List α} {ys : List β}
    (h : xs.mapM f = some ys) : ∀ y ∈ ys, ∃ x ∈ xs, f x = some y :=
  exists_of_forall₂ (mapM_some h)

theorem exists_mapM_ok {f : α → Except ε β} {xs : List α} (h : ∀ x ∈ xs, ∃ y, f x = .ok y) :
    ∃ ys, xs.mapM f = .ok ys := by
  induction xs with
  | nil => exact ⟨[], rfl⟩
  | cons x xs ih =>
      rw [List.forall_mem_cons] at h
      obtain ⟨y, hy⟩ := h.1
      obtain ⟨ys, hys⟩ := ih h.2
      exact ⟨y :: ys, by rw [List.mapM_cons, hy, hys]; rfl⟩

theorem exists_of_mapM_ok {f : α → Except ε β} {xs : List α} {ys : List β}
    (h : xs.mapM f = .ok ys) : ∀ x ∈ xs, ∃ y ∈ ys, f x = .ok y :=
  exists_of_forall₂ (mapM_ok h).flip

theorem mem_of_mapM_ok {f : α → Except ε β} {xs : List α} {ys : List β}
    (h : xs.mapM f = .ok ys) : ∀ y ∈ ys, ∃ x ∈ xs, f x = .ok y :=
  exists_of_forall₂ (mapM_ok h)

end Loops

section Raises

variable {α β : Type} {allowed : Exc → Prop}

/-- No other exception than the allowed ones escapes. -/
def RaisesOnly (allowed : Exc → Prop) (x : Except Exc α) : Prop := ∀ e, x = .error e → allowed e

@[simp] theorem raisesOnly_ok (a : α) : RaisesOnly allowed (.ok a) := by
  intro e h
  cases h

@[simp] theorem raisesOnly_error {e : Exc} :
    RaisesOnly allowed (.error e : Except Exc α) ↔ allowed e := by
  constructor
  · exact fun h => h e rfl
  · rintro h e' ⟨⟩
    exact h

theorem raisesOnly_bind {x : Except Exc α} {f : α → Except Exc β} :
    RaisesOnly allowed (x >>= f) ↔
      RaisesOnly allowed x ∧ ∀ a, x = .ok a → RaisesOnly allowed (f a) := by
  cases x with
  | error e =>
      have h : (Except.error e >>= f) = .error e := rfl
      rw [h]
      simp
  | ok a =>
      rw [show (Except.ok a >>= f) = f a from rfl]
      simp

/-- A loop: its body on every element that it comes to. -/
theorem raisesOnly_mapM {f : α → Except Exc β} {xs : List α} :
    RaisesOnly allowed (xs.mapM f) ↔ ∀ pre x post, xs = pre ++ x :: post →
      (∀ z ∈ pre, ∃ b, f z = .ok b) → RaisesOnly allowed (f x) := by
  induction xs with
  | nil => simp [pure, Except.pure]
  | cons y ys ih =>
      rw [List.mapM_cons, raisesOnly_bind]
      constructor
      · rintro ⟨hy, hys⟩ pre x post hsplit hpre
        cases pre with
        | nil =>
            obtain ⟨rfl, -⟩ := List.cons.inj hsplit
            exact hy
        | cons z pre =>
            obtain ⟨rfl, hrest⟩ := List.cons.inj hsplit
            rw [List.forall_mem_cons] at hpre
            obtain ⟨b, hb⟩ := hpre.1
            exact ih.1 (raisesOnly_bind.1 (hys b hb)).1 pre x post hrest hpre.2
      · intro h
        refine ⟨h [] y ys rfl (by simp), fun b hb => raisesOnly_bind.2 ⟨?_, fun bs _ => ?_⟩⟩
        · refine ih.2 fun pre x post hsplit hpre => h (y :: pre) x post (by rw [hsplit]; rfl) ?_
          exact List.forall_mem_cons.2 ⟨⟨b, hb⟩, hpre⟩
        · exact raisesOnly_ok _

@[simp] theorem raisesOnly_map {x : Except Exc α} {f : α → β} :
    RaisesOnly allowed (x.map f) ↔ RaisesOnly allowed x := by
  simp only [RaisesOnly, map_eq_error]

theorem RaisesOnly.mono {more : Exc → Prop} {x : Except Exc α} (h : RaisesOnly allowed x)
    (hmore : ∀ e, allowed e → more e) : RaisesOnly more x :=
  fun e he => hmore e (h e he)

theorem raisesOnly_mapM_of_forall {f : α → Except Exc β} (h : ∀ x, RaisesOnly allowed (f x))
    (xs : List α) : RaisesOnly allowed (xs.mapM f) :=
  raisesOnly_mapM.2 fun _ x _ _ _ => h x

/-- A loop that counts as it goes, its body on every element that it comes to. -/
theorem raisesOnly_mapM_zipIdx {f : α → ℕ → Except Exc β} {P Q : α → Prop}
    (hP : ∀ x i, (∃ b, f x i = .ok b) ↔ P x) (hQ : ∀ x i, RaisesOnly allowed (f x i) ↔ Q x)
    (xs : List α) (start : ℕ) :
    RaisesOnly allowed ((xs.zipIdx start).mapM fun p => f p.1 p.2) ↔
      ∀ pre x post, xs = pre ++ x :: post → (∀ z ∈ pre, P z) → Q x := by
  induction xs generalizing start with
  | nil => simp [pure, Except.pure]
  | cons y ys ih =>
      rw [List.zipIdx_cons, List.mapM_cons, raisesOnly_bind, hQ]
      have htail (b : β) : RaisesOnly allowed
          (((ys.zipIdx (start + 1)).mapM fun p => f p.1 p.2) >>= fun bs => pure (b :: bs)) ↔
            RaisesOnly allowed ((ys.zipIdx (start + 1)).mapM fun p => f p.1 p.2) := by
        rw [raisesOnly_bind]
        exact and_iff_left fun bs _ => raisesOnly_ok _
      simp only [htail, ih]
      constructor
      · rintro ⟨hy, hys⟩ pre x post hsplit hpre
        cases pre with
        | nil =>
            obtain ⟨rfl, -⟩ := List.cons.inj hsplit
            exact hy
        | cons z pre =>
            obtain ⟨rfl, hrest⟩ := List.cons.inj hsplit
            rw [List.forall_mem_cons] at hpre
            obtain ⟨b, hb⟩ := (hP y start).2 hpre.1
            exact hys b hb pre x post hrest hpre.2
      · intro h
        refine ⟨h [] y ys rfl (by simp), fun b hb pre x post hsplit hpre => ?_⟩
        refine h (y :: pre) x post (by rw [hsplit]; rfl) ?_
        exact List.forall_mem_cons.2 ⟨(hP y start).1 ⟨b, hb⟩, hpre⟩

end Raises

section ValueErrors

variable {α β : Type}

/-- No other exception than a `ValueError` escapes. -/
def OnlyValueError (x : Except Exc α) : Prop := ∀ e, x = .error e → ∃ text, e = .valueError text

theorem onlyValueError_ok (a : α) : OnlyValueError (.ok a) := raisesOnly_ok a

theorem onlyValueError_valueError (text : String) :
    OnlyValueError (.error (.valueError text) : Except Exc α) := by
  rintro e ⟨⟩
  exact ⟨text, rfl⟩

theorem not_onlyValueError_declared (name text : String) :
    ¬OnlyValueError (.error (.declared name text) : Except Exc α) := by
  intro h
  obtain ⟨text', h⟩ := h _ rfl
  cases h

theorem onlyValueError_bind {x : Except Exc α} {f : α → Except Exc β} :
    OnlyValueError (x >>= f) ↔ OnlyValueError x ∧ ∀ a, x = .ok a → OnlyValueError (f a) :=
  raisesOnly_bind

theorem onlyValueError_mapM {f : α → Except Exc β} {xs : List α} :
    OnlyValueError (xs.mapM f) ↔ ∀ pre x post, xs = pre ++ x :: post →
      (∀ z ∈ pre, ∃ b, f z = .ok b) → OnlyValueError (f x) :=
  raisesOnly_mapM

end ValueErrors

section Reads

variable {α β γ ε : Type}

/-- The step ends with `a` and no other value, and it ends so exactly under `F`. -/
def Reads (x : Except ε α) (F : Prop) (a : α) : Prop := ∀ v, x = .ok v ↔ F ∧ v = a

theorem ok_bind (a : α) (f : α → Except ε β) : (Except.ok a >>= f) = f a := rfl

theorem Reads.ok (a : α) : Reads (.ok a : Except ε α) True a := by
  intro v
  simp [eq_comm]

theorem Reads.error (e : ε) {F : Prop} (hF : ¬F) (a : α) : Reads (.error e : Except ε α) F a := by
  intro v
  simp [hF]

theorem Reads.iff {x : Except ε α} {F G : Prop} {a : α} (h : Reads x F a) (hFG : F ↔ G) :
    Reads x G a := by
  intro v
  rw [h v, hFG]

theorem Reads.eq_ok {x : Except ε α} {F : Prop} {a : α} (h : Reads x F a) (hF : F) : x = .ok a :=
  (h a).2 ⟨hF, rfl⟩

/-- **Two steps**: the conditions of both. -/
theorem Reads.bind {x : Except ε α} {f : α → Except ε β} {F G : Prop} {a : α} {b : β}
    (hx : Reads x F a) (hf : Reads (f a) G b) : Reads (x >>= f) (F ∧ G) b := by
  intro v
  rw [bind_eq_ok_iff_of_unique hx, hf v, and_assoc]

theorem Reads.map {x : Except ε α} {F : Prop} {a : α} (hx : Reads x F a) (f : α → β) :
    Reads (x.map f) F (f a) := by
  have h : Reads (x >>= fun v => .ok (f v)) (F ∧ True) (f a) := hx.bind (.ok (f a))
  rw [and_true] at h
  cases x <;> exact h

theorem Reads.dite {p : Prop} [Decidable p] {f : p → Except ε α} {y : ¬p → Except ε α} {F : Prop}
    {a : α} (hp : p) (h : Reads (f hp) F a) : Reads (if h : p then f h else y h) F a := by
  rw [dif_pos hp]
  exact h

/-- **A loop that reads**: the condition of every element. -/
theorem Reads.each {f : β → Except ε α} {g : β → α} {P : β → Prop}
    (h : ∀ b, Reads (f b) (P b) (g b)) (xs : List β) :
    Reads (xs.mapM f) (∀ x ∈ xs, P x) (xs.map g) := by
  induction xs with
  | nil => exact (Reads.ok []).iff (by simp)
  | cons x xs ih =>
      rw [List.mapM_cons]
      exact ((h x).bind (ih.bind (.ok (g x :: xs.map g)))).iff (by simp)

theorem Reads.each_zipIdx {f : β → ℕ → Except ε α} {g : β → α} {P : β → Prop}
    (h : ∀ b i, Reads (f b i) (P b) (g b)) (xs : List β) (start : ℕ) :
    Reads ((xs.zipIdx start).mapM fun p => f p.1 p.2) (∀ x ∈ xs, P x) (xs.map g) := by
  have hloop := Reads.each (P := fun p : β × ℕ => P p.1) (g := fun p => g p.1)
    (fun p => h p.1 p.2) (xs.zipIdx start)
  rw [show (fun p : β × ℕ => g p.1) = g ∘ Prod.fst from rfl, ← List.map_map,
    List.zipIdx_map_fst] at hloop
  refine hloop.iff ⟨fun hall x hx => ?_, fun hall p hp => hall p.1 (List.fst_mem_of_mem_zipIdx hp)⟩
  rw [← List.zipIdx_map_fst start xs] at hx
  obtain ⟨p, hp, rfl⟩ := List.mem_map.1 hx
  exact hall p hp

/-- **A loop over what was written**: the condition of every element. -/
theorem Reads.mapM {f : β → Except ε α} {g : α → β} {P : α → Prop}
    (h : ∀ a, Reads (f (g a)) (P a) a) (xs : List α) :
    Reads ((xs.map g).mapM f) (∀ a ∈ xs, P a) xs := by
  have hloop := Reads.each h xs
  rw [List.map_id'] at hloop
  rw [List.mapM_map]
  exact hloop

theorem Reads.mapM_zipIdx {f : β → ℕ → Except ε α} {g : α → β} {P : α → Prop}
    (h : ∀ a i, Reads (f (g a) i) (P a) a) (xs : List α) (start : ℕ) :
    Reads (((xs.map g).zipIdx start).mapM fun p => f p.1 p.2) (∀ a ∈ xs, P a) xs := by
  have hloop := Reads.each_zipIdx h xs start
  rw [List.map_id'] at hloop
  rw [List.zipIdx_map, List.mapM_map]
  exact hloop

theorem Reads.raisesOnly_bind {α β : Type} {allowed : Exc → Prop} {x : Except Exc α}
    {f : α → Except Exc β} {F : Prop} {a : α} (hx : Reads x F a) (hr : RaisesOnly allowed x) :
    RaisesOnly allowed (x >>= f) ↔ (F → RaisesOnly allowed (f a)) := by
  rw [Py.raisesOnly_bind]
  constructor
  · exact fun h hF => h.2 a (hx.eq_ok hF)
  · refine fun h => ⟨hr, fun v hv => ?_⟩
    obtain ⟨hF, rfl⟩ := (hx v).1 hv
    exact h hF

end Reads

end Py
