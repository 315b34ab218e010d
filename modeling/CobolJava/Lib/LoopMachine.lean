/-
**Loops as machines.**

A loop is given by what it does before its first iteration and between two iterations; its body is
any state transformer, which may also leave the loop for good.  Two loops agree when they run the
body equally often and an observer sees equal values before each iteration and behind the loop.

Main definitions:

* `Loop.Machine`, `Loop.Machine.run` — a loop and its progress;
* `Loop.Agree` — two loops that an observer cannot tell apart;
* `Loop.Matched` — two loops in the same state.

Main results:

* `Loop.matched_run` — loops whose tests match along the run stay in the same state;
* `Loop.agree_iff` — two loops agree exactly when the tests of the run match.
-/

import Mathlib.Tactic.ByContra
import Mathlib.Data.Nat.Notation

set_option autoImplicit false

namespace Loop

variable {σ β : Type*}

/-- What a loop does around its body: before the first iteration, and behind an iteration.  Both give
the control state, the state and whether an iteration follows. -/
structure Machine (σ : Type*) where
  Control : Type
  enter : σ → Control × σ × Bool
  again : Control → σ → Control × σ × Bool

/-- How far a loop has got. -/
inductive Progress (κ σ : Type*)
  /-- The body runs next. -/
  | iteration (control : κ) (state : σ)
  /-- The loop is over. -/
  | finished (state : σ)
  /-- The body did not come back. -/
  | abandoned

def Progress.ofTest {κ : Type*} : κ × σ × Bool → Progress κ σ
  | (control, state, true) => .iteration control state
  | (_, state, false) => .finished state

/-- The progress after one more iteration. -/
def Machine.advance (m : Machine σ) (body : σ → Option σ) :
    Progress m.Control σ → Progress m.Control σ
  | .iteration control s =>
      match body s with
      | some t => .ofTest (m.again control t)
      | none => .abandoned
  | .finished s => .finished s
  | .abandoned => .abandoned

/-- The progress after a number of iterations. -/
def Machine.run (m : Machine σ) (body : σ → Option σ) (s : σ) : ℕ → Progress m.Control σ
  | 0 => .ofTest (m.enter s)
  | n + 1 => m.advance body (m.run body s n)

/-- What an observer sees of the progress. -/
inductive Observation (β : Type*)
  | iteration (value : β)
  | finished (value : β)
  | abandoned
  deriving DecidableEq

def Progress.observe {κ : Type*} (value : σ → β) : Progress κ σ → Observation β
  | .iteration _ s => .iteration (value s)
  | .finished s => .finished (value s)
  | .abandoned => .abandoned

/-- The observer sees the same of both loops at every point. -/
def Agree (value : σ → β) (m₁ : Machine σ) (body₁ : σ → Option σ) (m₂ : Machine σ)
    (body₂ : σ → Option σ) (s : σ) : Prop :=
  ∀ n, (m₁.run body₁ s n).observe value = (m₂.run body₂ s n).observe value

theorem observe_ofTest_ne {κ₁ κ₂ : Type*} {value : σ → β} {k₁ : κ₁} {k₂ : κ₂} {s t : σ} {b c : Bool}
    (h : value s ≠ value t) :
    (Progress.ofTest (k₁, s, b)).observe value ≠ (Progress.ofTest (k₂, t, c)).observe value := by
  cases b <;> cases c <;> simp [Progress.ofTest, Progress.observe, h]

theorem observe_ofTest_ne_of_test {κ₁ κ₂ : Type*} {value : σ → β} {k₁ : κ₁} {k₂ : κ₂} {s t : σ}
    {b c : Bool} (h : b ≠ c) :
    (Progress.ofTest (k₁, s, b)).observe value ≠ (Progress.ofTest (k₂, t, c)).observe value := by
  cases b <;> cases c <;> simp_all [Progress.ofTest, Progress.observe]

/-! ### Loops in step -/

section Matched

variable {m₁ m₂ : Machine σ} {R : m₁.Control → m₂.Control → Prop}

/-- Both loops are in the same state, with related control states. -/
inductive Matched {κ₁ κ₂ : Type*} (R : κ₁ → κ₂ → Prop) : Progress κ₁ σ → Progress κ₂ σ → Prop
  | iteration {k₁ : κ₁} {k₂ : κ₂} (s : σ) (h : R k₁ k₂) :
      Matched R (.iteration k₁ s) (.iteration k₂ s)
  | finished (s : σ) : Matched R (.finished s) (.finished s)
  | abandoned : Matched R .abandoned .abandoned

theorem Matched.observe {κ₁ κ₂ : Type*} {R : κ₁ → κ₂ → Prop} {p₁ : Progress κ₁ σ}
    {p₂ : Progress κ₂ σ} (h : Matched R p₁ p₂) (value : σ → β) :
    p₁.observe value = p₂.observe value := by
  cases h <;> rfl

theorem Matched.ofTest {κ₁ κ₂ : Type*} {R : κ₁ → κ₂ → Prop} {k₁ : κ₁} {k₂ : κ₂} (h : R k₁ k₂)
    (s : σ) (b : Bool) : Matched R (.ofTest (k₁, s, b)) (.ofTest (k₂, s, b)) := by
  cases b with
  | false => exact .finished s
  | true => exact .iteration s h

variable {EntrySafe Good : σ → Prop} {StepSafe : m₂.Control → σ → Prop}

/-- The tests of the second loop are safe up to a number of iterations. -/
def SafeBelow (StepSafe : m₂.Control → σ → Prop) (body : σ → Option σ) (s : σ) (n : ℕ) : Prop :=
  ∀ i < n, ∀ k t u, m₂.run body s i = .iteration k t → body t = some u → StepSafe k u

/-- Loops whose tests match as long as they are safe stay in the same state; behind an iteration the
state is `Good`. -/
theorem matched_run {body : σ → Option σ} {s : σ}
    (hbody : ∀ t u, body t = some u → Good u)
    (hentry : ∀ s, EntrySafe s → Matched R (.ofTest (m₁.enter s)) (.ofTest (m₂.enter s)))
    (hstep : ∀ k₁ k₂ t, R k₁ k₂ → Good t → StepSafe k₂ t →
      Matched R (.ofTest (m₁.again k₁ t)) (.ofTest (m₂.again k₂ t)))
    (hsafe : EntrySafe s) {n : ℕ} (h : SafeBelow StepSafe body s n) :
    Matched R (m₁.run body s n) (m₂.run body s n) := by
  induction n with
  | zero => exact hentry s hsafe
  | succ n ih =>
      have hbefore := ih fun i hi => h i (Nat.lt_succ_of_lt hi)
      have hnow := h n (Nat.lt_succ_self n)
      rw [Machine.run, Machine.run]
      generalize m₁.run body s n = p₁ at hbefore ⊢
      generalize m₂.run body s n = p₂ at hbefore hnow ⊢
      cases hbefore with
      | iteration t hR =>
          simp only [Machine.advance]
          cases hbodyT : body t with
          | none => exact .abandoned
          | some u => exact hstep _ _ u hR (hbody t u hbodyT) (hnow _ t u rfl hbodyT)
      | finished t => exact .finished t
      | abandoned => exact .abandoned

/-- Two loops agree exactly when their first tests match and so does every test of the run, for tests
that an observer tells apart as soon as they do not match. -/
theorem agree_iff {body : σ → Option σ} {s : σ} (value : σ → β)
    (hbody : ∀ t u, body t = some u → Good u)
    (hentry : ∀ s, EntrySafe s → Matched R (.ofTest (m₁.enter s)) (.ofTest (m₂.enter s)))
    (hentryNot : ∀ s, ¬ EntrySafe s →
      (Progress.ofTest (m₁.enter s)).observe value ≠ (Progress.ofTest (m₂.enter s)).observe value)
    (hstep : ∀ k₁ k₂ t, R k₁ k₂ → Good t → StepSafe k₂ t →
      Matched R (.ofTest (m₁.again k₁ t)) (.ofTest (m₂.again k₂ t)))
    (hstepNot : ∀ k₁ k₂ t, R k₁ k₂ → Good t → ¬ StepSafe k₂ t →
      (Progress.ofTest (m₁.again k₁ t)).observe value ≠
        (Progress.ofTest (m₂.again k₂ t)).observe value) :
    Agree value m₁ body m₂ body s ↔ EntrySafe s ∧ ∀ n, SafeBelow StepSafe body s n := by
  constructor
  · intro hagree
    have hsafe : EntrySafe s := by
      by_contra hnot
      exact hentryNot s hnot (hagree 0)
    refine ⟨hsafe, fun n => ?_⟩
    induction n with
    | zero => intro i hi; exact absurd hi (Nat.not_lt_zero i)
    | succ n ih =>
        intro i hi k t u hrun hbodyT
        rcases Nat.lt_succ_iff_lt_or_eq.1 hi with hi | rfl
        · exact ih i hi k t u hrun hbodyT
        · -- up to here the loops are in step, so an unsafe test would show
          by_contra hnot
          have hmatched := matched_run hbody hentry hstep hsafe ih
          have hseen := hagree (i + 1)
          rw [Machine.run, Machine.run] at hseen
          rw [hrun] at hmatched hseen
          generalize m₁.run body s i = p₁ at hmatched hseen
          cases hmatched with
          | iteration t hR =>
              simp only [Machine.advance, hbodyT] at hseen
              exact hstepNot _ _ u hR (hbody t u hbodyT) hnot hseen
  · rintro ⟨hsafe, hall⟩ n
    exact (matched_run hbody hentry hstep hsafe (hall n)).observe value

theorem agree_refl (value : σ → β) (m : Machine σ) (body : σ → Option σ) (s : σ) :
    Agree value m body m body s :=
  fun _ => rfl

end Matched

end Loop
