/-
**Writers that reach readers.**

Steps that are run one after another, some of which write something and some of which read it.  What
a step reads was written by the last step before it that writes.

Main definitions:

* `ReachingWriter.lastWriter` — the last step that writes;
* `ReachingWriter.Feeds`, `ReachingWriter.Fresh`, `ReachingWriter.Unread` — a step that reads what
  another wrote, one that reads what none wrote, and one that writes what none reads.

Main results:

* `ReachingWriter.feeds_iff`, `ReachingWriter.fresh_iff` — **what reaches a reader** is the last
  writer of the steps before it;
* `ReachingWriter.unread_of_lastWriter` — the last write is unread when nothing is read.
-/

import Mathlib.Data.List.Basic

set_option autoImplicit false

namespace ReachingWriter

variable {σ : Type*} (writes reads : σ → Prop)

/-- The step `w` is the last one before `r` that writes, and `r` reads. -/
def Feeds (steps : List σ) (w r : σ) : Prop :=
  ∃ before between behind, steps = before ++ w :: (between ++ r :: behind) ∧ writes w ∧ reads r ∧
    ∀ s ∈ between, ¬writes s

/-- The step `r` reads, and none before it writes. -/
def Fresh (steps : List σ) (r : σ) : Prop :=
  ∃ before behind, steps = before ++ r :: behind ∧ reads r ∧ ∀ s ∈ before, ¬writes s

/-- The step `w` writes, and none behind it reads before the next one that writes is through. -/
def Unread (steps : List σ) (w : σ) : Prop :=
  ∃ before behind, steps = before ++ w :: behind ∧ writes w ∧
    ∀ between r rest, behind = between ++ r :: rest → (∀ s ∈ between, ¬writes s) → ¬reads r

variable [DecidablePred writes]

def lastWriter (steps : List σ) : Option σ :=
  steps.reverse.find? fun s => writes s

variable {writes reads} {steps : List σ} {w r : σ}

theorem lastWriter_eq_none_iff : lastWriter writes steps = none ↔ ∀ s ∈ steps, ¬writes s := by
  simp [lastWriter]

theorem lastWriter_eq_some_iff : lastWriter writes steps = some w ↔
    ∃ before behind, steps = before ++ w :: behind ∧ writes w ∧ ∀ s ∈ behind, ¬writes s := by
  rw [lastWriter, List.find?_eq_some_iff_append]
  constructor
  · rintro ⟨hw, after, front, hsplit, hafter⟩
    refine ⟨front.reverse, after.reverse, ?_, by simpa using hw, fun s hs => ?_⟩
    · rw [← List.reverse_reverse steps, hsplit]
      simp
    · simpa using hafter s (List.mem_reverse.1 hs)
  · rintro ⟨before, behind, rfl, hw, hbehind⟩
    refine ⟨by simpa using hw, behind.reverse, before.reverse, by simp, fun s hs => ?_⟩
    simpa using hbehind s (List.mem_reverse.1 hs)

theorem lastWriter_append (front back : List σ) :
    lastWriter writes (front ++ back) = (lastWriter writes back).or (lastWriter writes front) := by
  rw [lastWriter, List.reverse_append, List.find?_append]
  rfl

/-- **What reaches a reader** is the last writer of the steps before it. -/
theorem feeds_iff : Feeds writes reads steps w r ↔
    ∃ before behind, steps = before ++ r :: behind ∧ reads r ∧
      lastWriter writes before = some w := by
  constructor
  · rintro ⟨before, between, behind, rfl, hw, hr, hbetween⟩
    exact ⟨before ++ w :: between, behind, by simp, hr,
      lastWriter_eq_some_iff.2 ⟨before, between, rfl, hw, hbetween⟩⟩
  · rintro ⟨front, behind, rfl, hr, hlast⟩
    obtain ⟨before, between, rfl, hw, hbetween⟩ := lastWriter_eq_some_iff.1 hlast
    exact ⟨before, between, behind, by simp, hw, hr, hbetween⟩

theorem fresh_iff : Fresh writes reads steps r ↔
    ∃ before behind, steps = before ++ r :: behind ∧ reads r ∧
      lastWriter writes before = none := by
  simp only [Fresh, lastWriter_eq_none_iff]

theorem unread_of_lastWriter (h : lastWriter writes steps = some w) (hreads : ∀ r ∈ steps, ¬reads r) :
    Unread writes reads steps w := by
  obtain ⟨before, behind, rfl, hw, -⟩ := lastWriter_eq_some_iff.1 h
  refine ⟨before, behind, rfl, hw, fun between r rest hbehind _ => hreads r ?_⟩
  rw [hbehind]
  simp

end ReachingWriter
