/-
**The job slots of the service.**

`_acquire_job_slot`, `_launch`, `ingest_application`, `modernize` and `revalidate` of
`api/service.py`: the requests and the background threads that count in `_active_jobs`.  A method is
its sequence of calls that may raise, with the slot it holds around them; the lock makes every use of
the counter one step.

Main definitions:

* `ingestApplication`, `modernize`, `revalidate` — the methods as programs over a slot;
* `Reachable` — the states of the service under any interleaving of requests and workers.

Main results:

* `methods_balanced` — every method accounts for its slot;
* `jobSlots_exact` — **the counter is the number of holders, and every slot is given back once**.
-/

import CobolJava.Lib.CountedSlots
import CobolJava.Lib.Interleaving

set_option autoImplicit false

namespace CobolJava.JobSlots

open Slots

/-! ### The methods -/

/-- Giving the slot back in an exception handler, and whatever the handler does before it raises. -/
def releaseAndRaise (rest : Prog) : Prog :=
  .seq .release (.seq rest .raise)

/-- The body of the thread that `_launch` starts: `getattr(self, target)(*args)` in a `try` whose
`finally` gives the slot back. -/
def runner : Prog :=
  .tryFinally .call .release

/-- `ingest_application` -/
def ingestApplication : Prog :=
  .seq .call -- `_refuse_while_run_active`
    (.seq .acquire
      (.tryFinally .call -- `_ingest_application`
        .release))

/-- `modernize` -/
def modernize : Prog :=
  .seq .call -- the application, the refusals and the contract
    (.seq .acquire
      (.seq (.tryExcept .call -- `add_run`
          (releaseAndRaise .skip))
        (.seq (.tryExcept (.launch runner)
            (releaseAndRaise .call)) -- `_persist_final`
          .call))) -- the log record

/-- `revalidate` -/
def revalidate : Prog :=
  .seq .call -- the run, its application, its source and the contract
    (.seq .acquire
      (.seq (.tryExcept .call -- `begin_revalidation`
          (releaseAndRaise .skip))
        (.seq (.tryExcept (.launch runner)
            (releaseAndRaise .call)) -- `_persist_final`
          .call))) -- the log record

def methods : List Prog :=
  [ingestApplication, modernize, revalidate]

/-- The states of the service: requests begin at any time, and the threads take turns in any order.
Every acquisition has the limit that its call read. -/
def Reachable (s : State) : Prop :=
  Interleaving.Reachable Start (Step methods) s

/-! ### The account of a method -/

theorem runner_balanced : Balanced runner true false false :=
  .tryFinally .call .release .release

theorem releaseAndRaise_balanced {rest : Prog} {n : Bool} (h : Balanced rest false false false) :
    Balanced (releaseAndRaise rest) true n false :=
  .seq .release (.seq h .raise)

theorem ingestApplication_balanced : Balanced ingestApplication false false false :=
  .seq .call (.seq .acquire (.tryFinally .call .release .release))

/-- What `modernize` and `revalidate` do behind the acquisition: the slot passes to the worker, or
one of the two handlers gives it back. -/
theorem launched_balanced :
    Balanced (.seq (.tryExcept .call (releaseAndRaise .skip))
      (.seq (.tryExcept (.launch runner) (releaseAndRaise .call)) .call)) true false false := by
  have hstore : Balanced (.tryExcept .call (releaseAndRaise .skip)) true true false :=
    .tryExcept .call (releaseAndRaise_balanced .skip)
  have hlaunch : Balanced (.tryExcept (.launch runner) (releaseAndRaise .call)) true false false :=
    .tryExcept (.launch runner_balanced) (releaseAndRaise_balanced .call)
  exact .seq hstore (.seq hlaunch .call)

theorem modernize_balanced : Balanced modernize false false false :=
  .seq .call (.seq .acquire launched_balanced)

theorem revalidate_balanced : Balanced revalidate false false false :=
  .seq .call (.seq .acquire launched_balanced)

theorem methods_balanced : ∀ p ∈ methods, Balanced p false false false := by
  intro p hp
  obtain rfl | rfl | rfl : p = ingestApplication ∨ p = modernize ∨ p = revalidate := by
    simpa [methods] using hp
  · exact ingestApplication_balanced
  · exact modernize_balanced
  · exact revalidate_balanced

/-! ### The service -/

theorem Reachable.accounted {s : State} (h : Reachable s) : Accounted s :=
  Interleaving.Reachable.invariant h (fun _ hstart => .start hstart)
    fun _ _ _ haccounted hstep => Balanced.sound methods_balanced haccounted hstep

/-- In every reachable state the counter is the number of requests and workers that hold a slot; a
slot is only taken when fewer are held than the limit allows; no slot is given back twice or while
it is held, nothing is given back that was not taken; and when every request and every worker has
ended, the counter is zero and every slot taken was given back. -/
theorem jobSlots_exact {s : State} (h : Reachable s) :
    s.active = holders s.threads ∧ 0 ≤ s.active ∧
    (∀ limit s', Step methods s (.acquire limit) s' → (holders s.threads : ℤ) < limit) ∧
    (s.released ++ heldBy s.threads).Nodup ∧
    (∀ slot ∈ s.released, ∃ k < s.taken, slot = some k) ∧
    ((∀ t ∈ s.threads, t.Ended) →
      s.active = 0 ∧ s.released.Perm ((List.range s.taken).map some)) := by
  have haccounted := h.accounted
  obtain ⟨hnodup, htaken, hended⟩ := haccounted.exact
  refine ⟨haccounted.counter, ?_, ?_, hnodup, htaken, hended⟩
  · rw [haccounted.counter]
    omega
  · intro limit s' hstep
    rw [← haccounted.counter]
    cases hstep with
    | acquire hlimit => exact hlimit

theorem Reachable.move {c c' : Control} {K K' : List Frame} {slot : Option ℕ}
    (h : Reachable ⟨0, 0, [], [⟨c, K, slot⟩]⟩) (hmove : Move (c, K) (c', K')) :
    Reachable ⟨0, 0, [], [⟨c', K', slot⟩]⟩ :=
  Interleaving.Reachable.next h (@Step.move _ _ _ _ [] [] _ _ _ _ _ hmove)

/-- A request to ingest takes the only slot there is. -/
theorem jobSlots_exact_ingest : ∃ s, Reachable s ∧ s.active = 1 ∧ s.active = holders s.threads := by
  have hrequest : Reachable ⟨0, 0, [], [.start ingestApplication none]⟩ :=
    Interleaving.Reachable.next (.of_start rfl)
      (@Step.request methods ⟨0, 0, [], []⟩ ingestApplication (by simp [methods]))
  have hchecked := ((hrequest.move .seq).move (.call false)).move .next
  have hready := hchecked.move .seq
  have htaken := Interleaving.Reachable.next hready
    (@Step.acquire methods 0 1 0 [] [] [] _ none (by decide))
  exact ⟨_, htaken, rfl, (jobSlots_exact htaken).1⟩

end CobolJava.JobSlots
