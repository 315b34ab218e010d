/-
**A cell with a version.**

Parties that read one cell and write it on the condition that its version is still the one they
read.  A write raises the version by one, so that a write which is accepted was made on the value
the cell still had, and the accepted writes form one chain.

Main definitions:

* `VersionedCell.State` — the cell, what each party last read of it, and the accepted writes;
* `VersionedCell.Step` — the reads, and the writes that are accepted;
* `VersionedCell.Chain` — writes applied one after another, each to the value it was made on.

Main results:

* `VersionedCell.Chain.version_eq`, `VersionedCell.Chain.nodup` — the version counts the writes of a
  chain, and **no two of them were made on one version**;
* `VersionedCell.Coherent.run` — **the accepted writes are a chain** from the first value to the
  last, however the parties interleave.
-/

import Mathlib.Data.List.Nodup
import Mathlib.Data.List.Range
import Mathlib.Data.Int.Order.Basic
import Mathlib.Logic.Function.Basic
import CobolJava.Lib.Interleaving

set_option autoImplicit false

namespace VersionedCell

variable {κ α β : Type*}

/-- The cell among its parties. -/
structure State (κ α β : Type*) where
  /-- What the cell holds. -/
  value : α
  /-- What a party last read. -/
  seen : κ → Option α
  /-- The accepted writes, each with the value its party had read. -/
  log : List (β × α)

/-! ### Chains of writes -/

/-- The writes of a list lead from one value to another, each applied to the value it was made
on. -/
inductive Chain (effect : β → α → α → Prop) (first : α) : List (β × α) → α → Prop
  | nil : Chain effect first [] first
  | snoc {log : List (β × α)} {w : β} {base next : α} (h : Chain effect first log base)
      (he : effect w base next) : Chain effect first (log ++ [(w, base)]) next

section Chain

variable {version : α → ℤ} {effect : β → α → α → Prop} {first last : α} {log : List (β × α)}

theorem Chain.version_eq (h : Chain effect first log last)
    (hbump : ∀ w a b, effect w a b → version b = version a + 1) :
    version last = version first + log.length := by
  induction h with
  | nil => simp
  | snoc _ he ih =>
      rw [hbump _ _ _ he, ih, List.length_append, List.length_singleton]
      push_cast
      exact Int.add_assoc _ _ _

theorem Chain.version_lt (h : Chain effect first log last)
    (hbump : ∀ w a b, effect w a b → version b = version a + 1) :
    ∀ e ∈ log, version e.2 < version last := by
  induction h with
  | nil => simp
  | snoc _ he ih =>
      intro e hmem
      rw [hbump _ _ _ he]
      rcases List.mem_append.1 hmem with hold | hnew
      · have := ih e hold
        omega
      · obtain rfl := List.mem_singleton.1 hnew
        exact Int.lt_succ _

/-- **No two writes of a chain were made on one version.** -/
theorem Chain.nodup (h : Chain effect first log last)
    (hbump : ∀ w a b, effect w a b → version b = version a + 1) :
    (log.map fun e => version e.2).Nodup := by
  induction h with
  | nil => exact List.nodup_nil
  | snoc hc _ ih =>
      rw [List.map_append, List.nodup_append]
      refine ⟨ih, List.nodup_singleton _, fun v hv v' hv' => ?_⟩
      obtain ⟨e, hmem, rfl⟩ := List.mem_map.1 hv
      obtain rfl := List.mem_singleton.1 hv'
      exact (hc.version_lt hbump e hmem).ne

end Chain

/-! ### The parties -/

section Parties

variable {version : α → ℤ} {effect : β → α → α → Prop} {first : α} {s t : State κ α β}

/-- What is so of every state: the accepted writes are a chain, and nothing a party has read is
newer than the cell or another value of its version. -/
structure Coherent (version : α → ℤ) (effect : β → α → α → Prop) (first : α) (s : State κ α β) :
    Prop where
  chain : Chain effect first s.log s.value
  seen : ∀ party base, s.seen party = some base →
    version base ≤ version s.value ∧ (version base = version s.value → base = s.value)

theorem Coherent.start (value : α) :
    Coherent version effect value (⟨value, fun _ => none, []⟩ : State κ α β) :=
  ⟨.nil, nofun⟩

variable [DecidableEq κ]

/-- A party reads the cell, drops what it read, or has a write accepted: the version it read is the
one the cell has.  A write that is refused changes nothing, which every party may see at any time. -/
inductive Step (version : α → ℤ) (effect : β → α → α → Prop) :
    State κ α β → Unit → State κ α β → Prop
  | read (s : State κ α β) (party : κ) :
      Step version effect s () { s with seen := Function.update s.seen party (some s.value) }
  | drop (s : State κ α β) (party : κ) :
      Step version effect s () { s with seen := Function.update s.seen party none }
  | write {s : State κ α β} {party : κ} {w : β} {base next : α} (hseen : s.seen party = some base)
      (hversion : version base = version s.value) (heffect : effect w s.value next) :
      Step version effect s () { s with value := next, log := s.log ++ [(w, base)] }
  | refuse (s : State κ α β) : Step version effect s () s

/-- **A step keeps the writes a chain.** -/
theorem Coherent.step (h : Coherent version effect first s)
    (hbump : ∀ w a b, effect w a b → version b = version a + 1) (hs : Step version effect s () t) :
    Coherent version effect first t := by
  cases hs with
  | refuse => exact h
  | read party =>
      refine ⟨h.chain, fun p base hp => ?_⟩
      rcases eq_or_ne p party with rfl | hne
      · obtain rfl : s.value = base := by simpa using hp
        exact ⟨le_rfl, fun _ => rfl⟩
      · exact h.seen p base (by simpa [Function.update_of_ne hne] using hp)
  | drop party =>
      refine ⟨h.chain, fun p base hp => ?_⟩
      rcases eq_or_ne p party with rfl | hne
      · simp at hp
      · exact h.seen p base (by simpa [Function.update_of_ne hne] using hp)
  | @write party w base next hseen hversion heffect =>
      -- the version did not move, so the value the party read is still there
      obtain rfl := (h.seen party base hseen).2 hversion
      refine ⟨h.chain.snoc heffect, fun p other hp => ?_⟩
      have hle := (h.seen p other hp).1
      have hnext := hbump _ _ _ heffect
      exact ⟨by simp only; omega, fun heq => by simp only at heq; omega⟩

/-- **The accepted writes are a chain** in every state the parties reach. -/
theorem Coherent.run (hbump : ∀ w a b, effect w a b → version b = version a + 1)
    (h : Interleaving.Reachable (fun s => s = ⟨first, fun _ => none, []⟩)
      (Step (κ := κ) version effect) s) : Coherent version effect first s := by
  refine h.invariant ?_ fun s a t hs hstep => hs.step hbump hstep
  rintro _ rfl
  exact .start first

end Parties

end VersionedCell
