/-
**The last write counts.**

A table that is written entry by entry holds, under every key, what was written there last.

Main definitions:

* `LastWrite.lastWrite` — the last of some writes to a key;
* `LastWrite.run` — a table after some writes.

Main results:

* `LastWrite.run_eq` — **what a table holds**;
* `LastWrite.rel_lastWrite` — the last write comes after every other write to its key.
-/

import Mathlib.Data.List.Basic
import Mathlib.Logic.Function.Basic

set_option autoImplicit false

namespace LastWrite

variable {W K V : Type} [DecidableEq K] (key : W → K) (value : W → V)

def lastWrite (ws : List W) (k : K) : Option W :=
  ws.reverse.find? fun w => key w = k

def run (ws : List W) (table : K → Option V) : K → Option V :=
  ws.foldl (fun table w => Function.update table (key w) (some (value w))) table

theorem run_append (ws ws' : List W) (table : K → Option V) :
    run key value (ws ++ ws') table = run key value ws' (run key value ws table) :=
  List.foldl_append

@[simp] theorem lastWrite_nil (k : K) : lastWrite key [] k = none := rfl

theorem lastWrite_append (ws ws' : List W) (k : K) :
    lastWrite key (ws ++ ws') k = (lastWrite key ws' k).or (lastWrite key ws k) := by
  rw [lastWrite, List.reverse_append, List.find?_append]
  rfl

variable {key}

theorem mem_of_lastWrite {ws : List W} {k : K} {w : W} (h : lastWrite key ws k = some w) :
    w ∈ ws ∧ key w = k :=
  ⟨List.mem_reverse.1 (List.mem_of_find?_eq_some h), by simpa using List.find?_some h⟩

theorem rel_lastWrite {R : W → W → Prop} {ws : List W} {k : K} {w w' : W} (hws : ws.Pairwise R)
    (h : lastWrite key ws k = some w) (hw' : w' ∈ ws) (hk : key w' = k) : w' = w ∨ R w' w := by
  obtain ⟨-, pre, post, hsplit, hpre⟩ := List.find?_eq_some_iff_append.1 h
  have hreverse := List.pairwise_reverse.2 hws
  rw [hsplit, List.pairwise_append] at hreverse
  rcases List.mem_append.1 (hsplit ▸ List.mem_reverse.2 hw') with hmem | hmem
  · exact absurd hk (by simpa using hpre w' hmem)
  · rcases List.mem_cons.1 hmem with rfl | hmem
    · exact .inl rfl
    · exact .inr ((List.pairwise_cons.1 hreverse.2.1).1 w' hmem)

theorem exists_of_lastWrite_flatMap {X : Type} {groups : List X} {f : X → List W} {k : K} {w : W}
    (h : lastWrite key (groups.flatMap f) k = some w) :
    ∃ x ∈ groups, lastWrite key (f x) k = some w := by
  induction groups with
  | nil => cases h
  | cons x groups ih =>
      rw [List.flatMap_cons, lastWrite_append] at h
      cases hrest : lastWrite key (groups.flatMap f) k with
      | some w' =>
          rw [hrest] at h
          obtain rfl := Option.some.inj h
          obtain ⟨x', hx', hlast⟩ := ih hrest
          exact ⟨x', List.mem_cons_of_mem x hx', hlast⟩
      | none =>
          rw [hrest] at h
          exact ⟨x, List.mem_cons_self, h⟩

/-- **What a table holds**: the last write to the key, or what was there before. -/
theorem run_eq (ws : List W) (table : K → Option V) (k : K) :
    run key value ws table k = ((lastWrite key ws k).map value).or (table k) := by
  induction ws generalizing table with
  | nil => rfl
  | cons w ws ih =>
      have hfirst : lastWrite key [w] k = if key w = k then some w else none := by
        by_cases hk : key w = k
        · simp [lastWrite, hk]
        · simp [lastWrite, hk]
      rw [run, List.foldl_cons, ← run, ih, ← List.singleton_append, lastWrite_append, hfirst]
      cases lastWrite key ws k with
      | some w' => rfl
      | none =>
          by_cases hk : key w = k
          · subst hk
            simp
          · simp [hk, Function.update_of_ne (Ne.symm hk)]

end LastWrite
