/-
**Records kept once per key.**

A list of records with keys of which the first one of each key is kept.

Main definitions:

* `Kept.keepFirst` — the records that are kept.

Main results:

* `Kept.mem_keepFirst` — a record is kept exactly when it is found first under its key;
* `Kept.forall_keepFirst_iff` — what holds of all kept records;
* `Kept.first_insert_of_ne` — inserting a record changes what is found under its own key only;
* `Kept.first_filter_append` — with the records of a property in front, one of them is found.
-/

import Mathlib.Data.List.Induction
import Mathlib.Data.List.Nodup
import Mathlib.Data.List.Perm.Basic

set_option autoImplicit false

namespace Kept

variable {α κ : Type*} [DecidableEq κ] (key : α → κ)

/-- One more record, unless its key is in use. -/
def add (kept : List α) (a : α) : List α :=
  if kept.any (fun b => key b = key a) then kept else kept ++ [a]

/-- The records of which none before has the same key. -/
def keepFirst (records : List α) : List α :=
  records.foldl (add key) []

/-- The record that is found first under a key. -/
def first (records : List α) (k : κ) : Option α :=
  records.find? fun a => key a = k

variable {records : List α} {a b : α} {k : κ}

theorem exists_first (h : a ∈ records) : ∃ b, first key records (key a) = some b := by
  cases hfirst : first key records (key a) with
  | some b => exact ⟨b, rfl⟩
  | none => exact absurd (decide_eq_true rfl) (List.find?_eq_none.1 hfirst a h)

variable {key}

theorem first_key (h : first key records k = some a) : key a = k := by
  simpa using List.find?_some h

theorem first_mem (h : first key records k = some a) : a ∈ records :=
  List.mem_of_find?_eq_some h

theorem first_append (before behind : List α) :
    first key (before ++ behind) k = (first key before k).or (first key behind k) :=
  List.find?_append

/-- A record is kept exactly when it is found first under its key. -/
theorem mem_keepFirst : a ∈ keepFirst key records ↔ first key records (key a) = some a := by
  induction records using List.reverseRecOn generalizing a with
  | nil => simp [keepFirst, first]
  | append_singleton init c ih =>
      have hany : (keepFirst key init).any (fun b => key b = key c) = true ↔
          (first key init (key c)).isSome = true := by
        rw [List.any_eq_true]
        constructor
        · rintro ⟨b, hb, hkey⟩
          rw [← of_decide_eq_true hkey, ih.1 hb]
          rfl
        · intro hsome
          obtain ⟨b, hb⟩ := Option.isSome_iff_exists.1 hsome
          have hkey := first_key hb
          exact ⟨b, ih.2 (hkey ▸ hb), decide_eq_true hkey⟩
      have hstep : keepFirst key (init ++ [c]) = add key (keepFirst key init) c := by
        simp [keepFirst, List.foldl_append]
      rw [hstep, first_append, add]
      split
      · -- the key of `c` is in use
        rename_i hused
        rw [ih]
        by_cases hkey : key a = key c
        · obtain ⟨b, hb⟩ := Option.isSome_iff_exists.1 (hany.1 hused)
          rw [hkey, hb, Option.some_or]
        · have hnone : first key [c] (key a) = none := by
            simpa [first] using fun h => hkey h.symm
          rw [hnone, Option.or_none]
      · rename_i hunused
        have hfree : first key init (key c) = none := by
          rw [← Option.not_isSome_iff_eq_none, ← hany]
          exact hunused
        rw [List.mem_append, List.mem_singleton, ih]
        by_cases hkey : key a = key c
        · have hself : first key [c] (key c) = some c := by simp [first]
          rw [hkey, hfree, Option.none_or, hself, Option.some.injEq]
          exact ⟨fun h => (h.resolve_left (by simp)).symm, fun h => .inr h.symm⟩
        · have hnone : first key [c] (key a) = none := by
            simpa [first] using fun h => hkey h.symm
          rw [hnone, Option.or_none]
          exact or_iff_left fun h => hkey (h ▸ rfl)

theorem forall_keepFirst_iff {p : α → Prop} :
    (∀ a ∈ keepFirst key records, p a) ↔ ∀ k a, first key records k = some a → p a := by
  constructor
  · intro h k a hfirst
    exact h a (mem_keepFirst.2 (first_key hfirst ▸ hfirst))
  · intro h a ha
    exact h _ a (mem_keepFirst.1 ha)

theorem keepFirst_eq_nil : keepFirst key records = [] ↔ records = [] := by
  refine ⟨fun h => ?_, fun h => by rw [h]; rfl⟩
  rw [List.eq_nil_iff_forall_not_mem]
  intro a ha
  obtain ⟨b, hb⟩ := exists_first key ha
  have hmem : b ∈ keepFirst key records := mem_keepFirst.2 (first_key hb ▸ hb)
  rw [h] at hmem
  exact absurd hmem (by simp)

theorem first_insert_of_ne {before behind : List α} (h : key a ≠ k) :
    first key (before ++ a :: behind) k = first key (before ++ behind) k := by
  have hskip : first key (a :: behind) k = first key behind k := by
    simp [first, h]
  rw [first_append, first_append, hskip]

/-- With the records of a property in front, it holds of what is found under every key that has such a
record. -/
theorem first_filter_append (key : α → κ) (p : α → Bool) (hb : b ∈ records) (hp : p b = true) :
    ∃ a, first key (records.filter p ++ records.filter fun a => !p a) (key b) = some a ∧
      p a = true := by
  obtain ⟨a, ha⟩ := exists_first key (List.mem_filter.2 ⟨hb, hp⟩)
  refine ⟨a, ?_, (List.mem_filter.1 (first_mem ha)).2⟩
  rw [first_append, ha, Option.some_or]

end Kept
