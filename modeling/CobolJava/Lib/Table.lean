/-
**Tables with a primary key.**

A table of a relational store: its rows in the order they are held, no two under one key.  The
statements of the modelled programs insert one row, or rewrite every row a condition picks without
touching its key, so that reading a key back is decided row by row.

Main definitions:

* `Table` — the rows, with the uniqueness of the keys as a field;
* `Table.find?` — the row under a key;
* `Table.insert` — `INSERT`, refused when the key is taken;
* `Table.update`, `Table.rowcount` — `UPDATE … WHERE`, and the number of rows it matches.

Main results:

* `Table.ext_find?` — two tables with the same rows under every key hold the same rows;
* `Table.find?_insert`, `Table.find?_update` — **reading after writing**;
* `Table.rowcount_key_eq_zero` — an update of one key matches no row exactly when the key is absent
  or its row fails the rest of the condition.
-/

import Mathlib.Data.List.Nodup
import Mathlib.Data.List.Perm.Basic
import Mathlib.Tactic.Common

set_option autoImplicit false

/-- Rows of type `α`, no two under one key. -/
structure Table {α κ : Type*} (key : α → κ) where
  /-- The rows. -/
  rows : List α
  /-- The primary key is unique. -/
  unique : (rows.map key).Nodup

namespace Table

variable {α κ : Type*} {key : α → κ}

theorem ext_rows {t t' : Table key} (h : t.rows = t'.rows) : t = t' := by
  cases t
  cases t'
  congr

def empty : Table key := ⟨[], List.nodup_nil⟩

theorem eq_of_key_eq {t : Table key} {a b : α} (ha : a ∈ t.rows) (hb : b ∈ t.rows)
    (h : key a = key b) : a = b :=
  List.inj_on_of_nodup_map t.unique ha hb h

/-! ### Statements -/

/-- The update of every row the condition picks; the key of a row stays. -/
def update (t : Table key) (p : α → Bool) (f : α → α) (hf : ∀ a, key (f a) = key a) :
    Table key :=
  ⟨t.rows.map fun a => if p a then f a else a, by
    have hk : (fun a => key (if p a then f a else a)) = key := by
      funext a
      split_ifs
      · exact hf a
      · rfl
    rw [List.map_map, Function.comp_def, hk]
    exact t.unique⟩

@[simp] theorem update_rows (t : Table key) (p : α → Bool) (f : α → α)
    (hf : ∀ a, key (f a) = key a) :
    (t.update p f hf).rows = t.rows.map fun a => if p a then f a else a := rfl

/-- The number of rows the condition picks. -/
def rowcount (t : Table key) (p : α → Bool) : ℕ := t.rows.countP p

theorem update_of_rowcount_eq_zero {t : Table key} {p : α → Bool} {f : α → α}
    {hf : ∀ a, key (f a) = key a} (h : t.rowcount p = 0) : t.update p f hf = t := by
  refine ext_rows ?_
  rw [rowcount, List.countP_eq_zero] at h
  rw [update_rows]
  refine (List.map_congr_left fun a ha => ?_).trans (List.map_id _)
  rw [if_neg (h a ha)]
  rfl

variable [DecidableEq κ]

def find? (t : Table key) (k : κ) : Option α := t.rows.find? fun a => decide (key a = k)

@[simp] theorem find?_empty (k : κ) : (empty : Table key).find? k = none := rfl

theorem find?_key {t : Table key} {k : κ} {a : α} (h : t.find? k = some a) : key a = k := by
  simpa using List.find?_some h

theorem mem_of_find? {t : Table key} {k : κ} {a : α} (h : t.find? k = some a) : a ∈ t.rows :=
  List.mem_of_find?_eq_some h

theorem find?_of_mem {t : Table key} {a : α} (ha : a ∈ t.rows) : t.find? (key a) = some a := by
  cases h : t.find? (key a) with
  | none =>
      rw [find?, List.find?_eq_none] at h
      have hne : ¬key a = key a := by simpa only [decide_eq_true_eq] using h a ha
      exact absurd rfl hne
  | some b => rw [eq_of_key_eq (mem_of_find? h) ha (find?_key h)]

theorem find?_eq_some_iff {t : Table key} {k : κ} {a : α} :
    t.find? k = some a ↔ a ∈ t.rows ∧ key a = k := by
  constructor
  · intro h
    exact ⟨mem_of_find? h, find?_key h⟩
  · rintro ⟨ha, rfl⟩
    exact find?_of_mem ha

/-- The table with a row more, unless its key is taken. -/
def insert (t : Table key) (a : α) : Option (Table key) :=
  if h : key a ∈ t.rows.map key then none
  else some ⟨t.rows ++ [a], by
    rw [List.map_append, List.nodup_append]
    refine ⟨t.unique, List.nodup_singleton _, ?_⟩
    rintro k hk _ hk' rfl
    obtain rfl : k = key a := by simpa using hk'
    exact h hk⟩

theorem insert_eq_none_iff {t : Table key} {a : α} :
    t.insert a = none ↔ ∃ b, t.find? (key a) = some b := by
  rw [insert]
  split_ifs with h
  · obtain ⟨b, hb, hk⟩ := List.mem_map.1 h
    exact ⟨fun _ => ⟨b, find?_eq_some_iff.2 ⟨hb, hk⟩⟩, fun _ => rfl⟩
  · refine ⟨nofun, ?_⟩
    rintro ⟨b, hb⟩
    exact absurd (List.mem_map.2 ⟨b, mem_of_find? hb, find?_key hb⟩) h

theorem insert_rows {t t' : Table key} {a : α} (h : t.insert a = some t') :
    t'.rows = t.rows ++ [a] := by
  rw [insert] at h
  split_ifs at h
  rw [← Option.some.inj h]

/-- **Reading after an insertion.** -/
theorem find?_insert {t t' : Table key} {a : α} (h : t.insert a = some t') (k : κ) :
    t'.find? k = if key a = k then some a else t.find? k := by
  have hnone : t.find? (key a) = none := by
    cases hf : t.find? (key a) with
    | none => rfl
    | some b => rw [insert_eq_none_iff.2 ⟨b, hf⟩] at h; cases h
  rw [find?, insert_rows h, List.find?_append]
  split_ifs with hk
  · subst hk
    rw [show List.find? (fun b => decide (key b = key a)) t.rows = none from hnone]
    simp
  · simp [hk, find?]

/-- **Reading after an update.** -/
theorem find?_update (t : Table key) (p : α → Bool) (f : α → α) (hf : ∀ a, key (f a) = key a)
    (k : κ) :
    (t.update p f hf).find? k = (t.find? k).map fun a => if p a then f a else a := by
  have hk : (fun a => decide (key (if p a then f a else a) = k)) = fun a => decide (key a = k) := by
    funext a
    split_ifs
    · rw [hf]
    · rfl
  rw [find?, update_rows, List.find?_map, Function.comp_def, hk]
  rfl

/-- An update of one key matches no row exactly when the key is absent or its row fails the rest of
the condition. -/
theorem rowcount_key_eq_zero {t : Table key} {k : κ} {p : α → Bool} :
    (t.rowcount fun a => decide (key a = k) && p a) = 0 ↔
      ∀ a, t.find? k = some a → p a = false := by
  rw [rowcount, List.countP_eq_zero]
  constructor
  · intro h a ha
    have hp := h a (mem_of_find? ha)
    simpa [find?_key ha] using hp
  · intro h a ha
    simp only [Bool.and_eq_true, decide_eq_true_eq, not_and]
    rintro rfl
    simp [h a (find?_of_mem ha)]

end Table
