/-
**Maps with ordered keys.**

A map whose entries stand in ascending key order, each key once, as `java.util.TreeMap` iterates
them.  Two maps are equal exactly when they hold the same entries.

Main definitions:

* `SortedMap` — the maps, with the order of the keys as a field;
* `SortedMap.put`, `SortedMap.remove`, `SortedMap.get?` — insertion, removal and lookup;
* `SortedMap.first?`, `SortedMap.higher?`, `SortedMap.lower?`, `SortedMap.ceiling?`,
  `SortedMap.floor?` — the entries next to a key.

Main results:

* `SortedMap.put_forall`, `SortedMap.remove_forall` — a property of all entries is kept;
* `SortedMap.foldl_put_entries` — **a map is built from its own entries**.
-/

import Mathlib

set_option autoImplicit false

/-- A map with ordered keys, as its entries in key order. -/
structure SortedMap (κ : Type*) (α : Type*) [LinearOrder κ] where
  /-- The entries. -/
  entries : List (κ × α)
  /-- The keys are strictly increasing. -/
  sorted : entries.Pairwise fun a b => a.1 < b.1

namespace SortedMap

variable {κ α : Type*} [LinearOrder κ]

instance [DecidableEq α] : DecidableEq (SortedMap κ α) := fun m m' =>
  decidable_of_iff (m.entries = m'.entries) ⟨fun h => by cases m; cases m'; congr, fun h => h ▸ rfl⟩

@[ext] theorem ext_entries {m m' : SortedMap κ α} (h : m.entries = m'.entries) : m = m' := by
  cases m
  cases m'
  congr

/-- `new TreeMap<>()` -/
def empty : SortedMap κ α := ⟨[], List.Pairwise.nil⟩

@[simp] theorem empty_entries : (empty : SortedMap κ α).entries = [] := rfl

/-- `m.isEmpty()` -/
def isEmpty (m : SortedMap κ α) : Bool := m.entries.isEmpty

/-- `m.get(k)` -/
def get? (m : SortedMap κ α) (k : κ) : Option α :=
  (m.entries.find? fun e => e.1 = k).map Prod.snd

/-- `m.containsKey(k)` -/
def contains (m : SortedMap κ α) (k : κ) : Bool :=
  m.entries.any fun e => e.1 = k

theorem mem_of_contains {m : SortedMap κ α} {k : κ} (h : m.contains k = true) :
    ∃ a, (k, a) ∈ m.entries := by
  obtain ⟨⟨k', a⟩, he, hk⟩ := List.any_eq_true.1 h
  obtain rfl : k' = k := by simpa using hk
  exact ⟨a, he⟩

/-! ### Neighbours of a key -/

/-- `m.firstEntry()` -/
def first? (m : SortedMap κ α) : Option (κ × α) := m.entries.head?

/-- `m.higherEntry(k)` -/
def higher? (m : SortedMap κ α) (k : κ) : Option (κ × α) := m.entries.find? fun e => k < e.1

/-- `m.ceilingEntry(k)` -/
def ceiling? (m : SortedMap κ α) (k : κ) : Option (κ × α) := m.entries.find? fun e => k ≤ e.1

/-- `m.lowerEntry(k)` -/
def lower? (m : SortedMap κ α) (k : κ) : Option (κ × α) :=
  m.entries.reverse.find? fun e => e.1 < k

/-- `m.floorEntry(k)` -/
def floor? (m : SortedMap κ α) (k : κ) : Option (κ × α) :=
  m.entries.reverse.find? fun e => e.1 ≤ k

/-- The entries of `m.tailMap(k, false)`. -/
def above (m : SortedMap κ α) (k : κ) : List (κ × α) := m.entries.filter fun e => k < e.1

/-- The entries of `m.tailMap(k, true)`. -/
def upward (m : SortedMap κ α) (k : κ) : List (κ × α) := m.entries.filter fun e => k ≤ e.1

theorem higher?_eq_head? (m : SortedMap κ α) (k : κ) : m.higher? k = (m.above k).head? := by
  rw [higher?, above, List.head?_filter]

theorem mem_above {m : SortedMap κ α} {k : κ} {e : κ × α} :
    e ∈ m.above k ↔ e ∈ m.entries ∧ k < e.1 := by
  rw [above, List.mem_filter, decide_eq_true_iff]

theorem mem_upward {m : SortedMap κ α} {k : κ} {e : κ × α} :
    e ∈ m.upward k ↔ e ∈ m.entries ∧ k ≤ e.1 := by
  rw [upward, List.mem_filter, decide_eq_true_iff]

theorem lower?_lt {m : SortedMap κ α} {k : κ} {e : κ × α} (h : m.lower? k = some e) : e.1 < k := by
  rw [lower?] at h
  simpa using List.find?_some h

theorem filter_above_cons {e : κ × α} {es : List (κ × α)}
    (h : (e :: es).Pairwise fun a b => a.1 < b.1) :
    ((e :: es).filter fun f => e.1 < f.1) = es := by
  rw [List.filter_cons_of_neg (by simp), List.filter_eq_self.2]
  exact fun f hf => decide_eq_true ((List.pairwise_cons.1 h).1 f hf)

theorem above_of_entries {m : SortedMap κ α} {e : κ × α} {es : List (κ × α)}
    (h : m.entries = e :: es) : m.above e.1 = es := by
  rw [above, h, filter_above_cons (h ▸ m.sorted)]

theorem above_of_above {m : SortedMap κ α} {k : κ} {e : κ × α} {es : List (κ × α)}
    (h : m.above k = e :: es) : m.above e.1 = es := by
  have hkey : k < e.1 := (mem_above.1 (h ▸ List.mem_cons_self ..)).2
  have hsorted : (e :: es).Pairwise fun a b => a.1 < b.1 := h ▸ m.sorted.filter _
  rw [← filter_above_cons hsorted, ← h, above, above, List.filter_filter]
  refine List.filter_congr fun f _ => ?_
  by_cases hf : e.1 < f.1
  · simp [hf, hkey.trans hf]
  · simp [hf]

/-! ### Insertion and removal -/

/-- The entries with one more, in its place; the value of a key that is held is replaced. -/
def putSorted (k : κ) (a : α) : List (κ × α) → List (κ × α)
  | [] => [(k, a)]
  | e :: es =>
      if k < e.1 then (k, a) :: e :: es
      else if k = e.1 then (k, a) :: es
      else e :: putSorted k a es

attribute [grind =] putSorted

theorem mem_putSorted {k : κ} {a : α} {es : List (κ × α)} {e : κ × α}
    (h : e ∈ putSorted k a es) : e = (k, a) ∨ e ∈ es := by
  induction es with
  | nil => exact .inl (List.mem_singleton.1 h)
  | cons f es ih =>
      rw [putSorted] at h
      split_ifs at h
      · exact List.mem_cons.1 h
      · rcases List.mem_cons.1 h with h | h
        · exact .inl h
        · exact .inr (List.mem_cons_of_mem _ h)
      · rcases List.mem_cons.1 h with rfl | h
        · exact .inr (List.mem_cons_self ..)
        · exact (ih h).imp_right (List.mem_cons_of_mem _)

theorem sorted_putSorted (k : κ) (a : α) {es : List (κ × α)}
    (h : es.Pairwise fun a b => a.1 < b.1) :
    (putSorted k a es).Pairwise fun a b => a.1 < b.1 := by
  induction es with
  | nil => exact List.pairwise_singleton ..
  | cons f es ih =>
      rw [List.pairwise_cons] at h
      rw [putSorted]
      split_ifs with hlt heq
      · refine List.pairwise_cons.2 ⟨fun e he => ?_, List.pairwise_cons.2 h⟩
        rcases List.mem_cons.1 he with rfl | he
        · exact hlt
        · exact hlt.trans (h.1 e he)
      · exact List.pairwise_cons.2 ⟨fun e he => heq ▸ h.1 e he, h.2⟩
      · refine List.pairwise_cons.2 ⟨fun e he => ?_, ih h.2⟩
        rcases mem_putSorted he with rfl | he
        · exact lt_of_le_of_ne (not_lt.1 hlt) fun hk => heq hk.symm
        · exact h.1 e he

theorem find?_putSorted (k : κ) (a : α) (es : List (κ × α)) (key : κ)
    [∀ x : κ, Decidable (x = key)] :
    (putSorted k a es).find? (fun e => decide (e.1 = key)) =
      if k = key then some (k, a) else es.find? fun e => decide (e.1 = key) := by
  induction es with
  | nil =>
      rw [putSorted]
      by_cases hkey : k = key <;> simp [hkey]
  | cons e es ih =>
      rw [putSorted]
      by_cases hlt : k < e.1
      · rw [if_pos hlt]
        by_cases hkey : k = key <;> simp [List.find?_cons, hkey]
      · rw [if_neg hlt]
        by_cases heq : k = e.1
        · rw [if_pos heq]
          by_cases hkey : k = key <;> simp [hkey, ← heq]
        · rw [if_neg heq, List.find?_cons, List.find?_cons, ih]
          by_cases hkey : k = key
          · subst hkey
            simp [Ne.symm heq]
          · simp [hkey]

/-- `m.put(k, a)` -/
def put (m : SortedMap κ α) (k : κ) (a : α) : SortedMap κ α :=
  ⟨putSorted k a m.entries, sorted_putSorted k a m.sorted⟩

/-- `m.remove(k)` -/
def remove (m : SortedMap κ α) (k : κ) : SortedMap κ α :=
  ⟨m.entries.filter fun e => e.1 ≠ k, m.sorted.filter _⟩

theorem put_forall {P : κ × α → Prop} {m : SortedMap κ α} {k : κ} {a : α}
    (h : ∀ e ∈ m.entries, P e) (ha : P (k, a)) : ∀ e ∈ (m.put k a).entries, P e := by
  intro e he
  rcases mem_putSorted he with rfl | he
  · exact ha
  · exact h e he

theorem remove_forall {P : κ × α → Prop} {m : SortedMap κ α} {k : κ}
    (h : ∀ e ∈ m.entries, P e) : ∀ e ∈ (m.remove k).entries, P e :=
  fun e he => h e (List.mem_of_mem_filter he)

/-! ### Building a map from its entries -/

theorem putSorted_of_lt {k : κ} {a : α} {es : List (κ × α)} (h : ∀ e ∈ es, e.1 < k) :
    putSorted k a es = es ++ [(k, a)] := by
  induction es with
  | nil => rfl
  | cons e es ih =>
      have he := h e (List.mem_cons_self ..)
      rw [putSorted, if_neg he.asymm, if_neg he.ne',
        ih fun e' he' => h e' (List.mem_cons_of_mem _ he')]
      rfl

theorem foldl_put (es : List (κ × α)) (m : SortedMap κ α)
    (h : (m.entries ++ es).Pairwise fun a b => a.1 < b.1) :
    (es.foldl (fun m e => m.put e.1 e.2) m).entries = m.entries ++ es := by
  induction es generalizing m with
  | nil => simp
  | cons e es ih =>
      have hlt : ∀ e' ∈ m.entries, e'.1 < e.1 := fun e' he' =>
        (List.pairwise_append.1 h).2.2 e' he' e (List.mem_cons_self ..)
      have hput : (m.put e.1 e.2).entries = m.entries ++ [e] := putSorted_of_lt hlt
      rw [List.foldl_cons, ih _ (by rw [hput]; simpa using h), hput]
      simp

/-- **A map is built from its own entries.** -/
theorem foldl_put_entries (m : SortedMap κ α) :
    m.entries.foldl (fun m e => m.put e.1 e.2) empty = m :=
  ext_entries (foldl_put m.entries empty m.sorted)

end SortedMap
