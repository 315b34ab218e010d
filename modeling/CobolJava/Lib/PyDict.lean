/-
**Dicts with string keys.**

A dict compares by content: two dicts are equal when they hold the same keys with the same values,
whatever the order of insertion.  `PyDict` holds the entries in key order, each key once, so that
equality of dicts is equality in Lean; the order is also the one `json.dumps(sort_keys=True)`
prints.

Main definitions:

* `PyDict` — the dicts, with the order of the keys as a field;
* `PyDict.get?`, `PyDict.map` — lookup, and the comprehension `{k: f(v) for k, v in d.items()}`;
* `PyDict.ofList` — the dict of some entries.

Main results:

* `PyDict.ext_entries` — a dict is its entries;
* `PyDict.map_injective` — mapping the values along an injective function is injective;
* `PyDict.ofList_entries` — a dict is built from its own entries.
-/

import Mathlib.Data.List.Sort
import Mathlib.Data.String.Basic

set_option autoImplicit false

/-- A dict with string keys, as its entries in key order. -/
structure PyDict (α : Type*) where
  /-- The entries. -/
  entries : List (String × α)
  /-- The keys are strictly increasing. -/
  sorted : entries.Pairwise fun a b => a.1 < b.1
deriving DecidableEq

namespace PyDict

variable {α β : Type*}

theorem ext_entries {d d' : PyDict α} (h : d.entries = d'.entries) : d = d' := by
  cases d
  cases d'
  congr

def empty : PyDict α := ⟨[], List.Pairwise.nil⟩

/-- The lookup `d.get(k)`. -/
def get? (d : PyDict α) (k : String) : Option α :=
  (d.entries.find? fun e => decide (e.1 = k)).map Prod.snd

def keys (d : PyDict α) : List String := d.entries.map Prod.fst

theorem mem_keys_iff {d : PyDict α} {k : String} : k ∈ d.keys ↔ ∃ v, d.get? k = some v := by
  simp only [keys, get?, List.mem_map, Option.map_eq_some_iff]
  constructor
  · rintro ⟨e, he, rfl⟩
    have hfound : (d.entries.find? fun f => decide (f.1 = e.1)).isSome := by
      rw [List.find?_isSome]
      exact ⟨e, he, by simp⟩
    obtain ⟨f, hf⟩ := Option.isSome_iff_exists.1 hfound
    exact ⟨f.2, f, hf, rfl⟩
  · rintro ⟨v, e, he, -⟩
    exact ⟨e, List.mem_of_find?_eq_some he, by simpa using List.find?_some he⟩

/-- The comprehension `{k: f(v) for k, v in d.items()}`. -/
def map (f : α → β) (d : PyDict α) : PyDict β :=
  ⟨d.entries.map fun e => (e.1, f e.2), by
    rw [List.pairwise_map]
    exact d.sorted⟩

@[simp] theorem map_entries (f : α → β) (d : PyDict α) :
    (d.map f).entries = d.entries.map fun e => (e.1, f e.2) := rfl

theorem map_injective {f : α → β} (hf : Function.Injective f) :
    Function.Injective (map f) := by
  intro d d' h
  have he : d.entries.map (fun e => (e.1, f e.2)) = d'.entries.map fun e => (e.1, f e.2) :=
    congrArg entries h
  refine ext_entries (List.map_injective_iff.2 ?_ he)
  rintro ⟨k, a⟩ ⟨k', a'⟩ hp
  simp only [Prod.mk.injEq] at hp
  rw [hp.1, hf hp.2]

/-! ### Building a dict -/

/-- The entries with one more, in its place; the value of a key that is held is replaced. -/
def insertSorted (k : String) (a : α) : List (String × α) → List (String × α)
  | [] => [(k, a)]
  | e :: es =>
      if k < e.1 then (k, a) :: e :: es
      else if k = e.1 then (k, a) :: es
      else e :: insertSorted k a es

theorem mem_insertSorted {k : String} {a : α} {es : List (String × α)} {e : String × α}
    (h : e ∈ insertSorted k a es) : e = (k, a) ∨ e ∈ es := by
  induction es with
  | nil => exact .inl (List.mem_singleton.1 h)
  | cons f es ih =>
      rw [insertSorted] at h
      split_ifs at h
      · exact List.mem_cons.1 h
      · rcases List.mem_cons.1 h with h | h
        · exact .inl h
        · exact .inr (List.mem_cons_of_mem _ h)
      · rcases List.mem_cons.1 h with rfl | h
        · exact .inr (List.mem_cons_self ..)
        · exact (ih h).imp_right (List.mem_cons_of_mem _)

theorem sorted_insertSorted (k : String) (a : α) {es : List (String × α)}
    (h : es.Pairwise fun a b => a.1 < b.1) :
    (insertSorted k a es).Pairwise fun a b => a.1 < b.1 := by
  induction es with
  | nil => exact List.pairwise_singleton ..
  | cons f es ih =>
      rw [List.pairwise_cons] at h
      rw [insertSorted]
      split_ifs with hlt heq
      · refine List.pairwise_cons.2 ⟨fun e he => ?_, List.pairwise_cons.2 h⟩
        rcases List.mem_cons.1 he with rfl | he
        · exact hlt
        · exact hlt.trans (h.1 e he)
      · exact List.pairwise_cons.2 ⟨fun e he => heq ▸ h.1 e he, h.2⟩
      · refine List.pairwise_cons.2 ⟨fun e he => ?_, ih h.2⟩
        rcases mem_insertSorted he with rfl | he
        · exact lt_of_le_of_ne (not_lt.1 hlt) fun hk => heq hk.symm
        · exact h.1 e he

def insert (d : PyDict α) (k : String) (a : α) : PyDict α :=
  ⟨insertSorted k a d.entries, sorted_insertSorted k a d.sorted⟩

/-- The dict of some entries; of two with one key the later counts. -/
def ofList (es : List (String × α)) : PyDict α := es.foldl (fun d e => d.insert e.1 e.2) empty

theorem insertSorted_of_lt {k : String} {a : α} {es : List (String × α)}
    (h : ∀ e ∈ es, e.1 < k) : insertSorted k a es = es ++ [(k, a)] := by
  induction es with
  | nil => rfl
  | cons e es ih =>
      have he := h e (List.mem_cons_self ..)
      rw [insertSorted, if_neg he.asymm, if_neg he.ne',
        ih fun e' he' => h e' (List.mem_cons_of_mem _ he')]
      rfl

theorem foldl_insert (es : List (String × α)) (d : PyDict α)
    (h : (d.entries ++ es).Pairwise fun a b => a.1 < b.1) :
    (es.foldl (fun d e => d.insert e.1 e.2) d).entries = d.entries ++ es := by
  induction es generalizing d with
  | nil => simp
  | cons e es ih =>
      have hlt : ∀ e' ∈ d.entries, e'.1 < e.1 := fun e' he' =>
        (List.pairwise_append.1 h).2.2 e' he' e (List.mem_cons_self ..)
      have hins : (d.insert e.1 e.2).entries = d.entries ++ [e] := insertSorted_of_lt hlt
      rw [List.foldl_cons, ih _ (by rw [hins]; simpa using h), hins]
      simp

/-- **A dict is built from its own entries.** -/
theorem ofList_entries (d : PyDict α) : ofList d.entries = d :=
  ext_entries (foldl_insert d.entries empty d.sorted)

theorem mem_ofList {es : List (String × α)} {e : String × α} (h : e ∈ (ofList es).entries) :
    e ∈ es := by
  have hfold : ∀ (es : List (String × α)) (d : PyDict α),
      e ∈ (es.foldl (fun d e => d.insert e.1 e.2) d).entries → e ∈ d.entries ∨ e ∈ es := by
    intro es
    induction es with
    | nil => exact fun d hd => .inl hd
    | cons f es ih =>
        intro d hd
        rcases ih _ hd with hd | hd
        · rcases mem_insertSorted hd with rfl | hd
          · exact .inr (List.mem_cons_self ..)
          · exact .inl hd
        · exact .inr (List.mem_cons_of_mem _ hd)
  rcases hfold es empty h with hd | hd
  · cases hd
  · exact hd

end PyDict
