/-
**Python text and loops.**

The string operations of the standard library the modelled programs call, on Lean's `String`, and
the `for i, x in enumerate(xs)` loop that appends to a list.  `repr` and the text of a set are left
to a parameter, `Py.Rendering`: the first depends on the interpreter's table of printable
characters, the second on the hash seed of the process.

Main definitions:

* `Py.startswith`, `Py.strip` — prefixes and white space;
* `Py.Rendering` — the interpreter's own renderings;
* `Py.collect` — the loop that collects what each position of a list yields;
* `Py.lastBy` — looking up in a dict built from a list.

Main results:

* `Py.collect_eq_nil` — nothing is collected exactly when no position yields anything;
* `Py.collect_map` — a loop over the image of a list;
* `Py.lastBy_eq_some_of_unique` — an element of a dict built from a list is found under its own key
  when no other element carries that key.
-/

import Mathlib.Data.List.Sort
import Mathlib.Data.List.Dedup
import Mathlib.Data.String.Basic

set_option autoImplicit false

namespace Py

/-! ### Strings -/

/-- The method `s.startswith(p)`. -/
def startswith (s p : String) : Bool := p.toList.isPrefixOf s.toList

theorem startswith_iff {s p : String} : startswith s p = true ↔ p.toList <+: s.toList :=
  List.isPrefixOf_iff_prefix

/-- The white space of `str.isspace`. -/
def isSpace (c : Char) : Bool :=
  let n := c.toNat
  (9 ≤ n && n ≤ 13) || (28 ≤ n && n ≤ 32) || n == 133 || n == 160 || n == 5760 ||
    (8192 ≤ n && n ≤ 8202) || n == 8232 || n == 8233 || n == 8239 || n == 8287 || n == 12288

/-- The method `s.strip()`. -/
def strip (s : String) : String :=
  String.ofList (((s.toList.dropWhile isSpace).reverse.dropWhile isSpace).reverse)

/-- The renderings of values that are the interpreter's own: `repr(s)` of a string, and `str` of a
set whose elements were added in the given order. -/
structure Rendering where
  /-- `repr(s)`. -/
  repr : String → String
  /-- `str({x for x in xs})`. -/
  setStr : List String → String

def Rendering.listStr (py : Rendering) (xs : List String) : String :=
  "[" ++ ", ".intercalate (xs.map py.repr) ++ "]"

/-- `sorted({x for x in xs})`. -/
def sortedSet (xs : List String) : List String := xs.dedup.insertionSort (· ≤ ·)

/-! ### The collecting loop -/

section Collect

variable {α β γ : Type*}

/-- What `for i, x in enumerate(xs): out.extend(f(i, x))` leaves in `out`. -/
def collect (xs : List α) (f : ℕ → α → List β) : List β :=
  xs.zipIdx.flatMap fun p => f p.2 p.1

theorem collect_eq_nil {xs : List α} {f : ℕ → α → List β} {P : α → Prop}
    (hf : ∀ i x, f i x = [] ↔ P x) : collect xs f = [] ↔ ∀ x ∈ xs, P x := by
  rw [collect, List.flatMap_eq_nil_iff]
  constructor
  · intro h x hx
    obtain ⟨i, hi⟩ := List.mem_iff_getElem?.1 hx
    exact (hf i x).1 (h (x, i) (List.mk_mem_zipIdx_iff_getElem?.2 hi))
  · rintro h ⟨x, i⟩ hp
    exact (hf i x).2 (h x (List.fst_mem_of_mem_zipIdx hp))

theorem collect_map (g : α → γ) (xs : List α) (f : ℕ → γ → List β) :
    collect (xs.map g) f = collect xs fun i x => f i (g x) := by
  rw [collect, collect, List.zipIdx_map, List.flatMap_map]
  rfl

end Collect

/-! ### Looking up in a dict built from a list -/

section LastBy

variable {α κ : Type*} [DecidableEq κ]

/-- The lookup `{key(x): x for x in xs}.get(k)`: a later element overwrites an earlier one of the
same key. -/
def lastBy (key : α → κ) (xs : List α) (k : κ) : Option α :=
  xs.reverse.find? fun x => decide (key x = k)

theorem lastBy_mem {key : α → κ} {xs : List α} {k : κ} {x : α} (h : lastBy key xs k = some x) :
    x ∈ xs :=
  List.mem_reverse.1 (List.mem_of_find?_eq_some h)

theorem lastBy_key (key : α → κ) {xs : List α} {k : κ} {x : α} (h : lastBy key xs k = some x) :
    key x = k := by
  simpa using List.find?_some h

theorem lastBy_isSome (key : α → κ) {xs : List α} {x : α} (hx : x ∈ xs) :
    ∃ y, lastBy key xs (key x) = some y := by
  rw [← Option.isSome_iff_exists, lastBy, List.find?_isSome]
  exact ⟨x, List.mem_reverse.2 hx, by simp⟩

theorem lastBy_eq_some_of_unique {key : α → κ} {xs : List α} {x : α} (hx : x ∈ xs)
    (huniq : ∀ y ∈ xs, key y = key x → y = x) : lastBy key xs (key x) = some x := by
  obtain ⟨y, hy⟩ := lastBy_isSome key hx
  rw [hy, huniq y (lastBy_mem hy) (lastBy_key key hy)]

theorem lastBy_append (key : α → κ) (xs ys : List α) (k : κ) :
    lastBy key (xs ++ ys) k = (lastBy key ys k).or (lastBy key xs k) := by
  rw [lastBy, List.reverse_append, List.find?_append]
  rfl

theorem lastBy_map {β : Type*} (g : α → β) (key : β → κ) (xs : List α) (k : κ) :
    lastBy key (xs.map g) k = (lastBy (fun x => key (g x)) xs k).map g := by
  simp only [lastBy, ← List.map_reverse, List.find?_map]
  rfl

end LastBy

end Py
