/-
**Values of business invariants.**

What a declaration of `engine/verification/business_invariants.py` expects and what an execution
leaves behind, the canonical form `canonical_value` gives it in a report, and the comparison with a
value that was read from a JSON document.

Main definitions:

* `Business.Value` — the values;
* `Business.canonicalValue` — the canonical form;
* `Business.ofParsed`, `Business.jsonEqual` — a parsed value that is observed, and its comparison.

Main results:

* `Business.ordered_canonicalValue` — a canonical form holds its entries in the order of their keys.
-/

import CobolJava.Lib.PyJsonText

set_option autoImplicit false

namespace CobolJava.Business

open Py (Bytes)

/-! ### Values -/

/-- The values a declaration expects or an execution leaves behind. -/
inductive Value
  | none
  | bool (b : Bool)
  | int (z : ℤ)
  | decimal (d : Py.Decimal)
  | str (s : PyStr)
  | bytes (content : Bytes)
  | list (items : List Value)
  | tuple (items : List Value)
  /-- A mapping, with its entries in the order of their keys. -/
  | mapping (entries : List (PyStr × Value))
  /-- A value of another type, such as a float. -/
  | other (typeName : String)

mutual

/-- Every mapping holds its keys in order, each of them once. -/
def Value.WellFormed : Value → Prop
  | .list items => WellFormedItems items
  | .tuple items => WellFormedItems items
  | .mapping entries => (entries.Pairwise fun a b => a.1 < b.1) ∧ WellFormedEntries entries
  | _ => True

def WellFormedItems : List Value → Prop
  | [] => True
  | v :: vs => v.WellFormed ∧ WellFormedItems vs

def WellFormedEntries : List (PyStr × Value) → Prop
  | [] => True
  | (_, v) :: es => v.WellFormed ∧ WellFormedEntries es

end

theorem wellFormedItems_map {α : Type} {f : α → Value} (hf : ∀ a, (f a).WellFormed) (xs : List α) :
    WellFormedItems (xs.map f) := by
  induction xs with
  | nil => trivial
  | cons x xs ih => exact ⟨hf x, ih⟩

/-! ### Canonical forms -/

/-- A text as a string of a document. -/
def text (s : String) : PyJson := .str (PyStr.of s)

def tagged (tag : String) (s : List Char) : PyJson :=
  .obj [(PyStr.of tag, .str (s.map Char.toNat))]

mutual

/-- `canonical_value`, if it raises no exception. -/
def canonicalValue : Value → Option PyJson
  | .none => some .null
  | .bool b => some (.bool b)
  | .int z => some (.int z)
  | .decimal d => some (tagged "$decimal" d.format)
  | .str s => some (.str s)
  | .bytes content => some (tagged "$bytes_hex" (Py.hex content))
  | .list items => (canonicalItems items).map .arr
  | .tuple items => (canonicalItems items).map .arr
  | .mapping entries => (canonicalEntries entries).map .obj
  | .other _ => none

def canonicalItems : List Value → Option (List PyJson)
  | [] => some []
  | v :: vs => (canonicalValue v).bind fun j => (canonicalItems vs).map (j :: ·)

def canonicalEntries : List (PyStr × Value) → Option (List (PyStr × PyJson))
  | [] => some []
  | (k, v) :: es =>
      (canonicalValue v).bind fun j => (canonicalEntries es).map ((k, j) :: ·)

end

theorem keys_canonicalEntries {es : List (PyStr × Value)} {fs : List (PyStr × PyJson)}
    (h : canonicalEntries es = some fs) : fs.map Prod.fst = es.map Prod.fst := by
  induction es generalizing fs with
  | nil =>
      rw [canonicalEntries, Option.some.injEq] at h
      rw [← h]
      rfl
  | cons e es ih =>
      obtain ⟨k, v⟩ := e
      rw [canonicalEntries, Option.bind_eq_some_iff] at h
      obtain ⟨j, -, h⟩ := h
      rw [Option.map_eq_some_iff] at h
      obtain ⟨fs', hfs', rfl⟩ := h
      rw [List.map_cons, List.map_cons, ih hfs']

theorem ordered_tagged (tag : String) (s : List Char) : (tagged tag s).Ordered :=
  ⟨List.pairwise_singleton .., trivial, trivial⟩

mutual

/-- A canonical form holds its entries in the order of their keys. -/
theorem ordered_canonicalValue : ∀ (v : Value) {j : PyJson}, v.WellFormed →
    canonicalValue v = some j → j.Ordered
  | .none, j, _, h => by cases h; trivial
  | .bool b, j, _, h => by cases h; trivial
  | .int z, j, _, h => by cases h; trivial
  | .decimal d, j, _, h => by cases h; exact ordered_tagged _ _
  | .str s, j, _, h => by cases h; trivial
  | .bytes content, j, _, h => by cases h; exact ordered_tagged _ _
  | .list items, j, hv, h => by
      rw [canonicalValue, Option.map_eq_some_iff] at h
      obtain ⟨xs, hxs, rfl⟩ := h
      exact ordered_canonicalItems items hv hxs
  | .tuple items, j, hv, h => by
      rw [canonicalValue, Option.map_eq_some_iff] at h
      obtain ⟨xs, hxs, rfl⟩ := h
      exact ordered_canonicalItems items hv hxs
  | .mapping entries, j, hv, h => by
      rw [canonicalValue, Option.map_eq_some_iff] at h
      obtain ⟨fs, hfs, rfl⟩ := h
      refine ⟨?_, ordered_canonicalEntries entries hv.2 hfs⟩
      have hkeys : (fs.map Prod.fst).Pairwise (· < ·) := by
        rw [keys_canonicalEntries hfs, List.pairwise_map]
        exact hv.1
      exact List.pairwise_map.1 hkeys
  | .other _, j, _, h => by cases h

theorem ordered_canonicalItems : ∀ (vs : List Value) {xs : List PyJson}, WellFormedItems vs →
    canonicalItems vs = some xs → PyJson.OrderedItems xs
  | [], xs, _, h => by cases h; trivial
  | v :: vs, xs, hv, h => by
      rw [canonicalItems, Option.bind_eq_some_iff] at h
      obtain ⟨j, hj, h⟩ := h
      rw [Option.map_eq_some_iff] at h
      obtain ⟨xs', hxs', rfl⟩ := h
      exact ⟨ordered_canonicalValue v hv.1 hj, ordered_canonicalItems vs hv.2 hxs'⟩

theorem ordered_canonicalEntries : ∀ (es : List (PyStr × Value)) {fs : List (PyStr × PyJson)},
    WellFormedEntries es → canonicalEntries es = some fs → PyJson.OrderedFields fs
  | [], fs, _, h => by cases h; trivial
  | (k, v) :: es, fs, hv, h => by
      rw [canonicalEntries, Option.bind_eq_some_iff] at h
      obtain ⟨j, hj, h⟩ := h
      rw [Option.map_eq_some_iff] at h
      obtain ⟨fs', hfs', rfl⟩ := h
      exact ⟨ordered_canonicalValue v hv.1 hj, ordered_canonicalEntries es hv.2 hfs'⟩

end

/-! ### Parsed values -/

mutual

/-- A parsed value as an observed one. -/
def ofParsed : PyJson → Value
  | .null => .none
  | .bool b => .bool b
  | .int z => .int z
  | .decimal d => .decimal d
  | .constant _ => .other "float"
  | .str s => .str s
  | .arr xs => .list (ofParsedItems xs)
  | .obj fs => .mapping (ofParsedEntries fs)

def ofParsedItems : List PyJson → List Value
  | [] => []
  | x :: xs => ofParsed x :: ofParsedItems xs

def ofParsedEntries : List (PyStr × PyJson) → List (PyStr × Value)
  | [] => []
  | (k, v) :: fs => (k, ofParsed v) :: ofParsedEntries fs

end

theorem keys_ofParsedEntries (fs : List (PyStr × PyJson)) :
    (ofParsedEntries fs).map Prod.fst = fs.map Prod.fst := by
  induction fs with
  | nil => rfl
  | cons f fs ih => rw [ofParsedEntries, List.map_cons, List.map_cons, ih]

mutual

theorem wellFormed_ofParsed : ∀ {j : PyJson}, j.Ordered → (ofParsed j).WellFormed
  | .null, _ => trivial
  | .bool _, _ => trivial
  | .int _, _ => trivial
  | .decimal _, _ => trivial
  | .constant _, _ => trivial
  | .str _, _ => trivial
  | .arr _, h => wellFormed_ofParsedItems h
  | .obj fs, h => by
      refine ⟨?_, wellFormed_ofParsedEntries h.2⟩
      have hkeys : ((ofParsedEntries fs).map Prod.fst).Pairwise (· < ·) := by
        rw [keys_ofParsedEntries, List.pairwise_map]
        exact h.1
      exact List.pairwise_map.1 hkeys

theorem wellFormed_ofParsedItems : ∀ {xs : List PyJson}, PyJson.OrderedItems xs →
    WellFormedItems (ofParsedItems xs)
  | [], _ => trivial
  | _ :: _, h => ⟨wellFormed_ofParsed h.1, wellFormed_ofParsedItems h.2⟩

theorem wellFormed_ofParsedEntries : ∀ {fs : List (PyStr × PyJson)}, PyJson.OrderedFields fs →
    WellFormedEntries (ofParsedEntries fs)
  | [], _ => trivial
  | (_, _) :: _, h => ⟨wellFormed_ofParsed h.1, wellFormed_ofParsedEntries h.2⟩

end

/-- The number a Boolean, an integer or a decimal stands for. -/
def parsedNumber : PyJson → Option ℚ
  | .bool b => some (if b then 1 else 0)
  | .int z => some z
  | .decimal d => some d.toRat
  | _ => none

def declaredNumber : Value → Option ℚ
  | .bool b => some (if b then 1 else 0)
  | .int z => some z
  | .decimal d => some d.toRat
  | _ => none

mutual

/-- `actual == expected`: numbers compare by their values, lists with lists and dicts with
mappings. -/
def pyEq : PyJson → Value → Bool
  | .null, .none => true
  | .str s, .str t => s = t
  | .arr xs, .list vs => pyEqItems xs vs
  | .obj fs, .mapping es => pyEqEntries fs es
  | j, v =>
      match parsedNumber j, declaredNumber v with
      | some p, some q => p = q
      | _, _ => false

def pyEqItems : List PyJson → List Value → Bool
  | [], [] => true
  | x :: xs, v :: vs => pyEq x v && pyEqItems xs vs
  | _, _ => false

def pyEqEntries : List (PyStr × PyJson) → List (PyStr × Value) → Bool
  | [], [] => true
  | (k, x) :: fs, (l, v) :: es => decide (k = l) && pyEq x v && pyEqEntries fs es
  | _, _ => false

end

/-- The decimal a string denotes, if it denotes a finite one. -/
def decimalOfStr (s : PyStr) : Option Py.Decimal :=
  if s.all PyJson.isScalar then Py.Decimal.ofText (s.map Char.ofNat) else none

/-- `_json_equal` -/
def jsonEqual (actual : PyJson) (expected : Value) : Bool :=
  match actual, expected with
  | .decimal d, .decimal e => d.toRat = e.toRat
  | .decimal d, .int z => d.toRat = z
  | .decimal d, .str s => (decimalOfStr s).any fun e => d.toRat = e.toRat
  | .decimal _, _ => false
  | .int z, .decimal e => (z : ℚ) = e.toRat
  | .int z, .str s => (decimalOfStr s).any fun e => (z : ℚ) = e.toRat
  | j, v => pyEq j v

end CobolJava.Business
