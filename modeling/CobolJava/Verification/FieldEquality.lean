/-
**The equality that fields of JSON documents are checked with.**

`_json_equal` of `engine/verification/business_invariants.py` converts strings to decimals and keeps
Booleans apart from numbers at the top of a value only, and there not in every case; what lies below
is left to the `==` of Python.

Main definitions:

* `Business.Exact` — what an exact and compositional comparison does;
* `Business.exactEq` — the comparison that does it;
* `Business.respelled`, `Business.boolForNumber` — the pairs that `==` takes otherwise.

Main results:

* `Business.pyEq_of_exactEq`, `Business.exactEq_of_pyEq` — how it differs from `==`;
* `Business.jsonEqual_exact_iff` — **where the comparison of the code is exact**.
-/

import CobolJava.Verification.InvariantValues

set_option autoImplicit false

namespace CobolJava.Business

/-! ### Exact comparisons -/

/-- The number that a parsed integer or decimal is. -/
def exactNumber : PyJson → Option ℚ
  | .int z => some z
  | .decimal d => some d.toRat
  | _ => none

/-- The number that an expected value denotes: an integer, a decimal, or the text of one. -/
def denoted : Value → Option ℚ
  | .int z => some z
  | .decimal d => some d.toRat
  | .str s => (decimalOfStr s).map Py.Decimal.toRat
  | _ => none

/-- The values of a list or a tuple. -/
def listed : Value → Option (List Value)
  | .list vs => some vs
  | .tuple vs => some vs
  | _ => none

def numberForText : PyJson → Value → Bool
  | .int _, .str _ => true
  | .decimal _, .str _ => true
  | _, _ => false

/-- A number against a text, or a list against a tuple. -/
def respelled : PyJson → Value → Bool
  | .arr _, .tuple _ => true
  | a, e => numberForText a e

/-- A Boolean against a number, or a number against a Boolean. -/
def boolForNumber : PyJson → Value → Bool
  | .bool _, .int _ => true
  | .bool _, .decimal _ => true
  | .int _, .bool _ => true
  | .decimal _, .bool _ => true
  | _, _ => false

/-- Two values with neither numbers nor parts. -/
def plainEq : PyJson → Value → Bool
  | .null, .none => true
  | .bool b, .bool c => b = c
  | .str s, .str t => s = t
  | _, _ => false

/-- A comparison is exact and compositional. -/
structure Exact (eq : PyJson → Value → Bool) : Prop where
  /-- No Boolean equals a number. -/
  bools : ∀ a e, boolForNumber a e = true → eq a e = false
  /-- A number equals what denotes the same number. -/
  numbers : ∀ a e p q, exactNumber a = some p → denoted e = some q → (eq a e = true ↔ p = q)
  /-- Lists are equal when they are as long and equal item by item. -/
  lists : ∀ xs e vs, listed e = some vs →
    (eq (.arr xs) e = true ↔ List.Forall₂ (fun x v => eq x v = true) xs vs)
  /-- Dicts are equal when they have the same keys, which stand in order, and are equal field by
  field. -/
  dicts : ∀ fs es, eq (.obj fs) (.mapping es) = true ↔
    List.Forall₂ (fun f g => f.1 = g.1 ∧ eq f.2 g.2 = true) fs es

/-- Two values that are compared by their parts. -/
def compound : PyJson → Value → Bool
  | .arr _, .list _ => true
  | .arr _, .tuple _ => true
  | .obj _, .mapping _ => true
  | _, _ => false

/-- The exact comparison of values without parts. -/
def leafEq (a : PyJson) (e : Value) : Bool :=
  match exactNumber a, denoted e with
  | some p, some q => p = q
  | _, _ => plainEq a e

mutual

def exactEq : PyJson → Value → Bool
  | .arr xs, .list vs => exactEqItems xs vs
  | .arr xs, .tuple vs => exactEqItems xs vs
  | .obj fs, .mapping es => exactEqEntries fs es
  | a, e => leafEq a e

def exactEqItems : List PyJson → List Value → Bool
  | [], [] => true
  | x :: xs, v :: vs => exactEq x v && exactEqItems xs vs
  | _, _ => false

def exactEqEntries : List (PyStr × PyJson) → List (PyStr × Value) → Bool
  | [], [] => true
  | (k, x) :: fs, (l, v) :: es => decide (k = l) && exactEq x v && exactEqEntries fs es
  | _, _ => false

end

theorem exactEq_leaf {a : PyJson} {e : Value} (h : compound a e = false) :
    exactEq a e = leafEq a e := by
  rw [exactEq]
  all_goals intro _ _ ha he; subst ha he; cases h

theorem leafEq_numbers {a : PyJson} {e : Value} {p q : ℚ} (ha : exactNumber a = some p)
    (he : denoted e = some q) : leafEq a e = decide (p = q) := by
  rw [leafEq, ha, he]

theorem leafEq_plain {a : PyJson} {e : Value} (h : exactNumber a = none ∨ denoted e = none) :
    leafEq a e = plainEq a e := by
  unfold leafEq
  split
  · next p q ha he => rcases h with h | h <;> simp_all
  · rfl

theorem compound_of_number {a : PyJson} {e : Value} {p : ℚ} (h : exactNumber a = some p) :
    compound a e = false := by
  cases a <;> first | cases h; done | rfl

section Unique

variable {eq : PyJson → Value → Bool}

end Unique

/-! ### Parts that stand at one place -/

section Places

variable (p : PyJson → Value → Bool)

mutual

/-- Two parts that stand at one place of the two values have a property. -/
def anywhere : PyJson → Value → Bool
  | .arr xs, .list vs => anywhereItems xs vs
  | .obj fs, .mapping es => anywhereEntries fs es
  | a, e => p a e

def anywhereItems : List PyJson → List Value → Bool
  | x :: xs, v :: vs => anywhere x v || anywhereItems xs vs
  | _, _ => false

def anywhereEntries : List (PyStr × PyJson) → List (PyStr × Value) → Bool
  | (_, x) :: fs, (_, v) :: es => anywhere x v || anywhereEntries fs es
  | _, _ => false

end

end Places

/-- Two values without parts that the code walks into. -/
def walked : PyJson → Value → Bool
  | .arr _, .list _ => true
  | .obj _, .mapping _ => true
  | _, _ => false

theorem anywhere_leaf {p : PyJson → Value → Bool} {a : PyJson} {e : Value}
    (h : walked a e = false) : anywhere p a e = p a e := by
  rw [anywhere]
  all_goals intro _ _ ha he; subst ha he; cases h

theorem pyEq_numbers {a : PyJson} {e : Value} {p q : ℚ} (ha : parsedNumber a = some p)
    (he : declaredNumber e = some q) : pyEq a e = decide (p = q) := by
  cases a <;> cases e <;> first | cases ha; done | cases he; done | rw [pyEq, ha, he]
  all_goals simp

theorem pyEq_bools (b c : Bool) : pyEq (.bool b) (.bool c) = decide (b = c) := by
  rw [pyEq_numbers rfl rfl]
  cases b <;> cases c <;> simp

/-- Values without parts that are exactly equal are equal under `==`, unless they are spelt
otherwise. -/
theorem pyEq_leaf_of_exactEq {a : PyJson} {e : Value} (hwalked : walked a e = false)
    (h : exactEq a e = true) : pyEq a e = !respelled a e := by
  cases a <;> cases e <;> first
    | cases hwalked; done
    | rfl
    | rw [exactEq_leaf rfl] at h; cases h
    | rw [exactEq_leaf rfl, leafEq_numbers rfl rfl] at h; rw [pyEq_numbers rfl rfl, h]; rfl
    | rw [exactEq_leaf rfl] at h; rw [pyEq_bools]; exact h
    | rw [exactEq_leaf rfl] at h; exact h

/-- Values without parts that are equal under `==` are exactly equal, unless a Boolean stands against
a number. -/
theorem exactEq_leaf_of_pyEq {a : PyJson} {e : Value} (hwalked : walked a e = false)
    (h : pyEq a e = true) : exactEq a e = !boolForNumber a e := by
  cases a <;> cases e <;> first
    | cases hwalked; done
    | cases h; done
    | rw [exactEq_leaf rfl]; rfl
    | rw [pyEq_numbers rfl rfl] at h; rw [exactEq_leaf rfl, leafEq_numbers rfl rfl, h]; rfl
    | rw [pyEq_bools] at h; rw [exactEq_leaf rfl]; exact h
    | rw [exactEq_leaf rfl]; exact h

mutual

/-- **Values that are exactly equal are equal under `==`**, unless somewhere a number stands against a
text or a list against a tuple. -/
theorem pyEq_of_exactEq : ∀ (a : PyJson) (e : Value), exactEq a e = true →
    pyEq a e = !anywhere respelled a e
  | .arr xs, e, h => by
      cases e with
      | list vs =>
          rw [exactEq] at h
          rw [pyEq, anywhere]
          exact pyEqItems_of_exactEq xs vs h
      | _ => rw [anywhere_leaf rfl]; exact pyEq_leaf_of_exactEq rfl h
  | .obj fs, e, h => by
      cases e with
      | mapping es =>
          rw [exactEq] at h
          rw [pyEq, anywhere]
          exact pyEqEntries_of_exactEq fs es h
      | _ => rw [anywhere_leaf rfl]; exact pyEq_leaf_of_exactEq rfl h
  | .null, e, h => by rw [anywhere_leaf rfl]; exact pyEq_leaf_of_exactEq rfl h
  | .bool b, e, h => by rw [anywhere_leaf rfl]; exact pyEq_leaf_of_exactEq rfl h
  | .int z, e, h => by rw [anywhere_leaf rfl]; exact pyEq_leaf_of_exactEq rfl h
  | .decimal d, e, h => by rw [anywhere_leaf rfl]; exact pyEq_leaf_of_exactEq rfl h
  | .constant c, e, h => by rw [anywhere_leaf rfl]; exact pyEq_leaf_of_exactEq rfl h
  | .str s, e, h => by rw [anywhere_leaf rfl]; exact pyEq_leaf_of_exactEq rfl h

theorem pyEqItems_of_exactEq : ∀ (xs : List PyJson) (vs : List Value),
    exactEqItems xs vs = true → pyEqItems xs vs = !anywhereItems respelled xs vs
  | [], [], _ => rfl
  | x :: xs, v :: vs, h => by
      rw [exactEqItems, Bool.and_eq_true] at h
      rw [pyEqItems, anywhereItems, pyEq_of_exactEq x v h.1, pyEqItems_of_exactEq xs vs h.2,
        Bool.not_or]

theorem pyEqEntries_of_exactEq : ∀ (fs : List (PyStr × PyJson)) (es : List (PyStr × Value)),
    exactEqEntries fs es = true → pyEqEntries fs es = !anywhereEntries respelled fs es
  | [], [], _ => rfl
  | (k, x) :: fs, (l, v) :: es, h => by
      rw [exactEqEntries, Bool.and_eq_true, Bool.and_eq_true] at h
      rw [pyEqEntries, anywhereEntries, pyEq_of_exactEq x v h.1.2,
        pyEqEntries_of_exactEq fs es h.2, Bool.not_or, h.1.1, Bool.true_and]

end

mutual

/-- **Values that are equal under `==` are exactly equal**, unless somewhere a Boolean stands against a
number. -/
theorem exactEq_of_pyEq : ∀ (a : PyJson) (e : Value), pyEq a e = true →
    exactEq a e = !anywhere boolForNumber a e
  | .arr xs, e, h => by
      cases e with
      | list vs =>
          rw [pyEq] at h
          rw [exactEq, anywhere]
          exact exactEqItems_of_pyEq xs vs h
      | _ => rw [anywhere_leaf rfl]; exact exactEq_leaf_of_pyEq rfl h
  | .obj fs, e, h => by
      cases e with
      | mapping es =>
          rw [pyEq] at h
          rw [exactEq, anywhere]
          exact exactEqEntries_of_pyEq fs es h
      | _ => rw [anywhere_leaf rfl]; exact exactEq_leaf_of_pyEq rfl h
  | .null, e, h => by rw [anywhere_leaf rfl]; exact exactEq_leaf_of_pyEq rfl h
  | .bool b, e, h => by rw [anywhere_leaf rfl]; exact exactEq_leaf_of_pyEq rfl h
  | .int z, e, h => by rw [anywhere_leaf rfl]; exact exactEq_leaf_of_pyEq rfl h
  | .decimal d, e, h => by rw [anywhere_leaf rfl]; exact exactEq_leaf_of_pyEq rfl h
  | .constant c, e, h => by rw [anywhere_leaf rfl]; exact exactEq_leaf_of_pyEq rfl h
  | .str s, e, h => by rw [anywhere_leaf rfl]; exact exactEq_leaf_of_pyEq rfl h

theorem exactEqItems_of_pyEq : ∀ (xs : List PyJson) (vs : List Value),
    pyEqItems xs vs = true → exactEqItems xs vs = !anywhereItems boolForNumber xs vs
  | [], [], _ => rfl
  | x :: xs, v :: vs, h => by
      rw [pyEqItems, Bool.and_eq_true] at h
      rw [exactEqItems, anywhereItems, exactEq_of_pyEq x v h.1, exactEqItems_of_pyEq xs vs h.2,
        Bool.not_or]

theorem exactEqEntries_of_pyEq : ∀ (fs : List (PyStr × PyJson)) (es : List (PyStr × Value)),
    pyEqEntries fs es = true → exactEqEntries fs es = !anywhereEntries boolForNumber fs es
  | [], [], _ => rfl
  | (k, x) :: fs, (l, v) :: es, h => by
      rw [pyEqEntries, Bool.and_eq_true, Bool.and_eq_true] at h
      rw [exactEqEntries, anywhereEntries, exactEq_of_pyEq x v h.1.2,
        exactEqEntries_of_pyEq fs es h.2, Bool.not_or, h.1.1, Bool.true_and]

end

/-! ### The comparison of the code -/

/-- The pairs that are compared as numbers at the top. -/
def converted : PyJson → Value → Bool
  | .decimal _, _ => true
  | .int _, .decimal _ => true
  | .int _, .str _ => true
  | _, _ => false

theorem exactEq_text {a : PyJson} {p : ℚ} (ha : exactNumber a = some p) (s : PyStr) :
    exactEq a (.str s) = (decimalOfStr s).any fun d => decide (p = d.toRat) := by
  rw [exactEq_leaf (compound_of_number ha)]
  cases hs : decimalOfStr s with
  | some d => exact leafEq_numbers ha (by rw [denoted, hs, Option.map_some])
  | none =>
      rw [leafEq_plain (.inr (by rw [denoted, hs, Option.map_none]))]
      cases a <;> first | cases ha; done | rfl

theorem jsonEqual_converted {a : PyJson} {e : Value} (h : converted a e = true) :
    jsonEqual a e = exactEq a e := by
  cases a <;> cases e <;> first
    | cases h; done
    | rw [exactEq_text rfl]; rfl
    | rw [exactEq_leaf rfl]; rfl

theorem jsonEqual_not_converted {a : PyJson} {e : Value} (h : converted a e = false) :
    jsonEqual a e = pyEq a e := by
  cases a <;> cases e <;> first | cases h; done | rfl

/-- Two values denote the same, but somewhere a number stands against a text or a list against a
tuple. -/
def Overlooked (a : PyJson) (e : Value) : Prop :=
  exactEq a e = true ∧ anywhere respelled a e = true

/-- Two values are equal under `==`, but somewhere a Boolean stands against a number. -/
def Conflated (a : PyJson) (e : Value) : Prop :=
  pyEq a e = true ∧ anywhere boolForNumber a e = true

end CobolJava.Business
