/-
**Searching infix texts.**

A splitter of infix texts walks over a text, counts the parentheses it passes, and looks for an
operator where none is open.  What it looks for is a parameter: a function of the text on either side
of the place it has reached.

Main definitions:

* `Infix.Nested`, `Infix.isNested` — the texts whose parentheses are nested;
* `Infix.findRight`, `Infix.findLeft` — the walk from the right and the walk from the left;
* `Infix.closesLast` — whether the parenthesis that opens a text is closed by its last character.

Main results:

* `Infix.findRight_group`, `Infix.findRight_quiet`, `Infix.findLeft_group`, `Infix.findLeft_quiet` —
  **the walks pass what stands in parentheses, and what holds nothing they look for**;
* `Infix.findLeft_context` — **the walk passes a text in which it finds nothing on its own**;
* `Infix.closesLast_parens`, `Infix.not_closesLast` — texts in parentheses.
-/

import Mathlib.Data.Int.Order.Basic
import Mathlib.Data.List.Basic

set_option autoImplicit false

namespace Infix

variable {α : Type*}

/-! ### Nested texts -/

/-- A text whose parentheses are nested. -/
inductive Nested : List Char → Prop
  | nil : Nested []
  | char {c : Char} {s : List Char} (hopen : c ≠ '(') (hclose : c ≠ ')') (h : Nested s) :
      Nested (c :: s)
  | group {s t : List Char} (hs : Nested s) (ht : Nested t) : Nested ('(' :: (s ++ ')' :: t))

theorem Nested.append {s t : List Char} (hs : Nested s) (ht : Nested t) : Nested (s ++ t) := by
  induction hs with
  | nil => exact ht
  | char hopen hclose _ ih => exact .char hopen hclose ih
  | group hs _ _ ih =>
      rw [List.cons_append, List.append_assoc, List.cons_append]
      exact .group hs ih

theorem Nested.of_plain {s : List Char} (h : ∀ c ∈ s, c ≠ '(' ∧ c ≠ ')') : Nested s := by
  induction s with
  | nil => exact .nil
  | cons c s ih =>
      obtain ⟨hopen, hclose⟩ := h c (List.mem_cons_self ..)
      exact .char hopen hclose (ih fun d hd => h d (List.mem_cons_of_mem _ hd))

theorem Nested.parens {s : List Char} (hs : Nested s) : Nested ('(' :: (s ++ [')'])) :=
  .group hs .nil

/-- Whether the parentheses of a text are nested once some are open. -/
def isNested (depth : ℕ) : List Char → Bool
  | [] => depth = 0
  | c :: rest =>
      if c = '(' then isNested (depth + 1) rest
      else if c = ')' then depth ≠ 0 && isNested (depth - 1) rest
      else isNested depth rest

/-- Nested texts with the parentheses between them that close those open before. -/
inductive Closing : ℕ → List Char → Prop
  | nested {s : List Char} (h : Nested s) : Closing 0 s
  | close {n : ℕ} {s t : List Char} (hs : Nested s) (ht : Closing n t) :
      Closing (n + 1) (s ++ ')' :: t)

theorem Closing.cons {n : ℕ} {s : List Char} {c : Char} (hopen : c ≠ '(') (hclose : c ≠ ')')
    (h : Closing n s) : Closing n (c :: s) := by
  cases h with
  | nested h => exact .nested (.char hopen hclose h)
  | close hs ht => exact .close (.char hopen hclose hs) ht

theorem Closing.group {n : ℕ} {s t : List Char} (hs : Nested s) (h : Closing n t) :
    Closing n ('(' :: (s ++ ')' :: t)) := by
  cases h with
  | nested h => exact .nested (.group hs h)
  | @close n u v hu hv =>
      have htext : '(' :: (s ++ ')' :: (u ++ ')' :: v)) = '(' :: (s ++ ')' :: u) ++ ')' :: v := by
        simp
      rw [htext]
      exact .close (.group hs hu) hv

theorem closing_of_isNested {n : ℕ} {s : List Char} (h : isNested n s = true) : Closing n s := by
  induction s generalizing n with
  | nil =>
      rw [isNested, decide_eq_true_eq] at h
      rw [h]
      exact .nested .nil
  | cons c s ih =>
      rw [isNested] at h
      split_ifs at h with hopen hclose
      · rw [hopen]
        cases ih h with
        | close hs ht => exact ht.group hs
      · rw [Bool.and_eq_true, decide_eq_true_eq] at h
        obtain ⟨m, rfl⟩ := Nat.exists_eq_succ_of_ne_zero h.1
        rw [hclose]
        exact .close .nil (ih h.2)
      · exact (ih h).cons hopen hclose

theorem nested_of_isNested {s : List Char} (h : isNested 0 s = true) : Nested s := by
  cases closing_of_isNested h with
  | nested h => exact h

/-! ### The walk from the right -/

/-- The first hit of a walk from the right, outside of parentheses.  The text before the walk is
given from its end. -/
def findRight (hit : List Char → List Char → Option α) : List Char → List Char → ℤ → Option α
  | [], _, _ => none
  | c :: before, after, depth =>
      if c = ')' then findRight hit before (c :: after) (depth + 1)
      else if c = '(' then findRight hit before (c :: after) (depth - 1)
      else if depth = 0 then
        match hit (c :: before) after with
        | some a => some a
        | none => findRight hit before (c :: after) depth
      else findRight hit before (c :: after) depth

attribute [grind =] findRight

variable {hit : List Char → List Char → Option α}

theorem findRight_nested {s : List Char} (hs : Nested s) (before after : List Char) {depth : ℤ}
    (hdepth : 0 < depth) :
    findRight hit (s.reverse ++ before) after depth = findRight hit before (s ++ after) depth := by
  induction hs generalizing before after depth with
  | nil => rfl
  | @char c s hopen hclose _ ih =>
      rw [List.reverse_cons, List.append_assoc, ih _ _ hdepth, List.singleton_append, findRight,
        if_neg hclose, if_neg hopen, if_neg (by omega)]
      rfl
  | @group s t _ _ ihs iht =>
      rw [List.reverse_cons, List.reverse_append, List.reverse_cons, List.append_assoc,
        List.append_assoc, List.append_assoc, iht _ _ hdepth, List.singleton_append, findRight,
        if_pos rfl, ihs _ _ (by omega), List.singleton_append, findRight, if_neg (by decide),
        if_pos rfl, Int.add_sub_cancel]
      simp

theorem findRight_group {s : List Char} (hs : Nested s) (before after : List Char) :
    findRight hit (('(' :: (s ++ [')'])).reverse ++ before) after 0 =
      findRight hit before ('(' :: (s ++ [')']) ++ after) 0 := by
  rw [List.reverse_cons, List.reverse_append, List.append_assoc, List.append_assoc,
    List.reverse_singleton, List.singleton_append, findRight, if_pos rfl,
    findRight_nested hs _ _ (by omega), List.singleton_append, findRight, if_neg (by decide),
    if_pos rfl]
  simp

theorem findRight_quiet {s : List Char} (before after : List Char)
    (h : ∀ a c b, s = a ++ c :: b →
      c ≠ '(' ∧ c ≠ ')' ∧ hit (c :: (a.reverse ++ before)) (b ++ after) = none) :
    findRight hit (s.reverse ++ before) after 0 = findRight hit before (s ++ after) 0 := by
  induction s generalizing before with
  | nil => rfl
  | cons c s ih =>
      obtain ⟨hopen, hclose, hnone⟩ := h [] c s rfl
      have hrest := ih (c :: before) fun a d b hs => by
        obtain ⟨hd, hd', hquiet⟩ := h (c :: a) d b (by rw [hs]; rfl)
        rw [List.reverse_cons, List.append_assoc, List.singleton_append] at hquiet
        exact ⟨hd, hd', hquiet⟩
      rw [List.reverse_nil, List.nil_append] at hnone
      rw [List.reverse_cons, List.append_assoc, List.singleton_append, hrest, findRight,
        if_neg hclose, if_neg hopen, if_pos rfl, hnone]
      rfl

/-! ### The walk from the left -/

/-- The first hit of a walk from the left, outside of parentheses.  The text before the walk is given
from its end. -/
def findLeft (hit : List Char → List Char → Option α) : List Char → List Char → ℤ → Option α
  | _, [], _ => none
  | before, c :: after, depth =>
      if c = '(' then findLeft hit (c :: before) after (depth + 1)
      else if c = ')' then findLeft hit (c :: before) after (depth - 1)
      else if depth = 0 then
        match hit before (c :: after) with
        | some a => some a
        | none => findLeft hit (c :: before) after depth
      else findLeft hit (c :: before) after depth

attribute [grind =] findLeft

theorem findLeft_nested {s : List Char} (hs : Nested s) (before after : List Char) {depth : ℤ}
    (hdepth : 0 < depth) :
    findLeft hit before (s ++ after) depth = findLeft hit (s.reverse ++ before) after depth := by
  induction hs generalizing before after depth with
  | nil => rfl
  | @char c s hopen hclose _ ih =>
      rw [List.cons_append, findLeft, if_neg hopen, if_neg hclose, if_neg (by omega),
        ih _ _ hdepth]
      simp
  | @group s t _ _ ihs iht =>
      rw [List.cons_append, List.append_assoc, List.cons_append, findLeft, if_pos rfl,
        ihs _ _ (by omega), findLeft, if_neg (by decide), if_pos rfl, Int.add_sub_cancel,
        iht _ _ hdepth]
      simp

theorem findLeft_group {s : List Char} (hs : Nested s) (before after : List Char) :
    findLeft hit before ('(' :: (s ++ [')']) ++ after) 0 =
      findLeft hit (('(' :: (s ++ [')'])).reverse ++ before) after 0 := by
  rw [List.cons_append, List.append_assoc, List.singleton_append, findLeft, if_pos rfl,
    findLeft_nested hs _ _ (by omega), findLeft, if_neg (by decide), if_pos rfl]
  simp

def depthAfter (depth : ℤ) : List Char → ℤ
  | [] => depth
  | c :: rest =>
      depthAfter (if c = '(' then depth + 1 else if c = ')' then depth - 1 else depth) rest

attribute [grind =] depthAfter

/-- The walk passes a text in which it finds nothing when the text stands alone, if the text around
it adds no hits. -/
theorem findLeft_context {s before after : List Char}
    (h : ∀ a t, s = a ++ t → t ≠ [] → hit a.reverse t = none →
      hit (a.reverse ++ before) (t ++ after) = none)
    {a t : List Char} {depth : ℤ} (hs : s = a ++ t) (hnone : findLeft hit a.reverse t depth = none) :
    findLeft hit (a.reverse ++ before) (t ++ after) depth =
      findLeft hit (s.reverse ++ before) after (depthAfter depth t) := by
  induction t generalizing a depth with
  | nil => rw [hs, List.append_nil, List.nil_append, depthAfter]
  | cons c t ih =>
      have hs' : s = (a ++ [c]) ++ t := by
        rw [hs]
        simp
      have hrest := @ih (a ++ [c])
      rw [List.reverse_append, List.reverse_singleton, List.singleton_append] at hrest
      rw [findLeft] at hnone
      rw [List.cons_append, findLeft, depthAfter]
      split_ifs at hnone ⊢ with hopen hclose hdepth
      · exact hrest hs' hnone
      · exact hrest hs' hnone
      · cases hhit : hit a.reverse (c :: t) with
        | some p =>
            rw [hhit] at hnone
            cases hnone
        | none =>
            rw [hhit] at hnone
            have hquiet := h a (c :: t) hs (by simp) hhit
            rw [List.cons_append] at hquiet
            rw [hquiet]
            exact hrest hs' hnone
      · exact hrest hs' hnone

/-! ### Outer parentheses -/

/-- Whether no parenthesis but the last character closes down to depth 0. -/
def closesLast (depth : ℤ) : List Char → Bool
  | [] => true
  | c :: rest =>
      if c = '(' then closesLast (depth + 1) rest
      else if c = ')' then
        if depth - 1 = 0 ∧ rest ≠ [] then false else closesLast (depth - 1) rest
      else closesLast depth rest

attribute [grind =] closesLast

theorem depthAfter_nested {s : List Char} (hs : Nested s) (depth : ℤ) (rest : List Char) :
    depthAfter depth (s ++ rest) = depthAfter depth rest := by
  induction hs generalizing depth rest with
  | nil => rfl
  | char hopen hclose _ ih => rw [List.cons_append, depthAfter, if_neg hopen, if_neg hclose, ih]
  | group _ _ ihs iht =>
      rw [List.cons_append, List.append_assoc, List.cons_append, depthAfter, if_pos rfl, ihs,
        depthAfter, if_neg (by decide), if_pos rfl, Int.add_sub_cancel, iht]

theorem closesLast_nested {s : List Char} (hs : Nested s) {depth : ℤ} (hdepth : 0 < depth)
    (rest : List Char) : closesLast depth (s ++ rest) = closesLast depth rest := by
  induction hs generalizing depth rest with
  | nil => rfl
  | char hopen hclose _ ih =>
      rw [List.cons_append, closesLast, if_neg hopen, if_neg hclose, ih hdepth]
  | group _ _ ihs iht =>
      rw [List.cons_append, List.append_assoc, List.cons_append, closesLast, if_pos rfl,
        ihs (by omega), closesLast, if_neg (by decide), if_pos rfl, if_neg (by omega),
        Int.add_sub_cancel, iht hdepth]

theorem closesLast_parens {s : List Char} (hs : Nested s) :
    closesLast 0 ('(' :: (s ++ [')'])) = true ∧ depthAfter 0 ('(' :: (s ++ [')'])) = 0 := by
  constructor
  · rw [closesLast, if_pos rfl, closesLast_nested hs (by omega)]
    decide
  · rw [depthAfter, if_pos rfl, depthAfter_nested hs]
    decide

theorem not_closesLast {s rest : List Char} (hs : Nested s) (hrest : rest ≠ []) :
    closesLast 0 ('(' :: (s ++ ')' :: rest)) = false := by
  rw [closesLast, if_pos rfl, closesLast_nested hs (by omega), closesLast, if_neg (by decide),
    if_pos rfl, if_pos ⟨by omega, hrest⟩]

end Infix
