/-
**Comparison of padded texts.**

Texts of different lengths are compared after the shorter one is padded with blanks.  A text of a
fixed length is compared with what is left of another text when that is cut or padded to the length:
the two comparisons differ at most where the two are the same.

Main definitions:

* `padTo`, `cut` — a text padded, or cut or padded, to a length;
* `Equal`, `AtMost` — **the comparison of padded texts**.

Main results:

* `Equal.eq_cut`, `AtMost.le_cut`, `AtMost.cut_le` — from the padded comparison to the cut text;
* `atMost_of_lt_cut`, `atMost_of_cut_lt` — and back, unless the cut text is met.
-/

import Mathlib

set_option autoImplicit false

namespace CobolJava.PaddedText

variable {α : Type*} {blank : α}

/-! ### Padding and cutting -/

/-- A text with blanks up to a length. -/
def padTo (blank : α) (n : ℕ) (s : List α) : List α :=
  s ++ List.replicate (n - s.length) blank

/-- A text cut or padded to a length. -/
def cut (blank : α) (n : ℕ) (s : List α) : List α :=
  padTo blank n (s.take n)

/-- The texts are the same when the shorter one is padded. -/
def Equal (blank : α) (s t : List α) : Prop :=
  padTo blank (max s.length t.length) s = padTo blank (max s.length t.length) t

instance [DecidableEq α] (s t : List α) : Decidable (Equal blank s t) := by
  unfold Equal
  infer_instance

theorem length_padTo {n : ℕ} {s : List α} (h : s.length ≤ n) : (padTo blank n s).length = n := by
  rw [padTo, List.length_append, List.length_replicate]
  omega

theorem padTo_of_length_le {n : ℕ} {s : List α} (h : n ≤ s.length) : padTo blank n s = s := by
  rw [padTo, Nat.sub_eq_zero_of_le h, List.replicate_zero, List.append_nil]

@[simp] theorem length_cut (n : ℕ) (s : List α) : (cut blank n s).length = n :=
  length_padTo (List.length_take_le n s)

theorem cut_of_length {n : ℕ} {s : List α} (h : s.length = n) : cut blank n s = s := by
  rw [cut, List.take_of_length_le h.le, padTo_of_length_le h.ge]

theorem padTo_eq_cut_append {n m : ℕ} (h : n ≤ m) (s : List α) :
    padTo blank m s = cut blank n s ++ padTo blank (m - n) (s.drop n) := by
  unfold cut padTo
  rcases le_total n s.length with hn | hn
  · -- the text is cut, and its rest is padded
    have htake : (s.take n).length = n := by rw [List.length_take]; omega
    have hcount : m - n - (s.length - n) = m - s.length := by omega
    rw [htake, Nat.sub_self, List.replicate_zero, List.append_nil, List.length_drop, hcount,
      ← List.append_assoc, List.take_append_drop]
  · -- the text is padded, and only blanks are left
    have hcount : m - s.length = n - s.length + (m - n) := by omega
    rw [List.take_of_length_le hn, List.drop_eq_nil_of_le hn, List.nil_append, List.length_nil,
      Nat.sub_zero, hcount, List.replicate_add, List.append_assoc]

/-! ### Equality -/

section Fixed

variable {n : ℕ} {s t : List α}

theorem padded_eq (blank : α) (t : List α) (h : s.length = n) :
    padTo blank (max s.length t.length) s =
        s ++ padTo blank (max s.length t.length - n) [] ∧
      padTo blank (max s.length t.length) t =
        cut blank n t ++ padTo blank (max s.length t.length - n) (t.drop n) := by
  have hmax : n ≤ max s.length t.length := h ▸ Nat.le_max_left ..
  refine ⟨?_, padTo_eq_cut_append hmax t⟩
  rw [padTo_eq_cut_append hmax s, cut_of_length h, List.drop_eq_nil_of_le h.le]

/-- **What equals a text is its cut.** -/
theorem Equal.eq_cut (hequal : Equal blank s t) (h : s.length = n) : s = cut blank n t := by
  obtain ⟨hs, ht⟩ := padded_eq blank t h
  unfold Equal at hequal
  rw [hs, ht] at hequal
  exact (List.append_inj hequal (by rw [h, length_cut])).1

end Fixed

/-! ### Order -/

section Order

variable [LinearOrder α]

/-- The first text is not behind the second when the shorter one is padded. -/
def AtMost (blank : α) (s t : List α) : Prop :=
  padTo blank (max s.length t.length) s ≤ padTo blank (max s.length t.length) t

instance (s t : List α) : Decidable (AtMost blank s t) := by
  unfold AtMost
  infer_instance

/-- Texts with beginnings of one length are compared by these first. -/
theorem append_lt_append_iff {s s' t t' : List α} (h : s.length = t.length) :
    s ++ s' < t ++ t' ↔ s < t ∨ s = t ∧ s' < t' := by
  induction s generalizing t with
  | nil =>
      obtain rfl := List.length_eq_zero_iff.1 h.symm
      simp
  | cons a s ih =>
      cases t with
      | nil => cases h
      | cons b t =>
          rw [List.cons_append, List.cons_append, List.cons_lt_cons_iff, List.cons_lt_cons_iff,
            ih (Nat.succ.inj h), List.cons.injEq]
          constructor
          · rintro (hab | ⟨hab, hst | ⟨hst, hrest⟩⟩)
            · exact .inl (.inl hab)
            · exact .inl (.inr ⟨hab, hst⟩)
            · exact .inr ⟨⟨hab, hst⟩, hrest⟩
          · rintro ((hab | ⟨hab, hst⟩) | ⟨⟨hab, hst⟩, hrest⟩)
            · exact .inl hab
            · exact .inr ⟨hab, .inl hst⟩
            · exact .inr ⟨hab, .inr ⟨hst, hrest⟩⟩

theorem append_le_append_iff {s s' t t' : List α} (h : s.length = t.length) :
    s ++ s' ≤ t ++ t' ↔ s < t ∨ s = t ∧ s' ≤ t' := by
  rw [← not_lt, append_lt_append_iff h.symm, ← not_lt]
  rcases lt_trichotomy s t with hst | rfl | hst
  · simp [hst, hst.le, hst.ne']
  · simp
  · simp [hst, hst.le, hst.ne']

variable {n : ℕ} {s t : List α}

theorem AtMost.le_cut (hle : AtMost blank s t) (h : s.length = n) : s ≤ cut blank n t := by
  obtain ⟨hs, ht⟩ := padded_eq blank t h
  unfold AtMost at hle
  rw [hs, ht, append_le_append_iff (by rw [h, length_cut])] at hle
  exact hle.elim le_of_lt fun hcut => hcut.1.le

theorem AtMost.cut_le (hle : AtMost blank t s) (h : s.length = n) : cut blank n t ≤ s := by
  obtain ⟨hs, ht⟩ := padded_eq blank t h
  unfold AtMost at hle
  rw [Nat.max_comm, hs, ht, append_le_append_iff (by rw [h, length_cut])] at hle
  exact hle.elim le_of_lt fun hcut => hcut.1.le

theorem atMost_of_lt_cut (h : s.length = n) (hlt : s < cut blank n t) : AtMost blank s t := by
  obtain ⟨hs, ht⟩ := padded_eq blank t h
  unfold AtMost
  rw [hs, ht, append_le_append_iff (by rw [h, length_cut])]
  exact .inl hlt

theorem atMost_of_cut_lt (h : s.length = n) (hlt : cut blank n t < s) : AtMost blank t s := by
  obtain ⟨hs, ht⟩ := padded_eq blank t h
  unfold AtMost
  rw [Nat.max_comm, hs, ht, append_le_append_iff (by rw [h, length_cut])]
  exact .inl hlt

end Order

end CobolJava.PaddedText
