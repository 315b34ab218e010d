/-
**Ink.**

The characters of a text that are not white space, counted.  Stripping keeps all of them, and two
ways to cut one text in two agree up to white space when the first parts hold the same ink.

Main definitions:

* `Py.Chars.ink` — how many characters are not white space;
* `Py.Chars.find` — the method `find` of `str`.

Main results:

* `Py.Chars.countP_strip` — stripping keeps what is not white space;
* `Py.Chars.strip_eq_of_append` — two cuts of one text with the same ink in front;
* `Py.Chars.find_append`, `Py.Chars.find_append_of_isPrefix` — searching behind a text.
-/

import CobolJava.Lib.PyLines

set_option autoImplicit false

namespace Py.Chars

/-! ### Stripping keeps the ink -/

/-- The number of characters that are not white space. -/
def ink (s : List Char) : ℕ :=
  s.countP fun c => !isSpace c

@[simp] theorem ink_nil : ink [] = 0 := rfl

@[simp] theorem ink_append (s t : List Char) : ink (s ++ t) = ink s + ink t :=
  List.countP_append

theorem ink_eq_zero {s : List Char} : ink s = 0 ↔ ∀ c ∈ s, isSpace c = true := by
  simp [ink, List.countP_eq_zero]

theorem ink_pos {s : List Char} {c : Char} (hc : c ∈ s) (h : isSpace c = false) : 0 < ink s :=
  Nat.pos_of_ne_zero fun hzero => by simp [ink_eq_zero.1 hzero c hc] at h

theorem exists_lstrip (s : List Char) : ∃ blank, ink blank = 0 ∧ s = blank ++ lstrip s :=
  ⟨s.takeWhile isSpace, ink_eq_zero.2 fun _ hc => List.mem_takeWhile_imp hc,
    List.takeWhile_append_dropWhile.symm⟩

theorem exists_rstrip (s : List Char) : ∃ blank, ink blank = 0 ∧ s = rstrip s ++ blank := by
  refine ⟨s.rtakeWhile isSpace, ink_eq_zero.2 fun _ hc => List.mem_rtakeWhile_imp hc, ?_⟩
  calc s = (s.reverse.takeWhile isSpace ++ s.reverse.dropWhile isSpace).reverse := by
        rw [List.takeWhile_append_dropWhile, List.reverse_reverse]
    _ = rstrip s ++ s.rtakeWhile isSpace := List.reverse_append

theorem countP_strip {p : Char → Bool} (hp : ∀ c, isSpace c = true → p c = false)
    (s : List Char) : (strip s).countP p = s.countP p := by
  have hblank : ∀ blank : List Char, ink blank = 0 → blank.countP p = 0 := fun blank h =>
    List.countP_eq_zero.2 fun c hc => by simp [hp c (ink_eq_zero.1 h c hc)]
  obtain ⟨front, hfront, hl⟩ := exists_lstrip s
  obtain ⟨back, hback, hr⟩ := exists_rstrip (lstrip s)
  calc (strip s).countP p = (strip s ++ back).countP p := by
        rw [List.countP_append, hblank back hback, Nat.add_zero]
    _ = (lstrip s).countP p := by rw [strip, ← hr]
    _ = (front ++ lstrip s).countP p := by
        rw [List.countP_append, hblank front hfront, Nat.zero_add]
    _ = s.countP p := by rw [← hl]

@[simp] theorem ink_strip (s : List Char) : ink (strip s) = ink s :=
  countP_strip (by simp) s

theorem count_strip {c : Char} (h : isSpace c = false) (s : List Char) :
    (strip s).count c = s.count c := by
  refine countP_strip (fun d hd => ?_) s
  rw [beq_eq_false_iff_ne]
  rintro rfl
  rw [h] at hd
  exact Bool.noConfusion hd

theorem lstrip_of_blank {blank : List Char} (h : ink blank = 0) : lstrip blank = [] :=
  List.dropWhile_eq_nil_iff.2 (ink_eq_zero.1 h)

theorem rstrip_of_blank {blank : List Char} (h : ink blank = 0) : rstrip blank = [] :=
  List.rdropWhile_eq_nil_iff.2 (ink_eq_zero.1 h)

theorem strip_eq_nil_iff {s : List Char} : strip s = [] ↔ ink s = 0 := by
  refine ⟨fun h => by rw [← ink_strip, h]; rfl, fun h => ?_⟩
  rw [strip, lstrip_of_blank h]
  rfl

theorem lstrip_append_of_blank {blank : List Char} (h : ink blank = 0) (s : List Char) :
    lstrip (blank ++ s) = lstrip s := by
  have hnil : blank.dropWhile isSpace = [] := lstrip_of_blank h
  rw [lstrip, List.dropWhile_append, hnil]
  rfl

theorem rstrip_append_of_blank {blank : List Char} (h : ink blank = 0) (s : List Char) :
    rstrip (s ++ blank) = rstrip s := by
  have hreverse : ink blank.reverse = 0 := by
    rw [ink, List.countP_reverse]
    exact h
  have := lstrip_append_of_blank hreverse s.reverse
  rw [rstrip, rstrip, List.rdropWhile, List.rdropWhile, List.reverse_append]
  exact congrArg List.reverse this

theorem rstrip_append_cons {c : Char} (h : isSpace c = false) (s t : List Char) :
    rstrip (s ++ c :: t) = s ++ c :: rstrip t := by
  induction s with
  | nil => exact rstrip_cons h t
  | cons d s ih =>
      have hne : rstrip (s ++ c :: t) ≠ [] := by simp [ih]
      rw [List.cons_append, rstrip_cons_of_ne hne, ih, List.cons_append]

theorem rstrip_append_of_last {s : List Char} (hne : s ≠ [])
    (h : ∀ c ∈ s.getLast?, isSpace c = false) (t : List Char) :
    rstrip (s ++ t) = s ++ rstrip t := by
  have hlast := h _ (List.getLast?_eq_some_getLast hne)
  rw [← List.dropLast_append_getLast hne, List.append_assoc, List.append_assoc,
    List.singleton_append, rstrip_append_cons hlast]
  rfl

theorem strip_blank_append {blank : List Char} (h : ink blank = 0) (s : List Char) :
    strip (blank ++ s) = strip s := by
  rw [strip, strip, lstrip_append_of_blank h]

theorem strip_append_blank {blank : List Char} (h : ink blank = 0) (s : List Char) :
    strip (s ++ blank) = strip s := by
  rw [strip, strip, ← lstrip_rstrip, rstrip_append_of_blank h, lstrip_rstrip]

theorem strip_eq_of_append {s s' t t' : List Char} (h : s ++ s' = t ++ t') (hink : ink s = ink t) :
    strip s = strip t ∧ strip s' = strip t' := by
  rcases List.append_eq_append_iff.1 h with ⟨between, rfl, rfl⟩ | ⟨between, rfl, rfl⟩
  · have hblank : ink between = 0 := by simpa using hink
    exact ⟨(strip_append_blank hblank s).symm, strip_blank_append hblank t'⟩
  · have hblank : ink between = 0 := by simpa using hink
    exact ⟨strip_append_blank hblank t, (strip_blank_append hblank s').symm⟩

/-! ### Searching -/

/-- `s.find(p)`, with nothing for −1. -/
def find (p : List Char) : List Char → Option ℕ
  | [] => if p = [] then some 0 else none
  | c :: rest =>
      if startswith (c :: rest) p then some 0 else (find p rest).map (· + 1)

attribute [grind =] find

theorem find_append {d : Char} {p front : List Char} (h : d ∉ front) (s : List Char) :
    find (d :: p) (front ++ s) = (find (d :: p) s).map (· + front.length) := by
  induction front with
  | nil => simp
  | cons c rest ih =>
      obtain ⟨hc, hrest⟩ := not_or.1 fun hd => h (List.mem_cons.2 hd)
      rw [List.cons_append, find, ih hrest]
      simp [startswith, hc, Function.comp_def, Nat.add_assoc]

theorem le_length_of_find {p : List Char} :
    ∀ {s : List Char} {m : ℕ}, find p s = some m → m ≤ s.length
  | [], m, h => by
      by_cases hp : p = []
      · have hm : 0 = m := by simpa [find, hp] using h
        omega
      · simp [find, hp] at h
  | c :: rest, m, h => by
      rw [find] at h
      split at h
      · have hm : 0 = m := by simpa using h
        omega
      · obtain ⟨n, hn, rfl⟩ := Option.map_eq_some_iff.1 h
        have hrest := le_length_of_find hn
        simp only [List.length_cons]
        omega

theorem isPrefix_of_find {p : List Char} :
    ∀ {s : List Char} {m : ℕ}, find p s = some m → p <+: s.drop m
  | [], m, h => by
      by_cases hp : p = []
      · simp [hp]
      · simp [find, hp] at h
  | c :: rest, m, h => by
      rw [find] at h
      split at h
      · rename_i hstart
        obtain rfl : 0 = m := by simpa using h
        exact List.isPrefixOf_iff_prefix.1 hstart
      · obtain ⟨n, hn, rfl⟩ := Option.map_eq_some_iff.1 h
        rw [List.drop_succ_cons]
        exact isPrefix_of_find hn

end Py.Chars
