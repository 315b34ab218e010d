/-
**Letter case.**

The methods `lower` and `title` of `str`, beside `upper`, on lists of characters.  As there, the case
is that of the ASCII letters.

Main definitions:

* `Py.Chars.lower`, `Py.Chars.title` — the methods.

Main results:

* `Py.Chars.title_eq_iff`, `Py.Chars.lower_eq_iff` — only the upper case of a text matters;
* `Py.Chars.upper_filter` — a selection that does not look at the case.
-/

import Mathlib
import CobolJava.Lib.PyLines

set_option autoImplicit false

namespace Py.Chars

/-- `s.lower()` -/
def lower (s : List Char) : List Char :=
  s.map Char.toLower

/-- The rest of `s.title()`, behind a letter or not. -/
def titleFrom (behindLetter : Bool) : List Char → List Char
  | [] => []
  | c :: rest =>
      (if c.isAlpha then (if behindLetter then c.toLower else c.toUpper) else c) ::
        titleFrom c.isAlpha rest

/-- `s.title()` -/
def title (s : List Char) : List Char :=
  titleFrom false s

attribute [grind =] titleFrom

@[simp] theorem upper_cons (c : Char) (s : List Char) : upper (c :: s) = c.toUpper :: upper s := rfl

@[simp] theorem upper_append (s t : List Char) : upper (s ++ t) = upper s ++ upper t :=
  List.map_append

@[simp] theorem upper_upper (s : List Char) : upper (upper s) = upper s := by
  simp [upper]

@[simp] theorem lower_upper (s : List Char) : lower (upper s) = lower s := by
  simp [upper, lower]

theorem toUpper_of_not_isAlpha {c : Char} (h : c.isAlpha = false) : c.toUpper = c := by
  refine Char.toUpper_eq_of_not_isLower fun hlower => ?_
  simp [Char.isAlpha, hlower] at h

theorem toLower_of_not_isAlpha {c : Char} (h : c.isAlpha = false) : c.toLower = c := by
  refine Char.toLower_eq_of_not_isUpper fun hupper => ?_
  simp [Char.isAlpha, hupper] at h

theorem isAlphanum_toUpper (c : Char) : c.toUpper.isAlphanum = c.isAlphanum := by
  cases hc : c.isAlpha
  · rw [toUpper_of_not_isAlpha hc]
  · simp [Char.isAlphanum, hc]

theorem isAlphanum_toLower (c : Char) : c.toLower.isAlphanum = c.isAlphanum := by
  cases hc : c.isAlpha
  · rw [toLower_of_not_isAlpha hc]
  · simp [Char.isAlphanum, hc]

theorem toUpper_eq_iff {c d : Char} (hd : d.isAlpha = false) : c.toUpper = d ↔ c = d := by
  cases hc : c.isAlpha
  · rw [toUpper_of_not_isAlpha hc]
  · constructor
    · rintro rfl
      rw [Char.isAlpha_toUpper_eq_isAlpha, hc] at hd
      cases hd
    · rintro rfl
      rw [hc] at hd
      cases hd

theorem titleFrom_upper (behindLetter : Bool) (s : List Char) :
    titleFrom behindLetter (upper s) = titleFrom behindLetter s := by
  induction s generalizing behindLetter with
  | nil => rfl
  | cons c rest ih =>
      rw [upper_cons, titleFrom, titleFrom, ih, Char.isAlpha_toUpper_eq_isAlpha,
        Char.toLower_toUpper_eq_toLower, Char.toUpper_toUpper_eq_toUpper]
      cases hc : c.isAlpha
      · rw [toUpper_of_not_isAlpha hc]
      · rfl

theorem title_upper (s : List Char) : title (upper s) = title s :=
  titleFrom_upper false s

theorem upper_titleFrom (behindLetter : Bool) (s : List Char) :
    upper (titleFrom behindLetter s) = upper s := by
  induction s generalizing behindLetter with
  | nil => rfl
  | cons c rest ih =>
      rw [titleFrom, upper_cons, upper_cons, ih]
      congr 1
      split_ifs
      · exact Char.toUpper_toLower_eq_toUpper c
      · exact Char.toUpper_toUpper_eq_toUpper c
      · rfl

theorem upper_title (s : List Char) : upper (title s) = upper s :=
  upper_titleFrom false s

theorem title_eq_iff {s t : List Char} : title s = title t ↔ upper s = upper t := by
  constructor
  · intro h
    rw [← upper_title s, h, upper_title]
  · intro h
    rw [← title_upper s, h, title_upper]

theorem upper_lower (s : List Char) : upper (lower s) = upper s := by
  simp [upper, lower]

theorem lower_eq_iff {s t : List Char} : lower s = lower t ↔ upper s = upper t := by
  constructor
  · intro h
    rw [← upper_lower s, h, upper_lower]
  · intro h
    rw [← lower_upper s, h, lower_upper]

theorem upper_filter {p : Char → Bool} (hp : ∀ c, p c.toUpper = p c) (s : List Char) :
    upper (s.filter p) = (upper s).filter p := by
  induction s with
  | nil => rfl
  | cons c rest ih =>
      rw [upper_cons, List.filter_cons, List.filter_cons, hp]
      cases p c
      · exact ih
      · exact congrArg _ ih

theorem exists_of_mem_titleFrom {behindLetter : Bool} {s : List Char} {c : Char}
    (h : c ∈ titleFrom behindLetter s) : ∃ d ∈ s, c = d ∨ c = d.toUpper ∨ c = d.toLower := by
  induction s generalizing behindLetter with
  | nil => cases h
  | cons d rest ih =>
      rw [titleFrom, List.mem_cons] at h
      rcases h with h | h
      · refine ⟨d, List.mem_cons_self, ?_⟩
        split_ifs at h
        · exact .inr (.inr h)
        · exact .inr (.inl h)
        · exact .inl h
      · obtain ⟨e, he, hce⟩ := ih h
        exact ⟨e, List.mem_cons_of_mem _ he, hce⟩

end Py.Chars
