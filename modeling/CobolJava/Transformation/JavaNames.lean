/-
**Java names of programs.**

The class of the Spring service of a program (`_to_class_name` of `java_to_spring_mapping.py`), and the
key under which a program is looked up (`_normalise_service_key` there, `_key` of
`Service._resolve_entry_program`).

Main definitions:

* `Word` — a COBOL word;
* `serviceKey`, `toClassName` — the key and the class of a program.

Main results:

* `serviceKey_eq_of_upper_eq`, `toClassName_eq_of_upper_eq` — neither looks at the case of letters;
* `toClassName_ne_nil`, `strip_toClassName` — the class of a word.
-/

import CobolJava.Lib.PyCase

set_option autoImplicit false

namespace CobolJava.Names

open Py (isSpace)
open Py.Chars

abbrev Text : Type := List Char

def isWordChar (c : Char) : Bool :=
  c.isAlphanum || c == '-' || c == '_'

/-- A COBOL word: it starts with a letter or a digit. -/
structure Word where
  first : Char
  rest : Text
  first_alphanum : first.isAlphanum = true
  rest_wordChar : rest.all isWordChar = true
  deriving DecidableEq

namespace Word

def text (w : Word) : Text :=
  w.first :: w.rest

theorem text_ne_nil (w : Word) : w.text ≠ [] :=
  List.cons_ne_nil _ _

theorem wordChar {w : Word} {c : Char} (hc : c ∈ w.text) : isWordChar c = true := by
  rcases List.mem_cons.1 hc with rfl | hc
  · simp [isWordChar, w.first_alphanum]
  · exact List.all_eq_true.1 w.rest_wordChar c hc

end Word

/-! ### Keys -/

/-- The class `[-_\s'"\x60]` of characters a key leaves out. -/
def isSeparator (c : Char) : Bool :=
  c == '-' || c == '_' || isSpace c || c == '\'' || c == '"' || c == '\x60'

/-- `_normalise_service_key`, `_key` -/
def serviceKey (name : Text) : Text :=
  upper (name.filter fun c => !isSeparator c)

theorem isAlphanum_iff {c : Char} : c.isAlphanum = true ↔
    (65 ≤ c.toNat ∧ c.toNat ≤ 90) ∨ (97 ≤ c.toNat ∧ c.toNat ≤ 122) ∨
      (48 ≤ c.toNat ∧ c.toNat ≤ 57) := by
  simp only [Char.isAlphanum, Char.isAlpha, Char.isUpper, Char.isLower, Char.isDigit,
    Bool.or_eq_true, Bool.and_eq_true, decide_eq_true_eq, UInt32.le_iff_toNat_le, ge_iff_le,
    or_assoc]
  exact Iff.rfl

theorem isSeparator_of_isAlphanum {c : Char} (h : c.isAlphanum = true) : isSeparator c = false := by
  have hspace : isSpace c = false := by
    rw [isAlphanum_iff] at h
    rw [Bool.eq_false_iff]
    simp only [isSpace, ne_eq, Bool.or_eq_true, Bool.and_eq_true, decide_eq_true_eq, beq_iff_eq]
    omega
  simp only [isSeparator, hspace, Bool.or_false, Bool.or_eq_false_iff, beq_eq_false_iff_ne]
  refine ⟨⟨⟨⟨?_, ?_⟩, ?_⟩, ?_⟩, ?_⟩ <;> rintro rfl <;> exact absurd h (by decide)

theorem isSeparator_toUpper (c : Char) : isSeparator c.toUpper = isSeparator c := by
  cases hc : c.isAlpha
  · rw [toUpper_of_not_isAlpha hc]
  · have hupper : c.toUpper.isAlpha = true := by rw [Char.isAlpha_toUpper_eq_isAlpha, hc]
    rw [isSeparator_of_isAlphanum (c := c) (by simp [Char.isAlphanum, hc]),
      isSeparator_of_isAlphanum (by simp [Char.isAlphanum, hupper])]

theorem serviceKey_eq_filter (name : Text) :
    serviceKey name = (upper name).filter fun c => !isSeparator c :=
  upper_filter (fun c => by rw [isSeparator_toUpper]) name

theorem serviceKey_eq_of_upper_eq {name name' : Text} (h : upper name = upper name') :
    serviceKey name = serviceKey name' := by
  rw [serviceKey_eq_filter, serviceKey_eq_filter, h]

theorem filter_dropWhile {p q : Char → Bool} (hpq : ∀ c, p c = true → q c = false) (s : Text) :
    (s.dropWhile p).filter q = s.filter q := by
  induction s with
  | nil => rfl
  | cons c rest ih =>
      rw [List.dropWhile_cons]
      split
      · rename_i hc
        rw [ih, List.filter_cons_of_neg (by simp [hpq c hc])]
      · rfl

theorem filter_rdropWhile {p q : Char → Bool} (hpq : ∀ c, p c = true → q c = false) (s : Text) :
    (s.rdropWhile p).filter q = s.filter q := by
  rw [List.rdropWhile, List.filter_reverse, filter_dropWhile hpq, List.filter_reverse,
    List.reverse_reverse]

theorem serviceKey_strip (name : Text) : serviceKey (strip name) = serviceKey name := by
  have hspace : ∀ c, isSpace c = true → (!isSeparator c) = false := fun c hc => by
    simp [isSeparator, hc]
  rw [serviceKey, serviceKey, strip, rstrip, lstrip, filter_rdropWhile hspace,
    filter_dropWhile hspace]

theorem serviceKey_stripChars {chars : Text} (h : ∀ c ∈ chars, isSeparator c = true) (name : Text) :
    serviceKey (stripChars chars name) = serviceKey name := by
  have hchars : ∀ c, chars.contains c = true → (!isSeparator c) = false := fun c hc => by
    simp [h c (List.contains_iff_mem.1 hc)]
  rw [serviceKey, serviceKey, stripChars, filter_rdropWhile hchars, filter_dropWhile hchars]

theorem serviceKey_ne_nil (w : Word) : serviceKey w.text ≠ [] := by
  have hfirst := isSeparator_of_isAlphanum w.first_alphanum
  rw [serviceKey, Word.text, List.filter_cons_of_pos (by simp [hfirst])]
  exact List.cons_ne_nil _ _

theorem serviceKey_eq_upper {name : Text} (h : ∀ c ∈ name, c.isAlphanum = true) :
    serviceKey name = upper name := by
  rw [serviceKey, List.filter_eq_self.2]
  intro c hc
  rw [isSeparator_of_isAlphanum (h c hc)]
  rfl

theorem serviceKey_word (w : Word) : serviceKey w.text = upper (w.text.filter Char.isAlphanum) := by
  rw [serviceKey]
  refine congrArg upper (List.filter_congr fun c hc => ?_)
  have hword := w.wordChar hc
  simp only [isWordChar, Bool.or_eq_true, beq_iff_eq] at hword
  rcases hword with (h | rfl) | rfl
  · rw [isSeparator_of_isAlphanum h, h]
    rfl
  · decide
  · decide

/-! ### Classes -/

/-- `_to_class_name` of the Spring mapping -/
def toClassName (name : Text) : Text :=
  (title (name.map fun c => if c = '-' ∨ c = ' ' then '_' else c)).filter fun c => c ≠ '_'

theorem toClassName_eq_of_upper_eq {name name' : Text} (h : upper name = upper name') :
    toClassName name = toClassName name' := by
  have hupper : ∀ s : Text, upper (s.map fun c => if c = '-' ∨ c = ' ' then '_' else c) =
      (upper s).map fun c => if c = '-' ∨ c = ' ' then '_' else c := by
    intro s
    rw [upper, upper, List.map_map, List.map_map]
    refine List.map_congr_left fun c _ => ?_
    simp only [Function.comp_apply, toUpper_eq_iff (c := c) (d := '-') rfl,
      toUpper_eq_iff (c := c) (d := ' ') rfl]
    split_ifs
    · rfl
    · rfl
  rw [toClassName, ← title_upper, hupper, h, ← hupper, title_upper, toClassName]

theorem isAlphanum_of_mem_toClassName {w : Word} {c : Char} (hc : c ∈ toClassName w.text) :
    c.isAlphanum = true := by
  obtain ⟨hmem, hne⟩ := List.mem_filter.1 hc
  obtain ⟨d, hd, hcd⟩ := exists_of_mem_titleFrom hmem
  obtain ⟨e, he, rfl⟩ := List.mem_map.1 hd
  have hword := w.wordChar he
  have hline : ('_').toUpper = '_' ∧ ('_').toLower = '_' := by decide
  split_ifs at hcd with hsep
  · -- a hyphen has become an underscore, which is left out
    rcases hcd with rfl | rfl | rfl <;> simp [hline] at hne
  · simp only [isWordChar, Bool.or_eq_true, beq_iff_eq] at hword
    rcases hword with (he | rfl) | rfl
    · rcases hcd with rfl | rfl | rfl
      · exact he
      · rw [isAlphanum_toUpper, he]
      · rw [isAlphanum_toLower, he]
    · exact absurd (.inl rfl) hsep
    · rcases hcd with rfl | rfl | rfl <;> simp [hline] at hne

theorem toClassName_ne_nil (w : Word) : toClassName w.text ≠ [] := by
  have hsep : ¬ (w.first = '-' ∨ w.first = ' ') := by
    have := w.first_alphanum
    rintro (h | h) <;> rw [h] at this <;> exact absurd this (by decide)
  have hcased : ∀ c : Char, c.isAlphanum = true → c ≠ '_' := by
    rintro c hc rfl
    exact absurd hc (by decide)
  rw [toClassName, Word.text, List.map_cons, if_neg hsep, title, titleFrom, List.filter_cons_of_pos]
  · exact List.cons_ne_nil _ _
  · refine decide_eq_true (hcased _ ?_)
    rw [if_neg Bool.false_ne_true]
    split_ifs
    · rw [isAlphanum_toUpper, w.first_alphanum]
    · exact w.first_alphanum

theorem strip_toClassName (w : Word) : strip (toClassName w.text) = toClassName w.text := by
  refine strip_eq_self fun c hc => ?_
  have hsep := isSeparator_of_isAlphanum (isAlphanum_of_mem_toClassName hc)
  simp only [isSeparator, Bool.or_eq_false_iff] at hsep
  exact hsep.1.1.1.2

end CobolJava.Names
