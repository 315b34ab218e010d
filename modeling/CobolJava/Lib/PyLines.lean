/-
**Lines and words of Python.**

The string methods a program uses that reads a text line by line, on lists of characters.  Letters
change their case only within ASCII.

Main definitions:

* `Py.Chars.strip`, `Py.Chars.upper`, `Py.Chars.contains` — methods of `str`;
* `Py.Chars.split`, `Py.Chars.splitlines` — the words and the lines of a text;
* `Py.Chars.word`, `Py.Chars.afterWord` — `\S+` at the start of a text, and what follows it.

Main results:

* `Py.Chars.strip_eq_rstrip` — a text that starts with a word;
* `Py.Chars.strip_cons`, `Py.Chars.strip_rstrip` — stripping twice.
-/

import Mathlib.Data.List.DropRight
import CobolJava.Lib.PyText

set_option autoImplicit false

namespace Py.Chars

/-- A statement about all characters of a text is decided along the text, not over all characters. -/
instance (priority := high) decidableForallMem (s : List Char) (p : Char → Prop) [DecidablePred p] :
    Decidable (∀ c ∈ s, p c) :=
  List.decidableBAll p s

/-! ### Methods of `str` -/

/-- `s.lstrip()` -/
def lstrip (s : List Char) : List Char :=
  s.dropWhile isSpace

/-- `s.rstrip()` -/
def rstrip (s : List Char) : List Char :=
  s.rdropWhile isSpace

/-- `s.strip()` -/
def strip (s : List Char) : List Char :=
  rstrip (lstrip s)

/-- `s.strip(chars)` -/
def stripChars (chars s : List Char) : List Char :=
  (s.dropWhile (chars.contains ·)).rdropWhile (chars.contains ·)

/-- `s.upper()` -/
def upper (s : List Char) : List Char :=
  s.map Char.toUpper

/-- `s.startswith(p)` -/
def startswith (s p : List Char) : Bool :=
  p.isPrefixOf s

/-- `p in s` -/
def contains (s p : List Char) : Bool :=
  s.tails.any fun t => startswith t p

/-- The words of a text, with the characters of the word that is being read. -/
def splitFrom (current : List Char) : List Char → List (List Char)
  | [] => if current = [] then [] else [current]
  | c :: rest =>
      if isSpace c then
        if current = [] then splitFrom [] rest else current :: splitFrom [] rest
      else splitFrom (current ++ [c]) rest

/-- `s.split()` -/
def split (s : List Char) : List (List Char) :=
  splitFrom [] s

/-- The line boundaries of `str.splitlines`. -/
def isLineBreak (c : Char) : Bool :=
  let n := c.toNat
  (10 ≤ n && n ≤ 13) || (28 ≤ n && n ≤ 30) || n == 133 || n == 8232 || n == 8233

/-- The lines of a text, with the characters of the line that is being read. -/
def splitlinesFrom (current : List Char) : List Char → List (List Char)
  | [] => if current = [] then [] else [current]
  | '\r' :: '\n' :: rest => current :: splitlinesFrom [] rest
  | c :: rest =>
      if isLineBreak c then current :: splitlinesFrom [] rest
      else splitlinesFrom (current ++ [c]) rest

/-- `s.splitlines()` -/
def splitlines (s : List Char) : List (List Char) :=
  splitlinesFrom [] s

/-! ### Words -/

/-- `\S+` at the start of a text. -/
def word (s : List Char) : List Char :=
  s.takeWhile fun c => !isSpace c

def afterWord (s : List Char) : List Char :=
  s.dropWhile fun c => !isSpace c

theorem word_append_afterWord (s : List Char) : word s ++ afterWord s = s :=
  List.takeWhile_append_dropWhile

theorem isSpace_of_afterWord {s : List Char} {c : Char} (h : (afterWord s).head? = some c) :
    isSpace c = true := by
  induction s with
  | nil => simp [afterWord] at h
  | cons d rest ih =>
      rw [afterWord, List.dropWhile_cons] at h
      split at h
      · exact ih h
      · rename_i hspace
        obtain rfl : d = c := by simpa using h
        simpa using hspace

theorem isSpace_of_letter {c : Char} (hlo : 65 ≤ c.toNat) (hhi : c.toNat ≤ 122) :
    isSpace c = false := by
  rw [Bool.eq_false_iff]
  simp only [isSpace, ne_eq, Bool.or_eq_true, Bool.and_eq_true, decide_eq_true_eq, beq_iff_eq]
  omega

theorem isSpace_of_isDigit {c : Char} (h : c.isDigit = true) : isSpace c = false := by
  have h' : 48 ≤ c.toNat ∧ c.toNat ≤ 57 := by
    simpa [Char.isDigit, UInt32.le_iff_toNat_le] using h
  simp only [isSpace, Bool.or_eq_false_iff, Bool.and_eq_false_iff, decide_eq_false_iff_not,
    beq_eq_false_iff_ne]
  omega

theorem not_isAlpha_of_isDigit {c : Char} (h : c.isDigit = true) : c.isAlpha = false := by
  simp only [Char.isDigit, Bool.and_eq_true, decide_eq_true_eq, UInt32.le_iff_toNat_le, ge_iff_le] at h
  rw [Bool.eq_false_iff]
  delta Char.isAlpha Char.isUpper Char.isLower
  simp only [ne_eq, Bool.or_eq_true, Bool.and_eq_true, decide_eq_true_eq, UInt32.le_iff_toNat_le,
    ge_iff_le]
  have hhigh : c.val.toNat ≤ 57 := h.2
  rintro (hupper | hlower)
  · have : 65 ≤ c.val.toNat := hupper.1
    omega
  · have : 97 ≤ c.val.toNat := hlower.1
    omega

theorem isSpace_of_alphanum {c : Char} (h : c.isAlphanum = true) : isSpace c = false := by
  rw [Char.isAlphanum, Bool.or_eq_true] at h
  delta Char.isAlpha at h
  rw [Bool.or_eq_true] at h
  rcases h with (hupper | hlower) | hdigit
  · delta Char.isUpper at hupper
    rw [decide_eq_true_eq] at hupper
    have hhi : c.toNat ≤ 90 := hupper.2
    exact isSpace_of_letter hupper.1 (by omega)
  · delta Char.isLower at hlower
    rw [Bool.and_eq_true, decide_eq_true_eq, decide_eq_true_eq] at hlower
    have hlo : 97 ≤ c.toNat := hlower.1
    exact isSpace_of_letter (by omega) hlower.2
  · exact isSpace_of_isDigit hdigit

theorem isSpace_toUpper (c : Char) : isSpace c.toUpper = isSpace c := by
  unfold Char.toUpper
  split
  · rename_i hlower
    have hlo : 97 ≤ c.toNat := hlower.1
    have hhi : c.toNat ≤ 122 := hlower.2
    have hval : c.val.toNat = c.toNat := rfl
    -- a small letter becomes the one 32 before it
    have hupper : (c.val + ('A'.val - 'a'.val)).toNat = c.toNat - 32 := by
      rw [UInt32.toNat_add]
      change (c.val.toNat + 4294967264) % _ = _
      omega
    rw [isSpace_of_letter (by omega) hhi]
    refine isSpace_of_letter ?_ ?_
    · change 65 ≤ (c.val + ('A'.val - 'a'.val)).toNat
      omega
    · change (c.val + ('A'.val - 'a'.val)).toNat ≤ 122
      omega
  · rfl

/-! ### White space at the ends -/

theorem rstrip_cons_of_ne {s : List Char} (h : rstrip s ≠ []) (c : Char) :
    rstrip (c :: s) = c :: rstrip s := by
  induction s using List.reverseRecOn with
  | nil => exact absurd rfl h
  | append_singleton init d ih =>
      rw [← List.cons_append, rstrip, rstrip, List.rdropWhile_concat, List.rdropWhile_concat]
      rw [rstrip, List.rdropWhile_concat] at h
      split
      · rename_i hspace
        rw [if_pos hspace] at h
        exact ih h
      · rfl

theorem rstrip_cons {c : Char} (h : isSpace c = false) (s : List Char) :
    rstrip (c :: s) = c :: rstrip s := by
  induction s using List.reverseRecOn with
  | nil => simp [rstrip, h]
  | append_singleton init d ih =>
      rw [← List.cons_append, rstrip, rstrip, List.rdropWhile_concat, List.rdropWhile_concat]
      split
      · exact ih
      · rfl

theorem strip_eq_rstrip {s : List Char} (h : ∀ c ∈ s.head?, isSpace c = false) :
    strip s = rstrip s := by
  cases s with
  | nil => rfl
  | cons c rest => simp [strip, lstrip, h c rfl]

theorem strip_cons {c : Char} (h : isSpace c = false) (s : List Char) :
    strip (c :: s) = c :: rstrip s := by
  rw [strip_eq_rstrip (by simpa using h), rstrip_cons h]

theorem stripped_eq_self {p : Char → Bool} {s : List Char} (h : ∀ c ∈ s, p c = false) :
    (s.dropWhile p).rdropWhile p = s := by
  have hleft : s.dropWhile p = s := by
    refine List.dropWhile_eq_self_iff.2 fun hlt => ?_
    simp [h _ (List.getElem_mem hlt)]
  rw [hleft]
  refine List.rdropWhile_eq_self_iff.2 fun hne => ?_
  simp [h _ (List.getLast_mem hne)]

theorem strip_eq_self {s : List Char} (h : ∀ c ∈ s, isSpace c = false) : strip s = s :=
  stripped_eq_self h

theorem length_strip_le (s : List Char) : (strip s).length ≤ s.length :=
  (List.rdropWhile_prefix _ _).length_le.trans (List.dropWhile_suffix _).length_le

theorem strip_of_ends {s : List Char} (hfirst : ∀ c ∈ s.head?, isSpace c = false)
    (hlast : ∀ c ∈ s.getLast?, isSpace c = false) : strip s = s := by
  rw [strip_eq_rstrip hfirst, rstrip, List.rdropWhile_eq_self_iff]
  intro hne
  rw [hlast _ (List.getLast?_eq_some_getLast hne)]
  decide

theorem stripChars_eq_self {chars s : List Char} (h : ∀ c ∈ s, c ∉ chars) : stripChars chars s = s :=
  stripped_eq_self fun c hc => by simp [h c hc]

theorem rstrip_rstrip (s : List Char) : rstrip (rstrip s) = rstrip s :=
  List.rdropWhile_idempotent isSpace s

theorem lstrip_rstrip (s : List Char) : lstrip (rstrip s) = rstrip (lstrip s) := by
  induction s with
  | nil => rfl
  | cons c rest ih =>
      cases h : isSpace c with
      | false =>
          rw [rstrip_cons h, lstrip, lstrip, List.dropWhile_cons, List.dropWhile_cons]
          simp [h, rstrip_cons h]
      | true =>
          have hlstrip : lstrip (c :: rest) = lstrip rest := by simp [lstrip, h]
          rw [hlstrip, ← ih]
          by_cases hrest : rstrip rest = []
          · have hall : rstrip (c :: rest) = [] := by
              refine List.rdropWhile_eq_nil_iff.2 fun d hd => ?_
              rcases List.mem_cons.1 hd with rfl | hd
              · exact h
              · exact List.rdropWhile_eq_nil_iff.1 hrest d hd
            rw [hrest, hall]
          · rw [rstrip_cons_of_ne hrest, lstrip, lstrip, List.dropWhile_cons, if_pos h]

theorem rstrip_eq_self_of_suffix {s t : List Char} (hs : rstrip s = s) (h : t <:+ s) :
    rstrip t = t := by
  refine List.rdropWhile_eq_self_iff.2 fun hne => ?_
  have hsne : s ≠ [] := fun hnil => hne (List.suffix_nil.1 (hnil ▸ h))
  have hlast := List.rdropWhile_eq_self_iff.1 hs hsne
  rwa [← h.getLast hne] at hlast

theorem lstrip_eq_nil {s : List Char} (hs : rstrip s = s) : lstrip s = [] ↔ s = [] := by
  refine ⟨fun h => ?_, fun h => by rw [h]; rfl⟩
  rw [← hs]
  exact List.rdropWhile_eq_nil_iff.2 (List.dropWhile_eq_nil_iff.1 h)

theorem afterWord_eq_self {s : List Char} (h : word s = []) : afterWord s = s := by
  have := word_append_afterWord s
  rwa [h] at this

theorem afterWord_suffix (s : List Char) : afterWord s <:+ s :=
  List.dropWhile_suffix _

theorem lstrip_suffix (s : List Char) : lstrip s <:+ s :=
  List.dropWhile_suffix _

theorem afterWord_ne_nil {s : List Char} {c : Char} (hc : c ∈ s) (h : isSpace c = true) :
    afterWord s ≠ [] := fun hnil =>
  absurd (List.dropWhile_eq_nil_iff.1 hnil c hc) (by simp [h])

theorem dropWhile_append_cons {p : Char → Bool} {c : Char} (h : p c = false) (s t : List Char) :
    (s ++ c :: t).dropWhile p = s.dropWhile p ++ c :: t := by
  rw [List.dropWhile_append]
  split
  · rename_i hempty
    rw [List.isEmpty_iff.1 hempty, List.dropWhile_cons, h]
    rfl
  · rfl

theorem strip_rstrip (s : List Char) : strip (rstrip s) = strip s := by
  rw [strip, lstrip_rstrip, rstrip_rstrip, strip]

end Py.Chars
