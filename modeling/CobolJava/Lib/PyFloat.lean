/-
**Texts that `float` accepts.**

The grammar of `float(text)` for a text without white space around it, with the ASCII digits.

Main definitions:

* `Py.isFloat` — whether `float(text)` does not raise.

Main results:

* `Py.isFloat_decimal`, `Py.isFloat_minus` — decimal numbers are accepted, also after a minus sign;
* `Py.isFloat_chars` — a text that is accepted holds neither blanks nor parentheses.
-/

import Mathlib
import CobolJava.Lib.PyLines

set_option autoImplicit false

namespace Py

/-! ### The grammar -/

/-- Digits, with single underscores between them. -/
def digitPart : List Char → Bool
  | [] => false
  | [c] => c.isDigit
  | c :: '_' :: rest => c.isDigit && digitPart rest
  | c :: rest => c.isDigit && digitPart rest

def isMantissa (s : List Char) : Bool :=
  let whole := s.takeWhile (· ≠ '.')
  match s.dropWhile (· ≠ '.') with
  | [] => digitPart whole
  | _ :: fraction =>
      (whole.isEmpty || digitPart whole) && (fraction.isEmpty || digitPart fraction) &&
        !(whole.isEmpty && fraction.isEmpty)

def dropSign : List Char → List Char
  | '+' :: rest => rest
  | '-' :: rest => rest
  | rest => rest

/-- A mantissa with an optional exponent. -/
def isDecimal (s : List Char) : Bool :=
  let mantissa := s.takeWhile fun c => c ≠ 'e' && c ≠ 'E'
  match s.dropWhile fun c => c ≠ 'e' && c ≠ 'E' with
  | [] => isMantissa mantissa
  | _ :: exponent => isMantissa mantissa && digitPart (dropSign exponent)

/-- The words `float` accepts, in upper case. -/
def floatWords : List (List Char) :=
  [['I', 'N', 'F'], ['I', 'N', 'F', 'I', 'N', 'I', 'T', 'Y'], ['N', 'A', 'N']]

/-- Whether `float(text)` does not raise. -/
def isFloat (text : List Char) : Bool :=
  floatWords.contains (Chars.upper (dropSign text)) || isDecimal (dropSign text)

/-! ### Decimal numbers -/

theorem digitPart_digits {s : List Char} (hne : s ≠ []) (h : ∀ c ∈ s, c.isDigit = true) :
    digitPart s = true := by
  induction s using digitPart.induct with
  | case1 => exact absurd rfl hne
  | case2 c => exact h c (List.mem_cons_self ..)
  | case3 c rest ih => exact absurd (h '_' (by simp)) (by decide)
  | case4 c rest hne' hunder ih =>
      rw [digitPart, h c (List.mem_cons_self ..), Bool.true_and]
      · exact ih hne' fun d hd => h d (List.mem_cons_of_mem _ hd)
      · exact hne'
      · exact hunder

theorem dropSign_eq_self {s : List Char} (hplus : s.head? ≠ some '+') (hminus : s.head? ≠ some '-') :
    dropSign s = s := by
  unfold dropSign
  split
  · exact absurd rfl hplus
  · exact absurd rfl hminus
  · rfl

theorem isFloat_minus {s : List Char} (hplus : s.head? ≠ some '+') (hminus : s.head? ≠ some '-') :
    isFloat ('-' :: s) = isFloat s := by
  rw [isFloat, isFloat, dropSign_eq_self hplus hminus]
  rfl

/-- Digits, and digits with a point before some of them, are accepted. -/
theorem isFloat_decimal {whole fraction : List Char} (hne : whole ++ fraction ≠ [])
    (hwhole : ∀ c ∈ whole, c.isDigit = true) (hfraction : ∀ c ∈ fraction, c.isDigit = true) :
    isFloat (if fraction = [] then whole else whole ++ '.' :: fraction) = true := by
  set text := if fraction = [] then whole else whole ++ '.' :: fraction with htext
  have hchars : ∀ c ∈ text, c.isDigit = true ∨ c = '.' := by
    intro c hc
    rw [htext] at hc
    split_ifs at hc
    · exact .inl (hwhole c hc)
    · rcases List.mem_append.1 hc with hc | hc
      · exact .inl (hwhole c hc)
      · rcases List.mem_cons.1 hc with rfl | hc
        · exact .inr rfl
        · exact .inl (hfraction c hc)
  have hsign : ∀ d : Char, d.isDigit = false → d ≠ '.' → text.head? ≠ some d := by
    intro d hd hpoint hhead
    rcases hchars d (List.mem_of_mem_head? hhead) with h | h
    · rw [hd] at h
      cases h
    · exact hpoint h
  have hexp : ∀ c ∈ text, (decide (c ≠ 'e') && decide (c ≠ 'E')) = true := by
    intro c hc
    rw [Bool.and_eq_true, decide_eq_true_eq, decide_eq_true_eq]
    constructor
    · rintro rfl
      exact absurd (hchars _ hc) (by decide)
    · rintro rfl
      exact absurd (hchars _ hc) (by decide)
  have hpoint : ∀ c ∈ whole, decide (c ≠ '.') = true := by
    intro c hc
    rw [decide_eq_true_eq]
    rintro rfl
    exact absurd (hwhole _ hc) (by decide)
  rw [isFloat, dropSign_eq_self (hsign '+' (by decide) (by decide))
    (hsign '-' (by decide) (by decide)), isDecimal, List.dropWhile_eq_nil_iff.2 hexp,
    List.takeWhile_eq_self_iff.2 hexp, Bool.or_eq_true]
  refine .inr ?_
  simp only
  by_cases hnil : fraction = []
  · rw [htext, if_pos hnil, isMantissa, List.dropWhile_eq_nil_iff.2 hpoint,
      List.takeWhile_eq_self_iff.2 hpoint]
    refine digitPart_digits ?_ hwhole
    rw [hnil, List.append_nil] at hne
    exact hne
  · rw [htext, if_neg hnil, isMantissa, List.dropWhile_append_of_pos hpoint,
      List.takeWhile_append_of_pos hpoint]
    have hfrac := digitPart_digits hnil hfraction
    by_cases hw : whole = []
    · simp [hw, hnil, hfrac]
    · simp [hw, hnil, hfrac, digitPart_digits hw hwhole]

/-! ### The characters of an accepted text -/

def isFloatChar (c : Char) : Bool :=
  c.isAlphanum || c = '_' || c = '.' || c = '+' || c = '-'

theorem digitPart_chars {s : List Char} (h : digitPart s = true) : ∀ c ∈ s, isFloatChar c = true := by
  have hdigit : ∀ c : Char, c.isDigit = true → isFloatChar c = true := by
    intro c hc
    simp [isFloatChar, Char.isAlphanum, hc]
  induction s using digitPart.induct with
  | case1 => exact fun c hc => absurd hc (List.not_mem_nil)
  | case2 c =>
      intro d hd
      rw [List.mem_singleton.1 hd]
      exact hdigit c h
  | case3 c rest ih =>
      rw [digitPart, Bool.and_eq_true] at h
      intro d hd
      rcases List.mem_cons.1 hd with rfl | hd
      · exact hdigit _ h.1
      · rcases List.mem_cons.1 hd with rfl | hd
        · decide
        · exact ih h.2 d hd
  | case4 c rest hne hunder ih =>
      rw [digitPart.eq_4 _ _ hne hunder, Bool.and_eq_true] at h
      intro d hd
      rcases List.mem_cons.1 hd with rfl | hd
      · exact hdigit _ h.1
      · exact ih h.2 d hd

theorem isMantissa_chars {s : List Char} (h : isMantissa s = true) :
    ∀ c ∈ s, isFloatChar c = true := by
  have hpart : ∀ t : List Char, (t.isEmpty || digitPart t) = true → ∀ c ∈ t, isFloatChar c = true := by
    intro t ht
    rcases Bool.or_eq_true_iff.1 ht with ht | ht
    · rw [List.isEmpty_iff.1 ht]
      exact fun c hc => absurd hc (List.not_mem_nil)
    · exact digitPart_chars ht
  intro c hc
  rw [← @List.takeWhile_append_dropWhile _ (· ≠ '.') s] at hc
  rw [isMantissa] at h
  cases hdrop : s.dropWhile (· ≠ '.') with
  | nil =>
      rw [hdrop] at h hc
      rw [List.append_nil] at hc
      exact digitPart_chars h c hc
  | cons d fraction =>
      rw [hdrop] at h hc
      simp only [Bool.and_eq_true] at h
      have hd : d = '.' := by
        have := List.head?_dropWhile_not (· ≠ '.') s
        simp only [hdrop, List.head?_cons, decide_eq_false_iff_not, not_not] at this
        exact this
      rcases List.mem_append.1 hc with hc | hc
      · exact hpart _ h.1.1 c hc
      · rcases List.mem_cons.1 hc with rfl | hc
        · rw [hd]
          decide
        · exact hpart _ h.1.2 c hc

theorem dropSign_chars {s : List Char} (h : ∀ c ∈ dropSign s, isFloatChar c = true) :
    ∀ c ∈ s, isFloatChar c = true := by
  unfold dropSign at h
  split at h
  · exact List.forall_mem_cons.2 ⟨by decide, h⟩
  · exact List.forall_mem_cons.2 ⟨by decide, h⟩
  · exact h

theorem isDecimal_chars {s : List Char} (h : isDecimal s = true) :
    ∀ c ∈ s, isFloatChar c = true := by
  intro c hc
  rw [← @List.takeWhile_append_dropWhile _ (fun c => c ≠ 'e' && c ≠ 'E') s] at hc
  rw [isDecimal] at h
  cases hdrop : s.dropWhile (fun c => c ≠ 'e' && c ≠ 'E') with
  | nil =>
      rw [hdrop] at h hc
      rw [List.append_nil] at hc
      exact isMantissa_chars h c hc
  | cons d exponent =>
      rw [hdrop] at h hc
      simp only [Bool.and_eq_true] at h
      have hd : isFloatChar d = true := by
        have := List.head?_dropWhile_not (fun c => c ≠ 'e' && c ≠ 'E') s
        simp only [hdrop, List.head?_cons, Bool.and_eq_false_iff, decide_eq_false_iff_not,
          not_not] at this
        rcases this with rfl | rfl <;> decide
      rcases List.mem_append.1 hc with hc | hc
      · exact isMantissa_chars h.1 c hc
      · rcases List.mem_cons.1 hc with rfl | hc
        · exact hd
        · exact dropSign_chars (digitPart_chars h.2) c hc

theorem isFloatChar_of_toUpper {c : Char} (h : c.toUpper.isAlpha = true) : isFloatChar c = true := by
  have halpha : c.isAlpha = true := by
    unfold Char.toUpper at h
    split at h
    · rename_i hlower
      have hlow : c.isLower = true := by
        simp only [Char.isLower, Bool.and_eq_true, decide_eq_true_eq]
        exact hlower
      simp [Char.isAlpha, hlow]
    · exact h
  simp [isFloatChar, Char.isAlphanum, halpha]

theorem isFloat_chars {s : List Char} (h : isFloat s = true) : ∀ c ∈ s, isFloatChar c = true := by
  refine dropSign_chars ?_
  rcases Bool.or_eq_true_iff.1 h with hword | hdecimal
  · intro c hc
    have hmem : c.toUpper ∈ Chars.upper (dropSign s) := List.mem_map_of_mem hc
    have hletters : ∀ w ∈ floatWords, ∀ d ∈ w, d.isAlpha = true := by decide
    exact isFloatChar_of_toUpper (hletters _ (List.contains_iff_mem.1 hword) _ hmem)
  · exact isDecimal_chars hdecimal

end Py
