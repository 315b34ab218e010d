/-
**VALUE literals of numeric items.**

`engine/transformation/numeric_semantics.py` turns a numeric literal into the text of a Java literal,
alone (`normalize_numeric_literal`) and stored in an item with given digits
(`normalize_value_for_pic`).  It works on the text: leading and final zeros are stripped, digits that
the item has no room for are cut off.

Main definitions:

* `NumericValues.normalizeNumericLiteral`, `NumericValues.normalizeValueForPic` — the functions;
* `NumericValues.Literal` — the numeric literals, with `Literal.text` and `Literal.value`;
* `NumericValues.storedValue` — what COBOL stores;
* `NumericValues.Literal.JavaSafe` — no superfluous leading zero.

Main results:

* `NumericValues.normalizeNumericLiteral_text`, `NumericValues.normalizeValueForPic_text` — the
  functions on literals, and what they return is a literal again;
* `NumericValues.value_normalized` — the value is kept;
* `NumericValues.normalizeValueForPic_exact_iff` — **when the text denotes what COBOL stores and is a
  safe Java literal**.
-/

import Mathlib
import CobolJava.Lib.DecimalText
import CobolJava.Lib.PyCase
import CobolJava.Lib.PyDigits

set_option autoImplicit false

namespace CobolJava.NumericValues

open Py.Chars DecimalText

/-- Texts are compared character by character. -/
local instance lawfulBEq_text : LawfulBEq (List Char) := List.instLawfulBEq

/-! ### Texts -/

/-- `NumericValueError`: a text that is no numeric literal, or a signed one for an unsigned item. -/
inductive NumericValueError
  | nonNumeric (text : List Char)
  | itemNotSigned (text : List Char)

/-- `_ZERO_FIGURATIVE` -/
def zeroFigurative : List (List Char) :=
  ["ZERO", "ZEROS", "ZEROES", "ALL ZERO", "ALL ZEROS", "ALL ZEROES"].map String.toList

/-- `_INVALID_NUMERIC_FIGURATIVE` -/
def invalidNumericFigurative : List (List Char) :=
  ["SPACE", "SPACES", "LOW-VALUE", "LOW-VALUES", "HIGH-VALUE", "HIGH-VALUES", "NULL", "NULLS",
    "QUOTE", "QUOTES"].map String.toList

/-- `_strip_quotes` -/
def stripQuotes (text : List Char) : List Char :=
  strip (stripChars ['"', '\''] (strip text))

/-- `\d` of a regular expression. -/
def isDecimal (c : Char) : Bool := (Py.decimalValue c).isSome

def isSign (c : Char) : Bool := c == '+' || c == '-'

def afterSign : List Char → List Char
  | [] => []
  | c :: rest => if isSign c then rest else c :: rest

/-- `_NUMERIC_LITERAL_RE.match`, for a text without a line break at its end. -/
def matchesNumericLiteral (text : List Char) : Bool :=
  let whole := (afterSign text).takeWhile isDecimal
  match (afterSign text).dropWhile isDecimal with
  | [] => !whole.isEmpty
  | c :: frac => c == '.' && frac.all isDecimal && !(whole.isEmpty && frac.isEmpty)

/-- The text in front of the first point. -/
def beforePoint (body : List Char) : List Char := body.takeWhile (· != '.')

/-- The text behind the first point, empty without one. -/
def behindPoint (body : List Char) : List Char := (body.dropWhile (· != '.')).drop 1

/-- `text or "0"` -/
def orZero (text : List Char) : List Char := if text = [] then ['0'] else text

/-- `text[-n:]` -/
def lastChars (n : ℕ) (text : List Char) : List Char :=
  if n = 0 then text else text.drop (text.length - n)

/-- `text.ljust(n, "0")` -/
def ljust (n : ℕ) (text : List Char) : List Char :=
  text ++ List.replicate (n - text.length) '0'

/-! ### Normalization -/

/-- `normalize_numeric_literal` -/
def normalizeNumericLiteral (text : List Char) : Except NumericValueError (List Char) :=
  let stripped := stripQuotes text
  let upper := [' '].intercalate (split (upper stripped))
  if upper ∈ zeroFigurative then .ok ['0']
  else if upper ∈ invalidNumericFigurative ∨ matchesNumericLiteral stripped = false then
    .error (.nonNumeric text)
  else
    let sign := if stripped.head? = some '-' then ['-'] else []
    let body := afterSign stripped
    let intPart := orZero (dropZeros (beforePoint body))
    let fracPart := behindPoint body
    if fracPart = [] then .ok (sign ++ intPart)
    else .ok (sign ++ intPart ++ '.' :: orZero (dropFinalZeros fracPart))

/-- `normalize_value_for_pic` -/
def normalizeValueForPic (text : List Char) (integerDigits decimalDigits : ℕ) (signed : Bool) :
    Except NumericValueError (List Char) :=
  let stripped := stripQuotes text
  if stripped.head?.all isSign && matchesNumericLiteral stripped && !signed then
    .error (.itemNotSigned text)
  else
    match normalizeNumericLiteral text with
    | .error e => .error e
    | .ok normalized =>
        let sign := if normalized.head? = some '-' then ['-'] else []
        let body := if normalized.head? = some '-' then normalized.drop 1 else normalized
        let fracPart := if decimalDigits < (behindPoint body).length then
          (behindPoint body).take decimalDigits else behindPoint body
        let intPart := if integerDigits < (beforePoint body).length then
          lastChars integerDigits (beforePoint body) else beforePoint body
        if decimalDigits = 0 then .ok (sign ++ intPart)
        else .ok (sign ++ intPart ++ '.' :: ljust decimalDigits fracPart)

/-! ### Literals -/

/-- A numeric literal: a sign (`true` for minus), digits, and digits behind a point. -/
@[ext] structure Literal where
  sign : Option Bool
  whole : List Char
  frac : Option (List Char)
  whole_digits : ∀ c ∈ whole, c.isDigit = true
  frac_digits : ∀ c ∈ frac.getD [], c.isDigit = true
  ne_nil : whole ++ frac.getD [] ≠ []

namespace Literal

def signText (l : Literal) : List Char :=
  match l.sign with
  | none => []
  | some false => ['+']
  | some true => ['-']

def body (l : Literal) : List Char :=
  match l.frac with
  | none => l.whole
  | some frac => l.whole ++ '.' :: frac

def text (l : Literal) : List Char := l.signText ++ l.body

/-- The absolute value of a literal. -/
def magnitude (l : Literal) : ℚ := number l.whole + fraction (l.frac.getD [])

def value (l : Literal) : ℚ := if l.sign = some true then -l.magnitude else l.magnitude

/-- The integer part of the literal is there and has no superfluous leading zero. -/
def JavaSafe (l : Literal) : Prop := l.whole ≠ [] ∧ (l.whole.head? = some '0' → l.whole = ['0'])

end Literal

/-- What COBOL stores of a value in an item of `i` integer and `d` decimal digits. -/
def storedValue (v : ℚ) (i d : ℕ) : ℚ :=
  SignType.sign v * ((⌊|v| * 10 ^ d⌋₊ % 10 ^ (i + d) : ℕ) / 10 ^ d)

section Texts

variable (l : Literal)

theorem not_point_of_isDigit {c : Char} (h : c.isDigit = true) : c ≠ '.' := by
  rintro rfl
  cases h

theorem not_isSign_of_isDigit {c : Char} (h : c.isDigit = true) : isSign c = false := by
  have hc := toNat_of_isDigit h
  rw [isSign, Bool.or_eq_false_iff, beq_eq_false_iff_ne, beq_eq_false_iff_ne]
  constructor
  · rintro rfl
    cases h
  · rintro rfl
    cases h

theorem isDecimal_of_isDigit {c : Char} (h : c.isDigit = true) : isDecimal c = true := by
  have hc := toNat_of_isDigit h
  rw [isDecimal, Py.decimalValue, Option.isSome_map, Py.zeros, List.find?_cons_of_pos]
  · rfl
  · simpa using ⟨hc.1, by omega⟩

theorem isDecimal_point : isDecimal '.' = false := by decide +kernel

theorem mem_body {c : Char} (h : c ∈ l.body) : c.isDigit = true ∨ c = '.' := by
  rw [Literal.body] at h
  split at h
  · exact .inl (l.whole_digits c h)
  · rename_i frac hfrac
    rw [List.mem_append, List.mem_cons] at h
    rcases h with h | h | h
    · exact .inl (l.whole_digits c h)
    · exact .inr h
    · exact .inl (l.frac_digits c (by rwa [hfrac]))

theorem mem_text {c : Char} (h : c ∈ l.text) :
    c.isDigit = true ∨ c = '.' ∨ c = '+' ∨ c = '-' := by
  rw [Literal.text, List.mem_append] at h
  rcases h with h | h
  · rw [Literal.signText] at h
    split at h <;> simp_all
  · exact (mem_body l h).imp_right .inl

theorem mem_text_plain {c : Char} (h : c ∈ l.text) :
    Py.isSpace c = false ∧ c ∉ ['"', '\''] ∧ c.toUpper = c ∧ c.isAlpha = false := by
  rcases mem_text l h with hdigit | rfl | rfl | rfl
  · have hne : ∀ d : Char, d.isDigit = false → c ≠ d := by
      rintro d hd rfl
      rw [hdigit] at hd
      cases hd
    have halpha := not_isAlpha_of_isDigit hdigit
    refine ⟨isSpace_of_isDigit hdigit, ?_, toUpper_of_not_isAlpha halpha, halpha⟩
    simp [hne '"' rfl, hne '\'' rfl]
  · decide
  · decide
  · decide

theorem stripQuotes_text : stripQuotes l.text = l.text := by
  have hspace : strip l.text = l.text := strip_eq_self fun c hc => (mem_text_plain l hc).1
  rw [stripQuotes, hspace, stripChars_eq_self fun c hc => (mem_text_plain l hc).2.1, hspace]

theorem body_ne_nil : l.body ≠ [] := by
  have hne := l.ne_nil
  rw [Literal.body]
  split
  · rename_i hfrac
    simpa [hfrac] using hne
  · simp

theorem head_body : ∀ c ∈ l.body.head?, isSign c = false := by
  intro c hc
  rcases mem_body l (List.mem_of_mem_head? hc) with hdigit | rfl
  · exact not_isSign_of_isDigit hdigit
  · rfl

theorem head_text : l.text.head? = some '-' ↔ l.sign = some true := by
  rw [Literal.text, Literal.signText]
  split
  · rename_i hsign
    refine iff_of_false (fun hhead => ?_) (by simp [hsign])
    have hno := head_body l '-' hhead
    cases hno
  · simp [*]
  · simp [*]

theorem afterSign_text : afterSign l.text = l.body := by
  rw [Literal.text, Literal.signText]
  split
  · cases hbody : l.body with
    | nil => rfl
    | cons c rest =>
        have hc := head_body l c (by rw [hbody]; rfl)
        simp [afterSign, hc]
  · rfl
  · rfl

theorem beforePoint_body : beforePoint l.body = l.whole := by
  have hall : ∀ c ∈ l.whole, (c != '.') = true := fun c hc =>
    bne_iff_ne.2 (not_point_of_isDigit (l.whole_digits c hc))
  rw [beforePoint, Literal.body]
  split
  · exact List.takeWhile_eq_self_iff.2 hall
  · rw [List.takeWhile_append_of_pos hall, List.takeWhile_cons_of_neg (by simp), List.append_nil]

theorem behindPoint_body : behindPoint l.body = l.frac.getD [] := by
  have hall : ∀ c ∈ l.whole, (c != '.') = true := fun c hc =>
    bne_iff_ne.2 (not_point_of_isDigit (l.whole_digits c hc))
  rw [behindPoint, Literal.body]
  split
  · rename_i hfrac
    rw [List.dropWhile_eq_nil_iff.2 hall, hfrac]
    rfl
  · rename_i frac hfrac
    rw [List.dropWhile_append_of_pos hall, List.dropWhile_cons_of_neg (by simp), hfrac]
    rfl

theorem point_mem_body : '.' ∈ l.body ↔ l.frac.isSome = true := by
  have hno : '.' ∉ l.whole := fun h => not_point_of_isDigit (l.whole_digits _ h) rfl
  rw [Literal.body]
  split <;> simp [*]

/-- **A literal is accepted as one.** -/
theorem matchesNumericLiteral_text : matchesNumericLiteral l.text = true := by
  have hwhole : ∀ c ∈ l.whole, isDecimal c = true := fun c hc =>
    isDecimal_of_isDigit (l.whole_digits c hc)
  have hne := l.ne_nil
  rw [matchesNumericLiteral, afterSign_text, Literal.body]
  cases hfrac : l.frac with
  | none =>
    rw [hfrac, Option.getD_none, List.append_nil] at hne
    dsimp only
    rw [List.dropWhile_eq_nil_iff.2 hwhole, List.takeWhile_eq_self_iff.2 hwhole]
    simpa using hne
  | some frac =>
    have hfracs : ∀ c ∈ frac, isDecimal c = true := fun c hc =>
      isDecimal_of_isDigit (l.frac_digits c (by rwa [hfrac]))
    rw [hfrac, Option.getD_some] at hne
    dsimp only
    rw [List.dropWhile_append_of_pos hwhole,
      List.dropWhile_cons_of_neg (by simp [isDecimal_point]),
      List.takeWhile_append_of_pos hwhole,
      List.takeWhile_cons_of_neg (by simp [isDecimal_point]), List.append_nil]
    dsimp only
    rw [List.all_eq_true.2 hfracs]
    simpa [Decidable.imp_iff_not_or] using hne

theorem text_injective {l l' : Literal} (h : l.text = l'.text) : l = l' := by
  have hbody : l.body = l'.body := by rw [← afterSign_text, ← afterSign_text, h]
  have hwhole : l.whole = l'.whole := by rw [← beforePoint_body, ← beforePoint_body, hbody]
  have hfrac : l.frac = l'.frac := by
    have hsome := point_mem_body l
    have hdigits := behindPoint_body l
    rw [hbody, point_mem_body] at hsome
    rw [hbody, behindPoint_body] at hdigits
    cases hl : l.frac <;> cases hl' : l'.frac <;> simp_all
  have hsign : l.sign = l'.sign := by
    rw [Literal.text, Literal.text, hbody, List.append_left_inj, Literal.signText,
      Literal.signText] at h
    split at h <;> split at h <;> simp_all
  exact Literal.ext hsign hwhole hfrac

/-! ### Literals are normalized -/

theorem letter_of_zeroFigurative : ∀ w ∈ zeroFigurative, w.any Char.isAlpha = true := by
  decide +kernel

theorem letter_of_invalidNumericFigurative :
    ∀ w ∈ invalidNumericFigurative, w.any Char.isAlpha = true := by
  decide +kernel

theorem splitFrom_of_plain {s : List Char} (current : List Char)
    (h : ∀ c ∈ s, Py.isSpace c = false) (hne : current ++ s ≠ []) :
    splitFrom current s = [current ++ s] := by
  induction s generalizing current with
  | nil =>
      rw [List.append_nil] at hne ⊢
      rw [splitFrom, if_neg hne]
  | cons c s ih =>
      rw [List.forall_mem_cons] at h
      rw [splitFrom, if_neg (by simp [h.1]), ih _ h.2 (by simp), List.append_assoc,
        List.singleton_append]

theorem upper_text : upper l.text = l.text := by
  rw [upper, List.map_congr_left fun c hc => (mem_text_plain l hc).2.2.1, List.map_id']

theorem words_not_mem {figuratives : List (List Char)}
    (h : ∀ w ∈ figuratives, w.any Char.isAlpha = true) :
    [' '].intercalate (split (upper l.text)) ∉ figuratives := by
  have hne : l.text ≠ [] := by
    rw [Literal.text]
    simp [body_ne_nil l]
  have hword : split l.text = [l.text] :=
    splitFrom_of_plain [] (fun c hc => (mem_text_plain l hc).1) hne
  have hjoined : [' '].intercalate [l.text] = l.text := by simp [List.intercalate]
  intro hmem
  rw [upper_text, hword, hjoined] at hmem
  obtain ⟨c, hc, halpha⟩ := List.any_eq_true.1 (h _ hmem)
  rw [(mem_text_plain l hc).2.2.2] at halpha
  cases halpha

theorem isDigit_orZero {s : List Char} (h : ∀ c ∈ s, c.isDigit = true) :
    ∀ c ∈ orZero s, c.isDigit = true := by
  intro c hc
  rw [orZero] at hc
  split_ifs at hc
  · rw [List.mem_singleton.1 hc]
    rfl
  · exact h c hc

theorem orZero_ne_nil (s : List Char) : orZero s ≠ [] := by
  rw [orZero]
  split_ifs with h
  · simp
  · exact h

theorem mem_of_mem_dropFinalZeros {s : List Char} {c : Char} (h : c ∈ dropFinalZeros s) : c ∈ s :=
  (List.rdropWhile_prefix _ _).subset h

theorem mem_of_mem_lastChars {n : ℕ} {s : List Char} {c : Char} (h : c ∈ lastChars n s) : c ∈ s := by
  rw [lastChars] at h
  split_ifs at h
  · exact h
  · exact List.mem_of_mem_drop h

theorem isDigit_fit {n : ℕ} {s : List Char} (h : ∀ c ∈ s, c.isDigit = true) :
    ∀ c ∈ fit n s, c.isDigit = true := by
  intro c hc
  rw [fit, List.mem_append] at hc
  rcases hc with hc | hc
  · exact h c (List.mem_of_mem_take hc)
  · rw [List.eq_of_mem_replicate hc]
    rfl

/-- The sign of a literal that Java keeps. -/
def javaSign (sign : Option Bool) : Option Bool := if sign = some true then some true else none

/-- A literal without superfluous zeros. -/
def normalized : Literal where
  sign := javaSign l.sign
  whole := orZero (dropZeros l.whole)
  frac := if l.frac.getD [] = [] then none else some (orZero (dropFinalZeros (l.frac.getD [])))
  whole_digits := isDigit_orZero fun c hc => l.whole_digits c (mem_of_mem_dropZeros hc)
  frac_digits := by
    split_ifs
    · nofun
    · exact isDigit_orZero fun c hc => l.frac_digits c (mem_of_mem_dropFinalZeros hc)
  ne_nil := by simp [orZero_ne_nil]

/-- The integer digits that an item has room for; all of them when it has none. -/
def cut (i : ℕ) (s : List Char) : List Char := if i < s.length then lastChars i s else s

theorem cut_ne_nil {i : ℕ} {s : List Char} (h : s ≠ []) : cut i s ≠ [] := by
  rw [cut, lastChars]
  split_ifs with hlt hzero
  · exact h
  · rw [Ne, List.drop_eq_nil_iff]
    omega
  · exact h

theorem mem_of_mem_cut {i : ℕ} {s : List Char} {c : Char} (h : c ∈ cut i s) : c ∈ s := by
  rw [cut] at h
  split_ifs at h
  · exact mem_of_mem_lastChars h
  · exact h

/-- A literal as an item of `i` integer and `d` decimal digits holds it. -/
def stored (i d : ℕ) : Literal where
  sign := javaSign l.sign
  whole := cut i (normalized l).whole
  frac := if d = 0 then none else some (fit d ((normalized l).frac.getD []))
  whole_digits := fun c hc => (normalized l).whole_digits c (mem_of_mem_cut hc)
  frac_digits := by
    split_ifs
    · nofun
    · exact isDigit_fit (normalized l).frac_digits
  ne_nil := by simp [cut_ne_nil (orZero_ne_nil _), normalized]

theorem signText_javaSign (m : Literal) (h : m.sign = javaSign l.sign) :
    m.signText = if l.sign = some true then ['-'] else [] := by
  rw [Literal.signText, h, javaSign]
  split_ifs <;> rfl

/-- **A literal is normalized.** -/
theorem normalizeNumericLiteral_text :
    normalizeNumericLiteral l.text = .ok (normalized l).text := by
  have hrefused : ¬([' '].intercalate (split (upper l.text)) ∈ invalidNumericFigurative ∨
      matchesNumericLiteral l.text = false) := by
    rintro (hmem | hno)
    · exact words_not_mem l letter_of_invalidNumericFigurative hmem
    · rw [matchesNumericLiteral_text] at hno
      cases hno
  have htext : (normalized l).text =
      (if l.sign = some true then ['-'] else []) ++ (normalized l).body := by
    rw [← signText_javaSign l (normalized l) rfl, Literal.text]
  rw [normalizeNumericLiteral, stripQuotes_text]
  dsimp only
  rw [if_neg (words_not_mem l letter_of_zeroFigurative), if_neg hrefused, afterSign_text,
    beforePoint_body, behindPoint_body, htext, Literal.body, normalized]
  simp only [head_text]
  split_ifs <;> simp

theorem ljust_take (d : ℕ) (s : List Char) :
    ljust d (if d < s.length then s.take d else s) = fit d s := by
  rw [ljust, fit]
  split_ifs with h
  · rw [List.length_take, Nat.min_eq_left h.le, Nat.sub_self, Nat.sub_eq_zero_of_le h.le]
  · rw [List.take_of_length_le (not_lt.1 h)]

/-- **A literal is stored.** -/
theorem normalizeValueForPic_text {signed : Bool} (h : l.sign.isSome = true → signed = true)
    (i d : ℕ) : normalizeValueForPic l.text i d signed = .ok (stored l i d).text := by
  have haccepted : (l.text.head?.all isSign && matchesNumericLiteral l.text && !signed) = false := by
    cases hsigned : signed with
    | true => simp
    | false =>
        -- an unsigned literal does not begin with a sign
        have hnone : l.sign = none := by
          cases hsign : l.sign with
          | none => rfl
          | some b =>
              rw [h (by rw [hsign]; rfl)] at hsigned
              cases hsigned
        have hbody : l.text = l.body := by
          rw [Literal.text, Literal.signText, hnone]
          rfl
        rw [hbody]
        cases hdigits : l.body with
        | nil => exact absurd hdigits (body_ne_nil l)
        | cons c rest =>
            have hc := head_body l c (by rw [hdigits]; rfl)
            simp [hc]
  have hsign : ∀ m : Literal, m.sign = javaSign l.sign →
      (if m.text.head? = some '-' then m.text.drop 1 else m.text) = m.body := by
    intro m hm
    have htext : m.text = (if l.sign = some true then ['-'] else []) ++ m.body := by
      rw [← signText_javaSign l m hm, Literal.text]
    have hhead : m.text.head? = some '-' ↔ l.sign = some true := by
      rw [head_text, hm, javaSign]
      split_ifs <;> simp_all
    simp only [hhead]
    rw [htext]
    split_ifs <;> simp
  have htext : (stored l i d).text =
      (if l.sign = some true then ['-'] else []) ++ (stored l i d).body := by
    rw [← signText_javaSign l (stored l i d) rfl, Literal.text]
  have hminus : (normalized l).text.head? = some '-' ↔ l.sign = some true := by
    rw [head_text, normalized, javaSign]
    split_ifs <;> simp_all
  rw [normalizeValueForPic, stripQuotes_text]
  dsimp only
  rw [haccepted, normalizeNumericLiteral_text, if_neg Bool.false_ne_true]
  dsimp only
  rw [hsign (normalized l) rfl, beforePoint_body, behindPoint_body, ljust_take, htext,
    Literal.body]
  simp only [hminus, stored, cut]
  split_ifs <;> simp

end Texts

/-! ### Values -/

section Values

variable (l : Literal)

theorem number_orZero (s : List Char) : number (orZero s) = number s := by
  rw [orZero]
  split_ifs with h
  · rw [h]
    rfl
  · rfl

theorem fraction_orZero (s : List Char) : fraction (orZero s) = fraction s := by
  rw [orZero]
  split_ifs with h
  · have hzero : number ['0'] = 0 := rfl
    rw [h, fraction, fraction, hzero]
    simp
  · rfl

theorem javaSign_eq_minus (sign : Option Bool) : javaSign sign = some true ↔ sign = some true := by
  rw [javaSign]
  split_ifs <;> simp_all

theorem number_normalized : number (normalized l).whole = number l.whole := by
  rw [normalized, number_orZero, number_dropZeros]

theorem fraction_normalized :
    fraction ((normalized l).frac.getD []) = fraction (l.frac.getD []) := by
  rw [normalized]
  dsimp only
  split_ifs with h
  · rw [h, Option.getD_none]
  · rw [Option.getD_some, fraction_orZero, fraction_dropFinalZeros]

theorem magnitude_nonneg : 0 ≤ l.magnitude :=
  add_nonneg (Nat.cast_nonneg _) (fraction_nonneg _)

theorem abs_value : |l.value| = l.magnitude := by
  rw [Literal.value]
  split_ifs
  · rw [abs_neg, abs_of_nonneg (magnitude_nonneg l)]
  · exact abs_of_nonneg (magnitude_nonneg l)

theorem floor_scaled (d : ℕ) :
    ⌊|l.value| * 10 ^ d⌋₊ = number l.whole * 10 ^ d + ⌊fraction (l.frac.getD []) * 10 ^ d⌋₊ := by
  have hnonneg : 0 ≤ fraction (l.frac.getD []) * 10 ^ d :=
    mul_nonneg (fraction_nonneg _) (by positivity)
  rw [abs_value, Literal.magnitude, add_mul, add_comm, add_comm (number l.whole * 10 ^ d),
    ← Nat.floor_add_natCast hnonneg]
  push_cast
  rfl

theorem floor_value : ⌊|l.value|⌋₊ = number l.whole := by
  have hscaled := floor_scaled l 0
  have hfraction : ⌊fraction (l.frac.getD [])⌋₊ = 0 :=
    Nat.floor_eq_zero.2 (fraction_lt_one l.frac_digits)
  simpa [hfraction] using hscaled

/-- What COBOL stores of a literal: its last integer digits and its first decimal digits. -/
theorem storedValue_value (i d : ℕ) : storedValue l.value i d =
    (if l.sign = some true then -1 else 1) *
      ((number l.whole % 10 ^ i : ℕ) + (⌊fraction (l.frac.getD []) * 10 ^ d⌋₊ : ℚ) / 10 ^ d) := by
  have hpos : (0 : ℚ) < 10 ^ d := by positivity
  have hlt : ⌊fraction (l.frac.getD []) * 10 ^ d⌋₊ < 10 ^ d := by
    rw [Nat.floor_lt (mul_nonneg (fraction_nonneg _) hpos.le)]
    push_cast
    exact mul_lt_of_lt_one_left hpos (fraction_lt_one l.frac_digits)
  have hmod : ∀ {w f : ℕ}, f < 10 ^ d →
      (w * 10 ^ d + f) % 10 ^ (i + d) = w % 10 ^ i * 10 ^ d + f := by
    intro w f hf
    have hroom : w % 10 ^ i * 10 ^ d + f < 10 ^ (i + d) := by
      have hw : w % 10 ^ i < 10 ^ i := Nat.mod_lt _ (by positivity)
      calc w % 10 ^ i * 10 ^ d + f < (w % 10 ^ i + 1) * 10 ^ d := by rw [Nat.succ_mul]; omega
        _ ≤ 10 ^ i * 10 ^ d := Nat.mul_le_mul_right _ hw
        _ = 10 ^ (i + d) := (pow_add ..).symm
    have hw : w * 10 ^ d + f = w % 10 ^ i * 10 ^ d + f + 10 ^ (i + d) * (w / 10 ^ i) := by
      conv_lhs => rw [← Nat.mod_add_div w (10 ^ i)]
      ring
    rw [hw, Nat.add_mul_mod_self_left, Nat.mod_eq_of_lt hroom]
  have hvalue : ((number l.whole % 10 ^ i * 10 ^ d + ⌊fraction (l.frac.getD []) * 10 ^ d⌋₊ : ℕ) : ℚ) /
      10 ^ d = (number l.whole % 10 ^ i : ℕ) + (⌊fraction (l.frac.getD []) * 10 ^ d⌋₊ : ℚ) / 10 ^ d := by
    push_cast
    field_simp
  rw [storedValue, floor_scaled, hmod hlt, hvalue]
  -- a literal of value zero has no sign, and nothing is stored of it
  rcases (magnitude_nonneg l).eq_or_lt with hzero | hpositive
  · have hvanish : l.value = 0 := by rw [← abs_eq_zero, abs_value, ← hzero]
    have hwhole : number l.whole = 0 := by rw [← floor_value, hvanish]; simp
    have hfloor := floor_scaled l d
    rw [hvanish, hwhole] at hfloor
    have hfrac : ⌊fraction (l.frac.getD []) * 10 ^ d⌋₊ = 0 := by simpa using hfloor.symm
    rw [hvanish, hwhole, hfrac]
    simp
  · rw [Literal.value]
    split_ifs
    · rw [sign_neg (neg_neg_of_pos hpositive)]
      simp
    · rw [sign_pos hpositive]
      simp

theorem value_stored (i d : ℕ) : (stored l i d).value =
    (if l.sign = some true then -1 else 1) *
      ((number (cut i (normalized l).whole) : ℕ) +
        (⌊fraction (l.frac.getD []) * 10 ^ d⌋₊ : ℚ) / 10 ^ d) := by
  have hfrac : fraction ((stored l i d).frac.getD []) =
      (⌊fraction (l.frac.getD []) * 10 ^ d⌋₊ : ℚ) / 10 ^ d := by
    have hfit := number_fit d (normalized l).frac_digits
    rw [fraction_normalized] at hfit
    rw [← hfit, stored]
    dsimp only
    split_ifs with hd
    · subst hd
      simp [fraction, fit]
    · rw [Option.getD_some, fraction, length_fit]
  rw [Literal.value, Literal.magnitude, hfrac]
  simp only [stored, javaSign_eq_minus]
  split_ifs <;> ring

/-- The integer part `w` is stored exactly by `i` digits, and as a safe literal. -/
def Fits (i w : ℕ) : Prop :=
  (i = 0 → w = 0) ∧ (2 ≤ i → w < 10 ^ i ∨ 10 ^ (i - 1) ≤ w % 10 ^ i)

/-- When the last digits begin with no superfluous zero. -/
theorem drop_safe_iff {s : List Char} (h : ∀ c ∈ s, c.isDigit = true) {i : ℕ} (hi : 0 < i)
    (hle : i ≤ s.length) :
    ((s.drop (s.length - i)).head? = some '0' → s.drop (s.length - i) = ['0']) ↔
      (2 ≤ i → 10 ^ (i - 1) ≤ number s % 10 ^ i) := by
  have hnumber := number_drop h hle
  have hlength : (s.drop (s.length - i)).length = i := by
    rw [List.length_drop]
    omega
  have hdigits : ∀ c ∈ s.drop (s.length - i), c.isDigit = true :=
    fun c hc => h c (List.mem_of_mem_drop hc)
  cases hlast : s.drop (s.length - i) with
  | nil =>
      rw [hlast] at hlength
      exact absurd hlength hi.ne
  | cons c t =>
      rw [hlast] at hnumber hlength hdigits
      have ht : t.length = i - 1 := by
        rw [List.length_cons] at hlength
        omega
      have hzero := cons_zero_iff hdigits
      rw [hnumber, ht] at hzero
      rw [List.head?_cons, Option.some.injEq, hzero, List.cons.injEq]
      constructor
      · intro hsafe htwo
        rw [← not_lt]
        intro hlt
        obtain ⟨-, rfl⟩ := hsafe hlt
        rw [List.length_nil] at ht
        omega
      · intro hlarge hlt
        have hone : ¬2 ≤ i := fun htwo => not_lt.2 (hlarge htwo) hlt
        exact ⟨hzero.2 hlt, List.eq_nil_of_length_eq_zero (by omega)⟩

/-- **When the integer digits that are left are safe and the right ones.** -/
theorem cut_iff (i : ℕ) {s : List Char} (h : ∀ c ∈ s, c.isDigit = true) :
    (((cut i (orZero (dropZeros s))).head? = some '0' → cut i (orZero (dropZeros s)) = ['0']) ∧
      number (cut i (orZero (dropZeros s))) = number s % 10 ^ i) ↔ Fits i (number s) := by
  have hnumber := number_dropZeros s
  cases hdrop : dropZeros s with
  | nil =>
      -- the integer part is zero, its text the single zero
      rw [hdrop] at hnumber
      have hcut : cut i (orZero []) = ['0'] := by
        rw [cut, lastChars, orZero, if_pos rfl]
        split_ifs with hlt hzero
        · rfl
        · exact absurd hlt (by simpa using hzero)
        · rfl
      have hzero : number ['0'] = 0 := rfl
      rw [hcut, ← hnumber, Fits, hzero]
      simp
  | cons c t =>
      rw [hdrop] at hnumber
      have hdigits : ∀ d ∈ c :: t, d.isDigit = true := by
        intro d hd
        rw [← hdrop] at hd
        exact h d (mem_of_mem_dropZeros hd)
      have hhead : c ≠ '0' := head_dropZeros hdrop
      have hlow : 10 ^ t.length ≤ number (c :: t) := by
        rw [← not_lt]
        exact fun hlt => hhead ((cons_zero_iff hdigits).2 hlt)
      have hhigh : number (c :: t) < 10 ^ (t.length + 1) := number_lt hdigits
      have hpositive : 0 < number (c :: t) := lt_of_lt_of_le (by positivity) hlow
      rw [← hnumber, orZero, if_neg (List.cons_ne_nil _ _)]
      rcases Nat.lt_or_ge i (t.length + 1) with hlt | hle
      · rcases Nat.eq_zero_or_pos i with rfl | hi
        · -- no room for integer digits: all of them stay
          have hcut : cut 0 (c :: t) = c :: t := by
            rw [cut, lastChars]
            simp
          rw [hcut, Fits]
          refine iff_of_false (fun hboth => ?_) (fun hfits => ?_)
          · have hvalue := hboth.2
            rw [Nat.pow_zero, Nat.mod_one] at hvalue
            omega
          · have hvalue := hfits.1 rfl
            omega
        · -- the last digits stay, and may begin with zeros
          have hcut : cut i (c :: t) = (c :: t).drop ((c :: t).length - i) := by
            rw [cut, lastChars, if_pos (by rw [List.length_cons]; exact hlt), if_neg hi.ne']
          have hle : i ≤ (c :: t).length := by
            rw [List.length_cons]
            exact hlt.le
          have hover : ¬number (c :: t) < 10 ^ i := by
            have hpow : 10 ^ i ≤ 10 ^ t.length := Nat.pow_le_pow_right (by decide) (by omega)
            omega
          rw [hcut, number_drop hdigits hle, drop_safe_iff hdigits hi hle, Fits]
          simp [hover, hi.ne']
      · have hcut : cut i (c :: t) = c :: t := by
          rw [cut, if_neg (by rw [List.length_cons]; omega)]
        have hroom : number (c :: t) < 10 ^ i :=
          hhigh.trans_le (Nat.pow_le_pow_right (by decide) hle)
        rw [hcut, Fits, Nat.mod_eq_of_lt hroom]
        refine iff_of_true ⟨fun hzero => ?_, rfl⟩ ⟨fun hi => ?_, fun _ => .inl hroom⟩
        · exact absurd (Option.some.inj hzero) hhead
        · omega

/-- **When the text denotes what COBOL stores and is a safe Java literal.** -/
theorem normalizeValueForPic_exact_iff (i d : ℕ) (signed : Bool)
    (h : l.sign.isSome = true → signed = true) :
    (∃ out : Literal, normalizeValueForPic l.text i d signed = .ok out.text ∧ out.JavaSafe ∧
      out.value = storedValue l.value i d) ↔ Fits i ⌊|l.value|⌋₊ := by
  have hresult : (∃ out : Literal, normalizeValueForPic l.text i d signed = .ok out.text ∧
      out.JavaSafe ∧ out.value = storedValue l.value i d) ↔
      (stored l i d).JavaSafe ∧ (stored l i d).value = storedValue l.value i d := by
    rw [normalizeValueForPic_text l h]
    constructor
    · rintro ⟨out, hout, hsafe⟩
      rw [text_injective (Except.ok.inj hout)]
      exact hsafe
    · exact fun hsafe => ⟨stored l i d, rfl, hsafe⟩
  -- up to the sign, only the integer parts can differ
  have hvalue : (stored l i d).value = storedValue l.value i d ↔
      number (cut i (normalized l).whole) = number l.whole % 10 ^ i := by
    have hunit : (if l.sign = some true then -1 else 1 : ℚ) ≠ 0 := by split_ifs <;> norm_num
    rw [value_stored, storedValue_value, mul_right_inj' hunit, add_left_inj, Nat.cast_inj]
  have hne : cut i (normalized l).whole ≠ [] := cut_ne_nil (orZero_ne_nil _)
  rw [hresult, hvalue, floor_value, ← cut_iff i l.whole_digits, Literal.JavaSafe]
  exact ⟨fun hboth => ⟨hboth.1.2, hboth.2⟩, fun hboth => ⟨⟨hne, hboth.1⟩, hboth.2⟩⟩

/-- `-1234.5` in `PIC S9(3)V99` -/
def overflowing : Literal where
  sign := some true
  whole := ['1', '2', '3', '4']
  frac := some ['5']
  whole_digits := by decide
  frac_digits := by decide
  ne_nil := by decide

theorem normalizeValueForPic_exact_iff_overflowing :
    (∃ out : Literal, normalizeValueForPic overflowing.text 3 2 true = .ok out.text ∧
      out.JavaSafe ∧ out.value = storedValue overflowing.value 3 2) ↔
    Fits 3 ⌊|overflowing.value|⌋₊ :=
  normalizeValueForPic_exact_iff overflowing 3 2 true fun _ => rfl

/-- `1005` -/
def innerZeros : Literal where
  sign := none
  whole := ['1', '0', '0', '5']
  frac := none
  whole_digits := by decide
  frac_digits := by decide
  ne_nil := by decide

/-- `PIC 9(3) VALUE 1005` gives `005`, an octal literal. -/
theorem normalizeValueForPic_octal :
    normalizeValueForPic innerZeros.text 3 0 false = .ok ['0', '0', '5'] ∧
    ¬∃ out : Literal, normalizeValueForPic innerZeros.text 3 0 false = .ok out.text ∧
      out.JavaSafe ∧ out.value = storedValue innerZeros.value 3 0 := by
  have hresult : normalizeValueForPic innerZeros.text 3 0 false =
      .ok (stored innerZeros 3 0).text := normalizeValueForPic_text innerZeros nofun 3 0
  refine ⟨hresult, ?_⟩
  rintro ⟨out, hout, hsafe, -⟩
  rw [hresult] at hout
  rw [← text_injective (Except.ok.inj hout)] at hsafe
  exact absurd (hsafe.2 rfl) (by decide)

end Values

end CobolJava.NumericValues
