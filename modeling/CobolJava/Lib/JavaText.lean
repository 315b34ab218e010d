/-
**Java text and numerals.**

The string operations, integer parsers and `java.math.BigDecimal` conversions of the Java standard
library, on lists of characters.  One character stands for one Java `char`; the decimal digits of
scripts other than the ASCII ones are left out.

Main definitions:

* `Java.substring`, `Java.trim`, `Java.replaceTrailingBlanks` — operations on strings;
* `Java.ofInteger`, `Java.parseInteger` — numerals of `int` and `long`;
* `Java.BigDecimal` with `toText` and `parse` — decimals and their canonical text.

Main results:

* `Java.parseInteger_digits`, `Java.BigDecimal.parse_digits` — plain digits are read as their value;
* `Java.zeroFill_toDigits_injective` — zero-filled digits determine the number;
* `Java.replaceTrailingBlanks_append` — what is dropped are blanks at the end of the text.
-/

import Mathlib.Algebra.Order.Field.Power
import Mathlib.Data.List.DropRight
import Mathlib.Data.List.Infix
import Mathlib.Data.Rat.Cast.Order
import Mathlib.Tactic.FieldSimp
import Mathlib.Tactic.Ring

set_option autoImplicit false

namespace Java

/-! ### Strings -/

/-- `s.substring(begin, end)`, if it does not throw. -/
def substring (s : List Char) (start stop : ℕ) : Option (List Char) :=
  if start ≤ stop ∧ stop ≤ s.length then some ((s.drop start).take (stop - start)) else none

/-- The characters `trim` removes. -/
def isTrimmed (c : Char) : Bool :=
  c.toNat ≤ 32

/-- `s.trim()`. -/
def trim (s : List Char) : List Char :=
  (s.dropWhile isTrimmed).rdropWhile isTrimmed

theorem trim_eq_self {s : List Char} (h : ∀ c ∈ s, isTrimmed c = false) : trim s = s := by
  have hleft : s.dropWhile isTrimmed = s := by
    cases s with
    | nil => rfl
    | cons c cs => simp [h c List.mem_cons_self]
  rw [trim, hleft, List.rdropWhile_eq_self_iff]
  intro hne
  simp [h _ (List.getLast_mem hne)]

theorem substring_append (p t q : List Char) :
    substring (p ++ t ++ q) p.length (p.length + t.length) = some t := by
  rw [substring, if_pos (by simp)]
  simp

/-! ### Trailing blanks -/

/-- The one-character line terminators of `java.util.regex`. -/
def isLineTerminator (c : Char) : Bool :=
  c = '\n' || c = '\r' || c.toNat = 0x85 || c.toNat = 0x2028 || c.toNat = 0x2029

/-- `s.replaceFirst(" +$", "")`, on the reversed text: `$` also matches before a line terminator
that ends the text. -/
def replaceTrailingBlanksRev : List Char → List Char
  | '\n' :: '\r' :: rest => '\n' :: '\r' :: rest.dropWhile (· = ' ')
  | c :: rest => if isLineTerminator c then c :: rest.dropWhile (· = ' ')
      else (c :: rest).dropWhile (· = ' ')
  | [] => []

/-- `s.replaceFirst(" +$", "")`. -/
def replaceTrailingBlanks (s : List Char) : List Char :=
  (replaceTrailingBlanksRev s.reverse).reverse

/-- Whether the reversed text starts with a line terminator and a blank. -/
def blankBeforeTerminatorRev : List Char → Bool
  | '\n' :: '\r' :: rest => rest.head? = some ' '
  | c :: rest => isLineTerminator c && rest.head? = some ' '
  | [] => false

/-- Whether the text ends with a blank and a line terminator. -/
def blankBeforeTerminator (s : List Char) : Bool :=
  blankBeforeTerminatorRev s.reverse

attribute [grind =] replaceTrailingBlanksRev blankBeforeTerminatorRev

theorem dropWhile_blank_append (s : List Char) :
    ∃ k, s = List.replicate k ' ' ++ s.dropWhile (· = ' ') := by
  refine ⟨(s.takeWhile (· = ' ')).length, ?_⟩
  have hblank : s.takeWhile (· = ' ') = List.replicate (s.takeWhile (· = ' ')).length ' ' := by
    refine List.eq_replicate_iff.2 ⟨rfl, fun c hc => ?_⟩
    simpa using List.mem_takeWhile_imp hc
  rw [← hblank, List.takeWhile_append_dropWhile]

/-- Without a blank before its line terminator, a text loses blanks at its end only. -/
theorem replaceTrailingBlanks_append {s : List Char} (h : blankBeforeTerminator s = false) :
    ∃ k, s = replaceTrailingBlanks s ++ List.replicate k ' ' := by
  have hkeep : ∀ rest : List Char, rest.head? ≠ some ' ' → rest.dropWhile (· = ' ') = rest := by
    intro rest hrest
    cases rest with
    | nil => rfl
    | cons c cs => simpa using hrest
  have hrev : ∀ r, blankBeforeTerminatorRev r = false →
      ∃ k, r = List.replicate k ' ' ++ replaceTrailingBlanksRev r := by
    intro r hr
    fun_cases replaceTrailingBlanksRev r with
    | case1 rest =>
        refine ⟨0, ?_⟩
        rw [hkeep rest (by simpa [blankBeforeTerminatorRev] using hr)]
        rfl
    | case2 c rest hterm hne =>
        refine ⟨0, ?_⟩
        rw [hkeep rest]
        · rfl
        · intro hhead
          rw [blankBeforeTerminatorRev.eq_def] at hr
          split at hr <;> simp_all
    | case3 c rest hterm hne => exact dropWhile_blank_append _
    | case4 => exact ⟨0, rfl⟩
  obtain ⟨k, hk⟩ := hrev s.reverse h
  refine ⟨k, ?_⟩
  have := congrArg List.reverse hk
  simpa [replaceTrailingBlanks] using this

theorem getLast_of_blankBeforeTerminator {s : List Char} (h : blankBeforeTerminator s = true) :
    ∃ c, s.getLast? = some c ∧ isLineTerminator c = true := by
  rw [← List.head?_reverse]
  unfold blankBeforeTerminator at h
  generalize s.reverse = r at h ⊢
  fun_cases blankBeforeTerminatorRev r with
  | case1 rest => exact ⟨'\n', rfl, rfl⟩
  | case2 c rest hne =>
      rw [blankBeforeTerminatorRev.eq_2 c rest hne] at h
      exact ⟨c, rfl, (Bool.and_eq_true_iff.1 h).1⟩
  | case3 => exact absurd h (by decide)

/-- A text with a blank before its line terminator gets shorter. -/
theorem length_replaceTrailingBlanks_lt {s : List Char} (h : blankBeforeTerminator s = true) :
    (replaceTrailingBlanks s).length < s.length := by
  have hdrop : ∀ rest : List Char, rest.head? = some ' ' →
      (rest.dropWhile (· = ' ')).length < rest.length := by
    intro rest hrest
    cases rest with
    | nil => exact absurd hrest (by simp)
    | cons c cs =>
        obtain rfl : c = ' ' := by simpa using hrest
        simpa using Nat.lt_succ_of_le (List.dropWhile_suffix (l := cs) _).length_le
  rw [replaceTrailingBlanks, List.length_reverse, ← @List.length_reverse _ s]
  unfold blankBeforeTerminator at h
  generalize s.reverse = r at h ⊢
  fun_cases blankBeforeTerminatorRev r with
  | case1 rest =>
      have := hdrop rest (by simpa [blankBeforeTerminatorRev] using h)
      simpa [replaceTrailingBlanksRev] using this
  | case2 c rest hne =>
      rw [blankBeforeTerminatorRev.eq_2 c rest hne] at h
      obtain ⟨hterm, hhead⟩ := Bool.and_eq_true_iff.1 h
      have := hdrop rest (by simpa using hhead)
      rw [replaceTrailingBlanksRev.eq_2 c rest hne, if_pos hterm]
      simpa using this
  | case3 => exact absurd h (by decide)

/-! ### Whole numbers -/

/-- `String.valueOf(n)` of an `int` or a `long`. -/
def ofInteger (n : ℤ) : List Char :=
  if n < 0 then '-' :: Nat.toDigits 10 n.natAbs else Nat.toDigits 10 n.natAbs

/-- The sign a numeral starts with, and the rest. -/
def splitSign : List Char → Bool × List Char
  | '-' :: rest => (true, rest)
  | '+' :: rest => (false, rest)
  | rest => (false, rest)

def applySign (negative : Bool) (n : ℕ) : ℤ :=
  if negative then -(n : ℤ) else n

/-- Whether a text is a non-empty run of digits. -/
def isDigits (s : List Char) : Bool :=
  !s.isEmpty && s.all Char.isDigit

/-- `Integer.parseInt(s)` or `Long.parseLong(s)`, with the bounds of the type, if it does not
throw. -/
def parseInteger (lo hi : ℤ) (s : List Char) : Option ℤ :=
  let (negative, digits) := splitSign s
  let value := applySign negative (Nat.ofDigitChars 10 digits 0)
  if isDigits digits ∧ lo ≤ value ∧ value ≤ hi then some value else none

theorem splitSign_digits {s : List Char} (h : isDigits s = true) : splitSign s = (false, s) := by
  cases s with
  | nil => rfl
  | cons c cs =>
      have hc : c.isDigit = true := by
        simp only [isDigits, List.all_cons, Bool.and_eq_true] at h
        exact h.2.1
      have hminus : c ≠ '-' := fun heq => absurd (heq ▸ hc) (by decide)
      have hplus : c ≠ '+' := fun heq => absurd (heq ▸ hc) (by decide)
      rw [splitSign]
      · rintro rest ⟨⟩
        exact hminus rfl
      · rintro rest ⟨⟩
        exact hplus rfl

theorem parseInteger_digits {lo hi : ℤ} {s : List Char} (h : isDigits s = true)
    (hlo : lo ≤ (Nat.ofDigitChars 10 s 0 : ℤ)) (hhi : (Nat.ofDigitChars 10 s 0 : ℤ) ≤ hi) :
    parseInteger lo hi s = some (Nat.ofDigitChars 10 s 0 : ℤ) := by
  rw [parseInteger, splitSign_digits h]
  simp [applySign, h, hlo, hhi]

/-! ### Zero-filled digits -/

/-- A text with zeros before it, up to a width. -/
def zeroFill (width : ℕ) (s : List Char) : List Char :=
  List.replicate (width - s.length) '0' ++ s

/-- The digits of a number at a width. -/
def digitsAt (width n : ℕ) : List Char :=
  zeroFill width (Nat.toDigits 10 n)

theorem length_zeroFill (width : ℕ) (s : List Char) :
    (zeroFill width s).length = max width s.length := by
  simp only [zeroFill, List.length_append, List.length_replicate]
  omega

theorem length_digitsAt {width n : ℕ} (hwidth : 0 < width) (h : n < 10 ^ width) :
    (digitsAt width n).length = width := by
  have := (Nat.length_toDigits_le_iff (by decide) hwidth).2 h
  rw [digitsAt, length_zeroFill]
  omega

theorem isDigits_digitsAt (width n : ℕ) : isDigits (digitsAt width n) = true := by
  have hzero : ('0' : Char).isDigit = true := rfl
  have hdigits : ∀ c ∈ Nat.toDigits 10 n, c.isDigit = true :=
    fun c hc => Nat.isDigit_of_mem_toDigits (by decide) (by decide) hc
  have hall : ∀ c ∈ digitsAt width n, c.isDigit = true := by
    intro c hc
    rcases List.mem_append.1 hc with hc | hc
    · rwa [List.eq_of_mem_replicate hc]
    · exact hdigits c hc
  rw [isDigits, Bool.and_eq_true, List.all_eq_true]
  refine ⟨?_, hall⟩
  simp [digitsAt, zeroFill]

@[simp] theorem ofDigitChars_digitsAt (width n : ℕ) :
    Nat.ofDigitChars 10 (digitsAt width n) 0 = n := by
  rw [digitsAt, zeroFill, Nat.ofDigitChars_append, Nat.ofDigitChars_replicate_zero, Nat.mul_zero,
    Nat.ofDigitChars_ten_toDigits]

theorem isTrimmed_of_isDigit {c : Char} (h : c.isDigit = true) : isTrimmed c = false := by
  simp only [Char.isDigit, Bool.and_eq_true, decide_eq_true_eq] at h
  have : 48 ≤ c.toNat := h.1
  simp [isTrimmed]
  omega

theorem trim_digits {s : List Char} (h : isDigits s = true) : trim s = s :=
  trim_eq_self fun c hc => isTrimmed_of_isDigit
    (List.all_eq_true.1 (Bool.and_eq_true_iff.1 h).2 c hc)

theorem ofDigitChars_lt {s : List Char} (h : ∀ c ∈ s, c.isDigit = true) :
    Nat.ofDigitChars 10 s 0 < 10 ^ s.length := by
  induction s using List.reverseRecOn with
  | nil => simp
  | append_singleton s c ih =>
      have hc : c.isDigit = true := h c (by simp)
      simp only [Char.isDigit, Bool.and_eq_true, decide_eq_true_eq] at hc
      have hhi : c.toNat ≤ 57 := hc.2
      have hs := ih fun d hd => h d (List.mem_append_left _ hd)
      rw [Nat.ofDigitChars_append, List.length_append, Nat.ofDigitChars_cons, Nat.ofDigitChars_nil]
      simp only [List.length_singleton, pow_succ]
      have : '0'.toNat = 48 := rfl
      omega

theorem eq_zeros_of_ofDigitChars {s : List Char} (h : ∀ c ∈ s, c.isDigit = true)
    (hzero : Nat.ofDigitChars 10 s 0 = 0) : s = List.replicate s.length '0' := by
  induction s using List.reverseRecOn with
  | nil => rfl
  | append_singleton s c ih =>
      rw [Nat.ofDigitChars_append, Nat.ofDigitChars_cons, Nat.ofDigitChars_nil] at hzero
      have hc : c.isDigit = true := h c (by simp)
      simp only [Char.isDigit, Bool.and_eq_true, decide_eq_true_eq] at hc
      have hlo : 48 ≤ c.toNat := hc.1
      have h48 : '0'.toNat = 48 := rfl
      have hzeroChar : c = '0' := by
        rw [Char.ext_iff, ← UInt32.toNat_inj]
        change c.toNat = 48
        omega
      have hs := ih (fun d hd => h d (List.mem_append_left _ hd)) (by omega)
      rw [hzeroChar, List.length_append, List.length_singleton, List.replicate_succ', ← hs]

/-- The last digits of a number are zeros exactly when the power of ten divides it. -/
theorem drop_zeros_iff_dvd {s : List Char} (h : ∀ c ∈ s, c.isDigit = true) {k : ℕ}
    (hk : k ≤ s.length) :
    (∀ c ∈ s.drop (s.length - k), c = '0') ↔ 10 ^ k ∣ Nat.ofDigitChars 10 s 0 := by
  set tail := s.drop (s.length - k) with htail
  have hlen : tail.length = k := by
    rw [htail, List.length_drop]
    omega
  have hdigit : ∀ c ∈ tail, c.isDigit = true := fun c hc => h c (List.mem_of_mem_drop hc)
  have hvalue : Nat.ofDigitChars 10 s 0 =
      10 ^ k * Nat.ofDigitChars 10 (s.take (s.length - k)) 0 + Nat.ofDigitChars 10 tail 0 := by
    conv_lhs => rw [← List.take_append_drop (s.length - k) s]
    rw [Nat.ofDigitChars_append, Nat.ofDigitChars_eq_ofDigitChars_zero, ← htail, hlen]
  have hlt := ofDigitChars_lt hdigit
  rw [hlen] at hlt
  rw [hvalue, Nat.dvd_add_right (Nat.dvd_mul_right _ _)]
  constructor
  · intro hzeros
    have : tail = List.replicate tail.length '0' := List.eq_replicate_iff.2 ⟨rfl, hzeros⟩
    rw [this, Nat.ofDigitChars_replicate_zero, Nat.mul_zero]
    exact dvd_zero _
  · intro hdvd c hc
    have hzero := Nat.eq_zero_of_dvd_of_lt hdvd hlt
    rw [eq_zeros_of_ofDigitChars hdigit hzero] at hc
    exact List.eq_of_mem_replicate hc

/-! ### Decimals -/

/-- A `java.math.BigDecimal`: `unscaled` times a power of ten. -/
structure BigDecimal where
  unscaled : ℤ
  scale : ℤ
  deriving DecidableEq, Repr

namespace BigDecimal

def toRat (d : BigDecimal) : ℚ :=
  d.unscaled * (10 : ℚ) ^ (-d.scale)

/-- The exponent when one digit stands before the point. -/
def adjusted (d : BigDecimal) : ℤ :=
  -d.scale + ((Nat.toDigits 10 d.unscaled.natAbs).length - 1)

/-- The digits with the point `places` digits from the right. -/
def insertPoint (digits : List Char) (places : ℕ) : List Char :=
  if places < digits.length then
    digits.take (digits.length - places) ++ '.' :: digits.drop (digits.length - places)
  else ['0', '.'] ++ zeroFill places digits

/-- The digits with the point after the first and an exponent. -/
def scientific (digits : List Char) (adjusted : ℤ) : List Char :=
  let mantissa := match digits with
    | c :: d :: rest => c :: '.' :: d :: rest
    | short => short
  if adjusted = 0 then mantissa
  else if 0 < adjusted then mantissa ++ 'E' :: '+' :: Nat.toDigits 10 adjusted.natAbs
  else mantissa ++ 'E' :: '-' :: Nat.toDigits 10 adjusted.natAbs

/-- The magnitude as `toString` lays it out. -/
def layout (d : BigDecimal) : List Char :=
  let digits := Nat.toDigits 10 d.unscaled.natAbs
  if d.scale = 0 then digits
  else if 0 ≤ d.scale ∧ -6 ≤ d.adjusted then insertPoint digits d.scale.toNat
  else scientific digits d.adjusted

/-- `d.toString()`. -/
def toText (d : BigDecimal) : List Char :=
  if d.unscaled < 0 then '-' :: d.layout else d.layout

/-- Whether a character ends the digits of a numeral. -/
def isExponentMark (c : Char) : Bool :=
  c = 'e' || c = 'E'

/-- The exponent of a numeral: nothing, or a mark and a signed number. -/
def parseExponent : List Char → Option ℤ
  | [] => some 0
  | _ :: rest => parseInteger (-(2 ^ 31 - 1)) (2 ^ 31 - 1) rest

/-- `new java.math.BigDecimal(s)`, if it does not throw. -/
def parse (s : List Char) : Option BigDecimal :=
  let (negative, rest) := splitSign s
  let mantissa := rest.takeWhile fun c => !isExponentMark c
  let whole := mantissa.takeWhile (· ≠ '.')
  let fraction := (mantissa.dropWhile (· ≠ '.')).drop 1
  match parseExponent (rest.dropWhile fun c => !isExponentMark c) with
  | some exponent =>
      let scale : ℤ := fraction.length - exponent
      if isDigits (whole ++ fraction) ∧ -2 ^ 31 ≤ scale ∧ scale < 2 ^ 31 then
        some ⟨applySign negative (Nat.ofDigitChars 10 (whole ++ fraction) 0), scale⟩
      else none
  | none => none

/-- Plain digits are read as their value. -/
theorem parse_digits {s : List Char} (h : isDigits s = true) :
    parse s = some ⟨Nat.ofDigitChars 10 s 0, 0⟩ := by
  have hdigit : ∀ c ∈ s, c.isDigit = true :=
    List.all_eq_true.1 (Bool.and_eq_true_iff.1 h).2
  have hmark : ∀ c ∈ s, (!isExponentMark c) = true := by
    intro c hc
    have hlower : c ≠ 'e' := fun heq => absurd (heq ▸ hdigit c hc) (by decide)
    have hupper : c ≠ 'E' := fun heq => absurd (heq ▸ hdigit c hc) (by decide)
    simp [isExponentMark, hlower, hupper]
  have hpoint : ∀ c ∈ s, decide (c ≠ '.') = true := by
    intro c hc
    have : c ≠ '.' := fun heq => absurd (heq ▸ hdigit c hc) (by decide)
    simpa using this
  have hmantissa : (s.takeWhile fun c => !isExponentMark c) = s := List.takeWhile_eq_self_iff.2 hmark
  have hexponent : (s.dropWhile fun c => !isExponentMark c) = [] := List.dropWhile_eq_nil_iff.2 hmark
  have hwhole : s.takeWhile (· ≠ '.') = s := List.takeWhile_eq_self_iff.2 hpoint
  have hfraction : s.dropWhile (· ≠ '.') = [] := List.dropWhile_eq_nil_iff.2 hpoint
  simp only [parse, splitSign_digits h, hmantissa, hexponent, parseExponent, hwhole, hfraction,
    List.drop_nil, List.append_nil, h, List.length_nil]
  norm_num [applySign]

/-- The characters of the text of a decimal. -/
def isTextChar (c : Char) : Bool :=
  c.isDigit || c = '-' || c = '+' || c = '.' || c = 'E'

theorem not_isTextChar_of_isLineTerminator {c : Char} (h : isLineTerminator c = true) :
    isTextChar c = false := by
  by_contra htext
  simp only [isTextChar, Bool.not_eq_false, Bool.or_eq_true, decide_eq_true_eq] at htext
  rcases htext with (((hdigit | rfl) | rfl) | rfl) | rfl
  · simp only [Char.isDigit, Bool.and_eq_true, decide_eq_true_eq] at hdigit
    have hlo : 48 ≤ c.toNat := hdigit.1
    have hhi : c.toNat ≤ 57 := hdigit.2
    simp only [isLineTerminator, Bool.or_eq_true, decide_eq_true_eq] at h
    rcases h with (((rfl | rfl) | h) | h) | h
    · exact absurd hlo (by decide)
    · exact absurd hlo (by decide)
    all_goals omega
  all_goals exact absurd h (by decide)

theorem isTextChar_toText (d : BigDecimal) : ∀ c ∈ d.toText, isTextChar c = true := by
  have hdigits : ∀ n c, c ∈ Nat.toDigits 10 n → isTextChar c = true := by
    intro n c hc
    have := Nat.isDigit_of_mem_toDigits (by decide) (by decide) hc
    simp [isTextChar, this]
  have hinsert : ∀ (ds : List Char) (k : ℕ), (∀ c ∈ ds, isTextChar c = true) →
      ∀ c ∈ insertPoint ds k, isTextChar c = true := by
    intro ds k hds c hc
    unfold insertPoint at hc
    split_ifs at hc
    · rcases List.mem_append.1 hc with hc | hc
      · exact hds c (List.mem_of_mem_take hc)
      · rcases List.mem_cons.1 hc with rfl | hc
        · rfl
        · exact hds c (List.mem_of_mem_drop hc)
    · simp only [zeroFill, List.mem_append, List.mem_cons, List.not_mem_nil, or_false] at hc
      rcases hc with (rfl | rfl) | hc | hc
      · rfl
      · rfl
      · rw [List.eq_of_mem_replicate hc]
        rfl
      · exact hds c hc
  have hscientific : ∀ (ds : List Char) (a : ℤ), (∀ c ∈ ds, isTextChar c = true) →
      ∀ c ∈ scientific ds a, isTextChar c = true := by
    intro ds a hds c hc
    have hmantissa : ∀ c ∈ (match ds with
        | c :: d :: rest => c :: '.' :: d :: rest
        | short => short), isTextChar c = true := by
      intro c hc
      split at hc
      · simp only [List.mem_cons] at hc
        rcases hc with rfl | rfl | hc
        · exact hds c (by simp)
        · rfl
        · exact hds c (by simpa using Or.inr hc)
      · exact hds c hc
    unfold scientific at hc
    have hexponent : ∀ sign : Char, isTextChar sign = true →
        ∀ c ∈ 'E' :: sign :: Nat.toDigits 10 a.natAbs, isTextChar c = true := by
      intro sign hsign c hc
      rcases List.mem_cons.1 hc with rfl | hc
      · rfl
      · rcases List.mem_cons.1 hc with rfl | hc
        · exact hsign
        · exact hdigits _ c hc
    simp only at hc
    split_ifs at hc
    · exact hmantissa c hc
    · exact (List.mem_append.1 hc).elim (hmantissa c) (hexponent '+' rfl c)
    · exact (List.mem_append.1 hc).elim (hmantissa c) (hexponent '-' rfl c)
  have hlayout : ∀ c ∈ d.layout, isTextChar c = true := by
    intro c hc
    simp only [layout] at hc
    split_ifs at hc
    · exact hdigits _ c hc
    · exact hinsert _ _ (hdigits _) c hc
    · exact hscientific _ _ (hdigits _) c hc
  intro c hc
  unfold toText at hc
  split_ifs at hc
  · rcases List.mem_cons.1 hc with rfl | hc
    · rfl
    · exact hlayout c hc
  · exact hlayout c hc

/-- Zero at each scale: plain, with a point, or with an exponent. -/
theorem toText_zero (scale : ℤ) : toText ⟨0, scale⟩ =
    if scale = 0 then ['0']
    else if 0 ≤ scale ∧ scale ≤ 6 then '0' :: '.' :: List.replicate scale.toNat '0'
    else '0' :: 'E' :: (if scale < 0 then '+' else '-') :: Nat.toDigits 10 scale.natAbs := by
  have hdigits : Nat.toDigits 10 0 = ['0'] := rfl
  have hadjusted : adjusted ⟨0, scale⟩ = -scale := by simp [adjusted]
  simp only [toText, layout, Int.natAbs_zero, hdigits, hadjusted, lt_irrefl, if_false]
  by_cases hzero : scale = 0
  · rw [if_pos hzero, if_pos hzero]
  rw [if_neg hzero, if_neg hzero]
  by_cases hplain : 0 ≤ scale ∧ scale ≤ 6
  · rw [if_pos hplain, if_pos ⟨hplain.1, by omega⟩]
    have hone : 1 ≤ scale.toNat := by omega
    rw [insertPoint, if_neg (by simp; omega), zeroFill, List.length_singleton,
      ← List.replicate_succ', Nat.sub_add_cancel hone]
    rfl
  · rw [if_neg hplain, if_neg (by omega)]
    simp only [scientific, neg_eq_zero, hzero, if_false, Int.natAbs_neg, Left.neg_pos_iff]
    split_ifs <;> rfl

end BigDecimal

end Java
