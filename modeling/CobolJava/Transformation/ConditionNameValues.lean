/-
**The values of condition names.**

A VALUE clause as it is written, the values it stands for by the rules of COBOL (numbers by value,
texts padded with blanks), and when the Java of the condition name and of `SET name TO TRUE` agrees
with them.

Main definitions:

* `ValueLiteral`, `ValueTerm` — the terms of a clause, with their texts;
* `Satisfied` — **the values that satisfy a condition name**;
* `ConditionNameExact` — the Java test is true for these values, and `SET` makes it true;
* `ExactWhen` — when it does.

Main results:

* `conditionTerms_of_clause` — the terms that are read are the terms that are written;
* `truth_term_text` — what a term tests of an alphanumeric field;
* `satisfiedCut_of_satisfied`, `satisfied_of_satisfiedCut` — how that differs from the values.
-/

import CobolJava.Transformation.ConditionNames

set_option autoImplicit false

namespace CobolJava.ConditionName

open Py.Chars Transformation

/-! ### Clauses -/

/-- A literal of a VALUE clause: a number, a text in quotes that does not hold its delimiter, or a
figurative constant. -/
inductive ValueLiteral
  | number (literal : NumericValues.Literal)
  | quoted (quote : Char) (value : Text)
  | figurative (word : Text) (constant : Figurative)

/-- A single value, or a range with its word. -/
structure ValueTerm where
  low : ValueLiteral
  through : Option (Text × ValueLiteral)

def ValueLiteral.text : ValueLiteral → Text
  | .number literal => literal.text
  | .quoted quote value => quote :: (value ++ [quote])
  | .figurative word _ => word

/-- The characters of COBOL data are bytes. -/
def Bytes (s : Text) : Prop := ∀ c ∈ s, c.toNat < 256

/-- A literal that a conditional variable may have: numbers and zero for a numeric one, texts and
figurative constants for any other. -/
def ValueLiteral.Suits (parent : DataItem) : ValueLiteral → Prop
  | .number _ => parent.isNumeric = true
  | .quoted quote value =>
      parent.isNumeric = false ∧ isQuote quote = true ∧ quote ∉ value ∧ Bytes value
  | .figurative word constant =>
      canonicalFiguratives.lookup (upper word) = some constant ∧
        (parent.isNumeric = true → upper word ∈ figurativeZeroValues)

namespace ValueTerm

def literals (term : ValueTerm) : List ValueLiteral :=
  term.low :: (term.through.map Prod.snd).toList

def tokens (term : ValueTerm) : List Text :=
  match term.through with
  | none => [term.low.text]
  | some (word, high) => [term.low.text, word, high.text]

def texts (term : ValueTerm) : Text × Option Text :=
  (term.low.text, term.through.map fun through => through.2.text)

/-- A term that a conditional variable may have. -/
structure Suits (parent : DataItem) (term : ValueTerm) : Prop where
  literals : ∀ literal ∈ term.literals, literal.Suits parent
  word : ∀ word high, term.through = some (word, high) → upper word ∈ throughWords

end ValueTerm

/-! ### Values -/

/-- What is compared: a number or a text. -/
inductive Comparand
  | number (x : ℚ)
  | text (value : Text)

/-- Equality of numbers, or of padded texts. -/
def Comparand.Equals : Comparand → Comparand → Prop
  | .number x, .number y => x = y
  | .text s, .text t => PaddedText.Equal ' ' s t
  | _, _ => False

/-- Order of numbers, or of padded texts. -/
def Comparand.AtMost : Comparand → Comparand → Prop
  | .number x, .number y => x ≤ y
  | .text s, .text t => PaddedText.AtMost ' ' s t
  | _, _ => False

/-- What a literal stands for; a figurative constant has the size of the conditional variable. -/
def ValueLiteral.denotes (parent : DataItem) : ValueLiteral → Comparand
  | .number literal => .number literal.value
  | .quoted _ value => .text value
  | .figurative _ constant =>
      if parent.isNumeric then .number 0
      else .text (figurativeToWidth constant parent.picLength)

def ItemValue.denotes (parent : DataItem) : ItemValue → Comparand
  | .number unscaled => .number (contents parent unscaled)
  | .text value => .text value

/-- A value that a term stands for. -/
def ValueTerm.Satisfied (parent : DataItem) (v : Comparand) (term : ValueTerm) : Prop :=
  match term.through with
  | none => v.Equals (term.low.denotes parent)
  | some (_, high) => (term.low.denotes parent).AtMost v ∧ v.AtMost (high.denotes parent)

/-- **The values that satisfy a condition name.** -/
def Satisfied (parent : DataItem) (v : Comparand) (clause : List ValueTerm) : Prop :=
  ∃ term ∈ clause, term.Satisfied parent v

/-! ### The property -/

/-- An elementary item without subscripts, of at most 18 digits when it is numeric. -/
structure Elementary (parent : DataItem) : Prop where
  elementary : parent.hasSubstantiveChildren = false
  scalar : parent.dimensions = []
  positive : 0 < parent.picLength
  digits : parent.isNumeric = true → parent.picLength ≤ 18

/-- What an item holds within its `PICTURE`. -/
def Holds (parent : DataItem) : ItemValue → Prop
  | .number unscaled => parent.isNumeric = true ∧ WithinPicture parent unscaled
  | .text value => parent.isNumeric = false ∧ value.length = parent.picLength ∧ Bytes value

/-- **The Java of a condition name is exact**: the test, when it compiles, is true exactly for the
values of the clause, and it is true after `SET name TO TRUE`. -/
structure ConditionNameExact (parent : DataItem) (raw : Text) (clause : List ValueTerm) : Prop where
  test : ∀ field, Holds parent field → ∀ b,
    truth parent field (conditionNameExpression parent (conditionTerms raw)) = some b →
      (b = true ↔ Satisfied parent (field.denotes parent) clause)
  set : ∀ field, afterSet parent (conditionTerms raw) = some field → ∀ b,
    truth parent field (conditionNameExpression parent (conditionTerms raw)) = some b → b = true

/-! ### The condition -/

/-- The digits of a literal behind the point. -/
def fractionDigits (literal : NumericValues.Literal) : Text :=
  literal.frac.getD []

/-- The whole number in front of the point, with the sign. -/
def wholeNumber (literal : NumericValues.Literal) : ℤ :=
  if literal.sign = some true then -(DecimalText.number literal.whole : ℤ)
  else DecimalText.number literal.whole

/-- A literal that can be compared with an integral field. -/
def ValueLiteral.ComparesWhole : ValueLiteral → Prop
  | .number literal => fractionDigits literal = [] ∧ inRange true (wholeNumber literal)
  | _ => True

/-- A single value that can be compared with a `BigDecimal` field. -/
def ValueTerm.ComparesDecimal (term : ValueTerm) : Prop :=
  term.through = none ∧ ∃ literal, term.low = .number literal ∧ fractionDigits literal ≠ []

/-- What `SET` stores in an integral field: the digits the `PICTURE` has room for, read as a Java
literal; nothing when a sign is refused or the literal does not compile. -/
def ValueLiteral.storedWhole (parent : DataItem) : ValueLiteral → Option ℤ
  | .number literal =>
      if literal.sign.isSome ∧ parent.signed = false then none
      else (readWholeLiteral (NumericValues.cut parent.picLength
        (NumericValues.normalized literal).whole)).map fun (n : ℕ) =>
          if literal.sign = some true then -(n : ℤ) else n
  | _ => some 0

/-- A text literal at the size of the conditional variable. -/
def ValueLiteral.cutText (parent : DataItem) (literal : ValueLiteral) : Text :=
  match literal.denotes parent with
  | .text value => PaddedText.cut ' ' parent.picLength value
  | .number _ => []

/-- The texts of a term once its literals are cut. -/
def ValueTerm.SatisfiedCut (parent : DataItem) (s : Text) (term : ValueTerm) : Prop :=
  match term.through with
  | none => s = term.low.cutText parent
  | some (_, high) => term.low.cutText parent ≤ s ∧ s ≤ high.cutText parent

instance (parent : DataItem) (s : Text) (term : ValueTerm) :
    Decidable (term.SatisfiedCut parent s) := by
  unfold ValueTerm.SatisfiedCut
  split <;> infer_instance

/-- **When the Java of a condition name is exact.** -/
structure ExactWhen (parent : DataItem) (clause : List ValueTerm) : Prop where
  /-- Integral field: the first value, cut to the `PICTURE`, is a value of the clause. -/
  whole : parent.isNumeric = true → parent.decimalPlaces = 0 →
    (∀ term ∈ clause, ∀ literal ∈ term.literals, literal.ComparesWhole) →
    ∀ term ∈ clause.head?, ∀ n, term.low.storedWhole parent = some n →
      Satisfied parent (.number n) clause
  /-- `BigDecimal` field: no value of the clause can be held. -/
  decimal : parent.isNumeric = true → 0 < parent.decimalPlaces →
    (∀ term ∈ clause, term.ComparesDecimal) →
    ∀ unscaled, WithinPicture parent unscaled →
      ¬Satisfied parent (.number (contents parent unscaled)) clause
  /-- Text: the first value, cut to the `PICTURE`, is a value of the clause. -/
  first : parent.isNumeric = false →
    ∀ term ∈ clause.head?, Satisfied parent (.text (term.low.cutText parent)) clause
  /-- Text: cutting the literals to the `PICTURE` adds none of them to the values. -/
  cut : parent.isNumeric = false → ∀ term ∈ clause, ∀ literal ∈ term.literals,
    (∃ term' ∈ clause, term'.SatisfiedCut parent (literal.cutText parent)) →
      Satisfied parent (.text (literal.cutText parent)) clause

section Texts

variable {parent : DataItem}

/-! ### Texts of literals -/

theorem canonicalFiguratives_letters : ∀ entry ∈ canonicalFiguratives,
    entry.1 ≠ [] ∧ (entry.1.all fun c => c.isAlpha || c = '-') = true ∧
      entry.1 ∉ throughWords := by
  decide +kernel

/-- Letters and hyphens neither separate nor quote. -/
theorem plain_of_upper {word : Text}
    (h : ((upper word).all fun c => c.isAlpha || c = '-') = true) :
    ∀ c ∈ word, isSeparator c = false ∧ isQuote c = false := by
  intro c hc
  have hupper : c.toUpper.isAlpha = true ∨ c.toUpper = '-' := by
    simpa using List.all_eq_true.1 h c.toUpper (List.mem_map_of_mem hc)
  have hspace : Py.isSpace c = false := by
    rw [← isSpace_toUpper]
    rcases hupper with halpha | hminus
    · exact isSpace_of_alphanum (by simp [Char.isAlphanum, halpha])
    · rw [hminus]
      decide
  have hother : ∀ d : Char, d.toUpper.isAlpha = false → d.toUpper ≠ '-' → c ≠ d := by
    rintro d halpha hminus rfl
    rcases hupper with h | h
    · rw [halpha] at h
      cases h
    · exact hminus h
  refine ⟨?_, ?_⟩
  · simp [isSeparator, hspace, hother ',' (by decide) (by decide)]
  · simp [isQuote, hother '"' (by decide) (by decide), hother '\'' (by decide) (by decide)]

theorem figurative_word {word : Text} {constant : Figurative}
    (h : canonicalFiguratives.lookup (upper word) = some constant) :
    word ≠ [] ∧ (∀ c ∈ word, isSeparator c = false ∧ isQuote c = false) ∧
      upper word ∉ throughWords := by
  obtain ⟨before, behind, hsplit, -⟩ := List.lookup_eq_some_iff.1 h
  obtain ⟨hne, hletters, hthrough⟩ := canonicalFiguratives_letters (upper word, constant)
    (by rw [hsplit]; simp)
  exact ⟨fun hnil => hne (by rw [hnil]; rfl), plain_of_upper hletters, hthrough⟩

/-- A numeric literal is made of digits, points and signs. -/
theorem number_word (literal : NumericValues.Literal) :
    literal.text ≠ [] ∧ (∀ c ∈ literal.text, isSeparator c = false ∧ isQuote c = false) ∧
      upper literal.text = literal.text ∧ ∀ c ∈ literal.text, c.isAlpha = false := by
  refine ⟨?_, ?_, NumericValues.upper_text literal, fun c hc =>
    (NumericValues.mem_text_plain literal hc).2.2.2⟩
  · rw [NumericValues.Literal.text]
    simp [NumericValues.body_ne_nil]
  · intro c hc
    obtain ⟨hspace, hquotes, -, -⟩ := NumericValues.mem_text_plain literal hc
    have hcomma : c ≠ ',' := by
      rintro rfl
      rcases NumericValues.mem_text literal hc with h | h | h | h
      · cases h
      · exact absurd h (by decide)
      · exact absurd h (by decide)
      · exact absurd h (by decide)
    simp only [List.mem_cons, List.not_mem_nil, or_false, not_or] at hquotes
    exact ⟨by simp [isSeparator, hspace, hcomma], by simp [isQuote, hquotes]⟩

/-- **A literal is a token**, and no word of a range. -/
theorem ValueLiteral.Suits.isToken {literal : ValueLiteral} (h : literal.Suits parent) :
    IsToken literal.text ∧ upper literal.text ∉ throughWords := by
  cases literal with
  | number literal =>
      obtain ⟨hne, hplain, hupper, hletters⟩ := number_word literal
      refine ⟨.inr ⟨hne, hplain⟩, ?_⟩
      rw [ValueLiteral.text, hupper]
      have hwords : ∀ word ∈ throughWords, word.any Char.isAlpha = true := by decide
      intro hmem
      obtain ⟨c, hc, halpha⟩ := List.any_eq_true.1 (hwords _ hmem)
      rw [hletters c hc] at halpha
      cases halpha
  | quoted quote value =>
      obtain ⟨-, hquote, hvalue, -⟩ := h
      refine ⟨.inl ⟨quote, value, hquote, hvalue, rfl⟩, ?_⟩
      simp only [isQuote, Bool.or_eq_true, decide_eq_true_eq] at hquote
      rcases hquote with rfl | rfl
      · simp [ValueLiteral.text, upper, throughWords]
      · simp [ValueLiteral.text, upper, throughWords]
  | figurative word constant =>
      obtain ⟨hne, hplain, hthrough⟩ := figurative_word h.1
      exact ⟨.inr ⟨hne, hplain⟩, hthrough⟩

theorem isToken_of_throughWord {word : Text} (h : upper word ∈ throughWords) : IsToken word := by
  have hwords : ∀ w ∈ throughWords, w ≠ [] ∧ (w.all fun c => c.isAlpha || c = '-') = true := by
    decide
  obtain ⟨hne, hletters⟩ := hwords _ h
  exact .inr ⟨fun hnil => hne (by rw [hnil]; rfl), plain_of_upper hletters⟩

theorem strip_of_isToken {token : Text} (h : IsToken token) : strip token = token := by
  rcases h with ⟨quote, value, hquote, -, rfl⟩ | ⟨-, hplain⟩
  · have hspace : Py.isSpace quote = false := by
      have hseparator := not_isSeparator_of_isQuote hquote
      rw [isSeparator, Bool.or_eq_false_iff] at hseparator
      exact hseparator.1
    refine strip_of_ends (by simp [hspace]) ?_
    rw [← List.cons_append, List.getLast?_concat]
    simp [hspace]
  · refine strip_eq_self fun c hc => ?_
    have hseparator := (hplain c hc).1
    rw [isSeparator, Bool.or_eq_false_iff] at hseparator
    exact hseparator.1

theorem not_isQuotedLiteral {word : Text} (h : ∀ c ∈ word, isQuote c = false) :
    isQuotedLiteral word = false := by
  cases word with
  | nil => rfl
  | cons c word =>
      have hc := h c (List.mem_cons_self ..)
      simp [isQuotedLiteral, hc]

theorem isQuotedLiteral_quoted {quote : Char} (h : isQuote quote = true) (value : Text) :
    isQuotedLiteral (quote :: (value ++ [quote])) = true := by
  have hlast : (quote :: (value ++ [quote])).getLast? = some quote := by
    rw [← List.cons_append, List.getLast?_concat]
  simp [isQuotedLiteral, hlast, h]

theorem unquoteLiteral_quoted {quote : Char} (h : isQuote quote = true) (value : Text) :
    unquoteLiteral (quote :: (value ++ [quote])) = value := by
  rw [unquoteLiteral, if_pos (isQuotedLiteral_quoted h value)]
  simp

theorem unquoteLiteral_word {word : Text} (h : ∀ c ∈ word, isQuote c = false) :
    unquoteLiteral word = word := by
  rw [unquoteLiteral, not_isQuotedLiteral h]
  rfl

/-- **A literal that a conditional variable may have** is no problem. -/
theorem conditionValueIsSupported_text {literal : ValueLiteral} (h : literal.Suits parent) :
    conditionValueIsSupported literal.text parent = true := by
  have htoken := h.isToken.1
  have hne : literal.text ≠ [] := by
    rcases htoken with ⟨quote, value, -, -, htext⟩ | ⟨hne, -⟩
    · rw [htext]
      simp
    · exact hne
  rw [conditionValueIsSupported, strip_of_isToken htoken, if_neg hne]
  cases literal with
  | number literal =>
      obtain ⟨-, hplain, -, -⟩ := number_word literal
      have hplain' : unquoteLiteral (ValueLiteral.number literal).text = literal.text :=
        unquoteLiteral_word fun c hc => (hplain c hc).2
      have hnumeric : parent.isNumeric = true := h
      rw [if_pos hnumeric, hplain', NumericValues.normalizeNumericLiteral_text]
      simp [Except.toBool]
  | quoted quote value =>
      obtain ⟨htext, hquote, -, -⟩ := h
      have hquoted : isQuotedLiteral (ValueLiteral.quoted quote value).text = true :=
        isQuotedLiteral_quoted hquote value
      rw [if_neg (by simp [htext]), hquoted, Bool.true_or]
  | figurative word constant =>
      obtain ⟨-, hplain, -⟩ := figurative_word h.1
      have hword : isQuotedLiteral word = false := not_isQuotedLiteral fun c hc => (hplain c hc).2
      by_cases hnumeric : parent.isNumeric = true
      · have hplain' : unquoteLiteral (ValueLiteral.figurative word constant).text = word :=
          unquoteLiteral_word fun c hc => (hplain c hc).2
        rw [if_pos hnumeric, hplain']
        simp [h.2 hnumeric]
      · rw [if_neg hnumeric, ValueLiteral.text, parseFigurativeConstant, hword, h.1]
        rfl

/-! ### Terms -/

theorem termsOfTokens_single {low : Text} {tokens : List Text}
    (h : ∀ token ∈ tokens.head?, upper token ∉ throughWords) :
    termsOfTokens (low :: tokens) = (low, none) :: termsOfTokens tokens := by
  cases tokens with
  | nil => simp [termsOfTokens]
  | cons token tokens =>
      have htoken := h token rfl
      cases tokens with
      | nil => simp [termsOfTokens]
      | cons high tokens => rw [termsOfTokens, if_neg htoken]

/-- **The terms that are read are the terms that are written.** -/
theorem termsOfTokens_clause {clause : List ValueTerm}
    (h : ∀ term ∈ clause, term.Suits parent) :
    termsOfTokens (clause.flatMap ValueTerm.tokens) = clause.map ValueTerm.texts := by
  induction clause with
  | nil => rfl
  | cons term clause ih =>
      rw [List.forall_mem_cons] at h
      rw [List.flatMap_cons, List.map_cons, ← ih h.2]
      cases hthrough : term.through with
      | some through =>
          obtain ⟨word, high⟩ := through
          have hword := h.1.word word high hthrough
          simp [ValueTerm.tokens, ValueTerm.texts, hthrough, termsOfTokens, hword]
      | none =>
          have htokens : term.tokens = [term.low.text] := by simp [ValueTerm.tokens, hthrough]
          have htexts : term.texts = (term.low.text, none) := by simp [ValueTerm.texts, hthrough]
          rw [htokens, htexts, List.singleton_append]
          refine termsOfTokens_single ?_
          -- the next token begins a term, so that it is no word of a range
          cases clause with
          | nil => simp
          | cons next clause =>
              have hnext := ((h.2 next (List.mem_cons_self ..)).literals next.low
                (List.mem_cons_self ..)).isToken.2
              have hhead : ((next :: clause).flatMap ValueTerm.tokens).head? =
                  some next.low.text := by
                rw [List.flatMap_cons, ValueTerm.tokens]
                split <;> rfl
              rw [hhead]
              simpa using hnext

/-- The tokens of a clause are tokens. -/
theorem isToken_of_clause {clause : List ValueTerm} (h : ∀ term ∈ clause, term.Suits parent) :
    ∀ token ∈ clause.flatMap ValueTerm.tokens, IsToken token := by
  intro token htoken
  obtain ⟨term, hterm, htoken⟩ := List.mem_flatMap.1 htoken
  have hsuits := h term hterm
  have hlow := (hsuits.literals term.low (List.mem_cons_self ..)).isToken.1
  unfold ValueTerm.tokens at htoken
  cases hthrough : term.through with
  | none =>
      rw [hthrough, List.mem_singleton] at htoken
      exact htoken ▸ hlow
  | some through =>
      obtain ⟨word, high⟩ := through
      have hhigh := (hsuits.literals high (by simp [ValueTerm.literals, hthrough])).isToken.1
      have hword := isToken_of_throughWord (hsuits.word word high hthrough)
      simp only [hthrough, List.mem_cons, List.not_mem_nil, or_false] at htoken
      rcases htoken with rfl | rfl | rfl
      · exact hlow
      · exact hword
      · exact hhigh

/-- **The terms of a clause** are read from its text. -/
theorem conditionTerms_of_clause {clause : List ValueTerm} {raw : Text}
    (h : ∀ term ∈ clause, term.Suits parent)
    (hraw : Joined (clause.flatMap ValueTerm.tokens) raw) :
    conditionTerms raw = clause.map ValueTerm.texts := by
  rw [conditionTerms, conditionTokens_of_joined (isToken_of_clause h) hraw, termsOfTokens_clause h]

/-- **A clause that a conditional variable may have** is no problem. -/
theorem conditionNameProblem_clause {clause : List ValueTerm} (hne : clause ≠ [])
    (h : ∀ term ∈ clause, term.Suits parent) :
    conditionNameProblem parent (clause.map ValueTerm.texts) = false := by
  rw [conditionNameProblem, Bool.or_eq_false_iff]
  refine ⟨by simpa using hne, ?_⟩
  rw [List.any_eq_false]
  intro texts htexts
  obtain ⟨term, hterm, rfl⟩ := List.mem_map.1 htexts
  have hsuits := h term hterm
  have hlow := conditionValueIsSupported_text (hsuits.literals term.low (List.mem_cons_self ..))
  unfold ValueTerm.texts
  cases hthrough : term.through with
  | none => simp [hlow]
  | some through =>
      have hhigh := conditionValueIsSupported_text
        (hsuits.literals through.2 (by simp [ValueTerm.literals, hthrough]))
      simp [hlow, hhigh]

end Texts

section TextItems

variable {parent : DataItem}

/-! ### Alphanumeric items -/

theorem upper_quoted {quote : Char} (h : isQuote quote = true) (value : Text) :
    upper (quote :: (value ++ [quote])) ∉ ["SPACE".toList, "SPACES".toList] := by
  simp only [isQuote, Bool.or_eq_true, decide_eq_true_eq] at h
  rcases h with rfl | rfl
  · simp [upper]
  · simp [upper]

/-- **A text literal at the size of its item**, by the route of the VALUE clause. -/
theorem mapPicToJavaDefault_text {literal : ValueLiteral} (hitem : Elementary parent)
    (htext : parent.isNumeric = false) (h : literal.Suits parent) :
    mapPicToJavaDefault parent literal.text = .ok (.text (literal.cutText parent)) := by
  have hnumeric : ¬parent.isNumeric = true := by simp [htext]
  rw [mapPicToJavaDefault, if_neg hnumeric, if_pos hitem.positive]
  cases literal with
  | number literal => exact absurd h hnumeric
  | quoted quote value =>
      have hquote := h.2.1
      have hnone : parseFigurativeConstant (ValueLiteral.quoted quote value).text = none :=
        if_pos (isQuotedLiteral_quoted hquote value)
      have hvalue : unquoteLiteral (ValueLiteral.quoted quote value).text = value :=
        unquoteLiteral_quoted hquote value
      have hwords : upper (ValueLiteral.quoted quote value).text ∉
          ["SPACE".toList, "SPACES".toList] := upper_quoted hquote value
      simp only [hnone, if_neg hwords, hvalue]
      rfl
  | figurative word constant =>
      obtain ⟨-, hplain, -⟩ := figurative_word h.1
      have hsome : parseFigurativeConstant (ValueLiteral.figurative word constant).text =
          some constant := by
        rw [parseFigurativeConstant, ValueLiteral.text,
          not_isQuotedLiteral fun c hc => (hplain c hc).2]
        exact h.1
      have hwidth : PaddedText.cut ' ' parent.picLength
          (figurativeToWidth constant parent.picLength) =
            figurativeToWidth constant parent.picLength :=
        PaddedText.cut_of_length (by simp [figurativeToWidth])
      rw [hsome]
      simp [ValueLiteral.cutText, ValueLiteral.denotes, htext, hwidth]

theorem conditionValueLiteral_text {literal : ValueLiteral} (hitem : Elementary parent)
    (htext : parent.isNumeric = false) (h : literal.Suits parent) :
    conditionValueLiteral literal.text parent = .textLiteral (literal.cutText parent) := by
  rw [conditionValueLiteral, strip_of_isToken h.isToken.1, if_neg (by simp [htext]),
    mapPicToJavaDefault_text hitem htext h]

theorem length_cutText {literal : ValueLiteral} (htext : parent.isNumeric = false)
    (h : literal.Suits parent) : (literal.cutText parent).length = parent.picLength := by
  cases literal with
  | number literal =>
      rw [ValueLiteral.Suits, htext] at h
      cases h
  | quoted quote value => simp [ValueLiteral.cutText, ValueLiteral.denotes]
  | figurative word constant => simp [ValueLiteral.cutText, ValueLiteral.denotes, htext]

/-- **The sign of `compareTo`** is the order of the texts. -/
theorem compareStrings_neg_iff {s t : Text} : compareStrings s t < 0 ↔ s < t := by
  induction s generalizing t with
  | nil =>
      cases t with
      | nil => simp [compareStrings]
      | cons d t => simp [compareStrings]; omega
  | cons c s ih =>
      cases t with
      | nil => simp [compareStrings]; omega
      | cons d t =>
          rw [compareStrings, List.cons_lt_cons_iff]
          by_cases hcd : c = d
          · rw [if_pos hcd, ih]
            simp [hcd]
          · have hlt : c < d ↔ c.toNat < d.toNat := Iff.rfl
            rw [if_neg hcd, hlt]
            simp only [hcd, false_and, or_false]
            omega

theorem compareStrings_swap (s t : Text) : compareStrings t s = -compareStrings s t := by
  induction s generalizing t with
  | nil => cases t <;> simp [compareStrings]
  | cons c s ih =>
      cases t with
      | nil => simp [compareStrings]
      | cons d t =>
          rw [compareStrings, compareStrings, ih]
          by_cases hcd : c = d
          · rw [if_pos hcd.symm, if_pos hcd]
          · rw [if_neg (Ne.symm hcd), if_neg hcd]
            omega

/-- A comparison of the field with a text. -/
theorem truth_compareTo {s t : Text} (hitem : Elementary parent) (htext : parent.isNumeric = false) :
    truth parent (.text s) (.binaryOp
        (.compareTo (.variableRef (javaName parent.name)) (.textLiteral t)) .ge
          (.numberLiteral ⟨false, 0, 0, false⟩ none)) = some (decide (t ≤ s)) ∧
      truth parent (.text s) (.binaryOp
        (.compareTo (.variableRef (javaName parent.name)) (.textLiteral t)) .le
          (.numberLiteral ⟨false, 0, 0, false⟩ none)) = some (decide (s ≤ t)) := by
  have hfield : readField parent (.text s) = some (.string s) := by
    simp [readField, mapPicToJavaType, hitem.elementary, htext]
  have hcompare : evaluate parent (.text s)
      (.compareTo (.variableRef (javaName parent.name)) (.textLiteral t)) =
        some (.integral (compareStrings s t)) := by
    simp [evaluate, hfield]
  have hzero : evaluate parent (.text s) (.numberLiteral ⟨false, 0, 0, false⟩ none) =
      some (.integral 0) := rfl
  have hge : 0 ≤ compareStrings s t ↔ t ≤ s := by rw [← not_lt, compareStrings_neg_iff, not_lt]
  have hle : compareStrings s t ≤ 0 ↔ s ≤ t := by
    rw [← not_lt, ← not_lt, ← compareStrings_neg_iff, compareStrings_swap s t, Left.neg_neg_iff]
  constructor
  · simp [truth, evaluate_binaryOp hcompare hzero, applyOperator, hge]
  · simp [truth, evaluate_binaryOp hcompare hzero, applyOperator, hle]

/-- **A term on an alphanumeric field** is tested with its cut literals. -/
theorem truth_term_text {term : ValueTerm} {s : Text} (hitem : Elementary parent)
    (htext : parent.isNumeric = false) (h : term.Suits parent) :
    truth parent (.text s) (conditionTermExpression parent term.texts) =
      some (decide (term.SatisfiedCut parent s)) := by
  have hlow := conditionValueLiteral_text hitem htext (h.literals term.low (List.mem_cons_self ..))
  unfold conditionTermExpression ValueTerm.texts
  cases hthrough : term.through with
  | none =>
      have hfield : readField parent (.text s) = some (.string s) := by
        simp [readField, mapPicToJavaType, hitem.elementary, htext]
      simp [htext, hlow, truth, evaluate, hfield, ValueTerm.SatisfiedCut, hthrough, eq_comm]
  | some through =>
      obtain ⟨word, high⟩ := through
      have hhigh := conditionValueLiteral_text hitem htext
        (h.literals high (by simp [ValueTerm.literals, hthrough]))
      simp only [Option.map_some, htext, hlow, hhigh, Bool.false_eq_true, if_false,
        truth_binaryOp_and, (truth_compareTo hitem htext).1, (truth_compareTo hitem htext).2]
      simp [ValueTerm.SatisfiedCut, hthrough]

theorem denotes_text {literal : ValueLiteral} (htext : parent.isNumeric = false)
    (h : literal.Suits parent) :
    ∃ value, literal.denotes parent = .text value ∧
      literal.cutText parent = PaddedText.cut ' ' parent.picLength value := by
  have hcut : ∀ value, literal.denotes parent = .text value →
      literal.cutText parent = PaddedText.cut ' ' parent.picLength value := by
    intro value hvalue
    rw [ValueLiteral.cutText, hvalue]
  cases literal with
  | number literal =>
      rw [ValueLiteral.Suits, htext] at h
      cases h
  | quoted quote value => exact ⟨value, rfl, hcut value rfl⟩
  | figurative word constant =>
      have hvalue : (ValueLiteral.figurative word constant).denotes parent =
          .text (figurativeToWidth constant parent.picLength) := by
        simp [ValueLiteral.denotes, htext]
      exact ⟨_, hvalue, hcut _ hvalue⟩

theorem satisfiedCut_of_satisfied {term : ValueTerm} {s : Text} (htext : parent.isNumeric = false)
    (hsuits : term.Suits parent) (hs : s.length = parent.picLength)
    (h : term.Satisfied parent (.text s)) : term.SatisfiedCut parent s := by
  obtain ⟨low, hlow, hcutLow⟩ := denotes_text htext
    (hsuits.literals term.low (List.mem_cons_self ..))
  unfold ValueTerm.Satisfied at h
  unfold ValueTerm.SatisfiedCut
  cases hthrough : term.through with
  | none =>
      simp only [hthrough, hlow] at h
      rw [hcutLow]
      exact PaddedText.Equal.eq_cut h hs
  | some through =>
      obtain ⟨high, hhigh, hcutHigh⟩ := denotes_text htext
        (hsuits.literals through.2 (by simp [ValueTerm.literals, hthrough]))
      simp only [hthrough, hlow, hhigh] at h
      simp only [hcutLow, hcutHigh]
      exact ⟨PaddedText.AtMost.cut_le h.1 hs, PaddedText.AtMost.le_cut h.2 hs⟩

/-- A text that satisfies a term only with cut literals is one of these. -/
theorem satisfied_of_satisfiedCut {term : ValueTerm} {s : Text} (htext : parent.isNumeric = false)
    (hsuits : term.Suits parent) (hs : s.length = parent.picLength)
    (h : term.SatisfiedCut parent s)
    (hother : ∀ literal ∈ term.literals, s ≠ literal.cutText parent) :
    term.Satisfied parent (.text s) := by
  have hmem : term.low ∈ term.literals := List.mem_cons_self ..
  obtain ⟨low, hlow, hcutLow⟩ := denotes_text htext (hsuits.literals term.low hmem)
  have hneLow := hother term.low hmem
  unfold ValueTerm.SatisfiedCut at h
  unfold ValueTerm.Satisfied
  cases hthrough : term.through with
  | none =>
      simp only [hthrough] at h
      exact absurd h hneLow
  | some through =>
      have hmem' : through.2 ∈ term.literals := by simp [ValueTerm.literals, hthrough]
      obtain ⟨high, hhigh, hcutHigh⟩ := denotes_text htext (hsuits.literals through.2 hmem')
      have hneHigh := hother through.2 hmem'
      simp only [hthrough] at h
      simp only [hlow, hhigh]
      rw [hcutLow] at h hneLow
      rw [hcutHigh] at h hneHigh
      exact ⟨PaddedText.atMost_of_cut_lt hs (lt_of_le_of_ne h.1 (Ne.symm hneLow)),
        PaddedText.atMost_of_lt_cut hs (lt_of_le_of_ne h.2 hneHigh)⟩

end TextItems

end CobolJava.ConditionName
