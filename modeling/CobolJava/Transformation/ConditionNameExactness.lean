/-
**When a condition name is exact.**

The Java of a condition name on an integral, a `BigDecimal` and an alphanumeric field: what the test
says and what `SET name TO TRUE` stores, compared with the values of the clause.

Main definitions:

* `ValueLiteral.wholeValue` — the number an integral field is compared with;
* `octal` — the reading of a literal behind a superfluous zero.

Main results:

* `truth_name`, `truth_name_eq_none` — a condition name from its terms;
* `truth_term_whole`, `afterSet_whole` — integral fields;
* `truth_term_decimal` — `BigDecimal` fields, where no test is ever true;
* `conditionNameExact_iff` — **when the Java of a condition name is exact**.
-/

import CobolJava.Lib.PyExc
import CobolJava.Transformation.ConditionNameValues

set_option autoImplicit false

namespace CobolJava.ConditionName

open Py.Chars Transformation

/-! ### A condition name from its terms -/

section Names

variable {parent : DataItem} {field : ItemValue}

theorem mapM_truth {P : ValueTerm → Prop} {clause : List ValueTerm}
    (h : ∀ term ∈ clause, ∃ b,
      truth parent field (conditionTermExpression parent term.texts) = some b ∧
        (b = true ↔ P term)) :
    ∃ bs, (clause.map ValueTerm.texts).mapM
        (fun term => truth parent field (conditionTermExpression parent term)) = some bs ∧
      (bs.any id = true ↔ ∃ term ∈ clause, P term) := by
  induction clause with
  | nil => exact ⟨[], rfl, by simp⟩
  | cons term clause ih =>
      rw [List.forall_mem_cons] at h
      obtain ⟨b, hb, hterm⟩ := h.1
      obtain ⟨bs, hbs, hclause⟩ := ih h.2
      refine ⟨b :: bs, ?_, ?_⟩
      · rw [List.map_cons, List.mapM_cons, hb, hbs]
        rfl
      · rw [List.any_cons, Bool.or_eq_true, hclause, List.exists_mem_cons_iff, ← hterm]
        rfl

/-- **A condition name is true when one of its terms is.** -/
theorem truth_name (field : ItemValue) {P : ValueTerm → Prop} {clause : List ValueTerm}
    (hne : clause ≠ [])
    (h : ∀ term ∈ clause, ∃ b,
      truth parent field (conditionTermExpression parent term.texts) = some b ∧
        (b = true ↔ P term)) :
    ∃ b, truth parent field (conditionNameExpression parent (clause.map ValueTerm.texts)) = some b ∧
      (b = true ↔ ∃ term ∈ clause, P term) := by
  obtain ⟨bs, hbs, hany⟩ := mapM_truth h
  refine ⟨bs.any id, ?_, hany⟩
  exact (truth_conditionNameExpression (by simpa using hne)).2 ⟨bs, hbs, rfl⟩

theorem truth_name_eq_none {clause : List ValueTerm} {term : ValueTerm} (hterm : term ∈ clause)
    (h : truth parent field (conditionTermExpression parent term.texts) = none) :
    truth parent field (conditionNameExpression parent (clause.map ValueTerm.texts)) = none := by
  have hne : clause.map ValueTerm.texts ≠ [] := by
    rw [Ne, List.map_eq_nil_iff]
    exact List.ne_nil_of_mem hterm
  rw [Option.eq_none_iff_forall_ne_some]
  intro b hb
  obtain ⟨bs, hbs, -⟩ := (truth_conditionNameExpression hne).1 hb
  obtain ⟨b', -, hb'⟩ := Py.exists_of_mapM_some hbs term.texts (List.mem_map_of_mem hterm)
  rw [h] at hb'
  cases hb'

end Names

/-! ### Literals of numeric items -/

/-- The number an integral field is compared with. -/
def ValueLiteral.wholeValue : ValueLiteral → ℤ
  | .number literal => wholeNumber literal
  | _ => 0

section Numeric

variable {parent : DataItem} {field : ItemValue}

theorem conditionValueLiteral_figurative {word : Text} {constant : Figurative}
    (hnumeric : parent.isNumeric = true) (h : (ValueLiteral.figurative word constant).Suits parent) :
    conditionValueLiteral word parent = .numberLiteral ⟨false, 0, 0, false⟩ none := by
  obtain ⟨-, hplain, -⟩ := figurative_word h.1
  have hstrip : strip word = word := strip_of_isToken h.isToken.1
  rw [conditionValueLiteral, hstrip, if_pos hnumeric,
    unquoteLiteral_word fun c hc => (hplain c hc).2, if_pos (h.2 hnumeric)]

theorem conditionValueLiteral_number {literal : NumericValues.Literal}
    (hnumeric : parent.isNumeric = true) :
    conditionValueLiteral literal.text parent =
      numericJavaLiteral (NumericValues.normalized literal).text := by
  obtain ⟨hne, hplain, hupper, hletters⟩ := number_word literal
  have hstrip : strip literal.text = literal.text := strip_of_isToken (.inr ⟨hne, hplain⟩)
  have hwords : ∀ word ∈ figurativeZeroValues, word.any Char.isAlpha = true := by decide
  have hzero : upper literal.text ∉ figurativeZeroValues := by
    rw [hupper]
    intro hmem
    obtain ⟨c, hc, halpha⟩ := List.any_eq_true.1 (hwords _ hmem)
    rw [hletters c hc] at halpha
    cases halpha
  rw [conditionValueLiteral, hstrip, if_pos hnumeric,
    unquoteLiteral_word fun c hc => (hplain c hc).2, if_neg hzero,
    NumericValues.normalizeNumericLiteral_text]

theorem numericLiteralOf_text (l : NumericValues.Literal) :
    numericLiteralOf l.text =
      ⟨decide (l.sign = some true), DecimalText.number (l.whole ++ fractionDigits l),
        (fractionDigits l).length,
        javaIntegralSuffix (decide (l.sign = some true))
          (DecimalText.number (l.whole ++ fractionDigits l)) (fractionDigits l).length⟩ := by
  have hsign : decide (l.text.head? = some '-') = decide (l.sign = some true) :=
    decide_eq_decide.2 (NumericValues.head_text l)
  simp only [numericLiteralOf, NumericValues.afterSign_text, NumericValues.beforePoint_body,
    NumericValues.behindPoint_body, fractionDigits, hsign]

theorem fractionDigits_normalized (l : NumericValues.Literal) :
    fractionDigits (NumericValues.normalized l) = [] ↔ fractionDigits l = [] := by
  unfold fractionDigits NumericValues.normalized
  dsimp only
  split_ifs with h
  · simp [h]
  · simp [h, NumericValues.orZero_ne_nil]

theorem wholeNumber_normalized (l : NumericValues.Literal) :
    wholeNumber (NumericValues.normalized l) = wholeNumber l := by
  have hsign : (NumericValues.normalized l).sign = some true ↔ l.sign = some true :=
    NumericValues.javaSign_eq_minus l.sign
  simp only [wholeNumber, NumericValues.number_normalized, hsign]

/-- **A whole literal** evaluates to its number when a `long` can hold that. -/
theorem evaluate_whole {l : NumericValues.Literal} (hfrac : fractionDigits l = []) :
    evaluate parent field (numericJavaLiteral l.text) =
      if inRange true (wholeNumber l) then some (.integral (wholeNumber l)) else none := by
  have hdigits : (numericLiteralOf l.text).signedDigits = wholeNumber l := by
    simp [numericLiteralOf_text, NumericLiteral.signedDigits, wholeNumber, hfrac]
  have hplaces : (numericLiteralOf l.text).places = 0 := by simp [numericLiteralOf_text, hfrac]
  have hsuffix : (numericLiteralOf l.text).longSuffix =
      javaIntegralSuffix (numericLiteralOf l.text).negative (numericLiteralOf l.text).unscaled
        (numericLiteralOf l.text).places := by
    simp [numericLiteralOf_text]
  have htype : numericLiteralJavaType (numericLiteralOf l.text).negative
      (numericLiteralOf l.text).unscaled (numericLiteralOf l.text).places ≠ .decimal := by
    rw [hplaces, numericLiteralJavaType, if_neg (lt_irrefl 0)]
    split_ifs <;> simp
  -- without the suffix the number is an `int`, which a `long` can hold
  have hrange : inRange (numericLiteralOf l.text).longSuffix (wholeNumber l) ↔
      inRange true (wholeNumber l) := by
    have hvalue : javaIntegralSuffix (numericLiteralOf l.text).negative
        (numericLiteralOf l.text).unscaled (numericLiteralOf l.text).places =
          (decide (javaIntMax < wholeNumber l) || decide (wholeNumber l < javaIntMin)) := by
      rw [← hdigits, javaIntegralSuffix, NumericLiteral.signedDigits, hplaces]
      simp
    rw [hsuffix, hvalue]
    cases hlarge : decide (javaIntMax < wholeNumber l) || decide (wholeNumber l < javaIntMin) with
    | true => rfl
    | false =>
        rw [Bool.or_eq_false_iff, decide_eq_false_iff_not, decide_eq_false_iff_not] at hlarge
        norm_num [inRange, javaIntMax, javaIntMin, javaLongMax, javaLongMin] at hlarge ⊢
        omega
  simp only [numericJavaLiteral, evaluate, hplaces, hdigits, hrange, Option.some.injEq, true_and,
    if_neg (hplaces ▸ htype)]

theorem evaluate_fraction (parent : DataItem) (field : ItemValue) {l : NumericValues.Literal}
    (hfrac : fractionDigits l ≠ []) :
    ∃ x, evaluate parent field (numericJavaLiteral l.text) = some (.decimal x) := by
  have hplaces : 0 < (numericLiteralOf l.text).places := by
    simpa [numericLiteralOf_text] using List.length_pos_iff.2 hfrac
  have htype : numericLiteralJavaType (numericLiteralOf l.text).negative
      (numericLiteralOf l.text).unscaled (numericLiteralOf l.text).places = .decimal := by
    rw [numericLiteralJavaType, if_pos hplaces]
  exact ⟨_, by simp [numericJavaLiteral, evaluate, htype]; rfl⟩

/-- **A literal compared with an integral field.** -/
theorem evaluate_literal (field : ItemValue) {literal : ValueLiteral}
    (hnumeric : parent.isNumeric = true) (h : literal.Suits parent) :
    (literal.ComparesWhole →
      evaluate parent field (conditionValueLiteral literal.text parent) =
          some (.integral literal.wholeValue) ∧
        literal.denotes parent = .number literal.wholeValue) ∧
    (¬literal.ComparesWhole →
      evaluate parent field (conditionValueLiteral literal.text parent) = none ∨
        ∃ x, evaluate parent field (conditionValueLiteral literal.text parent) =
          some (.decimal x)) := by
  cases literal with
  | number l =>
      rw [ValueLiteral.text, conditionValueLiteral_number hnumeric]
      have hfrac := fractionDigits_normalized l
      constructor
      · rintro ⟨hnone, hrange⟩
        have hwhole : evaluate parent field
            (numericJavaLiteral (NumericValues.normalized l).text) =
              some (.integral (wholeNumber l)) := by
          rw [evaluate_whole (hfrac.2 hnone), wholeNumber_normalized, if_pos hrange]
        have hvalue : l.value = wholeNumber l := by
          unfold fractionDigits at hnone
          simp only [NumericValues.Literal.value, NumericValues.Literal.magnitude, hnone,
            wholeNumber, DecimalText.fraction]
          split_ifs <;> simp
        exact ⟨hwhole, by rw [ValueLiteral.denotes, hvalue]; rfl⟩
      · intro hnot
        by_cases hnone : fractionDigits l = []
        · have hrange : ¬inRange true (wholeNumber l) := fun hrange => hnot ⟨hnone, hrange⟩
          left
          rw [evaluate_whole (hfrac.2 hnone), wholeNumber_normalized, if_neg hrange]
        · exact .inr (evaluate_fraction parent field (mt hfrac.1 hnone))
  | quoted quote value =>
      rw [ValueLiteral.Suits, hnumeric] at h
      cases h.1
  | figurative word constant =>
      refine ⟨fun _ => ⟨?_, ?_⟩, fun hnot => absurd trivial hnot⟩
      · rw [ValueLiteral.text, conditionValueLiteral_figurative hnumeric h]
        rfl
      · simp [ValueLiteral.denotes, hnumeric, ValueLiteral.wholeValue]

end Numeric

/-! ### Integral fields -/

section Whole

variable {parent : DataItem}

theorem contents_whole (hplaces : parent.decimalPlaces = 0) (n : ℤ) : contents parent n = n := by
  rw [contents, hplaces, pow_zero, div_one]

theorem readField_whole (hitem : Elementary parent) (hnumeric : parent.isNumeric = true)
    (hplaces : parent.decimalPlaces = 0) (n : ℤ) :
    readField parent (.number n) = some (.integral n) := by
  have htype : mapPicToJavaType parent = .long ∨ mapPicToJavaType parent = .int := by
    simp only [mapPicToJavaType, hitem.elementary, hnumeric, hplaces]
    simpa using Nat.lt_or_ge 9 parent.picLength
  rcases htype with htype | htype
  · simp [readField, htype]
  · simp [readField, htype]

/-- **A term on an integral field** whose literals can be compared with it. -/
theorem truth_term_whole {term : ValueTerm} (hitem : Elementary parent)
    (hnumeric : parent.isNumeric = true) (hplaces : parent.decimalPlaces = 0)
    (h : term.Suits parent) (hwhole : ∀ literal ∈ term.literals, literal.ComparesWhole) (n : ℤ) :
    ∃ b, truth parent (.number n) (conditionTermExpression parent term.texts) = some b ∧
      (b = true ↔ term.Satisfied parent (.number n)) := by
  have hfield : evaluate parent (.number n) (.variableRef (javaName parent.name)) =
      some (.integral n) := by
    rw [evaluate, if_pos rfl, readField_whole hitem hnumeric hplaces]
  have hmem : term.low ∈ term.literals := List.mem_cons_self ..
  obtain ⟨hlow, hlowValue⟩ :=
    (evaluate_literal (.number n) hnumeric (h.literals _ hmem)).1 (hwhole _ hmem)
  unfold conditionTermExpression ValueTerm.texts ValueTerm.Satisfied
  cases hthrough : term.through with
  | none =>
      refine ⟨decide (n = term.low.wholeValue), ?_, ?_⟩
      · simp only [Option.map_none, hnumeric, if_true, truth, evaluate_binaryOp hfield hlow,
          applyOperator]
      · rw [decide_eq_true_eq, hlowValue]
        exact Int.cast_inj.symm
  | some through =>
      obtain ⟨word, high⟩ := through
      have hmem' : high ∈ term.literals := by simp [ValueTerm.literals, hthrough]
      obtain ⟨hhigh, hhighValue⟩ :=
        (evaluate_literal (.number n) hnumeric (h.literals _ hmem')).1 (hwhole _ hmem')
      refine ⟨decide (term.low.wholeValue ≤ n) && decide (n ≤ high.wholeValue), ?_, ?_⟩
      · simp only [Option.map_some, hnumeric, if_true, truth_binaryOp_and]
        simp [truth, evaluate_binaryOp hfield hlow, evaluate_binaryOp hfield hhigh, applyOperator]
      · rw [Bool.and_eq_true, decide_eq_true_eq, decide_eq_true_eq]
        simp only [hlowValue, hhighValue]
        exact and_congr Int.cast_le.symm Int.cast_le.symm

/-- A term with another literal does not compile. -/
theorem truth_term_not_whole {term : ValueTerm} (hitem : Elementary parent)
    (hnumeric : parent.isNumeric = true) (hplaces : parent.decimalPlaces = 0)
    (h : term.Suits parent) {literal : ValueLiteral} (hmem : literal ∈ term.literals)
    (hwhole : ¬literal.ComparesWhole) (n : ℤ) :
    truth parent (.number n) (conditionTermExpression parent term.texts) = none := by
  have hfield : evaluate parent (.number n) (.variableRef (javaName parent.name)) =
      some (.integral n) := by
    rw [evaluate, if_pos rfl, readField_whole hitem hnumeric hplaces]
  -- an `int` or `long` is compared with nothing else
  have hcompare : ∀ operator, operator = .eq ∨ operator = .ge ∨ operator = .le →
      truth parent (.number n) (.binaryOp (.variableRef (javaName parent.name)) operator
        (conditionValueLiteral literal.text parent)) = none := by
    intro operator hoperator
    rcases (evaluate_literal (.number n) hnumeric (h.literals _ hmem)).2 hwhole with
      hnone | ⟨x, hx⟩
    · simp [truth, evaluate, hnone]
    · rw [truth, evaluate_binaryOp hfield hx]
      rcases hoperator with rfl | rfl | rfl
      · rfl
      · rfl
      · rfl
  unfold conditionTermExpression ValueTerm.texts
  cases hthrough : term.through with
  | none =>
      have hlow : literal = term.low := by simpa [ValueTerm.literals, hthrough] using hmem
      simp only [Option.map_none, hnumeric, if_true, ← hlow]
      exact hcompare .eq (.inl rfl)
  | some through =>
      simp only [Option.map_some, hnumeric, if_true, truth_binaryOp_and]
      have hcases : literal = term.low ∨ literal = through.2 := by
        simpa [ValueTerm.literals, hthrough] using hmem
      rcases hcases with hlow | hhigh
      · rw [← hlow, hcompare .ge (.inr (.inl rfl))]
        rfl
      · rw [← hhigh, hcompare .le (.inr (.inr rfl))]
        simp

/-! ### What SET stores in an integral field -/

theorem ofDigitChars_eight_le {s : Text} {m n : ℕ} (h : m ≤ n) :
    Nat.ofDigitChars 8 s m ≤ Nat.ofDigitChars 10 s n := by
  induction s generalizing m n with
  | nil => simpa using h
  | cons c s ih =>
      rw [Nat.ofDigitChars_cons, Nat.ofDigitChars_cons]
      exact ih (by omega)

theorem readWholeLiteral_le {digits : Text} {m : ℕ} (h : readWholeLiteral digits = some m) :
    m ≤ DecimalText.number digits := by
  unfold readWholeLiteral at h
  split_ifs at h with hoctal hall
  · rw [← Option.some.inj h]
    exact ofDigitChars_eight_le le_rfl
  · exact (Option.some.inj h).ge

theorem le_of_javaIntegralSuffix {negative : Bool} {n : ℕ}
    (h : javaIntegralSuffix negative n 0 = true) : 10 ^ 9 ≤ n := by
  simp only [javaIntegralSuffix, javaIntMax, javaIntMin] at h
  cases negative with
  | false =>
      simp at h
      omega
  | true =>
      simp at h
      omega

theorem inRange_of_le {sign : Option Bool} {m n : ℕ} (hle : m ≤ n) (hlong : n < 10 ^ 18) :
    inRange (javaIntegralSuffix (decide (sign = some true)) n 0)
      (if sign = some true then -(m : ℤ) else m) := by
  simp only [inRange, javaIntegralSuffix, javaIntMax, javaIntMin, javaLongMin, javaLongMax]
  by_cases hsign : sign = some true
  · simp [hsign]
    split_ifs
    · omega
    · omega
  · simp [hsign]
    split_ifs
    · omega
    · omega

/-- **A whole literal that the `PICTURE` has room for** is stored as Java reads it. -/
theorem assigned_whole (hitem : Elementary parent) (hnumeric : parent.isNumeric = true)
    (hplaces : parent.decimalPlaces = 0) {l : NumericValues.Literal} (hfrac : l.frac = none)
    (hroom : l.whole.length ≤ parent.picLength) :
    assigned parent (.number l.text) = (readWholeLiteral l.whole).map fun m =>
      .number (if l.sign = some true then -(m : ℤ) else m) := by
  have htype : mapPicToJavaType parent = .long ∨ mapPicToJavaType parent = .int := by
    simp only [mapPicToJavaType, hitem.elementary, hnumeric, hplaces]
    simpa using Nat.lt_or_ge 9 parent.picLength
  have hbody : NumericValues.afterSign l.text = l.whole := by
    rw [NumericValues.afterSign_text, NumericValues.Literal.body, hfrac]
  have hpoint : '.' ∉ l.whole := fun hmem =>
    NumericValues.not_point_of_isDigit (l.whole_digits _ hmem) rfl
  have hlt : DecimalText.number l.whole < 10 ^ l.whole.length := DecimalText.number_lt l.whole_digits
  -- the digits of the item leave room in a `long`, nine of them in an `int`
  have hlong : DecimalText.number l.whole < 10 ^ 18 :=
    hlt.trans_le (Nat.pow_le_pow_right (by decide) (hroom.trans (hitem.digits hnumeric)))
  have hint : parent.picLength ≤ 9 → DecimalText.number l.whole < 10 ^ 9 := fun hnine =>
    hlt.trans_le (Nat.pow_le_pow_right (by decide) (hroom.trans hnine))
  have hhead : decide (l.text.head? = some '-') = decide (l.sign = some true) :=
    decide_eq_decide.2 (NumericValues.head_text l)
  have hassigned : ∀ m n, readWholeLiteral l.whole = some m →
      n = (if l.sign = some true then -(m : ℤ) else m) →
      (javaIntegralSuffix (decide (l.sign = some true)) (DecimalText.number l.whole) 0 = true →
          parent.picLength > 9) →
        inRange (javaIntegralSuffix (decide (l.sign = some true)) (DecimalText.number l.whole) 0)
          n → assigned parent (.number l.text) = some (.number n) := by
    rintro m n hread rfl hsuffix hrange
    rcases htype with htype | htype
    · simp only [assigned, htype, hbody, if_neg hpoint, hread, hhead, Option.bind_eq_bind,
        Option.bind_some]
      simp only [NumericValues.head_text]
      exact if_pos ⟨hsuffix, hrange⟩
    · simp only [assigned, htype, hbody, if_neg hpoint, hread, hhead, Option.bind_eq_bind,
        Option.bind_some]
      simp only [NumericValues.head_text]
      exact if_pos ⟨hsuffix, hrange⟩
  cases hread : readWholeLiteral l.whole with
  | none =>
      rcases htype with htype | htype
      · simp [assigned, htype, hbody, hpoint, hread]
      · simp [assigned, htype, hbody, hpoint, hread]
  | some m =>
      have hle := readWholeLiteral_le hread
      rw [Option.map_some]
      refine hassigned m _ hread rfl (fun h => ?_) (inRange_of_le hle hlong)
      have hlarge := le_of_javaIntegralSuffix h
      by_contra hnine
      have hsmall := hint (not_lt.1 hnine)
      omega

theorem afterSet_cons {first : ValueTerm} {rest : List ValueTerm}
    (h : ∀ term ∈ first :: rest, term.Suits parent) :
    afterSet parent ((first :: rest).map ValueTerm.texts) =
      match mapPicToJavaDefault parent first.low.text with
      | .ok literal => assigned parent literal
      | .error _ => none := by
  have hproblem := conditionNameProblem_clause (List.cons_ne_nil _ _) h
  rw [List.map_cons] at hproblem ⊢
  simp only [afterSet, setCondition, hproblem, Bool.false_eq_true, if_false]
  simp only [ValueTerm.texts]
  cases mapPicToJavaDefault parent first.low.text with
  | ok literal => rfl
  | error e => rfl

theorem normalizeValueForPic_signed {l : NumericValues.Literal} (h : l.sign.isSome = true)
    (i d : ℕ) : NumericValues.normalizeValueForPic l.text i d false =
      .error (.itemNotSigned l.text) := by
  have hhead : l.text.head?.all NumericValues.isSign = true := by
    rw [NumericValues.Literal.text, NumericValues.Literal.signText]
    cases hsign : l.sign with
    | none =>
        rw [hsign] at h
        cases h
    | some negative => cases negative <;> rfl
  rw [NumericValues.normalizeValueForPic, NumericValues.stripQuotes_text]
  simp [hhead, NumericValues.matchesNumericLiteral_text]

theorem length_cut_le {i : ℕ} (hi : 0 < i) (s : Text) : (NumericValues.cut i s).length ≤ i := by
  unfold NumericValues.cut NumericValues.lastChars
  split_ifs with hlt hzero
  · omega
  · rw [List.length_drop]
    omega
  · omega

/-- A zero is stored as it is. -/
theorem normalizeValueForPic_zero {word : Text} (hword : upper word ∈ figurativeZeroValues)
    (hplain : ∀ c ∈ word, isSeparator c = false ∧ isQuote c = false) {i : ℕ} (hi : 0 < i)
    (signed : Bool) :
    NumericValues.normalizeValueForPic word i 0 signed = .ok ['0'] := by
  have hspace : ∀ c ∈ word, Py.isSpace c = false := by
    intro c hc
    have hseparator := (hplain c hc).1
    rw [isSeparator, Bool.or_eq_false_iff] at hseparator
    exact hseparator.1
  have hquotes : ∀ c ∈ word, c ∉ ['"', '\''] := by
    intro c hc
    have hquote := (hplain c hc).2
    simpa [isQuote] using hquote
  have hstrip : NumericValues.stripQuotes word = word := by
    rw [NumericValues.stripQuotes, strip_eq_self hspace, stripChars_eq_self hquotes,
      strip_eq_self hspace]
  have hzero : [' '].intercalate (split (upper word)) ∈ NumericValues.zeroFigurative := by
    have hwords : ∀ w ∈ figurativeZeroValues,
        [' '].intercalate (split w) ∈ NumericValues.zeroFigurative := by decide +kernel
    exact hwords _ hword
  have hnormal : NumericValues.normalizeNumericLiteral word = .ok ['0'] := by
    rw [NumericValues.normalizeNumericLiteral, hstrip, if_pos hzero]
  have hletter : (word.head?.all NumericValues.isSign &&
      NumericValues.matchesNumericLiteral word) = false := by
    have hwords : ∀ w ∈ figurativeZeroValues, w.head? = some 'Z' := by decide
    have hhead := hwords _ hword
    cases word with
    | nil => cases hhead
    | cons c word =>
        have hc : c.toUpper = 'Z' := Option.some.inj hhead
        have hsign : NumericValues.isSign c = false := by
          rw [NumericValues.isSign, Bool.or_eq_false_iff, beq_eq_false_iff_ne, beq_eq_false_iff_ne]
          constructor
          · rintro rfl
            exact absurd hc (by decide)
          · rintro rfl
            exact absurd hc (by decide)
        simp [hsign]
  rw [NumericValues.normalizeValueForPic, hstrip]
  dsimp only
  rw [hletter, hnormal, Bool.false_and, if_neg Bool.false_ne_true]
  have hcut : ¬i < 1 := by omega
  simp [NumericValues.beforePoint, hcut]

/-- **What `SET` stores in an integral field.** -/
theorem afterSet_whole (hitem : Elementary parent) (hnumeric : parent.isNumeric = true)
    (hplaces : parent.decimalPlaces = 0) {first : ValueTerm} {rest : List ValueTerm}
    (h : ∀ term ∈ first :: rest, term.Suits parent) :
    afterSet parent ((first :: rest).map ValueTerm.texts) =
      (first.low.storedWhole parent).map .number := by
  have hdigits : parent.integerDigits = parent.picLength := by
    rw [DataItem.integerDigits, hplaces, Nat.sub_zero]
  have hsuits : first.low.Suits parent :=
    (h first (List.mem_cons_self ..)).literals _ (List.mem_cons_self ..)
  rw [afterSet_cons h, mapPicToJavaDefault, if_pos hnumeric, hdigits, hplaces]
  cases hlow : first.low with
  | number l =>
      rw [ValueLiteral.text, ValueLiteral.storedWhole]
      by_cases hsigned : l.sign.isSome ∧ parent.signed = false
      · rw [if_pos hsigned, hsigned.2, normalizeValueForPic_signed hsigned.1]
        rfl
      · have hallowed : l.sign.isSome = true → parent.signed = true := fun hsome =>
          (Bool.eq_false_or_eq_true parent.signed).resolve_right fun hunsigned =>
            hsigned ⟨hsome, hunsigned⟩
        have hsign : (NumericValues.stored l parent.picLength 0).sign = some true ↔
            l.sign = some true := NumericValues.javaSign_eq_minus l.sign
        have hassigned := assigned_whole hitem hnumeric hplaces
          (l := NumericValues.stored l parent.picLength 0) rfl (length_cut_le hitem.positive _)
        simp only [hsign] at hassigned
        rw [if_neg hsigned, NumericValues.normalizeValueForPic_text l hallowed, Option.map_map]
        exact hassigned
  | quoted quote value =>
      rw [hlow, ValueLiteral.Suits, hnumeric] at hsuits
      cases hsuits.1
  | figurative word constant =>
      rw [hlow] at hsuits
      obtain ⟨-, hplain, -⟩ := figurative_word hsuits.1
      rw [ValueLiteral.text, normalizeValueForPic_zero (hsuits.2 hnumeric) hplain hitem.positive]
      have hassigned := assigned_whole hitem hnumeric hplaces (l := ⟨none, ['0'], none, by decide,
        by decide, by decide⟩) rfl hitem.positive
      exact hassigned

end Whole

/-! ### `BigDecimal` fields -/

section Decimals

variable {parent : DataItem}

theorem mapPicToJavaType_decimal (hitem : Elementary parent) (hnumeric : parent.isNumeric = true)
    (hplaces : 0 < parent.decimalPlaces) : mapPicToJavaType parent = .decimal := by
  simp [mapPicToJavaType, hitem.elementary, hnumeric, hplaces]

/-- **No test of a `BigDecimal` field is ever true**: it compares references, or does not compile. -/
theorem truth_term_decimal {term : ValueTerm} (hitem : Elementary parent)
    (hnumeric : parent.isNumeric = true) (hplaces : 0 < parent.decimalPlaces)
    (h : term.Suits parent) (unscaled : ℤ) :
    (term.ComparesDecimal →
      truth parent (.number unscaled) (conditionTermExpression parent term.texts) = some false) ∧
    (¬term.ComparesDecimal →
      truth parent (.number unscaled) (conditionTermExpression parent term.texts) = none) := by
  have hfield : evaluate parent (.number unscaled) (.variableRef (javaName parent.name)) =
      some (.decimal (contents parent unscaled)) := by
    rw [evaluate, if_pos rfl, readField, mapPicToJavaType_decimal hitem hnumeric hplaces]
  have hmem : term.low ∈ term.literals := List.mem_cons_self ..
  have hsuits := h.literals _ hmem
  constructor
  · rintro ⟨hthrough, l, hlow, hfrac⟩
    have hfraction := mt (fractionDigits_normalized l).1 hfrac
    obtain ⟨x, hx⟩ := evaluate_fraction parent (.number unscaled) hfraction
    rw [← conditionValueLiteral_number hnumeric] at hx
    simp only [conditionTermExpression, ValueTerm.texts, hthrough, Option.map_none, hnumeric,
      if_true, hlow, ValueLiteral.text, truth, evaluate_binaryOp hfield hx, applyOperator]
  · intro hnot
    unfold conditionTermExpression ValueTerm.texts
    cases hthrough : term.through with
    | some through =>
        -- an object is not compared by its order
        simp only [Option.map_some, hnumeric, if_true, truth_binaryOp_and]
        have hge : truth parent (.number unscaled) (.binaryOp
            (.variableRef (javaName parent.name)) .ge
              (conditionValueLiteral term.low.text parent)) = none := by
          cases hlow : evaluate parent (.number unscaled)
              (conditionValueLiteral term.low.text parent) with
          | none => simp [truth, evaluate, hlow]
          | some v =>
              rw [truth, evaluate_binaryOp hfield hlow]
              cases v <;> rfl
        rw [hge]
        rfl
    | none =>
        -- nor with an `int` or a `long`
        have hwhole : term.low.ComparesWhole ∨ ∃ l, term.low = .number l ∧
            fractionDigits l = [] ∧ ¬inRange true (wholeNumber l) := by
          cases hlow : term.low with
          | number l =>
              have hfrac : fractionDigits l = [] := by
                by_contra hfrac
                exact hnot ⟨hthrough, l, hlow, hfrac⟩
              by_cases hrange : inRange true (wholeNumber l)
              · exact .inl ⟨hfrac, hrange⟩
              · exact .inr ⟨l, rfl, hfrac, hrange⟩
          | quoted quote value => exact .inl trivial
          | figurative word constant => exact .inl trivial
        simp only [Option.map_none, hnumeric, if_true]
        rcases hwhole with hwhole | ⟨l, hlow, hfrac, hrange⟩
        · have heval := ((evaluate_literal (.number unscaled) hnumeric hsuits).1 hwhole).1
          rw [truth, evaluate_binaryOp hfield heval]
          rfl
        · have heval : evaluate parent (.number unscaled)
              (conditionValueLiteral term.low.text parent) = none := by
            rw [hlow, ValueLiteral.text, conditionValueLiteral_number hnumeric,
              evaluate_whole ((fractionDigits_normalized l).2 hfrac), wholeNumber_normalized,
              if_neg hrange]
          simp [truth, evaluate, heval]

theorem afterSet_decimal (hitem : Elementary parent) (hnumeric : parent.isNumeric = true)
    (hplaces : 0 < parent.decimalPlaces) {first : ValueTerm} {rest : List ValueTerm}
    (h : ∀ term ∈ first :: rest, term.Suits parent) :
    afterSet parent ((first :: rest).map ValueTerm.texts) = none := by
  have htype := mapPicToJavaType_decimal hitem hnumeric hplaces
  rw [afterSet_cons h]
  cases mapPicToJavaDefault parent first.low.text with
  | error e => rfl
  | ok literal =>
      cases literal with
      | number text => simp [assigned, htype]
      | text value => simp [assigned, htype]

end Decimals

/-! ### The condition -/

section Exact

variable {parent : DataItem} {clause : List ValueTerm} {raw : Text}

/-- A name on an integral field. -/
theorem truth_whole (hitem : Elementary parent) (hnumeric : parent.isNumeric = true)
    (hplaces : parent.decimalPlaces = 0) (hne : clause ≠ [])
    (hsuits : ∀ term ∈ clause, term.Suits parent) (n : ℤ) {b : Bool}
    (htruth : truth parent (.number n)
      (conditionNameExpression parent (clause.map ValueTerm.texts)) = some b) :
    (∀ term ∈ clause, ∀ literal ∈ term.literals, literal.ComparesWhole) ∧
      (b = true ↔ Satisfied parent (.number n) clause) := by
  have hall : ∀ term ∈ clause, ∀ literal ∈ term.literals, literal.ComparesWhole := by
    intro term hterm literal hliteral
    by_contra hwhole
    have hnone := truth_name_eq_none hterm (truth_term_not_whole hitem hnumeric hplaces
      (hsuits term hterm) hliteral hwhole n)
    rw [hnone] at htruth
    cases htruth
  obtain ⟨b', hb', hsatisfied⟩ := truth_name (.number n) hne fun term hterm =>
    truth_term_whole hitem hnumeric hplaces (hsuits term hterm) (hall term hterm) n
  obtain rfl := Option.some.inj (hb'.symm.trans htruth)
  exact ⟨hall, hsatisfied⟩

/-- Integral fields. -/
theorem exact_whole_iff (hitem : Elementary parent) (hnumeric : parent.isNumeric = true)
    (hplaces : parent.decimalPlaces = 0) (hne : clause ≠ [])
    (hsuits : ∀ term ∈ clause, term.Suits parent)
    (hterms : conditionTerms raw = clause.map ValueTerm.texts) :
    ConditionNameExact parent raw clause ↔ ExactWhen parent clause := by
  have hnot : ¬parent.isNumeric = false := by simp [hnumeric]
  constructor
  · intro hexact
    refine ⟨fun _ _ hall first hfirst n hn => ?_, fun _ hpos => ?_, fun htext => ?_,
      fun htext => ?_⟩
    · obtain ⟨rest, rfl⟩ : ∃ rest, clause = first :: rest := List.head?_eq_some_iff.1 hfirst
      have hset := afterSet_whole hitem hnumeric hplaces hsuits
      rw [hn, Option.map_some] at hset
      obtain ⟨b, hb, hsatisfied⟩ := truth_name (.number n) hne fun term hterm =>
        truth_term_whole hitem hnumeric hplaces (hsuits term hterm) (hall term hterm) n
      rw [← hterms] at hset hb
      exact hsatisfied.1 (hexact.set _ hset b hb)
    · omega
    · exact absurd htext hnot
    · exact absurd htext hnot
  · intro hwhen
    refine ⟨fun field hfield b htruth => ?_, fun field hset b htruth => ?_⟩
    · rw [hterms] at htruth
      cases field with
      | text value => exact absurd hfield.1 hnot
      | number unscaled =>
          rw [ItemValue.denotes, contents_whole hplaces]
          exact (truth_whole hitem hnumeric hplaces hne hsuits unscaled htruth).2
    · rw [hterms] at hset htruth
      obtain ⟨first, rest, rfl⟩ := List.exists_cons_of_ne_nil hne
      rw [afterSet_whole hitem hnumeric hplaces hsuits] at hset
      obtain ⟨n, hn, rfl⟩ := Option.map_eq_some_iff.1 hset
      obtain ⟨hall, hsatisfied⟩ := truth_whole hitem hnumeric hplaces hne hsuits n htruth
      exact hsatisfied.2 (hwhen.whole hnumeric hplaces hall first rfl n hn)

/-- `BigDecimal` fields. -/
theorem exact_decimal_iff (hitem : Elementary parent) (hnumeric : parent.isNumeric = true)
    (hplaces : 0 < parent.decimalPlaces) (hne : clause ≠ [])
    (hsuits : ∀ term ∈ clause, term.Suits parent)
    (hterms : conditionTerms raw = clause.map ValueTerm.texts) :
    ConditionNameExact parent raw clause ↔ ExactWhen parent clause := by
  have hnot : ¬parent.isNumeric = false := by simp [hnumeric]
  constructor
  · intro hexact
    refine ⟨fun _ hzero => ?_, fun _ _ hall unscaled hheld hsatisfied => ?_, fun htext => ?_,
      fun htext => ?_⟩
    · omega
    · obtain ⟨b, hb, hfalse⟩ := truth_name (.number unscaled) (P := fun _ => False) hne
        fun term hterm => ⟨false, (truth_term_decimal hitem hnumeric hplaces (hsuits term hterm)
          unscaled).1 (hall term hterm), by simp⟩
      rw [← hterms] at hb
      obtain ⟨-, -, hno⟩ :=
        hfalse.1 ((hexact.test (.number unscaled) ⟨hnumeric, hheld⟩ b hb).2 hsatisfied)
      exact hno
    · exact absurd htext hnot
    · exact absurd htext hnot
  · intro hwhen
    refine ⟨fun field hfield b htruth => ?_, fun field hset b htruth => ?_⟩
    · rw [hterms] at htruth
      cases field with
      | text value => exact absurd hfield.1 hnot
      | number unscaled =>
          have hall : ∀ term ∈ clause, term.ComparesDecimal := by
            intro term hterm
            by_contra hdecimal
            have hnone := truth_name_eq_none hterm ((truth_term_decimal hitem hnumeric hplaces
              (hsuits term hterm) unscaled).2 hdecimal)
            rw [hnone] at htruth
            cases htruth
          obtain ⟨b', hb', hfalse⟩ := truth_name (.number unscaled) (P := fun _ => False) hne
            fun term hterm => ⟨false, (truth_term_decimal hitem hnumeric hplaces
              (hsuits term hterm) unscaled).1 (hall term hterm), by simp⟩
          obtain rfl := Option.some.inj (hb'.symm.trans htruth)
          have hheld := hwhen.decimal hnumeric hplaces hall unscaled hfield.2
          refine iff_of_false (fun hb => ?_) hheld
          obtain ⟨-, -, hno⟩ := hfalse.1 hb
          exact hno
    · rw [hterms] at hset
      obtain ⟨first, rest, rfl⟩ := List.exists_cons_of_ne_nil hne
      rw [afterSet_decimal hitem hnumeric hplaces hsuits] at hset
      cases hset

/-- The characters of a cut literal are bytes. -/
theorem bytes_cutText {literal : ValueLiteral} (htext : parent.isNumeric = false)
    (h : literal.Suits parent) : Bytes (literal.cutText parent) := by
  obtain ⟨value, hvalue, hcut⟩ := denotes_text htext h
  have hbytes : Bytes value := by
    cases literal with
    | number literal =>
        rw [ValueLiteral.Suits, htext] at h
        cases h
    | quoted quote value' =>
        obtain rfl := Comparand.text.inj hvalue
        exact h.2.2.2
    | figurative word constant =>
        simp only [ValueLiteral.denotes, htext, Bool.false_eq_true, if_false] at hvalue
        obtain rfl := Comparand.text.inj hvalue
        intro c hc
        rw [List.eq_of_mem_replicate hc]
        cases constant <;> decide
  rw [hcut, PaddedText.cut, PaddedText.padTo]
  intro c hc
  rcases List.mem_append.1 hc with hc | hc
  · exact hbytes c (List.mem_of_mem_take hc)
  · rw [List.eq_of_mem_replicate hc]
    decide

/-- Alphanumeric fields. -/
theorem exact_text_iff (hitem : Elementary parent) (htext : parent.isNumeric = false)
    (hne : clause ≠ []) (hsuits : ∀ term ∈ clause, term.Suits parent)
    (hterms : conditionTerms raw = clause.map ValueTerm.texts) :
    ConditionNameExact parent raw clause ↔ ExactWhen parent clause := by
  have hnot : ¬parent.isNumeric = true := by simp [htext]
  have htruth : ∀ s, ∃ b, truth parent (.text s)
      (conditionNameExpression parent (conditionTerms raw)) = some b ∧
        (b = true ↔ ∃ term ∈ clause, term.SatisfiedCut parent s) := by
    intro s
    rw [hterms]
    exact truth_name (.text s) hne fun term hterm =>
      ⟨_, truth_term_text hitem htext (hsuits term hterm), decide_eq_true_iff⟩
  obtain ⟨first, rest, rfl⟩ := List.exists_cons_of_ne_nil hne
  have hfirst : first.low.Suits parent :=
    (hsuits first (List.mem_cons_self ..)).literals _ (List.mem_cons_self ..)
  have hset : afterSet parent (conditionTerms raw) = some (.text (first.low.cutText parent)) := by
    have htype : mapPicToJavaType parent = .string := by
      simp [mapPicToJavaType, hitem.elementary, htext]
    rw [hterms, afterSet_cons hsuits, mapPicToJavaDefault_text hitem htext hfirst]
    simp [assigned, htype]
  have hholds : ∀ literal : ValueLiteral, literal.Suits parent →
      Holds parent (.text (literal.cutText parent)) :=
    fun literal hliteral => ⟨htext, length_cutText htext hliteral, bytes_cutText htext hliteral⟩
  constructor
  · intro hexact
    refine ⟨fun hnumeric => absurd hnumeric hnot, fun hnumeric => absurd hnumeric hnot,
      fun _ term hterm => ?_, fun _ term hterm literal hliteral hcut => ?_⟩
    · obtain rfl : first = term := Option.some.inj hterm
      obtain ⟨b, hb, -⟩ := htruth (first.low.cutText parent)
      exact (hexact.test _ (hholds _ hfirst) b hb).1 (hexact.set _ hset b hb)
    · obtain ⟨b, hb, hsatisfied⟩ := htruth (literal.cutText parent)
      have hliteral' := (hsuits term hterm).literals literal hliteral
      exact (hexact.test _ (hholds _ hliteral') b hb).1 (hsatisfied.2 hcut)
  · intro hwhen
    have htest : ∀ s, s.length = parent.picLength →
        ((∃ term ∈ first :: rest, term.SatisfiedCut parent s) ↔
          Satisfied parent (.text s) (first :: rest)) := by
      intro s hlength
      constructor
      · rintro ⟨term, hterm, hcut⟩
        -- only the cut literals themselves need the condition
        by_cases hliteral : ∃ literal ∈ term.literals, s = literal.cutText parent
        · obtain ⟨literal, hliteral, rfl⟩ := hliteral
          exact hwhen.cut htext term hterm literal hliteral ⟨term, hterm, hcut⟩
        · have hother : ∀ literal ∈ term.literals, s ≠ literal.cutText parent :=
            fun literal hmem heq => hliteral ⟨literal, hmem, heq⟩
          exact ⟨term, hterm,
            satisfied_of_satisfiedCut htext (hsuits term hterm) hlength hcut hother⟩
      · rintro ⟨term, hterm, hsatisfied⟩
        exact ⟨term, hterm, satisfiedCut_of_satisfied htext (hsuits term hterm) hlength hsatisfied⟩
    refine ⟨fun field hfield b hb => ?_, fun field hfield b hb => ?_⟩
    · cases field with
      | number unscaled => exact absurd hfield.1 hnot
      | text s =>
          obtain ⟨b', hb', hcut⟩ := htruth s
          obtain rfl := Option.some.inj (hb'.symm.trans hb)
          exact hcut.trans (htest s hfield.2.1)
    · obtain rfl := Option.some.inj (hset.symm.trans hfield)
      obtain ⟨b', hb', hcut⟩ := htruth (first.low.cutText parent)
      obtain rfl := Option.some.inj (hb'.symm.trans hb)
      exact hcut.2 ((htest _ (length_cutText htext hfirst)).2 (hwhen.first htext first rfl))

end Exact

/-! ### Some condition names -/

/-- `05 LEVEL-CODE PIC 9(2).` -/
def levelCode : DataItem := ⟨"LEVEL-CODE", .numeric, 2, 0, false, [], false⟩

/-- `05 RATE PIC 9V9.` -/
def rate : DataItem := ⟨"RATE", .numeric, 2, 1, false, [], false⟩

/-- `05 KIND PIC X(3).` -/
def kind : DataItem := ⟨"KIND", .alphanumeric, 3, 0, false, [], false⟩

def digits (whole : Text) (frac : Option Text) (hwhole : ∀ c ∈ whole, c.isDigit = true)
    (hfrac : ∀ c ∈ frac.getD [], c.isDigit = true) (hne : whole ++ frac.getD [] ≠ []) :
    ValueLiteral :=
  .number ⟨none, whole, frac, hwhole, hfrac, hne⟩

/-- `5 THRU 10, 20` -/
def levels : List ValueTerm :=
  [⟨digits ['5'] none (by decide) (by decide) (by decide),
      some ("THRU".toList, digits ['1', '0'] none (by decide) (by decide) (by decide))⟩,
    ⟨digits ['2', '0'] none (by decide) (by decide) (by decide), none⟩]

theorem levels_suit : ∀ term ∈ levels, term.Suits levelCode := by
  intro term hterm
  simp only [levels, List.mem_cons, List.not_mem_nil, or_false] at hterm
  rcases hterm with rfl | rfl
  · refine ⟨fun literal hliteral => ?_, fun word high h => ?_⟩
    · simp only [ValueTerm.literals, Option.map_some, Option.toList_some, List.mem_cons,
        List.not_mem_nil, or_false] at hliteral
      rcases hliteral with rfl | rfl
      · rfl
      · rfl
    · obtain ⟨rfl, -⟩ := Prod.mk.inj (Option.some.inj h)
      decide
  · refine ⟨fun literal hliteral => ?_, fun word high h => by cases h⟩
    obtain rfl := List.mem_singleton.1 hliteral
    rfl

theorem levels_joined : Joined (levels.flatMap ValueTerm.tokens)
    ['5', ' ', 'T', 'H', 'R', 'U', ' ', '1', '0', ',', ' ', '2', '0'] := by
  have hblank : isSeparator ' ' = true := by decide
  have hcomma : isSeparator ',' = true := by decide
  have hlast : Joined [['2', '0']] ([',', ' '] ++ (['2', '0'] ++ [])) :=
    .cons (by simp [hblank, hcomma]) (.nil nofun) nofun
  have hhigh : Joined [['1', '0'], ['2', '0']]
      ([' '] ++ (['1', '0'] ++ [',', ' ', '2', '0'])) :=
    .cons (by simp [hblank]) hlast (by simp [hcomma])
  have hthrough : Joined [['T', 'H', 'R', 'U'], ['1', '0'], ['2', '0']]
      ([' '] ++ (['T', 'H', 'R', 'U'] ++ [' ', '1', '0', ',', ' ', '2', '0'])) :=
    .cons (by simp [hblank]) hhigh (by simp [hblank])
  have hall : Joined [['5'], ['T', 'H', 'R', 'U'], ['1', '0'], ['2', '0']]
      ([] ++ (['5'] ++ [' ', 'T', 'H', 'R', 'U', ' ', '1', '0', ',', ' ', '2', '0'])) :=
    .cons nofun hthrough (by simp [hblank])
  exact hall

end CobolJava.ConditionName
