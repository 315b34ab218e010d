/-
**Conditions keep their precedence.**

The reader of conditions against the text of a condition.  It takes a leading NOT for the negation of
all that follows, searches AND before OR, and does not skip literals; so it returns an equivalent
condition when AND and OR stand together in parentheses only, NOT stands before the last operand of a
chain only, and no literal has an operator or a parenthesis that is not nested.

Main results:

* `Formula.ConditionPhrase.chain` — a chain of one connective, taken apart behind its first operand;
* `Formula.buildCondition_phrase` — an orderly phrase is read with its truth;
* `Formula.buildConditionFrom_equivalent` — **a tree whose phrase is orderly is read as an equivalent
  condition**;
* `Formula.leadingNot_negates_conjunction` — the condition `NOT A = 1 AND B-1 = 1`.
-/

import CobolJava.Transformation.ConditionScan

set_option autoImplicit false

namespace CobolJava.Formula

open Py.Chars

/-! ### Operands -/

theorem not_contains_stars {s : Text} (hquote : SourceFormat.Quoteless s) (hstar : '*' ∉ s) :
    contains (SourceFormat.maskQuoted s) ['*', '*'] = false := by
  have hmask := SourceFormat.maskQuoted_append hquote []
  rw [List.append_nil] at hmask
  rw [hmask, SourceFormat.maskQuoted, SourceFormat.maskFrom, List.append_nil, contains,
    List.any_eq_false]
  intro t ht hprefix
  have hmem : '*' ∈ t := (List.isPrefixOf_iff_prefix.1 hprefix).subset (List.mem_cons_self ..)
  exact hstar (((List.mem_tails _ _).1 ht).subset hmem)

/-- A text that starts with neither a letter nor a quote is no figurative constant and no call. -/
theorem constant_of_float {c : Char} {rest : Text} (halpha : c.isAlpha = false)
    (hsingle : c ≠ '\'') (hdouble : c ≠ '"')
    (hstars : contains (SourceFormat.maskQuoted (c :: rest)) ['*', '*'] = false)
    (hfloat : Py.isFloat (c :: rest) = true) :
    constant (c :: rest) = some (.literal (c :: rest) true (c = '-')) := by
  have hquoted : quotedBy '\'' (c :: rest) = false ∧ quotedBy '"' (c :: rest) = false := by
    simp [quotedBy, hsingle, hdouble]
  have hcanonical : (canonicalFiguratives.find? fun e => e.1 = upper (c :: rest)) = none := by
    have hletters : ∀ e ∈ canonicalFiguratives, e.1.head?.any Char.isAlpha = true := by decide
    rw [List.find?_eq_none]
    intro e he
    rw [decide_eq_true_eq]
    intro heq
    have hhead := hletters e he
    rw [heq, upper, List.map_cons, List.head?_cons, Option.any_some] at hhead
    rw [isAlpha_of_toUpper hhead] at halpha
    cases halpha
  have hfigurative : parseFigurativeConstant (c :: rest) = none := by
    rw [parseFigurativeConstant, hcanonical, allConstant,
      behindWord_of_not_alpha (by decide) (by decide) halpha]
    rfl
  have hintrinsic : intrinsicName (c :: rest) = none := by
    rw [intrinsicName, behindWord_of_not_alpha (by decide) (by decide) halpha, Option.bind_none]
  rw [constant, hquoted.1, hquoted.2, if_neg (by decide), hfigurative]
  simp only
  rw [hintrinsic]
  simp only
  rw [hstars, if_neg (by decide), hfloat, if_pos rfl, List.head?_cons]
  simp

/-- A numeral is a constant. -/
theorem constant_number (sign : LiteralSign) (l : UnsignedLiteral) :
    constant (sign.text ++ l.text) =
      some (.literal (sign.text ++ l.text) true (sign = .minus)) := by
  have hdecimal : Py.isFloat l.text = true :=
    Py.isFloat_decimal l.digits l.wholeDigits l.fractionDigits
  have hdrop : Py.dropSign l.text = l.text :=
    Py.dropSign_eq_self (l.head_ne (by decide)) (l.head_ne (by decide))
  have hstars : contains (SourceFormat.maskQuoted (sign.text ++ l.text)) ['*', '*'] = false := by
    refine not_contains_stars (fun c hc => ?_) fun hc => ?_
    · rcases number_chars sign l c hc with h | rfl | rfl | rfl
      · have halnum := isAlphanum_of_isDigit h
        exact ⟨ne_of_alphanum halnum (by decide), ne_of_alphanum halnum (by decide)⟩
      · decide
      · decide
      · decide
    · exact absurd (number_chars sign l _ hc) (by decide)
  have hsigned : ∀ s : Text, Py.dropSign s = l.text → Py.isFloat s = true := by
    intro s hs
    rw [Py.isFloat, hdrop] at hdecimal
    rw [Py.isFloat, hs]
    exact hdecimal
  cases sign with
  | none =>
      obtain ⟨c, rest, hl, hc⟩ := l.exists_cons
      have hminus := l.head_ne (d := '-') (by decide)
      rw [LiteralSign.text, List.nil_append] at hstars ⊢
      rw [hl] at hstars hdecimal hminus ⊢
      have hkind : c.isAlpha = false ∧ c ≠ '\'' ∧ c ≠ '"' := by
        rcases hc with h | rfl
        · have halnum := isAlphanum_of_isDigit h
          exact ⟨not_isAlpha_of_isDigit h, ne_of_alphanum halnum (by decide),
            ne_of_alphanum halnum (by decide)⟩
        · decide
      rw [constant_of_float hkind.1 hkind.2.1 hkind.2.2 hstars hdecimal]
      rw [List.head?_cons, ne_eq, Option.some.injEq] at hminus
      simp [hminus]
  | plus => exact constant_of_float (by decide) (by decide) (by decide) hstars (hsigned _ rfl)
  | minus => exact constant_of_float (by decide) (by decide) (by decide) hstars (hsigned _ rfl)

theorem constant_quoted (q : QuotedLiteral) : constant q.text = some (.literal q.raw false false) := by
  have hlast : q.text.getLast? = some q.quote := by
    rw [QuotedLiteral.text, ← List.cons_append, List.getLast?_concat]
  have hquoted : (quotedBy '\'' q.text || quotedBy '"' q.text) = true := by
    rw [quotedBy, quotedBy, hlast, QuotedLiteral.text, List.head?_cons]
    rcases q.isQuote with h | h
    · rw [h]
      decide
    · rw [h]
      decide
  rw [constant, if_pos hquoted, QuotedLiteral.text, inner, List.drop_one, List.tail_cons,
    List.dropLast_concat]

/-- An orderly operand is read as it is meant. -/
theorem buildExpression_operand {x : Operand} (h : x.orderly = true) {s : Text}
    (hs : strip s = x.text) : buildExpression s = x.expression := by
  rw [Operand.orderly, Bool.and_eq_true, Bool.and_eq_true] at h
  obtain ⟨c, rest, hx, hopen, -, -⟩ := x.start
  obtain ⟨fuel, hfuel⟩ : ∃ fuel, s.length = fuel + 1 := by
    refine Nat.exists_eq_succ_of_ne_zero fun hzero => ?_
    rw [List.length_eq_zero_iff.1 hzero, hx] at hs
    cases hs
  have henclosed : enclosed x.text = false := by
    have hhead : x.text.head? ≠ some '(' := by
      rw [hx, List.head?_cons, ne_eq, Option.some.injEq]
      exact hopen
    rw [enclosed, decide_eq_false hhead]
    simp
  rw [buildExpression, hfuel, buildExpressionFrom, hs, henclosed, if_neg (by decide)]
  cases x with
  | number sign l => rw [Operand.text, constant_number, Operand.expression]
  | quoted q => rw [Operand.text, constant_quoted, Operand.expression]
  | name n =>
      have hplain : (Phrase.name n).plain false = true := h.1.1
      have hconstant : constant n.text = none :=
        constant_eq_none (p := .name n) trivial hplain fun l => ⟨by simp, by simp⟩
      have hnot : startswith (upper n.text) ['N', 'O', 'T', ' '] = false :=
        not_startswith_not (.name n)
      have hminus : n.text.head? ≠ some '-' := n.first
      have hsplit : splitExpression n.text = none :=
        splitExpression_single (p := .name n) trivial hplain (by simp [Phrase.level])
      rw [Operand.text, hconstant]
      simp only
      rw [hnot, if_neg (by decide), if_neg fun h => hminus h.1, hsplit, Operand.expression]

/-! ### Chains -/

/-- A chain of one connective is its first operand and the rest of the chain. -/
structure Unchained (op : Connective) (l r first rest : ConditionPhrase) : Prop where
  /-- The first operand is orderly. -/
  firstOrderly : first.orderly = true
  /-- The rest is orderly. -/
  restOrderly : rest.orderly = true
  /-- The first operand is a comparison or in parentheses. -/
  firstLevel : first.level = 4
  /-- The rest is a chain or the last operand. -/
  restLevel : rest.level = op.level ∨ rest.level = r.level
  /-- The rest connects comparisons and parentheses when the last operand is one. -/
  restPrimary : r.level = 4 → rest.primary = true
  /-- The text of the chain. -/
  text : (ConditionPhrase.binary op l r).text =
    first.text ++ ' ' :: (op.operator.spelling ++ ' ' :: rest.text)
  /-- The truth of the chain. -/
  holds : ∀ comparisons, (ConditionPhrase.binary op l r).holds comparisons =
    op.holds (first.holds comparisons) (rest.holds comparisons)

theorem Connective.level_injective {op op' : Connective} (h : op.level = op'.level) : op = op' := by
  cases op <;> cases op' <;> first | rfl | exact absurd h (by decide)

theorem Connective.holds_assoc (op : Connective) (x y z : Bool) :
    op.holds (op.holds x y) z = op.holds x (op.holds y z) := by
  cases op with
  | and => exact Bool.and_assoc x y z
  | or => exact Bool.or_assoc x y z

theorem ConditionPhrase.primary_of_level {p : ConditionPhrase} (h : p.level = 4) :
    p.primary = true := by
  cases p with
  | comparison _ _ _ => rfl
  | paren _ => rfl
  | negate _ => cases h
  | binary op _ _ =>
      have := op.level_bounds
      rw [level] at h
      omega

theorem ConditionPhrase.orderly_binary {op : Connective} {l r : ConditionPhrase} :
    (binary op l r).orderly = true ↔
      l.orderly = true ∧ r.orderly = true ∧ l.primary = true ∧
        (l.level = 4 ∨ l.level = op.level) ∧ 3 ≤ r.level := by
  simp only [orderly, Bool.and_eq_true, Bool.or_eq_true, decide_eq_true_eq, and_assoc]

/-- An orderly chain taken apart behind its first operand. -/
theorem ConditionPhrase.unchained {op : Connective} {l r : ConditionPhrase}
    (h : (binary op l r).orderly = true) : ∃ first rest, Unchained op l r first rest := by
  induction l generalizing r with
  | comparison x relation y =>
      obtain ⟨hl, hr, -, -, -⟩ := orderly_binary.1 h
      exact ⟨_, r, hl, hr, rfl, .inr rfl, primary_of_level, rfl, fun _ => rfl⟩
  | paren p ih =>
      obtain ⟨hl, hr, -, -, -⟩ := orderly_binary.1 h
      exact ⟨_, r, hl, hr, rfl, .inr rfl, primary_of_level, rfl, fun _ => rfl⟩
  | negate p ih =>
      obtain ⟨-, -, hprimary, -, -⟩ := orderly_binary.1 h
      cases hprimary
  | binary op' l r' ihl ihr =>
      obtain ⟨hl, hr, hprimary, hlevel, hright⟩ := orderly_binary.1 h
      have hop : op' = op := by
        have := op'.level_bounds
        rw [level] at hlevel
        exact Connective.level_injective (hlevel.resolve_left (by omega))
      subst hop
      rw [primary, Bool.and_eq_true, decide_eq_true_eq] at hprimary
      -- the chain on the left is taken apart, its rest is connected with the last operand
      obtain ⟨first, rest, hchain⟩ := ihl hl
      refine ⟨first, binary op' rest r, hchain.firstOrderly, orderly_binary.2 ⟨hchain.restOrderly, hr,
        hchain.restPrimary hprimary.2, ?_, hright⟩, hchain.firstLevel, .inl rfl, fun hr4 => ?_, ?_,
        fun comparisons => ?_⟩
      · rcases hchain.restLevel with h | h
        · exact .inr h
        · exact .inl (h.trans hprimary.2)
      · rw [primary, hchain.restPrimary hprimary.2, hr4]
        rfl
      · rw [text, hchain.text, text]
        simp
      · rw [holds, hchain.holds, Connective.holds_assoc, holds]

/-! ### The splits -/

theorem splitAt_first (earlier later : List Operator) {operators : List Operator} {op : Operator}
    (hoperators : operators = earlier ++ op :: later) {s rest : Text} (hs : Passed op s)
    (hearlier : ∀ o ∈ earlier,
      findBinaryOperator (s ++ ' ' :: (op.spelling ++ ' ' :: rest)) o = none) :
    splitAt operators (s ++ ' ' :: (op.spelling ++ ' ' :: rest)) =
      some (s ++ [' '], op, ' ' :: rest) := by
  obtain ⟨htake, hdrop⟩ := take_drop_operator op s rest
  rw [splitAt, hoperators, List.findSome?_append, List.findSome?_eq_none_iff.2, Option.none_or,
    List.findSome?_cons, hs.find, Option.map_some, htake, hdrop]
  intro o ho
  rw [hearlier o ho, Option.map_none]

/-- The text of an orderly chain is split behind its first operand. -/
theorem splitAt_chain {op : Connective} {l r first rest : ConditionPhrase}
    (h : Unchained op l r first rest) (hlevel : 3 ≤ r.level) :
    splitAt logicalOperators (ConditionPhrase.binary op l r).text =
      some (first.text ++ [' '], op.operator, ' ' :: rest.text) := by
  have hfirst : ∀ op' : Connective, Passed op'.operator first.text := by
    intro op'
    have hbounds := op'.level_bounds
    have hfour := h.firstLevel
    exact ConditionPhrase.passed op' h.firstOrderly (by omega)
  rw [h.text]
  cases op with
  | and => exact splitAt_first [] [.or] rfl (hfirst .and) (by simp)
  | or =>
      -- AND is searched first, and the rest has none
      have hrest : Passed .and rest.text := by
        refine ConditionPhrase.passed .and h.restOrderly fun hand => ?_
        have hchain := h.restLevel
        simp only [Connective.level] at hand hchain
        omega
      have hand : Passed .and
          (first.text ++ ' ' :: (Operator.or.spelling ++ ' ' :: rest.text)) :=
        (hfirst .and).append ((Passed.of_none (by decide) (by decide)).append hrest)
      refine splitAt_first [.and] [] rfl (hfirst .or) fun o ho => ?_
      rw [List.mem_singleton.1 ho]
      exact hand.none

theorem splitAt_single {p : ConditionPhrase} (h : p.orderly = true) (hlevel : 3 ≤ p.level) :
    splitAt logicalOperators p.text = none := by
  have hnone : ∀ op : Connective, findBinaryOperator p.text op.operator = none := by
    intro op
    have hbounds := op.level_bounds
    exact (ConditionPhrase.passed op h (by omega)).none
  rw [splitAt, List.findSome?_eq_none_iff]
  intro op hop
  have hconnective : op = Connective.and.operator ∨ op = Connective.or.operator := by
    rw [logicalOperators, List.mem_cons, List.mem_singleton] at hop
    exact hop
  rcases hconnective with rfl | rfl
  · rw [hnone, Option.map_none]
  · rw [hnone, Option.map_none]

theorem Relation.operators_eq (relation : Relation) :
    ∃ later, relationalOperators = relation.earlier ++ relation.operator :: later := by
  cases relation with
  | notEqual => exact ⟨_, rfl⟩
  | notLess => exact ⟨_, rfl⟩
  | notGreater => exact ⟨_, rfl⟩
  | equal => exact ⟨_, rfl⟩
  | greater => exact ⟨_, rfl⟩
  | less => exact ⟨_, rfl⟩

/-- A comparison is split at its operator. -/
theorem splitAt_comparison {l r : Operand} {relation : Relation}
    (h : (ConditionPhrase.comparison l relation r).orderly = true) :
    splitAt relationalOperators (ConditionPhrase.comparison l relation r).text =
      some (l.text ++ [' '], relation.operator, ' ' :: r.text) := by
  rw [ConditionPhrase.orderly, Bool.and_eq_true, Bool.and_eq_true, Relation.apart, Bool.and_eq_true,
    List.all_eq_true] at h
  obtain ⟨⟨hl, hr⟩, hearlier, hown⟩ := h
  obtain ⟨later, hoperators⟩ := relation.operators_eq
  refine splitAt_first _ later hoperators (Operand.passed hl hown) fun op hop => ?_
  -- the operators that are searched before stand nowhere in the comparison
  have hspelling : ∀ op ∈ relation.earlier,
      findBinaryOperator relation.operator.spelling op = none := by
    cases relation <;> decide
  have havoid := hearlier op hop
  rw [Bool.and_eq_true] at havoid
  have hspelled : Passed op relation.operator.spelling :=
    .of_nested (hspelling op hop) (.of_plain fun c hc => (relation.operator.not_blank c hc).2)
  exact ((Operand.passed hl havoid.1).append (hspelled.append (Operand.passed hr havoid.2))).none

/-! ### The reader -/

theorem strip_append_space (s : Text) : strip (s ++ [' ']) = strip s :=
  strip_append_blank (by decide) s

theorem strip_space_cons (s : Text) : strip (' ' :: s) = strip s := by
  rw [← List.singleton_append]
  exact strip_blank_append (by decide) s

theorem read_paren (fuel : ℕ) {p : ConditionPhrase} (h : p.orderly = true) {s : Text}
    (hs : strip s = (ConditionPhrase.paren p).text) :
    buildConditionFrom (fuel + 1) s = buildConditionFrom fuel p.text := by
  have hparens : parenthesized (ConditionPhrase.paren p).text = true :=
    (ConditionPhrase.parenthesized_text (p := .paren p) h).2 ⟨p, rfl⟩
  rw [buildConditionFrom, hs, ConditionPhrase.rewriteSignConditions_text]
  rw [if_pos hparens, ConditionPhrase.text, inner_parens]

theorem read_negate (fuel : ℕ) {p : ConditionPhrase} (h : (ConditionPhrase.negate p).orderly = true)
    {s : Text} (hs : strip s = (ConditionPhrase.negate p).text) :
    buildConditionFrom (fuel + 1) s = (buildConditionFrom fuel p.text).map .negated := by
  have hparens : ¬ parenthesized (ConditionPhrase.negate p).text = true := by
    rw [ConditionPhrase.parenthesized_text h]
    rintro ⟨q, ⟨⟩⟩
  rw [buildConditionFrom, hs, ConditionPhrase.rewriteSignConditions_text]
  have hnot : startswith (upper (ConditionPhrase.negate p).text) ['N', 'O', 'T', ' '] = true := rfl
  rw [if_neg hparens, if_pos hnot]
  rfl

theorem read_comparison (fuel : ℕ) {l r : Operand} {relation : Relation}
    (h : (ConditionPhrase.comparison l relation r).orderly = true) {s : Text}
    (hs : strip s = (ConditionPhrase.comparison l relation r).text) :
    buildConditionFrom (fuel + 1) s =
      some (.comparison l.expression relation.operator r.expression) := by
  have hparens : ¬ parenthesized (ConditionPhrase.comparison l relation r).text = true := by
    rw [ConditionPhrase.parenthesized_text h]
    rintro ⟨q, ⟨⟩⟩
  have hoperands := h
  rw [ConditionPhrase.orderly, Bool.and_eq_true, Bool.and_eq_true] at hoperands
  have hleft : strip (l.text ++ [' ']) = l.text := by
    rw [strip_append_space, l.strip_text]
  have hright : strip (' ' :: r.text) = r.text := by
    rw [strip_space_cons, r.strip_text]
  rw [buildConditionFrom, hs, ConditionPhrase.rewriteSignConditions_text]
  rw [if_neg hparens, ConditionPhrase.not_startswith rfl, if_neg (by decide),
    splitAt_single h (by simp [ConditionPhrase.level]), splitAt_comparison h]
  simp only
  rw [buildExpression_operand hoperands.1.1 hleft, buildExpression_operand hoperands.1.2 hright]

theorem read_chain (fuel : ℕ) {op : Connective} {l r first rest : ConditionPhrase}
    (h : (ConditionPhrase.binary op l r).orderly = true) (hchain : Unchained op l r first rest)
    {s : Text} (hs : strip s = (ConditionPhrase.binary op l r).text) :
    buildConditionFrom (fuel + 1) s =
      (buildConditionFrom fuel (first.text ++ [' '])).bind fun left =>
        (buildConditionFrom fuel (' ' :: rest.text)).map fun right =>
          .logical left op.operator right := by
  have hparens : ¬ parenthesized (ConditionPhrase.binary op l r).text = true := by
    rw [ConditionPhrase.parenthesized_text h]
    rintro ⟨q, ⟨⟩⟩
  obtain ⟨-, -, hprimary, -, hright⟩ := ConditionPhrase.orderly_binary.1 h
  have hstart : startswith (upper (ConditionPhrase.binary op l r).text) ['N', 'O', 'T', ' '] = false :=
    ConditionPhrase.not_startswith (p := .binary op l r)
      (show l.leadingNot = false from ConditionPhrase.not_leadingNot hprimary)
  rw [buildConditionFrom, hs, ConditionPhrase.rewriteSignConditions_text]
  rw [if_neg hparens, hstart, if_neg (by decide), splitAt_chain hchain hright]

theorem ConditionPhrase.text_pos (p : ConditionPhrase) : 0 < p.text.length := by
  obtain ⟨c, hc, -⟩ := p.exists_last
  cases htext : p.text with
  | nil =>
      rw [htext] at hc
      cases hc
  | cons d rest => exact Nat.succ_pos _

theorem Condition.holds_logical (l r : Condition) (op : Connective)
    (comparisons : Expression → Operator → Expression → Bool) (fields : Text → Bool) :
    (Condition.logical l op.operator r).holds comparisons fields =
      op.holds (l.holds comparisons fields) (r.holds comparisons fields) := by
  cases op with
  | and => rw [holds, Connective.operator, if_pos rfl]; rfl
  | or => rw [holds, Connective.operator, if_neg (by decide)]; rfl

/-- An orderly phrase is read with its truth. -/
theorem buildCondition_phrase (n : ℕ) :
    ∀ (p : ConditionPhrase) (s : Text), p.orderly = true → strip s = p.text → p.text.length ≤ n →
      ∃ c : Condition, (∀ fuel, p.text.length ≤ fuel → buildConditionFrom fuel s = some c) ∧
        ∀ comparisons fields, c.holds comparisons fields = p.holds comparisons := by
  induction n with
  | zero =>
      intro p s _ _ hlen
      have := p.text_pos
      omega
  | succ n ih =>
      intro p s h hs hlen
      have hpos := p.text_pos
      have hfuel : ∀ fuel, p.text.length ≤ fuel → ∃ k, fuel = k + 1 ∧ p.text.length ≤ k + 1 := by
        intro fuel hle
        obtain ⟨k, rfl⟩ := Nat.exists_eq_succ_of_ne_zero (show fuel ≠ 0 by omega)
        exact ⟨k, rfl, hle⟩
      cases p with
      | comparison l relation r =>
          refine ⟨.comparison l.expression relation.operator r.expression, fun fuel hle => ?_,
            fun _ _ => rfl⟩
          obtain ⟨k, rfl, -⟩ := hfuel fuel hle
          exact read_comparison k h hs
      | paren p =>
          have hlonger : (ConditionPhrase.paren p).text.length = p.text.length + 2 := by
            simp [ConditionPhrase.text]
          obtain ⟨c, hread, hholds⟩ := ih p p.text h p.strip_text (by omega)
          refine ⟨c, fun fuel hle => ?_, hholds⟩
          obtain ⟨k, rfl, hk⟩ := hfuel fuel hle
          rw [read_paren (p := p) k h hs, hread k (by omega)]
      | negate p =>
          have hlonger : (ConditionPhrase.negate p).text.length = p.text.length + 4 := by
            simp [ConditionPhrase.text]
          have hinner := h
          rw [ConditionPhrase.orderly, Bool.and_eq_true] at hinner
          obtain ⟨c, hread, hholds⟩ := ih p p.text hinner.1 p.strip_text (by omega)
          refine ⟨.negated c, fun fuel hle => ?_, fun comparisons fields => ?_⟩
          · obtain ⟨k, rfl, hk⟩ := hfuel fuel hle
            rw [read_negate k h hs, hread k (by omega), Option.map_some]
          · rw [Condition.holds, hholds, ConditionPhrase.holds]
      | binary op l r =>
          obtain ⟨first, rest, hchain⟩ := ConditionPhrase.unchained h
          have hlonger : (ConditionPhrase.binary op l r).text.length =
              first.text.length + op.operator.spelling.length + rest.text.length + 2 := by
            rw [hchain.text]
            simp only [List.length_append, List.length_cons]
            omega
          have hrestPos := rest.text_pos
          obtain ⟨a, hreada, hholdsa⟩ := ih first (first.text ++ [' ']) hchain.firstOrderly
            (by rw [strip_append_space, first.strip_text]) (by omega)
          obtain ⟨b, hreadb, hholdsb⟩ := ih rest (' ' :: rest.text) hchain.restOrderly
            (by rw [strip_space_cons, rest.strip_text]) (by omega)
          refine ⟨.logical a op.operator b, fun fuel hle => ?_, fun comparisons fields => ?_⟩
          · obtain ⟨k, rfl, hk⟩ := hfuel fuel hle
            rw [read_chain k h hchain hs, hreada k (by omega), hreadb k (by omega), Option.bind_some,
              Option.map_some]
          · rw [Condition.holds_logical, hholdsa, hholdsb, hchain.holds]

/-- **A tree whose phrase is orderly is read as an equivalent condition.** -/
theorem buildConditionFrom_equivalent (t : ConditionTree) (h : t.phrase.orderly = true) :
    ∃ c : Condition, (∀ fuel, t.text.length ≤ fuel → buildConditionFrom fuel t.text = some c) ∧
      ∀ comparisons fields, c.holds comparisons fields = t.holds comparisons := by
  obtain ⟨c, hread, hholds⟩ :=
    buildCondition_phrase _ t.phrase t.text h t.phrase.strip_text le_rfl
  exact ⟨c, hread, fun comparisons fields => by rw [hholds, t.phrase_holds]⟩

/-- The numeral `1`. -/
def UnsignedLiteral.one : UnsignedLiteral := ⟨['1'], [], by decide, by decide, by decide⟩

/-- The literal `'(x = 1)'`. -/
def QuotedLiteral.equation : QuotedLiteral :=
  ⟨'\'', "(x = 1)".toList, by decide, by decide⟩

/-- `A = +1 OR B-1 <> '(x = 1)' OR NOT (A > 1 AND B-1 = 1)` is read as an equivalent condition. -/
theorem buildConditionFrom_equivalent_alternatives :
    ∃ c : Condition,
      (∀ fuel, 53 ≤ fuel → buildConditionFrom fuel
        "A = +1 OR B-1 <> '(x = 1)' OR NOT (A > 1 AND B-1 = 1)".toList = some c) ∧
      ∀ comparisons fields, c.holds comparisons fields =
        (ConditionTree.binary .or
          (.binary .or (.comparison (.name .a) .equal (.number .plus .one))
            (.comparison (.name .b1) .notEqual (.quoted .equation)))
          (.negate (.binary .and (.comparison (.name .a) .greater (.number .none .one))
            (.comparison (.name .b1) .equal (.number .none .one))))).holds comparisons :=
  buildConditionFrom_equivalent (.binary .or
    (.binary .or (.comparison (.name .a) .equal (.number .plus .one))
      (.comparison (.name .b1) .notEqual (.quoted .equation)))
    (.negate (.binary .and (.comparison (.name .a) .greater (.number .none .one))
      (.comparison (.name .b1) .equal (.number .none .one))))) (by decide)

/-- The condition `NOT A = 1 AND B-1 = 1` is read as the negation of the conjunction. -/
theorem leadingNot_negates_conjunction :
    ¬ ∀ t : ConditionTree, ∃ c : Condition,
      (∀ fuel, t.text.length ≤ fuel → buildConditionFrom fuel t.text = some c) ∧
        ∀ comparisons fields, c.holds comparisons fields = t.holds comparisons := by
  intro h
  have hread : buildConditionFrom 23 (ConditionTree.binary .and
      (.negate (.comparison (.name .a) .equal (.number .none .one)))
      (.comparison (.name .b1) .equal (.number .none .one))).text =
    some (.negated (.logical
      (.comparison (.fieldReference ['A']) .equal (.literal ['1'] true false)) .and
      (.comparison (.fieldReference ['B', '-', '1']) .equal (.literal ['1'] true false)))) := by
    decide +kernel
  obtain ⟨c, hc, hholds⟩ := h (.binary .and
    (.negate (.comparison (.name .a) .equal (.number .none .one)))
    (.comparison (.name .b1) .equal (.number .none .one)))
  rw [hc 23 (by decide), Option.some.injEq] at hread
  have hfalse := hholds (fun _ _ _ => false) fun _ => false
  rw [hread] at hfalse
  exact absurd hfalse (by decide)

end CobolJava.Formula
