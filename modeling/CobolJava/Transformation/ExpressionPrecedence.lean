/-
**Arithmetic expressions keep their precedence.**

The reader of expressions against the text of an arithmetic expression: it returns an expression with
the value of the tree when every name is read as a name, no sum or difference starts with a minus
sign, and a minus sign behind a binary operator has an operand that starts with a letter or a digit.
A sum that starts with a minus sign is read as the negation of the whole sum.

Main results:

* `Formula.constant_eq_none` — a phrase that is no literal is no constant;
* `Formula.Phrase.dropMinus_spec` — a product that starts with a minus sign is a negated product;
* `Formula.buildExpressionFrom_value` — a readable phrase is read with its value;
* `Formula.buildExpression_value` — **a tree whose phrase is readable is read with its value**;
* `Formula.leadingMinus_negates_sum` — the sum `-A + B`.
-/

import CobolJava.Transformation.ExpressionScan

set_option autoImplicit false

namespace CobolJava.Formula

open Py (isSpace isFloat)
open Py.Chars

/-! ### How a phrase starts and ends -/

theorem DataName.exists_cons (n : DataName) :
    ∃ c rest, n.text = c :: rest ∧ c.isAlphanum = true := by
  obtain ⟨d, hd, -⟩ := n.letter
  cases htext : n.text with
  | nil => rw [htext] at hd; cases hd
  | cons c rest =>
      have hmem : c ∈ n.text := by rw [htext]; exact List.mem_cons_self ..
      refine ⟨c, rest, rfl, (n.chars c hmem).resolve_right ?_⟩
      rintro rfl
      exact n.first (by rw [htext]; rfl)

theorem UnsignedLiteral.exists_cons (l : UnsignedLiteral) :
    ∃ c rest, l.text = c :: rest ∧ (c.isDigit = true ∨ c = '.') := by
  cases htext : l.text with
  | nil =>
      have hempty := l.digits
      rw [UnsignedLiteral.text] at htext
      split_ifs at htext with hfraction
      · exact absurd (by rw [htext, hfraction]; rfl) hempty
      · simp at htext
  | cons c rest => exact ⟨c, rest, rfl, l.text_chars c (by rw [htext]; exact List.mem_cons_self ..)⟩

/-- How the text of a phrase starts. -/
inductive Start (p : Phrase) : Prop
  | name (n : DataName) (rest : Text) (htext : p.text = n.text ++ rest)
      (hrest : rest = [] ∨ rest.head? = some ' ') (hminus : p.leadingMinus = false) : Start p
  | literal (l : UnsignedLiteral) (rest : Text) (htext : p.text = l.text ++ rest)
      (hminus : p.leadingMinus = false) : Start p
  | minus (rest : Text) (htext : p.text = '-' :: rest) (hminus : p.leadingMinus = true) : Start p
  | paren (q : Phrase) (rest : Text) (htext : p.text = '(' :: (q.text ++ ')' :: rest))
      (hrest : p = .paren q ∨ rest ≠ []) (hminus : p.leadingMinus = false) : Start p

theorem Phrase.start (p : Phrase) : Start p := by
  induction p with
  | name n => exact .name n [] (List.append_nil _).symm (.inl rfl) rfl
  | literal l => exact .literal l [] (List.append_nil _).symm rfl
  | paren p ih => exact .paren p [] rfl (.inl rfl) rfl
  | negate p ih => exact .minus p.text rfl rfl
  | binary op l r ihl ihr =>
      have htext : (Phrase.binary op l r).text = l.text ++ (' ' :: op.sign :: ' ' :: r.text) := rfl
      cases ihl with
      | name n rest hl hrest hminus =>
          refine .name n (rest ++ (' ' :: op.sign :: ' ' :: r.text)) ?_ ?_ hminus
          · rw [htext, hl, List.append_assoc]
          · rcases hrest with rfl | hrest
            · exact .inr rfl
            · rw [List.head?_append, hrest]
              exact .inr rfl
      | literal m rest hl hminus =>
          exact .literal m (rest ++ (' ' :: op.sign :: ' ' :: r.text))
            (by rw [htext, hl, List.append_assoc]) hminus
      | minus rest hl hminus =>
          exact .minus (rest ++ (' ' :: op.sign :: ' ' :: r.text)) (by rw [htext, hl]; rfl) hminus
      | paren q rest hl hrest hminus =>
          refine .paren q (rest ++ (' ' :: op.sign :: ' ' :: r.text)) ?_ (.inr (by simp)) hminus
          rw [htext, hl]
          simp

theorem Phrase.exists_cons (p : Phrase) :
    ∃ c rest, p.text = c :: rest ∧ (c.isAlphanum = true ∨ c = '.' ∨ c = '-' ∨ c = '(') := by
  cases p.start with
  | name n rest htext _ _ =>
      obtain ⟨c, rest', hn, hc⟩ := n.exists_cons
      exact ⟨c, rest' ++ rest, by rw [htext, hn]; rfl, .inl hc⟩
  | literal l rest htext _ =>
      obtain ⟨c, rest', hl, hc⟩ := l.exists_cons
      refine ⟨c, rest' ++ rest, by rw [htext, hl]; rfl, ?_⟩
      rcases hc with hc | hc
      · exact .inl (isAlphanum_of_isDigit hc)
      · exact .inr (.inl hc)
  | minus rest htext _ => exact ⟨'-', rest, htext, .inr (.inr (.inl rfl))⟩
  | paren q rest htext _ _ => exact ⟨'(', _, htext, .inr (.inr (.inr rfl))⟩

/-- The last character of a phrase. -/
theorem Phrase.exists_last (p : Phrase) :
    ∃ c, p.text.getLast? = some c ∧ (c.isAlphanum = true ∨ c = ')') := by
  induction p with
  | name n =>
      obtain ⟨d, rest, hn, -⟩ := n.exists_cons
      cases hlast : n.text.getLast? with
      | none => rw [List.getLast?_eq_none_iff.1 hlast] at hn; cases hn
      | some c =>
          refine ⟨c, hlast, .inl ((n.chars c (List.mem_of_getLast? hlast)).resolve_right ?_)⟩
          rintro rfl
          exact n.last hlast
  | literal l =>
      have hdigit : ∀ s : Text, s ≠ [] → (∀ c ∈ s, c.isDigit = true) →
          ∃ c, s.getLast? = some c ∧ (c.isAlphanum = true ∨ c = ')') := by
        intro s hne hs
        exact ⟨_, List.getLast?_eq_some_getLast hne,
          .inl (isAlphanum_of_isDigit (hs _ (List.getLast_mem hne)))⟩
      rw [Phrase.text, UnsignedLiteral.text]
      split_ifs with hfraction
      · refine hdigit l.whole ?_ l.wholeDigits
        have := l.digits
        rwa [hfraction, List.append_nil] at this
      · obtain ⟨c, hc, hkind⟩ := hdigit l.fraction hfraction l.fractionDigits
        refine ⟨c, ?_, hkind⟩
        rw [List.getLast?_append, List.getLast?_cons, hc]
        rfl
  | paren p ih => exact ⟨')', by rw [Phrase.text, ← List.cons_append, List.getLast?_concat], .inr rfl⟩
  | negate p ih =>
      obtain ⟨c, hc, hkind⟩ := ih
      refine ⟨c, ?_, hkind⟩
      rw [Phrase.text, List.getLast?_cons, hc]
      rfl
  | binary op l r ihl ihr =>
      obtain ⟨c, hc, hkind⟩ := ihr
      refine ⟨c, ?_, hkind⟩
      rw [Phrase.text, List.getLast?_append, List.getLast?_cons, List.getLast?_cons,
        List.getLast?_cons, hc]
      rfl

theorem Phrase.strip_text (p : Phrase) : strip p.text = p.text := by
  obtain ⟨c, rest, htext, hc⟩ := p.exists_cons
  obtain ⟨d, hlast, hd⟩ := p.exists_last
  refine strip_of_ends (fun e he => ?_) fun e he => ?_
  · rw [htext, List.head?_cons, Option.mem_some_iff] at he
    rw [← he]
    rcases hc with hc | rfl | rfl | rfl
    · exact isSpace_of_alphanum hc
    · decide
    · decide
    · decide
  · rw [hlast, Option.mem_some_iff] at he
    rw [← he]
    rcases hd with hd | rfl
    · exact isSpace_of_alphanum hd
    · decide

/-- The characters of a phrase. -/
theorem Phrase.text_chars (p : Phrase) :
    ∀ c ∈ p.text, c.isAlphanum = true ∨ c ∈ ['-', '.', ' ', '(', ')', '+', '*', '/'] := by
  induction p with
  | name n =>
      intro c hc
      rcases n.chars c hc with h | rfl
      · exact .inl h
      · exact .inr (by decide)
  | literal l =>
      intro c hc
      rcases l.text_chars c hc with h | rfl
      · exact .inl (isAlphanum_of_isDigit h)
      · exact .inr (by decide)
  | paren p ih =>
      intro c hc
      rcases List.mem_cons.1 hc with rfl | hc
      · exact .inr (by decide)
      · rcases List.mem_append.1 hc with hc | hc
        · exact ih c hc
        · rw [List.mem_singleton.1 hc]
          exact .inr (by decide)
  | negate p ih =>
      intro c hc
      rcases List.mem_cons.1 hc with rfl | hc
      · exact .inr (by decide)
      · exact ih c hc
  | binary op l r ihl ihr =>
      have hsign : op.sign ∈ ['-', '.', ' ', '(', ')', '+', '*', '/'] := by cases op <;> decide
      intro c hc
      rcases List.mem_append.1 hc with hc | hc
      · exact ihl c hc
      · rcases List.mem_cons.1 hc with rfl | hc
        · exact .inr (by decide)
        · rcases List.mem_cons.1 hc with rfl | hc
          · exact .inr hsign
          · rcases List.mem_cons.1 hc with rfl | hc
            · exact .inr (by decide)
            · exact ihr c hc

/-! ### Outer parentheses -/

/-- A phrase in parentheses is enclosed, no other is. -/
theorem Phrase.enclosed_text (p : Phrase) : enclosed p.text = true ↔ ∃ q, p = .paren q := by
  constructor
  · intro h
    rw [enclosed, Bool.and_eq_true, Bool.and_eq_true, Bool.and_eq_true, Bool.and_eq_true] at h
    obtain ⟨⟨⟨⟨-, hfirst⟩, -⟩, hcloses⟩, -⟩ := h
    rw [decide_eq_true_eq] at hfirst
    cases p.start with
    | name n rest htext _ _ =>
        obtain ⟨c, rest', hn, hc⟩ := n.exists_cons
        rw [htext, hn, List.cons_append, List.head?_cons, Option.some.injEq] at hfirst
        rw [hfirst] at hc
        exact absurd hc (by decide)
    | literal l rest htext _ =>
        obtain ⟨c, rest', hl, hc⟩ := l.exists_cons
        rw [htext, hl, List.cons_append, List.head?_cons, Option.some.injEq] at hfirst
        rw [hfirst] at hc
        exact absurd hc (by decide)
    | minus rest htext _ =>
        rw [htext] at hfirst
        exact absurd hfirst (by simp)
    | paren q rest htext hrest _ =>
        rcases hrest with rfl | hrest
        · exact ⟨q, rfl⟩
        · rw [htext, Infix.not_closesLast q.text_nested hrest] at hcloses
          cases hcloses
  · rintro ⟨q, rfl⟩
    obtain ⟨hcloses, hdepth⟩ := Infix.closesLast_parens q.text_nested
    rw [enclosed, Phrase.text, hcloses, hdepth, ← List.cons_append, List.getLast?_concat]
    simp

theorem inner_parens (s : Text) : inner ('(' :: (s ++ [')'])) = s := by
  rw [inner, List.drop_one, List.tail_cons, List.dropLast_concat]

/-! ### Constants -/

theorem Phrase.quotedBy_text (p : Phrase) {quote : Char} (hquote : quote = '\'' ∨ quote = '"') :
    quotedBy quote p.text = false := by
  obtain ⟨c, rest, htext, hc⟩ := p.exists_cons
  rw [quotedBy, htext, List.head?_cons, Bool.and_eq_false_iff]
  refine .inl (decide_eq_false ?_)
  rintro ⟨⟩
  rcases hquote with rfl | rfl
  · exact absurd hc (by decide)
  · exact absurd hc (by decide)

theorem isAlpha_of_toUpper {c : Char} (h : c.toUpper.isAlpha = true) : c.isAlpha = true := by
  unfold Char.toUpper at h
  split at h
  · rename_i hlower
    have hlow : c.isLower = true := by
      simp only [Char.isLower, Bool.and_eq_true, decide_eq_true_eq]
      exact hlower
    simp [Char.isAlpha, hlow]
  · exact h

/-- A name, with nothing or a blank behind it, does not start with a reserved word and white
space. -/
theorem DataName.behindWord_text (n : DataName) {word rest : Text} (hword : word ∈ reservedWords)
    (hletters : ∀ c ∈ word, c.isAlpha = true) (hrest : rest = [] ∨ rest.head? = some ' ') :
    behindWord word (n.text ++ rest) = none := by
  rw [behindWord, if_neg]
  rintro ⟨hupper, hspace⟩
  rcases lt_trichotomy n.text.length word.length with hlt | heq | hgt
  · -- the word would hold the blank behind the name
    have hmem : ' ' ∈ word := by
      rcases hrest with rfl | hrest
      · have := congrArg List.length hupper
        rw [List.append_nil, upper, List.length_map, List.length_take] at this
        omega
      · obtain ⟨rest', rfl⟩ : ∃ rest', rest = ' ' :: rest' := by
          cases rest with
          | nil => cases hrest
          | cons c rest' => exact ⟨rest', by rw [Option.some.inj hrest]⟩
        obtain ⟨k, hk⟩ := Nat.exists_eq_succ_of_ne_zero
          (show word.length - n.text.length ≠ 0 by omega)
        rw [← hupper, upper, List.mem_map]
        refine ⟨' ', ?_, by decide⟩
        rw [List.take_append, List.mem_append, hk, List.take_succ_cons]
        exact .inr (List.mem_cons_self ..)
    exact absurd (hletters _ hmem) (by decide)
  · rw [List.take_append_of_le_length heq.ge, ← heq, List.take_length] at hupper
    exact n.free (by rw [hupper]; exact hword)
  · -- the white space would stand in the name
    obtain ⟨c, tail, hdrop⟩ : ∃ c tail, n.text.drop word.length = c :: tail :=
      List.exists_cons_of_ne_nil (by rw [ne_eq, List.drop_eq_nil_iff]; omega)
    have hmem : c ∈ n.text := List.mem_of_mem_drop (i := word.length) (by rw [hdrop]; simp)
    rw [List.drop_append_of_le_length hgt.le, hdrop, List.cons_append, List.head?_cons,
      Option.any_some] at hspace
    rcases n.chars c hmem with h | rfl
    · rw [isSpace_of_alphanum h] at hspace
      cases hspace
    · exact absurd hspace (by decide)

theorem behindWord_of_not_alpha {word : Text} (hletters : ∀ c ∈ word, c.isAlpha = true)
    (hne : word ≠ []) {c : Char} (hc : c.isAlpha = false) (rest : Text) :
    behindWord word (c :: rest) = none := by
  rw [behindWord, if_neg]
  rintro ⟨hupper, -⟩
  obtain ⟨w, word', rfl⟩ := List.exists_cons_of_ne_nil hne
  rw [List.length_cons, List.take_succ_cons, upper, List.map_cons, List.cons.injEq] at hupper
  have halpha : c.isAlpha = true := isAlpha_of_toUpper (by
    rw [hupper.1]
    exact hletters w (List.mem_cons_self ..))
  rw [hc] at halpha
  cases halpha

theorem Phrase.behindWord_text (p : Phrase) {word : Text} (hword : word ∈ reservedWords)
    (hletters : ∀ c ∈ word, c.isAlpha = true) (hne : word ≠ []) : behindWord word p.text = none := by
  cases p.start with
  | name n rest htext hrest _ =>
      rw [htext]
      exact n.behindWord_text hword hletters hrest
  | literal l rest htext _ =>
      obtain ⟨c, rest', hl, hc⟩ := l.exists_cons
      rw [htext, hl, List.cons_append]
      refine behindWord_of_not_alpha hletters hne ?_ _
      rcases hc with hc | rfl
      · exact not_isAlpha_of_isDigit hc
      · decide
  | minus rest htext _ =>
      rw [htext]
      exact behindWord_of_not_alpha hletters hne (by decide) _
  | paren q rest htext _ _ =>
      rw [htext]
      exact behindWord_of_not_alpha hletters hne (by decide) _

/-- A phrase that is no name is no figurative constant. -/
theorem Phrase.parseFigurativeConstant_text {p : Phrase} (hplain : p.plain false = true) :
    parseFigurativeConstant p.text = none := by
  have hall : allConstant p.text = none := by
    rw [allConstant, p.behindWord_text (by decide) (by decide) (by decide), Option.bind_none]
  have hletters : ∀ e ∈ canonicalFiguratives, ' ' ∉ e.1 ∧ e.1.head?.any Char.isAlpha = true := by
    decide
  have hother : (' ' ∈ p.text ∨ ∃ c rest, p.text = c :: rest ∧ c.isAlpha = false) →
      parseFigurativeConstant p.text = none := by
    intro htext
    have hfind : (canonicalFiguratives.find? fun e => e.1 = upper p.text) = none := by
      rw [List.find?_eq_none]
      intro e he
      rw [decide_eq_true_eq]
      intro heq
      rcases htext with hmem | ⟨c, rest, hcons, hc⟩
      · refine (hletters e he).1 ?_
        rw [heq, upper, List.mem_map]
        exact ⟨' ', hmem, by decide⟩
      · have hhead := (hletters e he).2
        rw [heq, hcons, upper, List.map_cons, List.head?_cons, Option.any_some] at hhead
        rw [isAlpha_of_toUpper hhead] at hc
        cases hc
    rw [parseFigurativeConstant, hall, hfind]
    rfl
  cases p with
  | name n =>
      rw [plain, readsName, Bool.and_eq_true, decide_eq_true_eq] at hplain
      exact hplain.2
  | literal l =>
      obtain ⟨c, rest, hl, hc⟩ := l.exists_cons
      refine hother (.inr ⟨c, rest, hl, ?_⟩)
      rcases hc with hc | rfl
      · exact not_isAlpha_of_isDigit hc
      · decide
  | paren q => exact hother (.inr ⟨'(', _, rfl, by decide⟩)
  | negate q => exact hother (.inr ⟨'-', _, rfl, by decide⟩)
  | binary op l r => exact hother (.inl (by simp [Phrase.text]))

/-- No two asterisks stand next to each other. -/
theorem Phrase.stars_apart (p : Phrase) :
    p.text.IsChain fun c d => c ≠ '*' ∨ d ≠ '*' := by
  have hfree : ∀ s : Text, '*' ∉ s → s.IsChain fun c d => c ≠ '*' ∨ d ≠ '*' := by
    intro s hs
    refine (List.pairwise_of_forall_mem_list fun c hc d _ => .inl ?_).isChain
    rintro rfl
    exact hs hc
  have hstart : ∀ q : Phrase, ∀ d ∈ q.text.head?, d ≠ '*' := by
    intro q d hd
    obtain ⟨c, rest, htext, hc⟩ := q.exists_cons
    rw [htext, List.head?_cons, Option.mem_some_iff] at hd
    rw [← hd]
    rintro rfl
    exact absurd hc (by decide)
  induction p with
  | name n =>
      refine hfree _ fun hmem => ?_
      exact absurd (n.chars _ hmem) (by decide)
  | literal l =>
      refine hfree _ fun hmem => ?_
      exact absurd (l.text_chars _ hmem) (by decide)
  | paren p ih =>
      rw [Phrase.text, List.isChain_cons, List.isChain_append]
      refine ⟨fun d _ => .inl (by decide), ih, List.isChain_singleton _, fun c _ d hd => .inr ?_⟩
      rw [List.head?_cons, Option.mem_some_iff] at hd
      rw [← hd]
      decide
  | negate p ih =>
      rw [Phrase.text, List.isChain_cons]
      exact ⟨fun d _ => .inl (by decide), ih⟩
  | binary op l r ihl ihr =>
      rw [Phrase.text, List.isChain_append, List.isChain_cons, List.isChain_cons, List.isChain_cons]
      refine ⟨ihl, ⟨fun d _ => .inl (by decide), fun d hd => .inr ?_, fun d _ => .inl (by decide),
        ihr⟩, fun c _ d hd => .inr ?_⟩
      · rw [List.head?_cons, Option.mem_some_iff] at hd
        rw [← hd]
        decide
      · rw [List.head?_cons, Option.mem_some_iff] at hd
        rw [← hd]
        decide

theorem Phrase.not_contains_stars (p : Phrase) :
    contains (SourceFormat.maskQuoted p.text) ['*', '*'] = false := by
  have hquoteless : SourceFormat.Quoteless p.text := by
    intro c hc
    rcases p.text_chars c hc with h | h
    · exact ⟨ne_of_alphanum h (by decide), ne_of_alphanum h (by decide)⟩
    · constructor
      · rintro rfl
        exact absurd h (by decide)
      · rintro rfl
        exact absurd h (by decide)
  have hmask := SourceFormat.maskQuoted_append hquoteless []
  rw [List.append_nil] at hmask
  rw [hmask, SourceFormat.maskQuoted, SourceFormat.maskFrom, List.append_nil, contains,
    List.any_eq_false]
  intro t ht hprefix
  have hinfix : ['*', '*'] <:+: p.text :=
    (List.isPrefixOf_iff_prefix.1 hprefix).isInfix.trans ((List.mem_tails _ _).1 ht).isInfix
  have := p.stars_apart.infix hinfix
  simp at this

/-- A phrase that is neither a literal nor a negated one is no number. -/
theorem Phrase.isFloat_text {p : Phrase} (hp : p.WellFormed) (hplain : p.plain false = true)
    (hliteral : ∀ l, p ≠ .literal l ∧ p ≠ .negate (.literal l)) : isFloat p.text = false := by
  have hodd : ∀ c ∈ p.text, Py.isFloatChar c = false → isFloat p.text = false := by
    intro c hc hkind
    rw [Bool.eq_false_iff]
    intro hfloat
    rw [Py.isFloat_chars hfloat c hc] at hkind
    cases hkind
  have hname : ∀ n : DataName, readsName n = true → isFloat n.text = false := by
    intro n hn
    rw [readsName, Bool.and_eq_true, Bool.and_eq_true, Bool.not_eq_true'] at hn
    exact hn.1.2
  cases p with
  | name n => exact hname n hplain
  | literal l => exact absurd rfl (hliteral l).1
  | paren q => exact hodd '(' (List.mem_cons_self ..) (by decide)
  | negate q =>
      rw [plain, Bool.and_eq_true] at hplain
      cases q with
      | name n =>
          obtain ⟨c, rest, hn, hc⟩ := n.exists_cons
          have hfloat := hname n hplain.1
          rw [Phrase.text, Phrase.text, Py.isFloat_minus, hfloat]
          · rw [hn, List.head?_cons, ne_eq, Option.some.injEq]
            exact ne_of_alphanum hc (by decide)
          · rw [hn, List.head?_cons, ne_eq, Option.some.injEq]
            exact ne_of_alphanum hc (by decide)
      | literal l => exact absurd rfl (hliteral l).2
      | paren q => exact hodd '(' (by simp [Phrase.text]) (by decide)
      | negate q => exact absurd hp.1 (by simp [level])
      | binary op l r => exact hodd ' ' (by simp [Phrase.text]) (by decide)
  | binary op l r => exact hodd ' ' (by simp [Phrase.text]) (by decide)

theorem constant_eq_none {p : Phrase} (hp : p.WellFormed) (hplain : p.plain false = true)
    (hliteral : ∀ l, p ≠ .literal l ∧ p ≠ .negate (.literal l)) : constant p.text = none := by
  have hintrinsic : intrinsicName p.text = none := by
    rw [intrinsicName, p.behindWord_text (by decide) (by decide) (by decide), Option.bind_none]
  rw [constant, p.quotedBy_text (.inl rfl), p.quotedBy_text (.inr rfl), if_neg (by decide),
    Phrase.parseFigurativeConstant_text hplain]
  simp only
  rw [hintrinsic]
  simp only
  rw [p.not_contains_stars, if_neg (by decide), Phrase.isFloat_text hp hplain hliteral,
    if_neg (by decide)]

/-- Literals and negated literals are constants. -/
theorem constant_literal {p : Phrase} {l : UnsignedLiteral}
    (h : p = .literal l ∨ p = .negate (.literal l)) :
    constant p.text = some (.literal p.text true (p.text.head? = some '-')) := by
  have hplain : p.plain false = true := by
    rcases h with rfl | rfl <;> rfl
  have hintrinsic : intrinsicName p.text = none := by
    rw [intrinsicName, p.behindWord_text (by decide) (by decide) (by decide), Option.bind_none]
  have hdecimal : isFloat l.text = true :=
    Py.isFloat_decimal l.digits l.wholeDigits l.fractionDigits
  have hfloat : isFloat p.text = true := by
    rcases h with rfl | rfl
    · exact hdecimal
    · obtain ⟨c, rest, hl, hc⟩ := l.exists_cons
      rw [Phrase.text, Phrase.text, Py.isFloat_minus, hdecimal]
      · rw [hl, List.head?_cons, ne_eq, Option.some.injEq]
        rintro rfl
        exact absurd hc (by decide)
      · rw [hl, List.head?_cons, ne_eq, Option.some.injEq]
        rintro rfl
        exact absurd hc (by decide)
  rw [constant, p.quotedBy_text (.inl rfl), p.quotedBy_text (.inr rfl), if_neg (by decide),
    Phrase.parseFigurativeConstant_text hplain]
  simp only
  rw [hintrinsic]
  simp only
  rw [p.not_contains_stars, if_neg (by decide), hfloat, if_pos rfl]

/-! ### Minus signs -/

/-- A phrase without the minus sign it starts with. -/
def Phrase.dropMinus : Phrase → Phrase
  | .negate p => p
  | .binary op l r => .binary op l.dropMinus r
  | p => p

theorem Phrase.plain_early {p : Phrase} {late : Bool} (h : p.plain late = true) :
    p.plain false = true := by
  induction p with
  | negate p ih =>
      rw [plain, Bool.and_eq_true] at h
      rw [plain, h.1]
      rfl
  | binary op l r ihl ihr =>
      rw [plain, Bool.and_eq_true] at h
      rw [plain, ihl h.1, h.2]
      rfl
  | _ => exact h

theorem Phrase.level_pos (p : Phrase) : 1 ≤ p.level := by
  cases p with
  | binary op l r => exact op.level_pos
  | _ => simp [level]

/-- What a product that starts with a minus sign is without it. -/
theorem Phrase.dropMinus_spec {p : Phrase} (hp : p.WellFormed) (hplain : p.plain false = true)
    (hminus : p.leadingMinus = true) (hlevel : 2 ≤ p.level) :
    p.text = '-' :: p.dropMinus.text ∧ p.dropMinus.WellFormed ∧ p.dropMinus.plain false = true ∧
      p.level ≤ p.dropMinus.level ∧
      ∀ assignment, p.value assignment = (p.dropMinus.value assignment).map (- ·) := by
  induction p with
  | name n => cases hminus
  | literal l => cases hminus
  | paren p ih => cases hminus
  | negate p ih =>
      rw [plain, Bool.and_eq_true] at hplain
      have h := hp.1
      exact ⟨rfl, hp.2, hplain.1, Nat.le_of_succ_le h, fun _ => rfl⟩
  | binary op l r ihl ihr =>
      obtain ⟨hl, hr, hwl, hwr⟩ := hp
      rw [plain, Bool.and_eq_true] at hplain
      rw [level] at hlevel
      obtain ⟨htext, hwf, hplain', hlevel', hvalue⟩ :=
        ihl hwl hplain.1 hminus (hlevel.trans hl)
      refine ⟨?_, ⟨hl.trans hlevel', hr, hwf, hwr⟩, ?_, le_rfl, fun assignment => ?_⟩
      · rw [Phrase.text, htext]
        rfl
      · rw [dropMinus, plain, hplain', hplain.2]
        rfl
      · rw [value, hvalue, dropMinus, value]
        cases hx : l.dropMinus.value assignment with
        | none => rfl
        | some x =>
            simp only [Option.map_some, Option.bind_some]
            cases hy : r.value assignment with
            | none => rfl
            | some y =>
                simp only [Option.bind_some]
                cases op with
                | add => exact absurd hlevel (by decide)
                | subtract => exact absurd hlevel (by decide)
                | multiply =>
                    simp only [ArithmeticOperator.operator, Operator.apply, Option.map_some]
                    rw [neg_mul]
                | divide =>
                    simp only [ArithmeticOperator.operator, Operator.apply]
                    split_ifs
                    · rfl
                    · rw [Option.map_some, neg_div]

theorem Phrase.head_text_minus (p : Phrase) :
    p.text.head? = some '-' ↔ p.leadingMinus = true := by
  cases p.start with
  | name n rest htext _ hminus =>
      obtain ⟨c, rest', hn, hc⟩ := n.exists_cons
      rw [htext, hn, hminus, List.cons_append, List.head?_cons, Option.some.injEq]
      exact ⟨fun h => absurd h (ne_of_alphanum hc (by decide)), fun h => by cases h⟩
  | literal l rest htext hminus =>
      obtain ⟨c, rest', hl, hc⟩ := l.exists_cons
      rw [htext, hl, hminus, List.cons_append, List.head?_cons, Option.some.injEq]
      refine ⟨?_, fun h => by cases h⟩
      rintro rfl
      exact absurd hc (by decide)
  | minus rest htext hminus => simp [htext, hminus]
  | paren q rest htext _ hminus => simp [htext, hminus]

/-! ### Numerals -/

theorem UnsignedLiteral.head_ne (l : UnsignedLiteral) {d : Char}
    (hd : d.isDigit = false ∧ d ≠ '.') : l.text.head? ≠ some d := by
  obtain ⟨c, rest, hl, hc⟩ := l.exists_cons
  rw [hl, List.head?_cons, ne_eq, Option.some.injEq]
  rintro rfl
  rcases hc with hc | hc
  · rw [hd.1] at hc
    cases hc
  · exact hd.2 hc

theorem UnsignedLiteral.parts (l : UnsignedLiteral) :
    l.text.takeWhile (· ≠ '.') = l.whole ∧ (l.text.dropWhile (· ≠ '.')).drop 1 = l.fraction := by
  have hpoint : ∀ c ∈ l.whole, decide (c ≠ '.') = true := by
    intro c hc
    rw [decide_eq_true_eq]
    rintro rfl
    exact absurd (l.wholeDigits _ hc) (by decide)
  rw [UnsignedLiteral.text]
  split_ifs with hnil
  · rw [List.takeWhile_eq_self_iff.2 hpoint, List.dropWhile_eq_nil_iff.2 hpoint, hnil]
    exact ⟨rfl, rfl⟩
  · rw [List.takeWhile_append_of_pos hpoint, List.dropWhile_append_of_pos hpoint]
    simp

theorem UnsignedLiteral.all_digits (l : UnsignedLiteral) :
    (l.whole ++ l.fraction).all Char.isDigit = true := by
  rw [List.all_append, Bool.and_eq_true, List.all_eq_true, List.all_eq_true]
  exact ⟨l.wholeDigits, l.fractionDigits⟩

theorem decimalValue_literal (l : UnsignedLiteral) : decimalValue l.text = some l.value := by
  have hminus := l.head_ne (d := '-') (by decide)
  rw [decimalValue, Py.dropSign_eq_self (l.head_ne (by decide)) hminus]
  simp only
  rw [l.parts.1, l.parts.2, if_pos l.all_digits, if_neg hminus]
  rfl

theorem decimalValue_negated (l : UnsignedLiteral) :
    decimalValue ('-' :: l.text) = some (-l.value) := by
  rw [decimalValue, Py.dropSign]
  simp only
  rw [l.parts.1, l.parts.2, if_pos l.all_digits, List.head?_cons, if_pos rfl]
  rfl

/-! ### The reader -/

/-- A text that does not start with the word NOT and white space does not start with `NOT `. -/
theorem not_startswith_of_behindWord {s : Text} (hnone : behindWord ['N', 'O', 'T'] s = none) :
    startswith (upper s) ['N', 'O', 'T', ' '] = false := by
  rw [Bool.eq_false_iff]
  intro h
  obtain ⟨rest, hrest⟩ := List.isPrefixOf_iff_prefix.1 h
  have hlen : 4 ≤ s.length := by
    have := congrArg List.length hrest
    rw [upper, List.length_map, List.length_append] at this
    simp only [List.length_cons, List.length_nil] at this
    omega
  have htake : upper (s.take 3) = ['N', 'O', 'T'] := by
    rw [upper, List.map_take, ← upper, ← hrest]
    rfl
  have hspace : (s.drop 3).head?.any isSpace = true := by
    cases hdrop : s.drop 3 with
    | nil =>
        rw [List.drop_eq_nil_iff] at hdrop
        omega
    | cons c tail =>
        have hupper : (upper s).drop 3 = upper (c :: tail) := by
          rw [upper, ← List.map_drop, hdrop, upper]
        rw [← hrest] at hupper
        have hc : ' ' = c.toUpper := (List.cons.inj hupper).1
        rw [List.head?_cons, Option.any_some, ← Py.Chars.isSpace_toUpper, ← hc]
        decide
  rw [behindWord, if_pos ⟨htake, hspace⟩] at hnone
  cases hnone

theorem not_startswith_not (p : Phrase) : startswith (upper p.text) ['N', 'O', 'T', ' '] = false :=
  not_startswith_of_behindWord (p.behindWord_text (by decide) (by decide) (by decide))

/-- A readable phrase is read with its value. -/
theorem buildExpressionFrom_value (assignment : Text → ℚ) (fuel : ℕ) :
    ∀ (p : Phrase) (s : Text), p.WellFormed → p.readable = true → strip s = p.text →
      s.length ≤ fuel →
      (buildExpressionFrom fuel s).value assignment = p.value assignment := by
  induction fuel with
  | zero =>
      intro p s _ _ hs hfuel
      obtain rfl := List.length_eq_zero_iff.1 (Nat.le_zero.1 hfuel)
      obtain ⟨c, rest, htext, -⟩ := p.exists_cons
      rw [htext] at hs
      cases hs
  | succ fuel ih =>
      intro p s hp hread hs hfuel
      have hshort : p.text.length ≤ s.length := by
        rw [← hs]
        exact length_strip_le s
      rw [buildExpressionFrom, hs]
      have hplain : p.plain false = true := (Bool.and_eq_true_iff.1 hread).1
      by_cases henclosed : ∃ q, p = .paren q
      · obtain ⟨q, rfl⟩ := henclosed
        rw [if_pos ((Phrase.enclosed_text _).2 ⟨q, rfl⟩), Phrase.text, inner_parens,
          ih q q.text hp hplain q.strip_text]
        · rfl
        · simp only [Phrase.text, List.length_cons, List.length_append] at hshort
          omega
      rw [if_neg fun h => henclosed ((Phrase.enclosed_text p).1 h)]
      by_cases hliteral : ∃ l, p = .literal l ∨ p = .negate (.literal l)
      · obtain ⟨l, hl⟩ := hliteral
        rw [constant_literal hl]
        rcases hl with rfl | rfl
        · exact decimalValue_literal l
        · exact decimalValue_negated l
      rw [constant_eq_none hp hplain fun l =>
        ⟨fun h => hliteral ⟨l, .inl h⟩, fun h => hliteral ⟨l, .inr h⟩⟩]
      simp only
      rw [not_startswith_not p, if_neg (by decide)]
      by_cases hminus : p.leadingMinus = true
      · -- no sum starts with a minus sign here, and a negated product is the product of a negation
        have hlevel : 2 ≤ p.level := by
          have hsum := (Bool.and_eq_true_iff.1 hread).2
          rw [hminus, Bool.and_true, Bool.not_eq_true', Phrase.isSum, decide_eq_false_iff_not] at hsum
          have := p.level_pos
          omega
        obtain ⟨htext, hwf, hplain', hlevel', hvalue⟩ := Phrase.dropMinus_spec hp hplain hminus hlevel
        have hread' : p.dropMinus.readable = true := by
          rw [Phrase.readable, hplain', Phrase.isSum, decide_eq_false (by omega)]
          rfl
        have hpos : 0 < p.dropMinus.text.length := by
          obtain ⟨c, rest, hcons, -⟩ := p.dropMinus.exists_cons
          rw [hcons]
          exact Nat.succ_pos _
        rw [if_pos ⟨p.head_text_minus.2 hminus, by rw [htext, List.length_cons]; omega⟩, htext,
          List.drop_one, List.tail_cons, Expression.value,
          ih p.dropMinus _ hwf hread' p.dropMinus.strip_text]
        · exact (hvalue assignment).symm
        · rw [htext, List.length_cons] at hshort
          omega
      rw [if_neg fun h => hminus (p.head_text_minus.1 h.1)]
      cases p with
      | name n =>
          rw [splitExpression_single hp hplain (by simp [Phrase.level])]
          rfl
      | literal l => exact absurd ⟨l, .inl rfl⟩ hliteral
      | paren q => exact absurd ⟨q, rfl⟩ henclosed
      | negate q => exact absurd rfl hminus
      | binary op l r =>
          obtain ⟨hl, hr, hwl, hwr⟩ := id hp
          have hplain' := hplain
          rw [Phrase.plain, Bool.and_eq_true] at hplain'
          have hblank : ink [' '] = 0 := by decide
          have hreadl : l.readable = true := by
            have hminusl : l.leadingMinus = false := by
              rw [Bool.not_eq_true] at hminus
              exact hminus
            rw [Phrase.readable, hplain'.1, hminusl, Bool.and_false]
            rfl
          have hreadr : r.readable = true := by
            have hpos := op.level_pos
            rw [Phrase.readable, Phrase.plain_early hplain'.2, Phrase.isSum,
              decide_eq_false (by omega)]
            rfl
          have hstripl : strip (l.text ++ [' ']) = l.text := by
            rw [strip_append_blank hblank, l.strip_text]
          have hstripr : strip (' ' :: r.text) = r.text := by
            rw [← List.singleton_append, strip_blank_append hblank, r.strip_text]
          simp only [Phrase.text, List.length_cons, List.length_append] at hshort
          rw [splitExpression_binary hp hplain]
          simp only [Expression.value]
          rw [ih l _ hwl hreadl hstripl, ih r _ hwr hreadr hstripr]
          · rfl
          · simp only [List.length_cons]
            omega
          · simp only [List.length_append, List.length_cons, List.length_nil]
            omega

/-- **A tree whose phrase is readable is read with its value.** -/
theorem buildExpression_value (t : ArithmeticTree) (h : t.phrase.readable = true)
    (assignment : Text → ℚ) :
    (buildExpression t.text).value assignment = t.value assignment := by
  rw [buildExpression, buildExpressionFrom_value assignment _ t.phrase t.text t.phrase_wellFormed h
    t.phrase.strip_text le_rfl, t.phrase_value]

/-- The name `A`. -/
def DataName.a : DataName :=
  ⟨['A'], by decide, ⟨'A', by decide, by decide⟩, by decide, by decide, by decide⟩

/-- The name `B-1`. -/
def DataName.b1 : DataName :=
  ⟨['B', '-', '1'], by decide, ⟨'B', by decide, by decide⟩, by decide, by decide, by decide⟩

/-- `A / (B-1 - -A)` is read with its value, where the names stand for 3. -/
theorem buildExpression_value_quotient :
    (buildExpression "A / (B-1 - -A)".toList).value (fun _ => 3) =
      (ArithmeticTree.binary .divide (.name .a)
        (.binary .subtract (.name .b1) (.negate (.name .a)))).value fun _ => 3 :=
  buildExpression_value (.binary .divide (.name .a)
    (.binary .subtract (.name .b1) (.negate (.name .a)))) (by decide) fun _ => 3

/-- The sum `-A + B` is read as the negation of `A + B`. -/
theorem leadingMinus_negates_sum :
    ¬ ∀ (t : ArithmeticTree) (assignment : Text → ℚ), t.value assignment ≠ none →
      (buildExpression t.text).value assignment = t.value assignment := by
  intro h
  have hread : buildExpression
      (ArithmeticTree.binary .add (.negate (.name .a)) (.name .b1)).text =
        .unary .minus (.binary (.fieldReference ['A']) .plus (.fieldReference ['B', '-', '1'])) := by
    decide
  have hone := h (.binary .add (.negate (.name .a)) (.name .b1)) (fun _ => 1)
    (by simp [ArithmeticTree.value, ArithmeticOperator.operator, Operator.apply])
  rw [hread] at hone
  norm_num [Expression.value, ArithmeticTree.value, ArithmeticOperator.operator,
    Operator.apply] at hone

end CobolJava.Formula
