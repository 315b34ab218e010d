/-
**Reading a header of PERFORM.**

When the parser and the mapper read from the line of a header what it says: the keywords of a
`VARYING` phrase in capitals between blanks, and no word of a phrase in a literal of the condition.

Main definitions:

* `AsWritten` — the headers that are read as they are written;
* `PerformHeader.body`, `stepText` — what a header performs, and its step.

Main results:

* `removeTest_line`, `testAfter_line` — the test phrase;
* `splitWord_append` — splitting at a keyword;
* `lowerPerform_times`, `lowerPerform_untilCondition`, `lowerPerform_varying` — the loop of a header.
-/

import CobolJava.Transformation.PerformHeader

set_option autoImplicit false

namespace CobolJava.Transformation

/-! ### What a header says -/

def PerformHeader.body (h : PerformHeader) : JavaBody :=
  match h.procedure with
  | .inline => .inline
  | .paragraph name => .call name.token.word
  | .range first _ last => .callRange first.token.word last.token.word

/-- `TEST AFTER` is written. -/
def saysAfter (test : Option TestPhrase) : Bool :=
  test.any fun p => p.place.isWord "AFTER"

/-- The step of a `VARYING` phrase: one, if it is not written. -/
def stepText : Option (Keyword "BY" × Operand) → List Token
  | none => [⟨[], ['1']⟩]
  | some (_, step) => stripped step.tokens

/-- The keyword is written in capitals between blanks. -/
def InCapitals (keyword : String) (t : Token) (rest : List Token) : Prop :=
  t.word = keyword.toList ∧ t.blank.getLast? = some ' ' ∧ blankFollows rest = true

/-- The text of a condition contains none of the words. -/
def Avoids (words : List String) (text : List Token) : Prop :=
  ∀ t ∈ text, ∀ keyword ∈ words, t.isWord keyword = false

/-- The header is read as it is written: its form is recognised, the keywords of a `VARYING` phrase
stand in capitals between blanks, and no literal of the condition contains a word that is searched
for. -/
def AsWritten (h : PerformHeader) : Prop :=
  opensInline (removeTest none h.line) = decide (h.body = .inline) ∧
  match h.phrase with
  | .times _ _ => True
  | .untilCondition _ _ text =>
      Avoids ["TEST", "TIMES"] text.tokens ∧
        ∀ t ∈ text.tokens.head?, t.isWord "VARYING" = false ∧ ¬ "TIMES=".toList <+: t.word
  | .varying _ varyingWord _ fromWord start step untilWord text =>
      (h.body = .inline → varyingWord.token.word = "VARYING".toList) ∧
      InCapitals "FROM" fromWord.token start.tokens ∧
      (∀ b ∈ step, InCapitals "BY" b.1.token b.2.tokens) ∧
      InCapitals "UNTIL" untilWord.token text.tokens ∧
      Avoids ["TEST", "TIMES", "FROM", "UNTIL"] text.tokens

/-! ### Words -/

theorem Token.not_isWord {t : Token} {keyword other : String} (h : t.isWord keyword = true)
    (hne : keyword ≠ other) : t.isWord other = false := by
  simp only [isWord, decide_eq_true_eq, decide_eq_false_iff_not] at h ⊢
  rw [h]
  exact fun heq => hne (String.toList_inj.1 heq)

theorem Token.isPlain_not {t : Token} (h : t.isPlain = true) {keyword : String}
    (hmem : keyword ∈ performWords) : t.isWord keyword = false := by
  simpa using List.all_eq_true.1 h keyword hmem

theorem isWord_of_word {t : Token} {keyword : String} (hupper : keyword.toList.map Char.toUpper = keyword.toList)
    (h : t.word = keyword.toList) : t.isWord keyword = true := by
  simp [Token.isWord, h, hupper]

theorem toUpper_of_isDigit {c : Char} (h : c.isDigit = true) : c.toUpper = c := by
  simp only [Char.isDigit, Bool.and_eq_true, decide_eq_true_eq] at h
  have hhi : c.toNat ≤ 57 := h.2
  unfold Char.toUpper
  rw [dif_neg]
  rintro ⟨hlo, -⟩
  have : 97 ≤ c.toNat := hlo
  omega

theorem not_isNumber {t : Token} {keyword : String} (h : t.isWord keyword = true)
    (hkeyword : keyword.toList.all (fun c => !c.isDigit) = true) : t.isNumber = false := by
  by_contra hnumber
  simp only [Token.isNumber, Bool.not_eq_false, Bool.and_eq_true] at hnumber
  obtain ⟨hne, hall⟩ := hnumber
  simp only [Token.isWord, decide_eq_true_eq] at h
  cases hword : t.word with
  | nil => simp [hword] at hne
  | cons c cs =>
      rw [hword] at h hall
      have hdigit : c.isDigit = true := (List.all_eq_true.1 hall) c List.mem_cons_self
      have hsame : c.toUpper = c := toUpper_of_isDigit hdigit
      have hmem : c ∈ keyword.toList := by
        rw [← h, List.map_cons, hsame]
        exact List.mem_cons_self
      have := List.all_eq_true.1 hkeyword c hmem
      simp [hdigit] at this

/-! ### The test phrase -/

/-- No word of the text is `TEST`. -/
def NoTest (text : List Token) : Prop :=
  ∀ t ∈ text, t.isWord "TEST" = false

/-- The text with another white space before its first word. -/
def reblank (blank : List Char) : List Token → List Token
  | [] => []
  | t :: rest => { t with blank := blank } :: rest

theorem isTestPhrase_eq_false {w t a : Token} (h : t.isWord "TEST" = false) :
    isTestPhrase w t a = false := by
  simp [isTestPhrase, h]

theorem removeTest_cons {x y : Token} {rest : List Token} (h : y.isWord "TEST" = false) :
    removeTest none (x :: y :: rest) = x :: removeTest none (y :: rest) := by
  cases rest with
  | nil => rfl
  | cons a rest =>
      rw [removeTest, isTestPhrase_eq_false h]
      rfl

theorem removeTest_of_noTest {text : List Token} (h : NoTest text) :
    removeTest none text = text := by
  induction text with
  | nil => rfl
  | cons x rest ih =>
      cases rest with
      | nil => rfl
      | cons y rest =>
          rw [removeTest_cons (h y (by simp)), ih fun t ht => h t (List.mem_cons_of_mem _ ht)]

theorem removeTest_some {text : List Token} (h : NoTest text) (blank : List Char) :
    removeTest (some blank) text = reblank blank text := by
  match text, h with
  | [], _ => rfl
  | [_], _ => rfl
  | [_, _], _ => rfl
  | w :: t :: a :: rest, h =>
      rw [removeTest, isTestPhrase_eq_false (h t (by simp)),
        removeTest_of_noTest fun t ht => h t (List.mem_cons_of_mem _ ht)]
      rfl

theorem removeTest_append {before : List Token} (hbefore : NoTest before) {w : Token}
    (hw : w.isWord "TEST" = false) (rest : List Token) :
    removeTest none (before ++ w :: rest) = before ++ removeTest none (w :: rest) := by
  induction before with
  | nil => rfl
  | cons x before ih =>
      have hrest := ih fun t ht => hbefore t (List.mem_cons_of_mem _ ht)
      cases before with
      | nil => exact removeTest_cons hw
      | cons y before =>
          rw [List.cons_append, List.cons_append, removeTest_cons (hbefore y (by simp)),
            ← List.cons_append, hrest]
          rfl

theorem testAfter_cons {x y : Token} {rest : List Token} (h : y.isWord "TEST" = false) :
    testAfter (x :: y :: rest) = testAfter (y :: rest) := by
  cases rest with
  | nil => rfl
  | cons a rest =>
      rw [testAfter, isTestPhrase_eq_false h]
      rfl

theorem testAfter_of_noTest {text : List Token} (h : NoTest text) : testAfter text = false := by
  induction text with
  | nil => rfl
  | cons x rest ih =>
      cases rest with
      | nil => rfl
      | cons y rest =>
          rw [testAfter_cons (h y (by simp)), ih fun t ht => h t (List.mem_cons_of_mem _ ht)]

theorem testAfter_append {before : List Token} (hbefore : NoTest before) {w : Token}
    (hw : w.isWord "TEST" = false) (rest : List Token) :
    testAfter (before ++ w :: rest) = testAfter (w :: rest) := by
  induction before with
  | nil => rfl
  | cons x before ih =>
      have hrest := ih fun t ht => hbefore t (List.mem_cons_of_mem _ ht)
      cases before with
      | nil => exact testAfter_cons hw
      | cons y before =>
          rw [List.cons_append, List.cons_append, testAfter_cons (hbefore y (by simp)),
            ← List.cons_append, hrest]

/-- The white space before a text that follows the test phrase. -/
def afterTest (test : Option TestPhrase) (text : List Token) : List Token :=
  match test with
  | none => text
  | some p => reblank p.withWord.token.blank text

theorem TestPhrase.isTestPhrase (p : TestPhrase) :
    isTestPhrase p.withWord.token p.test.token p.place = true := by
  rcases p.spelled with h | h <;> simp [Transformation.isTestPhrase, p.withWord.spelled, p.test.spelled, h]

theorem removeTest_line {before text : List Token} (test : Option TestPhrase)
    (hbefore : NoTest before) (htext : NoTest text) :
    removeTest none (before ++ (testTokens test ++ text)) = before ++ afterTest test text := by
  cases test with
  | none =>
      refine removeTest_of_noTest fun t ht => ?_
      exact (List.mem_append.1 ht).elim (hbefore t) (htext t)
  | some p =>
      have hw : p.withWord.token.isWord "TEST" = false :=
        Token.not_isWord p.withWord.spelled (by decide)
      change removeTest none (before ++ p.withWord.token :: p.test.token :: p.place :: text) = _
      rw [removeTest_append hbefore hw, removeTest, p.isTestPhrase, if_pos rfl,
        Option.getD_none, removeTest_some htext]
      rfl

theorem testAfter_line {before text : List Token} (test : Option TestPhrase)
    (hbefore : NoTest before) (htext : NoTest text) :
    testAfter (before ++ (testTokens test ++ text)) = saysAfter test := by
  cases test with
  | none =>
      refine testAfter_of_noTest fun t ht => ?_
      exact (List.mem_append.1 ht).elim (hbefore t) (htext t)
  | some p =>
      have hw : p.withWord.token.isWord "TEST" = false :=
        Token.not_isWord p.withWord.spelled (by decide)
      change testAfter (before ++ p.withWord.token :: p.test.token :: p.place :: text) = _
      rw [testAfter_append hbefore hw, testAfter, p.isTestPhrase, if_pos rfl]
      rfl

/-! ### Splitting at a keyword -/

/-- The text whose first blank may belong to the match before. -/
def dropBlank (consumed : Bool) : List Token → List Token
  | [] => []
  | t :: rest => { t with blank := if consumed then t.blank.drop 1 else t.blank } :: rest

@[simp] theorem stripped_dropBlank (consumed : Bool) (text : List Token) :
    stripped (dropBlank consumed text) = stripped text := by
  cases text <;> rfl

theorem dropBlank_false (text : List Token) : dropBlank false text = text := by
  cases text <;> rfl

@[simp] theorem stripped_stripped (text : List Token) : stripped (stripped text) = stripped text := by
  cases text <;> rfl

theorem dropBlank_append {a : List Token} (h : a ≠ []) (consumed : Bool) (b : List Token) :
    dropBlank consumed (a ++ b) = dropBlank consumed a ++ b := by
  cases a with
  | nil => exact absurd rfl h
  | cons x more => rfl

theorem stripped_append {a : List Token} (h : a ≠ []) (b : List Token) :
    stripped (a ++ b) = stripped a ++ b := by
  cases a with
  | nil => exact absurd rfl h
  | cons x more => rfl

theorem blankFollows_append {a : List Token} (h : a ≠ []) (b : List Token) :
    blankFollows (a ++ b) = blankFollows a := by
  cases a with
  | nil => exact absurd rfl h
  | cons x more => rfl

theorem forall_word_dropBlank {P : List Char → Prop} {text : List Token}
    (h : ∀ t ∈ text, P t.word) (consumed : Bool) : ∀ t ∈ dropBlank consumed text, P t.word := by
  cases text with
  | nil => exact h
  | cons x more =>
      intro t ht
      rcases List.mem_cons.1 ht with rfl | ht
      · exact h x List.mem_cons_self
      · exact h t (List.mem_cons_of_mem _ ht)

theorem forall_word_stripped {P : List Char → Prop} {text : List Token}
    (h : ∀ t ∈ text, P t.word) : ∀ t ∈ stripped text, P t.word := by
  cases text with
  | nil => exact h
  | cons x more =>
      intro t ht
      rcases List.mem_cons.1 ht with rfl | ht
      · exact h x List.mem_cons_self
      · exact h t (List.mem_cons_of_mem _ ht)

theorem splitWord_of_absent {keyword : String} {consumed : Bool} {text : List Token}
    (h : ∀ t ∈ text, t.word ≠ keyword.toList) :
    splitWord keyword consumed text = [dropBlank consumed text] := by
  induction text generalizing consumed with
  | nil => rfl
  | cons t rest ih =>
      rw [splitWord, @ih false fun u hu => h u (List.mem_cons_of_mem _ hu), dropBlank_false]
      simp [h t List.mem_cons_self, dropBlank]

/-- A text is split at the first keyword between blanks. -/
theorem splitWord_append {keyword : String} {consumed : Bool} {before : List Token}
    (hne : before ≠ []) (h : ∀ t ∈ before, t.word ≠ keyword.toList) {t : Token}
    {rest : List Token} (ht : InCapitals keyword t rest) :
    splitWord keyword consumed (before ++ t :: rest) =
      dropBlank consumed before :: splitWord keyword true rest := by
  obtain ⟨hword, hblank, hfollows⟩ := ht
  have hmatch : splitWord keyword false (t :: rest) = [] :: splitWord keyword true rest := by
    rw [splitWord]
    simp [hword, hblank, hfollows]
  induction before generalizing consumed with
  | nil => exact absurd rfl hne
  | cons x before ih =>
      have hx := h x List.mem_cons_self
      rw [List.cons_append, splitWord]
      cases before with
      | nil =>
          rw [List.nil_append, hmatch]
          simp [hx, dropBlank]
      | cons y before =>
          rw [@ih false (by simp) fun u hu => h u (List.mem_cons_of_mem _ hu), dropBlank_false]
          simp [hx, dropBlank]

/-! ### The loop of a header -/

section Headers

variable {program : CobolProgram} {stmt : PerformStatement} {loop : JavaLoop}

theorem PlainWord.not_isWord (w : PlainWord) {keyword : String} (h : keyword ∈ performWords) :
    w.token.isWord keyword = false :=
  Token.isPlain_not w.plain h

theorem Keyword.not_isWord {keyword other : String} (k : Keyword keyword) (h : keyword ≠ other) :
    k.token.isWord other = false :=
  Token.not_isWord k.spelled h

theorem noTest_procedure (procedure : ProcedureName) : NoTest procedure.tokens := by
  intro t ht
  cases procedure with
  | inline => exact absurd ht (by simp [ProcedureName.tokens])
  | paragraph name =>
      obtain rfl := List.mem_singleton.1 ht
      exact name.not_isWord (by decide)
  | range first thru last =>
      simp only [ProcedureName.tokens, List.mem_cons, List.not_mem_nil, or_false] at ht
      rcases ht with rfl | rfl | rfl
      · exact first.not_isWord (by decide)
      · exact thru.not_isWord (by decide)
      · exact last.not_isWord (by decide)

theorem noTest_before (h : PerformHeader) : NoTest (h.perform.token :: h.procedure.tokens) := by
  intro t ht
  rcases List.mem_cons.1 ht with rfl | ht
  · exact h.perform.not_isWord (by decide)
  · exact noTest_procedure _ t ht

theorem parsePerform_inline {line : List Token} (hopens : opensInline (removeTest none line) = true)
    (hparse : parsePerform line = some stmt) :
    stmt = ⟨[], inlineText (removeTest none line), [], true, testAfter line⟩ := by
  rw [parsePerform, if_pos hopens] at hparse
  exact (Option.some.inj hparse).symm

theorem parsePerform_outOfLine {line : List Token}
    (hopens : opensInline (removeTest none line) = false) (hparse : parsePerform line = some stmt) :
    parseOutOfLine (testAfter line) (removeTest none line).tail = some stmt := by
  rw [parsePerform, if_neg (by rw [hopens]; exact Bool.false_ne_true)] at hparse
  exact hparse

theorem lowerPerform_timesText {count : Token} (htext : stmt.untilCondition = timesText [count])
    (hlower : lowerPerform program stmt = some loop) :
    ∃ c, timesCount ⟨[], count.word⟩ = some c ∧ loop = ⟨.forTimes c, loopBody stmt⟩ := by
  rw [lowerPerform, htext, timesText] at hlower
  have hvarying : "TIMES=".toList ++ count.word ≠ "VARYING".toList := by simp
  have hprefix : "TIMES=".toList.isPrefixOf ("TIMES=".toList ++ count.word) = true :=
    List.isPrefixOf_iff_prefix.2 (List.prefix_append _ _)
  simp only [hvarying, decide_false, Bool.false_and, Bool.false_eq_true, if_false, hprefix,
    if_true] at hlower
  rw [lowerTimes] at hlower
  obtain ⟨c, hc, rfl⟩ := Option.map_eq_some_iff.1 hlower
  exact ⟨c, hc, rfl⟩

theorem noTest_times (h : PerformHeader) {count : PlainWord} {timesWord : Keyword "TIMES"}
    (hphrase : h.phrase = .times count timesWord) : NoTest h.line := by
  intro t ht
  rw [PerformHeader.line, hphrase, ← List.cons_append] at ht
  rcases List.mem_append.1 ht with ht | ht
  · exact noTest_before h t ht
  · simp only [PerformPhrase.tokens, List.mem_cons, List.not_mem_nil, or_false] at ht
    rcases ht with rfl | rfl
    · exact count.not_isWord (by decide)
    · exact timesWord.not_isWord (by decide)

/-- The loop of a `TIMES` phrase. -/
theorem lowerPerform_times {h : PerformHeader} {count : PlainWord} {timesWord : Keyword "TIMES"}
    (hphrase : h.phrase = .times count timesWord) (hwritten : AsWritten h)
    (hparse : parsePerform h.line = some stmt) (hlower : lowerPerform program stmt = some loop) :
    ∃ c, timesCount ⟨[], count.token.word⟩ = some c ∧ loop = ⟨.forTimes c, h.body⟩ := by
  have hopens := hwritten.1
  have htest := noTest_times h hphrase
  obtain ⟨perform, procedure, phrase⟩ := h
  obtain rfl : phrase = _ := hphrase
  rw [removeTest_of_noTest htest] at hopens
  cases procedure with
  | inline =>
      have hstmt := parsePerform_inline (by rw [removeTest_of_noTest htest, hopens]; rfl) hparse
      have hperform : perform.token.isWord "UNTIL" = false := perform.not_isWord (by decide)
      have hcount : count.token.isWord "UNTIL" = false := count.not_isWord (by decide)
      have htimes : timesWord.token.isWord "UNTIL" = false := timesWord.not_isWord (by decide)
      have hvarying : count.token.isWord "VARYING" = false := count.not_isWord (by decide)
      have huntil : untilText [perform.token, count.token, timesWord.token] = none := by
        simp [untilText, hperform, hcount, htimes]
      have htext : stmt.untilCondition = timesText [count.token] := by
        rw [hstmt, removeTest_of_noTest htest]
        change inlineText [perform.token, count.token, timesWord.token] = _
        simp [inlineText, huntil, hvarying, timesWord.spelled]
      obtain ⟨c, hc, hloop⟩ := lowerPerform_timesText htext hlower
      refine ⟨c, hc, ?_⟩
      rw [hloop, hstmt]
      rfl
  | paragraph name =>
      have hstmt := parsePerform_outOfLine (by rw [removeTest_of_noTest htest, hopens]; rfl) hparse
      have hthru : count.token.isWord "THRU" = false := count.not_isWord (by decide)
      rw [removeTest_of_noTest htest] at hstmt
      change parseOutOfLine _ [name.token, count.token, timesWord.token] = _ at hstmt
      obtain ⟨-, hstmt⟩ := Option.ite_none_right_eq_some.1 hstmt
      simp only [parseParagraphForm, hthru, Bool.false_and, Bool.false_eq_true, if_false, List.getLast?_cons_cons,
        List.getLast?_singleton, Option.any_some, timesWord.spelled, List.isEmpty_cons,
        Bool.not_false, Bool.and_self, if_true, Option.some.injEq] at hstmt
      obtain ⟨c, hc, hloop⟩ := @lowerPerform_timesText _ _ _ count.token
        (by rw [← hstmt]; rfl) hlower
      refine ⟨c, hc, ?_⟩
      rw [hloop, ← hstmt]
      rfl
  | range first thru last =>
      have hstmt := parsePerform_outOfLine (by rw [removeTest_of_noTest htest, hopens]; rfl) hparse
      rw [removeTest_of_noTest htest] at hstmt
      change parseOutOfLine _
        [first.token, thru.token, last.token, count.token, timesWord.token] = _ at hstmt
      obtain ⟨-, hstmt⟩ := Option.ite_none_right_eq_some.1 hstmt
      simp only [parseParagraphForm, List.length_cons, List.length_nil, Nat.reduceAdd, Nat.reduceEqDiff, decide_false,
        Bool.false_and, Bool.and_false, Bool.false_eq_true, if_false, List.getLast?_cons_cons,
        List.getLast?_singleton, Option.any_some, timesWord.spelled, List.isEmpty_cons,
        Bool.not_false, Bool.and_self, if_true, Option.some.injEq] at hstmt
      have htext : stmt.untilCondition =
          [⟨[], "TIMES=".toList ++ thru.token.word⟩, last.token, count.token] := by
        rw [← hstmt]
        rfl
      have hne : "TIMES=".toList ++ thru.token.word ≠ "VARYING".toList := by simp
      have hprefix : "TIMES=".toList.isPrefixOf ("TIMES=".toList ++ thru.token.word) = true :=
        List.isPrefixOf_iff_prefix.2 (List.prefix_append _ _)
      have hthru : Token.isWord "THRU" ⟨[], thru.token.word⟩ = true := thru.spelled
      rw [lowerPerform, htext] at hlower
      simp only [hne, decide_false, Bool.false_and, Bool.false_eq_true, if_false, hprefix,
        if_true] at hlower
      have hdrop : ("TIMES=".toList ++ thru.token.word).drop 6 = thru.token.word := rfl
      rw [hdrop, lowerTimes, if_pos hthru] at hlower
      obtain ⟨c, hc, rfl⟩ := Option.map_eq_some_iff.1 hlower
      refine ⟨c, hc, ?_⟩
      rw [← hstmt]
      simp [loopBody, PerformHeader.body, last.nonempty]

/-- A header line is its start, a test phrase and a phrase that starts with a keyword; the parser
sees the keyword behind other white space. -/
theorem removeTest_phrase {h : PerformHeader} {test : Option TestPhrase} {k : Token}
    {rest : List Token} (hphrase : h.phrase.tokens = testTokens test ++ k :: rest)
    (hnoTest : NoTest (k :: rest)) :
    testAfter h.line = saysAfter test ∧ ∃ k' : Token, k'.word = k.word ∧
      removeTest none h.line = h.perform.token :: (h.procedure.tokens ++ k' :: rest) := by
  have hline : h.line = (h.perform.token :: h.procedure.tokens) ++
      (testTokens test ++ k :: rest) := by
    rw [PerformHeader.line, hphrase, List.cons_append]
  rw [hline, testAfter_line test (noTest_before h) hnoTest,
    removeTest_line test (noTest_before h) hnoTest]
  refine ⟨rfl, ?_⟩
  cases test with
  | none => exact ⟨k, rfl, rfl⟩
  | some p => exact ⟨{ k with blank := p.withWord.token.blank }, rfl, rfl⟩

theorem getLast_not_times (before : List Token) {text : List Token} (hne : text ≠ [])
    (h : ∀ t ∈ text, t.isWord "TIMES" = false) :
    (before ++ text).getLast?.any (Token.isWord "TIMES") = false := by
  rw [List.getLast?_append_of_ne_nil _ hne, List.getLast?_eq_some_getLast hne, Option.any_some]
  exact h _ (List.getLast_mem hne)

theorem parseParagraphForm_range {after : Bool} {first thru last k : Token} {rest : List Token}
    (hthru : thru.isWord "THRU" = true) (hrest : rest ≠ [])
    (htimes : rest.getLast?.any (Token.isWord "TIMES") = false) :
    parseParagraphForm after first (thru :: last :: k :: rest) = none := by
  have hvarying : thru.isWord "VARYING" = false := Token.not_isWord hthru (by decide)
  have huntil : thru.isWord "UNTIL" = false := Token.not_isWord hthru (by decide)
  have hlast : (thru :: last :: k :: rest).getLast? = rest.getLast? :=
    List.getLast?_append_of_ne_nil [thru, last, k] hrest
  simp [parseParagraphForm, hvarying, huntil, hlast, htimes]

/-- The loop of a `TIMES`-free text that is no `VARYING` text. -/
theorem lowerPerform_conditionText {text : List Token} (hne : text ≠ [])
    (hhead : ∀ t ∈ text.head?, t.isWord "VARYING" = false ∧ ¬ "TIMES=".toList <+: t.word)
    (htext : stmt.untilCondition = stripped text) (hlower : lowerPerform program stmt = some loop) :
    loop = ⟨if stmt.testAfter then .doWhileNot (stripped text) else .whileNot (stripped text),
      loopBody stmt⟩ := by
  cases text with
  | nil => exact absurd rfl hne
  | cons t rest =>
      obtain ⟨hvarying, htimes⟩ := hhead t rfl
      have hword : t.word ≠ "VARYING".toList := fun heq => by
        rw [isWord_of_word (by decide) heq] at hvarying
        exact absurd hvarying (by decide)
      have hprefix : "TIMES=".toList.isPrefixOf t.word = false := by
        rw [← Bool.not_eq_true, List.isPrefixOf_iff_prefix]
        exact htimes
      rw [lowerPerform, htext, stripped] at hlower
      simp only [hword, decide_false, Bool.false_and, Bool.false_eq_true, if_false,
        hprefix] at hlower
      split_ifs at hlower ⊢ <;> exact (Option.some.inj hlower).symm

/-- The loop of an `UNTIL` phrase. -/
theorem lowerPerform_untilCondition {h : PerformHeader} {test : Option TestPhrase}
    {untilWord : Keyword "UNTIL"} {text : ConditionText}
    (hphrase : h.phrase = .untilCondition test untilWord text) (hwritten : AsWritten h)
    (hparse : parsePerform h.line = some stmt) (hlower : lowerPerform program stmt = some loop) :
    loop = ⟨if saysAfter test then .doWhileNot (stripped text.tokens)
      else .whileNot (stripped text.tokens), h.body⟩ := by
  obtain ⟨hopens, hrest⟩ := hwritten
  rw [hphrase] at hrest
  obtain ⟨havoids, hhead⟩ := hrest
  have hnoTest : NoTest (untilWord.token :: text.tokens) := by
    intro t ht
    rcases List.mem_cons.1 ht with rfl | ht
    · exact untilWord.not_isWord (by decide)
    · exact havoids t ht "TEST" (by simp)
  have htimes : ∀ t ∈ text.tokens, t.isWord "TIMES" = false :=
    fun t ht => havoids t ht "TIMES" (by simp)
  obtain ⟨hafter, k, hk, hremoved⟩ := removeTest_phrase (by rw [hphrase]; rfl) hnoTest
  have huntil : k.isWord "UNTIL" = true := by
    have := untilWord.spelled
    rwa [Token.isWord, ← hk] at this
  have hvarying : k.isWord "VARYING" = false := Token.not_isWord huntil (by decide)
  have hthru : k.isWord "THRU" = false := Token.not_isWord huntil (by decide)
  obtain ⟨x, more, hmore⟩ := List.exists_cons_of_ne_nil text.nonempty
  obtain ⟨perform, procedure, phrase⟩ := h
  obtain rfl : phrase = _ := hphrase
  cases procedure with
  | inline =>
      have hstmt := parsePerform_inline (by rw [hopens]; rfl) hparse
      rw [hafter, hremoved] at hstmt
      have hperform : perform.token.isWord "UNTIL" = false := perform.not_isWord (by decide)
      have htext : stmt.untilCondition = stripped text.tokens := by
        rw [hstmt]
        change inlineText (perform.token :: k :: text.tokens) = _
        rw [hmore]
        simp [inlineText, hvarying, untilText, hperform, huntil]
      rw [lowerPerform_conditionText text.nonempty hhead htext hlower, hstmt]
      rfl
  | paragraph name =>
      have hstmt := parsePerform_outOfLine (by rw [hopens]; rfl) hparse
      rw [hafter, hremoved] at hstmt
      change parseOutOfLine _ (name.token :: k :: text.tokens) = _ at hstmt
      obtain ⟨-, hstmt⟩ := Option.ite_none_right_eq_some.1 hstmt
      have hlast : (k :: text.tokens).getLast?.any (Token.isWord "TIMES") = false :=
        getLast_not_times [k] text.nonempty htimes
      have hne : text.tokens.isEmpty = false := by rw [hmore]; rfl
      simp only [parseParagraphForm, hthru, Bool.false_and, Bool.false_eq_true, if_false, hlast,
        hvarying, huntil, hne, Bool.not_false, Bool.and_self, if_true, Option.some.injEq] at hstmt
      rw [lowerPerform_conditionText text.nonempty hhead (by rw [← hstmt]) hlower, ← hstmt]
      rfl
  | range first thru last =>
      have hstmt := parsePerform_outOfLine (by rw [hopens]; rfl) hparse
      rw [hafter, hremoved] at hstmt
      change parseOutOfLine _ (first.token :: thru.token :: last.token :: k :: text.tokens) = _
        at hstmt
      obtain ⟨-, hstmt⟩ := Option.ite_none_right_eq_some.1 hstmt
      rw [parseParagraphForm_range thru.spelled text.nonempty
        (getLast_not_times [] text.nonempty htimes)] at hstmt
      exact absurd hstmt (by simp)

theorem Token.word_ne {t : Token} {keyword : String} (h : t.isWord keyword = false)
    (hupper : keyword.toList.map Char.toUpper = keyword.toList) : t.word ≠ keyword.toList :=
  fun heq => Bool.false_ne_true (h.symm.trans (isWord_of_word hupper heq))

theorem Operand.word_ne (operand : Operand) {keyword : String} (hmem : keyword ∈ performWords)
    (hupper : keyword.toList.map Char.toUpper = keyword.toList) :
    ∀ t ∈ operand.tokens, t.word ≠ keyword.toList :=
  fun t ht => Token.word_ne (Token.isPlain_not (operand.plain t ht) hmem) hupper

theorem Operand.stripped_ne (operand : Operand) : stripped operand.tokens ≠ [] := by
  obtain ⟨x, more, hmore⟩ := List.exists_cons_of_ne_nil operand.nonempty
  rw [hmore]
  exact List.cons_ne_nil _ _

theorem Operand.dropBlank_ne (operand : Operand) (consumed : Bool) :
    dropBlank consumed operand.tokens ≠ [] := by
  obtain ⟨x, more, hmore⟩ := List.exists_cons_of_ne_nil operand.nonempty
  rw [hmore]
  exact List.cons_ne_nil _ _

theorem stepTokens_word_ne (step : Option (Keyword "BY" × Operand)) {keyword : String}
    (hmem : keyword ∈ performWords) (hne : "BY" ≠ keyword)
    (hupper : keyword.toList.map Char.toUpper = keyword.toList) :
    ∀ t ∈ stepTokens step, t.word ≠ keyword.toList := by
  intro t ht
  cases step with
  | none => exact absurd ht (by simp [stepTokens])
  | some b =>
      rcases List.mem_cons.1 ht with rfl | ht
      · exact Token.word_ne (b.1.not_isWord hne) hupper
      · exact b.2.word_ne hmem hupper t ht

theorem splitWord_by (start : Operand) (step : Option (Keyword "BY" × Operand))
    (hstep : ∀ b ∈ step, InCapitals "BY" b.1.token b.2.tokens) :
    let initBy := splitWord "BY" false (stripped start.tokens ++ stepTokens step)
    stripped (initBy.head?.getD []) = stripped start.tokens ∧
      stripped (initBy[1]?.getD [⟨[], ['1']⟩]) = stepText step := by
  have hstart : ∀ t ∈ stripped start.tokens, t.word ≠ "BY".toList :=
    forall_word_stripped (P := (· ≠ "BY".toList)) (start.word_ne (by decide) (by decide))
  cases step with
  | none =>
      rw [stepTokens, List.append_nil, splitWord_of_absent hstart, dropBlank_false]
      exact ⟨stripped_stripped _, rfl⟩
  | some b =>
      have hb := hstep b rfl
      rw [stepTokens, splitWord_append start.stripped_ne hstart hb,
        splitWord_of_absent (b.2.word_ne (by decide) (by decide))]
      simp [stepText]

/-- The phrases of a `VARYING` text between blanks. -/
theorem lowerVarying_text {v : Token} {item : List Token} {fromWord : Keyword "FROM"}
    {start : Operand} {step : Option (Keyword "BY" × Operand)} {untilWord : Keyword "UNTIL"}
    {text : ConditionText} {shape : LoopShape} (hv : v.word = "VARYING".toList)
    (hitem : ∀ t ∈ item, t.word ≠ "FROM".toList)
    (hfrom : InCapitals "FROM" fromWord.token start.tokens)
    (hstep : ∀ b ∈ step, InCapitals "BY" b.1.token b.2.tokens)
    (huntil : InCapitals "UNTIL" untilWord.token text.tokens)
    (havoids : Avoids ["TEST", "TIMES", "FROM", "UNTIL"] text.tokens)
    (h : lowerVarying program (v :: (item ++ fromWord.token :: (start.tokens ++
      (stepTokens step ++ untilWord.token :: text.tokens)))) = some shape) :
    ∃ d, controlItem program (stripped item) = some d ∧
      shape = .forVarying d (stripped start.tokens) (stepText step) (stripped text.tokens) := by
  -- at `FROM`
  have hbefore : ∀ t ∈ v :: item, t.word ≠ "FROM".toList := by
    intro t ht
    rcases List.mem_cons.1 ht with rfl | ht
    · rw [hv]
      decide
    · exact hitem t ht
  have hbehind : ∀ t ∈ start.tokens ++ (stepTokens step ++ untilWord.token :: text.tokens),
      t.word ≠ "FROM".toList := by
    intro t ht
    simp only [List.mem_append, List.mem_cons] at ht
    rcases ht with ht | ht | rfl | ht
    · exact start.word_ne (by decide) (by decide) t ht
    · exact stepTokens_word_ne step (by decide) (by decide) (by decide) t ht
    · exact Token.word_ne (untilWord.not_isWord (by decide)) (by decide)
    · exact Token.word_ne (havoids t ht _ (by simp)) (by decide)
  have hsplitFrom : splitWord "FROM" false ((v :: item) ++ fromWord.token ::
      (start.tokens ++ (stepTokens step ++ untilWord.token :: text.tokens))) =
      [v :: item, dropBlank true start.tokens ++
        (stepTokens step ++ untilWord.token :: text.tokens)] := by
    rw [splitWord_append (List.cons_ne_nil _ _) hbefore
        ⟨hfrom.1, hfrom.2.1, (blankFollows_append start.nonempty _).trans hfrom.2.2⟩,
      splitWord_of_absent hbehind, dropBlank_false, dropBlank_append start.nonempty]
  -- at `UNTIL`
  have hsplitUntil : splitWord "UNTIL" false (dropBlank true start.tokens ++
      (stepTokens step ++ untilWord.token :: text.tokens)) =
      [dropBlank true start.tokens ++ stepTokens step, dropBlank true text.tokens] := by
    have habsent : ∀ t ∈ dropBlank true start.tokens ++ stepTokens step,
        t.word ≠ "UNTIL".toList := by
      intro t ht
      rcases List.mem_append.1 ht with ht | ht
      · exact forall_word_dropBlank (P := (· ≠ "UNTIL".toList))
          (start.word_ne (by decide) (by decide)) true t ht
      · exact stepTokens_word_ne step (by decide) (by decide) (by decide) t ht
    rw [← List.append_assoc, splitWord_append (List.append_ne_nil_of_left_ne_nil
        (start.dropBlank_ne true) _) habsent huntil,
      splitWord_of_absent fun t ht => Token.word_ne (havoids t ht _ (by simp)) (by decide),
      dropBlank_false]
  have hinit : stripped (dropBlank true start.tokens ++ stepTokens step) =
      stripped start.tokens ++ stepTokens step := by
    rw [stripped_append (start.dropBlank_ne true), stripped_dropBlank]
  obtain ⟨hhead, hsecond⟩ := splitWord_by start step hstep
  rw [← List.cons_append, lowerVarying, hsplitFrom] at h
  simp only [hsplitUntil, List.head?_cons, Option.getD_some, List.getElem?_cons_succ,
    List.getElem?_cons_zero, hinit, hhead, hsecond, stripped_dropBlank, List.drop_succ_cons,
    List.drop_zero] at h
  obtain ⟨-, h⟩ := Option.ite_none_left_eq_some.1 h
  obtain ⟨d, hd, rfl⟩ := Option.map_eq_some_iff.1 h
  exact ⟨d, hd, rfl⟩

/-- The loop of a `VARYING` phrase. -/
theorem lowerPerform_varying {h : PerformHeader} {test : Option TestPhrase}
    {varyingWord : Keyword "VARYING"} {item : Operand} {fromWord : Keyword "FROM"} {start : Operand}
    {step : Option (Keyword "BY" × Operand)} {untilWord : Keyword "UNTIL"} {text : ConditionText}
    (hphrase : h.phrase = .varying test varyingWord item fromWord start step untilWord text)
    (hwritten : AsWritten h) (hparse : parsePerform h.line = some stmt)
    (hlower : lowerPerform program stmt = some loop) :
    ∃ d, controlItem program (stripped item.tokens) = some d ∧
      loop = ⟨.forVarying d (stripped start.tokens) (stepText step) (stripped text.tokens),
        h.body⟩ := by
  obtain ⟨hopens, hrest⟩ := hwritten
  rw [hphrase] at hrest
  obtain ⟨hcapital, hfrom, hstep, huntil, havoids⟩ := hrest
  have htimes : ∀ t ∈ text.tokens, t.isWord "TIMES" = false :=
    fun t ht => havoids t ht "TIMES" (by simp)
  set rest := item.tokens ++ fromWord.token ::
    (start.tokens ++ (stepTokens step ++ untilWord.token :: text.tokens)) with hrestDef
  have hnoTest : NoTest (varyingWord.token :: rest) := by
    intro t ht
    simp only [hrestDef, List.mem_cons, List.mem_append] at ht
    rcases ht with rfl | ht | rfl | ht | ht | rfl | ht
    · exact varyingWord.not_isWord (by decide)
    · exact Token.isPlain_not (item.plain t ht) (by decide)
    · exact fromWord.not_isWord (by decide)
    · exact Token.isPlain_not (start.plain t ht) (by decide)
    · cases step with
      | none => exact absurd ht (by simp [stepTokens])
      | some b =>
          rcases List.mem_cons.1 ht with rfl | ht
          · exact b.1.not_isWord (by decide)
          · exact Token.isPlain_not (b.2.plain t ht) (by decide)
    · exact untilWord.not_isWord (by decide)
    · exact havoids t ht "TEST" (by simp)
  have hlast : ∀ before : List Token,
      (before ++ rest).getLast?.any (Token.isWord "TIMES") = false := by
    intro before
    have := getLast_not_times (before ++ (item.tokens ++ fromWord.token ::
      (start.tokens ++ (stepTokens step ++ [untilWord.token])))) text.nonempty htimes
    simpa [hrestDef] using this
  have hrestNe : rest ≠ [] := List.append_ne_nil_of_left_ne_nil item.nonempty _
  have hitem : ∀ t ∈ item.tokens, t.word ≠ "FROM".toList :=
    item.word_ne (by decide) (by decide)
  obtain ⟨hafter, k, hk, hremoved⟩ := removeTest_phrase (by rw [hphrase]; rfl) hnoTest
  have hvarying : k.isWord "VARYING" = true := by
    have := varyingWord.spelled
    rwa [Token.isWord, ← hk] at this
  obtain ⟨perform, procedure, phrase⟩ := h
  obtain rfl : phrase = _ := hphrase
  cases procedure with
  | inline =>
      have hstmt := parsePerform_inline (by rw [hopens]; rfl) hparse
      rw [hafter, hremoved] at hstmt
      rw [hremoved] at hopens
      -- an inline `VARYING` is recognised by the blanks around it
      obtain ⟨hblank, hfollows⟩ : k.blank = [' '] ∧ blankFollows rest = true := by
        have hnumber := not_isNumber hvarying (by decide)
        have huntilWord : k.isWord "UNTIL" = false := Token.not_isWord hvarying (by decide)
        have hwith : k.isWord "WITH" = false := Token.not_isWord hvarying (by decide)
        have hopensInline : opensInline (perform.token :: k :: rest) = true := hopens
        simpa [opensInline, hnumber, huntilWord, hwith, hvarying] using hopensInline
      have htext : stmt.untilCondition = ⟨[], k.word⟩ :: rest := by
        rw [hstmt]
        change inlineText (perform.token :: k :: rest) = _
        simp [inlineText, hblank, hvarying, hfollows, stripped]
      have hword : k.word = "VARYING".toList := hk.trans (hcapital rfl)
      rw [lowerPerform, htext] at hlower
      simp only [hword, decide_true, hfollows, Bool.and_self, if_true] at hlower
      obtain ⟨shape, hshape, rfl⟩ := Option.map_eq_some_iff.1 hlower
      obtain ⟨d, hd, rfl⟩ := lowerVarying_text rfl hitem hfrom hstep huntil havoids hshape
      refine ⟨d, hd, ?_⟩
      rw [hstmt]
      rfl
  | paragraph name =>
      have hstmt := parsePerform_outOfLine (by rw [hopens]; rfl) hparse
      rw [hafter, hremoved] at hstmt
      change parseOutOfLine _ (name.token :: k :: rest) = _ at hstmt
      obtain ⟨-, hstmt⟩ := Option.ite_none_right_eq_some.1 hstmt
      have hthru : k.isWord "THRU" = false := Token.not_isWord hvarying (by decide)
      have hne : rest.isEmpty = false := by simpa using hrestNe
      simp only [parseParagraphForm, hthru, Bool.false_and, Bool.false_eq_true, if_false,
        show (k :: rest).getLast?.any (Token.isWord "TIMES") = false from hlast [k],
        hvarying, hne, Bool.not_false, Bool.and_self, if_true, Option.some.injEq] at hstmt
      obtain ⟨x, more, hmore⟩ := List.exists_cons_of_ne_nil item.nonempty
      have htext : stmt.untilCondition = ⟨[], "VARYING".toList⟩ ::
          (({ x with blank := [' '] } :: more) ++ fromWord.token ::
            (start.tokens ++ (stepTokens step ++ untilWord.token :: text.tokens))) := by
        rw [← hstmt, hrestDef, hmore]
        rfl
      rw [lowerPerform, htext] at hlower
      simp only [decide_true, blankFollows, List.cons_append, List.head?_cons, Bool.and_self,
        if_true] at hlower
      obtain ⟨shape, hshape, rfl⟩ := Option.map_eq_some_iff.1 hlower
      have hitem' : ∀ t ∈ ({ x with blank := [' '] } :: more : List Token),
          t.word ≠ "FROM".toList := by
        rw [hmore] at hitem
        intro t ht
        rcases List.mem_cons.1 ht with rfl | ht
        · exact hitem x List.mem_cons_self
        · exact hitem t (List.mem_cons_of_mem _ ht)
      obtain ⟨d, hd, rfl⟩ := lowerVarying_text (v := ⟨[], "VARYING".toList⟩) rfl hitem' hfrom hstep
        huntil havoids hshape
      refine ⟨d, ?_, ?_⟩
      · rw [hmore]
        exact hd
      · rw [← hstmt]
        rfl
  | range first thru last =>
      have hstmt := parsePerform_outOfLine (by rw [hopens]; rfl) hparse
      rw [hafter, hremoved] at hstmt
      change parseOutOfLine _ (first.token :: thru.token :: last.token :: k :: rest) = _ at hstmt
      obtain ⟨-, hstmt⟩ := Option.ite_none_right_eq_some.1 hstmt
      rw [parseParagraphForm_range thru.spelled hrestNe (hlast [])] at hstmt
      exact absurd hstmt (by simp)

end Headers

end CobolJava.Transformation
