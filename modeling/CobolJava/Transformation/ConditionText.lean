/-
**Conditions and their texts.**

A condition is a tree of comparisons, NOT, AND and OR.  Its COBOL text has parentheses exactly where
the precedence of the three and their left associativity require them.  Literals hold any characters
of a line; a quote in a literal is written twice.

Main definitions:

* `Formula.QuotedLiteral`, `Formula.Operand` — what is compared;
* `Formula.ConditionTree` — the trees, with their truth;
* `Formula.ConditionPhrase` — texts with explicit parentheses;
* `Formula.ConditionTree.phrase`, `Formula.ConditionTree.text` — the text of a tree.

Main results:

* `Formula.ConditionTree.phrase_wellFormed`, `Formula.ConditionTree.phrase_holds` — the phrase of a
  tree has parentheses enough, and its truth;
* `Formula.ConditionPhrase.rewriteSignConditions_text` — a phrase holds no sign condition.
-/

import CobolJava.Transformation.ConditionReader
import CobolJava.Transformation.ExpressionPrecedence

set_option autoImplicit false

namespace CobolJava.Formula

open Py (isSpace)
open Py.Chars

/-! ### Operands -/

/-- A quoted literal. -/
structure QuotedLiteral where
  /-- The quote. -/
  quote : Char
  /-- The characters. -/
  content : Text
  /-- The quote is one of the two. -/
  isQuote : quote = '"' ∨ quote = '\''
  /-- The literal stands on one line. -/
  oneLine : '\n' ∉ content

/-- A character of a literal as it is written. -/
def QuotedLiteral.written (q : QuotedLiteral) (c : Char) : Text :=
  if c = q.quote then [c, c] else [c]

/-- What stands between the quotes. -/
def QuotedLiteral.raw (q : QuotedLiteral) : Text := q.content.flatMap q.written

def QuotedLiteral.text (q : QuotedLiteral) : Text := q.quote :: (q.raw ++ [q.quote])

/-- The sign of a numeric literal. -/
inductive LiteralSign
  | none
  | plus
  | minus
deriving DecidableEq, Repr

def LiteralSign.text : LiteralSign → Text
  | none => []
  | plus => ['+']
  | minus => ['-']

/-- What is compared: a data name, a numeric literal or a quoted one. -/
inductive Operand
  | name (n : DataName)
  | number (sign : LiteralSign) (l : UnsignedLiteral)
  | quoted (q : QuotedLiteral)

def Operand.text : Operand → Text
  | .name n => n.text
  | .number sign l => sign.text ++ l.text
  | .quoted q => q.text

/-- The operand in the intermediate representation. -/
def Operand.expression : Operand → Expression
  | .name n => .fieldReference n.text
  | .number sign l => .literal (sign.text ++ l.text) true (sign = .minus)
  | .quoted q => .literal q.raw false false

/-! ### Trees -/

/-- The relations between two operands. -/
inductive Relation
  | notEqual
  | notLess
  | notGreater
  | equal
  | greater
  | less
deriving DecidableEq, Repr

/-- The operator of a relation in the intermediate representation. -/
def Relation.operator : Relation → Operator
  | notEqual => .notEqual
  | notLess => .notLess
  | notGreater => .notGreater
  | equal => .equal
  | greater => .greater
  | less => .less

/-- AND and OR. -/
inductive Connective
  | and
  | or
deriving DecidableEq, Repr

namespace Connective

/-- The operator of the intermediate representation. -/
def operator : Connective → Operator
  | and => .and
  | or => .or

/-- How tightly a connective binds. -/
def level : Connective → ℕ
  | or => 1
  | and => 2

def holds (x y : Bool) : Connective → Bool
  | and => x && y
  | or => x || y

end Connective

/-- A condition. -/
inductive ConditionTree
  | comparison (l : Operand) (relation : Relation) (r : Operand)
  | negate (t : ConditionTree)
  | binary (op : Connective) (l r : ConditionTree)

/-- The truth of a condition, given that of its comparisons. -/
def ConditionTree.holds (comparisons : Expression → Operator → Expression → Bool) :
    ConditionTree → Bool
  | .comparison l relation r => comparisons l.expression relation.operator r.expression
  | .negate t => !t.holds comparisons
  | .binary op l r => op.holds (l.holds comparisons) (r.holds comparisons)

/-! ### Phrases -/

/-- The text of a condition with its parentheses. -/
inductive ConditionPhrase
  | comparison (l : Operand) (relation : Relation) (r : Operand)
  | paren (p : ConditionPhrase)
  | negate (p : ConditionPhrase)
  | binary (op : Connective) (l r : ConditionPhrase)

namespace ConditionPhrase

def level : ConditionPhrase → ℕ
  | comparison _ _ _ => 4
  | paren _ => 4
  | negate _ => 3
  | binary op _ _ => op.level

def text : ConditionPhrase → Text
  | comparison l relation r => l.text ++ ' ' :: (relation.operator.spelling ++ ' ' :: r.text)
  | paren p => '(' :: (p.text ++ [')'])
  | negate p => 'N' :: 'O' :: 'T' :: ' ' :: p.text
  | binary op l r => l.text ++ ' ' :: (op.operator.spelling ++ ' ' :: r.text)

def holds (comparisons : Expression → Operator → Expression → Bool) : ConditionPhrase → Bool
  | comparison l relation r => comparisons l.expression relation.operator r.expression
  | paren p => p.holds comparisons
  | negate p => !p.holds comparisons
  | binary op l r => op.holds (l.holds comparisons) (r.holds comparisons)

/-- A phrase, in parentheses if it is bound less tightly than a level. -/
def enclose (level : ℕ) (p : ConditionPhrase) : ConditionPhrase :=
  if p.level < level then paren p else p

theorem holds_enclose (p : ConditionPhrase) (n : ℕ)
    (comparisons : Expression → Operator → Expression → Bool) :
    (p.enclose n).holds comparisons = p.holds comparisons := by
  rw [enclose]
  split_ifs
  · rfl
  · rfl

end ConditionPhrase

/-! ### The text of a tree -/

/-- The phrase of a tree, with the parentheses that the operators require. -/
def ConditionTree.phrase : ConditionTree → ConditionPhrase
  | .comparison l relation r => .comparison l relation r
  | .negate t => .negate (t.phrase.enclose 4)
  | .binary op l r => .binary op (l.phrase.enclose op.level) (r.phrase.enclose (op.level + 1))

def ConditionTree.text (t : ConditionTree) : Text := t.phrase.text

theorem Connective.level_bounds (op : Connective) : 1 ≤ op.level ∧ op.level ≤ 2 := by
  cases op <;> decide

theorem ConditionTree.phrase_holds (t : ConditionTree)
    (comparisons : Expression → Operator → Expression → Bool) :
    t.phrase.holds comparisons = t.holds comparisons := by
  induction t with
  | comparison l relation r => rfl
  | negate t ih => rw [phrase, ConditionPhrase.holds, ConditionPhrase.holds_enclose, ih, holds]
  | binary op l r ihl ihr =>
      rw [phrase, ConditionPhrase.holds, ConditionPhrase.holds_enclose,
        ConditionPhrase.holds_enclose, ihl, ihr, holds]

/-! ### Literals blanked -/

/-- A character of a literal in the blanked copy. -/
def QuotedLiteral.blanked (q : QuotedLiteral) (c : Char) : Text :=
  if c = q.quote then [c, c] else ['_']

def QuotedLiteral.masked (q : QuotedLiteral) : Text :=
  q.quote :: (q.content.flatMap q.blanked ++ [q.quote])

theorem maskLiterals_plain {s : Text} (h : ∀ c ∈ s, c ≠ '"' ∧ c ≠ '\'') (rest : Text) :
    maskLiteralsFrom none (s ++ rest) = s ++ maskLiteralsFrom none rest := by
  induction s with
  | nil => rfl
  | cons c s ih =>
      obtain ⟨hdouble, hsingle⟩ := h c (List.mem_cons_self ..)
      rw [List.cons_append, maskLiteralsFrom, if_neg (by simp [hdouble, hsingle]),
        ih fun d hd => h d (List.mem_cons_of_mem _ hd)]
      rfl

/-- The rest of a literal behind its first quote is closed. -/
theorem closing_raw (q : QuotedLiteral) {content : Text} (hline : '\n' ∉ content) (rest : Text) :
    ∃ n, closing q.quote (content.flatMap q.written ++ q.quote :: rest) = some n := by
  cases content with
  | nil => exact ⟨0, by rw [List.flatMap_nil, List.nil_append, closing, if_pos rfl]⟩
  | cons c content =>
      induction content generalizing c with
      | nil =>
          rw [List.flatMap_cons, List.flatMap_nil, QuotedLiteral.written]
          split_ifs with hc
          · exact ⟨0, by simp [closing, hc]⟩
          · have hne : c ≠ '\n' := by
              rintro rfl
              exact hline (List.mem_cons_self ..)
            exact ⟨1, by simp [closing, hc, hne]⟩
      | cons d content ih =>
          rw [List.flatMap_cons, QuotedLiteral.written]
          split_ifs with hc
          · exact ⟨0, by simp [closing, hc]⟩
          · have hne : c ≠ '\n' := by
              rintro rfl
              exact hline (List.mem_cons_self ..)
            obtain ⟨n, hn⟩ := ih d fun hmem => hline (List.mem_cons_of_mem _ hmem)
            refine ⟨n + 1, ?_⟩
            rw [List.append_assoc, List.singleton_append, closing, if_neg hc, if_neg hne, hn]
            rfl

/-- The rest of a literal behind its first quote is blanked. -/
theorem maskLiterals_inside (q : QuotedLiteral) {content : Text} (hline : '\n' ∉ content)
    (rest : Text) :
    maskLiteralsFrom (closing q.quote (content.flatMap q.written ++ q.quote :: rest))
        (content.flatMap q.written ++ q.quote :: rest) =
      content.flatMap q.blanked ++ q.quote :: maskLiteralsFrom none rest := by
  induction content with
  | nil =>
      rw [List.flatMap_nil, List.flatMap_nil, List.nil_append, closing, if_pos rfl,
        maskLiteralsFrom, List.nil_append]
  | cons c content ih =>
      have hline' : '\n' ∉ content := fun hmem => hline (List.mem_cons_of_mem _ hmem)
      rw [List.flatMap_cons, List.flatMap_cons, QuotedLiteral.written, QuotedLiteral.blanked]
      split_ifs with hc
      · -- the first of two quotes closes, the second one opens again
        have hquote : c = '"' ∨ c = '\'' := by
          rw [hc]
          exact q.isQuote
        have hopen := ih hline'
        rw [← hc] at hopen ⊢
        simp only [List.cons_append, List.nil_append]
        rw [closing, if_pos rfl, maskLiteralsFrom, maskLiteralsFrom, if_pos hquote, hopen]
      · have hne : c ≠ '\n' := by
          rintro rfl
          exact hline (List.mem_cons_self ..)
        obtain ⟨n, hn⟩ := closing_raw q hline' rest
        have hinside := ih hline'
        rw [hn] at hinside
        simp only [List.cons_append, List.nil_append]
        rw [closing, if_neg hc, if_neg hne, hn, Option.map_some, maskLiteralsFrom, hinside]

theorem maskLiterals_quoted (q : QuotedLiteral) (rest : Text) :
    maskLiteralsFrom none (q.text ++ rest) = q.masked ++ maskLiteralsFrom none rest := by
  rw [QuotedLiteral.text, QuotedLiteral.raw, QuotedLiteral.masked, List.cons_append,
    List.append_assoc, List.singleton_append, maskLiteralsFrom, if_pos q.isQuote,
    maskLiterals_inside q q.oneLine]
  simp

/-! ### Phrases blanked -/

/-- An operand in the blanked copy. -/
def Operand.masked : Operand → Text
  | .quoted q => q.masked
  | x => x.text

def ConditionPhrase.masked : ConditionPhrase → Text
  | .comparison l relation r => l.masked ++ ' ' :: (relation.operator.spelling ++ ' ' :: r.masked)
  | .paren p => '(' :: (p.masked ++ [')'])
  | .negate p => 'N' :: 'O' :: 'T' :: ' ' :: p.masked
  | .binary op l r => l.masked ++ ' ' :: (op.operator.spelling ++ ' ' :: r.masked)

theorem DataName.not_quote (n : DataName) : ∀ c ∈ n.text, c ≠ '"' ∧ c ≠ '\'' := by
  intro c hc
  rcases n.chars c hc with h | rfl
  · exact ⟨ne_of_alphanum h (by decide), ne_of_alphanum h (by decide)⟩
  · decide

theorem number_chars (sign : LiteralSign) (l : UnsignedLiteral) :
    ∀ c ∈ sign.text ++ l.text, c.isDigit = true ∨ c = '.' ∨ c = '+' ∨ c = '-' := by
  intro c hc
  rcases List.mem_append.1 hc with hc | hc
  · cases sign with
    | none => cases hc
    | plus => exact .inr (.inr (.inl (List.mem_singleton.1 hc)))
    | minus => exact .inr (.inr (.inr (List.mem_singleton.1 hc)))
  · rcases l.text_chars c hc with h | h
    · exact .inl h
    · exact .inr (.inl h)

theorem Operand.maskLiterals_text (x : Operand) (rest : Text) :
    maskLiteralsFrom none (x.text ++ rest) = x.masked ++ maskLiteralsFrom none rest := by
  cases x with
  | name n => exact maskLiterals_plain n.not_quote rest
  | number sign l =>
      refine maskLiterals_plain (fun c hc => ?_) rest
      rcases number_chars sign l c hc with h | rfl | rfl | rfl
      · have halnum := isAlphanum_of_isDigit h
        exact ⟨ne_of_alphanum halnum (by decide), ne_of_alphanum halnum (by decide)⟩
      · decide
      · decide
      · decide
  | quoted q => exact maskLiterals_quoted q rest

theorem ConditionPhrase.maskLiterals_text (p : ConditionPhrase) (rest : Text) :
    maskLiteralsFrom none (p.text ++ rest) = p.masked ++ maskLiteralsFrom none rest := by
  have hjoin : ∀ spelling tail : Text, (∀ c ∈ spelling, c ≠ '"' ∧ c ≠ '\'') →
      maskLiteralsFrom none (' ' :: (spelling ++ ' ' :: tail)) =
        ' ' :: (spelling ++ ' ' :: maskLiteralsFrom none tail) := by
    intro spelling tail hspelling
    have hspace : ∀ c ∈ [' '], c ≠ '"' ∧ c ≠ '\'' := by decide
    have htext : ' ' :: (spelling ++ ' ' :: tail) = [' '] ++ (spelling ++ ([' '] ++ tail)) := rfl
    rw [htext, maskLiterals_plain hspace, maskLiterals_plain hspelling, maskLiterals_plain hspace]
    rfl
  induction p generalizing rest with
  | comparison l relation r =>
      have hspelling : ∀ c ∈ relation.operator.spelling, c ≠ '"' ∧ c ≠ '\'' := by
        cases relation <;> decide
      rw [text, List.append_assoc, l.maskLiterals_text, List.cons_append, List.append_assoc,
        List.cons_append, hjoin _ _ hspelling, r.maskLiterals_text, masked]
      simp
  | paren p ih =>
      have hopen : ∀ c ∈ ['('], c ≠ '"' ∧ c ≠ '\'' := by decide
      have hclose : ∀ c ∈ [')'], c ≠ '"' ∧ c ≠ '\'' := by decide
      rw [text, List.cons_append, ← List.singleton_append, maskLiterals_plain hopen,
        List.append_assoc, ih, maskLiterals_plain hclose, masked]
      simp
  | negate p ih =>
      have hnot : ∀ c ∈ ['N', 'O', 'T', ' '], c ≠ '"' ∧ c ≠ '\'' := by decide
      have htext : (negate p).text ++ rest = ['N', 'O', 'T', ' '] ++ (p.text ++ rest) := rfl
      rw [htext, maskLiterals_plain hnot, ih, masked]
      simp
  | binary op l r ihl ihr =>
      have hspelling : ∀ c ∈ op.operator.spelling, c ≠ '"' ∧ c ≠ '\'' := by
        cases op <;> decide
      rw [text, List.append_assoc, ihl, List.cons_append, List.append_assoc,
        List.cons_append, hjoin _ _ hspelling, ihr, masked]
      simp

/-! ### No sign conditions -/

/-- No word of an operand starts with the word of a sign condition. -/
theorem Operand.signFree_masked (x : Operand) : SignFreeWords x.masked := by
  cases x with
  | name n =>
      refine .of_word (fun c hc => ?_) ?_
      · rcases n.chars c hc with h | rfl
        · exact isSpace_of_alphanum h
        · decide
      · have hall : n.text.takeWhile isNameChar = n.text := by
          refine List.takeWhile_eq_self_iff.2 fun c hc => ?_
          rcases n.chars c hc with h | rfl
          · simp [isNameChar, isWordChar, h]
          · decide
        have hreserved : ∀ w ∈ signWords, w ∈ reservedWords := by decide
        change signFreeWord n.text = true
        rw [signFreeWord, hall, Bool.not_eq_true', ← Bool.not_eq_true, List.contains_iff_mem]
        exact fun hmem => n.free (hreserved _ hmem)
  | number sign l =>
      refine .of_word (fun c hc => ?_) ?_
      · rcases number_chars sign l c hc with h | rfl | rfl | rfl
        · exact isSpace_of_alphanum (isAlphanum_of_isDigit h)
        · decide
        · decide
        · decide
      · rw [signFreeWord, Bool.not_eq_true', ← Bool.not_eq_true, List.contains_iff_mem]
        intro hmem
        -- the words consist of letters, the numeral has none
        have hletters : ∀ w ∈ signWords, w ≠ [] ∧ ∀ c ∈ w, c.isAlpha = true := by decide
        obtain ⟨hne, halpha⟩ := hletters _ hmem
        obtain ⟨c, hc⟩ := List.exists_mem_of_ne_nil _ hne
        obtain ⟨d, hd, rfl⟩ := List.mem_map.1 hc
        have hdalpha := isAlpha_of_toUpper (halpha _ hc)
        have hdigit := number_chars sign l d ((List.takeWhile_prefix _).subset hd)
        rcases hdigit with h | rfl | rfl | rfl
        · rw [not_isAlpha_of_isDigit h] at hdalpha
          cases hdalpha
        · exact absurd hdalpha (by decide)
        · exact absurd hdalpha (by decide)
        · exact absurd hdalpha (by decide)
  | quoted q =>
      have hquote : isNameChar q.quote = false ∧ isSpace q.quote = false := by
        rcases q.isQuote with h | h
        · rw [h]
          decide
        · rw [h]
          decide
      refine .of_word (fun c hc => ?_) (signFreeWord_of_head hquote.1 _)
      rcases List.mem_cons.1 hc with rfl | hc
      · exact hquote.2
      · rcases List.mem_append.1 hc with hc | hc
        · obtain ⟨d, -, hd⟩ := List.mem_flatMap.1 hc
          rw [QuotedLiteral.blanked] at hd
          split_ifs at hd with hdq
          · have : c = d := by simpa using hd
            rw [this, hdq]
            exact hquote.2
          · rw [List.mem_singleton.1 hd]
            decide
        · rw [List.mem_singleton.1 hc]
          exact hquote.2

theorem ConditionPhrase.signFree_masked (p : ConditionPhrase) : SignFreeWords p.masked := by
  have hoperator : ∀ op ∈ logicalOperators ++ relationalOperators, SignFreeWords op.spelling := by
    intro op hop
    have hall : ∀ op ∈ logicalOperators ++ relationalOperators,
        (∀ c ∈ op.spelling, isSpace c = false) ∧ signFreeWord op.spelling = true := by decide
    exact .of_word (hall op hop).1 (hall op hop).2
  induction p with
  | comparison l relation r =>
      have hmem : relation.operator ∈ logicalOperators ++ relationalOperators := by
        cases relation <;> decide
      exact l.signFree_masked.append (by decide) ((hoperator _ hmem).append (by decide)
        r.signFree_masked)
  | paren p ih =>
      exact (ih.concat (by decide) (by decide)).cons (by decide) (by decide)
  | negate p ih =>
      have hnot : SignFreeWords ['N', 'O', 'T'] := .of_word (by decide) (by decide)
      exact hnot.append (by decide) ih
  | binary op l r ihl ihr =>
      have hmem : op.operator ∈ logicalOperators ++ relationalOperators := by
        cases op <;> decide
      exact ihl.append (by decide) ((hoperator _ hmem).append (by decide) ihr)

theorem ConditionPhrase.rewriteSignConditions_text (p : ConditionPhrase) :
    rewriteSignConditions p.text = p.text := by
  refine rewriteSignConditions_of_signFree ?_
  have hmask := p.maskLiterals_text []
  rw [List.append_nil] at hmask
  rw [maskLiterals, hmask, maskLiteralsFrom, List.append_nil]
  exact p.signFree_masked.signFree

end CobolJava.Formula
