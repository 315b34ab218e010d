/-
**Searching the text of a condition.**

The search for an operator passes a text in which it finds nothing when the text stands alone, and
whose parentheses are balanced.  So it finds the first connective of a phrase whose operands it
passes.

Main definitions:

* `Formula.Passed` — the texts that the search for an operator passes;
* `Formula.ConditionPhrase.orderly` — the phrases that are read as they are meant.

Main results:

* `Formula.Passed.find` — the search finds the operator behind a text that it passes;
* `Formula.ConditionPhrase.passed` — **the search for a connective passes an orderly phrase that has
  another one outside of parentheses**;
* `Formula.ConditionPhrase.parenthesized_text` — the phrases in parentheses.
-/

import CobolJava.Transformation.ConditionText

set_option autoImplicit false

namespace CobolJava.Formula

open Py (isSpace isFloat)
open Py.Chars

/-! ### Texts that are passed -/

/-- The search for an operator passes a text, with a blank or nothing behind it. -/
def Passed (op : Operator) (s : Text) : Prop :=
  ∀ before after : Text, (after = [] ∨ after.head? = some ' ') →
    Infix.findLeft (operatorStarts op) before (s ++ after) 0 =
      Infix.findLeft (operatorStarts op) (s.reverse ++ before) after 0

theorem Operator.not_blank (op : Operator) : ∀ c ∈ op.spelling, c ≠ ' ' ∧ c ≠ '(' ∧ c ≠ ')' := by
  cases op <;> decide

theorem Operator.spelling_ne_nil (op : Operator) : op.spelling ≠ [] := by
  cases op <;> decide

theorem Operator.upper_spelling (op : Operator) : upper op.spelling = op.spelling := by
  cases op <;> decide

theorem operatorStarts_of_head {op : Operator} {c : Char} (h : op.spelling.head? ≠ some c.toUpper)
    (before rest : Text) : operatorStarts op before (c :: rest) = none := by
  rw [operatorStarts, if_neg]
  rintro ⟨hspelled, -⟩
  obtain ⟨d, spelling, hd⟩ := List.exists_cons_of_ne_nil op.spelling_ne_nil
  rw [hd, List.length_cons, List.take_succ_cons, upper, List.map_cons, List.cons.injEq] at hspelled
  rw [hd, List.head?_cons, hspelled.1] at h
  exact h rfl

theorem findLeft_blank (op : Operator) (before rest : Text) :
    Infix.findLeft (operatorStarts op) before (' ' :: rest) 0 =
      Infix.findLeft (operatorStarts op) (' ' :: before) rest 0 := by
  have hhead : op.spelling.head? ≠ some ' '.toUpper := by
    intro h
    exact (op.not_blank ' ' (List.mem_of_mem_head? h)).1 rfl
  rw [Infix.findLeft, if_neg (by decide), if_neg (by decide), if_pos rfl,
    operatorStarts_of_head hhead]

/-- An operator that starts in a text with something around it starts in the text alone. -/
theorem operatorStarts_context {op : Operator} {a t before after : Text}
    (hafter : after = [] ∨ after.head? = some ' ') (h : operatorStarts op a t = none) :
    operatorStarts op (a ++ before) (t ++ after) = none := by
  rw [operatorStarts, if_neg]
  rintro ⟨hspelled, hbefore, hbehind⟩
  have hlen : op.spelling.length ≤ t.length := by
    by_contra hshort
    -- the blank behind the text would be a part of the operator
    rcases hafter with rfl | hafter
    · have := congrArg List.length hspelled
      rw [List.append_nil, upper, List.length_map, List.length_take] at this
      omega
    · cases after with
      | nil => cases hafter
      | cons c rest =>
          obtain rfl : c = ' ' := Option.some.inj hafter
          obtain ⟨k, hk⟩ := Nat.exists_eq_succ_of_ne_zero
            (show op.spelling.length - t.length ≠ 0 by omega)
          have hmem : ' ' ∈ op.spelling := by
            rw [← hspelled, upper, List.mem_map]
            refine ⟨' ', ?_, by decide⟩
            rw [List.take_append, List.mem_append, hk, List.take_succ_cons]
            exact .inr (List.mem_cons_self ..)
          exact (op.not_blank _ hmem).1 rfl
  rw [List.take_append_of_le_length hlen] at hspelled
  rw [List.drop_append_of_le_length hlen] at hbehind
  have hbefore' : isAlnum a.head? = false := by
    cases a with
    | nil => rfl
    | cons c a => simpa using hbefore
  have hbehind' : isAlnum (t.drop op.spelling.length).head? = false := by
    cases hdrop : t.drop op.spelling.length with
    | nil => rfl
    | cons c rest =>
        rw [hdrop] at hbehind
        simpa using hbehind
  rw [operatorStarts, if_pos ⟨hspelled, by rw [hbefore']; decide, by rw [hbehind']; decide⟩] at h
  cases h

theorem Passed.of_none {op : Operator} {s : Text} (hnone : findBinaryOperator s op = none)
    (hdepth : Infix.depthAfter 0 s = 0) : Passed op s := by
  intro before after hafter
  have hquiet : ∀ a t : Text, s = a ++ t → t ≠ [] → operatorStarts op a.reverse t = none →
      operatorStarts op (a.reverse ++ before) (t ++ after) = none :=
    fun a t _ _ hnone => operatorStarts_context hafter hnone
  have hcontext := Infix.findLeft_context hquiet (a := []) (t := s) rfl hnone
  rw [hdepth] at hcontext
  exact hcontext

theorem Passed.of_nested {op : Operator} {s : Text} (hnone : findBinaryOperator s op = none)
    (hnested : Infix.Nested s) : Passed op s := by
  refine .of_none hnone ?_
  have hdepth := Infix.depthAfter_nested hnested 0 []
  rwa [List.append_nil] at hdepth

theorem Passed.none {op : Operator} {s : Text} (h : Passed op s) : findBinaryOperator s op = none := by
  have hpass := h [] [] (.inl rfl)
  rw [List.append_nil] at hpass
  rw [findBinaryOperator, hpass, Infix.findLeft]

theorem Passed.append {op : Operator} {s t : Text} (hs : Passed op s) (ht : Passed op t) :
    Passed op (s ++ ' ' :: t) := by
  intro before after hafter
  rw [List.append_assoc, hs _ _ (.inr rfl), List.cons_append, findLeft_blank, ht _ _ hafter]
  simp

theorem Passed.group (op : Operator) {s : Text} (hs : Infix.Nested s) :
    Passed op ('(' :: (s ++ [')'])) :=
  fun before after _ => Infix.findLeft_group hs before after

theorem Passed.find {op : Operator} {s : Text} (hs : Passed op s) (rest : Text) :
    findBinaryOperator (s ++ ' ' :: (op.spelling ++ ' ' :: rest)) op = some (s.length + 1) := by
  obtain ⟨d, spelling, hd⟩ := List.exists_cons_of_ne_nil op.spelling_ne_nil
  have hfirst := op.not_blank d (by rw [hd]; exact List.mem_cons_self ..)
  have hstarts : operatorStarts op (' ' :: (s.reverse ++ [])) (op.spelling ++ ' ' :: rest) =
      some (s.length + 1) := by
    rw [operatorStarts, List.take_left, List.drop_left, if_pos]
    · simp
    · exact ⟨op.upper_spelling, by simp [isAlnum], by simp [isAlnum]⟩
  rw [findBinaryOperator, hs _ _ (.inr rfl), findLeft_blank]
  rw [hd, List.cons_append] at hstarts ⊢
  rw [Infix.findLeft, if_neg hfirst.2.1, if_neg hfirst.2.2, if_pos rfl, hstarts]

theorem take_drop_operator (op : Operator) (s rest : Text) :
    (s ++ ' ' :: (op.spelling ++ ' ' :: rest)).take (s.length + 1) = s ++ [' '] ∧
      (s ++ ' ' :: (op.spelling ++ ' ' :: rest)).drop (s.length + 1 + op.spelling.length) =
        ' ' :: rest := by
  constructor
  · rw [List.take_length_add_append]
    rfl
  · rw [Nat.add_assoc, List.drop_length_add_append, Nat.add_comm, List.drop_succ_cons,
      List.drop_left]

/-! ### Orderly phrases -/

/-- The search for an operator finds nothing in an operand. -/
def Operand.avoids (op : Operator) (x : Operand) : Bool := findBinaryOperator x.text op = none

/-- A name that is read as a name; a literal with nested parentheses. -/
def Operand.reads : Operand → Bool
  | .name n => Phrase.readsName n
  | .number _ _ => true
  | .quoted q => Infix.isNested 0 q.text

/-- An operand that is read as it is meant, without a connective outside of its parentheses. -/
def Operand.orderly (x : Operand) : Bool := x.reads && x.avoids .and && x.avoids .or

/-- The relational operators that are searched before the one of a relation. -/
def Relation.earlier (relation : Relation) : List Operator :=
  relationalOperators.takeWhile (· ≠ relation.operator)

/-- No relational operator is found before the one of a relation. -/
def Relation.apart (l r : Operand) (relation : Relation) : Bool :=
  relation.earlier.all (fun op => l.avoids op && r.avoids op) && l.avoids relation.operator

namespace ConditionPhrase

/-- A phrase whose connectives outside of parentheses connect comparisons and parentheses. -/
def primary : ConditionPhrase → Bool
  | comparison _ _ _ => true
  | paren _ => true
  | negate _ => false
  | binary _ l r => l.primary && r.level = 4

/-- Outside of parentheses, AND and OR do not stand together, and NOT stands before the last operand
only; operands are read as they are meant, and no literal has an operator. -/
def orderly : ConditionPhrase → Bool
  | comparison l relation r => l.orderly && r.orderly && relation.apart l r
  | paren p => p.orderly
  | negate p => p.orderly && p.level = 4
  | binary op l r =>
      l.orderly && r.orderly && l.primary && (l.level = 4 || l.level = op.level) && 3 ≤ r.level

/-- Whether a phrase starts with NOT. -/
def leadingNot : ConditionPhrase → Bool
  | negate _ => true
  | binary _ l _ => l.leadingNot
  | _ => false

attribute [grind =] orderly

end ConditionPhrase

theorem ConditionPhrase.not_leadingNot {p : ConditionPhrase} (h : p.primary = true) :
    p.leadingNot = false := by
  induction p with
  | comparison l relation r => rfl
  | paren p ih => rfl
  | negate p ih => cases h
  | binary op l r ihl ihr =>
      rw [primary, Bool.and_eq_true] at h
      exact ihl h.1

/-! ### Operands -/

theorem Operand.nested {x : Operand} (h : x.orderly = true) : Infix.Nested x.text := by
  rw [orderly, Bool.and_eq_true, Bool.and_eq_true] at h
  cases x with
  | name n => exact .of_plain fun c hc => n.char_ne_paren hc
  | number sign l =>
      refine .of_plain fun c hc => ?_
      rcases number_chars sign l c hc with h | rfl | rfl | rfl
      · have halnum := isAlphanum_of_isDigit h
        exact ⟨ne_of_alphanum halnum (by decide), ne_of_alphanum halnum (by decide)⟩
      · decide
      · decide
      · decide
  | quoted q => exact Infix.nested_of_isNested h.1.1

theorem Operand.passed {op : Operator} {x : Operand} (h : x.orderly = true)
    (hop : x.avoids op = true) : Passed op x.text :=
  .of_nested (of_decide_eq_true hop) (Operand.nested h)

theorem Operand.passed_connective {x : Operand} (h : x.orderly = true) (op : Connective) :
    Passed op.operator x.text := by
  have horderly := h
  rw [orderly, Bool.and_eq_true, Bool.and_eq_true] at horderly
  cases op with
  | and => exact Operand.passed h horderly.1.2
  | or => exact Operand.passed h horderly.2

theorem passed_relation (op : Connective) (relation : Relation) :
    Passed op.operator relation.operator.spelling := by
  refine .of_none ?_ ?_
  · cases op <;> cases relation <;> decide
  · cases relation <;> decide

/-! ### Phrases -/

theorem ConditionPhrase.text_nested {p : ConditionPhrase} (h : p.orderly = true) :
    Infix.Nested p.text := by
  induction p with
  | comparison l relation r =>
      rw [orderly, Bool.and_eq_true, Bool.and_eq_true] at h
      have hspelling : Infix.Nested relation.operator.spelling :=
        .of_plain fun c hc => (relation.operator.not_blank c hc).2
      exact (Operand.nested h.1.1).append (.char (by decide) (by decide)
        (hspelling.append (.char (by decide) (by decide) (Operand.nested h.1.2))))
  | paren p ih => exact (ih h).parens
  | negate p ih =>
      rw [orderly, Bool.and_eq_true] at h
      exact .char (by decide) (by decide) (.char (by decide) (by decide)
        (.char (by decide) (by decide) (.char (by decide) (by decide) (ih h.1))))
  | binary op l r ihl ihr =>
      rw [orderly, Bool.and_eq_true, Bool.and_eq_true, Bool.and_eq_true, Bool.and_eq_true] at h
      have hspelling : Infix.Nested op.operator.spelling :=
        .of_plain fun c hc => (op.operator.not_blank c hc).2
      exact (ihl h.1.1.1.1).append (.char (by decide) (by decide)
        (hspelling.append (.char (by decide) (by decide) (ihr h.1.1.1.2))))

/-- The search for a connective passes an orderly phrase that has another one, or none. -/
theorem ConditionPhrase.passed (op : Connective) {p : ConditionPhrase} (h : p.orderly = true)
    (hlevel : p.level ≠ op.level) : Passed op.operator p.text := by
  induction p with
  | comparison l relation r =>
      rw [orderly, Bool.and_eq_true, Bool.and_eq_true] at h
      exact (Operand.passed_connective h.1.1 op).append
        ((passed_relation op relation).append (Operand.passed_connective h.1.2 op))
  | paren p ih => exact .group op.operator (text_nested h)
  | negate p ih =>
      rw [orderly, Bool.and_eq_true, decide_eq_true_eq] at h
      have hnot : Passed op.operator ['N', 'O', 'T'] := by
        refine .of_none ?_ (by decide)
        cases op <;> decide
      refine hnot.append (ih h.1 ?_)
      have := op.level_bounds
      omega
  | binary op' l r ihl ihr =>
      rw [orderly, Bool.and_eq_true, Bool.and_eq_true, Bool.and_eq_true, Bool.and_eq_true,
        Bool.or_eq_true, decide_eq_true_eq, decide_eq_true_eq, decide_eq_true_eq] at h
      rw [level] at hlevel
      have hbounds := op.level_bounds
      have hother : Passed op.operator op'.operator.spelling := by
        refine .of_none ?_ ?_
        · cases op <;> cases op' <;> first | decide | exact absurd rfl hlevel
        · cases op' <;> decide
      exact (ihl h.1.1.1.1 (by omega)).append (hother.append (ihr h.1.1.1.2 (by omega)))

/-! ### How a phrase starts and ends -/

/-- How the text of an operand starts. -/
theorem Operand.start (x : Operand) :
    ∃ c rest, x.text = c :: rest ∧ c ≠ '(' ∧ isSpace c = false ∧
      ((∃ n, x = .name n) ∨ c.isAlpha = false) := by
  cases x with
  | name n =>
      obtain ⟨c, rest, hn, hc⟩ := n.exists_cons
      exact ⟨c, rest, hn, ne_of_alphanum hc (by decide), isSpace_of_alphanum hc, .inl ⟨n, rfl⟩⟩
  | number sign l =>
      obtain ⟨c, rest, hl, hc⟩ := l.exists_cons
      cases sign with
      | none =>
          refine ⟨c, rest, hl, ?_⟩
          rcases hc with hc | rfl
          · have halnum := isAlphanum_of_isDigit hc
            exact ⟨ne_of_alphanum halnum (by decide), isSpace_of_alphanum halnum,
              .inr (not_isAlpha_of_isDigit hc)⟩
          · exact ⟨by decide, by decide, .inr (by decide)⟩
      | plus => exact ⟨'+', l.text, rfl, by decide, by decide, .inr (by decide)⟩
      | minus => exact ⟨'-', l.text, rfl, by decide, by decide, .inr (by decide)⟩
  | quoted q =>
      refine ⟨q.quote, q.raw ++ [q.quote], rfl, ?_⟩
      rcases q.isQuote with h | h
      · rw [h]
        exact ⟨by decide, by decide, .inr (by decide)⟩
      · rw [h]
        exact ⟨by decide, by decide, .inr (by decide)⟩

theorem Operand.exists_last (x : Operand) :
    ∃ c, x.text.getLast? = some c ∧ isSpace c = false := by
  cases x with
  | name n =>
      obtain ⟨c, hc, hkind⟩ := (Phrase.name n).exists_last
      refine ⟨c, hc, ?_⟩
      rcases hkind with h | rfl
      · exact isSpace_of_alphanum h
      · decide
  | number sign l =>
      obtain ⟨c, hc, hkind⟩ := (Phrase.literal l).exists_last
      refine ⟨c, ?_, ?_⟩
      · rw [text, List.getLast?_append, show l.text.getLast? = some c from hc]
        rfl
      · rcases hkind with h | rfl
        · exact isSpace_of_alphanum h
        · decide
  | quoted q =>
      refine ⟨q.quote, ?_, ?_⟩
      · rw [text, QuotedLiteral.text, ← List.cons_append, List.getLast?_concat]
      · rcases q.isQuote with h | h
        · rw [h]
          decide
        · rw [h]
          decide

theorem Operand.strip_text (x : Operand) : strip x.text = x.text := by
  obtain ⟨c, rest, hx, -, hspace, -⟩ := x.start
  obtain ⟨d, hlast, hd⟩ := x.exists_last
  refine strip_of_ends (fun e he => ?_) fun e he => ?_
  · rw [hx, List.head?_cons, Option.mem_some_iff] at he
    rw [← he]
    exact hspace
  · rw [hlast, Option.mem_some_iff] at he
    rw [← he]
    exact hd

/-- How the text of a phrase starts. -/
inductive ConditionStart (p : ConditionPhrase) : Prop
  | operand (x : Operand) (rest : Text) (htext : p.text = x.text ++ ' ' :: rest) : ConditionStart p
  | paren (q : ConditionPhrase) (rest : Text) (htext : p.text = '(' :: (q.text ++ ')' :: rest))
      (hrest : p = .paren q ∨ rest ≠ []) (horderly : p.orderly = true → q.orderly = true) :
      ConditionStart p
  | negate (rest : Text) (htext : p.text = 'N' :: 'O' :: 'T' :: ' ' :: rest)
      (hnot : p.leadingNot = true) : ConditionStart p

theorem ConditionPhrase.start (p : ConditionPhrase) : ConditionStart p := by
  induction p with
  | comparison l relation r => exact .operand l _ rfl
  | paren p ih => exact .paren p [] rfl (.inl rfl) id
  | negate p ih => exact .negate p.text rfl rfl
  | binary op l r ihl ihr =>
      have htext : (binary op l r).text =
        l.text ++ (' ' :: (op.operator.spelling ++ ' ' :: r.text)) := rfl
      cases ihl with
      | operand x rest hl =>
          refine .operand x (rest ++ (' ' :: (op.operator.spelling ++ ' ' :: r.text))) ?_
          rw [htext, hl]
          simp
      | paren q rest hl hrest horderly =>
          refine .paren q (rest ++ (' ' :: (op.operator.spelling ++ ' ' :: r.text))) ?_
            (.inr (by simp)) fun h => horderly ?_
          · rw [htext, hl]
            simp
          · rw [orderly, Bool.and_eq_true, Bool.and_eq_true, Bool.and_eq_true, Bool.and_eq_true] at h
            exact h.1.1.1.1
      | negate rest hl hnot =>
          refine .negate (rest ++ (' ' :: (op.operator.spelling ++ ' ' :: r.text))) ?_ hnot
          rw [htext, hl]
          rfl

theorem ConditionPhrase.exists_last (p : ConditionPhrase) :
    ∃ c, p.text.getLast? = some c ∧ isSpace c = false := by
  induction p with
  | comparison l relation r =>
      obtain ⟨c, hc, hspace⟩ := r.exists_last
      refine ⟨c, ?_, hspace⟩
      rw [text, List.getLast?_append, List.getLast?_cons, List.getLast?_append, List.getLast?_cons, hc]
      rfl
  | paren p ih =>
      exact ⟨')', by rw [text, ← List.cons_append, List.getLast?_concat], by decide⟩
  | negate p ih =>
      obtain ⟨c, hc, hspace⟩ := ih
      refine ⟨c, ?_, hspace⟩
      rw [text, List.getLast?_cons, List.getLast?_cons, List.getLast?_cons, List.getLast?_cons, hc]
      rfl
  | binary op l r ihl ihr =>
      obtain ⟨c, hc, hspace⟩ := ihr
      refine ⟨c, ?_, hspace⟩
      rw [text, List.getLast?_append, List.getLast?_cons, List.getLast?_append, List.getLast?_cons, hc]
      rfl

theorem ConditionPhrase.strip_text (p : ConditionPhrase) : strip p.text = p.text := by
  obtain ⟨d, hlast, hd⟩ := p.exists_last
  refine strip_of_ends (fun e he => ?_) fun e he => ?_
  · cases p.start with
    | operand x rest htext =>
        obtain ⟨c, rest', hx, -, hspace, -⟩ := x.start
        rw [htext, hx, List.cons_append, List.head?_cons, Option.mem_some_iff] at he
        rw [← he]
        exact hspace
    | paren q rest htext _ _ =>
        rw [htext, List.head?_cons, Option.mem_some_iff] at he
        rw [← he]
        decide
    | negate rest htext _ =>
        rw [htext, List.head?_cons, Option.mem_some_iff] at he
        rw [← he]
        decide
  · rw [hlast, Option.mem_some_iff] at he
    rw [← he]
    exact hd

/-! ### Outer parentheses and NOT -/

theorem closesLate_open {depth : ℤ} (h : 0 ≤ depth) (rest : Text) :
    closesLate depth ('(' :: rest) = closesLate (depth + 1) rest := by
  rw [closesLate, if_pos rfl]
  exact if_neg fun hzero => by omega

theorem closesLate_close {depth : ℤ} (h : 1 < depth) (rest : Text) :
    closesLate depth (')' :: rest) = closesLate (depth - 1) rest := by
  have hchar : ')' ≠ '(' := by decide
  rw [closesLate, if_neg hchar, if_pos rfl]
  exact if_neg fun hzero => by omega

theorem closesLate_char {c : Char} (hopen : c ≠ '(') (hclose : c ≠ ')') {depth : ℤ} (h : 0 < depth)
    (rest : Text) : closesLate depth (c :: rest) = closesLate depth rest := by
  rw [closesLate, if_neg hopen, if_neg hclose]
  exact if_neg fun hzero => by omega

theorem closesLate_nested {s : Text} (hs : Infix.Nested s) {depth : ℤ} (hdepth : 0 < depth)
    (rest : Text) : closesLate depth (s ++ rest) = closesLate depth rest := by
  induction hs generalizing depth rest with
  | nil => rfl
  | char hopen hclose _ ih =>
      rw [List.cons_append, closesLate_char hopen hclose hdepth, ih hdepth]
  | group _ _ ihs iht =>
      rw [List.cons_append, List.append_assoc, List.cons_append, closesLate_open hdepth.le,
        ihs (by omega), closesLate_close (by omega), Int.add_sub_cancel, iht hdepth]

/-- A phrase in parentheses is enclosed, no other is. -/
theorem ConditionPhrase.parenthesized_text {p : ConditionPhrase} (h : p.orderly = true) :
    parenthesized p.text = true ↔ ∃ q, p = paren q := by
  constructor
  · intro hparens
    rw [parenthesized, Bool.and_eq_true, Bool.and_eq_true, decide_eq_true_eq] at hparens
    obtain ⟨⟨hfirst, -⟩, hcloses⟩ := hparens
    cases p.start with
    | operand x rest htext =>
        obtain ⟨c, rest', hx, hopen, -⟩ := x.start
        rw [htext, hx, List.cons_append, List.head?_cons, Option.some.injEq] at hfirst
        exact absurd hfirst hopen
    | paren q rest htext hrest horderly =>
        rcases hrest with rfl | hrest
        · exact ⟨q, rfl⟩
        · rw [htext, closesLate_open le_rfl, closesLate_nested (text_nested (horderly h)) (by decide),
            closesLate] at hcloses
          simp [hrest] at hcloses
    | negate rest htext _ =>
        rw [htext] at hfirst
        exact absurd hfirst (by simp)
  · rintro ⟨q, rfl⟩
    have hnested : Infix.Nested q.text := text_nested h
    rw [parenthesized, text, closesLate_open le_rfl, closesLate_nested hnested (by decide),
      ← List.cons_append, List.getLast?_concat]
    rfl

theorem ConditionPhrase.not_startswith {p : ConditionPhrase} (h : p.leadingNot = false) :
    startswith (upper p.text) ['N', 'O', 'T', ' '] = false := by
  cases p.start with
  | operand x rest htext =>
      refine not_startswith_of_behindWord ?_
      rw [htext]
      obtain ⟨c, rest', hx, -, -, hkind⟩ := x.start
      rcases hkind with ⟨n, rfl⟩ | halpha
      · exact n.behindWord_text (by decide) (by decide) (.inr rfl)
      · rw [hx, List.cons_append]
        exact behindWord_of_not_alpha (by decide) (by decide) halpha _
  | paren q rest htext _ _ =>
      refine not_startswith_of_behindWord ?_
      rw [htext]
      exact behindWord_of_not_alpha (by decide) (by decide) (by decide) _
  | negate rest htext hnot =>
      rw [hnot] at h
      cases h

end CobolJava.Formula
