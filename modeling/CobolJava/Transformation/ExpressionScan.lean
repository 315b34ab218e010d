/-
**The search for the operator of an expression.**

What the walk from the right finds in the text of a phrase.  It passes names, literals and groups in
parentheses.  The words AND and OR it finds also within a name, between hyphens; and a minus sign
before an operand that starts with neither a letter nor a digit it takes for a binary operator.

Main definitions:

* `Formula.DataName.noOperator` — a name without such a word in it;
* `Formula.Phrase.plain` — a phrase with such names only, without such a minus sign;
* `Formula.Phrase.avoids` — a phrase without operators of a group outside of parentheses.

Main results:

* `Formula.findRight_phrase` — **the walk passes a plain phrase that avoids its operators**;
* `Formula.find_binary` — **the walk finds the last operator of its group**.
-/

import Mathlib
import CobolJava.Transformation.ArithmeticText

set_option autoImplicit false

namespace CobolJava.Formula

open Py (isSpace isFloat)
open Py.Chars

/-! ### What is not found -/

/-- No operator of some ends with a character. -/
def endsNone (operators : List Operator) (c : Char) : Bool :=
  operators.all fun op => op.spelling.getLast? ≠ some c.toUpper

theorem operatorAt_eq_none {operators : List Operator} {c : Char}
    (h : endsNone operators c = true) (before after : Text) :
    operatorAt operators (c :: before) after = none := by
  rw [operatorAt, List.findSome?_eq_none_iff]
  intro op hop
  have hlast := List.all_eq_true.1 h op hop
  have hpos : op.spelling.length ≠ 0 := by cases op <;> decide
  obtain ⟨n, hn⟩ := Nat.exists_eq_succ_of_ne_zero hpos
  have hspelled : upper ((c :: before).take op.spelling.length).reverse ≠ op.spelling := by
    intro heq
    rw [← heq, hn, List.take_succ_cons, List.reverse_cons, upper, List.map_append, List.map_singleton,
      List.getLast?_concat] at hlast
    simp at hlast
  rw [if_pos hspelled]

theorem findRight_ordinary {operators : List Operator} {s : Text}
    (h : ∀ c ∈ s, c ≠ '(' ∧ c ≠ ')' ∧ endsNone operators c = true) (before after : Text) :
    Infix.findRight (operatorAt operators) (s.reverse ++ before) after 0 =
      Infix.findRight (operatorAt operators) before (s ++ after) 0 := by
  refine Infix.findRight_quiet before after fun a c b hs => ?_
  obtain ⟨hopen, hclose, hends⟩ := h c (by rw [hs]; simp)
  exact ⟨hopen, hclose, operatorAt_eq_none hends _ _⟩

/-! ### Characters of names and literals -/

theorem ne_of_alphanum {c d : Char} (h : c.isAlphanum = true) (hd : d.isAlphanum = false) : c ≠ d := by
  rintro rfl
  rw [h] at hd
  cases hd

/-- Letters and digits in upper case. -/
theorem isAlphanum_toUpper (c : Char) : c.toUpper.isAlphanum = c.isAlphanum := by
  unfold Char.toUpper
  split
  · rename_i hlower
    have hval : 97 ≤ c.val.toNat ∧ c.val.toNat ≤ 122 :=
      ⟨UInt32.le_iff_toNat_le.1 hlower.1, UInt32.le_iff_toNat_le.1 hlower.2⟩
    have hupper : (c.val + ('A'.val - 'a'.val)).toNat = c.val.toNat - 32 := by
      have h32 : ('A'.val - 'a'.val).toNat = 2 ^ 32 - 32 := by decide
      rw [UInt32.toNat_add, h32]
      omega
    have hright : c.isAlphanum = true := by
      have hlow : c.isLower = true := by
        simp only [Char.isLower, Bool.and_eq_true, decide_eq_true_eq]
        exact hlower
      simp [Char.isAlphanum, Char.isAlpha, hlow]
    rw [hright]
    simp only [Char.isAlphanum, Char.isAlpha, Char.isUpper, Char.isLower, Char.isDigit,
      Bool.or_eq_true, Bool.and_eq_true, decide_eq_true_eq, UInt32.le_iff_toNat_le, ge_iff_le, hupper]
    refine .inl (.inl ⟨?_, ?_⟩)
    · change 65 ≤ c.val.toNat - 32
      omega
    · change c.val.toNat - 32 ≤ 90
      omega
  · rfl

theorem isAlphanum_of_isDigit {c : Char} (h : c.isDigit = true) : c.isAlphanum = true := by
  simp [Char.isAlphanum, h]

theorem UnsignedLiteral.text_chars (l : UnsignedLiteral) :
    ∀ c ∈ l.text, c.isDigit = true ∨ c = '.' := by
  intro c hc
  rw [UnsignedLiteral.text] at hc
  split_ifs at hc
  · exact .inl (l.wholeDigits c hc)
  · rcases List.mem_append.1 hc with hc | hc
    · exact .inl (l.wholeDigits c hc)
    · rcases List.mem_cons.1 hc with rfl | hc
      · exact .inr rfl
      · exact .inl (l.fractionDigits c hc)

/-! ### Words within names -/

/-- No part of a name between hyphens is an operator. -/
def DataName.noOperator (n : DataName) : Bool :=
  (n.text.splitOn '-').all fun part => upper part ≠ ['A', 'N', 'D'] ∧ upper part ≠ ['O', 'R']

theorem take_eq_takeWhile {p : Char → Bool} {s : Text} {n : ℕ} (hn : n ≤ s.length)
    (hall : ∀ c ∈ s.take n, p c = true) (hstop : (s.drop n).head?.any p = false) :
    s.take n = s.takeWhile p := by
  induction n generalizing s with
  | zero =>
      cases s with
      | nil => rfl
      | cons c s => simpa using hstop
  | succ n ih =>
      cases s with
      | nil => simp at hn
      | cons c s =>
          rw [List.take_succ_cons] at hall ⊢
          rw [List.takeWhile_cons, if_pos (hall c (List.mem_cons_self ..)),
            ih (by simpa using hn) (fun d hd => hall d (List.mem_cons_of_mem _ hd)) hstop]

/-- A part of a name between hyphens. -/
theorem mem_splitOn {a v b : Text} (hv : '-' ∉ v) (ha : a = [] ∨ a.getLast? = some '-')
    (hb : b = [] ∨ b.head? = some '-') : v ∈ (a ++ v ++ b).splitOn '-' := by
  have hright : ∀ b : Text, b = [] ∨ b.head? = some '-' → v ∈ (v ++ b).splitOn '-' := by
    rintro b (rfl | hb)
    · rw [List.append_nil, List.splitOn_eq_singleton hv]
      exact List.mem_singleton_self _
    · obtain ⟨b', rfl⟩ : ∃ b', b = '-' :: b' := by
        cases b with
        | nil => cases hb
        | cons c b => exact ⟨b, by rw [Option.some.inj hb]⟩
      rw [List.splitOn_append_cons_self_of_not_mem hv]
      exact List.mem_cons_self ..
  rcases ha with rfl | ha
  · exact hright b hb
  · obtain ⟨a', rfl⟩ := List.getLast?_eq_some_iff.1 ha
    rw [List.append_assoc, List.append_assoc, List.singleton_append,
      List.splitOn_append_cons_self]
    exact List.mem_append_right _ (hright b hb)

/-- An operator that is a word is not found in a name without such a part. -/
theorem operatorAt_logical {n : DataName} (hno : n.noOperator = true) {x y : Text} {c : Char}
    (hn : n.text = x ++ c :: y) {before : Text} (hbefore : isAlnum before.head? = false)
    (after : Text) : operatorAt logicalOperators (c :: (x.reverse ++ before)) (y ++ after) = none := by
  rw [operatorAt, List.findSome?_eq_none_iff]
  intro op hop
  set s := c :: (x.reverse ++ before) with hs
  by_cases hspelled : upper (s.take op.spelling.length).reverse = op.spelling
  swap
  · rw [if_pos hspelled]
  have hminus : op ≠ .minus := by
    rintro rfl
    exact absurd hop (by decide)
  rw [if_neg (not_not.2 hspelled), if_neg fun h => hminus h.1]
  by_cases hends : isAlnum (s.drop op.spelling.length).head? ∨ isAlnum (y ++ after).head?
  · rw [if_pos hends]
  -- what is found is the longest run of letters and digits that ends here
  exfalso
  rw [not_or, Bool.not_eq_true, Bool.not_eq_true] at hends
  have hlen : op.spelling.length ≤ s.length := by
    have := congrArg List.length hspelled
    rw [upper, List.length_map, List.length_reverse, List.length_take] at this
    omega
  have hletters : ∀ d ∈ op.spelling, d.isAlphanum = true := by
    rcases List.mem_cons.1 hop with rfl | hop
    · decide
    · obtain rfl := List.mem_singleton.1 hop
      decide
  have hall : ∀ d ∈ s.take op.spelling.length, d.isAlphanum = true := by
    intro d hd
    rw [← isAlphanum_toUpper]
    refine hletters _ ?_
    rw [← hspelled]
    exact List.mem_map_of_mem (List.mem_reverse.2 hd)
  have hrun := take_eq_takeWhile hlen hall hends.1
  have hstop : before.takeWhile Char.isAlphanum = [] := by
    cases before with
    | nil => rfl
    | cons d before => simpa [isAlnum] using hbefore
  have hname : s.takeWhile Char.isAlphanum = (c :: x.reverse).takeWhile Char.isAlphanum := by
    rw [hs, ← List.cons_append, List.takeWhile_append, hstop, List.append_nil]
    split_ifs with hfull
    · exact ((List.takeWhile_prefix _).eq_of_length hfull).symm
    · rfl
  have hcut : n.text = ((c :: x.reverse).dropWhile Char.isAlphanum).reverse ++
      ((c :: x.reverse).takeWhile Char.isAlphanum).reverse ++ y := by
    rw [← List.reverse_append, List.takeWhile_append_dropWhile, hn]
    simp
  have hhyphen : ∀ d ∈ n.text, d.isAlphanum = false → d = '-' := by
    intro d hd hplain
    rcases n.chars d hd with h | h
    · rw [hplain] at h
      cases h
    · exact h
  have hv : '-' ∉ ((c :: x.reverse).takeWhile Char.isAlphanum).reverse := by
    intro hmem
    exact absurd (List.mem_takeWhile_imp (List.mem_reverse.1 hmem)) (by decide)
  have ha : ((c :: x.reverse).dropWhile Char.isAlphanum).reverse = [] ∨
      ((c :: x.reverse).dropWhile Char.isAlphanum).reverse.getLast? = some '-' := by
    rw [List.getLast?_reverse, List.reverse_eq_nil_iff]
    cases hdrop : (c :: x.reverse).dropWhile Char.isAlphanum with
    | nil => exact .inl rfl
    | cons d rest =>
        have hplain := List.head?_dropWhile_not Char.isAlphanum (c :: x.reverse)
        rw [hdrop] at hplain hcut
        refine .inr (congrArg some (hhyphen d ?_ hplain))
        rw [hcut]
        simp
  have hb : y = [] ∨ y.head? = some '-' := by
    cases y with
    | nil => exact .inl rfl
    | cons d y =>
        refine .inr (congrArg some (hhyphen d ?_ (by simpa [isAlnum] using hends.2)))
        rw [hn]
        simp
  have hpart := List.all_eq_true.1 hno _ (hcut ▸ mem_splitOn hv ha hb)
  rw [hrun, hname] at hspelled
  rw [hspelled, decide_eq_true_eq] at hpart
  rcases List.mem_cons.1 hop with rfl | hop
  · exact hpart.1 rfl
  · obtain rfl := List.mem_singleton.1 hop
    exact hpart.2 rfl

/-- A hyphen of a name is no minus sign. -/
theorem operatorAt_additive {n : DataName} {x y : Text} (hn : n.text = x ++ '-' :: y)
    (before after : Text) :
    operatorAt additiveOperators ('-' :: (x.reverse ++ before)) (y ++ after) = none := by
  obtain ⟨d, hd⟩ : ∃ d, x.getLast? = some d := by
    cases hx : x.getLast? with
    | some d => exact ⟨d, rfl⟩
    | none =>
        rw [List.getLast?_eq_none_iff.1 hx] at hn
        exact absurd (by rw [hn]; rfl) n.first
  have hhead : (x.reverse ++ before).head? = some d := by
    rw [List.head?_append, List.head?_reverse, hd, Option.some_or]
  have hmem : d ∈ n.text := by
    rw [hn]
    exact List.mem_append_left _ (List.mem_of_getLast? hd)
  rw [operatorAt, additiveOperators, List.findSome?_cons, List.findSome?_cons, List.findSome?_nil]
  have hplus : upper (('-' :: (x.reverse ++ before)).take Operator.plus.spelling.length).reverse ≠
      Operator.plus.spelling := by
    change [('-' : Char).toUpper] ≠ ['+']
    decide
  have hminus : upper (('-' :: (x.reverse ++ before)).take Operator.minus.spelling.length).reverse =
      Operator.minus.spelling := by
    change [('-' : Char).toUpper] = ['-']
    decide
  have hdrop : ('-' :: (x.reverse ++ before)).drop Operator.minus.spelling.length =
      x.reverse ++ before := rfl
  simp only [if_pos hplus, if_neg (not_not.2 hminus), hdrop, hhead]
  rcases n.chars d hmem with halnum | rfl
  · split_ifs with hunary hends
    · rfl
    · rfl
    · exact absurd (.inl (by simpa [isAlnum] using halnum)) hends
  · rw [if_pos ⟨trivial, by decide⟩]

theorem endsNone_alphanum {operators : List Operator} (h : operators ∈ operatorGroups)
    (hword : operators ≠ logicalOperators) {c : Char} (hc : c.isAlphanum = true) :
    endsNone operators c = true := by
  have hsigns : ∀ op ∈ operators, op.spelling.getLast?.any Char.isAlphanum = false := by
    have hall : ∀ ops ∈ operatorGroups, ops ≠ logicalOperators →
        ∀ op ∈ ops, op.spelling.getLast?.any Char.isAlphanum = false := by decide
    exact hall _ h hword
  refine List.all_eq_true.2 fun op hop => ?_
  rw [decide_eq_true_eq]
  intro hlast
  have hsign := hsigns op hop
  rw [hlast, Option.any_some, isAlphanum_toUpper, hc] at hsign
  cases hsign

theorem endsNone_hyphen {operators : List Operator} (h : operators ∈ operatorGroups)
    (hsum : operators ≠ additiveOperators) : endsNone operators '-' = true := by
  have hall : ∀ ops ∈ operatorGroups, ops ≠ additiveOperators → endsNone ops '-' = true := by decide
  exact hall _ h hsum

theorem DataName.char_ne_paren (n : DataName) {c : Char} (hc : c ∈ n.text) : c ≠ '(' ∧ c ≠ ')' := by
  rcases n.chars c hc with h | rfl
  · exact ⟨ne_of_alphanum h (by decide), ne_of_alphanum h (by decide)⟩
  · decide

/-- The walk passes a name without an operator in it. -/
theorem findRight_name {operators : List Operator} (hgroup : operators ∈ operatorGroups)
    {n : DataName} (hno : n.noOperator = true) {before : Text}
    (hbefore : isAlnum before.head? = false) (after : Text) :
    Infix.findRight (operatorAt operators) (n.text.reverse ++ before) after 0 =
      Infix.findRight (operatorAt operators) before (n.text ++ after) 0 := by
  refine Infix.findRight_quiet before after fun x c y hn => ?_
  have hc : c ∈ n.text := by
    rw [hn]
    simp
  refine ⟨(n.char_ne_paren hc).1, (n.char_ne_paren hc).2, ?_⟩
  by_cases hword : operators = logicalOperators
  · rw [hword]
    exact operatorAt_logical hno hn hbefore after
  · rcases n.chars c hc with h | rfl
    · exact operatorAt_eq_none (endsNone_alphanum hgroup hword h) _ _
    · by_cases hsum : operators = additiveOperators
      · rw [hsum]
        exact operatorAt_additive hn before after
      · exact operatorAt_eq_none (endsNone_hyphen hgroup hsum) _ _

/-- The walk passes a literal. -/
theorem findRight_literal {operators : List Operator} (hgroup : operators ∈ operatorGroups)
    (l : UnsignedLiteral) (before after : Text) :
    Infix.findRight (operatorAt operators) (l.text.reverse ++ before) after 0 =
      Infix.findRight (operatorAt operators) before (l.text ++ after) 0 := by
  have hpoint : ∀ ops ∈ operatorGroups, endsNone ops '.' = true := by decide
  refine findRight_ordinary (fun c hc => ?_) before after
  rcases l.text_chars c hc with h | rfl
  · have halnum := isAlphanum_of_isDigit h
    refine ⟨ne_of_alphanum halnum (by decide), ne_of_alphanum halnum (by decide), ?_⟩
    by_cases hword : operators = logicalOperators
    · -- a digit is its own upper case, and no word ends with one
      have hupper : c.toUpper = c := by
        unfold Char.toUpper
        rw [dif_neg]
        intro hlower
        have hlow : 97 ≤ c.val.toNat := UInt32.le_iff_toNat_le.1 hlower.1
        simp only [Char.isDigit, Bool.and_eq_true, decide_eq_true_eq, UInt32.le_iff_toNat_le] at h
        have hhigh : c.val.toNat ≤ 57 := h.2
        omega
      have hd : c ≠ 'D' ∧ c ≠ 'R' := by
        constructor
        · rintro rfl
          exact absurd h (by decide)
        · rintro rfl
          exact absurd h (by decide)
      rw [hword]
      simp [endsNone, logicalOperators, Operator.spelling, hupper, Ne.symm hd.1, Ne.symm hd.2]
    · exact endsNone_alphanum hgroup hword halnum
  · exact ⟨by decide, by decide, hpoint _ hgroup⟩

/-! ### Phrases -/

namespace Phrase

/-- Whether a phrase starts with a minus sign. -/
def leadingMinus : Phrase → Bool
  | negate _ => true
  | binary _ l _ => l.leadingMinus
  | _ => false

/-- Whether a phrase is a sum or a difference. -/
def isSum (p : Phrase) : Bool := p.level = 1

/-- Whether the text of a phrase starts with a letter or a digit. -/
def startsAlnum (p : Phrase) : Bool := isAlnum p.text.head?

def readsName (n : DataName) : Bool :=
  n.noOperator && !isFloat n.text && parseFigurativeConstant n.text = none

/-- The names of a phrase are read as names; a minus sign that something stands before has an operand
that starts with a letter or a digit; and no sum or difference in parentheses starts with a minus
sign.  With `late` something stands before the phrase. -/
def plain (late : Bool) : Phrase → Bool
  | name n => readsName n
  | literal _ => true
  | paren p => p.plain false && !(p.isSum && p.leadingMinus)
  | negate p => p.plain false && (!late || p.startsAlnum)
  | binary _ l r => l.plain late && r.plain true

/-- A plain phrase that is no sum or difference with a minus sign at its start. -/
def readable (p : Phrase) : Bool := p.plain false && !(p.isSum && p.leadingMinus)

/-- No operator of some stands in a phrase outside of parentheses. -/
def avoids (operators : List Operator) : Phrase → Prop
  | binary op l r => op.operator ∉ operators ∧ l.avoids operators ∧ r.avoids operators
  | _ => True

end Phrase

theorem Phrase.text_nested (p : Phrase) : Infix.Nested p.text := by
  induction p with
  | name n => exact .of_plain fun c hc => n.char_ne_paren hc
  | literal l =>
      refine .of_plain fun c hc => ?_
      rcases l.text_chars c hc with h | rfl
      · have halnum := isAlphanum_of_isDigit h
        exact ⟨ne_of_alphanum halnum (by decide), ne_of_alphanum halnum (by decide)⟩
      · decide
  | paren p ih => exact ih.parens
  | negate p ih => exact .char (by decide) (by decide) ih
  | binary op l r ihl ihr =>
      have hsign : op.sign ≠ '(' ∧ op.sign ≠ ')' := by cases op <;> decide
      exact ihl.append (.char (by decide) (by decide) (.char hsign.1 hsign.2
        (.char (by decide) (by decide) ihr)))

theorem Phrase.avoids_of_level {p : Phrase} (hp : p.WellFormed) {operators : List Operator}
    (h : ∀ op : ArithmeticOperator, p.level ≤ op.level → op.operator ∉ operators) :
    p.avoids operators := by
  induction p with
  | name n => trivial
  | literal l => trivial
  | paren p ih => trivial
  | negate p ih => trivial
  | binary op l r ihl ihr =>
      obtain ⟨hl, hr, hwl, hwr⟩ := hp
      refine ⟨h op le_rfl, ihl hwl fun op' hop' => h op' ?_, ihr hwr fun op' hop' => h op' ?_⟩
      · exact hl.trans hop'
      · exact hr.le.trans hop'

/-- The walk passes a plain phrase that avoids its operators. -/
theorem findRight_phrase {operators : List Operator} (hgroup : operators ∈ operatorGroups)
    {p : Phrase} (hp : p.WellFormed) {late : Bool} (hplain : p.plain late = true)
    (havoids : p.avoids operators) {before : Text} (hbefore : isAlnum before.head? = false)
    (hminus : 4 ≤ p.level ∨ (if late then before.head? = some ' ' else before = []))
    (after : Text) :
    Infix.findRight (operatorAt operators) (p.text.reverse ++ before) after 0 =
      Infix.findRight (operatorAt operators) before (p.text ++ after) 0 := by
  induction p generalizing late before after with
  | name n =>
      rw [Phrase.plain, Phrase.readsName, Bool.and_eq_true, Bool.and_eq_true] at hplain
      exact findRight_name hgroup hplain.1.1 hbefore after
  | literal l => exact findRight_literal hgroup l before after
  | paren p ih => exact Infix.findRight_group p.text_nested before after
  | negate p ih =>
      obtain ⟨hlevel, hwf⟩ := hp
      rw [Phrase.plain, Bool.and_eq_true] at hplain
      have havoid : p.avoids operators := by
        cases p with
        | binary op l r =>
            have := op.level_le
            simp only [Phrase.level] at hlevel
            omega
        | _ => trivial
      rw [Phrase.text, List.reverse_cons, List.append_assoc, List.singleton_append,
        ih hwf hplain.1 havoid rfl (.inl hlevel), Infix.findRight, if_neg (by decide),
        if_neg (by decide), if_pos rfl]
      have hnone : operatorAt operators ('-' :: before) (p.text ++ after) = none := by
        by_cases hsum : operators = additiveOperators
        swap
        · exact operatorAt_eq_none (endsNone_hyphen hgroup hsum) _ _
        -- the sign stands at the start of the text, or before a letter or a digit
        rw [hsum]
        rcases hminus with hfour | hminus
        · exact absurd hfour (by simp [Phrase.level])
        · cases late with
          | false =>
              obtain rfl : before = [] := by simpa using hminus
              simp [operatorAt, additiveOperators, Operator.spelling, upper, unaryBehind]
          | true =>
              have hstart : isAlnum (p.text ++ after).head? = true := by
                have := hplain.2
                rw [Bool.not_true, Bool.false_or, Phrase.startsAlnum] at this
                cases htext : p.text with
                | nil => simp [htext, isAlnum] at this
                | cons c rest => simpa [htext] using this
              generalize p.text ++ after = rest at hstart
              simp [operatorAt, additiveOperators, Operator.spelling, upper, hstart]
      rw [hnone]
      rfl
  | binary op l r ihl ihr =>
      obtain ⟨hl, hr, hwl, hwr⟩ := hp
      obtain ⟨hop, hal, har⟩ := havoids
      rw [Phrase.plain, Bool.and_eq_true] at hplain
      have hctx : if late then before.head? = some ' ' else before = [] := by
        refine hminus.resolve_left ?_
        have := op.level_le
        simp only [Phrase.level]
        omega
      have hends : ∀ ops ∈ operatorGroups, op.operator ∉ ops →
          op.sign ≠ '(' ∧ op.sign ≠ ')' ∧ endsNone ops op.sign = true := by
        cases op <;> decide
      have hspace : ∀ ops ∈ operatorGroups, endsNone ops ' ' = true := by decide
      have htext : (Phrase.binary op l r).text.reverse ++ before =
          r.text.reverse ++ ([' ', op.sign, ' '].reverse ++ (l.text.reverse ++ before)) := by
        simp [Phrase.text]
      rw [htext, ihr hwr hplain.2 har rfl (.inr (by simp)),
        findRight_ordinary, ihl hwl hplain.1 hal hbefore (.inr hctx)]
      · simp [Phrase.text]
      · intro c hc
        rcases List.mem_cons.1 hc with rfl | hc
        · exact ⟨by decide, by decide, hspace _ hgroup⟩
        · rcases List.mem_cons.1 hc with rfl | hc
          · exact hends _ hgroup hop
          · obtain rfl := List.mem_singleton.1 hc
            exact ⟨by decide, by decide, hspace _ hgroup⟩

theorem find_avoided {operators : List Operator} (hgroup : operators ∈ operatorGroups) {p : Phrase}
    (hp : p.WellFormed) (hplain : p.plain false = true) (havoids : p.avoids operators) :
    findBinaryOperatorFromRight p.text operators = none := by
  have hpass : Infix.findRight (operatorAt operators) (p.text.reverse ++ []) [] 0 =
      Infix.findRight (operatorAt operators) [] (p.text ++ []) 0 :=
    findRight_phrase hgroup hp hplain havoids rfl (.inr rfl) []
  rw [List.append_nil] at hpass
  rw [findBinaryOperatorFromRight, hpass, Infix.findRight]

/-- What stands at the sign of a binary operator. -/
theorem operatorAt_sign {operators : List Operator} (hgroup : operators ∈ operatorGroups)
    {op : ArithmeticOperator} (hop : op.operator ∈ operators) (before after : Text) :
    operatorAt operators (op.sign :: ' ' :: before) (' ' :: after) = some (before.length + 1) := by
  have hmem : operators = additiveOperators ∨ operators = multiplicativeOperators := by
    have hall : ∀ ops ∈ operatorGroups, op.operator ∈ ops →
        ops = additiveOperators ∨ ops = multiplicativeOperators := by cases op <;> decide
    exact hall _ hgroup hop
  rcases hmem with rfl | rfl
  · cases op with
    | add => simp [operatorAt, additiveOperators, ArithmeticOperator.sign, Operator.spelling, upper,
        isAlnum]
    | subtract => simp [operatorAt, additiveOperators, ArithmeticOperator.sign, Operator.spelling,
        upper, isAlnum, unaryBehind]
    | multiply => exact absurd hop (by decide)
    | divide => exact absurd hop (by decide)
  · cases op with
    | add => exact absurd hop (by decide)
    | subtract => exact absurd hop (by decide)
    | multiply => simp [operatorAt, multiplicativeOperators, ArithmeticOperator.sign,
        Operator.spelling, upper, isAlnum]
    | divide => simp [operatorAt, multiplicativeOperators, ArithmeticOperator.sign,
        Operator.spelling, upper, isAlnum]

/-- The walk finds the last operator of its group. -/
theorem find_binary {operators : List Operator} (hgroup : operators ∈ operatorGroups)
    {op : ArithmeticOperator} (hop : op.operator ∈ operators) {l r : Phrase} (hr : r.WellFormed)
    (hplain : r.plain true = true) (havoids : r.avoids operators) :
    findBinaryOperatorFromRight (Phrase.binary op l r).text operators =
      some (l.text.length + 1) := by
  have htext : (Phrase.binary op l r).text.reverse =
      r.text.reverse ++ (' ' :: op.sign :: ' ' :: l.text.reverse) := by
    simp [Phrase.text]
  have hspace : ∀ ops ∈ operatorGroups, endsNone ops ' ' = true := by decide
  have hsign : op.sign ≠ '(' ∧ op.sign ≠ ')' := by cases op <;> decide
  rw [findBinaryOperatorFromRight, htext,
    findRight_phrase hgroup hr hplain havoids rfl (.inr (by simp)), Infix.findRight,
    if_neg (by decide), if_neg (by decide), if_pos rfl, operatorAt_eq_none (hspace _ hgroup)]
  simp only
  rw [Infix.findRight, if_neg hsign.2, if_neg hsign.1, if_pos rfl, operatorAt_sign hgroup hop,
    List.length_reverse]

theorem splitExpression_single {p : Phrase} (hp : p.WellFormed) (hplain : p.plain false = true)
    (hlevel : 3 ≤ p.level) : splitExpression p.text = none := by
  have havoids : ∀ ops : List Operator, p.avoids ops := fun ops =>
    Phrase.avoids_of_level hp fun op hop => absurd (hlevel.trans (hop.trans op.level_le)) (by decide)
  rw [splitExpression, List.findSome?_eq_none_iff]
  intro ops hops
  rw [find_avoided hops hp hplain (havoids ops), Option.bind_none]

def ArithmeticOperator.group : ArithmeticOperator → List Operator
  | add => additiveOperators
  | subtract => additiveOperators
  | multiply => multiplicativeOperators
  | divide => multiplicativeOperators

/-- The groups that are tried before the group of an operator. -/
def ArithmeticOperator.looser : ArithmeticOperator → List (List Operator)
  | add => [logicalOperators, relationalOperators]
  | subtract => [logicalOperators, relationalOperators]
  | multiply => [logicalOperators, relationalOperators, additiveOperators]
  | divide => [logicalOperators, relationalOperators, additiveOperators]

theorem ArithmeticOperator.group_mem (op : ArithmeticOperator) :
    op.group ∈ operatorGroups ∧ op.operator ∈ op.group := by
  cases op <;> decide

theorem ArithmeticOperator.operatorGroups_eq (op : ArithmeticOperator) :
    ∃ tighter, operatorGroups = op.looser ++ op.group :: tighter := by
  cases op with
  | add => exact ⟨[multiplicativeOperators], rfl⟩
  | subtract => exact ⟨[multiplicativeOperators], rfl⟩
  | multiply => exact ⟨[], rfl⟩
  | divide => exact ⟨[], rfl⟩

theorem ArithmeticOperator.not_mem_looser {op op' : ArithmeticOperator} (h : op.level ≤ op'.level) :
    ∀ ops ∈ op.looser, op'.operator ∉ ops := by
  cases op <;> cases op' <;> first | decide | exact absurd h (by decide)

theorem ArithmeticOperator.not_mem_group {op op' : ArithmeticOperator} (h : op.level < op'.level) :
    op'.operator ∉ op.group := by
  cases op <;> cases op' <;> first | decide | exact absurd h (by decide)

/-- The sign of an operator spells no other operator of the group. -/
theorem find_spellsAt {op : ArithmeticOperator} {l r : Phrase} :
    op.group.find? (spellsAt (Phrase.binary op l r).text (l.text.length + 1)) =
      some op.operator := by
  have hspells : ∀ op' : Operator, op'.spelling.length = 1 →
      spellsAt (Phrase.binary op l r).text (l.text.length + 1) op' =
        decide ([op.sign.toUpper] = op'.spelling) := by
    intro op' hlen
    rw [spellsAt, Phrase.text, List.drop_length_add_append, hlen]
    rfl
  cases op with
  | add => rw [ArithmeticOperator.group, additiveOperators, List.find?_cons, hspells _ rfl]; rfl
  | subtract =>
      rw [ArithmeticOperator.group, additiveOperators, List.find?_cons, hspells _ rfl,
        List.find?_cons, hspells _ rfl]
      rfl
  | multiply =>
      rw [ArithmeticOperator.group, multiplicativeOperators, List.find?_cons, hspells _ rfl]
      rfl
  | divide =>
      rw [ArithmeticOperator.group, multiplicativeOperators, List.find?_cons, hspells _ rfl,
        List.find?_cons, hspells _ rfl]
      rfl

/-- A phrase is split at its operator. -/
theorem splitExpression_binary {op : ArithmeticOperator} {l r : Phrase}
    (hp : (Phrase.binary op l r).WellFormed) (hplain : (Phrase.binary op l r).plain false = true) :
    splitExpression (Phrase.binary op l r).text =
      some (l.text ++ [' '], op.operator, ' ' :: r.text) := by
  obtain ⟨-, hr, -, hwr⟩ := id hp
  have hplainRight : r.plain true = true := by
    rw [Phrase.plain, Bool.and_eq_true] at hplain
    exact hplain.2
  obtain ⟨tighter, hgroups⟩ := op.operatorGroups_eq
  obtain ⟨hgroup, hop⟩ := op.group_mem
  have hfound := find_binary (l := l) hgroup hop hwr hplainRight
    (Phrase.avoids_of_level hwr fun op' hop' =>
      ArithmeticOperator.not_mem_group (hr.trans_le hop'))
  have hlen : op.operator.spelling.length = 1 := by cases op <;> rfl
  have htake : (Phrase.binary op l r).text.take (l.text.length + 1) = l.text ++ [' '] := by
    rw [Phrase.text, List.take_length_add_append]
    rfl
  have hdrop : (Phrase.binary op l r).text.drop (l.text.length + 1 + 1) = ' ' :: r.text := by
    rw [Phrase.text, Nat.add_assoc, List.drop_length_add_append]
    rfl
  rw [splitExpression, hgroups, List.findSome?_append, List.findSome?_eq_none_iff.2, Option.none_or,
    List.findSome?_cons, hfound, Option.bind_some, find_spellsAt, Option.map_some, hlen, htake, hdrop]
  -- the looser groups have no operator in the phrase
  intro ops hops
  have hmem : ops ∈ operatorGroups := by
    rw [hgroups]
    exact List.mem_append_left _ hops
  rw [find_avoided hmem hp hplain (Phrase.avoids_of_level hp fun op' hop' =>
    ArithmeticOperator.not_mem_looser hop' ops hops), Option.bind_none]

end CobolJava.Formula
