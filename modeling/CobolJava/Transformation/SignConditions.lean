/-
**Sign conditions.**

`engine/transformation/sign_conditions.py` replaces `X IS NEGATIVE` and the like by relations to ZERO.
It looks for them in a copy of the text with the literals blanked by underscores.

Main definitions:

* `Formula.maskLiterals` — the copy;
* `Formula.signAt` — the sign condition that starts a text;
* `Formula.rewriteSignConditions` — the replacement;
* `Formula.SignFree` — the texts without the word of a sign condition behind white space.

Main results:

* `Formula.rewriteSignConditions_of_signFree` — **a text whose copy is sign-free is not changed**.
-/

import CobolJava.Transformation.ExpressionScan

set_option autoImplicit false

namespace CobolJava.Formula

open Py (isSpace)
open Py.Chars

/-! ### Literals blanked -/

/-- How many characters stand before the quote that closes a literal; the literal ends on its
line. -/
def closing (quote : Char) : Text → Option ℕ
  | [] => none
  | c :: rest =>
      if c = quote then some 0 else if c = '\n' then none else (closing quote rest).map (· + 1)

/-- The loop of `_mask_literals`, with the number of characters left of the literal it is in. -/
def maskLiteralsFrom : Option ℕ → Text → Text
  | _, [] => []
  | some (n + 1), _ :: rest => '_' :: maskLiteralsFrom (some n) rest
  | some 0, c :: rest => c :: maskLiteralsFrom none rest
  | none, c :: rest =>
      c :: maskLiteralsFrom (if c = '"' ∨ c = '\'' then closing c rest else none) rest

/-- `_mask_literals` -/
def maskLiterals (text : Text) : Text := maskLiteralsFrom none text

/-! ### Sign conditions -/

/-- The class `\w`. -/
def isWordChar (c : Char) : Bool := c.isAlphanum || c = '_'

/-- The class `[\w-]`. -/
def isNameChar (c : Char) : Bool := isWordChar c || c = '-'

def signWords : List Text := ["POSITIVE".toList, "NEGATIVE".toList, "ZERO".toList]

/-- `_RELATION` -/
def relation (sign : Text) (negated : Bool) : Text :=
  if sign = "POSITIVE".toList then (if negated then "<= ZERO".toList else "> ZERO".toList)
  else if sign = "NEGATIVE".toList then (if negated then ">= ZERO".toList else "< ZERO".toList)
  else if negated then "NOT = ZERO".toList else "= ZERO".toList

/-- `_NOT_A_SUBJECT` -/
def notSubjects : List Text :=
  ["AND".toList, "OR".toList, "NOT".toList, "IS".toList, "THAN".toList, "TO".toList,
    "EQUAL".toList, "EQUALS".toList, "GREATER".toList, "LESS".toList, "WHEN".toList,
    "UNTIL".toList, "IF".toList, "ALL".toList]

/-- A sign condition that was found: its name, the length of its subject, its whole length, and the
relation it is replaced by. -/
structure SignCondition where
  name : Text
  subject : ℕ
  length : ℕ
  relation : Text
deriving DecidableEq, Repr

/-- The optional `\s*\([^()]*\)` behind the name of a subject: its length. -/
def subscriptLength (text : Text) : ℕ :=
  let opened := lstrip text
  let body := (opened.drop 1).takeWhile fun c => c ≠ '(' && c ≠ ')'
  let closed := opened.drop (1 + body.length)
  if opened.head? = some '(' ∧ closed.head? = some ')' then text.length - closed.length + 1 else 0

/-- The word of a sign condition at the start of a text, with the text behind it. -/
def signWord (text : Text) : Option (Text × Text) :=
  (signWords.find? fun w => upper (text.take w.length) = w ∧
    ¬ (text.drop w.length).head?.any isNameChar).map fun w => (w, text.drop w.length)

/-- The sign condition at the start of a text, behind a character. -/
def signAt (behind : Option Char) (text : Text) : Option SignCondition :=
  let name := text.takeWhile isNameChar
  let subject := name.length + subscriptLength (text.drop name.length)
  let rest := text.drop subject
  if behind.any (fun c => isNameChar c || c = '\'' || c = '"') ∨ ¬ text.head?.any Char.isAlphanum ∨
      ¬ rest.head?.any isSpace then none
  else
    let stated := (behindWord "IS".toList (lstrip rest)).getD (lstrip rest)
    let negated := behindWord "NOT".toList stated
    (signWord (negated.getD stated)).map fun found =>
      ⟨name, subject, text.length - found.2.length, relation found.1 negated.isSome⟩

/-- The loop of `rewrite_sign_conditions` over the blanked copy of a text. -/
def rewriteFrom (skip : ℕ) (behind : Option Char) : Text → Text → Text
  | [], _ => []
  | m :: masked, text =>
      if 0 < skip then rewriteFrom (skip - 1) (some m) masked (text.drop 1)
      else
        match signAt behind (m :: masked) with
        | some found =>
            (if notSubjects.contains (upper found.name) then text.take found.length
              else text.take found.subject ++ ' ' :: found.relation) ++
              rewriteFrom (found.length - 1) (some m) masked (text.drop 1)
        | none => text.take 1 ++ rewriteFrom 0 (some m) masked (text.drop 1)

/-- `rewrite_sign_conditions` -/
def rewriteSignConditions (condition : Text) : Text :=
  rewriteFrom 0 none (maskLiterals condition) condition

/-! ### Texts without sign conditions -/

/-- A word between white space that does not start with the word of a sign condition. -/
def signFreeWord (word : Text) : Bool := !signWords.contains (upper (word.takeWhile isNameChar))

/-- No word of a text, its first one apart, starts with the word of a sign condition. -/
def SignFree (text : Text) : Prop := ∀ word ∈ (text.splitOnP isSpace).tail, signFreeWord word = true

theorem SignFree.of_cons {c : Char} {text : Text} (h : SignFree (c :: text)) : SignFree text := by
  intro word hword
  refine h word ?_
  rw [List.splitOnP_cons_eq_if_modifyHead]
  split_ifs
  · exact List.mem_of_mem_tail hword
  · rw [List.tail_modifyHead]
    exact hword

theorem SignFree.of_suffix {text rest : Text} (h : SignFree text) (hrest : rest <:+ text) :
    SignFree rest := by
  obtain ⟨front, rfl⟩ := hrest
  induction front with
  | nil => exact h
  | cons c front ih => exact ih h.of_cons

theorem splitOnP_head (text : Text) :
    ∃ others, text.splitOnP isSpace = text.takeWhile (fun c => !isSpace c) :: others := by
  induction text with
  | nil => exact ⟨[], rfl⟩
  | cons c text ih =>
      obtain ⟨others, hothers⟩ := ih
      rw [List.splitOnP_cons_eq_if_modifyHead, List.takeWhile_cons, hothers]
      cases isSpace c with
      | true => exact ⟨_, rfl⟩
      | false => exact ⟨others, rfl⟩

theorem isNameChar_not_space {c : Char} (h : isNameChar c = true) : isSpace c = false := by
  rw [isNameChar, Bool.or_eq_true, isWordChar, Bool.or_eq_true, decide_eq_true_eq,
    decide_eq_true_eq] at h
  rcases h with (h | rfl) | rfl
  · exact isSpace_of_alphanum h
  · decide
  · decide

/-- A word that is found is the longest run of name characters. -/
theorem signWord_eq_none {text : Text} (h : signFreeWord text = true) : signWord text = none := by
  rw [signWord, Option.map_eq_none_iff, List.find?_eq_none]
  intro w hw hfound
  rw [decide_eq_true_eq] at hfound
  obtain ⟨hspelled, hbehind⟩ := hfound
  have hletters : ∀ w ∈ signWords, ∀ c ∈ w, c.isAlphanum = true := by decide
  have hlen : w.length ≤ text.length := by
    have := congrArg List.length hspelled
    rw [upper, List.length_map, List.length_take] at this
    omega
  have hrun : text.take w.length = text.takeWhile isNameChar := by
    refine take_eq_takeWhile hlen (fun c hc => ?_) (by simpa using hbehind)
    have halnum : c.toUpper.isAlphanum = true :=
      hletters w hw _ (by rw [← hspelled]; exact List.mem_map_of_mem hc)
    rw [isAlphanum_toUpper] at halnum
    simp [isNameChar, isWordChar, halnum]
  rw [signFreeWord, ← hrun, hspelled, Bool.not_eq_true'] at h
  rw [List.contains_iff_mem.2 hw] at h
  cases h

/-- Behind white space no word of a sign condition starts. -/
theorem SignFree.signWord_lstrip {text rest : Text} (h : SignFree text) (hrest : rest <:+ text)
    (hspace : rest.head?.any isSpace = true) : signWord (lstrip rest) = none := by
  obtain ⟨c, rest, rfl⟩ : ∃ c tail, rest = c :: tail := by
    cases rest with
    | nil => cases hspace
    | cons c tail => exact ⟨c, tail, rfl⟩
  have hfree := h.of_suffix hrest
  clear hrest h
  rw [List.head?_cons, Option.any_some] at hspace
  induction rest generalizing c with
  | nil =>
      rw [lstrip, List.dropWhile_cons, if_pos hspace]
      rfl
  | cons d rest ih =>
      rw [lstrip, List.dropWhile_cons, if_pos hspace, ← lstrip]
      cases hd : isSpace d with
      | true => exact ih d hd hfree.of_cons
      | false =>
          have hlstrip : lstrip (d :: rest) = d :: rest := by
            rw [lstrip, List.dropWhile_cons, hd]
            rfl
          rw [hlstrip]
          obtain ⟨others, hothers⟩ := splitOnP_head (d :: rest)
          have hword := hfree ((d :: rest).takeWhile fun c => !isSpace c) (by
            rw [List.splitOnP_cons_eq_if_modifyHead, if_pos hspace, hothers]
            exact List.mem_cons_self ..)
          refine signWord_eq_none ?_
          rw [signFreeWord, List.takeWhile_takeWhile] at hword
          have hsame : (fun c => decide (isNameChar c = true ∧ (!isSpace c) = true)) = isNameChar := by
            funext c
            cases hc : isNameChar c with
            | false => simp
            | true => simp [isNameChar_not_space hc]
          rw [hsame] at hword
          exact hword

theorem behindWord_eq_some {word text rest : Text} (h : behindWord word text = some rest) :
    rest = lstrip (text.drop word.length) ∧ (text.drop word.length).head?.any isSpace = true := by
  rw [behindWord] at h
  split_ifs at h with hword
  exact ⟨(Option.some.inj h).symm, hword.2⟩

/-- No sign condition starts a sign-free text. -/
theorem SignFree.signAt_eq_none {text : Text} (h : SignFree text) (behind : Option Char) :
    signAt behind text = none := by
  rw [signAt]
  simp only
  split_ifs with hskip
  · rfl
  rw [not_or, not_or, not_not, not_not] at hskip
  obtain ⟨-, -, hspace⟩ := hskip
  set rest := text.drop ((text.takeWhile isNameChar).length +
    subscriptLength (text.drop (text.takeWhile isNameChar).length)) with hrest
  have hsuffix : rest <:+ text := List.drop_suffix ..
  have hstrip : lstrip rest <:+ text := (List.dropWhile_suffix _).trans hsuffix
  rw [Option.map_eq_none_iff]
  have hstated : (behindWord "IS".toList (lstrip rest)).getD (lstrip rest) <:+ text ∧
      signWord ((behindWord "IS".toList (lstrip rest)).getD (lstrip rest)) = none := by
    cases his : behindWord "IS".toList (lstrip rest) with
    | none => exact ⟨hstrip, h.signWord_lstrip hsuffix hspace⟩
    | some tail =>
        obtain ⟨rfl, hbehind⟩ := behindWord_eq_some his
        have hdrop := (List.drop_suffix "IS".toList.length (lstrip rest)).trans hstrip
        exact ⟨(List.dropWhile_suffix _).trans hdrop, h.signWord_lstrip hdrop hbehind⟩
  generalize (behindWord "IS".toList (lstrip rest)).getD (lstrip rest) = stated at hstated ⊢
  cases hnot : behindWord "NOT".toList stated with
  | none => exact hstated.2
  | some tail =>
      obtain ⟨rfl, hbehind⟩ := behindWord_eq_some hnot
      exact h.signWord_lstrip ((List.drop_suffix _ _).trans hstated.1) hbehind

theorem length_maskLiteralsFrom (masked : Option ℕ) (text : Text) :
    (maskLiteralsFrom masked text).length = text.length := by
  induction text generalizing masked with
  | nil => cases masked <;> rfl
  | cons c text ih =>
      rcases masked with - | - | n <;> rw [maskLiteralsFrom, List.length_cons, ih, List.length_cons]

theorem rewriteFrom_of_signFree (behind : Option Char) {masked text : Text} (h : SignFree masked)
    (hlen : masked.length = text.length) : rewriteFrom 0 behind masked text = text := by
  induction masked generalizing behind text with
  | nil => exact (List.length_eq_zero_iff.1 hlen.symm).symm
  | cons m masked ih =>
      cases text with
      | nil => cases hlen
      | cons c text =>
          rw [rewriteFrom, if_neg (by omega), h.signAt_eq_none behind]
          simp only [List.take_succ_cons, List.take_zero, List.drop_succ_cons, List.drop_zero]
          rw [ih _ h.of_cons (Nat.succ.inj hlen)]
          rfl

/-- **A text whose copy is sign-free is not changed.** -/
theorem rewriteSignConditions_of_signFree {text : Text} (h : SignFree (maskLiterals text)) :
    rewriteSignConditions text = text :=
  rewriteFrom_of_signFree none h (length_maskLiteralsFrom none text)

/-! ### Texts put together -/

/-- No word of a text starts with the word of a sign condition. -/
def SignFreeWords (text : Text) : Prop := ∀ word ∈ text.splitOnP isSpace, signFreeWord word = true

theorem SignFreeWords.signFree {text : Text} (h : SignFreeWords text) : SignFree text :=
  fun word hword => h word (List.mem_of_mem_tail hword)

theorem SignFreeWords.append {s t : Text} (hs : SignFreeWords s) {c : Char} (hc : isSpace c = true)
    (ht : SignFreeWords t) : SignFreeWords (s ++ c :: t) := by
  intro word hword
  rw [List.splitOnP_append_cons s t hc] at hword
  rcases List.mem_append.1 hword with hword | hword
  · exact hs word hword
  · exact ht word hword

theorem SignFreeWords.of_word {word : Text} (hspace : ∀ c ∈ word, isSpace c = false)
    (hfree : signFreeWord word = true) : SignFreeWords word := by
  intro w hw
  rw [List.splitOnP_eq_singleton hspace, List.mem_singleton] at hw
  rw [hw]
  exact hfree

theorem signFreeWord_of_head {c : Char} (hc : isNameChar c = false) (rest : Text) :
    signFreeWord (c :: rest) = true := by
  rw [signFreeWord, List.takeWhile_cons, hc, if_neg (by decide)]
  decide

theorem SignFreeWords.cons {s : Text} (hs : SignFreeWords s) {c : Char} (hc : isNameChar c = false)
    (hspace : isSpace c = false) : SignFreeWords (c :: s) := by
  obtain ⟨others, hothers⟩ := splitOnP_head s
  intro word hword
  rw [List.splitOnP_cons_eq_if_modifyHead, hspace, if_neg (by decide), hothers,
    List.modifyHead_cons] at hword
  rcases List.mem_cons.1 hword with rfl | hword
  · exact signFreeWord_of_head hc _
  · refine hs word ?_
    rw [hothers]
    exact List.mem_cons_of_mem _ hword

/-- The words of a text with a character more at its end. -/
theorem mem_splitOnP_concat {s : Text} {c : Char} (hspace : isSpace c = false) {word : Text}
    (h : word ∈ (s ++ [c]).splitOnP isSpace) :
    word ∈ s.splitOnP isSpace ∨ ∃ w ∈ s.splitOnP isSpace, word = w ++ [c] := by
  -- the last word, and what stands before it
  obtain ⟨front, last, rfl, hlast, hfront⟩ : ∃ front last, s = front ++ last ∧
      (∀ d ∈ last, isSpace d = false) ∧ (front = [] ∨ ∃ x d, front = x ++ [d] ∧ isSpace d = true) := by
    refine ⟨s.rdropWhile fun d => !isSpace d, s.rtakeWhile fun d => !isSpace d,
      (List.rdropWhile_append_rtakeWhile).symm, fun d hd => ?_, ?_⟩
    · simpa using List.mem_rtakeWhile_imp hd
    · rcases List.eq_nil_or_concat (s.rdropWhile fun d => !isSpace d) with hnil | ⟨x, d, hx⟩
      · exact .inl hnil
      · have hne : (s.rdropWhile fun d => !isSpace d) ≠ [] := by simp [hx]
        have hnot := List.rdropWhile_last_not (fun d => !isSpace d) s hne
        refine .inr ⟨x, d, by rw [hx, List.concat_eq_append], ?_⟩
        simpa [hx] using hnot
  have hwhole : ∀ d ∈ last ++ [c], isSpace d = false := by
    intro d hd
    rcases List.mem_append.1 hd with hd | hd
    · exact hlast d hd
    · rw [List.mem_singleton.1 hd]
      exact hspace
  rcases hfront with rfl | ⟨x, d, rfl, hd⟩
  · rw [List.nil_append, List.splitOnP_eq_singleton hwhole, List.mem_singleton] at h
    rw [List.nil_append, List.splitOnP_eq_singleton hlast]
    exact .inr ⟨last, List.mem_singleton_self _, h⟩
  · rw [List.append_assoc, List.append_assoc, List.singleton_append,
      List.splitOnP_append_cons _ _ hd, List.splitOnP_eq_singleton hwhole] at h
    rw [List.append_assoc, List.singleton_append, List.splitOnP_append_cons _ _ hd,
      List.splitOnP_eq_singleton hlast]
    rcases List.mem_append.1 h with h | h
    · exact .inl (List.mem_append_left _ h)
    · rw [List.mem_singleton] at h
      exact .inr ⟨last, List.mem_append_right _ (List.mem_singleton_self _), h⟩

theorem SignFreeWords.concat {s : Text} (hs : SignFreeWords s) {c : Char} (hc : isNameChar c = false)
    (hspace : isSpace c = false) : SignFreeWords (s ++ [c]) := by
  intro word hword
  rcases mem_splitOnP_concat hspace hword with h | ⟨w, hw, rfl⟩
  · exact hs word h
  · have hrun : (w ++ [c]).takeWhile isNameChar = w.takeWhile isNameChar := by
      have hstop : [c].takeWhile isNameChar = [] := by
        rw [List.takeWhile_cons, hc, if_neg (by simp)]
      rw [List.takeWhile_append, hstop, List.append_nil]
      split_ifs with hfull
      · exact ((List.takeWhile_prefix _).eq_of_length hfull).symm
      · rfl
    rw [signFreeWord, hrun]
    exact hs w hw

end CobolJava.Formula
