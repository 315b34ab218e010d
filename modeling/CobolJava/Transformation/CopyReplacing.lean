/-
**COPY REPLACING and comments.**

The substitution of `REPLACING` operands (`_apply_replacing`) runs over a text that still holds its
comments.  Against it stands the substitution outside literals and comments.

Main definitions:

* `commentAt`, `commentWidth` — a comment that starts at a position;
* `replaceOutside` — the substitution outside literals and comments;
* `CommentsInert` — no comment holds a pattern or leaves a quote open.

Main results:

* `applyReplacing_of_commentsInert` — with inert comments both substitutions are the same;
* `apostrophe_hides_pattern` — a comment with an apostrophe.
-/

import CobolJava.Transformation.CopybookText

set_option autoImplicit false

namespace CobolJava.Copybook

open Py.Chars
open SourceFormat (Text)

/-! ### Outside comments -/

def restOfLine (s : Text) : Text :=
  s.takeWhile (· ≠ '\n')

/-- A comment starts: an inline comment, or a comment line at the start of a line. -/
def commentAt (before : Option Char) (s : Text) : Bool :=
  startswith s ['*', '>'] ||
    ((before.all (· = '\n')) && commentLine (restOfLine s))

/-- The loop of the substitution outside literals and comments.  Of the text `copied` characters
belong to a comment, and `skip` to a pattern that was replaced. -/
def replaceOutsideFrom (pairs : List (Text × Text)) (quote before : Option Char)
    (copied skip : ℕ) : Text → Text
  | [] => []
  | c :: rest =>
      if 0 < copied then c :: replaceOutsideFrom pairs quote (some c) (copied - 1) skip rest
      else if 0 < skip then replaceOutsideFrom pairs quote (some c) 0 (skip - 1) rest
      else
        match quote with
        | some q =>
            c :: replaceOutsideFrom pairs (if c = q then none else quote) (some c) 0 0 rest
        | none =>
            if commentAt before (c :: rest) then
              c :: replaceOutsideFrom pairs none (some c) ((restOfLine (c :: rest)).length - 1) 0 rest
            else if c = '\'' || c = '"' then
              c :: replaceOutsideFrom pairs (some c) (some c) 0 0 rest
            else
              match pairAt pairs before (c :: rest) with
              | some pair =>
                  pair.2 ++ replaceOutsideFrom pairs none (some c) 0 (pair.1.length - 1) rest
              | none => c :: replaceOutsideFrom pairs none (some c) 0 0 rest

/-- Every whole-word occurrence of a pattern outside literals and comments is replaced, from left to
right, the first pair of the clause first, and nothing else. -/
def replaceOutside (text : Text) (pairs : List (Text × Text)) : Text :=
  replaceOutsideFrom pairs none none 0 0 text

/-! ### Inert comments -/

/-- Read as code, the first characters of a text hold no pattern outside literals and leave no
literal open. -/
def Inert (pairs : List (Text × Text)) (quote before : Option Char) : ℕ → Text → Prop
  | 0, _ => quote = none
  | _ + 1, [] => quote = none
  | n + 1, c :: rest =>
      match quote with
      | some q => Inert pairs (if c = q then none else quote) (some c) n rest
      | none =>
          if c = '\'' || c = '"' then Inert pairs (some c) (some c) n rest
          else pairAt pairs before (c :: rest) = none ∧ Inert pairs none (some c) n rest

/-- The comments a text holds from a position on are inert. -/
def CommentsInertFrom (pairs : List (Text × Text)) (quote before : Option Char)
    (copied skip : ℕ) : Text → Prop
  | [] => True
  | c :: rest =>
      if 0 < copied then CommentsInertFrom pairs quote (some c) (copied - 1) skip rest
      else if 0 < skip then CommentsInertFrom pairs quote (some c) 0 (skip - 1) rest
      else
        match quote with
        | some q => CommentsInertFrom pairs (if c = q then none else quote) (some c) 0 0 rest
        | none =>
            if commentAt before (c :: rest) then
              Inert pairs none before (restOfLine (c :: rest)).length (c :: rest) ∧
                CommentsInertFrom pairs none (some c) ((restOfLine (c :: rest)).length - 1) 0 rest
            else if c = '\'' || c = '"' then CommentsInertFrom pairs (some c) (some c) 0 0 rest
            else
              match pairAt pairs before (c :: rest) with
              | some pair =>
                  CommentsInertFrom pairs none (some c) 0 (pair.1.length - 1) rest
              | none => CommentsInertFrom pairs none (some c) 0 0 rest

/-- The comments of a text are inert. -/
def CommentsInert (pairs : List (Text × Text)) (text : Text) : Prop :=
  CommentsInertFrom pairs none none 0 0 text

attribute [grind =] replaceOutsideFrom Inert CommentsInertFrom

section Scan

variable {pairs : List (Text × Text)}

theorem restOfLine_of_commentAt {before : Option Char} {c : Char} {rest : Text}
    (h : commentAt before (c :: rest) = true) :
    (restOfLine (c :: rest)).length = (restOfLine rest).length + 1 := by
  have hc : c ≠ '\n' := by
    rintro rfl
    simp [commentAt, startswith, restOfLine, commentLine, commentIndicator] at h
  simp [restOfLine, hc]

theorem applyReplacingFrom_inert {quote before : Option Char} {n : ℕ} {c : Char} {rest : Text}
    (h : Inert pairs quote before (n + 1) (c :: rest)) :
    ∃ quote', Inert pairs quote' (some c) n rest ∧
      applyReplacingFrom pairs quote before 0 (c :: rest) =
        c :: applyReplacingFrom pairs quote' (some c) 0 rest := by
  cases quote with
  | some q => exact ⟨_, h, by simp [applyReplacingFrom]⟩
  | none =>
      by_cases hc : c = '\'' ∨ c = '"'
      · simp only [Inert, Bool.or_eq_true, decide_eq_true_eq, hc, if_true] at h
        exact ⟨_, h, by simp [applyReplacingFrom, hc]⟩
      · simp only [Inert, Bool.or_eq_true, decide_eq_true_eq, hc, if_false] at h
        exact ⟨_, h.2, by simp [applyReplacingFrom, hc, h.1]⟩

/-- Both scans agree outside comments, and within a comment as far as it is inert. -/
theorem applyReplacingFrom_eq (text : Text) :
    (∀ quote before skip, CommentsInertFrom pairs quote before 0 skip text →
      applyReplacingFrom pairs quote before skip text =
        replaceOutsideFrom pairs quote before 0 skip text) ∧
    ∀ quote before n, Inert pairs quote before n text →
      CommentsInertFrom pairs none before n 0 text →
      applyReplacingFrom pairs quote before 0 text =
        replaceOutsideFrom pairs none before n 0 text := by
  induction text with
  | nil => exact ⟨fun _ _ _ _ => rfl, fun _ _ _ _ _ => rfl⟩
  | cons c rest ih =>
      obtain ⟨ihCode, ihComment⟩ := ih
      have hcode : ∀ quote before skip, CommentsInertFrom pairs quote before 0 skip (c :: rest) →
          applyReplacingFrom pairs quote before skip (c :: rest) =
            replaceOutsideFrom pairs quote before 0 skip (c :: rest) := by
        intro quote before skip h
        by_cases hskip : 0 < skip
        · simp only [CommentsInertFrom, Nat.lt_irrefl, hskip, if_true, if_false] at h
          simp only [applyReplacingFrom, replaceOutsideFrom, Nat.lt_irrefl, hskip, if_true,
            if_false]
          exact ihCode _ _ _ h
        obtain rfl : skip = 0 := by omega
        cases quote with
        | some q =>
            simp only [CommentsInertFrom, Nat.lt_irrefl, if_false] at h
            simp only [applyReplacingFrom, replaceOutsideFrom, Nat.lt_irrefl, if_false]
            rw [ihCode _ _ _ h]
        | none =>
            by_cases hcomment : commentAt before (c :: rest) = true
            · simp only [CommentsInertFrom, Nat.lt_irrefl, if_false, hcomment, if_true,
                restOfLine_of_commentAt hcomment, Nat.add_sub_cancel] at h
              obtain ⟨quote', hinert, hstep⟩ := applyReplacingFrom_inert h.1
              rw [hstep, ihComment quote' _ _ hinert h.2]
              simp only [replaceOutsideFrom, Nat.lt_irrefl, if_false, hcomment, if_true,
                restOfLine_of_commentAt hcomment, Nat.add_sub_cancel]
            · simp only [CommentsInertFrom, Nat.lt_irrefl, if_false, hcomment] at h
              simp only [applyReplacingFrom, replaceOutsideFrom, Nat.lt_irrefl, if_false, hcomment,
                Bool.false_eq_true] at h ⊢
              by_cases hc : (c = '\'' || c = '"') = true
              · simp only [hc, if_true] at h ⊢
                rw [ihCode _ _ _ h]
              · simp only [hc, if_false, Bool.false_eq_true] at h ⊢
                cases hpair : pairAt pairs before (c :: rest) with
                | none =>
                    simp only [hpair] at h ⊢
                    rw [← ihCode _ _ _ h]
                | some pair =>
                    simp only [hpair] at h ⊢
                    rw [← ihCode _ _ _ h]
      refine ⟨hcode, fun quote before n hinert hrest => ?_⟩
      cases n with
      | zero =>
          obtain rfl : quote = none := hinert
          exact hcode none before 0 hrest
      | succ n =>
          obtain ⟨quote', hinert', hstep⟩ := applyReplacingFrom_inert hinert
          simp only [CommentsInertFrom, Nat.succ_pos, if_true, Nat.add_sub_cancel] at hrest
          rw [hstep, ihComment quote' _ _ hinert' hrest]
          simp only [replaceOutsideFrom, Nat.succ_pos, if_true, Nat.add_sub_cancel]

end Scan

theorem replaceOutsideFrom_nil (quote before : Option Char) (copied : ℕ) (text : Text) :
    replaceOutsideFrom [] quote before copied 0 text = text := by
  induction text generalizing quote before copied with
  | nil => rfl
  | cons c rest ih =>
      simp only [replaceOutsideFrom, ih, pairAt, List.find?_nil, Nat.lt_irrefl, if_false]
      split
      · rfl
      · cases quote with
        | some q => rfl
        | none => simp

/-- When the comments of a text are inert, exactly the occurrences outside literals and comments are
replaced. -/
theorem applyReplacing_of_commentsInert {text : Text} {pairs : List (Text × Text)}
    (h : CommentsInert pairs text) : applyReplacing text pairs = replaceOutside text pairs := by
  rw [applyReplacing]
  split
  · rename_i hpairs
    rw [hpairs, replaceOutside, replaceOutsideFrom_nil]
  · exact (applyReplacingFrom_eq text).1 none none 0 h

/-- A comment that mentions no operand. -/
theorem applyReplacing_plain :
    applyReplacing "* KEY\nTAG".toList [("TAG".toList, "X".toList)] =
      replaceOutside "* KEY\nTAG".toList [("TAG".toList, "X".toList)] :=
  applyReplacing_of_commentsInert (by
    simp [CommentsInert, CommentsInertFrom, Inert, commentAt, startswith, restOfLine, commentLine,
      commentIndicator, isBlank, pairAt, patternAt, upper, isWordOrHyphen])

/-- An apostrophe in a comment hides the operands on the lines that follow. -/
theorem apostrophe_hides_pattern :
    ¬∀ (text : Text) (pairs : List (Text × Text)),
      applyReplacing text pairs = replaceOutside text pairs := by
  intro h
  exact absurd (h "* IT'S\nTAG".toList [("TAG".toList, "X".toList)]) (by decide +kernel)

end CobolJava.Copybook
