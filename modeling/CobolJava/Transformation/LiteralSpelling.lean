/-
**The spelling of literals.**

`_canonical_literals` of `source_format.py` gives a literal with a doubled quote the other delimiter.
A line is read in two ways: by the rule of COBOL, where a doubled quote stands for one, and without
escapes, where a literal runs to the next occurrence of its delimiter.

Main definitions:

* `Piece`, `scan` — a line of code in pieces, by either rule;
* `BothQuotes` — a value that no delimiter can hold without escapes.

Main results:

* `scan_literal`, `scan_delimited` — a literal under either rule;
* `respelled_canonicalFrom` — the loop, from any position;
* `canonicalLiterals_scan` — **the rewritten line has the pieces of the line, and a line is refused
  exactly for a literal with both quotes**.
-/

import CobolJava.Transformation.SourceFormat

set_option autoImplicit false

namespace CobolJava.SourceFormat

open Py.Chars

/-! ### Pieces -/

/-- A piece of a code line: a character outside the literals, the value of a literal, or the inline
comment. -/
inductive Piece
  | code (c : Char)
  | literal (value : Text)
  | comment (text : Text)
  deriving DecidableEq

def isQuote (c : Char) : Bool := c = '"' || c = '\''

/-- The pieces of a line, unless a literal is not terminated; within a literal its delimiter and the
value so far are given.  With `doubled`, a doubled delimiter stands for one in the value. -/
def scan (doubled : Bool) : Option (Char × Text) → Text → Option (List Piece)
  | none, [] => some []
  | some _, [] => none
  | none, c :: rest =>
      if startswith (c :: rest) ['*', '>'] then some [.comment (c :: rest)]
      else if isQuote c then scan doubled (some (c, [])) rest
      else (scan doubled none rest).map (.code c :: ·)
  | some (quote, value), [c] => if c = quote then some [.literal value] else none
  | some (quote, value), c :: d :: rest =>
      if c = quote then
        if doubled && d = quote then scan doubled (some (quote, value ++ [quote])) rest
        else (scan doubled none (d :: rest)).map (.literal value :: ·)
      else scan doubled (some (quote, value ++ [c])) (d :: rest)

def BothQuotes (value : Text) : Prop := '"' ∈ value ∧ '\'' ∈ value

attribute [grind =] scan

/-! ### Literals -/

section Literals

variable {quote : Char} {value : Text}

theorem scan_other {c : Char} (doubled : Bool) (h : c ≠ quote) (value rest : Text) :
    scan doubled (some (quote, value)) (c :: rest) =
      scan doubled (some (quote, value ++ [c])) rest := by
  cases rest with
  | nil => simp [scan, h]
  | cons d rest => rw [scan, if_neg h]

theorem literalValue_other {c : Char} (h : c ≠ quote) (rest : Text) : literalValue quote (c :: rest) =
    (literalValue quote rest).map fun v => (c :: v.1, v.2 + 1) := by
  cases rest with
  | nil => simp [literalValue, h]
  | cons d rest =>
      rw [literalValue.eq_def]
      exact if_neg h

theorem scan_literal (rest value : Text) :
    scan true (some (quote, value)) rest = (literalValue quote rest).bind fun v =>
      (scan true none (rest.drop v.2)).map (.literal (value ++ v.1) :: ·) := by
  induction rest using literalValue.induct quote generalizing value with
  | case1 => rfl
  | case2 rest ih =>
      rw [scan, if_pos rfl, literalValue, if_pos rfl]
      simp only [decide_true, Bool.and_true, if_true]
      rw [ih]
      cases literalValue quote rest with
      | none => rfl
      | some v => simp
  | case3 d rest hd =>
      rw [scan, if_pos rfl, literalValue, if_pos rfl]
      simp [hd]
  | case4 =>
      rw [scan, literalValue]
      simp [scan]
  | case5 c rest hc ih =>
      rw [scan_other true hc, literalValue_other hc, ih]
      cases literalValue quote rest with
      | none => rfl
      | some v => simp

theorem scan_delimited (h : quote ∉ value) (acc more : Text) :
    scan false (some (quote, acc)) (value ++ quote :: more) =
      (scan false none more).map (.literal (acc ++ value) :: ·) := by
  induction value generalizing acc with
  | nil =>
      rw [List.nil_append, List.append_nil]
      cases more with
      | nil => simp [scan]
      | cons d more => simp [scan]
  | cons c value ih =>
      rw [List.mem_cons, not_or] at h
      rw [List.cons_append, scan_other false (Ne.symm h.1), ih h.2, List.append_assoc,
        List.singleton_append]

/-- A literal that has no doubled quote is written as its value. -/
theorem take_of_literalValue {rest : Text} {v : Text × ℕ} (h : literalValue quote rest = some v)
    (hv : quote ∉ v.1) : rest.take v.2 = v.1 ++ [quote] := by
  induction rest using literalValue.induct quote generalizing v with
  | case1 => cases h
  | case2 rest ih =>
      rw [literalValue, if_pos rfl] at h
      simp only [if_true] at h
      obtain ⟨w, -, rfl⟩ := Option.map_eq_some_iff.1 h
      exact absurd (List.mem_cons_self ..) hv
  | case3 d rest hd =>
      rw [literalValue, if_pos rfl] at h
      simp only [hd, if_false] at h
      obtain rfl := Option.some.inj h
      rfl
  | case4 =>
      simp only [literalValue, if_true] at h
      obtain rfl := Option.some.inj h
      rfl
  | case5 c rest hc ih =>
      rw [literalValue_other hc] at h
      obtain ⟨w, hw, rfl⟩ := Option.map_eq_some_iff.1 h
      rw [List.mem_cons, not_or] at hv
      rw [List.take_succ_cons, ih hw hv.2, List.cons_append]

end Literals

/-! ### The loop -/

theorem canonicalFrom_skip (skip : ℕ) (text : Text) :
    canonicalFrom skip text = canonicalFrom 0 (text.drop skip) := by
  induction text generalizing skip with
  | nil => rw [List.drop_nil, canonicalFrom, canonicalFrom]
  | cons c rest ih =>
      cases skip with
      | zero => rfl
      | succ skip => rw [canonicalFrom, if_pos (Nat.succ_pos _), Nat.add_sub_cancel, ih,
          List.drop_succ_cons]

/-- What the loop makes of a text with the given pieces: a text with these pieces and no literal with
both quotes, or a problem with such a literal. -/
def Respelled (text : Text) (pieces : List Piece) : Except String Text → Prop
  | .ok out => scan false none out = some pieces ∧
      (∀ value, .literal value ∈ pieces → ¬BothQuotes value) ∧
      (out.head? = some '>' → text.head? = some '>')
  | .error _ => ∃ value, .literal value ∈ pieces ∧ BothQuotes value

section Loop

variable {text : Text} {pieces : List Piece} {r : Except String Text}

theorem Respelled.code {c : Char} (h : Respelled text pieces r) (hquote : isQuote c = false)
    (hcomment : startswith (c :: text) ['*', '>'] = false) :
    Respelled (c :: text) (.code c :: pieces) (r.map (c :: ·)) := by
  cases r with
  | error e =>
      obtain ⟨value, hvalue, hboth⟩ := h
      exact ⟨value, List.mem_cons_of_mem _ hvalue, hboth⟩
  | ok out =>
      obtain ⟨hscan, hnone, hhead⟩ := h
      -- a comment cannot begin between `c` and the rewritten rest
      have hstart : startswith (c :: out) ['*', '>'] = false := by
        rw [Bool.eq_false_iff] at hcomment ⊢
        intro hout
        have hsome : out.head? = some '>' := by
          cases out with
          | nil => simp [startswith] at hout
          | cons d out =>
              have hboth : '*' = c ∧ '>' = d := by simpa [startswith] using hout
              rw [List.head?_cons, hboth.2]
        refine hcomment ?_
        cases text with
        | nil => cases hhead hsome
        | cons d text =>
            have hd : d = '>' := Option.some.inj (hhead hsome)
            have hc : '*' = c := by
              cases out with
              | nil => cases hsome
              | cons e out => exact (by simpa [startswith] using hout : '*' = c ∧ '>' = e).1
            rw [← hc, hd]
            rfl
      refine ⟨?_, fun value hvalue => ?_, id⟩
      · rw [scan, hstart, hquote, if_neg Bool.false_ne_true, if_neg Bool.false_ne_true, hscan]
        rfl
      · exact hnone value (by simpa using hvalue)

theorem Respelled.literal {c quote : Char} {value rest : Text} (h : Respelled text pieces r)
    (hquote : isQuote quote = true) (hvalue : quote ∉ value) :
    Respelled (c :: rest) (.literal value :: pieces)
      (r.map ((quote :: value ++ [quote]) ++ ·)) := by
  cases r with
  | error e =>
      obtain ⟨value', hvalue', hboth⟩ := h
      exact ⟨value', List.mem_cons_of_mem _ hvalue', hboth⟩
  | ok out =>
      obtain ⟨hscan, hnone, -⟩ := h
      have hcases : quote = '"' ∨ quote = '\'' := by simpa [isQuote] using hquote
      have hsplit : (quote :: value ++ [quote]) ++ out = quote :: (value ++ quote :: out) := by simp
      refine ⟨?_, fun value' hvalue' => ?_, fun hhead => ?_⟩
      · have hstart : startswith (quote :: (value ++ quote :: out)) ['*', '>'] = false := by
          rcases hcases with rfl | rfl <;> rfl
        dsimp only
        rw [hsplit, scan, hstart, if_neg Bool.false_ne_true, if_pos hquote,
          scan_delimited hvalue, hscan]
        rfl
      · rcases List.mem_cons.1 hvalue' with heq | hvalue'
        · obtain rfl := Piece.literal.inj heq
          rintro ⟨hdouble, hsingle⟩
          rcases hcases with rfl | rfl
          · exact hvalue hdouble
          · exact hvalue hsingle
        · exact hnone value' hvalue'
      · dsimp only at hhead
        rw [hsplit, List.head?_cons, Option.some.injEq] at hhead
        rw [hhead] at hquote
        cases hquote

theorem isQuote_otherQuote (quote : Char) : isQuote (otherQuote quote) = true := by
  rw [otherQuote]
  split_ifs <;> rfl

/-- **The loop**: what it makes of a text whose literals are terminated. -/
theorem respelled_canonicalFrom (h : scan true none text = some pieces) :
    Respelled text pieces (canonicalFrom 0 text) := by
  induction hn : text.length using Nat.strong_induction_on generalizing text pieces with
  | _ n ih =>
    cases text with
    | nil =>
        obtain rfl : [] = pieces := by simpa [scan] using h
        exact ⟨rfl, nofun, id⟩
    | cons c rest =>
        rw [scan] at h
        rw [canonicalFrom, if_neg (Nat.lt_irrefl 0)]
        cases hcomment : startswith (c :: rest) ['*', '>'] with
        | true =>
            rw [hcomment, if_pos rfl] at h
            obtain rfl := Option.some.inj h
            rw [if_pos rfl]
            refine ⟨?_, by simp, id⟩
            rw [scan, hcomment, if_pos rfl]
        | false =>
            rw [hcomment, if_neg Bool.false_ne_true] at h
            rw [if_neg Bool.false_ne_true]
            cases hquote : isQuote c with
            | false =>
                rw [hquote, if_neg Bool.false_ne_true] at h
                obtain ⟨pieces', hpieces, rfl⟩ := Option.map_eq_some_iff.1 h
                have hother : (decide (c ≠ '"') && decide (c ≠ '\'')) = true := by
                  simpa [isQuote] using hquote
                rw [if_pos hother]
                exact (ih rest.length (by rw [← hn]; exact Nat.lt_succ_self _) hpieces rfl).code
                  hquote hcomment
            | true =>
                rw [hquote, if_pos rfl, scan_literal] at h
                obtain ⟨v, hv, hrest⟩ := Option.bind_eq_some_iff.1 h
                obtain ⟨pieces', hpieces, rfl⟩ := Option.map_eq_some_iff.1 hrest
                have hother : ¬(decide (c ≠ '"') && decide (c ≠ '\'')) = true := by
                  have hcases : c = '"' ∨ c = '\'' := by simpa [isQuote] using hquote
                  rcases hcases with rfl | rfl <;> decide
                have hlength : (rest.drop v.2).length < n := by
                  rw [← hn, List.length_drop, List.length_cons]
                  omega
                have hnext := ih _ hlength hpieces rfl
                rw [if_neg hother, hv]
                simp only [List.nil_append, canonicalFrom_skip v.2 rest]
                split_ifs with hkept hboth
                · have hno : c ∉ v.1 := by simpa using hkept
                  rw [take_of_literalValue hv hno, ← List.cons_append]
                  exact hnext.literal hquote hno
                · have hin : c ∈ v.1 := by simpa using hkept
                  have hout : otherQuote c ∈ v.1 := by simpa using hboth
                  refine ⟨v.1, List.mem_cons_self .., ?_⟩
                  have hcases : c = '"' ∨ c = '\'' := by simpa [isQuote] using hquote
                  rcases hcases with rfl | rfl
                  · exact ⟨hin, hout⟩
                  · exact ⟨hout, hin⟩
                · exact hnext.literal (isQuote_otherQuote c) (by simpa using hboth)

end Loop

/-- **The rewritten line has the pieces of the line**, and a line is refused exactly for a literal
with both quotes. -/
theorem canonicalLiterals_scan (code : Text) (pieces : List Piece)
    (h : scan true none code = some pieces) :
    (∀ out, canonicalLiterals code = (out, none) → scan false none out = some pieces) ∧
    ((canonicalLiterals code).2.isSome = true ↔
      ∃ value, .literal value ∈ pieces ∧ BothQuotes value) := by
  have hloop := respelled_canonicalFrom h
  rw [canonicalLiterals]
  cases hr : canonicalFrom 0 code with
  | error problem =>
      rw [hr] at hloop
      exact ⟨nofun, iff_of_true rfl hloop⟩
  | ok out =>
      rw [hr] at hloop
      refine ⟨fun out' hout => ?_, iff_of_false (by simp) ?_⟩
      · rw [← (Prod.mk.inj hout).1]
        exact hloop.1
      · rintro ⟨value, hvalue, hboth⟩
        exact hloop.2.1 value hvalue hboth

/-- A doubled quote in front of a comment. -/
theorem canonicalLiterals_scan_doubled :
    (∀ out, canonicalLiterals "'IT''S' *> 'x".toList = (out, none) → scan false none out =
      some [.literal "IT'S".toList, .code ' ', .comment "*> 'x".toList]) ∧
    ((canonicalLiterals "'IT''S' *> 'x".toList).2.isSome = true ↔ ∃ value,
      .literal value ∈ ([.literal "IT'S".toList, .code ' ', .comment "*> 'x".toList] : List Piece) ∧
        BothQuotes value) :=
  canonicalLiterals_scan "'IT''S' *> 'x".toList _ (by decide +kernel)

end CobolJava.SourceFormat
