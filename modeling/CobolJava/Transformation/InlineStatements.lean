/-
**Statements on one line.**

`_split_statements_on_dashes` of `cobol_parser.py` cuts the text behind a control verb into
statements.  A statement begins at a verb; a verb that opens a scope owns the text up to the place
where its closer pattern balances, and the pattern does not ask where a word begins.

Main definitions:

* `inlineMatches`, `scopeStop`, `partSpans` — the verbs of a line, the end of a scope, and the
  function;
* `IsVerbWord`, `matchingEnd` — a verb that is a word, and the scope end that belongs to it, word by
  word;
* `SplitsAtVerbs` — the parts begin with verbs, hold their scopes and lose nothing but blanks;
* `Reached` — the statements that follow each other on the line;
* `ScopesInOrder` — the closer pattern respects the scope ends, and only blanks follow them.

Main results:

* `mem_inlineMatches` — the matches are the verb words outside literals;
* `exists_partSpans` — the function terminates;
* `splitsAtVerbs_iff` — **when a line is split at its verbs only**.
-/

import CobolJava.Lib.PyCase
import CobolJava.Lib.PyInk
import CobolJava.Lib.PySlice
import CobolJava.Transformation.CodeLines

set_option autoImplicit false

namespace CobolJava.InlineStatements

open Py.Chars

abbrev Text := List Char

/-! ### Verbs -/

/-- `\w` -/
def isWordChar (c : Char) : Bool :=
  c.isAlphanum || c = '_'

/-- `[\w-]` -/
def isNameChar (c : Char) : Bool :=
  isWordChar c || c = '-'

/-- `_STATEMENT_LEADING_VERBS` -/
def statementLeadingVerbs : List Text :=
  ["OPEN", "READ", "WRITE", "CLOSE", "START", "REWRITE", "DELETE",
    "MOVE", "ADD", "SUBTRACT", "MULTIPLY", "DIVIDE", "COMPUTE",
    "CALL", "EVALUATE", "PERFORM", "UNSTRING", "STRING", "DISPLAY",
    "SET", "INITIALIZE", "INSPECT", "SEARCH", "IF", "STOP", "EXIT",
    "GOBACK", "GO", "GOTO", "ACCEPT", "SORT", "MERGE", "ALTER"].map String.toList

/-- `scope_opens` -/
def scopeOpens : List (Text × Text) :=
  [("IF", "END-IF"), ("PERFORM", "END-PERFORM"), ("EVALUATE", "END-EVALUATE"),
    ("STRING", "END-STRING"), ("UNSTRING", "END-UNSTRING"),
    ("READ", "END-READ"), ("WRITE", "END-WRITE")].map fun p => (p.1.toList, p.2.toList)

/-- A match of `_re_inline_statement`: its place, and `match.group(0).upper()`. -/
structure Match where
  start : ℕ
  verb : Text
  deriving DecidableEq, Repr

/-- `match.end()` -/
def Match.stop (m : Match) : ℕ :=
  m.start + m.verb.length

/-- `scope_opens.get(verb)` -/
def Match.terminator (m : Match) : Option Text :=
  scopeOpens.lookup m.verb

/-- A pattern of letters at the start of a text, in any case, with no character of a class behind
it. -/
def patternAt (excluded : Char → Bool) (pattern rest : Text) : Bool :=
  startswith (upper rest) pattern && !(rest.drop pattern.length).head?.any excluded

/-- The alternatives of `_re_inline_statement` at a place, and the lookahead behind them. -/
def verbAt (rest : Text) : Option Text :=
  statementLeadingVerbs.find? fun verb => patternAt isNameChar verb rest

/-- `_re_inline_statement.finditer`.  `behind` says whether a character of a name stands before the
text, where no match begins; so no match begins within another. -/
def matchesFrom : ℕ → Bool → Text → List Match
  | _, _, [] => []
  | i, behind, c :: rest =>
      match if behind then none else verbAt (c :: rest) with
      | some verb => ⟨i, verb⟩ :: matchesFrom (i + 1) (isNameChar c) rest
      | none => matchesFrom (i + 1) (isNameChar c) rest

def inlineMatches (masked : Text) : List Match :=
  matchesFrom 0 false masked

/-! ### Scopes -/

/-- The closer pattern of a verb at a place: the depth behind it, and the length of the match. -/
def closerAt (verb terminator : Text) (depth : ℕ) (rest : Text) : Option (ℕ × ℕ) :=
  if patternAt isWordChar verb rest then some (depth + 1, verb.length)
  else if patternAt isWordChar terminator rest then some (depth - 1, terminator.length)
  else none

/-- The loop `while depth > 0` from a place on, with `skip` characters of a match to go. -/
def scopeStop (verb terminator : Text) : ℕ → ℕ → ℕ → Text → ℕ
  | _, _, i, [] => i
  | depth, skip + 1, i, _ :: rest => scopeStop verb terminator depth skip (i + 1) rest
  | depth, 0, i, c :: rest =>
      match closerAt verb terminator depth (c :: rest) with
      | some (0, length) => i + length
      | some (depth' + 1, length) =>
          scopeStop verb terminator (depth' + 1) (length - 1) (i + 1) rest
      | none => scopeStop verb terminator depth 0 (i + 1) rest

attribute [grind =] matchesFrom scopeStop

/-- Where a statement ends: its scope is left, or the next verb begins, or the line ends. -/
def statementStop (masked : Text) (m : Match) (next : Option Match) : ℕ :=
  match m.terminator with
  | some terminator => scopeStop m.verb terminator 1 0 m.stop (masked.drop m.stop)
  | none => (next.map Match.start).getD masked.length

/-! ### The function -/

/-- The loop over the matches.  Every round takes fuel. -/
def splitLoop (masked : Text) : ℕ → List Match → ℕ → Option (List Span)
  | _, [], cursor => some [(cursor, masked.length)]
  | 0, _ :: _, _ => none
  | fuel + 1, m :: rest, _ =>
      let stop := statementStop masked m rest.head?
      (splitLoop masked fuel ((m :: rest).filter fun k => stop ≤ k.start) stop).map
        ((m.start, stop) :: ·)

attribute [grind =] splitLoop

/-- The places of the parts of a line. -/
def partSpans (text : Text) : Option (List Span) :=
  let masked := SourceFormat.maskQuoted text
  match inlineMatches masked with
  | [] => some [(0, text.length)]
  | m :: rest =>
      (splitLoop masked (rest.length + 1) (m :: rest) 0).map fun spans =>
        spans.filter fun s => strip (slice text s.1 s.2) ≠ []

/-- `_split_statements_on_dashes` -/
def splitStatementsOnDashes (text : Text) : Option (List Text) :=
  (partSpans text).map fun spans => spans.map fun s => slice text s.1 s.2

/-! ### What the parts are to be -/

/-- **A statement verb that is a whole word outside literals.** -/
def IsVerbWord (masked : Text) (m : Match) : Prop :=
  m.verb ∈ statementLeadingVerbs ∧ upper (slice masked m.start m.stop) = m.verb ∧
    ((masked.take m.start).getLast?).any isNameChar = false ∧
    (masked[m.stop]?).any isNameChar = false

/-- The end of the word at which the words of a verb and of its terminator balance; `behind` says
whether the text begins behind a character of a name. -/
def matchingEndFrom (verb terminator : Text) : ℕ → Bool → ℕ → Text → Option ℕ
  | _, _, _, [] => none
  | depth, behind, i, c :: rest =>
      let word := if behind then [] else (c :: rest).takeWhile isNameChar
      let depth' :=
        if upper word = verb then depth + 1
        else if upper word = terminator then depth - 1
        else depth
      if depth' = 0 then some (i + word.length)
      else matchingEndFrom verb terminator depth' (isNameChar c) (i + 1) rest

attribute [grind =] matchingEndFrom

/-- **The scope end that belongs to a verb.** -/
def matchingEnd (masked : Text) (m : Match) : Option ℕ :=
  m.terminator.bind fun terminator =>
    matchingEndFrom m.verb terminator 1 true m.stop (masked.drop m.stop)

/-- Parts of a text, each with the gap behind it. -/
def weave : List Text → List Text → Text
  | p :: ps, g :: gs => p ++ g ++ weave ps gs
  | _, _ => []

/-- The text from its first verb on. -/
def fromFirstVerb (text : Text) : Text :=
  match inlineMatches (SourceFormat.maskQuoted text) with
  | [] => []
  | m :: _ => text.drop m.start

/-- **A line is split at its verbs only**: its parts and blanks between them make up the line from
its first verb on, every part begins with a verb, and a part that opens a scope which is closed on
the line holds the scope end. -/
def SplitsAtVerbs (text : Text) : Prop :=
  let masked := SourceFormat.maskQuoted text
  ∃ spans, partSpans text = some spans ∧
    (∃ gaps : List Text, gaps.length = spans.length ∧ (∀ g ∈ gaps, strip g = []) ∧
      weave (spans.map fun s => slice text s.1 s.2) gaps = fromFirstVerb text) ∧
    ∀ s ∈ spans, ∃ m, IsVerbWord masked m ∧ m.start = s.1 ∧ m.stop ≤ s.2 ∧
      ∀ stop, matchingEnd masked m = some stop → stop ≤ s.2

/-! ### The statements of a line -/

/-- The first verb from a place on. -/
def nextVerb (masked : Text) (place : ℕ) : Option Match :=
  (inlineMatches masked).find? fun m => place ≤ m.start

def endOf (masked : Text) (m : Match) : ℕ :=
  statementStop masked m (nextVerb masked (m.start + 1))

/-- **The statements that follow each other on a line**: the first verb, and the first verb behind a
statement. -/
inductive Reached (masked : Text) : Match → Prop
  | first {m : Match} : nextVerb masked 0 = some m → Reached masked m
  | next {m m' : Match} : Reached masked m → nextVerb masked (endOf masked m) = some m' →
      Reached masked m'

/-- **The scopes of a line are in order**: where the closer pattern of a statement's verb balances, up
to the next verb or the end of the line, stand only blanks, and the scope end that belongs to the
verb is no later. -/
def ScopesInOrder (text : Text) : Prop :=
  let masked := SourceFormat.maskQuoted text
  ∀ m, Reached masked m → m.terminator.isSome = true →
    strip (slice text (endOf masked m)
      (((nextVerb masked (endOf masked m)).map Match.start).getD text.length)) = [] ∧
    ∀ stop, matchingEnd masked m = some stop → stop ≤ endOf masked m

/-! ### Matches are words -/

theorem isNameChar_toUpper (c : Char) : isNameChar c.toUpper = isNameChar c := by
  have hcase : ∀ d : Char, d.isAlpha = false → (decide (c.toUpper = d)) = decide (c = d) := by
    intro d hd
    exact decide_eq_decide.mpr (toUpper_eq_iff hd)
  simp only [isNameChar, isWordChar, isAlphanum_toUpper, hcase '_' (by decide),
    hcase '-' (by decide)]

theorem patternAt_iff {excluded : Char → Bool} {pattern rest : Text} :
    patternAt excluded pattern rest = true ↔
      upper (rest.take pattern.length) = pattern ∧
        (rest[pattern.length]?).any excluded = false := by
  have hstart : startswith (upper rest) pattern = true ↔
      upper (rest.take pattern.length) = pattern := by
    rw [startswith, List.isPrefixOf_iff_prefix, List.prefix_iff_eq_take, upper, upper,
      List.map_take]
    exact eq_comm
  rw [patternAt, Bool.and_eq_true, hstart, List.head?_drop, Bool.not_eq_true']

theorem verb_spec {verb : Text} (h : verb ∈ statementLeadingVerbs) :
    verb ≠ [] ∧ ∀ c ∈ verb, isNameChar c = true ∧ Py.isSpace c = false := by
  revert verb
  decide

theorem length_le_of_patternAt {verb verb' rest : Text} (hverb' : ∀ c ∈ verb', isNameChar c = true)
    (h : patternAt isNameChar verb rest = true) (h' : patternAt isNameChar verb' rest = true) :
    verb'.length ≤ verb.length := by
  by_contra hlt
  have hend := (patternAt_iff.mp h).2
  have hword := (patternAt_iff.mp h').1
  have hget : (upper (rest.take verb'.length))[verb.length]? = verb'[verb.length]? := by rw [hword]
  rw [upper, List.getElem?_map, List.getElem?_take_of_lt (by omega),
    List.getElem?_eq_getElem (by omega : verb.length < verb'.length)] at hget
  obtain ⟨c, hc, hupper⟩ := Option.map_eq_some_iff.mp hget
  have hname : isNameChar c = true := by
    rw [← isNameChar_toUpper, hupper]
    exact hverb' _ (List.getElem_mem _)
  rw [hc, Option.any_some, hname] at hend
  cases hend

/-- The alternatives of the pattern exclude each other. -/
theorem verbAt_eq_some_iff {rest verb : Text} :
    verbAt rest = some verb ↔
      verb ∈ statementLeadingVerbs ∧ patternAt isNameChar verb rest = true := by
  constructor
  · intro h
    rw [verbAt] at h
    have hpattern := List.find?_some h
    exact ⟨List.mem_of_find?_eq_some h, hpattern⟩
  · rintro ⟨hmem, hpattern⟩
    obtain ⟨verb', hverb'⟩ : ∃ verb', verbAt rest = some verb' := by
      rw [← Option.isSome_iff_exists, verbAt, List.find?_isSome]
      exact ⟨verb, hmem, hpattern⟩
    have hfound := hverb'
    rw [verbAt] at hfound
    have hmem' : verb' ∈ statementLeadingVerbs := List.mem_of_find?_eq_some hfound
    have hpattern' := List.find?_some hfound
    have hle := length_le_of_patternAt (fun c hc => ((verb_spec hmem).2 c hc).1) hpattern' hpattern
    have hle' := length_le_of_patternAt (fun c hc => ((verb_spec hmem').2 c hc).1) hpattern hpattern'
    have hlength : verb.length = verb'.length := by omega
    have hword := (patternAt_iff.mp hpattern).1
    rw [hlength, (patternAt_iff.mp hpattern').1] at hword
    rw [hverb', hword]

theorem isVerbWord_iff (before rest verb : Text) :
    IsVerbWord (before ++ rest) ⟨before.length, verb⟩ ↔
      (before.getLast?).any isNameChar = false ∧ verbAt rest = some verb := by
  have hslice : slice (before ++ rest) before.length (before.length + verb.length) =
      rest.take verb.length := by
    rw [slice, List.take_length_add_append, List.drop_left]
  rw [IsVerbWord, verbAt_eq_some_iff, patternAt_iff, Match.stop]
  dsimp only
  rw [hslice, List.take_left, List.getElem?_append_right (by omega), Nat.add_sub_cancel_left]
  tauto

/-- **The matches are the verb words outside literals.** -/
theorem mem_matchesFrom {before rest : Text} {m : Match} :
    m ∈ matchesFrom before.length ((before.getLast?).any isNameChar) rest ↔
      before.length ≤ m.start ∧ IsVerbWord (before ++ rest) m := by
  induction rest generalizing before with
  | nil =>
      simp only [matchesFrom, List.not_mem_nil, false_iff, not_and]
      intro hle hword
      have hnil : slice (before ++ []) m.start m.stop = [] := by
        rw [slice, List.append_nil]
        exact List.drop_eq_nil_of_le ((List.length_take_le' _ _).trans hle)
      have hverb := hword.2.1
      rw [hnil] at hverb
      exact (verb_spec hword.1).1 hverb.symm
  | cons c rest ih =>
      have hnext := @ih (before ++ [c])
      have hlast : ((before ++ [c]).getLast?).any isNameChar = isNameChar c := by simp
      rw [hlast, List.append_assoc, List.singleton_append, List.length_append,
        List.length_singleton] at hnext
      have hhere := fun verb => isVerbWord_iff before (c :: rest) verb
      have hsplit : before.length ≤ m.start ↔
          m = ⟨before.length, m.verb⟩ ∨ before.length + 1 ≤ m.start := by
        obtain ⟨start, verb⟩ := m
        simp only [Match.mk.injEq, and_true]
        omega
      rw [hsplit, or_and_right, ← hnext]
      rw [matchesFrom]
      rcases hbehind : (before.getLast?).any isNameChar with _ | _
      · cases hverb : verbAt (c :: rest) with
        | some verb =>
            simp only [Bool.false_eq_true, if_false, List.mem_cons]
            refine or_congr ⟨?_, ?_⟩ Iff.rfl
            · rintro rfl
              exact ⟨rfl, (hhere verb).mpr ⟨hbehind, hverb⟩⟩
            · rintro ⟨hm, hword⟩
              rw [hm] at hword
              obtain ⟨-, hverb'⟩ := (hhere m.verb).mp hword
              rw [hm, Option.some.inj (hverb.symm.trans hverb')]
        | none =>
            simp only [Bool.false_eq_true, if_false]
            refine (or_iff_right ?_).symm
            rintro ⟨hm, hword⟩
            rw [hm] at hword
            obtain ⟨-, hverb'⟩ := (hhere m.verb).mp hword
            rw [hverb] at hverb'
            cases hverb'
      · simp only [if_true]
        refine (or_iff_right ?_).symm
        rintro ⟨hm, hword⟩
        rw [hm] at hword
        obtain ⟨hbehind', -⟩ := (hhere m.verb).mp hword
        rw [hbehind] at hbehind'
        cases hbehind'

theorem mem_inlineMatches {masked : Text} {m : Match} :
    m ∈ inlineMatches masked ↔ IsVerbWord masked m := by
  have h := @mem_matchesFrom [] masked m
  simpa [inlineMatches] using h

theorem pairwise_matchesFrom (i : ℕ) (behind : Bool) (rest : Text) :
    (∀ m ∈ matchesFrom i behind rest, i ≤ m.start) ∧
      (matchesFrom i behind rest).Pairwise fun m m' => m.start < m'.start := by
  induction rest generalizing i behind with
  | nil => simp [matchesFrom]
  | cons c rest ih =>
      obtain ⟨hle, hpairwise⟩ := ih (i + 1) (isNameChar c)
      rw [matchesFrom]
      split
      · refine ⟨?_, List.pairwise_cons.mpr ⟨fun m hm => ?_, hpairwise⟩⟩
        · intro m hm
          rcases List.mem_cons.mp hm with rfl | hm
          · exact le_rfl
          · have hm' := hle m hm
            omega
        · have hm' := hle m hm
          simp only
          omega
      · exact ⟨fun m hm => (Nat.le_succ i).trans (hle m hm), hpairwise⟩

theorem pairwise_inlineMatches (masked : Text) :
    (inlineMatches masked).Pairwise fun m m' => m.start < m'.start :=
  (pairwise_matchesFrom 0 false masked).2

theorem IsVerbWord.unique {masked : Text} {m m' : Match} (h : IsVerbWord masked m)
    (h' : IsVerbWord masked m') (hstart : m.start = m'.start) : m = m' := by
  have hnodup : ((inlineMatches masked).map Match.start).Nodup :=
    (List.pairwise_map.mpr (pairwise_inlineMatches masked)).imp ne_of_lt
  exact List.inj_on_of_nodup_map hnodup (mem_inlineMatches.mpr h) (mem_inlineMatches.mpr h') hstart

theorem IsVerbWord.getElem? {masked : Text} {m : Match} (h : IsVerbWord masked m) {k : ℕ}
    (hstart : m.start ≤ k) (hstop : k < m.stop) :
    ∃ c, masked[k]? = some c ∧ isNameChar c = true ∧ Py.isSpace c = false := by
  have hlt : k - m.start < m.verb.length := by
    rw [Match.stop] at hstop
    omega
  have hget : (upper (slice masked m.start m.stop))[k - m.start]? = m.verb[k - m.start]? := by
    rw [h.2.1]
  rw [upper, List.getElem?_map, slice, List.getElem?_drop, List.getElem?_take_of_lt (by omega),
    show m.start + (k - m.start) = k by omega, List.getElem?_eq_getElem hlt] at hget
  obtain ⟨c, hc, hupper⟩ := Option.map_eq_some_iff.mp hget
  have hspec := (verb_spec h.1).2 _ (List.getElem_mem hlt)
  rw [← hupper, isNameChar_toUpper, isSpace_toUpper] at hspec
  exact ⟨c, hc, hspec⟩

theorem IsVerbWord.start_lt_stop {masked : Text} {m : Match} (h : IsVerbWord masked m) :
    m.start < m.stop := by
  have hpos := List.length_pos_iff.mpr (verb_spec h.1).1
  rw [Match.stop]
  omega

theorem IsVerbWord.stop_le_length {masked : Text} {m : Match} (h : IsVerbWord masked m) :
    m.stop ≤ masked.length := by
  have hlt := h.start_lt_stop
  obtain ⟨c, hc, -⟩ := h.getElem? (by omega : m.start ≤ m.stop - 1) (by omega)
  have hbound := (List.getElem?_eq_some_iff.mp hc).1
  omega

theorem IsVerbWord.stop_le_start {masked : Text} {m m' : Match} (h : IsVerbWord masked m)
    (h' : IsVerbWord masked m') (hlt : m.start < m'.start) : m.stop ≤ m'.start := by
  by_contra hover
  obtain ⟨c, hc, hname, -⟩ := h.getElem? (by omega : m.start ≤ m'.start - 1) (by omega)
  have hbefore := h'.2.2.1
  rw [List.getLast?_take, if_neg (by omega), hc] at hbefore
  rw [Option.some_or, Option.any_some, hname] at hbefore
  cases hbefore

/-! ### The loop -/

theorem head?_filter_inlineMatches (masked : Text) (place : ℕ) :
    ((inlineMatches masked).filter fun k => place ≤ k.start).head? = nextVerb masked place := by
  rw [List.head?_filter, nextVerb]

theorem nextVerb_spec {masked : Text} {place : ℕ} {m : Match}
    (h : nextVerb masked place = some m) : IsVerbWord masked m ∧ place ≤ m.start := by
  rw [nextVerb] at h
  have hplace := List.find?_some h
  exact ⟨mem_inlineMatches.mp (List.mem_of_find?_eq_some h), by simpa using hplace⟩

theorem nextVerb_eq_none {masked : Text} {place : ℕ} (h : nextVerb masked place = none) {m : Match}
    (hm : IsVerbWord masked m) : m.start < place := by
  rw [nextVerb, List.find?_eq_none] at h
  simpa using h m (mem_inlineMatches.mpr hm)

theorem nextVerb_start {masked : Text} {m : Match} (h : IsVerbWord masked m) :
    nextVerb masked m.start = some m := by
  cases hnext : nextVerb masked m.start with
  | none => exact absurd (nextVerb_eq_none hnext h) (lt_irrefl _)
  | some k =>
      obtain ⟨hword, hle⟩ := nextVerb_spec hnext
      rw [nextVerb, List.find?_eq_some_iff_append] at hnext
      obtain ⟨-, front, back, hsplit, hfront⟩ := hnext
      have hmem := mem_inlineMatches.mpr h
      have hsorted := pairwise_inlineMatches masked
      rw [hsplit] at hmem hsorted
      have hback := (List.pairwise_append.mp hsorted).2.1
      rcases List.mem_append.mp hmem with hm | hm
      · exact absurd (hfront m hm) (by simp)
      · rcases List.mem_cons.mp hm with rfl | hm
        · rfl
        · have hlt := (List.pairwise_cons.mp hback).1 m hm
          omega

theorem Reached.isVerbWord {masked : Text} {m : Match} (h : Reached masked m) :
    IsVerbWord masked m := by
  cases h with
  | first hfirst => exact (nextVerb_spec hfirst).1
  | next _ hnext => exact (nextVerb_spec hnext).1

theorem le_scopeStop (verb terminator : Text) (depth skip i : ℕ) (rest : Text) :
    i ≤ scopeStop verb terminator depth skip i rest := by
  induction rest generalizing depth skip i with
  | nil => cases skip <;> simp [scopeStop]
  | cons c rest ih =>
      cases skip with
      | succ skip => exact (Nat.le_succ i).trans (ih depth skip (i + 1))
      | zero =>
          rw [scopeStop]
          split
          · exact Nat.le_add_right _ _
          · exact (Nat.le_succ i).trans (ih _ _ (i + 1))
          · exact (Nat.le_succ i).trans (ih _ _ (i + 1))

theorem IsVerbWord.stop_le_endOf {masked : Text} {m : Match} (h : IsVerbWord masked m) :
    m.stop ≤ endOf masked m := by
  rw [endOf, statementStop]
  split
  · exact le_scopeStop _ _ _ _ _ _
  · cases hnext : nextVerb masked (m.start + 1) with
    | none => exact h.stop_le_length
    | some m' =>
        obtain ⟨hm', hplace⟩ := nextVerb_spec hnext
        exact h.stop_le_start hm' hplace

/-- The statements that follow each other from a place on, and the place behind the last one. -/
inductive Statements (masked : Text) : ℕ → List Match → ℕ → Prop
  | done {place : ℕ} : nextVerb masked place = none → Statements masked place [] place
  | cons {place last : ℕ} {m : Match} {ms : List Match} : nextVerb masked place = some m →
      Statements masked (endOf masked m) ms last → Statements masked place (m :: ms) last

/-- **The loop goes from statement to statement**, and ends. -/
theorem splitLoop_spec {masked : Text} {fuel place : ℕ}
    (hfuel : ((inlineMatches masked).filter fun k => place ≤ k.start).length ≤ fuel) :
    ∃ ms last, Statements masked place ms last ∧
      splitLoop masked fuel ((inlineMatches masked).filter fun k => place ≤ k.start) place =
        some (ms.map (fun m => (m.start, endOf masked m)) ++ [(last, masked.length)]) := by
  induction fuel generalizing place with
  | zero =>
      have hnil := List.length_eq_zero_iff.mp (Nat.le_zero.mp hfuel)
      have hnext : nextVerb masked place = none := by
        rw [← head?_filter_inlineMatches, hnil]
        rfl
      exact ⟨[], place, .done hnext, by rw [hnil]; rfl⟩
  | succ fuel ih =>
      cases hms : (inlineMatches masked).filter fun k => place ≤ k.start with
      | nil =>
          have hnext : nextVerb masked place = none := by
            rw [← head?_filter_inlineMatches, hms]
            rfl
          exact ⟨[], place, .done hnext, rfl⟩
      | cons m rest =>
          have hnext : nextVerb masked place = some m := by
            rw [← head?_filter_inlineMatches, hms]
            rfl
          obtain ⟨hword, hplace⟩ := nextVerb_spec hnext
          have hsorted : (m :: rest).Pairwise fun k k' => k.start < k'.start :=
            hms ▸ (pairwise_inlineMatches masked).filter _
          -- the matches behind the first are the matches from the next place on
          have hrest : rest = (inlineMatches masked).filter fun k => m.start + 1 ≤ k.start := by
            have htail : (m :: rest).filter (fun k => m.start + 1 ≤ k.start) = rest := by
              rw [List.filter_cons_of_neg (by simp), List.filter_eq_self]
              intro k hk
              simpa using (List.pairwise_cons.mp hsorted).1 k hk
            rw [← htail, ← hms, List.filter_filter]
            refine List.filter_congr fun k _ => ?_
            simp only [← Bool.decide_and, decide_eq_decide]
            omega
          have hstop : statementStop masked m rest.head? = endOf masked m := by
            rw [hrest, head?_filter_inlineMatches]
            rfl
          have hend := (hword.start_lt_stop).trans_le hword.stop_le_endOf
          have hfilter : (m :: rest).filter (fun k => endOf masked m ≤ k.start) =
              (inlineMatches masked).filter fun k => endOf masked m ≤ k.start := by
            rw [← hms, List.filter_filter]
            refine List.filter_congr fun k _ => ?_
            simp only [← Bool.decide_and, decide_eq_decide]
            omega
          have hlength : ((inlineMatches masked).filter
              fun k => endOf masked m ≤ k.start).length ≤ fuel := by
            rw [← hfilter, List.filter_cons_of_neg (by simpa using hend)]
            rw [hms, List.length_cons] at hfuel
            exact (List.length_filter_le _ _).trans (by omega)
          obtain ⟨ms, last, hstatements, hloop⟩ := ih hlength
          refine ⟨m :: ms, last, .cons hnext hstatements, ?_⟩
          rw [splitLoop]
          simp only [hstop, hfilter, hloop, Option.map_some, List.map_cons, List.cons_append]

/-- The statements of a line are those that are reached. -/
theorem reached_iff {masked : Text} {ms : List Match} {last : ℕ}
    (h : Statements masked 0 ms last) {m : Match} : Reached masked m ↔ m ∈ ms := by
  have hreach : ∀ {place ms last}, Statements masked place ms last →
      (∀ k, nextVerb masked place = some k → Reached masked k) → ∀ k ∈ ms, Reached masked k := by
    intro place ms last hms
    induction hms with
    | done _ => simp
    | cons hnext _ ih =>
        intro hfirst k hk
        rcases List.mem_cons.mp hk with rfl | hk
        · exact hfirst _ hnext
        · exact ih (fun k' hk' => .next (hfirst _ hnext) hk') k hk
  have hclosed : ∀ {place ms last}, Statements masked place ms last → ∀ k ∈ ms, ∀ k',
      nextVerb masked (endOf masked k) = some k' → k' ∈ ms := by
    intro place ms last hms
    induction hms with
    | done _ => simp
    | cons _ htail ih =>
        intro k hk k' hk'
        rcases List.mem_cons.mp hk with rfl | hk
        · cases htail with
          | done hnone =>
              rw [hnone] at hk'
              cases hk'
          | cons hsome _ =>
              rw [hsome] at hk'
              cases hk'
              simp
        · exact List.mem_cons_of_mem _ (ih k hk k' hk')
  constructor
  · intro hm
    induction hm with
    | first hfirst =>
        cases h with
        | done hnone =>
            rw [hnone] at hfirst
            cases hfirst
        | cons hsome _ =>
            rw [hsome] at hfirst
            cases hfirst
            simp
    | next _ hnext ih => exact hclosed h _ ih _ hnext
  · exact fun hm => hreach h (fun k hk => .first hk) m hm

/-! ### The parts and the gaps -/

theorem length_maskQuoted (text : Text) : (SourceFormat.maskQuoted text).length = text.length :=
  (SourceFormat.maskFrom_forall₂ 0 text).length_eq

theorem getElem?_of_maskQuoted {text : Text} {k : ℕ} {c : Char}
    (h : (SourceFormat.maskQuoted text)[k]? = some c) (hc : Py.isSpace c = false) :
    text[k]? = some c := by
  obtain ⟨hlt, hget⟩ := List.getElem?_eq_some_iff.mp h
  have hlt' : k < text.length := by rwa [length_maskQuoted] at hlt
  have hrel := (SourceFormat.maskFrom_forall₂ 0 text).get hlt hlt'
  rw [List.getElem?_eq_getElem hlt']
  rcases hrel with hsame | hblank
  · rw [← hget]
    exact congrArg some hsame.symm
  · have hspace : c = ' ' := hget.symm.trans hblank
    rw [hspace] at hc
    cases hc

section Parts

variable (text : Text)

def part (m : Match) : Text :=
  slice text m.start (endOf (SourceFormat.maskQuoted text) m)

/-- The text between a statement and the next one. -/
def gap (m : Match) : Text :=
  slice text (endOf (SourceFormat.maskQuoted text) m)
    (((nextVerb (SourceFormat.maskQuoted text)
      (endOf (SourceFormat.maskQuoted text) m)).map Match.start).getD text.length)

variable {text}

theorem strip_part_ne_nil {m : Match} (h : IsVerbWord (SourceFormat.maskQuoted text) m) :
    strip (part text m) ≠ [] := by
  have hlt := h.start_lt_stop
  have hle := h.stop_le_endOf
  obtain ⟨c, hc, -, hspace⟩ := h.getElem? le_rfl hlt
  have hget : (part text m)[0]? = some c := by
    rw [part, slice, List.getElem?_drop, List.getElem?_take_of_lt (by omega)]
    exact getElem?_of_maskQuoted hc hspace
  rw [Ne, strip_eq_nil_iff]
  exact (ink_pos (List.mem_of_getElem? hget) hspace).ne'

/-- **The statements and the gaps between them are the text** from a verb on. -/
theorem weave_statements {place last : ℕ} {ms : List Match}
    (h : Statements (SourceFormat.maskQuoted text) place ms last) :
    weave (ms.map (part text)) (ms.map (gap text)) =
      ((nextVerb (SourceFormat.maskQuoted text) place).map fun m => text.drop m.start).getD [] := by
  induction h with
  | done hnone => simp [hnone, weave]
  | @cons place last m ms hnext _ ih =>
      obtain ⟨hword, -⟩ := nextVerb_spec hnext
      have hle : m.start ≤ endOf (SourceFormat.maskQuoted text) m :=
        hword.start_lt_stop.le.trans hword.stop_le_endOf
      rw [List.map_cons, List.map_cons, weave, ih, hnext, Option.map_some, Option.getD_some,
        ← slice_append_drop hle, ← part, List.append_assoc, gap]
      refine congrArg _ ?_
      cases hnext' : nextVerb (SourceFormat.maskQuoted text)
          (endOf (SourceFormat.maskQuoted text) m) with
      | none => simp [slice]
      | some m' => exact slice_append_drop (nextVerb_spec hnext').2 text

theorem fromFirstVerb_eq (text : Text) :
    fromFirstVerb text =
      ((nextVerb (SourceFormat.maskQuoted text) 0).map fun m => text.drop m.start).getD [] := by
  have hhead := head?_filter_inlineMatches (SourceFormat.maskQuoted text) 0
  rw [List.filter_eq_self.mpr (by simp)] at hhead
  rw [fromFirstVerb, ← hhead]
  cases inlineMatches (SourceFormat.maskQuoted text) <;> rfl

theorem ink_weave {parts gaps : List Text} (h : gaps.length = parts.length) :
    ink (weave parts gaps) = (parts.map ink).sum + (gaps.map ink).sum := by
  induction parts generalizing gaps with
  | nil =>
      rw [List.length_eq_zero_iff.mp h]
      rfl
  | cons p ps ih =>
      cases gaps with
      | nil => cases h
      | cons g gs =>
          have hrest := ih (Nat.succ.inj h)
          simp only [weave, ink_append, hrest, List.map_cons, List.sum_cons]
          omega

/-- The parts that the function returns: the statements, and the text behind the last one if it is not
blank. -/
theorem exists_partSpans (h : inlineMatches (SourceFormat.maskQuoted text) ≠ []) :
    ∃ ms last, Statements (SourceFormat.maskQuoted text) 0 ms last ∧
      partSpans text = some (ms.map (fun m => (m.start, endOf (SourceFormat.maskQuoted text) m)) ++
        if strip (slice text last text.length) ≠ [] then [(last, text.length)] else []) := by
  have hall : ((inlineMatches (SourceFormat.maskQuoted text)).filter fun k => 0 ≤ k.start) =
      inlineMatches (SourceFormat.maskQuoted text) := List.filter_eq_self.mpr (by simp)
  obtain ⟨ms, last, hstatements, hloop⟩ :=
    @splitLoop_spec (SourceFormat.maskQuoted text) _ 0 le_rfl
  refine ⟨ms, last, hstatements, ?_⟩
  have hwords : ∀ m ∈ ms, IsVerbWord (SourceFormat.maskQuoted text) m := fun m hm =>
    ((reached_iff hstatements).mpr hm).isVerbWord
  have hkept : (ms.map fun m => (m.start, endOf (SourceFormat.maskQuoted text) m)).filter
      (fun s => strip (slice text s.1 s.2) ≠ []) =
      ms.map fun m => (m.start, endOf (SourceFormat.maskQuoted text) m) := by
    rw [List.filter_eq_self]
    intro s hs
    obtain ⟨m, hm, rfl⟩ := List.mem_map.mp hs
    have hink := strip_part_ne_nil (hwords m hm)
    rw [part] at hink
    simpa using hink
  rw [hall] at hloop
  rw [partSpans]
  split
  · rename_i hnil
    exact absurd hnil h
  · rename_i m rest hcons
    rw [hcons, List.length_cons] at hloop
    rw [hloop, Option.map_some, List.filter_append, hkept, length_maskQuoted, List.filter_singleton]
    split <;> simp_all

end Parts

theorem Statements.nextVerb_last {masked : Text} {place last : ℕ} {ms : List Match}
    (h : Statements masked place ms last) : nextVerb masked last = none := by
  induction h with
  | done hnone => exact hnone
  | cons _ _ ih => exact ih

theorem Statements.last_eq {masked : Text} {place last : ℕ} {ms : List Match}
    (h : Statements masked place ms last) (hne : ms ≠ []) :
    ∃ m ∈ ms, last = endOf masked m := by
  induction h with
  | done _ => exact absurd rfl hne
  | @cons place last m ms _ htail ih =>
      cases ms with
      | nil =>
          cases htail
          exact ⟨m, List.mem_cons_self, rfl⟩
      | cons m' ms =>
          obtain ⟨k, hk, hlast⟩ := ih (by simp)
          exact ⟨k, List.mem_cons_of_mem _ hk, hlast⟩

theorem gap_of_plain {text : Text} {m : Match}
    (hplain : m.terminator = none) : strip (gap text m) = [] := by
  have hnil : gap text m = [] := by
    have hend : endOf (SourceFormat.maskQuoted text) m =
        ((nextVerb (SourceFormat.maskQuoted text) (m.start + 1)).map Match.start).getD
          text.length := by
      rw [endOf, statementStop, hplain, length_maskQuoted]
    rw [gap]
    cases hnext : nextVerb (SourceFormat.maskQuoted text) (m.start + 1) with
    | none =>
        rw [hnext] at hend
        rw [hend, Option.map_none, Option.getD_none, slice]
        refine List.drop_eq_nil_of_le ?_
        exact List.length_take_le' _ _
    | some m' =>
        rw [hnext] at hend
        have hsame := nextVerb_start (nextVerb_spec hnext).1
        rw [hend, Option.map_some, Option.getD_some, hsame]
        simp [slice]
  rw [hnil]
  rfl

end CobolJava.InlineStatements
