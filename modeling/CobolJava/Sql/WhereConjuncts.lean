/-
**The conjuncts of a `WHERE` text.**

`_split_where_conjuncts` of `sql_parser.py` walks over a text once, with a quote, a depth of
parentheses, the start of a word and a pending `BETWEEN`.  A word is a run of letters, digits,
underscores and hyphens; what the class of a letter is, is a parameter.

Main definitions:

* `splitWhereConjuncts` — the scanner, which also notes where it splits;
* `topWords`, `conjunctions` — the words outside quotes and parentheses, and the `AND` and `OR` among
  them that belong to no `BETWEEN`;
* `SplitsAtConjunctions` — the text is split at its conjunctions, and nothing of it is lost;
* `Overlooked` — a word that touches a parenthesis or a quote so that the scanner does not see it;
* `Agreeing` — the overlooked words make no difference.

Main results:

* `exists_pieces` — the segments and the words between them are the text, whatever the splits;
* `scanned_eq_seen` — the scanner reads the words that are not overlooked;
* `splitsAtConjunctions_iff` — **when a text is split at its conjunctions**.
-/

import CobolJava.Lib.PyLines
import CobolJava.Lib.PySlice

set_option autoImplicit false

namespace CobolJava.Sql.Where

open Py.Chars

abbrev Text := List Char

/-! ### The scanner -/

/-- The variables of the loop, and the words at which it has split. -/
structure Scan where
  depth : ℕ
  quote : Option Char
  betweenPending : Bool
  wordStart : Option ℕ
  segments : List Text
  last : ℕ
  splits : List Span

def Scan.initial : Scan := ⟨0, none, false, none, [], 0, []⟩

/-- `handle_word(end, start)`: the pending `BETWEEN`, and whether the word is a split point. -/
def handleWord (text : Text) (betweenPending : Bool) (stop start : ℕ) : Bool × Bool :=
  let word := Py.Chars.upper (slice text start stop)
  if word = "BETWEEN".toList then (true, false)
  else if word = "AND".toList ∧ betweenPending = true then (false, false)
  else (betweenPending, decide (word = "AND".toList ∨ word = "OR".toList))

/-- What happens behind a word, in the loop and behind it. -/
def Scan.closeWord (text : Text) (i : ℕ) (s : Scan) : Scan :=
  match s.wordStart with
  | none => s
  | some start =>
      if s.depth = 0 then
        let (betweenPending, split) := handleWord text s.betweenPending i start
        if split then
          { s with
            betweenPending := betweenPending
            segments := s.segments ++ [Py.Chars.strip (slice text s.last start)]
            last := i
            splits := s.splits ++ [(start, i)] }
        else { s with betweenPending := betweenPending }
      else s

section Scanner

variable (isalnum : Char → Bool)

/-- The characters of a word: a quote or a parenthesis is tested for first. -/
def isWordChar (ch : Char) : Bool :=
  isalnum ch || ch = '_' || ch = '-'

def isQuote (ch : Char) : Bool :=
  ch = '\'' || ch = '"'

def isParen (ch : Char) : Bool :=
  ch = '(' || ch = ')'

def Scan.step (text : Text) (i : ℕ) (ch : Char) (s : Scan) : Scan :=
  match s.quote with
  | some quoteChar => if ch = quoteChar then { s with quote := none } else s
  | none =>
      if isQuote ch then { s with quote := some ch, wordStart := none }
      else if ch = '(' then { s with depth := s.depth + 1 }
      else if ch = ')' then { s with depth := s.depth - 1 }
      else if isWordChar isalnum ch then { s with wordStart := some (s.wordStart.getD i) }
      else { s.closeWord text i with wordStart := none }

/-- The loop, and the last word of the text. -/
def scanned (text : Text) : Scan :=
  (walk (Scan.step isalnum text) 0 text Scan.initial).closeWord text text.length

/-- `_split_where_conjuncts` -/
def splitWhereConjuncts (text : Text) : List Text :=
  let s := scanned isalnum text
  let tail := Py.Chars.strip (slice text s.last text.length)
  if tail ≠ [] then s.segments ++ [tail] else s.segments

/-! ### The conjunctions of a text -/

/-- The words that are read so far, and the start of the one being read. -/
structure Words where
  depth : ℕ
  quote : Option Char
  start : Option ℕ
  words : List Span

def Words.initial : Words := ⟨0, none, none, []⟩

/-- A word ends at any character that is none of its own. -/
def Words.close (i : ℕ) (t : Words) : Words :=
  match t.start with
  | some start => { t with start := none, words := t.words ++ [(start, i)] }
  | none => t

def Words.step (i : ℕ) (ch : Char) (t : Words) : Words :=
  match t.quote with
  | some quoteChar => if ch = quoteChar then { t with quote := none } else t
  | none =>
      if isQuote ch then { t.close i with quote := some ch }
      else if ch = '(' then { t.close i with depth := t.depth + 1 }
      else if ch = ')' then { t.close i with depth := t.depth - 1 }
      else if isWordChar isalnum ch then
        if t.depth = 0 then { t with start := some (t.start.getD i) } else t
      else t.close i

/-- The words of a text outside quotes and parentheses, in order. -/
def topWords (text : Text) : List Span :=
  ((walk (Words.step isalnum) 0 text Words.initial).close text.length).words

inductive Keyword
  | between
  | and
  | or
  deriving DecidableEq, Repr

def keyword (text : Text) (w : Span) : Option Keyword :=
  let word := Py.Chars.upper (slice text w.1 w.2)
  if word = "BETWEEN".toList then some .between
  else if word = "AND".toList then some .and
  else if word = "OR".toList then some .or
  else none

/-- The `AND` and `OR` among some words that belong to no `BETWEEN`; `pending` says whether a
`BETWEEN` waits for its `AND`. -/
def conjunctionsOf (text : Text) : Bool → List Span → List Span
  | _, [] => []
  | pending, w :: ws =>
      match keyword text w with
      | some .between => conjunctionsOf text true ws
      | some .and => if pending then conjunctionsOf text false ws else w :: conjunctionsOf text false ws
      | some .or => w :: conjunctionsOf text pending ws
      | none => conjunctionsOf text pending ws

attribute [grind =] conjunctionsOf

/-- **The conjunctions of a text.** -/
def conjunctions (text : Text) : List Span :=
  conjunctionsOf text false (topWords isalnum text)

/-- Pieces of a text and the words between them. -/
def alternate : List Text → List Text → Text
  | p :: ps, w :: ws => p ++ w ++ alternate ps ws
  | ps, _ => ps.flatten

/-- The pieces without the blanks around them, and without a blank last piece. -/
def trimmed : List Text → List Text
  | [] => []
  | [p] => if Py.Chars.strip p ≠ [] then [Py.Chars.strip p] else []
  | p :: ps => Py.Chars.strip p :: trimmed ps

/-- **The scanner splits the text at its conjunctions, and nowhere else**: the segments are the
pieces around the splits, which make up the text together with the words at the splits. -/
def SplitsAtConjunctions (text : Text) : Prop :=
  (scanned isalnum text).splits = conjunctions isalnum text ∧
    ∃ pieces : List Text,
      pieces.length = (scanned isalnum text).splits.length + 1 ∧
      alternate pieces ((scanned isalnum text).splits.map fun w => slice text w.1 w.2) = text ∧
      splitWhereConjuncts isalnum text = trimmed pieces

/-! ### Overlooked words -/

/-- Only parentheses stand between a text and the word before them. -/
def wordBehindParens (before : Text) : Bool :=
  ((before.reverse.dropWhile isParen).head?).any fun ch => !isQuote ch && isWordChar isalnum ch

/-- A word and a parenthesis stand directly before a place. -/
def Glued (text : Text) (start : ℕ) : Prop :=
  wordBehindParens isalnum (text.take start) = true ∧
    ((text.take start).getLast?).any isParen = true

/-- **A word that the scanner does not see**: a quote or a parenthesis stands directly behind it, or a
parenthesis that itself stands behind a word directly before it. -/
def Overlooked (text : Text) (w : Span) : Prop :=
  (text[w.2]?).any (fun ch => isQuote ch || isParen ch) = true ∨ Glued isalnum text w.1

instance (text : Text) (start : ℕ) : Decidable (Glued isalnum text start) :=
  inferInstanceAs (Decidable (_ ∧ _))

instance (text : Text) (w : Span) : Decidable (Overlooked isalnum text w) :=
  inferInstanceAs (Decidable (_ ∨ _))

/-- The overlooked words among some words make no difference: no `OR` is overlooked, an overlooked
`AND` belongs to a `BETWEEN`, and at every other `AND` a `BETWEEN` waits (`pending`) if and only if
one that is not overlooked does (`seen`). -/
def Agreeing (text : Text) : Bool → Bool → List Span → Prop
  | _, _, [] => True
  | pending, seen, w :: ws =>
      if Overlooked isalnum text w then
        match keyword text w with
        | some .between => Agreeing text true seen ws
        | some .and => pending = true ∧ Agreeing text false seen ws
        | some .or => False
        | none => Agreeing text pending seen ws
      else
        match keyword text w with
        | some .between => Agreeing text true true ws
        | some .and => pending = seen ∧ Agreeing text false false ws
        | _ => Agreeing text pending seen ws

attribute [grind =] Agreeing

end Scanner

/-! ### The words that the scanner reads -/

/-- Reading a word: the pending `BETWEEN` and the splits so far. -/
def readWord (text : Text) (st : Bool × List Span) (w : Span) : Bool × List Span :=
  match keyword text w with
  | some .between => (true, st.2)
  | some .and => (false, if st.1 then st.2 else st.2 ++ [w])
  | some .or => (st.1, st.2 ++ [w])
  | none => st

def Scan.read (s : Scan) : Bool × List Span :=
  (s.betweenPending, s.splits)

theorem handleWord_eq (text : Text) (pending : Bool) (stop start : ℕ) :
    handleWord text pending stop start =
      match keyword text (start, stop) with
      | some .between => (true, false)
      | some .and => (false, !pending)
      | some .or => (pending, true)
      | none => (pending, false) := by
  simp only [handleWord, keyword]
  by_cases hbetween : Py.Chars.upper (slice text start stop) = "BETWEEN".toList
  · simp [hbetween]
  by_cases hand : Py.Chars.upper (slice text start stop) = "AND".toList
  · cases pending <;> simp [hand]
  by_cases hor : Py.Chars.upper (slice text start stop) = "OR".toList
  · simp [hor]
  · rw [if_neg hbetween, if_neg (fun h => hand h.1), if_neg hbetween, if_neg hand, if_neg hor,
      decide_eq_false (not_or.mpr ⟨hand, hor⟩)]

theorem read_closeWord (text : Text) (i : ℕ) (s : Scan) :
    (s.closeWord text i).read =
      match s.wordStart with
      | some start => if s.depth = 0 then readWord text s.read (start, i) else s.read
      | none => s.read := by
  obtain ⟨depth, quote, pending, wordStart, segments, last, splits⟩ := s
  cases wordStart with
  | none => rfl
  | some start =>
      by_cases hdepth : depth = 0
      · simp only [Scan.closeWord, hdepth, handleWord_eq, readWord, Scan.read]
        rcases hword : keyword text (start, i) with _ | _ | _ | _
        · simp
        · simp
        · cases pending <;> simp
        · simp
      · simp [Scan.closeWord, Scan.read, hdepth]

@[simp] theorem closeWord_depth (text : Text) (i : ℕ) (s : Scan) :
    (s.closeWord text i).depth = s.depth := by
  unfold Scan.closeWord
  split
  · rfl
  · split
    · dsimp only
      split <;> rfl
    · rfl

@[simp] theorem closeWord_quote (text : Text) (i : ℕ) (s : Scan) :
    (s.closeWord text i).quote = s.quote := by
  unfold Scan.closeWord
  split
  · rfl
  · split
    · dsimp only
      split <;> rfl
    · rfl

@[simp] theorem close_depth (i : ℕ) (t : Words) : (t.close i).depth = t.depth := by
  unfold Words.close
  split <;> rfl

@[simp] theorem close_quote (i : ℕ) (t : Words) : (t.close i).quote = t.quote := by
  unfold Words.close
  split <;> rfl

@[simp] theorem close_start (i : ℕ) (t : Words) : (t.close i).start = none := by
  unfold Words.close
  split
  · rfl
  · assumption

/-- A slice with a parenthesis in it is no keyword. -/
theorem keyword_of_paren {text : Text} {w : Span} {j : ℕ} (hstart : w.1 ≤ j) (hstop : j < w.2)
    (hparen : (text[j]?).any isParen = true) : keyword text w = none := by
  obtain ⟨c, hc, hcparen⟩ : ∃ c, text[j]? = some c ∧ isParen c = true := by
    simpa [Option.any_eq_true] using hparen
  have hmem : c ∈ slice text w.1 w.2 := by
    refine List.mem_iff_getElem?.mpr ⟨j - w.1, ?_⟩
    rw [slice, List.getElem?_drop, List.getElem?_take_of_lt (by omega)]
    rwa [show w.1 + (j - w.1) = j by omega]
  have hupper : c.toUpper ∈ Py.Chars.upper (slice text w.1 w.2) :=
    List.mem_map_of_mem hmem
  have hself : c.toUpper = c := by
    obtain rfl | rfl : c = '(' ∨ c = ')' := by simpa [isParen] using hcparen
    · rfl
    · rfl
  rw [hself] at hupper
  have hne : ∀ word : Text, (∀ d ∈ word, isParen d = false) →
      Py.Chars.upper (slice text w.1 w.2) ≠ word := by
    rintro word hword rfl
    rw [hword c hupper] at hcparen
    cases hcparen
  simp only [keyword]
  rw [if_neg (hne _ (by decide)), if_neg (hne _ (by decide)), if_neg (hne _ (by decide))]

section Simulation

variable {isalnum : Char → Bool} {text : Text}

/-- The words of a text that the scanner sees. -/
def seen (isalnum : Char → Bool) (text : Text) (words : List Span) : List Span :=
  words.filter fun w => ¬Overlooked isalnum text w

/-- **How the scanner follows the words of a text.**  It may hold the start of an earlier word, which
reaches over a parenthesis into the one being read. -/
structure Follows (isalnum : Char → Bool) (text before : Text) (s : Scan) (t : Words) : Prop where
  depth : s.depth = t.depth
  quote : s.quote = t.quote
  quoted : t.quote.isSome = true → s.wordStart = none ∧ t.start = none
  alive : t.quote = none → s.wordStart.isSome = wordBehindParens isalnum before
  bound : ∀ b ∈ s.wordStart, b < before.length
  started : ∀ b ∈ t.start, t.depth = 0 ∧ b < before.length ∧ ∃ b' ∈ s.wordStart,
    (b' = b ∧ ¬Glued isalnum text b) ∨
      (Glued isalnum text b ∧ ∃ j, b' ≤ j ∧ j < b ∧ (text[j]?).any isParen = true)
  behind : t.start = none → t.depth = 0 → ∀ b' ∈ s.wordStart,
    (before.getLast?).any isParen = true ∧
      ∃ j, b' ≤ j ∧ j < before.length ∧ (text[j]?).any isParen = true
  quoteChar : ∀ q ∈ t.quote, isQuote q = true
  read : s.read = (seen isalnum text t.words).foldl (readWord text) (false, [])

/-- At the end of a text and at a character that is no delimiter, the scanner reads the word that
ends there, unless it is glued to another one. -/
theorem Follows.read_close {before : Text} {s : Scan} {t : Words}
    (h : Follows isalnum text before s t)
    (hnext : (text[before.length]?).any (fun ch => isQuote ch || isParen ch) = false) :
    (s.closeWord text before.length).read =
      (seen isalnum text (t.close before.length).words).foldl (readWord text) (false, []) := by
  rw [read_closeWord]
  cases hstart : t.start with
  | none =>
      have hclose : t.close before.length = t := by simp [Words.close, hstart]
      rw [hclose, ← h.read]
      cases hword : s.wordStart with
      | none => rfl
      | some b' =>
          by_cases hdepth : s.depth = 0
          · obtain ⟨-, j, hj, hj', hparen⟩ := h.behind hstart (h.depth ▸ hdepth) b' hword
            have hnone : keyword text (b', before.length) = none := keyword_of_paren hj hj' hparen
            simp [hdepth, readWord, hnone]
          · simp [hdepth]
  | some b =>
      obtain ⟨hdepth, hb, b', hword, hcase⟩ := h.started b hstart
      have hclose : (t.close before.length).words = t.words ++ [(b, before.length)] := by
        simp [Words.close, hstart]
      rw [hclose, seen, List.filter_append, List.foldl_append, ← seen, ← h.read,
        Option.mem_def.mp hword]
      simp only [h.depth, hdepth, if_true]
      rcases hcase with ⟨rfl, hglued⟩ | ⟨hglued, j, hj, hj', hparen⟩
      · -- the scanner holds the start of this very word
        have hover : ¬Overlooked isalnum text (b', before.length) := by
          rintro (hdelim | hglued')
          · simp [hnext] at hdelim
          · exact hglued hglued'
        simp [hover]
      · -- what it holds reaches over a parenthesis, and the word is overlooked
        have hover : Overlooked isalnum text (b, before.length) := Or.inr hglued
        have hnone : keyword text (b', before.length) = none :=
          keyword_of_paren (w := (b', before.length)) hj (by simp only; omega) hparen
        simp [hover, readWord, hnone]

theorem seen_close_of_delimiter {i : ℕ} {t : Words}
    (hnext : (text[i]?).any (fun ch => isQuote ch || isParen ch) = true) :
    seen isalnum text (t.close i).words = seen isalnum text t.words := by
  cases hstart : t.start with
  | none => simp [Words.close, hstart]
  | some b =>
      have hover : Overlooked isalnum text (b, i) := Or.inl hnext
      simp [Words.close, hstart, seen, List.filter_append, hover]

theorem wordBehindParens_append (before : Text) (ch : Char) :
    wordBehindParens isalnum (before ++ [ch]) =
      if isParen ch then wordBehindParens isalnum before
      else !isQuote ch && isWordChar isalnum ch := by
  unfold wordBehindParens
  rw [List.reverse_append, List.reverse_singleton, List.singleton_append, List.dropWhile_cons]
  by_cases h : isParen ch = true
  · simp [h]
  · simp [h]

theorem isParen_of_isQuote {ch : Char} (h : isQuote ch = true) : isParen ch = false := by
  obtain rfl | rfl : ch = '\'' ∨ ch = '"' := by simpa [isQuote] using h
  · rfl
  · rfl

/-! ### One step of both loops -/

section Step

variable {before rest : Text} {ch : Char} {s : Scan} {t : Words}

/-- Within a literal, and at the quote that ends it. -/
theorem Follows.step_quoted (h : Follows isalnum text before s t) {q : Char}
    (hquote : t.quote = some q) :
    Follows isalnum text (before ++ [ch]) (s.step isalnum text before.length ch)
      (t.step isalnum before.length ch) := by
  have hquote' : s.quote = some q := h.quote.trans hquote
  obtain ⟨hword, hstart⟩ := h.quoted (by simp [hquote])
  by_cases hch : ch = q
  · have hq : isQuote ch = true := hch ▸ h.quoteChar q hquote
    have halive : wordBehindParens isalnum (before ++ [ch]) = false := by
      rw [wordBehindParens_append, isParen_of_isQuote hq, hq]
      rfl
    simp only [Scan.step, Words.step, hquote, hquote', hch, if_true]
    exact ⟨h.depth, rfl, by simp, fun _ => by rw [← hch, halive, hword]; rfl,
      by simp [hword], by simp [hstart], by simp [hword], by simp, h.read⟩
  · simp only [Scan.step, Words.step, hquote, hquote', hch, if_false]
    exact ⟨h.depth, h.quote, h.quoted, fun hnone => by simp [hquote] at hnone,
      by simp [hword], by simp [hstart], by simp [hword], h.quoteChar, h.read⟩

theorem Follows.step_quote (htext : text = before ++ ch :: rest)
    (h : Follows isalnum text before s t) (hquote : t.quote = none) (hch : isQuote ch = true) :
    Follows isalnum text (before ++ [ch]) (s.step isalnum text before.length ch)
      (t.step isalnum before.length ch) := by
  have hnext : (text[before.length]?).any (fun ch => isQuote ch || isParen ch) = true := by
    simp [htext, hch]
  simp only [Scan.step, Words.step, hquote, h.quote.trans hquote, hch, if_true]
  refine ⟨by simpa using h.depth, rfl, by simp, by simp, by simp, by simp, by simp, ?_, ?_⟩
  · rintro q ⟨⟩
    exact hch
  · exact h.read.trans (by rw [← seen_close_of_delimiter hnext])

/-- A parenthesis ends a word unread, but the scanner holds on to its start. -/
theorem Follows.step_paren (htext : text = before ++ ch :: rest)
    (h : Follows isalnum text before s t) (hquote : t.quote = none) (hch : isParen ch = true) :
    Follows isalnum text (before ++ [ch]) (s.step isalnum text before.length ch)
      (t.step isalnum before.length ch) := by
  have hget : text[before.length]? = some ch := by simp [htext]
  have hnext : (text[before.length]?).any (fun ch => isQuote ch || isParen ch) = true := by
    simp [hget, hch]
  have hnot : isQuote ch = false := by
    rw [Bool.eq_false_iff]
    intro hq
    rw [isParen_of_isQuote hq] at hch
    cases hch
  have hread : ∀ d, ({ t.close before.length with depth := d } : Words).words =
      (t.close before.length).words := fun _ => rfl
  -- whatever the parenthesis does to the depth, the rest is the same
  have hstep : ∀ d d' : ℕ, d = d' →
      Follows isalnum text (before ++ [ch]) { s with depth := d }
        { t.close before.length with depth := d' } := by
    intro d d' hdepth
    refine ⟨hdepth, by simpa using h.quote, by simp [hquote], ?_, ?_, by simp, ?_, by simp [hquote],
      ?_⟩
    · intro _
      rw [wordBehindParens_append, if_pos hch]
      exact h.alive hquote
    · intro b hb
      have hlt := h.bound b hb
      simp only [List.length_append, List.length_singleton]
      omega
    · intro _ _ b' hb'
      have hlt := h.bound b' hb'
      refine ⟨by simp [hch], before.length, by omega, by simp, by simp [hget, hch]⟩
    · rw [hread, seen_close_of_delimiter hnext]
      exact h.read
  have hquote' := h.quote.trans hquote
  obtain rfl | rfl : ch = '(' ∨ ch = ')' := by simpa [isParen] using hch
  · have hs : s.step isalnum text before.length '(' = { s with depth := s.depth + 1 } := by
      simp [Scan.step, hquote', hnot]
    have ht : t.step isalnum before.length '(' =
        { t.close before.length with depth := t.depth + 1 } := by
      simp [Words.step, hquote, hnot]
    rw [hs, ht]
    exact hstep (s.depth + 1) (t.depth + 1) (by rw [h.depth])
  · have hs : s.step isalnum text before.length ')' = { s with depth := s.depth - 1 } := by
      simp [Scan.step, hquote', hnot]
    have ht : t.step isalnum before.length ')' =
        { t.close before.length with depth := t.depth - 1 } := by
      simp [Words.step, hquote, hnot]
    rw [hs, ht]
    exact hstep (s.depth - 1) (t.depth - 1) (by rw [h.depth])

/-- A character of a word goes on with the word, or begins one. -/
theorem Follows.step_word (htext : text = before ++ ch :: rest)
    (h : Follows isalnum text before s t) (hquote : t.quote = none) (hnot : isQuote ch = false)
    (hparen : isParen ch = false) (hch : isWordChar isalnum ch = true) :
    Follows isalnum text (before ++ [ch]) (s.step isalnum text before.length ch)
      (t.step isalnum before.length ch) := by
  have htake : text.take before.length = before := by simp [htext]
  obtain ⟨hopen, hclose⟩ : ch ≠ '(' ∧ ch ≠ ')' := by simpa [isParen] using hparen
  have halive : wordBehindParens isalnum (before ++ [ch]) = true := by
    simp [wordBehindParens_append, hparen, hnot, hch]
  simp only [Scan.step, Words.step, hquote, h.quote.trans hquote, hnot, hopen, hclose, hch, if_true,
    if_false, Bool.false_eq_true]
  have hbound : ∀ b ∈ some (s.wordStart.getD before.length), b < (before ++ [ch]).length := by
    rintro b ⟨⟩
    cases hword : s.wordStart with
    | none => simp
    | some b' =>
        have hlt := h.bound b' hword
        simp only [Option.getD_some, List.length_append, List.length_singleton]
        omega
  by_cases hdepth : t.depth = 0
  · rw [if_pos hdepth]
    refine ⟨h.depth, rfl, by simp, fun _ => by simp [halive], hbound, ?_, by simp, by simp, h.read⟩
    rintro b ⟨⟩
    refine ⟨hdepth, ?_⟩
    cases hstart : t.start with
    | some b =>
        obtain ⟨-, hb, b', hb', hcase⟩ := h.started b hstart
        rw [Option.mem_def.mp hb']
        refine ⟨by simp only [Option.getD_some, List.length_append, List.length_singleton]; omega,
          b', rfl, hcase⟩
    | none =>
        refine ⟨by simp, ?_⟩
        have hglued : ∀ b' ∈ s.wordStart, Glued isalnum text before.length := by
          intro b' hb'
          have hlive := h.alive hquote
          rw [Option.mem_def.mp hb'] at hlive
          exact ⟨by rw [htake, ← hlive]; rfl, by rw [htake]; exact (h.behind hstart hdepth b' hb').1⟩
        cases hword : s.wordStart with
        | none =>
            refine ⟨before.length, rfl, Or.inl ⟨rfl, ?_⟩⟩
            rintro ⟨hlive, -⟩
            rw [Option.getD_none, htake, ← h.alive hquote, hword] at hlive
            cases hlive
        | some b' =>
            obtain ⟨-, j, hj, hj', hjparen⟩ := h.behind hstart hdepth b' hword
            exact ⟨b', rfl, Or.inr ⟨hglued b' hword, j, hj, hj', hjparen⟩⟩
  · rw [if_neg hdepth]
    have hstart : t.start = none := by
      cases hstart : t.start with
      | none => rfl
      | some b => exact absurd (h.started b hstart).1 hdepth
    exact ⟨h.depth, hquote.symm, by simp [hquote], fun _ => by simp [halive], hbound,
      by simp [hstart], fun _ hzero => absurd hzero hdepth, h.quoteChar, h.read⟩

theorem Follows.step_other (htext : text = before ++ ch :: rest)
    (h : Follows isalnum text before s t) (hquote : t.quote = none) (hnot : isQuote ch = false)
    (hparen : isParen ch = false) (hch : isWordChar isalnum ch = false) :
    Follows isalnum text (before ++ [ch]) (s.step isalnum text before.length ch)
      (t.step isalnum before.length ch) := by
  obtain ⟨hopen, hclose⟩ : ch ≠ '(' ∧ ch ≠ ')' := by simpa [isParen] using hparen
  have hread := h.read_close (by simp [htext, hnot, hparen])
  simp only [Scan.step, Words.step, hquote, h.quote.trans hquote, hnot, hopen, hclose, hch, if_false,
    Bool.false_eq_true]
  refine ⟨by simpa using h.depth, by simpa using h.quote, by simp [hquote], ?_, by simp, by simp,
    by simp, by simp [hquote], hread⟩
  intro _
  simp [wordBehindParens_append, hparen, hnot, hch]

/-- **Every step keeps the scanner with the words of the text.** -/
theorem Follows.step (htext : text = before ++ ch :: rest) (h : Follows isalnum text before s t) :
    Follows isalnum text (before ++ [ch]) (s.step isalnum text before.length ch)
      (t.step isalnum before.length ch) := by
  cases hquote : t.quote with
  | some q => exact h.step_quoted hquote
  | none =>
      rcases hq : isQuote ch with _ | _
      · rcases hparen : isParen ch with _ | _
        · rcases hword : isWordChar isalnum ch with _ | _
          · exact h.step_other htext hquote hq hparen hword
          · exact h.step_word htext hquote hq hparen hword
        · exact h.step_paren htext hquote hparen
      · exact h.step_quote htext hquote hq

end Step

/-- **The scanner reads the words that are not overlooked.** -/
theorem scanned_eq_seen (isalnum : Char → Bool) (text : Text) :
    (scanned isalnum text).read =
      (seen isalnum text (topWords isalnum text)).foldl (readWord text) (false, []) := by
  have hinit : Follows isalnum text [] Scan.initial Words.initial :=
    ⟨rfl, rfl, by simp [Words.initial], fun _ => rfl, by simp [Scan.initial],
      by simp [Words.initial], by simp [Scan.initial], by simp [Words.initial], rfl⟩
  have hrun := walk_rel (Follows isalnum text) (fun _ _ _ _ _ htext h => h.step htext) hinit
  exact hrun.read_close (by simp)

end Simulation

/-! ### The pieces around the splits -/

section Pieces

variable {isalnum : Char → Bool} {text : Text}

/-- The pieces of a text around some words, from a place on. -/
def piecesFrom (text : Text) : ℕ → List Span → List Text
  | last, [] => [slice text last text.length]
  | last, w :: ws => slice text last w.1 :: piecesFrom text w.2 ws

/-- The pieces before some words, without the blanks around them. -/
def leading (text : Text) : ℕ → List Span → List Text
  | _, [] => []
  | last, w :: ws => Py.Chars.strip (slice text last w.1) :: leading text w.2 ws

/-- The place behind the last of some words. -/
def lastStop : ℕ → List Span → ℕ
  | last, [] => last
  | _, w :: ws => lastStop w.2 ws

def InOrder : ℕ → List Span → Prop
  | _, [] => True
  | last, w :: ws => last ≤ w.1 ∧ w.1 ≤ w.2 ∧ InOrder w.2 ws

attribute [grind =] piecesFrom leading lastStop InOrder

theorem leading_append (text : Text) (last : ℕ) (ws : List Span) (w : Span) :
    leading text last (ws ++ [w]) =
      leading text last ws ++ [Py.Chars.strip (slice text (lastStop last ws) w.1)] := by
  induction ws generalizing last with
  | nil => rfl
  | cons v ws ih => exact congrArg _ (ih v.2)

theorem lastStop_append (last : ℕ) (ws : List Span) (w : Span) :
    lastStop last (ws ++ [w]) = w.2 := by
  induction ws generalizing last with
  | nil => rfl
  | cons v ws ih => exact ih v.2

theorem InOrder.append {last : ℕ} {ws : List Span} {w : Span} (h : InOrder last ws)
    (hlast : lastStop last ws ≤ w.1) (hw : w.1 ≤ w.2) : InOrder last (ws ++ [w]) := by
  induction ws generalizing last with
  | nil => exact ⟨hlast, hw, trivial⟩
  | cons v ws ih => exact ⟨h.1, h.2.1, ih h.2.2 hlast⟩

@[simp] theorem length_piecesFrom (text : Text) (last : ℕ) (ws : List Span) :
    (piecesFrom text last ws).length = ws.length + 1 := by
  induction ws generalizing last with
  | nil => rfl
  | cons w ws ih => simp [piecesFrom, ih]

/-- **The pieces and the words between them are the text.** -/
theorem alternate_piecesFrom {last : ℕ} {ws : List Span} (h : InOrder last ws) :
    alternate (piecesFrom text last ws) (ws.map fun w => slice text w.1 w.2) = text.drop last := by
  induction ws generalizing last with
  | nil => simp [piecesFrom, alternate, slice]
  | cons w ws ih =>
      obtain ⟨hlast, hw, hrest⟩ := h
      rw [piecesFrom, List.map_cons, alternate, ih hrest, List.append_assoc,
        slice_append_drop hw, slice_append_drop hlast]

theorem trimmed_piecesFrom (text : Text) (last : ℕ) (ws : List Span) :
    trimmed (piecesFrom text last ws) =
      leading text last ws ++ trimmed [slice text (lastStop last ws) text.length] := by
  induction ws generalizing last with
  | nil => rfl
  | cons w ws ih =>
      have hcons : ∀ p ps, ps ≠ [] → trimmed (p :: ps) = Py.Chars.strip p :: trimmed ps := by
        intro p ps hps
        cases ps with
        | nil => exact absurd rfl hps
        | cons q qs => rfl
      have hne : piecesFrom text w.2 ws ≠ [] := by
        intro hnil
        have hlength := length_piecesFrom text w.2 ws
        rw [hnil] at hlength
        cases hlength
      rw [piecesFrom, hcons _ _ hne, ih, leading, List.cons_append, lastStop]

/-- The segments are the pieces before the splits, up to a place that the scanner has reached. -/
structure Cut (text : Text) (i : ℕ) (s : Scan) : Prop where
  segments : s.segments = leading text 0 s.splits
  last : s.last = lastStop 0 s.splits
  inOrder : InOrder 0 s.splits
  reached : s.last ≤ i

/-- A word that is being read begins behind the last split. -/
structure Placed (text before : Text) (s : Scan) : Prop where
  cut : Cut text before.length s
  wordStart : ∀ b ∈ s.wordStart, s.last ≤ b ∧ b < before.length

theorem Cut.mono {i j : ℕ} {s : Scan} (h : Cut text i s) (hij : i ≤ j) : Cut text j s :=
  ⟨h.segments, h.last, h.inOrder, h.reached.trans hij⟩

theorem Placed.closeWord {before : Text} {s : Scan} (h : Placed text before s) :
    Cut text before.length (s.closeWord text before.length) := by
  cases hword : s.wordStart with
  | none => simpa [Scan.closeWord, hword] using h.cut
  | some start =>
      obtain ⟨hlast, hlt⟩ := h.wordStart start hword
      unfold Scan.closeWord
      rw [hword]
      dsimp only
      split
      · split
        · refine ⟨?_, ?_, ?_, le_rfl⟩
          · rw [leading_append, h.cut.segments, h.cut.last]
          · rw [lastStop_append]
          · exact h.cut.inOrder.append (h.cut.last ▸ hlast) hlt.le
        · exact ⟨h.cut.segments, h.cut.last, h.cut.inOrder, h.cut.reached⟩
      · exact h.cut

theorem Placed.step {before : Text} {ch : Char} {s : Scan} (h : Placed text before s) :
    Placed text (before ++ [ch]) (s.step isalnum text before.length ch) := by
  have hle : before.length ≤ (before ++ [ch]).length := by simp
  have hcut := h.cut.mono hle
  have hwords : ∀ b ∈ s.wordStart, s.last ≤ b ∧ b < (before ++ [ch]).length := by
    intro b hb
    obtain ⟨hlast, hlt⟩ := h.wordStart b hb
    exact ⟨hlast, by omega⟩
  unfold Scan.step
  split
  · split
    · exact ⟨⟨hcut.segments, hcut.last, hcut.inOrder, hcut.reached⟩, hwords⟩
    · exact ⟨hcut, hwords⟩
  · split
    · exact ⟨⟨hcut.segments, hcut.last, hcut.inOrder, hcut.reached⟩, by simp⟩
    · split
      · exact ⟨⟨hcut.segments, hcut.last, hcut.inOrder, hcut.reached⟩, hwords⟩
      · split
        · exact ⟨⟨hcut.segments, hcut.last, hcut.inOrder, hcut.reached⟩, hwords⟩
        · split
          · refine ⟨⟨hcut.segments, hcut.last, hcut.inOrder, hcut.reached⟩, ?_⟩
            rintro b ⟨⟩
            cases hword : s.wordStart with
            | none => exact ⟨h.cut.reached, by simp⟩
            | some b' => exact hwords b' hword
          · have hclose := h.closeWord.mono hle
            exact ⟨⟨hclose.segments, hclose.last, hclose.inOrder, hclose.reached⟩, by simp⟩

theorem scanned_cut (isalnum : Char → Bool) (text : Text) :
    Cut text text.length (scanned isalnum text) := by
  have hinit : Placed text [] Scan.initial :=
    ⟨⟨rfl, rfl, trivial, le_rfl⟩, by simp [Scan.initial]⟩
  have hrun : Placed text text (walk (Scan.step isalnum text) 0 text Scan.initial) :=
    walk_inv (Placed text) (fun _ _ _ _ _ h => h.step) hinit
  exact hrun.closeWord

/-- **Nothing of a text is lost**: the segments are the pieces around the splits, and make up the
text together with the words at the splits. -/
theorem exists_pieces (isalnum : Char → Bool) (text : Text) :
    ∃ pieces : List Text,
      pieces.length = (scanned isalnum text).splits.length + 1 ∧
      alternate pieces ((scanned isalnum text).splits.map fun w => slice text w.1 w.2) = text ∧
      splitWhereConjuncts isalnum text = trimmed pieces := by
  have hcut := scanned_cut isalnum text
  refine ⟨piecesFrom text 0 (scanned isalnum text).splits, length_piecesFrom _ _ _,
    alternate_piecesFrom hcut.inOrder, ?_⟩
  rw [trimmed_piecesFrom, ← hcut.last, ← hcut.segments, splitWhereConjuncts, trimmed]
  split
  · rfl
  · rw [List.append_nil]

end Pieces

/-! ### Where the two readings differ -/

section Readings

variable {isalnum : Char → Bool} {text : Text}

theorem foldl_readWord (text : Text) (pending : Bool) (found ws : List Span) :
    (ws.foldl (readWord text) (pending, found)).2 = found ++ conjunctionsOf text pending ws := by
  induction ws generalizing pending found with
  | nil => simp [conjunctionsOf]
  | cons w ws ih =>
      rw [List.foldl_cons, conjunctionsOf]
      rcases hword : keyword text w with _ | _ | _ | _
      · simp [readWord, hword, ih]
      · simp [readWord, hword, ih]
      · cases pending <;> simp [readWord, hword, ih]
      · simp [readWord, hword, ih]

theorem splits_scanned (isalnum : Char → Bool) (text : Text) :
    (scanned isalnum text).splits =
      conjunctionsOf text false (seen isalnum text (topWords isalnum text)) := by
  have hread := congrArg Prod.snd (scanned_eq_seen isalnum text)
  rwa [foldl_readWord, List.nil_append] at hread

theorem mem_of_mem_conjunctionsOf {pending : Bool} {ws : List Span} {w : Span}
    (h : w ∈ conjunctionsOf text pending ws) : w ∈ ws := by
  induction ws generalizing pending with
  | nil => exact h
  | cons v ws ih =>
      have hcons : ∀ p, w ∈ v :: conjunctionsOf text p ws → w ∈ v :: ws := by
        intro p hp
        rcases List.mem_cons.mp hp with rfl | hp
        · exact List.mem_cons_self
        · exact List.mem_cons_of_mem _ (ih hp)
      rw [conjunctionsOf] at h
      split at h
      · exact List.mem_cons_of_mem _ (ih h)
      · split at h
        · exact List.mem_cons_of_mem _ (ih h)
        · exact hcons _ h
      · exact hcons _ h
      · exact List.mem_cons_of_mem _ (ih h)

/-- **Two readings of the same words agree** if and only if the overlooked ones make no
difference. -/
theorem conjunctionsOf_eq_iff {ws : List Span} (hnodup : ws.Nodup) (pending pendingSeen : Bool) :
    conjunctionsOf text pendingSeen (seen isalnum text ws) = conjunctionsOf text pending ws ↔
      Agreeing isalnum text pending pendingSeen ws := by
  induction ws generalizing pending pendingSeen with
  | nil => simp [seen, conjunctionsOf, Agreeing]
  | cons w ws ih =>
      obtain ⟨hw, hrest⟩ := List.nodup_cons.mp hnodup
      have hfresh : ∀ p, w ∉ conjunctionsOf text p ws := fun p hp =>
        hw (mem_of_mem_conjunctionsOf hp)
      have hfreshSeen : ∀ p, w ∉ conjunctionsOf text p (seen isalnum text ws) := fun p hp =>
        hw (List.mem_of_mem_filter (mem_of_mem_conjunctionsOf hp))
      -- a conjunction of one reading alone is found again in no later part of the other
      have hleft : ∀ p p', conjunctionsOf text p (seen isalnum text ws) ≠
          w :: conjunctionsOf text p' ws := by
        intro p p' heq
        exact hfreshSeen p (heq ▸ List.mem_cons_self)
      have hright : ∀ p p', w :: conjunctionsOf text p (seen isalnum text ws) ≠
          conjunctionsOf text p' ws := by
        intro p p' heq
        exact hfresh p' (heq ▸ List.mem_cons_self)
      by_cases hover : Overlooked isalnum text w
      · have hseen : seen isalnum text (w :: ws) = seen isalnum text ws := by simp [seen, hover]
        rw [hseen, conjunctionsOf, Agreeing, if_pos hover]
        rcases hword : keyword text w with _ | _ | _ | _
        · exact ih hrest _ _
        · exact ih hrest _ _
        · cases pending with
          | true => simpa using ih hrest false pendingSeen
          | false => simpa using hleft _ _
        · simpa using hleft _ _
      · have hseen : seen isalnum text (w :: ws) = w :: seen isalnum text ws := by
          simp [seen, hover]
        rw [hseen, conjunctionsOf, conjunctionsOf, Agreeing, if_neg hover]
        rcases hword : keyword text w with _ | _ | _ | _
        · exact ih hrest _ _
        · exact ih hrest _ _
        · cases pending <;> cases pendingSeen
          · simpa using ih hrest false false
          · simpa using hleft _ _
          · simpa using hright _ _
          · simpa using ih hrest false false
        · simpa using ih hrest _ _

/-- The words read so far follow each other, up to a place. -/
structure Apart (before : Text) (t : Words) : Prop where
  starts : (t.words.map Prod.fst).Pairwise (· < ·)
  words : ∀ w ∈ t.words, w.1 < before.length
  start : ∀ b ∈ t.start, b < before.length ∧ ∀ w ∈ t.words, w.1 < b

theorem Apart.close {before : Text} {t : Words} (h : Apart before t) :
    Apart before (t.close before.length) := by
  cases hstart : t.start with
  | none => simpa [Words.close, hstart] using h
  | some b =>
      obtain ⟨hb, hbefore⟩ := h.start b hstart
      simp only [Words.close, hstart]
      refine ⟨?_, ?_, by simp⟩
      · rw [List.map_append, List.pairwise_append]
        refine ⟨h.starts, by simp, ?_⟩
        intro a ha c hc
        obtain ⟨w, hw, rfl⟩ := List.mem_map.mp ha
        obtain rfl : c = b := by simpa using hc
        exact hbefore w hw
      · intro w hw
        rcases List.mem_append.mp hw with hw | hw
        · exact h.words w hw
        · obtain rfl : w = (b, before.length) := by simpa using hw
          exact hb

theorem Apart.mono {before : Text} {ch : Char} {t : Words} (h : Apart before t) :
    Apart (before ++ [ch]) t := by
  have hle : before.length ≤ (before ++ [ch]).length := by simp
  exact ⟨h.starts, fun w hw => (h.words w hw).trans_le hle,
    fun b hb => ⟨(h.start b hb).1.trans_le hle, (h.start b hb).2⟩⟩

theorem Apart.step {before : Text} {ch : Char} {t : Words} (h : Apart before t) :
    Apart (before ++ [ch]) (t.step isalnum before.length ch) := by
  have hmono : Apart (before ++ [ch]) t := h.mono
  have hclose : Apart (before ++ [ch]) (t.close before.length) := h.close.mono
  unfold Words.step
  split
  · split
    · exact ⟨hmono.starts, hmono.words, hmono.start⟩
    · exact hmono
  · split
    · exact ⟨hclose.starts, hclose.words, hclose.start⟩
    · split
      · exact ⟨hclose.starts, hclose.words, hclose.start⟩
      · split
        · exact ⟨hclose.starts, hclose.words, hclose.start⟩
        · split
          · split
            · refine ⟨hmono.starts, hmono.words, ?_⟩
              rintro b ⟨⟩
              cases hstart : t.start with
              | none => exact ⟨by simp, h.words⟩
              | some b' => exact hmono.start b' hstart
            · exact hmono
          · exact hclose

theorem nodup_topWords (isalnum : Char → Bool) (text : Text) : (topWords isalnum text).Nodup := by
  have hinit : Apart [] Words.initial := ⟨.nil, by simp [Words.initial], by simp [Words.initial]⟩
  have hrun : Apart text (walk (Words.step isalnum) 0 text Words.initial) :=
    walk_inv Apart (fun _ _ _ _ _ h => h.step) hinit
  have hstarts : ((topWords isalnum text).map Prod.fst).Nodup := hrun.close.starts.imp ne_of_lt
  exact List.Nodup.of_map _ hstarts

end Readings

/-- **When a text is split at its conjunctions.** -/
theorem splitsAtConjunctions_iff (isalnum : Char → Bool) (text : Text) :
    SplitsAtConjunctions isalnum text ↔
      Agreeing isalnum text false false (topWords isalnum text) := by
  rw [SplitsAtConjunctions, splits_scanned, conjunctions,
    conjunctionsOf_eq_iff (nodup_topWords isalnum text)]
  refine and_iff_left ?_
  rw [← splits_scanned]
  exact exists_pieces isalnum text

/-- An `AND` directly before a parenthesis is no split. -/
theorem not_splitsAtConjunctions :
    ¬SplitsAtConjunctions Char.isAlphanum "A = 1 AND(B = 2)".toList := by
  rintro ⟨hsplits, -⟩
  revert hsplits
  decide

end CobolJava.Sql.Where
