/-
**Code lines.**

The lines the parser works on (`CobolParser.parse`), against the program text of the compiler.  Both
start from the lines of the text the compiler sees; digits are the ASCII digits.

Main definitions:

* `maskQuoted`, `cutComment` — literals blanked, and the inline comment cut off;
* `codeLine`, `codeLines` — the parser;
* `programText`, `programLines` — the compiler;
* `ReadsLine`, `ReadsProgram` — every line gives the parser what it gives the compiler;
* `PlainLine` — the lines the parser reads.

Main results:

* `codeOf_iff` — a line behind its indicator;
* `readsLine_iff`, `readsProgram_iff` — exactly the plain lines are read;
* `codeLines_of_readsProgram` — the code lines are the program lines.
-/

import CobolJava.Transformation.SourceFormat

set_option autoImplicit false

namespace CobolJava.SourceFormat

open Py (isSpace)
open Py.Chars

/-! ### Inline comments -/

/-- The rest of `'(?:''|[^'])*'` behind its opening quote: how many characters it takes. -/
def singleQuoted : Text → Option ℕ
  | [] => none
  | '\'' :: '\'' :: rest => ((singleQuoted rest).map (· + 2)).or (some 1)
  | '\'' :: _ => some 1
  | _ :: rest => (singleQuoted rest).map (· + 1)

/-- The rest of `"[^"]*"` behind its opening quote: how many characters it takes. -/
def doubleQuoted : Text → Option ℕ
  | [] => none
  | c :: rest => if c = '"' then some 1 else (doubleQuoted rest).map (· + 1)

/-- How many characters a quoted literal takes behind its first one. -/
def quotedWidth (c : Char) (rest : Text) : Option ℕ :=
  if c = '\'' then singleQuoted rest
  else if c = '"' then doubleQuoted rest
  else none

/-- The loop of `_mask_quoted`, within a literal that reaches over `masked` characters. -/
def maskFrom (masked : ℕ) : Text → Text
  | [] => []
  | c :: rest =>
      if 0 < masked then ' ' :: maskFrom (masked - 1) rest
      else
        match quotedWidth c rest with
        | some width => ' ' :: maskFrom width rest
        | none => c :: maskFrom 0 rest

/-- `_mask_quoted` -/
def maskQuoted (text : Text) : Text :=
  maskFrom 0 text

/-- Where the inline comment starts. -/
def marker (text : Text) : Option ℕ :=
  find ['*', '>'] (maskQuoted text)

/-- The text before its inline comment. -/
def uncommented (text : Text) : Text :=
  match marker text with
  | some m => text.take m
  | none => text

/-- The parser's cut, which leaves a comment at the very start. -/
def cutComment (cleaned : Text) : Text :=
  match marker cleaned with
  | some (m + 1) => rstrip (cleaned.take (m + 1))
  | _ => cleaned

/-! ### The parser -/

/-- `_strip_area_prefix` -/
def stripAreaPrefix (line : Text) : Text :=
  if line.length ≤ 6 then line else lstrip line

/-- Columns 1 to 6 hold digits and blanks. -/
def sequenceArea (line : Text) : Bool :=
  (line.take 6).all fun c => c.isDigit || c = ' '

/-- `^(\d{6})(.)(.*)$`, its second and third group. -/
def areaMatch (cleaned : Text) : Option (Char × Text) :=
  match cleaned.drop 6 with
  | [] => none
  | c :: rest => if (cleaned.take 6).all Char.isDigit then some (c, rest) else none

/-- `if cleaned and not cleaned.startswith("*")` -/
def kept : Text → Option Text
  | [] => none
  | c :: rest => if c = '*' then none else some (c :: rest)

/-- The body of the loop of `parse` behind the indicator area. -/
def codeOf (line : Text) : Option Text :=
  let cleaned := cutComment (stripAreaPrefix line)
  match areaMatch cleaned with
  | some (c, rest) => if c = '*' || c = '/' then none else kept (lstrip rest)
  | none => kept cleaned

/-- A comment line or a debugging line. -/
def skipped (line : Text) : Bool :=
  6 < line.length && sequenceArea line && "*/Dd".toList.contains (indicator line)

/-- What the loop of `parse` appends for a line. -/
def codeLine (format : Format) (line : Text) : Option Text :=
  if format = .fixed && skipped line then none else codeOf line

/-- The code lines of `CobolParser.parse`. -/
def codeLines (source : Text) : List Text :=
  (splitLines (compilerVisibleText source)).filterMap (codeLine (detectSourceFormat source))

/-! ### The compiler -/

/-- A text without the blanks at its ends, if anything is left. -/
def nonBlank (text : Text) : Option Text :=
  if strip text = [] then none else some (strip text)

/-- The program text of a line: the columns from 8 in fixed format, unless column 7 says otherwise,
and all of it in free format. -/
def programText (format : Format) (debugging : Bool) (line : Text) : Option Text :=
  match format with
  | .free => nonBlank (uncommented line)
  | .fixed =>
      if !sequenceArea line then none
      else if "*/".toList.contains (indicator line) then none
      else if "Dd".toList.contains (indicator line) && !debugging then none
      else nonBlank (uncommented (line.drop 7))

/-- The program text of a source, line by line. -/
def programLines (debugging : Bool) (source : Text) : List Text :=
  (splitLines (compilerVisibleText source)).filterMap
    (programText (detectSourceFormat source) debugging)

/-! ### The law -/

/-- A line gives the parser, up to blanks at the ends, what it gives the compiler. -/
def ReadsLine (format : Format) (debugging : Bool) (line : Text) : Prop :=
  (codeLine format line).map strip = programText format debugging line

/-- Every line gives the parser what it gives the compiler. -/
def ReadsProgram (debugging : Bool) (source : Text) : Prop :=
  ∀ line ∈ splitLines (compilerVisibleText source),
    ReadsLine (detectSourceFormat source) debugging line

theorem codeLines_of_readsProgram {debugging : Bool} {source : Text}
    (h : ReadsProgram debugging source) :
    (codeLines source).map strip = programLines debugging source := by
  rw [codeLines, programLines, List.map_filterMap]
  exact List.filterMap_congr fun line hline => h line hline

/-! ### Literals and inline comments -/

def Quoteless (text : Text) : Prop :=
  ∀ c ∈ text, c ≠ '\'' ∧ c ≠ '"'

theorem isSpace_ne {c d : Char} (hc : isSpace c = true) (hd : isSpace d = false) : c ≠ d := by
  rintro rfl
  rw [hc] at hd
  exact Bool.noConfusion hd

theorem quoteless_of_blank {blank : Text} (h : ink blank = 0) : Quoteless blank := fun c hc =>
  ⟨isSpace_ne (ink_eq_zero.1 h c hc) (by decide), isSpace_ne (ink_eq_zero.1 h c hc) (by decide)⟩

theorem not_mem_of_blank {blank : Text} (h : ink blank = 0) {d : Char} (hd : isSpace d = false) :
    d ∉ blank := fun hmem => isSpace_ne (ink_eq_zero.1 h d hmem) hd rfl

theorem maskQuoted_append {front : Text} (h : Quoteless front) (text : Text) :
    maskQuoted (front ++ text) = front ++ maskQuoted text := by
  induction front with
  | nil => rfl
  | cons c rest ih =>
      have hc := h c List.mem_cons_self
      have hrest := ih fun d hd => h d (List.mem_cons_of_mem c hd)
      rw [maskQuoted] at hrest
      simp [maskQuoted, maskFrom, quotedWidth, hc.1, hc.2, hrest]

theorem maskFrom_forall₂ (masked : ℕ) (text : Text) :
    List.Forall₂ (fun u c => u = c ∨ u = ' ') (maskFrom masked text) text := by
  induction text generalizing masked with
  | nil => exact List.Forall₂.nil
  | cons c rest ih =>
      rw [maskFrom]
      split
      · exact (ih _).cons (.inr rfl)
      · split
        · exact (ih _).cons (.inr rfl)
        · exact (ih _).cons (.inl rfl)

theorem isPrefix_of_forall₂ {p masked text : Text} (hp : ' ' ∉ p)
    (h : List.Forall₂ (fun u c => u = c ∨ u = ' ') masked text) (hm : p <+: masked) :
    p <+: text := by
  induction p generalizing masked text with
  | nil => exact List.nil_prefix
  | cons d rest ih =>
      obtain ⟨hd, hrest⟩ := not_or.1 fun hmem => hp (List.mem_cons.2 hmem)
      cases h with
      | nil => exact absurd (List.prefix_nil.1 hm) (List.cons_ne_nil d rest)
      | cons huc htail =>
          obtain ⟨rfl, htailm⟩ := List.cons_prefix_cons.1 hm
          obtain rfl := huc.resolve_right (Ne.symm hd)
          exact List.cons_prefix_cons.2 ⟨rfl, ih hrest htail htailm⟩

theorem isPrefix_of_marker {text : Text} {m : ℕ} (h : marker text = some m) :
    ['*', '>'] <+: text.drop m :=
  isPrefix_of_forall₂ (by decide) (List.forall₂_drop m (maskFrom_forall₂ 0 text))
    (isPrefix_of_find h)

theorem marker_append {front : Text} (hquote : Quoteless front) (hstar : '*' ∉ front)
    (text : Text) : marker (front ++ text) = (marker text).map (· + front.length) := by
  rw [marker, maskQuoted_append hquote, find_append hstar, marker]

theorem uncommented_append {front : Text} (hquote : Quoteless front) (hstar : '*' ∉ front)
    (text : Text) : uncommented (front ++ text) = front ++ uncommented text := by
  rw [uncommented, uncommented, marker_append hquote hstar]
  cases marker text with
  | none => rfl
  | some m =>
      rw [Option.map_some, Nat.add_comm]
      exact List.take_length_add_append m

/-- The text up to a `*>`, or all of it. -/
def IsCut (front text : Text) : Prop :=
  front = text ∨ front ++ ['*', '>'] <+: text

theorem IsCut.isPrefix {front text : Text} (h : IsCut front text) : front <+: text := by
  rcases h with rfl | h
  · exact List.prefix_rfl
  · exact (List.prefix_append front _).trans h

/-- Two cuts with the same number of asterisks are the same. -/
theorem IsCut.eq_of_count {front front' text : Text} (h : IsCut front text)
    (h' : IsCut front' text) (hcount : front.count '*' = front'.count '*') : front = front' := by
  have hlt : ∀ {s t : Text}, s ++ ['*', '>'] <+: text → IsCut t text → s.length < t.length →
      s.count '*' < t.count '*' := by
    intro s t hs ht hlen
    have hone : s ++ ['*'] <+: text := by
      refine List.IsPrefix.trans ⟨['>'], ?_⟩ hs
      rw [List.append_assoc]
      rfl
    have hle : s ++ ['*'] <+: t :=
      List.prefix_of_prefix_length_le hone ht.isPrefix (by rw [List.length_append]; exact hlen)
    have hcounts := hle.sublist.count_le '*'
    rw [List.count_append] at hcounts
    have hstar : List.count '*' ['*'] = 1 := rfl
    omega
  have hlength : ∀ {s t : Text}, IsCut s text → IsCut t text → s.length < t.length →
      s.count '*' < t.count '*' := by
    intro s t hs ht hlen
    rcases hs with rfl | hs
    · exact absurd ht.isPrefix.length_le (by omega)
    · exact hlt hs ht hlen
  rcases Nat.lt_trichotomy front.length front'.length with hlen | hlen | hlen
  · exact absurd (hlength h h' hlen) (by omega)
  · exact (List.prefix_of_prefix_length_le h.isPrefix h'.isPrefix hlen.le).eq_of_length hlen
  · exact absurd (hlength h' h hlen) (by omega)

theorem uncommented_isCut (text : Text) : IsCut (uncommented text) text := by
  rw [uncommented]
  split
  · rename_i m hm
    obtain ⟨rest, hrest⟩ := isPrefix_of_marker hm
    refine .inr ⟨rest, ?_⟩
    rw [List.append_assoc, hrest, List.take_append_drop]
  · exact .inl rfl

/-- Behind characters that are no asterisks the comment is cut off somewhere. -/
theorem exists_uncommented_append {front : Text} (hstar : '*' ∉ front) (text : Text) :
    ∃ cut, uncommented (front ++ text) = front ++ cut ∧ IsCut cut text := by
  rcases uncommented_isCut (front ++ text) with heq | hcut
  · exact ⟨text, heq, .inl rfl⟩
  · obtain ⟨rest, hrest⟩ := hcut
    rw [List.append_assoc] at hrest
    rcases List.append_eq_append_iff.1 hrest with ⟨between, hfront, hbetween⟩ | ⟨cut, hcut, htext⟩
    · cases between with
      | nil =>
          rw [List.append_nil] at hfront
          refine ⟨[], ?_, .inr ⟨rest, hbetween⟩⟩
          rw [← hfront, List.append_nil]
      | cons c tail =>
          -- the cut would lie before an asterisk among the first characters
          obtain rfl : '*' = c := (List.cons.inj hbetween).1
          exact absurd (hfront ▸ List.mem_append_right _ List.mem_cons_self) hstar
    · refine ⟨cut, hcut, .inr ⟨rest, ?_⟩⟩
      rw [List.append_assoc]
      exact htext.symm

/-! ### What the parser reads of a line -/

/-- What the parser has of a line before it looks for a sequence number. -/
def cleaned (line : Text) : Text :=
  cutComment (stripAreaPrefix line)

def ShortBlank (line : Text) : Prop :=
  line ≠ [] ∧ line.length ≤ 6 ∧ strip line = []

/-- A text passes the last test of the loop, or there is nothing for the compiler either. -/
def Keeps (rest text : Text) : Prop :=
  if rest.head? = some '*' then text = [] else strip rest = text

/-- The parser takes exactly the columns before the text off a line: as a sequence number of six
digits and a character, or because they are blank. -/
def ReadsOwnText (codeFrom : ℕ) (line : Text) : Prop :=
  let text := strip (uncommented (line.drop codeFrom))
  match areaMatch (cleaned line) with
  | some (_, rest) =>
      strip ((cleaned line).take 7) = strip (line.take codeFrom) ∧ Keeps (lstrip rest) text
  | none => strip (line.take codeFrom) = [] ∧ ((cleaned line).head? = some '*' → text = [])

theorem exists_stripAreaPrefix (line : Text) :
    ∃ blank, ink blank = 0 ∧ line = blank ++ stripAreaPrefix line := by
  rw [stripAreaPrefix]
  split
  · exact ⟨[], rfl, rfl⟩
  · exact exists_lstrip line

theorem cutComment_cases (text : Text) :
    (∃ blank, ink blank = 0 ∧ uncommented text = cutComment text ++ blank) ∨
      (∃ rest, text = '*' :: '>' :: rest ∧ uncommented text = [] ∧ cutComment text = text) := by
  rw [uncommented, cutComment]
  cases hm : marker text with
  | none => exact .inl ⟨[], rfl, (List.append_nil text).symm⟩
  | some m =>
      cases m with
      | zero =>
          obtain ⟨rest, hrest⟩ := isPrefix_of_marker hm
          exact .inr ⟨rest, hrest.symm, rfl, rfl⟩
      | succ m => exact .inl (exists_rstrip _)

theorem cutComment_isPrefix (text : Text) : cutComment text <+: text := by
  rw [cutComment]
  split
  · exact (List.rdropWhile_prefix isSpace (l := _)).trans (List.take_prefix _ _)
  · exact List.prefix_rfl

theorem cleaned_eq_nil {line : Text} (hshort : ¬ShortBlank line) (h : ink (cleaned line) = 0) :
    cleaned line = [] := by
  have hcut : (∃ front, cleaned line = rstrip front) ∨ cleaned line = stripAreaPrefix line := by
    rw [cleaned, cutComment]
    split
    · exact .inl ⟨_, rfl⟩
    · exact .inr rfl
  rcases hcut with ⟨front, hfront⟩ | hline
  · rw [hfront, ← rstrip_rstrip, ← hfront]
    exact rstrip_of_blank h
  · rw [hline] at h ⊢
    rw [stripAreaPrefix] at h ⊢
    split at h
    · rename_i hlength
      rw [if_pos hlength]
      by_contra hne
      exact hshort ⟨hne, hlength, strip_eq_nil_iff.2 h⟩
    · rename_i hlength
      rw [if_neg hlength, lstrip, ← List.dropWhile_idempotent]
      exact lstrip_of_blank h

theorem kept_eq_none {text : Text} : kept text = none ↔ text = [] ∨ text.head? = some '*' := by
  cases text with
  | nil => simp [kept]
  | cons c rest => by_cases hc : c = '*' <;> simp [kept, hc]

theorem kept_of_ne {text : Text} (hne : text ≠ []) (hstar : text.head? ≠ some '*') :
    kept text = some text := by
  cases text with
  | nil => exact absurd rfl hne
  | cons c rest =>
      have hc : c ≠ '*' := fun h => hstar (by rw [h]; rfl)
      simp [kept, hc]

theorem kept_eq_some {text t : Text} (h : kept text = some t) : text = t := by
  cases text with
  | nil => simp [kept] at h
  | cons c rest =>
      rw [kept] at h
      split at h
      · simp at h
      · exact Option.some.inj h

theorem nonBlank_eq_none {text : Text} : nonBlank text = none ↔ strip text = [] := by
  simp [nonBlank]

theorem nonBlank_eq_some {text t : Text} :
    nonBlank text = some t ↔ strip text = t ∧ t ≠ [] := by
  rw [nonBlank]
  split
  · rename_i h
    simp only [reduceCtorEq, false_iff, not_and, not_not]
    exact fun ht => ht ▸ h
  · rename_i h
    rw [Option.some.injEq]
    exact ⟨fun ht => ⟨ht, ht ▸ h⟩, And.left⟩

theorem areaMatch_eq_some {text rest : Text} {c : Char} (h : areaMatch text = some (c, rest)) :
    text = text.take 6 ++ c :: rest ∧ (text.take 6).length = 6 ∧
      ∀ d ∈ text.take 6, d.isDigit = true := by
  rw [areaMatch] at h
  split at h
  · simp at h
  · rename_i d tail hdrop
    split at h
    · rename_i hdigits
      obtain ⟨rfl, rfl⟩ : d = c ∧ tail = rest := by simpa using h
      refine ⟨?_, ?_, List.all_eq_true.1 hdigits⟩
      · rw [← hdrop, List.take_append_drop]
      · have hlength : 0 < (text.drop 6).length := by rw [hdrop]; exact Nat.succ_pos _
        rw [List.length_drop] at hlength
        rw [List.length_take]
        omega
    · simp at h

theorem kept_iff {rest text : Text} (h : ink rest = 0 → rest = []) :
    (kept rest).map strip = nonBlank text ↔ Keeps rest (strip text) := by
  rw [Keeps]
  by_cases hstar : rest.head? = some '*'
  · rw [if_pos hstar, kept_eq_none.2 (.inr hstar), Option.map_none, eq_comm, nonBlank_eq_none]
  · rw [if_neg hstar]
    by_cases hrest : rest = []
    · rw [hrest, kept, Option.map_none, eq_comm, nonBlank_eq_none, eq_comm]
      rfl
    · have hne : strip rest ≠ [] := fun hnil => hrest (h (strip_eq_nil_iff.1 hnil))
      rw [kept_of_ne hrest hstar, Option.map_some, eq_comm, nonBlank_eq_some, eq_comm]
      exact and_iff_left hne

section Line

variable {k : ℕ} {line : Text}

/-- What the compiler's cut leaves of a line whose first columns hold no quotes. -/
theorem cleaned_append (hquote : Quoteless (line.take k)) (hstar : '*' ∉ line.take k) :
    ((∃ front back, ink front = 0 ∧ ink back = 0 ∧
        line.take k ++ uncommented (line.drop k) = front ++ (cleaned line ++ back)) ∨
      (∃ rest, cleaned line = '*' :: rest) ∧ ink (line.take k) = 0 ∧
        ink (uncommented (line.drop k)) = 0) := by
  obtain ⟨front, hfront, hline⟩ := exists_stripAreaPrefix line
  have hwhole : line.take k ++ uncommented (line.drop k) =
      front ++ uncommented (stripAreaPrefix line) := by
    rw [← uncommented_append hquote hstar, List.take_append_drop,
      ← uncommented_append (quoteless_of_blank hfront) (not_mem_of_blank hfront (by decide)),
      ← hline]
  rcases cutComment_cases (stripAreaPrefix line) with ⟨back, hback, hcut⟩ | ⟨rest, hs, hcut, hc⟩
  · exact .inl ⟨front, back, hfront, hback, by rw [hwhole, hcut, cleaned]⟩
  · rw [hcut, List.append_nil] at hwhole
    have hink := congrArg ink hwhole
    rw [ink_append, hfront] at hink
    exact .inr ⟨⟨'>' :: rest, by rw [cleaned, hc, hs]⟩, by omega, by omega⟩

theorem codeOf_of_star {rest : Text} (h : cleaned line = '*' :: rest) :
    areaMatch (cleaned line) = none ∧ codeOf line = none := by
  have harea : areaMatch (cleaned line) = none := by
    by_contra hne
    obtain ⟨⟨c, tail⟩, hsome⟩ := Option.ne_none_iff_exists'.1 hne
    obtain ⟨-, hlength, hdigits⟩ := areaMatch_eq_some hsome
    have := hdigits '*' (by rw [h]; exact List.mem_cons_self)
    simp at this
  refine ⟨harea, ?_⟩
  have hcode : codeOf line = kept (cleaned line) := by
    rw [cleaned] at harea
    simp only [codeOf, harea, cleaned]
  rw [hcode, h]
  rfl

theorem codeOf_of_none (h : areaMatch (cleaned line) = none) :
    codeOf line = kept (cleaned line) := by
  rw [cleaned] at h ⊢
  simp only [codeOf, h]

theorem codeOf_of_some {c : Char} {rest : Text} (h : areaMatch (cleaned line) = some (c, rest)) :
    codeOf line = if c = '*' || c = '/' then none else kept (lstrip rest) := by
  rw [cleaned] at h
  simp only [codeOf, h]

theorem take_seven {text rest : Text} {c : Char} (h : areaMatch text = some (c, rest)) :
    text.take 7 = text.take 6 ++ [c] ∧ text = text.take 7 ++ rest := by
  obtain ⟨htext, hlength, -⟩ := areaMatch_eq_some h
  have hseven : text.take 7 = text.take 6 ++ [c] := by
    conv_lhs => rw [htext, List.take_append, List.take_of_length_le (by omega), hlength]
    rfl
  refine ⟨hseven, ?_⟩
  conv_lhs => rw [htext]
  rw [hseven, List.append_assoc]
  rfl

theorem codeOf_iff_of_number (hstar : '*' ∉ line.take k) (hslash : '/' ∉ line.take k)
    {c : Char} {rest : Text} (harea : areaMatch (cleaned line) = some (c, rest))
    (hseven : strip ((cleaned line).take 7) = strip (line.take k)) :
    (codeOf line).map strip = nonBlank (uncommented (line.drop k)) ↔
      Keeps (lstrip rest) (strip (uncommented (line.drop k))) := by
  have hmem : ∀ d, isSpace d = false → d ∉ line.take k → c ≠ d := by
    rintro d hd hnot rfl
    have hcount := count_strip hd ((cleaned line).take 7)
    rw [hseven, count_strip hd, List.count_eq_zero.2 hnot, (take_seven harea).1] at hcount
    simp at hcount
  have hc : (c = '*' || c = '/') = false := by
    simp [hmem '*' (by decide) hstar, hmem '/' (by decide) hslash]
  rw [codeOf_of_some harea, hc]
  refine kept_iff fun h => ?_
  rw [lstrip, ← List.dropWhile_idempotent]
  exact lstrip_of_blank h

/-- A parser's text behind a sequence number that is the compiler's text holds its ink. -/
theorem ink_rest (hk : k ≤ 7) {c : Char} {rest front back : Text}
    (harea : areaMatch (cleaned line) = some (c, rest)) (hback : ink back = 0)
    (hcut : line.take k ++ uncommented (line.drop k) =
      (front ++ (cleaned line).take 7) ++ (rest ++ back))
    (hlaw : (codeOf line).map strip = nonBlank (uncommented (line.drop k))) :
    ink rest = ink (uncommented (line.drop k)) := by
  rw [codeOf_of_some harea] at hlaw
  cases hcode : (if c = '*' || c = '/' then none else kept (lstrip rest)) with
  | some text =>
      rw [hcode, Option.map_some, eq_comm, nonBlank_eq_some] at hlaw
      have htext : lstrip rest = text := by
        split at hcode
        · simp at hcode
        · exact kept_eq_some hcode
      obtain ⟨before, hbefore, hlstrip⟩ := exists_lstrip rest
      have hinks := congrArg ink hlaw.1
      rw [ink_strip, ink_strip, ← htext] at hinks
      have hsplit := congrArg ink hlstrip
      rw [ink_append] at hsplit
      omega
  | none =>
      -- the columns before the text are among the characters taken off
      rw [hcode, Option.map_none, eq_comm, nonBlank_eq_none, strip_eq_nil_iff] at hlaw
      have hlength : (line.take k).length ≤ (front ++ (cleaned line).take 7).length := by
        have hseven : ((cleaned line).take 7).length = 7 := by
          rw [(take_seven harea).1, List.length_append, (areaMatch_eq_some harea).2.1]
          rfl
        rw [List.length_append, hseven, List.length_take]
        omega
      have hlead : line.take k <+: (front ++ (cleaned line).take 7) ++ (rest ++ back) :=
        hcut ▸ List.prefix_append _ _
      obtain ⟨between, hbetween⟩ :=
        List.prefix_of_prefix_length_le hlead (List.prefix_append _ _) hlength
      rw [← hbetween, List.append_assoc] at hcut
      have hinks := congrArg ink (List.append_cancel_left hcut)
      rw [ink_append, ink_append] at hinks
      omega

/-- A line behind its indicator, when no literal starts before the text. -/
theorem codeOf_iff_of_quoteless (hk : k ≤ 7) (hquote : Quoteless (line.take k))
    (hstar : '*' ∉ line.take k) (hslash : '/' ∉ line.take k) (hshort : ¬ShortBlank line) :
    (codeOf line).map strip = nonBlank (uncommented (line.drop k)) ↔ ReadsOwnText k line := by
  rcases cleaned_append hquote hstar with
    ⟨front, back, hfront, hback, hwhole⟩ | ⟨⟨rest, hrest⟩, hbefore, htext⟩
  · have hink := congrArg ink hwhole
    simp only [ink_append, hfront, hback] at hink
    cases harea : areaMatch (cleaned line) with
    | none =>
        rw [ReadsOwnText, harea, codeOf_of_none harea]
        by_cases hnil : cleaned line = []
        · rw [hnil, ink_nil] at hink
          have hblank : strip (line.take k) = [] ∧ strip (uncommented (line.drop k)) = [] :=
            ⟨strip_eq_nil_iff.2 (by omega), strip_eq_nil_iff.2 (by omega)⟩
          simp [hnil, kept, nonBlank, hblank.1, hblank.2]
        by_cases hhead : (cleaned line).head? = some '*'
        · -- the asterisk stands in the text
          have hcount := congrArg (List.count '*') hwhole
          rw [List.count_append, List.count_eq_zero.2 hstar, List.count_append,
            List.count_append] at hcount
          have hpos : 0 < (cleaned line).count '*' :=
            List.count_pos_iff.2 (List.mem_of_mem_head? hhead)
          have hmem : '*' ∈ uncommented (line.drop k) := List.count_pos_iff.1 (by omega)
          have hne : strip (uncommented (line.drop k)) ≠ [] := fun h =>
            absurd (strip_eq_nil_iff.1 h) (ink_pos hmem (by decide)).ne'
          rw [kept_eq_none.2 (.inr hhead), Option.map_none, eq_comm, nonBlank_eq_none]
          exact ⟨fun h => absurd h hne, fun h => absurd (h.2 hhead) hne⟩
        · rw [kept_of_ne hnil hhead, Option.map_some, eq_comm, nonBlank_eq_some]
          constructor
          · rintro ⟨hsame, -⟩
            have hsame := congrArg ink hsame
            rw [ink_strip, ink_strip] at hsame
            exact ⟨strip_eq_nil_iff.2 (by omega), fun h => absurd h hhead⟩
          · rintro ⟨hbefore, -⟩
            have hbefore := strip_eq_nil_iff.1 hbefore
            have hsame := congrArg strip hwhole
            rw [strip_blank_append hbefore, strip_blank_append hfront,
              strip_append_blank hback] at hsame
            exact ⟨hsame, fun h => hnil (cleaned_eq_nil hshort (strip_eq_nil_iff.1 h))⟩
    | some pair =>
        obtain ⟨c, rest⟩ := pair
        obtain ⟨hseven, hsplit⟩ := take_seven harea
        rw [ReadsOwnText, harea]
        by_cases hsame : strip ((cleaned line).take 7) = strip (line.take k)
        · rw [codeOf_iff_of_number hstar hslash harea hsame]
          exact (and_iff_right hsame).symm
        refine iff_of_false (fun hlaw => hsame ?_) fun h => hsame h.1
        have hcut : line.take k ++ uncommented (line.drop k) =
            (front ++ (cleaned line).take 7) ++ (rest ++ back) := by
          rw [hwhole, List.append_assoc, ← List.append_assoc _ rest, ← hsplit]
        have hrest := ink_rest hk harea hback hcut hlaw
        have hinks := congrArg ink hcut
        simp only [ink_append, hfront, hback] at hinks
        have := (strip_eq_of_append hcut (by rw [ink_append, hfront]; omega)).1
        rw [strip_blank_append hfront] at this
        exact this.symm
  · obtain ⟨harea, hcode⟩ := codeOf_of_star hrest
    have hblank := strip_eq_nil_iff.2 htext
    rw [ReadsOwnText, harea, hcode, Option.map_none, eq_comm, nonBlank_eq_none]
    exact iff_of_true hblank ⟨strip_eq_nil_iff.2 hbefore, fun _ => hblank⟩

theorem lt_of_indicator (h : indicator line ≠ ' ') : 6 < line.length := by
  by_contra hle
  rw [indicator, List.getD_eq_getElem?_getD, List.getElem?_eq_none (by omega)] at h
  exact h rfl

theorem take_seven_of_lt (h : 6 < line.length) : line.take 7 = line.take 6 ++ [indicator line] := by
  rw [List.take_add_one, List.getElem?_eq_getElem h, indicator, List.getD_eq_getElem?_getD,
    List.getElem?_eq_getElem h]
  rfl

theorem mem_take_seven (harea : sequenceArea line = true) (h : 6 < line.length) {c : Char}
    (hc : c ∈ line.take 7) : c.isDigit = true ∨ c = ' ' ∨ c = indicator line := by
  rw [take_seven_of_lt h, List.mem_append, List.mem_singleton] at hc
  rcases hc with hc | hc
  · have := List.all_eq_true.1 harea c hc
    rw [Bool.or_eq_true, decide_eq_true_eq] at this
    exact this.imp_right .inl
  · exact .inr (.inr hc)

/-- A line behind its indicator, when column 7 holds something that is not white space. -/
theorem codeOf_iff_of_indicator (hlength : 6 < line.length)
    (hspace : isSpace (indicator line) = false) (hdigit : (indicator line).isDigit = false)
    (hstar : '*' ∉ line.take 7) (hslash : '/' ∉ line.take 7) :
    (codeOf line).map strip = nonBlank (uncommented (line.drop 7)) ↔ ReadsOwnText 7 line := by
  obtain ⟨front, hfront, hline⟩ := exists_stripAreaPrefix line
  have hmem : indicator line ∈ line.take 7 := by
    rw [take_seven_of_lt hlength]
    exact List.mem_append_right _ List.mem_cons_self
  have hnot : indicator line ∉ front := not_mem_of_blank hfront hspace
  cases hmatch : areaMatch (cleaned line) with
  | some pair =>
      obtain ⟨c, rest⟩ := pair
      obtain ⟨hseven, -⟩ := take_seven hmatch
      obtain ⟨-, hsix, hdigits⟩ := areaMatch_eq_some hmatch
      -- the six digits start in column 1, for the indicator is none of them
      have hlead : ∀ n, front ++ (cleaned line).take n <+: line := fun n => by
        conv_rhs => rw [hline]
        exact (List.prefix_append_right_inj front).2
          ((List.take_prefix n _).trans (cutComment_isPrefix _))
      have hnil : front = [] := by
        by_contra hne
        have hpos := List.length_pos_iff.2 hne
        have hle : (line.take 7).length ≤ (front ++ (cleaned line).take 6).length := by
          rw [List.length_append, hsix, List.length_take]
          omega
        have hin := (List.prefix_of_prefix_length_le (List.take_prefix 7 line) (hlead 6)
          hle).subset hmem
        rcases List.mem_append.1 hin with hin | hin
        · exact hnot hin
        · exact absurd (hdigits _ hin) (by simp [hdigit])
      have hsame : (cleaned line).take 7 = line.take 7 := by
        have hle := hlead 7
        rw [hnil, List.nil_append] at hle
        refine (List.prefix_of_prefix_length_le hle (List.take_prefix 7 line) ?_).eq_of_length ?_ <;>
          (rw [hseven, List.length_append, hsix, List.length_take, List.length_singleton]; omega)
      rw [ReadsOwnText, hmatch, codeOf_iff_of_number hstar hslash hmatch (by rw [hsame])]
      exact (and_iff_right (by rw [hsame])).symm
  | none =>
      have hsplit : ∃ behind, line.take 7 = front ++ behind := by
        have hfrontline : front <+: line := ⟨_, hline.symm⟩
        rcases List.prefix_or_prefix_of_prefix (List.take_prefix 7 line) hfrontline with hle | hle
        · exact absurd (hle.subset hmem) hnot
        · obtain ⟨behind, hbehind⟩ := hle
          exact ⟨behind, hbehind.symm⟩
      obtain ⟨behind, hbehind⟩ := hsplit
      have hin : indicator line ∈ behind := by
        rw [hbehind] at hmem
        exact (List.mem_append.1 hmem).resolve_left hnot
      have hstarBehind : '*' ∉ behind := fun h => hstar (hbehind ▸ List.mem_append_right _ h)
      have hrest : stripAreaPrefix line = behind ++ line.drop 7 := by
        refine (List.append_right_inj front).1 ?_
        rw [← hline, ← List.append_assoc, ← hbehind, List.take_append_drop]
      obtain ⟨cut, hcut, hisCut⟩ := exists_uncommented_append hstarBehind (line.drop 7)
      have hpos : 0 < ink behind := ink_pos hin hspace
      have hfalse : ¬ReadsOwnText 7 line := by
        rw [ReadsOwnText, hmatch]
        rintro ⟨hblank, -⟩
        have := strip_eq_nil_iff.1 hblank
        rw [hbehind, ink_append] at this
        omega
      refine iff_of_false (fun hlaw => ?_) hfalse
      rcases cutComment_cases (stripAreaPrefix line) with ⟨back, hback, hsame⟩ | ⟨rest, hs, -, -⟩
      · rw [hrest, hcut, ← hrest, ← cleaned] at hsame
        have hinks := congrArg ink hsame
        have hcounts := congrArg (List.count '*') hsame
        rw [ink_append, ink_append] at hinks
        rw [List.count_append, List.count_append, List.count_eq_zero.2 hstarBehind,
          List.count_eq_zero.2 (not_mem_of_blank hback (by decide))] at hcounts
        have hne : cleaned line ≠ [] := fun hnil => by
          rw [hnil, ink_nil] at hinks
          omega
        have hhead : (cleaned line).head? ≠ some '*' := fun hstarHead => by
          have hfirst : (behind ++ cut).head? = some '*' := by
            rw [hsame, List.head?_append, hstarHead]
            rfl
          obtain ⟨d, tail, rfl⟩ := List.exists_cons_of_ne_nil (List.ne_nil_of_mem hin)
          obtain rfl : d = '*' := by simpa using hfirst
          exact hstarBehind List.mem_cons_self
        rw [codeOf_of_none hmatch, kept_of_ne hne hhead, Option.map_some, eq_comm,
          nonBlank_eq_some] at hlaw
        -- as many asterisks mean one cut, and then the parser has the indicator in addition
        have hstars := congrArg (List.count '*') hlaw.1
        rw [count_strip (by decide), count_strip (by decide)] at hstars
        have hone := (uncommented_isCut (line.drop 7)).eq_of_count hisCut (by omega)
        have hlawInk := congrArg ink hlaw.1
        rw [ink_strip, ink_strip, hone] at hlawInk
        omega
      · -- the line does not start with an asterisk
        obtain ⟨d, tail, rfl⟩ := List.exists_cons_of_ne_nil (List.ne_nil_of_mem hin)
        rw [hrest, List.cons_append] at hs
        exact hstarBehind ((List.cons.inj hs).1 ▸ List.mem_cons_self)

/-- A line behind its indicator in fixed format. -/
theorem codeOf_iff_of_sequenceArea (harea : sequenceArea line = true)
    (hcomment : indicator line ≠ '*' ∧ indicator line ≠ '/') (hshort : ¬ShortBlank line) :
    (codeOf line).map strip = nonBlank (uncommented (line.drop 7)) ↔ ReadsOwnText 7 line := by
  have hmem : ∀ {c}, c ∈ line.take 7 → c.isDigit = true ∨ c = ' ' ∨ c = indicator line := by
    intro c hc
    by_cases hlength : 6 < line.length
    · exact mem_take_seven harea hlength hc
    · rw [List.take_of_length_le (by omega)] at hc
      rw [sequenceArea, List.take_of_length_le (by omega)] at harea
      have := List.all_eq_true.1 harea c hc
      rw [Bool.or_eq_true, decide_eq_true_eq] at this
      exact this.imp_right .inl
  have hnot : ∀ {d : Char}, d.isDigit = false → d ≠ ' ' → d ≠ indicator line →
      d ∉ line.take 7 := by
    intro d hdigit hblank hindicator hd
    rcases hmem hd with h | h | h
    · rw [hdigit] at h
      exact Bool.noConfusion h
    · exact hblank h
    · exact hindicator h
  have hstar := hnot (by decide : ('*' : Char).isDigit = false) (by decide) (Ne.symm hcomment.1)
  have hslash := hnot (by decide : ('/' : Char).isDigit = false) (by decide) (Ne.symm hcomment.2)
  by_cases hquote : indicator line = '\'' ∨ indicator line = '"'
  · have hlength : 6 < line.length :=
      lt_of_indicator (by rcases hquote with h | h <;> rw [h] <;> decide)
    refine codeOf_iff_of_indicator hlength ?_ ?_ hstar hslash <;>
      rcases hquote with h | h <;> rw [h] <;> decide
  · obtain ⟨hsingle, hdouble⟩ := not_or.1 hquote
    refine codeOf_iff_of_quoteless le_rfl (fun c hc => ⟨?_, ?_⟩) hstar hslash hshort
    · rintro rfl
      exact hnot (by decide) (by decide) (Ne.symm hsingle) hc
    · rintro rfl
      exact hnot (by decide) (by decide) (Ne.symm hdouble) hc

end Line

/-! ### Plain lines -/

/-- A line of which the parser reads nothing. -/
def CommentOnly (line : Text) : Prop :=
  match areaMatch (cleaned line) with
  | some (c, rest) => c = '*' ∨ c = '/' ∨ lstrip rest = [] ∨ (lstrip rest).head? = some '*'
  | none => cleaned line = [] ∨ (cleaned line).head? = some '*'

/-- A line the parser reads as the compiler does.  It is not just one to six blanks, and

* in free format it reads its own text;
* in fixed format it is a comment when columns 1 to 6 hold more than digits and blanks, or column 7
  makes it a comment, or it is a debugging line that is not compiled or is empty, or it reads its
  own text.
-/
def PlainLine (format : Format) (debugging : Bool) (line : Text) : Prop :=
  ¬ShortBlank line ∧
    match format with
    | .free => ReadsOwnText 0 line
    | .fixed =>
        if sequenceArea line = false then CommentOnly line
        else if indicator line = '*' ∨ indicator line = '/' then True
        else if indicator line = 'D' ∨ indicator line = 'd' then
          debugging = true → strip (uncommented (line.drop 7)) = []
        else ReadsOwnText 7 line

theorem codeOf_eq_none {line : Text} : codeOf line = none ↔ CommentOnly line := by
  rw [CommentOnly]
  cases harea : areaMatch (cleaned line) with
  | none => rw [codeOf_of_none harea, kept_eq_none]
  | some pair =>
      obtain ⟨c, rest⟩ := pair
      rw [codeOf_of_some harea]
      by_cases hc : c = '*' ∨ c = '/'
      · simp only [Bool.or_eq_true, decide_eq_true_eq, hc, if_true, true_iff]
        exact hc.imp_right .inl
      · obtain ⟨hstar, hslash⟩ := not_or.1 hc
        simp only [hstar, hslash, decide_false, Bool.or_self, Bool.false_eq_true, if_false,
          kept_eq_none, false_or]

/-- A line of one to six blanks is appended as it is. -/
theorem codeLine_of_shortBlank {format : Format} {line : Text} (h : ShortBlank line) :
    codeLine format line = some line := by
  obtain ⟨hne, hlength, hblank⟩ := h
  have hink := strip_eq_nil_iff.1 hblank
  have hmarker : marker line = none := by
    cases hm : marker line with
    | none => rfl
    | some m =>
        have hstar := (isPrefix_of_marker hm).subset (List.mem_cons_self : '*' ∈ ['*', '>'])
        exact absurd (List.mem_of_mem_drop hstar) (not_mem_of_blank hink (by decide))
  have hcleaned : cleaned line = line := by
    rw [cleaned, stripAreaPrefix, if_pos hlength, cutComment, hmarker]
  have harea : areaMatch (cleaned line) = none := by
    rw [hcleaned, areaMatch, List.drop_eq_nil_of_le hlength]
  have hskipped : skipped line = false := by
    rw [skipped]
    simp [Nat.not_lt.2 hlength]
  have hhead : line.head? ≠ some '*' := fun hstar =>
    not_mem_of_blank hink (by decide) (List.mem_of_mem_head? hstar)
  rw [codeLine, hskipped, Bool.and_false, codeOf_of_none harea, hcleaned]
  exact kept_of_ne hne hhead

theorem programText_ne_nil {format : Format} {debugging : Bool} {line : Text} :
    programText format debugging line ≠ some [] := by
  have hnone : ∀ text, nonBlank text ≠ some [] := fun text h => (nonBlank_eq_some.1 h).2 rfl
  cases format with
  | free => exact hnone _
  | fixed =>
      rw [programText]
      split
      · exact Option.some_ne_none _ ∘ Eq.symm
      · split
        · exact Option.some_ne_none _ ∘ Eq.symm
        · split
          · exact Option.some_ne_none _ ∘ Eq.symm
          · exact hnone _

/-- Exactly the plain lines are read. -/
theorem readsLine_iff {format : Format} {debugging : Bool} {line : Text} :
    ReadsLine format debugging line ↔ PlainLine format debugging line := by
  unfold ReadsLine PlainLine
  by_cases hshort : ShortBlank line
  · rw [codeLine_of_shortBlank hshort, Option.map_some, hshort.2.2]
    exact iff_of_false (Ne.symm programText_ne_nil) fun h => h.1 hshort
  rw [and_iff_right hshort]
  cases format with
  | free =>
      have hfree : (codeOf line).map strip = nonBlank (uncommented (line.drop 0)) ↔
          ReadsOwnText 0 line :=
        codeOf_iff_of_quoteless (by omega) (fun c hc => absurd hc List.not_mem_nil)
          List.not_mem_nil List.not_mem_nil hshort
      exact hfree
  | fixed =>
      cases harea : sequenceArea line with
      | false =>
          have hcode : codeLine .fixed line = codeOf line := by simp [codeLine, skipped, harea]
          have htext : programText .fixed debugging line = none := by simp [programText, harea]
          rw [hcode, htext, Option.map_eq_none_iff, codeOf_eq_none]
          exact Iff.rfl
      | true =>
          by_cases hcomment : indicator line = '*' ∨ indicator line = '/'
          · have htext : programText .fixed debugging line = none := by
              rcases hcomment with h | h <;> simp [programText, harea, h]
            have hcode : codeLine .fixed line = none := by
              have hlength := lt_of_indicator (by rcases hcomment with h | h <;> rw [h] <;> decide)
              rcases hcomment with h | h <;> simp [codeLine, skipped, harea, h, hlength]
            rw [hcode, htext, if_neg Bool.true_eq_false.mp, if_pos hcomment]
            exact iff_of_true rfl trivial
          · obtain ⟨hstar, hslash⟩ := not_or.1 hcomment
            by_cases hdebug : indicator line = 'D' ∨ indicator line = 'd'
            · have hlength := lt_of_indicator (by rcases hdebug with h | h <;> rw [h] <;> decide)
              have hcode : codeLine .fixed line = none := by
                rcases hdebug with h | h <;> simp [codeLine, skipped, harea, h, hlength]
              have htext : programText .fixed debugging line =
                  if debugging then nonBlank (uncommented (line.drop 7)) else none := by
                rcases hdebug with h | h <;> cases debugging <;> simp [programText, harea, h]
              rw [hcode, htext, if_neg Bool.true_eq_false.mp, if_neg hcomment, if_pos hdebug]
              cases debugging with
              | false => simp
              | true => simpa using eq_comm.trans nonBlank_eq_none
            · obtain ⟨hupper, hlower⟩ := not_or.1 hdebug
              have hcode : codeLine .fixed line = codeOf line := by
                simp [codeLine, skipped, hstar, hslash, hupper, hlower]
              have htext : programText .fixed debugging line =
                  nonBlank (uncommented (line.drop 7)) := by
                simp [programText, harea, hstar, hslash, hupper, hlower]
              rw [hcode, htext, if_neg Bool.true_eq_false.mp, if_neg hcomment, if_neg hdebug]
              exact codeOf_iff_of_sequenceArea harea ⟨hstar, hslash⟩ hshort

/-- Exactly the sources of plain lines are read, and their code lines are their program lines. -/
theorem readsProgram_iff (debugging : Bool) (source : Text) :
    (ReadsProgram debugging source ↔
        ∀ line ∈ splitLines (compilerVisibleText source),
          PlainLine (detectSourceFormat source) debugging line) ∧
      ((∀ line ∈ splitLines (compilerVisibleText source),
          PlainLine (detectSourceFormat source) debugging line) →
        (codeLines source).map strip = programLines debugging source) := by
  have hiff : ReadsProgram debugging source ↔
      ∀ line ∈ splitLines (compilerVisibleText source),
        PlainLine (detectSourceFormat source) debugging line :=
    forall₂_congr fun _ _ => readsLine_iff
  exact ⟨hiff, fun h => codeLines_of_readsProgram (hiff.2 h)⟩

/-- A line that goes on with a multiplication is lost, though nothing is wrong with the reference
format. -/
theorem multiplication_lost :
    ¬∀ source : Text, referenceFormatErrors source = [] →
      (codeLines source).map strip = programLines false source := by
  intro h
  exact absurd (h "           COMPUTE A = B\n           * C.".toList (by decide +kernel))
    (by decide +kernel)

end CobolJava.SourceFormat
