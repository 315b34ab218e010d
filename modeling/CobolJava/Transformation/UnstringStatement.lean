/-
**UNSTRING statements.**

How `UNSTRING` is lowered (the branch of `map_cobol_statement` in `cobol_to_java_mapping.py`): the
source is split once, at every occurrence of the delimiter, and then every receiver is assigned its
part.  The local variables of the block are values; a clause that is not written is the empty text.

Main definitions:

* `javaSplit` — `src.split(Pattern.quote(delim), -1)`;
* `mapUnstringStatement` — the lowering;
* `literalToken` — the token that the parser reads of a literal;
* `fields`, `expected` — what COBOL examines of the source, and the state after the statement;
* `FillsReceivers` — the generated block does what the statement does;
* `PlainDelimiter`, `LeftOverBlank`, `ReadsAlike` — when it does so.

Main results:

* `javaSplit_eq` — the parts are the fields, and an empty part where the source is exhausted;
* `delimValue_eq_iff` — the delimiters that are split at as they are written;
* `run_block` — what the block does to the variables;
* `fillsReceivers_iff` — **when the block fills COBOL's receivers and no others**.
-/

import CobolJava.Transformation.StringStatement

set_option autoImplicit false

namespace CobolJava.UnstringVerb

open CobolJava.Transformation (CobolProgram DataItem findDataItem)
open CobolJava.StringVerb (Text Store SendingItem Assignment run substring variableName symbolName)

/-! ### Java -/

/-- The loop of `String.split` over the matches of a quoted pattern. -/
def splitFrom (delim : Text) : ℕ → Text → List Text
  | 0, src => [src]
  | fuel + 1, src =>
      match Py.Chars.find delim src with
      | none => [src]
      | some i => src.take i :: splitFrom delim fuel (src.drop (i + delim.length))

/-- `src.split(Pattern.quote(delim), -1)`: an empty pattern matches behind every character. -/
def javaSplit (delim src : Text) : List Text :=
  if delim = [] then src.map (fun c => [c]) ++ [[]] else splitFrom delim src.length src

/-! ### The lowering -/

/-- An `UnstringStatement`; the source by its characters in a state. -/
structure UnstringStatement where
  source : SendingItem
  delimiter : Text
  targets : List String
  pointer : String
  hasOverflow : Bool
  varyingPointer : String
  tallyingPointer : String

def quotes : Text :=
  ['\'', '"']

/-- `delim_is_literal` -/
def delimIsLiteral (delimiter : Text) : Bool :=
  2 ≤ delimiter.length && decide (delimiter.head? = delimiter.getLast?) &&
    (delimiter.head?).any fun c => quotes.contains c

/-- The reasons for which a statement is refused. -/
def failClosedReasons (stmt : UnstringStatement) : List String :=
  (if stmt.pointer ≠ "" then ["WITH_POINTER"] else []) ++
  (if stmt.tallyingPointer ≠ "" then ["TALLYING_IN"] else []) ++
  (if stmt.hasOverflow then ["ON_OVERFLOW"] else []) ++
  (if stmt.varyingPointer ≠ "" then ["VARYING_IN_" ++ symbolName stmt.varyingPointer] else []) ++
  (if !delimIsLiteral stmt.delimiter ∧ stmt.delimiter ≠ [] then
    ["DELIMITED_BY_IDENTIFIER_" ++ symbolName (String.ofList stmt.delimiter)] else [])

/-- `_unstring_fail_closed_symbol` -/
def unstringFailClosedSymbol (reasons : List String) : String :=
  "UNSUPPORTED_UNSTRING$" ++ "$".intercalate reasons

/-- `width` of a receiver, 0 without a declaration. -/
def receiverWidth (program : CobolProgram) (target : String) : ℕ :=
  match findDataItem program target with
  | some item => item.picLength
  | none => 0

/-- The assignment of the receiver with the index `i`. -/
def receiverAssignment (program : CobolProgram) (parts : List Text) (target : String) (i : ℕ) :
    Assignment :=
  let width := receiverWidth program target
  .text (variableName target) fun _ =>
    if width = 0 then if i < parts.length then parts[i]? else some []
    else if i < parts.length then do
      let part ← parts[i]?
      if width < part.length then substring part 0 width
      else some (part ++ List.replicate (width - part.length) ' ')
    else some (List.replicate width ' ')

/-- The scoped block: the source and its parts are read once, before the assignments. -/
structure SplitBlock where
  source : SendingItem
  delimiter : Text
  assignments : List Text → List Assignment

def SplitBlock.run (block : SplitBlock) (state : Store) : Option Store :=
  StringVerb.run (block.assignments (javaSplit block.delimiter (block.source state))) state

/-- What is generated: nothing but a comment, the assignment of an unresolvable symbol, or the
block. -/
inductive Lowered
  | comment
  | failClosed (target symbol : String)
  | block (block : SplitBlock)

/-- `stmt.delimiter.strip().strip("'\"")` -/
def delimValue (delimiter : Text) : Text :=
  Py.Chars.stripChars quotes (Py.Chars.strip delimiter)

/-- The branch of `map_cobol_statement`. -/
def mapUnstringStatement (stmt : UnstringStatement) (program : CobolProgram) : Lowered :=
  let reasons := failClosedReasons stmt
  match stmt.targets with
  | [] => .comment
  | target :: _ =>
      if reasons ≠ [] then .failClosed (variableName target) (unstringFailClosedSymbol reasons)
      else
        .block ⟨stmt.source, delimValue stmt.delimiter, fun parts =>
          stmt.targets.zipIdx.map fun t => receiverAssignment program parts t.1 t.2⟩

/-! ### What COBOL does -/

/-- The token of the literal of a text (`_STRING_TOKEN_RE`): a quote that is written twice ends it. -/
def literalToken (quote : Char) (text : Text) : Text :=
  quote :: (text.takeWhile (· ≠ quote) ++ [quote])

/-- The statement is `DELIMITED BY` the literal of a text. -/
structure DelimitedBy (stmt : UnstringStatement) (quote : Char) (text : Text) : Prop where
  quote_mem : quote ∈ quotes
  text_ne : text ≠ []
  token : stmt.delimiter = literalToken quote text

/-- The fields of a source, from left to right: there is one as long as characters remain to be
examined, and it ends before the delimiter or with the source. -/
def fieldsFrom (delim : Text) : ℕ → Text → List Text
  | 0, _ => []
  | fuel + 1, src =>
      if src = [] then []
      else
        match Py.Chars.find delim src with
        | none => [src]
        | some i => src.take i :: fieldsFrom delim fuel (src.drop (i + delim.length))

def fields (delim src : Text) : List Text :=
  fieldsFrom delim src.length src

attribute [grind =] splitFrom fieldsFrom

/-- Left-justified in a receiver: cut to its width, or filled with spaces. -/
def fit (width : ℕ) (field : Text) : Text :=
  field.take width ++ List.replicate (width - field.length) ' '

section Receivers

variable (program : CobolProgram)

/-- The receivers get the fields in turn; those beyond the fields keep their values. -/
def fill : List String → List Text → Store → Store
  | t :: ts, f :: fs, state =>
      fill ts fs (state.setText (variableName t) (fit (receiverWidth program t) f))
  | _, _, state => state

/-- The receivers get the fields in turn; those beyond the fields get spaces. -/
def fillSpaced : List String → List Text → Store → Store
  | [], _, state => state
  | t :: ts, fs, state =>
      fillSpaced ts fs.tail
        (state.setText (variableName t) (fit (receiverWidth program t) (fs.head?.getD [])))

attribute [grind =] fill fillSpaced

/-- **The state after the statement** that is delimited by a text. -/
def expected (stmt : UnstringStatement) (text : Text) (state : Store) : Store :=
  fill program stmt.targets (fields text (stmt.source state)) state

/-- **The block fills the receivers as the statement does.** -/
def FillsReceivers (stmt : UnstringStatement) (text : Text) (block : SplitBlock) (state : Store) :
    Prop :=
  block.run state = some (expected program stmt text state)

/-- The delimiter holds no quote of the kind it is written in, and no quote at its ends. -/
def PlainDelimiter (quote : Char) (text : Text) : Prop :=
  quote ∉ text ∧ ∀ c ∈ quotes, text.head? ≠ some c ∧ text.getLast? ≠ some c

instance (quote : Char) (text : Text) : Decidable (PlainDelimiter quote text) :=
  inferInstanceAs (Decidable (_ ∧ _))

/-- The receivers after the point where no characters remain. -/
def leftOver (stmt : UnstringStatement) (text : Text) (state : Store) : List String :=
  stmt.targets.drop (fields text (stmt.source state)).length

/-- **Every receiver that is left over holds spaces**, once the others have their fields. -/
def LeftOverBlank (stmt : UnstringStatement) (text : Text) (state : Store) : Prop :=
  ∀ t ∈ leftOver stmt text state,
    (expected program stmt text state).texts (variableName t) =
      List.replicate (receiverWidth program t) ' '

/-- The fields of a source that is cut at a delimiter without its quotes; without a character in it,
every character is a field. -/
def bareFields (delim src : Text) : List Text :=
  if delim = [] then src.map fun c => [c] else fields delim src

/-- **The delimiter without its quotes cuts the source alike**: what it gives a receiver, or spaces
where it gives none, is what the statement leaves there. -/
def ReadsAlike (stmt : UnstringStatement) (text : Text) (state : Store) : Prop :=
  ∀ t ∈ stmt.targets,
    (fillSpaced program stmt.targets (bareFields (delimValue stmt.delimiter) (stmt.source state))
      state).texts (variableName t) = (expected program stmt text state).texts (variableName t)

/-- The receivers are alphanumeric items. -/
def AlphanumericReceivers (stmt : UnstringStatement) : Prop :=
  ∀ t ∈ stmt.targets, ∃ item, findDataItem program t = some item ∧
    item.picType = .alphanumeric ∧ 0 < item.picLength

/-! ### The delimiter -/

theorem stripChars_eq_iff {quote : Char} {text : Text} :
    Py.Chars.stripChars quotes (text.takeWhile (· ≠ quote)) = text ↔ PlainDelimiter quote text := by
  have hwhole : Py.Chars.stripChars quotes (text.takeWhile (· ≠ quote)) = text ↔
      text.takeWhile (· ≠ quote) = text ∧ text.dropWhile (quotes.contains ·) = text ∧
        text.rdropWhile (quotes.contains ·) = text := by
    constructor
    · -- nothing is cut off where the length is kept
      intro h
      rw [Py.Chars.stripChars] at h
      have hword := List.takeWhile_prefix (· ≠ quote) (l := text)
      have hleft := List.dropWhile_suffix (quotes.contains ·) (l := text.takeWhile (· ≠ quote))
      have hright := List.rdropWhile_prefix (quotes.contains ·)
        (l := (text.takeWhile (· ≠ quote)).dropWhile (quotes.contains ·))
      have hlength := congrArg List.length h
      have hwordLength := hword.length_le
      have hleftLength := hleft.length_le
      have hrightLength := hright.length_le
      have hsame : text.takeWhile (· ≠ quote) = text := hword.eq_of_length (by omega)
      rw [hsame] at hleft hright h hlength hleftLength hrightLength
      have hdrop : text.dropWhile (quotes.contains ·) = text := hleft.eq_of_length (by omega)
      rw [hdrop] at h
      exact ⟨hsame, hdrop, h⟩
    · rintro ⟨hword, hleft, hright⟩
      rw [Py.Chars.stripChars, hword, hleft, hright]
  have hhead : text.dropWhile (quotes.contains ·) = text ↔ ∀ c ∈ quotes, text.head? ≠ some c := by
    cases text with
    | nil => simp
    | cons c rest =>
        rw [List.dropWhile_eq_self_iff]
        simp only [List.head?_cons, ne_eq, Option.some.injEq]
        constructor
        · rintro h d hd rfl
          exact h (by simp) (by simpa using hd)
        · intro h _ hc
          exact h c (by simpa using hc) rfl
  have hlast : text.rdropWhile (quotes.contains ·) = text ↔
      ∀ c ∈ quotes, text.getLast? ≠ some c := by
    rw [List.rdropWhile_eq_self_iff]
    constructor
    · rintro h c hc hlast
      have hne : text ≠ [] := by
        rintro rfl
        cases hlast
      have hend : text.getLast hne = c :=
        Option.some.inj ((List.getLast?_eq_some_getLast hne).symm.trans hlast)
      exact h hne (by simpa [hend] using hc)
    · intro h hne hc
      exact h _ (by simpa using hc) (List.getLast?_eq_some_getLast hne)
  have hword : text.takeWhile (· ≠ quote) = text ↔ quote ∉ text := by
    rw [List.takeWhile_eq_self_iff]
    simp only [decide_eq_true_eq]
    exact ⟨fun h hmem => h quote hmem rfl, fun h c hc heq => h (heq ▸ hc)⟩
  rw [hwhole, hword, hhead, hlast, PlainDelimiter]
  simp only [forall_and]

/-- **The delimiters that are split at as they are written.** -/
theorem delimValue_eq_iff {stmt : UnstringStatement} {quote : Char} {text : Text}
    (h : DelimitedBy stmt quote text) :
    delimValue stmt.delimiter = text ↔ PlainDelimiter quote text := by
  have hspace : Py.isSpace quote = false := by
    have hquote := h.quote_mem
    revert hquote
    simp only [quotes, List.mem_cons, List.not_mem_nil, or_false]
    rintro (rfl | rfl) <;> rfl
  have hcontains : quotes.contains quote = true := by simpa using h.quote_mem
  have hstrip : Py.Chars.strip (literalToken quote text) = literalToken quote text := by
    rw [literalToken, Py.Chars.strip, Py.Chars.lstrip, List.dropWhile_cons_of_neg (by simp [hspace]),
      Py.Chars.rstrip_cons hspace, Py.Chars.rstrip, List.rdropWhile_concat_neg _ _ _ (by simp [hspace])]
  have hquotes : Py.Chars.stripChars quotes (literalToken quote text) =
      Py.Chars.stripChars quotes (text.takeWhile (· ≠ quote)) := by
    rw [Py.Chars.stripChars, Py.Chars.stripChars, literalToken,
      List.dropWhile_cons_of_pos (by simpa using hcontains), List.dropWhile_append]
    split
    · rename_i hnil
      rw [List.isEmpty_iff] at hnil
      rw [hnil, List.dropWhile_cons_of_pos (by simpa using hcontains)]
      rfl
    · exact List.rdropWhile_concat_pos _ _ _ hcontains
  rw [delimValue, h.token, hstrip, hquotes]
  exact stripChars_eq_iff

/-! ### The parts are the fields -/

theorem find_nil {delim : Text} (h : delim ≠ []) : Py.Chars.find delim [] = none := by
  simp [Py.Chars.find, h]

theorem splitFrom_eq {delim : Text} (hdelim : delim ≠ []) {fuel : ℕ} {src : Text}
    (hfuel : src.length ≤ fuel) :
    splitFrom delim fuel src = fieldsFrom delim fuel src ∨
      splitFrom delim fuel src = fieldsFrom delim fuel src ++ [[]] := by
  have hpos := List.length_pos_iff.mpr hdelim
  induction fuel generalizing src with
  | zero =>
      obtain rfl : src = [] := List.length_eq_zero_iff.mp (Nat.le_zero.mp hfuel)
      exact .inr rfl
  | succ fuel ih =>
      by_cases hsrc : src = []
      · subst hsrc
        right
        rw [splitFrom, find_nil hdelim, fieldsFrom, if_pos rfl, List.nil_append]
      · rw [splitFrom, fieldsFrom, if_neg hsrc]
        cases hfind : Py.Chars.find delim src with
        | none => exact .inl rfl
        | some i =>
            have hlength := List.length_pos_iff.mpr hsrc
            have hrest : (src.drop (i + delim.length)).length ≤ fuel := by
              rw [List.length_drop]
              omega
            rcases ih hrest with h | h
            · exact .inl (congrArg _ h)
            · exact .inr (congrArg _ h)

/-- **The parts are the fields**, and one empty part more where the source is exhausted. -/
theorem javaSplit_eq (delim src : Text) :
    javaSplit delim src = bareFields delim src ∨
      javaSplit delim src = bareFields delim src ++ [[]] := by
  by_cases hdelim : delim = []
  · exact .inr (by simp [javaSplit, bareFields, hdelim])
  · rw [javaSplit, bareFields, if_neg hdelim, if_neg hdelim]
    exact splitFrom_eq hdelim le_rfl

theorem fillSpaced_append_nil (ts : List String) (fs : List Text) (state : Store) :
    fillSpaced program ts (fs ++ [[]]) state = fillSpaced program ts fs state := by
  induction ts generalizing fs state with
  | nil => rfl
  | cons t ts ih =>
      cases fs with
      | nil =>
          rw [List.nil_append, fillSpaced, fillSpaced]
          rfl
      | cons f fs =>
          rw [List.cons_append, fillSpaced, fillSpaced]
          exact ih fs _

/-! ### The block -/

theorem run_receiverAssignment {parts : List Text} {target : String} {i : ℕ} {state : Store}
    (hwidth : receiverWidth program target ≠ 0) :
    (receiverAssignment program parts target i).run state =
      some (state.setText (variableName target)
        (fit (receiverWidth program target) (parts[i]?.getD []))) := by
  simp only [receiverAssignment, Assignment.run, hwidth, if_false]
  by_cases hi : i < parts.length
  · rw [List.getElem?_eq_getElem hi]
    simp only [hi, if_true, Option.bind_eq_bind, Option.bind_some, Option.getD_some]
    by_cases hlong : receiverWidth program target < parts[i].length
    · -- a part that is too long is cut
      have hzero : receiverWidth program target - parts[i].length = 0 := by omega
      rw [if_pos hlong, StringVerb.substring_prefix hlong.le, fit, hzero]
      simp
    · have htake : parts[i].take (receiverWidth program target) = parts[i] :=
        List.take_of_length_le (by omega)
      simp [hlong, fit, htake]
  · simp [hi, fit]

theorem run_assignments (parts : List Text) {ts : List String} (k : ℕ) (state : Store)
    (hwidth : ∀ t ∈ ts, receiverWidth program t ≠ 0) :
    run ((ts.zipIdx k).map fun t => receiverAssignment program parts t.1 t.2) state =
      some (fillSpaced program ts (parts.drop k) state) := by
  induction ts generalizing k state with
  | nil => rfl
  | cons t ts ih =>
      have hrest := fun t' ht' => hwidth t' (List.mem_cons_of_mem t ht')
      rw [List.zipIdx_cons, List.map_cons, run, run_receiverAssignment program
        (hwidth t List.mem_cons_self), fillSpaced, List.head?_drop, List.tail_drop]
      simp only [Option.bind_eq_bind, Option.bind_some]
      exact ih (k + 1) _ hrest

variable {program}

theorem block_of_lowered {stmt : UnstringStatement} {block : SplitBlock}
    (h : mapUnstringStatement stmt program = .block block) :
    block = ⟨stmt.source, delimValue stmt.delimiter, fun parts =>
      stmt.targets.zipIdx.map fun t => receiverAssignment program parts t.1 t.2⟩ := by
  rw [mapUnstringStatement] at h
  split at h
  · cases h
  · split at h
    · cases h
    · exact (Lowered.block.inj h).symm

/-- **What the block does to the variables.** -/
theorem run_block {stmt : UnstringStatement} {block : SplitBlock} (state : Store)
    (h : mapUnstringStatement stmt program = .block block)
    (hreceivers : AlphanumericReceivers program stmt) :
    block.run state = some (fillSpaced program stmt.targets
      (bareFields (delimValue stmt.delimiter) (stmt.source state)) state) := by
  have hwidth : ∀ t ∈ stmt.targets, receiverWidth program t ≠ 0 := by
    intro t ht
    obtain ⟨item, hitem, -, hpos⟩ := hreceivers t ht
    rw [receiverWidth, hitem]
    exact hpos.ne'
  obtain rfl := block_of_lowered h
  rw [SplitBlock.run, run_assignments program _ 0 state hwidth, List.drop_zero]
  rcases javaSplit_eq (delimValue stmt.delimiter) (stmt.source state) with hparts | hparts
  · rw [hparts]
  · rw [hparts, fillSpaced_append_nil]

/-! ### The receivers that are left over -/

def blank (program : CobolProgram) (ts : List String) (state : Store) : Store :=
  ts.foldl (fun state t =>
    state.setText (variableName t) (List.replicate (receiverWidth program t) ' ')) state

theorem receiverWidth_eq {t t' : String} (h : variableName t = variableName t') :
    receiverWidth program t = receiverWidth program t' := by
  have hname : Transformation.javaName t = Transformation.javaName t' :=
    String.ofList_injective h
  have hnormal : Transformation.normalizedName t = Transformation.normalizedName t' := by
    rw [Transformation.normalizedName, Transformation.normalizedName, hname]
  rw [receiverWidth, receiverWidth, findDataItem, findDataItem, hnormal]

theorem fillSpaced_eq (ts : List String) (fs : List Text) (state : Store) :
    fillSpaced program ts fs state =
      blank program (ts.drop fs.length) (fill program ts fs state) := by
  induction ts generalizing fs state with
  | nil => cases fs <;> rfl
  | cons t ts ih =>
      cases fs with
      | nil =>
          have hfit : fit (receiverWidth program t) [] =
              List.replicate (receiverWidth program t) ' ' := by simp [fit]
          rw [fillSpaced, List.head?_nil, Option.getD_none, hfit, List.tail_nil, ih]
          cases ts <;> rfl
      | cons f fs =>
          rw [fillSpaced, ih, fill]
          rfl

theorem blank_cons (t : String) (ts : List String) (state : Store) :
    blank program (t :: ts) state =
      blank program ts
        (state.setText (variableName t) (List.replicate (receiverWidth program t) ' ')) := rfl

theorem blank_texts {ts : List String} {t : String} {state : Store}
    (h : t ∈ ts ∨ state.texts (variableName t) = List.replicate (receiverWidth program t) ' ') :
    (blank program ts state).texts (variableName t) =
      List.replicate (receiverWidth program t) ' ' := by
  induction ts generalizing state with
  | nil => exact h.resolve_left List.not_mem_nil
  | cons t' ts ih =>
      rw [blank_cons]
      refine ih ?_
      by_cases hname : variableName t' = variableName t
      · right
        rw [← hname, Store.setText_texts, receiverWidth_eq hname]
      · refine h.imp ?_ ?_
        · intro hmem
          exact (List.mem_cons.mp hmem).resolve_left fun heq => hname (congrArg _ heq.symm)
        · intro htext
          rw [← htext]
          exact Function.update_of_ne (Ne.symm hname) _ _

theorem blank_eq_iff {ts : List String} {state : Store} :
    blank program ts state = state ↔
      ∀ t ∈ ts, state.texts (variableName t) = List.replicate (receiverWidth program t) ' ' := by
  constructor
  · intro h t ht
    have htexts := @blank_texts program ts t state (.inl ht)
    rwa [h] at htexts
  · intro h
    induction ts with
    | nil => rfl
    | cons t ts ih =>
        rw [blank_cons, ← h t List.mem_cons_self, Store.setText_same]
        exact ih fun t' ht' => h t' (List.mem_cons_of_mem t ht')

/-! ### Whatever the delimiter -/

theorem fill_other {ts : List String} {fs : List Text} {state : Store} {v : String}
    (h : ∀ t ∈ ts, variableName t ≠ v) : (fill program ts fs state).texts v = state.texts v := by
  induction ts generalizing fs state with
  | nil => cases fs <;> rfl
  | cons t ts ih =>
      cases fs with
      | nil => rfl
      | cons f fs =>
          rw [fill, ih fun t' ht' => h t' (List.mem_cons_of_mem t ht')]
          exact Function.update_of_ne (h t List.mem_cons_self).symm _ _

theorem fill_ints (ts : List String) (fs : List Text) (state : Store) :
    (fill program ts fs state).ints = state.ints := by
  induction ts generalizing fs state with
  | nil => cases fs <;> rfl
  | cons t ts ih =>
      cases fs with
      | nil => rfl
      | cons f fs => exact ih fs _

theorem fillSpaced_other {ts : List String} {fs : List Text} {state : Store} {v : String}
    (h : ∀ t ∈ ts, variableName t ≠ v) :
    (fillSpaced program ts fs state).texts v = state.texts v := by
  induction ts generalizing fs state with
  | nil => rfl
  | cons t ts ih =>
      rw [fillSpaced, ih fun t' ht' => h t' (List.mem_cons_of_mem t ht')]
      exact Function.update_of_ne (h t List.mem_cons_self).symm _ _

theorem fillSpaced_ints (ts : List String) (fs : List Text) (state : Store) :
    (fillSpaced program ts fs state).ints = state.ints := by
  induction ts generalizing fs state with
  | nil => rfl
  | cons t ts ih => exact ih fs.tail _

/-- **When the block fills COBOL's receivers and no others**: for a delimiter without quotes at its
ends and of its own kind, exactly if what is left over is blank; for any other delimiter, if the text
that is left of it cuts the source alike. -/
theorem fillsReceivers_iff {stmt : UnstringStatement} {quote : Char} {text : Text}
    {block : SplitBlock} {state : Store} (hdelimiter : DelimitedBy stmt quote text)
    (hblock : mapUnstringStatement stmt program = .block block)
    (hreceivers : AlphanumericReceivers program stmt) :
    FillsReceivers program stmt text block state ↔
      if PlainDelimiter quote text then LeftOverBlank program stmt text state
      else ReadsAlike program stmt text state := by
  rw [FillsReceivers, run_block state hblock hreceivers, Option.some.injEq]
  by_cases hplain : PlainDelimiter quote text
  · have hvalue := (delimValue_eq_iff hdelimiter).2 hplain
    rw [if_pos hplain, hvalue, bareFields, if_neg hdelimiter.text_ne, fillSpaced_eq]
    exact blank_eq_iff
  · rw [if_neg hplain]
    constructor
    · intro h t _
      exact congrArg (fun after => after.texts (variableName t)) h
    · intro h
      -- the two stores agree in the receivers, and nothing else is written
      have htexts : ∀ v, (fillSpaced program stmt.targets
          (bareFields (delimValue stmt.delimiter) (stmt.source state)) state).texts v =
          (expected program stmt text state).texts v := by
        intro v
        by_cases hv : ∃ t ∈ stmt.targets, variableName t = v
        · obtain ⟨t, ht, rfl⟩ := hv
          exact h t ht
        · have hother : ∀ t ∈ stmt.targets, variableName t ≠ v := by simpa using hv
          rw [fillSpaced_other hother, expected, fill_other hother]
      have hints := (@fillSpaced_ints program stmt.targets
        (bareFields (delimValue stmt.delimiter) (stmt.source state)) state).trans
        (@fill_ints program stmt.targets (fields text (stmt.source state)) state).symm
      exact congrArg₂ Store.mk (funext htexts) hints

end Receivers

/-! ### A source that is exhausted -/

/-- `01 FIRST-PART PIC X.` and `01 SECOND-PART PIC X.` -/
def twoParts : CobolProgram :=
  ⟨[⟨"FIRST-PART", .alphanumeric, 1, 0, false, [], false⟩,
    ⟨"SECOND-PART", .alphanumeric, 1, 0, false, [], false⟩], [], []⟩

/-- `UNSTRING 'A' DELIMITED BY ',' INTO` some receivers. -/
def unstringA (targets : List String) : UnstringStatement :=
  ⟨fun _ => ['A'], ['\'', ',', '\''], targets, "", false, "", ""⟩

def blockOf (stmt : UnstringStatement) (program : CobolProgram) : SplitBlock :=
  ⟨stmt.source, delimValue stmt.delimiter, fun parts =>
    stmt.targets.zipIdx.map fun t => receiverAssignment program parts t.1 t.2⟩

theorem unstringA_delimited (targets : List String) :
    DelimitedBy (unstringA targets) '\'' [','] :=
  ⟨by decide, by decide, rfl⟩

theorem unstringA_lowered (target : String) (targets : List String) :
    mapUnstringStatement (unstringA (target :: targets)) twoParts =
      .block (blockOf (unstringA (target :: targets)) twoParts) := by
  have hreasons : failClosedReasons (unstringA (target :: targets)) = [] := by
    have hliteral : delimIsLiteral ['\'', ',', '\''] = true := by decide
    simp [failClosedReasons, unstringA, hliteral]
  rw [mapUnstringStatement, hreasons]
  rfl

theorem unstringA_receivers {targets : List String}
    (h : ∀ t ∈ targets, t = "FIRST-PART" ∨ t = "SECOND-PART") :
    AlphanumericReceivers twoParts (unstringA targets) := by
  intro t ht
  obtain rfl | rfl := h t ht
  · exact ⟨⟨"FIRST-PART", .alphanumeric, 1, 0, false, [], false⟩, by decide, rfl, by decide⟩
  · exact ⟨⟨"SECOND-PART", .alphanumeric, 1, 0, false, [], false⟩, by decide, rfl, by decide⟩

/-- The block does not leave the receivers alone that get no field: `SECOND-PART` held `Z`. -/
theorem not_fillsReceivers : ¬∀ (program : CobolProgram) (stmt : UnstringStatement) (quote : Char)
    (text : Text) (block : SplitBlock) (state : Store), DelimitedBy stmt quote text →
      mapUnstringStatement stmt program = .block block → AlphanumericReceivers program stmt →
        FillsReceivers program stmt text block state := by
  intro hall
  have hreceivers : AlphanumericReceivers twoParts (unstringA ["FIRST-PART", "SECOND-PART"]) :=
    unstringA_receivers (by simp)
  have hfills := hall twoParts _ _ _ _ ⟨fun _ => ['Z'], fun _ => 0⟩ (unstringA_delimited _)
    (unstringA_lowered _ _) hreceivers
  rw [FillsReceivers, run_block _ (unstringA_lowered _ _) hreceivers, Option.some.injEq] at hfills
  have htexts := congrArg (fun after => after.texts "SECOND_PART") hfills
  exact absurd htexts (by decide)

/-- One receiver takes the whole source. -/
theorem fillsReceivers_iff_one :
    FillsReceivers twoParts (unstringA ["FIRST-PART"]) [',']
      (blockOf (unstringA ["FIRST-PART"]) twoParts) ⟨fun _ => ['Z'], fun _ => 0⟩ := by
  refine (fillsReceivers_iff (unstringA_delimited _) (unstringA_lowered _ _)
    (unstringA_receivers (by simp))).2 ?_
  have hnone : leftOver (unstringA ["FIRST-PART"]) [','] ⟨fun _ => ['Z'], fun _ => 0⟩ = [] := by
    decide
  rw [if_pos (by decide), LeftOverBlank, hnone]
  exact fun t ht => absurd ht List.not_mem_nil

end CobolJava.UnstringVerb
