/-
**STRING statements.**

How `STRING` is lowered (`_string_phrase_java`, `_string_receiver_statements` and
`_string_receiver_truncate_statements` of `cobol_to_java_mapping.py`): up to three Java assignments,
each evaluated in the state that the one before it leaves.  A Java expression is the function that
evaluates it, `none` where it throws; the text of a sending item may depend on every variable.

Main definitions:

* `Store`, `Assignment`, `run` — the variables of the program, and the generated statements;
* `stringReceiverStatements`, `mapStringStatement` — the lowering;
* `sendingText`, `written`, `expected` — what COBOL transfers, and the state after the statement;
* `WritesWindow` — the assignments do what the statement does.

Main results:

* `run_plain`, `run_pointer` — what the assignments do to the variables;
* `writesWindow_iff` — **when the assignments write the window of the statement**.
-/

import CobolJava.Lib.JavaText
import CobolJava.Lib.PyInk
import CobolJava.Transformation.JavaIr

set_option autoImplicit false

namespace CobolJava.StringVerb

open CobolJava.Transformation (CobolProgram findDataItem javaName normalizedName)

abbrev Text := List Char

/-! ### Java -/

/-- The variables of type `String`, and those of type `int`. -/
structure Store where
  texts : String → Text
  ints : String → ℤ

namespace Store

def setText (state : Store) (name : String) (text : Text) : Store :=
  { state with texts := Function.update state.texts name text }

def setInt (state : Store) (name : String) (number : ℤ) : Store :=
  { state with ints := Function.update state.ints name number }

@[simp] theorem setText_texts (state : Store) (name : String) (text : Text) :
    (state.setText name text).texts name = text := by
  simp [setText]

@[simp] theorem setText_ints (state : Store) (name : String) (text : Text) :
    (state.setText name text).ints = state.ints := rfl

@[simp] theorem setInt_texts (state : Store) (name : String) (number : ℤ) :
    (state.setInt name number).texts = state.texts := rfl

@[simp] theorem setInt_ints (state : Store) (name : String) (number : ℤ) :
    (state.setInt name number).ints name = number := by
  simp [setInt]

@[simp] theorem setText_same (state : Store) (name : String) :
    state.setText name (state.texts name) = state := by
  simp [setText]

@[simp] theorem setInt_same (state : Store) (name : String) :
    state.setInt name (state.ints name) = state := by
  simp [setInt]

@[simp] theorem setText_setText (state : Store) (name : String) (text text' : Text) :
    (state.setText name text).setText name text' = state.setText name text' := by
  simp [setText]

theorem setInt_setText (state : Store) (name pointer : String) (text : Text) (number : ℤ) :
    (state.setInt pointer number).setText name text =
      (state.setText name text).setInt pointer number := rfl

end Store

/-- A Java expression by its value, if it does not throw. -/
abbrev Expression (α : Type) := Store → Option α

/-- `s.indexOf(p)` -/
def indexOf (s p : Text) : ℤ :=
  match Py.Chars.find p s with
  | some i => i
  | none => -1

/-- `s.substring(start, stop)` -/
def substring (s : Text) (start stop : ℤ) : Option Text :=
  if 0 ≤ start ∧ 0 ≤ stop then Java.substring s start.toNat stop.toNat else none

/-- `s.substring(start)` -/
def substringFrom (s : Text) (start : ℤ) : Option Text :=
  substring s start s.length

/-- `String.format("%-" + width + "s", s)`: no other width than a positive one is a format. -/
def formatLeft (width : ℤ) (s : Text) : Option Text :=
  if 1 ≤ width then some (s ++ List.replicate (width.toNat - s.length) ' ') else none

/-- A `JavaStringConcat`. -/
def concat (parts : List (Expression Text)) : Expression Text := fun state => do
  let texts ← parts.mapM fun part => part state
  some texts.flatten

/-- A `JavaAssignment`. -/
inductive Assignment
  | text (target : String) (expression : Expression Text)
  | int (target : String) (expression : Expression ℤ)

def Assignment.run : Assignment → Store → Option Store
  | .text target expression, state => do some (state.setText target (← expression state))
  | .int target expression, state => do some (state.setInt target (← expression state))

/-- Assignments, one after the other. -/
def run : List Assignment → Store → Option Store
  | [], state => some state
  | first :: rest, state => do run rest (← first.run state)

/-! ### The lowering -/

/-- An entry of `delimiter_exprs`. -/
inductive Delimiter
  | size
  | space
  | literal (text : Text)
  | identifier (name : String)

/-- A sending item by its characters in a state (`_string_source_text`). -/
abbrev SendingItem := Store → Text

/-- A `StringStatement`; a clause that is not written is the empty text. -/
structure StringStatement where
  parts : List SendingItem
  delimiterExprs : List Delimiter
  target : String
  pointer : String
  hasOverflow : Bool
  varyingPointer : String

/-- `src.substring(0, src.indexOf(delim) >= 0 ? src.indexOf(delim) : src.length())` -/
def prefixBefore (src : Expression Text) (delim : Text) : Expression Text := fun state => do
  let text ← src state
  let idx := indexOf text delim
  substring text 0 (if 0 ≤ idx then idx else text.length)

/-- `_string_phrase_java` -/
def stringPhraseJava (src : Expression Text) : Delimiter → Expression Text
  | .size => src
  | .space => prefixBefore src [' ']
  | .literal delim => prefixBefore src delim
  | .identifier _ => src

/-- `_string_receiver_width` -/
def stringReceiverWidth (program : CobolProgram) (target : String) : Option ℕ :=
  match findDataItem program target with
  | some item => if item.picLength ≤ 0 then none else some item.picLength
  | none => none

/-- `_string_receiver_truncate_statements` -/
def stringReceiverTruncateStatements (target : String) : Option ℕ → List Assignment
  | none => []
  | some width =>
      [.text target fun state =>
        substring (state.texts target) 0 (min ((state.texts target).length : ℤ) width)]

/-- `name.replace("-", "_")` -/
def variableName (name : String) : String :=
  String.ofList (javaName name)

/-- `name.upper().replace("-", "_")` -/
def symbolName (name : String) : String :=
  String.ofList (normalizedName name)

/-- The reasons for which a statement is refused. -/
def failClosedReasons (stmt : StringStatement) (delims : List Delimiter)
    (program : CobolProgram) : List String :=
  (delims.filterMap fun
    | .identifier name => some ("DELIMITED_BY_IDENTIFIER_" ++ symbolName name)
    | _ => none) ++
  (if stmt.hasOverflow then ["OVERFLOW"] else []) ++
  (if stmt.varyingPointer ≠ "" then ["VARYING_IN_" ++ symbolName stmt.varyingPointer] else []) ++
  (if stmt.pointer = "" then []
  else match findDataItem program stmt.pointer with
    | some item => if !item.isNumeric || item.decimalPlaces > 0 then ["NON_INTEGER_POINTER"] else []
    | none => [])

/-- `_string_fail_closed_symbol` -/
def stringFailClosedSymbol (reasons : List String) : String :=
  "UNSUPPORTED_STRING$" ++ "$".intercalate reasons

/-- The assignment of a statement without a pointer:
`built + target.substring(min(target.length(), built.length()))`. -/
def plainWrite (target : String) (built : Expression Text) : Assignment :=
  .text target fun state => do
    let text ← built state
    let tail ← substringFrom (state.texts target)
      (min ((state.texts target).length : ℤ) text.length)
    some (text ++ tail)

/-- The assignments of a pointer whose receiver has no width. -/
def unboundedWrite (target pointer : String) (built : Expression Text) : List Assignment :=
  [.int pointer fun state => some (max 1 (state.ints pointer)),
   .text target fun state => do
    let start := state.ints pointer - 1
    let padded ← formatLeft start (state.texts target)
    let head ← substring padded 0 start
    let text ← built state
    let tail ← substringFrom padded (min (padded.length : ℤ) (start + text.length))
    some (head ++ text ++ tail),
   .int pointer fun state => do some (state.ints pointer + (← built state).length)]

/-- `in_range` -/
def inRange (pointer : String) (width : ℕ) (state : Store) : Bool :=
  1 ≤ state.ints pointer && state.ints pointer ≤ width + 1

def pointerWrite (target pointer : String) (width : ℕ) (built : Expression Text) : Assignment :=
  .text target fun state =>
    if inRange pointer width state then do
      let old := state.texts target
      let start := state.ints pointer - 1
      let head ← substring old 0 (min (old.length : ℤ) start)
      let text ← built state
      let tail ← substringFrom old (min (old.length : ℤ) (start + text.length))
      some (head ++ text ++ tail)
    else some (state.texts target)

def pointerAdvance (pointer : String) (width : ℕ) (built : Expression Text) : Assignment :=
  .int pointer fun state =>
    if inRange pointer width state then do
      some (min (state.ints pointer + (← built state).length) (width + 1))
    else some (state.ints pointer)

/-- `built`: the phrases, concatenated. -/
def builtOf : List (Expression Text) → Expression Text
  | [phrase] => phrase
  | phrases => concat phrases

/-- `_string_receiver_statements`: the fail-closed symbol, or the assignments. -/
def stringReceiverStatements (stmt : StringStatement) (target : String)
    (sources : List (Expression Text)) (delims : List Delimiter)
    (program : CobolProgram) : Except String (List Assignment) :=
  let reasons := failClosedReasons stmt delims program
  if reasons ≠ [] then .error (stringFailClosedSymbol reasons)
  else
    let built := builtOf (List.zipWith stringPhraseJava sources delims)
    let width := stringReceiverWidth program target
    if stmt.pointer = "" then
      .ok (plainWrite target built :: stringReceiverTruncateStatements target width)
    else
      let pointer := variableName stmt.pointer
      match width with
      | none => .ok (unboundedWrite target pointer built)
      | some n =>
          .ok (pointerWrite target pointer n built :: pointerAdvance pointer n built ::
            stringReceiverTruncateStatements target width)

/-- The delimiters of the sending items; without any, every item is delimited by its size. -/
def delimsOf (stmt : StringStatement) : List Delimiter :=
  if stmt.delimiterExprs = [] then List.replicate stmt.parts.length .size else stmt.delimiterExprs

/-- The branch of `map_cobol_statement`. -/
def mapStringStatement (stmt : StringStatement) (program : CobolProgram) :
    Except String (List Assignment) :=
  if stmt.target = "" ∨ stmt.parts = [] then .ok []
  else
    stringReceiverStatements stmt (variableName stmt.target)
      (stmt.parts.map fun part state => some (part state)) (delimsOf stmt) program

/-! ### What COBOL transfers -/

/-- The characters before the first occurrence of a delimiter, or all of them. -/
def upTo (delim text : Text) : Text :=
  match Py.Chars.find delim text with
  | some i => text.take i
  | none => text

/-- The characters that a sending item contributes. -/
def sent : Delimiter → Text → Text
  | .size, text => text
  | .space, text => upTo [' '] text
  | .literal delim, text => upTo delim text
  | .identifier _, text => text

/-- The text that a statement transfers, read in a state. -/
def sendingText (stmt : StringStatement) (state : Store) : Text :=
  (List.zipWith (fun part delim => sent delim (part state)) stmt.parts (delimsOf stmt)).flatten

/-- The position at which the transfer starts. -/
def startPosition (stmt : StringStatement) (state : Store) : ℤ :=
  if stmt.pointer = "" then 1 else state.ints (variableName stmt.pointer)

/-- The receiver after `text` is written from the index `k` on: what does not fit is dropped. -/
def written (old text : Text) (k : ℕ) : Text :=
  old.take k ++ text.take (old.length - k) ++ old.drop (k + text.length)

/-- The start lies in the receiver, or just behind it. -/
def StartsInside (stmt : StringStatement) (state : Store) : Prop :=
  1 ≤ startPosition stmt state ∧
    startPosition stmt state ≤ (state.texts (variableName stmt.target)).length + 1

instance (stmt : StringStatement) (state : Store) : Decidable (StartsInside stmt state) :=
  inferInstanceAs (Decidable (_ ∧ _))

/-- The value of the pointer after a sending text of `length` characters. -/
def advanced (stmt : StringStatement) (state : Store) (length : ℕ) : ℤ :=
  min (startPosition stmt state + length) ((state.texts (variableName stmt.target)).length + 1)

def expected (stmt : StringStatement) (state : Store) : Store :=
  if StartsInside stmt state then
    let target := variableName stmt.target
    let text := sendingText stmt state
    let after := state.setText target
      (written (state.texts target) text (startPosition stmt state - 1).toNat)
    if stmt.pointer = "" then after
    else after.setInt (variableName stmt.pointer) (advanced stmt state text.length)
  else state

/-- The assignments lead to the state after the statement. -/
def WritesWindow (stmt : StringStatement) (statements : List Assignment) (state : Store) : Prop :=
  run statements state = some (expected stmt state)

/-- The state between the first assignment and the last: the receiver is written over, and not yet
clipped. -/
def overwritten (stmt : StringStatement) (state : Store) : Store :=
  let target := variableName stmt.target
  let old := state.texts target
  let text := sendingText stmt state
  let k := (startPosition stmt state - 1).toNat
  state.setText target (old.take k ++ text ++ old.drop (k + text.length))

/-- Read from the receiver that is written over, the sending text takes the pointer to the same
position. -/
def KeepsPosition (stmt : StringStatement) (state : Store) : Prop :=
  advanced stmt state (sendingText stmt (overwritten stmt state)).length =
    advanced stmt state (sendingText stmt state).length

/-! ### Splices -/

section Splices

variable {old text : Text} {k : ℕ}

@[simp] theorem length_written (h : k ≤ old.length) : (written old text k).length = old.length := by
  simp only [written, List.length_append, List.length_take, List.length_drop]
  omega

theorem take_overwritten (h : k ≤ old.length) :
    (old.take k ++ text ++ old.drop (k + text.length)).take old.length = written old text k := by
  have hhead : (old.take k).length = k := List.length_take_of_le h
  rw [List.append_assoc, List.take_append, hhead, List.take_of_length_le (by omega), written,
    List.append_assoc, List.take_append]
  congr 2
  rw [List.take_of_length_le]
  simp only [List.length_drop]
  omega

theorem drop_min (m : ℕ) : old.drop (min old.length m) = old.drop m := by
  by_cases h : m ≤ old.length
  · rw [min_eq_right h]
  · rw [min_eq_left (by omega), List.drop_length, List.drop_of_length_le (by omega)]

end Splices

/-! ### Expressions -/

theorem substring_eq {s : Text} {start stop : ℕ} (h : start ≤ stop) (hs : stop ≤ s.length) :
    substring s start stop = some ((s.drop start).take (stop - start)) := by
  simp [substring, Java.substring, h, hs]

theorem substring_prefix {s : Text} {stop : ℕ} (h : stop ≤ s.length) :
    substring s 0 stop = some (s.take stop) := by
  simpa using substring_eq (Nat.zero_le stop) h

theorem substringFrom_eq {s : Text} {start : ℕ} (h : start ≤ s.length) :
    substringFrom s start = some (s.drop start) := by
  rw [substringFrom, substring_eq h le_rfl, List.take_of_length_le]
  simp

theorem prefixBefore_eq (part : SendingItem) (delim : Text) (state : Store) :
    prefixBefore (fun state => some (part state)) delim state =
      some (upTo delim (part state)) := by
  cases hfind : Py.Chars.find delim (part state) with
  | none =>
      have hwhole := substring_prefix (le_refl (part state).length)
      simpa [prefixBefore, indexOf, upTo, hfind] using hwhole
  | some i =>
      have hprefix := substring_prefix (Py.Chars.le_length_of_find hfind)
      simpa [prefixBefore, indexOf, upTo, hfind] using hprefix

theorem stringPhraseJava_eq (part : SendingItem) (delim : Delimiter) (state : Store) :
    stringPhraseJava (fun state => some (part state)) delim state =
      some (sent delim (part state)) := by
  cases delim with
  | size => rfl
  | space => exact prefixBefore_eq part [' '] state
  | literal delim => exact prefixBefore_eq part delim state
  | identifier name => rfl

theorem mapM_phrases (parts : List SendingItem) (delims : List Delimiter) (state : Store) :
    (List.zipWith stringPhraseJava (parts.map fun part state => some (part state)) delims).mapM
        (fun phrase => phrase state) =
      some (List.zipWith (fun part delim => sent delim (part state)) parts delims) := by
  induction parts generalizing delims with
  | nil => simp
  | cons part parts ih =>
      cases delims with
      | nil => simp
      | cons delim delims =>
          simp only [List.map_cons, List.zipWith_cons_cons, List.mapM_cons,
            stringPhraseJava_eq part delim state, ih delims]
          rfl

theorem builtOf_eq {phrases : List (Expression Text)} {state : Store} {texts : List Text}
    (h : phrases.mapM (fun phrase => phrase state) = some texts) :
    builtOf phrases state = some texts.flatten := by
  match phrases, h with
  | [], h =>
      obtain rfl : [] = texts := by simpa using h
      rfl
  | [phrase], h =>
      obtain ⟨text, htext, rfl⟩ : ∃ text, phrase state = some text ∧ [text] = texts := by
        simpa [Option.bind_eq_some_iff] using h
      simpa [builtOf] using htext
  | _ :: _ :: _, h => simp [builtOf, concat, h]

/-! ### Runs of the assignments -/

section Runs

variable {target pointer : String} {width : ℕ} {built : Expression Text} {state : Store}
  {text text' : Text}

theorem run_truncate (target : String) (width : ℕ) (state : Store) :
    run (stringReceiverTruncateStatements target (some width)) state =
      some (state.setText target ((state.texts target).take width)) := by
  have hclip : substring (state.texts target) 0 (min ((state.texts target).length : ℤ) width) =
      some ((state.texts target).take width) := by
    rw [← Nat.cast_min, substring_prefix (min_le_left _ _), min_comm, ← List.take_eq_take_min]
  simp [run, stringReceiverTruncateStatements, Assignment.run, hclip]

theorem run_plain (hbuilt : built state = some text)
    (hwidth : (state.texts target).length = width) :
    run (plainWrite target built :: stringReceiverTruncateStatements target (some width)) state =
      some (state.setText target (written (state.texts target) text 0)) := by
  have htail : substringFrom (state.texts target)
      (min ((state.texts target).length : ℤ) text.length) =
        some ((state.texts target).drop text.length) := by
    rw [← Nat.cast_min, substringFrom_eq (min_le_left _ _), drop_min]
  have hfirst : (plainWrite target built).run state =
      some (state.setText target (text ++ (state.texts target).drop text.length)) := by
    simp [plainWrite, Assignment.run, hbuilt, htail]
  have hclip : (text ++ (state.texts target).drop text.length).take width =
      written (state.texts target) text 0 := by
    have htake := @take_overwritten _ text _ (Nat.zero_le (state.texts target).length)
    simpa [hwidth] using htake
  rw [run, hfirst]
  simp [run_truncate, hclip]

/-- A pointer inside the range: the advance reads the text from the receiver written over. -/
theorem run_pointer {k : ℕ} (hk : state.ints pointer = k + 1) (hkw : k ≤ width)
    (hwidth : (state.texts target).length = width) (hbuilt : built state = some text)
    (hagain : built (state.setText target
      ((state.texts target).take k ++ text ++ (state.texts target).drop (k + text.length))) =
        some text') :
    run (pointerWrite target pointer width built :: pointerAdvance pointer width built ::
        stringReceiverTruncateStatements target (some width)) state =
      some ((state.setText target (written (state.texts target) text k)).setInt pointer
        (min (state.ints pointer + text'.length) (width + 1))) := by
  have hrange : inRange pointer width state = true := by
    simp only [inRange, hk, Bool.and_eq_true, decide_eq_true_eq]
    omega
  have hhead : substring (state.texts target) 0
      (min ((state.texts target).length : ℤ) (state.ints pointer - 1)) =
        some ((state.texts target).take k) := by
    rw [hk, add_sub_cancel_right, ← Nat.cast_min, min_eq_right (by omega),
      substring_prefix (by omega)]
  have htail : substringFrom (state.texts target)
      (min ((state.texts target).length : ℤ) (state.ints pointer - 1 + text.length)) =
        some ((state.texts target).drop (k + text.length)) := by
    rw [hk, add_sub_cancel_right, ← Nat.cast_add, ← Nat.cast_min,
      substringFrom_eq (min_le_left _ _), drop_min]
  have hwrite : (pointerWrite target pointer width built).run state = some (state.setText target
      ((state.texts target).take k ++ text ++ (state.texts target).drop (k + text.length))) := by
    simp only [pointerWrite, Assignment.run, hrange, if_true, hhead, hbuilt,
      Option.bind_eq_bind, Option.bind_some, htail]
  -- The pointer is the same in the state between, the receiver is not.
  have hadvance : ∀ between : Store, between.ints = state.ints → built between = some text' →
      (pointerAdvance pointer width built).run between =
        some (between.setInt pointer (min (state.ints pointer + text'.length) (width + 1))) := by
    intro between hints hbetween
    have hrange' : inRange pointer width between = true := by rwa [inRange, hints]
    simp [pointerAdvance, Assignment.run, hrange', hbetween, hints]
  rw [run, hwrite, Option.bind_eq_bind, Option.bind_some, run,
    hadvance _ (Store.setText_ints _ _ _) hagain, Option.bind_eq_bind, Option.bind_some,
    run_truncate]
  have hclip := @take_overwritten _ text _ (hkw.trans hwidth.ge)
  rw [hwidth] at hclip
  simp only [Store.setInt_texts, Store.setText_texts, hclip, Store.setInt_setText,
    Store.setText_setText]

theorem run_outside (hrange : inRange pointer width state = false)
    (hwidth : (state.texts target).length = width) :
    run (pointerWrite target pointer width built :: pointerAdvance pointer width built ::
        stringReceiverTruncateStatements target (some width)) state = some state := by
  have hwrite : (pointerWrite target pointer width built).run state = some state := by
    simp [pointerWrite, Assignment.run, hrange]
  have hadvance : (pointerAdvance pointer width built).run state = some state := by
    simp [pointerAdvance, Assignment.run, hrange]
  rw [run, hwrite, Option.bind_eq_bind, Option.bind_some, run, hadvance, Option.bind_eq_bind,
    Option.bind_some, run_truncate, ← hwidth]
  simp

end Runs

/-! ### The window -/

/-- A statement that is lowered onto a receiver of its declared width. -/
structure Lowered (stmt : StringStatement) (program : CobolProgram) (statements : List Assignment)
    (state : Store) : Prop where
  named : stmt.target ≠ ""
  lowered : mapStringStatement stmt program = .ok statements
  receiver : ∃ item, findDataItem program (variableName stmt.target) = some item ∧
    0 < item.picLength ∧ (state.texts (variableName stmt.target)).length = item.picLength

section Window

variable {stmt : StringStatement} {program : CobolProgram} {statements : List Assignment}
  {state : Store}

/-- The concatenation of the phrases of a statement. -/
def builtText (stmt : StringStatement) : Expression Text :=
  builtOf (List.zipWith stringPhraseJava (stmt.parts.map fun part state => some (part state))
    (delimsOf stmt))

theorem builtText_eq (stmt : StringStatement) (state : Store) :
    builtText stmt state = some (sendingText stmt state) :=
  builtOf_eq (mapM_phrases stmt.parts (delimsOf stmt) state)

/-- The three shapes of the lowering onto a receiver with a width. -/
theorem Lowered.cases (h : Lowered stmt program statements state) :
    stmt.parts = [] ∧ statements = [] ∨
    stmt.pointer = "" ∧ statements = plainWrite (variableName stmt.target) (builtText stmt) ::
      stringReceiverTruncateStatements (variableName stmt.target)
        (some (state.texts (variableName stmt.target)).length) ∨
    stmt.pointer ≠ "" ∧ statements =
      pointerWrite (variableName stmt.target) (variableName stmt.pointer)
        (state.texts (variableName stmt.target)).length (builtText stmt) ::
      pointerAdvance (variableName stmt.pointer)
        (state.texts (variableName stmt.target)).length (builtText stmt) ::
      stringReceiverTruncateStatements (variableName stmt.target)
        (some (state.texts (variableName stmt.target)).length) := by
  obtain ⟨item, hitem, hpos, hlength⟩ := h.receiver
  have hwidth : stringReceiverWidth program (variableName stmt.target) =
      some (state.texts (variableName stmt.target)).length := by
    rw [stringReceiverWidth, hitem, hlength]
    exact if_neg (by omega)
  have hlowered := h.lowered
  rw [mapStringStatement] at hlowered
  split at hlowered
  · rename_i hnone
    exact .inl ⟨hnone.resolve_left h.named, (Except.ok.inj hlowered).symm⟩
  rw [stringReceiverStatements] at hlowered
  split at hlowered
  · exact nomatch hlowered
  rw [hwidth] at hlowered
  split at hlowered
  · rename_i hpointer
    exact .inr (.inl ⟨hpointer, (Except.ok.inj hlowered).symm⟩)
  · rename_i hpointer
    exact .inr (.inr ⟨hpointer, (Except.ok.inj hlowered).symm⟩)

theorem startsInside_of_plain (hpointer : stmt.pointer = "") (state : Store) :
    StartsInside stmt state := by
  simp only [StartsInside, startPosition, hpointer, if_true]
  omega

theorem StartsInside.exists_index (hpointer : stmt.pointer ≠ "") (hin : StartsInside stmt state) :
    ∃ k : ℕ, state.ints (variableName stmt.pointer) = k + 1 ∧
      k ≤ (state.texts (variableName stmt.target)).length ∧
      (startPosition stmt state - 1).toNat = k := by
  obtain ⟨hlow, hhigh⟩ := hin
  simp only [startPosition, if_neg hpointer] at hlow hhigh ⊢
  exact ⟨(state.ints (variableName stmt.pointer) - 1).toNat, by omega, by omega, rfl⟩

theorem inRange_iff (hpointer : stmt.pointer ≠ "") :
    inRange (variableName stmt.pointer) (state.texts (variableName stmt.target)).length state =
      true ↔ StartsInside stmt state := by
  simp [inRange, StartsInside, startPosition, hpointer]

/-- What the assignments of a pointer inside the range do. -/
theorem run_inside (hpointer : stmt.pointer ≠ "") (hin : StartsInside stmt state) :
    run (pointerWrite (variableName stmt.target) (variableName stmt.pointer)
        (state.texts (variableName stmt.target)).length (builtText stmt) ::
      pointerAdvance (variableName stmt.pointer)
        (state.texts (variableName stmt.target)).length (builtText stmt) ::
      stringReceiverTruncateStatements (variableName stmt.target)
        (some (state.texts (variableName stmt.target)).length)) state =
      some ((state.setText (variableName stmt.target)
          (written (state.texts (variableName stmt.target)) (sendingText stmt state)
            (startPosition stmt state - 1).toNat)).setInt (variableName stmt.pointer)
        (advanced stmt state (sendingText stmt (overwritten stmt state)).length)) := by
  obtain ⟨k, hk, hkw, hindex⟩ := hin.exists_index hpointer
  have hagain := builtText_eq stmt (overwritten stmt state)
  simp only [overwritten, hindex] at hagain
  rw [run_pointer hk hkw rfl (builtText_eq stmt state) hagain, hindex, advanced, startPosition,
    if_neg hpointer]
  simp [overwritten, hindex]

theorem expected_of_empty (hparts : stmt.parts = []) : expected stmt state = state := by
  have htext : sendingText stmt state = [] := by simp [sendingText, hparts]
  rw [expected]
  split
  · rename_i hin
    obtain ⟨hlow, hhigh⟩ := hin
    have hwritten : ∀ k, written (state.texts (variableName stmt.target)) [] k =
        state.texts (variableName stmt.target) := by
      intro k
      simp [written]
    have hadvanced : advanced stmt state 0 = startPosition stmt state := by
      rw [advanced]
      omega
    by_cases hpointer : stmt.pointer = ""
    · simp [htext, hwritten, hpointer]
    · have hstart : startPosition stmt state = state.ints (variableName stmt.pointer) :=
        if_neg hpointer
      simp [htext, hwritten, hpointer, hadvanced, hstart]
  · rfl

/-- The assignments of a statement write its window if and only if there is no pointer, the pointer
is out of range, or the sending text takes the pointer to the same position when it is read again
from the receiver that is written over. -/
theorem writesWindow_iff (h : Lowered stmt program statements state) :
    WritesWindow stmt statements state ↔
      stmt.pointer = "" ∨ ¬ StartsInside stmt state ∨ KeepsPosition stmt state := by
  obtain ⟨hparts, rfl⟩ | ⟨hpointer, rfl⟩ | ⟨hpointer, rfl⟩ := h.cases
  · have hkeeps : KeepsPosition stmt state := by
      simp [KeepsPosition, sendingText, hparts]
    simp [WritesWindow, run, expected_of_empty hparts, hkeeps]
  · have hin := startsInside_of_plain hpointer state
    have hindex : (startPosition stmt state - 1).toNat = 0 := by
      simp [startPosition, hpointer]
    rw [WritesWindow, run_plain (builtText_eq stmt state) rfl, expected, if_pos hin]
    simp [hpointer, hindex]
  · by_cases hin : StartsInside stmt state
    · rw [WritesWindow, run_inside hpointer hin, expected, if_pos hin]
      simp only [hpointer, if_false, false_or, not_true_eq_false, hin, Option.some.injEq]
      constructor
      · intro hequal
        have hints := congrArg (fun after => after.ints (variableName stmt.pointer)) hequal
        simpa [KeepsPosition] using hints
      · intro hkeeps
        rw [KeepsPosition] at hkeeps
        rw [hkeeps]
    · have hrange := Bool.eq_false_iff.2 fun hrange => hin ((inRange_iff hpointer).1 hrange)
      rw [WritesWindow, run_outside hrange rfl, expected, if_neg hin]
      simp [hin]

end Window

/-! ### A receiver that is sent -/

/-- `STRING R DELIMITED BY delim INTO R`, with a pointer or without. -/
def ontoItself (delim : Delimiter) (pointer : String) : StringStatement :=
  ⟨[fun state => state.texts "R"], [delim], "R", pointer, false, ""⟩

/-- `R PIC X(8)` and `P PIC 99`. -/
def receiverAndPointer : CobolProgram :=
  ⟨[⟨"R", .alphanumeric, 8, 0, false, [], false⟩, ⟨"P", .numeric, 2, 0, false, [], false⟩], [], []⟩

/-- `R` holds `AB`, and `P` is 3. -/
def shortReceiver : Store :=
  ⟨fun _ => "AB      ".toList, fun _ => 3⟩

theorem ontoItself_lowered (delim : Delimiter) (pointer : String)
    (hdelim : ∀ name, delim ≠ .identifier name) (hpointer : pointer = "" ∨ pointer = "P") :
    ∃ statements, Lowered (ontoItself delim pointer) receiverAndPointer statements
      shortReceiver := by
  have hreceiver : ∃ item, findDataItem receiverAndPointer (variableName "R") = some item ∧
      0 < item.picLength ∧ (shortReceiver.texts (variableName "R")).length = item.picLength :=
    ⟨⟨"R", .alphanumeric, 8, 0, false, [], false⟩, by decide, by decide, rfl⟩
  have hreasons : failClosedReasons (ontoItself delim pointer) [delim] receiverAndPointer = [] := by
    have hnone : ([delim].filterMap fun
        | .identifier name => some ("DELIMITED_BY_IDENTIFIER_" ++ symbolName name)
        | _ => none) = [] := by
      cases delim with
      | identifier name => exact absurd rfl (hdelim name)
      | _ => rfl
    obtain rfl | rfl := hpointer
    · simp [failClosedReasons, hnone, ontoItself]
    · have hitem : findDataItem receiverAndPointer "P" =
          some ⟨"P", .numeric, 2, 0, false, [], false⟩ := by decide
      simp [failClosedReasons, hnone, ontoItself, hitem, Transformation.DataItem.isNumeric]
  obtain ⟨statements, hstatements⟩ : ∃ statements,
      mapStringStatement (ontoItself delim pointer) receiverAndPointer = .ok statements := by
    have hwidth : stringReceiverWidth receiverAndPointer (variableName "R") = some 8 := by decide
    have hdelims : delimsOf (ontoItself delim pointer) = [delim] := if_neg (by simp [ontoItself])
    have htarget : (ontoItself delim pointer).target = "R" := rfl
    rw [mapStringStatement, if_neg (by simp [ontoItself]), stringReceiverStatements, hdelims,
      hreasons, htarget, hwidth]
    simp only [ne_eq, not_true_eq_false, if_false]
    split <;> exact ⟨_, rfl⟩
  exact ⟨statements, by simp [ontoItself], hstatements, hreceiver⟩

/-- Not every lowered statement writes its window: a receiver that is sent moves its own pointer. -/
theorem not_writesWindow : ¬ ∀ (stmt : StringStatement) (program : CobolProgram)
    (statements : List Assignment) (state : Store), Lowered stmt program statements state →
      WritesWindow stmt statements state := by
  intro hall
  obtain ⟨statements, hlowered⟩ := ontoItself_lowered .space "P" (by simp) (.inr rfl)
  have hwindow := hall _ _ _ _ hlowered
  have hin : StartsInside (ontoItself .space "P") shortReceiver := by decide
  obtain ⟨hparts, -⟩ | ⟨hpointer, -⟩ | ⟨hpointer, hstatements⟩ := hlowered.cases
  · exact nomatch hparts
  · exact absurd hpointer (by decide)
  · -- COBOL leaves `P` at 5; the assignments read `ABAB` again and leave it at 7.
    rw [WritesWindow, hstatements, run_inside hpointer hin, expected, if_pos hin, if_neg hpointer,
      Option.some.injEq] at hwindow
    have hints := congrArg (fun after => after.ints "P") hwindow
    exact absurd hints (by decide)

/-- The same statement without a pointer writes its window. -/
theorem writesWindow_iff_plain : ∃ statements,
    WritesWindow (ontoItself .space "") statements shortReceiver := by
  obtain ⟨statements, hlowered⟩ := ontoItself_lowered .space "" (by simp) (.inl rfl)
  exact ⟨statements, (writesWindow_iff hlowered).2 (.inl rfl)⟩

end CobolJava.StringVerb
