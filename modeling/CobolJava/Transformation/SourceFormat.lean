/-
**The reference format of a source.**

Which of the two formats of COBOL a text is read in, and the text the compiler sees of it
(`source_format.py`): in fixed format the columns up to 72 with continuation lines folded into the
line they continue, in both formats with literals spelled without doubled quotes.

Main definitions:

* `detectSourceFormat` — the format of a text;
* `foldContinuations`, `canonicalLiterals` — continuation lines and doubled quotes;
* `referenceFormatErrors`, `compilerVisibleText` — the problems of a text, and the text read.

Main results:

* `detectSourceFormat_of_plain` — the format of a text without directives.
-/

import CobolJava.Lib.PyInk

set_option autoImplicit false

namespace CobolJava.SourceFormat

open Py Py.Chars

abbrev Text : Type := List Char

/-! ### Detecting the format -/

/-- The formats. -/
inductive Format
  | free
  | fixed
  deriving DecidableEq, Repr

/-- The last column of the program text in fixed format. -/
def fixedFormatTextEnd : ℕ := 72

def indicator (line : Text) : Char :=
  line.getD 6 ' '

/-- `_line_is_comment` -/
def lineIsComment (line : Text) : Bool :=
  startswith line ['*'] || startswith line ['/'] ||
    (6 < line.length && (indicator line = '*' || indicator line = '/')) ||
    startswith (lstrip line) ['*', '>']

/-- The format a line names when it is a `>>SOURCE FORMAT` directive. -/
def directive (raw : Text) : Option Format :=
  let upper := upper (strip raw)
  if startswith upper ">>SOURCE".toList && contains upper "FORMAT".toList then
    if contains upper "FREE".toList then some .free
    else if contains upper "FIXED".toList then some .fixed
    else none
  else none

/-- A code line with something other than digits and blanks in columns 1 to 6. -/
def looksFree (raw : Text) : Bool :=
  let line := raw.rdropWhile fun c => c = '\r' || c = '\n'
  if strip line = [] || lineIsComment line then false
  else (line.take 6).any fun c => !("0123456789 ".toList.contains c)

/-- `detect_source_format` -/
def detectSourceFormat (text : Text) : Format :=
  match (splitlines text).findSome? directive with
  | some format => format
  | none => if (splitlines text).any looksFree then .free else .fixed

/-! ### Continuation lines -/

/-- `_open_quote`, from a position with the given quote open. -/
def openQuoteFrom (quote : Option Char) : Text → Option Char
  | [] => quote
  | c :: rest =>
      match quote with
      | none => openQuoteFrom (if c = '"' || c = '\'' then some c else none) rest
      | some q => openQuoteFrom (if c = q then none else some q) rest

/-- The quote of a literal still open at the end of a text. -/
def openQuote (text : Text) : Option Char :=
  openQuoteFrom none text

/-- `s.ljust(width)` -/
def ljust (s : Text) (width : ℕ) : Text :=
  s ++ List.replicate (width - s.length) ' '

/-- The lines of `text.split("\n")`. -/
def splitLines (text : Text) : List Text :=
  text.splitOn '\n'

/-- What the loop over the lines of a fixed-format text has made so far. -/
structure Folding where
  lines : List Text
  errors : List String
  lastCode : Option ℕ

attribute [grind =] openQuoteFrom

namespace Folding

def report (state : Folding) (number : ℕ) (problem : String) : Folding :=
  { state with errors := state.errors ++ [s!"line {number + 1}: " ++ problem] }

/-- A line is joined to an earlier one, and leaves an empty line behind. -/
def join (state : Folding) (last number : ℕ) (joined : Text) : Folding :=
  { state with lines := (state.lines.set last joined).set number [] }

@[simp] theorem length_report (state : Folding) (number : ℕ) (problem : String) :
    (state.report number problem).lines.length = state.lines.length := rfl

@[simp] theorem length_join (state : Folding) (last number : ℕ) (joined : Text) :
    (state.join last number joined).lines.length = state.lines.length := by
  simp [join]

end Folding

/-- One turn of the loop of `_fold_continuations`. -/
def foldStep (state : Folding) (numbered : Text × ℕ) : Folding :=
  let (line, number) := numbered
  if indicator line ≠ '-' then
    if strip (line.drop 7) ≠ [] && indicator line ≠ '*' && indicator line ≠ '/' then
      { state with lastCode := some number }
    else state
  else
    let resumed := lstrip (line.drop 7)
    match state.lastCode with
    | none => state.report number "continuation line with nothing to continue"
    | some last =>
        let continued := state.lines.getD last []
        match openQuote (continued.drop 7) with
        | some quote =>
            if startswith resumed [quote] then
              state.join last number (ljust continued fixedFormatTextEnd ++ resumed.drop 1)
            else
              state.report number ("continuation of an open literal must resume with " ++
                String.ofList [quote])
        | none => state.join last number (rstrip continued ++ resumed)

/-- `_fold_continuations` -/
def foldContinuations (text : Text) : List Text × List String :=
  let lines := (splitLines text).map fun line =>
    (line.rdropWhile (· = '\r')).take fixedFormatTextEnd
  let folded := lines.zipIdx.foldl foldStep ⟨lines, [], none⟩
  (folded.lines, folded.errors)

/-! ### Literals -/

/-- The value of the literal whose opening quote was read, and the number of characters up to its
closing quote. -/
def literalValue (quote : Char) : Text → Option (Text × ℕ)
  | [] => none
  | c :: rest =>
      if c = quote then
        match rest with
        | d :: rest' =>
            if d = quote then (literalValue quote rest').map fun v => (quote :: v.1, v.2 + 2)
            else some ([], 1)
        | [] => some ([], 1)
      else (literalValue quote rest).map fun v => (c :: v.1, v.2 + 1)

def otherQuote (quote : Char) : Char :=
  if quote = '"' then '\'' else '"'

/-- The loop of `_canonical_literals`, behind a literal that reaches over `skip` characters. -/
def canonicalFrom (skip : ℕ) : Text → Except String Text
  | [] => .ok []
  | c :: rest =>
      if 0 < skip then canonicalFrom (skip - 1) rest
      else if startswith (c :: rest) ['*', '>'] then .ok (c :: rest)
      else if c ≠ '"' && c ≠ '\'' then (canonicalFrom 0 rest).map (c :: ·)
      else
        match literalValue c rest with
        | none => .ok (c :: rest)
        | some (value, width) =>
            let written := c :: rest.take width
            if !value.contains c then (canonicalFrom width rest).map (written ++ ·)
            else if value.contains (otherQuote c) then
              .error ("literal " ++ String.ofList written ++
                " holds both quote characters; no certified Java form")
            else
              (canonicalFrom width rest).map
                ((otherQuote c :: value ++ [otherQuote c]) ++ ·)

/-- `_canonical_literals` -/
def canonicalLiterals (code : Text) : Text × Option String :=
  match canonicalFrom 0 code with
  | .ok rewritten => (rewritten, none)
  | .error problem => (code, some problem)

/-! ### The text the compiler sees -/

/-- A line is left as written by `_normalize`. -/
def leftAsWritten (codeFrom : ℕ) (line : Text) : Bool :=
  lineIsComment line || strip (line.drop codeFrom) = []

/-- A line with the literals of its code spelled canonically. -/
def normalizeLine (codeFrom : ℕ) (line : Text) : Text :=
  if leftAsWritten codeFrom line then line
  else line.take codeFrom ++ (canonicalLiterals (line.drop codeFrom)).1

/-- The problem with the literals of a line. -/
def literalErrors (codeFrom : ℕ) (number : ℕ) (line : Text) : List String :=
  if leftAsWritten codeFrom line then []
  else ((canonicalLiterals (line.drop codeFrom)).2.map (s!"line {number + 1}: " ++ ·)).toList

def codeFrom : Format → ℕ
  | .fixed => 7
  | .free => 0

/-- `_normalize` -/
def normalize (text : Text) : List Text × List String :=
  let format := detectSourceFormat text
  let (lines, errors) :=
    match format with
    | .fixed => foldContinuations text
    | .free => (splitLines text, [])
  (lines.map (normalizeLine (codeFrom format)),
    errors ++ Py.collect lines (literalErrors (codeFrom format)))

/-- `reference_format_errors` -/
def referenceFormatErrors (text : Text) : List String :=
  (normalize text).2

/-- `compiler_visible_text` -/
def compilerVisibleText (text : Text) : Text :=
  ['\n'].intercalate (normalize text).1

attribute [grind =] literalValue canonicalFrom

/-! ### Texts without directives -/

/-- No line is a `>>SOURCE FORMAT` directive. -/
def NoDirective (text : Text) : Prop :=
  ∀ line ∈ splitlines text, directive line = none

instance (text : Text) : Decidable (NoDirective text) :=
  inferInstanceAs (Decidable (∀ line ∈ splitlines text, directive line = none))

theorem detectSourceFormat_of_plain {text : Text} (h : NoDirective text) :
    detectSourceFormat text = .free ↔ ∃ line ∈ splitlines text, looksFree line = true := by
  have hnone : (splitlines text).findSome? directive = none :=
    List.findSome?_eq_none_iff.2 h
  rw [detectSourceFormat, hnone, ← List.any_eq_true]
  cases (splitlines text).any looksFree <;> simp

end CobolJava.SourceFormat
