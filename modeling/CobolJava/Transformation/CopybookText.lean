/-
**The text of a copybook.**

What is read of a copybook before its data is parsed (`copybook_model.py`): the text without
sequence numbers, its `COPY` statements with their `REPLACING` clauses, and the substitution of the
operands.  The characters of words and digits are those of ASCII.

Main definitions:

* `stripSequenceNumbers`, `maskComments` — the text as it is scanned;
* `findCopyStatements` — the `COPY` statements of a text;
* `parseReplacingClause`, `applyReplacing` — the clause and its effect.
-/

import CobolJava.Transformation.CodeLines

set_option autoImplicit false

namespace CobolJava.Copybook

open Py (isSpace)
open Py.Chars
open SourceFormat (Text splitLines compilerVisibleText areaMatch)

/-! ### Lines -/

/-- The lines of a text, joined again. -/
def joinLines (lines : List Text) : Text :=
  ['\n'].intercalate lines

/-- One turn of the loop of `_strip_sequence_numbers`. -/
def stripSequenceNumber (line : Text) : Text :=
  let cleaned := if 6 < line.length then lstrip line else line
  match areaMatch cleaned with
  | some (c, rest) => if c = '*' || c = '/' then [] else lstrip rest
  | none => cleaned

/-- `_strip_sequence_numbers` -/
def stripSequenceNumbers (text : Text) : Text :=
  joinLines ((splitLines (compilerVisibleText text)).map stripSequenceNumber)

/-- `[ \t]` -/
def isBlank (c : Char) : Bool :=
  c = ' ' || c = '\t'

/-- `[*/]` at the start of a text, behind blanks. -/
def commentIndicator (s : Text) : Bool :=
  match s.dropWhile isBlank with
  | c :: _ => c = '*' || c = '/'
  | [] => false

/-- `_COMMENT_LINE`, on a line. -/
def commentLine (line : Text) : Bool :=
  let digits := (line.takeWhile Char.isDigit).length
  commentIndicator line ||
    (1 ≤ digits && digits ≤ 6 && commentIndicator (line.drop digits))

/-- Where the `>` of the inline comment of a line stands, from a position on, behind a character and
within a literal or not. -/
def inlineCommentFrom (quote before : Option Char) (position : ℕ) : Text → Option ℕ
  | [] => none
  | c :: rest =>
      match quote with
      | some q => inlineCommentFrom (if c = q then none else quote) (some c) (position + 1) rest
      | none =>
          if c = '\'' || c = '"' then inlineCommentFrom (some c) (some c) (position + 1) rest
          else if c = '>' && before = some '*' then some position
          else inlineCommentFrom none (some c) (position + 1) rest

/-- `_mask_inline_comment` -/
def maskInlineComment (line : Text) : Text :=
  match inlineCommentFrom none none 0 line with
  | some i => line.take (i - 1) ++ List.replicate (line.length - i + 1) ' '
  | none => line

/-- `_mask_comments` -/
def maskComments (text : Text) : Text :=
  joinLines ((splitLines text).map fun line =>
    maskInlineComment (if commentLine line then List.replicate line.length ' ' else line))

/-! ### COPY statements -/

/-- `[\w-]` -/
def isWordOrHyphen (c : Char) : Bool :=
  c.isAlphanum || c = '_' || c = '-'

/-- `\w` -/
def isWordChar (c : Char) : Bool :=
  c.isAlphanum || c = '_'

/-- `[A-Za-z0-9][A-Za-z0-9_-]*` at the start of a text. -/
def cobolWord : Text → Option Text
  | [] => none
  | c :: rest => if c.isAlphanum then some (c :: rest.takeWhile isWordOrHyphen) else none

/-- A quoted text that is not empty, at the start of a text: what stands within. -/
def quotedTarget (quote : Char) : Text → Option Text
  | [] => none
  | c :: rest =>
      let target := rest.takeWhile (· ≠ quote)
      if c = quote && target ≠ [] && target.length < rest.length then some target else none

/-- The three forms of a target: its width and what it names. -/
def copyTarget (s : Text) : Option (ℕ × Text) :=
  match quotedTarget '\'' s with
  | some target => some (target.length + 2, target)
  | none =>
      match quotedTarget '"' s with
      | some target => some (target.length + 2, target)
      | none => (cobolWord s).map fun target => (target.length, target)

/-- `_COPY_STATEMENT` at a position, behind a character. -/
def copyAt (before : Option Char) (s : Text) : Option (ℕ × Text) :=
  if before.any isWordOrHyphen || upper (s.take 4) ≠ "COPY".toList then none
  else
    let blanks := ((s.drop 4).takeWhile isSpace).length
    if blanks = 0 then none
    else (copyTarget (s.drop (4 + blanks))).map fun t => (4 + blanks + t.1, t.2)

/-- The matches of `_COPY_STATEMENT`, from a position on, of which `skip` characters belong to a
match already: where each starts and ends, and its target. -/
def copyMatchesFrom (before : Option Char) (position skip : ℕ) : Text → List (ℕ × ℕ × Text)
  | [] => []
  | c :: rest =>
      if 0 < skip then copyMatchesFrom (some c) (position + 1) (skip - 1) rest
      else
        match copyAt before (c :: rest) with
        | some (width, target) =>
            (position, position + width, target) ::
              copyMatchesFrom (some c) (position + 1) (width - 1) rest
        | none => copyMatchesFrom (some c) (position + 1) 0 rest

/-- The loop of `_at_statement_start` over the text before a position, last character first. -/
def statementStartFrom : ℕ → Text → Bool
  | 0, _ => true
  | _ + 1, [] => true
  | fuel + 1, c :: rest =>
      if c = ' ' || c = '\t' || c = '\r' || c = '\n' then statementStartFrom fuel rest
      else if c = '.' || c = ';' then true
      else if c.isDigit then
        let digits := min ((c :: rest).takeWhile Char.isDigit).length 6
        let before := ((c :: rest).drop digits).dropWhile isBlank
        if before.head?.all fun d => d = '\r' || d = '\n' then statementStartFrom fuel before
        else false
      else false

/-- `_at_statement_start` -/
def atStatementStart (text : Text) (position : ℕ) : Bool :=
  statementStartFrom (position + 1) (text.take position).reverse

/-- The loop of `_statement_end`. -/
def statementEndFrom (quote : Option Char) (position : ℕ) : Text → ℕ
  | [] => position
  | c :: rest =>
      match quote with
      | some q => statementEndFrom (if c = q then none else quote) (position + 1) rest
      | none =>
          if c = '\'' || c = '"' then statementEndFrom (some c) (position + 1) rest
          else if c = '.' then position + 1
          else statementEndFrom none (position + 1) rest

/-- `_statement_end` -/
def statementEnd (text : Text) (position : ℕ) : ℕ :=
  statementEndFrom none position (text.drop position)

/-- A `COPY` statement: where it starts and ends, and its target. -/
structure Span where
  start : ℕ
  stop : ℕ
  target : Text
  deriving DecidableEq, Repr

/-- One turn of the loop of `_find_copy_statements`. -/
def findStep (masked : Text) (state : List Span × ℕ) (found : ℕ × ℕ × Text) : List Span × ℕ :=
  let (start, stop, target) := found
  if start < state.2 || !atStatementStart masked start || target = [] ||
      upper target = "REPLACING".toList then state
  else
    let last := statementEnd masked stop
    (state.1 ++ [⟨start, last, target⟩], last)

/-- `_find_copy_statements` -/
def findCopyStatements (text : Text) : List Span :=
  let masked := maskComments text
  ((copyMatchesFrom none 0 0 masked).foldl (findStep masked) ([], 0)).1

/-! ### The REPLACING clause -/

/-- A word stands at a position, between word boundaries. -/
def wordAt (word : String) (text : Text) (position : ℕ) : Bool :=
  upper ((text.drop position).take word.length) = word.toList &&
    (position = 0 || !(text[position - 1]?.any isWordChar)) &&
    !(text[position + word.length]?.any isWordChar)

/-- `\bREPLACING\b` -/
def replacingKeyword (text : Text) : Option ℕ :=
  (List.range text.length).find? (wordAt "REPLACING" text)

/-- `_skip_ws` -/
def skipWs (body : Text) (i : ℕ) : ℕ :=
  i + ((body.drop i).takeWhile fun c => c = ' ' || c = '\t' || c = '\r' || c = '\n').length

/-- A clause that does not parse, or has a form that is not applied. -/
inductive ClauseErrorKind
  | malformed
  | unsupported
  deriving DecidableEq, Repr

def ClauseErrorKind.code : ClauseErrorKind → String
  | .malformed => "COPYBOOK_REPLACING_MALFORMED"
  | .unsupported => "COPYBOOK_REPLACING_UNSUPPORTED"

/-- An error in a clause. -/
structure ClauseError where
  kind : ClauseErrorKind
  message : String
  deriving DecidableEq, Repr

def malformed (message : String) : ClauseError :=
  ⟨.malformed, message⟩

def unsupported (message : String) : ClauseError :=
  ⟨.unsupported, message⟩

/-- `_UNSUPPORTED_REPLACING_PHRASES` -/
def unsupportedPhrases : List Text :=
  ["LEADING".toList, "TRAILING".toList, "PARTIAL".toList]

section Clause

variable (py : Py.Rendering)

/-- `_read_operand`: the operand, and where it ends. -/
def readOperand (body : Text) (i : ℕ) : Except ClauseError (Text × ℕ) :=
  match body.drop i with
  | [] => .error (malformed "REPLACING clause ended where an operand was expected")
  | c :: rest =>
      if c = '+' || c = '-' then
        .error (unsupported ("REPLACING prefixed operand " ++ py.repr (String.ofList [c]) ++
          " is not applied"))
      else if c = '\'' || c = '"' then
        .error (unsupported "REPLACING literal (quoted) operand is not applied")
      else if startswith (c :: rest) ['=', '='] then
        match find ['=', '='] (rest.drop 1) with
        | none => .error (malformed "REPLACING pseudo-text operand is not terminated by ==")
        | some width =>
            let operand := strip ((rest.drop 1).take width)
            if operand = [] then .error (malformed "REPLACING pseudo-text operand is empty")
            else .ok (operand, i + 2 + width + 2)
      else
        match cobolWord (c :: rest) with
        | none =>
            .error (malformed ("REPLACING clause has an unexpected token " ++
              py.repr (String.ofList ((c :: rest).take 12))))
        | some word =>
            if unsupportedPhrases.contains (upper word) then
              .error (unsupported ("REPLACING " ++ String.ofList (upper word) ++
                " phrase is not applied"))
            else .ok (word, i + word.length)

/-- The pairs of operands of a clause, as far as they were read, and the error that ended it. -/
abbrev Clause : Type := List (Text × Text) × Option ClauseError

/-- The loop of `_parse_replacing_clause` from a position on. -/
def readPairs (body : Text) : ℕ → ℕ → List (Text × Text) → Clause
  | 0, _, pairs => (pairs, none)
  | fuel + 1, i, pairs =>
      let i := skipWs body i
      if body.length ≤ i then (pairs, none)
      else
        match readOperand py body i with
        | .error e => (pairs, some e)
        | .ok (left, i) =>
            let i := skipWs body i
            if !wordAt "BY" body i then
              (pairs, some (malformed
                "REPLACING clause is missing the BY keyword between operands"))
            else
              match readOperand py body (skipWs body (i + 2)) with
              | .error e => (pairs, some e)
              | .ok (right, i) => readPairs body fuel i (pairs ++ [(left, right)])

/-- `_parse_replacing_clause` -/
def parseReplacingClause (stmt : Text) : Clause :=
  match replacingKeyword stmt with
  | none => ([], none)
  | some start =>
      let stripped := rstrip stmt
      let body := if stripped.getLast? = some '.' then stripped.dropLast else stripped
      match readPairs py body (body.length + 1) (start + 9) [] with
      | (pairs, some e) => (pairs, some e)
      | ([], none) => ([], some (malformed "REPLACING clause contains no operand pairs"))
      | (pairs, none) => (pairs, none)

end Clause

/-! ### Substitution -/

/-- A pattern stands at a position as a whole word, in any case. -/
def patternAt (pattern : Text) (before : Option Char) (s : Text) : Bool :=
  upper (s.take pattern.length) = upper pattern &&
    !before.any isWordOrHyphen && !(s.drop pattern.length).head?.any isWordOrHyphen

/-- The first pair of a clause whose pattern stands at a position. -/
def pairAt (pairs : List (Text × Text)) (before : Option Char) (s : Text) :
    Option (Text × Text) :=
  pairs.find? fun pair => patternAt pair.1 before s

/-- The loop of `_apply_replacing`, within a literal or not, of which `skip` characters belong to a
pattern that was replaced. -/
def applyReplacingFrom (pairs : List (Text × Text)) (quote before : Option Char) (skip : ℕ) :
    Text → Text
  | [] => []
  | c :: rest =>
      if 0 < skip then applyReplacingFrom pairs quote (some c) (skip - 1) rest
      else
        match quote with
        | some q => c :: applyReplacingFrom pairs (if c = q then none else quote) (some c) 0 rest
        | none =>
            if c = '\'' || c = '"' then c :: applyReplacingFrom pairs (some c) (some c) 0 rest
            else
              match pairAt pairs before (c :: rest) with
              | some pair =>
                  pair.2 ++ applyReplacingFrom pairs none (some c) (pair.1.length - 1) rest
              | none => c :: applyReplacingFrom pairs none (some c) 0 rest

/-- `_apply_replacing` -/
def applyReplacing (text : Text) (pairs : List (Text × Text)) : Text :=
  if pairs = [] then text else applyReplacingFrom pairs none none 0 text

attribute [grind =] applyReplacingFrom

@[simp] theorem applyReplacing_nil (text : Text) : applyReplacing text [] = text := rfl

end CobolJava.Copybook
