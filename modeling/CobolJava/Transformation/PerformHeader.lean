/-
**Headers of PERFORM.**

The header of a `PERFORM` with a phrase, the statement the parser makes of its line
(`_parse_perform` of `cobol_parser.py`) and the Java loop the mapper reads from the text the
statement carries (`map_cobol_statement` of `cobol_to_java_mapping.py`).  A line is kept as its
words with the white space before each; the lines of a header have been joined.

Main definitions:

* `Token`, `isWord` — words of a line;
* `PerformHeader`, `PerformHeader.line` — the headers of COBOL, spelled in any way;
* `parsePerform`, `PerformStatement` — the parser;
* `lowerPerform`, `JavaLoop` — the mapper.
-/

import CobolJava.Transformation.JavaIr

set_option autoImplicit false

namespace CobolJava.Transformation

/-! ### Words -/

/-- A word of a line with the white space before it. -/
structure Token where
  blank : List Char
  word : List Char
  deriving DecidableEq, Repr

namespace Token

/-- The word in any case is the keyword. -/
def isWord (keyword : String) (t : Token) : Bool :=
  t.word.map Char.toUpper = keyword.toList

/-- `[\w-]+` -/
def isName (t : Token) : Bool :=
  !t.word.isEmpty && t.word.all fun c => c.isAlphanum || c = '_' || c = '-'

/-- `\d+` -/
def isNumber (t : Token) : Bool :=
  !t.word.isEmpty && t.word.all Char.isDigit

end Token

/-- The text without the white space at its start. -/
def stripped : List Token → List Token
  | [] => []
  | t :: rest => { t with blank := [] } :: rest

def blankFollows : List Token → Bool
  | [] => false
  | t :: _ => t.blank.head? = some ' '

/-! ### Headers of COBOL -/

/-- The words of the phrases of `PERFORM`. -/
def performWords : List String :=
  ["WITH", "TEST", "AFTER", "BEFORE", "TIMES", "THRU", "VARYING", "FROM", "BY", "UNTIL"]

/-- The word is no word of a phrase. -/
def Token.isPlain (t : Token) : Bool :=
  performWords.all fun keyword => !t.isWord keyword

/-- A keyword as it is spelled. -/
structure Keyword (keyword : String) where
  token : Token
  spelled : token.isWord keyword = true

/-- A user-defined word or a literal. -/
structure PlainWord where
  token : Token
  plain : token.isPlain = true
  nonempty : token.word ≠ []

/-- A reference or a literal. -/
structure Operand where
  tokens : List Token
  nonempty : tokens ≠ []
  plain : ∀ t ∈ tokens, t.isPlain = true

/-- A condition; its alphanumeric literals may contain any words. -/
structure ConditionText where
  tokens : List Token
  nonempty : tokens ≠ []

/-- `WITH TEST AFTER` or `WITH TEST BEFORE`. -/
structure TestPhrase where
  withWord : Keyword "WITH"
  test : Keyword "TEST"
  place : Token
  spelled : place.isWord "AFTER" = true ∨ place.isWord "BEFORE" = true

def TestPhrase.tokens (p : TestPhrase) : List Token :=
  [p.withWord.token, p.test.token, p.place]

/-- What is performed: the statements that follow, a paragraph or a range of paragraphs. -/
inductive ProcedureName
  | inline
  | paragraph (name : PlainWord)
  | range (first : PlainWord) (thru : Keyword "THRU") (last : PlainWord)

def ProcedureName.tokens : ProcedureName → List Token
  | .inline => []
  | .paragraph name => [name.token]
  | .range first thru last => [first.token, thru.token, last.token]

/-- How often it is performed. -/
inductive PerformPhrase
  | times (count : PlainWord) (timesWord : Keyword "TIMES")
  | untilCondition (test : Option TestPhrase) (untilWord : Keyword "UNTIL") (text : ConditionText)
  | varying (test : Option TestPhrase) (varyingWord : Keyword "VARYING") (item : Operand)
      (fromWord : Keyword "FROM") (start : Operand) (step : Option (Keyword "BY" × Operand))
      (untilWord : Keyword "UNTIL") (text : ConditionText)

/-- The words of the `BY` phrase. -/
def stepTokens : Option (Keyword "BY" × Operand) → List Token
  | none => []
  | some (byWord, step) => byWord.token :: step.tokens

/-- The words of the `WITH TEST` phrase. -/
def testTokens (test : Option TestPhrase) : List Token :=
  (test.map TestPhrase.tokens).getD []

def PerformPhrase.tokens : PerformPhrase → List Token
  | .times count timesWord => [count.token, timesWord.token]
  | .untilCondition test untilWord text => testTokens test ++ untilWord.token :: text.tokens
  | .varying test varyingWord item fromWord start step untilWord text =>
      testTokens test ++ varyingWord.token :: (item.tokens ++ fromWord.token ::
        (start.tokens ++ (stepTokens step ++ untilWord.token :: text.tokens)))

/-- The header of a `PERFORM` with a phrase. -/
structure PerformHeader where
  perform : Keyword "PERFORM"
  procedure : ProcedureName
  phrase : PerformPhrase

def PerformHeader.line (h : PerformHeader) : List Token :=
  h.perform.token :: (h.procedure.tokens ++ h.phrase.tokens)

/-! ### The parser -/

/-- The statement the parser returns; without a text in `untilCondition` there is no phrase. -/
structure PerformStatement where
  paragraphName : List Char
  untilCondition : List Token
  thruTarget : List Char
  /-- The statement has a body of its own. -/
  isInline : Bool
  testAfter : Bool
  deriving DecidableEq, Repr

/-- `WITH TEST AFTER` or `WITH TEST BEFORE`. -/
def isTestPhrase (w t a : Token) : Bool :=
  w.isWord "WITH" && t.isWord "TEST" && (a.isWord "AFTER" || a.isWord "BEFORE")

/-- Whether the first test phrase of a text says `AFTER`. -/
def testAfter : List Token → Bool
  | w :: t :: a :: rest => if isTestPhrase w t a then a.isWord "AFTER" else testAfter (t :: a :: rest)
  | _ => false

/-- The text without its test phrases; the word behind one follows what stood before it. -/
def removeTest (pending : Option (List Char)) : List Token → List Token
  | w :: t :: a :: rest =>
      let before := pending.getD w.blank
      if isTestPhrase w t a then removeTest (some before) rest
      else { w with blank := before } :: removeTest none (t :: a :: rest)
  | w :: rest => { w with blank := pending.getD w.blank } :: rest
  | [] => []

/-- Whether the line is the header of an inline `PERFORM`. -/
def opensInline : List Token → Bool
  | _ :: t :: rest =>
      (t.blank = [' '] && (t.isWord "UNTIL" || t.isWord "VARYING") && blankFollows rest) ||
      (t.isNumber && match rest with
        | [x] => x.isWord "TIMES"
        | _ => false) ||
      (t.blank = [' '] && t.isNumber && match rest with
        | x :: _ => "TIMES".toList.isPrefixOf (x.word.map Char.toUpper)
        | [] => false) ||
      (t.isWord "WITH" && match rest with
        | x :: _ => "TEST".toList.isPrefixOf (x.word.map Char.toUpper)
        | [] => false)
  | _ => false

/-- What follows the first `UNTIL` of a line. -/
def untilText (line : List Token) : Option (List Token) :=
  match line.dropWhile fun t => !t.isWord "UNTIL" with
  | _ :: t :: rest => some (stripped (t :: rest))
  | _ => none

/-- `TIMES=` before a text. -/
def timesText : List Token → List Token
  | [] => []
  | t :: rest => ⟨[], "TIMES=".toList ++ t.word⟩ :: rest

def inlineText (line : List Token) : List Token :=
  match line with
  | _ :: t :: rest =>
      if t.blank = [' '] && t.isWord "VARYING" && blankFollows rest then stripped (t :: rest)
      else
        match untilText line with
        | some text => text
        | none =>
            if (t :: rest).getLast?.any (Token.isWord "TIMES") then timesText ((t :: rest).dropLast)
            else stripped (t :: rest)
  | _ => []

/-- The forms that perform the paragraph `p`, in the order in which they are tried. -/
def parseParagraphForm (after : Bool) (p : Token) : List Token → Option PerformStatement
  | [] => some ⟨p.word, [], [], false, after⟩
  | x :: more =>
      if x.isWord "THRU" && (more.length = 1 && more.all Token.isName) then
        some ⟨p.word, [], (more.head?.map Token.word).getD [], false, after⟩
      else if (x :: more).getLast?.any (Token.isWord "TIMES") && !more.isEmpty then
        some ⟨p.word, timesText (x :: more).dropLast, [], false, after⟩
      else if x.isWord "VARYING" && !more.isEmpty then
        some ⟨p.word, ⟨[], "VARYING".toList⟩ ::
          (more.take 1).map (fun t => { t with blank := [' '] }) ++ more.drop 1, [], false, after⟩
      else if x.isWord "UNTIL" && !more.isEmpty then
        some ⟨p.word, stripped more, [], false, after⟩
      else none

/-- The forms that perform paragraphs. -/
def parseOutOfLine (after : Bool) : List Token → Option PerformStatement
  | [] => none
  | p :: rest => if p.isName then parseParagraphForm after p rest else none

/-- The statement of a header line, or `none` when a diagnostic is emitted. -/
def parsePerform (line : List Token) : Option PerformStatement :=
  let after := testAfter line
  let line := removeTest none line
  if opensInline line then some ⟨[], inlineText line, [], true, after⟩
  else parseOutOfLine after line.tail

/-! ### The mapper -/

/-- `text.split(" KEYWORD ")`; `consumed` says that the first blank belongs to the match before. -/
def splitWord (keyword : String) (consumed : Bool) : List Token → List (List Token)
  | [] => [[]]
  | t :: rest =>
      let before := if consumed then t.blank.drop 1 else t.blank
      if t.word = keyword.toList && before.getLast? = some ' ' && blankFollows rest then
        [] :: splitWord keyword true rest
      else
        match splitWord keyword false rest with
        | part :: parts => ({ t with blank := before } :: part) :: parts
        | [] => [[{ t with blank := before }]]

/-- The count of a `TIMES` loop. -/
inductive JavaCount
  /-- The digits as they were written. -/
  | literal (digits : List Char)
  | field (name : List Char)
  deriving DecidableEq, Repr

/-- What a Java loop runs. -/
inductive JavaBody
  | inline
  | call (paragraph : List Char)
  | callRange (first last : List Char)
  deriving DecidableEq, Repr

/-- The loops the mapper builds. -/
inductive LoopShape
  /-- `for (item = start; !(condition); item = item + step)` -/
  | forVarying (item : DataItem) (start step condition : List Token)
  /-- `for (int i = 0; i < count; i = i + 1)` -/
  | forTimes (count : JavaCount)
  /-- `while (!(condition))` -/
  | whileNot (condition : List Token)
  /-- `do … while (!(condition))` -/
  | doWhileNot (condition : List Token)
  /-- The body without a loop. -/
  | once
  deriving DecidableEq, Repr

structure JavaLoop where
  shape : LoopShape
  body : JavaBody
  deriving DecidableEq, Repr

/-- `" AFTER " in f" {text.upper()} "` -/
def mentionsAfter (text : List Token) : Bool :=
  (List.range text.length).any fun i =>
    (text[i]?.any fun t => t.isWord "AFTER" && (i = 0 || t.blank.getLast? = some ' ')) &&
      (text[i + 1]?.all fun t => t.blank.head? = some ' ')

def loopBody (stmt : PerformStatement) : JavaBody :=
  if stmt.isInline then .inline
  else if stmt.thruTarget ≠ [] then .callRange stmt.paragraphName stmt.thruTarget
  else .call stmt.paragraphName

/-- The control item of a `VARYING` phrase: declared, not subscripted, `PIC 9(1)` to `PIC 9(9)`. -/
def controlItem (program : CobolProgram) (text : List Token) : Option DataItem :=
  match text with
  | [t] =>
      match findDataItem program (String.ofList t.word) with
      | some item =>
          if item.isNumeric && item.decimalPlaces = 0 && item.picLength ≤ 9 && !t.word.contains '('
          then some item
          else none
      | none => none
  | _ => none

/-- The loop of a `VARYING` text, whose phrases are read between blanks; `none` when the text is
lowered to an unsupported expression. -/
def lowerVarying (program : CobolProgram) (text : List Token) : Option LoopShape :=
  match splitWord "FROM" false text with
  | var :: rest :: _ =>
      let byUntil := splitWord "UNTIL" false rest
      let initAndBy := stripped (byUntil.head?.getD [])
      let untilPart := stripped (byUntil[1]?.getD [⟨[], "TRUE".toList⟩])
      let initBy := splitWord "BY" false initAndBy
      let init := stripped (initBy.head?.getD [])
      let step := stripped (initBy[1]?.getD [⟨[], ['1']⟩])
      if mentionsAfter untilPart then none
      else (controlItem program (stripped (var.drop 1))).map fun item =>
        .forVarying item init step untilPart
  | _ => some .once

/-- The count of a `TIMES` text. -/
def timesCount (t : Token) : Option JavaCount :=
  if Token.isNumber ⟨[], t.word.dropWhile (· = '-')⟩ then some (.literal t.word)
  else if t.word.head?.any (fun c => c.isAlpha || c = '_') && t.isName then some (.field t.word)
  else none

/-- The loop of a `TIMES` text. -/
def lowerTimes (stmt : PerformStatement) (text : List Token) : Option JavaLoop :=
  match text with
  | [n] => (timesCount n).map fun count => ⟨.forTimes count, loopBody stmt⟩
  | [k, q, n] =>
      if k.isWord "THRU" then
        (timesCount n).map fun count =>
          ⟨.forTimes count, loopBody { stmt with thruTarget := q.word }⟩
      else none
  | _ => none

/-- The Java loop of a statement with a phrase; `none` when it has no phrase or an unsupported
marker is emitted. -/
def lowerPerform (program : CobolProgram) (stmt : PerformStatement) : Option JavaLoop :=
  match stmt.untilCondition with
  | [] => none
  | t :: rest =>
      if t.word = "VARYING".toList && blankFollows rest then
        (lowerVarying program (t :: rest)).map fun shape => ⟨shape, loopBody stmt⟩
      else if "TIMES=".toList.isPrefixOf t.word then
        lowerTimes stmt (⟨[], t.word.drop 6⟩ :: rest)
      else if stmt.testAfter then some ⟨.doWhileNot (t :: rest), loopBody stmt⟩
      else some ⟨.whileNot (t :: rest), loopBody stmt⟩

end CobolJava.Transformation
