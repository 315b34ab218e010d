/-
**The JCL parser.**

`JclParser` of `jcl_parser.py`: one pass over the lines of a source, in which `_parse_exec` collects
the `DD` statements directly behind an `EXEC` statement.  Jobs, steps and data definitions carry the
number of the line they were read from, which the source leaves out; nothing that is computed depends
on it.

Main definitions:

* `JclJob`, `JclStep`, `JclExec`, `JclDD` — what is parsed;
* `parseParameters`, `matchHeader`, `parseExecParams`, `parseDD` — reading one line;
* `mainKind`, `isStepDD` — what a line is taken for;
* `ParserState.feed`, `parseLines`, `parseJobs` — the pass.
-/

import CobolJava.Lib.PyLines

set_option autoImplicit false

namespace CobolJava.Jcl

open Py (isSpace)
open Py.Chars

abbrev Text := List Char

/-! ### What is parsed -/

/-- The entries of a parameter dictionary, in the order in which they were set. -/
abbrev Parameters := List (Text × Text)

/-- `params.get(key)` -/
def Parameters.get (params : Parameters) (key : String) : Option Text :=
  (params.reverse.find? fun entry => entry.1 = key.toList).map Prod.snd

structure JclDD where
  line : ℕ
  name : Text
  dataset : Text
  disposition : Text
  space : Text
  unit : Text
  dcb : Text
  vol : Text
  sysout : Text
  isTemporary : Bool
  isInline : Bool
  deriving DecidableEq, Repr

structure JclExec where
  program : Text
  procedure : Text
  parameters : Parameters
  deriving DecidableEq, Repr

structure JclStep where
  line : ℕ
  name : Text
  exec : Option JclExec
  ddStatements : List JclDD
  /-- The code of a `COND` parameter. -/
  condition : Option Text
  deriving DecidableEq, Repr

structure JclJob where
  /-- The line of its `JOB` statement, if it has one. -/
  line : Option ℕ
  name : Text
  parameters : Parameters
  steps : List JclStep
  comments : List Text
  jobDdStatements : List JclDD
  deriving DecidableEq, Repr

/-! ### Parameters -/

/-- `_split_parameters`: the parts of a text between the commas outside parentheses and quotes; the
arguments are the open quote, the depth and the part that is being read. -/
def splitParametersFrom (quote : Option Char) (depth : ℕ) (current : Text) : Text → List Text
  | [] => if current = [] then [] else [current]
  | c :: rest =>
      match quote with
      | some q =>
          splitParametersFrom (if c = q then none else some q) depth (current ++ [c]) rest
      | none =>
          if c = '\'' ∨ c = '"' then splitParametersFrom (some c) depth (current ++ [c]) rest
          else if c = '(' then splitParametersFrom none (depth + 1) (current ++ [c]) rest
          else if c = ')' then splitParametersFrom none (depth - 1) (current ++ [c]) rest
          else if c = ',' ∧ depth = 0 then current :: splitParametersFrom none 0 [] rest
          else splitParametersFrom none depth (current ++ [c]) rest

def splitParameters (text : Text) : List Text :=
  splitParametersFrom none 0 [] text

/-- `re.match(r"(\S+?)=(.+)", part)`, behind the characters of the key that were read. -/
def keyValueFrom (key : Text) : Text → Option (Text × Text)
  | [] => none
  | c :: rest =>
      if c = '=' ∧ key ≠ [] ∧ rest ≠ [] then some (key, rest)
      else if isSpace c then none
      else keyValueFrom (key ++ [c]) rest

/-- `value.strip().strip("'\"")` -/
def unquoted (value : Text) : Text :=
  stripChars ['\'', '"'] (strip value)

def parseParameters (paramStr : Text) : Parameters :=
  (splitParameters paramStr).filterMap fun part =>
    (keyValueFrom [] (strip part)).map fun (key, value) => (upper key, unquoted value)

/-! ### Fields of a line -/

/-- The text starts with the key, in any case. -/
def startsWithKey (key : String) (text : Text) : Bool :=
  startswith (upper text) key.toList

/-- `re.match(r"(\S+)\s+KEYWORD\s+(.*)", text)` in any case, the second group stripped; for `JOB` no
white space is asked for behind the keyword. -/
def matchHeader (keyword : String) (text : Text) : Option (Text × Text) :=
  let name := word text
  let rest := lstrip (afterWord text)
  let tail := rest.drop keyword.length
  if name = [] ∨ afterWord text = [] ∨ !startsWithKey keyword rest then none
  else if keyword ≠ "JOB" ∧ !tail.head?.any isSpace then none
  else some (name, strip tail)

/-- `re.search(r"KEY(\S+)", text)` in any case; the empty word stands for no match. -/
def searchWord (key : String) : Text → Text
  | [] => []
  | c :: rest =>
      let found := word ((c :: rest).drop key.length)
      if startsWithKey key (c :: rest) ∧ found ≠ [] then found else searchWord key rest

/-- `value.rstrip(",")` -/
def dropCommas (value : Text) : Text :=
  value.rdropWhile (· = ',')

def parseExecParams (execStr : Text) : JclExec where
  program := dropCommas (searchWord "PGM=" execStr)
  procedure := dropCommas (searchWord "PROC=" execStr)
  parameters := parseParameters execStr

/-- The value of the last part of a `DD` statement that starts with one of the keys. -/
def lastValue (keys : List String) (text : Text) : Text :=
  (((splitParameters text).map strip).reverse.findSome? fun part =>
    (keys.find? fun key => startsWithKey key part).map fun key =>
      unquoted (part.drop key.length)).getD []

/-- Inline data: `DD DATA` or `DD *`. -/
def isInlineText (ddStr : Text) : Bool :=
  upper ddStr = "DATA".toList || startswith ddStr ['*']

/-- What is read of a parameter of a `DD` statement; the parts of inline data and `SYSOUT` are not
read. -/
def ddValue (key : String) (ddStr : Text) : Text :=
  if isInlineText ddStr || startsWithKey "SYSOUT" ddStr then [] else lastValue [key] ddStr

def parseDD (i : ℕ) (text : Text) : JclDD :=
  match matchHeader "DD" text with
  | none => ⟨i, "UNKNOWN".toList, [], [], [], [], [], [], [], false, false⟩
  | some (name, ddStr) =>
      let sysout :=
        if !isInlineText ddStr && startsWithKey "SYSOUT" ddStr then
          dropCommas (searchWord "SYSOUT=" ddStr)
        else []
      let dataset := ddValue "DSN=" ddStr
      { line := i
        name := name
        dataset := dataset
        disposition := ddValue "DISP=" ddStr
        space := ddValue "SPACE=" ddStr
        unit := ddValue "UNIT=" ddStr
        dcb := ddValue "DCB=" ddStr
        vol := ddValue "VOL=" ddStr
        sysout := sysout
        isTemporary := startswith dataset "&&".toList || sysout ≠ []
        isInline := isInlineText ddStr }

/-- The step of an `EXEC` line, without its `DD` statements. -/
def parseExec (i : ℕ) (text : Text) : JclStep :=
  match matchHeader "EXEC" text with
  | none => ⟨i, "UNKNOWN".toList, none, [], none⟩
  | some (name, execStr) =>
      let exec := parseExecParams execStr
      ⟨i, name, some exec, [], exec.parameters.get "COND"⟩

/-- The name and the parameters of a `JOB` line. -/
def parseJob (text : Text) : Text × Parameters :=
  match matchHeader "JOB" text with
  | none => ([], [])
  | some (name, paramsStr) => (name, parseParameters paramsStr)

/-! ### What a line is taken for -/

inductive Operation
  | job
  | exec
  | dd
  deriving DecidableEq, Repr

def Operation.keyword : Operation → String
  | .job => "JOB"
  | .exec => "EXEC"
  | .dd => "DD"

/-- `" JOB " in rest or rest.upper().startswith("JOB ")` -/
def mentions (op : Operation) (rest : Text) : Bool :=
  contains rest (" " ++ op.keyword ++ " ").toList || startsWithKey (op.keyword ++ " ") rest

/-- What the main loop takes a line for. -/
def mainKind (line : Text) : Option Operation :=
  if strip line = [] || startswith line "//*".toList || !startswith line "//".toList then none
  else
    let rest := strip (line.drop 2)
    if mentions .job rest then some .job
    else if mentions .exec rest then some .exec
    else if mentions .dd rest then some .dd
    else none

/-- What `_parse_exec` reads of a line behind an `EXEC` statement. -/
def stepContent (line : Text) : Text :=
  strip ((strip line).drop 2)

/-- `_parse_exec` takes the line for a `DD` statement of its step. -/
def isStepDD (line : Text) : Bool :=
  let next := strip line
  startswith next "//".toList && !startswith next "//*".toList &&
    (contains (upper (stepContent line)) " DD ".toList ||
      startsWithKey "DD " (stepContent line))

/-! ### The pass -/

structure ParserState where
  jobs : List JclJob
  /-- The job accumulated so far. -/
  current : JclJob
  jobSeen : Bool
  /-- `_parse_exec` is collecting `DD` statements. -/
  inStep : Bool
  deriving DecidableEq, Repr

namespace ParserState

def emptyJob : JclJob := ⟨none, [], [], [], [], []⟩

def initial : ParserState := ⟨[], emptyJob, false, false⟩

def flush (s : ParserState) : ParserState :=
  { s with jobs := s.jobs ++ [s.current], current := emptyJob }

/-- A `DD` statement belongs to the last step; without a step it is a job-level one. -/
def addDD (s : ParserState) (dd : JclDD) : ParserState :=
  match s.current.steps.getLast? with
  | some step =>
      { s with current := { s.current with
          steps := s.current.steps.dropLast ++
            [{ step with ddStatements := step.ddStatements ++ [dd] }] } }
  | none =>
      { s with current := { s.current with jobDdStatements := s.current.jobDdStatements ++ [dd] } }

/-- A `JOB` statement closes the job accumulated so far if that has one. -/
def startJob (s : ParserState) (i : ℕ) (text : Text) : ParserState :=
  let s := if s.jobSeen then s.flush else s
  let (name, parameters) := parseJob text
  { s with
    jobSeen := true
    current := { s.current with line := some i, name := name, parameters := parameters } }

def feedMain (s : ParserState) (i : ℕ) (line : Text) : ParserState :=
  let text := strip (line.drop 2)
  match mainKind line with
  | some .job => s.startJob i text
  | some .exec =>
      { s with
        current := { s.current with steps := s.current.steps ++ [parseExec i text] }
        inStep := (matchHeader "EXEC" text).isSome }
  | some .dd => s.addDD (parseDD i text)
  | none =>
      if startswith line "//*".toList then
        { s with current := { s.current with
            comments := s.current.comments ++ [strip (line.drop 3)] } }
      else s

def feed (s : ParserState) (i : ℕ) (line : Text) : ParserState :=
  if s.inStep && isStepDD line then s.addDD (parseDD i (stepContent line))
  else { s with inStep := false }.feedMain i line

/-- The state after the lines from number `i` on. -/
def run (s : ParserState) (i : ℕ) : List Text → ParserState
  | [] => s
  | line :: rest => (s.feed i line).run (i + 1) rest

/-- The jobs at the end of the source. -/
def finish (s : ParserState) : List JclJob :=
  if s.jobSeen || s.current.steps ≠ [] || s.current.comments ≠ [] || s.current.parameters ≠ [] ||
      s.current.name ≠ [] || s.current.jobDdStatements ≠ [] then
    s.flush.jobs
  else s.jobs

end ParserState

def parseLines (lines : List Text) : List JclJob :=
  (ParserState.initial.run 0 lines).finish

def parseJobs (source : Text) : List JclJob :=
  parseLines (splitlines source)

end CobolJava.Jcl
