/-
**Statements of JCL.**

What a JCL source says: the fields of a statement, which lines are statements, and the job and the
step a statement belongs to.

Main definitions:

* `statementFields` — name, operation and the rest of a line;
* `Context`, `contextAt` — continued statements and in-stream data;
* `JclStatement`, `statementAt` — the `JOB`, `EXEC` and `DD` statements of a source;
* `JclStatement.program`, `procedure`, `dataset`, `cond` — what an operand field names;
* `Owner`, `ownerUpTo` — the job and the step in effect.
-/

import CobolJava.Jcl.Parser

set_option autoImplicit false

namespace CobolJava.Jcl

open Py (isSpace)
open Py.Chars

/-! ### Fields -/

/-- The name field, the operation field and the rest of the text behind `//`. -/
def statementFields (content : Text) : Text × Text × Text :=
  let behindName := lstrip (afterWord content)
  (word content, word behindName, lstrip (afterWord behindName))

/-- The operand field: up to the first blank that is not in apostrophes. -/
def operandField (inQuote : Bool) : Text → Text
  | [] => []
  | c :: rest =>
      if c = '\'' then c :: operandField (!inQuote) rest
      else if isSpace c && !inQuote then []
      else c :: operandField inQuote rest

/-- The line is a comment statement. -/
def isComment (line : Text) : Bool :=
  startswith line "//*".toList

/-- The line starts with `//` and a blank: it continues a statement that is not complete. -/
def continues (line : Text) : Bool :=
  startswith line "//".toList && (line.drop 2).head?.any isSpace

/-- An operand field that ends with a comma is continued. -/
def isContinued (field : Text) : Bool :=
  field.getLast? = some ','

/-- The operand fields of the lines that continue a statement. -/
def continuation : List Text → Text
  | [] => []
  | line :: rest =>
      if isComment line then continuation rest
      else if continues line then
        let field := operandField false (lstrip (line.drop 2))
        field ++ if isContinued field then continuation rest else []
      else []

/-! ### Lines that are statements -/

/-- What the lines before mean for a line. -/
inductive Context
  | statement
  /-- The statement before is not complete. -/
  | continued
  /-- The line belongs to in-stream data that may contain `//`, up to `/*`. -/
  | data
  deriving DecidableEq, Repr

def Context.next (ctx : Context) (line : Text) : Context :=
  match ctx with
  | .data => if startswith line "/*".toList then .statement else .data
  | ctx =>
      if isComment line then ctx
      else if !startswith line "//".toList then .statement
      else if ctx = .continued ∧ continues line then
        if isContinued (operandField false (lstrip (line.drop 2))) then .continued else .statement
      else
        let (_, operation, text) := statementFields (rstrip (line.drop 2))
        let field := operandField false text
        if upper operation = "DD".toList ∧ field = "DATA".toList then .data
        else if isContinued field then .continued
        else .statement

def contextAt (lines : List Text) (i : ℕ) : Context :=
  (lines.take i).foldl Context.next .statement

/-- A `JOB`, `EXEC` or `DD` statement. -/
structure JclStatement where
  name : Text
  operation : Operation
  /-- The rest of its line behind the operation field. -/
  text : Text
  /-- Its operand field, continued lines included. -/
  operands : Text
  deriving DecidableEq, Repr

/-- The operation of an operation field. -/
def operationOf (field : Text) : Option Operation :=
  [Operation.job, .exec, .dd].find? fun op => upper field = op.keyword.toList

/-- The statement a line holds, with the lines behind it. -/
def statementOf (line : Text) (rest : List Text) : Option JclStatement :=
  if !startswith line "//".toList || isComment line then none
  else
    let (name, operation, text) := statementFields (rstrip (line.drop 2))
    let field := operandField false text
    (operationOf operation).map fun op =>
      ⟨name, op, text, field ++ if isContinued field then continuation rest else []⟩

/-- The statement on a line of a source. -/
def statementAt (lines : List Text) (i : ℕ) : Option JclStatement :=
  match lines[i]? with
  | none => none
  | some line =>
      match contextAt lines i with
      | .data => none
      | .continued => if continues line then none else statementOf line (lines.drop (i + 1))
      | .statement => statementOf line (lines.drop (i + 1))

/-! ### What the operands name -/

/-- A name at the start of a text, up to a comma or a blank. -/
def nameAt (text : Text) : Text :=
  text.takeWhile fun c => !isSpace c && c ≠ ','

namespace JclStatement

/-- The program of an `EXEC` statement: `PGM=` is the first of its operands. -/
def program (st : JclStatement) : Text :=
  if startsWithKey "PGM=" st.text then nameAt (st.text.drop 4) else []

/-- The procedure of an `EXEC` statement, with or without `PROC=`. -/
def procedure (st : JclStatement) : Text :=
  if startsWithKey "PGM=" st.text then []
  else if startsWithKey "PROC=" st.text then nameAt (st.text.drop 5)
  else nameAt st.text

/-- The dataset of a `DD` statement. -/
def dataset (st : JclStatement) : Text :=
  lastValue ["DSN=", "DSNAME="] st.operands

/-- The `COND` parameter. -/
def cond (st : JclStatement) : Option Text :=
  (parseParameters st.operands).get "COND"

end JclStatement

/-! ### Jobs and steps in effect -/

/-- The lines of the job and of the step a line belongs to. -/
@[ext]
structure Owner where
  job : Option ℕ
  step : Option ℕ
  deriving DecidableEq, Repr

/-- The owner behind a line: a `JOB` statement starts a job, an `EXEC` statement a step. -/
def Owner.next (o : Owner) (i : ℕ) : Option Operation → Owner
  | some .job => ⟨some i, none⟩
  | some .exec => ⟨o.job, some i⟩
  | _ => o

/-- The job and the step in effect behind the first `n` lines. -/
def ownerUpTo (lines : List Text) : ℕ → Owner
  | 0 => ⟨none, none⟩
  | n + 1 => (ownerUpTo lines n).next n ((statementAt lines n).map JclStatement.operation)

end CobolJava.Jcl
