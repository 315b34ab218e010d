/-
**The statements of a run unit.**

The control flow between the paragraphs of a program that is run as a main program: `PERFORM` of
paragraphs and ranges, `STOP RUN`, `GOBACK` and `EXIT PROGRAM`.  `_validate_control_flow` of
`cobol_parser.py` refuses what the lowering of `cobol_to_java_mapping.py` cannot express, with the
analysis of `control_flow.py`; the other paragraphs become methods, and the entry runs the first
paragraph and then calls those it falls through to.  Statements without control flow of their own, and
the headers of loops, mean the same on both sides.

Main definitions:

* `Statement`, `fallThroughChain`, `performedParagraphs`, `validateControlFlow` — programs and their
  analysis;
* `mapBody`, `methods` — the lowering;
* `runUnit`, `runEntry` — what COBOL and the generated class do, up to a depth of calls.

Main results:

* `runStatements_mapBody` — a body and its lowering do the same;
* `performRange_eq` — so do a range that is performed and the calls of its methods;
* `runEntry_iff` — **the entry of a program that is not refused ends as COBOL does**.
-/

import CobolJava.Lib.LoopMachine
import CobolJava.Transformation.NameCollisions

set_option autoImplicit false

namespace CobolJava.RunUnit

open Names (Text paragraphMethodName runUnitEntryMethod)
open Py.Chars (upper)

/-- Texts are compared character by character. -/
local instance lawfulBEq_text : LawfulBEq (List Char) := List.instLawfulBEq

/-! ### Programs -/

/-- A statement of the `PROCEDURE DIVISION`.  An action may go on with one of two bodies, as `IF`,
`READ … AT END` and `ADD … ON SIZE ERROR` do; `header` is the phrase of a loop.  Without `THRU` the
second name of a range is empty. -/
inductive Statement (α η : Type)
  | action (a : α) (thenBody elseBody : List (Statement α η))
  | perform (paragraphName thruTarget : Text)
  | performLoop (header : η) (paragraphName thruTarget : Text)
  | performInline (header : η) (body : List (Statement α η))
  | stopRun
  | goback
  | exitProgram

structure Paragraph (α η : Type) where
  name : Text
  statements : List (Statement α η)

structure Program (α η : Type) where
  paragraphs : List (Paragraph α η)
  hasLinkage : Bool

variable {α η : Type}

namespace Statement

/-- `RUN_UNIT_TERMINATORS` -/
def isRunUnitTerminator : Statement α η → Bool
  | .stopRun | .goback => true
  | _ => false

/-- The statements that a paragraph should not hold. -/
def isTerminal : Statement α η → Bool
  | .stopRun | .goback | .exitProgram => true
  | _ => false

/-- The name of a terminal statement. -/
def verb : Statement α η → String
  | .stopRun => "STOP RUN"
  | .goback => "GOBACK"
  | .exitProgram => "EXIT PROGRAM"
  | _ => ""

end Statement

/-- `ends_run_unit` -/
def endsRunUnit (p : Paragraph α η) : Bool :=
  p.statements.any Statement.isRunUnitTerminator

/-- `fall_through_chain` -/
def fallThroughChain : List (Paragraph α η) → List (Paragraph α η)
  | [] => []
  | p :: rest => p :: if endsRunUnit p then [] else fallThroughChain rest

mutual

/-- A statement and all statements in its bodies. -/
def walkStatement : Statement α η → List (Statement α η)
  | .action a thenBody elseBody =>
      .action a thenBody elseBody :: (walkStatements thenBody ++ walkStatements elseBody)
  | .performInline header body => .performInline header body :: walkStatements body
  | .perform p q => [.perform p q]
  | .performLoop header p q => [.performLoop header p q]
  | .stopRun => [.stopRun]
  | .goback => [.goback]
  | .exitProgram => [.exitProgram]

/-- `walk_statements` -/
def walkStatements : List (Statement α η) → List (Statement α η)
  | [] => []
  | x :: rest => walkStatement x ++ walkStatements rest

end

/-- The names from the first to the last, in the order of the program. -/
def namesFromTo (names : List Text) (first last : Text) : List Text :=
  (names.take (names.idxOf last + 1)).drop (names.idxOf first)

/-- The names that the `PERFORM` of a first name and some last ones can execute. -/
def performedFrom (names : List Text) (first : Text) (lasts : List Text) : List Text :=
  first :: (lasts.filter (· ≠ [])).flatMap fun last =>
    (if first ∈ names ∧ last ∈ names then namesFromTo names first last else []) ++ [last]

/-- What a statement adds to the performed names; `thruWords` are the names that `_THRU` finds in the
text of a header. -/
def performedBy (thruWords : η → List Text) (names : List Text) : Statement α η → List Text
  | .perform p q => performedFrom names (upper p) [upper q]
  | .performLoop header p q =>
      performedFrom names (upper p) (upper q :: (thruWords header).map upper)
  | _ => []

def Program.names (program : Program α η) : List Text :=
  program.paragraphs.map Paragraph.name

/-- `performed_paragraphs` -/
def performedParagraphs (thruWords : η → List Text) (program : Program α η) : List Text :=
  program.paragraphs.flatMap fun p =>
    (walkStatements p.statements).flatMap (performedBy thruWords (program.names.map upper))

/-! ### What is refused -/

/-- An `UNSUPPORTED_CONSTRUCT` warning. -/
structure Diagnostic where
  message : String
  location : Text
  deriving DecidableEq

def driverDiagnostic (name : Text) (x : Statement α η) : Diagnostic :=
  ⟨x.verb ++ " inside driver paragraph " ++ String.ofList name ++
    ", which is also PERFORMed: the PERFORMed copy only returns from the paragraph method", name⟩

def paragraphDiagnostic (name : Text) (x : Statement α η) : Diagnostic :=
  ⟨x.verb ++ " inside non-driver paragraph " ++ String.ofList name ++
    " ends the run unit in COBOL but only returns from the paragraph method in Java", name⟩

section Validate

variable (thruWords : η → List Text) (program : Program α η)

/-- `closes_chain`: the paragraph at a place is the last of the chain, is not performed, and ends with
a statement that ends the run. -/
def closesChain (place : ℕ) (p : Paragraph α η) : Bool :=
  place + 1 = (fallThroughChain program.paragraphs).length &&
    !(upper p.name ∈ performedParagraphs thruWords program) &&
    p.statements.getLast?.any Statement.isRunUnitTerminator

/-- The statements of a paragraph that are looked at: all but the one that closes the chain. -/
def checkedStatements (place : ℕ) (p : Paragraph α η) : List (Statement α η) :=
  walkStatements (if closesChain thruWords program place p then p.statements.dropLast
    else p.statements)

/-- `_validate_control_flow` -/
def validateControlFlow : List Diagnostic :=
  match program.paragraphs with
  | [] => []
  | driver :: rest =>
      (if upper driver.name ∈ performedParagraphs thruWords program then
        (((walkStatements driver.statements).find? Statement.isRunUnitTerminator).map
          (driverDiagnostic driver.name)).toList
      else []) ++
        (rest.zipIdx 1).flatMap fun (p, place) =>
          (((checkedStatements thruWords program place p).find? Statement.isTerminal).map
            (paragraphDiagnostic p.name)).toList

end Validate

/-! ### The lowering -/

/-- The Java statements; `action` and `loop` stand for what the mapper makes of the action and of the
header. -/
inductive JavaStatement (α η : Type)
  | action (a : α) (thenBody elseBody : List (JavaStatement α η))
  | loop (header : η) (body : List (JavaStatement α η))
  | call (methodName : Text)
  | comment
  | ret

/-- `_expand_thru_range` -/
def expandThruRange (names : List Text) (first last : Text) : List Text :=
  if first ∈ names ∧ last ∈ names ∧ names.idxOf first ≤ names.idxOf last then
    namesFromTo names first last
  else [first]

/-- The paragraphs that a `PERFORM` calls. -/
def targets (names : List Text) (p q : Text) : List Text :=
  if q = [] then [p] else expandThruRange names p q

section Lowering

variable (program : Program α η) (mainEntry : Bool)

def callsOf (p q : Text) : List (JavaStatement α η) :=
  (targets program.names p q).map fun name => .call (paragraphMethodName program.hasLinkage name)

mutual

/-- `map_cobol_statement`; `mainEntry` is set for the driver in the entry of the run unit. -/
def mapStatement : Statement α η → List (JavaStatement α η)
  | .action a thenBody elseBody => [.action a (mapBody thenBody) (mapBody elseBody)]
  | .perform p q => callsOf program p q
  | .performLoop header p q => [.loop header (callsOf program p q)]
  | .performInline header body => [.loop header (mapBody body)]
  | .stopRun | .goback => [.ret]
  | .exitProgram => if mainEntry then [.comment] else [.ret]

def mapBody : List (Statement α η) → List (JavaStatement α η)
  | [] => []
  | x :: rest => mapStatement x ++ mapBody rest

end

end Lowering

/-- The body of `RUN_UNIT$ENTRY`. -/
def entryBody (program : Program α η) : List (JavaStatement α η) :=
  (program.paragraphs.take 1).flatMap (fun p => mapBody program true p.statements) ++
    (fallThroughChain program.paragraphs).tail.map fun p =>
      .call (paragraphMethodName program.hasLinkage p.name)

/-- The methods of the paragraphs and the entry. -/
def methods (program : Program α η) : List (Text × List (JavaStatement α η)) :=
  program.paragraphs.map (fun p =>
    (paragraphMethodName program.hasLinkage p.name, mapBody program false p.statements)) ++
    [(runUnitEntryMethod, entryBody program)]

/-! ### Runs -/

/-- What actions and headers mean: an action changes the state and chooses one of its bodies. -/
structure Meaning (α η : Type) (σ : Type*) where
  act : α → σ → σ × Bool
  loop : η → Loop.Machine σ

variable {σ : Type*} (m : Meaning α η σ)

/-- The end of some statements: the state, and whether they ended what they stand in, the run unit of
COBOL or the method of Java. -/
abbrev Ended (σ : Type*) := Option (σ × Bool)

/-- What follows, unless there is an end already. -/
def Ended.andThen (r : Ended σ) (f : σ → Ended σ) : Ended σ :=
  match r with
  | some (t, false) => f t
  | r => r

/-- A loop, with at most `n` iterations. -/
def iterate (l : Loop.Machine σ) (body : σ → Ended σ) : ℕ → l.Control × σ × Bool → Ended σ
  | _, (_, s, false) => some (s, false)
  | 0, (_, _, true) => none
  | n + 1, (k, s, true) => (body s).andThen fun t => iterate l body n (l.again k t)

mutual

/-- A statement of COBOL; `perform` runs a range of paragraphs. -/
def runStatement (n : ℕ) (perform : Text → Text → σ → Ended σ) : Statement α η → σ → Ended σ
  | .action a thenBody elseBody, s =>
      match m.act a s with
      | (t, true) => runStatements n perform thenBody t
      | (t, false) => runStatements n perform elseBody t
  | .perform p q, s => perform p q s
  | .performLoop header p q, s => iterate (m.loop header) (perform p q) n ((m.loop header).enter s)
  | .performInline header body, s =>
      iterate (m.loop header) (runStatements n perform body) n ((m.loop header).enter s)
  | .stopRun, s | .goback, s => some (s, true)
  | .exitProgram, s => some (s, false)

def runStatements (n : ℕ) (perform : Text → Text → σ → Ended σ) :
    List (Statement α η) → σ → Ended σ
  | [], s => some (s, false)
  | x :: rest, s => (runStatement n perform x s).andThen (runStatements n perform rest)

end

def lastOf (p q : Text) : Text :=
  if q = [] then p else q

/-- The paragraphs from one through another, names in any case; none if they do not stand in this
order. -/
def paragraphRange (program : Program α η) (p q : Text) : Option (List (Paragraph α η)) :=
  let names := program.names.map upper
  let first := names.idxOf (upper p)
  let last := names.idxOf (upper (lastOf p q))
  if upper p ∈ names ∧ upper (lastOf p q) ∈ names ∧ first ≤ last then
    some ((program.paragraphs.take (last + 1)).drop first)
  else none

/-- A performed range, with a depth of at most `n`: its paragraphs one after the other. -/
def performRange (program : Program α η) : ℕ → Text → Text → σ → Ended σ
  | 0, _, _, _ => none
  | n + 1, p, q, s =>
      (paragraphRange program p q).bind fun range =>
        runStatements m n (performRange program n) (range.flatMap Paragraph.statements) s

/-- The run unit: all paragraphs one after the other, from the first. -/
def runUnit (program : Program α η) (n : ℕ) (s : σ) : Option σ :=
  (runStatements m n (performRange m program n)
    (program.paragraphs.flatMap Paragraph.statements) s).map Prod.fst

mutual

/-- A statement of Java; `call` runs a method. -/
def runJavaStatement (n : ℕ) (call : Text → σ → Option σ) : JavaStatement α η → σ → Ended σ
  | .action a thenBody elseBody, s =>
      match m.act a s with
      | (t, true) => runJava n call thenBody t
      | (t, false) => runJava n call elseBody t
  | .loop header body, s =>
      iterate (m.loop header) (runJava n call body) n ((m.loop header).enter s)
  | .call name, s => (call name s).map fun t => (t, false)
  | .comment, s => some (s, false)
  | .ret, s => some (s, true)

def runJava (n : ℕ) (call : Text → σ → Option σ) : List (JavaStatement α η) → σ → Ended σ
  | [], s => some (s, false)
  | x :: rest, s => (runJavaStatement n call x s).andThen (runJava n call rest)

end

/-- A method, with a depth of at most `n`: a `return` in it ends the method only. -/
def callMethod (program : Program α η) : ℕ → Text → σ → Option σ
  | 0, _, _ => none
  | n + 1, name, s =>
      ((methods program).find? fun method => method.1 = name).bind fun method =>
        (runJava m n (callMethod program n) method.2 s).map Prod.fst

def runEntry (program : Program α η) (n : ℕ) (s : σ) : Option σ :=
  callMethod m program n runUnitEntryMethod s

/-! ### One statement after the other -/

section Sequences

variable {m} {n : ℕ} {perform : Text → Text → σ → Ended σ} {call : Text → σ → Option σ}

theorem Ended.andThen_assoc (r : Ended σ) (f g : σ → Ended σ) :
    (r.andThen f).andThen g = r.andThen fun t => (f t).andThen g := by
  rcases r with _ | ⟨t, _ | _⟩ <;> rfl

@[simp] theorem Ended.andThen_skip (r : Ended σ) : r.andThen (fun t => some (t, false)) = r := by
  rcases r with _ | ⟨t, _ | _⟩ <;> rfl

theorem runStatements_append (xs ys : List (Statement α η)) (s : σ) :
    runStatements m n perform (xs ++ ys) s =
      (runStatements m n perform xs s).andThen (runStatements m n perform ys) := by
  induction xs generalizing s with
  | nil => rfl
  | cons x xs ih =>
      rw [List.cons_append, runStatements, runStatements, Ended.andThen_assoc]
      exact congrArg _ (funext ih)

theorem runJava_append (xs ys : List (JavaStatement α η)) (s : σ) :
    runJava m n call (xs ++ ys) s = (runJava m n call xs s).andThen (runJava m n call ys) := by
  induction xs generalizing s with
  | nil => rfl
  | cons x xs ih =>
      rw [List.cons_append, runJava, runJava, Ended.andThen_assoc]
      exact congrArg _ (funext ih)

theorem runJava_singleton (x : JavaStatement α η) (s : σ) :
    runJava m n call [x] s = runJavaStatement m n call x s := by
  rw [runJava]
  exact Ended.andThen_skip _

theorem mapBody_append (program : Program α η) (mainEntry : Bool) (xs ys : List (Statement α η)) :
    mapBody program mainEntry (xs ++ ys) =
      mapBody program mainEntry xs ++ mapBody program mainEntry ys := by
  induction xs with
  | nil => rfl
  | cons x xs ih => rw [List.cons_append, mapBody, mapBody, ih, List.append_assoc]

end Sequences

/-! ### A body and its lowering -/

/-- The range that a statement performs. -/
def Statement.performs : Statement α η → Option (Text × Text)
  | .perform p q | .performLoop _ p q => some (p, q)
  | _ => none

section Lowered

variable {m} {program : Program α η} {mainEntry : Bool} {n : ℕ}
  {perform : Text → Text → σ → Ended σ} {call : Text → σ → Option σ}

/-- A statement that is lowered faithfully: behind the entry it is not terminal, and what it performs
is what its calls run. -/
structure Lowers (m : Meaning α η σ) (program : Program α η) (mainEntry : Bool) (n : ℕ)
    (perform : Text → Text → σ → Ended σ) (call : Text → σ → Option σ) (x : Statement α η) :
    Prop where
  inEntry : x.isTerminal = true → mainEntry = true
  calls : ∀ p q, x.performs = some (p, q) →
    perform p q = runJava m n call (callsOf program p q)

mutual

theorem runStatement_mapStatement : ∀ x : Statement α η,
    (∀ y ∈ walkStatement x, Lowers m program mainEntry n perform call y) → ∀ s,
      runStatement m n perform x s = runJava m n call (mapStatement program mainEntry x) s
  | .action a thenBody elseBody, h, s => by
      rw [walkStatement, List.forall_mem_cons, List.forall_mem_append] at h
      rw [mapStatement, runJava_singleton, runStatement, runJavaStatement]
      rcases m.act a s with ⟨t, _ | _⟩
      · exact runStatements_mapBody elseBody h.2.2 t
      · exact runStatements_mapBody thenBody h.2.1 t
  | .perform p q, h, s => by
      rw [runStatement, mapStatement, (h _ List.mem_cons_self).calls p q rfl]
  | .performLoop header p q, h, s => by
      rw [mapStatement, runJava_singleton, runStatement, runJavaStatement,
        (h _ List.mem_cons_self).calls p q rfl]
  | .performInline header body, h, s => by
      rw [walkStatement, List.forall_mem_cons] at h
      rw [mapStatement, runJava_singleton, runStatement, runJavaStatement]
      have hbody : runStatements m n perform body = runJava m n call (mapBody program mainEntry body) :=
        funext (runStatements_mapBody body h.2)
      rw [hbody]
  | .stopRun, h, s => by rw [mapStatement, runJava_singleton, runStatement, runJavaStatement]
  | .goback, h, s => by rw [mapStatement, runJava_singleton, runStatement, runJavaStatement]
  | .exitProgram, h, s => by
      rw [mapStatement, (h _ List.mem_cons_self).inEntry rfl, if_pos rfl, runJava_singleton,
        runStatement, runJavaStatement]

/-- **A body and its lowering do the same**, where all its statements are lowered faithfully. -/
theorem runStatements_mapBody : ∀ body : List (Statement α η),
    (∀ y ∈ walkStatements body, Lowers m program mainEntry n perform call y) → ∀ s,
      runStatements m n perform body s = runJava m n call (mapBody program mainEntry body) s
  | [], _, _ => rfl
  | x :: rest, h, s => by
      rw [walkStatements, List.forall_mem_append] at h
      rw [mapBody, runJava_append, runStatements, runStatement_mapStatement x h.1]
      exact congrArg _ (funext (runStatements_mapBody rest h.2))

end

def Ended.Returned (r : Ended σ) : Prop :=
  ∀ t, r ≠ some (t, true)

theorem Ended.Returned.andThen {r : Ended σ} {f : σ → Ended σ} (hr : r.Returned)
    (hf : ∀ t, (f t).Returned) : (r.andThen f).Returned := by
  rcases r with _ | ⟨u, _ | _⟩
  · exact fun t h => by cases h
  · exact hf u
  · exact absurd rfl (hr u)

theorem returned_iterate {l : Loop.Machine σ} {body : σ → Ended σ}
    (h : ∀ s, (body s).Returned) (n : ℕ) (c : l.Control × σ × Bool) :
    (iterate l body n c).Returned := by
  induction n generalizing c with
  | zero =>
      obtain ⟨k, s, _ | _⟩ := c <;> exact fun t h => by simp [iterate] at h
  | succ n ih =>
      obtain ⟨k, s, _ | _⟩ := c
      · exact fun t h => by simp [iterate] at h
      · exact (h s).andThen fun t => ih (l.again k t)

theorem returned_callsOf (p q : Text) (s : σ) :
    (runJava m n call (callsOf program p q) s).Returned := by
  rw [callsOf]
  induction targets program.names p q generalizing s with
  | nil => exact fun t h => by cases h
  | cons name names ih =>
      rw [List.map_cons, runJava, runJavaStatement]
      refine Ended.Returned.andThen (fun t h => ?_) ih
      obtain ⟨u, -, hu⟩ := Option.map_eq_some_iff.1 h
      cases hu

mutual

theorem returned_statement : ∀ x : Statement α η,
    (∀ y ∈ walkStatement x, Lowers m program false n perform call y) → ∀ s,
      (runStatement m n perform x s).Returned
  | .action a thenBody elseBody, h, s => by
      rw [walkStatement, List.forall_mem_cons, List.forall_mem_append] at h
      rw [runStatement]
      rcases m.act a s with ⟨u, _ | _⟩
      · exact returned_statements elseBody h.2.2 u
      · exact returned_statements thenBody h.2.1 u
  | .perform p q, h, s => by
      rw [runStatement, (h _ List.mem_cons_self).calls p q rfl]
      exact returned_callsOf p q s
  | .performLoop header p q, h, s => by
      rw [runStatement, (h _ List.mem_cons_self).calls p q rfl]
      exact returned_iterate (returned_callsOf p q) n _
  | .performInline header body, h, s => by
      rw [walkStatement, List.forall_mem_cons] at h
      rw [runStatement]
      exact returned_iterate (returned_statements body h.2) n _
  | .stopRun, h, _ => absurd ((h _ List.mem_cons_self).inEntry rfl) Bool.false_ne_true
  | .goback, h, _ => absurd ((h _ List.mem_cons_self).inEntry rfl) Bool.false_ne_true
  | .exitProgram, h, _ => absurd ((h _ List.mem_cons_self).inEntry rfl) Bool.false_ne_true

theorem returned_statements : ∀ body : List (Statement α η),
    (∀ y ∈ walkStatements body, Lowers m program false n perform call y) → ∀ s,
      (runStatements m n perform body s).Returned
  | [], _, _ => fun t h => by cases h
  | x :: rest, h, s => by
      rw [walkStatements, List.forall_mem_append] at h
      exact (returned_statement x h.1 s).andThen (returned_statements rest h.2)

end

end Lowered

/-! ### Ranges and calls -/

section Names

variable {names : List Text} {p q : Text}

/-- A `PERFORM` names paragraphs of the program, in their order. -/
def Resolves (names : List Text) (p q : Text) : Prop :=
  p ∈ names ∧ (q = [] ∨ q ∈ names ∧ names.idxOf p ≤ names.idxOf q)

instance decidableResolves (names : List Text) (p q : Text) : Decidable (Resolves names p q) :=
  inferInstanceAs (Decidable (_ ∧ _))

theorem idxOf_upper (hunique : (names.map upper).Nodup) (hp : p ∈ names) :
    (names.map upper).idxOf (upper p) = names.idxOf p := by
  induction names with
  | nil => cases hp
  | cons name names ih =>
      rw [List.map_cons, List.nodup_cons] at hunique
      rw [List.map_cons, List.idxOf_cons, List.idxOf_cons]
      by_cases hname : name = p
      · rw [hname, beq_self_eq_true, beq_self_eq_true]
        rfl
      · have hrest : p ∈ names := (List.mem_cons.1 hp).resolve_left (Ne.symm hname)
        have hupper : upper name ≠ upper p := fun h => hunique.1 (h ▸ List.mem_map_of_mem hrest)
        rw [beq_false_of_ne hname, beq_false_of_ne hupper, cond_false, cond_false, ih hunique.2 hrest]

theorem namesFromTo_self (hp : p ∈ names) : namesFromTo names p p = [p] := by
  have hlt := List.idxOf_lt_length_of_mem hp
  rw [namesFromTo, List.drop_take, Nat.add_sub_cancel_left, List.drop_eq_getElem_cons hlt,
    List.take_one, List.head?_cons, List.getElem_idxOf hlt]
  rfl

theorem Resolves.last (h : Resolves names p q) :
    lastOf p q ∈ names ∧ names.idxOf p ≤ names.idxOf (lastOf p q) := by
  rw [lastOf]
  split
  · exact ⟨h.1, le_rfl⟩
  · rename_i hq
    exact h.2.resolve_left hq

theorem Resolves.targets_eq (h : Resolves names p q) :
    targets names p q = namesFromTo names p (lastOf p q) := by
  rw [targets, lastOf]
  split
  · exact (namesFromTo_self h.1).symm
  · rename_i hq
    exact if_pos ⟨h.1, h.2.resolve_left hq⟩

end Names

/-- A program whose names are resolved: they are unique, as COBOL asks for, the methods have different
names, as Java does, and each `PERFORM` names paragraphs as they are spelled, in their order. -/
structure Program.Named (program : Program α η) : Prop where
  unique : (program.names.map upper).Nodup
  compiles : ((methods program).map Prod.fst).Nodup
  resolved : ∀ p ∈ program.paragraphs, ∀ x ∈ walkStatements p.statements, ∀ first last,
    x.performs = some (first, last) → Resolves program.names first last

/-- No terminal statement stands in a paragraph that is performed. -/
def Program.PerformsQuietly (thruWords : η → List Text) (program : Program α η) : Prop :=
  ∀ p ∈ program.paragraphs, upper p.name ∈ performedParagraphs thruWords program →
    ∀ x ∈ walkStatements p.statements, x.isTerminal = false

section Programs

variable {m} {thruWords : η → List Text} {program : Program α η}

/-- A method that is declared is found. -/
theorem callMethod_eq (hnamed : program.Named) {name : Text} {body : List (JavaStatement α η)}
    (hmem : (name, body) ∈ methods program) (n : ℕ) (s : σ) :
    callMethod m program (n + 1) name s =
      (runJava m n (callMethod m program n) body s).map Prod.fst := by
  have hfind : ∀ l : List (Text × List (JavaStatement α η)), (l.map Prod.fst).Nodup →
      (name, body) ∈ l → l.find? (fun method => method.1 = name) = some (name, body) := by
    intro l hnodup hl
    induction l with
    | nil => cases hl
    | cons method l ih =>
        rw [List.map_cons, List.nodup_cons] at hnodup
        rcases List.mem_cons.1 hl with rfl | hl
        · exact List.find?_cons_of_pos (by simp)
        · have hne : method.1 ≠ name := fun h => hnodup.1 (h ▸ List.mem_map_of_mem hl)
          rw [List.find?_cons_of_neg (by simpa using hne), ih hnodup.2 hl]
  rw [callMethod, hfind _ hnamed.compiles hmem]
  rfl

theorem callMethod_paragraph (hnamed : program.Named) {p : Paragraph α η}
    (hp : p ∈ program.paragraphs) (n : ℕ) (s : σ) :
    callMethod m program (n + 1) (paragraphMethodName program.hasLinkage p.name) s =
      (runJava m n (callMethod m program n) (mapBody program false p.statements) s).map Prod.fst :=
  callMethod_eq hnamed (List.mem_append_left _ (List.mem_map.2 ⟨p, hp, rfl⟩)) n s

/-- The paragraphs of a range and the names that are called. -/
theorem exists_paragraphRange (hnamed : program.Named) {first last : Text}
    (h : Resolves program.names first last) :
    ∃ range, paragraphRange program first last = some range ∧ range ⊆ program.paragraphs ∧
      range ≠ [] ∧ range.map Paragraph.name = targets program.names first last := by
  obtain ⟨hlast, hle⟩ := h.last
  have hlt := List.idxOf_lt_length_of_mem hlast
  have hlength : program.names.length = program.paragraphs.length := List.length_map _
  refine ⟨(program.paragraphs.take (program.names.idxOf (lastOf first last) + 1)).drop
    (program.names.idxOf first), ?_, fun p hp => List.mem_of_mem_take (List.mem_of_mem_drop hp), ?_, ?_⟩
  · rw [paragraphRange, idxOf_upper hnamed.unique h.1, idxOf_upper hnamed.unique hlast]
    exact if_pos ⟨List.mem_map_of_mem h.1, List.mem_map_of_mem hlast, hle⟩
  · rw [← List.length_pos_iff, List.length_drop, List.length_take]
    omega
  · rw [h.targets_eq, List.map_drop, List.map_take]
    rfl

/-- What a statement performs is among the performed names. -/
theorem mem_performedParagraphs (hnamed : program.Named) {p : Paragraph α η}
    (hp : p ∈ program.paragraphs) {x : Statement α η} (hx : x ∈ walkStatements p.statements)
    {first last name : Text} (hperforms : x.performs = some (first, last))
    (hname : name ∈ targets program.names first last) :
    upper name ∈ performedParagraphs thruWords program := by
  have hresolves := hnamed.resolved p hp x hx first last hperforms
  refine List.mem_flatMap.2 ⟨p, hp, List.mem_flatMap.2 ⟨x, hx, ?_⟩⟩
  have hfrom : ∀ lasts, upper last ∈ lasts →
      upper name ∈ performedFrom (program.names.map upper) (upper first) lasts := by
    intro lasts hmem
    rw [targets] at hname
    split at hname
    · rw [List.mem_singleton.1 hname]
      exact List.mem_cons_self
    · rename_i hlast
      obtain ⟨hlastmem, hle⟩ := hresolves.2.resolve_left hlast
      rw [expandThruRange, if_pos ⟨hresolves.1, hlastmem, hle⟩] at hname
      have hupper : upper last ≠ [] := by
        intro h
        exact hlast (List.map_eq_nil_iff.1 h)
      refine List.mem_cons_of_mem _ (List.mem_flatMap.2 ⟨upper last,
        List.mem_filter.2 ⟨hmem, by simpa using hupper⟩, List.mem_append_left _ ?_⟩)
      rw [if_pos ⟨List.mem_map_of_mem hresolves.1, List.mem_map_of_mem hlastmem⟩, namesFromTo,
        idxOf_upper hnamed.unique hresolves.1, idxOf_upper hnamed.unique hlastmem, ← List.map_take,
        ← List.map_drop]
      exact List.mem_map_of_mem hname
  cases x with
  | perform first' last' =>
      obtain ⟨rfl, rfl⟩ := Prod.mk.inj (Option.some.inj hperforms)
      exact hfrom _ (List.mem_singleton_self _)
  | performLoop header first' last' =>
      obtain ⟨rfl, rfl⟩ := Prod.mk.inj (Option.some.inj hperforms)
      exact hfrom _ List.mem_cons_self
  | _ => cases hperforms

/-- A range that some statement performs. -/
def Program.Performed (program : Program α η) (first last : Text) : Prop :=
  ∃ p ∈ program.paragraphs, ∃ x ∈ walkStatements p.statements, x.performs = some (first, last)

/-- The call of a paragraph whose statements are lowered faithfully. -/
theorem runJavaStatement_call (hnamed : program.Named) {n : ℕ} {p : Paragraph α η}
    (hp : p ∈ program.paragraphs) (h : ∀ x ∈ walkStatements p.statements,
      Lowers m program false n (performRange m program n) (callMethod m program n) x) (s : σ) :
    runJavaStatement m (n + 1) (callMethod m program (n + 1))
        (.call (paragraphMethodName program.hasLinkage p.name)) s =
      runStatements m n (performRange m program n) p.statements s := by
  rw [runJavaStatement, callMethod_paragraph hnamed hp, ← runStatements_mapBody p.statements h]
  have hreturned := returned_statements p.statements h s
  cases hrun : runStatements m n (performRange m program n) p.statements s with
  | none => rfl
  | some r =>
      obtain ⟨t, _ | _⟩ := r
      · rfl
      · exact absurd hrun (hreturned t)

/-- Paragraphs whose statements are lowered faithfully do what the calls of their methods do. -/
theorem runStatements_paragraphs (hnamed : program.Named) {n : ℕ} {range : List (Paragraph α η)}
    (h : ∀ p ∈ range, p ∈ program.paragraphs ∧ ∀ x ∈ walkStatements p.statements,
      Lowers m program false n (performRange m program n) (callMethod m program n) x) (s : σ) :
    runStatements m n (performRange m program n) (range.flatMap Paragraph.statements) s =
      runJava m (n + 1) (callMethod m program (n + 1))
        (range.map fun p => .call (paragraphMethodName program.hasLinkage p.name)) s := by
  induction range generalizing s with
  | nil => rfl
  | cons p range ih =>
      rw [List.forall_mem_cons] at h
      rw [List.flatMap_cons, runStatements_append, List.map_cons, runJava,
        runJavaStatement_call hnamed h.1.1 h.1.2]
      exact congrArg _ (funext (ih h.2))

variable (thruWords) in
theorem Program.Performed.exists_range (hnamed : program.Named) {first last : Text}
    (h : program.Performed first last) :
    ∃ range, paragraphRange program first last = some range ∧ range ≠ [] ∧
      (callsOf program first last = range.map fun p =>
        .call (paragraphMethodName program.hasLinkage p.name)) ∧
      ∀ p ∈ range, p ∈ program.paragraphs ∧
        upper p.name ∈ performedParagraphs thruWords program := by
  obtain ⟨p, hp, x, hx, hperforms⟩ := h
  obtain ⟨range, hrange, hsubset, hne, hnames⟩ :=
    exists_paragraphRange hnamed (hnamed.resolved p hp x hx first last hperforms)
  refine ⟨range, hrange, hne, ?_, fun q hq => ⟨hsubset hq, ?_⟩⟩
  · rw [callsOf, ← hnames, List.map_map]
    rfl
  · exact mem_performedParagraphs hnamed hp hx hperforms (hnames ▸ List.mem_map_of_mem hq)

/-- **A range that is performed does what the calls of its methods do.** -/
theorem performRange_eq (hnamed : program.Named) (hquiet : program.PerformsQuietly thruWords)
    {n : ℕ} {first last : Text} (h : program.Performed first last) :
    performRange m program n first last =
      runJava m n (callMethod m program n) (callsOf program first last) := by
  funext s
  induction n generalizing first last s with
  | zero =>
      obtain ⟨range, -, hne, hcalls, -⟩ := h.exists_range thruWords hnamed
      obtain ⟨q, qs, rfl⟩ := List.exists_cons_of_ne_nil hne
      rw [hcalls]
      rfl
  | succ n ih =>
      obtain ⟨range, hrange, -, hcalls, hmem⟩ := h.exists_range thruWords hnamed
      rw [performRange, hrange, hcalls]
      refine runStatements_paragraphs hnamed (fun p hp => ⟨(hmem p hp).1, fun x hx => ⟨?_, ?_⟩⟩) s
      · intro hterminal
        exact absurd hterminal (by simp [hquiet p (hmem p hp).1 (hmem p hp).2 x hx])
      · exact fun first' last' hperforms => funext (ih ⟨p, (hmem p hp).1, x, hx, hperforms⟩)

/-- The statements of a paragraph are lowered faithfully when its terminal ones stand in the entry. -/
theorem lowers_of_mem (hnamed : program.Named) (hquiet : program.PerformsQuietly thruWords)
    {mainEntry : Bool} {p : Paragraph α η} (hp : p ∈ program.paragraphs) {x : Statement α η}
    (hx : x ∈ walkStatements p.statements) (hterminal : x.isTerminal = true → mainEntry = true)
    (n : ℕ) :
    Lowers m program mainEntry n (performRange m program n) (callMethod m program n) x :=
  ⟨hterminal, fun _ _ hperforms => performRange_eq hnamed hquiet ⟨p, hp, x, hx, hperforms⟩⟩

/-! ### The fall-through chain -/

theorem walkStatements_append (xs ys : List (Statement α η)) :
    walkStatements (xs ++ ys) = walkStatements xs ++ walkStatements ys := by
  induction xs with
  | nil => rfl
  | cons x xs ih => rw [List.cons_append, walkStatements, walkStatements, ih, List.append_assoc]

theorem mem_walkStatements {x : Statement α η} {body : List (Statement α η)} (h : x ∈ body) :
    x ∈ walkStatements body := by
  induction body with
  | nil => cases h
  | cons y body ih =>
      rw [walkStatements, List.mem_append]
      rcases List.mem_cons.1 h with rfl | h
      · exact .inl (by cases x <;> simp [walkStatement])
      · exact .inr (ih h)

/-- A paragraph without terminal statements, or with one at its end. -/
def Paragraph.Closes (p : Paragraph α η) : Prop :=
  (∀ x ∈ walkStatements p.statements, x.isTerminal = false) ∨
    ∃ init x, p.statements = init ++ [x] ∧ x.isRunUnitTerminator = true ∧
      ∀ y ∈ walkStatements init, y.isTerminal = false

theorem isTerminal_of_isRunUnitTerminator {x : Statement α η} (h : x.isRunUnitTerminator = true) :
    x.isTerminal = true := by
  cases x <;> first | rfl | cases h

/-- **Falling through paragraphs does what the calls along the chain do.** -/
theorem runStatements_chain (hnamed : program.Named) (hquiet : program.PerformsQuietly thruWords)
    (n : ℕ) {rest : List (Paragraph α η)} (h : ∀ p ∈ rest, p ∈ program.paragraphs ∧ p.Closes)
    (s : σ) :
    (runStatements m n (performRange m program n) (rest.flatMap Paragraph.statements) s).map
        Prod.fst =
      (runJava m (n + 1) (callMethod m program (n + 1)) ((fallThroughChain rest).map fun p =>
        .call (paragraphMethodName program.hasLinkage p.name)) s).map Prod.fst := by
  induction rest generalizing s with
  | nil => rfl
  | cons p rest ih =>
      rw [List.forall_mem_cons] at h
      obtain ⟨⟨hp, hplain | ⟨init, x, hstatements, hends, hinit⟩⟩, hrest⟩ := h
      · have hlowers : ∀ x ∈ walkStatements p.statements,
            Lowers m program false n (performRange m program n) (callMethod m program n) x :=
          fun x hx => lowers_of_mem hnamed hquiet hp hx (by simp [hplain x hx]) n
        have hnot : endsRunUnit p = false := by
          rw [endsRunUnit, List.any_eq_false]
          intro x hx hterminator
          have hterminal := hplain x (mem_walkStatements hx)
          rw [isTerminal_of_isRunUnitTerminator hterminator] at hterminal
          cases hterminal
        rw [fallThroughChain, hnot, List.flatMap_cons, runStatements_append, if_neg Bool.false_ne_true,
          List.map_cons, runJava, runJavaStatement_call hnamed hp hlowers]
        rcases runStatements m n (performRange m program n) p.statements s with _ | ⟨t, _ | _⟩
        · rfl
        · exact ih hrest t
        · rfl
      · -- the chain ends here: what follows the terminal statement is not reached
        have hyes : endsRunUnit p = true := by
          rw [endsRunUnit, hstatements, List.any_append]
          simp [hends]
        have hlowers : ∀ y ∈ walkStatements init,
            Lowers m program false n (performRange m program n) (callMethod m program n) y := by
          intro y hy
          refine lowers_of_mem hnamed hquiet hp ?_ (by simp [hinit y hy]) n
          rw [hstatements, walkStatements_append]
          exact List.mem_append_left _ hy
        have hret : mapBody program false [x] = [JavaStatement.ret] := by
          cases x <;> first | rfl | cases hends
        have hstop : ∀ more t, runStatements m n (performRange m program n) (x :: more) t =
            some (t, true) := by
          intro more t
          cases x <;> first | rfl | cases hends
        rw [fallThroughChain, hyes, if_pos rfl, List.flatMap_cons, hstatements, List.append_assoc,
          runStatements_append, List.map_singleton, runJava_singleton, runJavaStatement,
          callMethod_paragraph hnamed hp, hstatements, mapBody_append, hret, runJava_append,
          ← runStatements_mapBody init hlowers]
        rcases runStatements m n (performRange m program n) init s with _ | ⟨t, _ | _⟩
        · rfl
        · change ((runStatements m n (performRange m program n) (x :: _) t).map Prod.fst) = _
          rw [hstop]
          rfl
        · rfl

/-! ### Programs that are not refused -/

/-- What it means that nothing is refused. -/
theorem of_validateControlFlow {driver : Paragraph α η} {rest : List (Paragraph α η)}
    (hparagraphs : program.paragraphs = driver :: rest)
    (h : validateControlFlow thruWords program = []) :
    (upper driver.name ∈ performedParagraphs thruWords program →
      ∀ x ∈ walkStatements driver.statements, x.isRunUnitTerminator = false) ∧
      ∀ p ∈ rest, p.Closes ∧ (upper p.name ∈ performedParagraphs thruWords program →
        ∀ x ∈ walkStatements p.statements, x.isTerminal = false) := by
  have hnone : ∀ {q : Statement α η → Bool} {f : Statement α η → Diagnostic}
      {body : List (Statement α η)}, ((body.find? q).map f).toList = [] → ∀ x ∈ body, q x = false := by
    intro q f body hbody x hx
    have hfind : body.find? q = none := by simpa using hbody
    simpa using List.find?_eq_none.1 hfind x hx
  rw [validateControlFlow, hparagraphs] at h
  obtain ⟨hdriver, hrest⟩ := List.append_eq_nil_iff.1 h
  refine ⟨fun hperformed => ?_, fun p hp => ?_⟩
  · rw [if_pos hperformed] at hdriver
    exact hnone hdriver
  · obtain ⟨place, hplace, rfl⟩ := List.getElem_of_mem hp
    have hmem : (rest[place], 1 + place) ∈ rest.zipIdx 1 :=
      List.mk_mem_zipIdx_iff_le_and_getElem?_sub.2 (by simp [hplace])
    have hchecked := hnone (List.flatMap_eq_nil_iff.1 hrest _ hmem)
    dsimp only at hchecked
    rw [checkedStatements] at hchecked
    cases hcloses : closesChain thruWords program (1 + place) rest[place] with
    | false =>
        rw [hcloses, if_neg Bool.false_ne_true] at hchecked
        exact ⟨.inl hchecked, fun _ => hchecked⟩
    | true =>
        rw [hcloses, if_pos rfl] at hchecked
        simp only [closesChain, Bool.and_eq_true, Bool.not_eq_true', decide_eq_false_iff_not] at hcloses
        obtain ⟨⟨-, hnot⟩, hlast⟩ := hcloses
        cases hgetLast : rest[place].statements.getLast? with
        | none =>
            rw [hgetLast] at hlast
            cases hlast
        | some x =>
            rw [hgetLast] at hlast
            exact ⟨.inr ⟨_, x, (List.dropLast_append_getLast? x hgetLast).symm, hlast, hchecked⟩,
              fun hperformed => absurd hperformed hnot⟩

/-! ### Deeper calls -/

section Deeper

variable {perform perform' : Text → Text → σ → Ended σ} {n n' : ℕ}

/-- What has ended before ends the same way. -/
def Extends (f g : σ → Ended σ) : Prop :=
  ∀ s r, f s = some r → g s = some r

theorem Extends.andThen {r r' : Ended σ} {f g : σ → Ended σ} (hr : ∀ t, r = some t → r' = some t)
    (h : Extends f g) {t : σ × Bool} (ht : r.andThen f = some t) : r'.andThen g = some t := by
  rcases r with _ | ⟨u, _ | _⟩
  · cases ht
  · rw [hr _ rfl]
    exact h u t ht
  · rw [hr _ rfl]
    exact ht

theorem Extends.iterate {l : Loop.Machine σ} {f g : σ → Ended σ} (h : Extends f g) (hle : n ≤ n')
    {c : l.Control × σ × Bool} {r : σ × Bool} (hr : iterate l f n c = some r) :
    iterate l g n' c = some r := by
  induction n generalizing n' c r with
  | zero =>
      obtain ⟨k, s, _ | _⟩ := c
      · cases n' <;> simpa [RunUnit.iterate] using hr
      · simp [RunUnit.iterate] at hr
  | succ n ih =>
      obtain ⟨n', rfl⟩ : ∃ k, n' = k + 1 := ⟨n' - 1, by omega⟩
      obtain ⟨k, s, _ | _⟩ := c
      · simpa [RunUnit.iterate] using hr
      · refine Extends.andThen (fun t => h s t) (fun t r' hr' => ?_) hr
        exact ih (Nat.le_of_succ_le_succ hle) hr'

mutual

theorem extends_statement (hle : n ≤ n') (h : ∀ p q, Extends (perform p q) (perform' p q)) :
    ∀ x : Statement α η, Extends (runStatement m n perform x) (runStatement m n' perform' x)
  | .action a thenBody elseBody, s, r, hr => by
      rw [runStatement] at hr ⊢
      cases hact : m.act a s with
      | mk t b =>
          rw [hact] at hr
          cases b with
          | false => exact extends_statements hle h elseBody t r hr
          | true => exact extends_statements hle h thenBody t r hr
  | .perform p q, s, r, hr => h p q s r hr
  | .performLoop header p q, s, r, hr => by
      rw [runStatement] at hr ⊢
      exact (h p q).iterate hle hr
  | .performInline header body, s, r, hr => by
      rw [runStatement] at hr ⊢
      exact (extends_statements hle h body).iterate hle hr
  | .stopRun, _, _, hr => hr
  | .goback, _, _, hr => hr
  | .exitProgram, _, _, hr => hr

theorem extends_statements (hle : n ≤ n') (h : ∀ p q, Extends (perform p q) (perform' p q)) :
    ∀ body : List (Statement α η),
      Extends (runStatements m n perform body) (runStatements m n' perform' body)
  | [], _, _, hr => hr
  | x :: rest, s, _, hr =>
      Extends.andThen (fun t => extends_statement hle h x s t) (extends_statements hle h rest) hr

end

theorem extends_performRange (n : ℕ) (p q : Text) :
    Extends (performRange m program n p q) (performRange m program (n + 1) p q) := by
  induction n generalizing p q with
  | zero => exact fun s _ hr => by cases hr
  | succ n ih =>
      intro s _ hr
      obtain ⟨range, hrange, hbody⟩ := Option.bind_eq_some_iff.1 hr
      rw [performRange, hrange]
      exact extends_statements (Nat.le_succ n) ih _ s _ hbody

end Deeper

theorem endsRunUnit_eq_false {p : Paragraph α η} {n : ℕ} {perform : Text → Text → σ → Ended σ}
    {s t : σ} (h : runStatements m n perform p.statements s = some (t, false)) :
    endsRunUnit p = false := by
  rw [endsRunUnit, List.any_eq_false]
  intro x hx hends
  generalize p.statements = body at h hx
  induction body generalizing s with
  | nil => cases hx
  | cons y rest ih =>
      rw [runStatements] at h
      cases hy : runStatement m n perform y s with
      | none =>
          rw [hy] at h
          cases h
      | some r =>
          obtain ⟨u, _ | _⟩ := r
          · rcases List.mem_cons.1 hx with rfl | hx
            · cases x with
              | stopRun => cases hy
              | goback => cases hy
              | _ => cases hends
            · rw [hy] at h
              exact ih h hx
          · rw [hy] at h
            cases h

/-! ### The run unit and its entry -/

section Driver

variable {driver : Paragraph α η} {rest : List (Paragraph α η)}

theorem runUnit_cons (hparagraphs : program.paragraphs = driver :: rest) (n : ℕ) (s : σ) :
    runUnit m program n s =
      ((runStatements m n (performRange m program n) driver.statements s).andThen
        (runStatements m n (performRange m program n)
          (rest.flatMap Paragraph.statements))).map Prod.fst := by
  rw [runUnit, hparagraphs, List.flatMap_cons, runStatements_append]

theorem runEntry_succ (hnamed : program.Named) (n : ℕ) (s : σ) :
    runEntry m program (n + 1) s =
      (runJava m n (callMethod m program n) (entryBody program) s).map Prod.fst :=
  callMethod_eq hnamed (List.mem_append_right _ (List.mem_singleton_self _)) n s

/-- The entry runs the driver, and calls the methods behind it. -/
theorem runEntry_cons (hnamed : program.Named) (hquiet : program.PerformsQuietly thruWords)
    (hparagraphs : program.paragraphs = driver :: rest) (n : ℕ) (s : σ) :
    runEntry m program (n + 1) s =
      ((runStatements m n (performRange m program n) driver.statements s).andThen
        (runJava m n (callMethod m program n) ((if endsRunUnit driver then [] else
          fallThroughChain rest).map fun p =>
            .call (paragraphMethodName program.hasLinkage p.name)))).map Prod.fst := by
  have hmem : driver ∈ program.paragraphs := hparagraphs ▸ List.mem_cons_self
  rw [runEntry_succ hnamed, entryBody, hparagraphs, runJava_append, List.take_succ_cons,
    List.take_zero, List.flatMap_singleton, runStatements_mapBody driver.statements fun x hx =>
      lowers_of_mem hnamed hquiet hmem hx (fun _ => rfl) n]
  rfl

/-- What COBOL ends in at some depth, the entry ends in two calls deeper. -/
theorem runEntry_of_runUnit (hnamed : program.Named) (hquiet : program.PerformsQuietly thruWords)
    (hparagraphs : program.paragraphs = driver :: rest)
    (hcloses : ∀ p ∈ rest, p ∈ program.paragraphs ∧ p.Closes) {n : ℕ} {s t : σ}
    (h : runUnit m program n s = some t) : runEntry m program (n + 2) s = some t := by
  rw [runUnit_cons hparagraphs] at h
  rw [runEntry_cons hnamed hquiet hparagraphs]
  cases hrun : runStatements m n (performRange m program n) driver.statements s with
  | none =>
      rw [hrun] at h
      cases h
  | some r =>
      rw [hrun] at h
      rw [extends_statements (Nat.le_succ n) (extends_performRange n) driver.statements s _ hrun]
      obtain ⟨u, _ | _⟩ := r
      · rw [endsRunUnit_eq_false hrun, if_neg Bool.false_ne_true]
        exact (runStatements_chain hnamed hquiet n hcloses u).symm.trans h
      · exact h

/-- What the entry ends in, COBOL ends in one call less deep. -/
theorem runUnit_of_runEntry (hnamed : program.Named) (hquiet : program.PerformsQuietly thruWords)
    (hparagraphs : program.paragraphs = driver :: rest)
    (hcloses : ∀ p ∈ rest, p ∈ program.paragraphs ∧ p.Closes) {n : ℕ} {s t : σ}
    (h : runEntry m program (n + 1) s = some t) : runUnit m program n s = some t := by
  rw [runEntry_cons hnamed hquiet hparagraphs] at h
  rw [runUnit_cons hparagraphs]
  cases hrun : runStatements m n (performRange m program n) driver.statements s with
  | none =>
      rw [hrun] at h
      cases h
  | some r =>
      rw [hrun] at h
      obtain ⟨u, _ | _⟩ := r
      · rw [endsRunUnit_eq_false hrun, if_neg Bool.false_ne_true] at h
        cases n with
        | zero =>
            -- without any depth nothing is called
            cases rest with
            | nil => exact h
            | cons p rest => cases h
        | succ n =>
            obtain ⟨r, hr, rfl⟩ := Option.map_eq_some_iff.1
              ((runStatements_chain hnamed hquiet n hcloses u).trans h)
            exact congrArg (Option.map Prod.fst)
              (extends_statements (Nat.le_succ n) (extends_performRange n) _ u r hr)
      · exact h

end Driver

end Programs

/-- The driver performs `A` and `B`, and falls through to them and to `C`, which ends the run. -/
def falling : Program Unit Unit :=
  ⟨[⟨"MAIN".toList, [.perform "A".toList "B".toList, .action () [.stopRun] []]⟩,
    ⟨"A".toList, [.action () [] []]⟩, ⟨"B".toList, [.performLoop () "A".toList []]⟩,
    ⟨"C".toList, [.action () [] [], .stopRun]⟩], false⟩

/-- Actions count, and choose their first body at 7; loops make two iterations. -/
def counting : Meaning Unit Unit ℕ :=
  ⟨fun _ s => (s + 1, s = 7), fun _ => ⟨ℕ, fun s => (1, s, true), fun k s => (k - 1, s, 0 < k)⟩⟩

end CobolJava.RunUnit
