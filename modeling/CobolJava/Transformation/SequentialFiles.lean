/-
**The line-sequential files of generated Java programs.**

`engine/transformation/file_io_support_template.py`: for a file that is opened with `keyLen` 0 the class
`CobolFileIo` keeps a reader in `IN` and a writer in `OUT`; `write` appends a line to the file and
flushes it, `read` hands out the next line.  A COBOL file is a list of records; the class keeps it as
long as a record is one line of well-paired characters.

Main definitions:

* `PathState`, `step` — what the class holds for a path, the file, and the calls;
* `LineFile`, `LineFile.step` — the file as COBOL sees it.

Main results:

* `run_refines` — **in every run the class answers as the file of records does**.
-/

import CobolJava.Transformation.KeyedImages

set_option autoImplicit false

namespace CobolJava.LineSequential

open Java (Text isOneLine wellPaired)
open CobolFileIo (Answer fileLines)

/-! ### The class -/

/-- What `CobolFileIo` holds for a path that is opened with `keyLen` 0, and the file.  A reader stands
for the lines that are left of the file it was opened for. -/
structure PathState where
  file : Option (List Char)
  /-- `IN.get(path)` -/
  reader : Option (List Text)
  /-- `OUT.containsKey(path)` -/
  writer : Bool
  deriving DecidableEq

/-- A call on a path. -/
inductive Call
  | openFile (mode : OpenMode)
  | close
  | write (record : Text)
  | read
  deriving DecidableEq

/-- `open(path, mode, 0)` -/
def openFile (s : PathState) (mode : OpenMode) : PathState × FileStatus :=
  if mode ≠ .output ∧ s.file = none then (s, .fileNotFound)
  else match mode with
    | .output => ({ s with file := some [], writer := true }, .ok)
    | .input => ({ s with reader := some (fileLines s.file) }, .ok)
    | .extend => ({ s with writer := true }, .ok)
    -- the writer does not append, which empties the file
    | .inputOutput => ({ s with file := some [], writer := true }, .ok)

/-- `write(path, rec, 0)` -/
def write (s : PathState) (record : Text) : PathState × FileStatus :=
  if s.writer then
    ({ s with file := some (s.file.getD [] ++ Java.encoded (record ++ [10])) }, .ok)
  else (s, .notFound)

/-- `read(path)` -/
def read (s : PathState) : PathState × Option Text :=
  match s.reader with
  | some (line :: rest) => ({ s with reader := some rest }, some line)
  | _ => (s, none)

/-- A call: the state after it, and what it returns. -/
def step (s : PathState) : Call → PathState × Answer
  | .openFile mode => (openFile s mode).map id .status
  | .close => ({ s with reader := none, writer := false }, .status .ok)
  | .write record => (write s record).map id .status
  | .read => (read s).map id .record

/-- Calls one after the other: the state after them, and what they return. -/
def run (s : PathState) : List Call → PathState × List Answer
  | [] => (s, [])
  | call :: calls => (run (step s call).1 calls).map id ((step s call).2 :: ·)

/-! ### The file of records -/

/-- How a file is open; for input with the records that are left. -/
inductive Opened
  | closed
  | reading (left : List Text)
  | writing

/-- A file as COBOL sees it: its records, if it exists. -/
structure LineFile where
  records : Option (List Text)
  opened : Opened

namespace LineFile

/-- A call.  A file that is open is not opened again, and a line-sequential file is not opened for
input and output. -/
def step (f : LineFile) : Call → Option (LineFile × Answer)
  | .openFile mode =>
      match f.opened, mode, f.records with
      | .closed, .output, _ => some (⟨some [], .writing⟩, .status .ok)
      | .closed, .input, some records => some (⟨some records, .reading records⟩, .status .ok)
      | .closed, .extend, some records => some (⟨some records, .writing⟩, .status .ok)
      | .closed, .inputOutput, _ => none
      | .closed, _, none => some (f, .status .fileNotFound)
      | _, _, _ => none
  | .close => some ({ f with opened := .closed }, .status .ok)
  | .write record =>
      match f.opened with
      | .writing => some ({ f with records := f.records.map (· ++ [record]) }, .status .ok)
      | _ => some (f, .status .notFound)
  | .read =>
      match f.opened with
      | .reading (record :: left) => some ({ f with opened := .reading left }, .record (some record))
      | _ => some (f, .record none)

def run (f : LineFile) : List Call → Option (LineFile × List Answer)
  | [] => some (f, [])
  | call :: calls => do
      let (f', answer) ← f.step call
      let (f'', answers) ← f'.run calls
      some (f'', answer :: answers)

end LineFile

/-! ### Records in lines -/

/-- A record that is one line of characters. -/
def isPlain (record : Text) : Bool :=
  isOneLine record && wellPaired record

def image (records : List Text) : List Char :=
  Java.encoded (records.flatMap fun r => r ++ [10])

theorem image_concat (records : List Text) (record : Text) :
    image (records ++ [record]) = image records ++ Java.encoded (record ++ [10]) := by
  have hone : image [record] = Java.encoded (record ++ [10]) := by simp [image]
  rw [← hone, image, image, image, encoded_lines, encoded_lines, encoded_lines, List.map_append,
    List.flatMap_append]

theorem fileLines_image {records : List Text} (h : ∀ r ∈ records, isPlain r = true) :
    fileLines (some (image records)) = records := by
  simp only [isPlain, Bool.and_eq_true] at h
  exact fileLines_encoded_lines (fun r hr => (h r hr).1) fun r hr => (h r hr).2

/-! ### The refinement -/

/-- The class holds a file of records. -/
structure Holds (f : LineFile) (s : PathState) : Prop where
  file : s.file = f.records.map image
  plain : ∀ records ∈ f.records, ∀ r ∈ records, isPlain r = true
  handles : match f.opened with
    | .closed => s.reader = none ∧ s.writer = false
    | .reading left => s.reader = some left ∧ s.writer = false
    | .writing => s.reader = none ∧ s.writer = true ∧ f.records.isSome

/-- A call that writes one line, if it writes. -/
def Call.isPlain : Call → Bool
  | .write record => LineSequential.isPlain record
  | _ => true

theorem Holds.step {f f' : LineFile} {s : PathState} {call : Call} {answer : Answer} (h : Holds f s)
    (hcall : call.isPlain = true) (hstep : f.step call = some (f', answer)) :
    (LineSequential.step s call).2 = answer ∧ Holds f' (LineSequential.step s call).1 := by
  obtain ⟨records, opened⟩ := f
  obtain ⟨file, reader, writer⟩ := s
  obtain ⟨hfile, hplain, hhandles⟩ := h
  dsimp only at hfile hplain hhandles
  subst hfile
  cases call with
  | openFile mode =>
      cases opened with
      | closed =>
          obtain ⟨rfl, rfl⟩ := hhandles
          cases mode with
          | output =>
              obtain ⟨rfl, rfl⟩ := Prod.mk.inj (Option.some.inj hstep)
              refine ⟨rfl, rfl, fun empty hempty r hr => ?_, rfl, rfl, rfl⟩
              rw [← Option.some.inj hempty] at hr
              cases hr
          | inputOutput => cases hstep
          | input =>
              cases records with
              | none =>
                  obtain ⟨rfl, rfl⟩ := Prod.mk.inj (Option.some.inj hstep)
                  exact ⟨rfl, rfl, hplain, rfl, rfl⟩
              | some records =>
                  obtain ⟨rfl, rfl⟩ := Prod.mk.inj (Option.some.inj hstep)
                  exact ⟨rfl, rfl, hplain, congrArg some (fileLines_image (hplain records rfl)), rfl⟩
          | extend =>
              cases records with
              | none =>
                  obtain ⟨rfl, rfl⟩ := Prod.mk.inj (Option.some.inj hstep)
                  exact ⟨rfl, rfl, hplain, rfl, rfl⟩
              | some records =>
                  obtain ⟨rfl, rfl⟩ := Prod.mk.inj (Option.some.inj hstep)
                  exact ⟨rfl, rfl, hplain, rfl, rfl, rfl⟩
      | reading left => cases hstep
      | writing => cases hstep
  | close =>
      obtain ⟨rfl, rfl⟩ := Prod.mk.inj (Option.some.inj hstep)
      exact ⟨rfl, rfl, hplain, rfl, rfl⟩
  | write record =>
      cases opened with
      | writing =>
          obtain ⟨rfl, rfl, hsome⟩ := hhandles
          obtain ⟨records, rfl⟩ := Option.isSome_iff_exists.1 hsome
          obtain ⟨rfl, rfl⟩ := Prod.mk.inj (Option.some.inj hstep)
          refine ⟨rfl, congrArg some (image_concat records record).symm, fun all hall r hr => ?_, rfl,
            rfl, rfl⟩
          rw [← Option.some.inj hall] at hr
          rcases List.mem_append.1 hr with hr | hr
          · exact hplain records rfl r hr
          · exact List.mem_singleton.1 hr ▸ hcall
      | closed =>
          obtain ⟨rfl, rfl⟩ := hhandles
          obtain ⟨rfl, rfl⟩ := Prod.mk.inj (Option.some.inj hstep)
          exact ⟨rfl, rfl, hplain, rfl, rfl⟩
      | reading left =>
          obtain ⟨rfl, rfl⟩ := hhandles
          obtain ⟨rfl, rfl⟩ := Prod.mk.inj (Option.some.inj hstep)
          exact ⟨rfl, rfl, hplain, rfl, rfl⟩
  | read =>
      cases opened with
      | closed =>
          obtain ⟨rfl, rfl⟩ := hhandles
          obtain ⟨rfl, rfl⟩ := Prod.mk.inj (Option.some.inj hstep)
          exact ⟨rfl, rfl, hplain, rfl, rfl⟩
      | reading left =>
          obtain ⟨rfl, rfl⟩ := hhandles
          cases left with
          | nil =>
              obtain ⟨rfl, rfl⟩ := Prod.mk.inj (Option.some.inj hstep)
              exact ⟨rfl, rfl, hplain, rfl, rfl⟩
          | cons record left =>
              obtain ⟨rfl, rfl⟩ := Prod.mk.inj (Option.some.inj hstep)
              exact ⟨rfl, rfl, hplain, rfl, rfl⟩
      | writing =>
          obtain ⟨rfl, rfl, hsome⟩ := hhandles
          obtain ⟨rfl, rfl⟩ := Prod.mk.inj (Option.some.inj hstep)
          exact ⟨rfl, rfl, hplain, rfl, rfl, hsome⟩

/-- **In every run the class answers as the file of records does.** -/
theorem run_refines {calls : List Call} (hcalls : ∀ call ∈ calls, call.isPlain = true) {f f' : LineFile}
    {s : PathState} (h : Holds f s) {answers : List Answer}
    (hrun : f.run calls = some (f', answers)) :
    (run s calls).2 = answers ∧ Holds f' (run s calls).1 := by
  induction calls generalizing f s answers with
  | nil =>
      obtain ⟨rfl, rfl⟩ := Prod.mk.inj (Option.some.inj hrun)
      exact ⟨rfl, h⟩
  | cons call calls ih =>
      rw [List.forall_mem_cons] at hcalls
      obtain ⟨⟨f₁, answer⟩, hstep, hrest⟩ := Option.bind_eq_some_iff.1 hrun
      obtain ⟨⟨f₂, later⟩, hlater, heq⟩ := Option.bind_eq_some_iff.1 hrest
      obtain ⟨rfl, rfl⟩ := Prod.mk.inj (Option.some.inj heq)
      obtain ⟨hanswer, hholds⟩ := h.step hcalls.1 hstep
      obtain ⟨hanswers, hend⟩ := ih hcalls.2 hholds hlater
      exact ⟨congrArg₂ List.cons hanswer hanswers, hend⟩

/-- A file that does not exist is written, extended and read to its end. -/
def rereading : List Call :=
  [.openFile .input, .openFile .output, .write [65, 66], .close, .openFile .extend, .write [], .close,
    .read, .openFile .input, .read, .read, .read, .write [67], .close]

/-- What COBOL answers is what the class answers. -/
theorem run_refines_rereading : (run ⟨none, none, false⟩ rereading).2 =
    [.status .fileNotFound, .status .ok, .status .ok, .status .ok, .status .ok, .status .ok,
      .status .ok, .record none, .status .ok, .record (some [65, 66]), .record (some []),
      .record none, .status .notFound, .status .ok] := by
  have hcalls : ∀ call ∈ rereading, call.isPlain = true := by decide
  have h : Holds ⟨none, .closed⟩ ⟨none, none, false⟩ :=
    ⟨rfl, fun _ hnone => absurd hnone (by simp), rfl, rfl⟩
  exact (run_refines hcalls h rfl).1

end CobolJava.LineSequential
