/-
**The keyed files of generated Java programs.**

`engine/transformation/file_io_support_template.py`: the class `CobolFileIo` keeps the records of an
INDEXED file in a map from keys to the rest of the record, those of a RELATIVE file in a map from
record numbers to records, and writes each map to a side file of its path after every change.
`engine/comparators/indexed_records.py` reads the side files of a finished run.

The state is that of one path.  A keyed path is never opened as a sequential file, so `IN` and `OUT`
hold nothing for it; input and output themselves do not fail.

Main definitions:

* `PathState` — what `CobolFileIo` holds for a path, and the side files;
* `CobolFileIo.openFile`, `CobolFileIo.write`, `CobolFileIo.rewrite`, `CobolFileIo.delete`,
  `CobolFileIo.deleteRelative`, `CobolFileIo.start`, `CobolFileIo.read` — the calls;
* `CobolFileIo.step` — a call on a path;
* `emulatedIndexRecords`, `emulatedRelativeRecords` — the readers of the side files.
-/

import CobolJava.Lib.JavaFiles
import CobolJava.Lib.PyBytes
import CobolJava.Lib.SortedMap
import Mathlib.Data.List.Lex

set_option autoImplicit false

namespace CobolJava

open Java (Text CodeUnit)
open Py (Bytes)

/-! ### The state of a path -/

/-- The second argument of `open`; its letter case does not count. -/
inductive OpenMode
  | input
  | output
  | inputOutput
  | extend
deriving DecidableEq, Repr

/-- FILE STATUS codes. -/
inductive FileStatus
  /-- `00` -/
  | ok
  /-- `22` -/
  | duplicateKey
  /-- `23` -/
  | notFound
  /-- `35` -/
  | fileNotFound
deriving DecidableEq, Repr

/-- The third argument of `start`. -/
inductive StartRelation
  | equal
  | notLess
  | greater
  | notGreater
  | less
deriving DecidableEq, Repr

/-- What `CobolFileIo` holds for a path, and the side files of the path. -/
structure PathState where
  /-- `IDX.get(path)` -/
  index : Option (SortedMap Text Text)
  /-- `KEYLEN.get(path)` -/
  keyLen : Option ℤ
  /-- `REL.get(path)` -/
  relative : Option (SortedMap ℤ Text)
  /-- `CURSOR.get(path)` -/
  cursor : Option Text
  /-- The text of `<path>.idx`. -/
  idxFile : Option (List Char)
  /-- The text of `<path>.rel`. -/
  relFile : Option (List Char)
deriving DecidableEq

namespace CobolFileIo

/-! ### Keys and data of a record -/

/-- `pad(s, width, false)`, for a width that is not negative. -/
def pad (s : Text) (width : ℕ) : Text :=
  (s ++ List.replicate (width - s.length) 32).take width

/-- `keyOf(rec, keyLen)`, if it does not throw. -/
def keyOf (record : Text) (keyLen : ℤ) : Option Text :=
  if keyLen ≤ record.length then
    if keyLen < 0 then none else some (record.take keyLen.toNat)
  else some (pad record keyLen.toNat)

/-- `dataOf(rec, keyLen)`, for a length that is not negative. -/
def dataOf (record : Text) (keyLen : ℤ) : Text :=
  if keyLen < record.length then record.drop keyLen.toNat else []

/-! ### The side files -/

/-- The line of a record: key or record number, separator, text. -/
def imageLine (key record : Text) : Text := key ++ 1 :: record

/-- The lines `persistIndex` writes. -/
def indexLines (keyLen : ℤ) (m : SortedMap Text Text) : List Text :=
  Java.ofChars ('K' :: Java.ofInteger keyLen) :: m.entries.map fun e => imageLine e.1 e.2

/-- `persistIndex(path)` with the map of the path. -/
def persistIndex (s : PathState) (m : SortedMap Text Text) : PathState :=
  { s with
    index := some m
    idxFile := some (Java.encoded ((indexLines (s.keyLen.getD 0) m).flatMap fun l => l ++ [10])) }

/-- The lines `persistRelative` writes. -/
def relativeLines (m : SortedMap ℤ Text) : List Text :=
  Java.ofChars ['R'] :: m.entries.map fun e => imageLine (Java.ofChars (Java.ofInteger e.1)) e.2

/-- `persistRelative(path)` with the map of the path. -/
def persistRelative (s : PathState) (m : SortedMap ℤ Text) : PathState :=
  { s with
    relative := some m
    relFile := some (Java.encoded ((relativeLines m).flatMap fun l => l ++ [10])) }

/-- The parts of a line before and after its first separator, if something stands before it. -/
def separated (line : Text) : Option (Text × Text) :=
  let sep := line.idxOf 1
  if 0 < sep ∧ sep < line.length then some (line.take sep, line.drop (sep + 1)) else none

/-- The records of some lines, put into a map. -/
def loadRecords (m : SortedMap Text Text) (lines : List Text) : SortedMap Text Text :=
  lines.foldl (fun m line =>
    match separated line with
    | some (key, record) => m.put key record
    | none => m) m

/-- The key length that the first line of an index file states. -/
def statedKeyLen (keyLen : ℤ) (first : Text) : ℤ :=
  (Java.parseInteger (-2147483648) 2147483647 ((first.drop 1).map Java.charOf)).getD keyLen

/-- The map `ensureIndex` reads from the lines of an index file. -/
def loadedMap : List Text → SortedMap Text Text
  | [] => .empty
  | first :: rest =>
      if first.head? = some 75 then loadRecords .empty rest else loadRecords .empty (first :: rest)

/-- The key length after `ensureIndex` has read the lines of an index file. -/
def loadedKeyLen (held : Option ℤ) (keyLen : ℤ) : List Text → ℤ
  | first :: _ => if first.head? = some 75 then statedKeyLen keyLen first else held.getD keyLen
  | [] => held.getD keyLen

/-- The lines of a file, none if it does not exist. -/
def fileLines (file : Option (List Char)) : List Text :=
  (file.map fun text => Java.readLines (Java.decoded text)).getD []

/-- `ensureIndex(path, keyLen)` -/
def ensureIndex (s : PathState) (keyLen : ℤ) : PathState :=
  match s.index with
  | some _ => s
  | none =>
      { s with
        index := some (loadedMap (fileLines s.idxFile))
        keyLen := some (loadedKeyLen s.keyLen keyLen (fileLines s.idxFile)) }

/-- `IDX.get(path)` after `ensureIndex`. -/
def heldIndex (s : PathState) : SortedMap Text Text :=
  s.index.getD (loadedMap (fileLines s.idxFile))

/-! ### Opening and closing -/

/-- `open(path, mode, keyLen)` for a key length that is not 0. -/
def openFile (s : PathState) (mode : OpenMode) (keyLen : ℤ) : PathState × FileStatus :=
  if keyLen < 0 then
    if mode = .output then (persistRelative s .empty, .ok)
    else if s.relative = none then (s, .fileNotFound)
    else (s, .ok)
  else if mode = .output then
    ({ s with index := some .empty, keyLen := some keyLen, idxFile := none }, .ok)
  else if s.index = none ∧ s.idxFile = none then (s, .fileNotFound)
  else (ensureIndex s keyLen, .ok)

/-- `close(path)` -/
def close (s : PathState) : PathState × FileStatus :=
  match s.index with
  | some m => ({ persistIndex s m with cursor := none }, .ok)
  | none => ({ s with cursor := none }, .ok)

/-! ### Changing records -/

/-- `write(path, rec, keyLenOrRrn)` -/
def write (s : PathState) (record : Text) (keyLenOrRrn : ℤ) : PathState × FileStatus :=
  match s.relative, s.index with
  | some rel, none =>
      if rel.contains keyLenOrRrn then (s, .duplicateKey)
      else (persistRelative s (rel.put keyLenOrRrn record), .ok)
  | _, _ =>
      if 0 < keyLenOrRrn then
        let s' := ensureIndex s keyLenOrRrn
        match keyOf record keyLenOrRrn with
        | none => (s', .notFound)
        | some key =>
            if (heldIndex s).contains key then (s', .duplicateKey)
            else (persistIndex s' ((heldIndex s).put key (dataOf record keyLenOrRrn)), .ok)
      else (s, .notFound)

/-- `rewrite(path, rec, keyLenOrRrn)` -/
def rewrite (s : PathState) (record : Text) (keyLenOrRrn : ℤ) : PathState × FileStatus :=
  match s.relative, s.index with
  | some rel, none =>
      if rel.contains keyLenOrRrn then
        (persistRelative s (rel.put keyLenOrRrn record), .ok)
      else (s, .notFound)
  | _, _ =>
      let s' := ensureIndex s keyLenOrRrn
      match keyOf record keyLenOrRrn with
      | none => (s', .notFound)
      | some key =>
          if (heldIndex s).contains key then
            (persistIndex s' ((heldIndex s).put key (dataOf record keyLenOrRrn)), .ok)
          else (s', .notFound)

/-- `delete(path, key, keyLen)` -/
def delete (s : PathState) (key : Text) (keyLen : ℤ) : PathState × FileStatus :=
  let s' := ensureIndex s keyLen
  if (heldIndex s).contains key then (persistIndex s' ((heldIndex s).remove key), .ok)
  else (s', .notFound)

/-- `deleteRelative(path, rrn)` -/
def deleteRelative (s : PathState) (rrn : ℤ) : PathState × FileStatus :=
  match s.relative with
  | none => (s, .notFound)
  | some rel =>
      if rel.contains rrn then (persistRelative s (rel.remove rrn), .ok) else (s, .notFound)

/-! ### Reading -/

/-- The record of an entry of an index, its key padded to the key length. -/
def recordOf (keyLen : ℤ) (e : Text × Text) : Text := pad e.1 keyLen.toNat ++ e.2

/-- `start(path, op, key)` -/
def start (s : PathState) (op : StartRelation) (key : Text) : PathState × FileStatus :=
  match s.index with
  | none => (s, .notFound)
  | some m =>
      if m.isEmpty then (s, .notFound)
      else
        let found := match op with
          | .equal => (m.get? key).map fun record => (key, record)
          | .notLess => m.ceiling? key
          | .greater => m.higher? key
          | .notGreater => m.floor? key
          | .less => m.lower? key
        match found with
        | none => (s, .notFound)
        -- the cursor stands before the entry, so that the next read returns the entry itself
        | some e => ({ s with cursor := (m.lower? e.1).map Prod.fst }, .ok)

/-- `read(path)`, which is `readNextCursor(path)` -/
def read (s : PathState) : PathState × Option Text :=
  match s.index with
  | none => (s, none)
  | some m =>
      let found := match s.cursor with
        | none => m.first?
        | some key => m.higher? key
      match found with
      | none => (s, none)
      | some e => ({ s with cursor := some e.1 }, some (recordOf (s.keyLen.getD 0) e))

/-- `readKey(path, key)` -/
def readKey (s : PathState) (key : Text) : PathState × Option Text :=
  match s.index with
  | none => (s, none)
  | some m =>
      match m.floor? key with
      | none => (s, none)
      | some e =>
          if e.1 = key then
            ({ s with cursor := some e.1 }, some (recordOf (s.keyLen.getD key.length) e))
          else (s, none)

/-- `readRelative(path, rrn)` -/
def readRelative (s : PathState) (rrn : ℤ) : Option Text :=
  s.relative.bind fun m => m.get? rrn

/-! ### Calls -/

/-- A call on a path. -/
inductive Call
  | openFile (mode : OpenMode) (keyLen : ℤ)
  | close
  | write (record : Text) (keyLenOrRrn : ℤ)
  | rewrite (record : Text) (keyLenOrRrn : ℤ)
  | delete (key : Text) (keyLen : ℤ)
  | deleteRelative (rrn : ℤ)
  | start (op : StartRelation) (key : Text)
  | read
  | readKey (key : Text)
  | readRelative (rrn : ℤ)
deriving DecidableEq, Repr

/-- What a call returns. -/
inductive Answer
  | status (status : FileStatus)
  | record (record : Option Text)
deriving DecidableEq, Repr

/-- A call on a path: the state after it, and what it returns. -/
def step (s : PathState) : Call → PathState × Answer
  | .openFile mode keyLen => (openFile s mode keyLen).map id .status
  | .close => (close s).map id .status
  | .write record n => (write s record n).map id .status
  | .rewrite record n => (rewrite s record n).map id .status
  | .delete key n => (delete s key n).map id .status
  | .deleteRelative rrn => (deleteRelative s rrn).map id .status
  | .start op key => (start s op key).map id .status
  | .read => (read s).map id .record
  | .readKey key => (readKey s key).map id .record
  | .readRelative rrn => (s, .record (readRelative s rrn))

def run (s : PathState) (calls : List Call) : PathState :=
  calls.foldl (fun s call => (step s call).1) s

end CobolFileIo

/-! ### The readers of the side files -/

/-- The method `line.partition(sep)`, if the separator is found. -/
def partitioned (line : List Char) (sep : Char) : Option (List Char × List Char) :=
  if sep ∈ line then some (line.takeWhile (· ≠ sep), (line.dropWhile (· ≠ sep)).tail) else none

/-- The record of a line of an index file. -/
def indexRecord (keyLength : ℕ) (line : List Char) : Option Bytes :=
  match partitioned line '\x01' with
  | some (key, rest) =>
      if key.length = keyLength then some (Py.encode (String.ofList (key ++ rest))) else none
  | none => none

/-- `emulated_index_records(image)`, if it does not raise `UnreadableImage`. -/
def emulatedIndexRecords (image : List Char) : Option (List Bytes) :=
  match image.splitOn '\n' with
  | ('K' :: digits) :: lines =>
      if Java.isDigits digits ∧ (('K' :: digits) :: lines).getLast? = some [] then
        lines.dropLast.mapM (indexRecord (Nat.ofDigitChars 10 digits 0))
      else none
  | _ => none

/-- The records of the lines of a relative file, after the records read so far. -/
def relativeRecords (records : List (ℕ × Bytes)) : List (List Char) → Option (List (ℕ × Bytes))
  | [] => some records
  | line :: lines =>
      match partitioned line '\x01' with
      | some (rrn, record) =>
          let number := Nat.ofDigitChars 10 rrn 0
          if Java.isDigits rrn = false ∨ number < 1 then none
          else if ∃ last ∈ records.getLast?, number ≤ last.1 then none
          else relativeRecords (records ++ [(number, Py.encode (String.ofList record))]) lines
      | none => none

/-- `emulated_relative_records(image)`, if it does not raise `UnreadableImage`. -/
def emulatedRelativeRecords (image : List Char) : Option (List (ℕ × Bytes)) :=
  match image.splitOn '\n' with
  | ['R'] :: lines =>
      if (['R'] :: lines).getLast? = some [] then relativeRecords [] lines.dropLast else none
  | _ => none

end CobolJava
