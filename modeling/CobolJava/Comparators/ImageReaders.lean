/-
**Readers of file images.**

`engine/comparators/indexed_records.py`: the records of INDEXED and RELATIVE files, read from the
images that GnuCOBOL and the generated runtime leave behind.

Main definitions:

* `bdbBtreeRecords` — a Berkeley DB B-tree, read page by page;
* `gnucobolRelativeRecords` — a slot file, whose record length is guessed;
* `emulatedIndexRecords`, `emulatedRelativeRecords` — the files of the generated runtime.
-/

import CobolJava.Lib.PyDigits
import CobolJava.Lib.PyStruct

set_option autoImplicit false

namespace CobolJava.Images

open Py (Bytes Exc unpack byteAt)

/-- `UnreadableImage` -/
def unreadable (message : String) : Exc := .declared "UnreadableImage" message

/-- Raises `UnreadableImage` unless a condition holds. -/
def certify (condition : Bool) (message : String) : Except Exc Unit :=
  if condition then .ok () else .error (unreadable message)

/-! ### B-trees -/

/-- `_HEADER` -/
def headerSize : ℕ := 26

section Btree

variable (image : Bytes) (pageSize : ℕ)

def page (number : ℕ) : Except Exc Bytes := do
  certify (0 < number ∧ number < image.length / pageSize) s!"page {number} outside the file"
  let data := (image.drop (number * pageSize)).take pageSize
  let named ← unpack 4 data 8
  certify (named = number) s!"page {number} header names page {named}"
  return data

/-- The offsets of the items of a page. -/
def items (data : Bytes) : Except Exc (List ℕ) := do
  let entries ← unpack 2 data 20
  let offsets ← (List.range entries).mapM fun i => unpack 2 data (headerSize + 2 * i)
  certify (offsets.all fun o => headerSize + 2 * entries ≤ o ∧ o < pageSize - 3)
    "item offset outside the page"
  return offsets

/-- The data item of a pair of a key and a data item, unless one of them is deleted. -/
def leafRecord (data : Bytes) (keyAt dataAt : ℕ) : Except Exc (Option Bytes) := do
  let keyType ← byteAt data (keyAt + 2)
  let dataType ← byteAt data (dataAt + 2)
  if 128 ≤ keyType ||| dataType then return none
  else
    certify (keyType = 1 ∧ dataType = 1)
      s!"item types {keyType}/{dataType} (overflow or duplicates) not certified"
    let length ← unpack 2 data dataAt
    certify (dataAt + 3 + length ≤ pageSize) "data item runs past the page"
    return some ((data.drop (dataAt + 3)).take length)

/-- The pairs `zip(offsets[::2], offsets[1::2])`. -/
def pairs : List ℕ → List (ℕ × ℕ)
  | keyAt :: dataAt :: offsets => (keyAt, dataAt) :: pairs offsets
  | _ => []

/-- What a page holds. -/
inductive Node
  /-- The page, and the offsets of its items. -/
  | internal (data : Bytes) (offsets : List ℕ)
  /-- The records that are not deleted. -/
  | leaf (records : List Bytes)
deriving DecidableEq

/-- The page with a number, read up to its records or its children. -/
def node (number : ℕ) : Except Exc Node := do
  let data ← page image pageSize number
  let kind ← byteAt data 25
  if kind = 3 then
    let offsets ← items pageSize data
    return .internal data offsets
  else
    certify (kind = 5) s!"page {number} has type {kind}"
    let offsets ← items pageSize data
    certify (offsets.length % 2 = 0) s!"leaf page {number} has an unpaired key"
    let found ← (pairs offsets).mapM fun p => leafRecord pageSize data p.1 p.2
    return .leaf (found.filterMap id)

/-- The numbers of the pages that were entered, the last one first, and the records. -/
structure Walk where
  seen : List ℕ
  records : List Bytes
deriving DecidableEq

/-- What is raised when too many calls are nested. -/
def recursionError : Exc := .declared "RecursionError" "maximum recursion depth exceeded"

/-- The loop over the items of an internal page. -/
def walkItems (walk : ℕ → Walk → Except Exc Unit × Walk) (data : Bytes) :
    List ℕ → Walk → Except Exc Unit × Walk
  | [], state => (.ok (), state)
  | offset :: offsets, state =>
      match unpack 4 data (offset + 4) with
      | .error e => (.error e, state)
      | .ok child =>
          match walk child state with
          | (.error e, state') => (.error e, state')
          | (.ok (), state') => walkItems walk data offsets state'

/-- The nested function `walk`, where `limit` calls may be nested, and what `seen` and `records`
hold after it. -/
def walkFrom : ℕ → ℕ → Walk → Except Exc Unit × Walk
  | 0, _, state => (.error recursionError, state)
  | limit + 1, number, state =>
      if number ∈ state.seen then (.error (unreadable s!"page {number} reached twice"), state)
      else
        let entered : Walk := { state with seen := number :: state.seen }
        match node image pageSize number with
        | .error e => (.error e, entered)
        | .ok (.leaf records) => (.ok (), { entered with records := state.records ++ records })
        | .ok (.internal data offsets) => walkItems (walkFrom limit) data offsets entered

attribute [grind =] walkItems walkFrom

end Btree

/-- The checks of the metadata page; the page size. -/
def metadata (image : Bytes) : Except Exc ℕ := do
  certify (512 ≤ image.length) "not a little-endian Berkeley DB B-tree"
  let magic ← unpack 4 image 12
  certify (magic = 0x00053162) "not a little-endian Berkeley DB B-tree"
  let version ← unpack 4 image 16
  certify (version = 9) s!"B-tree version {version} not certified"
  let pageSize ← unpack 4 image 20
  certify (512 ≤ pageSize ∧ pageSize &&& (pageSize - 1) = 0 ∧ image.length % pageSize = 0)
    s!"bad page size {pageSize}"
  let encryption ← byteAt image 24
  certify (encryption = 0) "encrypted database"
  let kind ← byteAt image 25
  certify (kind = 9) s!"page 0 has type {kind}, not B-tree metadata"
  return pageSize

/-- The nested call `walk(_u32(image, 88))`. -/
def walkRoot (limit : ℕ) (image : Bytes) (pageSize : ℕ) : Except Exc Unit × Walk :=
  match unpack 4 image 88 with
  | .error e => (.error e, ⟨[], []⟩)
  | .ok root => walkFrom image pageSize limit root ⟨[], []⟩

/-- `bdb_btree_records` -/
def bdbBtreeRecords (limit : ℕ) (image : Bytes) : Except Exc (List Bytes) := do
  let pageSize ← metadata image
  match walkRoot limit image pageSize with
  | (.error e, _) => .error e
  | (.ok (), state) => return state.records

/-! ### Slot files -/

/-- The sizes of the slots, if an image is one of slots for records of a length, one of them live. -/
def layout (image : Bytes) (length : ℕ) : Except Exc (Option (ℕ × List ℕ)) := do
  let slot := 8 + length
  if image.length % slot ≠ 0 then return none
  else
    let sizes ← (List.range (image.length / slot)).mapM fun i => unpack 8 image (i * slot)
    if sizes.all (fun size => size = 0 ∨ size = length) && sizes.contains length then
      return some (slot, sizes)
    else return none

/-- The live slots of an image, with their numbers. -/
def liveRecords (image : Bytes) (slot : ℕ) (sizes : List ℕ) : List (ℕ × Bytes) :=
  (sizes.zipIdx.filter fun p => p.1 ≠ 0).map fun p =>
    (p.2 + 1, (image.drop (p.2 * slot + 8)).take p.1)

/-- `gnucobol_relative_records` -/
def gnucobolRelativeRecords (image : Bytes) : Except Exc (List (ℕ × Bytes)) := do
  if image = [] then return []
  else
    let layouts ← (List.range' 1 (image.length - 8)).mapM (layout image)
    match layouts.filterMap id with
    | [(slot, sizes)] => return liveRecords image slot sizes
    | [] => .error (unreadable "no RELATIVE slot layout fits the image")
    | _ => .error (unreadable "several RELATIVE slot layouts fit the image")

/-! ### Files of the generated runtime -/

/-- `image.decode("utf-8")` -/
def decoded (image : Bytes) : Except Exc (List Char) :=
  match Py.decode image with
  | some text => .ok text.toList
  | none => .error (.declared "UnicodeDecodeError" "invalid utf-8")

/-- The call `line.partition("\x01")`, if the separator is there. -/
def partitionLine (line : List Char) : Option (List Char × List Char) :=
  match line.dropWhile (· ≠ Char.ofNat 1) with
  | _ :: rest => some (line.takeWhile (· ≠ Char.ofNat 1), rest)
  | [] => none

/-- The record of a line of an index. -/
def indexRecord (keyLength : ℕ) (line : List Char) : Except Exc Bytes :=
  match partitionLine line with
  | some (key, rest) =>
      if key.length = keyLength then .ok (Py.encode (String.ofList (key ++ rest)))
      else .error (unreadable "malformed emulation record line")
  | none => .error (unreadable "malformed emulation record line")

/-- The header of an index: the text behind its letter, if it is made of digits. -/
def indexHeader : List Char → Option (List Char)
  | 'K' :: digits => if Py.isdigit digits then some digits else none
  | _ => none

/-- `emulated_index_records` -/
def emulatedIndexRecords (image : Bytes) : Except Exc (List Bytes) := do
  let text ← decoded image
  let lines := text.splitOn '\n'
  match indexHeader (lines.headD []) with
  | none => .error (unreadable "not a generated INDEXED emulation file")
  | some digits => do
      let keyLength ← Py.intOfText digits
      certify (lines.getLastD [] = []) "emulation file does not end with a newline"
      lines.tail.dropLast.mapM (indexRecord keyLength)

/-- The record of a line of a slot file, behind the records before it. -/
def relativeRecord (records : List (ℕ × Bytes)) (line : List Char) :
    Except Exc (List (ℕ × Bytes)) :=
  match partitionLine line with
  | some (rrn, record) => do
      certify (Py.isdigit rrn) "malformed emulation record line"
      let number ← Py.intOfText rrn
      certify (1 ≤ number) "malformed emulation record line"
      certify (match records.getLast? with | some r => r.1 < number | none => true)
        "emulation records out of RRN order"
      return records ++ [(number, Py.encode (String.ofList record))]
  | none => .error (unreadable "malformed emulation record line")

/-- `emulated_relative_records` -/
def emulatedRelativeRecords (image : Bytes) : Except Exc (List (ℕ × Bytes)) := do
  let text ← decoded image
  let lines := text.splitOn '\n'
  certify (lines.headD [] = ['R'] ∧ lines.getLastD [] = [])
    "not a generated RELATIVE emulation file"
  lines.tail.dropLast.foldlM relativeRecord []

/-! ### Both sides -/

/-- `except UnreadableImage: continue` -/
def handled {α : Type} : Except Exc α → Except Exc (Option α)
  | .ok found => .ok (some found)
  | .error (.declared "UnreadableImage" _) => .ok none
  | .error e => .error e

/-- The `try` statement of `_compare_file_records`: the records of both images, none where one of
them is not certified. -/
def recordsOfBoth {α : Type} (readOracle readCandidate : Bytes → Except Exc α)
    (oracle candidate : Bytes) : Except Exc (Option (α × α)) :=
  handled do
    let oracleRecords ← readOracle oracle
    let candidateRecords ← readCandidate candidate
    return (oracleRecords, candidateRecords)

end CobolJava.Images
