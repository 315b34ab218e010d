/-
**The ingestion of an archive.**

`ingest_zip` of `api/ingestion.py`: the members of an archive are checked one by one, and then
extracted into a new workspace.  The names are compared with separators and case folded; they are
joined to the workspace as paths, which drop `.` and empty components.  What the `zipfile` module
reads of an archive is data, and so is what the system calls a new directory.

Main definitions:

* `Member`, `Host` — a member of an archive, and what the ingestion finds around it;
* `checkMembers`, `extractAll`, `ingestZip` — the checks, the extraction and the whole;
* `Extracted` — every file of the archive stands in a file of its own;
* `Separate` — no two files of the archive have the same components.

Main results:

* `extractAll_inside`, `extractAll_files` — **what the extraction changes**, and what it writes;
* `ingestZip_safe_iff` — **an archive is ingested safely** exactly when it is refused or its files
  have different components;
* `dotted_overwritten` — the files `A` and `./A`.
-/

import Mathlib.Algebra.Order.BigOperators.Group.List
import Mathlib.Algebra.Order.Group.Nat
import Mathlib.Data.Rat.Defs
import CobolJava.Lib.FileTree
import CobolJava.Lib.PyBytes
import CobolJava.Lib.PyExc

set_option autoImplicit false

namespace CobolJava.Service.Ingestion

open FileTree

abbrev Text : Type := List Char

/-! ### Archives -/

/-- An exception of the ingestion. -/
inductive Raised where
  /-- An `IngestionError`. -/
  | ingestion (message : String)
  /-- A `BadZipFile` of the `zipfile` module. -/
  | badZip (message : String)
  /-- An exception of another type. -/
  | other (typeName : String)
deriving DecidableEq

/-- What reading a member yields, until it ends or fails. -/
structure Stream where
  chunks : List Py.Bytes
  failure : Option Raised

def Stream.content (s : Stream) : Py.Bytes := s.chunks.flatten

/-- A member of an archive. -/
structure Member where
  filename : Text
  externalAttr : ℕ
  fileSize : ℕ
  compressSize : ℕ
  opened : Except Raised Stream
  /-- No more is read than is declared. -/
  declared : ∀ s, opened = .ok s → s.content.length ≤ fileSize

def Member.isDir (info : Member) : Bool := info.filename.getLast? = some '/'

/-- The members that are no directories. -/
def files (members : List Member) : List Member := members.filter fun info => !info.isDir

/-- What the ingestion finds: the limits that are set, the directories, and the libraries. -/
structure Host where
  maxZipArchiveBytes : ℕ
  maxZipEntries : ℕ
  maxTotalExtractedBytes : ℕ
  maxZipCompressionRatio : ℕ
  /-- The members `zipfile` lists. -/
  zipFile : Py.Bytes → Except Raised (List Member)
  casefold : Text → Text
  /-- The quotient of two integers as a float, and its text. -/
  quotient : ℕ → ℕ → ℚ
  quotientText : ℕ → ℕ → String
  repr : Text → String
  /-- `CONTROL_PLANE_WORKSPACE_DIR`, if it is set. -/
  workspaceRoot : Option Path
  tempDir : Path
  /-- Whether the system refuses a path it could make. -/
  refuses : FileTree.Tree UInt8 → Path → Bool
  /-- The name `tempfile.mkdtemp` gives a directory in another one. -/
  tempName : FileTree.Tree UInt8 → Path → Text → Except Fault Path
  /-- It is free, and its directory is there. -/
  tempName_fresh : ∀ t dir start ws, tempName t dir start = .ok ws →
    (∃ name, ws = name :: dir) ∧ FileTree.isDir t dir = true ∧ ∀ p, ws <:+ p → t p = none

variable (host : Host)

/-! ### The checks -/

/-- A character of an application id. -/
def isIdChar (c : Char) : Bool := c.isAlphanum || c == '.' || c == '_' || c == '-'

/-- The pattern `^[A-Za-z0-9][A-Za-z0-9._-]{0,127}$`, whose `$` also stands before a last line
feed. -/
def isSafeApplicationId (id : Text) : Bool :=
  let body := if id.getLast? = some '\n' then id.dropLast else id
  match body with
  | [] => false
  | c :: rest => c.isAlphanum && rest.all isIdChar && rest.length ≤ 127

/-- The name with slashes for backslashes. -/
def slashed (name : Text) : Text := name.map fun c => if c = '\\' then '/' else c

/-- The pattern `^[A-Za-z]:`. -/
def hasDrive : Text → Bool
  | c :: ':' :: _ => c.isAlpha
  | _ => false

/-- The function `_is_traversal`. -/
def isTraversal (name : Text) : Bool :=
  let normalized := slashed name
  normalized.isEmpty || normalized.head? == some '/' || hasDrive normalized ||
    (normalized.splitOn '/').any fun part => part == ['.', '.']

/-- The function `_is_symlink`. -/
def isSymlink (info : Member) : Bool :=
  (info.externalAttr >>> 16) &&& 0o170000 == 0o120000

/-- The check of a member that is no directory against the names before it. -/
def checkFile (info : Member) (seenNames : List (Text × Text)) :
    Except Raised (List (Text × Text)) :=
  let collisionKey := host.casefold (slashed info.filename)
  match seenNames.lookup collisionKey with
  | some prior => .error (.ingestion ("Duplicate ZIP entry: " ++ host.repr info.filename ++
      " collides with " ++ host.repr prior ++
      " (names must be unique after separator normalization and case folding)"))
  | none =>
      if info.fileSize > 0 ∧ info.compressSize = 0 then
        .error (.ingestion ("ZIP entry " ++ host.repr info.filename ++ " declares " ++
          toString info.fileSize ++ " uncompressed bytes over " ++ toString info.compressSize ++
          " compressed bytes (invalid compression ratio)"))
      else if info.fileSize > 0 ∧
          host.quotient info.fileSize info.compressSize > host.maxZipCompressionRatio then
        .error (.ingestion ("ZIP entry " ++ host.repr info.filename ++ " compression ratio " ++
          host.quotientText info.fileSize info.compressSize ++ ":1 exceeds the " ++
          toString host.maxZipCompressionRatio ++ ":1 limit (possible zip bomb)"))
      else .ok ((collisionKey, info.filename) :: seenNames)

/-- The names with the one of a member; those of directories are not compared. -/
def seenWith (info : Member) (seenNames : List (Text × Text)) :
    Except Raised (List (Text × Text)) :=
  if info.isDir then .ok seenNames else checkFile host info seenNames

/-- The checks of all members, with the names and the size of those before. -/
def checkMembers : List Member → List (Text × Text) → ℕ → Except Raised Unit
  | [], _, _ => .ok ()
  | info :: rest, seenNames, totalSize =>
      if isTraversal info.filename then
        .error (.ingestion ("Unsafe ZIP entry path: " ++ host.repr info.filename))
      else if isSymlink info then
        .error (.ingestion ("Symlink ZIP entries are not allowed: " ++ host.repr info.filename))
      else do
        let seenNames ← seenWith host info seenNames
        if totalSize + info.fileSize > host.maxTotalExtractedBytes then
          .error (.ingestion ("ZIP exceeds total extracted size limit of " ++
            toString host.maxTotalExtractedBytes ++ " bytes"))
        else checkMembers rest seenNames (totalSize + info.fileSize)

/-! ### The extraction -/

/-- The components of a path: the empty ones and the dots are dropped. -/
def components (name : Text) : List Text :=
  (name.splitOn '/').filter fun part => !(part.isEmpty || part == ['.'])

/-- The path `workspace.joinpath(name)`; an absolute name stands for itself. -/
def joinpath (workspace : Path) (name : Text) : Path :=
  if name.head? = some '/' then (components name).reverse
  else (components name).reverse ++ workspace

/-- The path without parent references; there are no links to follow. -/
def resolve (p : Path) : Path :=
  p.foldr (fun name resolved => if name = ['.', '.'] then resolved.tail else name :: resolved) []

/-- The exception of a call of the system. -/
def osError : Fault → Raised
  | .missing => .other "FileNotFoundError"
  | .notDirectory => .other "NotADirectoryError"
  | .exists => .other "FileExistsError"
  | .isDirectory => .other "IsADirectoryError"
  | .system => .other "OSError"

/-- The chunks that are read, written to an open file. -/
def copyChunks (target : Path) : List Py.Bytes → Op UInt8 Raised Unit
  | [] => pure ()
  | chunk :: chunks => do
      Op.mapError osError (append host.refuses target chunk)
      copyChunks target chunks

/-- A member that is no directory, written to its file. -/
def writeMember (target : Path) (info : Member) : Op UInt8 Raised Unit := do
  Op.mapError osError (mkdirs host.refuses target.tail)
  let stream ← Op.ofExcept info.opened
  Op.mapError osError (openWrite host.refuses target)
  copyChunks host target stream.chunks
  match stream.failure with
  | none => pure ()
  | some e => Op.raise e

def extractMember (workspace : Path) (info : Member) : Op UInt8 Raised Unit :=
  let target := joinpath workspace info.filename
  if (resolve workspace).isSuffixOf (resolve target) then
    if info.isDir then Op.mapError osError (mkdirs host.refuses target)
    else writeMember host target info
  else Op.raise (.ingestion ("Unsafe ZIP entry escapes workspace: " ++ host.repr info.filename))

def extractAll (workspace : Path) : List Member → Op UInt8 Raised Unit
  | [] => pure ()
  | info :: rest => do
      extractMember host workspace info
      extractAll workspace rest

/-! ### The whole -/

/-- The call `tempfile.mkdtemp`. -/
def mkdtemp (dir : Path) (start : Text) : Op UInt8 Fault Path := fun t =>
  match host.tempName t dir start with
  | .error e => (.error e, t)
  | .ok ws => (.ok ws, Function.update t ws (some .dir))

/-- The function `new_workspace`. -/
def newWorkspace (start : Text) : Op UInt8 Raised Path :=
  match host.workspaceRoot with
  | none => Op.mapError osError (mkdtemp host host.tempDir start)
  | some root => Op.mapError (fun _ => .other "OSError") do
      mkdirs host.refuses root
      mkdtemp host root start

def unpack (data : Py.Bytes) (workspace : Path) : Op UInt8 Raised Unit := do
  let members ← Op.ofExcept (host.zipFile data)
  if members.length > host.maxZipEntries then
    Op.raise (.ingestion ("ZIP archive exceeds entry limit of " ++ toString host.maxZipEntries ++
      " files"))
  else do
    Op.ofExcept (checkMembers host members [] 0)
    extractAll host workspace members

/-- What an exception of the extraction becomes. -/
def refusal : Raised → Raised
  | .badZip message => .ingestion ("Invalid ZIP archive: " ++ message)
  | .ingestion message => .ingestion message
  | .other typeName => .ingestion ("Failed to extract ZIP (" ++ typeName ++ ")")

/-- The program, whose workspace is discarded when it raises. -/
def discarding (workspace : Path) (x : Op UInt8 Raised Unit) : Op UInt8 Raised Path := fun t =>
  match x t with
  | (.ok (), t') => (.ok workspace, t')
  | (.error e, t') => (.error (refusal e), (removeTree (ε := Raised) workspace t').2)

def ingestZip (data : Py.Bytes) (applicationId : Text) : Op UInt8 Raised Path :=
  if !isSafeApplicationId applicationId then
    Op.raise (.ingestion ("Unsafe application id: must start with a letter or digit and contain" ++
      " at most 128 characters from [A-Za-z0-9._-]"))
  else if data.length > host.maxZipArchiveBytes then
    Op.raise (.ingestion ("ZIP archive exceeds size limit of " ++
      toString host.maxZipArchiveBytes ++ " bytes"))
  else do
    let workspace ← newWorkspace host ("ingest-".toList ++ applicationId ++ ['-'])
    discarding workspace (unpack host data workspace)

/-! ### The law -/

/-- Every file of the archive stands, with what was read of it, in a file of its own in the
workspace; nothing else has changed but directories that were made; and what was written is within
the limit. -/
structure Extracted (members : List Member) (ws : Path) (before after : FileTree.Tree UInt8) : Prop where
  placed : ∃ places : List Path, places.Nodup ∧
    List.Forall₂ (fun (info : Member) place => ws <:+ place ∧ ∃ stream, info.opened = .ok stream ∧
      stream.failure = none ∧ after place = some (.file stream.content)) (files members) places
  inside : ∀ p, after p ≠ before p → ws <:+ p ∨ (before p = none ∧ after p = some .dir)
  size : ((files members).map fun info =>
    (info.opened.toOption.map fun stream => stream.content.length).getD 0).sum ≤
      host.maxTotalExtractedBytes

/-- The durable root is made, with the directories above it, and nothing else. -/
def RootMade (before after : FileTree.Tree UInt8) : Prop :=
  MakesDirs (fun p => ∃ root ∈ host.workspaceRoot, Above root p) before after

/-- An archive that is accepted is extracted, and one that is refused leaves no workspace. -/
def IngestedSafely (data : Py.Bytes) (applicationId : Text) (before : FileTree.Tree UInt8) : Prop :=
  (∀ e after, ingestZip host data applicationId before = (.error e, after) →
    RootMade host before after) ∧
    ∀ ws after members, ingestZip host data applicationId before = (.ok ws, after) →
      host.zipFile data = .ok members → Extracted host members ws before after

/-- The files of the archive have different components. -/
def Separate (members : List Member) : Prop :=
  ((files members).map fun info => components info.filename).Nodup

/-! ### What is checked -/

variable {host}

theorem checkMembers_ok : ∀ {members : List Member} {seenNames : List (Text × Text)} {total : ℕ},
    checkMembers host members seenNames total = .ok () → total ≤ host.maxTotalExtractedBytes →
      (∀ info ∈ members, isTraversal info.filename = false) ∧
        total + (members.map Member.fileSize).sum ≤ host.maxTotalExtractedBytes
  | [], _, _, _, htotal => ⟨nofun, by simpa using htotal⟩
  | info :: rest, seenNames, total, h, _ => by
      rw [checkMembers] at h
      split_ifs at h with htraversal hlink hlimit
      · obtain ⟨seen, -, h⟩ := Py.bind_ok h
        cases h
      obtain ⟨seen, -, h⟩ := Py.bind_ok h
      obtain ⟨hnames, hsize⟩ := checkMembers_ok h (by omega)
      refine ⟨List.forall_mem_cons.2 ⟨by simpa using htraversal, hnames⟩, ?_⟩
      rw [List.map_cons, List.sum_cons]
      omega

theorem joinpath_of_not_traversal {name : Text} (h : isTraversal name = false) (ws : Path) :
    joinpath ws name = (components name).reverse ++ ws := by
  have hhead : name.head? ≠ some '/' := by
    intro hslash
    have : (slashed name).head? = some '/' := by
      rw [slashed, List.head?_map, hslash]
      rfl
    rw [isTraversal, this] at h
    simp at h
  rw [joinpath, if_neg hhead]

/-! ### What the extraction changes -/

/-- The directories along a path are there. -/
def Rooted (ws : Path) (t : FileTree.Tree UInt8) : Prop := ∀ q, Above ws q → t q = some .dir

/-- In a tree whose workspace is there, only what stands in the workspace changes, and no directory
becomes anything else. -/
def Inside (ws : Path) (t t' : FileTree.Tree UInt8) : Prop :=
  Rooted ws t → ∀ p, t' p ≠ t p → ws <:+ p ∧ t p ≠ some .dir

theorem Inside.refl (ws : Path) (t : FileTree.Tree UInt8) : Inside ws t t := fun _ _ h => absurd rfl h

theorem Inside.rooted {ws : Path} {t t' : FileTree.Tree UInt8} (h : Inside ws t t') (ht : Rooted ws t) :
    Rooted ws t' := by
  intro q hq
  by_contra hne
  refine (h ht q fun heq => hne ?_).2 (ht q hq)
  rw [heq, ht q hq]

theorem Inside.trans {ws : Path} {t s u : FileTree.Tree UInt8} (h : Inside ws t s) (h' : Inside ws s u) :
    Inside ws t u := by
  intro ht p hp
  by_cases hs : s p = t p
  · have hu := h' (h.rooted ht) p fun heq => hp (heq.trans hs)
    rwa [hs] at hu
  · exact h ht p hs

theorem MakesDirs.inside {ws p : Path} {t t' : FileTree.Tree UInt8} (h : MakesDirs (Above p) t t')
    (hp : ws <:+ p ∨ p <:+ ws) : Inside ws t t' := by
  intro ht q hq
  obtain ⟨⟨hqp, hne⟩, hnone, -⟩ := h q hq
  have hnot : ¬q <:+ ws := by
    intro hqws
    rw [ht q ⟨hqws, hne⟩] at hnone
    cases hnone
  refine ⟨?_, by rw [hnone]; nofun⟩
  rcases hp with hp | hp
  · exact (List.suffix_or_suffix_of_suffix hp hqp).resolve_right hnot
  · exact absurd (hqp.trans hp) hnot

theorem within_mapError {ws : Path} {β ε : Type} {f : ε → Raised} {x : Op UInt8 ε β}
    (h : Op.Within (Inside ws) x) : Op.Within (Inside ws) (Op.mapError f x) := by
  intro t
  have ht := h t
  rw [Op.mapError]
  rcases hx : x t with ⟨_ | b, s⟩ <;> rw [hx] at ht <;> exact ht

theorem within_ofExcept {ws : Path} {β : Type} (x : Except Raised β) :
    Op.Within (Inside ws) (Op.ofExcept x : Op UInt8 Raised β) := fun t => .refl ws t

theorem within_bind {ws : Path} {β γ : Type} {x : Op UInt8 Raised β} {f : β → Op UInt8 Raised γ}
    (hx : Op.Within (Inside ws) x) (hf : ∀ b, Op.Within (Inside ws) (f b)) :
    Op.Within (Inside ws) (x >>= f) :=
  Op.Within.bind (fun _ _ _ h h' => h.trans h') hx hf

theorem mkdirs_inside {ws p : Path} (hp : ws <:+ p ∨ p <:+ ws) :
    Op.Within (Inside ws) (mkdirs host.refuses p) := fun t =>
  MakesDirs.inside (mkdirs_changed p t) hp

theorem update_inside {ws p : Path} {t : FileTree.Tree UInt8} {node : Option (Node UInt8)} (hp : ws <:+ p)
    (hdir : t p ≠ some .dir) : Inside ws t (Function.update t p node) := by
  intro _ q hq
  obtain rfl : q = p := by
    by_contra hne
    exact hq (Function.update_of_ne hne ..)
  exact ⟨hp, hdir⟩

theorem openWrite_inside {ws p : Path} (hp : ws <:+ p) :
    Op.Within (Inside ws) (openWrite host.refuses p) := by
  intro t
  rcases h : openWrite host.refuses p t with ⟨e | u, t'⟩
  · rw [openWrite_error h]
    exact .refl ws t
  · obtain ⟨rfl, hdir, -⟩ := openWrite_ok h
    exact update_inside hp hdir

theorem append_inside {ws p : Path} {chunk : Py.Bytes} (hp : ws <:+ p) :
    Op.Within (Inside ws) (append host.refuses p chunk) := by
  intro t
  rcases h : append host.refuses p chunk t with ⟨e | u, t'⟩
  · rw [append_error h]
    exact .refl ws t
  · obtain ⟨content, hcontent, rfl⟩ := append_ok h
    exact update_inside hp (by rw [hcontent]; nofun)

theorem copyChunks_inside {ws p : Path} (hp : ws <:+ p) :
    ∀ chunks, Op.Within (Inside ws) (copyChunks host p chunks)
  | [] => fun t => .refl ws t
  | _ :: chunks =>
      within_bind (within_mapError (append_inside hp)) fun _ => copyChunks_inside hp chunks

/-- A file of the archive is written in the workspace; a name without components is that of the
workspace itself. -/
theorem writeMember_inside {ws : Path} {parts : Path} (info : Member) :
    Op.Within (Inside ws) (writeMember host (parts ++ ws) info) := by
  have htail : ws <:+ (parts ++ ws).tail ∨ (parts ++ ws).tail <:+ ws := by
    cases parts with
    | nil => exact .inr (List.tail_suffix ws)
    | cons part parts => exact .inl (List.suffix_append parts ws)
  have htarget : ws <:+ parts ++ ws := List.suffix_append parts ws
  refine within_bind (within_mapError (mkdirs_inside htail)) fun _ =>
    within_bind (within_ofExcept _) fun stream =>
      within_bind (within_mapError (openWrite_inside htarget)) fun _ =>
        within_bind (copyChunks_inside htarget _) fun _ => ?_
  cases stream.failure <;> exact fun t => .refl ws t

theorem extractMember_inside {ws : Path} {info : Member}
    (h : isTraversal info.filename = false) :
    Op.Within (Inside ws) (extractMember host ws info) := by
  rw [extractMember, joinpath_of_not_traversal h]
  split_ifs
  · exact within_mapError (mkdirs_inside (.inl (List.suffix_append ..)))
  · exact writeMember_inside info
  · exact fun t => .refl ws t

/-- **The extraction changes only what stands in the workspace**, whether it raises or not. -/
theorem extractAll_inside {ws : Path} : ∀ {members : List Member},
    (∀ info ∈ members, isTraversal info.filename = false) →
      Op.Within (Inside ws) (extractAll host ws members)
  | [], _ => fun t => .refl ws t
  | _ :: _, h =>
      within_bind (extractMember_inside (List.forall_mem_cons.1 h).1) fun _ =>
        extractAll_inside (List.forall_mem_cons.1 h).2

/-! ### What the extraction writes -/

def place (ws : Path) (info : Member) : Path := (components info.filename).reverse ++ ws

theorem mapError_ok {β ε : Type} {f : ε → Raised} {x : Op UInt8 ε β} {t t' : FileTree.Tree UInt8} {b : β}
    (h : Op.mapError f x t = (.ok b, t')) : x t = (.ok b, t') := by
  rw [Op.mapError] at h
  rcases hx : x t with ⟨_ | b', s⟩ <;> rw [hx] at h <;> cases h
  rfl

theorem mapError_error {β ε : Type} {f : ε → Raised} {x : Op UInt8 ε β} {t t' : FileTree.Tree UInt8}
    {e : Raised} (h : Op.mapError f x t = (.error e, t')) : ∃ e', x t = (.error e', t') := by
  rw [Op.mapError] at h
  rcases hx : x t with ⟨e' | b, s⟩ <;> rw [hx] at h <;> cases h
  exact ⟨e', rfl⟩

theorem MakesDirs.file_iff {allowed : Path → Prop} {t t' : FileTree.Tree UInt8} (h : MakesDirs allowed t t')
    (p : Path) (content : Py.Bytes) :
    t' p = some (.file content) ↔ t p = some (.file content) := by
  by_cases hp : t' p = t p
  · rw [hp]
  · obtain ⟨-, hnone, hdir⟩ := h p hp
    rw [hnone, hdir]
    simp

theorem copyChunks_ok {p : Path} : ∀ {chunks : List Py.Bytes} {t t' : FileTree.Tree UInt8},
    copyChunks host p chunks t = (.ok (), t') → ∀ content, t p = some (.file content) →
      t' = Function.update t p (some (.file (content ++ chunks.flatten)))
  | [], t, t', h, content, hcontent => by
      obtain ⟨-, rfl⟩ := Prod.mk.inj h
      rw [List.flatten_nil, List.append_nil, ← hcontent, Function.update_eq_self]
  | chunk :: chunks, t, t', h, content, hcontent => by
      obtain ⟨⟨⟩, s, happend, hrest⟩ := Op.bind_eq_ok h
      obtain ⟨content', hcontent', rfl⟩ := append_ok (mapError_ok happend)
      obtain rfl : content = content' := by simpa [hcontent] using hcontent'
      rw [copyChunks_ok hrest _ (Function.update_self ..), Function.update_idem,
        List.flatten_cons, List.append_assoc]

/-- The files after a member is written. -/
theorem writeMember_ok {target : Path} {info : Member} {t t' : FileTree.Tree UInt8}
    (h : writeMember host target info t = (.ok (), t')) :
    ∃ stream, info.opened = .ok stream ∧ stream.failure = none ∧
      ∀ p content, t' p = some (.file content) ↔
        if p = target then content = stream.content else t p = some (.file content) := by
  obtain ⟨⟨⟩, s, hdirs, h⟩ := Op.bind_eq_ok h
  obtain ⟨stream, s', hopened, h⟩ := Op.bind_eq_ok h
  obtain ⟨hstream, rfl⟩ := Prod.mk.inj hopened
  obtain ⟨⟨⟩, u, hwrite, h⟩ := Op.bind_eq_ok h
  obtain ⟨⟨⟩, v, hcopy, h⟩ := Op.bind_eq_ok h
  obtain ⟨rfl, -, -⟩ := openWrite_ok (mapError_ok hwrite)
  obtain rfl := copyChunks_ok hcopy [] (Function.update_self ..)
  have hmade : MakesDirs (Above target.tail) t (mkdirs host.refuses target.tail t).2 :=
    mkdirs_changed target.tail t
  rw [mapError_ok hdirs] at hmade
  cases hfailure : stream.failure with
  | some e =>
      rw [hfailure] at h
      cases h
  | none =>
      rw [hfailure] at h
      obtain ⟨-, rfl⟩ := Prod.mk.inj h
      refine ⟨stream, hstream, hfailure, fun p content => ?_⟩
      rw [Function.update_idem, List.nil_append]
      split_ifs with hp
      · subst hp
        rw [Function.update_self]
        simp [Stream.content, eq_comm]
      · rw [Function.update_of_ne hp]
        exact MakesDirs.file_iff hmade p content

/-- The files after a member is extracted. -/
theorem extractMember_ok {ws : Path} {info : Member} {t t' : FileTree.Tree UInt8}
    (hname : isTraversal info.filename = false)
    (h : extractMember host ws info t = (.ok (), t')) :
    (info.isDir = true → ∀ p content, t' p = some (.file content) ↔ t p = some (.file content)) ∧
      (info.isDir = false → ∃ stream, info.opened = .ok stream ∧ stream.failure = none ∧
        ∀ p content, t' p = some (.file content) ↔
          if p = place ws info then content = stream.content else t p = some (.file content)) := by
  rw [extractMember, joinpath_of_not_traversal hname] at h
  split_ifs at h with hinside hdir
  · refine ⟨fun _ => ?_, fun hfile => by rw [hdir] at hfile; cases hfile⟩
    have hmade : MakesDirs (Above ((components info.filename).reverse ++ ws)) t
        (mkdirs host.refuses ((components info.filename).reverse ++ ws) t).2 :=
      mkdirs_changed _ t
    rw [mapError_ok h] at hmade
    exact MakesDirs.file_iff hmade
  · exact ⟨fun hfile => absurd hfile hdir, fun _ => writeMember_ok h⟩
  · cases h

/-- **The files after the extraction**: those that were there, and those of the archive. -/
theorem extractAll_files {ws : Path} : ∀ {members : List Member} {t t' : FileTree.Tree UInt8},
    (∀ info ∈ members, isTraversal info.filename = false) →
      extractAll host ws members t = (.ok (), t') →
        (∀ info ∈ files members, ∃ stream, info.opened = .ok stream ∧ stream.failure = none) ∧
          (∀ p content, t' p = some (.file content) →
            t p = some (.file content) ∨ p ∈ (files members).map (place ws)) ∧
          (∀ p content, p ∉ (files members).map (place ws) → t p = some (.file content) →
            t' p = some (.file content)) ∧
          (((files members).map (place ws)).Nodup → ∀ info ∈ files members, ∀ stream,
            info.opened = .ok stream → t' (place ws info) = some (.file stream.content))
  | [], t, t', _, h => by
      obtain ⟨-, rfl⟩ := Prod.mk.inj h
      exact ⟨nofun, fun _ _ hp => .inl hp, fun _ _ _ hp => hp, fun _ => nofun⟩
  | info :: rest, t, t', hnames, h => by
      obtain ⟨⟨⟩, s, hfirst, h⟩ := Op.bind_eq_ok h
      obtain ⟨hname, hnames⟩ := List.forall_mem_cons.1 hnames
      obtain ⟨hopened, hfrom, hkept, hwritten⟩ := extractAll_files hnames h
      obtain ⟨hdir, hfile⟩ := extractMember_ok hname hfirst
      cases hkind : info.isDir with
      | true =>
          have hfiles : files (info :: rest) = files rest := by
            rw [files, List.filter_cons_of_neg (by simp [hkind]), files]
          rw [hfiles]
          refine ⟨hopened, fun p content hp => ?_, fun p content hp ht => ?_, hwritten⟩
          · exact (hfrom p content hp).imp_left fun hs => (hdir hkind p content).1 hs
          · exact hkept p content hp ((hdir hkind p content).2 ht)
      | false =>
          have hfiles : files (info :: rest) = info :: files rest := by
            rw [files, List.filter_cons_of_pos (by simp [hkind]), files]
          obtain ⟨stream, hstream, hfailure, hs⟩ := hfile hkind
          rw [hfiles, List.map_cons]
          refine ⟨List.forall_mem_cons.2 ⟨⟨stream, hstream, hfailure⟩, hopened⟩,
            fun p content hp => ?_, fun p content hp ht => ?_, fun hnodup => ?_⟩
          · rcases hfrom p content hp with hold | hnew
            · rw [hs] at hold
              split_ifs at hold with heq
              · exact .inr (heq ▸ List.mem_cons_self)
              · exact .inl hold
            · exact .inr (List.mem_cons_of_mem _ hnew)
          · rw [List.mem_cons, not_or] at hp
            exact hkept p content hp.2 ((hs p content).2 (by rw [if_neg hp.1]; exact ht))
          · obtain ⟨hnotin, hnodup⟩ := List.nodup_cons.1 hnodup
            rw [List.forall_mem_cons]
            refine ⟨fun stream' hstream' => ?_, hwritten hnodup⟩
            -- no later file is written over this one
            obtain rfl : stream = stream' := by simpa [hstream] using hstream'
            exact hkept _ _ hnotin ((hs _ _).2 (by rw [if_pos rfl]))

/-! ### A whole ingestion -/

theorem mkdtemp_ok {dir ws : Path} {start : Text} {t t' : FileTree.Tree UInt8}
    (h : mkdtemp host dir start t = (.ok ws, t')) :
    t' = Function.update t ws (some .dir) ∧ (∃ name, ws = name :: dir) ∧
      FileTree.isDir t dir = true ∧ ∀ p, ws <:+ p → t p = none := by
  rw [mkdtemp] at h
  cases hname : host.tempName t dir start with
  | error e =>
      rw [hname] at h
      cases h
  | ok ws' =>
      rw [hname] at h
      obtain ⟨hws, rfl⟩ := Prod.mk.inj h
      obtain rfl := Except.ok.inj hws
      exact ⟨rfl, host.tempName_fresh _ _ _ _ hname⟩

theorem rooted_of_isDir {t : FileTree.Tree UInt8} : ∀ {dir : Path}, FileTree.isDir t dir = true →
    Rooted dir t
  | [], _ => fun q hq => absurd (List.suffix_nil.1 hq.1) hq.2
  | name :: parent, h => by
      obtain ⟨hparent, hself⟩ := isDir_tail h
      rintro q ⟨hsuffix, hne⟩
      rcases List.suffix_cons_iff.1 hsuffix with rfl | hq
      · exact hself
      · exact rooted_of_isDir hparent q ⟨hq, hne⟩

/-- A new workspace in a tree in which the durable root is made. -/
theorem newWorkspace_ok {start : Text} {before t' : FileTree.Tree UInt8} {ws : Path}
    (h : newWorkspace host start before = (.ok ws, t')) :
    ∃ t, RootMade host before t ∧ t' = Function.update t ws (some .dir) ∧ Rooted ws t' ∧
      ∀ p, ws <:+ p → t p = none := by
  obtain ⟨t, dir, hmade, htemp⟩ : ∃ t dir, RootMade host before t ∧
      mkdtemp host dir start t = (.ok ws, t') := by
    rw [newWorkspace] at h
    cases hroot : host.workspaceRoot with
    | none =>
        rw [hroot] at h
        exact ⟨before, _, .refl _ _, mapError_ok h⟩
    | some root =>
        rw [hroot] at h
        obtain ⟨⟨⟩, t, hdirs, htemp⟩ := Op.bind_eq_ok (mapError_ok h)
        have hchanged : MakesDirs (Above root) before (mkdirs host.refuses root before).2 :=
          mkdirs_changed root before
        rw [hdirs] at hchanged
        exact ⟨t, root, hchanged.mono fun q hq => ⟨root, hroot, hq⟩, htemp⟩
  obtain ⟨rfl, ⟨name, rfl⟩, hdir, hfree⟩ := mkdtemp_ok htemp
  refine ⟨t, hmade, rfl, ?_, hfree⟩
  rintro q ⟨hsuffix, hne⟩
  rcases List.suffix_cons_iff.1 hsuffix with rfl | hq
  · exact Function.update_self ..
  · have hqne : q ≠ name :: dir := by
      rintro rfl
      have := hq.length_le
      rw [List.length_cons] at this
      omega
    rw [Function.update_of_ne hqne]
    exact rooted_of_isDir hdir q ⟨hq, hne⟩

theorem newWorkspace_error {start : Text} {before t' : FileTree.Tree UInt8} {e : Raised}
    (h : newWorkspace host start before = (.error e, t')) : RootMade host before t' := by
  have htemp {dir : Path} {t : FileTree.Tree UInt8} {e : Fault}
      (h : mkdtemp host dir start t = (.error e, t')) : t' = t := by
    rw [mkdtemp] at h
    cases hname : host.tempName t dir start <;> rw [hname] at h <;> cases h
    rfl
  rw [newWorkspace] at h
  cases hroot : host.workspaceRoot with
  | none =>
      rw [hroot] at h
      obtain ⟨e, h⟩ := mapError_error h
      rw [htemp h]
      exact .refl _ _
  | some root =>
      rw [hroot] at h
      obtain ⟨e, h⟩ := mapError_error h
      have hchanged : MakesDirs (Above root) before (mkdirs host.refuses root before).2 :=
        mkdirs_changed root before
      have hmade : RootMade host before (mkdirs host.refuses root before).2 :=
        hchanged.mono fun q hq => ⟨root, hroot, hq⟩
      rcases Op.bind_eq_error h with hdirs | ⟨⟨⟩, t, hdirs, h⟩
      · rwa [hdirs] at hmade
      · rw [htemp h]
        rwa [hdirs] at hmade

theorem unpack_ok {data : Py.Bytes} {ws : Path} {t t' : FileTree.Tree UInt8}
    (h : unpack host data ws t = (.ok (), t')) : ∃ members, host.zipFile data = .ok members ∧
      checkMembers host members [] 0 = .ok () ∧ extractAll host ws members t = (.ok (), t') := by
  obtain ⟨members, s, hzip, h⟩ := Op.bind_eq_ok h
  obtain ⟨hmembers, rfl⟩ := Prod.mk.inj hzip
  split_ifs at h
  · cases h
  · obtain ⟨⟨⟩, s', hcheck, h⟩ := Op.bind_eq_ok h
    obtain ⟨hchecked, rfl⟩ := Prod.mk.inj hcheck
    exact ⟨members, hmembers, hchecked, h⟩

theorem unpack_inside {data : Py.Bytes} {ws : Path} :
    Op.Within (Inside ws) (unpack host data ws) := by
  refine within_bind (within_ofExcept _) fun members => ?_
  split_ifs
  · exact fun t => .refl ws t
  · intro t
    rcases hcheck : checkMembers host members [] 0 with e | ⟨⟩
    · exact .refl ws t
    · exact extractAll_inside (checkMembers_ok hcheck (Nat.zero_le _)).1 t

theorem removeTree_of_inside {ws : Path} {t u : FileTree.Tree UInt8} (hfree : ∀ p, ws <:+ p → t p = none)
    (hrooted : Rooted ws (Function.update t ws (some .dir)))
    (h : Inside ws (Function.update t ws (some .dir)) u) :
    (removeTree ws u : Except Raised Unit × FileTree.Tree UInt8).2 = t := by
  funext p
  change (if ws.isSuffixOf p then none else u p) = t p
  split_ifs with hp
  · exact (hfree p (List.isSuffixOf_iff_suffix.1 hp)).symm
  · have hnot : ¬ws <:+ p := fun hs => hp (List.isSuffixOf_iff_suffix.2 hs)
    have hne : p ≠ ws := fun heq => hnot (heq ▸ List.suffix_rfl)
    by_contra hchanged
    refine hnot (h hrooted p ?_).1
    rwa [Function.update_of_ne hne]

/-! ### When an archive is ingested safely -/

/-- An archive that is refused leaves no workspace. -/
theorem ingestZip_error {data : Py.Bytes} {applicationId : Text} {before after : FileTree.Tree UInt8}
    {e : Raised} (h : ingestZip host data applicationId before = (.error e, after)) :
    RootMade host before after := by
  rw [ingestZip] at h
  split_ifs at h
  · cases h
    exact .refl _ _
  · cases h
    exact .refl _ _
  · rcases Op.bind_eq_error h with hnew | ⟨ws, u, hnew, h⟩
    · exact newWorkspace_error hnew
    · obtain ⟨t, hmade, rfl, hrooted, hfree⟩ := newWorkspace_ok hnew
      have hinside : Inside ws _ (unpack host data ws (Function.update t ws (some .dir))).2 :=
        unpack_inside _
      rw [discarding] at h
      rcases hunpack : unpack host data ws (Function.update t ws (some .dir)) with ⟨e' | ⟨⟩, u⟩
      · rw [hunpack] at h hinside
        obtain ⟨-, rfl⟩ := Prod.mk.inj h
        rw [removeTree_of_inside hfree hrooted hinside]
        exact hmade
      · rw [hunpack] at h
        cases h

/-- What an archive that is accepted went through. -/
theorem ingestZip_ok {data : Py.Bytes} {applicationId : Text} {before after : FileTree.Tree UInt8}
    {ws : Path} (h : ingestZip host data applicationId before = (.ok ws, after)) :
    ∃ t members, RootMade host before t ∧ host.zipFile data = .ok members ∧
      checkMembers host members [] 0 = .ok () ∧ (∀ p, ws <:+ p → t p = none) ∧
        Rooted ws (Function.update t ws (some .dir)) ∧
          extractAll host ws members (Function.update t ws (some .dir)) = (.ok (), after) := by
  rw [ingestZip] at h
  split_ifs at h
  · cases h
  · cases h
  · obtain ⟨ws', u, hnew, h⟩ := Op.bind_eq_ok h
    obtain ⟨t, hmade, rfl, hrooted, hfree⟩ := newWorkspace_ok hnew
    rw [discarding] at h
    rcases hunpack : unpack host data ws' (Function.update t ws' (some .dir)) with ⟨e' | ⟨⟩, u⟩
    · rw [hunpack] at h
      cases h
    · rw [hunpack] at h
      obtain ⟨hws, rfl⟩ := Prod.mk.inj h
      obtain rfl := Except.ok.inj hws
      obtain ⟨members, hmembers, hchecked, hextracted⟩ := unpack_ok hunpack
      exact ⟨t, members, hmade, hmembers, hchecked, hfree, hrooted, hextracted⟩

theorem nodup_place_iff {members : List Member} {ws : Path} :
    ((files members).map (place ws)).Nodup ↔ Separate members := by
  have hplace : (files members).map (place ws) =
      ((files members).map fun info => components info.filename).map fun parts =>
        parts.reverse ++ ws := by
    rw [List.map_map]
    rfl
  rw [hplace]
  refine List.nodup_map_iff fun parts parts' h => ?_
  exact List.reverse_injective (List.append_cancel_right h)

/-- Files of their own have different components: there are no more files than paths. -/
theorem separate_of_extracted {data : Py.Bytes} {applicationId : Text} {before after : FileTree.Tree UInt8}
    {ws : Path} {members : List Member}
    (h : ingestZip host data applicationId before = (.ok ws, after))
    (hmembers : host.zipFile data = .ok members)
    (hextracted : Extracted host members ws before after) :
    Separate members := by
  obtain ⟨t, members', -, hmembers', hchecked, hfree, -, hrun⟩ := ingestZip_ok h
  obtain rfl : members = members' := Except.ok.inj (hmembers.symm.trans hmembers')
  obtain ⟨-, hfrom, -, -⟩ :=
    extractAll_files (checkMembers_ok hchecked (Nat.zero_le _)).1 hrun
  obtain ⟨places, hnodup, hplaced⟩ := hextracted.placed
  have hsubset : places ⊆ (files members).map (place ws) := by
    intro p hp
    obtain ⟨info, -, hws, stream, -, -, hfile⟩ := Py.exists_of_forall₂ hplaced p hp
    refine (hfrom p _ hfile).resolve_left fun hold => ?_
    rcases eq_or_ne p ws with rfl | hne
    · rw [Function.update_self] at hold
      cases hold
    · rw [Function.update_of_ne hne, hfree p hws] at hold
      cases hold
  have hlength : ((files members).map (place ws)).length ≤ places.length := by
    rw [List.length_map, hplaced.length_eq]
  have hperm := (hnodup.subperm hsubset).perm_of_length_le hlength
  exact nodup_place_iff.1 (hperm.nodup_iff.1 hnodup)

/-- Files with different components are extracted to files of their own. -/
theorem extracted_of_separate {data : Py.Bytes} {applicationId : Text} {before after : FileTree.Tree UInt8}
    {ws : Path} {members : List Member}
    (h : ingestZip host data applicationId before = (.ok ws, after))
    (hmembers : host.zipFile data = .ok members) (hseparate : Separate members) :
    Extracted host members ws before after := by
  obtain ⟨t, members', hmade, hmembers', hchecked, -, hrooted, hrun⟩ := ingestZip_ok h
  obtain rfl : members = members' := Except.ok.inj (hmembers.symm.trans hmembers')
  obtain ⟨hnames, hsize⟩ := checkMembers_ok hchecked (Nat.zero_le _)
  obtain ⟨hopened, -, -, hwritten⟩ := extractAll_files hnames hrun
  have hnodup : ((files members).map (place ws)).Nodup := nodup_place_iff.2 hseparate
  refine ⟨⟨_, hnodup, List.forall₂_map_right_iff.2 (List.forall₂_same.2 fun info hinfo => ?_)⟩,
    fun p hp => ?_, ?_⟩
  · obtain ⟨stream, hstream, hfailure⟩ := hopened info hinfo
    exact ⟨List.suffix_append .., stream, hstream, hfailure,
      hwritten hnodup info hinfo stream hstream⟩
  · by_cases hws : ws <:+ p
    · exact .inl hws
    · have hne : p ≠ ws := fun heq => hws (heq ▸ List.suffix_rfl)
      have hinside : Inside ws _
          (extractAll host ws members (Function.update t ws (some .dir))).2 :=
        extractAll_inside hnames _
      have hinside := hinside hrooted p
      rw [hrun, Function.update_of_ne hne] at hinside
      have hsame : after p = t p := by
        by_contra hchanged
        exact hws (hinside hchanged).1
      rw [hsame] at hp ⊢
      exact .inr (hmade p hp).2
  · calc ((files members).map fun info =>
          (info.opened.toOption.map fun stream => stream.content.length).getD 0).sum
        ≤ ((files members).map Member.fileSize).sum := by
          refine List.sum_le_sum fun info hinfo => ?_
          obtain ⟨stream, hstream, -⟩ := hopened info hinfo
          rw [hstream]
          exact info.declared stream hstream
      _ ≤ (members.map Member.fileSize).sum :=
          (List.filter_sublist.map Member.fileSize).sum_le_sum fun _ _ => Nat.zero_le _
      _ ≤ host.maxTotalExtractedBytes := by omega

/-- **An archive is ingested safely** exactly when it is refused or its files have different
components, the dots and the empty ones dropped. -/
theorem ingestZip_safe_iff (host : Host) (data : Py.Bytes) (applicationId : Text)
    (before : FileTree.Tree UInt8) :
    IngestedSafely host data applicationId before ↔
      ∀ ws after members, ingestZip host data applicationId before = (.ok ws, after) →
        host.zipFile data = .ok members → Separate members := by
  constructor
  · intro h ws after members hrun hmembers
    exact separate_of_extracted hrun hmembers (h.2 ws after members hrun hmembers)
  · intro h
    exact ⟨fun e after herror => ingestZip_error herror, fun ws after members hrun hmembers =>
      extracted_of_separate hrun hmembers (h ws after members hrun hmembers)⟩

/-! ### Two spellings of one path -/

/-- A member that is read in one chunk. -/
def plainMember (filename : Text) (content : Py.Bytes) : Member where
  filename := filename
  externalAttr := 0
  fileSize := content.length
  compressSize := content.length
  opened := .ok ⟨[content], none⟩
  declared s hs := by
    obtain rfl := Except.ok.inj hs
    simp [Stream.content]

/-- The files `A` and `./A`. -/
def dotted : List Member := [plainMember ['A'] [65], plainMember ['.', '/', 'A'] [66]]

open Classical in
/-- A host whose archives all hold the two files, and which makes its workspaces at the root. -/
noncomputable def dottedHost : Host where
  maxZipArchiveBytes := 100
  maxZipEntries := 100
  maxTotalExtractedBytes := 100
  maxZipCompressionRatio := 100
  zipFile _ := .ok dotted
  casefold name := name.map Char.toLower
  quotient a b := (a / b : ℕ)
  quotientText a b := toString (a / b)
  repr := String.ofList
  workspaceRoot := none
  tempDir := []
  refuses _ _ := false
  tempName t dir _ :=
    if FileTree.isDir t dir = true ∧ ∀ p, ['w', 's'] :: dir <:+ p → t p = none then
      .ok (['w', 's'] :: dir)
    else .error .system
  tempName_fresh t dir start ws h := by
    split_ifs at h with hfree
    obtain rfl := Except.ok.inj h
    exact ⟨⟨_, rfl⟩, hfree⟩

/-- The archive of `A` and `./A` is accepted, and the second file is written over the first. -/
theorem dotted_overwritten : ¬∀ (host : Host) (data : Py.Bytes) (applicationId : Text)
    (before : FileTree.Tree UInt8), IngestedSafely host data applicationId before := by
  intro h
  have hnew : newWorkspace dottedHost "ingest-demo-".toList (fun _ => none) =
      (.ok [['w', 's']], Function.update (fun _ => none) [['w', 's']] (some .dir)) := by
    have hname : dottedHost.tempName (fun _ => none) [] "ingest-demo-".toList =
        .ok [['w', 's']] := if_pos ⟨rfl, fun _ _ => rfl⟩
    change Op.mapError osError (mkdtemp dottedHost [] _) _ = _
    rw [Op.mapError, mkdtemp, hname]
  have hunpack : (unpack dottedHost [] [['w', 's']]
      (Function.update (fun _ => none) [['w', 's']] (some .dir))).1 = .ok () := by
    rfl
  obtain ⟨after, haccepted⟩ : ∃ after, ingestZip dottedHost [] "demo".toList (fun _ => none) =
      (.ok [['w', 's']], after) := by
    have hname : "ingest-".toList ++ "demo".toList ++ ['-'] = "ingest-demo-".toList := by decide
    rw [ingestZip, if_neg (by decide), if_neg (by decide), Op.bind_apply, hname, hnew]
    dsimp only
    rw [discarding]
    rcases hrun : unpack dottedHost [] [['w', 's']]
      (Function.update (fun _ => none) [['w', 's']] (some .dir)) with ⟨e | ⟨⟩, after⟩
    · rw [hrun] at hunpack
      cases hunpack
    · exact ⟨after, rfl⟩
  have hseparate := separate_of_extracted haccepted rfl ((h _ _ _ _).2 _ _ _ haccepted rfl)
  have hsame : ¬((files dotted).map fun info => components info.filename).Nodup := by decide
  exact hsame hseparate

end CobolJava.Service.Ingestion
