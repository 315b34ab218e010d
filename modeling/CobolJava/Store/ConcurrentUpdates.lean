/-
**Concurrent updates of applications.**

Clients that read an application and then write it through either method that updates one, with the
version they read as the expected one.  Each call runs under the lock of the store, so that a run is
an interleaving of whole calls.  The row of an application is a cell with a version: no accepted
write is lost, and one that is refused changes nothing.

Main definitions:

* `Store.Write`, `Store.Write.call` — what a client writes, and the call that writes it;
* `Store.Clients`, `Store.Clients.Step` — the store among its clients, and their calls;
* `Store.ApplicationField.key` — the name of a keyword argument.

Main results:

* `Store.Write.Applied.loadable` — what an update writes can be read back;
* `Store.Clients.Tracks.step` — **a row among its clients is a cell with a version**;
* `Store.updates_linearized` — **no update is lost**, and updates of other columns commute.
-/

import Mathlib.Data.List.TakeWhile
import CobolJava.Lib.VersionedCell
import CobolJava.Store.Calls
import CobolJava.Store.FieldRoundTrip
import CobolJava.Store.Sample

set_option autoImplicit false

namespace CobolJava

namespace Serialization

theorem strip_dumps_arr_ne (items : List Json) : Py.strip (Json.dumps (.arr items)) ≠ "" := by
  obtain ⟨rest, hrest⟩ : ∃ rest, (Json.dumps (.arr items)).toList = '[' :: rest := by
    rw [Json.dumps, String.toList_ofList, Json.sortKeys_arr]
    cases items with
    | nil => exact ⟨_, rfl⟩
    | cons x xs => exact ⟨_, rfl⟩
  intro hstrip
  have hnil := congrArg String.toList hstrip
  rw [Py.strip, String.toList_ofList, hrest, List.dropWhile_cons_of_neg (by decide),
    List.reverse_cons, String.toList_empty, List.reverse_eq_nil_iff, List.dropWhile_eq_nil_iff]
    at hnil
  exact absurd (hnil '[' (by simp)) (by decide)

/-- **A column of strings is read back.** -/
theorem decodeStrList_encodeStrList {values : List String} {text : String}
    (h : encodeStrList values = .ok text) : decodeStrList text = .ok values := by
  obtain rfl : Json.dumps (.arr (values.map .str)) = text := Except.ok.inj h
  have hkeyed : (Json.arr (values.map .str)).Keyed := by
    rw [Json.Keyed, Json.keyedItems_iff]
    intro item hitem
    obtain ⟨s, -, rfl⟩ := List.mem_map.1 hitem
    trivial
  have hsorted : Json.sortKeys (.arr (values.map .str)) = .arr (values.map .str) := by
    rw [Json.sortKeys_arr, List.map_map]
    exact congrArg Json.arr (List.map_congr_left fun s _ => Json.sortKeys_str s)
  rw [decodeStrList, if_neg (strip_dumps_arr_ne _), Json.loads_dumps hkeyed, hsorted]
  exact (Py.Reads.mapM (g := Json.str) (P := fun _ => True) (fun s => Py.Reads.ok s) values _).2
    ⟨fun _ _ => trivial, rfl⟩

end Serialization

namespace Store

/-! ### What a client writes -/

/-- What a client writes to the application it has read: a whole record, or some columns. -/
inductive Write where
  | full (record : ApplicationRecord)
  | columns (fields : List ApplicationField)

/-- The write is to the application of this id. -/
def Write.IsFor (id : String) : Write → Prop
  | .full record => record.id = id
  | .columns _ => True

/-- The call of a client: the version it read is the one expected. -/
def Write.call (codec : Codec) (py : Py.Rendering) (read : ApplicationRecord) :
    Write → Method ApplicationRecord
  | .full record => updateApplication codec py record (some read.version)
  | .columns fields => updateApplicationFields codec py read.id (some read.version) fields

/-- The assignment of a write to a row, which keeps the id and raises the version; or the exception
before any statement. -/
def Write.assignment (codec : Codec) (py : Py.Rendering) : Write → Except Py.Exc
    {f : ApplicationRow → ApplicationRow //
      ∀ row, (f row).id = row.id ∧ (f row).version = row.version + 1}
  | .full record => (appParams codec record).map fun params =>
      ⟨setApplication params, fun _ => ⟨rfl, rfl⟩⟩
  | .columns fields => (fieldAssignments codec py fields).map fun assignments =>
      ⟨setFields assignments, fun _ => ⟨rfl, rfl⟩⟩

/-- The row is the result of the write on another. -/
def Write.Applied (codec : Codec) (py : Py.Rendering) (w : Write) (row next : ApplicationRow) :
    Prop :=
  ∃ f, w.assignment codec py = .ok f ∧ next = f.1 row

def Loadable (codec : Codec) (row : ApplicationRow) : Prop :=
  ∃ record, appFromRow codec row = .ok record

section

variable {codec : Codec} {py : Py.Rendering}

theorem Write.Applied.version {w : Write} {row next : ApplicationRow}
    (h : w.Applied codec py row next) : next.version = row.version + 1 := by
  obtain ⟨f, -, rfl⟩ := h
  exact (f.2 row).2

theorem loadable_iff {row : ApplicationRow} : Loadable codec row ↔
    (∃ discovered, codec.decodeStrList row.discoveredProgramIds = .ok discovered) ∧
      ∃ generated, codec.decodeStrList row.generatedProgramIds = .ok generated := by
  simp only [Loadable, appFromRow, Py.bind_eq_ok_iff]
  constructor
  · rintro ⟨_, discovered, hd, generated, hg, -⟩
    exact ⟨⟨discovered, hd⟩, generated, hg⟩
  · rintro ⟨⟨discovered, hd⟩, generated, hg⟩
    exact ⟨_, discovered, hd, generated, hg, rfl⟩

theorem appFromRow_ok {row : ApplicationRow} {record : ApplicationRecord}
    (h : appFromRow codec row = .ok record) :
    record.id = row.id ∧ record.version = row.version := by
  simp only [appFromRow, Py.bind_eq_ok_iff] at h
  obtain ⟨discovered, -, generated, -, h⟩ := h
  obtain rfl := Except.ok.inj h
  exact ⟨rfl, rfl⟩

theorem Write.call_run {w : Write} {read : ApplicationRecord} (hfor : w.IsFor read.id)
    (c : Connection Database) :
    w.call codec py read c =
      match w.assignment codec py with
      | .error e => (.error e, c)
      | .ok f => writeApplication codec py read.id (some read.version) f.1 (fun row => (f.2 row).1)
          c := by
  cases w with
  | full record =>
      rw [← show record.id = read.id from hfor, Write.call, updateApplication_run,
        Write.assignment]
      cases appParams codec record <;> rfl
  | columns fields =>
      rw [Write.call, updateApplicationFields_run, Write.assignment]
      cases fieldAssignments codec py fields <;> rfl

/-! ### What is written can be read -/

/-- The lists a codec writes, it reads. -/
def ListsReadBack (codec : Codec) : Prop :=
  ∀ values text, codec.encodeStrList values = .ok text → codec.decodeStrList text = .ok values

theorem assignField_loadable (hlists : ListsReadBack codec) {field : ApplicationField}
    {f : ApplicationRow → ApplicationRow} (hf : assignField codec field = .ok f)
    {row : ApplicationRow} (h : Loadable codec row) : Loadable codec (f row) := by
  rw [loadable_iff] at h ⊢
  cases field
  case discoveredProgramIds v =>
    obtain ⟨text, htext, rfl⟩ := Py.map_eq_ok.1 hf
    exact ⟨⟨v, hlists v text htext⟩, h.2⟩
  case generatedProgramIds v =>
    obtain ⟨text, htext, rfl⟩ := Py.map_eq_ok.1 hf
    exact ⟨h.1, v, hlists v text htext⟩
  all_goals
    obtain rfl := Except.ok.inj hf
    exact h

theorem assignFields_loadable (hlists : ListsReadBack codec) (fields : List ApplicationField) :
    ∀ {assignments : List (ApplicationRow → ApplicationRow)},
      fields.mapM (assignField codec) = .ok assignments → ∀ {row : ApplicationRow},
        Loadable codec row → Loadable codec (assignments.foldl (fun r f => f r) row) := by
  induction fields with
  | nil =>
      intro assignments h row hrow
      obtain rfl := Except.ok.inj h
      exact hrow
  | cons field fields ih =>
      intro assignments h row hrow
      rw [List.mapM_cons] at h
      simp only [Py.bind_eq_ok_iff] at h
      obtain ⟨f, hf, rest, hrest, h⟩ := h
      obtain rfl := Except.ok.inj h
      exact ih hrest (assignField_loadable hlists hf hrow)

/-- **What an update writes can be read back**, when the row could be read before. -/
theorem Write.Applied.loadable (hlists : ListsReadBack codec) {w : Write}
    {row next : ApplicationRow} (h : w.Applied codec py row next) (hrow : Loadable codec row) :
    Loadable codec next := by
  obtain ⟨f, hf, rfl⟩ := h
  cases w with
  | full record =>
      obtain ⟨params, hparams, rfl⟩ := Py.map_eq_ok.1 hf
      simp only [appParams, Py.bind_eq_ok_iff] at hparams
      obtain ⟨discovered, hd, generated, hg, hparams⟩ := hparams
      obtain rfl := Except.ok.inj hparams
      exact loadable_iff.2 ⟨⟨_, hlists _ _ hd⟩, _, hlists _ _ hg⟩
  | columns fields =>
      obtain ⟨assignments, hassignments, rfl⟩ := Py.map_eq_ok.1 hf
      rw [fieldAssignments] at hassignments
      split_ifs at hassignments
      have hcolumns := loadable_iff.1 (assignFields_loadable hlists fields hassignments hrow)
      exact loadable_iff.2 hcolumns

/-! ### One call -/

/-- A call on the version the row has applies its write to the row and commits. -/
theorem Write.call_accepted (hlists : ListsReadBack codec) {w : Write} {read : ApplicationRecord}
    (hfor : w.IsFor read.id) {c : Connection Database} {row : ApplicationRow}
    (hrow : c.working.applications.find? read.id = some row) (hversion : row.version = read.version)
    (hloadable : Loadable codec row) {f} (hf : w.assignment codec py = .ok f) :
    ∃ record, w.call codec py read c = (.ok record, .settled (withApplications c.working
      (applicationIs read.id (some read.version)) f.1 fun row => (f.2 row).1)) := by
  obtain ⟨record, hrecord⟩ := Write.Applied.loadable hlists ⟨f, hf, rfl⟩ hloadable
  have hp : applicationIs read.id (some read.version) row = true := by
    simp [applicationIs, Table.find?_key hrow, hversion]
  have hcount : c.working.applications.rowcount
      (applicationIs read.id (some read.version)) ≠ 0 := by
    intro hzero
    have := rowcount_applicationIs_eq_zero.1 hzero row hrow
    simp [hversion] at this
  refine ⟨record, ?_⟩
  rw [w.call_run hfor, hf]
  dsimp only
  rw [writeApplication_run, if_neg hcount, refreshApplication_run]
  simp only [Connection.settled_working, withApplications_find?, hrow, Option.map_some, hp,
    if_true, hrecord]

theorem Write.call_conflict {w : Write} {read : ApplicationRecord} (hfor : w.IsFor read.id)
    {c : Connection Database} {row : ApplicationRow}
    (hrow : c.working.applications.find? read.id = some row)
    (hversion : row.version ≠ read.version) : ∃ e, w.call codec py read c = (.error e, c) := by
  rw [w.call_run hfor]
  cases w.assignment codec py with
  | error e => exact ⟨e, rfl⟩
  | ok f =>
      have hcount : c.working.applications.rowcount
          (applicationIs read.id (some read.version)) = 0 := by
        rw [rowcount_applicationIs_eq_zero]
        intro row' hrow'
        obtain rfl : row = row' := Option.some.inj (hrow.symm.trans hrow')
        simpa using hversion
      dsimp only
      rw [writeApplication_run, if_pos hcount]
      exact ⟨_, rfl⟩

/-- A call of a client at a row that can be read when it has the version the client read: accepted,
it applies its write to that row and commits; refused, it leaves the connection as it was. -/
theorem Write.call_cases (hlists : ListsReadBack codec) {w : Write} {read : ApplicationRecord}
    (hfor : w.IsFor read.id) {c : Connection Database} {row : ApplicationRow}
    (hrow : c.working.applications.find? read.id = some row)
    (hloadable : row.version = read.version → Loadable codec row) :
    (∃ f record, w.assignment codec py = .ok f ∧ row.version = read.version ∧
      w.call codec py read c = (.ok record, .settled (withApplications c.working
        (applicationIs read.id (some read.version)) f.1 fun row => (f.2 row).1))) ∨
      ∃ e, w.call codec py read c = (.error e, c) := by
  by_cases hversion : row.version = read.version
  · cases hf : w.assignment codec py with
    | error e =>
        refine .inr ⟨e, ?_⟩
        rw [w.call_run hfor, hf]
    | ok f =>
        obtain ⟨record, hcall⟩ :=
          w.call_accepted hlists hfor hrow hversion (hloadable hversion) hf
        exact .inl ⟨f, record, rfl, hversion, hcall⟩
  · exact .inr (w.call_conflict hfor hrow hversion)

/-- What any call of a client leaves of the other applications, and of the commits. -/
theorem Write.call_frame {w : Write} {read : ApplicationRecord} (hfor : w.IsFor read.id)
    {c c' : Connection Database} {result : Except Py.Exc ApplicationRecord}
    (h : w.call codec py read c = (result, c'))
    (hc : c.committed.applications = c.working.applications) :
    c'.committed.applications = c'.working.applications ∧
      ∀ id, id ≠ read.id → c'.working.applications.find? id = c.working.applications.find? id := by
  rw [w.call_run hfor] at h
  cases hf : w.assignment codec py with
  | error e =>
      rw [hf] at h
      cases h
      exact ⟨hc, fun _ _ => rfl⟩
  | ok f =>
      rw [hf] at h
      dsimp only at h
      rw [writeApplication_run] at h
      split_ifs at h
      · cases h
        exact ⟨hc, fun _ _ => rfl⟩
      · rw [refreshApplication_run] at h
        cases h
        refine ⟨rfl, fun id hid => ?_⟩
        rw [Connection.settled_working, withApplications_find?]
        cases hrow : c.working.applications.find? id with
        | none => rfl
        | some row =>
            have hne : applicationIs read.id (some read.version) row ≠ true := by
              simp [applicationIs, Table.find?_key hrow, hid]
            rw [Option.map_some, if_neg hne]

theorem getApplication_run (id : String) (c : Connection Database) :
    getApplication codec id c =
      (match c.working.applications.find? id with
        | none => .ok none
        | some row => (appFromRow codec row).map some, c) := by
  change (match c.working.applications.find? id with
    | none => Tx.ofExcept (.ok none)
    | some row => Tx.ofExcept ((appFromRow codec row).map some) :
      Method (Option ApplicationRecord)) c = _
  cases c.working.applications.find? id <;> rfl

end

/-! ### The store among its clients -/

/-- What a client has read: a row, and the record it became. -/
structure Reading (codec : Codec) where
  row : ApplicationRow
  record : ApplicationRecord
  read : appFromRow codec row = .ok record

/-- The store among its clients: its connection, what each client last read, and the writes that
were accepted, each with the row its client had read. -/
structure Clients (codec : Codec) where
  connection : Connection Database
  seen : ℕ → Option (Reading codec)
  log : List (Write × ApplicationRow)

/-- The call of a client. -/
inductive ClientCall where
  | read (client : ℕ) (id : String)
  | write (client : ℕ) (w : Write)

/-- A client reads an application, or writes to the one it has read, with the version it read. -/
inductive Clients.Step (codec : Codec) (py : Py.Rendering) :
    Clients codec → ClientCall → Clients codec → Prop
  | read {s : Clients codec} {client : ℕ} {id : String} {r : Reading codec}
      {c : Connection Database}
      (hrow : s.connection.working.applications.find? id = some r.row)
      (h : getApplication codec id s.connection = (.ok (some r.record), c)) :
      Step codec py s (.read client id)
        { s with connection := c, seen := Function.update s.seen client (some r) }
  | miss {s : Clients codec} {client : ℕ} {id : String}
      {result : Except Py.Exc (Option ApplicationRecord)} {c : Connection Database}
      (h : getApplication codec id s.connection = (result, c))
      (hresult : ∀ record, result ≠ .ok (some record)) :
      Step codec py s (.read client id)
        { s with connection := c, seen := Function.update s.seen client none }
  | accept {s : Clients codec} {client : ℕ} {w : Write} {r : Reading codec}
      {record : ApplicationRecord} {c : Connection Database} (hseen : s.seen client = some r)
      (hfor : w.IsFor r.record.id)
      (h : w.call codec py r.record s.connection = (.ok record, c)) :
      Step codec py s (.write client w)
        { s with connection := c, log := s.log ++ [(w, r.row)] }
  | refuse {s : Clients codec} {client : ℕ} {w : Write} {r : Reading codec} {e : Py.Exc}
      {c : Connection Database} (hseen : s.seen client = some r) (hfor : w.IsFor r.record.id)
      (h : w.call codec py r.record s.connection = (.error e, c)) :
      Step codec py s (.write client w) { s with connection := c }

/-- The start: nothing is read, and the applications on the connection are committed. -/
def Clients.IsStart {codec : Codec} (c : Connection Database) (s : Clients codec) : Prop :=
  c.committed.applications = c.working.applications ∧ s = ⟨c, fun _ => none, []⟩

/-- The accepted writes of one application. -/
def Clients.writesOf {codec : Codec} (s : Clients codec) (id : String) :
    List (Write × ApplicationRow) :=
  s.log.filter fun e => decide (e.2.id = id)

/-! ### A row is a cell with a version -/

section

variable {codec : Codec} {py : Py.Rendering} {s t : Clients codec} {id : String}
  {first row : ApplicationRow}

/-- What a client has read of one application. -/
def Clients.seenOf (s : Clients codec) (id : String) (client : ℕ) : Option ApplicationRow :=
  ((s.seen client).map Reading.row).filter fun row => decide (row.id = id)

/-- The row of an application, among its clients. -/
def Clients.cell (s : Clients codec) (id : String) (row : ApplicationRow) :
    VersionedCell.State ℕ ApplicationRow Write :=
  ⟨row, s.seenOf id, s.writesOf id⟩

/-- The runs of the cell that starts with a row. -/
abbrev CellReachable (codec : Codec) (py : Py.Rendering) (first : ApplicationRow) :
    VersionedCell.State ℕ ApplicationRow Write → Prop :=
  Interleaving.Reachable (fun s => s = ⟨first, fun _ => none, []⟩)
    (VersionedCell.Step ApplicationRow.version (Write.Applied codec py))

/-- The store follows a run of the cell that starts with the first row of an application. -/
structure Clients.Tracks (py : Py.Rendering) (id : String) (first : ApplicationRow)
    (s : Clients codec) : Prop where
  committed : s.connection.committed.applications = s.connection.working.applications
  cell : ∃ row, s.connection.working.applications.find? id = some row ∧
    CellReachable codec py first (s.cell id row)

theorem CellReachable.coherent {state : VersionedCell.State ℕ ApplicationRow Write}
    (h : CellReachable codec py first state) :
    VersionedCell.Coherent ApplicationRow.version (Write.Applied codec py) first state :=
  VersionedCell.Coherent.run (fun _ _ _ => Write.Applied.version) h

theorem Clients.seenOf_update (s : Clients codec) (id : String) (client : ℕ)
    (r : Option (Reading codec)) (c : Connection Database) :
    Clients.seenOf { s with connection := c, seen := Function.update s.seen client r } id =
      Function.update (s.seenOf id) client
        ((r.map Reading.row).filter fun row => decide (row.id = id)) := by
  funext other
  rcases eq_or_ne other client with rfl | hne
  · simp [Clients.seenOf]
  · simp [Clients.seenOf, Function.update_of_ne hne]

/-- A client reads one application: it has read another no more. -/
theorem Clients.Tracks.update_seen (h : s.Tracks py id first) (client : ℕ)
    {r : Option (Reading codec)}
    (hr : ∀ reading ∈ r, reading.row.id = id →
      s.connection.working.applications.find? id = some reading.row) :
    Clients.Tracks py id first { s with seen := Function.update s.seen client r } := by
  obtain ⟨row, hrow, hreach⟩ := h.cell
  refine ⟨h.committed, row, hrow, ?_⟩
  have hseen := s.seenOf_update id client r s.connection
  rw [Clients.cell, hseen]
  by_cases hid : ∃ reading ∈ r, reading.row.id = id
  · obtain ⟨reading, rfl, hid⟩ := hid
    obtain rfl : row = reading.row := Option.some.inj (hrow.symm.trans (hr _ rfl hid))
    rw [Option.map_some, Option.filter_some, if_pos (by simpa using hid)]
    exact hreach.next (.read _ client)
  · have hnone : (r.map Reading.row).filter (fun row => decide (row.id = id)) = none := by
      rw [Option.filter_eq_none_iff]
      rintro _ hmem
      obtain ⟨reading, hreading, rfl⟩ := Option.mem_map.1 hmem
      simpa using fun heq => hid ⟨reading, hreading, heq⟩
    rw [hnone]
    exact hreach.next (.drop _ client)

theorem Clients.seenOf_eq_some {client : ℕ} {r : Reading codec} (hseen : s.seen client = some r)
    (hid : r.row.id = id) : s.seenOf id client = some r.row := by
  simp [Clients.seenOf, hseen, hid]

theorem CellReachable.eq_of_version (h : CellReachable codec py first (s.cell id row)) {client : ℕ}
    {r : Reading codec} (hseen : s.seen client = some r) (hid : r.row.id = id)
    (hversion : row.version = r.record.version) : r.row = row := by
  refine (h.coherent.seen client r.row (Clients.seenOf_eq_some hseen hid)).2 ?_
  exact (appFromRow_ok r.read).2.symm.trans hversion.symm

/-- The calls of clients on the version they have read, at a row they may have read. -/
theorem Clients.Tracks.call_cases (hlists : ListsReadBack codec) (h : s.Tracks py id first)
    {client : ℕ} {w : Write} {r : Reading codec} (hseen : s.seen client = some r)
    (hid : r.row.id = id) (hfor : w.IsFor r.record.id) :
    ∃ row, s.connection.working.applications.find? id = some row ∧
      CellReachable codec py first (s.cell id row) ∧
      ((∃ f record, w.assignment codec py = .ok f ∧ r.row = row ∧
        w.call codec py r.record s.connection =
          (.ok record, .settled (withApplications s.connection.working
            (applicationIs id (some row.version)) f.1 fun row => (f.2 row).1))) ∨
        ∃ e, w.call codec py r.record s.connection = (.error e, s.connection)) := by
  obtain ⟨row, hrow, hreach⟩ := h.cell
  have hrecord : r.record.id = id := (appFromRow_ok r.read).1.trans hid
  refine ⟨row, hrow, hreach, ?_⟩
  have hfind : s.connection.working.applications.find? r.record.id = some row := by
    rw [hrecord]
    exact hrow
  have hloadable (hversion : row.version = r.record.version) : Loadable codec row := by
    -- the row of that version is the one the client has read
    rw [← hreach.eq_of_version hseen hid hversion]
    exact ⟨r.record, r.read⟩
  rcases w.call_cases hlists hfor hfind hloadable with
    ⟨f, record, hf, hversion, hcall⟩ | hrefused
  · rw [hrecord, ← hversion] at hcall
    exact .inl ⟨f, record, hf, hreach.eq_of_version hseen hid hversion, hcall⟩
  · exact .inr hrefused

theorem Clients.Tracks.other (h : s.Tracks py id first) {c : Connection Database}
    (hcommitted : c.committed.applications = c.working.applications)
    (hframe : c.working.applications.find? id = s.connection.working.applications.find? id)
    {log : List (Write × ApplicationRow)} (hlog : ∀ e ∈ log, e.2.id ≠ id) :
    Clients.Tracks py id first { s with connection := c, log := s.log ++ log } := by
  obtain ⟨row, hrow, hreach⟩ := h.cell
  have hwrites : Clients.writesOf { s with connection := c, log := s.log ++ log } id =
      s.writesOf id := by
    simpa [Clients.writesOf, List.filter_append] using hlog
  refine ⟨hcommitted, row, hframe.trans hrow, ?_⟩
  rw [Clients.cell, hwrites]
  exact hreach

/-- An accepted call. -/
theorem Clients.Tracks.accept (hlists : ListsReadBack codec) (h : s.Tracks py id first)
    {client : ℕ} {w : Write} {r : Reading codec} {record : ApplicationRecord}
    {c : Connection Database} (hseen : s.seen client = some r) (hfor : w.IsFor r.record.id)
    (hcall : w.call codec py r.record s.connection = (.ok record, c)) :
    Clients.Tracks py id first { s with connection := c, log := s.log ++ [(w, r.row)] } := by
  obtain ⟨hcommitted, hframe⟩ := w.call_frame hfor hcall h.committed
  by_cases hid : r.row.id = id
  · obtain ⟨row, hrow, hreach, hcases⟩ := h.call_cases hlists hseen hid hfor
    rcases hcases with ⟨f, record', hf, hbase, haccepted⟩ | ⟨e, hrefused⟩
    · rw [hcall] at haccepted
      obtain ⟨-, rfl⟩ := Prod.mk.inj haccepted
      have hp : applicationIs id (some row.version) row = true := by
        simp [applicationIs, Table.find?_key hrow]
      refine ⟨hcommitted, f.1 row, ?_, ?_⟩
      · rw [Connection.settled_working, withApplications_find?, hrow, Option.map_some, if_pos hp]
      · have hlog (c : Connection Database) :
            Clients.writesOf { s with connection := c, log := s.log ++ [(w, r.row)] } id =
              s.writesOf id ++ [(w, r.row)] := by
          simp [Clients.writesOf, hid]
        rw [Clients.cell, hlog]
        exact hreach.next (.write (Clients.seenOf_eq_some hseen hid)
          (congrArg ApplicationRow.version hbase) ⟨f, hf, rfl⟩)
    · rw [hcall] at hrefused
      cases hrefused
  · have hother : id ≠ r.record.id := by
      rw [(appFromRow_ok r.read).1]
      exact Ne.symm hid
    exact h.other hcommitted (hframe id hother) (by simpa using hid)

theorem Clients.Tracks.refuse (hlists : ListsReadBack codec) (h : s.Tracks py id first)
    {client : ℕ} {w : Write} {r : Reading codec} {e : Py.Exc} {c : Connection Database}
    (hseen : s.seen client = some r) (hid : r.row.id = id) (hfor : w.IsFor r.record.id)
    (hcall : w.call codec py r.record s.connection = (.error e, c)) : c = s.connection := by
  obtain ⟨row, -, -, hcases⟩ := h.call_cases hlists hseen hid hfor
  rcases hcases with ⟨f, record, -, -, haccepted⟩ | ⟨e', hrefused⟩
  · rw [hcall] at haccepted
    cases haccepted
  · rw [hcall] at hrefused
    exact (Prod.mk.inj hrefused).2

/-- **A call keeps a row among its clients a cell with a version.** -/
theorem Clients.Tracks.step (hlists : ListsReadBack codec) (h : s.Tracks py id first)
    {call : ClientCall} (hs : Clients.Step codec py s call t) : t.Tracks py id first := by
  cases hs with
  | @read client other r c hrow hget =>
      rw [getApplication_run] at hget
      obtain ⟨-, rfl⟩ := Prod.mk.inj hget
      refine h.update_seen client fun reading hreading hid => ?_
      obtain rfl : r = reading := Option.some.inj hreading
      rwa [← hid, Table.find?_key hrow]
  | @miss client other result c hget hresult =>
      rw [getApplication_run] at hget
      obtain ⟨-, rfl⟩ := Prod.mk.inj hget
      exact h.update_seen client (by simp)
  | accept hseen hfor hcall => exact h.accept hlists hseen hfor hcall
  | @refuse client w r e c hseen hfor hcall =>
      by_cases hid : r.row.id = id
      · rw [h.refuse hlists hseen hid hfor hcall]
        exact h
      · have hother : id ≠ r.record.id := by
          rw [(appFromRow_ok r.read).1]
          exact Ne.symm hid
        obtain ⟨hcommitted, hframe⟩ := w.call_frame hfor hcall h.committed
        simpa using h.other hcommitted (hframe id hother) (List.forall_mem_nil _)

/-- **A row among its clients is a cell with a version**, however they interleave. -/
theorem Clients.Tracks.run (hlists : ListsReadBack codec) {c : Connection Database}
    (hfirst : c.working.applications.find? id = some first)
    (h : Interleaving.Reachable (Clients.IsStart c) (Clients.Step codec py) s) :
    s.Tracks py id first := by
  refine h.invariant ?_ fun s call t hs hstep => hs.step hlists hstep
  rintro _ ⟨hcommitted, rfl⟩
  exact ⟨hcommitted, first, hfirst, .of_start rfl⟩

end

/-! ### Updates of other columns -/

/-- The name of a keyword argument of `update_application_fields`. -/
def ApplicationField.key : ApplicationField → String
  | .name _ => "name"
  | .description _ => "description"
  | .workloadId _ => "workload_id"
  | .javaEntrypoint _ => "java_entrypoint"
  | .targetRuntime _ => "target_runtime"
  | .cobolSourcePath _ => "cobol_source_path"
  | .javaCandidatePath _ => "java_candidate_path"
  | .discoveredProgramIds _ => "discovered_program_ids"
  | .generatedAppPath _ => "generated_app_path"
  | .generatedEntrypoint _ => "generated_entrypoint"
  | .generatedProgramIds _ => "generated_program_ids"
  | .createdAt _ => "created_at"
  | .other key => key

section

variable {codec : Codec} {py : Py.Rendering}

/-- What the assignment of a column does, the text of a list being given. -/
def ApplicationField.assign (text : String) : ApplicationField → ApplicationRow → ApplicationRow
  | .name v => fun row => { row with name := v }
  | .description v => fun row => { row with description := v }
  | .workloadId v => fun row => { row with workloadId := v }
  | .javaEntrypoint v => fun row => { row with javaEntrypoint := v }
  | .targetRuntime v => fun row => { row with targetRuntime := v }
  | .cobolSourcePath v => fun row => { row with cobolSourcePath := v }
  | .javaCandidatePath v => fun row => { row with javaCandidatePath := v }
  | .discoveredProgramIds _ => fun row => { row with discoveredProgramIds := text }
  | .generatedAppPath v => fun row => { row with generatedAppPath := v }
  | .generatedEntrypoint v => fun row => { row with generatedEntrypoint := v }
  | .generatedProgramIds _ => fun row => { row with generatedProgramIds := text }
  | .createdAt v => fun row => { row with createdAt := v }
  | .other _ => id

theorem assignField_eq {field : ApplicationField} {f : ApplicationRow → ApplicationRow}
    (hf : assignField codec field = .ok f) : ∃ text, f = field.assign text := by
  cases field
  case discoveredProgramIds v =>
    obtain ⟨text, -, rfl⟩ := Py.map_eq_ok.1 hf
    exact ⟨text, rfl⟩
  case generatedProgramIds v =>
    obtain ⟨text, -, rfl⟩ := Py.map_eq_ok.1 hf
    exact ⟨text, rfl⟩
  all_goals
    obtain rfl := Except.ok.inj hf
    exact ⟨"", rfl⟩

theorem assignField_comm {a b : ApplicationField} {f g : ApplicationRow → ApplicationRow}
    (hf : assignField codec a = .ok f) (hg : assignField codec b = .ok g) (hne : a.key ≠ b.key) :
    Function.Commute f g := by
  obtain ⟨text, rfl⟩ := assignField_eq hf
  obtain ⟨text', rfl⟩ := assignField_eq hg
  intro row
  cases a <;> cases b <;> first | rfl | exact absurd rfl hne

/-- Assignments that commute one by one commute one after the other. -/
theorem foldl_comm {fs gs : List (ApplicationRow → ApplicationRow)}
    (h : ∀ f ∈ fs, ∀ g ∈ gs, Function.Commute f g) (row : ApplicationRow) :
    fs.foldl (fun r f => f r) (gs.foldl (fun r g => g r) row) =
      gs.foldl (fun r g => g r) (fs.foldl (fun r f => f r) row) := by
  induction fs generalizing row with
  | nil => rfl
  | cons f fs ih =>
      have hf : ∀ row, f (gs.foldl (fun r g => g r) row) = gs.foldl (fun r g => g r) (f row) := by
        have hg : ∀ g ∈ gs, Function.Commute f g := h f List.mem_cons_self
        clear h ih
        induction gs with
        | nil => exact fun _ => rfl
        | cons g gs ih =>
            intro row
            rw [List.foldl_cons, List.foldl_cons,
              ih fun g' hg' => hg g' (List.mem_cons_of_mem _ hg')]
            rw [(hg g List.mem_cons_self) row]
      rw [List.foldl_cons, List.foldl_cons, hf, ih fun f' hf' => h f' (List.mem_cons_of_mem _ hf')]

/-- The row under another id and version. -/
def stamped (id : String) (version : ℤ) (row : ApplicationRow) : ApplicationRow :=
  { row with id := id, version := version }

theorem assignField_stamped {field : ApplicationField} {f : ApplicationRow → ApplicationRow}
    (hf : assignField codec field = .ok f) (id : String) (version : ℤ) :
    Function.Commute f (stamped id version) := by
  obtain ⟨text, rfl⟩ := assignField_eq hf
  intro row
  cases field <;> rfl

theorem mem_fieldAssignments {fields : List ApplicationField}
    {assignments : List (ApplicationRow → ApplicationRow)}
    (h : fieldAssignments codec py fields = .ok assignments) :
    ∀ f ∈ assignments, ∃ field ∈ fields, assignField codec field = .ok f := by
  rw [fieldAssignments] at h
  split_ifs at h
  exact Py.mem_of_mapM_ok h

/-- **Updates of other columns commute** on a row. -/
theorem setFields_comm {fields fields' : List ApplicationField}
    {fs gs : List (ApplicationRow → ApplicationRow)}
    (hf : fieldAssignments codec py fields = .ok fs)
    (hg : fieldAssignments codec py fields' = .ok gs)
    (hdisjoint : ∀ a ∈ fields, ∀ b ∈ fields', a.key ≠ b.key) (row : ApplicationRow) :
    setFields fs (setFields gs row) = setFields gs (setFields fs row) := by
  have hstamped {as : List (ApplicationRow → ApplicationRow)} {keys : List ApplicationField}
      (h : fieldAssignments codec py keys = .ok as) (id : String) (version : ℤ)
      (row : ApplicationRow) : as.foldl (fun r f => f r) (stamped id version row) =
        stamped id version (as.foldl (fun r f => f r) row) := by
    refine foldl_comm (fun f hmem g (hg : g ∈ [stamped id version]) => ?_) row
    obtain rfl := List.mem_singleton.1 hg
    obtain ⟨field, -, hfield⟩ := mem_fieldAssignments h f hmem
    exact assignField_stamped hfield id version
  have hcomm : fs.foldl (fun r f => f r) (gs.foldl (fun r g => g r) row) =
      gs.foldl (fun r g => g r) (fs.foldl (fun r f => f r) row) := by
    refine foldl_comm (fun f hmem g hmem' => ?_) row
    obtain ⟨a, ha, hfa⟩ := mem_fieldAssignments hf f hmem
    obtain ⟨b, hb, hgb⟩ := mem_fieldAssignments hg g hmem'
    exact assignField_comm hfa hgb (hdisjoint a ha b hb)
  have hfs := congrArg (stamped row.id (row.version + 1 + 1))
    (hstamped hf row.id (row.version + 1) (gs.foldl (fun r g => g r) row))
  have hgs := congrArg (stamped row.id (row.version + 1 + 1))
    (hstamped hg row.id (row.version + 1) (fs.foldl (fun r f => f r) row))
  calc setFields fs (setFields gs row)
      = stamped row.id (row.version + 1 + 1)
          (fs.foldl (fun r f => f r) (gs.foldl (fun r g => g r) row)) := hfs
    _ = stamped row.id (row.version + 1 + 1)
          (gs.foldl (fun r g => g r) (fs.foldl (fun r f => f r) row)) := by rw [hcomm]
    _ = setFields gs (setFields fs row) := hgs.symm

theorem updateApplicationFields_snd {id : String} {fields : List ApplicationField}
    {fs : List (ApplicationRow → ApplicationRow)} (hf : fieldAssignments codec py fields = .ok fs)
    (c : Connection Database) :
    (updateApplicationFields codec py id none fields c).2 =
      if c.working.applications.rowcount (applicationIs id none) = 0 then c
      else .settled (withApplications c.working (applicationIs id none) (setFields fs)
        (setFields_id fs)) := by
  rw [updateApplicationFields_run, hf]
  dsimp only
  rw [writeApplication_run]
  split_ifs
  · rfl
  · rw [refreshApplication_run]

theorem rowcount_withApplications {db : Database} {id : String} {p : ApplicationRow → Bool}
    {f : ApplicationRow → ApplicationRow} {hf : ∀ row, (f row).id = row.id} :
    (withApplications db p f hf).applications.rowcount (applicationIs id none) = 0 ↔
      db.applications.rowcount (applicationIs id none) = 0 := by
  rw [rowcount_applicationIs_eq_zero, rowcount_applicationIs_eq_zero]
  simp

/-- **Updates of other columns commute.** -/
theorem updateApplicationFields_comm (id : String) {fields fields' : List ApplicationField}
    (hdisjoint : ∀ a ∈ fields, ∀ b ∈ fields', a.key ≠ b.key) (c : Connection Database) :
    (updateApplicationFields codec py id none fields
        (updateApplicationFields codec py id none fields' c).2).2 =
      (updateApplicationFields codec py id none fields'
        (updateApplicationFields codec py id none fields c).2).2 := by
  have hrefused {keys : List ApplicationField} {e : Py.Exc}
      (h : fieldAssignments codec py keys = .error e) (c : Connection Database) :
      (updateApplicationFields codec py id none keys c).2 = c := by
    rw [updateApplicationFields_run, h]
  cases hf : fieldAssignments codec py fields with
  | error e => rw [hrefused hf, hrefused hf]
  | ok fs =>
      cases hg : fieldAssignments codec py fields' with
      | error e => rw [hrefused hg, hrefused hg]
      | ok gs =>
          simp only [updateApplicationFields_snd hf, updateApplicationFields_snd hg]
          by_cases hcount : c.working.applications.rowcount (applicationIs id none) = 0
          · simp [hcount]
          · rw [if_neg hcount, if_neg hcount, Connection.settled_working,
              Connection.settled_working, if_neg (mt rowcount_withApplications.1 hcount),
              if_neg (mt rowcount_withApplications.1 hcount)]
            refine congrArg Connection.settled (Database.ext (Table.ext_rows ?_) rfl rfl)
            change (c.working.applications.rows.map _).map _ =
              (c.working.applications.rows.map _).map _
            rw [List.map_map, List.map_map]
            refine List.map_congr_left fun row _ => ?_
            by_cases hp : row.id = id
            · simpa [applicationIs, hp] using setFields_comm hf hg hdisjoint row
            · simp [applicationIs, hp]

end

/-! ### No update is lost -/

theorem listsReadBack (py : Py.Rendering) : ListsReadBack (Serialization.codec py) :=
  fun _ _ h => Serialization.decodeStrList_encodeStrList h

/-- **No update of an application is lost.**  Whatever the clients do, in any order: its row, as it
is committed, is the first one with the accepted writes applied one after another, each to the row
its client had read; its version has grown by one for each of them, no two were made on one version,
and a call that is refused leaves the store as it was.  And two updates of other columns, without an
expected version, leave the same store in either order. -/
theorem updates_linearized (py : Py.Rendering) :
    (∀ (start : Connection Database) (s : Clients (Serialization.codec py)),
      Interleaving.Reachable (Clients.IsStart start) (Clients.Step (Serialization.codec py) py) s →
        ∀ (id : String) (first : ApplicationRow),
          start.working.applications.find? id = some first →
            (∃ row, s.connection.working.applications.find? id = some row ∧
              s.connection.committed.applications.find? id = some row ∧
              VersionedCell.Chain (Write.Applied (Serialization.codec py) py) first (s.writesOf id)
                row ∧
              row.version = first.version + (s.writesOf id).length ∧
              ((s.writesOf id).map fun e => e.2.version).Nodup) ∧
            ∀ (client : ℕ) (r : Reading (Serialization.codec py)) (w : Write) (e : Py.Exc)
              (c : Connection Database), s.seen client = some r → r.row.id = id →
                w.IsFor r.record.id →
                  w.call (Serialization.codec py) py r.record s.connection = (.error e, c) →
                    c = s.connection) ∧
      ∀ (id : String) (fields fields' : List ApplicationField) (c : Connection Database),
        (∀ a ∈ fields, ∀ b ∈ fields', a.key ≠ b.key) →
          (updateApplicationFields (Serialization.codec py) py id none fields
              (updateApplicationFields (Serialization.codec py) py id none fields' c).2).2 =
            (updateApplicationFields (Serialization.codec py) py id none fields'
              (updateApplicationFields (Serialization.codec py) py id none fields c).2).2 := by
  refine ⟨fun start s hs id first hfirst => ?_, fun id fields fields' c hdisjoint =>
    updateApplicationFields_comm id hdisjoint c⟩
  have htracks := Clients.Tracks.run (listsReadBack py) hfirst hs
  refine ⟨?_, fun client r w e c hseen hid hfor hcall =>
    htracks.refuse (listsReadBack py) hseen hid hfor hcall⟩
  obtain ⟨row, hrow, hreach⟩ := htracks.cell
  have hchain := hreach.coherent.chain
  have hbump : ∀ (w : Write) (a b : ApplicationRow), w.Applied (Serialization.codec py) py a b →
      b.version = a.version + 1 := fun _ _ _ => Write.Applied.version
  refine ⟨row, hrow, ?_, hchain, hchain.version_eq hbump, hchain.nodup hbump⟩
  rw [htracks.committed]
  exact hrow

/-- Two clients read an application, and one of them renames it. -/
theorem updates_linearized_renamed : ∃ s : Clients (Serialization.codec Sample.plain),
    (s.seen 0).isSome ∧ (s.seen 1).isSome ∧ s.writesOf "app-1" ≠ [] ∧
      ∃ row, s.connection.committed.applications.find? "app-1" = some row ∧ row.version = 1 := by
  have hloadable : Loadable (Serialization.codec Sample.plain) Sample.application :=
    loadable_iff.2 ⟨⟨[], listsReadBack _ [] _ rfl⟩, [], listsReadBack _ [] _ rfl⟩
  obtain ⟨record, hrecord⟩ := hloadable
  let r : Reading (Serialization.codec Sample.plain) := ⟨Sample.application, record, hrecord⟩
  have hid : record.id = "app-1" := (appFromRow_ok hrecord).1
  have hfind : Sample.stored.working.applications.find? "app-1" = some Sample.application := rfl
  have hget : getApplication (Serialization.codec Sample.plain) "app-1" Sample.stored =
      (.ok (some record), Sample.stored) := by
    rw [getApplication_run, hfind]
    simp only [hrecord, Except.map]
  have h₀ : Interleaving.Reachable (Clients.IsStart Sample.stored)
      (Clients.Step (Serialization.codec Sample.plain) Sample.plain)
      ⟨Sample.stored, fun _ => none, []⟩ := .of_start ⟨rfl, rfl⟩
  have h₁ := h₀.next
    (Clients.Step.read (r := r) hfind hget : Clients.Step _ _ _ (.read 0 "app-1") _)
  have h₂ := h₁.next
    (Clients.Step.read (r := r) hfind hget : Clients.Step _ _ _ (.read 1 "app-1") _)
  have hfor : (Write.columns [.name "Payroll 2"]).IsFor record.id := trivial
  have hstored : Sample.stored.working.applications.find? record.id = some Sample.application := by
    rw [hid]
    exact hfind
  have hassigned : (Write.columns [.name "Payroll 2"]).assignment
      (Serialization.codec Sample.plain) Sample.plain = .ok _ := rfl
  obtain ⟨written, hcall⟩ := Write.call_accepted (listsReadBack _) hfor hstored
    (appFromRow_ok hrecord).2.symm ⟨record, hrecord⟩ hassigned
  have h₃ := h₂.next (Clients.Step.accept (r := r) rfl hfor hcall :
    Clients.Step _ _ _ (.write 1 (.columns [.name "Payroll 2"])) _)
  obtain ⟨row, -, hrow, -, hversion, -⟩ :=
    ((updates_linearized Sample.plain).1 _ _ h₃ "app-1" Sample.application hfind).1
  exact ⟨_, rfl, rfl, by simp [Clients.writesOf, r, Sample.application], row, hrow, hversion⟩

end Store

end CobolJava
