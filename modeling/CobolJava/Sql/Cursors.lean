/-
**Cursors of the controlled database.**

The cursor statements of `Db2ControlledDatabase.execute` (`execution.py`): `DECLARE` prepares a query,
`OPEN` evaluates it, `FETCH` delivers one row after another, `CLOSE` forgets the cursor.  SQLite is a
parameter.

Main definitions:

* `Database`, `execute` — the database with its cursors, and one statement;
* `Protocol` — the cursors as a program knows them: the query, and what is open of it;
* `Delivers` — every statement of a run is answered as the cursors promise;
* `Orderly` — the runs without the two statements that are answered otherwise.

Main results:

* `Simulates.step` — the database keeps to the protocol;
* `cursorsDeliver_iff` — **when the cursors deliver their rows once per `OPEN`**.
-/

import Mathlib.Logic.Function.Basic
import CobolJava.Sql.Translation

set_option autoImplicit false

namespace CobolJava.Sql

/-! ### Statements and results -/

inductive SqlStatementType
  | select | insert | update | delete
  | declareCursor | openCursor | fetchCursor | closeCursor
  | commit | rollback | executeImmediate | prepare | call
deriving DecidableEq

/-- What the execution reads of an analysed statement. -/
structure Db2StmtSemantic where
  rawSql : List Char
  statementType : SqlStatementType
  outputHostVariables : List (List Char)
  cursorName : List Char

structure Db2SqlStatus where
  sqlcode : Int
  sqlstate : String
  message : List Char
deriving DecidableEq

namespace Db2SqlStatus

def success : Db2SqlStatus := ⟨0, "00000", []⟩

def noData : Db2SqlStatus := ⟨100, "02000", []⟩

def duplicateKey : Db2SqlStatus :=
  ⟨-803, "23505", "Duplicate key value in unique or primary index".toList⟩

def unmappedError (message : List Char) : Db2SqlStatus := ⟨-1, "56000", message⟩

def isSuccess (status : Db2SqlStatus) : Bool :=
  status.sqlcode = 0

def isNoData (status : Db2SqlStatus) : Bool :=
  status.sqlcode = 100

end Db2SqlStatus

structure Db2SqlExecutionResult (ν : Type) where
  statementType : SqlStatementType
  status : Db2SqlStatus
  row : Option (List ν)
  outputs : List (List Char × ν)
  translatedSql : List Char
  note : List Char

/-- The exceptions of `execute`. -/
inductive Failure
  | withoutQuery (rawSql : List Char)
  | notDeclared (name : List Char)
  | notOpen (name : List Char)
  | missingBinding (name : List Char)
  | sqlite (message : List Char)
deriving DecidableEq

/-- What `execute` does: it returns a result or raises. -/
inductive Response (ν : Type)
  | result (result : Db2SqlExecutionResult ν)
  | raised (failure : Failure)

/-- What SQLite makes of a text. -/
inductive Evaluation (ν : Type)
  | rows (rows : List (List ν)) (columns : List (List Char))
  | integrityError (message : List Char)
  | operationalError (message : List Char)
  | raised (message : List Char)

/-- SQLite over connections `σ`: a query with the values of its placeholders, and the statements
that are no cursor statements. -/
structure Sqlite (σ ν : Type) where
  query : σ → List Char → List ν → Evaluation ν × σ
  other : σ → Db2StmtSemantic → (List Char → Option ν) → Response ν × σ

/-! ### The database -/

structure CursorState (ν : Type) where
  maskedSql : List Char
  rows : List (List ν)
  columns : List (List Char)
  fetchIndex : ℕ
  bindInfo : List BindEntry

structure Database (σ ν : Type) where
  connection : σ
  cursors : List Char → Option (CursorState ν)

/-- The query of a `DECLARE`, masked. -/
def declaredQuery (rawSql : List Char) : Option (List Char × List BindEntry) :=
  (findWord "FOR".toList false rawSql).map fun found =>
    maskHostVariables (translateDb2Dml (Py.Chars.strip (found.2.drop 3)))

variable {σ ν : Type}

/-- A database with another entry of one cursor; `none` deletes it. -/
def Database.put (db : Database σ ν) (name : List Char) (state : Option (CursorState ν)) :
    Database σ ν :=
  ⟨db.connection, Function.update db.cursors name state⟩

theorem Database.put_self (db : Database σ ν) (name : List Char) (state : Option (CursorState ν)) :
    (db.put name state).cursors name = state :=
  Function.update_self ..

theorem Database.put_of_ne (db : Database σ ν) {name other : List Char}
    (state : Option (CursorState ν)) (h : other ≠ name) :
    (db.put name state).cursors other = db.cursors other :=
  Function.update_of_ne h ..

/-- `_integrity_result` -/
def integrityResult (statementType : SqlStatementType) (message : List Char) :
    Db2SqlExecutionResult ν :=
  if Py.Chars.contains (Py.Chars.upper message) "UNIQUE".toList then
    ⟨statementType, .duplicateKey, none, [], [],
      "unique constraint violation (SQLCODE -803): ".toList ++ message⟩
  else
    ⟨statementType, .unmappedError message, none, [], [],
      "integrity violation outside the mapped subset: ".toList ++ message⟩

/-- `_operational_result` -/
def operationalResult (statementType : SqlStatementType) (message sql : List Char) :
    Db2SqlExecutionResult ν :=
  ⟨statementType, .unmappedError message, none, [], sql,
    "operational error on the controlled database: ".toList ++ message⟩

/-- `_declare_cursor` -/
def declareCursor (stmt : Db2StmtSemantic) (db : Database σ ν) : Response ν × Database σ ν :=
  match declaredQuery stmt.rawSql with
  | none => (.raised (.withoutQuery stmt.rawSql), db)
  | some (maskedSql, bindInfo) =>
      (.result ⟨.declareCursor, .success, none, [], maskedSql, []⟩,
        db.put stmt.cursorName (some ⟨maskedSql, [], [], 0, bindInfo⟩))

/-- The result of an `OPEN` that SQLite evaluated. -/
def openResponse (name maskedSql : List Char) : Evaluation ν → Response ν
  | .rows rows _ =>
      .result ⟨.openCursor, .success, none, [], maskedSql,
        "cursor ".toList ++ name ++ " open with ".toList ++ (toString rows.length).toList ++
          " row(s)".toList⟩
  | .integrityError message => .result (integrityResult .openCursor message)
  | .operationalError message => .result (operationalResult .openCursor message maskedSql)
  | .raised message => .raised (.sqlite message)

/-- `_open_cursor` -/
def openCursor (sqlite : Sqlite σ ν) (name : List Char) (bindings : List Char → Option ν)
    (db : Database σ ν) : Response ν × Database σ ν :=
  match db.cursors name with
  | none => (.raised (.notDeclared name), db)
  | some state =>
      match bindValues bindings state.bindInfo with
      | .error missing => (.raised (.missingBinding missing), db)
      | .ok values =>
          let answer := sqlite.query db.connection state.maskedSql values
          (openResponse name state.maskedSql answer.1,
            match answer.1 with
            | .rows rows columns =>
                { db.put name (some { state with rows := rows, columns := columns, fetchIndex := 0 })
                  with connection := answer.2 }
            | _ => { db with connection := answer.2 })

/-- `_fetch_cursor` -/
def fetchCursor (name : List Char) (targets : List (List Char)) (db : Database σ ν) :
    Response ν × Database σ ν :=
  match db.cursors name with
  | none => (.raised (.notOpen name), db)
  | some state =>
      match state.rows[state.fetchIndex]? with
      | none =>
          (.result ⟨.fetchCursor, .noData, none, [], state.maskedSql,
            "cursor ".toList ++ name ++ " exhausted (SQLCODE 100)".toList⟩, db)
      | some row =>
          (.result ⟨.fetchCursor, .success, some row, targets.zip row, state.maskedSql, []⟩,
            db.put name (some { state with fetchIndex := state.fetchIndex + 1 }))

/-- `_close_cursor` -/
def closeCursor (name : List Char) (db : Database σ ν) : Response ν × Database σ ν :=
  match db.cursors name with
  | none => (.raised (.notDeclared name), db)
  | some _ =>
      (.result ⟨.closeCursor, .success, none, [], [],
        "cursor ".toList ++ name ++ " closed".toList⟩,
        db.put name none)

/-- A call of `execute`. -/
structure Request (ν : Type) where
  stmt : Db2StmtSemantic
  bindings : List Char → Option ν
  cursorName : List Char

/-- `cursor_name or semantic_stmt.cursor_name` -/
def Request.name (request : Request ν) : List Char :=
  if request.cursorName ≠ [] then request.cursorName else request.stmt.cursorName

/-- `Db2ControlledDatabase.execute` -/
def execute (sqlite : Sqlite σ ν) (db : Database σ ν) (request : Request ν) :
    Response ν × Database σ ν :=
  match request.stmt.statementType with
  | .openCursor => openCursor sqlite request.name request.bindings db
  | .fetchCursor => fetchCursor request.name request.stmt.outputHostVariables db
  | .closeCursor => closeCursor request.name db
  | .declareCursor => declareCursor request.stmt db
  | _ =>
      let answer := sqlite.other db.connection request.stmt request.bindings
      (answer.1, { db with connection := answer.2 })

/-! ### The protocol -/

/-- What is known of a declared cursor. -/
inductive Phase (ν : Type)
  /-- Not opened since its `DECLARE`. -/
  | fresh
  /-- Open with the rows of its `OPEN`, after some `FETCH`es. -/
  | opened (rows : List (List ν)) (fetched : ℕ)
  /-- Closed since its `DECLARE` and not opened again. -/
  | closed

/-- The query of a cursor with its phase. -/
structure Declared (ν : Type) where
  maskedSql : List Char
  bindInfo : List BindEntry
  phase : Phase ν

/-- The cursors as a program knows them. -/
structure Protocol (σ ν : Type) where
  connection : σ
  cursors : List Char → Option (Declared ν)

/-- The evaluation of a declared query with the bindings of an `OPEN`. -/
def Declared.evaluate (sqlite : Sqlite σ ν) (declared : Declared ν)
    (bindings : List Char → Option ν) (connection : σ) : Except Failure (Evaluation ν × σ) :=
  match bindValues bindings declared.bindInfo with
  | .error missing => .error (.missingBinding missing)
  | .ok values => .ok (sqlite.query connection declared.maskedSql values)

/-- A cursor of the protocol moved to a phase. -/
def Protocol.enter (p : Protocol σ ν) (name : List Char) (declared : Declared ν) (phase : Phase ν) :
    Protocol σ ν :=
  ⟨p.connection, Function.update p.cursors name (some { declared with phase := phase })⟩

theorem Protocol.enter_self (p : Protocol σ ν) (name : List Char) (declared : Declared ν)
    (phase : Phase ν) : (p.enter name declared phase).cursors name =
      some { declared with phase := phase } :=
  Function.update_self ..

theorem Protocol.enter_of_ne (p : Protocol σ ν) {name other : List Char} (declared : Declared ν)
    (phase : Phase ν) (h : other ≠ name) :
    (p.enter name declared phase).cursors other = p.cursors other :=
  Function.update_of_ne h ..

/-- **One statement of the protocol**: `CLOSE` keeps the query, `OPEN` evaluates it anew. -/
def Protocol.step (sqlite : Sqlite σ ν) (p : Protocol σ ν) (request : Request ν) : Protocol σ ν :=
  match request.stmt.statementType with
  | .declareCursor =>
      match declaredQuery request.stmt.rawSql with
      | none => p
      | some (maskedSql, bindInfo) =>
          p.enter request.stmt.cursorName ⟨maskedSql, bindInfo, .fresh⟩ .fresh
  | .openCursor =>
      match p.cursors request.name with
      | none => p
      | some declared =>
          match declared.evaluate sqlite request.bindings p.connection with
          | .error _ => p
          | .ok answer =>
              match answer.1 with
              | .rows rows _ =>
                  { p.enter request.name declared (.opened rows 0) with connection := answer.2 }
              | _ => { p with connection := answer.2 }
  | .fetchCursor =>
      match p.cursors request.name with
      | some declared =>
          match declared.phase with
          | .opened rows fetched => p.enter request.name declared (.opened rows (fetched + 1))
          | _ => p
      | none => p
  | .closeCursor =>
      match p.cursors request.name with
      | some declared => p.enter request.name declared .closed
      | none => p
  | _ => { p with connection := (sqlite.other p.connection request.stmt request.bindings).2 }

/-- A `FETCH` of the rows of an `OPEN` behind some others. -/
def FetchAnswer (targets : List (List Char)) (rows : List (List ν)) (fetched : ℕ)
    (response : Response ν) : Prop :=
  ∃ result, response = .result result ∧
    match rows[fetched]? with
    | some row => result.status = .success ∧ result.row = some row ∧ result.outputs = targets.zip row
    | none => result.status = .noData

/-- Neither success nor end of data. -/
def Refused (response : Response ν) : Prop :=
  ∀ result, response = .result result →
    result.status.isSuccess = false ∧ result.status.isNoData = false

/-- **What a statement is to answer.**  A `FETCH` delivers the next row of its `OPEN`, and none when
the cursor is not open; the `OPEN` of a declared cursor, closed or not, is its evaluation. -/
def Allows (sqlite : Sqlite σ ν) (p : Protocol σ ν) (request : Request ν) (response : Response ν) :
    Prop :=
  match request.stmt.statementType with
  | .fetchCursor =>
      match p.cursors request.name with
      | some ⟨_, _, .opened rows fetched⟩ =>
          FetchAnswer request.stmt.outputHostVariables rows fetched response
      | _ => Refused response
  | .openCursor =>
      ∀ declared, p.cursors request.name = some declared →
        response = match declared.evaluate sqlite request.bindings p.connection with
          | .error failure => .raised failure
          | .ok answer => openResponse request.name declared.maskedSql answer.1
  | _ => True

/-- **Every statement of a run is answered as the cursors promise.** -/
def Delivers (sqlite : Sqlite σ ν) : Database σ ν → Protocol σ ν → List (Request ν) → Prop
  | _, _, [] => True
  | db, p, request :: requests =>
      Allows sqlite p request (execute sqlite db request).1 ∧
        Delivers sqlite (execute sqlite db request).2 (p.step sqlite request) requests

/-- No `FETCH` of a cursor that was not opened since its `DECLARE`, and no `OPEN` of one that was
closed since its `DECLARE`. -/
def InOrder (p : Protocol σ ν) (request : Request ν) : Prop :=
  match request.stmt.statementType with
  | .fetchCursor => ∀ declared, p.cursors request.name = some declared → declared.phase ≠ .fresh
  | .openCursor => ∀ declared, p.cursors request.name = some declared → declared.phase ≠ .closed
  | _ => True

/-- **A run of statements in order.** -/
def Orderly (sqlite : Sqlite σ ν) : Protocol σ ν → List (Request ν) → Prop
  | _, [] => True
  | p, request :: requests => InOrder p request ∧ Orderly sqlite (p.step sqlite request) requests

/-! ### The database keeps to the protocol -/

/-- The entry of a cursor in a phase. -/
def Declared.Holds (declared : Declared ν) (state : Option (CursorState ν)) : Prop :=
  match declared.phase with
  | .fresh => state = some ⟨declared.maskedSql, [], [], 0, declared.bindInfo⟩
  | .opened rows fetched => ∃ columns,
      state = some ⟨declared.maskedSql, rows, columns, min fetched rows.length, declared.bindInfo⟩
  | .closed => state = none

/-- **The database simulates the protocol.** -/
structure Simulates (db : Database σ ν) (p : Protocol σ ν) : Prop where
  connection : db.connection = p.connection
  undeclared : ∀ name, p.cursors name = none → db.cursors name = none
  declared : ∀ name declared, p.cursors name = some declared → declared.Holds (db.cursors name)

section Simulation

variable {sqlite : Sqlite σ ν} {db : Database σ ν} {p : Protocol σ ν} {request : Request ν}
  {name : List Char} {declared : Declared ν}

theorem Simulates.enter (h : Simulates db p) (name : List Char) (declared : Declared ν)
    (phase : Phase ν) {state : Option (CursorState ν)}
    (hstate : { declared with phase := phase : Declared ν }.Holds state) :
    Simulates (db.put name state) (p.enter name declared phase) where
  connection := h.connection
  undeclared other hother := by
    by_cases heq : other = name
    · rw [heq, p.enter_self] at hother
      cases hother
    · rw [p.enter_of_ne declared phase heq] at hother
      rw [db.put_of_ne state heq]
      exact h.undeclared other hother
  declared other d hother := by
    by_cases heq : other = name
    · rw [heq, p.enter_self, Option.some.injEq] at hother
      rw [← hother, heq, db.put_self]
      exact hstate
    · rw [p.enter_of_ne declared phase heq] at hother
      rw [db.put_of_ne state heq]
      exact h.declared other d hother

theorem Simulates.stay (h : Simulates db p) (name : List Char) (declared : Declared ν)
    (phase : Phase ν) (hstate : { declared with phase := phase : Declared ν }.Holds (db.cursors name)) :
    Simulates db (p.enter name declared phase) := by
  have hsame : db.put name (db.cursors name) = db := by
    rw [Database.put, Function.update_eq_self]
  exact hsame ▸ h.enter name declared phase hstate

theorem Simulates.connect (h : Simulates db p) (connection : σ) :
    Simulates { db with connection := connection } { p with connection := connection } where
  connection := rfl
  undeclared := h.undeclared
  declared := h.declared

theorem Simulates.declare (h : Simulates db p) (hkind : request.stmt.statementType = .declareCursor) :
    Simulates (execute sqlite db request).2 (p.step sqlite request) := by
  simp only [execute, Protocol.step, hkind, declareCursor]
  cases declaredQuery request.stmt.rawSql with
  | none => exact h
  | some query => exact h.enter _ _ _ rfl

theorem Simulates.exists_state (h : Simulates db p) (hdeclared : p.cursors name = some declared)
    (hphase : declared.phase ≠ .closed) : ∃ state, db.cursors name = some state ∧
      state.maskedSql = declared.maskedSql ∧ state.bindInfo = declared.bindInfo := by
  have hholds := h.declared _ _ hdeclared
  rw [Declared.Holds] at hholds
  cases hcase : declared.phase with
  | fresh =>
      rw [hcase] at hholds
      exact ⟨_, hholds, rfl, rfl⟩
  | opened rows fetched =>
      rw [hcase] at hholds
      obtain ⟨columns, hstate⟩ := hholds
      exact ⟨_, hstate, rfl, rfl⟩
  | closed => exact absurd hcase hphase

/-- An `OPEN` in order evaluates the declared query. -/
theorem Simulates.openCursor (h : Simulates db p)
    (hkind : request.stmt.statementType = .openCursor) (horder : InOrder p request) :
    Allows sqlite p request (execute sqlite db request).1 ∧
      Simulates (execute sqlite db request).2 (p.step sqlite request) := by
  simp only [InOrder, hkind] at horder
  simp only [Allows, execute, Protocol.step, hkind, Sql.openCursor]
  cases hdeclared : p.cursors request.name with
  | none =>
      rw [h.undeclared _ hdeclared]
      exact ⟨fun declared hsome => (Option.some_ne_none _ hsome.symm).elim, h⟩
  | some declared =>
      obtain ⟨state, hstate, hsql, hplan⟩ := h.exists_state hdeclared (horder _ hdeclared)
      simp only [hstate, hsql, hplan, h.connection, Declared.evaluate, Option.some.injEq,
        forall_eq']
      cases bindValues request.bindings declared.bindInfo with
      | error missing => exact ⟨rfl, h⟩
      | ok values =>
          refine ⟨rfl, ?_⟩
          dsimp only
          obtain ⟨evaluation, connection⟩ := sqlite.query p.connection declared.maskedSql values
          cases evaluation with
          | rows rows columns =>
              have hopened : { declared with phase := .opened rows 0 : Declared ν }.Holds
                  (some ⟨declared.maskedSql, rows, columns, 0, declared.bindInfo⟩) :=
                ⟨columns, by simp⟩
              exact (h.enter request.name _ _ hopened).connect connection
          | integrityError message => exact h.connect connection
          | operationalError message => exact h.connect connection
          | raised message => exact h.connect connection

theorem Simulates.not_allows_openCursor (h : Simulates db p)
    (hkind : request.stmt.statementType = .openCursor) (horder : ¬ InOrder p request) :
    ¬ Allows sqlite p request (execute sqlite db request).1 := by
  simp only [InOrder, hkind] at horder
  push Not at horder
  obtain ⟨declared, hdeclared, hclosed⟩ := horder
  have hholds := h.declared _ _ hdeclared
  rw [Declared.Holds, hclosed] at hholds
  simp only [Allows, execute, hkind, Sql.openCursor, hholds]
  intro hallows
  have hresponse := hallows declared hdeclared
  revert hresponse
  rw [Declared.evaluate]
  cases bindValues request.bindings declared.bindInfo with
  | error missing => simp
  | ok values =>
      simp only
      cases (sqlite.query p.connection declared.maskedSql values).1 <;> simp [openResponse]

/-- A `FETCH` in order delivers the next row. -/
theorem Simulates.fetchCursor (h : Simulates db p)
    (hkind : request.stmt.statementType = .fetchCursor) (horder : InOrder p request) :
    Allows sqlite p request (execute sqlite db request).1 ∧
      Simulates (execute sqlite db request).2 (p.step sqlite request) := by
  simp only [InOrder, hkind] at horder
  simp only [Allows, execute, Protocol.step, hkind, Sql.fetchCursor]
  cases hdeclared : p.cursors request.name with
  | none =>
      rw [h.undeclared _ hdeclared]
      exact ⟨fun _ hresult => (nomatch hresult), h⟩
  | some declared =>
      obtain ⟨maskedSql, bindInfo, phase⟩ := declared
      have hholds := h.declared _ _ hdeclared
      cases phase with
      | fresh => exact absurd rfl (horder _ hdeclared)
      | closed =>
          have hnone : db.cursors request.name = none := hholds
          rw [hnone]
          exact ⟨fun _ hresult => (nomatch hresult), h⟩
      | opened rows fetched =>
          obtain ⟨columns, hstate⟩ := hholds
          simp only [hstate]
          by_cases hmore : fetched < rows.length
          · have hindex : min fetched rows.length = fetched := by omega
            have hrow : rows[fetched]? = some rows[fetched] := List.getElem?_eq_getElem hmore
            simp only [hindex, hrow, FetchAnswer]
            have hnext : min (fetched + 1) rows.length = fetched + 1 := by omega
            have hopened : (⟨maskedSql, bindInfo, .opened rows (fetched + 1)⟩ : Declared ν).Holds
                (some ⟨maskedSql, rows, columns, fetched + 1, bindInfo⟩) :=
              ⟨columns, by rw [hnext]⟩
            exact ⟨⟨_, rfl, rfl, rfl, rfl⟩, h.enter request.name _ _ hopened⟩
          · have hindex : min fetched rows.length = rows.length := by omega
            have hrow : rows[fetched]? = none := List.getElem?_eq_none (by omega)
            have hend : rows[rows.length]? = none := List.getElem?_eq_none (by omega)
            simp only [hindex, hend, hrow, FetchAnswer]
            have hnext : min (fetched + 1) rows.length = rows.length := by omega
            have hopened : (⟨maskedSql, bindInfo, .opened rows (fetched + 1)⟩ : Declared ν).Holds
                (db.cursors request.name) :=
              ⟨columns, by rw [hstate, hindex, hnext]⟩
            exact ⟨⟨_, rfl, rfl⟩, h.stay request.name _ _ hopened⟩

theorem Simulates.not_allows_fetchCursor (h : Simulates db p)
    (hkind : request.stmt.statementType = .fetchCursor) (horder : ¬ InOrder p request) :
    ¬ Allows sqlite p request (execute sqlite db request).1 := by
  simp only [InOrder, hkind] at horder
  push Not at horder
  obtain ⟨⟨maskedSql, bindInfo, phase⟩, hdeclared, hfresh⟩ := horder
  subst hfresh
  have hstate : db.cursors request.name = some ⟨maskedSql, [], [], 0, bindInfo⟩ :=
    h.declared _ _ hdeclared
  simp only [Allows, execute, hkind, Sql.fetchCursor, hdeclared, hstate, List.getElem?_nil, Refused]
  intro hrefused
  exact absurd (hrefused _ rfl).2 (by simp [Db2SqlStatus.isNoData, Db2SqlStatus.noData])

theorem Simulates.closeCursor (h : Simulates db p)
    (hkind : request.stmt.statementType = .closeCursor) :
    Simulates (execute sqlite db request).2 (p.step sqlite request) := by
  simp only [execute, Protocol.step, hkind, Sql.closeCursor]
  cases hdeclared : p.cursors request.name with
  | none =>
      rw [h.undeclared _ hdeclared]
      exact h
  | some declared =>
      cases hstate : db.cursors request.name with
      | none => exact h.stay request.name _ _ hstate
      | some state => exact h.enter request.name _ _ rfl

/-- **The database keeps to the protocol**: a statement in order is answered as it is to be. -/
theorem Simulates.step (h : Simulates db p) (horder : InOrder p request) :
    Allows sqlite p request (execute sqlite db request).1 ∧
      Simulates (execute sqlite db request).2 (p.step sqlite request) := by
  cases hkind : request.stmt.statementType with
  | openCursor => exact h.openCursor hkind horder
  | fetchCursor => exact h.fetchCursor hkind horder
  | closeCursor => exact ⟨by simp [Allows, hkind], h.closeCursor hkind⟩
  | declareCursor => exact ⟨by simp [Allows, hkind], h.declare hkind⟩
  | _ =>
      simp only [Allows, execute, Protocol.step, hkind, true_and, h.connection]
      exact h.connect _

theorem Simulates.not_allows (h : Simulates db p) (horder : ¬ InOrder p request) :
    ¬ Allows sqlite p request (execute sqlite db request).1 := by
  cases hkind : request.stmt.statementType with
  | openCursor => exact h.not_allows_openCursor hkind horder
  | fetchCursor => exact h.not_allows_fetchCursor hkind horder
  | _ => simp [InOrder, hkind] at horder

theorem Simulates.delivers_iff (h : Simulates db p) (requests : List (Request ν)) :
    Delivers sqlite db p requests ↔ Orderly sqlite p requests := by
  induction requests generalizing db p with
  | nil => exact Iff.rfl
  | cons request requests ih =>
      rw [Delivers, Orderly]
      by_cases horder : InOrder p request
      · obtain ⟨hallows, hnext⟩ : Allows sqlite p request (execute sqlite db request).1 ∧
            Simulates (execute sqlite db request).2 (p.step sqlite request) := h.step horder
        rw [ih hnext]
        exact and_congr_left' (iff_of_true hallows horder)
      · exact iff_of_false (fun hrun => h.not_allows horder hrun.1) fun hrun => horder hrun.1

end Simulation

def Database.initial (connection : σ) : Database σ ν :=
  ⟨connection, fun _ => none⟩

/-- A program that declared no cursor yet. -/
def Protocol.initial (connection : σ) : Protocol σ ν :=
  ⟨connection, fun _ => none⟩

theorem simulates_initial (connection : σ) :
    Simulates (Database.initial connection : Database σ ν) (Protocol.initial connection) :=
  ⟨rfl, fun _ _ => rfl, fun _ _ h => nomatch h⟩

/-- **When the cursors deliver their rows once per `OPEN`.** -/
theorem cursorsDeliver_iff (sqlite : Sqlite σ ν) (connection : σ) (requests : List (Request ν)) :
    Delivers sqlite (Database.initial connection) (Protocol.initial connection) requests ↔
      Orderly sqlite (Protocol.initial connection) requests :=
  (simulates_initial connection).delivers_iff requests

/-! ### Samples -/

namespace CursorSample

def sqlite : Sqlite Unit ℕ where
  query _ _ _ := (.rows [[1], [2]] ["A".toList], ())
  other _ stmt _ := (.result ⟨stmt.statementType, .success, none, [], stmt.rawSql, []⟩, ())

/-- A statement on the cursor `C`. -/
def request (rawSql : String) (statementType : SqlStatementType) (targets : List String) :
    Request ℕ :=
  ⟨⟨rawSql.toList, statementType, targets.map String.toList, "C".toList⟩, fun _ => none, []⟩

def declareC : Request ℕ := request "DECLARE C CURSOR FOR SELECT A FROM T" .declareCursor []

def openC : Request ℕ := request "OPEN C" .openCursor []

def fetchC : Request ℕ := request "FETCH C INTO :X" .fetchCursor ["X"]

def closeC : Request ℕ := request "CLOSE C" .closeCursor []

end CursorSample

open CursorSample in
/-- A cursor that was declared and not opened reports the end of its data, and one that was closed is
not declared any more. -/
theorem not_cursorsDeliver :
    ¬ Delivers sqlite (.initial ()) (.initial ()) [declareC, fetchC] ∧
      ¬ Delivers sqlite (.initial ()) (.initial ()) [declareC, openC, fetchC, closeC, openC] := by
  constructor
  · rintro ⟨-, hfetch, -⟩
    have hrefused : Refused (execute sqlite (execute sqlite (.initial ()) declareC).2 fetchC).1 :=
      hfetch
    exact absurd (hrefused _ rfl).2 (by decide)
  · rintro ⟨-, -, -, -, hopen, -⟩
    have hresponse : Response.raised (.notDeclared "C".toList) =
        openResponse "C".toList "SELECT A FROM T".toList
          (.rows [[1], [2]] ["A".toList] : Evaluation ℕ) := hopen _ rfl
    cases hresponse

end CobolJava.Sql
