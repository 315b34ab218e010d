/-
**What the store accepts it can return.**

A payload that is encoded without error is written as it is; whether it can be read back is decided
only later, by the checks of the decoder.  So a record that `add_run` or `update_run` accepts can
make every later `get_run` and `list_runs_for_application` raise.  It does so exactly when its
manifest or its verdict is not restorable, and a store into which only restorable records are
written can always be read.

Main definitions:

* `RunRecord.Restorable`, `Call.Restorable` — the condition on a record and on a call;
* `ReadableRow`, `Readable` — the invariant;
* `CanRead` — every run can be read, and every list of runs.

Main results:

* `encodeEvidenceManifest_eq_ok_iff` — the manifests that are accepted;
* `runCalls_readable` — **the invariant holds over a run**;
* `accepted_returned_iff` — **what is accepted is returned** exactly when it is restorable.
-/

import CobolJava.Store.FailedWrites
import CobolJava.Store.Lifecycle
import CobolJava.Store.PayloadRoundTrip

set_option autoImplicit false

namespace CobolJava

open Serialization

/-- The manifest and the verdict of the record can be given back. -/
structure RunRecord.Restorable (record : RunRecord) : Prop where
  evidenceManifest : ∀ m ∈ record.evidenceManifest, m.Restorable
  verdict : ∀ v ∈ record.verdict, v.Restorable

namespace Store

variable {py : Py.Rendering}

/-! ### Payload columns -/

/-- **The manifests that are accepted**: sealed, with an oracle. -/
theorem encodeEvidenceManifest_eq_ok_iff {m : EvidenceManifest} {raw : Py.Bytes} :
    encodeEvidenceManifest m = .ok raw ↔ ∃ oracle, m.oracleIdentity = some oracle ∧
      m.sealedHash = some m.manifestHash ∧
      raw = encodeEnvelope schemaEvidence (manifestFields m oracle) := by
  rw [encodeEvidenceManifest]
  split_ifs with hseal
  · cases ho : m.oracleIdentity with
    | none => simp
    | some oracle => simp [hseal, eq_comm]
  · simp [hseal, corrupt]

theorem decode_manifest_iff {m : EvidenceManifest} {raw : Py.Bytes}
    (h : encodeEvidenceManifest m = .ok raw) (v : Option EvidenceManifest) :
    decodeEvidenceManifest py (some raw) = .ok v ↔ m.Restorable ∧ v = some m := by
  obtain ⟨oracle, ho, hseal, rfl⟩ := encodeEvidenceManifest_eq_ok_iff.1 h
  exact reads_encodeEvidenceManifest py m oracle ho hseal v

theorem decode_verdict_iff {v : Verdict} {raw : Py.Bytes} (h : encodeVerdict v = .ok raw)
    (w : Option Verdict) :
    decodeVerdict py (some raw) = .ok w ↔ v.Restorable ∧ w = some v := by
  obtain rfl := Except.ok.inj h
  exact reads_encodeVerdict py v w

theorem decode_optional_iff {α : Type} {encode : α → Except Py.Exc Py.Bytes}
    {decode : Option Py.Bytes → Except Py.Exc (Option α)} {P : α → Prop}
    (hnone : decode none = .ok none)
    (h : ∀ a raw, encode a = .ok raw → ∀ v, decode (some raw) = .ok v ↔ P a ∧ v = some a)
    {o : Option α} {blob : Option Py.Bytes} (hblob : encodeOptional encode o = .ok blob) :
    (∃ v, decode blob = .ok v) ↔ ∀ a ∈ o, P a := by
  cases o with
  | none =>
      obtain rfl := Except.ok.inj hblob
      simp [hnone]
  | some a =>
      obtain ⟨raw, hraw, rfl⟩ := Py.map_ok hblob
      have hiff := h a raw hraw
      constructor
      · rintro ⟨v, hv⟩ b hb
        obtain rfl : a = b := Option.some.inj hb
        exact ((hiff v).1 hv).1
      · intro hP
        exact ⟨some a, (hiff _).2 ⟨hP a rfl, rfl⟩⟩

/-! ### Rows -/

/-- The row can be read. -/
structure ReadableRow (py : Py.Rendering) (row : RunRow) : Prop where
  stage : ∃ s : RunStage, row.stage = s.value
  evidence : ∃ m, decodeEvidenceManifest py row.evidenceBlob = .ok m
  verdict : ∃ v, decodeVerdict py row.verdictBlob = .ok v
  report : ∃ r, decodeReport py row.reportBlob = .ok r

theorem readableRow_iff {row : RunRow} :
    ReadableRow py row ↔ ∃ record, runFromRow (codec py) py row = .ok record := by
  constructor
  · rintro ⟨⟨s, hs⟩, ⟨m, hm⟩, ⟨v, hv⟩, ⟨r, hr⟩⟩
    have hstage : parseStage py row.stage "persisted run stage" = .ok s :=
      parseStage_eq_ok_iff.2 hs.symm
    rw [runFromRow, hstage, Py.ok_bind]
    simp only [codec, hm, hv, hr, Py.ok_bind]
    exact ⟨_, rfl⟩
  · rintro ⟨record, h⟩
    obtain ⟨s, hs, h⟩ := Py.bind_ok h
    obtain ⟨m, hm, h⟩ := Py.bind_ok h
    obtain ⟨v, hv, h⟩ := Py.bind_ok h
    obtain ⟨r, hr, -⟩ := Py.bind_ok h
    exact ⟨⟨s, (parseStage_eq_ok_iff.1 hs).symm⟩, ⟨m, hm⟩, ⟨v, hv⟩, ⟨r, hr⟩⟩

/-- The payload columns of an accepted record are readable exactly when the record is
restorable. -/
theorem params_readable_iff {record : RunRecord} {stage : RunStage} {params : RunParams}
    (h : runParams (codec py) record stage = .ok params) :
    ((∃ m, decodeEvidenceManifest py params.evidenceBlob = .ok m) ∧
      (∃ v, decodeVerdict py params.verdictBlob = .ok v) ∧
      ∃ r, decodeReport py params.reportBlob = .ok r) ↔ record.Restorable := by
  obtain ⟨evidence, he, h⟩ := Py.bind_ok h
  obtain ⟨verdict, hv, h⟩ := Py.bind_ok h
  obtain ⟨report, hr, h⟩ := Py.bind_ok h
  obtain rfl := Except.ok.inj h
  have hreport : ∃ r, decodeReport py report = .ok r := by
    obtain ⟨raw, hraw, hread⟩ := decodeReport_encodeReport py record.modernizationReport
    obtain rfl : raw = report := Except.ok.inj (hraw.symm.trans hr)
    exact ⟨_, hread⟩
  have hmanifest := @decode_optional_iff _ _ (decodeEvidenceManifest py) _ rfl
    (fun m raw hraw => decode_manifest_iff hraw) _ _ he
  have hverdict := @decode_optional_iff _ _ (decodeVerdict py) _ rfl
    (fun v raw hraw => decode_verdict_iff hraw) _ _ hv
  dsimp only
  rw [hmanifest, hverdict]
  exact ⟨fun ⟨hm, hv, _⟩ => ⟨hm, hv⟩, fun h => ⟨h.evidenceManifest, h.verdict, hreport⟩⟩

/-! ### The invariant -/

/-- Every record a call writes is restorable. -/
def Call.Restorable : Call → Prop
  | .addRun record => record.Restorable
  | .updateRun record _ => record.Restorable
  | _ => True

theorem ReadableRow.of_step {call : Call} {a b : RunRow} (h : ReadableRow py a)
    (step : RunStep (codec py) call a b) (hcall : call.Restorable) : ReadableRow py b := by
  cases step with
  | keep => exact h
  | @progress record allowReset row params s id stage generation forward encoded =>
      obtain ⟨he, hv, hr⟩ := (params_readable_iff encoded).2 hcall
      exact ⟨⟨record.stage, (runParams_eq_ok encoded).1⟩, he, hv, hr⟩
  | decide => exact ⟨h.stage, h.evidence, h.verdict, h.report⟩
  | sealBundle => exact ⟨h.stage, h.evidence, h.verdict, h.report⟩
  | generated => exact ⟨h.stage, h.evidence, h.verdict, h.report⟩
  | discovered => exact ⟨h.stage, h.evidence, h.verdict, h.report⟩
  | reset => exact ⟨⟨.CREATED, rfl⟩, ⟨none, rfl⟩, ⟨none, rfl⟩, h.report⟩
  | interrupt => exact ⟨⟨.FAILED, rfl⟩, h.evidence, h.verdict, h.report⟩

/-- The rows of a database can be read. -/
def ReadableRows (py : Py.Rendering) (db : Database) : Prop :=
  ∀ id row, db.runs.find? id = some row → ReadableRow py row

/-- **The invariant**: the rows stored and the rows seen can be read. -/
structure Readable (py : Py.Rendering) (c : Connection Database) : Prop where
  committed : ReadableRows py c.committed
  working : ReadableRows py c.working

theorem ReadableRows.of_step {call : Call} {db db' : Database} (h : ReadableRows py db)
    (step : ∀ id, TableStep (codec py) call id (db.runs.find? id) (db'.runs.find? id))
    (hcall : call.Restorable) : ReadableRows py db' := by
  intro id row hrow
  have hstep := step id
  rw [hrow] at hstep
  generalize hold : db.runs.find? id = old at hstep
  cases hstep with
  | @added record params isAdd recordId encoded =>
      subst isAdd
      obtain ⟨he, hv, hr⟩ := (params_readable_iff encoded).2 hcall
      exact ⟨⟨record.stage, (runParams_eq_ok encoded).1⟩, he, hv, hr⟩
  | changed step => exact (h id _ hold).of_step step hcall

theorem ReadableRows.anchored {db : Database} (h : ReadableRows py db) (record : RunRecord)
    (row : RunRow) : ReadableRows py (anchored record row db) := by
  intro id a ha
  have hrel := rel_anchored record row db id
  rw [ha] at hrel
  generalize hold : db.runs.find? id = old at hrel
  cases hrel with
  | @some b a hsame =>
      obtain ⟨hs, he, hv, hr⟩ := h id b hold
      rw [hsame.column RunRow.stage fun _ => rfl] at hs
      rw [hsame.column RunRow.evidenceBlob fun _ => rfl] at he
      rw [hsame.column RunRow.verdictBlob fun _ => rfl] at hv
      rw [hsame.column RunRow.reportBlob fun _ => rfl] at hr
      exact ⟨hs, he, hv, hr⟩

/-- **A call keeps the invariant.** -/
theorem Readable.call {c : Connection Database} (h : Readable py c) (call : Call)
    (hcall : call.Restorable) : Readable py (call.run (codec py) py c).2 := by
  have heff := @Call.effect (codec py) py call c
  generalize (call.run (codec py) py c).2 = c' at heff
  cases heff with
  | unchanged => exact h
  | pending record row => exact ⟨h.committed, h.working.anchored record row⟩
  | rolledBack => exact ⟨h.committed, h.committed⟩
  | committed db step =>
      have hdb := h.working.of_step step hcall
      exact ⟨hdb, hdb⟩

/-- **A run keeps the invariant.** -/
theorem runCalls_readable {c : Connection Database} (h : Readable py c) (calls : List Call)
    (hcalls : ∀ call ∈ calls, call.Restorable) : Readable py (runCalls (codec py) py calls c) := by
  induction calls generalizing c with
  | nil => exact h
  | cons call calls ih =>
      rw [runCalls_cons]
      exact ih (h.call call (hcalls call (List.mem_cons_self ..)))
        fun call' hmem => hcalls call' (List.mem_cons_of_mem _ hmem)

theorem start_readable : Readable py start := by
  have h : ReadableRows py .empty := by
    intro id row hrow
    exact absurd hrow (by simp [Database.empty])
  exact ⟨h, h⟩

/-! ### Reading -/

/-- Every run can be read, and every list of runs. -/
structure CanRead (py : Py.Rendering) (c : Connection Database) : Prop where
  run : ∀ id, ∃ found, (getRun (codec py) py id c).1 = .ok found
  list : ∀ appId, ∃ runs, (listRunsForApplication (codec py) py appId c).1 = .ok runs

theorem getRun_eq (id : String) (c : Connection Database) :
    (getRun (codec py) py id c).1 =
      match c.working.runs.find? id with
      | none => .ok none
      | some row => (runFromRow (codec py) py row).map some := by
  rw [getRun, selectRun, Tx.fetch_bind]
  cases c.working.runs.find? id <;> rfl

theorem mapM_ok_of_forall {α β : Type} {f : α → Except Py.Exc β} {xs : List α}
    (h : ∀ x ∈ xs, ∃ y, f x = .ok y) : ∃ ys, xs.mapM f = .ok ys := by
  induction xs with
  | nil => exact ⟨[], rfl⟩
  | cons x xs ih =>
      obtain ⟨y, hy⟩ := h x (List.mem_cons_self ..)
      obtain ⟨ys, hys⟩ := ih fun x' hx' => h x' (List.mem_cons_of_mem _ hx')
      rw [List.mapM_cons, hy, Py.ok_bind, hys]
      exact ⟨y :: ys, rfl⟩

theorem Readable.canRead {c : Connection Database} (h : Readable py c) : CanRead py c := by
  have hrow : ∀ id row, c.working.runs.find? id = some row →
      ∃ record, runFromRow (codec py) py row = .ok record :=
    fun id row hfind => readableRow_iff.1 (h.working id row hfind)
  constructor
  · intro id
    rw [getRun_eq]
    cases hfind : c.working.runs.find? id with
    | none => exact ⟨none, rfl⟩
    | some row =>
        obtain ⟨record, hrecord⟩ := hrow id row hfind
        dsimp only
        rw [hrecord]
        exact ⟨some record, rfl⟩
  · intro appId
    refine mapM_ok_of_forall fun row hmem => ?_
    have hmem' : row ∈ c.working.runs.rows :=
      (List.mem_filter.1 ((List.mem_insertionSort _).1 hmem)).1
    exact hrow row.id row (Table.find?_of_mem hmem')

/-! ### Accepted records -/

/-- The row of a run a call has accepted is seen once it returns, with the columns it encoded. -/
structure AcceptedRow (py : Py.Rendering) (record : RunRecord) (c : Connection Database)
    (params : RunParams) (row : RunRow) : Prop where
  encoded : runParams (codec py) record record.stage = .ok params
  found : c.working.runs.find? record.id = some row
  applicationId : row.applicationId = record.applicationId
  stage : row.stage = record.stage.value
  evidenceBlob : row.evidenceBlob = params.evidenceBlob
  verdictBlob : row.verdictBlob = params.verdictBlob
  reportBlob : row.reportBlob = params.reportBlob

theorem AcceptedRow.readable_iff {record : RunRecord} {c : Connection Database}
    {params : RunParams} {row : RunRow} (h : AcceptedRow py record c params row) :
    (∃ r, runFromRow (codec py) py row = .ok r) ↔ record.Restorable := by
  rw [← params_readable_iff h.encoded, ← readableRow_iff]
  constructor
  · rintro ⟨-, he, hv, hr⟩
    exact ⟨h.evidenceBlob ▸ he, h.verdictBlob ▸ hv, h.reportBlob ▸ hr⟩
  · rintro ⟨he, hv, hr⟩
    exact ⟨⟨record.stage, h.stage⟩, h.evidenceBlob ▸ he, h.verdictBlob ▸ hv, h.reportBlob ▸ hr⟩

/-- **An accepted record is returned** exactly when it is restorable, and one that is not stands in
the way of every list of its application. -/
theorem AcceptedRow.returned {record : RunRecord} {c : Connection Database} {params : RunParams}
    {row : RunRow} (h : AcceptedRow py record c params row) :
    ((∃ found, (getRun (codec py) py record.id c).1 = .ok found) ↔ record.Restorable) ∧
      ((∃ runs, (listRunsForApplication (codec py) py record.applicationId c).1 = .ok runs) →
        record.Restorable) := by
  rw [getRun_eq, h.found, ← h.readable_iff]
  constructor
  · constructor
    · rintro ⟨found, hfound⟩
      obtain ⟨r, hr, -⟩ := Py.map_ok hfound
      exact ⟨r, hr⟩
    · rintro ⟨r, hr⟩
      dsimp only
      rw [hr]
      exact ⟨some r, rfl⟩
  · rintro ⟨runs, hruns⟩
    have hmem : row ∈ (c.working.runs.rows.filter fun row =>
        decide (row.applicationId = record.applicationId)).insertionSort fun a b =>
          a.createdAt < b.createdAt ∨ (a.createdAt = b.createdAt ∧ a.id ≤ b.id) := by
      rw [List.mem_insertionSort, List.mem_filter]
      exact ⟨Table.mem_of_find? h.found, by simpa using h.applicationId⟩
    obtain ⟨r, -, hr⟩ := Py.exists_of_mapM_ok hruns row hmem
    exact ⟨r, hr⟩

theorem runParams_applicationId {record : RunRecord} {stage : RunStage} {params : RunParams}
    (h : runParams (codec py) record stage = .ok params) :
    params.applicationId = record.applicationId := by
  obtain ⟨e, -, h⟩ := Py.bind_ok h
  obtain ⟨v, -, h⟩ := Py.bind_ok h
  obtain ⟨r, -, h⟩ := Py.bind_ok h
  rw [← Except.ok.inj h]

theorem addRun_accepted {record r : RunRecord} {c : Connection Database}
    (h : (addRun (codec py) py record c).1 = .ok r) :
    ∃ params row, AcceptedRow py record (addRun (codec py) py record c).2 params row := by
  rw [addRun_run] at h ⊢
  cases hp : runParams (codec py) record record.stage with
  | error e => rw [hp] at h; cases h
  | ok params =>
      rw [hp] at h
      dsimp only at h ⊢
      cases ht : c.working.runs.insert (newRunRow (codec py) record params) with
      | none => rw [ht] at h; cases h
      | some t =>
          refine ⟨params, newRunRow (codec py) record params, hp, ?_, runParams_applicationId hp,
            (runParams_eq_ok hp).1, rfl, rfl, rfl⟩
          change t.find? record.id = _
          rw [Table.find?_insert ht]
          exact if_pos rfl

theorem updateRun_accepted {record : RunRecord} {allowReset : Bool} {c : Connection Database}
    (h : (updateRun (codec py) py record allowReset c).1 = .ok ()) :
    ∃ params row, AcceptedRow py record (updateRun (codec py) py record allowReset c).2 params
      row := by
  rw [updateRun_run] at h ⊢
  cases hrow : c.working.runs.find? record.id with
  | none => rw [hrow] at h; cases h
  | some row =>
      rw [hrow] at h
      dsimp only at h ⊢
      cases hcheck : checkUpdate py record allowReset row with
      | error e => rw [hcheck] at h; cases h
      | ok u =>
          rw [hcheck] at h
          dsimp only at h ⊢
          cases hp : runParams (codec py) record record.stage with
          | error e => rw [hp] at h; cases h
          | ok params =>
              refine ⟨params, setRunParams params
                (setLastStage (lastStageAnchor record.stage row.lastStage) row), hp, ?_,
                runParams_applicationId hp, (runParams_eq_ok hp).1, rfl, rfl, rfl⟩
              refine (withRuns_find? c.working _ _ _ record.id).trans ?_
              rw [hrow, Option.map_some, if_pos (runIs_iff.2 ⟨Table.find?_key hrow, rfl⟩)]

/-! ### The whole store -/

theorem postInit_sealed (m : EvidenceManifest) :
    (EvidenceManifest.postInit m).sealedHash = some (EvidenceManifest.postInit m).manifestHash :=
  rfl

/-- A manifest of an environment whose base system was recorded as the empty text. -/
def emptyOsBase : EvidenceManifest :=
  EvidenceManifest.postInit { Sample.matching with
    environmentIdentities := [⟨"candidate-java", none, none, some "", "none", .empty⟩] }

end Store

end CobolJava
