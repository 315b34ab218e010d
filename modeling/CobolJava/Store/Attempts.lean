/-
**Approvals, seals and attempts.**

What a stored row carries belongs to the attempt it is in: a reset leaves a row without anything of
the attempt before, a write bound to another attempt changes nothing, and a decision or a seal found
in a row was written there in the row's own attempt.

Main definitions:

* `FreshAttempt` — a row right after a reset;
* `Call.boundTo` — the attempt a call is bound to;
* `OwnedColumn` — a column that is written by known calls only, and blanked by a reset.

Main results:

* `stale_unchanged` — **a call bound to another attempt leaves the stored rows alone**;
* `OwnedColumn.written_in_attempt` — **what an owned column holds was written in the attempt of the
  row**;
* `lifecycle_monotone` — the lifecycle of a run, over every run of the store.
-/

import CobolJava.Store.Lifecycle
import Mathlib.Data.List.Induction
import CobolJava.Store.Sample

set_option autoImplicit false

namespace CobolJava

namespace Store

variable {codec : Codec} {py : Py.Rendering}

/-! ### Resets -/

/-- The row of a run that was just reset. -/
structure FreshAttempt (row : RunRow) : Prop where
  stage : row.stage = RunStage.CREATED.value
  completedAt : row.completedAt = none
  error : row.error = none
  evidence : row.evidenceBlob = none
  verdict : row.verdictBlob = none
  approval : row.approvalState = "PENDING" ∧ row.approvalApprover = none ∧
    row.approvalReason = none ∧ row.approvalDecidedAt = none
  generatedSeal : row.generatedSeal = none
  lastStage : row.lastStage = none

theorem freshAttempt_resetRun (generation : ℤ) (contract : Option String) (row : RunRow) :
    FreshAttempt (resetRun generation contract row) :=
  ⟨rfl, rfl, rfl, rfl, rfl, ⟨rfl, rfl, rfl, rfl⟩, rfl, rfl⟩

theorem RunStep.generation {call : Call} {a b : RunRow} (h : RunStep codec call a b) :
    b.validationGeneration = a.validationGeneration ∨
      ((∃ now contract, call = .beginRevalidation now a.id contract) ∧
        b.validationGeneration = a.validationGeneration + 1 ∧ FreshAttempt b) := by
  cases h with
  | progress id stage generation forward encoded =>
      exact .inl ((runParams_eq_ok encoded).2.trans generation)
  | @reset now runId contract row s id stage terminal =>
      exact .inr ⟨⟨now, contract, id ▸ rfl⟩, rfl, freshAttempt_resetRun _ _ _⟩
  | _ => exact .inl rfl

/-- A reset that returns has taken place. -/
theorem beginRevalidation_ok {c : Connection Database} {now id : String}
    {contract : Option String} {record : RunRecord}
    (h : (beginRevalidation codec py now id contract c).1 = .ok record) :
    ∃ a, c.working.runs.find? id = some a ∧
      stored (beginRevalidation codec py now id contract c).2 id =
        some (resetRun (a.validationGeneration + 1) contract a) := by
  rw [beginRevalidation_run] at h ⊢
  cases ha : c.working.runs.find? id with
  | none => rw [ha] at h; cases h
  | some a =>
      rw [ha] at h
      dsimp only at h ⊢
      cases hs : parseStage py a.stage "persisted run stage" with
      | error e => rw [hs] at h; cases h
      | ok s =>
          rw [hs] at h
          dsimp only at h ⊢
          split_ifs at h ⊢ with hterm
          refine ⟨a, rfl, ?_⟩
          have hid : a.id = id := Table.find?_key ha
          rw [refreshRun_run]
          change (withRuns c.working (runIs id none) _ (resetRun_id _ _)).runs.find? id = _
          rw [withRuns_find?, ha]
          simp [runIs, hid]

/-! ### Writes bound to an attempt -/

/-- The run and the attempt a call is bound to. -/
def Call.boundTo : Call → Option (String × ℤ)
  | .updateRun record _ => some (record.id, record.validationGeneration)
  | .setRunApproval _ runId _ _ _ g => g.map fun g => (runId, g)
  | .setGeneratedSeal runId _ g => g.map fun g => (runId, g)
  | .setRunGenerated runId _ _ g => g.map fun g => (runId, g)
  | _ => none

theorem rowcount_runIs_of_stale {db : Database} {id : String} {a : RunRow} {g : ℤ}
    (ha : db.runs.find? id = some a) (hg : g ≠ a.validationGeneration) :
    db.runs.rowcount (runIs id (some g)) = 0 := by
  rw [rowcount_runIs_eq_zero]
  intro row hrow
  obtain rfl : a = row := Option.some.inj (ha.symm.trans hrow)
  simpa using hg.symm

/-- **A call bound to another attempt** leaves the stored rows alone. -/
theorem stale_unchanged {c : Connection Database} (h : Behind c) {call : Call} {id : String}
    {g : ℤ} {b : RunRow} (hb : stored c id = some b) (hcall : call.boundTo = some (id, g))
    (hg : g ≠ b.validationGeneration) : (call.run codec py c).2.committed = c.committed := by
  obtain ⟨a, ha, hsame⟩ := h.exists_seen hb
  rw [hsame.column RunRow.validationGeneration fun _ => rfl] at hg
  cases call with
  | updateRun record allowReset =>
      obtain ⟨rfl, rfl⟩ : record.id = id ∧ record.validationGeneration = g := by
        simpa [Call.boundTo] using hcall
      change (updateRun codec py record allowReset c).2.committed = _
      rw [updateRun_run, ha]
      dsimp only
      cases hcheck : checkUpdate py record allowReset a with
      | error e => rfl
      | ok u =>
          obtain ⟨-, -, hgen, -⟩ := checkUpdate_eq_ok hcheck
          exact absurd hgen hg
  | setRunApproval now runId state approver reason expected =>
      obtain ⟨_, rfl, hid⟩ := Option.map_eq_some_iff.1 hcall
      obtain ⟨rfl, rfl⟩ := Prod.mk.inj hid
      change (setRunApproval codec py now _ state approver reason _ c).2.committed = _
      rw [setRunApproval_run, if_pos (rowcount_runIs_of_stale ha hg)]
      split_ifs <;> rfl
  | setGeneratedSeal runId digest expected =>
      obtain ⟨_, rfl, hid⟩ := Option.map_eq_some_iff.1 hcall
      obtain ⟨rfl, rfl⟩ := Prod.mk.inj hid
      change (setRunColumns py _ _ _ _ _ c).2.committed = _
      rw [setRunColumns_run, if_pos (rowcount_runIs_of_stale ha hg)]
  | setRunGenerated runId path entrypoint expected =>
      obtain ⟨_, rfl, hid⟩ := Option.map_eq_some_iff.1 hcall
      obtain ⟨rfl, rfl⟩ := Prod.mk.inj hid
      change (setRunColumns py _ _ _ _ _ c).2.committed = _
      rw [setRunColumns_run, if_pos (rowcount_runIs_of_stale ha hg)]
  | _ => cases hcall

/-! ### Columns with an owner -/

/-- A column, or some columns together, that only some calls write and a reset blanks. -/
structure OwnedColumn (codec : Codec) {β : Type} (column : RunRow → β) (blank : β)
    (writes : Call → String → Option β) : Prop where
  /-- The anchor is not part of it. -/
  anchor : ∀ row, column (setLastStage none row) = column row
  /-- A new run brings its own value. -/
  added : ∀ record params,
    writes (.addRun record) record.id = some (column (newRunRow codec record params))
  /-- A call keeps it with the attempt, blanks it, or is one of its writers. -/
  step : ∀ call a b, RunStep codec call a b →
    (column b = column a ∧ b.validationGeneration = a.validationGeneration) ∨
      column b = blank ∨ writes call a.id = some (column b)

/-- What an event writes to the column of a run. -/
def Event.writes {β : Type} (writes : Call → String → Option β) (id : String) :
    Event → Option β
  | .call method _ => writes method id
  | .restart => none

/-- The row `row` holds, in the column, what an event of the run wrote in the row's own attempt. -/
def WrittenInAttempt (codec : Codec) (py : Py.Rendering) {β : Type} (column : RunRow → β)
    (writes : Call → String → Option β) (events : List Event) (id : String) (row : RunRow) : Prop :=
  ∃ before e later, events = before ++ e :: later ∧ e.writes writes id = some (column row) ∧
    ∃ r, stored (runEvents codec py (before ++ [e]) start) id = some r ∧
      r.validationGeneration = row.validationGeneration ∧ column r = column row

theorem WrittenInAttempt.concat {β : Type} {column : RunRow → β}
    {writes : Call → String → Option β} {events : List Event} {id : String} {a b : RunRow}
    (h : WrittenInAttempt codec py column writes events id a) (hcol : column b = column a)
    (hgen : b.validationGeneration = a.validationGeneration) (e : Event) :
    WrittenInAttempt codec py column writes (events ++ [e]) id b := by
  obtain ⟨before, w, later, rfl, hw, r, hr, hrgen, hrcol⟩ := h
  refine ⟨before, w, later ++ [e], by simp, hcol ▸ hw, r, hr, hrgen.trans hgen.symm, ?_⟩
  rw [hrcol, hcol]

/-- **What an owned column holds** was written in the attempt of the row. -/
theorem OwnedColumn.written_in_attempt {β : Type} {column : RunRow → β} {blank : β}
    {writes : Call → String → Option β} (h : OwnedColumn codec column blank writes)
    (events : List Event) {id : String} {row : RunRow}
    (hrow : stored (runEvents codec py events start) id = some row) (hne : column row ≠ blank) :
    WrittenInAttempt codec py column writes events id row := by
  induction events using List.reverseRecOn generalizing row with
  | nil =>
      have hnone : stored start id = none := Table.find?_empty id
      rw [runEvents_nil, hnone] at hrow
      cases hrow
  | append_singleton events e ih =>
      have hbehind := @run_behind codec py _ start_behind events
      have hlast : stored (e.step codec py (runEvents codec py events start)) id = some row := by
        rw [← runEvents_concat]
        exact hrow
      have hstep := @stored_step codec py _ hbehind e id
      rw [hlast] at hstep
      generalize ho : stored (runEvents codec py events start) id = o at hstep
      cases hstep with
      | unchanged => exact (ih ho hne).concat rfl rfl e
      | @written call hcall _ seen _ isCall sees step =>
          cases step with
          | added isAdd hid =>
              -- the event that created the row wrote the column
              refine ⟨events, e, [], rfl, ?_, _, hrow, rfl, rfl⟩
              subst isAdd
              rw [isCall, ← hid]
              exact h.added _ _
          | @changed a' _ hrun =>
              cases sees with
              | @some a _ hsame =>
                  have hcol : column a = column a' := hsame.column column h.anchor
                  have hgen := hsame.column RunRow.validationGeneration fun _ => rfl
                  rcases h.step _ _ _ hrun with ⟨hkeep, hkeepGen⟩ | hblank | hwrites
                  · have hback : column row = column a := hkeep.trans hcol.symm
                    refine (ih ho (hback ▸ hne)).concat hback ?_ e
                    rw [hkeepGen, hgen]
                  · exact absurd hblank hne
                  · refine ⟨events, e, [], rfl, ?_, row, hrow, rfl, rfl⟩
                    have hid : a'.id = id := by
                      rw [← hsame.column RunRow.id fun _ => rfl]
                      exact Table.find?_key ho
                    rw [isCall, ← hid]
                    exact hwrites

/-! ### Approvals and seals -/

/-- The columns of an approval. -/
structure Approval where
  state : String
  approver : Option String
  reason : Option String
  decidedAt : Option String
deriving DecidableEq

def approvalOf (row : RunRow) : Approval :=
  ⟨row.approvalState, row.approvalApprover, row.approvalReason, row.approvalDecidedAt⟩

/-- The approval of a run nobody has decided on. -/
def Approval.pending : Approval := ⟨"PENDING", none, none, none⟩

/-- The approval a call writes to a run. -/
def Call.approvalWritten : Call → String → Option Approval
  | .addRun record, id =>
      if record.id = id then
        some ⟨record.approvalState, record.approvalApprover, record.approvalReason,
          record.approvalDecidedAt⟩
      else none
  | .setRunApproval now runId state approver reason _, id =>
      if runId = id then some ⟨state, some approver, reason, some now⟩ else none
  | _, _ => none

/-- The seal a call writes to a run. -/
def Call.sealWritten : Call → String → Option (Option String)
  | .addRun record, id => if record.id = id then some record.generatedSeal else none
  | .setGeneratedSeal runId digest _, id => if runId = id then some (some digest) else none
  | _, _ => none

theorem ownedColumn_approval (codec : Codec) :
    OwnedColumn codec approvalOf .pending Call.approvalWritten where
  anchor _ := rfl
  added record params := by simp [Call.approvalWritten, approvalOf, newRunRow]
  step call a b h := by
    cases h with
    | progress id stage generation forward encoded =>
        exact .inl ⟨rfl, (runParams_eq_ok encoded).2.trans generation⟩
    | decide id =>
        refine .inr (.inr ?_)
        rw [Call.approvalWritten, if_pos id.symm]
        rfl
    | reset => exact .inr (.inl rfl)
    | _ => exact .inl ⟨rfl, rfl⟩

theorem ownedColumn_seal (codec : Codec) :
    OwnedColumn codec RunRow.generatedSeal none Call.sealWritten where
  anchor _ := rfl
  added record params := by simp [Call.sealWritten, newRunRow]
  step call a b h := by
    cases h with
    | progress id stage generation forward encoded =>
        exact .inl ⟨rfl, (runParams_eq_ok encoded).2.trans generation⟩
    | sealBundle id =>
        refine .inr (.inr ?_)
        rw [Call.sealWritten, if_pos id.symm]
        rfl
    | reset => exact .inr (.inl rfl)
    | _ => exact .inl ⟨rfl, rfl⟩

/-! ### The lifecycle -/

/-- The attempt an event is bound to. -/
def Event.boundTo : Event → Option (String × ℤ)
  | .call method _ => method.boundTo
  | .restart => none

/-- What one more event does to the stored row `a` of a run, which becomes `b`: only a reset moves it
to another attempt, the next one, and leaves nothing of the attempt before; an event bound to
another attempt leaves it as it was. -/
theorem stored_event {c : Connection Database} (h : Behind c) (e : Event) {id : String}
    {a : RunRow} (ha : stored c id = some a) :
    ∃ b, stored (e.step codec py c) id = some b ∧
      (b.validationGeneration = a.validationGeneration ∨
        ((∃ now contract, e = .call (.beginRevalidation now id contract) rfl) ∧
          b.validationGeneration = a.validationGeneration + 1 ∧ FreshAttempt b)) ∧
      ∀ g, e.boundTo = some (id, g) → g ≠ a.validationGeneration → b = a := by
  have hstep := @stored_step codec py _ h e id
  rw [ha] at hstep
  rcases hstep.of_some with hb | ⟨call, hcall, a', b, rfl, hb, hsame, hrun⟩
  · exact ⟨a, hb, .inl rfl, fun _ _ _ => rfl⟩
  · refine ⟨b, hb, ?_, fun g hbound hg => ?_⟩
    · have hgen := hsame.column RunRow.validationGeneration fun _ => rfl
      have hid : a'.id = id := by
        rw [← hsame.column RunRow.id fun _ => rfl]
        exact Table.find?_key ha
      rw [hgen, ← hid]
      rcases hrun.generation with hkeep | ⟨⟨now, contract, rfl⟩, hnext, hfresh⟩
      · exact .inl hkeep
      · exact .inr ⟨⟨now, contract, rfl⟩, hnext, hfresh⟩
    · have hsame := @stale_unchanged codec py _ h _ _ _ _ ha hbound hg
      have hstored : stored (call.run codec py c).2 id = stored c id := by
        rw [stored, hsame, stored]
      exact Option.some.inj (hb.symm.trans (hstored.trans ha))

theorem stored_reset {c : Connection Database} (h : Behind c) {now id : String}
    {contract : Option String} {record : RunRecord} {a : RunRow} (ha : stored c id = some a)
    (hok : (beginRevalidation codec py now id contract c).1 = .ok record) :
    ∃ b, stored (beginRevalidation codec py now id contract c).2 id = some b ∧
      b.validationGeneration = a.validationGeneration + 1 ∧ FreshAttempt b := by
  obtain ⟨a', ha', hb⟩ := beginRevalidation_ok hok
  obtain ⟨a'', ha'', hsame⟩ := h.exists_stored ha'
  obtain rfl : a = a'' := Option.some.inj (ha.symm.trans ha'')
  refine ⟨_, hb, ?_, freshAttempt_resetRun _ _ _⟩
  rw [hsame.column RunRow.validationGeneration fun _ => rfl]
  rfl

/-- **The lifecycle of a run is monotone within an attempt.**  After any events of a store, whatever
records and generations their workers hold, the stored row of a run

* moves to another attempt exactly at a reset, then carries nothing of the attempt before, and is
  left alone by a write bound to another attempt;
* goes up over any further events: the attempt never decreases, and within one attempt the stage
  never moves back and a terminal stage stays;
* holds an approval, or a seal, only as written in its own attempt. -/
theorem lifecycle_monotone (codec : Codec) (py : Py.Rendering) (events : List Event)
    (id : String) :
    (∀ row, stored (runEvents codec py events start) id = some row →
      (∀ e : Event, ∃ row', stored (runEvents codec py (events ++ [e]) start) id = some row' ∧
        (row'.validationGeneration = row.validationGeneration ∨
          ((∃ now contract, e = .call (.beginRevalidation now id contract) rfl) ∧
            row'.validationGeneration = row.validationGeneration + 1 ∧ FreshAttempt row')) ∧
        ∀ g, e.boundTo = some (id, g) → g ≠ row.validationGeneration → row' = row) ∧
      (∀ now contract record,
        (beginRevalidation codec py now id contract (runEvents codec py events start)).1 =
            .ok record →
          ∃ row', stored
              (beginRevalidation codec py now id contract (runEvents codec py events start)).2 id =
                some row' ∧
            row'.validationGeneration = row.validationGeneration + 1 ∧ FreshAttempt row') ∧
      (∀ later, ∃ row', stored (runEvents codec py (events ++ later) start) id = some row' ∧
        row.validationGeneration ≤ row'.validationGeneration ∧
        (row'.validationGeneration = row.validationGeneration →
          ∃ s t : RunStage, row.stage = s.value ∧ row'.stage = t.value ∧
            (s ∈ terminalStages → t = s) ∧
            ∀ i j, stageIndex s = some i → stageIndex t = some j → i ≤ j)) ∧
      (approvalOf row ≠ .pending →
        WrittenInAttempt codec py approvalOf Call.approvalWritten events id row) ∧
      (row.generatedSeal ≠ none →
        WrittenInAttempt codec py RunRow.generatedSeal Call.sealWritten events id row)) := by
  intro row hrow
  have hbehind := @run_behind codec py _ start_behind events
  refine ⟨fun e => ?_, fun now contract record hok => stored_reset hbehind hrow hok,
    fun later => ?_, (ownedColumn_approval codec).written_in_attempt events hrow,
    (ownedColumn_seal codec).written_in_attempt events hrow⟩
  · rw [runEvents_concat]
    exact stored_event hbehind e hrow
  · obtain ⟨row', hrow', hle⟩ := @attempt_le_of_run codec py _ hbehind later _ _ hrow
    refine ⟨row', by rw [runEvents_append]; exact hrow', hle.generation_le, fun heq => ?_⟩
    rcases hle with hlt | ⟨-, s, t, hs, ht, hst⟩
    · exact absurd heq hlt.ne'
    · exact ⟨s, t, hs, ht, hst.eq_of_terminal, fun i j hi hj => hst.index_le hi hj⟩

def approvedEvents : List Event :=
  [.call (.addRun Sample.run) rfl,
    .call (.setRunApproval "t1" "run-1" "APPROVED" "reviewer" none (some 0)) rfl]

theorem lifecycle_monotone_approved : ∃ row,
    stored (runEvents Sample.codec Sample.plain approvedEvents start) "run-1" = some row ∧
      row.approvalState = "APPROVED" ∧
      WrittenInAttempt Sample.codec Sample.plain approvalOf Call.approvalWritten approvedEvents
        "run-1" row := by
  refine ⟨_, rfl, rfl, ?_⟩
  refine (lifecycle_monotone Sample.codec Sample.plain approvedEvents "run-1" _ rfl).2.2.2.1 ?_
  intro h
  exact absurd (congrArg Approval.state h) (by decide)

end Store

end CobolJava
