/-
**Reports of business invariants are admitted as they were built.**

What `to_bytes` of `engine/verification/business_invariants.py` writes is read back by
`admit_report` with the same digest, definitions and overall status.  The comparator then sees two
reports as reports on the same declarations when their canonical forms agree; an expected value and
its canonical form are not told apart there.

Main definitions:

* `Business.AllPass` — every invariant passes against an observation;
* `Business.TakenForSame` — the comparator sees no difference between two lists of declarations.

Main results:

* `Business.admitReport_toBytes` — **a report that was built is admitted as it was built**;
* `Business.buildReport_perm` — the order of the declarations does not matter;
* `Business.compareReports_match` — **two reports match exactly when their declarations are taken
  for the same and every invariant passes on both sides**.
-/

import Mathlib
import CobolJava.Verification.ReportAdmission

set_option autoImplicit false

namespace CobolJava.Business

open Py (Bytes Exc)

/-! ### Dicts -/

section Dicts

variable {entries : List (String × PyJson)}

theorem item_dictOf (h : (entries.map Prod.fst).Nodup) (key : String) :
    item (PyJson.dictOf (entries.map fun e => (PyStr.of e.1, e.2))) key =
      (entries.lookup key).getD .null := by
  rw [item, PyJson.field_dictOf h]

theorem hasFields_dictOf (h : (entries.map Prod.fst).Nodup) :
    hasFields (entries.map Prod.fst)
      (PyJson.dictOf (entries.map fun e => (PyStr.of e.1, e.2))) = true := by
  have hkeys : (entries.map fun e => (PyStr.of e.1, e.2)).map Prod.fst =
      (entries.map Prod.fst).map PyStr.of := by simp
  have hnodup : ((entries.map fun e => (PyStr.of e.1, e.2)).map Prod.fst).Nodup := by
    rw [hkeys]
    exact h.map PyJson.PyStr_of_injective
  have hmem := PyJson.mem_keys_dictOf hnodup
  rw [hkeys] at hmem
  simp only [hasFields, Bool.and_eq_true, List.all_eq_true, List.contains_iff_mem]
  exact ⟨fun key hkey => (hmem key).2 hkey, fun key hkey => (hmem key).1 hkey⟩

theorem ordered_dict (h : ∀ e ∈ entries, e.2.Ordered) : (dict entries).Ordered := by
  refine PyJson.ordered_dictOf (PyJson.orderedFields_iff.2 fun f hf => ?_)
  obtain ⟨e, he, rfl⟩ := List.mem_map.1 hf
  exact h e he

end Dicts

/-! ### Checks that are met -/

theorem require_true {condition : Bool} (h : condition = true) (message : String) :
    require condition message = .ok () := by
  rw [require, if_pos h]

theorem require_eq_ok {condition : Bool} {message : String} {u : Unit} :
    require condition message = .ok u ↔ condition = true := by
  unfold require
  split_ifs with h <;> simp [h]

section Admitted

variable (shown : Shown)

theorem requireOneOf_text (message : String) {values : List String} {fs : Entry} {key s : String}
    (hs : s ∈ values) (hfield : item fs key = text s) :
    requireOneOf shown values message fs key = .ok () := by
  have hmem : (values.map PyStr.of).contains (PyStr.of s) = true := by
    rw [List.contains_iff_mem]
    exact List.mem_map_of_mem hs
  rw [requireOneOf, hfield, text, isOneOf, hmem, Py.ok_bind]
  exact require_true rfl _

theorem entryOf_fields (what : String) {required : List String} {fs : Entry}
    (h : hasFields required fs = true) : entryOf shown what required (.obj fs) = .ok fs := by
  rw [entryOf]
  simp only [h]
  rfl

theorem canonicalDefinition_ok {j : PyJson} {fs : Entry}
    (hentry : entryOf shown "definition" definitionFields j = .ok fs)
    (hkind : requireOneOf shown kindValues "invalid definition kind " fs "kind" = .ok ())
    (hsource : requireOneOf shown sourceValues "invalid definition source " fs "source" = .ok ())
    (hphase : requireOneOf shown phaseValues "invalid definition phase " fs "phase" = .ok ()) :
    canonicalDefinition shown j = .ok fs := by
  simp only [canonicalDefinition, hentry, hkind, hsource, hphase, Py.ok_bind]
  rfl

theorem canonicalOutcome_ok {j : PyJson} {fs : Entry} {reason : String}
    (hentry : entryOf shown "outcome" outcomeFields j = .ok fs)
    (hreason : item fs "reason" = text reason) : canonicalOutcome shown j = .ok fs := by
  simp only [canonicalOutcome, hentry, hreason, Py.ok_bind]
  rfl

theorem outcomePassed_ok {fs : Entry} {passed : Bool}
    (hphase : requireOneOf shown phaseValues "invalid outcome phase " fs "phase" = .ok ())
    (hkind : requireOneOf shown kindValues "invalid outcome kind " fs "kind" = .ok ())
    (hpassed : item fs "passed" = .bool passed) : outcomePassed shown fs = .ok passed := by
  simp only [outcomePassed, hphase, hkind, hpassed, Py.ok_bind]
  rfl

theorem ordered_optText (s : Option String) : (optText s).Ordered := by
  cases s <;> trivial

theorem ordered_optNat (n : Option ℕ) : (optNat n).Ordered := by
  cases n <;> trivial

/-- The entries of a canonical declaration. -/
def definitionEntries (inv : BusinessInvariant) (expected : PyJson) : List (String × PyJson) :=
  [("invariant_id", text inv.invariantId), ("kind", text inv.kind.value),
    ("source", text inv.source.value), ("phase", text inv.phase.value),
    ("source_name", optText inv.sourceName), ("expected", expected),
    ("record_length", optNat inv.recordLength), ("offset", optNat inv.offset),
    ("length", optNat inv.length), ("record_index", optNat inv.recordIndex),
    ("decimal_places", .int inv.decimalPlaces), ("json_path", optText inv.jsonPath),
    ("description", text inv.description)]

theorem nodup_definitionEntries (inv : BusinessInvariant) (expected : PyJson) :
    ((definitionEntries inv expected).map Prod.fst).Nodup :=
  show definitionFields.Nodup by decide

/-- What a canonical declaration is admitted as. -/
structure DefinitionAdmitted (shown : Shown) (inv : BusinessInvariant) (fs : Entry) : Prop where
  admitted : canonicalDefinition shown (.obj fs) = .ok fs
  id : item fs "invariant_id" = text inv.invariantId
  ordered : (PyJson.obj fs).Ordered

/-- A canonical declaration is admitted. -/
theorem toCanonicalDict_admitted {inv : BusinessInvariant} {j : PyJson}
    (h : toCanonicalDict inv = some j) : ∃ fs, j = .obj fs ∧ DefinitionAdmitted shown inv fs := by
  obtain ⟨expected, hexpected, hj⟩ := Option.map_eq_some_iff.1 h
  have hnodup := nodup_definitionEntries inv expected
  refine ⟨_, hj.symm, ?_, item_dictOf hnodup "invariant_id", ordered_dict ?_⟩
  · have hentry := entryOf_fields shown "definition" (hasFields_dictOf hnodup)
    have hkind := requireOneOf_text shown "invalid definition kind " inv.kind.value_mem
      (item_dictOf hnodup "kind")
    have hsource := requireOneOf_text shown "invalid definition source " inv.source.value_mem
      (item_dictOf hnodup "source")
    have hphase := requireOneOf_text shown "invalid definition phase " inv.phase.value_mem
      (item_dictOf hnodup "phase")
    exact canonicalDefinition_ok shown hentry hkind hsource hphase
  · have hvalue := ordered_canonicalValue inv.expected inv.expected_wellFormed hexpected
    simp [text, ordered_optText, ordered_optNat, hvalue, PyJson.Ordered]

/-- The entries of a written outcome. -/
def outcomeEntries (o : InvariantOutcome) (expected observed : PyJson) : List (String × PyJson) :=
  [("invariant_id", text o.invariantId), ("phase", text o.phase.value),
    ("kind", text o.kind.value), ("passed", .bool o.finding.passed), ("expected", expected),
    ("observed", observed), ("reason", text o.finding.reason)]

theorem nodup_outcomeEntries (o : InvariantOutcome) (expected observed : PyJson) :
    ((outcomeEntries o expected observed).map Prod.fst).Nodup :=
  show outcomeFields.Nodup by decide

/-- What a written outcome is admitted as. -/
structure OutcomeAdmitted (shown : Shown) (o : InvariantOutcome) (fs : Entry) : Prop where
  admitted : canonicalOutcome shown (.obj fs) = .ok fs
  passed : outcomePassed shown fs = .ok o.finding.passed
  id : item fs "invariant_id" = text o.invariantId
  ordered : (PyJson.obj fs).Ordered

/-- A written outcome is admitted. -/
theorem toDict_admitted {o : InvariantOutcome} {j : PyJson} (ho : o.expected.WellFormed)
    (h : o.toDict = some j) : ∃ fs, j = .obj fs ∧ OutcomeAdmitted shown o fs := by
  obtain ⟨expected, hexpected, h⟩ := Option.bind_eq_some_iff.1 h
  obtain ⟨observed, hobserved, hj⟩ := Option.map_eq_some_iff.1 h
  have hnodup := nodup_outcomeEntries o expected observed
  refine ⟨_, hj.symm, ?_, ?_, item_dictOf hnodup "invariant_id", ordered_dict ?_⟩
  · have hentry := entryOf_fields shown "outcome" (hasFields_dictOf hnodup)
    exact canonicalOutcome_ok shown hentry (item_dictOf hnodup "reason")
  · have hphase := requireOneOf_text shown "invalid outcome phase " o.phase.value_mem
      (item_dictOf hnodup "phase")
    have hkind := requireOneOf_text shown "invalid outcome kind " o.kind.value_mem
      (item_dictOf hnodup "kind")
    exact outcomePassed_ok shown hphase hkind (item_dictOf hnodup "passed")
  · have hvalue := ordered_canonicalValue o.expected ho hexpected
    have hfound := ordered_canonicalValue _ o.finding.observed_wellFormed hobserved
    simp [text, hvalue, hfound, PyJson.Ordered]

/-! ### Lists of entries -/

/-- What canonical declarations are admitted as. -/
structure DefinitionsAdmitted (shown : Shown) (l : List BusinessInvariant) (js : List PyJson)
    (fss : List Entry) : Prop where
  same : js = fss.map .obj
  admitted : js.mapM (canonicalDefinition shown) = .ok fss
  ids : fss.map (fun fs => shown.text (item fs "invariant_id")) =
    l.map fun inv => PyStr.of inv.invariantId
  ordered : PyJson.OrderedItems js

theorem toCanonicalDict_admittedAll {l : List BusinessInvariant} {js : List PyJson}
    (h : l.mapM toCanonicalDict = some js) : ∃ fss, DefinitionsAdmitted shown l js fss := by
  have hall := Py.mapM_some h
  clear h
  induction hall with
  | nil => exact ⟨[], rfl, rfl, rfl, trivial⟩
  | @cons inv j l js hinv _ ih =>
      obtain ⟨fss, ih⟩ := ih
      obtain ⟨fs, rfl, hfs⟩ := toCanonicalDict_admitted shown hinv
      refine ⟨fs :: fss, ?_, ?_, ?_, hfs.ordered, ih.ordered⟩
      · rw [List.map_cons, ih.same]
      · rw [List.mapM_cons, hfs.admitted, ih.admitted]
        rfl
      · rw [List.map_cons, List.map_cons, ih.ids, hfs.id]
        rfl

/-- What written outcomes are admitted as. -/
structure OutcomesAdmitted (shown : Shown) (os : List InvariantOutcome) (js : List PyJson)
    (fss : List Entry) : Prop where
  admitted : js.mapM (canonicalOutcome shown) = .ok fss
  passed : fss.mapM (outcomePassed shown) = .ok (os.map fun o => o.finding.passed)
  ids : fss.map (fun fs => shown.text (item fs "invariant_id")) =
    os.map fun o => PyStr.of o.invariantId
  ordered : PyJson.OrderedItems js

theorem toDict_admittedAll {os : List InvariantOutcome} {js : List PyJson}
    (hos : ∀ o ∈ os, o.expected.WellFormed) (h : os.mapM InvariantOutcome.toDict = some js) :
    ∃ fss, OutcomesAdmitted shown os js fss := by
  have hall := Py.mapM_some h
  clear h
  induction hall with
  | nil => exact ⟨[], rfl, rfl, rfl, trivial⟩
  | @cons o j os js ho _ ih =>
      obtain ⟨fss, ih⟩ := ih fun o ho => hos o (List.mem_cons_of_mem _ ho)
      obtain ⟨fs, rfl, hfs⟩ := toDict_admitted shown (hos o (List.mem_cons_self ..)) ho
      refine ⟨fs :: fss, ?_, ?_, ?_, hfs.ordered, ih.ordered⟩
      · rw [List.mapM_cons, hfs.admitted, ih.admitted]
        rfl
      · rw [List.mapM_cons, hfs.passed, ih.passed]
        rfl
      · rw [List.map_cons, List.map_cons, ih.ids, hfs.id]
        rfl

end Admitted

/-! ### The outcomes of an evaluation -/

section Evaluation

variable {messages : Messages} {limit : ℕ} {observation : InvariantObservation}
  {l : List BusinessInvariant} {os : List InvariantOutcome}

theorem evaluateOne_outcome {inv : BusinessInvariant} {o : InvariantOutcome}
    (h : evaluateOne messages limit inv observation = some o) :
    o.invariantId = inv.invariantId ∧ o.expected = inv.expected := by
  obtain ⟨finding, -, rfl⟩ := Option.map_eq_some_iff.1 h
  exact ⟨rfl, rfl⟩

/-- Every invariant passes against an observation. -/
def AllPass (messages : Messages) (limit : ℕ) (l : List BusinessInvariant)
    (observation : InvariantObservation) : Prop :=
  ∀ inv ∈ l, ∃ o, evaluateOne messages limit inv observation = some o ∧ o.finding.passed = true

/-- The outcomes of some declarations, in their order. -/
def OutcomesOf (messages : Messages) (limit : ℕ) (observation : InvariantObservation) :
    List BusinessInvariant → List InvariantOutcome → Prop :=
  List.Forall₂ fun inv o => evaluateOne messages limit inv observation = some o

theorem OutcomesOf.ids (h : OutcomesOf messages limit observation l os) :
    os.map (fun o => PyStr.of o.invariantId) = l.map fun inv => PyStr.of inv.invariantId := by
  induction h with
  | nil => rfl
  | @cons inv o _ _ ho _ ih => rw [List.map_cons, List.map_cons, ih, (evaluateOne_outcome ho).1]

theorem OutcomesOf.wellFormed (h : OutcomesOf messages limit observation l os) :
    ∀ o ∈ os, o.expected.WellFormed := by
  induction h with
  | nil => simp
  | @cons inv o _ _ ho _ ih =>
      intro o' ho'
      rcases List.mem_cons.1 ho' with rfl | ho'
      · rw [(evaluateOne_outcome ho).2]
        exact inv.expected_wellFormed
      · exact ih o' ho'

theorem OutcomesOf.passed (h : OutcomesOf messages limit observation l os) :
    (os.all fun o => o.finding.passed) = true ↔ AllPass messages limit l observation := by
  induction h with
  | nil => simp [AllPass]
  | @cons inv o _ _ ho _ ih =>
      rw [List.all_cons, Bool.and_eq_true, ih]
      simp [AllPass, ho]

theorem evaluateInvariants_nodup
    (h : evaluateInvariants messages limit l observation = some os) :
    (l.map BusinessInvariant.invariantId).Nodup := by
  unfold evaluateInvariants at h
  split_ifs at h with hids
  exact hids

theorem evaluateInvariants_outcomes
    (h : evaluateInvariants messages limit l observation = some os) :
    OutcomesOf messages limit observation (sortedById l) os := by
  unfold evaluateInvariants at h
  split_ifs at h with hids
  exact Py.mapM_some h

theorem mem_sortedById {inv : BusinessInvariant} : inv ∈ sortedById l ↔ inv ∈ l :=
  (List.perm_insertionSort _ l).mem_iff

end Evaluation

/-! ### Reports -/

section Reports

variable {messages : Messages} {limit : ℕ} {observation : InvariantObservation}
  {l : List BusinessInvariant} {r : Report}

/-- What a report is built from. -/
structure Built (messages : Messages) (limit : ℕ) (l : List BusinessInvariant)
    (observation : InvariantObservation) (r : Report) : Prop where
  ne_nil : l ≠ []
  definitions : canonicalDefinitions l = some r.definitions
  digest : digestOf limit r.definitions = .ok r.definitionDigest
  outcomes : evaluateInvariants messages limit l observation = some r.outcomes

theorem buildReport_built (h : buildReport messages limit l observation = some r) :
    Built messages limit l observation r := by
  unfold buildReport at h
  split_ifs at h with hnil
  obtain ⟨definitions, hdefinitions, h⟩ := Option.bind_eq_some_iff.1 h
  obtain ⟨digest, hdigest, h⟩ := Option.bind_eq_some_iff.1 h
  obtain ⟨outcomes, houtcomes, rfl⟩ := Option.map_eq_some_iff.1 h
  exact ⟨hnil, hdefinitions, Py.toOption_eq_some.1 hdigest, houtcomes⟩

/-- **The order of the declarations does not matter.** -/
theorem buildReport_perm {l' : List BusinessInvariant} (h : l.Perm l')
    (hids : (l.map BusinessInvariant.invariantId).Nodup) :
    buildReport messages limit l observation = buildReport messages limit l' observation := by
  have hsorted := sortedById_perm h hids
  have hnil : l = [] ↔ l' = [] := by
    rw [← List.length_eq_zero_iff, ← List.length_eq_zero_iff, h.length_eq]
  have hids' : (l'.map BusinessInvariant.invariantId).Nodup := (h.map _).nodup_iff.1 hids
  simp only [buildReport, canonicalDefinitions, evaluateInvariants, hsorted, hnil, hids, hids',
    if_true]

theorem Built.buildReport_eq (h : Built messages limit l observation r) :
    buildReport messages limit l observation = some r := by
  rw [buildReport, if_neg h.ne_nil, h.definitions, Option.bind_some, h.digest]
  simp only [Except.toOption, Option.bind_some, h.outcomes, Option.map_some]

theorem Built.outcomes_ne_nil (h : Built messages limit l observation r) : r.outcomes ≠ [] := by
  have hlength := List.Forall₂.length_eq (evaluateInvariants_outcomes h.outcomes)
  rw [sortedById, List.length_insertionSort] at hlength
  intro hnil
  rw [hnil, List.length_nil, List.length_eq_zero_iff] at hlength
  exact h.ne_nil hlength

theorem Built.definitions_ne_nil (h : Built messages limit l observation r) :
    r.definitions ≠ [] := by
  have hlength := List.Forall₂.length_eq (Py.mapM_some h.definitions)
  rw [sortedById, List.length_insertionSort] at hlength
  intro hnil
  rw [hnil, List.length_nil, List.length_eq_zero_iff] at hlength
  exact h.ne_nil hlength

theorem Built.digest_length (h : Built messages limit l observation r) :
    r.definitionDigest.length = 64 := by
  obtain ⟨content, -, hdigest⟩ := Py.map_ok h.digest
  rw [← hdigest, Sha256.hexdigest_length]

theorem Built.passed_iff (h : Built messages limit l observation r) :
    r.passed = true ↔ AllPass messages limit l observation := by
  have hall : AllPass messages limit (sortedById l) observation ↔
      AllPass messages limit l observation :=
    forall_congr' fun inv => imp_congr_left mem_sortedById
  rw [← hall, ← (evaluateInvariants_outcomes h.outcomes).passed, Report.passed, Bool.and_eq_true,
    Bool.not_eq_true', List.isEmpty_eq_false_iff]
  exact ⟨fun hp => hp.2, fun hp => ⟨h.outcomes_ne_nil, hp⟩⟩

/-! ### Admission of what was built -/

/-- The entries of a written report. -/
def reportEntries (r : Report) (outcomes : List PyJson) : List (String × PyJson) :=
  [("schema_version", text schemaVersion), ("definition_digest", text r.definitionDigest),
    ("definitions", .arr r.definitions), ("overall", text r.overall),
    ("evaluated_count", .int r.outcomes.length),
    ("failed_count", .int (r.outcomes.countP fun o => !o.finding.passed)),
    ("outcomes", .arr outcomes)]

def reportDocument (r : Report) (outcomes : List PyJson) : Entry :=
  PyJson.dictOf ((reportEntries r outcomes).map fun e => (PyStr.of e.1, e.2))

theorem nodup_reportEntries (r : Report) (outcomes : List PyJson) :
    ((reportEntries r outcomes).map Prod.fst).Nodup :=
  show ["schema_version", "definition_digest", "definitions", "overall", "evaluated_count",
    "failed_count", "outcomes"].Nodup by decide

theorem parsedReport_dumps {shown : Shown} {fs : Entry} {bytes : Bytes}
    (ho : (PyJson.obj fs).Ordered) (h : PyJson.dumps limit (.obj fs) = .ok bytes) :
    parsedReport shown limit bytes = .ok fs := by
  unfold PyJson.dumps at h
  split_ifs at h with hw
  rw [← Except.ok.inj h, parsedReport, Py.decode_encode]
  dsimp only
  rw [PyJson.loads_compact ho hw]

/-- A document states what a report holds; its counters may be any. -/
structure Declares (document : Entry) (r : Report) (outcomes : List PyJson) : Prop where
  version : item document "schema_version" = text schemaVersion
  digest : item document "definition_digest" = text r.definitionDigest
  definitions : item document "definitions" = .arr r.definitions
  overall : item document "overall" = text r.overall
  outcomes : item document "outcomes" = .arr outcomes

theorem declares_reportDocument (r : Report) (outcomes : List PyJson) :
    Declares (reportDocument r outcomes) r outcomes := by
  have hitem := item_dictOf (nodup_reportEntries r outcomes)
  exact ⟨hitem "schema_version", hitem "definition_digest", hitem "definitions", hitem "overall",
    hitem "outcomes"⟩

/-- The parts of the document of a report are found again. -/
theorem Declares.documentParts {document : Entry} {outcomes : List PyJson}
    (h : Declares document r outcomes) (shown : Shown) (hr : r.definitions ≠ [])
    (hos : outcomes ≠ []) (hdigest : r.definitionDigest.length = 64) :
    documentParts shown document =
      .ok (r.definitions, outcomes, PyStr.of r.definitionDigest, PyStr.of r.overall) := by
  have hlength : (PyStr.of r.definitionDigest).length = 64 := by
    rw [PyStr.of, List.length_map, String.length_toList, hdigest]
  have hstatus : ((["PASS", "FAIL"].map PyStr.of).contains (PyStr.of r.overall)) = true := by
    unfold Report.overall
    split_ifs <;> decide
  obtain ⟨d, ds, hds⟩ := List.exists_cons_of_ne_nil hr
  obtain ⟨o, os, rfl⟩ := List.exists_cons_of_ne_nil hos
  simp only [Business.documentParts, h.version, h.definitions, h.outcomes, h.digest, h.overall, hds,
    text, nonEmptyList, textWith, hlength, hstatus, require, decide_true, if_true, Py.ok_bind]
  rfl

theorem computedOverall_eq (h : r.outcomes ≠ []) :
    computedOverall (r.outcomes.map fun o => o.finding.passed) = r.overall := by
  have hne : r.outcomes.isEmpty = false := List.isEmpty_eq_false_iff.2 h
  rw [computedOverall, Report.overall, Report.passed, hne, List.all_map]
  rfl

/-- What an admitted report on some declarations and their outcomes holds. -/
structure AdmittedAs (shown : Shown) (l : List BusinessInvariant) (r : Report)
    (outcomes : List PyJson) (a : AdmittedReport) : Prop where
  digest : a.definitionDigest = PyStr.of r.definitionDigest
  definitions : DefinitionsAdmitted shown (sortedById l) r.definitions a.definitions
  overall : a.overall = PyStr.of r.overall
  outcomes : OutcomesAdmitted shown r.outcomes outcomes a.outcomes

/-- A document that states what a built report holds is admitted. -/
theorem Built.admitted (hbuilt : Built messages limit l observation r) (shown : Shown)
    {outcomes : List PyJson} (hdocs : r.outcomes.mapM InvariantOutcome.toDict = some outcomes)
    {document : Entry} {bytes : Bytes} (hparsed : parsedReport shown limit bytes = .ok document)
    (hdocument : Declares document r outcomes) :
    ∃ a, admitReport shown limit bytes = .ok a ∧ AdmittedAs shown l r outcomes a := by
  have houtcomes := evaluateInvariants_outcomes hbuilt.outcomes
  obtain ⟨defs, hdefs⟩ := toCanonicalDict_admittedAll shown hbuilt.definitions
  obtain ⟨outs, houts⟩ := toDict_admittedAll shown houtcomes.wellFormed hdocs
  have hdocsNil : outcomes ≠ [] := by
    rintro rfl
    exact hbuilt.outcomes_ne_nil
      (List.length_eq_zero_iff.1 (List.Forall₂.length_eq (Py.mapM_some hdocs)))
  have hparts := hdocument.documentParts shown hbuilt.definitions_ne_nil hdocsNil
    hbuilt.digest_length
  have hadmitDefs : admitDefinitions shown limit r.definitions (PyStr.of r.definitionDigest) =
      .ok defs := by
    rw [admitDefinitions, hdefs.admitted, Py.ok_bind, ← hdefs.same, hbuilt.digest, Py.ok_bind]
    rw [require_true (by simp)]
    rfl
  have hids : sortedIds shown defs = sortedIds shown outs := by
    rw [sortedIds, sortedIds, hdefs.ids, houts.ids, houtcomes.ids]
  have hadmitOuts : admitOutcomes shown outcomes defs (PyStr.of r.overall) = .ok outs := by
    rw [admitOutcomes, houts.admitted, Py.ok_bind, require_true (by simpa using hids), Py.ok_bind,
      houts.passed, Py.ok_bind, require_true (by simp [computedOverall_eq hbuilt.outcomes_ne_nil])]
    rfl
  refine ⟨⟨PyStr.of r.definitionDigest, defs, PyStr.of r.overall, outs⟩, ?_, rfl, hdefs, rfl, houts⟩
  simp only [admitReport, hparsed, hparts, hadmitDefs, hadmitOuts, Py.ok_bind]
  rfl

theorem Built.ordered_reportEntries (hbuilt : Built messages limit l observation r) (shown : Shown)
    {outcomes : List PyJson} (hdocs : r.outcomes.mapM InvariantOutcome.toDict = some outcomes) :
    ∀ e ∈ reportEntries r outcomes, e.2.Ordered := by
  have houtcomes := evaluateInvariants_outcomes hbuilt.outcomes
  obtain ⟨defs, hdefs⟩ := toCanonicalDict_admittedAll shown hbuilt.definitions
  obtain ⟨outs, houts⟩ := toDict_admittedAll shown houtcomes.wellFormed hdocs
  have hdefinitions : (PyJson.arr r.definitions).Ordered := hdefs.ordered
  have hwritten : (PyJson.arr outcomes).Ordered := houts.ordered
  intro e he
  simp only [reportEntries, List.mem_cons, List.not_mem_nil, or_false] at he
  rcases he with rfl | rfl | rfl | rfl | rfl | rfl | rfl
  all_goals trivial

theorem Built.parsedReport_toBytes (hbuilt : Built messages limit l observation r) (shown : Shown)
    {bytes : Bytes} (hbytes : r.toBytes limit = some bytes) :
    ∃ outcomes, r.outcomes.mapM InvariantOutcome.toDict = some outcomes ∧
      parsedReport shown limit bytes = .ok (reportDocument r outcomes) := by
  obtain ⟨document, hdocument, hbytes⟩ := Option.bind_eq_some_iff.1 hbytes
  obtain ⟨docs, hdocs, rfl⟩ := Option.map_eq_some_iff.1 hdocument
  have hordered : (PyJson.obj (reportDocument r docs)).Ordered :=
    ordered_dict (hbuilt.ordered_reportEntries shown hdocs)
  exact ⟨docs, hdocs, parsedReport_dumps hordered (Py.toOption_eq_some.1 hbytes)⟩

/-- **A report that was built is admitted as it was built.** -/
theorem admitReport_toBytes (shown : Shown) {bytes : Bytes}
    (hbuilt : Built messages limit l observation r) (hbytes : r.toBytes limit = some bytes) :
    ∃ a, admitReport shown limit bytes = .ok a ∧
      a.definitionDigest = PyStr.of r.definitionDigest ∧
      a.definitions.map PyJson.obj = r.definitions ∧ a.overall = PyStr.of r.overall := by
  obtain ⟨docs, hdocs, hparsed⟩ := hbuilt.parsedReport_toBytes shown hbytes
  obtain ⟨a, ha, hadmitted⟩ := hbuilt.admitted shown hdocs hparsed (declares_reportDocument r docs)
  exact ⟨a, ha, hadmitted.digest, hadmitted.definitions.same.symm, hadmitted.overall⟩

end Reports

/-! ### The comparison of two reports -/

section Comparison

variable {messages : Messages} {limit : ℕ} {l₁ l₂ : List BusinessInvariant}
  {o₁ o₂ : InvariantObservation} {r₁ r₂ : Report}

/-- Two lists of declarations that the comparator takes for the same: their digests agree, and so do
their canonical forms. -/
def TakenForSame (limit : ℕ) (l₁ l₂ : List BusinessInvariant) : Prop :=
  invariantDefinitionDigest limit l₁ = invariantDefinitionDigest limit l₂ ∧
    ∃ d₁ d₂, canonicalDefinitions l₁ = some d₁ ∧ canonicalDefinitions l₂ = some d₂ ∧
      sameItems d₁ d₂ = true

theorem takenForSame_of_perm {d : List PyJson} (h : l₁.Perm l₂)
    (hids : (l₁.map BusinessInvariant.invariantId).Nodup) (hd : canonicalDefinitions l₁ = some d) :
    TakenForSame limit l₁ l₂ := by
  have hsame : canonicalDefinitions l₁ = canonicalDefinitions l₂ := by
    rw [canonicalDefinitions, canonicalDefinitions, sortedById_perm h hids]
  refine ⟨?_, d, d, hd, hsame ▸ hd, sameItems_self d⟩
  rw [invariantDefinitionDigest, invariantDefinitionDigest, hsame]

theorem Built.invariantDefinitionDigest_eq (h : Built messages limit l₁ o₁ r₁) :
    invariantDefinitionDigest limit l₁ = some r₁.definitionDigest := by
  rw [invariantDefinitionDigest, h.definitions, Option.bind_some, h.digest]
  rfl

theorem Built.takenForSame_iff (h₁ : Built messages limit l₁ o₁ r₁)
    (h₂ : Built messages limit l₂ o₂ r₂) :
    TakenForSame limit l₁ l₂ ↔ r₁.definitionDigest = r₂.definitionDigest ∧
      sameItems r₁.definitions r₂.definitions = true := by
  rw [TakenForSame, h₁.invariantDefinitionDigest_eq, h₂.invariantDefinitionDigest_eq,
    h₁.definitions, h₂.definitions]
  simp

theorem ofList_map_of (s : String) : String.ofList ((PyStr.of s).map Char.ofNat) = s := by
  have hmap : (PyStr.of s).map Char.ofNat = s.toList := by
    rw [PyStr.of, List.map_map]
    exact (List.map_congr_left fun c _ => Char.ofNat_toNat c).trans (List.map_id _)
  rw [hmap, String.ofList_toList]

theorem overall_eq_pass {r : Report} : PyStr.of r.overall = PyStr.of "PASS" ↔ r.passed = true := by
  unfold Report.overall
  split_ifs with h
  · simp [h]
  · simp only [h]
    decide

/-- **Two reports match exactly when their declarations are taken for the same and every invariant
passes on both sides.** -/
theorem compareReports_match (py : Py.Rendering) (shown : Shown)
    (h₁ : Built messages limit l₁ o₁ r₁) (h₂ : Built messages limit l₂ o₂ r₂) {a b : Bytes}
    (ha : r₁.toBytes limit = some a) (hb : r₂.toBytes limit = some b)
    (oracle candidate : ArtifactIdentity) (failure : Option FailurePolicy) :
    ∃ res, compareReports py shown limit ⟨oracle, some a⟩ ⟨candidate, some b⟩
        ⟨[], "SEQUENTIAL", failure⟩ = .ok res ∧
      (res.result = .MATCH ↔ TakenForSame limit l₁ l₂ ∧ AllPass messages limit l₁ o₁ ∧
        AllPass messages limit l₂ o₂) := by
  obtain ⟨ra, hra, hdigest₁, hdefinitions₁, hoverall₁⟩ := admitReport_toBytes shown h₁ ha
  obtain ⟨rb, hrb, hdigest₂, hdefinitions₂, hoverall₂⟩ := admitReport_toBytes shown h₂ hb
  refine ⟨compareAdmitted shown ⟨oracle, some a⟩ ⟨candidate, some b⟩ ra rb, ?_, ?_⟩
  · simp only [compareReports, compareContents, hra, hrb, Py.ok_bind]
    rfl
  · rw [h₁.takenForSame_iff h₂, ← h₁.passed_iff, ← h₂.passed_iff, ← overall_eq_pass,
      ← overall_eq_pass, ← hoverall₁, ← hoverall₂, ← hdefinitions₁, ← hdefinitions₂,
      ← PyJson.PyStr_of_injective.eq_iff, ← hdigest₁, ← hdigest₂, compareAdmitted]
    rw [sameDefinitions]
    split_ifs with hdiffer hpass
    · simp only [inconclusive, reduceCtorEq, false_iff]
      rintro ⟨⟨hdigest, hsame⟩, -⟩
      rcases hdiffer with hdiffer | hdiffer
      · exact hdiffer hdigest
      · rw [hdiffer] at hsame
        cases hsame
    · rw [not_or, not_not, Bool.not_eq_false] at hdiffer
      exact ⟨fun _ => ⟨hdiffer, hpass⟩, fun _ => rfl⟩
    · simp only [mismatchResult, reduceCtorEq, false_iff]
      exact fun h => hpass h.2

end Comparison

/-! ### A decimal and the mapping it is written as -/

theorem writable_text (depth : ℕ) (s : String) : PyJson.writable depth (text s) = true := by
  rw [text, PyJson.writable]
  exact PyJson.isScalar_of s

theorem writable_dict {depth : ℕ} {entries : List (String × PyJson)}
    (h : ∀ e ∈ entries, PyJson.writable depth e.2 = true) :
    PyJson.writable (depth + 1) (dict entries) = true := by
  rw [dict, PyJson.writable, PyJson.writableFields_iff]
  intro f hf
  obtain ⟨e, he, rfl⟩ := List.mem_map.1 (PyJson.mem_dictOf hf)
  exact ⟨PyJson.isScalar_of e.1, h e he⟩

theorem writable_dict_iff {depth : ℕ} {entries : List (String × PyJson)}
    (h : (entries.map Prod.fst).Nodup) : PyJson.writable (depth + 1) (dict entries) = true ↔
      ∀ e ∈ entries, PyJson.writable depth e.2 = true := by
  refine ⟨fun hw e he => ?_, writable_dict⟩
  have hkeys : ((entries.map fun e => (PyStr.of e.1, e.2)).map Prod.fst).Nodup := by
    rw [List.map_map, show Prod.fst ∘ (fun e : String × PyJson => (PyStr.of e.1, e.2)) =
      PyStr.of ∘ Prod.fst from rfl, ← List.map_map]
    exact h.map PyJson.PyStr_of_injective
  have hmem : (PyStr.of e.1, e.2) ∈ entries.map fun e => (PyStr.of e.1, e.2) :=
    List.mem_map_of_mem he
  exact (PyJson.writableFields_iff.1 hw _ ((PyJson.mem_dictOf_iff hkeys).2 hmem)).2

/-- The declaration that the field `A` of a document on stdout has an expected value. -/
def fieldA (expected : Value) (h : expected.WellFormed) : BusinessInvariant where
  invariantId := "a"
  kind := .jsonFieldEquals
  source := .stdout
  expected := expected
  phase := .postcondition
  sourceName := none
  recordLength := none
  offset := none
  length := none
  recordIndex := none
  decimalPlaces := 0
  jsonPath := some "A"
  description := ""
  expected_wellFormed := h

/-- A document with one field `A`. -/
def documentA (value : PyJson) : PyJson := .obj [(PyStr.of "A", value)]

/-- An execution that wrote such a document. -/
def wroteA (value : PyJson) : InvariantObservation where
  exitCode := some 0
  stdout := Py.encode (String.ofList (PyJson.compact (documentA value)))
  stderr := []
  files := PyDict.empty
  inputs := PyDict.empty

/-- The finding for a field that is there. -/
theorem evaluateJsonField_found {messages : Messages} {limit : ℕ} (inv : BusinessInvariant)
    {content : Bytes} (label : String) {written : String} {document actual : PyJson}
    {tokens : List PathToken} (hdecode : Py.decode content = some written)
    (hload : PyJson.loads limit written = .ok document)
    (htokens : jsonTokens (inv.jsonPath.getD "") = some tokens)
    (hactual : resolve messages.rendering document tokens = .ok actual) :
    ∃ finding, evaluateJsonField messages limit inv content label = some finding ∧
      finding.passed = jsonEqual actual inv.expected ∧ finding.observed = ofParsed actual := by
  unfold evaluateJsonField
  split
  · next hnone => rw [hdecode] at hnone; cases hnone
  · next t ht =>
      obtain rfl : written = t := Option.some.inj (hdecode.symm.trans ht)
      split
      · next herror => rw [hload] at herror; cases herror
      · next herror => rw [hload] at herror; cases herror
      · next document' hdocument =>
          obtain rfl : document = document' := Except.ok.inj (hload.symm.trans hdocument)
          dsimp only
          rw [htokens, Option.bind_some]
          split
          · next herror => rw [hactual] at herror; cases herror
          · next actual' hactual' =>
              obtain rfl : actual = actual' := Except.ok.inj (hactual.symm.trans hactual')
              exact ⟨_, rfl, rfl, rfl⟩

/-- The finding for the field. -/
theorem evaluateOne_fieldA (messages : Messages) {limit : ℕ} {expected : Value}
    (h : expected.WellFormed) {value : PyJson} (ho : value.Ordered)
    (hw : PyJson.writable limit value = true) (heq : jsonEqual value expected = true) :
    ∃ o, evaluateOne messages (limit + 1) (fieldA expected h) (wroteA value) = some o ∧
      o.finding.passed = true ∧ o.finding.observed = ofParsed value := by
  have hloads : PyJson.loads (limit + 1) (String.ofList (PyJson.compact (documentA value))) =
      .ok (documentA value) := by
    refine PyJson.loads_compact ⟨List.pairwise_singleton .., ho, trivial⟩ ?_
    simpa [documentA, PyJson.writable, PyJson.writableFields, PyJson.isScalar_of] using hw
  have htokens : jsonTokens "A" = some [.name "A"] := rfl
  have hresolve : resolve messages.rendering (documentA value) [.name "A"] = .ok value := by
    simp [resolve, documentA, PyJson.field]
  obtain ⟨finding, hfinding, hpassed, hobserved⟩ := evaluateJsonField_found
    (fieldA expected h) "STDOUT" (Py.decode_encode _) hloads htokens hresolve
  refine ⟨outcome (fieldA expected h) finding, ?_, hpassed.trans heq, hobserved⟩
  show Option.map _ (evaluateJsonField messages (limit + 1) (fieldA expected h) _ "STDOUT") = _
  rw [wroteA, hfinding]
  rfl

section FieldA

variable {expected : Value} {h : expected.WellFormed} {value j k : PyJson}

theorem writable_definitionA (hwj : ∀ depth, PyJson.writable (depth + 1) j = true) (depth : ℕ) :
    PyJson.writable (depth + 2) (dict (definitionEntries (fieldA expected h) j)) = true := by
  refine writable_dict ?_
  simp only [definitionEntries, fieldA, optText, optNat, List.forall_mem_cons, writable_text,
    hwj depth, List.not_mem_nil, false_implies, implies_true, and_true, true_and]
  simp [PyJson.writable, PyJson.maxDigits]

theorem writable_outcomeA (o : InvariantOutcome)
    (hwj : ∀ depth, PyJson.writable (depth + 1) j = true)
    (hwk : ∀ depth, PyJson.writable (depth + 1) k = true) (depth : ℕ) :
    PyJson.writable (depth + 2) (dict (outcomeEntries o j k)) = true := by
  refine writable_dict ?_
  simp only [outcomeEntries, List.forall_mem_cons, writable_text, hwj depth, hwk depth,
    List.not_mem_nil, false_implies, implies_true, and_true, true_and]
  rfl

/-- A report on one declaration is written. -/
theorem toBytes_single {depth : ℕ} (digest : String) {definition written : PyJson}
    {o : InvariantOutcome} (hd : PyJson.writable (depth + 2) definition = true)
    (hw : PyJson.writable (depth + 2) written = true) (ho : o.toDict = some written)
    (hpassed : o.finding.passed = true) :
    ∃ a, Report.toBytes (depth + 4) ⟨digest, [definition], [o]⟩ = some a := by
  have hdict : Report.toDict ⟨digest, [definition], [o]⟩ =
      some (dict (reportEntries ⟨digest, [definition], [o]⟩ [written])) := by
    simp [Report.toDict, ho, reportEntries]
  have hone : (Nat.toDigits 10 1).length ≤ 4300 := by decide
  have hall : PyJson.writable (depth + 4)
      (dict (reportEntries ⟨digest, [definition], [o]⟩ [written])) = true := by
    refine writable_dict ?_
    simp only [reportEntries, List.forall_mem_cons, writable_text, List.not_mem_nil,
      false_implies, implies_true, and_true, true_and, PyJson.writable, PyJson.writableItems,
      hd, hw]
    simp [hpassed, PyJson.maxDigits, hone]
  rw [Report.toBytes, hdict, Option.bind_some, canonicalJson, PyJson.dumps, if_pos hall]
  exact ⟨_, rfl⟩

/-- The report on the field. -/
theorem built_fieldA (messages : Messages) (limit : ℕ) (ho : value.Ordered)
    (hw : ∀ depth, PyJson.writable (depth + 1) value = true)
    (heq : jsonEqual value expected = true) (hj : canonicalValue expected = some j)
    (hwj : ∀ depth, PyJson.writable (depth + 1) j = true)
    (hk : canonicalValue (ofParsed value) = some k)
    (hwk : ∀ depth, PyJson.writable (depth + 1) k = true) :
    ∃ r a, Built messages (limit + 4) [fieldA expected h] (wroteA value) r ∧
      r.toBytes (limit + 4) = some a ∧
      AllPass messages (limit + 4) [fieldA expected h] (wroteA value) := by
  obtain ⟨o, ho, hpassed, hobserved⟩ := evaluateOne_fieldA messages h ho (hw (limit + 2)) heq
  have hdefinitions : canonicalDefinitions [fieldA expected h] =
      some [dict (definitionEntries (fieldA expected h) j)] := by
    show List.mapM toCanonicalDict [fieldA expected h] = _
    simp [toCanonicalDict, fieldA, hj, definitionEntries]
  have hall : PyJson.writable (limit + 4)
      (.arr [dict (definitionEntries (fieldA expected h) j)]) = true := by
    simp [PyJson.writable, PyJson.writableItems, writable_definitionA hwj (limit + 1)]
  have houtcomes : evaluateInvariants messages (limit + 4) [fieldA expected h] (wroteA value) =
      some [o] := by
    show (if _ then List.mapM (fun inv => evaluateOne messages (limit + 4) inv (wroteA value))
      [fieldA expected h] else none) = _
    simp [ho]
  have hwritten : o.toDict = some (dict (outcomeEntries o j k)) := by
    rw [InvariantOutcome.toDict, (evaluateOne_outcome ho).2, hobserved]
    simp [fieldA, hj, hk, outcomeEntries]
  obtain ⟨a, ha⟩ := toBytes_single (Sha256.hexdigest (Py.encode (String.ofList
    (PyJson.compact (.arr [dict (definitionEntries (fieldA expected h) j)])))))
    (writable_definitionA (h := h) hwj limit) (writable_outcomeA o hwj hwk limit) hwritten hpassed
  refine ⟨_, a, ⟨by simp, hdefinitions, ?_, houtcomes⟩, ha, ?_⟩
  · rw [digestOf, canonicalJson, PyJson.dumps, if_pos hall]
    rfl
  · intro inv hinv
    rw [List.mem_singleton.1 hinv]
    exact ⟨o, ho, hpassed⟩

end FieldA

def plainShown : Shown := ⟨fun _ => [], fun _ => "", fun _ => ""⟩

/-- The decimal one, expected of the field. -/
def expectsDecimal : BusinessInvariant := fieldA (.decimal ⟨false, 1, 0⟩) trivial

/-- The mapping that is the canonical form of the decimal one, expected of the field. -/
def expectsMapping : BusinessInvariant :=
  fieldA (.mapping [(PyStr.of "$decimal", .str (PyStr.of "1"))])
    ⟨List.pairwise_singleton .., trivial, trivial⟩

theorem takenForSame_expects : TakenForSame 8 [expectsDecimal] [expectsMapping] := by
  have hsame : canonicalDefinitions [expectsDecimal] = canonicalDefinitions [expectsMapping] := rfl
  refine ⟨?_, _, _, rfl, rfl, sameItems_self _⟩
  rw [invariantDefinitionDigest, invariantDefinitionDigest, hsame]

theorem jsonEqual_one : jsonEqual (.int 1) (.decimal ⟨false, 1, 0⟩) = true := by
  simp [jsonEqual, Py.Decimal.toRat, Py.Decimal.signed]

theorem built_expectsDecimal : ∃ r a,
    Built plainMessages 8 [expectsDecimal] (wroteA (.int 1)) r ∧ r.toBytes 8 = some a ∧
      AllPass plainMessages 8 [expectsDecimal] (wroteA (.int 1)) :=
  built_fieldA plainMessages 4 trivial (fun _ => rfl) jsonEqual_one rfl
    (fun _ => rfl) rfl (fun _ => rfl)

theorem built_expectsMapping : ∃ r a,
    Built plainMessages 8 [expectsMapping] (wroteA (tagged "$decimal" ['1'])) r ∧
      r.toBytes 8 = some a ∧
      AllPass plainMessages 8 [expectsMapping] (wroteA (tagged "$decimal" ['1'])) :=
  built_fieldA plainMessages 4 (ordered_tagged _ _) (fun _ => rfl) (by decide) rfl
    (fun _ => rfl) rfl (fun _ => rfl)

/-! ### Capture and admission -/

section Capture

variable {messages : Messages} {limit : ℕ} {l₁ l₂ : List BusinessInvariant}
  {o₁ o₂ : InvariantObservation} {r₁ r₂ : Report}

/-- What capture and admission keep of the report `a` on the declarations `l₁`, and what the
comparison with the report `b` on the declarations `l₂` finds. -/
structure ReportsSurvive (messages : Messages) (shown : Shown) (py : Py.Rendering) (limit : ℕ)
    (l₁ : List BusinessInvariant) (o₁ : InvariantObservation) (a : Bytes)
    (l₂ : List BusinessInvariant) (o₂ : InvariantObservation) (b : Bytes) : Prop where
  /-- The report is admitted with its digest and definitions, and passes when every invariant
  does. -/
  admitted : ∃ report, admitReport shown limit a = .ok report ∧
    invariantDefinitionDigest limit l₁ = some (String.ofList
      (report.definitionDigest.map Char.ofNat)) ∧
    canonicalDefinitions l₁ = some (report.definitions.map .obj) ∧
    (report.overall = PyStr.of "PASS" ↔ AllPass messages limit l₁ o₁)
  /-- Every permutation of the declarations yields the same bytes. -/
  reordered : ∀ l, l.Perm l₁ →
    (buildReport messages limit l o₁).bind (Report.toBytes limit) = some a
  /-- The reports match when their declarations are the same and every invariant passes. -/
  compared : ∀ oracle candidate failure, ∃ res,
    compareReports py shown limit ⟨oracle, some a⟩ ⟨candidate, some b⟩
      ⟨[], "SEQUENTIAL", failure⟩ = .ok res ∧
    (res.result = .MATCH ↔
      l₁.Perm l₂ ∧ AllPass messages limit l₁ o₁ ∧ AllPass messages limit l₂ o₂)

/-- Different declarations that are taken for the same and all pass. -/
def Confused (messages : Messages) (limit : ℕ) (l₁ : List BusinessInvariant)
    (o₁ : InvariantObservation) (l₂ : List BusinessInvariant) (o₂ : InvariantObservation) : Prop :=
  ¬l₁.Perm l₂ ∧ TakenForSame limit l₁ l₂ ∧ AllPass messages limit l₁ o₁ ∧
    AllPass messages limit l₂ o₂

/-- An identity of a captured report. -/
def reportArtifact (content : Bytes) : ArtifactIdentity where
  artifactId := "business-invariants"
  artifactType := "BUSINESS_INVARIANT"
  logicalName := "business-invariants"
  producerRole := "ORACLE"
  contentHash := ContentHash.fromBytes content
  sizeBytes := content.length
  recordCount := none
  producerRole_mem := oracle_mem_producerRoles

theorem ReportsSurvive.not_confused {shown : Shown} {py : Py.Rendering} {a b : Bytes}
    (hsurvive : ReportsSurvive messages shown py limit l₁ o₁ a l₂ o₂ b)
    (h₁ : Built messages limit l₁ o₁ r₁) (h₂ : Built messages limit l₂ o₂ r₂)
    (ha : r₁.toBytes limit = some a) (hb : r₂.toBytes limit = some b) :
    ¬Confused messages limit l₁ o₁ l₂ o₂ := by
  rintro ⟨hperm, hsame, hpass₁, hpass₂⟩
  obtain ⟨res, hres, hmatch⟩ := hsurvive.compared (reportArtifact a) (reportArtifact b) none
  obtain ⟨res', hres', hmatch'⟩ := compareReports_match py shown h₁ h₂ ha hb (reportArtifact a)
    (reportArtifact b) none
  obtain rfl : res = res' := Except.ok.inj (hres.symm.trans hres')
  exact hperm (hmatch.1 (hmatch'.2 ⟨hsame, hpass₁, hpass₂⟩)).1

/-- **Reports survive capture and admission**, unless they are on different declarations that are
taken for the same. -/
theorem reportsSurvive_iff (messages : Messages) (shown : Shown) (py : Py.Rendering) (limit : ℕ)
    {l₁ l₂ : List BusinessInvariant} {o₁ o₂ : InvariantObservation} {a b : Bytes}
    (ha : (buildReport messages limit l₁ o₁).bind (Report.toBytes limit) = some a)
    (hb : (buildReport messages limit l₂ o₂).bind (Report.toBytes limit) = some b) :
    ReportsSurvive messages shown py limit l₁ o₁ a l₂ o₂ b ↔
      ¬Confused messages limit l₁ o₁ l₂ o₂ := by
  obtain ⟨r₁, hr₁, ha₁⟩ := Option.bind_eq_some_iff.1 ha
  obtain ⟨r₂, hr₂, hb₂⟩ := Option.bind_eq_some_iff.1 hb
  have h₁ := buildReport_built hr₁
  have h₂ := buildReport_built hr₂
  have hids := evaluateInvariants_nodup h₁.outcomes
  constructor
  · exact fun hsurvive => hsurvive.not_confused h₁ h₂ ha₁ hb₂
  · intro hconfused
    refine ⟨?_, fun l hl => ?_, fun oracle candidate failure => ?_⟩
    · obtain ⟨ra, hra, hdigest, hdefinitions, hoverall⟩ := admitReport_toBytes shown h₁ ha₁
      refine ⟨ra, hra, ?_, hdefinitions ▸ h₁.definitions, ?_⟩
      · rw [h₁.invariantDefinitionDigest_eq, hdigest, ofList_map_of]
      · rw [hoverall, overall_eq_pass, h₁.passed_iff]
    · have hnodup := (hl.map BusinessInvariant.invariantId).nodup_iff.2 hids
      rw [buildReport_perm hl hnodup, ha]
    · obtain ⟨res, hres, hmatch⟩ := compareReports_match py shown h₁ h₂ ha₁ hb₂ oracle candidate
        failure
      refine ⟨res, hres, hmatch.trans ⟨fun h => ⟨?_, h.2⟩, fun h => ⟨?_, h.2⟩⟩⟩
      · by_contra hperm
        exact hconfused ⟨hperm, h⟩
      · exact takenForSame_of_perm h.1 hids h₁.definitions

end Capture

/-- The theorem at these two reports. -/
theorem reportsSurvive_iff_decimal : ∃ a b,
    ReportsSurvive plainMessages plainShown plainMessages.rendering 8
      [expectsDecimal] (wroteA (.int 1)) a [expectsMapping] (wroteA (tagged "$decimal" ['1'])) b ↔
      ¬Confused plainMessages 8 [expectsDecimal] (wroteA (.int 1)) [expectsMapping]
        (wroteA (tagged "$decimal" ['1'])) := by
  obtain ⟨r₁, a, h₁, ha, -⟩ := built_expectsDecimal
  obtain ⟨r₂, b, h₂, hb, -⟩ := built_expectsMapping
  refine ⟨a, b, reportsSurvive_iff _ _ _ _ ?_ ?_⟩
  · rw [h₁.buildReport_eq, Option.bind_some, ha]
  · rw [h₂.buildReport_eq, Option.bind_some, hb]

/-- **The reports on the two declarations match.** -/
theorem reportsSurvive_not_mapping : ∃ a b,
    (buildReport plainMessages 8 [expectsDecimal] (wroteA (.int 1))).bind (Report.toBytes 8) =
      some a ∧
    (buildReport plainMessages 8 [expectsMapping] (wroteA (tagged "$decimal" ['1']))).bind
      (Report.toBytes 8) = some b ∧
    ¬ReportsSurvive plainMessages plainShown plainMessages.rendering 8
      [expectsDecimal] (wroteA (.int 1)) a [expectsMapping] (wroteA (tagged "$decimal" ['1'])) b := by
  obtain ⟨r₁, a, h₁, ha, hpass₁⟩ := built_expectsDecimal
  obtain ⟨r₂, b, h₂, hb, hpass₂⟩ := built_expectsMapping
  have hperm : ¬[expectsDecimal].Perm [expectsMapping] := by
    intro hperm
    have heq := (List.cons.inj (List.perm_singleton.1 hperm)).1
    have hexpected := congrArg BusinessInvariant.expected heq
    cases hexpected
  refine ⟨a, b, ?_, ?_, fun hsurvive => ?_⟩
  · rw [h₁.buildReport_eq, Option.bind_some, ha]
  · rw [h₂.buildReport_eq, Option.bind_some, hb]
  · exact hsurvive.not_confused h₁ h₂ ha hb ⟨hperm, takenForSame_expects, hpass₁, hpass₂⟩

end CobolJava.Business
