/-
**What an admitted report is known to agree on with itself.**

`admit_report` of `engine/verification/business_invariants.py` compares the ids of the outcomes with
those of the definitions, and the overall status with the outcomes.  It does not look at the two
counters, at the kind, phase and expected value that an outcome repeats, or at two definitions of
one id.

Main definitions:

* `Business.SelfConsistent` — the three parts of a document agree;
* `Business.TakenOnTrust` — what no check of the admission looks at is right.

Main results:

* `Business.admitReport_parts` — what the checks of an admitted document establish;
* `Business.selfConsistent_iff` — **an admitted document is self-consistent exactly when what is
  taken on trust is right**;
* `Business.Built.takenOnTrust` — it is right in a report that was built.
-/

import CobolJava.Verification.AdmissionErrors

set_option autoImplicit false

namespace CobolJava.Business

open Py (Bytes Exc)

/-! ### Consistency -/

/-- The fields of a value, if it is a dict. -/
def asObj : PyJson → Option Entry
  | .obj fs => some fs
  | _ => none

/-- The dicts in the list that a field of the document holds. -/
def entriesOf (document : Entry) (key : String) : List Entry :=
  match item document key with
  | .arr js => js.filterMap asObj
  | _ => []

/-- The outcomes of a document that failed. -/
def failures (outcomes : List Entry) : List Entry :=
  outcomes.filter fun o => asBool (item o "passed") == some false

/-- An outcome repeats its definition. -/
def Repeats (d o : Entry) : Prop :=
  ∀ key ∈ ["invariant_id", "kind", "phase", "expected"], item o key = item d key

section Consistency

variable (shown : Shown)

/-- The id of an entry, as the admission reads it. -/
def idOf (fs : Entry) : PyStr := shown.text (item fs "invariant_id")

/-- The outcomes with the id of a definition. -/
def outcomesFor (outcomes : List Entry) (d : Entry) : List Entry :=
  outcomes.filter fun o => idOf shown o = idOf shown d

/-- Both counters of a document are those of its outcomes. -/
structure CountersRight (document : Entry) : Prop where
  evaluated : item document "evaluated_count" = .int (entriesOf document "outcomes").length
  failed : item document "failed_count" = .int (failures (entriesOf document "outcomes")).length

/-- The definitions, the outcomes and the summary of a document agree. -/
structure SelfConsistent (document : Entry) : Prop where
  definitionIds : ((entriesOf document "definitions").map (idOf shown)).Nodup
  outcomeIds : ((entriesOf document "outcomes").map (idOf shown)).Nodup
  /-- Each definition has exactly one outcome, which repeats it. -/
  matched : ∀ d ∈ entriesOf document "definitions",
    ∃ o, outcomesFor shown (entriesOf document "outcomes") d = [o] ∧ Repeats d o
  counters : CountersRight document
  overall : item document "overall" = text "PASS" ↔
    ∀ o ∈ entriesOf document "outcomes", item o "passed" = .bool true

/-- What the admission does not check is right: no id is declared twice, an outcome with the id of a
definition repeats the definition, and the counters are those of the outcomes. -/
structure TakenOnTrust (document : Entry) : Prop where
  definitionIds : ((entriesOf document "definitions").map (idOf shown)).Nodup
  repeated : ∀ d ∈ entriesOf document "definitions", ∀ o ∈ entriesOf document "outcomes",
    idOf shown o = idOf shown d → Repeats d o
  counters : CountersRight document

end Consistency

/-! ### What the checks establish -/

section Checks

variable {shown : Shown} {limit : ℕ} {content : Bytes} {document : Entry}

theorem filterMap_asObj (fss : List Entry) : (fss.map PyJson.obj).filterMap asObj = fss := by
  induction fss with
  | nil => rfl
  | cons fs fss ih =>
      have hfs : asObj (.obj fs) = some fs := rfl
      rw [List.map_cons, List.filterMap_cons_some hfs, ih]

theorem entriesOf_arr {key : String} {fss : List Entry}
    (h : item document key = .arr (fss.map .obj)) : entriesOf document key = fss := by
  rw [entriesOf, h]
  exact filterMap_asObj fss

theorem canonicalOutcome_eq_ok {j : PyJson} {fs : Entry} (h : canonicalOutcome shown j = .ok fs) :
    j = .obj fs := by
  obtain ⟨gs, hgs, h⟩ := Py.bind_ok h
  obtain ⟨_, -, h⟩ := Py.bind_ok h
  obtain rfl : gs = fs := Except.ok.inj h
  exact (entryOf_eq_ok.1 hgs).1

theorem map_canonicalOutcome {outcomes : List PyJson} {fss : List Entry}
    (h : outcomes.mapM (canonicalOutcome shown) = .ok fss) : fss.map .obj = outcomes := by
  have hall := Py.mapM_ok h
  clear h
  induction hall with
  | nil => rfl
  | cons hj _ ih => rw [List.map_cons, ih, canonicalOutcome_eq_ok hj]

theorem outcomePassed_eq_ok {fs : Entry} {passed : Bool}
    (h : outcomePassed shown fs = .ok passed) : item fs "passed" = .bool passed := by
  obtain ⟨_, -, h⟩ := Py.bind_ok h
  obtain ⟨_, -, h⟩ := Py.bind_ok h
  cases hitem : item fs "passed" with
  | bool b =>
      rw [hitem] at h
      rw [Except.ok.inj h]
  | _ => rw [hitem] at h; cases h

theorem textWith_eq_ok {p : PyStr → Bool} {message : String} {j : PyJson} {s : PyStr}
    (h : textWith p message j = .ok s) : j = .str s := by
  unfold textWith at h
  split at h
  · split_ifs at h
    rw [Except.ok.inj h]
  · cases h

theorem documentParts_eq_ok {definitions outcomes : List PyJson} {digest overall : PyStr}
    (h : documentParts shown document = .ok (definitions, outcomes, digest, overall)) :
    item document "definitions" = .arr definitions ∧ item document "outcomes" = .arr outcomes ∧
      item document "overall" = .str overall := by
  obtain ⟨_, -, h⟩ := Py.bind_ok h
  obtain ⟨_, hdefinitions, h⟩ := Py.bind_ok h
  obtain ⟨_, houtcomes, h⟩ := Py.bind_ok h
  obtain ⟨_, -, h⟩ := Py.bind_ok h
  obtain ⟨_, hoverall, h⟩ := Py.bind_ok h
  cases h
  exact ⟨nonEmptyList_eq_ok hdefinitions, nonEmptyList_eq_ok houtcomes, textWith_eq_ok hoverall⟩

/-- What the checks of an admitted document establish. -/
structure Checked (shown : Shown) (document : Entry) (ds os : List Entry) (bs : List Bool) :
    Prop where
  definitions : entriesOf document "definitions" = ds
  outcomes : entriesOf document "outcomes" = os
  ids : (ds.map (idOf shown)).Perm (os.map (idOf shown))
  passed : List.Forall₂ (fun o b => item o "passed" = PyJson.bool b) os bs
  overall : item document "overall" = text (computedOverall bs)

theorem admitReport_parts {report : AdmittedReport}
    (hparsed : parsedReport shown limit content = .ok document)
    (h : admitReport shown limit content = .ok report) :
    ∃ passed, Checked shown document report.definitions report.outcomes passed := by
  rw [admitReport, hparsed, Py.ok_bind] at h
  obtain ⟨⟨definitions, outcomes, digest, overall⟩, hparts, h⟩ := Py.bind_ok h
  obtain ⟨fss, hfss, h⟩ := Py.bind_ok h
  obtain ⟨oss, hoss, h⟩ := Py.bind_ok h
  cases h
  obtain ⟨hdefinitions, houtcomes, hoverall⟩ := documentParts_eq_ok hparts
  obtain ⟨_, hcanonical, hfss⟩ := Py.bind_ok hfss
  obtain ⟨_, -, hfss⟩ := Py.bind_ok hfss
  obtain ⟨_, -, hfss⟩ := Py.bind_ok hfss
  cases hfss
  obtain ⟨_, hcanonical', hoss⟩ := Py.bind_ok hoss
  obtain ⟨_, hids, hoss⟩ := Py.bind_ok hoss
  obtain ⟨passed, hpassed, hoss⟩ := Py.bind_ok hoss
  obtain ⟨_, hstatus, hoss⟩ := Py.bind_ok hoss
  cases hoss
  rw [require_eq_ok, decide_eq_true_iff] at hids hstatus
  refine ⟨passed, ?_, ?_, ?_, ?_, ?_⟩
  · rw [← map_canonicalDefinition hcanonical] at hdefinitions
    exact entriesOf_arr hdefinitions
  · rw [← map_canonicalOutcome hcanonical'] at houtcomes
    exact entriesOf_arr houtcomes
  · have hdefinitionIds : (sortedIds shown fss).Perm (fss.map (idOf shown)) :=
      List.perm_insertionSort _ _
    have houtcomeIds : (sortedIds shown oss).Perm (oss.map (idOf shown)) :=
      List.perm_insertionSort _ _
    exact hdefinitionIds.symm.trans (hids ▸ houtcomeIds)
  · exact (Py.mapM_ok hpassed).imp fun _ _ => outcomePassed_eq_ok
  · rw [hoverall, ← hstatus, text]

end Checks

/-! ### The condition -/

section Condition

variable {shown : Shown} {document : Entry} {definitions outcomes : List Entry}
  {passed : List Bool}

theorem forall_passed_iff
    (h : List.Forall₂ (fun o b => item o "passed" = PyJson.bool b) outcomes passed) :
    (passed.all id) = true ↔ ∀ o ∈ outcomes, item o "passed" = .bool true := by
  induction h with
  | nil => simp
  | cons ho _ ih => simp [ih, ho]

theorem computedOverall_eq_pass {bs : List Bool} :
    text (computedOverall bs) = text "PASS" ↔ bs.all id = true := by
  unfold computedOverall
  split_ifs with h
  · simp [h]
  · simp [h, text, PyJson.PyStr_of_injective.eq_iff]

theorem Checked.outcomesFor_length (h : Checked shown document definitions outcomes passed)
    (hids : (definitions.map (idOf shown)).Nodup) {d : Entry} (hd : d ∈ definitions) :
    (outcomesFor shown outcomes d).length = 1 := by
  have hnodup : (outcomes.map (idOf shown)).Nodup := h.ids.nodup_iff.1 hids
  have hmem : idOf shown d ∈ outcomes.map (idOf shown) :=
    h.ids.mem_iff.1 (List.mem_map_of_mem hd)
  have hcount := List.count_eq_one_of_mem hnodup hmem
  rw [List.count, List.countP_map, List.countP_eq_length_filter] at hcount
  rw [← hcount, outcomesFor]
  congr 1
  exact List.filter_congr fun o _ => (beq_eq_decide _ _).symm

/-- **A checked document is self-consistent exactly when what is taken on trust is right.** -/
theorem Checked.consistent_iff (h : Checked shown document definitions outcomes passed) :
    SelfConsistent shown document ↔ TakenOnTrust shown document := by
  constructor
  · intro hself
    refine ⟨hself.definitionIds, fun d hd o ho hid => ?_, hself.counters⟩
    obtain ⟨o', hfor, hrepeats⟩ := hself.matched d hd
    have hmem : o ∈ outcomesFor shown (entriesOf document "outcomes") d :=
      List.mem_filter.2 ⟨ho, decide_eq_true hid⟩
    rw [hfor, List.mem_singleton] at hmem
    rwa [hmem]
  · intro htrust
    have hids := htrust.definitionIds
    rw [h.definitions] at hids
    refine ⟨htrust.definitionIds, ?_, fun d hd => ?_, htrust.counters, ?_⟩
    · rw [h.outcomes]
      exact h.ids.nodup_iff.1 hids
    · have hlength := h.outcomesFor_length hids (h.definitions ▸ hd)
      obtain ⟨o, ho⟩ := List.length_eq_one_iff.1 hlength
      rw [h.outcomes]
      refine ⟨o, ho, ?_⟩
      have hmem : o ∈ outcomesFor shown outcomes d := by simp [ho]
      obtain ⟨hmem, hid⟩ := List.mem_filter.1 hmem
      exact htrust.repeated d hd o (h.outcomes ▸ hmem) (of_decide_eq_true hid)
    · rw [h.overall, h.outcomes, computedOverall_eq_pass]
      exact forall_passed_iff h.passed

end Condition

/-! ### Reports that were built -/

section Reports

variable {shown : Shown} {messages : Messages} {limit : ℕ} {l : List BusinessInvariant}
  {observation : InvariantObservation} {r : Report}

/-- What the entry of a declaration and the entry of its outcome both state. -/
def Heads (inv : BusinessInvariant) (fs : Entry) : Prop :=
  item fs "invariant_id" = text inv.invariantId ∧ item fs "kind" = text inv.kind.value ∧
    item fs "phase" = text inv.phase.value ∧ canonicalValue inv.expected = some (item fs "expected")

theorem Heads.repeats {inv : BusinessInvariant} {d o : Entry} (hd : Heads inv d)
    (ho : Heads inv o) : Repeats d o := by
  obtain ⟨hdid, hdkind, hdphase, hdexpected⟩ := hd
  obtain ⟨hoid, hokind, hophase, hoexpected⟩ := ho
  have hexpected : item o "expected" = item d "expected" :=
    Option.some.inj (hoexpected.symm.trans hdexpected)
  simp [Repeats, hdid, hoid, hdkind, hokind, hdphase, hophase, hexpected]

theorem toCanonicalDict_heads {inv : BusinessInvariant} {j : PyJson}
    (h : toCanonicalDict inv = some j) : ∃ fs, j = .obj fs ∧ Heads inv fs := by
  obtain ⟨expected, hexpected, hj⟩ := Option.map_eq_some_iff.1 h
  have hitem := item_dictOf (nodup_definitionEntries inv expected)
  refine ⟨_, hj.symm, hitem "invariant_id", hitem "kind", hitem "phase", ?_⟩
  rw [hexpected]
  exact congrArg some (hitem "expected").symm

theorem toDict_heads {inv : BusinessInvariant} {o : InvariantOutcome} {j : PyJson}
    (ho : evaluateOne messages limit inv observation = some o) (h : o.toDict = some j) :
    ∃ fs, j = .obj fs ∧ Heads inv fs ∧ item fs "passed" = .bool o.finding.passed := by
  obtain ⟨finding, -, rfl⟩ := Option.map_eq_some_iff.1 ho
  obtain ⟨expected, hexpected, h⟩ := Option.bind_eq_some_iff.1 h
  obtain ⟨observed, -, hj⟩ := Option.map_eq_some_iff.1 h
  have hitem := item_dictOf (nodup_outcomeEntries (outcome inv finding) expected observed)
  refine ⟨_, hj.symm, ⟨hitem "invariant_id", hitem "kind", hitem "phase", ?_⟩, hitem "passed"⟩
  rw [show canonicalValue inv.expected = some expected from hexpected]
  exact congrArg some (hitem "expected").symm

/-- The entries of declarations and of their outcomes, in the order of the declarations. -/
inductive Entered : List BusinessInvariant → List Entry → List Entry → List Bool → Prop
  | nil : Entered [] [] [] []
  | cons {inv : BusinessInvariant} {d o : Entry} {b : Bool} {l : List BusinessInvariant}
      {ds os : List Entry} {bs : List Bool} (definition : Heads inv d) (outcome : Heads inv o)
      (passed : item o "passed" = .bool b) (rest : Entered l ds os bs) :
      Entered (inv :: l) (d :: ds) (o :: os) (b :: bs)

section Lists

variable {ds os : List Entry} {bs : List Bool}

theorem Entered.ids (h : Entered l ds os bs) :
    ds.map (idOf shown) = l.map fun inv => PyStr.of inv.invariantId := by
  induction h with
  | nil => rfl
  | cons hd _ _ _ ih =>
      rw [List.map_cons, List.map_cons, ih, idOf, hd.1]
      rfl

theorem Entered.length (h : Entered l ds os bs) : os.length = bs.length := by
  induction h with
  | nil => rfl
  | cons _ _ _ _ ih => rw [List.length_cons, List.length_cons, ih]

theorem Entered.failures_length (h : Entered l ds os bs) :
    (failures os).length = bs.countP not := by
  induction h with
  | nil => rfl
  | @cons _ _ o b _ _ _ _ _ _ hpassed _ ih =>
      have hfound : asBool (item o "passed") = some b := by rw [hpassed]; rfl
      rw [failures] at ih ⊢
      rw [List.filter_cons, hfound]
      cases b <;> simp [ih]

theorem Entered.mem_ids (h : Entered l ds os bs) {o : Entry} (ho : o ∈ os) :
    idOf shown o ∈ ds.map (idOf shown) := by
  induction h with
  | nil => cases ho
  | @cons _ d o' _ _ _ _ _ hd ho' _ _ ih =>
      rw [List.map_cons, List.mem_cons]
      rcases List.mem_cons.1 ho with rfl | ho
      · exact .inl (by rw [idOf, idOf, ho'.1, hd.1])
      · exact .inr (ih ho)

theorem Entered.repeats (h : Entered l ds os bs) (hids : (ds.map (idOf shown)).Nodup) {d o : Entry}
    (hd : d ∈ ds) (ho : o ∈ os) (hid : idOf shown o = idOf shown d) : Repeats d o := by
  induction h with
  | nil => cases hd
  | @cons inv d' o' _ _ _ _ _ hdefinition houtcome _ rest ih =>
      rw [List.map_cons, List.nodup_cons] at hids
      have hsame : idOf shown o' = idOf shown d' := by rw [idOf, idOf, houtcome.1, hdefinition.1]
      rcases List.mem_cons.1 hd with rfl | hd <;> rcases List.mem_cons.1 ho with rfl | ho
      · exact hdefinition.repeats houtcome
      · exact absurd (hid ▸ rest.mem_ids ho) hids.1
      · exact absurd (hsame ▸ hid ▸ List.mem_map_of_mem hd) hids.1
      · exact ih hids.2 hd ho

end Lists

theorem entered_of_evaluated {js docs : List PyJson} {os : List InvariantOutcome}
    (hos : OutcomesOf messages limit observation l os)
    (hjs : List.Forall₂ (fun inv j => toCanonicalDict inv = some j) l js)
    (hdocs : List.Forall₂ (fun o j => InvariantOutcome.toDict o = some j) os docs) :
    ∃ ds es, js = ds.map .obj ∧ docs = es.map .obj ∧
      Entered l ds es (os.map fun o => o.finding.passed) := by
  induction hos generalizing js docs with
  | nil =>
      cases hjs
      cases hdocs
      exact ⟨[], [], rfl, rfl, .nil⟩
  | cons ho _ ih =>
      cases hjs with
      | cons hj hjs =>
        cases hdocs with
        | cons hdoc hdocs =>
          obtain ⟨ds, es, rfl, rfl, hrest⟩ := ih hjs hdocs
          obtain ⟨d, rfl, hd⟩ := toCanonicalDict_heads hj
          obtain ⟨e, rfl, he, hpassed⟩ := toDict_heads ho hdoc
          exact ⟨d :: ds, e :: es, rfl, rfl, .cons hd he hpassed hrest⟩

/-- **What the admission does not check is right in a report that was built.** -/
theorem Built.takenOnTrust (hbuilt : Built messages limit l observation r) (shown : Shown)
    {outcomes : List PyJson} (hdocs : r.outcomes.mapM InvariantOutcome.toDict = some outcomes) :
    TakenOnTrust shown (reportDocument r outcomes) := by
  obtain ⟨ds, es, hds, hes, hentered⟩ := entered_of_evaluated
    (evaluateInvariants_outcomes hbuilt.outcomes) (Py.mapM_some hbuilt.definitions)
    (Py.mapM_some hdocs)
  have hitem := item_dictOf (nodup_reportEntries r outcomes)
  have hdefinitions : entriesOf (reportDocument r outcomes) "definitions" = ds :=
    entriesOf_arr ((hitem "definitions").trans (congrArg PyJson.arr hds))
  have houtcomes : entriesOf (reportDocument r outcomes) "outcomes" = es :=
    entriesOf_arr ((hitem "outcomes").trans (congrArg PyJson.arr hes))
  have hnodup : ((sortedById l).map fun inv => PyStr.of inv.invariantId).Nodup := by
    have hids := evaluateInvariants_nodup hbuilt.outcomes
    have hperm : (sortedById l).Perm l := List.perm_insertionSort _ _
    have hsorted := ((hperm.map BusinessInvariant.invariantId).nodup_iff.2 hids).map
      PyJson.PyStr_of_injective
    rwa [List.map_map] at hsorted
  have hids : (ds.map (idOf shown)).Nodup := hentered.ids ▸ hnodup
  refine ⟨?_, ?_, ?_, ?_⟩
  · rwa [hdefinitions]
  · rw [hdefinitions, houtcomes]
    exact fun d hd o ho => hentered.repeats hids hd ho
  · rw [houtcomes, hentered.length, List.length_map]
    exact hitem "evaluated_count"
  · rw [houtcomes, hentered.failures_length, List.countP_map]
    exact hitem "failed_count"

/-! ### Counters -/

/-- The entries of a report with another number of evaluated invariants. -/
def recounted (r : Report) (outcomes : List PyJson) (n : ℤ) : List (String × PyJson) :=
  (reportEntries r outcomes).set 4 ("evaluated_count", .int n)

def recountedDocument (r : Report) (outcomes : List PyJson) (n : ℤ) : Entry :=
  PyJson.dictOf ((recounted r outcomes n).map fun e => (PyStr.of e.1, e.2))

theorem nodup_recounted (r : Report) (outcomes : List PyJson) (n : ℤ) :
    ((recounted r outcomes n).map Prod.fst).Nodup :=
  show ["schema_version", "definition_digest", "definitions", "overall", "evaluated_count",
    "failed_count", "outcomes"].Nodup by decide

theorem declares_recounted (r : Report) (outcomes : List PyJson) (n : ℤ) :
    Declares (recountedDocument r outcomes n) r outcomes := by
  have hitem := item_dictOf (nodup_recounted r outcomes n)
  exact ⟨hitem "schema_version", hitem "definition_digest", hitem "definitions", hitem "overall",
    hitem "outcomes"⟩

/-- **The number of evaluated invariants is not looked at**: a report that was written is admitted
with any number in its place. -/
theorem Built.admitted_recounted (hbuilt : Built messages limit l observation r) (shown : Shown)
    {bytes : Bytes} (hbytes : r.toBytes limit = some bytes) (n : ℤ)
    (hn : ∀ depth, PyJson.writable depth (.int n) = true) :
    ∃ outcomes content report,
      parsedReport shown limit content = .ok (recountedDocument r outcomes n) ∧
      admitReport shown limit content = .ok report := by
  obtain ⟨document, hdocument, hdumps⟩ := Option.bind_eq_some_iff.1 hbytes
  obtain ⟨outcomes, hdocs, rfl⟩ := Option.map_eq_some_iff.1 hdocument
  have hwritable : PyJson.writable limit (.obj (reportDocument r outcomes)) = true := by
    have hok := Py.toOption_eq_some.1 hdumps
    rw [canonicalJson, PyJson.dumps] at hok
    split_ifs at hok with hwritable
    exact hwritable
  cases limit with
  | zero => cases hwritable
  | succ depth =>
      have hentries := (writable_dict_iff (nodup_reportEntries r outcomes)).1 hwritable
      have hordered := hbuilt.ordered_reportEntries shown hdocs
      have hw : PyJson.writable (depth + 1) (dict (recounted r outcomes n)) = true := by
        refine writable_dict fun e he => ?_
        rcases List.mem_or_eq_of_mem_set he with he | rfl
        · exact hentries e he
        · exact hn depth
      have ho : (dict (recounted r outcomes n)).Ordered := by
        refine ordered_dict fun e he => ?_
        rcases List.mem_or_eq_of_mem_set he with he | rfl
        · exact hordered e he
        · trivial
      have hparsed : parsedReport shown (depth + 1) _ = .ok _ := parsedReport_dumps ho (if_pos hw)
      obtain ⟨report, hreport, -⟩ := hbuilt.admitted shown hdocs hparsed
        (declares_recounted r outcomes n)
      exact ⟨outcomes, _, report, hparsed, hreport⟩

end Reports

/-! ### Admitted documents -/

/-- **An admitted document is self-consistent exactly when what the admission does not check is
right.** -/
theorem selfConsistent_iff {shown : Shown} {document : Entry} {limit : ℕ} {content : Bytes} {report : AdmittedReport}
    (hparsed : parsedReport shown limit content = .ok document)
    (h : admitReport shown limit content = .ok report) :
    SelfConsistent shown document ↔ TakenOnTrust shown document := by
  obtain ⟨passed, hchecked⟩ := admitReport_parts hparsed h
  exact hchecked.consistent_iff

/-- The theorem at a report that was built. -/
theorem selfConsistent_iff_built : ∃ document, TakenOnTrust plainShown document ∧
    (SelfConsistent plainShown document ↔ TakenOnTrust plainShown document) := by
  obtain ⟨r, a, hbuilt, ha, -⟩ := built_expectsDecimal
  obtain ⟨outcomes, hdocs, hparsed⟩ := hbuilt.parsedReport_toBytes plainShown ha
  obtain ⟨report, hreport, -⟩ := admitReport_toBytes plainShown hbuilt ha
  exact ⟨_, hbuilt.takenOnTrust plainShown hdocs, selfConsistent_iff hparsed hreport⟩

/-- **A report that claims `-1` evaluated invariants is admitted.** -/
theorem recounted_not_selfConsistent : ∃ content document report,
    parsedReport plainShown 8 content = .ok document ∧
      admitReport plainShown 8 content = .ok report ∧ ¬SelfConsistent plainShown document := by
  obtain ⟨r, a, hbuilt, ha, -⟩ := built_expectsDecimal
  obtain ⟨outcomes, content, report, hparsed, hreport⟩ :=
    hbuilt.admitted_recounted plainShown ha (-1) fun _ => rfl
  refine ⟨content, _, report, hparsed, hreport, fun hself => ?_⟩
  have hitem : item (recountedDocument r outcomes (-1)) "evaluated_count" = .int (-1) :=
    item_dictOf (nodup_recounted r outcomes (-1)) "evaluated_count"
  have hcount := PyJson.int.inj (hitem.symm.trans hself.counters.evaluated)
  omega

end CobolJava.Business
