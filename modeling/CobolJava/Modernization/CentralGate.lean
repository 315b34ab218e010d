/-
**Soundness of the central gate.**

Which reports the central gate judges soundly, independently of the order of their records and
monotonically.  Records can share a dependency id, and only the first one of an id is kept; all three
laws hold exactly for the reports described by `Settled`.

Main definitions:

* `GateInput`, `GateInput.status` — a report with its evidence, and its central status;
* `Sound`, `OrderIndependent`, `Monotone` — the laws;
* `AllProvable`, `TwoFail`, `Hopeless`, `Settled` — the condition.

Main results:

* `status_eq_verified` — the status by the first record of each id;
* `exists_arrangement_iff` — when some order of the records is verified;
* `gateLaws_iff` — exactly the reports for which the laws hold.
-/

import CobolJava.Modernization.DependencyLedger

set_option autoImplicit false

namespace CobolJava.Modernization

open Kept (first)

variable {py : Py.Rendering}

/-! ### The laws -/

/-- What the central status of an application is computed from. -/
structure GateInput where
  components : Option (List ComponentCapability)
  extras : List DependencyLedgerEntry
  jclStatus : String
  runtime : RuntimeLaneEvidence
  generationSuccess : Bool
  deriving DecidableEq, Repr

namespace GateInput

def records (g : GateInput) : List ComponentCapability :=
  g.components.getD []

def ledger (py : Py.Rendering) (g : GateInput) : List DependencyLedgerEntry :=
  buildDependencyLedger py g.components g.runtime g.extras g.jclStatus

def status (py : Py.Rendering) (g : GateInput) : CentralStatus :=
  (evaluateCentralStatus (g.ledger py) g.runtime g.generationSuccess).1

end GateInput

/-- The component can be proven by the run: it is supported and of a kind with a runtime lane, and a
file needs a compared file and no mismatch. -/
def Provable (runtime : RuntimeLaneEvidence) (c : ComponentCapability) : Prop :=
  c.level = .supported ∧
    (∃ kind ∈ DependencyKind.runtimeProven, kindFor c.componentType = some kind) ∧
      (kindFor c.componentType = some .file →
        runtime.fileResults ≠ [] ∧ ∀ result ∈ runtime.fileResults, result = "MATCH")

def AllProvable (g : GateInput) : Prop :=
  (∀ c ∈ g.records, Provable g.runtime c) ∧
    (∀ x ∈ g.extras, x.required = true → x.proofState = .proven) ∧
      (g.jclStatus = "" ∨ g.jclStatus = "NOT_PRESENT")

/-- A verified application has only proven dependencies and evidence in order. -/
def Sound (py : Py.Rendering) (g : GateInput) : Prop :=
  g.status py = .verified → AllProvable g ∧ GateOpen g.runtime g.generationSuccess

/-- The order of the records does not matter. -/
def OrderIndependent (py : Py.Rendering) (g : GateInput) : Prop :=
  ∀ components extras, components.Perm g.records → extras.Perm g.extras →
    { g with components := some components, extras := extras }.status py = g.status py

/-- One more record does not open the gate. -/
def Monotone (py : Py.Rendering) (g : GateInput) : Prop :=
  g.ledger py ≠ [] → g.status py = .notVerified →
    (∀ before behind c, g.records = before ++ behind →
      { g with components := some (before ++ c :: behind) }.status py = .notVerified) ∧
    ∀ before behind x, g.extras = before ++ behind →
      { g with extras := before ++ x :: behind }.status py = .notVerified

/-! ### The condition -/

namespace GateInput

def componentEntries (py : Py.Rendering) (g : GateInput) : List DependencyLedgerEntry :=
  g.records.map (componentEntry py g.runtime)

def jclEntries (g : GateInput) : List DependencyLedgerEntry :=
  if jclPresent g.jclStatus then [jclLedgerEntry g.jclStatus] else []

/-- All records as entries, whether they are kept or not. -/
def entries (py : Py.Rendering) (g : GateInput) : List DependencyLedgerEntry :=
  g.componentEntries py ++ (g.extras ++ g.jclEntries)

/-- The records of an id one of which is kept: its components, or else its extra entries, or else the
entry of the JCL lane. -/
def leading (py : Py.Rendering) (g : GateInput) (id : String) : List DependencyLedgerEntry :=
  let own (entries : List DependencyLedgerEntry) := entries.filter fun e => e.dependencyId = id
  if own (g.componentEntries py) ≠ [] then own (g.componentEntries py)
  else if own g.extras ≠ [] then own g.extras
  else own g.jclEntries

end GateInput

/-- Two dependency ids are kept shut by their first records. -/
def TwoFail (py : Py.Rendering) (g : GateInput) : Prop :=
  ∃ id id' e e', id ≠ id' ∧
    first DependencyLedgerEntry.dependencyId (g.entries py) id = some e ∧ e.fails = true ∧
      first DependencyLedgerEntry.dependencyId (g.entries py) id' = some e' ∧ e'.fails = true

/-- One dependency stays unproven whichever of its leading records is kept. -/
def Hopeless (py : Py.Rendering) (g : GateInput) : Prop :=
  ∃ e ∈ g.entries py, ∀ f ∈ g.leading py e.dependencyId, f.fails = true

/-- The gate is shut by the run, there are no records, each of them is provable, or two ids fail and
one of them in every order. -/
def Settled (py : Py.Rendering) (g : GateInput) : Prop :=
  ¬ GateOpen g.runtime g.generationSuccess ∨ g.entries py = [] ∨ AllProvable g ∨
    (TwoFail py g ∧ Hopeless py g)

/-! ### The status -/

theorem entries_def (g : GateInput) :
    declaredEntries py g.components g.runtime g.extras g.jclStatus = g.entries py := rfl

theorem status_eq_verified (g : GateInput) :
    g.status py = .verified ↔ GateOpen g.runtime g.generationSuccess ∧ g.entries py ≠ [] ∧
      ∀ id e, first DependencyLedgerEntry.dependencyId (g.entries py) id = some e →
        e.fails = false := by
  rw [GateInput.status, evaluateCentralStatus_eq_verified, GateInput.ledger, buildDependencyLedger,
    entries_def, Ne, Kept.keepFirst_eq_nil, Kept.forall_keepFirst_iff]

theorem status_eq_notVerified (g : GateInput) :
    g.status py = .notVerified ↔ g.status py ≠ .verified := by
  cases g.status py <;> decide

/-- What can be proven by the run is proven when the gate is open. -/
theorem proofStateFor_of_provable {runtime : RuntimeLaneEvidence} {generationSuccess : Bool}
    (hopen : GateOpen runtime generationSuccess) {kind : DependencyKind}
    (hkind : kind ∈ DependencyKind.runtimeProven)
    (hfile : kind = .file →
      runtime.fileResults ≠ [] ∧ ∀ result ∈ runtime.fileResults, result = "MATCH") :
    (proofStateFor kind .supported runtime).1 = .proven := by
  have hknown : kind ≠ .unknown := by rintro rfl; exact absurd hkind (by decide)
  have hlane : kind ∉ DependencyKind.nonRuntime := by
    intro hmem
    revert hkind hmem
    cases kind <;> decide
  have hverdict : runtime.verdictIsVerified = true := decide_eq_true hopen.verdict
  rw [proofStateFor]
  rw [if_neg hknown, if_neg (by decide), if_neg (by decide), if_neg hlane,
    if_neg (by simp [hverdict]), if_neg (by simp [hopen.complete, hopen.integrity])]
  rw [if_neg fun h => (hfile h.1).1 h.2, if_neg]
  rintro ⟨rfl, hmismatched⟩
  refine hmismatched ?_
  have hnone : runtime.fileResults.filter (· ≠ "MATCH") = [] := by
    rw [List.filter_eq_nil_iff]
    intro result hresult
    simpa using (hfile rfl).2 result hresult
  rw [hnone]
  rfl

theorem fails_componentEntry {runtime : RuntimeLaneEvidence} {generationSuccess : Bool}
    (hopen : GateOpen runtime generationSuccess) {c : ComponentCapability}
    (h : Provable runtime c) : (componentEntry py runtime c).fails = false := by
  obtain ⟨hlevel, ⟨kind, hmem, hkind⟩, hfile⟩ := h
  have hproven := proofStateFor_of_provable hopen hmem fun hk => hfile (hk ▸ hkind)
  rw [← hlevel] at hproven
  simp only [componentEntry, hkind, DependencyLedgerEntry.fails, hproven]
  decide

theorem fails_jclLedgerEntry (jclStatus : String) : (jclLedgerEntry jclStatus).fails = true := by
  unfold jclLedgerEntry DependencyLedgerEntry.fails
  by_cases hfull : jclStatus = "FULL" <;> simp [hfull]

theorem fails_of_allProvable {g : GateInput} (hopen : GateOpen g.runtime g.generationSuccess)
    (h : AllProvable g) : ∀ e ∈ g.entries py, e.fails = false := by
  obtain ⟨hcomponents, hextras, hjcl⟩ := h
  have hnone : g.jclEntries = [] := by
    rw [GateInput.jclEntries, if_neg]
    rcases hjcl with hjcl | hjcl <;> rw [hjcl] <;> decide
  intro e he
  rw [GateInput.entries, hnone, List.append_nil] at he
  rcases List.mem_append.1 he with he | he
  · obtain ⟨c, hc, rfl⟩ := List.mem_map.1 he
    exact fails_componentEntry hopen (hcomponents c hc)
  · cases hrequired : e.required with
    | false => simp [DependencyLedgerEntry.fails, hrequired]
    | true => simp [DependencyLedgerEntry.fails, hextras e he hrequired]

/-! ### Orders of the records -/

/-- The report with its records in another order. -/
def GateInput.arranged (g : GateInput) (components : List ComponentCapability)
    (extras : List DependencyLedgerEntry) : GateInput :=
  { g with components := some components, extras := extras }

section Arranged

variable {g : GateInput} {components : List ComponentCapability}
  {extras : List DependencyLedgerEntry}

theorem mem_entries_arranged (hcomponents : components.Perm g.records)
    (hextras : extras.Perm g.extras) {e : DependencyLedgerEntry} :
    e ∈ (g.arranged components extras).entries py ↔ e ∈ g.entries py :=
  ((hcomponents.map _).append (hextras.append_right _)).mem_iff

/-- What is found first in some order is a leading record. -/
theorem mem_leading_of_first (hcomponents : components.Perm g.records)
    (hextras : extras.Perm g.extras) {id : String} {e : DependencyLedgerEntry}
    (h : first DependencyLedgerEntry.dependencyId ((g.arranged components extras).entries py) id =
      some e) : e ∈ g.leading py id := by
  have hid := Kept.first_key h
  have hown : (components.map (componentEntry py g.runtime)).Perm (g.componentEntries py) :=
    hcomponents.map _
  have hsplit : (g.arranged components extras).entries py =
      components.map (componentEntry py g.runtime) ++ (extras ++ g.jclEntries) := rfl
  rw [hsplit, Kept.first_append, Kept.first_append] at h
  -- nothing is found among records none of which has the id
  have hnone : ∀ {before records : List DependencyLedgerEntry}, before.Perm records →
      (records.filter fun e => e.dependencyId = id) = [] →
      first DependencyLedgerEntry.dependencyId before id = none := by
    intro before records hperm hempty
    refine List.find?_eq_none.2 fun a ha => ?_
    exact List.filter_eq_nil_iff.1 hempty a (hperm.mem_iff.1 ha)
  have hsome : ∀ {before records : List DependencyLedgerEntry}
      {rest : Option DependencyLedgerEntry}, before.Perm records →
      (records.filter fun e => e.dependencyId = id) ≠ [] →
      (first DependencyLedgerEntry.dependencyId before id).or rest = some e →
      e ∈ records.filter fun e => e.dependencyId = id := by
    intro before records rest hperm hne hfirst
    obtain ⟨a, ha⟩ := List.exists_mem_of_ne_nil _ hne
    obtain ⟨hmem, hkey⟩ := List.mem_filter.1 ha
    obtain ⟨b, hb⟩ := Kept.exists_first DependencyLedgerEntry.dependencyId
      (hperm.mem_iff.2 hmem)
    rw [of_decide_eq_true hkey] at hb
    rw [hb, Option.some_or] at hfirst
    obtain rfl := Option.some.inj hfirst
    exact List.mem_filter.2 ⟨hperm.mem_iff.1 (Kept.first_mem hb), decide_eq_true hid⟩
  unfold GateInput.leading
  dsimp only
  split
  · rename_i hne
    exact hsome hown hne h
  · rename_i hempty
    rw [hnone hown (not_not.1 hempty), Option.none_or] at h
    split
    · rename_i hne
      exact hsome hextras hne h
    · rename_i hempty'
      rw [hnone hextras (not_not.1 hempty'), Option.none_or] at h
      exact List.mem_filter.2 ⟨Kept.first_mem h, decide_eq_true hid⟩

end Arranged

/-- The records that pass in front of the ones that fail. -/
def passFirst {α : Type*} (fails : α → Bool) (records : List α) : List α :=
  records.filter (fun a => !fails a) ++ records.filter fun a => fails a

theorem passFirst_perm {α : Type*} (fails : α → Bool) (records : List α) :
    (passFirst fails records).Perm records := by
  have := List.filter_append_perm (fun a => !fails a) records
  simpa [passFirst] using this

theorem first_passFirst {records : List DependencyLedgerEntry} {e : DependencyLedgerEntry}
    (he : e ∈ records) (hpass : e.fails = false) :
    ∃ a, first DependencyLedgerEntry.dependencyId (passFirst DependencyLedgerEntry.fails records)
      e.dependencyId = some a ∧ a.fails = false := by
  obtain ⟨a, ha, hp⟩ := Kept.first_filter_append DependencyLedgerEntry.dependencyId
    (fun a => !a.fails) he (by simp [hpass])
  refine ⟨a, ?_, by simpa using hp⟩
  simpa [passFirst] using ha

/-- Some order of the records is verified exactly when no dependency stays unproven in every order. -/
theorem exists_arrangement_iff (g : GateInput) :
    (∃ components extras, components.Perm g.records ∧ extras.Perm g.extras ∧
      (g.arranged components extras).status py = .verified) ↔
      GateOpen g.runtime g.generationSuccess ∧ g.entries py ≠ [] ∧ ¬ Hopeless py g := by
  constructor
  · rintro ⟨components, extras, hcomponents, hextras, hverified⟩
    obtain ⟨hopen, hne, hfirst⟩ := (status_eq_verified _).1 hverified
    refine ⟨hopen, ?_, ?_⟩
    · intro hempty
      obtain ⟨e, he⟩ := List.exists_mem_of_ne_nil _ hne
      rw [mem_entries_arranged hcomponents hextras, hempty] at he
      exact absurd he (by simp)
    · rintro ⟨e, he, hfails⟩
      obtain ⟨f, hf⟩ := Kept.exists_first DependencyLedgerEntry.dependencyId
        ((mem_entries_arranged hcomponents hextras).2 he)
      have hpass := hfirst _ f hf
      rw [hfails f (mem_leading_of_first hcomponents hextras hf)] at hpass
      exact absurd hpass (by simp)
  · rintro ⟨hopen, hne, hhope⟩
    let fails : ComponentCapability → Bool := fun c => (componentEntry py g.runtime c).fails
    have hcomponents := passFirst_perm fails g.records
    have hextras := passFirst_perm DependencyLedgerEntry.fails g.extras
    refine ⟨_, _, hcomponents, hextras, (status_eq_verified _).2 ⟨hopen, ?_, ?_⟩⟩
    · obtain ⟨e, he⟩ := List.exists_mem_of_ne_nil _ hne
      exact List.ne_nil_of_mem ((mem_entries_arranged hcomponents hextras).2 he)
    · intro id e he
      have hentries : (passFirst fails g.records).map (componentEntry py g.runtime) =
          passFirst DependencyLedgerEntry.fails (g.componentEntries py) := by
        simp [passFirst, GateInput.componentEntries, List.filter_map, Function.comp_def, fails]
      have hsplit : (g.arranged (passFirst fails g.records)
          (passFirst DependencyLedgerEntry.fails g.extras)).entries py =
            passFirst DependencyLedgerEntry.fails (g.componentEntries py) ++
              (passFirst DependencyLedgerEntry.fails g.extras ++ g.jclEntries) := by
        rw [← hentries]
        rfl
      have hmem := (mem_entries_arranged hcomponents hextras).1 (Kept.first_mem he)
      have hid := Kept.first_key he
      -- a leading record of the id passes
      obtain ⟨f, hf, hpass⟩ : ∃ f ∈ g.leading py id, f.fails = false := by
        by_contra hall
        push Not at hall
        refine hhope ⟨e, hmem, fun f hf => ?_⟩
        rw [hid] at hf
        simpa using hall f hf
      rw [hsplit, Kept.first_append, Kept.first_append] at he
      have hnone : ∀ {records : List DependencyLedgerEntry},
          (records.filter fun e => e.dependencyId = id) = [] →
          first DependencyLedgerEntry.dependencyId
            (passFirst DependencyLedgerEntry.fails records) id = none := by
        intro records hempty
        refine List.find?_eq_none.2 fun a ha => ?_
        exact List.filter_eq_nil_iff.1 hempty a ((passFirst_perm _ _).mem_iff.1 ha)
      have hfound : ∀ {records : List DependencyLedgerEntry}
          {rest : Option DependencyLedgerEntry},
          f ∈ (records.filter fun e => e.dependencyId = id) →
          (first DependencyLedgerEntry.dependencyId
            (passFirst DependencyLedgerEntry.fails records) id).or rest = some e →
          e.fails = false := by
        intro records rest hfilter hfirst
        obtain ⟨hfmem, hkey⟩ := List.mem_filter.1 hfilter
        obtain ⟨a, ha, hap⟩ := first_passFirst hfmem hpass
        rw [of_decide_eq_true hkey] at ha
        rw [ha, Option.some_or] at hfirst
        obtain rfl := Option.some.inj hfirst
        exact hap
      unfold GateInput.leading at hf
      dsimp only at hf
      split at hf
      · exact hfound hf he
      · rename_i hempty
        rw [hnone (not_not.1 hempty), Option.none_or] at he
        split at hf
        · exact hfound hf he
        · rename_i hempty'
          -- the entry of the JCL lane never passes
          obtain ⟨hjcl, -⟩ := List.mem_filter.1 hf
          rw [GateInput.jclEntries] at hjcl
          split at hjcl
          · obtain rfl := List.mem_singleton.1 hjcl
            rw [fails_jclLedgerEntry] at hpass
            exact absurd hpass (by simp)
          · exact absurd hjcl (by simp)

/-! ### The laws hold exactly for settled reports -/

theorem status_of_not_open {g : GateInput} (h : ¬ GateOpen g.runtime g.generationSuccess) :
    g.status py = .notVerified := by
  rw [status_eq_notVerified, Ne, status_eq_verified]
  exact fun hverified => h hverified.1

theorem status_of_allProvable {g : GateInput} (hopen : GateOpen g.runtime g.generationSuccess)
    (hne : g.entries py ≠ []) (h : AllProvable g) : g.status py = .verified :=
  (status_eq_verified g).2 ⟨hopen, hne, fun _ e he =>
    fails_of_allProvable hopen h e (Kept.first_mem he)⟩

theorem status_insert_of_twoFail {g g' : GateInput} (h : TwoFail py g)
    {before behind : List DependencyLedgerEntry} (inserted : DependencyLedgerEntry)
    (hentries : g.entries py = before ++ behind)
    (hinserted : g'.entries py = before ++ inserted :: behind) : g'.status py = .notVerified := by
  obtain ⟨id, id', e, e', hne, he, hfails, he', hfails'⟩ := h
  rw [status_eq_notVerified, Ne, status_eq_verified]
  rintro ⟨-, -, hpass⟩
  rw [hentries] at he he'
  rw [hinserted] at hpass
  by_cases hid : inserted.dependencyId = id
  · have hother : inserted.dependencyId ≠ id' := fun heq => hne (hid.symm.trans heq)
    have := hpass id' e' ((Kept.first_insert_of_ne hother).trans he')
    rw [hfails'] at this
    exact absurd this (by simp)
  · have := hpass id e ((Kept.first_insert_of_ne hid).trans he)
    rw [hfails] at this
    exact absurd this (by simp)

theorem kindFor_program : kindFor "PROGRAM" = some .program := by
  decide

/-- A report that fails in one id only is verified with a supported program of that name in front. -/
theorem status_shadowed {g : GateInput} (hopen : GateOpen g.runtime g.generationSuccess)
    (htwo : ¬ TwoFail py g) {id : String} {e : DependencyLedgerEntry}
    (he : first DependencyLedgerEntry.dependencyId (g.entries py) id = some e)
    (hfails : e.fails = true) :
    { g with components := some (⟨id, "PROGRAM", .supported, ""⟩ :: g.records) }.status py =
      .verified := by
  let c : ComponentCapability := ⟨id, "PROGRAM", .supported, ""⟩
  have hprovable : Provable g.runtime c :=
    ⟨rfl, ⟨.program, by decide, kindFor_program⟩, fun h => absurd (kindFor_program.symm.trans h)
      (by decide)⟩
  have hid : (componentEntry py g.runtime c).dependencyId = id := rfl
  have hentries : { g with components := some (c :: g.records) }.entries py =
      [] ++ componentEntry py g.runtime c :: g.entries py := rfl
  refine (status_eq_verified _).2 ⟨hopen, by rw [hentries]; simp, fun id' f hf => ?_⟩
  rw [hentries] at hf
  by_cases hsame : id = id'
  · -- the program is found
    have hfound : first DependencyLedgerEntry.dependencyId
        ([] ++ componentEntry py g.runtime c :: g.entries py) id' =
          some (componentEntry py g.runtime c) := by
      simp [Kept.first, hid, hsame]
    obtain rfl := Option.some.inj (hfound.symm.trans hf)
    exact fails_componentEntry hopen hprovable
  · rw [Kept.first_insert_of_ne (hid ▸ hsame), List.nil_append] at hf
    by_contra hfail
    exact htwo ⟨id, id', e, f, hsame, he, hfails, hf, by simpa using hfail⟩

def GateLaws (py : Py.Rendering) (g : GateInput) : Prop :=
  Sound py g ∧ OrderIndependent py g ∧ Monotone py g

theorem gateLaws_of_shut {g : GateInput} (h : ¬ GateOpen g.runtime g.generationSuccess) :
    GateLaws py g := by
  have hnever : ∀ g' : GateInput, g'.runtime = g.runtime →
      g'.generationSuccess = g.generationSuccess → g'.status py = .notVerified :=
    fun g' hruntime hgeneration => status_of_not_open (by rwa [hruntime, hgeneration])
  refine ⟨fun hverified => ?_, fun _ _ _ _ => ?_, fun _ _ => ⟨fun _ _ _ _ => ?_, fun _ _ _ _ => ?_⟩⟩
  · exact absurd ((hnever g rfl rfl).symm.trans hverified) (by decide)
  · rw [hnever g rfl rfl]
    exact hnever _ rfl rfl
  · exact hnever _ rfl rfl
  · exact hnever _ rfl rfl

theorem gateLaws_of_empty {g : GateInput} (h : g.entries py = []) : GateLaws py g := by
  have hnot : ∀ g' : GateInput, g'.entries py = [] → g'.status py = .notVerified := by
    intro g' h
    rw [status_eq_notVerified, Ne, status_eq_verified]
    exact fun hverified => hverified.2.1 h
  refine ⟨fun hverified => ?_, fun components extras hcomponents hextras => ?_, fun hledger => ?_⟩
  · exact absurd ((hnot g h).symm.trans hverified) (by decide)
  · rw [hnot g h]
    refine hnot _ (List.eq_nil_iff_forall_not_mem.2 fun e he => ?_)
    rw [← GateInput.arranged, mem_entries_arranged hcomponents hextras, h] at he
    exact absurd he (by simp)
  · rw [GateInput.ledger, buildDependencyLedger, entries_def, Ne, Kept.keepFirst_eq_nil] at hledger
    exact absurd h hledger

theorem gateLaws_of_allProvable {g : GateInput} (h : AllProvable g) : GateLaws py g := by
  by_cases hopen : GateOpen g.runtime g.generationSuccess
  · by_cases hne : g.entries py = []
    · exact gateLaws_of_empty hne
    · have hverified := status_of_allProvable hopen hne h
      refine ⟨fun _ => ⟨h, hopen⟩, fun components extras hcomponents hextras => ?_,
        fun _ hnot => absurd (hnot.symm.trans hverified) (by decide)⟩
      rw [hverified]
      refine status_of_allProvable hopen ?_ ?_
      · obtain ⟨e, he⟩ := List.exists_mem_of_ne_nil _ hne
        exact List.ne_nil_of_mem ((mem_entries_arranged hcomponents hextras).2 he)
      · exact ⟨fun c hc => h.1 c (hcomponents.mem_iff.1 hc),
          fun x hx => h.2.1 x (hextras.mem_iff.1 hx), h.2.2⟩
  · exact gateLaws_of_shut hopen

/-- Two ids that fail keep the gate shut whatever is added. -/
theorem gateLaws_of_twoFail {g : GateInput} (htwo : TwoFail py g) (hhopeless : Hopeless py g) :
    GateLaws py g := by
  have hnot : g.status py = .notVerified := by
    obtain ⟨id, id', e, e', -, he, hfails, -⟩ := htwo
    rw [status_eq_notVerified, Ne, status_eq_verified]
    rintro ⟨-, -, hpass⟩
    rw [hpass id e he] at hfails
    exact absurd hfails (by simp)
  refine ⟨fun hverified => absurd (hnot.symm.trans hverified) (by decide),
    fun components extras hcomponents hextras => ?_, fun _ _ => ⟨?_, ?_⟩⟩
  · rw [hnot, status_eq_notVerified]
    intro hverified
    have := (exists_arrangement_iff g).1 ⟨components, extras, hcomponents, hextras, hverified⟩
    exact this.2.2 hhopeless
  · intro before behind c hrecords
    have hentries : g.entries py = before.map (componentEntry py g.runtime) ++
        (behind.map (componentEntry py g.runtime) ++ (g.extras ++ g.jclEntries)) := by
      rw [GateInput.entries, GateInput.componentEntries, hrecords, List.map_append,
        List.append_assoc]
    refine status_insert_of_twoFail htwo (componentEntry py g.runtime c) hentries ?_
    simp only [GateInput.entries, GateInput.componentEntries, GateInput.records, Option.getD_some,
      List.map_append, List.map_cons, List.append_assoc, List.cons_append]
    rfl
  · intro before behind x hextras
    have hentries : g.entries py = (g.componentEntries py ++ before) ++
        (behind ++ g.jclEntries) := by
      rw [GateInput.entries, hextras, List.append_assoc, List.append_assoc]
    refine status_insert_of_twoFail htwo x hentries ?_
    simp only [GateInput.entries, List.append_assoc, List.cons_append]
    rfl

/-- **The central gate.**  It is sound, independent of the order of the records and monotone exactly
for settled reports. -/
theorem gateLaws_iff (py : Py.Rendering) (g : GateInput) : GateLaws py g ↔ Settled py g := by
  constructor
  · rintro ⟨hsound, horder, hmono⟩
    by_contra hsettled
    simp only [Settled, not_or, not_not, not_and] at hsettled
    obtain ⟨hopen, hne, hprovable, htwo⟩ := hsettled
    have hnot : g.status py = .notVerified :=
      (status_eq_notVerified g).2 fun hverified => hprovable (hsound hverified).1
    have hhopeless : Hopeless py g := by
      by_contra hhope
      obtain ⟨components, extras, hcomponents, hextras, hverified⟩ :=
        (exists_arrangement_iff g).2 ⟨hopen, hne, hhope⟩
      have hsame := horder components extras hcomponents hextras
      exact absurd (hverified.symm.trans (hsame.trans hnot)) (by decide)
    have htwo' : ¬ TwoFail py g := fun h => htwo h hhopeless
    obtain ⟨id, e, he, hfails⟩ : ∃ id e, first DependencyLedgerEntry.dependencyId
        (g.entries py) id = some e ∧ e.fails = true := by
      by_contra hall
      push Not at hall
      refine (status_eq_notVerified g).1 hnot ((status_eq_verified g).2 ⟨hopen, hne, ?_⟩)
      exact fun id e he => by simpa using hall id e he
    have hledger : g.ledger py ≠ [] := by
      rw [GateInput.ledger, buildDependencyLedger, entries_def, Ne, Kept.keepFirst_eq_nil]
      exact hne
    -- a supported program takes the place of the one dependency that fails
    have hstays := (hmono hledger hnot).1 [] g.records ⟨id, "PROGRAM", .supported, ""⟩ rfl
    exact absurd (hstays.symm.trans (status_shadowed hopen htwo' he hfails)) (by decide)
  · rintro (hshut | hempty | hprovable | ⟨htwo, hhopeless⟩)
    · exact gateLaws_of_shut hshut
    · exact gateLaws_of_empty hempty
    · exact gateLaws_of_allProvable hprovable
    · exact gateLaws_of_twoFail htwo hhopeless

/-- Two `CALL` edges from one program to another, of which the second has the wrong number of
arguments. -/
def repeatedCall : GateInput where
  components := some [⟨"A->B", "CALL", .supported, ""⟩, ⟨"A->B", "CALL", .unsupported, ""⟩]
  extras := []
  jclStatus := "NOT_PRESENT"
  runtime := ⟨"VERIFIED", 1, true, true, [("STDOUT", "MATCH")]⟩
  generationSuccess := true

/-- The second record is not kept, and the application is verified. -/
theorem repeatedCall_not_sound : ¬ ∀ (py : Py.Rendering) (g : GateInput), GateLaws py g := by
  intro h
  have hverified : repeatedCall.status ⟨id, fun _ => ""⟩ = .verified := by
    decide +kernel
  have hprovable := ((h ⟨id, fun _ => ""⟩ repeatedCall).1 hverified).1.1
    ⟨"A->B", "CALL", .unsupported, ""⟩ (by decide)
  exact absurd hprovable.1 (by decide)

end CobolJava.Modernization
