/-
**The entry program of an application.**

The program both sides of a comparison enter: the service resolves a name
(`Service._resolve_entry_program`), the oracle selects a module by it (`DockerOracleAdapter.select_modules`),
and the Spring assembly selects a service by it (`_derive_entry_point`, `SpringBootGenerator`).  A module
holds one program; its `PROGRAM-ID` and its `CALL`s are data.

Main definitions:

* `Module` — a module with its file name, its program and the `CALL`s of it;
* `resolveEntryProgram`, `selectModules`, `assemble` — the service, the oracle and the assembly;
* `SameEntry` — the law: the assembly enters the program of the module the oracle enters.

Main results:

* `selectModules_of_declared`, `assemble_of_declared` — what an entry selects that names a program;
* `sameEntry_iff` — **the two enter the same program** exactly when the declared entry determines it, or
  the oracle falls back to no module;
* `defaultEntry_differs` — the module `main.cob` beside another program.
-/

import CobolJava.Transformation.JavaNames

set_option autoImplicit false

namespace CobolJava.Service.Entry

open Names Py.Chars

/-! ### Modules -/

/-- A `CALL` of a literal, or of a data item that holds the name. -/
structure Call where
  target : Text
  literal : Bool
  deriving DecidableEq

/-- `COBOL_SUFFIXES` -/
def cobolSuffixes : List Text := [".cob".toList, ".cbl".toList]

/-- A file of COBOL source with its program. -/
structure Module where
  stem : Text
  suffix : Text
  programId : Word
  calls : List Call
  suffix_cobol : lower suffix ∈ cobolSuffixes
  deriving DecidableEq

def Module.fileName (m : Module) : Text :=
  m.stem ++ m.suffix

/-! ### The service -/

/-- The programs of a discovered application, in the order of the names of their files. -/
def discovered (modules : List Module) : List Module :=
  modules.mergeSort fun a b => decide (a.fileName ≤ b.fileName)

/-- The keys of the targets of all calls. -/
def calledKeys (programs : List Module) : List Text :=
  ((programs.flatMap Module.calls).filter fun call => call.target ≠ []).map fun call =>
    serviceKey call.target

/-- The programs no `CALL` targets. -/
def roots (programs : List Module) : List Module :=
  programs.filter fun m => serviceKey m.programId.text ∉ calledKeys programs

/-- `_resolve_entry_program` -/
def resolveEntryProgram (modules : List Module) (javaEntrypoint : Text) : Text :=
  let declared := strip javaEntrypoint
  let programs := discovered modules
  if programs = [] then declared
  else
    match
        if declared = [] then none
        else Py.lastBy (fun m => serviceKey m.programId.text) programs (serviceKey declared) with
    | some m => m.programId.text
    | none =>
        match roots programs with
        | [root] => root.programId.text
        | _ => declared

/-! ### The oracle -/

/-- The modules in the order of the oracle: by suffix, then by name. -/
def listed (modules : List Module) : List Module :=
  cobolSuffixes.flatMap fun suffix =>
    (modules.filter fun m => lower m.suffix = suffix).mergeSort fun a b =>
      decide (lower a.fileName ≤ lower b.fileName)

/-- The entry the oracle looks for. -/
def wantedEntry (entryProgram : Text) : Text :=
  upper (stripChars ['\'', '"'] (strip entryProgram))

/-- `_read_static_call_targets` -/
def staticCallTargets (m : Module) : List Text :=
  (m.calls.filter fun call => call.literal && (call.target.head?.any Char.isAlphanum) &&
    call.target.all isWordChar).map fun call => upper call.target

/-- The file of a module bears the wanted name. -/
def Named (wanted : Text) (m : Module) : Prop :=
  lower m.fileName = lower wanted ∨ upper m.stem = wanted

instance (wanted : Text) : DecidablePred (Named wanted) := fun _ => inferInstanceAs (Decidable (_ ∨ _))

/-- `ENTRY_MODULE_MARKERS` -/
def entryModuleMarkers : List Text := ["main.cob".toList, "main.cbl".toList]

/-- The modules whose `PROGRAM-ID` no module calls by a literal. -/
def staticRoots (modules : List Module) : List Module :=
  modules.filter fun m => upper m.programId.text ∉ modules.flatMap staticCallTargets

/-- A selected module, with the modules to link. -/
def selected (modules : List Module) (m : Module) : Option Module × List Module :=
  (some m, modules.filter fun other => other.fileName ≠ m.fileName)

/-- `select_modules` -/
def selectModules (modules : List Module) (entryProgram : Text) : Option Module × List Module :=
  let modules := listed modules
  let wanted := wantedEntry entryProgram
  if wanted ≠ [] then
    match modules.filter fun m => upper m.programId.text = wanted with
    | [m] => selected modules m
    | _ :: _ :: _ => (none, modules)
    | [] =>
        match modules.find? fun m => Named wanted m with
        | some m => selected modules m
        | none => (none, modules)
  else
    match modules with
    | [] => (none, [])
    | [m] => (some m, [])
    | _ =>
        match modules.find? fun m => lower m.fileName ∈ entryModuleMarkers with
        | some m => selected modules m
        | none =>
            match staticRoots modules with
            | [m] => selected modules m
            | _ => (none, modules)

/-! ### The assembly -/

/-- `_derive_entry_point`: the service that is selected, or the empty name. -/
def selectedService (programs : List Module) (entryProgram : Text) : Text :=
  if entryProgram = [] then []
  else
    match programs.find? fun m => serviceKey m.programId.text = serviceKey entryProgram with
    | some m => toClassName m.programId.text
    | none => []

/-- The services of the programs by their names. -/
def serviceNames (programs : List Module) : List Text :=
  programs.map fun m => toClassName m.programId.text

/-- `_generate_entry_point`: the programs whose services the entry point runs. -/
def generateEntryPoint (programs : List Module) (selectedService : Text) : Option (List Module) :=
  let selected := strip selectedService
  if selected ≠ [] ∧ selected ∉ serviceNames programs then none
  else if selected ≠ [] then
    some (programs.filter fun m => toClassName m.programId.text = selected)
  else some programs

/-- The mapping of an application, which is refused when two services have one name, and its entry
point. -/
def assemble (modules : List Module) (entryProgram : Text) : Option (List Module) :=
  let programs := discovered modules
  if (serviceNames programs).Nodup then
    generateEntryPoint programs (selectedService programs entryProgram)
  else none

/-! ### The law -/

/-- The entry point runs the program of the module the oracle has selected, and no other. -/
def SameEntry (modules : List Module) (javaEntrypoint : Text) : Prop :=
  ∀ m active, (selectModules modules (resolveEntryProgram modules javaEntrypoint)).1 = some m →
    assemble modules (resolveEntryProgram modules javaEntrypoint) = some active → active = [m]

/-- The programs a declared entry names. -/
def declaredPrograms (modules : List Module) (javaEntrypoint : Text) : List Module :=
  modules.filter fun m => serviceKey m.programId.text = serviceKey javaEntrypoint

/-- An entry that names no program is the name of a file, or is blank while one module is marked by its
name or is the only one no other calls by a literal. -/
def FallsBack (modules : List Module) (javaEntrypoint : Text) : Prop :=
  if wantedEntry javaEntrypoint ≠ [] then ∃ m ∈ modules, Named (wantedEntry javaEntrypoint) m
  else (∃ m ∈ modules, lower m.fileName ∈ entryModuleMarkers) ∨ (staticRoots modules).length = 1

/-! ### Orders -/

variable {modules : List Module} {m p q : Module} {javaEntrypoint : Text}

theorem filter_eq_singleton {α β : Type*} {f : α → β} {P : α → Bool} {l : List α} {x : α}
    (hnodup : (l.map f).Nodup) (hx : x ∈ l) (hpx : P x = true)
    (h : ∀ y ∈ l, P y = true → f y = f x) : l.filter P = [x] := by
  induction l with
  | nil => cases hx
  | cons y rest ih =>
      rw [List.map_cons, List.nodup_cons] at hnodup
      obtain ⟨hy, hrest⟩ := hnodup
      rcases List.mem_cons.1 hx with rfl | hx
      · rw [List.filter_cons_of_pos hpx, List.filter_eq_nil_iff.2]
        intro z hz hpz
        exact hy (h z (List.mem_cons_of_mem _ hz) hpz ▸ List.mem_map_of_mem hz)
      · rw [List.filter_cons_of_neg, ih hrest hx fun z hz => h z (List.mem_cons_of_mem _ hz)]
        intro hpy
        exact hy (h y List.mem_cons_self hpy ▸ List.mem_map_of_mem hx)

theorem discovered_perm (modules : List Module) : (discovered modules).Perm modules :=
  List.mergeSort_perm _ _

theorem listed_perm (modules : List Module) : (listed modules).Perm modules := by
  have hcbl : ∀ m ∈ modules, decide (lower m.suffix = ".cbl".toList) =
      !decide (lower m.suffix = ".cob".toList) := by
    intro m _
    have hsuffix := m.suffix_cobol
    simp only [cobolSuffixes, List.mem_cons, List.not_mem_nil, or_false] at hsuffix
    rcases hsuffix with h | h
    · rw [h]
      decide
    · rw [h]
      decide
  have hsplit : listed modules =
      (modules.filter fun m => lower m.suffix = ".cob".toList).mergeSort
          (fun a b => decide (lower a.fileName ≤ lower b.fileName)) ++
        (modules.filter fun m => lower m.suffix = ".cbl".toList).mergeSort
          fun a b => decide (lower a.fileName ≤ lower b.fileName) := by
    simp [listed, cobolSuffixes]
  rw [hsplit, List.filter_congr hcbl]
  exact ((List.mergeSort_perm _ _).append (List.mergeSort_perm _ _)).trans
    (List.filter_append_perm _ _)

theorem serviceNames_perm {programs programs' : List Module} (h : programs.Perm programs') :
    (serviceNames programs).Perm (serviceNames programs') :=
  h.map _

theorem mem_calledKeys {programs : List Module} {key : Text} : key ∈ calledKeys programs ↔
    ∃ m ∈ programs, ∃ call ∈ m.calls, call.target ≠ [] ∧ serviceKey call.target = key := by
  simp only [calledKeys, List.mem_map, List.mem_filter, List.mem_flatMap, decide_eq_true_eq]
  constructor
  · rintro ⟨call, ⟨⟨m, hm, hcall⟩, htarget⟩, hkey⟩
    exact ⟨m, hm, call, hcall, htarget, hkey⟩
  · rintro ⟨m, hm, call, hcall, htarget, hkey⟩
    exact ⟨call, ⟨⟨m, hm, hcall⟩, htarget⟩, hkey⟩

theorem roots_perm {programs programs' : List Module} (h : programs.Perm programs') :
    (roots programs).Perm (roots programs') := by
  have hcalled : ∀ key, key ∈ calledKeys programs ↔ key ∈ calledKeys programs' := by
    intro key
    simp only [mem_calledKeys, h.mem_iff]
  simp only [roots, hcalled]
  exact h.filter _

theorem staticRoots_perm {programs programs' : List Module} (h : programs.Perm programs') :
    (staticRoots programs).Perm (staticRoots programs') := by
  have hcalled : ∀ target, target ∈ programs.flatMap staticCallTargets ↔
      target ∈ programs'.flatMap staticCallTargets := by
    intro target
    simp only [List.mem_flatMap, h.mem_iff]
  simp only [staticRoots, hcalled]
  exact h.filter _

/-! ### Entries that name a program -/

theorem wantedEntry_word (w : Word) : wantedEntry w.text = upper w.text := by
  have hword : ∀ c ∈ w.text, Py.isSpace c = false ∧ c ∉ ['\'', '"'] := by
    intro c hc
    have hchar := w.wordChar hc
    simp only [isWordChar, Bool.or_eq_true, beq_iff_eq] at hchar
    rcases hchar with (hc | rfl) | rfl
    · have hsep := isSeparator_of_isAlphanum hc
      simp only [isSeparator, Bool.or_eq_false_iff, beq_eq_false_iff_ne] at hsep
      exact ⟨hsep.1.1.1.2, by simp [hsep.1.1.2, hsep.1.2]⟩
    · decide
    · decide
  rw [wantedEntry, strip_eq_self fun c hc => (hword c hc).1,
    stripChars_eq_self fun c hc => (hword c hc).2]

theorem selectModules_of_mem (hnodup : (serviceNames modules).Nodup) (hp : p ∈ modules) :
    (selectModules modules p.programId.text).1 = some p := by
  have hwanted : wantedEntry p.programId.text ≠ [] := by
    rw [wantedEntry_word, upper, ne_eq, List.map_eq_nil_iff]
    exact p.programId.text_ne_nil
  have hperm := listed_perm modules
  have hone : ((listed modules).filter fun m =>
      upper m.programId.text = wantedEntry p.programId.text) = [p] := by
    refine filter_eq_singleton (f := fun m : Module => toClassName m.programId.text)
      ((serviceNames_perm hperm).nodup_iff.2 hnodup) (hperm.mem_iff.2 hp) ?_ ?_
    · rw [wantedEntry_word]
      exact decide_eq_true rfl
    · intro m _ hm
      rw [wantedEntry_word] at hm
      exact toClassName_eq_of_upper_eq (of_decide_eq_true hm)
  simp only [selectModules, if_pos hwanted, hone, selected]

/-- The assembly runs the first program of the key. -/
theorem assemble_of_find (hnodup : (serviceNames modules).Nodup) (w : Word)
    (hq : (discovered modules).find? (fun m => serviceKey m.programId.text = serviceKey w.text) =
      some q) : assemble modules w.text = some [q] := by
  have hperm := discovered_perm modules
  have hnodup' : (serviceNames (discovered modules)).Nodup :=
    (serviceNames_perm hperm).nodup_iff.2 hnodup
  have hmem := List.mem_of_find?_eq_some hq
  have hname : toClassName q.programId.text ∈ serviceNames (discovered modules) :=
    List.mem_map_of_mem (f := fun m => toClassName m.programId.text) hmem
  have hone : ((discovered modules).filter fun m =>
      toClassName m.programId.text = toClassName q.programId.text) = [q] :=
    filter_eq_singleton hnodup' hmem (decide_eq_true rfl) fun _ _ h => of_decide_eq_true h
  simp only [assemble, if_pos hnodup', selectedService, if_neg w.text_ne_nil, hq,
    generateEntryPoint, strip_toClassName, hname, not_true_eq_false, and_false, if_false, ne_eq,
    toClassName_ne_nil, not_false_eq_true, if_true, hone]

/-! ### Resolution -/

theorem wantedEntry_strip (entryProgram : Text) :
    wantedEntry (strip entryProgram) = wantedEntry entryProgram := by
  have hstrip : strip (strip entryProgram) = strip entryProgram := by
    rw [strip.eq_1 entryProgram, strip_rstrip, strip, lstrip, lstrip, List.dropWhile_idempotent]
  rw [wantedEntry, wantedEntry, hstrip]

theorem serviceKey_eq_of_wantedEntry {w : Word} (h : upper w.text = wantedEntry javaEntrypoint) :
    serviceKey w.text = serviceKey javaEntrypoint := by
  have hquotes : ∀ c ∈ ['\'', '"'], isSeparator c = true := by
    intro c hc
    rcases List.mem_pair.1 hc with rfl | rfl
    · simp [isSeparator]
    · simp [isSeparator]
  calc serviceKey w.text
      = serviceKey (stripChars ['\'', '"'] (strip javaEntrypoint)) := serviceKey_eq_of_upper_eq h
    _ = serviceKey javaEntrypoint := by rw [serviceKey_stripChars hquotes, serviceKey_strip]

theorem lastBy_eq_getLast? (modules : List Module) (key : Text) :
    Py.lastBy (fun m : Module => serviceKey m.programId.text) modules key =
      (modules.filter fun m => serviceKey m.programId.text = key).getLast? := by
  rw [Py.lastBy, ← List.head?_filter, List.filter_reverse, List.head?_reverse]

/-- An entry that names programs is resolved to the last of them. -/
theorem resolveEntryProgram_of_declared (h : declaredPrograms modules javaEntrypoint ≠ []) :
    ∃ p, (declaredPrograms (discovered modules) javaEntrypoint).getLast? = some p ∧
      resolveEntryProgram modules javaEntrypoint = p.programId.text := by
  have hperm : (declaredPrograms (discovered modules) javaEntrypoint).Perm
      (declaredPrograms modules javaEntrypoint) := (discovered_perm modules).filter _
  have hne : declaredPrograms (discovered modules) javaEntrypoint ≠ [] :=
    fun hnil => h (List.perm_nil.1 (hnil ▸ hperm.symm))
  obtain ⟨p, hp⟩ := Option.isSome_iff_exists.1 (List.getLast?_isSome.2 hne)
  have hmem := List.mem_filter.1 (List.mem_of_getLast? hp)
  have hdeclared : strip javaEntrypoint ≠ [] := by
    intro hnil
    have hkey := of_decide_eq_true hmem.2
    rw [← serviceKey_strip javaEntrypoint, hnil] at hkey
    exact serviceKey_ne_nil p.programId hkey
  refine ⟨p, hp, ?_⟩
  have hlast : Py.lastBy (fun m : Module => serviceKey m.programId.text) (discovered modules)
      (serviceKey (strip javaEntrypoint)) = some p := by
    rw [lastBy_eq_getLast?, serviceKey_strip]
    exact hp
  simp only [resolveEntryProgram, if_neg (List.ne_nil_of_mem hmem.1), if_neg hdeclared, hlast]

theorem resolveEntryProgram_of_undeclared (h : declaredPrograms modules javaEntrypoint = []) :
    resolveEntryProgram modules javaEntrypoint =
      match roots (discovered modules) with
      | [root] => root.programId.text
      | _ => strip javaEntrypoint := by
  have hnone : Py.lastBy (fun m : Module => serviceKey m.programId.text) (discovered modules)
      (serviceKey (strip javaEntrypoint)) = none := by
    have hperm : (declaredPrograms (discovered modules) javaEntrypoint).Perm [] :=
      h ▸ (discovered_perm modules).filter _
    rw [lastBy_eq_getLast?, serviceKey_strip]
    exact List.getLast?_eq_none_iff.2 (List.perm_nil.1 hperm)
  by_cases hprograms : discovered modules = []
  · simp [resolveEntryProgram, hprograms, roots]
  · simp only [resolveEntryProgram, if_neg hprograms, hnone, ite_self]

/-! ### Entries that name no program -/

theorem mem_of_selectModules {entryProgram : Text}
    (h : (selectModules modules entryProgram).1 = some m) : m ∈ modules := by
  rw [← (listed_perm modules).mem_iff]
  simp only [selectModules] at h
  split_ifs at h
  · split at h
    · rename_i a ha
      obtain rfl := Option.some.inj h
      exact (List.mem_filter.1 (ha ▸ List.mem_singleton_self a)).1
    · cases h
    · split at h
      · rename_i a ha
        obtain rfl := Option.some.inj h
        exact List.mem_of_find?_eq_some ha
      · cases h
  · split at h
    · cases h
    · rename_i a ha
      obtain rfl := Option.some.inj h
      exact ha ▸ List.mem_singleton_self a
    · split at h
      · rename_i a ha
        obtain rfl := Option.some.inj h
        exact List.mem_of_find?_eq_some ha
      · split at h
        · rename_i a ha
          obtain rfl := Option.some.inj h
          exact (List.mem_filter.1 (ha ▸ List.mem_singleton_self a)).1
        · cases h

/-- The oracle selects a module for an entry that names no program when it falls back to one. -/
theorem selectModules_isSome_iff (hnone : declaredPrograms modules javaEntrypoint = [])
    (htwo : 2 ≤ modules.length) :
    (∃ m, (selectModules modules (strip javaEntrypoint)).1 = some m) ↔
      FallsBack modules javaEntrypoint := by
  have hperm := listed_perm modules
  by_cases hwanted : wantedEntry javaEntrypoint = []
  · -- the entry is blank
    have hroots := (staticRoots_perm hperm).length_eq
    obtain ⟨a, b, rest, hlist⟩ : ∃ a b rest, listed modules = a :: b :: rest := by
      have hlength := hperm.length_eq
      match hlist : listed modules with
      | [] | [_] => rw [hlist] at hlength; simp at hlength; omega
      | a :: b :: rest => exact ⟨a, b, rest, rfl⟩
    have hmarked : ((listed modules).find? fun m => lower m.fileName ∈ entryModuleMarkers) = none ↔
        ¬ ∃ m ∈ modules, lower m.fileName ∈ entryModuleMarkers := by
      rw [List.find?_eq_none]
      simp only [hperm.mem_iff, decide_eq_true_eq, not_exists, not_and]
    rw [FallsBack, if_neg (not_not.2 hwanted), ← hroots]
    simp only [selectModules, wantedEntry_strip, hwanted, ne_eq, not_true_eq_false, if_false]
    rw [hlist] at hmarked ⊢
    dsimp only
    cases hm : (a :: b :: rest).find? fun m => lower m.fileName ∈ entryModuleMarkers with
    | some m =>
        have hex : ∃ m ∈ modules, lower m.fileName ∈ entryModuleMarkers := by
          by_contra hno
          rw [hmarked.2 hno] at hm
          cases hm
        exact ⟨fun _ => .inl hex, fun _ => ⟨m, rfl⟩⟩
    | none =>
        rw [or_iff_right (hmarked.1 hm)]
        dsimp only
        split
        · rename_i m hm
          rw [hm]
          exact ⟨fun _ => rfl, fun _ => ⟨m, rfl⟩⟩
        · rename_i hne
          constructor
          · rintro ⟨m, hm⟩
            cases hm
          · intro hone
            obtain ⟨m, hm⟩ := List.length_eq_one_iff.1 hone
            exact absurd hm (hne m)
  · have hfilter : ((listed modules).filter fun m =>
        upper m.programId.text = wantedEntry javaEntrypoint) = [] := by
      refine List.filter_eq_nil_iff.2 fun m hm hupper => ?_
      have hkey := serviceKey_eq_of_wantedEntry (of_decide_eq_true hupper)
      have hmem : m ∈ declaredPrograms modules javaEntrypoint :=
        List.mem_filter.2 ⟨hperm.mem_iff.1 hm, decide_eq_true hkey⟩
      rw [hnone] at hmem
      cases hmem
    have hfind : (∃ m, ((listed modules).find? fun m => Named (wantedEntry javaEntrypoint) m) =
        some m) ↔ ∃ m ∈ modules, Named (wantedEntry javaEntrypoint) m := by
      rw [← Option.isSome_iff_exists, List.find?_isSome]
      simp only [hperm.mem_iff, decide_eq_true_eq]
    rw [FallsBack, if_pos hwanted, ← hfind]
    simp only [selectModules, wantedEntry_strip, if_pos hwanted, hfilter]
    cases hm : (listed modules).find? fun m => Named (wantedEntry javaEntrypoint) m <;> simp [selected]

/-- An entry that names no program selects no service. -/
theorem assemble_of_undeclared (hnodup : (serviceNames modules).Nodup)
    (hnone : declaredPrograms modules javaEntrypoint = []) :
    assemble modules (strip javaEntrypoint) = some (discovered modules) := by
  have hperm := discovered_perm modules
  have hfind : (discovered modules).find? (fun m =>
      serviceKey m.programId.text = serviceKey (strip javaEntrypoint)) = none := by
    rw [List.find?_eq_none, serviceKey_strip]
    intro m hm hkey
    have hmem : m ∈ declaredPrograms modules javaEntrypoint :=
      List.mem_filter.2 ⟨hperm.mem_iff.1 hm, hkey⟩
    rw [hnone] at hmem
    cases hmem
  have hselected : selectedService (discovered modules) (strip javaEntrypoint) = [] := by
    simp only [selectedService, hfind, ite_self]
  have hblank : strip [] = [] := rfl
  rw [assemble, if_pos ((serviceNames_perm hperm).nodup_iff.2 hnodup), hselected]
  simp [generateEntryPoint, hblank]

/-! ### The two entries -/

theorem nodup_of_assemble {entryProgram : Text} {active : List Module}
    (h : assemble modules entryProgram = some active) : (serviceNames modules).Nodup := by
  by_contra hdup
  rw [assemble, if_neg fun h => hdup ((serviceNames_perm (discovered_perm modules)).nodup_iff.1 h)] at h
  cases h

/-- The two enter one program when the entry names one. -/
theorem sameEntry_of_one (hone : (declaredPrograms modules javaEntrypoint).length = 1) :
    SameEntry modules javaEntrypoint := by
  intro m active hm hactive
  have hnodup := nodup_of_assemble hactive
  have hperm : (declaredPrograms (discovered modules) javaEntrypoint).Perm
      (declaredPrograms modules javaEntrypoint) := (discovered_perm modules).filter _
  obtain ⟨p, hp⟩ := List.length_eq_one_iff.1 hone
  have hdiscovered : declaredPrograms (discovered modules) javaEntrypoint = [p] :=
    List.perm_singleton.1 (hp ▸ hperm)
  have hne : declaredPrograms modules javaEntrypoint ≠ [] := by simp [hp]
  obtain ⟨p', hlast, hresolved⟩ := resolveEntryProgram_of_declared hne
  rw [hdiscovered] at hlast
  obtain rfl : p = p' := Option.some.inj hlast
  have hmem : p ∈ declaredPrograms modules javaEntrypoint := hp ▸ List.mem_singleton_self p
  have hkey := of_decide_eq_true (List.mem_filter.1 hmem).2
  rw [hresolved] at hm hactive
  rw [selectModules_of_mem hnodup (List.mem_filter.1 hmem).1] at hm
  rw [assemble_of_find (q := p) hnodup] at hactive
  · obtain rfl := Option.some.inj hm
    exact (Option.some.inj hactive).symm
  · rw [← List.head?_filter, hkey]
    exact congrArg List.head? hdiscovered

theorem resolveEntryProgram_eq_strip (hnone : declaredPrograms modules javaEntrypoint = [])
    (hroots : (roots modules).length ≠ 1) :
    resolveEntryProgram modules javaEntrypoint = strip javaEntrypoint := by
  rw [resolveEntryProgram_of_undeclared hnone]
  split
  · rename_i p hp
    have hlength := (roots_perm (discovered_perm modules)).length_eq
    rw [hp] at hlength
    exact absurd hlength.symm hroots
  · rfl

/-- The two enter one program when the entry names none and one program has no caller. -/
theorem sameEntry_of_root (hnone : declaredPrograms modules javaEntrypoint = [])
    (hroot : (roots modules).length = 1) : SameEntry modules javaEntrypoint := by
  intro m active hm hactive
  have hnodup := nodup_of_assemble hactive
  have hperm := discovered_perm modules
  obtain ⟨p, hp⟩ := List.length_eq_one_iff.1 ((roots_perm hperm).length_eq.trans hroot)
  have hresolved : resolveEntryProgram modules javaEntrypoint = p.programId.text := by
    rw [resolveEntryProgram_of_undeclared hnone, hp]
  have hmem : p ∈ discovered modules ∧
      serviceKey p.programId.text ∉ calledKeys (discovered modules) := by
    simpa [roots] using (hp ▸ List.mem_singleton_self p : p ∈ roots (discovered modules))
  obtain ⟨q, hq⟩ : ∃ q, (discovered modules).find? (fun m =>
      serviceKey m.programId.text = serviceKey p.programId.text) = some q := by
    rw [← Option.isSome_iff_exists, List.find?_isSome]
    exact ⟨p, hmem.1, decide_eq_true rfl⟩
  -- a program with the key of the root has no caller either
  have hqp : q = p := by
    have hkey : serviceKey q.programId.text = serviceKey p.programId.text := by
      simpa using List.find?_some hq
    have hqroot : q ∈ roots (discovered modules) := by
      simp only [roots, List.mem_filter, decide_eq_true_eq, hkey]
      exact ⟨List.mem_of_find?_eq_some hq, hmem.2⟩
    rw [hp] at hqroot
    exact List.mem_singleton.1 hqroot
  rw [hresolved] at hm hactive
  rw [selectModules_of_mem hnodup (hperm.mem_iff.1 hmem.1)] at hm
  rw [assemble_of_find hnodup p.programId hq, hqp] at hactive
  obtain rfl := Option.some.inj hm
  exact (Option.some.inj hactive).symm

/-- An application of one program is entered there. -/
theorem sameEntry_of_length_le_one (h : modules.length ≤ 1) : SameEntry modules javaEntrypoint := by
  intro m active hm hactive
  have hmem := mem_of_selectModules hm
  obtain ⟨p, rfl⟩ : ∃ p, modules = [p] := by
    match modules, h, hmem with
    | [p], _, _ => exact ⟨p, rfl⟩
  obtain rfl := List.mem_singleton.1 hmem
  have hdiscovered : discovered [m] = [m] := List.perm_singleton.1 (discovered_perm [m])
  have hnodup : (serviceNames [m]).Nodup := List.nodup_singleton _
  rw [assemble, hdiscovered, if_pos hnodup, generateEntryPoint] at hactive
  split_ifs at hactive with hrefused hselected
  · obtain rfl := Option.some.inj hactive
    have hname : strip (selectedService [m] (resolveEntryProgram [m] javaEntrypoint)) =
        toClassName m.programId.text := by
      by_contra hne
      exact hrefused ⟨hselected, fun hmem => hne (List.mem_singleton.1 hmem)⟩
    rw [hname]
    simp
  · exact (Option.some.inj hactive).symm

/-- The two enter different programs when the entry names several. -/
theorem not_sameEntry_of_several (hnodup : (serviceNames modules).Nodup)
    (hseveral : 2 ≤ (declaredPrograms modules javaEntrypoint).length) :
    ¬ SameEntry modules javaEntrypoint := by
  intro hsame
  have hperm : (declaredPrograms (discovered modules) javaEntrypoint).Perm
      (declaredPrograms modules javaEntrypoint) := (discovered_perm modules).filter _
  have hne : declaredPrograms modules javaEntrypoint ≠ [] := List.ne_nil_of_length_pos (by omega)
  obtain ⟨p, hlast, hresolved⟩ := resolveEntryProgram_of_declared hne
  have hmem := List.mem_filter.1 (hperm.mem_iff.1 (List.mem_of_getLast? hlast))
  have hkey := of_decide_eq_true hmem.2
  obtain ⟨q, r, rest, hlist⟩ : ∃ q r rest,
      declaredPrograms (discovered modules) javaEntrypoint = q :: r :: rest := by
    have hlength := hperm.length_eq
    match hlist : declaredPrograms (discovered modules) javaEntrypoint with
    | [] | [_] => rw [hlist] at hlength; simp at hlength; omega
    | q :: r :: rest => exact ⟨q, r, rest, rfl⟩
  have hfind : (discovered modules).find? (fun m =>
      serviceKey m.programId.text = serviceKey p.programId.text) = some q := by
    rw [← List.head?_filter, hkey]
    exact congrArg List.head? hlist
  have hqp := hsame p [q] (hresolved ▸ selectModules_of_mem hnodup hmem.1)
    (hresolved ▸ assemble_of_find hnodup p.programId hfind)
  obtain rfl : q = p := (List.cons.inj hqp).1
  -- the first and the last of several programs are one
  have hdistinct : (q :: r :: rest).Nodup := by
    have hmodules : modules.Nodup := hnodup.of_map _
    rw [← hlist]
    exact ((discovered_perm modules).nodup_iff.2 hmodules).filter _
  rw [hlist, List.getLast?_cons_cons] at hlast
  exact (List.nodup_cons.1 hdistinct).1 (List.mem_of_getLast? hlast)

theorem not_sameEntry_of_fallsBack (hnodup : (serviceNames modules).Nodup)
    (htwo : 2 ≤ modules.length) (hnone : declaredPrograms modules javaEntrypoint = [])
    (hroots : (roots modules).length ≠ 1) (hfalls : FallsBack modules javaEntrypoint) :
    ¬ SameEntry modules javaEntrypoint := by
  intro hsame
  have hresolved := resolveEntryProgram_eq_strip hnone hroots
  obtain ⟨m, hm⟩ := (selectModules_isSome_iff hnone htwo).2 hfalls
  -- the entry point runs all services
  have hall := hsame m _ (hresolved ▸ hm) (hresolved ▸ assemble_of_undeclared hnodup hnone)
  have hlength := (discovered_perm modules).length_eq
  rw [hall, List.length_singleton] at hlength
  omega

/-- **The oracle and the generated application enter one program** exactly when there is one program at
most, the application is refused, the declared entry names one program, or it names none and either one
program has no caller or the oracle does not fall back to a module. -/
theorem sameEntry_iff (modules : List Module) (javaEntrypoint : Text) :
    SameEntry modules javaEntrypoint ↔
      modules.length ≤ 1 ∨ ¬ (serviceNames modules).Nodup ∨
        (declaredPrograms modules javaEntrypoint).length = 1 ∨
          declaredPrograms modules javaEntrypoint = [] ∧
            ((roots modules).length = 1 ∨ ¬ FallsBack modules javaEntrypoint) := by
  constructor
  · intro hsame
    by_contra hno
    push Not at hno
    obtain ⟨htwo, hnodup, hdeclared, hnone⟩ := hno
    by_cases hnil : declaredPrograms modules javaEntrypoint = []
    · obtain ⟨hroots, hfalls⟩ := hnone hnil
      exact not_sameEntry_of_fallsBack hnodup htwo hnil hroots hfalls hsame
    · have hpos := List.length_pos_iff.2 hnil
      exact not_sameEntry_of_several hnodup (by omega) hsame
  · rintro (hone | hdup | hone | ⟨hnone, hroot | hfalls⟩)
    · exact sameEntry_of_length_le_one hone
    · intro m active _ hactive
      exact absurd (nodup_of_assemble hactive) hdup
    · exact sameEntry_of_one hone
    · exact sameEntry_of_root hnone hroot
    · by_cases hone : modules.length ≤ 1
      · exact sameEntry_of_length_le_one hone
      by_cases hroots : (roots modules).length = 1
      · exact sameEntry_of_root hnone hroots
      -- the oracle selects no module
      intro m active hm
      rw [resolveEntryProgram_eq_strip hnone hroots] at hm
      exact absurd ((selectModules_isSome_iff hnone (by omega)).1 ⟨m, hm⟩) hfalls

/-! ### The placeholder -/

def plainModule (stem : Text) (programId : Word) : Module where
  stem
  suffix := ".cob".toList
  programId
  calls := []
  suffix_cobol := by decide

/-- `main.cob` holds the program `DRIVER`, and `other.cob` the program `OTHER`. -/
def mainAndOther : List Module :=
  [plainModule "main".toList ⟨'D', "RIVER".toList, by decide, by decide +kernel⟩,
    plainModule "other".toList ⟨'O', "THER".toList, by decide, by decide +kernel⟩]

/-- The default entry `Main` names no program, but the file of one. -/
theorem defaultEntry_differs :
    ¬ ∀ (modules : List Module) (javaEntrypoint : Text), SameEntry modules javaEntrypoint := by
  intro hsame
  have hwanted : wantedEntry "Main".toList = "MAIN".toList := by decide +kernel
  have hsame := hsame mainAndOther "Main".toList
  refine not_sameEntry_of_fallsBack ?_ ?_ ?_ ?_ ?_ hsame
  · decide +kernel
  · decide
  · decide +kernel
  · decide +kernel
  · rw [FallsBack, hwanted, if_pos (by decide)]
    exact ⟨_, List.mem_cons_self, .inr (by decide +kernel)⟩

end CobolJava.Service.Entry
