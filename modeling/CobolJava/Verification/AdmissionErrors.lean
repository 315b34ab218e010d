/-
**What escapes the admission of a report.**

`admit_report` of `engine/verification/business_invariants.py` raises a `ValueError` for a report
that is malformed.  Other exceptions escape from three places: the JSON parser, the set lookups of
kinds, sources and phases, which fail on lists and dicts, and the digest of definitions that hold a
decimal.

Main definitions:

* `Business.Hashable`, `Business.Holds` — what can be looked up, and what is found;
* `Business.Parts` — the parts a document declares;
* `Business.Clear` — the bytes that reach none of the three places.

Main results:

* `Business.admission_failsClosed` — **admission raises only `ValueError`s exactly on such bytes**,
  and the comparator is inconclusive on malformed reports exactly as long as it comes to no others.
-/

import Mathlib
import CobolJava.Verification.ReportRoundTrip

set_option autoImplicit false

namespace CobolJava.Business

open Py (Bytes Exc OnlyValueError onlyValueError_ok onlyValueError_valueError onlyValueError_bind
  onlyValueError_mapM not_onlyValueError_declared)

/-! ### Lookups -/

/-- A value that is no list and no dict. -/
def Hashable : PyJson → Prop
  | .arr _ => False
  | .obj _ => False
  | _ => True

/-- The value is one of some texts. -/
def Holds (values : List String) (j : PyJson) : Prop := ∃ s ∈ values, j = text s

theorem require_onlyValueError (condition : Bool) (message : String) :
    OnlyValueError (require condition message) := by
  unfold require
  split_ifs
  · exact onlyValueError_ok _
  · exact onlyValueError_valueError _

theorem isOneOf_holds {values : List String} {j : PyJson} :
    isOneOf values j = .ok true ↔ Holds values j := by
  cases j with
  | str s =>
      simp only [isOneOf, Except.ok.injEq, List.contains_iff_mem, List.mem_map, Holds, text,
        PyJson.str.injEq]
      exact exists_congr fun t => and_congr_right fun _ => eq_comm
  | _ => simp [isOneOf, Holds, text]

theorem isOneOf_onlyValueError {values : List String} {j : PyJson} :
    OnlyValueError (isOneOf values j) ↔ Hashable j := by
  cases j with
  | arr xs => simpa [isOneOf, Hashable, unhashable] using not_onlyValueError_declared _ _
  | obj fs => simpa [isOneOf, Hashable, unhashable] using not_onlyValueError_declared _ _
  | _ => simpa [isOneOf, Hashable] using onlyValueError_ok _

section Fields

variable {shown : Shown} {values : List String} {message : String} {fs : Entry} {key : String}

theorem requireOneOf_eq_ok {u : Unit} :
    requireOneOf shown values message fs key = .ok u ↔ Holds values (item fs key) := by
  rw [requireOneOf, Py.bind_eq_ok_iff, ← isOneOf_holds]
  constructor
  · rintro ⟨found, hfound, hrequire⟩
    rw [hfound, require_eq_ok.1 hrequire]
  · exact fun h => ⟨true, h, rfl⟩

theorem requireOneOf_onlyValueError :
    OnlyValueError (requireOneOf shown values message fs key) ↔ Hashable (item fs key) := by
  rw [requireOneOf, onlyValueError_bind, isOneOf_onlyValueError]
  exact ⟨fun h => h.1, fun h => ⟨h, fun _ _ => require_onlyValueError _ _⟩⟩

theorem requireOneOf_bind {α : Type} {x : Except Exc α} :
    OnlyValueError (requireOneOf shown values message fs key >>= fun _ => x) ↔
      Hashable (item fs key) ∧ (Holds values (item fs key) → OnlyValueError x) := by
  rw [onlyValueError_bind, requireOneOf_onlyValueError]
  exact and_congr_right fun _ =>
    ⟨fun h hheld => h () (requireOneOf_eq_ok.2 hheld), fun h u hu => h (requireOneOf_eq_ok.1 hu)⟩

end Fields

/-! ### Entries -/

section Entries

variable {shown : Shown}

theorem entryOf_onlyValueError {what : String} {required : List String} {j : PyJson} :
    OnlyValueError (entryOf shown what required j) := by
  cases j with
  | obj fs =>
      refine onlyValueError_bind.2 ⟨require_onlyValueError _ _, fun _ _ => onlyValueError_ok _⟩
  | _ => exact onlyValueError_valueError _

theorem entryOf_eq_ok {what : String} {required : List String} {j : PyJson} {fs : Entry} :
    entryOf shown what required j = .ok fs ↔ j = .obj fs ∧ hasFields required fs = true := by
  constructor
  · intro h
    cases j with
    | obj gs =>
        obtain ⟨u, hu, h⟩ := Py.bind_ok h
        obtain rfl : gs = fs := Except.ok.inj h
        exact ⟨rfl, require_eq_ok.1 hu⟩
    | _ => cases h
  · rintro ⟨rfl, h⟩
    exact entryOf_fields shown what h

/-- The lookups of a definition that are come to are of values that can be looked up. -/
def DefinitionHashable (fs : Entry) : Prop :=
  Hashable (item fs "kind") ∧ (Holds kindValues (item fs "kind") →
    Hashable (item fs "source") ∧ (Holds sourceValues (item fs "source") →
      Hashable (item fs "phase")))

theorem canonicalDefinition_onlyValueError {j : PyJson} :
    OnlyValueError (canonicalDefinition shown j) ↔
      ∀ fs, j = .obj fs → hasFields definitionFields fs = true → DefinitionHashable fs := by
  rw [canonicalDefinition, onlyValueError_bind]
  simp only [requireOneOf_bind, entryOf_eq_ok, and_imp]
  constructor
  · intro h fs hj hfields
    obtain ⟨hkind, h⟩ := h.2 fs hj hfields
    exact ⟨hkind, fun hheld => ⟨(h hheld).1, fun hheld' => ((h hheld).2 hheld').1⟩⟩
  · intro h
    refine ⟨entryOf_onlyValueError, fun fs hj hfields => ?_⟩
    obtain ⟨hkind, h⟩ := h fs hj hfields
    exact ⟨hkind, fun hheld => ⟨(h hheld).1, fun hheld' =>
      ⟨(h hheld).2 hheld', fun _ => onlyValueError_ok _⟩⟩⟩

/-- The lookups of an outcome that are come to are of values that can be looked up. -/
def OutcomeHashable (fs : Entry) : Prop :=
  Hashable (item fs "phase") ∧
    (Holds phaseValues (item fs "phase") → Hashable (item fs "kind"))

theorem outcomePassed_onlyValueError {fs : Entry} :
    OnlyValueError (outcomePassed shown fs) ↔ OutcomeHashable fs := by
  rw [outcomePassed]
  simp only [requireOneOf_bind]
  refine and_congr_right fun _ => imp_congr_right fun _ => and_iff_left fun _ => ?_
  split
  · exact onlyValueError_ok _
  · exact onlyValueError_valueError _

theorem canonicalOutcome_onlyValueError {j : PyJson} :
    OnlyValueError (canonicalOutcome shown j) := by
  refine onlyValueError_bind.2 ⟨entryOf_onlyValueError, fun fs _ => ?_⟩
  exact onlyValueError_bind.2 ⟨require_onlyValueError _ _, fun _ _ => onlyValueError_ok _⟩

end Entries

/-! ### The parts of a report -/

section Reports

variable {shown : Shown} {limit : ℕ} {content : Bytes}

variable (shown limit content) in
/-- The parts that the document of a report declares. -/
def Parts (definitions outcomes : List PyJson) (digest overall : PyStr) : Prop :=
  ∃ document, parsedReport shown limit content = .ok document ∧
    documentParts shown document = .ok (definitions, outcomes, digest, overall)

theorem parsedReport_onlyValueError :
    OnlyValueError (parsedReport shown limit content) ↔
      ∀ written, Py.decode content = some written →
        PyJson.loads limit written ≠ .error .exponent ∧
          PyJson.loads limit written ≠ .error .depth := by
  unfold parsedReport
  split
  · next hnone =>
      simp only [hnone, reduceCtorEq, false_implies, implies_true, iff_true]
      exact onlyValueError_valueError _
  · next written hwritten =>
      simp only [hwritten, Option.some.injEq, forall_eq']
      split
      · next failure hfailure =>
          cases failure with
          | exponent => simpa [hfailure, loadError] using not_onlyValueError_declared _ _
          | depth => simpa [hfailure, loadError] using not_onlyValueError_declared _ _
          | _ => simpa [hfailure, loadError] using onlyValueError_valueError _
      · next fs hfs => simpa [hfs] using onlyValueError_ok _
      · next j hj => simpa [hj] using onlyValueError_valueError _

theorem nonEmptyList_onlyValueError (message : String) (j : PyJson) :
    OnlyValueError (nonEmptyList message j) := by
  unfold nonEmptyList
  split
  · exact onlyValueError_ok _
  · exact onlyValueError_valueError _

theorem textWith_onlyValueError (p : PyStr → Bool) (message : String) (j : PyJson) :
    OnlyValueError (textWith p message j) := by
  unfold textWith
  split
  · split_ifs
    · exact onlyValueError_ok _
    · exact onlyValueError_valueError _
  · exact onlyValueError_valueError _

theorem documentParts_onlyValueError (document : Entry) :
    OnlyValueError (documentParts shown document) := by
  refine onlyValueError_bind.2 ⟨require_onlyValueError _ _, fun _ _ => ?_⟩
  refine onlyValueError_bind.2 ⟨nonEmptyList_onlyValueError _ _, fun _ _ => ?_⟩
  refine onlyValueError_bind.2 ⟨nonEmptyList_onlyValueError _ _, fun _ _ => ?_⟩
  refine onlyValueError_bind.2 ⟨textWith_onlyValueError _ _ _, fun _ _ => ?_⟩
  exact onlyValueError_bind.2 ⟨textWith_onlyValueError _ _ _, fun _ _ => onlyValueError_ok _⟩

theorem parsedReport_eq_ok {document : Entry}
    (h : parsedReport shown limit content = .ok document) :
    ∃ written, Py.decode content = some written ∧
      PyJson.loads limit written = .ok (.obj document) := by
  unfold parsedReport at h
  split at h
  · cases h
  · next written hwritten =>
      split at h
      · cases h
      · next fs hfs =>
          cases h
          exact ⟨written, hwritten, hfs⟩
      · cases h

theorem nonEmptyList_eq_ok {message : String} {j : PyJson} {xs : List PyJson}
    (h : nonEmptyList message j = .ok xs) : j = .arr xs := by
  unfold nonEmptyList at h
  split at h <;> cases h
  rfl

theorem documentParts_definitions {document : Entry} {definitions outcomes : List PyJson}
    {digest overall : PyStr}
    (h : documentParts shown document = .ok (definitions, outcomes, digest, overall)) :
    item document "definitions" = .arr definitions := by
  obtain ⟨_, -, h⟩ := Py.bind_ok h
  obtain ⟨ds, hds, h⟩ := Py.bind_ok h
  obtain ⟨os, -, h⟩ := Py.bind_ok h
  obtain ⟨g, -, h⟩ := Py.bind_ok h
  obtain ⟨v, -, h⟩ := Py.bind_ok h
  obtain ⟨rfl, -⟩ := Prod.mk.inj (Except.ok.inj h)
  exact nonEmptyList_eq_ok hds

theorem item_mem {fs : Entry} {key : String} {v : PyJson} (h : item fs key = v) (hv : v ≠ .null) :
    (PyStr.of key, v) ∈ fs := by
  rw [item, PyJson.field] at h
  cases hfind : fs.find? fun f => decide (f.1 = PyStr.of key) with
  | none =>
      rw [hfind] at h
      exact absurd h.symm hv
  | some f =>
      rw [hfind] at h
      have hkey : f.1 = PyStr.of key := by simpa using List.find?_some hfind
      have hvalue : f.2 = v := h
      rw [← hkey, ← hvalue]
      exact List.mem_of_find?_eq_some hfind

theorem Parts.fits {definitions outcomes : List PyJson} {digest overall : PyStr}
    (h : Parts shown limit content definitions outcomes digest overall) :
    PyJson.fits limit (.arr definitions) = true := by
  obtain ⟨document, hdocument, hparts⟩ := h
  obtain ⟨written, -, hload⟩ := parsedReport_eq_ok hdocument
  have hfits := PyJson.fits_loads hload
  cases limit with
  | zero => cases hfits
  | succ depth =>
      have hfield := item_mem (documentParts_definitions hparts) nofun
      exact PyJson.fits_succ depth _ (PyJson.fitsFields_iff.1 hfits _ hfield)

/-! ### Definitions and outcomes -/

theorem digestOf_onlyValueError {definitions : List PyJson}
    (h : PyJson.fits limit (.arr definitions) = true) :
    OnlyValueError (digestOf limit definitions) ↔
      PyJson.hasDecimal (.arr definitions) = false := by
  have hmap : OnlyValueError (digestOf limit definitions) ↔
      OnlyValueError (canonicalJson limit (.arr definitions)) := by
    rw [digestOf]
    cases canonicalJson limit (.arr definitions) <;>
      simp [OnlyValueError, Except.map]
  rw [hmap, canonicalJson, PyJson.dumps]
  simp only [h, Bool.true_eq_false, if_false]
  split_ifs with hwritable hdecimal
  · refine iff_of_true (onlyValueError_ok _) ?_
    by_contra hdecimal
    rw [PyJson.writable_of_hasDecimal _ _ (by simpa using hdecimal)] at hwritable
    cases hwritable
  · simpa [hdecimal] using not_onlyValueError_declared _ _
  · simpa [hdecimal] using onlyValueError_valueError _

theorem canonicalDefinition_eq_ok {j : PyJson} {fs : Entry} :
    canonicalDefinition shown j = .ok fs → j = .obj fs := by
  intro h
  obtain ⟨gs, hgs, h⟩ := Py.bind_ok h
  obtain ⟨_, -, h⟩ := Py.bind_ok h
  obtain ⟨_, -, h⟩ := Py.bind_ok h
  obtain ⟨_, -, h⟩ := Py.bind_ok h
  obtain rfl : gs = fs := Except.ok.inj h
  exact (entryOf_eq_ok.1 hgs).1

theorem map_canonicalDefinition {definitions : List PyJson} {fss : List Entry}
    (h : definitions.mapM (canonicalDefinition shown) = .ok fss) : fss.map .obj = definitions := by
  have hall := Py.mapM_ok h
  clear h
  induction hall with
  | nil => rfl
  | @cons j fs _ _ hj _ ih => rw [List.map_cons, canonicalDefinition_eq_ok hj, ih]

/-- The checks pass on a definition. -/
def ValidDefinition (shown : Shown) (j : PyJson) : Prop :=
  ∃ fs, canonicalDefinition shown j = .ok fs

/-- The checks of definitions come to nothing that cannot be looked up or written. -/
structure DefinitionsClear (shown : Shown) (definitions : List PyJson) : Prop where
  /-- The first definition that is refused, and those before it, hold no list or dict where a text
  is looked up. -/
  hashable : ∀ pre j post, definitions = pre ++ j :: post → (∀ i ∈ pre, ValidDefinition shown i) →
    ∀ fs, j = .obj fs → hasFields definitionFields fs = true → DefinitionHashable fs
  /-- Definitions that are all valid hold no number with a fraction or an exponent. -/
  noDecimal : (∀ j ∈ definitions, ValidDefinition shown j) →
    PyJson.hasDecimal (.arr definitions) = false

theorem admitDefinitions_onlyValueError {definitions : List PyJson} {digest : PyStr}
    (h : PyJson.fits limit (.arr definitions) = true) :
    OnlyValueError (admitDefinitions shown limit definitions digest) ↔
      DefinitionsClear shown definitions := by
  rw [admitDefinitions, onlyValueError_bind, onlyValueError_mapM]
  simp only [canonicalDefinition_onlyValueError]
  have hdigest : ∀ fss, definitions.mapM (canonicalDefinition shown) = .ok fss →
      (OnlyValueError (do
        let recomputed ← digestOf limit (fss.map .obj)
        require (PyStr.of recomputed = digest)
          "business-invariant report definition_digest does not match its definitions"
        return fss) ↔ PyJson.hasDecimal (.arr definitions) = false) := by
    intro fss hfss
    rw [onlyValueError_bind, map_canonicalDefinition hfss, digestOf_onlyValueError h]
    refine and_iff_left fun _ _ => ?_
    exact onlyValueError_bind.2 ⟨require_onlyValueError _ _, fun _ _ => onlyValueError_ok _⟩
  constructor
  · rintro ⟨hhashable, hdecimal⟩
    refine ⟨hhashable, fun hvalid => ?_⟩
    obtain ⟨fss, hfss⟩ := Py.exists_mapM_ok hvalid
    exact (hdigest fss hfss).1 (hdecimal fss hfss)
  · intro hclear
    refine ⟨hclear.hashable, fun fss hfss => (hdigest fss hfss).2 (hclear.noDecimal ?_)⟩
    intro j hj
    obtain ⟨fs, -, hfs⟩ := Py.exists_of_mapM_ok hfss j hj
    exact ⟨fs, hfs⟩

/-- The checks of outcomes come to nothing that cannot be looked up: once their fields and ids are
in order, the first outcome that is refused, and those before it, hold no list or dict where a text
is looked up. -/
def OutcomesClear (shown : Shown) (outcomes : List PyJson) (definitions : List Entry) : Prop :=
  ∀ fss, outcomes.mapM (canonicalOutcome shown) = .ok fss →
    sortedIds shown definitions = sortedIds shown fss →
    ∀ pre fs post, fss = pre ++ fs :: post → (∀ gs ∈ pre, ∃ b, outcomePassed shown gs = .ok b) →
      OutcomeHashable fs

theorem admitOutcomes_onlyValueError {outcomes : List PyJson} {definitions : List Entry}
    {overall : PyStr} :
    OnlyValueError (admitOutcomes shown outcomes definitions overall) ↔
      OutcomesClear shown outcomes definitions := by
  have hshape : OnlyValueError (outcomes.mapM (canonicalOutcome shown)) :=
    onlyValueError_mapM.2 fun _ _ _ _ _ => canonicalOutcome_onlyValueError
  have hpassed : ∀ fss, OnlyValueError (do
      let passed ← fss.mapM (outcomePassed shown)
      require (PyStr.of (computedOverall passed) = overall)
        ("business-invariant report overall=" ++ shown.repr (.str overall) ++
          " contradicts its outcomes (" ++ computedOverall passed ++ ")")
      return fss) ↔ ∀ pre fs post, fss = pre ++ fs :: post →
        (∀ gs ∈ pre, ∃ b, outcomePassed shown gs = .ok b) → OutcomeHashable fs := by
    intro fss
    rw [onlyValueError_bind, onlyValueError_mapM]
    simp only [outcomePassed_onlyValueError]
    refine and_iff_left fun _ _ => ?_
    exact onlyValueError_bind.2 ⟨require_onlyValueError _ _, fun _ _ => onlyValueError_ok _⟩
  rw [admitOutcomes, onlyValueError_bind, and_iff_right hshape]
  refine forall_congr' fun fss => imp_congr_right fun _ => ?_
  rw [onlyValueError_bind, and_iff_right (require_onlyValueError _ _)]
  constructor
  · intro h hids
    exact (hpassed fss).1 (h () (require_eq_ok.2 (by simpa using hids)))
  · intro h u hu
    exact (hpassed fss).2 (h (by simpa using require_eq_ok.1 hu))

/-! ### Admission -/

/-- The bytes that come to none of the places an exception escapes from. -/
structure Clear (shown : Shown) (limit : ℕ) (content : Bytes) : Prop where
  /-- The text, if it is one, holds no number out of the range of decimals and is not nested too
  deep. -/
  loaded : ∀ written, Py.decode content = some written →
    PyJson.loads limit written ≠ .error .exponent ∧ PyJson.loads limit written ≠ .error .depth
  definitions : ∀ definitions outcomes digest overall,
    Parts shown limit content definitions outcomes digest overall →
    DefinitionsClear shown definitions
  outcomes : ∀ definitions outcomes digest overall,
    Parts shown limit content definitions outcomes digest overall →
    ∀ fss, admitDefinitions shown limit definitions digest = .ok fss →
      OutcomesClear shown outcomes fss

theorem admitReport_onlyValueError :
    OnlyValueError (admitReport shown limit content) ↔ Clear shown limit content := by
  rw [admitReport, onlyValueError_bind, parsedReport_onlyValueError]
  constructor
  · rintro ⟨hloaded, hparts⟩
    have hrest : ∀ definitions outcomes digest overall,
        Parts shown limit content definitions outcomes digest overall → _ :=
      fun definitions outcomes digest overall hfits => hfits.elim fun document h =>
        onlyValueError_bind.1 ((onlyValueError_bind.1 (hparts document h.1)).2 _ h.2)
    refine ⟨hloaded, fun d o g v h => ?_, fun d o g v h fss hfss => ?_⟩
    · exact (admitDefinitions_onlyValueError h.fits).1 (hrest d o g v h).1
    · exact admitOutcomes_onlyValueError.1 (onlyValueError_bind.1 ((hrest d o g v h).2 fss hfss)).1
  · intro hclear
    refine ⟨hclear.loaded, fun document hdocument => onlyValueError_bind.2
      ⟨documentParts_onlyValueError document, ?_⟩⟩
    rintro ⟨d, o, g, v⟩ h
    have hparts : Parts shown limit content d o g v := ⟨document, hdocument, h⟩
    refine onlyValueError_bind.2 ⟨?_, fun fss hfss => onlyValueError_bind.2 ⟨?_, fun _ _ => ?_⟩⟩
    · exact (admitDefinitions_onlyValueError hparts.fits).2 (hclear.definitions d o g v hparts)
    · exact admitOutcomes_onlyValueError.2 (hclear.outcomes d o g v hparts fss hfss)
    · exact onlyValueError_ok _

end Reports

/-! ### The comparator -/

section Comparator

variable (py : Py.Rendering) (shown : Shown) (limit : ℕ)

/-- The comparison of two contents is inconclusive. -/
def Inconclusive (a b : Bytes) : Prop :=
  ∀ oracle candidate failure, ∃ res, compareReports py shown limit ⟨oracle, some a⟩
    ⟨candidate, some b⟩ ⟨[], "SEQUENTIAL", failure⟩ = .ok res ∧ res.result = .INCONCLUSIVE

variable {py shown limit} {a b : Bytes}

theorem inconclusive_of_oracle {message : String}
    (h : admitReport shown limit a = .error (.valueError message)) :
    Inconclusive py shown limit a b := by
  intro oracle candidate failure
  refine ⟨refused ⟨oracle, some a⟩ ⟨candidate, some b⟩ failure message, ?_, rfl⟩
  simp only [compareReports, compareContents, h]
  rfl

theorem inconclusive_of_candidate {report : AdmittedReport} {message : String}
    (ha : admitReport shown limit a = .ok report)
    (hb : admitReport shown limit b = .error (.valueError message)) :
    Inconclusive py shown limit a b := by
  intro oracle candidate failure
  refine ⟨refused ⟨oracle, some a⟩ ⟨candidate, some b⟩ failure message, ?_, rfl⟩
  simp only [compareReports, compareContents, ha, hb]
  rfl

end Comparator

/-- **Admission fails closed** exactly on bytes that come to none of the places an exception escapes
from: it raises nothing but `ValueError`s, and a malformed report makes the comparison inconclusive,
whichever side it is on. -/
theorem admission_failsClosed (py : Py.Rendering) (shown : Shown) (limit : ℕ) (content : Bytes) :
    (OnlyValueError (admitReport shown limit content) ∧
      ∀ e, admitReport shown limit content = .error e → ∀ other,
        Inconclusive py shown limit content other ∧
          (Clear shown limit other → Inconclusive py shown limit other content)) ↔
      Clear shown limit content := by
  rw [← admitReport_onlyValueError]
  refine and_iff_left_iff_imp.2 fun hcontent e he other => ?_
  obtain ⟨message, rfl⟩ := hcontent e he
  refine ⟨inconclusive_of_oracle he, fun hother => ?_⟩
  cases h : admitReport shown limit other with
  | error e' =>
      obtain ⟨message', rfl⟩ := admitReport_onlyValueError.2 hother e' h
      exact inconclusive_of_oracle h
  | ok report => exact inconclusive_of_candidate h he

/-- A text is no document because a number has too large an exponent. -/
def exponentFails : Except PyJson.Failure PyJson → Bool
  | .error .exponent => true
  | _ => false

theorem eq_of_exponentFails {result : Except PyJson.Failure PyJson}
    (h : exponentFails result = true) : result = .error .exponent := by
  unfold exponentFails at h
  split at h
  · rfl
  · cases h

theorem loads_exponent : PyJson.loads 8 "1e99999999999999999999" = .error .exponent :=
  eq_of_exponentFails (by decide +kernel)

/-- **A number that no decimal holds escapes as an `InvalidOperation`.** -/
theorem admission_not_exponent :
    admitReport plainShown 8 (Py.encode "1e99999999999999999999") =
        .error (.declared "InvalidOperation" "") ∧
      ¬OnlyValueError (admitReport plainShown 8 (Py.encode "1e99999999999999999999")) := by
  have h : admitReport plainShown 8 (Py.encode "1e99999999999999999999") =
      .error (.declared "InvalidOperation" "") := by
    rw [admitReport, parsedReport, Py.decode_encode]
    dsimp only
    rw [loads_exponent]
    rfl
  refine ⟨h, ?_⟩
  rw [h]
  exact not_onlyValueError_declared _ _

end CobolJava.Business
