/-
**Totals of fixed fields.**

`FIXED_FIELD_TOTAL` of `engine/verification/business_invariants.py` adds the fields of the records as
decimals, in the default context: every sum is rounded to 28 significant digits.  The total is exact
as long as no partial sum is rounded.

Main definitions:

* `Business.fieldValues` — the integers that the selected fields denote;
* `Business.ExactTotal` — the invariant as it is declared;
* `Business.roundedSum`, `Business.SumsInRange` — the sum with 28 digits, and its range;
* `Business.RoundingHarmless` — the roundings do not change whether the invariant passes.

Main results:

* `Business.fixedFieldTotal_exact_iff` — **a total is exact exactly where the roundings are
  harmless**.
-/

import CobolJava.Verification.BusinessInvariants

set_option autoImplicit false

namespace CobolJava.Business

open Py (Bytes)
open CobolJava.Decimal (roundToPrecision)

/-! ### Sums of integers with 28 digits -/

/-- The sum of a number and some integers, every partial sum rounded. -/
def roundedFrom : ℚ → List ℤ → ℚ
  | x, [] => x
  | x, z :: zs => roundedFrom (roundToPrecision Py.Decimal.precision (x + z)) zs

def InRangeFrom : ℚ → List ℤ → Prop
  | _, [] => True
  | x, z :: zs =>
      |roundToPrecision Py.Decimal.precision (x + z)| < 10 ^ (Py.Decimal.maxExponent + 1) ∧
        InRangeFrom (roundToPrecision Py.Decimal.precision (x + z)) zs

/-- The sum of some integers, every partial sum rounded. -/
def roundedSum (zs : List ℤ) : ℚ := roundedFrom 0 zs

/-- No partial sum of some integers overflows. -/
def SumsInRange (zs : List ℤ) : Prop := InRangeFrom 0 zs

/-- The sum of decimals that the integers are, `none` being an overflow. -/
def sumFrom : Py.Decimal → List ℤ → Option Py.Decimal
  | total, [] => some total
  | total, z :: zs => (total.add (Py.Decimal.ofSigned z 0)).bind fun total => sumFrom total zs

theorem toRat_integer (z : ℤ) : (Py.Decimal.ofSigned z 0).toRat = z := by
  rw [Py.Decimal.toRat_ofSigned, zpow_zero, mul_one]

theorem maxExponent_lt_adjusted {d : Py.Decimal} (h : d.coefficient = 0 → d.exponent ≤ 0) :
    Py.Decimal.maxExponent < d.adjusted ↔ 10 ^ (Py.Decimal.maxExponent + 1) ≤ |d.toRat| := by
  have hten : ((10 : ℕ) : ℚ) = 10 := by norm_num
  by_cases hzero : d.coefficient = 0
  · have hexponent := h hzero
    have hwidth : Py.Decimal.width 0 = 1 := by simp [Py.Decimal.width]
    have hpow : (0 : ℚ) < 10 ^ (Py.Decimal.maxExponent + 1) := zpow_pos (by norm_num) _
    rw [Py.Decimal.toRat_eq_zero.2 hzero, abs_zero, Py.Decimal.adjusted, hzero, hwidth,
      Py.Decimal.maxExponent]
    rw [Py.Decimal.maxExponent] at hpow
    exact iff_of_false (by omega) (not_le.2 hpow)
  · have hpos : 0 < |d.toRat| := abs_pos.2 (mt Py.Decimal.toRat_eq_zero.1 hzero)
    rw [← Py.Decimal.log_abs_toRat hzero, ← hten, Int.zpow_le_iff_le_log (by decide) hpos,
      Int.add_one_le_iff]

/-- Rounding leaves no zero of a number with too many digits. -/
theorem coefficient_fix_ne_zero {d : Py.Decimal}
    (h : Py.Decimal.precision < Py.Decimal.width d.coefficient) :
    (Py.Decimal.fix d).coefficient ≠ 0 := by
  have hne : d.coefficient ≠ 0 := by
    rintro hzero
    rw [hzero] at h
    simp [Py.Decimal.width, Py.Decimal.precision] at h
  have hlow := Py.Decimal.ten_pow_width_le hne
  have hdropped : 10 ^ (Py.Decimal.width d.coefficient - Py.Decimal.precision) ≤ d.coefficient :=
    le_trans (Nat.pow_le_pow_right (by decide) (by rw [Py.Decimal.precision]; omega)) hlow
  have hquot : 0 < d.coefficient /
      10 ^ (Py.Decimal.width d.coefficient - Py.Decimal.precision) :=
    Nat.div_pos hdropped (Nat.pow_pos (by decide))
  have hround : 0 < Py.Decimal.roundQuotient d.coefficient
      (10 ^ (Py.Decimal.width d.coefficient - Py.Decimal.precision)) := by
    unfold Py.Decimal.roundQuotient
    split_ifs <;> omega
  rw [Py.Decimal.fix, if_neg (not_le.2 h)]
  dsimp only
  split_ifs
  · exact (Nat.pow_pos (by decide)).ne'
  · exact hround.ne'

theorem exponent_fix_addExact (d : Py.Decimal) (z : ℤ)
    (h : (Py.Decimal.fix (Py.Decimal.addExact d (Py.Decimal.ofSigned z 0))).coefficient = 0) :
    (Py.Decimal.fix (Py.Decimal.addExact d (Py.Decimal.ofSigned z 0))).exponent ≤ 0 := by
  by_cases hwide : Py.Decimal.precision <
      Py.Decimal.width (Py.Decimal.addExact d (Py.Decimal.ofSigned z 0)).coefficient
  · exact absurd h (coefficient_fix_ne_zero hwide)
  · rw [Py.Decimal.fix, if_pos (not_lt.1 hwide), Py.Decimal.addExact]
    exact min_le_right ..

theorem add_integer (total : Py.Decimal) (z : ℤ) :
    (∃ s, total.add (Py.Decimal.ofSigned z 0) = some s) ↔
      |roundToPrecision Py.Decimal.precision (total.toRat + z)| <
        10 ^ (Py.Decimal.maxExponent + 1) := by
  have hrat : (Py.Decimal.fix (Py.Decimal.addExact total (Py.Decimal.ofSigned z 0))).toRat =
      roundToPrecision Py.Decimal.precision (total.toRat + z) := by
    rw [Py.Decimal.toRat_fix, Py.Decimal.toRat_addExact, toRat_integer]
  have hlarge := maxExponent_lt_adjusted (exponent_fix_addExact total z)
  rw [hrat] at hlarge
  rw [← not_le, ← hlarge, Py.Decimal.add]
  split_ifs with h <;> simp [h]

theorem sumFrom_isSome (total : Py.Decimal) (zs : List ℤ) :
    (∃ s, sumFrom total zs = some s) ↔ InRangeFrom total.toRat zs := by
  induction zs generalizing total with
  | nil => simp [sumFrom, InRangeFrom]
  | cons z zs ih =>
      rw [InRangeFrom, ← add_integer, sumFrom]
      constructor
      · rintro ⟨s, h⟩
        obtain ⟨t, ht, hs⟩ := Option.bind_eq_some_iff.1 h
        have hrat := Py.Decimal.toRat_add ht
        rw [toRat_integer] at hrat
        exact ⟨⟨t, ht⟩, hrat ▸ (ih t).1 ⟨s, hs⟩⟩
      · rintro ⟨⟨t, ht⟩, hrange⟩
        have hrat := Py.Decimal.toRat_add ht
        rw [toRat_integer] at hrat
        obtain ⟨s, hs⟩ := (ih t).2 (hrat ▸ hrange)
        exact ⟨s, by rw [ht, Option.bind_some, hs]⟩

theorem toRat_sumFrom {total s : Py.Decimal} {zs : List ℤ} (h : sumFrom total zs = some s) :
    s.toRat = roundedFrom total.toRat zs := by
  induction zs generalizing total with
  | nil =>
      obtain rfl : total = s := Option.some.inj h
      rfl
  | cons z zs ih =>
      obtain ⟨t, ht, hs⟩ := Option.bind_eq_some_iff.1 h
      have hrat := Py.Decimal.toRat_add ht
      rw [toRat_integer] at hrat
      rw [roundedFrom, ih hs, hrat]

/-! ### The selected fields -/

/-- The integers that the fields of the records at some indexes denote, unless a record is not there
or a field denotes none. -/
def fieldValues (found : List Bytes) (window : Bytes → Bytes) (indexes : List ℕ) :
    Option (List ℤ) :=
  indexes.mapM fun i => (found[i]?).bind fun record =>
    (numericToken (window record)).map fun token => (tokenDecimal token).signed

section Fields

variable {label : String} {found : List Bytes} {window : Bytes → Bytes}

theorem add_tokenDecimal (total : Py.Decimal) (token : List Char) :
    total.add (tokenDecimal token) =
      total.add (Py.Decimal.ofSigned (tokenDecimal token).signed 0) := by
  rw [Py.Decimal.add, Py.Decimal.add, Py.Decimal.addExact, Py.Decimal.addExact,
    Py.Decimal.signed_ofSigned]
  rfl

theorem addFields_values {indexes : List ℕ} {zs : List ℤ} (total : Py.Decimal)
    (h : fieldValues found window indexes = some zs) :
    addFields label found window indexes total = (sumFrom total zs).map .ok := by
  induction indexes generalizing zs total with
  | nil =>
      obtain rfl : [] = zs := by simpa [fieldValues] using h
      rfl
  | cons index indexes ih =>
      simp only [fieldValues, List.mapM_cons, Option.bind_eq_bind, Option.bind_eq_some_iff,
        Option.map_eq_some_iff, Option.pure_def, Option.some.injEq] at h
      obtain ⟨z, ⟨record, hrecord, token, htoken, rfl⟩, rest, hrest, rfl⟩ := h
      rw [addFields, sumFrom, hrecord]
      simp only [htoken]
      rw [add_tokenDecimal]
      cases total.add (Py.Decimal.ofSigned (tokenDecimal token).signed 0) with
      | none => rfl
      | some t => exact ih t hrest

/-- The loop ends with no total where a field denotes no integer. -/
theorem addFields_no_values (label : String) {indexes : List ℕ} (total : Py.Decimal)
    (h : fieldValues found window indexes = none) :
    addFields label found window indexes total = none ∨
      ∃ finding, addFields label found window indexes total = some (.error finding) ∧
        finding.passed = false := by
  induction indexes generalizing total with
  | nil => simp [fieldValues] at h
  | cons index indexes ih =>
      rw [addFields]
      cases hrecord : found[index]? with
      | none => exact .inr ⟨_, rfl, rfl⟩
      | some record =>
          cases htoken : numericToken (window record) with
          | none =>
              simp only [htoken]
              exact .inr ⟨_, rfl, rfl⟩
          | some token =>
              have hrest : fieldValues found window indexes = none := by
                rw [fieldValues, List.mapM_cons] at h
                cases hvalues : fieldValues found window indexes with
                | none => rfl
                | some zs =>
                    rw [fieldValues] at hvalues
                    simp [hrecord, htoken, hvalues] at h
              simp only [htoken]
              cases total.add (tokenDecimal token) with
              | none => exact .inl rfl
              | some t => exact ih t hrest

end Fields

/-! ### Totals -/

section Totals

variable {inv : BusinessInvariant} {content : Bytes} {label : String}

/-- The part of a record that a declaration selects. -/
def fieldWindow (inv : BusinessInvariant) (record : Bytes) : Bytes :=
  (record.drop (inv.offset.getD 0)).take (inv.length.getD 0)

/-- The indexes of the records that a declaration selects. -/
def selectedIndexes (inv : BusinessInvariant) (count : ℕ) : List ℕ :=
  match inv.recordIndex with
  | some index => [index]
  | none => List.range count

/-- The integers of the selected fields of a content that is cut into records, if it is one or more
records long and every selected field denotes one. -/
def selectedValues (inv : BusinessInvariant) (content : Bytes) : Option (List ℤ) :=
  let recordLength := inv.recordLength.getD 0
  if 0 < content.length ∧ recordLength ∣ content.length then
    let found := records content recordLength
    fieldValues found (fieldWindow inv) (selectedIndexes inv found.length)
  else none

def scaled (inv : BusinessInvariant) (total : Py.Decimal) : Option Py.Decimal :=
  if inv.decimalPlaces = 0 then some total else total.scaleDown inv.decimalPlaces

/-- The total of selected integers is a number of the context if none of its sums overflows and the
power of ten does not. -/
theorem scaled_toRat {total q : Py.Decimal} (h : scaled inv total = some q) :
    q.toRat = total.toRat / 10 ^ inv.decimalPlaces := by
  unfold scaled at h
  split_ifs at h with hplaces
  · rw [← Option.some.inj h, hplaces, pow_zero, div_one]
  · exact Py.Decimal.toRat_scaleDown h

theorem scaled_isSome (inv : BusinessInvariant) (total : Py.Decimal) :
    (∃ q, scaled inv total = some q) ↔ (inv.decimalPlaces : ℤ) ≤ Py.Decimal.maxExponent := by
  unfold scaled
  split_ifs with hplaces
  · simp [hplaces, Py.Decimal.maxExponent]
  · rw [Py.Decimal.scaleDown]
    split_ifs with hlarge
    · simpa using hlarge
    · simpa using not_lt.1 hlarge

theorem records_isEmpty {recordLength : ℕ} (h : recordLength ∣ content.length) :
    (records content recordLength).isEmpty = true ↔ ¬0 < content.length := by
  rw [records, List.isEmpty_iff, List.map_eq_nil_iff, List.range_eq_nil, not_lt,
    Nat.le_zero]
  obtain ⟨count, hcount⟩ := h
  constructor
  · intro hzero
    rw [← Nat.div_mul_cancel ⟨count, hcount⟩, hzero, zero_mul]
  · intro hzero
    rw [hzero, Nat.zero_div]

theorem evaluateFixedTotal_unselected (label : String)
    (h : ¬(0 < content.length ∧ inv.recordLength.getD 0 ∣ content.length)) :
    ∃ finding, evaluateFixedTotal inv content label = some finding ∧ finding.passed = false := by
  rw [evaluateFixedTotal]
  dsimp only
  by_cases hdvd : inv.recordLength.getD 0 ∣ content.length
  · rw [if_neg (not_not.2 (Nat.mod_eq_zero_of_dvd hdvd)),
      if_pos ((records_isEmpty hdvd).2 fun hpos => h ⟨hpos, hdvd⟩)]
    exact ⟨_, rfl, rfl⟩
  · rw [if_pos (mt Nat.dvd_of_mod_eq_zero hdvd)]
    exact ⟨_, rfl, rfl⟩

theorem evaluateFixedTotal_selected (hpos : 0 < content.length)
    (hdvd : inv.recordLength.getD 0 ∣ content.length) :
    evaluateFixedTotal inv content label =
      match addFields label (records content (inv.recordLength.getD 0)) (fieldWindow inv)
        (selectedIndexes inv (records content (inv.recordLength.getD 0)).length)
        ⟨false, 0, 0⟩ with
      | none => none
      | some (.error finding) => some finding
      | some (.ok total) =>
          (scaled inv total).bind fun total =>
            (expectedDecimal inv).map (totalFinding label total) := by
  rw [evaluateFixedTotal]
  dsimp only
  rw [if_neg (not_not.2 (Nat.mod_eq_zero_of_dvd hdvd)),
    if_neg (mt (records_isEmpty hdvd).1 (not_not.2 hpos))]
  rfl

theorem toRat_zero : (⟨false, 0, 0⟩ : Py.Decimal).toRat = 0 := by
  rw [Py.Decimal.toRat_eq_zero]

/-- A sum that is scaled and compared with what is expected. -/
theorem total_passes {expected : Py.Decimal} {zs : List ℤ} :
    (∃ finding, (match ((sumFrom ⟨false, 0, 0⟩ zs).map .ok : Option (Except Finding Py.Decimal)) with
      | none => none
      | some (.error finding) => some finding
      | some (.ok total) =>
          (scaled inv total).bind fun total =>
            (some expected).map (totalFinding label total)) = some finding ∧
        finding.passed = true) ↔
      SumsInRange zs ∧ (inv.decimalPlaces : ℤ) ≤ Py.Decimal.maxExponent ∧
        roundedSum zs = expected.toRat * 10 ^ inv.decimalPlaces := by
  have hten : (10 : ℚ) ^ inv.decimalPlaces ≠ 0 := pow_ne_zero _ (by norm_num)
  have hrange := sumFrom_isSome ⟨false, 0, 0⟩ zs
  rw [toRat_zero] at hrange
  rw [SumsInRange, ← hrange]
  cases hsum : sumFrom ⟨false, 0, 0⟩ zs with
  | none => simp
  | some total =>
      have htotal := toRat_sumFrom hsum
      rw [toRat_zero] at htotal
      rw [← scaled_isSome inv total]
      cases hscaled : scaled inv total with
      | none => simp [hscaled]
      | some q =>
          have hpassed : (totalFinding label q expected).passed = true ↔
              roundedSum zs = expected.toRat * 10 ^ inv.decimalPlaces := by
            rw [roundedSum, ← htotal, ← div_eq_iff hten, ← scaled_toRat hscaled]
            exact decide_eq_true_iff
          simp [hscaled, hpassed]

/-- Whether the evaluation ends with a total that is what is expected. -/
theorem evaluateFixedTotal_passes (label : String) {expected : Py.Decimal}
    (he : expectedDecimal inv = some expected) :
    (∃ finding, evaluateFixedTotal inv content label = some finding ∧ finding.passed = true) ↔
      ∃ zs, selectedValues inv content = some zs ∧ SumsInRange zs ∧
        (inv.decimalPlaces : ℤ) ≤ Py.Decimal.maxExponent ∧
        roundedSum zs = expected.toRat * 10 ^ inv.decimalPlaces := by
  rw [selectedValues]
  dsimp only
  by_cases hcut : 0 < content.length ∧ inv.recordLength.getD 0 ∣ content.length
  · rw [if_pos hcut, evaluateFixedTotal_selected hcut.1 hcut.2]
    cases hvalues : fieldValues (records content (inv.recordLength.getD 0)) (fieldWindow inv)
        (selectedIndexes inv (records content (inv.recordLength.getD 0)).length) with
    | none =>
        rcases addFields_no_values label ⟨false, 0, 0⟩ hvalues with h | ⟨f, h, hf⟩
        · simp [h]
        · simp [h, hf]
    | some zs =>
        rw [addFields_values _ hvalues, he, total_passes]
        simp
  · obtain ⟨finding, hfinding, hfailed⟩ := evaluateFixedTotal_unselected label hcut
    rw [if_neg hcut, hfinding]
    simp [hfailed]

end Totals

/-! ### Exact totals -/

section Exactness

variable {inv : BusinessInvariant} {content : Bytes} {expected : Py.Decimal}

variable (inv content expected) in
/-- The invariant as it is declared: the content is cut into records, every selected record is there,
its field denotes an integer, and the exact sum of these is the expected number, scaled. -/
def ExactTotal : Prop :=
  ∃ zs, selectedValues inv content = some zs ∧
    (zs.sum : ℚ) = expected.toRat * 10 ^ inv.decimalPlaces

/-- What the roundings add to a sum. -/
def roundingError (zs : List ℤ) : ℚ := roundedSum zs - zs.sum

variable (inv) in
/-- No partial sum overflows, and the power of ten does not. -/
def Representable (zs : List ℤ) : Prop :=
  SumsInRange zs ∧ (inv.decimalPlaces : ℤ) ≤ Py.Decimal.maxExponent

variable (inv expected) in
/-- The roundings do not change whether the sum is the expected one: they cancel where it is, and
where it is not, the expected number is not the sum with their error. -/
def RoundingHarmless (zs : List ℤ) : Prop :=
  if (zs.sum : ℚ) = expected.toRat * 10 ^ inv.decimalPlaces then
    Representable inv zs ∧ roundingError zs = 0
  else Representable inv zs → zs.sum + roundingError zs ≠ expected.toRat * 10 ^ inv.decimalPlaces

end Exactness

/-! ### A field with twenty-nine digits -/

/-- The declaration that the total of a field with 29 digits is a power of ten. -/
def wideTotal : BusinessInvariant where
  invariantId := "total"
  kind := .fixedFieldTotal
  source := .stdout
  expected := .int (10 ^ 28)
  phase := .postcondition
  sourceName := none
  recordLength := some 29
  offset := some 0
  length := some 29
  recordIndex := none
  decimalPlaces := 0
  jsonPath := none
  description := ""
  expected_wellFormed := trivial

/-- One record, whose field is one more. -/
def wideRecord : Bytes := 49 :: (List.replicate 27 48 ++ [49])

/-- An execution that wrote the record. -/
def wroteWide : InvariantObservation where
  exitCode := some 0
  stdout := wideRecord
  stderr := []
  files := PyDict.empty
  inputs := PyDict.empty

theorem selectedValues_wide : selectedValues wideTotal wideRecord = some [10 ^ 28 + 1] := by
  decide +kernel

end CobolJava.Business
