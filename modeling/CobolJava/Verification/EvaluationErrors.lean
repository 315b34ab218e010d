/-
**When a report of business invariants is written.**

`build_report` and `to_bytes` of `engine/verification/business_invariants.py` turn missing, malformed
and differing observations into failed outcomes.  What they observe is then written as canonical
JSON, and that fails for the floats `NaN` and `Infinity`, for lone surrogates and for numbers with
more digits than Python converts; adding and scaling fields can overflow as well.

Main definitions:

* `Business.BusinessInvariant.accepted` — the checks of a declaration when it is constructed;
* `Business.DeclarationFits`, `Business.ObservationFits` — what is declared and what is found can be
  written.

Main results:

* `Business.addFields_isSome` — when the fields of some records are added;
* `Business.finding_written_iff` — when one invariant is evaluated and its finding is written;
* `Business.toBytes_iff` — **when a report is written**.
-/

import CobolJava.Verification.FieldTotals
import CobolJava.Verification.ReportConsistency

set_option autoImplicit false

namespace CobolJava.Business

open Py (Bytes)

/-! ### Declarations -/

/-- `_TEXT_SOURCES` -/
def isTextSource : InvariantSource → Bool
  | .exitStatus => false
  | _ => true

/-- `_FILE_SOURCES` -/
def isFileSource : InvariantSource → Bool
  | .file => true
  | .input => true
  | _ => false

/-- A text that is given and not blank. -/
def notBlank (s : Option String) : Bool :=
  s.any fun s => !(Py.Chars.strip s.toList).isEmpty

namespace BusinessInvariant

variable (inv : BusinessInvariant)

/-- `_require_source_name_for_file_source` -/
def sourceNamed : Bool := !isFileSource inv.source || notBlank inv.sourceName

/-- `_require_record_length` -/
def recordLengthGiven : Bool := inv.recordLength.any fun n => 0 < n

/-- `_require_field_window` -/
def windowGiven : Bool :=
  match inv.offset, inv.length, inv.recordLength with
  | some offset, some length, some recordLength =>
      decide (0 < length) && decide (offset + length ≤ recordLength)
  | _, _, _ => false

/-- `_reject_irrelevant_fields` -/
def ignoresNothing (allowed : List String) : Bool :=
  [("source_name", inv.sourceName.isSome), ("record_length", inv.recordLength.isSome),
    ("offset", inv.offset.isSome), ("length", inv.length.isSome),
    ("record_index", inv.recordIndex.isSome), ("json_path", inv.jsonPath.isSome),
    ("decimal_places", decide (inv.decimalPlaces ≠ 0))].all fun check =>
      !check.2 || allowed.contains check.1

/-- The expected value is a number, and not a Boolean. -/
def expectsInt : Bool :=
  match inv.expected with
  | .int _ => true
  | _ => false

/-- The expected value is a number of lines or records. -/
def expectsCount : Bool :=
  match inv.expected with
  | .int z => 0 ≤ z
  | _ => false

/-- The expected value is a tuple of texts. -/
def expectsLines : Bool :=
  match inv.expected with
  | .tuple items => items.all fun v => match v with
      | .str _ => true
      | _ => false
  | _ => false

def expectsBytes : Bool :=
  match inv.expected with
  | .bytes _ => true
  | _ => false

/-- The checks of `__post_init__`, the expected lines being a tuple and the expected bytes being
bytes already. -/
def accepted : Bool :=
  notBlank (some inv.invariantId) &&
    match inv.kind with
    | .exitCode => inv.source = .exitStatus && inv.expectsInt && inv.ignoresNothing []
    | .exactLines =>
        isTextSource inv.source && inv.sourceNamed && inv.expectsLines &&
          inv.ignoresNothing ["source_name"]
    | .lineCount =>
        isTextSource inv.source && inv.sourceNamed && inv.expectsCount &&
          inv.ignoresNothing ["source_name"]
    | .recordCount =>
        isFileSource inv.source && inv.sourceNamed && inv.recordLengthGiven && inv.expectsCount &&
          inv.ignoresNothing ["source_name", "record_length"]
    | .fixedFieldEquals =>
        isFileSource inv.source && inv.sourceNamed && inv.recordLengthGiven && inv.windowGiven &&
          inv.expectsBytes &&
          inv.ignoresNothing ["source_name", "record_length", "offset", "length", "record_index"]
    | .fixedFieldTotal =>
        isFileSource inv.source && inv.sourceNamed && inv.recordLengthGiven && inv.windowGiven &&
          (expectedDecimal inv).isSome &&
          inv.ignoresNothing ["source_name", "record_length", "offset", "length", "record_index",
            "decimal_places"]
    | .jsonFieldEquals =>
        (inv.source = .file || inv.source = .stdout || inv.source = .stderr) && inv.sourceNamed &&
          notBlank inv.jsonPath && (jsonTokens (inv.jsonPath.getD "")).isSome &&
          (canonicalValue inv.expected).isSome && inv.ignoresNothing ["source_name", "json_path"]

end BusinessInvariant

/-! ### Numbers and texts that are written -/

/-- A number has no more digits than Python converts. -/
def DigitsFit (n : ℕ) : Prop := (Nat.toDigits 10 n).length ≤ PyJson.maxDigits

theorem writable_int {depth : ℕ} {z : ℤ} :
    PyJson.writable depth (.int z) = true ↔ DigitsFit z.natAbs := by
  rw [PyJson.writable, decide_eq_true_iff]
  rfl

/-- `sys.maxsize`, the longest a list, a text or a byte string is. -/
def maxSize : ℕ := 2 ^ 63 - 1

theorem digitsFit_of_le {n : ℕ} (h : n ≤ maxSize) : DigitsFit n := by
  have hpow : n < 10 ^ PyJson.maxDigits := by
    calc n ≤ maxSize := h
      _ < 10 ^ 19 := by decide
      _ ≤ 10 ^ PyJson.maxDigits := Nat.pow_le_pow_right (by decide) (by decide)
  exact (Nat.length_toDigits_le_iff (by decide) (by decide)).2 hpow

theorem writable_chars (depth : ℕ) (s : List Char) :
    PyJson.writable depth (.str (s.map Char.toNat)) = true := by
  rw [PyJson.writable, List.all_map, List.all_eq_true]
  exact fun c _ => decide_eq_true c.valid

theorem writable_tagged (depth : ℕ) (tag : String) (s : List Char) :
    PyJson.writable (depth + 1) (tagged tag s) = true := by
  simp only [tagged, PyJson.writable, PyJson.writableFields, Bool.and_true, Bool.and_eq_true]
  exact ⟨PyJson.isScalar_of tag, writable_chars depth s⟩

/-! ### Findings that are written -/

/-- What was observed has a canonical form that is written. -/
def Written (depth : ℕ) (finding : Finding) : Prop :=
  ∃ j, canonicalValue finding.observed = some j ∧ PyJson.writable depth j = true

section Findings

variable {depth : ℕ}

theorem written_text (passed : Bool) (s reason : String) :
    Written depth (observedText passed s reason) :=
  ⟨text s, rfl, writable_text depth s⟩

theorem written_int {passed : Bool} {z : ℤ} {reason : String} :
    Written depth (observedInt passed z reason) ↔ DigitsFit z.natAbs := by
  have hint : PyJson.writable depth (.int z) = true ↔ DigitsFit z.natAbs := writable_int
  rw [← hint]
  exact ⟨fun ⟨j, hj, hw⟩ => Option.some.inj hj ▸ hw, fun h => ⟨_, rfl, h⟩⟩

theorem written_length {passed : Bool} {n : ℕ} {reason : String} (h : n ≤ maxSize) :
    Written depth (observedInt passed n reason) :=
  written_int.2 (digitsFit_of_le h)

theorem written_tagged (passed : Bool) (tag : String) (s : List Char) (reason : String) :
    Written (depth + 1) (observedTagged passed tag s reason) :=
  ⟨tagged tag s, rfl, writable_tagged depth tag s⟩

theorem written_hex (passed : Bool) (content : Bytes) (reason : String) :
    Written (depth + 1) (observedHex passed content reason) :=
  written_tagged passed _ _ reason

theorem canonicalItems_map {α : Type} {f : α → Value} {g : α → PyJson}
    (h : ∀ a, canonicalValue (f a) = some (g a)) (xs : List α) :
    canonicalItems (xs.map f) = some (xs.map g) := by
  induction xs with
  | nil => rfl
  | cons x xs ih => rw [List.map_cons, canonicalItems, h, ih]; rfl

theorem written_lines (passed : Bool) (lines : List (List Char)) (reason : String) :
    Written (depth + 1)
      (observedLines passed (lines.map fun line => line.map Char.toNat) reason) := by
  refine ⟨.arr ((lines.map fun line => line.map Char.toNat).map .str), ?_, ?_⟩
  · show (canonicalItems _).map PyJson.arr = _
    rw [canonicalItems_map (g := PyJson.str) fun _ => rfl]
    rfl
  · rw [PyJson.writable, PyJson.writableItems_iff]
    intro x hx
    obtain ⟨s, hs, rfl⟩ := List.mem_map.1 hx
    obtain ⟨line, -, rfl⟩ := List.mem_map.1 hs
    exact writable_chars depth line

theorem written_records {checked : ℕ} {mismatched : List ℕ} (reason : String)
    (hchecked : checked ≤ maxSize) (hmismatched : ∀ n ∈ mismatched, n ≤ maxSize) :
    Written (depth + 2) (observedRecords checked mismatched reason) := by
  refine ⟨.obj [(PyStr.of "mismatched", .arr (mismatched.map fun n : ℕ => .int n)),
    (PyStr.of "records_checked", .int checked)], ?_, ?_⟩
  · show (canonicalEntries _).map PyJson.obj = _
    simp only [canonicalEntries, canonicalValue]
    rw [canonicalItems_map (g := fun n : ℕ => PyJson.int n) fun _ => rfl]
    rfl
  · have hkeys : ((PyStr.of "mismatched").all PyJson.isScalar &&
        (PyStr.of "records_checked").all PyJson.isScalar) = true := by decide
    rw [Bool.and_eq_true] at hkeys
    simp only [PyJson.writable, PyJson.writableFields, hkeys.1, hkeys.2, Bool.true_and,
      Bool.and_true, Bool.and_eq_true, PyJson.writableItems_iff, decide_eq_true_iff]
    refine ⟨fun x hx => ?_, digitsFit_of_le hchecked⟩
    obtain ⟨n, hn, rfl⟩ := List.mem_map.1 hx
    exact writable_int.2 (digitsFit_of_le (hmismatched n hn))

end Findings

/-! ### Lengths -/

theorem length_splitlinesFrom (current s : List Char) :
    (Py.Chars.splitlinesFrom current s).length ≤ s.length + (if current = [] then 0 else 1) := by
  fun_induction Py.Chars.splitlinesFrom current s with
  | case1 => simp
  | case2 current h => simp [h]
  | case3 current rest ih =>
      simp only [if_true] at ih
      simp only [List.length_cons]
      omega
  | case4 current c rest _ _ ih =>
      simp only [if_true] at ih
      simp only [List.length_cons]
      omega
  | case5 current c rest _ _ ih =>
      simp only [List.append_eq_nil_iff, List.cons_ne_nil, and_false, if_false] at ih
      simp only [List.length_cons]
      omega

theorem length_lines_le {content : Bytes} {s : String} (h : Py.decode content = some s) :
    (Py.Chars.splitlines s.toList).length ≤ content.length := by
  have hlines := length_splitlinesFrom [] s.toList
  have hchars := Py.length_le_encode s.toList
  rw [String.ofList_toList, Py.encode_of_decode h] at hchars
  rw [if_pos rfl, add_zero] at hlines
  exact hlines.trans hchars

theorem records_length (content : Bytes) (recordLength : ℕ) :
    (records content recordLength).length = content.length / recordLength := by
  rw [records, List.length_map, List.length_range]

theorem records_length_le (content : Bytes) (recordLength : ℕ) :
    (records content recordLength).length ≤ content.length := by
  rw [records_length]
  exact Nat.div_le_self _ _

/-! ### Counts and fields -/

section Kinds

variable {inv : BusinessInvariant} {content : Bytes} {label : String} {depth : ℕ}

theorem written_evaluateLines (hsize : content.length ≤ maxSize) :
    Written (depth + 2) (evaluateLines inv content label) := by
  unfold evaluateLines
  split
  · exact written_hex ..
  · next s hs =>
      have hlength := (length_lines_le hs).trans hsize
      dsimp only
      split_ifs
      · exact written_lines ..
      · exact written_lines ..
      · exact written_length (by rwa [List.length_map])
      · exact written_length (by rwa [List.length_map])

theorem written_undivided {recordLength : ℕ} (hsize : content.length ≤ maxSize) :
    Written depth (undivided content label recordLength) :=
  written_length hsize

theorem written_evaluateRecordCount (hsize : content.length ≤ maxSize) :
    Written depth (evaluateRecordCount inv content label) := by
  have hcount : content.length / inv.recordLength.getD 0 ≤ maxSize :=
    (Nat.div_le_self _ _).trans hsize
  unfold evaluateRecordCount
  dsimp only
  split_ifs
  · exact written_undivided hsize
  · exact written_length hcount
  · exact written_length hcount

theorem written_evaluateFixedField (hsize : content.length ≤ maxSize) :
    Written (depth + 2) (evaluateFixedField inv content label) := by
  have hfound := (records_length_le content (inv.recordLength.getD 0)).trans hsize
  unfold evaluateFixedField
  dsimp only
  split
  · exact written_undivided hsize
  split
  · exact written_length (Nat.zero_le _)
  · split
    · split
      · exact written_length hfound
      · split_ifs
        · exact written_hex ..
        · exact written_hex ..
    · refine written_records _ hfound fun n hn => ?_
      exact (List.mem_range.1 (List.mem_filter.1 hn).1).le.trans hfound

end Kinds

/-! ### Totals -/

section Totals

variable {inv : BusinessInvariant} {content : Bytes} {label : String} {found : List Bytes}
  {window : Bytes → Bytes} {depth : ℕ}

/-- The integers that the fields denote, up to the first record that is not there or whose field
denotes none. -/
def leadingValues (found : List Bytes) (window : Bytes → Bytes) : List ℕ → List ℤ
  | [] => []
  | index :: rest =>
      match (found[index]?).bind fun record => numericToken (window record) with
      | none => []
      | some token => (tokenDecimal token).signed :: leadingValues found window rest

/-- The loop over the fields ends unless a partial sum overflows. -/
theorem addFields_isSome (label : String) (indexes : List ℕ) (total : Py.Decimal) :
    (∃ r, addFields label found window indexes total = some r) ↔
      InRangeFrom total.toRat (leadingValues found window indexes) := by
  induction indexes generalizing total with
  | nil => simp [addFields, leadingValues, InRangeFrom]
  | cons index indexes ih =>
      rw [addFields, leadingValues]
      cases hrecord : found[index]? with
      | none => simp [InRangeFrom]
      | some record =>
          cases htoken : numericToken (window record) with
          | none => simp [htoken, InRangeFrom]
          | some token =>
              simp only [Option.bind_some, htoken]
              rw [InRangeFrom, ← add_integer, add_tokenDecimal]
              constructor
              · rintro ⟨r, hr⟩
                obtain ⟨t, ht, hr⟩ := Option.bind_eq_some_iff.1 hr
                have hrat := Py.Decimal.toRat_add ht
                rw [toRat_integer] at hrat
                exact ⟨⟨t, ht⟩, hrat ▸ (ih t).1 ⟨r, hr⟩⟩
              · rintro ⟨⟨t, ht⟩, hrange⟩
                have hrat := Py.Decimal.toRat_add ht
                rw [toRat_integer] at hrat
                obtain ⟨r, hr⟩ := (ih t).2 (hrat ▸ hrange)
                exact ⟨r, by rw [ht, Option.bind_some, hr]⟩

theorem addFields_total {indexes : List ℕ} {total t : Py.Decimal}
    (h : addFields label found window indexes total = some (.ok t)) :
    ∃ zs, fieldValues found window indexes = some zs := by
  cases hvalues : fieldValues found window indexes with
  | some zs => exact ⟨zs, rfl⟩
  | none =>
      rcases addFields_no_values label total hvalues with h' | ⟨finding, h', -⟩ <;>
        · rw [h] at h'
          cases h'

theorem addFields_finding {indexes : List ℕ} {total : Py.Decimal} {finding : Finding}
    (h : addFields label found window indexes total = some (.error finding)) :
    fieldValues found window indexes = none := by
  cases hvalues : fieldValues found window indexes with
  | none => rfl
  | some zs =>
      rw [addFields_values total hvalues] at h
      obtain ⟨s, -, hs⟩ := Option.map_eq_some_iff.1 h
      cases hs

theorem written_addFields {indexes : List ℕ} {total : Py.Decimal} {finding : Finding}
    (hfound : found.length ≤ maxSize)
    (h : addFields label found window indexes total = some (.error finding)) :
    Written (depth + 1) finding := by
  induction indexes generalizing total with
  | nil => cases h
  | cons index indexes ih =>
      rw [addFields] at h
      split at h
      · cases h
        exact written_length hfound
      · split at h
        · cases h
          exact written_hex ..
        · obtain ⟨t, -, h⟩ := Option.bind_eq_some_iff.1 h
          exact ih h

/-- The fields of a content that is cut into records are added without an overflow, and the power of
ten that the total is divided by does not overflow. -/
def TotalFits (inv : BusinessInvariant) (content : Bytes) : Prop :=
  0 < content.length → inv.recordLength.getD 0 ∣ content.length →
    let found := records content (inv.recordLength.getD 0)
    SumsInRange (leadingValues found (fieldWindow inv) (selectedIndexes inv found.length)) ∧
      ((selectedValues inv content).isSome = true →
        (inv.decimalPlaces : ℤ) ≤ Py.Decimal.maxExponent)

/-- **When a total is found.** -/
theorem evaluateFixedTotal_isSome (label : String) {expected : Py.Decimal}
    (he : expectedDecimal inv = some expected) :
    (∃ finding, evaluateFixedTotal inv content label = some finding) ↔ TotalFits inv content := by
  by_cases hcut : 0 < content.length ∧ inv.recordLength.getD 0 ∣ content.length
  · have hloop : (∃ r, addFields label (records content (inv.recordLength.getD 0))
        (fieldWindow inv) (selectedIndexes inv
          (records content (inv.recordLength.getD 0)).length) ⟨false, 0, 0⟩ = some r) ↔ _ :=
      addFields_isSome label _ _
    rw [toRat_zero] at hloop
    rw [evaluateFixedTotal_selected hcut.1 hcut.2, TotalFits]
    simp only [hcut.1, hcut.2, forall_const, SumsInRange]
    rw [← hloop, selectedValues]
    dsimp only
    rw [if_pos hcut]
    cases hadd : addFields label (records content (inv.recordLength.getD 0)) (fieldWindow inv)
        (selectedIndexes inv (records content (inv.recordLength.getD 0)).length)
        ⟨false, 0, 0⟩ with
    | none => simp
    | some r =>
        cases r with
        | error finding => simp [addFields_finding hadd]
        | ok total =>
            obtain ⟨zs, hzs⟩ := addFields_total hadd
            rw [← scaled_isSome inv total]
            simp only [hzs, he, Option.isSome_some, forall_const, Option.some.injEq, exists_eq',
              true_and, Option.map_some]
            constructor
            · rintro ⟨finding, hfinding⟩
              obtain ⟨q, hq, -⟩ := Option.bind_eq_some_iff.1 hfinding
              exact ⟨q, hq⟩
            · rintro ⟨q, hq⟩
              exact ⟨_, by rw [hq, Option.bind_some]⟩
  · obtain ⟨finding, hfinding, -⟩ := evaluateFixedTotal_unselected label hcut
    exact iff_of_true ⟨finding, hfinding⟩ fun hpos hdvd => absurd ⟨hpos, hdvd⟩ hcut

theorem written_evaluateFixedTotal (hsize : content.length ≤ maxSize) {finding : Finding}
    (h : evaluateFixedTotal inv content label = some finding) : Written (depth + 1) finding := by
  have hfound := (records_length_le content (inv.recordLength.getD 0)).trans hsize
  unfold evaluateFixedTotal at h
  dsimp only at h
  split at h
  · cases h
    exact written_undivided hsize
  split at h
  · cases h
    exact written_length (Nat.zero_le _)
  · split at h
    · cases h
    · next hloop =>
        cases h
        exact written_addFields hfound hloop
    · obtain ⟨t, -, h⟩ := Option.bind_eq_some_iff.1 h
      obtain ⟨expected, -, rfl⟩ := Option.map_eq_some_iff.1 h
      exact written_tagged ..

end Totals

/-! ### Fields of JSON documents -/

mutual

def hasConstant : PyJson → Bool
  | .constant _ => true
  | .arr xs => hasConstantItems xs
  | .obj fs => hasConstantFields fs
  | _ => false

def hasConstantItems : List PyJson → Bool
  | [] => false
  | x :: xs => hasConstant x || hasConstantItems xs

def hasConstantFields : List (PyStr × PyJson) → Bool
  | [] => false
  | (_, v) :: fs => hasConstant v || hasConstantFields fs

end

mutual

theorem canonicalValue_ofParsed : ∀ j : PyJson,
    (canonicalValue (ofParsed j)).isSome = !hasConstant j
  | .null => rfl
  | .bool _ => rfl
  | .int _ => rfl
  | .decimal _ => rfl
  | .constant _ => rfl
  | .str _ => rfl
  | .arr xs => by
      rw [ofParsed, canonicalValue, Option.isSome_map, hasConstant]
      exact canonicalItems_ofParsed xs
  | .obj fs => by
      rw [ofParsed, canonicalValue, Option.isSome_map, hasConstant]
      exact canonicalEntries_ofParsed fs

theorem canonicalItems_ofParsed : ∀ xs : List PyJson,
    (canonicalItems (ofParsedItems xs)).isSome = !hasConstantItems xs
  | [] => rfl
  | x :: xs => by
      rw [ofParsedItems, canonicalItems, hasConstantItems, Bool.not_or,
        ← canonicalValue_ofParsed x, ← canonicalItems_ofParsed xs]
      cases canonicalValue (ofParsed x) <;> cases canonicalItems (ofParsedItems xs) <;> rfl

theorem canonicalEntries_ofParsed : ∀ fs : List (PyStr × PyJson),
    (canonicalEntries (ofParsedEntries fs)).isSome = !hasConstantFields fs
  | [] => rfl
  | (k, v) :: fs => by
      rw [ofParsedEntries, canonicalEntries, hasConstantFields, Bool.not_or,
        ← canonicalValue_ofParsed v, ← canonicalEntries_ofParsed fs]
      cases canonicalValue (ofParsed v) <;> cases canonicalEntries (ofParsedEntries fs) <;> rfl

end

section Fields

variable (messages : Messages) (limit depth : ℕ) (inv : BusinessInvariant) (content : Bytes)

/-- The text, if it is one, is a document that is read or none at all, and what the path leads to in
the document holds no float and is written. -/
def FieldFits : Prop :=
  ∀ written, Py.decode content = some written →
    (∀ failure, PyJson.loads limit written = .error failure → failure = .malformed) ∧
      ∀ document, PyJson.loads limit written = .ok document →
        ∀ tokens, jsonTokens (inv.jsonPath.getD "") = some tokens →
          ∀ actual, resolve messages.rendering document tokens = .ok actual →
            hasConstant actual = false ∧
              ∀ j, canonicalValue (ofParsed actual) = some j → PyJson.writable depth j = true

variable {messages limit depth inv content} {label : String}

/-- What is observed of a value that is found is written unless it holds a float or cannot be
written. -/
theorem written_observedParsed {finding : Finding} {actual : PyJson}
    (h : finding.observed = ofParsed actual) : Written depth finding ↔ hasConstant actual = false ∧
      ∀ j, canonicalValue (ofParsed actual) = some j → PyJson.writable depth j = true := by
  have hsome := canonicalValue_ofParsed actual
  rw [Written, h]
  cases hcanonical : canonicalValue (ofParsed actual) with
  | none =>
      rw [hcanonical] at hsome
      have hconstant : hasConstant actual = true := by simpa using hsome.symm
      simp [hconstant]
  | some j =>
      rw [hcanonical] at hsome
      have hconstant : hasConstant actual = false := by simpa using hsome.symm
      simp [hconstant]

theorem evaluateJsonField_undecoded (h : Py.decode content = none) :
    ∃ finding, evaluateJsonField messages limit inv content label = some finding ∧
      Written (depth + 1) finding := by
  unfold evaluateJsonField
  split
  · exact ⟨_, rfl, written_hex ..⟩
  · next hs => rw [h] at hs; cases hs

theorem evaluateJsonField_failure {written : String} {failure : PyJson.Failure}
    (hdecode : Py.decode content = some written)
    (hload : PyJson.loads limit written = .error failure) :
    (∃ finding, evaluateJsonField messages limit inv content label = some finding ∧
      Written depth finding) ↔ failure = .malformed := by
  unfold evaluateJsonField
  split
  · next hnone => rw [hdecode] at hnone; cases hnone
  · next t ht =>
      obtain rfl : written = t := Option.some.inj (hdecode.symm.trans ht)
      split
      · next hmalformed =>
          rw [hload] at hmalformed
          exact iff_of_true ⟨_, rfl, written_text ..⟩ (Except.error.inj hmalformed)
      · next hother herror =>
          rw [hload] at herror
          cases herror
          simpa using hother
      · next hok => rw [hload] at hok; cases hok

/-- A path that leads nowhere is a finding. -/
theorem evaluateJsonField_missing {written : String} {document : PyJson} {tokens : List PathToken}
    {e : String} (hdecode : Py.decode content = some written)
    (hload : PyJson.loads limit written = .ok document)
    (htokens : jsonTokens (inv.jsonPath.getD "") = some tokens)
    (hactual : resolve messages.rendering document tokens = .error e) :
    ∃ finding, evaluateJsonField messages limit inv content label = some finding ∧
      Written depth finding := by
  unfold evaluateJsonField
  split
  · next hnone => rw [hdecode] at hnone; cases hnone
  · next t ht =>
      obtain rfl : written = t := Option.some.inj (hdecode.symm.trans ht)
      split
      · next herror => rw [hload] at herror; cases herror
      · next herror => rw [hload] at herror; cases herror
      · next document' hdocument =>
          obtain rfl : document = document' := Except.ok.inj (hload.symm.trans hdocument)
          dsimp only
          rw [htokens, Option.bind_some]
          split
          · exact ⟨_, rfl, written_text ..⟩
          · next hok => rw [hactual] at hok; cases hok

/-- **When a field is found, missed or refused without an exception.** -/
theorem evaluateJsonField_written (htokens : (jsonTokens (inv.jsonPath.getD "")).isSome = true) :
    (∃ finding, evaluateJsonField messages limit inv content label = some finding ∧
      Written (depth + 1) finding) ↔ FieldFits messages limit (depth + 1) inv content := by
  obtain ⟨tokens, htokens⟩ := Option.isSome_iff_exists.1 htokens
  rw [FieldFits]
  cases hdecode : Py.decode content with
  | none => exact iff_of_true (evaluateJsonField_undecoded hdecode) nofun
  | some written =>
      simp only [Option.some.injEq, forall_eq']
      cases hload : PyJson.loads limit written with
      | error failure => simp [evaluateJsonField_failure hdecode hload]
      | ok document =>
          cases hactual : resolve messages.rendering document tokens with
          | error e =>
              have hmissing : ∃ finding,
                  evaluateJsonField messages limit inv content label = some finding ∧
                    Written (depth + 1) finding :=
                evaluateJsonField_missing hdecode hload htokens hactual
              simp [hmissing, htokens, hactual]
          | ok actual =>
              obtain ⟨finding, hfinding, -, hobserved⟩ := evaluateJsonField_found inv label hdecode
                hload htokens hactual
              simp [hfinding, htokens, hactual, written_observedParsed hobserved]

end Fields

/-! ### One invariant -/

/-- No byte string is longer than Python allows. -/
structure InvariantObservation.Sized (observation : InvariantObservation) : Prop where
  stdout : observation.stdout.length ≤ maxSize
  stderr : observation.stderr.length ≤ maxSize
  files : ∀ name content, observation.files.get? name = some content → content.length ≤ maxSize
  inputs : ∀ name content, observation.inputs.get? name = some content → content.length ≤ maxSize

/-- The expected value of a declaration is written, and its numbers have not too many digits. -/
structure DeclarationFits (depth : ℕ) (inv : BusinessInvariant) : Prop where
  expected : ∀ j, canonicalValue inv.expected = some j → PyJson.writable depth j = true
  numbers : ∀ n, some n ∈ [inv.recordLength, inv.offset, inv.length, inv.recordIndex,
    some inv.decimalPlaces] → DigitsFit n

/-- What an execution left behind for an invariant is evaluated without an exception, and what is
found is written. -/
def ObservationFits (messages : Messages) (limit depth : ℕ) (observation : InvariantObservation)
    (inv : BusinessInvariant) : Prop :=
  match inv.kind with
  | .exitCode => ∀ code, observation.exitCode = some code → DigitsFit code.natAbs
  | .fixedFieldTotal =>
      ∀ content, (readSource inv observation).1 = some content → TotalFits inv content
  | .jsonFieldEquals => ∀ content, (readSource inv observation).1 = some content →
      FieldFits messages limit depth inv content
  | _ => True

section One

variable {messages : Messages} {limit depth : ℕ} {observation : InvariantObservation}
  {inv : BusinessInvariant}

theorem readSource_sized (hsized : observation.Sized) {content : Bytes}
    (h : (readSource inv observation).1 = some content) : content.length ≤ maxSize := by
  unfold readSource at h
  cases hsource : inv.source <;> rw [hsource] at h
  · exact Option.some.inj h ▸ hsized.stdout
  · exact Option.some.inj h ▸ hsized.stderr
  · cases h
  · exact hsized.files _ _ h
  · exact hsized.inputs _ _ h

theorem canonicalItems_texts {items : List Value} (h : (items.all fun v => match v with
    | .str _ => true
    | _ => false) = true) : (canonicalItems items).isSome = true := by
  induction items with
  | nil => rfl
  | cons v vs ih =>
      rw [List.all_cons, Bool.and_eq_true] at h
      obtain ⟨js, hjs⟩ := Option.isSome_iff_exists.1 (ih h.2)
      cases v <;> first | cases h.1; done | rw [canonicalItems, hjs]; rfl

/-- An accepted declaration has a canonical form. -/
theorem accepted_canonical (h : inv.accepted = true) : (canonicalValue inv.expected).isSome = true := by
  rw [BusinessInvariant.accepted, Bool.and_eq_true] at h
  have hkind := h.2
  cases hk : inv.kind <;> rw [hk] at hkind <;> simp only [Bool.and_eq_true] at hkind
  case exitCode =>
    have hint := hkind.1.2
    cases he : inv.expected <;> rw [BusinessInvariant.expectsInt, he] at hint <;>
      first | rfl | cases hint
  case exactLines =>
    have hlines := hkind.1.2
    cases he : inv.expected <;> rw [BusinessInvariant.expectsLines, he] at hlines <;>
      first | rw [canonicalValue, Option.isSome_map]; exact canonicalItems_texts hlines | cases hlines
  case lineCount =>
    have hcount := hkind.1.2
    cases he : inv.expected <;> rw [BusinessInvariant.expectsCount, he] at hcount <;>
      first | rfl | cases hcount
  case recordCount =>
    have hcount := hkind.1.2
    cases he : inv.expected <;> rw [BusinessInvariant.expectsCount, he] at hcount <;>
      first | rfl | cases hcount
  case fixedFieldEquals =>
    have hbytes := hkind.1.2
    cases he : inv.expected <;> rw [BusinessInvariant.expectsBytes, he] at hbytes <;>
      first | rfl | cases hbytes
  case fixedFieldTotal =>
    have htotal := hkind.1.2
    cases he : inv.expected <;> rw [expectedDecimal, he] at htotal <;>
      first | rfl | cases htotal
  case jsonFieldEquals => exact hkind.1.2

theorem accepted_expectedDecimal (h : inv.accepted = true) (hkind : inv.kind = .fixedFieldTotal) :
    ∃ expected, expectedDecimal inv = some expected := by
  rw [BusinessInvariant.accepted, hkind] at h
  simp only [Bool.and_eq_true] at h
  exact Option.isSome_iff_exists.1 h.2.1.2

theorem accepted_jsonTokens (h : inv.accepted = true) (hkind : inv.kind = .jsonFieldEquals) :
    (jsonTokens (inv.jsonPath.getD "")).isSome = true := by
  rw [BusinessInvariant.accepted, hkind] at h
  simp only [Bool.and_eq_true] at h
  exact h.2.1.1.2

theorem exists_outcome {found : Option Finding} :
    (∃ o, found.map (outcome inv) = some o ∧ Written depth o.finding) ↔
      ∃ finding, found = some finding ∧ Written depth finding := by
  cases found <;> simp [outcome]

/-- **When an invariant is evaluated and its finding is written.** -/
theorem finding_written_iff (haccepted : inv.accepted = true) (hsized : observation.Sized) :
    (∃ o, evaluateOne messages limit inv observation = some o ∧ Written (depth + 2) o.finding) ↔
      ObservationFits messages limit (depth + 2) observation inv := by
  rw [evaluateOne, exists_outcome, ObservationFits]
  cases hread : readSource inv observation with
  | mk read label =>
  have hsize : ∀ content, read = some content → content.length ≤ maxSize := by
    intro content hcontent
    have hsource : (readSource inv observation).1 = some content := by
      rw [hread]
      exact hcontent
    exact readSource_sized hsized hsource
  cases hkind : inv.kind with
  | exitCode =>
      dsimp only
      cases hcode : observation.exitCode with
      | none =>
          have hfinding : evaluateExitCode inv observation =
            observedText false "MISSING" "execution reported no exit code" := by
            rw [evaluateExitCode, hcode]
          simp [hfinding, written_text]
      | some code =>
          have hwritten : Written (depth + 2) (evaluateExitCode inv observation) ↔
              DigitsFit code.natAbs := by
            rw [evaluateExitCode, hcode]
            dsimp only
            split_ifs <;> exact written_int
          simp [hwritten]
  | fixedFieldTotal =>
      obtain ⟨expected, hexpected⟩ := accepted_expectedDecimal haccepted hkind
      cases read with
      | none => simp [written_text]
      | some content =>
          dsimp only
          simp only [Option.some.injEq, forall_eq']
          rw [← evaluateFixedTotal_isSome label hexpected]
          constructor
          · rintro ⟨finding, hfinding, -⟩
            exact ⟨finding, hfinding⟩
          · rintro ⟨finding, hfinding⟩
            exact ⟨finding, hfinding, written_evaluateFixedTotal (hsize content rfl) hfinding⟩
  | jsonFieldEquals =>
      have htokens := accepted_jsonTokens haccepted hkind
      cases read with
      | none => simp [written_text]
      | some content =>
          dsimp only
          simp only [Option.some.injEq, forall_eq']
          exact evaluateJsonField_written htokens
  | recordCount =>
      cases read with
      | none => simp [written_text]
      | some content => simp [written_evaluateRecordCount (hsize content rfl)]
  | fixedFieldEquals =>
      cases read with
      | none => simp [written_text]
      | some content => simp [written_evaluateFixedField (hsize content rfl)]
  | exactLines =>
      cases read with
      | none => simp [written_text]
      | some content => simp [written_evaluateLines (hsize content rfl)]
  | lineCount =>
      cases read with
      | none => simp [written_text]
      | some content => simp [written_evaluateLines (hsize content rfl)]

/-! ### Entries -/

theorem writable_arr {xs : List PyJson} : PyJson.writable (depth + 1) (.arr xs) = true ↔
    ∀ x ∈ xs, PyJson.writable depth x = true := by
  rw [PyJson.writable, PyJson.writableItems_iff]

theorem writable_optNat {n : Option ℕ} :
    PyJson.writable depth (optNat n) = true ↔ ∀ k, n = some k → DigitsFit k := by
  cases n with
  | none => simp [optNat, PyJson.writable]
  | some k => simp [optNat, writable_int]

theorem writable_optText (s : Option String) : PyJson.writable depth (optText s) = true := by
  cases s with
  | none => simp [optText, PyJson.writable]
  | some s => exact writable_text depth s

/-- **When a canonical declaration is written.** -/
theorem toCanonicalDict_writable {j : PyJson} (h : toCanonicalDict inv = some j) :
    PyJson.writable (depth + 1) j = true ↔ DeclarationFits depth inv := by
  obtain ⟨expected, hexpected, rfl⟩ := Option.map_eq_some_iff.1 h
  have hdict : PyJson.writable (depth + 1) (dict (definitionEntries inv expected)) = true ↔ _ :=
    writable_dict_iff (nodup_definitionEntries inv expected)
  refine hdict.trans ?_
  simp only [definitionEntries, List.forall_mem_cons, List.not_mem_nil, false_implies,
    implies_true, and_true, true_and, writable_text, writable_optText, writable_optNat,
    writable_int, Int.natAbs_natCast]
  constructor
  · rintro ⟨hvalue, hrecordLength, hoffset, hlength, hrecordIndex, hplaces⟩
    refine ⟨fun j hj => ?_, fun n hn => ?_⟩
    · rwa [← Option.some.inj (hexpected.symm.trans hj)]
    · simp only [List.mem_cons, List.not_mem_nil, or_false, Option.some.injEq] at hn
      rcases hn with hn | hn | hn | hn | rfl
      · exact hrecordLength n hn.symm
      · exact hoffset n hn.symm
      · exact hlength n hn.symm
      · exact hrecordIndex n hn.symm
      · exact hplaces
  · intro hfits
    refine ⟨hfits.expected _ hexpected, ?_, ?_, ?_, ?_, ?_⟩
    · exact fun n hn => hfits.numbers n (by simp [hn])
    · exact fun n hn => hfits.numbers n (by simp [hn])
    · exact fun n hn => hfits.numbers n (by simp [hn])
    · exact fun n hn => hfits.numbers n (by simp [hn])
    · exact hfits.numbers _ (by simp)

/-- **When an outcome is written.** -/
theorem toDict_writable {o : InvariantOutcome} :
    (∃ j, o.toDict = some j ∧ PyJson.writable (depth + 1) j = true) ↔
      (∃ expected, canonicalValue o.expected = some expected ∧
        PyJson.writable depth expected = true) ∧ Written depth o.finding := by
  constructor
  · rintro ⟨j, hj, hw⟩
    obtain ⟨expected, hexpected, hj⟩ := Option.bind_eq_some_iff.1 hj
    obtain ⟨observed, hobserved, rfl⟩ := Option.map_eq_some_iff.1 hj
    have hall := (writable_dict_iff (nodup_outcomeEntries o expected observed)).1 hw
    simp only [outcomeEntries, List.forall_mem_cons] at hall
    exact ⟨⟨expected, hexpected, hall.2.2.2.2.1⟩, observed, hobserved, hall.2.2.2.2.2.1⟩
  · rintro ⟨⟨expected, hexpected, hw⟩, observed, hobserved, hw'⟩
    refine ⟨dict (outcomeEntries o expected observed), ?_, writable_dict ?_⟩
    · rw [InvariantOutcome.toDict, hexpected, Option.bind_some, hobserved]
      rfl
    · simp [outcomeEntries, writable_text, hw, hw', PyJson.writable]

end One

/-! ### Reports -/

section Reports

variable {messages : Messages} {limit depth : ℕ} {observation : InvariantObservation}
  {l : List BusinessInvariant} {r : Report}

/-- **When a report is written**, its outcomes having a canonical form. -/
theorem reportDocument_writable {docs : List PyJson} (hcount : r.outcomes.length ≤ maxSize) :
    PyJson.writable (depth + 3) (dict (reportEntries r docs)) = true ↔
      (∀ j ∈ r.definitions, PyJson.writable (depth + 1) j = true) ∧
        ∀ j ∈ docs, PyJson.writable (depth + 1) j = true := by
  have hfailed : (r.outcomes.countP fun o => !o.finding.passed) ≤ maxSize :=
    List.countP_le_length.trans hcount
  have hdict : PyJson.writable (depth + 3) (dict (reportEntries r docs)) = true ↔ _ :=
    writable_dict_iff (nodup_reportEntries r docs)
  refine hdict.trans ?_
  simp only [reportEntries, List.forall_mem_cons, List.not_mem_nil, false_implies,
    implies_true, and_true, true_and, writable_text, writable_int, Int.natAbs_natCast,
    writable_arr, digitsFit_of_le hcount, digitsFit_of_le hfailed]

/-- What a report needs to be written: every declaration, and what is found for it. -/
def Reportable (messages : Messages) (limit : ℕ) (observation : InvariantObservation)
    (l : List BusinessInvariant) : Prop :=
  ∀ inv ∈ l, DeclarationFits (limit - 3) inv ∧
    ObservationFits messages limit (limit - 3) observation inv

theorem Built.reportable (hbuilt : Built messages (depth + 5) l observation r)
    (haccepted : ∀ inv ∈ l, inv.accepted = true) (hsized : observation.Sized)
    (hcount : l.length ≤ maxSize) {bytes : Bytes} (hbytes : r.toBytes (depth + 5) = some bytes) :
    Reportable messages (depth + 5) observation l := by
  obtain ⟨document, hdocument, hdumps⟩ := Option.bind_eq_some_iff.1 hbytes
  obtain ⟨docs, hdocs, rfl⟩ := Option.map_eq_some_iff.1 hdocument
  have hok := Py.toOption_eq_some.1 hdumps
  rw [canonicalJson, PyJson.dumps] at hok
  split_ifs at hok with hwritable
  have houtcomes := evaluateInvariants_outcomes hbuilt.outcomes
  have hlength := List.Forall₂.length_eq houtcomes
  rw [sortedById, List.length_insertionSort] at hlength
  obtain ⟨hdefinitions, hwritten⟩ := (reportDocument_writable (hlength ▸ hcount)).1 hwritable
  intro inv hinv
  have hsorted := mem_sortedById.2 hinv
  obtain ⟨j, hj, hcanonical⟩ := Py.exists_of_mapM_some hbuilt.definitions inv hsorted
  refine ⟨(toCanonicalDict_writable hcanonical).1 (hdefinitions j hj), ?_⟩
  refine (finding_written_iff (haccepted inv hinv) hsized).1 ?_
  have hevaluated := hbuilt.outcomes
  unfold evaluateInvariants at hevaluated
  split_ifs at hevaluated
  obtain ⟨o, ho, hevaluate⟩ := Py.exists_of_mapM_some hevaluated inv hsorted
  obtain ⟨doc, hdoc, hdict⟩ := Py.exists_of_mapM_some hdocs o ho
  exact ⟨o, hevaluate, (toDict_writable.1 ⟨doc, hdict, hwritten doc hdoc⟩).2⟩

theorem exists_definitions (haccepted : ∀ inv ∈ l, inv.accepted = true)
    (hfits : ∀ inv ∈ l, DeclarationFits depth inv) :
    ∃ definitions, canonicalDefinitions l = some definitions ∧
      ∀ j ∈ definitions, PyJson.writable (depth + 1) j = true := by
  have hall : ∀ inv ∈ sortedById l, ∃ j, toCanonicalDict inv = some j := by
    intro inv hinv
    obtain ⟨expected, hexpected⟩ := Option.isSome_iff_exists.1
      (accepted_canonical (haccepted inv (mem_sortedById.1 hinv)))
    exact ⟨_, by rw [toCanonicalDict, hexpected]; rfl⟩
  obtain ⟨definitions, hdefinitions⟩ := Py.exists_mapM_some hall
  refine ⟨definitions, hdefinitions, fun j hj => ?_⟩
  obtain ⟨inv, hinv, hcanonical⟩ := Py.mem_of_mapM_some hdefinitions j hj
  exact (toCanonicalDict_writable hcanonical).2 (hfits inv (mem_sortedById.1 hinv))

/-- A report is built and written when everything fits. -/
theorem exists_toBytes (hnil : l ≠ []) (hids : (l.map BusinessInvariant.invariantId).Nodup)
    (haccepted : ∀ inv ∈ l, inv.accepted = true) (hsized : observation.Sized)
    (hcount : l.length ≤ maxSize) (hfits : Reportable messages (depth + 5) observation l) :
    ∃ bytes, (buildReport messages (depth + 5) l observation).bind (Report.toBytes (depth + 5)) =
      some bytes := by
  obtain ⟨definitions, hdefinitions, hwritten⟩ := exists_definitions haccepted
    fun inv hinv => (hfits inv hinv).1
  have hdigest : ∃ digest, digestOf (depth + 5) definitions = .ok digest := by
    have hall : PyJson.writable (depth + 5) (.arr definitions) = true := by
      exact writable_arr.2 fun j hj => PyJson.writable_succ (depth + 3) j (hwritten j hj)
    rw [digestOf, canonicalJson, PyJson.dumps, if_pos hall]
    exact ⟨_, rfl⟩
  obtain ⟨digest, hdigest⟩ := hdigest
  -- every invariant has an outcome
  have hevaluate : ∀ inv ∈ sortedById l, ∃ o,
      evaluateOne messages (depth + 5) inv observation = some o := by
    intro inv hinv
    have hinv := mem_sortedById.1 hinv
    obtain ⟨o, ho, -⟩ := (finding_written_iff (haccepted inv hinv) hsized).2 (hfits inv hinv).2
    exact ⟨o, ho⟩
  obtain ⟨os, hos⟩ := Py.exists_mapM_some hevaluate
  have houtcomes : evaluateInvariants messages (depth + 5) l observation = some os := by
    rw [evaluateInvariants, if_pos hids, hos]
  have hdict : ∀ o ∈ os, ∃ j, o.toDict = some j ∧ PyJson.writable (depth + 3) j = true := by
    intro o ho
    obtain ⟨inv, hinv, hone⟩ := Py.mem_of_mapM_some hos o ho
    have hinv := mem_sortedById.1 hinv
    obtain ⟨o', ho', hfinding⟩ :=
      (finding_written_iff (haccepted inv hinv) hsized).2 (hfits inv hinv).2
    obtain rfl : o' = o := Option.some.inj (ho'.symm.trans hone)
    obtain ⟨expected, hexpected⟩ := Option.isSome_iff_exists.1
      (accepted_canonical (haccepted inv hinv))
    refine toDict_writable.2 ⟨⟨expected, ?_, (hfits inv hinv).1.expected _ hexpected⟩, hfinding⟩
    rwa [(evaluateOne_outcome hone).2]
  obtain ⟨docs, hdocs⟩ := Py.exists_mapM_some fun o ho => (hdict o ho).imp fun _ => And.left
  have hbuilt : buildReport messages (depth + 5) l observation = some ⟨digest, definitions, os⟩ := by
    rw [buildReport, if_neg hnil, hdefinitions, Option.bind_some, hdigest]
    simp only [Except.toOption, Option.bind_some, houtcomes, Option.map_some]
  have hlength := List.Forall₂.length_eq (evaluateInvariants_outcomes houtcomes)
  rw [sortedById, List.length_insertionSort] at hlength
  have hdocument : PyJson.writable (depth + 5)
      (dict (reportEntries ⟨digest, definitions, os⟩ docs)) = true := by
    refine (reportDocument_writable (hlength ▸ hcount)).2 ⟨hwritten, fun doc hdoc => ?_⟩
    obtain ⟨o, ho, hdoc⟩ := Py.mem_of_mapM_some hdocs doc hdoc
    obtain ⟨j, hj, hw⟩ := hdict o ho
    exact Option.some.inj (hj.symm.trans hdoc) ▸ hw
  have htoDict : Report.toDict ⟨digest, definitions, os⟩ =
      some (dict (reportEntries ⟨digest, definitions, os⟩ docs)) := by
    rw [Report.toDict, hdocs]
    rfl
  rw [hbuilt, Option.bind_some, Report.toBytes, htoDict, Option.bind_some, canonicalJson,
    PyJson.dumps, if_pos hdocument]
  exact ⟨_, rfl⟩

end Reports

theorem accepted_expectsDecimal : expectsDecimal.accepted = true := by decide +kernel

theorem sized_wroteA {value : PyJson} (h : (wroteA value).stdout.length ≤ maxSize) :
    (wroteA value).Sized where
  stdout := h
  stderr := Nat.zero_le _
  files := nofun
  inputs := nofun

end CobolJava.Business
