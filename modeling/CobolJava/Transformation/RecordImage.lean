/-
**Images of a record.**

What the generated Java writes for a record and how its statements read a record back, window by
window.

Main definitions:

* `fieldImage`, `recordImage` — the image of one field and of a record;
* `decodeField`, `windows`, `storeWindows` — reading a record back.

Main results:

* `eval_assembly` — the image is the concatenation of the images of the fields;
* `runAssignments_split` — the statements read each window of the padded record;
* `storeWindows_same`, `storeWindows_decoded` — the fields after the windows were read;
* `pad_zero_iff` — the zeros whose image is all zeros.
-/

import CobolJava.Transformation.RecordLayout

set_option autoImplicit false

namespace CobolJava.Transformation

open Java (digitsAt zeroFill replaceTrailingBlanks blankBeforeTerminator)

/-! ### Padding -/

@[simp] theorem length_pad (s : List Char) (width : ℕ) (numeric : Bool) :
    (pad s width numeric).length = width := by
  cases numeric with
  | true =>
      have := Java.length_zeroFill width s
      simp only [pad, if_true, List.length_drop]
      omega
  | false =>
      simp only [pad, Bool.false_eq_true, if_false, List.length_take, List.length_append,
        List.length_replicate]
      omega

theorem pad_of_length {s : List Char} {width : ℕ} (h : s.length = width) (numeric : Bool) :
    pad s width numeric = s := by
  subst h
  cases numeric <;> simp [pad, Java.zeroFill]

theorem pad_numeric_of_length_le {s : List Char} {width : ℕ} (h : s.length ≤ width) :
    pad s width true = zeroFill width s := by
  have := Java.length_zeroFill width s
  simp only [pad, if_true]
  rw [Nat.sub_eq_zero_of_le (by omega), List.drop_zero]

theorem pad_text_of_length_le {s : List Char} {width : ℕ} (h : s.length ≤ width) :
    pad s width false = s ++ List.replicate (width - s.length) ' ' := by
  simp only [pad, Bool.false_eq_true, if_false]
  refine List.take_of_length_le ?_
  simp only [List.length_append, List.length_replicate]
  omega

theorem pad_append_blanks {s : List Char} {k width : ℕ} (h : s.length + k = width) :
    pad s width false = s ++ List.replicate k ' ' := by
  rw [pad_text_of_length_le (by omega), ← h, Nat.add_sub_cancel_left]

/-! ### Fields and windows -/

def fieldImage (item : RecordItem) (value : FieldValue) : List Char :=
  pad value.valueOf item.picLength item.isNumeric

def recordImage (items : List RecordItem) (fields : JavaFields) : List Char :=
  items.flatMap fun item => fieldImage item (fields item.field)

/-- The value one window of a record is read as. -/
def decodeField (item : RecordItem) (window : List Char) : Option FieldValue :=
  if item.isNumeric then
    if item.decimalPlaces > 0 then (Java.BigDecimal.parse (Java.trim window)).map .decimal
    else if item.picLength > 9 then
      (Java.parseInteger javaLongMin javaLongMax (Java.trim window)).map .long
    else (Java.parseInteger javaIntMin javaIntMax (Java.trim window)).map .int
  else some (.string window)

def windows : List RecordItem → List Char → List (RecordItem × List Char)
  | [], _ => []
  | item :: rest, s =>
      (item, s.take item.picLength) :: windows rest (s.drop item.picLength)

/-- The fields after each window was read. -/
def storeWindows (fields : JavaFields) : List (RecordItem × List Char) → Option JavaFields
  | [] => some fields
  | (item, window) :: rest => do
      let value ← decodeField item window
      storeWindows (Function.update fields item.field value) rest

/-! ### The generated Java -/

section Generated

variable {items : List RecordItem} {fields : JavaFields}

theorem recordLayout_eq (h : ∀ item ∈ items, item.IsElementary) :
    recordLayout items = items.map layoutEntry := by
  induction items with
  | nil => rfl
  | cons item rest ih =>
      have hitem := h item List.mem_cons_self
      have hpos := hitem.positivePicture
      rw [recordLayout, List.filterMap_cons_some (b := layoutEntry item), List.map_cons,
        ← ih fun i hi => h i (List.mem_cons_of_mem _ hi)]
      · rfl
      · simp [hitem.notConditionName, hitem.notGroup]
        omega

theorem recordTotalWidth_eq (h : ∀ item ∈ items, item.IsElementary) :
    recordTotalWidth items = (items.map (·.picLength)).sum := by
  rw [recordTotalWidth, recordLayout_eq h, List.map_map]
  congr 2
  funext item
  exact item.width_eq

theorem text_of_not_numeric {item : RecordItem} (hitem : item.IsElementary) {value : FieldValue}
    (hvalue : FieldWithin item value) (hnumeric : item.isNumeric = false) :
    ∃ s, value = .string s := by
  have htype : mapPicToJavaType item.toDataItem = .string := by
    simp [mapPicToJavaType, hitem.noSubstantiveChildren, hnumeric]
  cases value with
  | string s => exact ⟨s, rfl⟩
  | int n => exact absurd (htype.symm.trans hvalue.1) (by decide)
  | long n => exact absurd (htype.symm.trans hvalue.1) (by decide)
  | decimal d => exact absurd (htype.symm.trans hvalue.1) (by decide)

theorem eval_assemblyPart {item : RecordItem} (hitem : item.IsElementary)
    (hvalue : FieldWithin item (fields item.field)) :
    (assemblyPart (layoutEntry item)).eval fields =
      some (.string (fieldImage item (fields item.field))) := by
  by_cases hnumeric : item.isNumeric = true
  · simp [assemblyPart, layoutEntry, hnumeric, RecordExpression.eval, FieldValue.text?, fieldImage]
  · rw [Bool.not_eq_true] at hnumeric
    obtain ⟨s, hs⟩ := text_of_not_numeric hitem hvalue hnumeric
    simp [assemblyPart, layoutEntry, hnumeric, RecordExpression.eval, FieldValue.text?, fieldImage,
      hs, FieldValue.valueOf]

theorem eval_foldl_concat {α : Type*} {part : α → RecordExpression} {image : α → List Char}
    {xs : List α} (h : ∀ x ∈ xs, (part x).eval fields = some (.string (image x)))
    {acc : RecordExpression} {s : List Char} (hacc : acc.eval fields = some (.string s)) :
    ((xs.map part).foldl .concat acc).eval fields = some (.string (s ++ xs.flatMap image)) := by
  induction xs generalizing acc s with
  | nil => simpa using hacc
  | cons x rest ih =>
      have hx := h x List.mem_cons_self
      have hconcat : (RecordExpression.concat acc (part x)).eval fields =
          some (.string (s ++ image x)) := by
        simp [RecordExpression.eval, hacc, hx, FieldValue.text?]
      rw [List.map_cons, List.foldl_cons,
        ih (fun y hy => h y (List.mem_cons_of_mem _ hy)) hconcat, List.flatMap_cons,
        List.append_assoc]

theorem eval_assembly (layout : RecordLayout) (contentVar : List Char)
    (h : ∀ item ∈ layout.items, FieldWithin item (fields item.field)) :
    (assemblyExpression layout.items contentVar).bind (·.eval fields) =
      some (.string (recordImage layout.items fields)) := by
  obtain ⟨items, hne, helem⟩ := layout
  cases items with
  | nil => exact absurd rfl hne
  | cons item rest =>
      have hpart : ∀ i ∈ item :: rest, (assemblyPart (layoutEntry i)).eval fields =
          some (.string (fieldImage i (fields i.field))) :=
        fun i hi => eval_assemblyPart (helem i hi) (h i hi)
      rw [assemblyExpression, recordLayout_eq helem, List.map_map, List.map_cons]
      exact eval_foldl_concat (fun i hi => hpart i (List.mem_cons_of_mem _ hi))
        (hpart item List.mem_cons_self)

theorem length_recordImage (items : List RecordItem) (fields : JavaFields) :
    (recordImage items fields).length = (items.map (·.picLength)).sum := by
  simp [recordImage, List.length_flatMap, fieldImage]

theorem eval_numericParseCall {item : RecordItem} {object : RecordExpression} {window : List Char}
    (h : object.eval fields = some (.string window)) :
    (if item.isNumeric then numericParseCall item object else object).eval fields =
      decodeField item window := by
  unfold decodeField numericParseCall
  split_ifs <;>
    simp [RecordExpression.eval, h, FieldValue.text?, Option.map_eq_bind]

/-- The statements read each window of the padded record. -/
theorem runAssignments_split {readVar : List Char} {total : ℕ} {before rest read : List Char}
    (hitems : ∀ item ∈ items, item.field ≠ readVar)
    (hread : fields readVar = .string read) (hpad : pad read total false = before ++ rest)
    (hlength : (items.map (·.picLength)).sum ≤ rest.length) :
    runAssignments fields
        (splitStatements (.pad (.variableRef readVar) total false) before.length items) =
      storeWindows fields (windows items rest) := by
  induction items generalizing fields before rest with
  | nil => rfl
  | cons item items ih =>
      have hsum : item.picLength + (items.map (·.picLength)).sum ≤ rest.length := by
        simpa using hlength
      have hwindow : (RecordExpression.substring (.pad (.variableRef readVar) total false)
          before.length (before.length + item.width)).eval fields =
          some (.string (rest.take item.picLength)) := by
        have hlen : (rest.take item.picLength).length = item.picLength := by
          rw [List.length_take]
          omega
        have := Java.substring_append before (rest.take item.picLength) (rest.drop item.picLength)
        rw [List.append_assoc, List.take_append_drop, hlen] at this
        simp [RecordExpression.eval, hread, FieldValue.text?, hpad, this]
      rw [splitStatements, runAssignments, windows, storeWindows, eval_numericParseCall hwindow]
      -- the read variable is not a field, so the stores leave it alone
      cases decodeField item (rest.take item.picLength) with
      | none => rfl
      | some value =>
          have hstep := @ih (Function.update fields item.field value)
            (before ++ rest.take item.picLength) (rest.drop item.picLength)
            (fun i hi => hitems i (List.mem_cons_of_mem _ hi))
            (by rw [Function.update_of_ne (hitems item List.mem_cons_self).symm, hread])
            (by rw [hpad, List.append_assoc, List.take_append_drop])
            (by rw [List.length_drop]; omega)
          have hoffset : (before ++ rest.take item.picLength).length =
              before.length + item.width := by
            rw [List.length_append, List.length_take, item.width_eq]
            omega
          rw [hoffset] at hstep
          exact hstep

end Generated

/-! ### Stores -/

section Stores

variable {ws : List (RecordItem × List Char)} {fields restored source : JavaFields}

theorem storeWindows_other (h : storeWindows fields ws = some restored) {name : List Char}
    (hname : ∀ w ∈ ws, w.1.field ≠ name) : restored name = fields name := by
  induction ws generalizing fields with
  | nil =>
      obtain rfl : fields = restored := Option.some.inj h
      rfl
  | cons w rest ih =>
      obtain ⟨value, -, hrest⟩ := Option.bind_eq_some_iff.1 h
      rw [ih hrest fun u hu => hname u (List.mem_cons_of_mem _ hu),
        Function.update_of_ne (hname w List.mem_cons_self).symm]

/-- When each window is read as a value like the one of its field in `source`, so is every field
after the stores: of two windows of one field the later one counts. -/
theorem storeWindows_same
    (h : ∀ w ∈ ws, ∃ value, decodeField w.1 w.2 = some value ∧ value.Same (source w.1.field)) :
    ∃ restored, storeWindows fields ws = some restored ∧
      ∀ w ∈ ws, (restored w.1.field).Same (source w.1.field) := by
  induction ws generalizing fields with
  | nil => exact ⟨fields, rfl, by simp⟩
  | cons w rest ih =>
      obtain ⟨value, hdecode, hsame⟩ := h w List.mem_cons_self
      obtain ⟨restored, hrun, hrest⟩ := @ih (Function.update fields w.1.field value)
        fun u hu => h u (List.mem_cons_of_mem _ hu)
      refine ⟨restored, Option.bind_eq_some_iff.2 ⟨value, hdecode, hrun⟩, fun u hu => ?_⟩
      rcases List.mem_cons.1 hu with rfl | hu
      · by_cases hlater : ∃ t ∈ rest, t.1.field = u.1.field
        · obtain ⟨t, ht, hfield⟩ := hlater
          rw [← hfield]
          exact hrest t ht
        · push Not at hlater
          rw [storeWindows_other hrun hlater, Function.update_self]
          exact hsame
      · exact hrest u hu

/-- The value of a field after the stores was read from a window of that field. -/
theorem storeWindows_decoded (h : storeWindows fields ws = some restored)
    {w : RecordItem × List Char} (hw : w ∈ ws) :
    ∃ t ∈ ws, t.1.field = w.1.field ∧ decodeField t.1 t.2 = some (restored w.1.field) := by
  induction ws generalizing fields w with
  | nil => exact absurd hw (by simp)
  | cons u rest ih =>
      obtain ⟨value, hdecode, hrest⟩ := Option.bind_eq_some_iff.1 h
      rcases List.mem_cons.1 hw with rfl | hw
      · by_cases hlater : ∃ t ∈ rest, t.1.field = w.1.field
        · obtain ⟨t, ht, hfield⟩ := hlater
          obtain ⟨r, hr, hrfield, hrdecode⟩ := ih hrest ht
          rw [hfield] at hrfield hrdecode
          exact ⟨r, List.mem_cons_of_mem _ hr, hrfield, hrdecode⟩
        · push Not at hlater
          have hlast : restored w.1.field = value := by
            rw [storeWindows_other hrest hlater, Function.update_self]
          exact ⟨w, List.mem_cons_self, rfl, by rw [hdecode, hlast]⟩
      · obtain ⟨t, ht, hfield⟩ := ih hrest hw
        exact ⟨t, List.mem_cons_of_mem _ ht, hfield⟩

theorem storeWindows_last {w : RecordItem × List Char}
    (h : storeWindows fields (ws ++ [w]) = some restored) :
    decodeField w.1 w.2 = some (restored w.1.field) := by
  induction ws generalizing fields with
  | nil =>
      obtain ⟨value, hdecode, hrest⟩ := Option.bind_eq_some_iff.1 h
      rw [← Option.some.inj hrest, Function.update_self, hdecode]
  | cons u rest ih =>
      obtain ⟨value, -, hrest⟩ := Option.bind_eq_some_iff.1 h
      exact ih hrest

end Stores

/-! ### Windows -/

theorem windows_recordImage (items : List RecordItem) (fields : JavaFields) :
    windows items (recordImage items fields) =
      items.map fun item => (item, fieldImage item (fields item.field)) := by
  induction items with
  | nil => rfl
  | cons item rest ih =>
      have hlen : (fieldImage item (fields item.field)).length = item.picLength := length_pad _ _ _
      rw [recordImage, List.flatMap_cons, ← recordImage, windows, List.map_cons,
        List.take_left' hlen, List.drop_left' hlen, ih]

theorem windows_append_singleton (items : List RecordItem) (item : RecordItem) (s : List Char) :
    windows (items ++ [item]) s = windows items s ++
      [(item, (s.drop (items.map (·.picLength)).sum).take item.picLength)] := by
  induction items generalizing s with
  | nil => rfl
  | cons i rest ih =>
      rw [List.cons_append, windows, windows, ih, List.drop_drop, List.map_cons, List.sum_cons]
      rfl

/-! ### Zero-filled images -/

theorem pad_eq_zeros_iff {s : List Char} {width : ℕ} :
    pad s width true = List.replicate width '0' ↔ ∀ c ∈ s.drop (s.length - width), c = '0' := by
  have hpad : pad s width true =
      List.replicate (width - s.length) '0' ++ s.drop (s.length - width) := by
    have := Java.length_zeroFill width s
    simp only [pad, if_true]
    rcases le_total s.length width with hle | hle
    · rw [Nat.sub_eq_zero_of_le (by omega), Nat.sub_eq_zero_of_le hle, List.drop_zero,
        List.drop_zero, zeroFill]
    · simp [zeroFill, Nat.sub_eq_zero_of_le hle]
  rw [hpad, List.eq_replicate_iff]
  constructor
  · rintro ⟨-, h⟩ c hc
    exact h c (List.mem_append_right _ hc)
  · intro h
    refine ⟨by rw [← hpad]; exact length_pad _ _ _, fun c hc => ?_⟩
    rcases List.mem_append.1 hc with hc | hc
    · exact List.eq_of_mem_replicate hc
    · exact h c hc

/-- The last characters of a text are zeros only behind its last other character. -/
theorem last_zeros_mark {p q : List Char} {c : Char} (hc : c ≠ '0') (width : ℕ) :
    (∀ x ∈ (p ++ c :: q).drop ((p ++ c :: q).length - width), x = '0') ↔
      width ≤ q.length ∧ ∀ x ∈ q.drop (q.length - width), x = '0' := by
  have hlen : (p ++ c :: q).length = p.length + 1 + q.length := by
    rw [List.length_append, List.length_cons]
    omega
  rw [hlen]
  by_cases hle : width ≤ q.length
  · have hsplit : p.length + 1 + q.length - width = (p ++ [c]).length + (q.length - width) := by
      rw [List.length_append, List.length_singleton]
      omega
    have happend : p ++ c :: q = (p ++ [c]) ++ q := by simp
    rw [hsplit, happend, List.drop_length_add_append]
    simp [hle]
  · rw [List.drop_append_of_le_length (by omega)]
    constructor
    · intro h
      exact absurd (h c (List.mem_append_right _ List.mem_cons_self)) hc
    · rintro ⟨h, -⟩
      exact absurd h hle

/-- The scales at which a zero fills the width with zeros. -/
def ZeroFillsWidth (scale : ℤ) (width : ℕ) : Prop :=
  (0 < scale ∧ scale ≤ 6 ∧ (width : ℤ) ≤ scale) ∨ (10 ^ width : ℤ) ∣ scale

/-- A zero fills the width with zeros when it shows that many decimals, or an exponent that ends
with that many zeros. -/
theorem pad_zero_iff (scale : ℤ) {width : ℕ} (hwidth : 0 < width) :
    pad (Java.BigDecimal.toText ⟨0, scale⟩) width true = List.replicate width '0' ↔
      ZeroFillsWidth scale width := by
  rw [pad_eq_zeros_iff, Java.BigDecimal.toText_zero, ZeroFillsWidth]
  by_cases hzero : scale = 0
  · rw [if_pos hzero, hzero]
    refine iff_of_true (fun c hc => ?_) (Or.inr (dvd_zero _))
    simpa using List.mem_of_mem_drop hc
  rw [if_neg hzero]
  by_cases hplain : 0 ≤ scale ∧ scale ≤ 6
  · -- a point before `scale` zeros
    rw [if_pos hplain]
    have hdvd : ¬ (10 ^ width : ℤ) ∣ scale := fun h => by
      have hpow : (10 : ℤ) ≤ 10 ^ width := le_self_pow₀ (by norm_num) hwidth.ne'
      have := Int.le_of_dvd (by omega) h
      omega
    have hmark := @last_zeros_mark ['0'] (List.replicate scale.toNat '0') '.' (by decide) width
    rw [List.singleton_append] at hmark
    rw [hmark, List.length_replicate]
    constructor
    · rintro ⟨hle, -⟩
      exact Or.inl ⟨by omega, hplain.2, by omega⟩
    · rintro (⟨-, -, hle⟩ | hdiv)
      · exact ⟨by omega, fun c hc => List.eq_of_mem_replicate (List.mem_of_mem_drop hc)⟩
      · exact absurd hdiv hdvd
  · -- an exponent: its digits are those of the scale
    rw [if_neg hplain]
    set mark : Char := if scale < 0 then '+' else '-' with hmarkDef
    have hne : mark ≠ '0' := by
      rw [hmarkDef]
      split_ifs <;> decide
    have hmark := @last_zeros_mark ['0', 'E'] (Nat.toDigits 10 scale.natAbs) mark hne width
    rw [List.cons_append, List.singleton_append] at hmark
    have hdigits : ∀ c ∈ Nat.toDigits 10 scale.natAbs, c.isDigit = true :=
      fun c hc => Nat.isDigit_of_mem_toDigits (by decide) (by decide) hc
    have hdvd : (10 ^ width : ℤ) ∣ scale ↔ 10 ^ width ∣ scale.natAbs := by
      rw [← Int.natCast_dvd]
      norm_cast
    rw [hmark, hdvd]
    constructor
    · rintro ⟨hle, h⟩
      rw [Java.drop_zeros_iff_dvd hdigits hle, Nat.ofDigitChars_ten_toDigits] at h
      exact Or.inr h
    · rintro (⟨hpos, hsix, -⟩ | h)
      · exact absurd ⟨hpos.le, hsix⟩ hplain
      · have hle : width ≤ (Nat.toDigits 10 scale.natAbs).length := by
          by_contra hlt
          have hsmall := (Nat.length_toDigits_le_iff (by decide) hwidth).1 (not_le.1 hlt).le
          exact hzero (Int.natAbs_eq_zero.1 (Nat.eq_zero_of_dvd_of_lt h hsmall))
        refine ⟨hle, ?_⟩
        rw [Java.drop_zeros_iff_dvd hdigits hle, Nat.ofDigitChars_ten_toDigits]
        exact h

end CobolJava.Transformation
