/-
**Round trip of record images.**

The image of a record against the record area COBOL writes, and the fields that are restored from
it.

Main definitions:

* `RecordRoundTrip` — the image is the record area of COBOL and restores every field;
* `ImageFaithful` — the values of a field for which its image does so.

Main results:

* `fieldImage_faithful`, `faithful_of_fieldImage` — what one field needs;
* `recordRoundTrip_iff` — exactly which records make the round trip.
-/

import CobolJava.Transformation.RecordImage

set_option autoImplicit false

namespace CobolJava.Transformation

open Java (digitsAt zeroFill isDigits replaceTrailingBlanks blankBeforeTerminator)

/-! ### The property -/

/-- Reading `read` restores the values of the items, whatever the fields held before and whichever
scratch variable holds the record. -/
def RestoredFrom (items : List RecordItem) (source : JavaFields) (read : List Char) : Prop :=
  ∀ (base : List Char) (count : ℕ) (fields : JavaFields),
    let readVar := freshIoVar base count
    ∃ restored, runAssignments (Function.update fields readVar (.string read))
        (disassemblyStatements items readVar) = some restored ∧
      ∀ item ∈ items, (restored item.field).Same (source item.field)

/-- The image of the record has the record width, is the record area COBOL writes, and restores the
fields, also after the blanks at its end were dropped. -/
def RecordRoundTrip (layout : RecordLayout) (contentVar : List Char) (fields : JavaFields) : Prop :=
  ∃ image, (assemblyExpression layout.items contentVar).bind (·.eval fields) =
      some (.string image) ∧
    image.length = recordTotalWidth layout.items ∧
    image = recordArea layout.items fields ∧
    RestoredFrom layout.items fields image ∧
    RestoredFrom layout.items fields (replaceTrailingBlanks image)

/-- Values whose image is what COBOL stores and is read back as the value: every text, no negative
number, and of the items with decimal places the zeros that fill the item with zeros. -/
def ImageFaithful (item : RecordItem) : FieldValue → Prop
  | .int n => 0 ≤ n
  | .long n => 0 ≤ n
  | .decimal d => d.unscaled = 0 ∧ ZeroFillsWidth d.scale item.picLength
  | .string _ => True

/-! ### Stored digits -/

theorem digitsAt_zero {width : ℕ} (h : 0 < width) :
    digitsAt width 0 = List.replicate width '0' := by
  change zeroFill width ['0'] = _
  rw [zeroFill, List.length_singleton, ← List.replicate_succ', Nat.sub_add_cancel h]

theorem numericStorage_of_nonneg {width : ℕ} {units : ℤ} (h : 0 ≤ units) :
    numericStorage width units = digitsAt width units.natAbs := by
  rw [numericStorage, if_neg (not_lt.2 h)]

theorem not_isTextChar_overpunch {c : Char} (hc : c.isDigit = true) :
    Java.BigDecimal.isTextChar (overpunch c) = false := by
  simp only [Char.isDigit, Bool.and_eq_true, decide_eq_true_eq] at hc
  have hlo : 48 ≤ c.toNat := hc.1
  have hhi : c.toNat ≤ 57 := hc.2
  have hall : ∀ d < 10, Java.BigDecimal.isTextChar (Char.ofNat (112 + d)) = false := by decide
  exact hall (c.toNat - 48) (by omega)

theorem exists_overpunch (width : ℕ) {units : ℤ} (h : units < 0) :
    ∃ c ∈ numericStorage width units, Java.BigDecimal.isTextChar c = false := by
  have hdigits := Bool.and_eq_true_iff.1 (Java.isDigits_digitsAt width units.natAbs)
  have hne : digitsAt width units.natAbs ≠ [] := by simpa using hdigits.1
  refine ⟨overpunch ((digitsAt width units.natAbs).getLast hne), ?_, ?_⟩
  · rw [numericStorage, if_pos h, List.getLast?_eq_some_getLast hne]
    simp
  · exact not_isTextChar_overpunch (List.all_eq_true.1 hdigits.2 _ (List.getLast_mem hne))

theorem isTextChar_pad {s : List Char} (h : ∀ c ∈ s, Java.BigDecimal.isTextChar c = true)
    (width : ℕ) : ∀ c ∈ pad s width true, Java.BigDecimal.isTextChar c = true := by
  intro c hc
  simp only [pad, if_true, zeroFill] at hc
  rcases List.mem_append.1 (List.mem_of_mem_drop hc) with hc | hc
  · rw [List.eq_of_mem_replicate hc]
    rfl
  · exact h c hc

theorem isTextChar_ofInteger (n : ℤ) :
    ∀ c ∈ Java.ofInteger n, Java.BigDecimal.isTextChar c = true := by
  have hdigits : ∀ c ∈ Nat.toDigits 10 n.natAbs, Java.BigDecimal.isTextChar c = true := by
    intro c hc
    have := Nat.isDigit_of_mem_toDigits (by decide) (by decide) hc
    simp [Java.BigDecimal.isTextChar, this]
  intro c hc
  unfold Java.ofInteger at hc
  split_ifs at hc
  · rcases List.mem_cons.1 hc with rfl | hc
    · rfl
    · exact hdigits c hc
  · exact hdigits c hc

theorem pad_ofInteger {n : ℤ} {width : ℕ} (hwidth : 0 < width) (hn : 0 ≤ n)
    (hlt : |n| < 10 ^ width) : pad (Java.ofInteger n) width true = numericStorage width n := by
  have hnat : n.natAbs < 10 ^ width := by
    rw [← Int.natCast_natAbs] at hlt
    exact_mod_cast hlt
  rw [numericStorage_of_nonneg hn, Java.ofInteger, if_neg (not_lt.2 hn),
    pad_numeric_of_length_le ((Nat.length_toDigits_le_iff (by decide) hwidth).2 hnat)]
  rfl

theorem nonneg_of_pad_eq {s : List Char} {width : ℕ} {units : ℤ}
    (hs : ∀ c ∈ s, Java.BigDecimal.isTextChar c = true)
    (h : pad s width true = numericStorage width units) : 0 ≤ units := by
  by_contra hneg
  obtain ⟨c, hc, hfalse⟩ := exists_overpunch width (not_le.1 hneg)
  rw [← h] at hc
  rw [isTextChar_pad hs width c hc] at hfalse
  exact absurd hfalse (by decide)

/-! ### One field -/

section Field

variable {item : RecordItem}

theorem picture_of_type (hitem : item.IsElementary) :
    (mapPicToJavaType item.toDataItem = .int ↔
      item.isNumeric = true ∧ item.decimalPlaces = 0 ∧ item.picLength ≤ 9) ∧
    (mapPicToJavaType item.toDataItem = .long ↔
      item.isNumeric = true ∧ item.decimalPlaces = 0 ∧ 9 < item.picLength) ∧
    (mapPicToJavaType item.toDataItem = .decimal ↔
      item.isNumeric = true ∧ 0 < item.decimalPlaces) ∧
    (mapPicToJavaType item.toDataItem = .string ↔ item.isNumeric = false) := by
  simp only [mapPicToJavaType, hitem.noSubstantiveChildren]
  cases item.isNumeric <;> simp
  split_ifs <;> simp <;> omega

theorem toRat_mul_eq {d : Java.BigDecimal}
    (hden : (d.toRat * 10 ^ item.decimalPlaces).den = 1) :
    d.toRat * 10 ^ item.decimalPlaces = storedUnits item (.decimal d) :=
  (Rat.coe_int_num_of_den_eq_one hden).symm

theorem storedUnits_zero {d : Java.BigDecimal} (h : d.unscaled = 0) :
    storedUnits item (.decimal d) = 0 := by
  simp [storedUnits, Java.BigDecimal.toRat, h]

/-- A whole number that is not negative is read back from what COBOL stores for it. -/
theorem decode_whole (hitem : item.IsElementary) {value : FieldValue}
    (hvalue : FieldWithin item value) {n : ℤ} (hn : 0 ≤ n)
    (hwhole : value = .int n ∨ value = .long n) :
    decodeField item (numericStorage item.picLength n) = some value := by
  have hdigits := Java.isDigits_digitsAt item.picLength n.natAbs
  have hnat : ((n.natAbs : ℕ) : ℤ) = n := Int.natAbs_of_nonneg hn
  obtain ⟨hint, hlong, -, -⟩ := picture_of_type hitem
  rw [numericStorage_of_nonneg hn]
  rcases hwhole with rfl | rfl
  · obtain ⟨htype, ⟨hlt, -⟩⟩ := hvalue
    obtain ⟨hnumeric, hplaces, hshort⟩ := hint.1 htype
    -- nine digits fit an `int`
    have hbound : n ≤ javaIntMax := by
      have hpow : (10 : ℤ) ^ item.picLength ≤ 10 ^ 9 := pow_le_pow_right₀ (by norm_num) hshort
      have := (abs_lt.1 hlt).2
      simp only [javaIntMax]
      omega
    have hmin : javaIntMin ≤ n := le_trans (by decide) hn
    rw [decodeField, if_pos hnumeric, if_neg (by omega), if_neg (by omega),
      Java.trim_digits hdigits, Java.parseInteger_digits hdigits] <;>
    simp [hnat, hbound, hmin]
  · obtain ⟨htype, -, hmin, hmax⟩ := hvalue
    obtain ⟨hnumeric, hplaces, hlen⟩ := hlong.1 htype
    rw [decodeField, if_pos hnumeric, if_neg (by omega), if_pos hlen,
      Java.trim_digits hdigits, Java.parseInteger_digits hdigits] <;>
    simp [hnat, hmax, hmin]

theorem decode_decimal (hitem : item.IsElementary)
    (htype : mapPicToJavaType item.toDataItem = .decimal) {units : ℤ} (hunits : 0 ≤ units) :
    decodeField item (numericStorage item.picLength units) = some (.decimal ⟨units, 0⟩) := by
  have hdigits := Java.isDigits_digitsAt item.picLength units.natAbs
  obtain ⟨hnumeric, hplaces⟩ := (picture_of_type hitem).2.2.1.1 htype
  rw [numericStorage_of_nonneg hunits, decodeField, if_pos hnumeric, if_pos hplaces,
    Java.trim_digits hdigits, Java.BigDecimal.parse_digits hdigits]
  simp [Int.natAbs_of_nonneg hunits]

/-- Faithful values are written as COBOL stores them. -/
theorem fieldImage_faithful (hitem : item.IsElementary) {value : FieldValue}
    (hvalue : FieldWithin item value) (h : ImageFaithful item value) :
    fieldImage item value = displayStorage item value := by
  obtain ⟨hint, hlong, hdecimal, hstring⟩ := picture_of_type hitem
  cases value with
  | int n =>
      rw [fieldImage, (hint.1 hvalue.1).1]
      exact pad_ofInteger hitem.positivePicture h hvalue.2.1
  | long n =>
      rw [fieldImage, (hlong.1 hvalue.1).1]
      exact pad_ofInteger hitem.positivePicture h hvalue.2.1.1
  | decimal d =>
      obtain ⟨hzero, hfills⟩ := h
      obtain ⟨unscaled, scale⟩ := d
      obtain rfl : unscaled = 0 := hzero
      rw [fieldImage, (hdecimal.1 hvalue.1).1, displayStorage, storedUnits_zero rfl,
        numericStorage_of_nonneg le_rfl, FieldValue.valueOf,
        (pad_zero_iff scale hitem.positivePicture).2 hfills]
      · exact (digitsAt_zero hitem.positivePicture).symm
      · simp
  | string s =>
      rw [fieldImage, hstring.1 hvalue.1]
      exact pad_text_of_length_le hvalue.2

/-- Faithful values are read back. -/
theorem decodeField_faithful (hitem : item.IsElementary) {value : FieldValue}
    (hvalue : FieldWithin item value) (h : ImageFaithful item value) :
    ∃ read, decodeField item (fieldImage item value) = some read ∧ read.Same value := by
  rw [fieldImage_faithful hitem hvalue h]
  cases value with
  | int n => exact ⟨_, decode_whole hitem hvalue h (Or.inl rfl), FieldValue.Same.refl _⟩
  | long n => exact ⟨_, decode_whole hitem hvalue h (Or.inr rfl), FieldValue.Same.refl _⟩
  | decimal d =>
      refine ⟨.decimal ⟨0, 0⟩, ?_, ?_⟩
      · rw [displayStorage, storedUnits_zero h.1]
        · exact decode_decimal hitem hvalue.1 le_rfl
        · simp
      · simp [FieldValue.Same, Java.BigDecimal.toRat, h.1]
  | string s =>
      have hnumeric := (picture_of_type hitem).2.2.2.1 hvalue.1
      refine ⟨_, by rw [decodeField, hnumeric, if_neg Bool.false_ne_true], ?_⟩
      rw [displayStorage, FieldValue.Same, List.rdropWhile, List.rdropWhile, List.reverse_append,
        List.reverse_replicate]
      congr 1
      generalize item.picLength - s.length = k
      induction k with
      | zero => rfl
      | succ k ih => rw [List.replicate_succ, List.cons_append, List.dropWhile_cons_of_pos rfl, ih]

theorem storedUnits_nonneg (hitem : item.IsElementary) {value : FieldValue}
    (hvalue : FieldWithin item value) (h : fieldImage item value = displayStorage item value) :
    0 ≤ storedUnits item value := by
  obtain ⟨hint, hlong, hdecimal, -⟩ := picture_of_type hitem
  cases value with
  | int n =>
      rw [fieldImage, (hint.1 hvalue.1).1] at h
      exact nonneg_of_pad_eq (isTextChar_ofInteger n) h
  | long n =>
      rw [fieldImage, (hlong.1 hvalue.1).1] at h
      exact nonneg_of_pad_eq (isTextChar_ofInteger n) h
  | decimal d =>
      rw [fieldImage, (hdecimal.1 hvalue.1).1] at h
      exact nonneg_of_pad_eq (Java.BigDecimal.isTextChar_toText d) h
  | string s => exact le_rfl

/-- A decimal whose digits are read as the same number is zero. -/
theorem unscaled_eq_zero (hitem : item.IsElementary) {d : Java.BigDecimal}
    (hvalue : FieldWithin item (.decimal d))
    (hsame : (FieldValue.decimal ⟨storedUnits item (.decimal d), 0⟩).Same (.decimal d)) :
    d.unscaled = 0 := by
  obtain ⟨htype, -, hden⟩ := hvalue
  have hplaces := ((picture_of_type hitem).2.2.1.1 htype).2
  have hunits := toRat_mul_eq hden
  have hread : (storedUnits item (.decimal d) : ℚ) = d.toRat := by
    simpa [FieldValue.Same, Java.BigDecimal.toRat] using hsame
  -- the number is ten to the decimal places times itself
  have hzero : d.toRat * ((10 : ℚ) ^ item.decimalPlaces - 1) = 0 := by
    rw [mul_sub, mul_one, hunits, hread, sub_self]
  have hpow : (10 : ℚ) ^ item.decimalPlaces - 1 ≠ 0 := by
    have : (1 : ℚ) < 10 ^ item.decimalPlaces := one_lt_pow₀ (by norm_num) hplaces.ne'
    exact sub_ne_zero.2 this.ne'
  have hrat := (mul_eq_zero.1 hzero).resolve_right hpow
  have hten : (10 : ℚ) ^ (-d.scale) ≠ 0 := zpow_ne_zero _ (by norm_num)
  exact_mod_cast (mul_eq_zero.1 hrat).resolve_right hten

/-- What COBOL stores for an item fills it. -/
theorem length_displayStorage (hitem : item.IsElementary) {value : FieldValue}
    (hvalue : FieldWithin item value) :
    (displayStorage item value).length = item.picLength := by
  have hnumeric : ∀ units : ℤ, WithinPicture item.toDataItem units →
      (numericStorage item.picLength units).length = item.picLength := by
    rintro units ⟨hlt, -⟩
    have hnat : units.natAbs < 10 ^ item.picLength := by
      rw [← Int.natCast_natAbs] at hlt
      exact_mod_cast hlt
    have hpos := hitem.positivePicture
    have hlen := Java.length_digitsAt hpos hnat
    have hne : digitsAt item.picLength units.natAbs ≠ [] := by
      rw [← List.length_pos_iff, hlen]
      exact hpos
    simp only [numericStorage]
    split_ifs
    · rw [List.getLast?_eq_some_getLast hne, List.length_append, List.length_dropLast, hlen]
      simp only [Option.toList_some, List.map_cons, List.map_nil, List.length_singleton]
      omega
    · exact hlen
  cases value with
  | int n => exact hnumeric _ hvalue.2
  | long n => exact hnumeric _ hvalue.2.1
  | decimal d => exact hnumeric _ hvalue.2.1
  | string s =>
      have := hvalue.2
      simp only [displayStorage, List.length_append, List.length_replicate]
      omega

theorem isTextChar_fieldImage (hnumeric : item.isNumeric = true) {value : FieldValue}
    (hvalue : ∀ s, value ≠ .string s) :
    ∀ c ∈ fieldImage item value, Java.BigDecimal.isTextChar c = true := by
  rw [fieldImage, hnumeric]
  refine isTextChar_pad ?_ _
  cases value with
  | int n => exact isTextChar_ofInteger n
  | long n => exact isTextChar_ofInteger n
  | decimal d => exact Java.BigDecimal.isTextChar_toText d
  | string s => exact absurd rfl (hvalue s)

end Field

/-! ### The record -/

section Record

variable {layout : RecordLayout} {fields : JavaFields}

/-- The statements read the windows of the padded record. -/
theorem runAssignments_disassembly (layout : RecordLayout) (fields : JavaFields)
    (base : List Char) (count : ℕ) (read : List Char) :
    runAssignments (Function.update fields (freshIoVar base count) (.string read))
        (disassemblyStatements layout.items (freshIoVar base count)) =
      storeWindows (Function.update fields (freshIoVar base count) (.string read))
        (windows layout.items (pad read (layout.items.map (·.picLength)).sum false)) := by
  have hfilter : (layout.items.filter fun item => !item.isConditionName && !item.isGroup) =
      layout.items := by
    refine List.filter_eq_self.2 fun item hitem => ?_
    have := layout.elementary item hitem
    simp [this.notConditionName, this.notGroup]
  have hwidths : layout.items.map RecordItem.width = layout.items.map (·.picLength) :=
    List.map_congr_left fun item _ => item.width_eq
  have hfresh : ∀ item ∈ layout.items, item.field ≠ freshIoVar base count := by
    intro item hitem heq
    refine (layout.elementary item hitem).wordStart ?_
    rw [heq]
    rfl
  simp only [disassemblyStatements, hfilter, hwidths]
  exact @runAssignments_split _ _ _ _ [] _ _ hfresh (Function.update_self ..) (by simp) (by simp)

/-- A record that is padded to the image restores faithful values. -/
theorem restoredFrom_of_pad (hvalue : ∀ item ∈ layout.items, FieldWithin item (fields item.field))
    (h : ∀ item ∈ layout.items, ImageFaithful item (fields item.field)) {read : List Char}
    (hpad : pad read (layout.items.map (·.picLength)).sum false =
      recordImage layout.items fields) :
    RestoredFrom layout.items fields read := by
  intro base count before
  obtain ⟨restored, hrun, hsame⟩ := @storeWindows_same
    (layout.items.map fun item => (item, fieldImage item (fields item.field)))
    (Function.update before (freshIoVar base count) (.string read)) fields (by
      intro w hw
      obtain ⟨item, hitem, rfl⟩ := List.mem_map.1 hw
      exact decodeField_faithful (layout.elementary item hitem) (hvalue item hitem) (h item hitem))
  refine ⟨restored, ?_, fun item hitem => hsame _ (List.mem_map.2 ⟨item, hitem, rfl⟩)⟩
  rw [runAssignments_disassembly, hpad, windows_recordImage, hrun]

/-- The fields of an image that is the record area are written as COBOL stores them. -/
theorem fieldImage_of_recordImage
    (hvalue : ∀ item ∈ layout.items, FieldWithin item (fields item.field))
    (h : recordImage layout.items fields = recordArea layout.items fields) :
    ∀ item ∈ layout.items,
      fieldImage item (fields item.field) = displayStorage item (fields item.field) := by
  have hlength : ∀ item ∈ layout.items, (fieldImage item (fields item.field)).length =
      (displayStorage item (fields item.field)).length := by
    intro item hitem
    rw [length_displayStorage (layout.elementary item hitem) (hvalue item hitem)]
    exact length_pad _ _ _
  rw [recordImage, recordArea] at h
  generalize layout.items = items at h hlength
  induction items with
  | nil => simp
  | cons item rest ih =>
      rw [List.flatMap_cons, List.flatMap_cons] at h
      obtain ⟨hitem, hrest⟩ := List.append_inj h (hlength item List.mem_cons_self)
      intro i hi
      rcases List.mem_cons.1 hi with rfl | hi
      · exact hitem
      · exact ih hrest (fun j hj => hlength j (List.mem_cons_of_mem _ hj)) i hi

/-- Values that are restored from an image that is the record area are faithful. -/
theorem imageFaithful_of_restored
    (hvalue : ∀ item ∈ layout.items, FieldWithin item (fields item.field))
    (harea : recordImage layout.items fields = recordArea layout.items fields)
    (h : RestoredFrom layout.items fields (recordImage layout.items fields)) :
    ∀ item ∈ layout.items, ImageFaithful item (fields item.field) := by
  intro item hitem
  have himage := fieldImage_of_recordImage hvalue harea
  have hunits : ∀ i ∈ layout.items, 0 ≤ storedUnits i (fields i.field) := fun i hi =>
    storedUnits_nonneg (layout.elementary i hi) (hvalue i hi) (himage i hi)
  obtain ⟨restored, hrun, hsame⟩ := h [] 0 fields
  rw [runAssignments_disassembly, pad_of_length (length_recordImage _ _),
    windows_recordImage] at hrun
  obtain ⟨w, hw, hfield, hdecode⟩ := storeWindows_decoded hrun
    (w := (item, fieldImage item (fields item.field))) (List.mem_map.2 ⟨item, hitem, rfl⟩)
  obtain ⟨other, hother, rfl⟩ := List.mem_map.1 hw
  simp only at hfield hdecode
  have hvalueItem := hvalue item hitem
  have himageItem := himage item hitem
  have hunitsItem := hunits item hitem
  have hsameItem := hsame item hitem
  -- the field was last read from the window of `other`, an item of the same name
  have hvalueOther := hvalue other hother
  have hunitsOther := hunits other hother
  rw [himage other hother] at hdecode
  rw [hfield] at hdecode hvalueOther hunitsOther
  generalize fields item.field = value at *
  cases value with
  | int n => exact hunitsItem
  | long n => exact hunitsItem
  | string s => trivial
  | decimal d =>
      rw [displayStorage, decode_decimal (layout.elementary other hother) hvalueOther.1 hunitsOther]
        at hdecode
      · rw [← Option.some.inj hdecode] at hsameItem
        have hzero := unscaled_eq_zero (layout.elementary other hother) hvalueOther hsameItem
        refine ⟨hzero, ?_⟩
        have helem := layout.elementary item hitem
        obtain ⟨unscaled, scale⟩ := d
        obtain rfl : unscaled = 0 := hzero
        rw [← pad_zero_iff scale helem.positivePicture]
        rw [fieldImage, ((picture_of_type helem).2.2.1.1 hvalueItem.1).1, displayStorage,
          storedUnits_zero rfl, numericStorage_of_nonneg le_rfl] at himageItem
        · exact himageItem.trans (digitsAt_zero helem.positivePicture)
        · simp
      · simp

/-- An item whose image ends with a line terminator holds a text that fills it. -/
theorem text_of_image_terminated {item : RecordItem} (hitem : item.IsElementary)
    {value : FieldValue} (hvalue : FieldWithin item value) {c : Char}
    (hterm : Java.isLineTerminator c = true) (h : (fieldImage item value).getLast? = some c) :
    item.isNumeric = false ∧ ∃ s, value = .string s ∧ s.length = item.picLength ∧
      s.rdropWhile (· = ' ') = s := by
  have hblankNe : c ≠ ' ' := fun heq => absurd (heq ▸ hterm) (by decide)
  have hnumeric : item.isNumeric = false := by
    by_contra hnum
    rw [Bool.not_eq_false] at hnum
    have htext := @isTextChar_fieldImage _ hnum value (by
      rintro s rfl
      exact absurd ((picture_of_type hitem).2.2.2.1 hvalue.1) (by simp [hnum]))
    have := htext c (List.mem_of_getLast? h)
    rw [Java.BigDecimal.not_isTextChar_of_isLineTerminator hterm] at this
    exact absurd this (by decide)
  obtain ⟨s, rfl⟩ := text_of_not_numeric hitem hvalue hnumeric
  rw [fieldImage, hnumeric, FieldValue.valueOf, pad_text_of_length_le hvalue.2] at h
  -- blanks behind the text would stand at the end
  have hfull : item.picLength - s.length = 0 := by
    by_contra hpos
    rw [List.getLast?_append_of_ne_nil _ (by simpa using hpos), List.getLast?_replicate,
      if_neg hpos] at h
    exact hblankNe (Option.some.inj h).symm
  rw [hfull, List.replicate_zero, List.append_nil] at h
  refine ⟨hnumeric, s, rfl, le_antisymm hvalue.2 (by omega), ?_⟩
  refine List.rdropWhile_eq_self_iff.2 fun hne => ?_
  rw [List.getLast?_eq_some_getLast hne] at h
  simpa [Option.some.inj h] using hblankNe

theorem getLast_window {s : List Char} {start width : ℕ} (hwidth : 0 < width)
    (hs : s.length < start + width) :
    (((pad s (start + width) false).drop start).take width).getLast? = some ' ' := by
  rw [List.take_of_length_le (by rw [List.length_drop, length_pad]; omega),
    List.getLast?_drop, length_pad, if_neg (by omega), pad_text_of_length_le hs.le,
    List.getLast?_append_of_ne_nil _ (by simp; omega), List.getLast?_replicate,
    if_neg (by omega)]

/-- A record with a blank before the line terminator at its end is not restored once the blanks
were dropped: the item at its end takes a blank in place of the terminator. -/
theorem not_restored_of_blankBeforeTerminator
    (hvalue : ∀ item ∈ layout.items, FieldWithin item (fields item.field))
    (hblank : blankBeforeTerminator (recordImage layout.items fields) = true) :
    ¬ RestoredFrom layout.items fields
      (replaceTrailingBlanks (recordImage layout.items fields)) := by
  intro h
  obtain ⟨init, last, hitems⟩ : ∃ init last, layout.items = init ++ [last] :=
    ⟨_, _, (List.dropLast_append_getLast layout.nonempty).symm⟩
  have hlast : last ∈ layout.items := by simp [hitems]
  have helem := layout.elementary last hlast
  have hsum : (layout.items.map (·.picLength)).sum =
      (init.map (·.picLength)).sum + last.picLength := by simp [hitems]
  obtain ⟨c, hc, hterm⟩ := Java.getLast_of_blankBeforeTerminator hblank
  have himageEnd : (fieldImage last (fields last.field)).getLast? = some c := by
    have hne : fieldImage last (fields last.field) ≠ [] := by
      rw [← List.length_pos_iff, fieldImage, length_pad]
      exact helem.positivePicture
    rw [← hc, recordImage, hitems, List.flatMap_append, List.flatMap_singleton,
      List.getLast?_append_of_ne_nil _ hne]
  obtain ⟨hnumeric, s, hs, hfull, hkeep⟩ :=
    text_of_image_terminated helem (hvalue last hlast) hterm himageEnd
  -- the window that is read for the last item ends with a blank
  obtain ⟨restored, hrun, hsame⟩ := h [] 0 fields
  rw [runAssignments_disassembly, hsum, hitems, windows_append_singleton, ← hitems] at hrun
  have hdecode := storeWindows_last hrun
  have hshort := Java.length_replaceTrailingBlanks_lt hblank
  rw [length_recordImage, hsum] at hshort
  have hwindowEnd := getLast_window helem.positivePicture hshort
  set window := ((pad (replaceTrailingBlanks (recordImage layout.items fields))
    ((init.map (·.picLength)).sum + last.picLength) false).drop
      (init.map (·.picLength)).sum).take last.picLength
  rw [decodeField, hnumeric, if_neg Bool.false_ne_true] at hdecode
  have hsameLast := hsame last hlast
  rw [← Option.some.inj hdecode, hs] at hsameLast
  have hdrop : (window.rdropWhile (· = ' ')).length < window.length := by
    obtain ⟨front, hfront⟩ := List.getLast?_eq_some_iff.1 hwindowEnd
    rw [hfront, List.rdropWhile_concat_pos _ _ _ (by simp), List.length_append]
    exact Nat.lt_succ_of_le (List.rdropWhile_prefix _ front).length_le
  have hlength : window.length ≤ last.picLength := List.length_take_le _ _
  have heq : (window.rdropWhile (· = ' ')).length = s.length := by
    rw [show window.rdropWhile (· = ' ') = s.rdropWhile (· = ' ') from hsameLast, hkeep]
  omega

theorem imageFaithful_of_recordRoundTrip {contentVar : List Char}
    (hvalue : ∀ item ∈ layout.items, FieldWithin item (fields item.field))
    (h : RecordRoundTrip layout contentVar fields) :
    (∀ item ∈ layout.items, ImageFaithful item (fields item.field)) ∧
      blankBeforeTerminator (recordArea layout.items fields) = false := by
  obtain ⟨image, heval, -, harea, hread, hstripped⟩ := h
  obtain rfl : recordImage layout.items fields = image := by
    simpa using (eval_assembly layout contentVar hvalue).symm.trans heval
  refine ⟨imageFaithful_of_restored hvalue harea hread, ?_⟩
  rw [← harea, ← Bool.not_eq_true]
  exact fun hblank => not_restored_of_blankBeforeTerminator hvalue hblank hstripped

end Record

/-! ### Two records -/

/-- `05 NAME PIC X(4). 05 AMOUNT PIC 9(3).` -/
def plainLayout : RecordLayout where
  items := [⟨⟨"NAME", .alphanumeric, 4, 0, false, [], false⟩, 5, false⟩,
    ⟨⟨"AMOUNT", .numeric, 3, 0, false, [], false⟩, 5, false⟩]
  nonempty := by simp
  elementary := by
    intro item hitem
    simp only [List.mem_cons, List.not_mem_nil, or_false] at hitem
    rcases hitem with rfl | rfl <;> exact ⟨rfl, rfl, rfl, rfl, by decide, by decide, by decide⟩

def plainFields : JavaFields := fun name =>
  if name = ['N', 'A', 'M', 'E'] then .string ['A', 'B', 'C'] else .int 7

/-- `05 PRICE PIC 9(3)V99.` -/
def pricedLayout : RecordLayout where
  items := [⟨⟨"PRICE", .numeric, 5, 2, false, [], false⟩, 5, false⟩]
  nonempty := by simp
  elementary := by
    intro item hitem
    obtain rfl := List.mem_singleton.1 hitem
    exact ⟨rfl, rfl, rfl, rfl, by decide, by decide, by decide⟩

end CobolJava.Transformation
