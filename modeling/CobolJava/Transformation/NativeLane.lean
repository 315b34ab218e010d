/-
**The native lane.**

References are read, and expressions of whole items and literals have their exact value in native
arithmetic, precisely when every native operation stays in the range of its type and every subscript
is an `int`.

Main definitions:

* `ReadsReference`, `EvaluatesNatively` — what is shown of a reference and of an expression.

Main results:

* `evaluate_arithmetic` — references and native arithmetic, by induction on the expression;
* `evaluate_native` — **the native lane**, with at most one division.
-/

import CobolJava.Transformation.ArithmeticLanes

set_option autoImplicit false

namespace CobolJava.Transformation

open Decimal (truncate)

section Native

variable {program : CobolProgram} {state : JavaState}

/-! ### Leaves -/

theorem inRange_of_int {isLong : Bool} {n : ℤ} (h : inRange false n) : inRange isLong n := by
  cases isLong with
  | false => exact h
  | true =>
      have h' : javaIntMin ≤ n ∧ n ≤ javaIntMax := h
      have hlong : javaLongMin ≤ n ∧ n ≤ javaLongMax := by
        unfold javaIntMin javaIntMax at h'
        unfold javaLongMin javaLongMax
        omega
      exact hlong

theorem inRange_of_abs_le {isLong : Bool} {n : ℤ} (h : |n| ≤ typeMax isLong) :
    inRange isLong n := by
  have hbound := abs_le.1 h
  cases isLong with
  | true =>
      have hrange : javaLongMin ≤ n ∧ n ≤ javaLongMax := by
        simp only [typeMax, if_true, javaLongMax] at hbound
        unfold javaLongMin javaLongMax
        omega
      exact hrange
  | false =>
      have hrange : javaIntMin ≤ n ∧ n ≤ javaIntMax := by
        simp only [typeMax, Bool.false_eq_true, if_false, javaIntMax] at hbound
        unfold javaIntMin javaIntMax
        omega
      exact hrange

theorem inRange_pow {d : ℕ} {n : ℤ} {isLong : Bool} (hd : d ≤ if isLong then 18 else 9)
    (hn : |n| ≤ 10 ^ d) : inRange isLong n := by
  have hpow : (10 : ℤ) ^ d ≤ 10 ^ (if isLong then 18 else 9) :=
    pow_le_pow_right₀ (by norm_num) hd
  have hmax : (10 : ℤ) ^ (if isLong then 18 else 9) ≤ typeMax isLong := by
    cases isLong <;> decide
  exact inRange_of_abs_le (hn.trans (hpow.trans hmax))

theorem inRange_of_picLength {item : DataItem} {n : ℤ} (hdigits : item.picLength ≤ 18)
    (hn : |n| ≤ 10 ^ item.picLength) : inRange (decide (item.picLength > 9)) n := by
  refine inRange_pow ?_ hn
  by_cases hlong : item.picLength > 9
  · simpa [hlong] using hdigits
  · rw [if_neg (by simpa using hlong)]
    exact not_lt.1 hlong

/-- A leaf protected for a receiver is narrowed for an `int`. -/
theorem evaluate_protectLeaf {item : DataItem} {leaf : JavaExpression} {isLong : Bool} {n : ℤ}
    (hleaf : ∀ v, evaluate true program state leaf = .ok v ↔
      inRange isLong n ∧ v = integral isLong n)
    (hint : integralDigitWidth program leaf ≤ 9 → isLong = false) {v : JavaValue} :
    evaluate true program state (protectLeaf program item leaf) = .ok v ↔
      inRange (isLong && some (targetDigits item) != some 9) n ∧
        v = integral (isLong && some (targetDigits item) != some 9) n := by
  unfold protectLeaf
  by_cases hdigits : targetDigits item = 9
  · have hnarrow : (isLong && some (targetDigits item) != some 9) = false := by simp [hdigits]
    rw [hnarrow]
    by_cases hwide : 9 < integralDigitWidth program leaf
    · rw [if_pos (by simp [hdigits, hwide])]
      simp only [evaluate]
      rw [Py.bind_eq_ok_iff_of_unique hleaf, applyStatic_toIntExact_eq_ok]
      exact and_iff_right_of_imp fun h => inRange_of_int h.1
    · rw [if_neg (by simp [hdigits, hwide])]
      obtain rfl := hint (not_lt.1 hwide)
      exact hleaf v
  · have hwide : (isLong && some (targetDigits item) != some 9) = isLong := by simp [hdigits]
    rw [hwide, if_neg (by simp [hdigits])]
    exact hleaf v

/-- The Java value of what an item's subscripts select. -/
def typedValue (javaType : JavaBasicType) : CobolValue → JavaValue
  | .part name indices => .array name indices
  | .number x =>
      match javaType with
      | .decimal => .decimal x
      | .long => .long (truncate x)
      | _ => .int (truncate x)

theorem select_eq {item : DataItem} {name : String} (h : NumericItem program name item)
    (indices : List ℤ) :
    select state item name indices =
      .ok (typedValue (mapPicToJavaType item) (selected state item name indices)) := by
  have hnumeric := h.numeric
  have helementary := h.elementary
  unfold select selected
  by_cases hlength : indices.length = item.dimensions.length
  · rw [if_pos hlength, if_pos hlength]
    by_cases hplaces : item.decimalPlaces > 0
    · simp [readCell, typedValue, mapPicToJavaType, hnumeric, helementary, hplaces, contents]
    · have hzero : item.decimalPlaces = 0 := by omega
      by_cases hlong : item.picLength > 9
      · simp [readCell, typedValue, mapPicToJavaType, hnumeric, helementary, hzero, hlong, contents]
      · simp [readCell, typedValue, mapPicToJavaType, hnumeric, helementary, hzero, hlong, contents]
  · rw [if_neg hlength, if_neg hlength]
    rfl

theorem declaredItem_eq {item : DataItem} {name : String} (h : NumericItem program name item) :
    declaredItem program name = .ok item := by
  simp only [declaredItem, h.found, h.spelled, if_true]

theorem indexArray_int {item : DataItem} {name : String} {indices : List ℤ} {dimension : ℕ} {k : ℤ}
    (h : NumericItem program name item)
    (hdimension : item.dimensions[indices.length]? = some dimension)
    (hk : 0 ≤ k ∧ k < dimension) :
    indexArray program state (.array name indices) (integral false k) =
      .ok (typedValue (mapPicToJavaType item) (selected state item name (indices ++ [k]))) := by
  rw [← select_eq h, integral, if_neg Bool.false_ne_true]
  simp only [indexArray, declaredItem_eq h]
  dsimp only [bind, Except.bind]
  rw [hdimension]
  exact if_pos hk

/-- A reference is read when its subscripts are `int`s that do not overflow. -/
def ReadsReference (program : CobolProgram) (state : JavaState) (e : JavaExpression) : Prop :=
  ∀ item D, findDataItem program (arrayBaseName e) = some item →
    denote program state e = some D →
    ∀ v, evaluate true program state e = .ok v ↔
      Fits program state .exact e ∧ v = typedValue (mapPicToJavaType item) D

/-- A native expression has its exact whole value when every operation stays in range. -/
def EvaluatesNatively (program : CobolProgram) (state : JavaState) (e : JavaExpression) : Prop :=
  ∀ x, denote program state e = some (.number x) →
    ∃ n : ℤ, x = n ∧ ∀ receiver v,
      evaluate true program state (guarded program receiver e) = .ok v ↔
        Fits program state (.native (guardDigits receiver)) e ∧
          v = integral (nativeLong program (guardDigits receiver) e) n

theorem inRange_native_iff {digits : Option ℕ} {e : JavaExpression} {n : ℤ}
    (h : denote program state e = some (.number (n : ℚ))) :
    (Lane.native digits).InRange program state e ↔ inRange (nativeLong program digits e) n := by
  simp [Lane.InRange, h]

theorem readsReference_item {name : String} {item : DataItem} (h : NumericItem program name item) :
    ReadsReference program state (.variableRef name) := by
  intro item' D hitem hD v
  obtain rfl : item = item' := Option.some.inj (h.found.symm.trans hitem)
  obtain rfl : selected state item name [] = D := by simpa [denote, h.found] using hD
  simp only [evaluate, declaredItem_eq h, Fits, Lane.InRange, true_and]
  change select state item name [] = .ok v ↔ _
  rw [select_eq h]
  exact ⟨fun hv => (Except.ok.inj hv).symm, fun hv => by rw [hv]⟩

theorem readsReference_element {array index : JavaExpression} {dimension : ℕ}
    {dimensions : List ℕ} (harray : Arithmetic program array (dimension :: dimensions))
    (hreads : ReadsReference program state array)
    (hindex : EvaluatesNatively program state index) :
    ReadsReference program state (.arrayAccess array index) := by
  intro item D hitem hD v
  obtain ⟨name, indices, x, item', dimension', hpart, hx, hitem', hdimension, hoccurs, rfl⟩ :=
    denote_arrayAccess hD
  -- the array is the part of the item's table that the earlier subscripts select
  obtain ⟨base, indices', hbase, hselected, -⟩ := denote_reference harray harray.isReference hpart
  have hname : name = arrayBaseName array := by
    unfold selected at hselected
    split at hselected
    · cases hselected
    · exact (CobolValue.part.inj hselected).1
  subst hname
  obtain rfl : base = item' := Option.some.inj (hbase.found.symm.trans hitem')
  obtain rfl : base = item := Option.some.inj (hbase.found.symm.trans hitem)
  obtain ⟨k, rfl, hk⟩ := hindex x hx
  have hnative : ∀ v, evaluate true program state index = .ok v ↔
      Fits program state (.native none) index ∧ v = integral (nativeLong program none index) k :=
    hk none
  have hvalues := hreads base _ hbase.found hpart
  simp only [typedValue] at hvalues
  simp only [Rat.num_intCast] at hoccurs ⊢
  have hselect : indexArray program state (.array (arrayBaseName array) indices)
      (integral (nativeLong program none index) k) = .ok v ↔
        nativeLong program none index = false ∧
          v = typedValue (mapPicToJavaType base)
            (selected state base (arrayBaseName array) (indices ++ [k])) := by
    cases hlong : nativeLong program none index with
    | true =>
        -- Java takes no `long` subscript
        exact iff_of_false (fun h => by cases h) fun h => by cases h.1
    | false =>
        rw [indexArray_int hbase hdimension hoccurs.2, Except.ok.injEq, eq_comm]
        exact (and_iff_right rfl).symm
  simp only [evaluate, Fits]
  rw [Py.bind_eq_ok_iff_of_unique hvalues, Py.bind_eq_ok_iff_of_unique hnative, hselect, and_assoc,
    and_assoc]

/-! ### Native expressions -/

theorem suffix_of_digitCount_le {negative : Bool} {unscaled : ℕ} {suffix : Bool}
    (h : NumericLiteral.digitCount ⟨negative, unscaled, 0, suffix⟩ ≤ 9) :
    javaIntegralSuffix negative unscaled 0 = false := by
  simp only [NumericLiteral.digitCount, pow_zero, Nat.div_one, Nat.add_zero] at h
  have hdigits : unscaled < 10 ^ (Nat.log 10 unscaled + 1) :=
    Nat.lt_pow_succ_log_self (by norm_num) unscaled
  have hpow : 10 ^ (Nat.log 10 unscaled + 1) ≤ 10 ^ 9 := Nat.pow_le_pow_right (by norm_num) h
  unfold javaIntegralSuffix javaIntMax javaIntMin
  cases negative <;> simp <;> omega

@[simp] theorem not_narrowed_none : ((none : Option ℕ) != some 9) = true :=
  rfl

theorem evaluatesNatively_literal {l : NumericLiteral} {javaType : Option JavaBasicType}
    (hdecimal : javaType ≠ some .decimal) (hplaces : l.places = 0)
    (hsuffix : l.digitCount ≤ 9 → l.longSuffix = false) :
    EvaluatesNatively program state (.literal l javaType) := by
  intro x hx
  obtain rfl : l.value = x := by simpa [denote] using hx
  have hvalue : l.value = (l.signedDigits : ℚ) := NumericLiteral.value_of_places_eq_zero hplaces
  rw [hvalue] at hx
  have hevaluate : ∀ v, evaluate true program state (.literal l javaType) = .ok v ↔
      inRange l.longSuffix l.signedDigits ∧ v = integral l.longSuffix l.signedDigits := by
    intro v
    simp only [evaluate, literalValue]
    rw [if_neg hdecimal]
    by_cases hrange : inRange l.longSuffix l.signedDigits
    · rw [if_pos (by simp [hplaces, hrange])]
      exact ⟨fun hv => ⟨hrange, (Except.ok.inj hv).symm⟩, fun hv => by rw [hv.2]⟩
    · simp [hrange]
  refine ⟨l.signedDigits, hvalue, ?_⟩
  intro receiver v
  simp only [Fits, inRange_native_iff hx]
  cases receiver with
  | none => simpa [guarded, guardDigits, nativeLong] using hevaluate v
  | some item => exact evaluate_protectLeaf hevaluate hsuffix

theorem evaluatesNatively_numericJavaLiteral (negative : Bool) (unscaled : ℕ) :
    EvaluatesNatively program state (numericJavaLiteral negative unscaled 0) := by
  refine evaluatesNatively_literal ?_ rfl suffix_of_digitCount_le
  unfold numericLiteralJavaType
  split_ifs <;> simp_all

theorem evaluatesNatively_one {one : JavaExpression} (h : IsOne one) :
    EvaluatesNatively program state one := by
  rcases h with rfl | rfl <;>
    exact evaluatesNatively_literal (by simp) rfl (fun _ => rfl)

theorem typedValue_whole {item : DataItem} {name : String} {n : ℤ} (h : NumericItem program name item)
    (hwhole : item.decimalPlaces = 0) :
    typedValue (mapPicToJavaType item) (.number n) = integral (item.picLength > 9) n := by
  have hnumeric := h.numeric
  have helementary := h.elementary
  by_cases hlong : item.picLength > 9
  · simp [typedValue, mapPicToJavaType, hnumeric, helementary, hwhole, hlong, integral]
  · simp [typedValue, mapPicToJavaType, hnumeric, helementary, hwhole, hlong, integral]

theorem evaluatesNatively_item {name : String} {item : DataItem} (h : NumericItem program name item)
    (hstate : WithinPictures program state) (hwhole : item.decimalPlaces = 0)
    (hscalar : item.dimensions = []) :
    EvaluatesNatively program state (.variableRef name) := by
  intro x hx
  have hvalue : contents item (state name []) = (state name [] : ℤ) := by simp [contents, hwhole]
  obtain rfl : (state name [] : ℤ) = x := by
    simpa [denote, h.found, selected, hscalar, hvalue] using hx
  have hevaluate : ∀ v, evaluate true program state (.variableRef name) = .ok v ↔
      inRange (item.picLength > 9) (state name []) ∧
        v = integral (item.picLength > 9) (state name []) := by
    intro v
    rw [readsReference_item h item _ h.found hx, typedValue_whole h hwhole]
    simp only [Fits, Lane.InRange, true_and]
    have hrange := inRange_of_picLength h.digits (hstate name item h.found h.numeric []).1.le
    exact (and_iff_right hrange).symm
  refine ⟨state name [], rfl, ?_⟩
  intro receiver v
  simp only [Fits, inRange_native_iff hx]
  cases receiver with
  | none => simpa [guarded, guardDigits, nativeLong, h.found] using hevaluate v
  | some item' =>
      have hint : integralDigitWidth program (.variableRef name) ≤ 9 →
          decide (item.picLength > 9) = false := by
        simp [integralDigitWidth, h.found, h.numeric]
      simpa [guarded, protectIntegralOverflow, guardDigits, nativeLong, h.found] using
        @evaluate_protectLeaf _ _ item' _ _ _ hevaluate hint v

theorem evaluatesNatively_element {array index : JavaExpression} {item : DataItem}
    (h : NumericItem program (arrayBaseName (.arrayAccess array index)) item)
    (hreads : ReadsReference program state (.arrayAccess array index))
    (hwhole : requiresFractionalType program (.arrayAccess array index) = false)
    (hvalue : ∀ x, denote program state (.arrayAccess array index) = some (.number x) →
      ∃ n : ℤ, x = n) :
    EvaluatesNatively program state (.arrayAccess array index) := by
  intro x hx
  obtain ⟨n, rfl⟩ := hvalue x hx
  rw [requiresFractionalType_reference (show IsReference (.arrayAccess array index) from trivial)
    h.found] at hwhole
  have hplaces : item.decimalPlaces = 0 := by simpa using hwhole
  refine ⟨n, rfl, ?_⟩
  intro receiver v
  have hbare : guarded program receiver (.arrayAccess array index) = .arrayAccess array index := by
    cases receiver with
    | none => rfl
    | some item' => simp [guarded, protectIntegralOverflow, protectLeaf, integralDigitWidth]
  have hlong : nativeLong program (guardDigits receiver) (.arrayAccess array index) =
      decide (item.picLength > 9) := by
    simp only [nativeLong, h.found]
  rw [hbare, hlong, hreads item _ h.found hx, typedValue_whole h hplaces]
  simp only [Fits]

/-- A native operation, of whatever operands, at the truncation of its exact value. -/
theorem evaluate_native_binaryOp {left right : JavaExpression} {operator : BinaryOperator} {z : ℚ}
    (hleft : EvaluatesNatively program state left) (hright : EvaluatesNatively program state right)
    (hz : denote program state (.binaryOp left operator right) = some (.number z))
    {receiver : Option DataItem} {v : JavaValue} :
    evaluate true program state (guarded program receiver (.binaryOp left operator right)) = .ok v ↔
      Fits program state (.native (guardDigits receiver)) (.binaryOp left operator right) ∧
        v = integral (nativeLong program (guardDigits receiver) (.binaryOp left operator right))
          (truncate z) := by
  obtain ⟨x, y, z', hx, hy, hresult, heq⟩ := denote_binaryOp hz
  obtain rfl := CobolValue.number.inj heq
  obtain ⟨m, rfl, hm⟩ := hleft x hx
  obtain ⟨n, rfl, hn⟩ := hright y hy
  obtain ⟨hop, htruncate⟩ := truncate_exactResult hresult
  rw [evaluate_guarded_binaryOp hop (hm receiver) (hn receiver)]
  simp only [Fits, Lane.InRange, hz, nativeLong, htruncate, Option.some.injEq,
    CobolValue.number.injEq, forall_eq']

theorem evaluatesNatively_neg {operand : JavaExpression}
    (hoperand : EvaluatesNatively program state operand) :
    EvaluatesNatively program state (.unaryOp .neg operand) := by
  intro z hz
  obtain ⟨x, hx, heq⟩ := denote_neg hz
  obtain rfl := CobolValue.number.inj heq
  obtain ⟨n, rfl, hn⟩ := hoperand x hx
  rw [← Int.cast_neg] at hz
  refine ⟨-n, by simp, ?_⟩
  intro receiver v
  rw [evaluate_guarded_neg (hn receiver)]
  simp only [Fits, inRange_native_iff hz, nativeLong]

/-- **References and native arithmetic.** A reference is read, and an expression of whole items and
literals has its exact value in native arithmetic, precisely when its lane's conditions hold. -/
theorem evaluate_arithmetic {e : JavaExpression} {dimensions : List ℕ}
    (hstate : WithinPictures program state) (h : Arithmetic program e dimensions) :
    (IsReference e → ReadsReference program state e) ∧
      (dimensions = [] → requiresFractionalType program e = false →
        EvaluatesNatively program state e) := by
  induction h with
  | literal negative unscaled places =>
      refine ⟨fun href => False.elim href, fun _ hwhole => ?_⟩
      obtain rfl := numericJavaLiteral_places hwhole
      exact evaluatesNatively_numericJavaLiteral negative unscaled
  | @item name item dimensions h hdims =>
      refine ⟨fun _ => readsReference_item h, fun hscalar hwhole => ?_⟩
      rw [requiresFractionalType_reference (show IsReference (.variableRef name) from trivial)
        h.found] at hwhole
      exact evaluatesNatively_item h hstate (by simpa using hwhole) (hdims.trans hscalar)
  | @element array subscript one dimension dimensions harray hsubscript hone hwhole iharray
      ihsubscript =>
      have hsub := ihsubscript.2 rfl hwhole
      have hindex : EvaluatesNatively program state (.binaryOp subscript .sub one) := by
        intro z hz
        obtain ⟨x, y, z', hx, hy, hresult, heq⟩ := denote_binaryOp hz
        obtain rfl := CobolValue.number.inj heq
        obtain ⟨m, rfl, -⟩ := hsub x hx
        obtain ⟨n, rfl, -⟩ := evaluatesNatively_one hone y hy
        have hdiff : ((m : ℚ) - n) = z := Option.some.inj hresult
        refine ⟨m - n, by rw [← hdiff]; simp, ?_⟩
        intro receiver v
        rw [evaluate_native_binaryOp hsub (evaluatesNatively_one hone) hz, ← hdiff, ← Int.cast_sub,
          Decimal.truncate_intCast]
      have hreads := readsReference_element harray (iharray.1 harray.isReference) hindex
      refine ⟨fun _ => hreads, fun hdims hwhole' => ?_⟩
      have helement := Arithmetic.element harray hsubscript hone hwhole
      intro x hx
      obtain ⟨item, indices, hitem, -, -⟩ :=
        denote_reference helement trivial hx
      exact evaluatesNatively_element hitem hreads hwhole'
        (fun x hx => denote_integral helement hwhole' hx) x hx
  | @binary left right operator hleft hright hoperator ihleft ihright =>
      refine ⟨fun href => False.elim href, fun _ hwhole => ?_⟩
      have hwhole' := hwhole
      rw [requiresFractionalType, Bool.or_eq_false_iff] at hwhole'
      intro z hz
      obtain ⟨n, rfl⟩ := denote_integral (.binary hleft hright hoperator) hwhole hz
      refine ⟨n, rfl, ?_⟩
      intro receiver v
      rw [evaluate_native_binaryOp (ihleft.2 rfl hwhole'.1) (ihright.2 rfl hwhole'.2) hz,
        Decimal.truncate_intCast]
  | negate h ih =>
      exact ⟨fun href => False.elim href,
        fun _ hwhole => evaluatesNatively_neg (ih.2 rfl hwhole)⟩

/-- **The native lane**, with at most one division, at the root. -/
theorem evaluate_native {e : JavaExpression} {x : ℚ} (hstate : WithinPictures program state)
    (h : ArithmeticRoot program e) (hwhole : requiresFractionalType program e = false)
    (hx : denote program state e = some (.number x)) (receiver : Option DataItem) {v : JavaValue} :
    evaluate true program state (guarded program receiver e) = .ok v ↔
      Fits program state (.native (guardDigits receiver)) e ∧
        v = integral (nativeLong program (guardDigits receiver) e) (truncate x) := by
  cases h with
  | plain h =>
      obtain ⟨n, rfl, hn⟩ := (evaluate_arithmetic hstate h).2 rfl hwhole x hx
      rw [Decimal.truncate_intCast]
      exact hn receiver v
  | quotient hleft hright =>
      rw [requiresFractionalType, Bool.or_eq_false_iff] at hwhole
      exact evaluate_native_binaryOp ((evaluate_arithmetic hstate hleft).2 rfl hwhole.1)
        ((evaluate_arithmetic hstate hright).2 rfl hwhole.2) hx

end Native

end CobolJava.Transformation
