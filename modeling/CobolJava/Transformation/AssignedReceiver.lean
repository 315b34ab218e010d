/-
**What is assigned to a receiver.**

The scaled expression of `Transformation/ScaledReceiver.lean`, with its magnitude taken for an
unsigned receiver, and what the Java compiler lets be assigned to the type of the receiver.

Main definitions:

* `receiverLane`, `intermediate` — the lane of a receiver, and the value before it is scaled;
* `NarrowEnough`, `MagnitudeFits` — what a native expression needs of its type;
* `Assigns` — an expression that can be assigned, with its number.

Main results:

* `assigns_decimal_iff`, `assigns_whole_iff` — **when a receiver is assigned a number**.
-/

import CobolJava.Transformation.ScaledReceiver

set_option autoImplicit false

namespace CobolJava.Transformation

open Decimal (setScale remainder truncate roundToPrecision)

/-! ### The lane of a receiver -/

/-- The lane the expression of a receiver is evaluated in. -/
def receiverLane (program : CobolProgram) (item : DataItem) (raw : JavaExpression)
    (rounded : Bool) : Lane :=
  if item.decimalPlaces = 0 && nativeLane program raw item rounded then
    .native (some (targetDigits item))
  else .exact

/-- The value of the expression before it is scaled. -/
def intermediate (lane : Lane) (raw : JavaExpression) (x : ℚ) : ℚ :=
  match lane with
  | .exact => carried raw x
  | .native _ => x

/-- A native expression for an `int` receiver is an `int`. -/
def NarrowEnough (program : CobolProgram) (item : DataItem) (raw : JavaExpression)
    (rounded : Bool) : Prop :=
  receiverLane program item raw rounded = .native (some 9) →
    nativeLong program (some 9) raw = false

/-- The magnitude taken for an unsigned receiver is in range. -/
def MagnitudeFits (program : CobolProgram) (item : DataItem) (raw : JavaExpression)
    (rounded : Bool) (x : ℚ) : Prop :=
  ∀ digits, receiverLane program item raw rounded = .native digits →
    item.signed = false → expressionFitsDigits program item.integerDigits raw = true →
      inRange (nativeLong program digits raw) |truncate x|

section Assigned

variable {program : CobolProgram} {state : JavaState}

/-! ### The receiver -/

/-- The magnitude is taken for an unsigned receiver of a value that may be negative. -/
theorem applyNumericReceiverSemantics_eq {target raw : JavaExpression} {item : DataItem}
    (hitem : NumericItem program (arrayBaseName target) item) (h : ArithmeticRoot program raw)
    (rounded : Bool) :
    applyNumericReceiverSemantics program raw target rounded =
      if item.signed || !canBeNegative program raw then
        scaleNumericReceiver program raw item rounded
      else if item.decimalPlaces > 0 then
        .decimalMethod (scaleNumericReceiver program raw item rounded) .abs
      else .staticMethod .abs (scaleNumericReceiver program raw item rounded) := by
  have hsupported : ∀ source reason, raw ≠ .unsupported source reason := by
    rintro source reason rfl
    cases h with
    | plain h => cases h
  unfold applyNumericReceiverSemantics
  cases raw with
  | unsupported source reason => exact absurd rfl (hsupported source reason)
  | _ => simp only [hitem.found, hitem.numeric, Bool.not_true, Bool.false_eq_true, if_false]

/-- An expression that the Java compiler lets be assigned to the receiver, with its number. -/
def Assigns (program : CobolProgram) (state : JavaState) (item : DataItem)
    (expression : JavaExpression) (s : ℚ) : Prop :=
  ∃ v w, evaluate true program state expression = .ok v ∧
    assignable (mapPicToJavaType item) v = .ok w ∧ w.number = some s

theorem cut_scaled_nonneg {item : DataItem} {rounded : Bool} {y : ℚ} (hy : 0 ≤ y) :
    0 ≤ cut item (scaled item rounded y) := by
  have hscaled : 0 ≤ scaled item rounded y := Decimal.setScale_nonneg _ _ hy
  unfold cut
  split
  · exact Decimal.remainder_nonneg hscaled (by positivity)
  · exact hscaled

theorem intermediate_nonneg {lane : Lane} {raw : JavaExpression} {x : ℚ} (hx : 0 ≤ x) :
    0 ≤ intermediate lane raw x := by
  unfold intermediate carried
  split
  · split
    · exact Decimal.roundToPrecision_nonneg _ hx
    · exact hx
  · exact hx

theorem signedAs_cut_eq {item : DataItem} {raw : JavaExpression} {rounded : Bool} {lane : Lane}
    {x : ℚ} (hstate : WithinPictures program state) (h : ArithmeticRoot program raw)
    (hx : denote program state raw = some (.number x)) :
    signedAs item (cut item (scaled item rounded (intermediate lane raw x))) =
      if item.signed || !canBeNegative program raw then
        cut item (scaled item rounded (intermediate lane raw x))
      else |cut item (scaled item rounded (intermediate lane raw x))| := by
  unfold signedAs
  cases hsigned : item.signed with
  | true => simp
  | false =>
      cases hnegative : canBeNegative program raw with
      | true => simp
      | false =>
          have hnonneg := denote_nonneg h hstate hnegative hx
          simpa using cut_scaled_nonneg (intermediate_nonneg hnonneg)

/-- **A decimal receiver** gets the scaled and truncated value. -/
theorem assigns_decimal_iff {target raw : JavaExpression} {item : DataItem} {rounded : Bool}
    {x s : ℚ} (hstate : WithinPictures program state)
    (hitem : NumericItem program (arrayBaseName target) item) (h : ArithmeticRoot program raw)
    (hx : denote program state raw = some (.number x)) (hplaces : item.decimalPlaces > 0) :
    Assigns program state item (applyNumericReceiverSemantics program raw target rounded) s ↔
      Fits program state .exact raw ∧
        signedAs item (cut item (scaled item rounded (intermediate .exact raw x))) = s := by
  have htype : mapPicToJavaType item = .decimal := by
    simp [mapPicToJavaType, hitem.numeric, hitem.elementary, hplaces]
  have hscale : ∀ v, evaluate true program state (scaleNumericReceiver program raw item rounded) =
      .ok v ↔ Fits program state .exact raw ∧
        v = .decimal (cut item (scaled item rounded (carried raw x))) := by
    intro v
    unfold scaleNumericReceiver
    rw [if_pos hplaces]
    exact evaluate_scaleDecimalReceiver hstate h hx hitem.digits
  have hassigns : ∀ expression y, (∀ v, evaluate true program state expression = .ok v ↔
      Fits program state .exact raw ∧ v = .decimal y) →
      (Assigns program state item expression s ↔ Fits program state .exact raw ∧ y = s) := by
    intro expression y hvalue
    unfold Assigns
    rw [htype]
    constructor
    · rintro ⟨v, w, hv, hw, hnumber⟩
      obtain ⟨hfits, rfl⟩ := (hvalue v).1 hv
      obtain rfl := Except.ok.inj hw
      exact ⟨hfits, Option.some.inj hnumber⟩
    · rintro ⟨hfits, rfl⟩
      exact ⟨_, _, (hvalue _).2 ⟨hfits, rfl⟩, rfl, rfl⟩
  rw [applyNumericReceiverSemantics_eq hitem h, signedAs_cut_eq hstate h hx, if_pos hplaces]
  split
  · exact hassigns _ _ hscale
  · exact hassigns _ _ fun v => evaluate_decimalMethod hscale rfl

/-- Whether the scaled expression of an integral receiver is a `long`. -/
def resultLong (program : CobolProgram) (item : DataItem) (raw : JavaExpression) (rounded : Bool) :
    Bool :=
  if nativeLane program raw item rounded then
    nativeLong program (some (targetDigits item)) raw ||
      reducesNative program raw item && decide (item.picLength > 9)
  else decide (item.picLength > 9)

/-- The whole number the scaled expression of an integral receiver yields. -/
def wholeValue (program : CobolProgram) (item : DataItem) (raw : JavaExpression) (rounded : Bool)
    (x : ℚ) : ℤ :=
  wholeCut item ((receiverRounding rounded).toInt
    (intermediate (receiverLane program item raw rounded) raw x))

theorem receiverLane_native {item : DataItem} {raw : JavaExpression} {rounded : Bool}
    (hplaces : item.decimalPlaces = 0) (hlane : nativeLane program raw item rounded = true) :
    receiverLane program item raw rounded = .native (some (targetDigits item)) := by
  simp [receiverLane, hplaces, hlane]

theorem receiverLane_exact {item : DataItem} {raw : JavaExpression} {rounded : Bool}
    (hlane : item.decimalPlaces > 0 ∨ nativeLane program raw item rounded = false) :
    receiverLane program item raw rounded = .exact := by
  unfold receiverLane
  rcases hlane with hplaces | hlane
  · rw [if_neg (by simp; omega)]
  · simp [hlane]

theorem cut_scaled_whole {item : DataItem} {raw : JavaExpression} {rounded : Bool} {x : ℚ}
    (hplaces : item.decimalPlaces = 0) :
    cut item (scaled item rounded (intermediate (receiverLane program item raw rounded) raw x)) =
      (wholeValue program item raw rounded x : ℤ) := by
  rw [wholeValue, ← cut_intCast, scaled, hplaces, Decimal.setScale_zero_places]

/-- The scaled expression of an integral receiver. -/
theorem evaluate_scaleNumericReceiver {item : DataItem} {raw : JavaExpression} (rounded : Bool)
    {x : ℚ} (hstate : WithinPictures program state) (h : ArithmeticRoot program raw)
    (hx : denote program state raw = some (.number x)) (hdigits : item.picLength ≤ 18)
    (hplaces : item.decimalPlaces = 0) {v : JavaValue} :
    evaluate true program state (scaleNumericReceiver program raw item rounded) = .ok v ↔
      (Fits program state (receiverLane program item raw rounded) raw ∧
        (nativeLane program raw item rounded = false →
          inRange (item.picLength > 9) (wholeValue program item raw rounded x))) ∧
        v = integral (resultLong program item raw rounded)
          (wholeValue program item raw rounded x) := by
  unfold scaleNumericReceiver
  rw [if_neg (by omega)]
  by_cases hlane : nativeLane program raw item rounded = true
  · have hwhole : requiresFractionalType program raw = false := by
      simp only [nativeLane, Bool.and_eq_true, Bool.not_eq_true'] at hlane
      exact hlane.1
    have hvalue : wholeValue program item raw rounded x = wholeCut item (truncate x) := by
      rw [wholeValue, receiverLane_native hplaces hlane, intermediate,
        toInt_of_nativeLane h hlane hx]
    rw [if_pos hlane, evaluate_scaleNative hstate h hx hdigits hwhole,
      receiverLane_native hplaces hlane, hvalue, resultLong, if_pos hlane, hlane]
    simp
  · have hexact : nativeLane program raw item rounded = false := by simpa using hlane
    have hvalue : wholeValue program item raw rounded x =
        wholeCut item ((receiverRounding rounded).toInt (carried raw x)) := by
      rw [wholeValue, receiverLane_exact (.inr hexact), intermediate]
    rw [if_neg hlane, evaluate_scaleExact hstate h hx hdigits, receiverLane_exact (.inr hexact),
      hvalue, resultLong, if_neg hlane, hexact]
    simp

theorem inRange_of_kept {item : DataItem} {n : ℤ} (hdigits : item.picLength ≤ 18)
    (hn : |n| < 10 ^ item.integerDigits) {isLong : Bool}
    (htype : item.picLength ≤ 9 ∨ isLong = true) : inRange isLong n := by
  have hlength : item.integerDigits ≤ item.picLength := Nat.sub_le _ _
  have hrange : ∀ isLong : Bool, item.integerDigits ≤ (if isLong then 18 else 9) →
      inRange isLong n := fun isLong h => inRange_pow h hn.le
  rcases htype with hshort | rfl
  · exact inRange_of_int (hrange false (by simp; omega))
  · exact hrange true (by simp; omega)

theorem assignable_integral {item : DataItem} {name : String} {isLong : Bool} {n : ℤ}
    (hitem : NumericItem program name item) (hplaces : item.decimalPlaces = 0) :
    (∃ w, assignable (mapPicToJavaType item) (integral isLong n) = .ok w) ↔
      (item.picLength ≤ 9 → isLong = false) := by
  by_cases hlong : item.picLength > 9
  · have htype : mapPicToJavaType item = .long := by
      simp [mapPicToJavaType, hitem.numeric, hitem.elementary, hplaces, hlong]
    rw [htype]
    refine ⟨fun _ hshort => by omega, fun _ => ?_⟩
    cases isLong with
    | true => exact ⟨_, rfl⟩
    | false => exact ⟨_, rfl⟩
  · have htype : mapPicToJavaType item = .int := by
      simp [mapPicToJavaType, hitem.numeric, hitem.elementary, hplaces, hlong]
    rw [htype]
    cases isLong with
    | true => simp [integral, assignable]; omega
    | false => simp [integral, assignable]

theorem number_of_assignable {javaType : JavaBasicType} {isLong : Bool} {n : ℤ} {w : JavaValue}
    (h : assignable javaType (integral isLong n) = .ok w) : w.number = some (n : ℚ) := by
  cases isLong <;> cases javaType <;> cases h <;> rfl

theorem inRange_of_fits {digits : Option ℕ} {d : ℕ} {raw : JavaExpression} {x : ℚ}
    (hfits : Fits program state (.native digits) raw)
    (hdigits : expressionFitsDigits program d raw = true)
    (hx : denote program state raw = some (.number x)) :
    inRange (nativeLong program digits raw) (truncate x) := by
  cases raw with
  | literal value javaType => exact hfits x hx
  | variableRef name => exact hfits x hx
  | binaryOp left operator right => exact hfits.2.2 x hx
  | unaryOp operator operand => exact hfits.2.2 x hx
  | _ => cases hdigits

theorem assigns_integral_iff {expression : JavaExpression} {item : DataItem} {name : String}
    {F : Prop} {isLong : Bool} {n : ℤ} {s : ℚ} (hitem : NumericItem program name item)
    (hplaces : item.decimalPlaces = 0)
    (hvalue : ∀ v, evaluate true program state expression = .ok v ↔ F ∧ v = integral isLong n) :
    Assigns program state item expression s ↔
      F ∧ (item.picLength ≤ 9 → isLong = false) ∧ (n : ℚ) = s := by
  unfold Assigns
  rw [← assignable_integral hitem hplaces (n := n)]
  constructor
  · rintro ⟨v, w, hv, hw, hnumber⟩
    obtain ⟨hF, rfl⟩ := (hvalue v).1 hv
    exact ⟨hF, ⟨w, hw⟩, Option.some.inj ((number_of_assignable hw).symm.trans hnumber)⟩
  · rintro ⟨hF, ⟨w, hw⟩, rfl⟩
    exact ⟨_, w, (hvalue _).2 ⟨hF, rfl⟩, hw, number_of_assignable hw⟩

theorem evaluate_abs {expression : JavaExpression} {F : Prop} {isLong : Bool} {n : ℤ}
    (hvalue : ∀ v, evaluate true program state expression = .ok v ↔ F ∧ v = integral isLong n)
    {v : JavaValue} :
    evaluate true program state (.staticMethod .abs expression) = .ok v ↔
      (F ∧ inRange isLong |n|) ∧ v = integral isLong |n| := by
  simp only [evaluate]
  rw [Py.bind_eq_ok_iff_of_unique hvalue, and_assoc]
  simp only [applyStatic, asIntegral_integral, wrapping_trapped_eq_ok]

theorem targetDigits_eq_nine {item : DataItem} : targetDigits item = 9 ↔ item.picLength ≤ 9 := by
  unfold targetDigits
  split <;> simp_all

theorem resultLong_iff {item : DataItem} {raw : JavaExpression} {rounded : Bool}
    (hplaces : item.decimalPlaces = 0) :
    (item.picLength ≤ 9 → resultLong program item raw rounded = false) ↔
      NarrowEnough program item raw rounded := by
  unfold NarrowEnough resultLong
  by_cases hlane : nativeLane program raw item rounded = true
  · rw [if_pos hlane, receiverLane_native hplaces hlane]
    simp only [Lane.native.injEq, Option.some.injEq, targetDigits_eq_nine]
    constructor
    · intro h hshort
      have := h hshort
      rw [Bool.or_eq_false_iff, targetDigits_eq_nine.2 hshort] at this
      exact this.1
    · intro h hshort
      rw [targetDigits_eq_nine.2 hshort, h hshort]
      simp [hshort]
  · rw [if_neg hlane, receiverLane_exact (.inr (by simpa using hlane))]
    simp

/-- What `Math.abs` needs of the scaled expression. -/
theorem inRange_abs_iff {item : DataItem} {raw : JavaExpression} {rounded : Bool} {x : ℚ}
    (hstate : WithinPictures program state) (h : ArithmeticRoot program raw)
    (hx : denote program state raw = some (.number x)) (hdigits : item.picLength ≤ 18)
    (hplaces : item.decimalPlaces = 0)
    (hkept : |wholeValue program item raw rounded x| < 10 ^ item.integerDigits) :
    inRange (resultLong program item raw rounded) |wholeValue program item raw rounded x| ↔
      ∀ digits, receiverLane program item raw rounded = .native digits →
        expressionFitsDigits program item.integerDigits raw = true →
          inRange (nativeLong program digits raw) |truncate x| := by
  by_cases hlane : nativeLane program raw item rounded = true
  · have hwhole : requiresFractionalType program raw = false := by
      simp only [nativeLane, Bool.and_eq_true, Bool.not_eq_true'] at hlane
      exact hlane.1
    have hvalue : wholeValue program item raw rounded x = wholeCut item (truncate x) := by
      rw [wholeValue, receiverLane_native hplaces hlane, intermediate,
        toInt_of_nativeLane h hlane hx]
    have hlong : resultLong program item raw rounded =
        (nativeLong program (some (targetDigits item)) raw ||
          reducesNative program raw item && decide (item.picLength > 9)) := if_pos hlane
    rw [receiverLane_native hplaces hlane]
    simp only [Lane.native.injEq, forall_eq']
    by_cases hfits : expressionFitsDigits program item.integerDigits raw = true
    · -- nothing is cut, and the type is that of the expression
      have hbare : reducesNative program raw item = false := by simp [reducesNative, hfits]
      rw [hlong, hbare, Bool.false_and, Bool.or_false, hvalue,
        wholeCut_of_abs_lt (abs_truncate_lt_of_fitsDigits hstate h hwhole hfits hx)]
      exact ⟨fun hrange _ => hrange, fun hrange => hrange hfits⟩
    · refine iff_of_true ?_ fun hfits' => absurd hfits' hfits
      have habs : abs |wholeValue program item raw rounded x| < 10 ^ item.integerDigits := by
        rwa [abs_abs]
      by_cases hshort : item.picLength ≤ 9
      · exact inRange_of_kept hdigits habs (.inl hshort)
      · have hpos : item.integerDigits ≠ 0 := by
          unfold DataItem.integerDigits
          omega
        have hreduces : reducesNative program raw item = true := by
          simp [reducesNative, hfits, hpos]
        have hlong' : resultLong program item raw rounded = true := by
          rw [hlong, hreduces]
          simp only [gt_iff_lt, Bool.true_and, Bool.or_eq_true, decide_eq_true_eq]
          exact .inr (not_le.1 hshort)
        exact inRange_of_kept hdigits habs (.inr hlong')
  · have hlong : resultLong program item raw rounded = decide (item.picLength > 9) :=
      if_neg hlane
    rw [receiverLane_exact (.inr (by simpa using hlane)), hlong]
    refine iff_of_true (inRange_of_kept hdigits (by rwa [abs_abs]) ?_)
      fun digits hdigits' => by cases hdigits'
    by_cases hshort : item.picLength ≤ 9
    · exact .inl hshort
    · exact .inr (by simpa using hshort)

/-- **An integral receiver** gets the scaled and truncated value. -/
theorem assigns_whole_iff {target raw : JavaExpression} {item : DataItem} {rounded : Bool}
    {x s : ℚ} (hstate : WithinPictures program state)
    (hitem : NumericItem program (arrayBaseName target) item) (h : ArithmeticRoot program raw)
    (hx : denote program state raw = some (.number x)) (hplaces : item.decimalPlaces = 0)
    (hs : |s| < 10 ^ item.integerDigits) :
    Assigns program state item (applyNumericReceiverSemantics program raw target rounded) s ↔
      Fits program state (receiverLane program item raw rounded) raw ∧
        NarrowEnough program item raw rounded ∧ MagnitudeFits program item raw rounded x ∧
        signedAs item (cut item (scaled item rounded
          (intermediate (receiverLane program item raw rounded) raw x))) = s := by
  set N := wholeValue program item raw rounded x with hN
  have hscale := fun v =>
    @evaluate_scaleNumericReceiver _ _ _ _ rounded _ hstate h hx hitem.digits hplaces v
  have hshort : item.picLength ≤ 9 ∨ decide (item.picLength > 9) = true := by
    by_cases hlong : item.picLength ≤ 9
    · exact .inl hlong
    · exact .inr (by simpa using hlong)
  rw [applyNumericReceiverSemantics_eq hitem h, signedAs_cut_eq hstate h hx,
    cut_scaled_whole hplaces, ← hN]
  by_cases hsign : item.signed || !canBeNegative program raw
  · rw [if_pos hsign, if_pos hsign, assigns_integral_iff hitem hplaces hscale,
      resultLong_iff hplaces]
    constructor
    · rintro ⟨⟨hfits, -⟩, hnarrow, hvalue⟩
      refine ⟨hfits, hnarrow, ?_, hvalue⟩
      intro digits hlane hunsigned hd
      -- an unsigned receiver whose magnitude is not taken gets no negative value
      have hnegative : canBeNegative program raw = false := by simpa [hunsigned] using hsign
      have hnonneg := denote_nonneg h hstate hnegative hx
      have htruncate : 0 ≤ truncate x := Decimal.toInt_nonneg .down hnonneg
      rw [abs_of_nonneg htruncate]
      rw [hlane] at hfits
      exact inRange_of_fits hfits hd hx
    · rintro ⟨hfits, hnarrow, -, hvalue⟩
      have hkept : |N| < 10 ^ item.integerDigits := by
        rw [← hvalue] at hs
        exact_mod_cast hs
      exact ⟨⟨hfits, fun _ => inRange_of_kept hitem.digits hkept hshort⟩, hnarrow, hvalue⟩
  · have hunsigned : item.signed = false := by
      simp only [Bool.or_eq_true, not_or, Bool.not_eq_true] at hsign
      exact hsign.1
    rw [if_neg hsign, if_neg (by omega), if_neg hsign,
      assigns_integral_iff hitem hplaces (fun v => evaluate_abs hscale), resultLong_iff hplaces]
    have hmagnitude : |N| < 10 ^ item.integerDigits →
        (inRange (resultLong program item raw rounded) |N| ↔
          MagnitudeFits program item raw rounded x) := by
      intro hkept
      rw [inRange_abs_iff hstate h hx hitem.digits hplaces hkept]
      unfold MagnitudeFits
      simp only [hunsigned, forall_const]
    rw [Int.cast_abs]
    have hkept : |(N : ℚ)| = s → |N| < 10 ^ item.integerDigits := by
      intro hvalue
      rw [← hvalue, abs_abs] at hs
      exact_mod_cast hs
    constructor
    · rintro ⟨⟨⟨hfits, -⟩, hrange⟩, hnarrow, hvalue⟩
      exact ⟨hfits, hnarrow, (hmagnitude (hkept hvalue)).1 hrange, hvalue⟩
    · rintro ⟨hfits, hnarrow, hrange, hvalue⟩
      exact ⟨⟨⟨hfits, fun _ => inRange_of_kept hitem.digits (hkept hvalue) hshort⟩,
        (hmagnitude (hkept hvalue)).2 hrange⟩, hnarrow, hvalue⟩

end Assigned

end CobolJava.Transformation
