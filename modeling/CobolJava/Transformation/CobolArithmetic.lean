/-
**COBOL arithmetic.**

What an arithmetic statement stores in COBOL: the exact rational value of its expression, scaled to
the receiver and reduced to the digits the receiver holds.

Main definitions:

* `WithinPicture` — contents an item can hold;
* `CobolValue`, `denote` — the exact value of an expression;
* `Arithmetic` — the expressions built from items, table elements and literals with `+`, `-`, `*`
  and unary minus;
* `ArithmeticStatement`, `stored`, `StoresExactly` — a statement, and what it stores.

Main results:

* `denote_integral` — an expression of whole items has a whole value;
* `denote_nonneg` — an expression that is not found to be negative is not.
-/

import CobolJava.Transformation.JavaArithmetic

set_option autoImplicit false

namespace CobolJava.Transformation

open Decimal (setScale remainder)

/-! ### Contents of items -/

/-- The unscaled contents are within the `PICTURE`. -/
def WithinPicture (item : DataItem) (unscaled : ℤ) : Prop :=
  |unscaled| < 10 ^ item.picLength ∧ (item.signed = false → 0 ≤ unscaled)

/-- Every numeric item, and every element of every table, is within its `PICTURE`. -/
def WithinPictures (program : CobolProgram) (state : JavaState) : Prop :=
  ∀ name item, findDataItem program name = some item → item.isNumeric = true →
    ∀ indices, WithinPicture item (state name indices)

def contents (item : DataItem) (unscaled : ℤ) : ℚ :=
  (unscaled : ℚ) / 10 ^ item.decimalPlaces

/-! ### Values of expressions -/

/-- What an expression stands for: a number, or the part of a table some subscripts select. -/
inductive CobolValue
  | number (x : ℚ)
  | part (name : String) (indices : List ℤ)
  deriving DecidableEq, Repr

/-- What the subscripts given so far select. -/
def selected (state : JavaState) (item : DataItem) (name : String) (indices : List ℤ) :
    CobolValue :=
  if indices.length = item.dimensions.length then .number (contents item (state name indices))
  else .part name indices

/-- One more subscript, which must denote an occurrence. -/
def subscripted (program : CobolProgram) (state : JavaState) (name : String) (indices : List ℤ)
    (x : ℚ) : Option CobolValue := do
  let item ← findDataItem program name
  let dimension ← item.dimensions[indices.length]?
  if x.den = 1 ∧ 0 ≤ x.num ∧ x.num < dimension then
    some (selected state item name (indices ++ [x.num]))
  else none

/-- The exact result of an operation. -/
def exactResult (operator : BinaryOperator) (x y : ℚ) : Option ℚ :=
  match operator with
  | .add => some (x + y)
  | .sub => some (x - y)
  | .mul => some (x * y)
  | .div => if y = 0 then none else some (x / y)
  | _ => none

/-- The exact value of an expression. -/
def denote (program : CobolProgram) (state : JavaState) : JavaExpression → Option CobolValue
  | .literal value _ => some (.number value.value)
  | .variableRef name => (findDataItem program name).map fun item => selected state item name []
  | .arrayAccess array index =>
      match denote program state array, denote program state index with
      | some (.part name indices), some (.number x) => subscripted program state name indices x
      | _, _ => none
  | .binaryOp left operator right =>
      match denote program state left, denote program state right with
      | some (.number x), some (.number y) => (exactResult operator x y).map .number
      | _, _ => none
  | .unaryOp .neg operand =>
      match denote program state operand with
      | some (.number x) => some (.number (-x))
      | _ => none
  | _ => none

/-! ### Arithmetic expressions -/

/-- A numeric elementary item of at most 18 digits, declared under its Java name. -/
structure NumericItem (program : CobolProgram) (name : String) (item : DataItem) : Prop where
  found : findDataItem program name = some item
  spelled : javaName item.name = name.toList
  numeric : item.isNumeric = true
  elementary : item.hasSubstantiveChildren = false
  digits : item.picLength ≤ 18

/-- `1`, as the lowering of a subscript writes it. -/
def IsOne (expression : JavaExpression) : Prop :=
  expression = .literal ⟨false, 1, 0, false⟩ none ∨
    expression = .literal ⟨false, 1, 0, false⟩ (some .int)

/-- The expressions built from literals, items and table elements with `+`, `-`, `*` and unary
minus; the list has the dimensions that are not subscripted yet, none for a number. -/
inductive Arithmetic (program : CobolProgram) : JavaExpression → List ℕ → Prop
  | literal (negative : Bool) (unscaled places : ℕ) :
      Arithmetic program (numericJavaLiteral negative unscaled places) []
  | item {name : String} {item : DataItem} {dimensions : List ℕ} (h : NumericItem program name item)
      (hdims : item.dimensions = dimensions) : Arithmetic program (.variableRef name) dimensions
  | element {array subscript one : JavaExpression} {dimension : ℕ} {dimensions : List ℕ}
      (harray : Arithmetic program array (dimension :: dimensions))
      (hsubscript : Arithmetic program subscript []) (hone : IsOne one)
      (hwhole : requiresFractionalType program subscript = false) :
      Arithmetic program (.arrayAccess array (.binaryOp subscript .sub one)) dimensions
  | binary {left right : JavaExpression} {operator : BinaryOperator}
      (hleft : Arithmetic program left []) (hright : Arithmetic program right [])
      (hoperator : operator = .add ∨ operator = .sub ∨ operator = .mul) :
      Arithmetic program (.binaryOp left operator right) []
  | negate {operand : JavaExpression} (h : Arithmetic program operand []) :
      Arithmetic program (.unaryOp .neg operand) []

/-- An arithmetic expression, or one division of two of them. -/
inductive ArithmeticRoot (program : CobolProgram) : JavaExpression → Prop
  | plain {raw : JavaExpression} (h : Arithmetic program raw []) : ArithmeticRoot program raw
  | quotient {left right : JavaExpression} (hleft : Arithmetic program left [])
      (hright : Arithmetic program right []) :
      ArithmeticRoot program (.binaryOp left .div right)

/-- A reference to an item or a table element. -/
def IsReference : JavaExpression → Prop
  | .variableRef _ | .arrayAccess _ _ => True
  | _ => False

/-- **An arithmetic statement and a state it is run in**: the receiver and the operands are numeric
items or existing table elements of at most 18 digits, every item is within its `PICTURE`, and the
expression has the exact value `x`, so that no divisor is zero. -/
structure ArithmeticStatement (program : CobolProgram) (state : JavaState)
    (target raw : JavaExpression) (item : DataItem) (x : ℚ) : Prop where
  receiver : NumericItem program (arrayBaseName target) item
  reference : IsReference target
  wellFormed : Arithmetic program target []
  located : ∃ y, denote program state target = some (.number y)
  expression : ArithmeticRoot program raw
  value : denote program state raw = some (.number x)
  pictures : WithinPictures program state

attribute [grind =] denote

section Values

variable {program : CobolProgram} {state : JavaState}

/-! ### Inversion -/

theorem denote_binaryOp {left right : JavaExpression} {operator : BinaryOperator} {D : CobolValue}
    (h : denote program state (.binaryOp left operator right) = some D) :
    ∃ x y z, denote program state left = some (.number x) ∧
      denote program state right = some (.number y) ∧ exactResult operator x y = some z ∧
      D = .number z := by
  simp only [denote] at h
  split at h
  · rename_i x y hx hy
    obtain ⟨z, hz, rfl⟩ := Option.map_eq_some_iff.1 h
    exact ⟨x, y, z, hx, hy, hz, rfl⟩
  · cases h

theorem denote_neg {operand : JavaExpression} {D : CobolValue}
    (h : denote program state (.unaryOp .neg operand) = some D) :
    ∃ x, denote program state operand = some (.number x) ∧ D = .number (-x) := by
  simp only [denote] at h
  split at h
  · rename_i x hx
    exact ⟨x, hx, (Option.some.inj h).symm⟩
  · cases h

theorem denote_arrayAccess {array index : JavaExpression} {D : CobolValue}
    (h : denote program state (.arrayAccess array index) = some D) :
    ∃ name indices x item dimension, denote program state array = some (.part name indices) ∧
      denote program state index = some (.number x) ∧ findDataItem program name = some item ∧
      item.dimensions[indices.length]? = some dimension ∧
      (x.den = 1 ∧ 0 ≤ x.num ∧ x.num < dimension) ∧
      D = selected state item name (indices ++ [x.num]) := by
  simp only [denote] at h
  split at h
  · rename_i name indices x harray hindex
    simp only [subscripted, Option.bind_eq_bind, Option.bind_eq_some_iff] at h
    obtain ⟨item, hitem, dimension, hdimension, h⟩ := h
    by_cases hx : x.den = 1 ∧ 0 ≤ x.num ∧ x.num < dimension
    · rw [if_pos hx] at h
      exact ⟨name, indices, x, item, dimension, harray, hindex, hitem, hdimension, hx,
        (Option.some.inj h).symm⟩
    · rw [if_neg hx] at h
      cases h
  · cases h

theorem Arithmetic.isReference {e : JavaExpression} {dimension : ℕ} {dimensions : List ℕ}
    (h : Arithmetic program e (dimension :: dimensions)) : IsReference e := by
  cases h with
  | item h hdims => trivial
  | element harray hsubscript hone hwhole => trivial

/-- What a reference stands for: what its subscripts select of its item. -/
theorem denote_reference {e : JavaExpression} {dimensions : List ℕ} {D : CobolValue}
    (h : Arithmetic program e dimensions) (href : IsReference e)
    (hD : denote program state e = some D) :
    ∃ item indices, NumericItem program (arrayBaseName e) item ∧
      D = selected state item (arrayBaseName e) indices ∧
      indices.length + dimensions.length = item.dimensions.length := by
  induction h generalizing D with
  | literal negative unscaled places => cases href
  | @item name item dimensions h hdims =>
      simp only [denote, h.found, Option.map_some, Option.some.injEq] at hD
      exact ⟨item, [], h, hD.symm, by simp [hdims]⟩
  | element harray hsubscript hone hwhole iharray ihsubscript =>
      obtain ⟨name, indices, x, item, dimension, hpart, hindex, hitem, hdimension, hx, rfl⟩ :=
        denote_arrayAccess hD
      obtain ⟨item', indices', hitem', hselected, hlength⟩ := iharray harray.isReference hpart
      unfold selected at hselected
      split at hselected
      · cases hselected
      · obtain ⟨rfl, rfl⟩ := CobolValue.part.inj hselected
        obtain rfl : item' = item := Option.some.inj (hitem'.found.symm.trans hitem)
        refine ⟨item', _, hitem', rfl, ?_⟩
        simp only [List.length_append, List.length_cons, List.length_nil] at hlength ⊢
        omega
  | binary hleft hright hoperator => cases href
  | negate h => cases href

/-! ### Whole and non-negative values -/

theorem requiresFractionalType_reference {e : JavaExpression} {item : DataItem}
    (href : IsReference e) (hitem : findDataItem program (arrayBaseName e) = some item) :
    requiresFractionalType program e = decide (item.decimalPlaces > 0) := by
  cases e with
  | variableRef name =>
      simp only [arrayBaseName] at hitem
      simp only [requiresFractionalType, hitem]
  | arrayAccess array index => simp only [requiresFractionalType, hitem]
  | _ => cases href

theorem numericJavaLiteral_places {negative : Bool} {unscaled places : ℕ}
    (h : requiresFractionalType program (numericJavaLiteral negative unscaled places) = false) :
    places = 0 := by
  unfold numericJavaLiteral numericLiteralJavaType at h
  by_contra hplaces
  rw [if_pos (Nat.pos_of_ne_zero hplaces)] at h
  simp [requiresFractionalType] at h

/-- **An expression of whole items and literals has a whole value.** -/
theorem denote_integral {e : JavaExpression} {dimensions : List ℕ} {x : ℚ}
    (h : Arithmetic program e dimensions) (hwhole : requiresFractionalType program e = false)
    (hx : denote program state e = some (.number x)) : ∃ n : ℤ, x = n := by
  -- the value of a reference is the unscaled contents of an item without decimal places
  have hreference : ∀ {e dimensions x}, Arithmetic program e dimensions → IsReference e →
      requiresFractionalType program e = false →
      denote program state e = some (.number x) → ∃ n : ℤ, x = n := by
    intro e dimensions x h href hwhole hx
    obtain ⟨item, indices, hitem, hselected, -⟩ := denote_reference h href hx
    rw [requiresFractionalType_reference href hitem.found] at hwhole
    have hplaces : item.decimalPlaces = 0 := by simpa using hwhole
    unfold selected at hselected
    split at hselected
    · exact ⟨state (arrayBaseName e) indices,
        (CobolValue.number.inj hselected).trans (by simp [contents, hplaces])⟩
    · cases hselected
  induction h generalizing x with
  | literal negative unscaled places =>
      obtain rfl := numericJavaLiteral_places hwhole
      simp only [numericJavaLiteral, denote, Option.some.injEq, CobolValue.number.injEq] at hx
      exact ⟨_, hx.symm.trans (NumericLiteral.value_of_places_eq_zero rfl)⟩
  | item h hdims => exact hreference (.item h hdims) trivial hwhole hx
  | element harray hsubscript hone hwhole' =>
      exact hreference (.element harray hsubscript hone hwhole') trivial hwhole hx
  | @binary left right operator hleft hright hoperator ihleft ihright =>
      obtain ⟨y, z, w, hy, hz, hw, heq⟩ := denote_binaryOp hx
      obtain rfl := CobolValue.number.inj heq
      rw [requiresFractionalType, Bool.or_eq_false_iff] at hwhole
      obtain ⟨m, rfl⟩ := ihleft hwhole.1 hy
      obtain ⟨n, rfl⟩ := ihright hwhole.2 hz
      rcases hoperator with rfl | rfl | rfl
      · exact ⟨m + n, by simpa using (Option.some.inj hw).symm⟩
      · exact ⟨m - n, by simpa using (Option.some.inj hw).symm⟩
      · exact ⟨m * n, by simpa using (Option.some.inj hw).symm⟩
  | negate h ih =>
      obtain ⟨y, hy, heq⟩ := denote_neg hx
      obtain rfl := CobolValue.number.inj heq
      obtain ⟨n, rfl⟩ := ih hwhole hy
      exact ⟨-n, by simp⟩

theorem contents_nonneg {item : DataItem} {unscaled : ℤ} (h : WithinPicture item unscaled)
    (hunsigned : item.signed = false) : 0 ≤ contents item unscaled := by
  have hcontents : (0 : ℚ) ≤ (unscaled : ℚ) := by exact_mod_cast h.2 hunsigned
  unfold contents
  positivity

/-- **An expression that is not found to be negative is not.** -/
theorem denote_nonneg {e : JavaExpression} {x : ℚ} (h : ArithmeticRoot program e)
    (hstate : WithinPictures program state) (hsign : canBeNegative program e = false)
    (hx : denote program state e = some (.number x)) : 0 ≤ x := by
  have hplain : ∀ {e dimensions x}, Arithmetic program e dimensions →
      canBeNegative program e = false → denote program state e = some (.number x) → 0 ≤ x := by
    intro e dimensions x h hsign hx
    induction h generalizing x with
    | literal negative unscaled places =>
        simp only [numericJavaLiteral, denote, Option.some.injEq, CobolValue.number.injEq] at hx
        obtain rfl : negative = false := hsign
        rw [← hx]
        simp only [NumericLiteral.value, NumericLiteral.signedDigits, Bool.false_eq_true, ↓reduceIte]
        positivity
    | @item name item dimensions h hdims =>
        simp only [canBeNegative, h.found, h.numeric, ↓reduceIte] at hsign
        simp only [denote, h.found, Option.map_some, Option.some.injEq, selected] at hx
        split at hx
        · rw [← CobolValue.number.inj hx]
          exact contents_nonneg (hstate name item h.found h.numeric []) hsign
        · cases hx
    | element harray hsubscript hone hwhole => cases hsign
    | @binary left right operator hleft hright hoperator ihleft ihright =>
        obtain ⟨y, z, w, hy, hz, hw, heq⟩ := denote_binaryOp hx
        obtain rfl := CobolValue.number.inj heq
        rcases hoperator with rfl | rfl | rfl
        · rw [canBeNegative, Bool.or_eq_false_iff] at hsign
          rw [← Option.some.inj hw]
          exact add_nonneg (ihleft hsign.1 hy) (ihright hsign.2 hz)
        · cases hsign
        · rw [canBeNegative, Bool.or_eq_false_iff] at hsign
          rw [← Option.some.inj hw]
          exact mul_nonneg (ihleft hsign.1 hy) (ihright hsign.2 hz)
    | negate h => cases hsign
  cases h with
  | plain h => exact hplain h hsign hx
  | quotient hleft hright =>
      obtain ⟨y, z, w, hy, hz, hw, heq⟩ := denote_binaryOp hx
      obtain rfl := CobolValue.number.inj heq
      rw [canBeNegative, Bool.or_eq_false_iff] at hsign
      rw [exactResult] at hw
      split at hw
      · cases hw
      · rw [← Option.some.inj hw]
        exact div_nonneg (hplain hleft hsign.1 hy) (hplain hright hsign.2 hz)

end Values

/-! ### The stored value -/

/-- A value at the receiver's scale. -/
def scaled (item : DataItem) (rounded : Bool) (x : ℚ) : ℚ :=
  setScale (receiverRounding rounded) item.decimalPlaces x

/-- A scaled value reduced to the digits and the sign the receiver holds. -/
def kept (item : DataItem) (y : ℚ) : ℚ :=
  let low := remainder y (10 ^ item.integerDigits)
  if item.signed then low else |low|

/-- **What COBOL stores** for the exact value `x`. -/
def stored (item : DataItem) (rounded : Bool) (x : ℚ) : ℚ :=
  kept item (scaled item rounded x)

def JavaValue.number : JavaValue → Option ℚ
  | .int n => some n
  | .long n => some n
  | .decimal x => some x
  | _ => none

/-- The statement stores `y` without an exception, and it does so too when overflow is trapped: no
`int` or `long` operation wraps. -/
def StoresExactly (program : CobolProgram) (state : JavaState) (statement : JavaStatement) (y : ℚ) :
    Prop :=
  ∃ value, value.number = some y ∧ execute false program state statement = .ok (some value) ∧
    execute true program state statement = .ok (some value)

end CobolJava.Transformation
