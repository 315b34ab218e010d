/-
**Level-88 condition names.**

The terms of the VALUE clause of a condition name, the Java condition that stands for the name and
the Java assignment that `SET name TO TRUE` becomes (`_condition_terms`, `condition_name_problems`,
`condition_name_expression` and the `SET` branch of `map_cobol_statement` in
`cobol_to_java_mapping.py`), for a conditional variable that is an elementary item without
subscripts.

Main definitions:

* `conditionTerms` — the terms that are read from a clause;
* `conditionValueLiteral`, `mapPicToJavaDefault` — a VALUE as a Java literal, by the two routes;
* `conditionNameProblem`, `conditionNameExpression`, `setCondition` — the functions;
* `ItemValue`, `evaluate`, `assigned` — the Java they emit.

Main results:

* `conditionTerms_of_joined` — **the terms of a written clause**;
* `truth_or_iff` — a condition of several terms.
-/

import Mathlib
import CobolJava.Lib.PaddedText
import CobolJava.Transformation.CobolArithmetic
import CobolJava.Transformation.NumericValues

set_option autoImplicit false

namespace CobolJava.ConditionName

open Py.Chars Transformation

abbrev Text : Type := List Char

/-- Texts are compared character by character. -/
local instance lawfulBEq_text : LawfulBEq (List Char) := List.instLawfulBEq

/-! ### Terms of a clause -/

/-- `_FIGURATIVE_ZERO_VALUES` -/
def figurativeZeroValues : List Text :=
  ["ZERO", "ZEROS", "ZEROES"].map String.toList

def throughWords : List Text :=
  ["THRU", "THROUGH"].map String.toList

def isQuote (c : Char) : Bool := c = '"' || c = '\''

/-- `_is_quoted_literal` -/
def isQuotedLiteral (text : Text) : Bool :=
  2 ≤ text.length && text.head? = text.getLast? && text.head?.any isQuote

def isSeparator (c : Char) : Bool := Py.isSpace c || c = ','

/-- The match of `_CONDITION_VALUE_TOKEN` at a character that is no separator: a literal up to the
next occurrence of its delimiter, otherwise everything up to a separator. -/
def matchedToken (c : Char) (rest : Text) : Text :=
  if isQuote c && rest.contains c then c :: (rest.takeWhile (· != c) ++ [c])
  else c :: rest.takeWhile fun d => !isSeparator d

/-- `_CONDITION_VALUE_TOKEN.findall`, behind the characters of the last match. -/
def conditionTokensFrom : ℕ → Text → List Text
  | _, [] => []
  | skip + 1, _ :: rest => conditionTokensFrom skip rest
  | 0, c :: rest =>
      if isSeparator c then conditionTokensFrom 0 rest
      else matchedToken c rest :: conditionTokensFrom ((matchedToken c rest).length - 1) rest

/-- The terms of a list of tokens: single values and ranges. -/
def termsOfTokens : List Text → List (Text × Option Text)
  | low :: through :: high :: rest =>
      if upper through ∈ throughWords then (low, some high) :: termsOfTokens rest
      else (low, none) :: termsOfTokens (through :: high :: rest)
  | low :: rest => (low, none) :: termsOfTokens rest
  | [] => []

/-- `_condition_terms` -/
def conditionTerms (raw : Text) : List (Text × Option Text) :=
  termsOfTokens (conditionTokensFrom 0 raw)

/-! ### Figurative constants -/

/-- The figurative constants that fill an item. -/
inductive Figurative
  | zero
  | spaces
  | quotes
  | lowValue
  | highValue
  deriving DecidableEq, Repr

/-- `CANONICAL_FIGURATIVES` -/
def canonicalFiguratives : List (Text × Figurative) :=
  [("ZERO".toList, .zero), ("ZEROS".toList, .zero), ("ZERO-ZERO-ZERO".toList, .zero),
    ("ZEROES".toList, .zero), ("SPACE".toList, .spaces), ("SPACES".toList, .spaces),
    ("QUOTE".toList, .quotes), ("QUOTES".toList, .quotes), ("LOW-VALUE".toList, .lowValue),
    ("LOW-VALUES".toList, .lowValue), ("HIGH-VALUE".toList, .highValue),
    ("HIGH-VALUES".toList, .highValue)]

/-- `parse_figurative_constant` of a token, which has no white space outside a literal, so that no
form with `ALL` occurs. -/
def parseFigurativeConstant (text : Text) : Option Figurative :=
  if isQuotedLiteral text then none
  else canonicalFiguratives.lookup (upper text)

/-- The character a figurative constant fills with. -/
def Figurative.fill : Figurative → Char
  | .zero => '0'
  | .spaces => ' '
  | .quotes => '"'
  | .lowValue => '\x00'
  | .highValue => 'ÿ'

/-- `figurative_to_width`, for a positive width. -/
def figurativeToWidth (constant : Figurative) (width : ℕ) : Text :=
  List.replicate width constant.fill

/-! ### Java literals -/

/-- Comparison and logical operators of a condition. -/
inductive ConditionOperator
  | eq
  | ge
  | le
  | and
  | or
  deriving DecidableEq, Repr

/-- Java conditions; a text literal is given by its value. -/
inductive ConditionExpression
  | numberLiteral (value : NumericLiteral) (javaType : Option JavaBasicType)
  | textLiteral (value : Text)
  | variableRef (name : List Char)
  | binaryOp (left : ConditionExpression) (operator : ConditionOperator)
      (right : ConditionExpression)
  /-- `objectRef.equals(argument)` -/
  | equals (objectRef argument : ConditionExpression)
  /-- `objectRef.compareTo(argument)` -/
  | compareTo (objectRef argument : ConditionExpression)
  /-- A name that is not declared. -/
  | undeclared
  deriving DecidableEq, Repr

/-- The Java literal of a normalized numeric text. -/
def numericLiteralOf (normalized : Text) : NumericLiteral :=
  let body := NumericValues.afterSign normalized
  let frac := NumericValues.behindPoint body
  let unscaled := DecimalText.number (NumericValues.beforePoint body ++ frac)
  let negative := normalized.head? = some '-'
  ⟨negative, unscaled, frac.length, javaIntegralSuffix negative unscaled frac.length⟩

/-- `_numeric_java_literal` of a normalized text, with its type. -/
def numericJavaLiteral (normalized : Text) : ConditionExpression :=
  let l := numericLiteralOf normalized
  .numberLiteral l (some (numericLiteralJavaType l.negative l.unscaled l.places))

/-- `unquote_literal` -/
def unquoteLiteral (text : Text) : Text :=
  if isQuotedLiteral text then (text.drop 1).dropLast else text

/-- What `map_pic_to_java_default` gives for an item with a VALUE, as the literal's value. -/
inductive JavaDefault
  /-- A numeric literal by its digits, without the suffix. -/
  | number (text : Text)
  | text (value : Text)
  deriving DecidableEq, Repr

/-- `map_pic_to_java_default` for an item with a VALUE. -/
def mapPicToJavaDefault (item : DataItem) (value : Text) :
    Except NumericValues.NumericValueError JavaDefault :=
  if item.isNumeric then
    (NumericValues.normalizeValueForPic value item.integerDigits item.decimalPlaces item.signed).map
      .number
  else if 0 < item.picLength then
    match parseFigurativeConstant value with
    | some constant => .ok (.text (figurativeToWidth constant item.picLength))
    | none =>
        let plain := if upper value ∈ ["SPACE".toList, "SPACES".toList] then []
          else unquoteLiteral value
        .ok (.text (PaddedText.cut ' ' item.picLength plain))
  else .ok (.text (unquoteLiteral value))

/-- `_condition_value_literal` -/
def conditionValueLiteral (raw : Text) (parent : DataItem) : ConditionExpression :=
  let text := strip raw
  if parent.isNumeric then
    if upper (unquoteLiteral text) ∈ figurativeZeroValues then
      .numberLiteral ⟨false, 0, 0, false⟩ none
    else
      match NumericValues.normalizeNumericLiteral (unquoteLiteral text) with
      | .ok normalized => numericJavaLiteral normalized
      | .error _ => .undeclared
  else
    match mapPicToJavaDefault parent text with
    | .ok (.text value) => .textLiteral value
    | _ => .undeclared

/-- `_condition_value_is_supported` -/
def conditionValueIsSupported (raw : Text) (parent : DataItem) : Bool :=
  let text := strip raw
  if text = [] then false
  else if parent.isNumeric then
    upper (unquoteLiteral text) ∈ figurativeZeroValues ||
      (NumericValues.normalizeNumericLiteral (unquoteLiteral text)).toBool
  else isQuotedLiteral text || (parseFigurativeConstant text).isSome

/-! ### The functions -/

/-- Whether `condition_name_problems` has an entry for a condition name. -/
def conditionNameProblem (parent : DataItem) (terms : List (Text × Option Text)) : Bool :=
  terms = [] || terms.any fun term =>
    !conditionValueIsSupported term.1 parent ||
      term.2.any fun high => !conditionValueIsSupported high parent

/-- `_condition_term_expression` -/
def conditionTermExpression (parent : DataItem) (term : Text × Option Text) : ConditionExpression :=
  let parentRef := ConditionExpression.variableRef (javaName parent.name)
  let low := conditionValueLiteral term.1 parent
  match term.2 with
  | none => if parent.isNumeric then .binaryOp parentRef .eq low else .equals low parentRef
  | some through =>
      let high := conditionValueLiteral through parent
      if parent.isNumeric then
        .binaryOp (.binaryOp parentRef .ge low) .and (.binaryOp parentRef .le high)
      else
        .binaryOp
          (.binaryOp (.compareTo parentRef low) .ge (.numberLiteral ⟨false, 0, 0, false⟩ none)) .and
          (.binaryOp (.compareTo parentRef high) .le (.numberLiteral ⟨false, 0, 0, false⟩ none))

/-- `condition_name_expression` -/
def conditionNameExpression (parent : DataItem) :
    List (Text × Option Text) → ConditionExpression
  | [] => .undeclared
  | term :: terms =>
      terms.foldl
        (fun expression term => .binaryOp expression .or (conditionTermExpression parent term))
        (conditionTermExpression parent term)

/-- The literal that `SET name TO TRUE` assigns to the conditional variable; nothing when the name
has a problem, and an error when the VALUE is refused. -/
def setCondition (parent : DataItem) (terms : List (Text × Option Text)) :
    Except NumericValues.NumericValueError (Option JavaDefault) :=
  if conditionNameProblem parent terms then .ok none
  else
    match terms with
    | [] => .ok none
    | (low, _) :: _ => (mapPicToJavaDefault parent low).map some

/-! ### Java -/

/-- What the field of an elementary item holds: the unscaled number, or the characters. -/
inductive ItemValue
  | number (unscaled : ℤ)
  | text (value : Text)
  deriving DecidableEq, Repr

/-- Values of Java conditions. -/
inductive ConditionValue
  | integral (n : ℤ)
  /-- A `BigDecimal` object. -/
  | decimal (x : ℚ)
  | string (value : Text)
  | boolean (b : Bool)
  deriving DecidableEq, Repr

/-- `String.compareTo`. -/
def compareStrings : Text → Text → ℤ
  | c :: s, d :: t => if c = d then compareStrings s t else (c.toNat : ℤ) - d.toNat
  | s, t => (s.length : ℤ) - t.length

/-- The field of the conditional variable. -/
def readField (parent : DataItem) : ItemValue → Option ConditionValue
  | .number unscaled =>
      match mapPicToJavaType parent with
      | .int | .long => some (.integral unscaled)
      | .decimal => some (.decimal (contents parent unscaled))
      | _ => none
  | .text value =>
      match mapPicToJavaType parent with
      | .string => some (.string value)
      | _ => none

/-- An operator on evaluated operands.  `==` on two objects compares references, and a literal is a
new object; the other comparisons take numbers only. -/
def applyOperator (operator : ConditionOperator) (left right : ConditionValue) :
    Option ConditionValue :=
  match operator, left, right with
  | .eq, .integral m, .integral n => some (.boolean (m = n))
  | .eq, .decimal _, .decimal _ => some (.boolean false)
  | .ge, .integral m, .integral n => some (.boolean (n ≤ m))
  | .le, .integral m, .integral n => some (.boolean (m ≤ n))
  | .and, .boolean b, .boolean c => some (.boolean (b && c))
  | .or, .boolean b, .boolean c => some (.boolean (b || c))
  | _, _, _ => none

/-- Evaluation of a condition on the field of its conditional variable; none when it does not
compile. -/
def evaluate (parent : DataItem) (field : ItemValue) : ConditionExpression → Option ConditionValue
  | .numberLiteral value javaType =>
      if javaType = some .decimal then some (.decimal value.value)
      else if value.places = 0 ∧ inRange value.longSuffix value.signedDigits then
        some (.integral value.signedDigits)
      else none
  | .textLiteral value => some (.string value)
  | .variableRef name => if name = javaName parent.name then readField parent field else none
  | .binaryOp left operator right => do
      let left' ← evaluate parent field left
      let right' ← evaluate parent field right
      applyOperator operator left' right'
  | .equals objectRef argument => do
      let object ← evaluate parent field objectRef
      let argument' ← evaluate parent field argument
      match object, argument' with
      | .string s, .string t => some (.boolean (s = t))
      | _, _ => none
  | .compareTo objectRef argument => do
      let object ← evaluate parent field objectRef
      let argument' ← evaluate parent field argument
      match object, argument' with
      | .string s, .string t => some (.integral (compareStrings s t))
      | _, _ => none
  | .undeclared => none

/-- The truth of a condition that compiles. -/
def truth (parent : DataItem) (field : ItemValue) (expression : ConditionExpression) : Option Bool :=
  match evaluate parent field expression with
  | some (.boolean b) => some b
  | _ => none

/-- The number of a whole Java literal, which is octal behind a superfluous zero. -/
def readWholeLiteral (digits : Text) : Option ℕ :=
  if digits.head? = some '0' ∧ digits ≠ ['0'] then
    if digits.all fun c => c.toNat < 56 then some (Nat.ofDigitChars 8 digits 0) else none
  else some (DecimalText.number digits)

/-- What the field holds after the assignment of a literal; none when that does not compile.  A
literal with a point is a `double`, and a `BigDecimal` field takes no literal. -/
def assigned (parent : DataItem) : JavaDefault → Option ItemValue
  | .number text =>
      match mapPicToJavaType parent with
      | .int | .long => do
          let digits := NumericValues.afterSign text
          let magnitude ← if '.' ∈ digits then none else readWholeLiteral digits
          let decimal := DecimalText.number digits
          let negative := text.head? = some '-'
          let suffix := javaIntegralSuffix negative decimal 0
          let n : ℤ := if negative then -(magnitude : ℤ) else magnitude
          if (suffix → parent.picLength > 9) ∧ inRange suffix n then some (.number n) else none
      | _ => none
  | .text value =>
      match mapPicToJavaType parent with
      | .string => some (.text value)
      | _ => none

/-- What the field holds after the Java of `SET name TO TRUE`, when there is one and it compiles. -/
def afterSet (parent : DataItem) (terms : List (Text × Option Text)) : Option ItemValue :=
  match setCondition parent terms with
  | .ok (some literal) => assigned parent literal
  | _ => none

/-! ### Written clauses -/

/-- A literal in quotes that does not hold its delimiter, or a word. -/
def IsToken (token : Text) : Prop :=
  (∃ quote value, isQuote quote = true ∧ quote ∉ value ∧ token = quote :: (value ++ [quote])) ∨
    token ≠ [] ∧ ∀ c ∈ token, isSeparator c = false ∧ isQuote c = false

/-- A text consists of some tokens, with separators between them. -/
inductive Joined : List Text → Text → Prop
  | nil {gap : Text} (hgap : ∀ c ∈ gap, isSeparator c = true) : Joined [] gap
  | cons {gap token raw : Text} {tokens : List Text} (hgap : ∀ c ∈ gap, isSeparator c = true)
      (hrest : Joined tokens raw) (hseparated : ∀ c ∈ raw.head?, isSeparator c = true) :
      Joined (token :: tokens) (gap ++ (token ++ raw))

attribute [grind =] conditionTokensFrom termsOfTokens compareStrings applyOperator evaluate

theorem not_isSeparator_of_isQuote {c : Char} (h : isQuote c = true) : isSeparator c = false := by
  simp only [isQuote, Bool.or_eq_true, decide_eq_true_eq] at h
  rcases h with rfl | rfl
  · decide
  · decide

theorem conditionTokensFrom_skip (skip : ℕ) (text : Text) :
    conditionTokensFrom skip text = conditionTokensFrom 0 (text.drop skip) := by
  induction text generalizing skip with
  | nil => rw [List.drop_nil, conditionTokensFrom, conditionTokensFrom]
  | cons c rest ih =>
      cases skip with
      | zero => rfl
      | succ skip => rw [conditionTokensFrom, ih, List.drop_succ_cons]

theorem conditionTokensFrom_gap {gap : Text} (h : ∀ c ∈ gap, isSeparator c = true) (text : Text) :
    conditionTokensFrom 0 (gap ++ text) = conditionTokensFrom 0 text := by
  induction gap with
  | nil => rfl
  | cons c gap ih =>
      rw [List.forall_mem_cons] at h
      rw [List.cons_append, conditionTokensFrom, if_pos h.1, ih h.2]

theorem takeWhile_append_of_head {p : Char → Bool} {s t : Text} (hs : ∀ c ∈ s, p c = true)
    (ht : ∀ c ∈ t.head?, p c = false) : (s ++ t).takeWhile p = s := by
  rw [List.takeWhile_append_of_pos hs]
  cases t with
  | nil => rw [List.takeWhile_nil, List.append_nil]
  | cons c t =>
      have hc := ht c rfl
      rw [List.takeWhile_cons_of_neg (by simp [hc]), List.append_nil]

/-- A token is matched as it is. -/
theorem matchedToken_of_isToken {token raw : Text} (h : IsToken token)
    (hraw : ∀ c ∈ raw.head?, isSeparator c = true) :
    ∃ c rest, token ++ raw = c :: rest ∧ isSeparator c = false ∧ matchedToken c rest = token ∧
      rest.drop (token.length - 1) = raw := by
  rcases h with ⟨quote, value, hquote, hvalue, rfl⟩ | ⟨hne, hword⟩
  · refine ⟨quote, value ++ quote :: raw, by simp, not_isSeparator_of_isQuote hquote, ?_, ?_⟩
    · have htake : (value ++ quote :: raw).takeWhile (· != quote) = value :=
        takeWhile_append_of_head
          (fun c hc => bne_iff_ne.2 fun heq => hvalue (heq ▸ hc)) (by simp)
      rw [matchedToken, htake, if_pos (by simp [hquote])]
    · have hlength : (quote :: (value ++ [quote])).length - 1 = (value ++ [quote]).length := by simp
      have hsplit : value ++ quote :: raw = (value ++ [quote]) ++ raw := by simp
      rw [hlength, hsplit, List.drop_left]
  · cases token with
    | nil => exact absurd rfl hne
    | cons c word =>
        rw [List.forall_mem_cons] at hword
        refine ⟨c, word ++ raw, rfl, hword.1.1, ?_, ?_⟩
        · have htake : ((word ++ raw).takeWhile fun d => !isSeparator d) = word :=
            takeWhile_append_of_head (fun d hd => by simp [(hword.2 d hd).1])
              (fun d hd => by simp [hraw d hd])
          rw [matchedToken, htake, if_neg (by simp [hword.1.2])]
        · rw [List.length_cons, Nat.add_sub_cancel, List.drop_left]

/-- **The tokens of a written clause.** -/
theorem conditionTokens_of_joined {tokens : List Text} {raw : Text}
    (htokens : ∀ token ∈ tokens, IsToken token) (h : Joined tokens raw) :
    conditionTokensFrom 0 raw = tokens := by
  induction h with
  | nil hgap =>
      have hskip := conditionTokensFrom_gap hgap []
      rwa [List.append_nil] at hskip
  | @cons gap token raw tokens hgap hrest hseparated ih =>
      rw [List.forall_mem_cons] at htokens
      obtain ⟨c, rest, hsplit, hc, hmatch, hdrop⟩ := matchedToken_of_isToken htokens.1 hseparated
      rw [conditionTokensFrom_gap hgap, hsplit, conditionTokensFrom, if_neg (by simp [hc]), hmatch,
        conditionTokensFrom_skip, hdrop, ih htokens.2]

/-! ### Conditions of several terms -/

section Truth

variable {parent : DataItem} {field : ItemValue}

theorem evaluate_binaryOp {left right : ConditionExpression} {operator : ConditionOperator}
    {v w : ConditionValue} (hleft : evaluate parent field left = some v)
    (hright : evaluate parent field right = some w) :
    evaluate parent field (.binaryOp left operator right) = applyOperator operator v w := by
  simp only [evaluate, hleft, hright]
  rfl

theorem truth_binaryOp_or (left right : ConditionExpression) :
    truth parent field (.binaryOp left .or right) =
      (truth parent field left).bind fun b => (truth parent field right).map (b || ·) := by
  simp only [truth, evaluate]
  cases evaluate parent field left with
  | none => rfl
  | some v =>
      cases evaluate parent field right with
      | none => cases v <;> rfl
      | some w => cases v <;> cases w <;> rfl

theorem truth_binaryOp_and (left right : ConditionExpression) :
    truth parent field (.binaryOp left .and right) =
      (truth parent field left).bind fun b => (truth parent field right).map (b && ·) := by
  simp only [truth, evaluate]
  cases evaluate parent field left with
  | none => rfl
  | some v =>
      cases evaluate parent field right with
      | none => cases v <;> rfl
      | some w => cases v <;> cases w <;> rfl

/-- **A condition of several terms** compiles when all of them do, and is true when one of them
is. -/
theorem truth_or_iff {expression : ConditionExpression} {terms : List (Text × Option Text)}
    {b : Bool} :
    truth parent field
        (terms.foldl
          (fun expression term => .binaryOp expression .or (conditionTermExpression parent term))
          expression) = some b ↔
      ∃ first rest, truth parent field expression = some first ∧
        terms.mapM (fun term => truth parent field (conditionTermExpression parent term)) =
          some rest ∧ b = (first || rest.any id) := by
  induction terms generalizing expression with
  | nil => simp [eq_comm]
  | cons term terms ih =>
      rw [List.foldl_cons, ih]
      simp only [truth_binaryOp_or, Option.bind_eq_some_iff, Option.map_eq_some_iff,
        List.mapM_cons, Option.bind_eq_bind]
      constructor
      · rintro ⟨-, rest, ⟨first, hfirst, second, hsecond, rfl⟩, hrest, rfl⟩
        exact ⟨first, second :: rest, hfirst, ⟨second, hsecond, rest, hrest, rfl⟩, by
          simp [Bool.or_assoc]⟩
      · rintro ⟨first, truths, hfirst, ⟨second, hsecond, rest, hrest, hpure⟩, rfl⟩
        obtain rfl := Option.some.inj hpure
        exact ⟨first || second, rest, ⟨first, hfirst, second, hsecond, rfl⟩, hrest, by
          simp [Bool.or_assoc]⟩

theorem truth_conditionNameExpression {terms : List (Text × Option Text)} {b : Bool}
    (hne : terms ≠ []) :
    truth parent field (conditionNameExpression parent terms) = some b ↔
      ∃ bs, terms.mapM (fun term => truth parent field (conditionTermExpression parent term)) =
        some bs ∧ b = bs.any id := by
  cases terms with
  | nil => exact absurd rfl hne
  | cons term terms =>
      rw [conditionNameExpression, truth_or_iff]
      simp only [List.mapM_cons, Option.bind_eq_bind, Option.bind_eq_some_iff]
      constructor
      · rintro ⟨first, rest, hfirst, hrest, rfl⟩
        exact ⟨first :: rest, ⟨first, hfirst, rest, hrest, rfl⟩, rfl⟩
      · rintro ⟨truths, ⟨first, hfirst, rest, hrest, hpure⟩, rfl⟩
        obtain rfl := Option.some.inj hpure
        exact ⟨first, rest, hfirst, hrest, rfl⟩

end Truth

end CobolJava.ConditionName
