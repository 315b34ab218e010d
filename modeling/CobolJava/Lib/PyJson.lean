/-
**JSON documents as Python holds them.**

The values of `json.loads(text, parse_float=Decimal)`: numbers with a fraction or an exponent are
decimals, `NaN` and the infinities are accepted, strings are sequences of code points that need not
be Unicode text, and a document nested deeper than the interpreter allows is not read.  The entries
of a dict stand in the order of their keys.

Main definitions:

* `PyJson` — the values;
* `PyJson.Failure` — why a text is not read;
* `PyJson.readText`, `PyJson.readBare` — strings, words and numbers;
* `PyJson.readValue`, `PyJson.loads` — values, and whole texts.

Main results:

* `PyJson.dictOf_of_sorted` — entries in the order of their keys are the dict they make.
-/

import Mathlib.Data.List.Lex
import CobolJava.Lib.JsonReader
import CobolJava.Lib.PyBytes
import CobolJava.Lib.PyDecimal
import CobolJava.Lib.SortedMap

set_option autoImplicit false

/-- A Python string, as its code points. -/
abbrev PyStr := List ℕ

def PyStr.of (text : String) : PyStr := text.toList.map Char.toNat

/-- A parsed JSON value. -/
inductive PyJson where
  | null
  | bool (b : Bool)
  | int (z : ℤ)
  | decimal (d : Py.Decimal)
  /-- One of the floats `NaN`, `Infinity` and `-Infinity`. -/
  | constant (name : String)
  | str (s : PyStr)
  | arr (items : List PyJson)
  | obj (fields : List (PyStr × PyJson))

namespace PyJson

/-! ### Strings -/

/-- The code point of an escape `\u`: the second half of a surrogate pair is taken in as well. -/
def readEscape (u : ℕ) (r : List Char) : ℕ × List Char :=
  match r with
  | '\\' :: 'u' :: s =>
      match Json.readUnit s with
      | some (v, s) =>
          if (55296 ≤ u ∧ u < 56320) ∧ (56320 ≤ v ∧ v < 57344) then
            (65536 + (u - 55296) * 1024 + (v - 56320), s)
          else (u, r)
      | none => (u, r)
  | _ => (u, r)

/-- One code point of a string literal, with the rest of the text. -/
def readPoint : List Char → Option (ℕ × List Char)
  | '\\' :: 'u' :: r => (Json.readUnit r).map fun p => readEscape p.1 p.2
  | '\\' :: e :: r => (Json.simpleEscape e).map fun c => (c.toNat, r)
  | '\\' :: [] => none
  | c :: r => if c.toNat < 32 then none else some (c.toNat, r)
  | [] => none

/-- The rest of a string literal, up to the closing quotation mark. -/
def readText : ℕ → List Char → Option (PyStr × List Char)
  | 0, _ => none
  | _ + 1, '"' :: r => some ([], r)
  | n + 1, cs => do
      let (c, r) ← readPoint cs
      let (s, r) ← readText n r
      return (c :: s, r)

/-! ### Words and numbers -/

/-- Why a text is not read. -/
inductive Failure where
  /-- The text is no JSON document: a `JSONDecodeError`. -/
  | malformed
  /-- An integer has too many digits: a `ValueError`. -/
  | digits
  /-- A number is out of the range of decimals: an `InvalidOperation`. -/
  | exponent
  /-- The document is nested too deep: a `RecursionError`. -/
  | depth
deriving DecidableEq

def words : List (List Char × PyJson) :=
  [(['n', 'u', 'l', 'l'], null), (['t', 'r', 'u', 'e'], bool true),
    (['f', 'a', 'l', 's', 'e'], bool false), (['N', 'a', 'N'], constant "NaN"),
    (['I', 'n', 'f', 'i', 'n', 'i', 't', 'y'], constant "Infinity"),
    (['-', 'I', 'n', 'f', 'i', 'n', 'i', 't', 'y'], constant "-Infinity")]

/-- The digits of a whole number at the head of a text; a leading zero stands alone. -/
def wholeDigits (s : List Char) : List Char :=
  if s.head? = some '0' then ['0'] else s.takeWhile Char.isDigit

/-- The digits behind a point at the head of a text. -/
def fractionDigits : List Char → List Char
  | '.' :: s => s.takeWhile Char.isDigit
  | _ => []

/-- The exponent at the head of a text, if it is complete. -/
def exponentText : List Char → List Char
  | e :: s =>
      let sign := if s.head? = some '+' ∨ s.head? = some '-' then s.take 1 else []
      let digits := (s.drop sign.length).takeWhile Char.isDigit
      if (e = 'e' ∨ e = 'E') ∧ digits ≠ [] then e :: (sign ++ digits) else []
  | [] => []

/-- The most digits a text may have that is converted to an integer. -/
def maxDigits : ℕ := 4300

/-- The number with the given digits: an integer unless there is a fraction or an exponent. -/
def numberOf (negative : Bool) (whole fraction exponent : List Char) : Except Failure PyJson :=
  if whole = [] then .error .malformed
  else if fraction = [] ∧ exponent = [] then
    if maxDigits < whole.length then .error .digits
    else
      let n := Nat.ofDigitChars 10 whole 0
      .ok (int (if negative then -n else n))
  else
    match (Py.Decimal.exponentValue exponent).bind fun e =>
        Py.Decimal.held ⟨negative, Nat.ofDigitChars 10 (whole ++ fraction) 0,
          e - fraction.length⟩ with
    | some d => .ok (decimal d)
    | none => .error .exponent

/-- A number at the head of a text, with the rest of the text. -/
def readNumber (cs : List Char) : Except Failure (PyJson × List Char) :=
  let negative := cs.head? = some '-'
  let s := if negative then cs.drop 1 else cs
  let whole := wholeDigits s
  let rest := s.drop whole.length
  let fraction := fractionDigits rest
  let rest := if fraction = [] then rest else rest.drop (fraction.length + 1)
  let exponent := exponentText rest
  (numberOf negative whole fraction exponent).map fun j => (j, rest.drop exponent.length)

/-- A word or a number at the head of a text, with the rest of the text. -/
def readBare (cs : List Char) : Except Failure (PyJson × List Char) :=
  match words.find? fun w => w.1.isPrefixOf cs with
  | some w => .ok (w.2, cs.drop w.1.length)
  | none => readNumber cs

/-! ### Values -/

/-- The dict of some entries; a later entry of a key replaces an earlier one. -/
def dictOf (entries : List (PyStr × PyJson)) : List (PyStr × PyJson) :=
  entries.foldl (fun fs e => SortedMap.putSorted e.1 e.2 fs) []

/-- Entries in the order of their keys. -/
def KeyOrder (fs : List (PyStr × PyJson)) : Prop := fs.Pairwise fun a b => a.1 < b.1

instance (fs : List (PyStr × PyJson)) : Decidable (KeyOrder fs) :=
  inferInstanceAs (Decidable (fs.Pairwise fun a b => a.1 < b.1))

theorem keyOrder_dictOf (entries : List (PyStr × PyJson)) : KeyOrder (dictOf entries) := by
  have h : ∀ (es acc : List (PyStr × PyJson)), KeyOrder acc →
      KeyOrder (es.foldl (fun fs e => SortedMap.putSorted e.1 e.2 fs) acc) := by
    intro es
    induction es with
    | nil => exact fun _ hacc => hacc
    | cons e es ih => exact fun acc hacc => ih _ (SortedMap.sorted_putSorted e.1 e.2 hacc)
  exact h entries [] List.Pairwise.nil

theorem mem_dictOf {es : List (PyStr × PyJson)} {f : PyStr × PyJson} (h : f ∈ dictOf es) :
    f ∈ es := by
  have hfold : ∀ (es acc : List (PyStr × PyJson)),
      f ∈ es.foldl (fun fs e => SortedMap.putSorted e.1 e.2 fs) acc → f ∈ es ∨ f ∈ acc := by
    intro es
    induction es with
    | nil => exact fun _ hf => .inr hf
    | cons e es ih =>
        intro acc hf
        rcases ih _ hf with hf | hf
        · exact .inl (List.mem_cons_of_mem _ hf)
        · rcases SortedMap.mem_putSorted hf with rfl | hf
          · exact .inl (List.mem_cons_self ..)
          · exact .inr hf
  simpa using hfold es [] h

def literal (r : List Char) : Except Failure (PyStr × List Char) :=
  match readText (r.length + 1) r with
  | some p => .ok p
  | none => .error .malformed

mutual

/-- A value at the head of a text, with the rest of the text: at most `n` parts, nested at most
`depth` deep. -/
def readValue : ℕ → ℕ → List Char → Except Failure (PyJson × List Char)
  | 0, _, _ => .error .malformed
  | _ + 1, _, '"' :: r => do
      let (s, r) ← literal r
      return (str s, r)
  | _ + 1, 0, '[' :: _ => .error .depth
  | n + 1, depth + 1, '[' :: r =>
      match Json.skipSpace r with
      | ']' :: r => .ok (arr [], r)
      | r => do
          let (x, r) ← readValue n depth r
          let (xs, r) ← readItems n depth (Json.skipSpace r)
          return (arr (x :: xs), r)
  | _ + 1, 0, '{' :: _ => .error .depth
  | n + 1, depth + 1, '{' :: r =>
      match Json.skipSpace r with
      | '}' :: r => .ok (obj [], r)
      | r => do
          let (e, r) ← readEntry n depth r
          let (es, r) ← readFields n depth (Json.skipSpace r)
          return (obj (dictOf (e :: es)), r)
  | _ + 1, _, cs => readBare cs

/-- The items of a list after the first, up to the closing bracket. -/
def readItems : ℕ → ℕ → List Char → Except Failure (List PyJson × List Char)
  | 0, _, _ => .error .malformed
  | _ + 1, _, ']' :: r => .ok ([], r)
  | n + 1, depth, ',' :: r => do
      let (x, r) ← readValue n depth (Json.skipSpace r)
      let (xs, r) ← readItems n depth (Json.skipSpace r)
      return (x :: xs, r)
  | _ + 1, _, _ => .error .malformed

def readEntry : ℕ → ℕ → List Char → Except Failure ((PyStr × PyJson) × List Char)
  | 0, _, _ => .error .malformed
  | n + 1, depth, '"' :: r => do
      let (k, r) ← literal r
      match Json.skipSpace r with
      | ':' :: r => do
          let (v, r) ← readValue n depth (Json.skipSpace r)
          return ((k, v), r)
      | _ => .error .malformed
  | _ + 1, _, _ => .error .malformed

/-- The entries of a dict after the first, up to the closing brace. -/
def readFields : ℕ → ℕ → List Char → Except Failure (List (PyStr × PyJson) × List Char)
  | 0, _, _ => .error .malformed
  | _ + 1, _, '}' :: r => .ok ([], r)
  | n + 1, depth, ',' :: r => do
      let (e, r) ← readEntry n depth (Json.skipSpace r)
      let (es, r) ← readFields n depth (Json.skipSpace r)
      return (e :: es, r)
  | _ + 1, _, _ => .error .malformed

end

/-- The call `json.loads(text, parse_float=Decimal)` under a limit of the nesting. -/
def loads (limit : ℕ) (text : String) : Except Failure PyJson :=
  match readValue (text.toList.length + 1) limit (Json.skipSpace text.toList) with
  | .ok (j, r) => if Json.skipSpace r = [] then .ok j else .error .malformed
  | .error e => .error e

/-- The lookup `value.get(key)` in the entries of a dict. -/
def field (fs : List (PyStr × PyJson)) (key : String) : Option PyJson :=
  (fs.find? fun f => decide (f.1 = PyStr.of key)).map Prod.snd

/-! ### Lookups -/

theorem PyStr_of_injective : Function.Injective PyStr.of := by
  intro s t h
  have hinj : Function.Injective Char.toNat := fun c d h => Char.ext (UInt32.toNat_inj.1 h)
  exact String.ext (hinj.list_map h)

/-- The entry of a key in the dict of some entries, each key standing once. -/
theorem find?_dictOf {es : List (PyStr × PyJson)} (h : (es.map Prod.fst).Nodup) (key : PyStr) :
    (dictOf es).find? (fun e => decide (e.1 = key)) = es.find? fun e => decide (e.1 = key) := by
  have hfold : ∀ (es acc : List (PyStr × PyJson)), (es.map Prod.fst).Nodup →
      (es.foldl (fun fs e => SortedMap.putSorted e.1 e.2 fs) acc).find?
          (fun e => decide (e.1 = key)) =
        (es.find? fun e => decide (e.1 = key)).or (acc.find? fun e => decide (e.1 = key)) := by
    intro es
    induction es with
    | nil => exact fun _ _ => rfl
    | cons e es ih =>
        intro acc hnodup
        rw [List.map_cons, List.nodup_cons] at hnodup
        rw [List.foldl_cons, ih _ hnodup.2, SortedMap.find?_putSorted]
        split_ifs with hkey
        · have hnone : es.find? (fun e => decide (e.1 = key)) = none := by
            rw [List.find?_eq_none]
            intro f hf hfkey
            refine hnodup.1 ?_
            rw [hkey, ← of_decide_eq_true hfkey]
            exact List.mem_map_of_mem hf
          rw [hnone, List.find?_cons_of_pos (by simpa using hkey)]
          rfl
        · rw [List.find?_cons_of_neg (by simpa using hkey)]
  simpa [dictOf] using hfold es [] h

theorem mem_keys_dictOf {es : List (PyStr × PyJson)} (h : (es.map Prod.fst).Nodup) (key : PyStr) :
    key ∈ (dictOf es).map Prod.fst ↔ key ∈ es.map Prod.fst := by
  have hiff : ∀ fs : List (PyStr × PyJson), key ∈ fs.map Prod.fst ↔
      (fs.find? fun e => decide (e.1 = key)).isSome = true := by
    intro fs
    simp [List.find?_isSome]
  rw [hiff, hiff, find?_dictOf h]

theorem mem_dictOf_iff {es : List (PyStr × PyJson)} (h : (es.map Prod.fst).Nodup)
    {f : PyStr × PyJson} : f ∈ dictOf es ↔ f ∈ es := by
  refine ⟨mem_dictOf, fun hf => ?_⟩
  have hfind : es.find? (fun e => decide (e.1 = f.1)) = some f := by
    have hsome : (es.find? fun e => decide (e.1 = f.1)).isSome = true :=
      List.find?_isSome.2 ⟨f, hf, by simp⟩
    obtain ⟨g, hg⟩ := Option.isSome_iff_exists.1 hsome
    have hkey : g.1 = f.1 := by simpa using List.find?_some hg
    rw [hg, List.inj_on_of_nodup_map h (List.mem_of_find?_eq_some hg) hf hkey]
  rw [← find?_dictOf h] at hfind
  exact List.mem_of_find?_eq_some hfind

theorem field_dictOf {es : List (String × PyJson)} (h : (es.map Prod.fst).Nodup) (key : String) :
    field (dictOf (es.map fun e => (PyStr.of e.1, e.2))) key = es.lookup key := by
  have hkeys : ((es.map fun e => (PyStr.of e.1, e.2)).map Prod.fst).Nodup := by
    rw [List.map_map, show Prod.fst ∘ (fun e : String × PyJson => (PyStr.of e.1, e.2)) =
      PyStr.of ∘ Prod.fst from rfl, ← List.map_map]
    exact h.map PyStr_of_injective
  rw [field, find?_dictOf hkeys]
  clear h hkeys
  induction es with
  | nil => rfl
  | cons e es ih =>
      rw [List.map_cons, List.find?_cons, List.lookup_cons]
      by_cases hkey : e.1 = key
      · simp [hkey]
      · have hne : ¬PyStr.of e.1 = PyStr.of key := fun heq => hkey (PyStr_of_injective heq)
        rw [decide_eq_false hne, beq_false_of_ne (Ne.symm hkey)]
        exact ih

end PyJson
