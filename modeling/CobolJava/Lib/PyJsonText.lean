/-
**Compact JSON text.**

The text of `json.dumps(value, sort_keys=True, separators=(",", ":"), ensure_ascii=False)`: no blanks
behind the separators, and only quotes, backslashes and control characters are escaped.  A decimal
is refused with a `TypeError`, an integer with too many digits, a string that is no Unicode text and
a value nested too deep with another exception.

Main definitions:

* `PyJson.compact` — the text of a value;
* `PyJson.writable`, `PyJson.hasDecimal`, `PyJson.fits` — the values that are written, those that
  hold a decimal, and those that are not nested too deep;
* `PyJson.Ordered` — every dict holds its entries in the order of their keys;
* `PyJson.dumps` — the bytes of the text.

Main results:

* `PyJson.Grows.of_loads` — what is loaded has every property that parts hand on;
* `PyJson.readValue_compact` — a value is read back from the start of a text;
* `PyJson.loads_compact` — **what is written is loaded**.
-/

import CobolJava.Lib.PyExc
import CobolJava.Lib.PyJson

set_option autoImplicit false

namespace PyJson

open Json (skipSpace TokenStops escapeChar)

/-! ### Strings -/

/-- A code point that is no surrogate. -/
def isScalar (n : ℕ) : Bool := decide n.isValidChar

/-- The escape of one character without `ensure_ascii`. -/
def escapePlain (c : Char) : List Char :=
  if c.toNat < 32 ∨ c = '"' ∨ c = '\\' then escapeChar c else [c]

/-- The characters of a string literal behind its opening quotation mark. -/
def plainTail (s : PyStr) : List Char :=
  (s.map Char.ofNat).flatMap escapePlain ++ ['"']

/-! ### Values -/

mutual

/-- The text of a value; there is none of a decimal. -/
def compact : PyJson → List Char
  | null => ['n', 'u', 'l', 'l']
  | bool true => ['t', 'r', 'u', 'e']
  | bool false => ['f', 'a', 'l', 's', 'e']
  | int z => Json.renderInt z
  | decimal _ => []
  | constant name => name.toList
  | str s => '"' :: plainTail s
  | arr [] => ['[', ']']
  | arr (x :: xs) => '[' :: (compact x ++ compactItems xs)
  | obj [] => ['{', '}']
  | obj ((k, v) :: fs) => '{' :: '"' :: (plainTail k ++ ':' :: (compact v ++ compactFields fs))

/-- The items of a list after the first, with the closing bracket. -/
def compactItems : List PyJson → List Char
  | [] => [']']
  | x :: xs => ',' :: (compact x ++ compactItems xs)

/-- The entries of a dict after the first, with the closing brace. -/
def compactFields : List (PyStr × PyJson) → List Char
  | [] => ['}']
  | (k, v) :: fs => ',' :: '"' :: (plainTail k ++ ':' :: (compact v ++ compactFields fs))

end

mutual

/-- Whether a value holds a decimal. -/
def hasDecimal : PyJson → Bool
  | decimal _ => true
  | arr xs => hasDecimalItems xs
  | obj fs => hasDecimalFields fs
  | _ => false

def hasDecimalItems : List PyJson → Bool
  | [] => false
  | x :: xs => hasDecimal x || hasDecimalItems xs

def hasDecimalFields : List (PyStr × PyJson) → Bool
  | [] => false
  | (_, v) :: fs => hasDecimal v || hasDecimalFields fs

end

mutual

/-- Whether a value is nested no deeper than a limit. -/
def fits : ℕ → PyJson → Bool
  | _, null => true
  | _, bool _ => true
  | _, int _ => true
  | _, decimal _ => true
  | _, constant _ => true
  | _, str _ => true
  | 0, arr _ => false
  | depth + 1, arr xs => fitsItems depth xs
  | 0, obj _ => false
  | depth + 1, obj fs => fitsFields depth fs

def fitsItems : ℕ → List PyJson → Bool
  | _, [] => true
  | depth, x :: xs => fits depth x && fitsItems depth xs

def fitsFields : ℕ → List (PyStr × PyJson) → Bool
  | _, [] => true
  | depth, (_, v) :: fs => fits depth v && fitsFields depth fs

end

/-- The names of the floats that are read. -/
def constantNames : List String := ["NaN", "Infinity", "-Infinity"]

mutual

/-- Whether a value is written under a limit of the nesting. -/
def writable : ℕ → PyJson → Bool
  | _, null => true
  | _, bool _ => true
  | _, int z => (Nat.toDigits 10 z.natAbs).length ≤ maxDigits
  | _, decimal _ => false
  | _, constant name => constantNames.contains name
  | _, str s => s.all isScalar
  | 0, arr _ => false
  | depth + 1, arr xs => writableItems depth xs
  | 0, obj _ => false
  | depth + 1, obj fs => writableFields depth fs

def writableItems : ℕ → List PyJson → Bool
  | _, [] => true
  | depth, x :: xs => writable depth x && writableItems depth xs

def writableFields : ℕ → List (PyStr × PyJson) → Bool
  | _, [] => true
  | depth, (k, v) :: fs => k.all isScalar && writable depth v && writableFields depth fs

end

mutual

/-- Every dict in the value holds its entries in the order of their keys. -/
def Ordered : PyJson → Prop
  | arr xs => OrderedItems xs
  | obj fs => KeyOrder fs ∧ OrderedFields fs
  | _ => True

def OrderedItems : List PyJson → Prop
  | [] => True
  | x :: xs => x.Ordered ∧ OrderedItems xs

def OrderedFields : List (PyStr × PyJson) → Prop
  | [] => True
  | (_, v) :: fs => v.Ordered ∧ OrderedFields fs

end

theorem orderedItems_iff {xs : List PyJson} : OrderedItems xs ↔ ∀ x ∈ xs, x.Ordered := by
  induction xs with
  | nil => simp [OrderedItems]
  | cons x xs ih => simp [OrderedItems, ih]

theorem orderedFields_iff {fs : List (PyStr × PyJson)} :
    OrderedFields fs ↔ ∀ f ∈ fs, f.2.Ordered := by
  induction fs with
  | nil => simp [OrderedFields]
  | cons f fs ih => simp [OrderedFields, ih]

theorem writableItems_iff {depth : ℕ} {xs : List PyJson} :
    writableItems depth xs = true ↔ ∀ x ∈ xs, writable depth x = true := by
  induction xs with
  | nil => simp [writableItems]
  | cons x xs ih => simp [writableItems, ih]

theorem writableFields_iff {depth : ℕ} {fs : List (PyStr × PyJson)} :
    writableFields depth fs = true ↔
      ∀ f ∈ fs, f.1.all isScalar = true ∧ writable depth f.2 = true := by
  induction fs with
  | nil => simp [writableFields]
  | cons f fs ih =>
      obtain ⟨k, v⟩ := f
      simp only [writableFields, Bool.and_eq_true, ih, List.forall_mem_cons]

theorem fitsItems_iff {depth : ℕ} {xs : List PyJson} :
    fitsItems depth xs = true ↔ ∀ x ∈ xs, fits depth x = true := by
  induction xs with
  | nil => simp [fitsItems]
  | cons x xs ih => simp [fitsItems, ih]

theorem fitsFields_iff {depth : ℕ} {fs : List (PyStr × PyJson)} :
    fitsFields depth fs = true ↔ ∀ f ∈ fs, fits depth f.2 = true := by
  induction fs with
  | nil => simp [fitsFields]
  | cons f fs ih => simp [fitsFields, ih]

mutual

theorem fits_succ : ∀ (depth : ℕ) (j : PyJson), fits depth j = true → fits (depth + 1) j = true
  | _, null, _ => rfl
  | _, bool _, _ => rfl
  | _, int _, _ => rfl
  | _, decimal _, _ => rfl
  | _, constant _, _ => rfl
  | _, str _, _ => rfl
  | 0, arr _, h => by cases h
  | depth + 1, arr xs, h => fitsItems_succ depth xs h
  | 0, obj _, h => by cases h
  | depth + 1, obj fs, h => fitsFields_succ depth fs h

theorem fitsItems_succ : ∀ (depth : ℕ) (xs : List PyJson), fitsItems depth xs = true →
    fitsItems (depth + 1) xs = true
  | _, [], _ => rfl
  | depth, x :: xs, h => by
      rw [fitsItems, Bool.and_eq_true] at h ⊢
      exact ⟨fits_succ depth x h.1, fitsItems_succ depth xs h.2⟩

theorem fitsFields_succ : ∀ (depth : ℕ) (fs : List (PyStr × PyJson)),
    fitsFields depth fs = true → fitsFields (depth + 1) fs = true
  | _, [], _ => rfl
  | depth, (_, v) :: fs, h => by
      rw [fitsFields, Bool.and_eq_true] at h ⊢
      exact ⟨fits_succ depth v h.1, fitsFields_succ depth fs h.2⟩

end

mutual

theorem writable_succ : ∀ (depth : ℕ) (j : PyJson), writable depth j = true →
    writable (depth + 1) j = true
  | _, null, _ => by simp [writable]
  | _, bool _, _ => by simp [writable]
  | _, int z, h => by rw [writable] at h ⊢; exact h
  | _, decimal _, h => by simp [writable] at h
  | _, constant _, h => by rw [writable] at h ⊢; exact h
  | _, str _, h => by rw [writable] at h ⊢; exact h
  | 0, arr _, h => by cases h
  | depth + 1, arr xs, h => writableItems_succ depth xs h
  | 0, obj _, h => by cases h
  | depth + 1, obj fs, h => writableFields_succ depth fs h

theorem writableItems_succ : ∀ (depth : ℕ) (xs : List PyJson), writableItems depth xs = true →
    writableItems (depth + 1) xs = true
  | _, [], _ => rfl
  | depth, x :: xs, h => by
      rw [writableItems, Bool.and_eq_true] at h ⊢
      exact ⟨writable_succ depth x h.1, writableItems_succ depth xs h.2⟩

theorem writableFields_succ : ∀ (depth : ℕ) (fs : List (PyStr × PyJson)),
    writableFields depth fs = true → writableFields (depth + 1) fs = true
  | _, [], _ => rfl
  | depth, (_, v) :: fs, h => by
      rw [writableFields, Bool.and_eq_true, Bool.and_eq_true] at h ⊢
      exact ⟨⟨h.1.1, writable_succ depth v h.1.2⟩, writableFields_succ depth fs h.2⟩

end

mutual

theorem writable_of_hasDecimal : ∀ (depth : ℕ) (j : PyJson), hasDecimal j = true →
    writable depth j = false
  | _, null, h => by cases h
  | _, bool _, h => by cases h
  | _, int _, h => by cases h
  | _, decimal _, _ => by simp [writable]
  | _, constant _, h => by cases h
  | _, str _, h => by cases h
  | 0, arr _, _ => rfl
  | depth + 1, arr xs, h => writableItems_of_hasDecimal depth xs h
  | 0, obj _, _ => rfl
  | depth + 1, obj fs, h => writableFields_of_hasDecimal depth fs h

theorem writableItems_of_hasDecimal : ∀ (depth : ℕ) (xs : List PyJson),
    hasDecimalItems xs = true → writableItems depth xs = false
  | _, [], h => by cases h
  | depth, x :: xs, h => by
      rw [hasDecimalItems, Bool.or_eq_true] at h
      rw [writableItems, Bool.and_eq_false_iff]
      exact h.imp (writable_of_hasDecimal depth x) (writableItems_of_hasDecimal depth xs)

theorem writableFields_of_hasDecimal : ∀ (depth : ℕ) (fs : List (PyStr × PyJson)),
    hasDecimalFields fs = true → writableFields depth fs = false
  | _, [], h => by cases h
  | depth, (_, v) :: fs, h => by
      rw [hasDecimalFields, Bool.or_eq_true] at h
      rw [writableFields, Bool.and_eq_false_iff, Bool.and_eq_false_iff]
      exact h.imp (fun hv => .inr (writable_of_hasDecimal depth v hv))
        (writableFields_of_hasDecimal depth fs)

end

theorem isScalar_of (s : String) : (PyStr.of s).all isScalar = true := by
  rw [List.all_eq_true]
  intro n hn
  obtain ⟨c, -, rfl⟩ := List.mem_map.1 hn
  exact decide_eq_true c.valid

/-! ### What is read is in order -/

theorem ordered_dictOf {es : List (PyStr × PyJson)} (h : OrderedFields es) :
    (obj (dictOf es)).Ordered :=
  ⟨keyOrder_dictOf es, orderedFields_iff.2 fun f hf => orderedFields_iff.1 h f (mem_dictOf hf)⟩

/-- A value that is no string, list or dict. -/
def isScalarValue : PyJson → Bool
  | str _ => false
  | arr _ => false
  | obj _ => false
  | _ => true

theorem isScalarValue_numberOf {negative : Bool} {whole fraction exponent : List Char} {j : PyJson}
    (h : numberOf negative whole fraction exponent = .ok j) : j.isScalarValue = true := by
  unfold numberOf at h
  dsimp only at h
  split_ifs at h
  · cases h
    rfl
  · cases h
    rfl
  · split at h
    · cases h
      rfl
    · cases h

theorem isScalarValue_readNumber {cs r : List Char} {j : PyJson}
    (h : readNumber cs = .ok (j, r)) : j.isScalarValue = true := by
  obtain ⟨j', hj', h⟩ := Py.map_ok h
  cases h
  exact isScalarValue_numberOf hj'

theorem isScalarValue_readBare {cs r : List Char} {j : PyJson} (h : readBare cs = .ok (j, r)) :
    j.isScalarValue = true := by
  unfold readBare at h
  split at h
  · next w hw =>
      have hmem := List.mem_of_find?_eq_some hw
      simp only [words, List.mem_cons, List.not_mem_nil, or_false] at hmem
      cases h
      rcases hmem with rfl | rfl | rfl | rfl | rfl | rfl <;> rfl
  · exact isScalarValue_readNumber h

/-- A property of values at a depth that their parts hand on. -/
structure Grows (P : ℕ → PyJson → Prop) : Prop where
  str : ∀ depth s, P depth (str s)
  bare : ∀ depth j, j.isScalarValue = true → P depth j
  arr : ∀ depth xs, (∀ x ∈ xs, P depth x) → P (depth + 1) (arr xs)
  obj : ∀ depth es, (∀ e ∈ es, P depth e.2) → P (depth + 1) (obj (dictOf es))

/-- What is read with `n` parts has a property, in each of the four places. -/
structure Reached (P : ℕ → PyJson → Prop) (n : ℕ) : Prop where
  value : ∀ {depth cs j r}, readValue n depth cs = .ok (j, r) → P depth j
  items : ∀ {depth cs xs r}, readItems n depth cs = .ok (xs, r) → ∀ x ∈ xs, P depth x
  entry : ∀ {depth cs e r}, readEntry n depth cs = .ok (e, r) → P depth e.2
  fields : ∀ {depth cs es r}, readFields n depth cs = .ok (es, r) → ∀ e ∈ es, P depth e.2

theorem Reached.succ {P : ℕ → PyJson → Prop} (hP : Grows P) {n : ℕ} (ih : Reached P n) :
    Reached P (n + 1) where
  value := by
    intro depth cs j r h
    unfold readValue at h
    split at h
    · cases h
    · obtain ⟨p, -, h⟩ := Py.bind_ok h
      cases h
      exact hP.str _ _
    · cases h
    · split at h
      · cases h
        exact hP.arr _ _ (by simp)
      · obtain ⟨x, hx, h1⟩ := Py.bind_ok h
        obtain ⟨xs, hxs, h2⟩ := Py.bind_ok h1
        obtain rfl : n = _ := Nat.succ.inj ‹n + 1 = _›
        obtain ⟨rfl, -⟩ := Prod.mk.inj (Except.ok.inj h2)
        exact hP.arr _ _ (List.forall_mem_cons.2 ⟨ih.value hx, ih.items hxs⟩)
    · cases h
    · split at h
      · cases h
        exact hP.obj _ [] (by simp)
      · obtain ⟨e, he, h1⟩ := Py.bind_ok h
        obtain ⟨es, hes, h2⟩ := Py.bind_ok h1
        obtain rfl : n = _ := Nat.succ.inj ‹n + 1 = _›
        obtain ⟨rfl, -⟩ := Prod.mk.inj (Except.ok.inj h2)
        exact hP.obj _ _ (List.forall_mem_cons.2 ⟨ih.entry he, ih.fields hes⟩)
    · exact hP.bare _ _ (isScalarValue_readBare h)
  items := by
    intro depth cs xs r h
    unfold readItems at h
    split at h
    · cases h
    · cases h
      simp
    · obtain ⟨x, hx, h1⟩ := Py.bind_ok h
      obtain ⟨xs, hxs, h2⟩ := Py.bind_ok h1
      obtain rfl : n = _ := Nat.succ.inj ‹n + 1 = _›
      obtain ⟨rfl, -⟩ := Prod.mk.inj (Except.ok.inj h2)
      exact List.forall_mem_cons.2 ⟨ih.value hx, ih.items hxs⟩
    · cases h
  entry := by
    intro depth cs e r h
    unfold readEntry at h
    split at h
    · cases h
    · obtain ⟨k, -, h1⟩ := Py.bind_ok h
      dsimp only at h1
      split at h1
      · obtain ⟨v, hv, h2⟩ := Py.bind_ok h1
        obtain rfl : n = _ := Nat.succ.inj ‹n + 1 = _›
        obtain ⟨rfl, -⟩ := Prod.mk.inj (Except.ok.inj h2)
        exact ih.value hv
      · cases h1
    · cases h
  fields := by
    intro depth cs es r h
    unfold readFields at h
    split at h
    · cases h
    · cases h
      simp
    · obtain ⟨e, he, h1⟩ := Py.bind_ok h
      obtain ⟨es, hes, h2⟩ := Py.bind_ok h1
      obtain rfl : n = _ := Nat.succ.inj ‹n + 1 = _›
      obtain ⟨rfl, -⟩ := Prod.mk.inj (Except.ok.inj h2)
      exact List.forall_mem_cons.2 ⟨ih.entry he, ih.fields hes⟩
    · cases h

theorem reached {P : ℕ → PyJson → Prop} (hP : Grows P) (n : ℕ) : Reached P n := by
  induction n with
  | zero =>
      constructor <;> intro _ _ _ _ h
      · simp [readValue] at h
      · simp [readItems] at h
      · simp [readEntry] at h
      · simp [readFields] at h
  | succ n ih => exact ih.succ hP

/-- **What is loaded has every property that parts hand on.** -/
theorem Grows.of_loads {P : ℕ → PyJson → Prop} (hP : Grows P) {limit : ℕ} {text : String}
    {j : PyJson} (h : loads limit text = .ok j) : P limit j := by
  unfold loads at h
  split at h
  · next j' r hread =>
      split_ifs at h
      cases h
      exact (reached hP _).value hread
  · cases h

theorem ordered_loads {limit : ℕ} {text : String} {j : PyJson} (h : loads limit text = .ok j) :
    j.Ordered := by
  have hP : Grows fun _ j => j.Ordered := by
    refine ⟨fun _ _ => trivial, fun _ j hj => ?_, fun _ _ => orderedItems_iff.2,
      fun _ es hes => ordered_dictOf (orderedFields_iff.2 hes)⟩
    cases j with
    | arr xs => cases hj
    | obj fs => cases hj
    | _ => trivial
  exact hP.of_loads h

theorem fits_loads {limit : ℕ} {text : String} {j : PyJson} (h : loads limit text = .ok j) :
    fits limit j = true := by
  have hP : Grows fun depth j => fits depth j = true := by
    refine ⟨fun _ _ => by simp [fits], fun _ j hj => ?_, fun _ _ => fitsItems_iff.2,
      fun _ es hes => fitsFields_iff.2 fun f hf => hes f (mem_dictOf hf)⟩
    cases j with
    | arr xs => cases hj
    | obj fs => cases hj
    | _ => simp [fits]
  exact hP.of_loads h

/-- The bytes of the text of a value. -/
def dumps (limit : ℕ) (v : PyJson) : Except Py.Exc Py.Bytes :=
  if writable limit v then .ok (Py.encode (String.ofList (compact v)))
  else if hasDecimal v then
    .error (.declared "TypeError" "Object of type Decimal is not JSON serializable")
  else if fits limit v = false then
    .error (.declared "RecursionError" "maximum recursion depth exceeded")
  else .error (.valueError "value cannot be written as JSON")

/-! ### Reading strings -/

theorem readEscape_of_lt {u : ℕ} (h : u < 55296) (r : List Char) : readEscape u r = (u, r) := by
  unfold readEscape
  split
  · split
    · rw [if_neg (by omega)]
    · rfl
  · rfl

theorem readPoint_of_ne {c : Char} (h : c ≠ '\\') (h32 : ¬c.toNat < 32) (r : List Char) :
    readPoint (c :: r) = some (c.toNat, r) := by
  unfold readPoint
  split <;> simp_all

theorem readPoint_escapePlain (c : Char) (r : List Char) :
    readPoint (escapePlain c ++ r) = some (c.toNat, r) := by
  unfold escapePlain
  split_ifs with h
  · unfold escapeChar
    split_ifs with h1 h2 h3 h4 h5 h6 h7 h8 h9
    · subst h1; rfl
    · subst h2; rfl
    · subst h3; rfl
    · subst h4; rfl
    · subst h5; rfl
    · rw [h6]; rfl
    · rw [h7]; rfl
    · exact readPoint_of_ne h2 (by omega) r
    · have hsmall : c.toNat < 32 := by simpa [h1, h2] using h
      rw [List.cons_append, List.cons_append, readPoint, Json.readUnit_hex4 h9, Option.map_some,
        readEscape_of_lt (by omega)]
    · have hsmall : c.toNat < 32 := by simpa [h1, h2] using h
      omega
  · exact readPoint_of_ne (fun hc => h (.inr (.inr hc))) (fun hc => h (.inl hc)) r

theorem escapePlain_ne_quote (c : Char) (r s : List Char) : escapePlain c ++ r ≠ '"' :: s := by
  unfold escapePlain
  split_ifs with h
  · exact Json.escapeChar_ne_quote c r s
  · intro heq
    rw [List.singleton_append, List.cons.injEq] at heq
    exact h (.inr (.inl heq.1))

theorem toNat_ofNat_of_isScalar {n : ℕ} (h : isScalar n = true) : (Char.ofNat n).toNat = n := by
  have hvalid : n.isValidChar := by simpa [isScalar] using h
  rw [Char.ofNat, dif_pos hvalid]
  rfl

/-- An escaped string is read back. -/
theorem readText_plainTail {s : PyStr} (hs : s.all isScalar = true) (r : List Char) {n : ℕ}
    (hn : s.length < n) : readText n (plainTail s ++ r) = some (s, r) := by
  induction s generalizing n with
  | nil =>
      obtain ⟨n, rfl⟩ := Nat.exists_eq_succ_of_ne_zero (by omega : n ≠ 0)
      rfl
  | cons c s ih =>
      obtain ⟨n, rfl⟩ := Nat.exists_eq_succ_of_ne_zero (by omega : n ≠ 0)
      rw [List.all_cons, Bool.and_eq_true] at hs
      have htail : plainTail (c :: s) ++ r = escapePlain (Char.ofNat c) ++ (plainTail s ++ r) := by
        simp [plainTail]
      have hpoint := readPoint_escapePlain (Char.ofNat c) (plainTail s ++ r)
      have hquote := escapePlain_ne_quote (Char.ofNat c) (plainTail s ++ r)
      rw [toNat_ofNat_of_isScalar hs.1] at hpoint
      rw [htail]
      generalize escapePlain (Char.ofNat c) ++ (plainTail s ++ r) = cs at hpoint hquote
      rw [readText]
      · rw [hpoint]
        simp only [Option.bind_eq_bind, Option.bind_some]
        rw [ih hs.2 (by simpa using hn)]
        rfl
      · intro r' hr'
        exact hquote r' hr'

theorem length_lt_plainTail (s : PyStr) : s.length < (plainTail s).length := by
  induction s with
  | nil => simp [plainTail]
  | cons c s ih =>
      have hpos : 0 < (escapePlain (Char.ofNat c)).length := by
        unfold escapePlain
        split_ifs
        · exact Json.length_escapeChar_pos _
        · exact Nat.one_pos
      simp only [plainTail, List.map_cons, List.flatMap_cons, List.length_append,
        List.length_cons] at ih ⊢
      omega

theorem literal_plainTail {s : PyStr} (hs : s.all isScalar = true) (r : List Char) :
    literal (plainTail s ++ r) = .ok (s, r) := by
  have := length_lt_plainTail s
  rw [literal, readText_plainTail hs r (by rw [List.length_append]; omega)]

/-! ### Reading words and numbers -/

theorem readBare_word {w : List Char × PyJson} (hw : w ∈ words) (r : List Char) :
    readBare (w.1 ++ r) = .ok (w.2, r) := by
  simp only [words, List.mem_cons, List.not_mem_nil, or_false] at hw
  rcases hw with rfl | rfl | rfl | rfl | rfl | rfl <;> rfl

theorem readBare_number {cs : List Char} (h : ∀ w ∈ words, w.1.isPrefixOf cs = false) :
    readBare cs = readNumber cs := by
  rw [readBare, List.find?_eq_none.2 fun w hw => by simp [h w hw]]

theorem wholeDigits_toDigits (n : ℕ) {r : List Char} (hr : TokenStops r) :
    wholeDigits (Nat.toDigits 10 n ++ r) = Nat.toDigits 10 n := by
  have hstops : Json.Stops r := fun c hc => by
    have hbare := hr c hc
    by_contra hdigit
    rw [Json.isTokenChar_of_isDigit (by simpa using hdigit)] at hbare
    cases hbare
  unfold wholeDigits
  split_ifs with hzero
  · rcases Nat.eq_zero_or_pos n with rfl | hpos
    · rfl
    · refine absurd ?_ (Json.toDigits_head_ne_zero hpos)
      rwa [List.head?_append_of_ne_nil _ Nat.toDigits_ne_nil] at hzero
  · exact Json.takeWhile_toDigits hstops

theorem fractionDigits_of_stops {r : List Char} (hr : TokenStops r) : fractionDigits r = [] := by
  unfold fractionDigits
  split
  · exact absurd (hr '.' rfl) (by decide)
  · rfl

theorem exponentText_of_stops {r : List Char} (hr : TokenStops r) : exponentText r = [] := by
  cases r with
  | nil => rfl
  | cons e s =>
      have he : ¬(e = 'e' ∨ e = 'E') := by
        rintro (rfl | rfl)
        · exact absurd (hr 'e' rfl) (by decide)
        · exact absurd (hr 'E' rfl) (by decide)
      simp [exponentText, he]

theorem numberOf_toDigits (negative : Bool) {n : ℕ}
    (hn : (Nat.toDigits 10 n).length ≤ maxDigits) :
    numberOf negative (Nat.toDigits 10 n) [] [] = .ok (int (if negative then -n else n)) := by
  rw [numberOf, if_neg Nat.toDigits_ne_nil, if_pos ⟨rfl, rfl⟩, if_neg (not_lt.2 hn)]
  simp only [Nat.ofDigitChars_ten_toDigits]

/-- **An integer is read back**, as long as what follows cannot continue it. -/
theorem readNumber_renderInt {z : ℤ} (hz : (Nat.toDigits 10 z.natAbs).length ≤ maxDigits)
    {r : List Char} (hr : TokenStops r) :
    readNumber (Json.renderInt z ++ r) = .ok (int z, r) := by
  have hdrop : ∀ n : ℕ, (Nat.toDigits 10 n ++ r).drop (Nat.toDigits 10 n).length = r := fun n => by
    simp
  cases z with
  | ofNat n =>
      have hhead : (Nat.toDigits 10 n ++ r).head? ≠ some '-' := by
        intro h
        obtain ⟨c, hc, hdig⟩ := Json.toDigits_head n r
        rw [h] at hc
        rw [← Option.some.inj hc] at hdig
        exact absurd hdig (by decide)
      simp only [Json.renderInt, readNumber, hhead, decide_false, if_false, wholeDigits_toDigits n hr,
        hdrop, fractionDigits_of_stops hr, exponentText_of_stops hr, if_true,
        numberOf_toDigits _ (show (Nat.toDigits 10 n).length ≤ maxDigits from hz)]
      rfl
  | negSucc n =>
      simp only [Json.renderInt, List.cons_append, readNumber, List.head?_cons, decide_true, if_true,
        List.drop_succ_cons, List.drop_zero, wholeDigits_toDigits (n + 1) hr, hdrop,
        fractionDigits_of_stops hr, exponentText_of_stops hr,
        numberOf_toDigits _ (show (Nat.toDigits 10 (n + 1)).length ≤ maxDigits from hz)]
      rfl

/-- An integer is no word. -/
theorem isPrefixOf_renderInt (z : ℤ) (r : List Char) :
    ∀ w ∈ words, w.1.isPrefixOf (Json.renderInt z ++ r) = false := by
  have hdigit : ∀ (n : ℕ) (c : Char) (cs : List Char), c.isDigit = false →
      (c :: cs).isPrefixOf (Nat.toDigits 10 n ++ r) = false := by
    intro n c cs hc
    obtain ⟨d, hd, hdig⟩ := Json.toDigits_head n r
    cases hn : Nat.toDigits 10 n ++ r with
    | nil => rfl
    | cons e s =>
        rw [hn, List.head?_cons, Option.some.injEq] at hd
        have hne : c ≠ e := by
          rintro rfl
          rw [hd, hdig] at hc
          cases hc
        simp [List.isPrefixOf, hne]
  intro w hw
  simp only [words, List.mem_cons, List.not_mem_nil, or_false] at hw
  cases z with
  | ofNat n =>
      rcases hw with rfl | rfl | rfl | rfl | rfl | rfl <;> exact hdigit n _ _ (by decide)
  | negSucc n =>
      rcases hw with rfl | rfl | rfl | rfl | rfl | rfl
      · rfl
      · rfl
      · rfl
      · rfl
      · rfl
      · exact hdigit (n + 1) 'I' _ (by decide)

/-! ### Enough fuel -/

mutual

/-- The parts of a value, as the reader counts them. -/
def size : PyJson → ℕ
  | arr (x :: xs) => 1 + size x + sizeItems xs
  | obj ((_, v) :: fs) => 2 + size v + sizeFields fs
  | _ => 1

def sizeItems : List PyJson → ℕ
  | [] => 1
  | x :: xs => 1 + size x + sizeItems xs

def sizeFields : List (PyStr × PyJson) → ℕ
  | [] => 1
  | (_, v) :: fs => 2 + size v + sizeFields fs

end

theorem compactItems_tokenStops (xs : List PyJson) (r : List Char) :
    TokenStops (compactItems xs ++ r) := by
  cases xs with
  | nil => exact .cons _ (by decide)
  | cons x xs => exact .cons _ (by decide)

theorem compactFields_tokenStops (fs : List (PyStr × PyJson)) (r : List Char) :
    TokenStops (compactFields fs ++ r) := by
  cases fs with
  | nil => exact .cons _ (by decide)
  | cons f fs => exact .cons _ (by decide)

theorem skipSpace_compactItems (xs : List PyJson) (r : List Char) :
    skipSpace (compactItems xs ++ r) = compactItems xs ++ r := by
  cases xs with
  | nil => rfl
  | cons x xs => rfl

theorem skipSpace_compactFields (fs : List (PyStr × PyJson)) (r : List Char) :
    skipSpace (compactFields fs ++ r) = compactFields fs ++ r := by
  cases fs with
  | nil => rfl
  | cons f fs => rfl

/-- A value that is written starts with neither white space nor a closing bracket. -/
theorem compact_start {depth : ℕ} {j : PyJson} (h : writable depth j = true) (r : List Char) :
    skipSpace (compact j ++ r) = compact j ++ r ∧ ∀ s, compact j ++ r ≠ ']' :: s := by
  have hne : ∀ c cs s, c ≠ ']' → c :: cs ≠ ']' :: s := by
    intro c cs s hc heq
    exact hc (List.cons.inj heq).1
  cases j with
  | null => exact ⟨rfl, fun s => hne _ _ s (by decide)⟩
  | bool b => cases b <;> exact ⟨rfl, fun s => hne _ _ s (by decide)⟩
  | int z => exact ⟨Json.skipSpace_render (.int z) r, Json.render_ne_bracket (.int z) r⟩
  | decimal d => simp [writable] at h
  | constant name =>
      simp only [writable, constantNames, List.contains_iff_mem, List.mem_cons, List.not_mem_nil,
        or_false] at h
      rcases h with rfl | rfl | rfl <;> exact ⟨rfl, fun s => hne _ _ s (by decide)⟩
  | str s => exact ⟨rfl, fun s => hne _ _ s (by decide)⟩
  | arr xs => cases xs <;> exact ⟨rfl, fun s => hne _ _ s (by decide)⟩
  | obj fs => cases fs <;> exact ⟨rfl, fun s => hne _ _ s (by decide)⟩

/-! ### Reading what is written -/

theorem dictOf_of_order {fs : List (PyStr × PyJson)} (h : KeyOrder fs) : dictOf fs = fs := by
  have hput : ∀ (es acc : List (PyStr × PyJson)), KeyOrder (acc ++ es) →
      es.foldl (fun fs e => SortedMap.putSorted e.1 e.2 fs) acc = acc ++ es := by
    intro es
    induction es with
    | nil => exact fun acc _ => (List.append_nil acc).symm
    | cons e es ih =>
        intro acc hacc
        have hlt : ∀ e' ∈ acc, e'.1 < e.1 := fun e' he' =>
          (List.pairwise_append.1 hacc).2.2 e' he' e (List.mem_cons_self ..)
        rw [List.foldl_cons, SortedMap.putSorted_of_lt hlt, ih _ (by simpa using hacc)]
        simp
  exact hput fs [] h

theorem readValue_bare {n depth : ℕ} {cs : List Char}
    (h : ∀ c ∈ cs.head?, c ≠ '"' ∧ c ≠ '[' ∧ c ≠ '{') :
    readValue (n + 1) depth cs = readBare cs := by
  have hq : ∀ r, cs ≠ '"' :: r := by
    rintro r rfl
    exact (h '"' rfl).1 rfl
  have hb : ∀ r, cs ≠ '[' :: r := by
    rintro r rfl
    exact (h '[' rfl).2.1 rfl
  have hc : ∀ r, cs ≠ '{' :: r := by
    rintro r rfl
    exact (h '{' rfl).2.2 rfl
  rw [readValue]
  · exact hq
  · exact fun r _ => hb r
  · exact fun _ r _ => hb r
  · exact fun r _ => hc r
  · exact fun _ r _ => hc r

theorem readValue_word {n depth : ℕ} {w : List Char × PyJson} (hw : w ∈ words) (r : List Char) :
    readValue (n + 1) depth (w.1 ++ r) = .ok (w.2, r) := by
  rw [readValue_bare, readBare_word hw]
  simp only [words, List.mem_cons, List.not_mem_nil, or_false] at hw
  rcases hw with rfl | rfl | rfl | rfl | rfl | rfl <;> simp

theorem readValue_int {n depth : ℕ} {z : ℤ}
    (hz : (Nat.toDigits 10 z.natAbs).length ≤ maxDigits) {r : List Char} (hr : TokenStops r) :
    readValue (n + 1) depth (Json.renderInt z ++ r) = .ok (int z, r) := by
  rw [readValue_bare, readBare_number (isPrefixOf_renderInt z r), readNumber_renderInt hz hr]
  intro c hc
  cases z with
  | ofNat n =>
      obtain ⟨d, hd, hdig⟩ := Json.toDigits_head n r
      rw [Json.renderInt, hd] at hc
      rw [← Option.mem_some.1 hc]
      refine ⟨?_, ?_, ?_⟩ <;> rintro rfl <;> exact absurd hdig (by decide)
  | negSucc n =>
      rw [← Option.mem_some.1 hc]
      decide

theorem readValue_bracket {n depth d : ℕ} {x : PyJson} (hx : writable d x = true) {r : List Char} :
    readValue (n + 1) (depth + 1) ('[' :: (compact x ++ r)) = do
      let (y, r) ← readValue n depth (compact x ++ r)
      let (ys, r) ← readItems n depth (skipSpace r)
      return (arr (y :: ys), r) := by
  obtain ⟨hskip, hbracket⟩ := compact_start hx r
  rw [readValue, hskip]
  split
  · next s hs => exact absurd hs (hbracket s)
  · rfl

theorem readValue_brace {n depth : ℕ} {cs : List Char} :
    readValue (n + 1) (depth + 1) ('{' :: '"' :: cs) = do
      let (e, r) ← readEntry n depth ('"' :: cs)
      let (es, r) ← readFields n depth (skipSpace r)
      return (obj (dictOf (e :: es)), r) := by
  have hskip : skipSpace ('"' :: cs) = '"' :: cs := rfl
  rw [readValue, hskip]
  split
  · next s hs => cases hs
  · rfl

theorem readValue_emptyDict (n depth : ℕ) (r : List Char) :
    readValue (n + 1) (depth + 1) ('{' :: '}' :: r) = .ok (obj [], r) := by
  have hskip : skipSpace ('}' :: r) = '}' :: r := rfl
  rw [readValue, hskip]
  rfl

theorem readValue_emptyList (n depth : ℕ) (r : List Char) :
    readValue (n + 1) (depth + 1) ('[' :: ']' :: r) = .ok (arr [], r) := by
  have hskip : skipSpace (']' :: r) = ']' :: r := rfl
  rw [readValue, hskip]
  rfl

mutual

/-- **A value is read back**, as long as what follows cannot continue a bare token. -/
theorem readValue_compact : ∀ (j : PyJson) (n depth : ℕ) (r : List Char), j.Ordered →
    writable depth j = true → size j ≤ n → TokenStops r →
    readValue n depth (compact j ++ r) = .ok (j, r)
  | null, n + 1, depth, r, _, _, _, _ =>
      readValue_word (w := (['n', 'u', 'l', 'l'], null)) (by simp [words]) r
  | bool true, n + 1, depth, r, _, _, _, _ =>
      readValue_word (w := (['t', 'r', 'u', 'e'], bool true)) (by simp [words]) r
  | bool false, n + 1, depth, r, _, _, _, _ =>
      readValue_word (w := (['f', 'a', 'l', 's', 'e'], bool false)) (by simp [words]) r
  | int z, n + 1, depth, r, _, hw, _, hr => readValue_int (by simpa [writable] using hw) hr
  | decimal d, _, _, _, _, hw, _, _ => by simp [writable] at hw
  | constant name, n + 1, depth, r, _, hw, _, _ => by
      simp only [writable, constantNames, List.contains_iff_mem, List.mem_cons, List.not_mem_nil,
        or_false] at hw
      rcases hw with rfl | rfl | rfl
      · exact readValue_word (w := (['N', 'a', 'N'], constant "NaN")) (by simp [words]) r
      · exact readValue_word
          (w := (['I', 'n', 'f', 'i', 'n', 'i', 't', 'y'], constant "Infinity")) (by simp [words]) r
      · exact readValue_word
          (w := (['-', 'I', 'n', 'f', 'i', 'n', 'i', 't', 'y'], constant "-Infinity"))
          (by simp [words]) r
  | str s, n + 1, depth, r, _, hw, _, _ => by
      rw [compact, List.cons_append, readValue, literal_plainTail (by simpa [writable] using hw)]
      rfl
  | arr [], n + 1, depth + 1, r, _, _, _, _ => readValue_emptyList n depth r
  | arr (x :: xs), n + 1, depth + 1, r, ho, hw, hn, _ => by
      simp only [Ordered, OrderedItems] at ho
      simp only [writable, writableItems, Bool.and_eq_true] at hw
      simp only [size] at hn
      rw [compact, List.cons_append, List.append_assoc, readValue_bracket hw.1,
        readValue_compact x n depth _ ho.1 hw.1 (by omega) (compactItems_tokenStops xs r)]
      simp only [bind, Except.bind]
      rw [skipSpace_compactItems, readItems_compact xs n depth r ho.2 hw.2 (by omega)]
      rfl
  | obj [], n + 1, depth + 1, r, _, _, _, _ => readValue_emptyDict n depth r
  | obj ((k, v) :: fs), n + 2, depth + 1, r, ho, hw, hn, _ => by
      simp only [Ordered, OrderedFields] at ho
      simp only [writable, writableFields, Bool.and_eq_true] at hw
      simp only [size] at hn
      have hentry := readEntry_compact k v n depth (compactFields fs ++ r) ho.2.1 hw.1.1 hw.1.2
        (by omega) (compactFields_tokenStops fs r)
      have hrest := readFields_compact fs (n + 1) depth r ho.2.2 hw.2 (by omega)
      simp only [compact, List.cons_append, List.append_assoc]
      rw [readValue_brace, hentry]
      simp only [bind, Except.bind, skipSpace_compactFields, hrest, dictOf_of_order ho.1, pure,
        Except.pure]
  | arr _, _, 0, _, _, hw, _, _ => by simp [writable] at hw
  | obj _, _, 0, _, _, hw, _, _ => by simp [writable] at hw
  | null, 0, _, r, _, _, hn, _ => by simp [size] at hn
  | bool b, 0, _, r, _, _, hn, _ => by simp [size] at hn
  | int z, 0, _, r, _, _, hn, _ => by simp [size] at hn
  | constant _, 0, _, r, _, _, hn, _ => by simp [size] at hn
  | str s, 0, _, r, _, _, hn, _ => by simp [size] at hn
  | arr [], 0, _, r, _, _, hn, _ => by simp [size] at hn
  | arr (x :: xs), 0, _, r, _, _, hn, _ => by simp only [size] at hn; omega
  | obj [], 0, _, r, _, _, hn, _ => by simp [size] at hn
  | obj ((k, v) :: fs), 0, _, r, _, _, hn, _ => by simp only [size] at hn; omega
  | obj ((k, v) :: fs), 1, _, r, _, _, hn, _ => by simp only [size] at hn; omega

theorem readEntry_compact : ∀ (k : PyStr) (v : PyJson) (n depth : ℕ) (r : List Char), v.Ordered →
    k.all isScalar = true → writable depth v = true → size v ≤ n → TokenStops r →
    readEntry (n + 1) depth ('"' :: (plainTail k ++ ':' :: (compact v ++ r))) = .ok ((k, v), r)
  | k, v, n, depth, r, ho, hk, hw, hn, hr => by
      have hv := readValue_compact v n depth r ho hw hn hr
      have hcolon : ∀ cs, skipSpace (':' :: cs) = ':' :: cs := fun _ => rfl
      simp only [readEntry, literal_plainTail hk, bind, Except.bind, hcolon,
        (compact_start hw r).1, hv, pure, Except.pure]

theorem readItems_compact : ∀ (xs : List PyJson) (n depth : ℕ) (r : List Char), OrderedItems xs →
    writableItems depth xs = true → sizeItems xs ≤ n →
    readItems n depth (compactItems xs ++ r) = .ok (xs, r)
  | [], n + 1, depth, r, _, _, _ => by
      rw [compactItems, List.cons_append, List.nil_append, readItems]
  | x :: xs, n + 1, depth, r, ho, hw, hn => by
      simp only [OrderedItems] at ho
      simp only [writableItems, Bool.and_eq_true] at hw
      simp only [sizeItems] at hn
      rw [compactItems, List.cons_append, List.append_assoc, readItems, (compact_start hw.1 _).1,
        readValue_compact x n depth _ ho.1 hw.1 (by omega) (compactItems_tokenStops xs r)]
      simp only [bind, Except.bind]
      rw [skipSpace_compactItems, readItems_compact xs n depth r ho.2 hw.2 (by omega)]
      rfl
  | [], 0, _, r, _, _, hn => by simp [sizeItems] at hn
  | x :: xs, 0, _, r, _, _, hn => by simp only [sizeItems] at hn; omega

theorem readFields_compact : ∀ (fs : List (PyStr × PyJson)) (n depth : ℕ) (r : List Char),
    OrderedFields fs → writableFields depth fs = true → sizeFields fs ≤ n →
    readFields n depth (compactFields fs ++ r) = .ok (fs, r)
  | [], n + 1, depth, r, _, _, _ => by
      rw [compactFields, List.cons_append, List.nil_append, readFields]
  | (k, v) :: fs, n + 2, depth, r, ho, hw, hn => by
      simp only [OrderedFields] at ho
      simp only [writableFields, Bool.and_eq_true] at hw
      simp only [sizeFields] at hn
      have hentry := readEntry_compact k v n depth (compactFields fs ++ r) ho.1 hw.1.1 hw.1.2
        (by omega) (compactFields_tokenStops fs r)
      have hrest := readFields_compact fs (n + 1) depth r ho.2 hw.2 (by omega)
      have hskip : ∀ cs, skipSpace ('"' :: cs) = '"' :: cs := fun _ => rfl
      simp only [compactFields, List.cons_append, List.append_assoc, readFields, hskip, hentry, bind,
        Except.bind, skipSpace_compactFields, hrest, pure, Except.pure]
  | [], 0, _, r, _, _, hn => by simp [sizeFields] at hn
  | (k, v) :: fs, 0, _, r, _, _, hn => by simp only [sizeFields] at hn; omega
  | (k, v) :: fs, 1, _, r, _, _, hn => by simp only [sizeFields] at hn; omega

end

mutual

theorem size_le_length : ∀ {depth : ℕ} (j : PyJson), writable depth j = true →
    size j ≤ (compact j).length
  | _, null, _ => by simp [size, compact]
  | _, bool true, _ => by simp [size, compact]
  | _, bool false, _ => by simp [size, compact]
  | _, int z, _ => Json.length_renderInt_pos z
  | _, decimal _, h => by simp [writable] at h
  | _, constant name, h => by
      simp only [writable, constantNames, List.contains_iff_mem, List.mem_cons, List.not_mem_nil,
        or_false] at h
      rcases h with rfl | rfl | rfl <;> decide
  | _, str s, _ => by simp [size, compact]
  | _, arr [], _ => by simp [size, compact]
  | depth + 1, arr (x :: xs), h => by
      simp only [writable, writableItems, Bool.and_eq_true] at h
      have hx := size_le_length x h.1
      have hxs := sizeItems_le_length xs h.2
      simp only [size, compact, List.length_cons, List.length_append]
      omega
  | _, obj [], _ => by simp [size, compact]
  | depth + 1, obj ((k, v) :: fs), h => by
      simp only [writable, writableFields, Bool.and_eq_true] at h
      have hv := size_le_length v h.1.2
      have hfs := sizeFields_le_length fs h.2
      simp only [size, compact, List.length_cons, List.length_append]
      omega
  | 0, arr (_ :: _), h => by simp [writable] at h
  | 0, obj (_ :: _), h => by simp [writable] at h

theorem sizeItems_le_length : ∀ {depth : ℕ} (xs : List PyJson), writableItems depth xs = true →
    sizeItems xs ≤ (compactItems xs).length
  | _, [], _ => by simp [sizeItems, compactItems]
  | _, x :: xs, h => by
      simp only [writableItems, Bool.and_eq_true] at h
      have hx := size_le_length x h.1
      have hxs := sizeItems_le_length xs h.2
      simp only [sizeItems, compactItems, List.length_cons, List.length_append]
      omega

theorem sizeFields_le_length : ∀ {depth : ℕ} (fs : List (PyStr × PyJson)),
    writableFields depth fs = true → sizeFields fs ≤ (compactFields fs).length
  | _, [], _ => by simp [sizeFields, compactFields]
  | _, (k, v) :: fs, h => by
      simp only [writableFields, Bool.and_eq_true] at h
      have hv := size_le_length v h.1.2
      have hfs := sizeFields_le_length fs h.2
      simp only [sizeFields, compactFields, List.length_cons, List.length_append]
      omega

end

/-- **What is written is loaded**, under the same limit of the nesting. -/
theorem loads_compact {limit : ℕ} {j : PyJson} (ho : j.Ordered) (hw : writable limit j = true) :
    loads limit (String.ofList (compact j)) = .ok j := by
  have hsize := size_le_length j hw
  have hskip := (compact_start hw []).1
  have hread := readValue_compact j ((compact j).length + 1) limit [] ho hw (by omega) .nil
  rw [List.append_nil] at hskip hread
  rw [loads, String.toList_ofList, hskip, hread]
  rfl

end PyJson
