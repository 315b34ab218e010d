/-
**JSON text of Python values.**

The values `json.dumps` writes, the text it writes for them, and the fact the hashes of this
development rest on: the text determines the value.  `json.dumps` runs with its defaults
(`ensure_ascii`, the separators `", "` and `": "`) and with `sort_keys`, which writes the entries
of every dict in the order of their keys.

Main definitions:

* `Json` — the values: `None`, booleans, integers, strings, lists and dicts;
* `Json.sortKeys` — the reordering `sort_keys` asks for;
* `Json.Keyed` — values whose dicts hold each key once;
* `Json.render` — the text, character by character;
* `Json.dumps` — the string.

Main results:

* `Json.decodeChar_escapeChar` — an escaped character is read back;
* `Json.render_cancel` — **the text is a prefix code**: of two values whose texts start one string,
  followed by something that cannot continue a number, both are the same;
* `Json.dumps_injective` — **the text determines the value, up to the order of the keys**.
-/

import CobolJava.Lib.PyDict
import Mathlib.Data.List.Sort
import Mathlib.Data.List.Perm.Basic
import Mathlib.Tactic.Common

set_option autoImplicit false

/-- The values `json.dumps` writes. -/
inductive Json where
  | null
  | bool (b : Bool)
  | int (z : ℤ)
  | str (s : String)
  | arr (xs : List Json)
  | obj (fields : List (String × Json))

namespace Json

/-! ### Characters -/

/-- The four hexadecimal digits of a 16-bit code unit. -/
def hex4 (n : ℕ) : List Char :=
  [Nat.digitChar (n / 4096 % 16), Nat.digitChar (n / 256 % 16), Nat.digitChar (n / 16 % 16),
    Nat.digitChar (n % 16)]

/-- The escape of one character under `ensure_ascii`: a character outside the printable ASCII
range is written as one code unit, or as the two of its surrogate pair. -/
def escapeChar (c : Char) : List Char :=
  if c = '"' then ['\\', '"']
  else if c = '\\' then ['\\', '\\']
  else if c = '\n' then ['\\', 'n']
  else if c = '\r' then ['\\', 'r']
  else if c = '\t' then ['\\', 't']
  else if c.toNat = 12 then ['\\', 'f']
  else if c.toNat = 8 then ['\\', 'b']
  else if 32 ≤ c.toNat ∧ c.toNat ≤ 126 then [c]
  else if c.toNat < 65536 then '\\' :: 'u' :: hex4 c.toNat
  else
    '\\' :: 'u' :: (hex4 (55296 + (c.toNat - 65536) / 1024) ++
      '\\' :: 'u' :: hex4 (56320 + (c.toNat - 65536) % 1024))

/-- The value of a hexadecimal digit. -/
def hexVal (c : Char) : ℕ :=
  if c.toNat < 58 then c.toNat - 48 else c.toNat - 87

theorem hexVal_digitChar : ∀ n < 16, hexVal (Nat.digitChar n) = n := by decide

/-- The code unit four hexadecimal digits denote. -/
def unitVal (a b c d : Char) : ℕ :=
  hexVal a * 4096 + hexVal b * 256 + hexVal c * 16 + hexVal d

theorem unitVal_hex4 {n : ℕ} (h : n < 65536) :
    unitVal (Nat.digitChar (n / 4096 % 16)) (Nat.digitChar (n / 256 % 16))
      (Nat.digitChar (n / 16 % 16)) (Nat.digitChar (n % 16)) = n := by
  rw [unitVal, hexVal_digitChar _ (by omega), hexVal_digitChar _ (by omega),
    hexVal_digitChar _ (by omega), hexVal_digitChar _ (by omega)]
  omega

/-- The reading of one escaped character, with the rest of the text. -/
def decodeChar : List Char → Option (Char × List Char)
  | '\\' :: '"' :: r => some ('"', r)
  | '\\' :: '\\' :: r => some ('\\', r)
  | '\\' :: 'n' :: r => some ('\n', r)
  | '\\' :: 'r' :: r => some ('\r', r)
  | '\\' :: 't' :: r => some ('\t', r)
  | '\\' :: 'f' :: r => some (Char.ofNat 12, r)
  | '\\' :: 'b' :: r => some (Char.ofNat 8, r)
  | '\\' :: 'u' :: a :: b :: c :: d :: r =>
      if 55296 ≤ unitVal a b c d ∧ unitVal a b c d < 57344 then
        match r with
        | '\\' :: 'u' :: a' :: b' :: c' :: d' :: r' =>
            some (Char.ofNat (65536 + (unitVal a b c d - 55296) * 1024 +
              (unitVal a' b' c' d' - 56320)), r')
        | _ => none
      else some (Char.ofNat (unitVal a b c d), r)
  | c :: r => some (c, r)
  | [] => none

attribute [grind =] decodeChar

theorem decodeChar_of_ne {c : Char} (h : c ≠ '\\') (r : List Char) :
    decodeChar (c :: r) = some (c, r) := by
  unfold decodeChar
  split <;> simp_all

theorem decodeChar_unit {n : ℕ} (hn : n < 65536) (hs : ¬(55296 ≤ n ∧ n < 57344))
    (r : List Char) :
    decodeChar ('\\' :: 'u' :: (hex4 n ++ r)) = some (Char.ofNat n, r) := by
  simp only [hex4, List.cons_append, List.nil_append, decodeChar, unitVal_hex4 hn]
  rw [if_neg hs]

theorem decodeChar_pair {v : ℕ} (hv : v < 1048576) (r : List Char) :
    decodeChar ('\\' :: 'u' :: (hex4 (55296 + v / 1024) ++
      '\\' :: 'u' :: (hex4 (56320 + v % 1024) ++ r))) = some (Char.ofNat (65536 + v), r) := by
  have hhi : unitVal _ _ _ _ = 55296 + v / 1024 := unitVal_hex4 (by omega)
  have hlo : unitVal _ _ _ _ = 56320 + v % 1024 := unitVal_hex4 (by omega)
  simp only [hex4, List.cons_append, List.nil_append, decodeChar, hhi, hlo]
  have hv' : 65536 + (55296 + v / 1024 - 55296) * 1024 + (56320 + v % 1024 - 56320) =
      65536 + v := by omega
  rw [if_pos (by omega), hv']

theorem toNat_not_surrogate (c : Char) : ¬(55296 ≤ c.toNat ∧ c.toNat < 57344) := by
  have h : c.toNat < 55296 ∨ (57343 < c.toNat ∧ c.toNat < 1114112) := c.valid
  omega

theorem toNat_lt (c : Char) : c.toNat < 1114112 := by
  have h : c.toNat < 55296 ∨ (57343 < c.toNat ∧ c.toNat < 1114112) := c.valid
  omega

/-- **An escaped character is read back.** -/
theorem decodeChar_escapeChar (c : Char) (r : List Char) :
    decodeChar (escapeChar c ++ r) = some (c, r) := by
  unfold escapeChar
  split_ifs with h1 h2 h3 h4 h5 h6 h7 h8 h9
  · subst h1; rfl
  · subst h2; rfl
  · subst h3; rfl
  · subst h4; rfl
  · subst h5; rfl
  · have hc : c = Char.ofNat 12 := by rw [← h6, Char.ofNat_toNat]
    subst hc; rfl
  · have hc : c = Char.ofNat 8 := by rw [← h7, Char.ofNat_toNat]
    subst hc; rfl
  · exact decodeChar_of_ne h2 r
  · rw [List.cons_append, List.cons_append, decodeChar_unit h9 (toNat_not_surrogate c),
      Char.ofNat_toNat]
  · have hlt := toNat_lt c
    have hpair := decodeChar_pair (v := c.toNat - 65536) (by omega) r
    rw [show 65536 + (c.toNat - 65536) = c.toNat by omega, Char.ofNat_toNat] at hpair
    simpa using hpair

theorem escapeChar_ne_quote (c : Char) (r s : List Char) : escapeChar c ++ r ≠ '"' :: s := by
  intro h
  have hc := decodeChar_escapeChar c r
  rw [h, decodeChar_of_ne (by decide)] at hc
  obtain ⟨rfl, rfl⟩ : '"' = c ∧ s = r := by simpa using hc
  simp [escapeChar] at h

/-! ### Strings -/

def renderStr (s : String) : List Char :=
  '"' :: (s.toList.flatMap escapeChar ++ ['"'])

theorem escape_cancel : ∀ (s t r r' : List Char),
    s.flatMap escapeChar ++ '"' :: r = t.flatMap escapeChar ++ '"' :: r' → s = t ∧ r = r' := by
  intro s
  induction s with
  | nil =>
      intro t r r' h
      cases t with
      | nil => simpa using h
      | cons d t =>
          rw [List.flatMap_cons, List.append_assoc] at h
          exact absurd h.symm (escapeChar_ne_quote d _ _)
  | cons c s ih =>
      intro t r r' h
      cases t with
      | nil =>
          rw [List.flatMap_cons, List.append_assoc] at h
          exact absurd h (escapeChar_ne_quote c _ _)
      | cons d t =>
          rw [List.flatMap_cons, List.flatMap_cons, List.append_assoc, List.append_assoc] at h
          have hc := decodeChar_escapeChar c (s.flatMap escapeChar ++ '"' :: r)
          rw [h, decodeChar_escapeChar] at hc
          obtain ⟨rfl, hrest⟩ : d = c ∧ _ = _ := by simpa using hc
          obtain ⟨rfl, rfl⟩ := ih t r r' hrest.symm
          exact ⟨rfl, rfl⟩

theorem renderStr_cancel {s t : String} {r r' : List Char}
    (h : renderStr s ++ r = renderStr t ++ r') : s = t ∧ r = r' := by
  simp only [renderStr, List.cons_append, List.append_assoc, List.nil_append,
    List.cons.injEq, true_and] at h
  obtain ⟨hs, hr⟩ := escape_cancel _ _ _ _ h
  exact ⟨String.toList_inj.1 hs, hr⟩

/-! ### Numbers -/

def renderInt : ℤ → List Char
  | Int.ofNat n => Nat.toDigits 10 n
  | Int.negSucc n => '-' :: Nat.toDigits 10 (n + 1)

/-- The text `r` cannot continue a number. -/
def Stops (r : List Char) : Prop := ∀ c, r.head? = some c → c.isDigit = false

theorem Stops.nil : Stops [] := by simp [Stops]

theorem Stops.cons {c : Char} (r : List Char) (h : c.isDigit = false) : Stops (c :: r) := by
  simpa [Stops] using h

theorem takeWhile_toDigits {n : ℕ} {r : List Char} (hr : Stops r) :
    (Nat.toDigits 10 n ++ r).takeWhile Char.isDigit = Nat.toDigits 10 n := by
  have hd : ∀ c ∈ Nat.toDigits 10 n, c.isDigit = true := fun c hc =>
    Nat.isDigit_of_mem_toDigits (by decide) (by decide) hc
  rw [List.takeWhile_append_of_pos hd]
  cases r with
  | nil => simp
  | cons c r => simp [hr c rfl]

theorem toDigits_cancel {n m : ℕ} {r r' : List Char} (hr : Stops r) (hr' : Stops r')
    (h : Nat.toDigits 10 n ++ r = Nat.toDigits 10 m ++ r') : n = m ∧ r = r' := by
  have hdig : Nat.toDigits 10 n = Nat.toDigits 10 m := by
    rw [← takeWhile_toDigits hr, h, takeWhile_toDigits hr']
  refine ⟨?_, by rwa [hdig, List.append_cancel_left_eq] at h⟩
  have hval := congrArg (fun l => Nat.ofDigitChars 10 l 0) hdig
  simpa only [Nat.ofDigitChars_ten_toDigits] using hval

theorem toDigits_head (n : ℕ) (r : List Char) :
    ∃ c, (Nat.toDigits 10 n ++ r).head? = some c ∧ c.isDigit = true := by
  cases hd : Nat.toDigits 10 n with
  | nil => exact absurd hd Nat.toDigits_ne_nil
  | cons c l =>
      refine ⟨c, by simp, Nat.isDigit_of_mem_toDigits (b := 10) (n := n) (by decide) (by decide) ?_⟩
      rw [hd]
      exact List.mem_cons_self ..

theorem toDigits_ne_minus (n : ℕ) (r r' : List Char) : Nat.toDigits 10 n ++ r ≠ '-' :: r' := by
  intro h
  obtain ⟨c, hc, hdig⟩ := toDigits_head n r
  rw [h] at hc
  obtain rfl : '-' = c := by simpa using hc
  exact absurd hdig (by decide)

theorem renderInt_cancel {a b : ℤ} {r r' : List Char} (hr : Stops r) (hr' : Stops r')
    (h : renderInt a ++ r = renderInt b ++ r') : a = b ∧ r = r' := by
  cases a with
  | ofNat n =>
      cases b with
      | ofNat m =>
          obtain ⟨hnm, hrr⟩ := toDigits_cancel hr hr' h
          exact ⟨congrArg Int.ofNat hnm, hrr⟩
      | negSucc m => exact absurd h (toDigits_ne_minus _ _ _)
  | negSucc n =>
      cases b with
      | ofNat m => exact absurd h.symm (toDigits_ne_minus _ _ _)
      | negSucc m =>
          simp only [renderInt, List.cons_append, List.cons.injEq, true_and] at h
          obtain ⟨hnm, hrr⟩ := toDigits_cancel hr hr' h
          exact ⟨congrArg Int.negSucc (Nat.succ_injective hnm), hrr⟩

/-! ### The text of a value -/

mutual

/-- The text `json.dumps` writes for a value, entries in the order they are held. -/
def render : Json → List Char
  | null => ['n', 'u', 'l', 'l']
  | bool true => ['t', 'r', 'u', 'e']
  | bool false => ['f', 'a', 'l', 's', 'e']
  | int z => renderInt z
  | str s => renderStr s
  | arr [] => ['[', ']']
  | arr (x :: xs) => '[' :: (render x ++ renderItems xs)
  | obj [] => ['{', '}']
  | obj ((k, v) :: fs) => '{' :: (renderStr k ++ ':' :: ' ' :: (render v ++ renderFields fs))

/-- The items of a list after the first, with the closing bracket. -/
def renderItems : List Json → List Char
  | [] => [']']
  | x :: xs => ',' :: ' ' :: (render x ++ renderItems xs)

/-- The entries of a dict after the first, with the closing brace. -/
def renderFields : List (String × Json) → List Char
  | [] => ['}']
  | (k, v) :: fs =>
      ',' :: ' ' :: (renderStr k ++ ':' :: ' ' :: (render v ++ renderFields fs))

end

attribute [grind =] render

/-- The kind of a value, as the first character of its text shows it. -/
def kind : Json → ℕ
  | null => 0
  | bool true => 1
  | bool false => 2
  | str _ => 3
  | arr _ => 4
  | obj _ => 5
  | int _ => 6

/-- The kind of value a text starting with `c` denotes. -/
def kindOf (c : Char) : ℕ :=
  if c = 'n' then 0 else if c = 't' then 1 else if c = 'f' then 2 else if c = '"' then 3
  else if c = '[' then 4 else if c = '{' then 5 else 6

theorem kindOf_digit {c : Char} (h : c.isDigit = true) : kindOf c = 6 := by
  unfold kindOf
  split_ifs <;> simp_all

theorem render_head (j : Json) (r : List Char) :
    ∃ c, (render j ++ r).head? = some c ∧ kindOf c = kind j := by
  cases j with
  | null => exact ⟨'n', rfl, rfl⟩
  | bool b => cases b <;> exact ⟨_, rfl, rfl⟩
  | str s => exact ⟨'"', rfl, rfl⟩
  | arr xs => cases xs <;> exact ⟨'[', rfl, rfl⟩
  | obj fs => rcases fs with _ | ⟨⟨k, v⟩, fs⟩ <;> exact ⟨'{', rfl, rfl⟩
  | int z =>
      cases z with
      | ofNat n =>
          obtain ⟨c, hc, hdig⟩ := toDigits_head n r
          exact ⟨c, hc, kindOf_digit hdig⟩
      | negSucc n => exact ⟨'-', rfl, rfl⟩

theorem kind_eq_of_render {j k : Json} {r r' : List Char} (h : render j ++ r = render k ++ r') :
    kind j = kind k := by
  obtain ⟨c, hc, hj⟩ := render_head j r
  obtain ⟨d, hd, hk⟩ := render_head k r'
  rw [h, hd] at hc
  obtain rfl : d = c := by simpa using hc
  rw [← hj, hk]

theorem renderItems_stops (xs : List Json) (r : List Char) : Stops (renderItems xs ++ r) := by
  cases xs <;> exact Stops.cons _ (by decide)

theorem renderFields_stops (fs : List (String × Json)) (r : List Char) :
    Stops (renderFields fs ++ r) := by
  rcases fs with _ | ⟨⟨k, v⟩, fs⟩ <;> exact Stops.cons _ (by decide)

theorem render_ne_bracket (j : Json) (r s : List Char) : render j ++ r ≠ ']' :: s := by
  intro h
  cases j with
  | int z =>
      cases z with
      | ofNat n =>
          obtain ⟨c, hc, hdig⟩ := toDigits_head n r
          rw [show Nat.toDigits 10 n ++ r = ']' :: s from h] at hc
          obtain rfl : ']' = c := by simpa using hc
          exact absurd hdig (by decide)
      | negSucc n => simp [render, renderInt] at h
  | bool b => cases b <;> simp [render] at h
  | arr xs => cases xs <;> simp [render] at h
  | obj fs => rcases fs with _ | ⟨⟨k, v⟩, fs⟩ <;> simp [render] at h
  | _ => simp [render, renderStr] at h

mutual

/-- **The text of a value is a prefix code**, as long as what follows cannot continue a number. -/
theorem render_cancel : ∀ (j k : Json) {r r' : List Char}, Stops r → Stops r' →
    render j ++ r = render k ++ r' → j = k ∧ r = r'
  | null, k, r, r', _, _, h => by
      have hk := kind_eq_of_render h
      cases k with
      | null => exact ⟨rfl, by simpa [render] using h⟩
      | bool b => cases b <;> simp [kind] at hk
      | _ => simp [kind] at hk
  | bool b, k, r, r', _, _, h => by
      have hk := kind_eq_of_render h
      cases k with
      | bool b' =>
          cases b <;> cases b' <;>
            first
            | exact ⟨rfl, by simpa [render] using h⟩
            | simp [kind] at hk
      | _ => cases b <;> simp [kind] at hk
  | int z, k, r, r', hr, hr', h => by
      have hk := kind_eq_of_render h
      cases k with
      | int z' =>
          obtain ⟨rfl, hrr⟩ := renderInt_cancel hr hr' h
          exact ⟨rfl, hrr⟩
      | bool b => cases b <;> simp [kind] at hk
      | _ => simp [kind] at hk
  | str s, k, r, r', _, _, h => by
      have hk := kind_eq_of_render h
      cases k with
      | str s' =>
          obtain ⟨rfl, hrr⟩ := renderStr_cancel h
          exact ⟨rfl, hrr⟩
      | bool b => cases b <;> simp [kind] at hk
      | _ => simp [kind] at hk
  | arr [], k, r, r', _, _, h => by
      have hk := kind_eq_of_render h
      cases k with
      | arr ys =>
          cases ys with
          | nil => exact ⟨rfl, by simpa [render] using h⟩
          | cons y ys =>
              simp only [render, List.cons_append, List.nil_append, List.cons.injEq, true_and,
                List.append_assoc] at h
              exact absurd h.symm (render_ne_bracket y _ _)
      | bool b => cases b <;> simp [kind] at hk
      | _ => simp [kind] at hk
  | arr (x :: xs), k, r, r', _, _, h => by
      have hk := kind_eq_of_render h
      cases k with
      | arr ys =>
          cases ys with
          | nil =>
              simp only [render, List.cons_append, List.nil_append, List.cons.injEq, true_and,
                List.append_assoc] at h
              exact absurd h (render_ne_bracket x _ _)
          | cons y ys =>
              simp only [render, List.cons_append, List.append_assoc, List.cons.injEq,
                true_and] at h
              obtain ⟨rfl, hrest⟩ :=
                render_cancel x y (renderItems_stops _ _) (renderItems_stops _ _) h
              obtain ⟨rfl, hrr⟩ := renderItems_cancel xs ys hrest
              exact ⟨rfl, hrr⟩
      | bool b => cases b <;> simp [kind] at hk
      | _ => simp [kind] at hk
  | obj [], k, r, r', _, _, h => by
      have hk := kind_eq_of_render h
      cases k with
      | obj gs =>
          rcases gs with _ | ⟨⟨k', v'⟩, gs⟩
          · exact ⟨rfl, by simpa [render] using h⟩
          · simp [render, renderStr] at h
      | bool b => cases b <;> simp [kind] at hk
      | _ => simp [kind] at hk
  | obj ((a, v) :: fs), k, r, r', _, _, h => by
      have hk := kind_eq_of_render h
      cases k with
      | obj gs =>
          rcases gs with _ | ⟨⟨a', v'⟩, gs⟩
          · simp [render, renderStr] at h
          · simp only [render, List.cons_append, List.append_assoc, List.cons.injEq,
              true_and] at h
            obtain ⟨rfl, hrest⟩ := renderStr_cancel h
            simp only [List.cons.injEq, true_and] at hrest
            obtain ⟨rfl, hfs⟩ :=
              render_cancel v v' (renderFields_stops _ _) (renderFields_stops _ _) hrest
            obtain ⟨rfl, hrr⟩ := renderFields_cancel fs gs hfs
            exact ⟨rfl, hrr⟩
      | bool b => cases b <;> simp [kind] at hk
      | _ => simp [kind] at hk

theorem renderItems_cancel : ∀ (xs ys : List Json) {r r' : List Char},
    renderItems xs ++ r = renderItems ys ++ r' → xs = ys ∧ r = r'
  | [], [], r, r', h => ⟨rfl, by simpa [renderItems] using h⟩
  | [], y :: ys, r, r', h => by simp [renderItems] at h
  | x :: xs, [], r, r', h => by simp [renderItems] at h
  | x :: xs, y :: ys, r, r', h => by
      simp only [renderItems, List.cons_append, List.append_assoc, List.cons.injEq,
        true_and] at h
      obtain ⟨rfl, hrest⟩ :=
        render_cancel x y (renderItems_stops _ _) (renderItems_stops _ _) h
      obtain ⟨rfl, hrr⟩ := renderItems_cancel xs ys hrest
      exact ⟨rfl, hrr⟩

theorem renderFields_cancel : ∀ (fs gs : List (String × Json)) {r r' : List Char},
    renderFields fs ++ r = renderFields gs ++ r' → fs = gs ∧ r = r'
  | [], [], r, r', h => ⟨rfl, by simpa [renderFields] using h⟩
  | [], (a, v) :: gs, r, r', h => by simp [renderFields] at h
  | (a, v) :: fs, [], r, r', h => by simp [renderFields] at h
  | (a, v) :: fs, (a', v') :: gs, r, r', h => by
      simp only [renderFields, List.cons_append, List.append_assoc, List.cons.injEq,
        true_and] at h
      obtain ⟨rfl, hrest⟩ := renderStr_cancel h
      simp only [List.cons.injEq, true_and] at hrest
      obtain ⟨rfl, hfs⟩ :=
        render_cancel v v' (renderFields_stops _ _) (renderFields_stops _ _) hrest
      obtain ⟨rfl, hrr⟩ := renderFields_cancel fs gs hfs
      exact ⟨rfl, hrr⟩

end

theorem render_injective : Function.Injective render := by
  intro j k h
  refine (render_cancel j k Stops.nil Stops.nil ?_).1
  rw [h]

/-! ### The order of the keys -/

mutual

/-- The value with the entries of every dict in key order, as `sort_keys` writes them. -/
def sortKeys : Json → Json
  | null => null
  | bool b => bool b
  | int z => int z
  | str s => str s
  | arr xs => arr (sortKeysItems xs)
  | obj fs => obj ((sortKeysFields fs).insertionSort fun a b => a.1 ≤ b.1)

/-- The items of a list, each with its keys in order. -/
def sortKeysItems : List Json → List Json
  | [] => []
  | x :: xs => sortKeys x :: sortKeysItems xs

/-- The entries of a dict, each value with its keys in order. -/
def sortKeysFields : List (String × Json) → List (String × Json)
  | [] => []
  | (k, v) :: fs => (k, sortKeys v) :: sortKeysFields fs

end

attribute [grind =] sortKeys

theorem sortKeysItems_eq_map (xs : List Json) : sortKeysItems xs = xs.map sortKeys := by
  induction xs with
  | nil => rfl
  | cons x xs ih => rw [sortKeysItems, ih, List.map_cons]

theorem sortKeysFields_eq_map (fs : List (String × Json)) :
    sortKeysFields fs = fs.map fun f => (f.1, sortKeys f.2) := by
  induction fs with
  | nil => rfl
  | cons f fs ih => rw [sortKeysFields, ih, List.map_cons]

@[simp] theorem sortKeys_arr (xs : List Json) : sortKeys (arr xs) = arr (xs.map sortKeys) := by
  rw [sortKeys, sortKeysItems_eq_map]

theorem sortKeys_obj (fs : List (String × Json)) :
    sortKeys (obj fs) =
      obj ((fs.map fun f => (f.1, sortKeys f.2)).insertionSort fun a b => a.1 ≤ b.1) := by
  rw [sortKeys, sortKeysFields_eq_map]

@[simp] theorem sortKeys_bool (b : Bool) : sortKeys (bool b) = bool b := rfl

@[simp] theorem sortKeys_int (z : ℤ) : sortKeys (int z) = int z := rfl

@[simp] theorem sortKeys_str (s : String) : sortKeys (str s) = str s := rfl

theorem eq_of_perm_of_keys {α : Type*} : ∀ {l l' : List (String × α)}, l.Perm l' →
    l.map Prod.fst = l'.map Prod.fst → (l.map Prod.fst).Nodup → l = l' := by
  intro l
  induction l with
  | nil => intro l' hp _ _; exact (List.nil_perm.1 hp).symm
  | cons e t ih =>
      intro l' hp hk hn
      cases l' with
      | nil => exact absurd hp.length_eq (by simp)
      | cons e' t' =>
          simp only [List.map_cons, List.cons.injEq] at hk
          rw [List.map_cons, List.nodup_cons] at hn
          have hmem : e ∈ e' :: t' := hp.subset (List.mem_cons_self ..)
          rcases List.mem_cons.1 hmem with rfl | hmem
          · rw [ih (List.Perm.cons_inv hp) hk.2 hn.2]
          · -- a second entry under the key of `e`
            refine absurd ?_ hn.1
            rw [hk.2]
            exact List.mem_map.2 ⟨e, hmem, rfl⟩

/-- **Dicts written with the same keys agree field by field** when they agree once sorted. -/
theorem sortKeys_obj_inj {fs gs : List (String × Json)} (hk : fs.map Prod.fst = gs.map Prod.fst)
    (hn : (fs.map Prod.fst).Nodup) (h : sortKeys (obj fs) = sortKeys (obj gs)) :
    fs.map (fun f => sortKeys f.2) = gs.map fun f => sortKeys f.2 := by
  rw [sortKeys_obj, sortKeys_obj, obj.injEq] at h
  have hperm : (fs.map fun f => (f.1, sortKeys f.2)).Perm
      (gs.map fun f => (f.1, sortKeys f.2)) := by
    refine (List.perm_insertionSort (fun a b => a.1 ≤ b.1) _).symm.trans ?_
    rw [h]
    exact List.perm_insertionSort _ _
  have heq := eq_of_perm_of_keys hperm
    (by simpa only [List.map_map, Function.comp_def] using hk)
    (by simpa only [List.map_map, Function.comp_def] using hn)
  have hsnd := congrArg (List.map Prod.snd) heq
  simpa only [List.map_map, Function.comp_def] using hsnd

/-! ### Dicts that hold each key once -/

mutual

/-- Every dict in the value holds each key once. -/
def Keyed : Json → Prop
  | arr xs => KeyedItems xs
  | obj fs => (fs.map Prod.fst).Nodup ∧ KeyedFields fs
  | _ => True

def KeyedItems : List Json → Prop
  | [] => True
  | x :: xs => Keyed x ∧ KeyedItems xs

def KeyedFields : List (String × Json) → Prop
  | [] => True
  | (_, v) :: fs => Keyed v ∧ KeyedFields fs

end

@[simp] theorem keyed_str (s : String) : Keyed (str s) := trivial

@[simp] theorem keyed_int (z : ℤ) : Keyed (int z) := trivial

@[simp] theorem keyed_bool (b : Bool) : Keyed (bool b) := trivial

@[simp] theorem keyed_obj (fs : List (String × Json)) :
    Keyed (obj fs) ↔ (fs.map Prod.fst).Nodup ∧ KeyedFields fs := Iff.rfl

@[simp] theorem keyedFields_nil : KeyedFields [] := trivial

@[simp] theorem keyedFields_cons (k : String) (v : Json) (fs : List (String × Json)) :
    KeyedFields ((k, v) :: fs) ↔ Keyed v ∧ KeyedFields fs := Iff.rfl

theorem keyedItems_iff (xs : List Json) : KeyedItems xs ↔ ∀ x ∈ xs, Keyed x := by
  induction xs with
  | nil => simp [KeyedItems]
  | cons x xs ih => simp [KeyedItems, ih]

theorem keyedFields_iff (fs : List (String × Json)) : KeyedFields fs ↔ ∀ f ∈ fs, Keyed f.2 := by
  induction fs with
  | nil => simp [KeyedFields]
  | cons f fs ih =>
      obtain ⟨k, v⟩ := f
      simp [KeyedFields, ih]

mutual

theorem keyed_sortKeys : ∀ {j : Json}, Keyed j → Keyed (sortKeys j)
  | null, _ => trivial
  | bool _, _ => trivial
  | int _, _ => trivial
  | str _, _ => trivial
  | arr xs, h => keyedItems_sortKeys h
  | obj fs, h => by
      rw [sortKeys, Keyed]
      have hperm := List.perm_insertionSort (fun a b : String × Json => a.1 ≤ b.1)
        (sortKeysFields fs)
      refine ⟨(hperm.map Prod.fst).nodup_iff.2 ?_, ?_⟩
      · rw [sortKeysFields_eq_map, List.map_map]
        exact h.1
      · rw [keyedFields_iff]
        intro f hf
        exact (keyedFields_iff _).1 (keyedFields_sortKeys h.2) f (hperm.mem_iff.1 hf)

theorem keyedItems_sortKeys : ∀ {xs : List Json}, KeyedItems xs → KeyedItems (sortKeysItems xs)
  | [], _ => trivial
  | _ :: _, h => ⟨keyed_sortKeys h.1, keyedItems_sortKeys h.2⟩

theorem keyedFields_sortKeys : ∀ {fs : List (String × Json)}, KeyedFields fs →
    KeyedFields (sortKeysFields fs)
  | [], _ => trivial
  | (_, _) :: _, h => ⟨keyed_sortKeys h.1, keyedFields_sortKeys h.2⟩

end

def ofDict {α : Type*} (f : α → Json) (d : PyDict α) : Json := obj (d.map f).entries

theorem sortKeys_ofDict {α : Type*} (f : α → Json) (d : PyDict α) :
    sortKeys (ofDict f d) = ofDict (fun a => sortKeys (f a)) d := by
  rw [ofDict, sortKeys_obj, ofDict, obj.injEq]
  simp only [PyDict.map_entries, List.map_map, Function.comp_def]
  refine List.Pairwise.insertionSort_eq ?_
  rw [List.pairwise_map]
  exact d.sorted.imp fun hlt => le_of_lt hlt

theorem ofDict_injective {α : Type*} {f : α → Json} (hf : Function.Injective f) :
    Function.Injective (ofDict f) := by
  intro d d' h
  rw [ofDict, ofDict, obj.injEq] at h
  exact PyDict.map_injective hf (PyDict.ext_entries h)

/-- A value that may be absent, written as `null`. -/
def ofOption {α : Type*} (f : α → Json) : Option α → Json
  | none => null
  | some a => f a

theorem sortKeys_ofOption {α : Type*} (f : α → Json) (o : Option α) :
    sortKeys (ofOption f o) = ofOption (fun a => sortKeys (f a)) o := by
  cases o <;> rfl

theorem ofOption_injective {α : Type*} {f : α → Json} (hf : Function.Injective f)
    (hnull : ∀ a, f a ≠ null) : Function.Injective (ofOption f) := by
  intro o o' h
  cases o with
  | none =>
      cases o' with
      | none => rfl
      | some b => exact absurd h.symm (hnull b)
  | some a =>
      cases o' with
      | none => exact absurd h (hnull a)
      | some b => rw [hf h]

theorem str_injective : Function.Injective str := fun _ _ h => str.inj h

theorem int_injective : Function.Injective int := fun _ _ h => int.inj h

/-- The string `json.dumps(j, sort_keys=True)`. -/
def dumps (j : Json) : String := String.ofList (render (sortKeys j))

/-- **The text determines the value**, up to the order of the keys. -/
theorem dumps_injective {j k : Json} (h : dumps j = dumps k) : sortKeys j = sortKeys k := by
  refine render_injective ?_
  have hl := congrArg String.toList h
  simpa only [dumps, String.toList_ofList] using hl

end Json
