/-
**Reading JSON text.**

The function `json.loads`, on the values of `Lib/Json`: white space between tokens, escapes with
their surrogate pairs, and dicts in which a later entry of a key replaces an earlier one.  A number
with a fraction or an exponent denotes a float, and a surrogate without its partner a string with no
Unicode text; the values hold neither, and the reader refuses both.

Main definitions:

* `Json.readChar`, `Json.readString` — a character and the rest of a string literal;
* `Json.readToken` — `null`, `true`, `false` and integers;
* `Json.readValue` — a value, under a bound on the number of its parts;
* `Json.loads` — the whole text;
* `Json.normal` — a value up to the order of its keys.

Main results:

* `Json.readChar_escapeChar`, `Json.readString_escape` — what is escaped is read back;
* `Json.readValue_render` — **a rendered value is read back**, whatever follows it;
* `Json.loads_dumps` — **what is dumped is loaded**, with the keys in order;
* `Json.normal_sortKeys` — a value whose dicts hold each key once is normal with its keys in order.
-/

import CobolJava.Lib.Json

set_option autoImplicit false

namespace Json

/-! ### Characters and strings -/

/-- The value of a hexadecimal digit, of either case. -/
def hexDigit? (c : Char) : Option ℕ :=
  let n := c.toNat
  if 48 ≤ n ∧ n ≤ 57 then some (n - 48)
  else if 97 ≤ n ∧ n ≤ 102 then some (n - 87)
  else if 65 ≤ n ∧ n ≤ 70 then some (n - 55)
  else none

/-- The code unit at the head of a text, as four hexadecimal digits. -/
def readUnit : List Char → Option (ℕ × List Char)
  | a :: b :: c :: d :: r => do
      let a ← hexDigit? a
      let b ← hexDigit? b
      let c ← hexDigit? c
      let d ← hexDigit? d
      return (a * 4096 + b * 256 + c * 16 + d, r)
  | _ => none

/-- The character of an escape `\u`, whose first code unit is `u`. -/
def readUnicode (u : ℕ) (r : List Char) : Option (Char × List Char) :=
  if 55296 ≤ u ∧ u < 56320 then
    match r with
    | '\\' :: 'u' :: r =>
        match readUnit r with
        | some (v, r) =>
            if 56320 ≤ v ∧ v < 57344 then
              some (Char.ofNat (65536 + (u - 55296) * 1024 + (v - 56320)), r)
            else none
        | none => none
    | _ => none
  else if 56320 ≤ u ∧ u < 57344 then none
  else some (Char.ofNat u, r)

/-- The character of an escape that is no code unit. -/
def simpleEscape : Char → Option Char
  | '"' => some '"'
  | '\\' => some '\\'
  | '/' => some '/'
  | 'b' => some (Char.ofNat 8)
  | 'f' => some (Char.ofNat 12)
  | 'n' => some '\n'
  | 'r' => some '\r'
  | 't' => some '\t'
  | _ => none

/-- One character of a string literal, with the rest of the text. -/
def readChar : List Char → Option (Char × List Char)
  | '\\' :: 'u' :: r => (readUnit r).bind fun p => readUnicode p.1 p.2
  | '\\' :: e :: r => (simpleEscape e).map fun c => (c, r)
  | '\\' :: [] => none
  | c :: r => if c.toNat < 32 then none else some (c, r)
  | [] => none

/-- The rest of a string literal, up to the closing quotation mark. -/
def readString : ℕ → List Char → Option (List Char × List Char)
  | 0, _ => none
  | _ + 1, '"' :: r => some ([], r)
  | n + 1, cs => do
      let (c, r) ← readChar cs
      let (s, r) ← readString n r
      return (c :: s, r)

attribute [grind =] readChar readString

theorem hexDigit?_digitChar : ∀ n < 16, hexDigit? (Nat.digitChar n) = some n := by decide

theorem readUnit_hex4 {n : ℕ} (h : n < 65536) (r : List Char) :
    readUnit (hex4 n ++ r) = some (n, r) := by
  simp only [hex4, List.cons_append, List.nil_append, readUnit,
    hexDigit?_digitChar _ (Nat.mod_lt _ (by decide : 0 < 16)), Option.bind_eq_bind, Option.bind_some]
  have hsum : n / 4096 % 16 * 4096 + n / 256 % 16 * 256 + n / 16 % 16 * 16 + n % 16 = n := by omega
  rw [hsum]
  rfl

theorem readChar_unit {n : ℕ} (hn : n < 65536) (hs : ¬(55296 ≤ n ∧ n < 57344)) (r : List Char) :
    readChar ('\\' :: 'u' :: (hex4 n ++ r)) = some (Char.ofNat n, r) := by
  rw [readChar, readUnit_hex4 hn, Option.bind_some]
  dsimp only
  unfold readUnicode
  rw [if_neg (by omega), if_neg (by omega)]

theorem readChar_pair {v : ℕ} (hv : v < 1048576) (r : List Char) :
    readChar ('\\' :: 'u' :: (hex4 (55296 + v / 1024) ++
      '\\' :: 'u' :: (hex4 (56320 + v % 1024) ++ r))) = some (Char.ofNat (65536 + v), r) := by
  rw [readChar, readUnit_hex4 (by omega), Option.bind_some, readUnicode, if_pos (by omega)]
  simp only [readUnit_hex4 (show 56320 + v % 1024 < 65536 by omega)]
  rw [if_pos (by omega)]
  have hv' : 65536 + (55296 + v / 1024 - 55296) * 1024 + (56320 + v % 1024 - 56320) =
      65536 + v := by omega
  rw [hv']

theorem readChar_of_ne {c : Char} (h : c ≠ '\\') (h32 : ¬c.toNat < 32) (r : List Char) :
    readChar (c :: r) = some (c, r) := by
  unfold readChar
  split <;> simp_all

/-- **An escaped character is read back.** -/
theorem readChar_escapeChar (c : Char) (r : List Char) :
    readChar (escapeChar c ++ r) = some (c, r) := by
  unfold escapeChar
  split_ifs with h1 h2 h3 h4 h5 h6 h7 h8 h9
  · subst h1; rfl
  · subst h2; rfl
  · subst h3; rfl
  · subst h4; rfl
  · subst h5; rfl
  · have hc : c = Char.ofNat 12 := by rw [← h6, Char.ofNat_toNat]
    subst hc; rfl
  · have hc : c = Char.ofNat 8 := by rw [← h7, Char.ofNat_toNat]
    subst hc; rfl
  · exact readChar_of_ne h2 (by omega) r
  · rw [List.cons_append, List.cons_append, readChar_unit h9 (toNat_not_surrogate c),
      Char.ofNat_toNat]
  · have hlt := toNat_lt c
    have hpair := readChar_pair (v := c.toNat - 65536) (by omega) r
    rw [show 65536 + (c.toNat - 65536) = c.toNat by omega, Char.ofNat_toNat] at hpair
    simpa using hpair

/-- **An escaped string is read back.** -/
theorem readString_escape (s r : List Char) (n : ℕ) (hn : s.length < n) :
    readString n (s.flatMap escapeChar ++ '"' :: r) = some (s, r) := by
  induction s generalizing n with
  | nil =>
      obtain ⟨n, rfl⟩ := Nat.exists_eq_succ_of_ne_zero (by omega : n ≠ 0)
      rfl
  | cons c s ih =>
      obtain ⟨n, rfl⟩ := Nat.exists_eq_succ_of_ne_zero (by omega : n ≠ 0)
      rw [List.flatMap_cons, List.append_assoc]
      have hchar := readChar_escapeChar c (s.flatMap escapeChar ++ '"' :: r)
      have hquote := escapeChar_ne_quote c (s.flatMap escapeChar ++ '"' :: r)
      generalize escapeChar c ++ (s.flatMap escapeChar ++ '"' :: r) = cs at hchar hquote
      rw [readString]
      · rw [hchar]
        simp only [Option.bind_eq_bind, Option.bind_some]
        rw [ih n (by simpa using hn)]
        rfl
      · intro r' hr'
        exact hquote r' hr'

theorem length_escapeChar_pos (c : Char) : 0 < (escapeChar c).length := by
  unfold escapeChar
  split_ifs <;> simp

theorem length_le_escape (s : List Char) : s.length ≤ (s.flatMap escapeChar).length := by
  induction s with
  | nil => simp
  | cons c s ih =>
      have := length_escapeChar_pos c
      rw [List.flatMap_cons, List.length_append, List.length_cons]
      omega

/-! ### Bare tokens -/

/-- A character of a bare token: the text of `null`, of a boolean or of a number. -/
def isTokenChar (c : Char) : Bool := c.isAlphanum || c == '-' || c == '+' || c == '.'

/-- The natural number some digits denote; no digit is zero unless it stands alone. -/
def readNat (ds : List Char) : Option ℕ :=
  if ds ≠ [] ∧ ds.all Char.isDigit ∧ (ds.head? = some '0' → ds.length = 1) then
    some (Nat.ofDigitChars 10 ds 0)
  else none

def readToken (token : List Char) : Option Json :=
  if token = ['n', 'u', 'l', 'l'] then some .null
  else if token = ['t', 'r', 'u', 'e'] then some (.bool true)
  else if token = ['f', 'a', 'l', 's', 'e'] then some (.bool false)
  else
    match token with
    | '-' :: ds => (readNat ds).map fun n => .int (-n)
    | ds => (readNat ds).map fun n => .int n

theorem isTokenChar_of_isDigit {c : Char} (h : c.isDigit = true) : isTokenChar c = true := by
  simp [isTokenChar, Char.isAlphanum, h]

theorem digitChar_ne_zero : ∀ n < 10, 0 < n → Nat.digitChar n ≠ '0' := by decide

theorem toDigits_head_ne_zero {n : ℕ} (h : 0 < n) : (Nat.toDigits 10 n).head? ≠ some '0' := by
  induction n using Nat.strongRecOn with
  | ind n ih =>
      rcases Nat.lt_or_ge n 10 with hlt | hge
      · rw [Nat.toDigits_of_lt_base hlt]
        simpa using digitChar_ne_zero n hlt h
      · rw [Nat.toDigits_of_base_le (by decide) hge, List.head?_append_of_ne_nil _ Nat.toDigits_ne_nil]
        exact ih (n / 10) (by omega) (by omega)

theorem readNat_toDigits (n : ℕ) : readNat (Nat.toDigits 10 n) = some n := by
  rw [readNat, if_pos, Nat.ofDigitChars_ten_toDigits]
  refine ⟨Nat.toDigits_ne_nil, ?_, fun hzero => ?_⟩
  · rw [List.all_eq_true]
    exact fun c hc => Nat.isDigit_of_mem_toDigits (by decide) (by decide) hc
  · rcases Nat.eq_zero_or_pos n with rfl | hpos
    · rfl
    · exact absurd hzero (toDigits_head_ne_zero hpos)

theorem readToken_toDigits (n : ℕ) : readToken (Nat.toDigits 10 n) = some (.int n) := by
  have hword : ∀ c cs, c.isDigit = false → Nat.toDigits 10 n ≠ c :: cs := by
    intro c cs hc h
    obtain ⟨d, hd, hdig⟩ := toDigits_head n []
    rw [List.append_nil, h] at hd
    obtain rfl : c = d := by simpa using hd
    rw [hc] at hdig
    cases hdig
  unfold readToken
  rw [if_neg (hword _ _ (by decide)), if_neg (hword _ _ (by decide)),
    if_neg (hword _ _ (by decide))]
  split
  · next ds hds => exact absurd hds (hword _ _ (by decide))
  · rw [readNat_toDigits]
    rfl

theorem readToken_renderInt (z : ℤ) : readToken (renderInt z) = some (.int z) := by
  cases z with
  | ofNat n => exact readToken_toDigits n
  | negSucc n =>
      rw [renderInt, readToken, if_neg (by simp), if_neg (by simp), if_neg (by simp)]
      rw [readNat_toDigits]
      rfl

/-! ### Values -/

/-- The text after leading white space. -/
def skipSpace (cs : List Char) : List Char :=
  cs.dropWhile fun c => c == ' ' || c == '\t' || c == '\n' || c == '\r'

/-- A dict with one entry more: the value of a key that is held is replaced. -/
def insertEntry (fs : List (String × Json)) (k : String) (v : Json) : List (String × Json) :=
  if k ∈ fs.map Prod.fst then fs.map fun e => if e.1 = k then (k, v) else e
  else fs ++ [(k, v)]

/-- The dict of some entries, in the order they are read. -/
def dictOf (entries : List (String × Json)) : List (String × Json) :=
  entries.foldl (fun fs e => insertEntry fs e.1 e.2) []

mutual

/-- A value at the head of a text, with the rest of the text; at most `n` parts are read. -/
def readValue : ℕ → List Char → Option (Json × List Char)
  | 0, _ => none
  | _ + 1, '"' :: r => do
      let (s, r) ← readString (r.length + 1) r
      return (.str (String.ofList s), r)
  | n + 1, '[' :: r =>
      match skipSpace r with
      | ']' :: r => some (.arr [], r)
      | r => do
          let (x, r) ← readValue n r
          let (xs, r) ← readItems n (skipSpace r)
          return (.arr (x :: xs), r)
  | n + 1, '{' :: r =>
      match skipSpace r with
      | '}' :: r => some (.obj [], r)
      | r => do
          let (e, r) ← readEntry n r
          let (es, r) ← readFields n (skipSpace r)
          return (.obj (dictOf (e :: es)), r)
  | _ + 1, cs => do
      let j ← readToken (cs.takeWhile isTokenChar)
      return (j, cs.dropWhile isTokenChar)

/-- The items of a list after the first, up to the closing bracket. -/
def readItems : ℕ → List Char → Option (List Json × List Char)
  | 0, _ => none
  | _ + 1, ']' :: r => some ([], r)
  | n + 1, ',' :: r => do
      let (x, r) ← readValue n (skipSpace r)
      let (xs, r) ← readItems n (skipSpace r)
      return (x :: xs, r)
  | _ + 1, _ => none

def readEntry : ℕ → List Char → Option ((String × Json) × List Char)
  | 0, _ => none
  | n + 1, '"' :: r => do
      let (k, r) ← readString (r.length + 1) r
      match skipSpace r with
      | ':' :: r => do
          let (v, r) ← readValue n (skipSpace r)
          return ((String.ofList k, v), r)
      | _ => none
  | _ + 1, _ => none

/-- The entries of a dict after the first, up to the closing brace. -/
def readFields : ℕ → List Char → Option (List (String × Json) × List Char)
  | 0, _ => none
  | _ + 1, '}' :: r => some ([], r)
  | n + 1, ',' :: r => do
      let (e, r) ← readEntry n (skipSpace r)
      let (es, r) ← readFields n (skipSpace r)
      return (e :: es, r)
  | _ + 1, _ => none

end

attribute [grind =] readValue

/-- The call `json.loads(text)`; `none` is a `ValueError`. -/
def loads (text : String) : Option Json :=
  match readValue (text.toList.length + 1) (skipSpace text.toList) with
  | some (j, r) => if skipSpace r = [] then some j else none
  | none => none

/-! ### Reading what is rendered -/

theorem insertEntry_of_notMem {fs : List (String × Json)} {k : String}
    (h : k ∉ fs.map Prod.fst) (v : Json) : insertEntry fs k v = fs ++ [(k, v)] := by
  rw [insertEntry, if_neg h]

theorem foldl_insertEntry (acc fs : List (String × Json))
    (h : ((acc ++ fs).map Prod.fst).Nodup) :
    fs.foldl (fun fs e => insertEntry fs e.1 e.2) acc = acc ++ fs := by
  induction fs generalizing acc with
  | nil => simp
  | cons f fs ih =>
      have hf : f.1 ∉ acc.map Prod.fst := by
        intro hmem
        rw [List.map_append, List.nodup_append] at h
        exact h.2.2 f.1 hmem f.1 (by simp) rfl
      rw [List.foldl_cons, insertEntry_of_notMem hf, ih _ (by simpa using h)]
      simp

theorem dictOf_of_nodup {fs : List (String × Json)} (h : (fs.map Prod.fst).Nodup) :
    dictOf fs = fs :=
  foldl_insertEntry [] fs h

mutual

/-- The parts of a value, as the reader counts them. -/
def size : Json → ℕ
  | arr (x :: xs) => 1 + size x + sizeItems xs
  | obj ((_, v) :: fs) => 2 + size v + sizeFields fs
  | _ => 1

def sizeItems : List Json → ℕ
  | [] => 1
  | x :: xs => 1 + size x + sizeItems xs

def sizeFields : List (String × Json) → ℕ
  | [] => 1
  | (_, v) :: fs => 2 + size v + sizeFields fs

end

theorem length_renderInt_pos (z : ℤ) : 0 < (renderInt z).length := by
  cases z with
  | ofNat n => exact Nat.length_toDigits_pos
  | negSucc n => exact Nat.succ_pos _

theorem length_renderStr (s : String) : 2 + s.length ≤ (renderStr s).length := by
  have := length_le_escape s.toList
  rw [String.length_toList] at this
  simp only [renderStr, List.length_cons, List.length_append, List.length_nil]
  omega

mutual

theorem size_le_length : ∀ j : Json, size j ≤ (render j).length
  | null => by simp [size, render]
  | bool true => by simp [size, render]
  | bool false => by simp [size, render]
  | int z => length_renderInt_pos z
  | str s => by
      have := length_renderStr s
      simp only [size, render]
      omega
  | arr [] => by simp [size, render]
  | arr (x :: xs) => by
      have hx := size_le_length x
      have hxs := sizeItems_le_length xs
      simp only [size, render, List.length_cons, List.length_append]
      omega
  | obj [] => by simp [size, render]
  | obj ((k, v) :: fs) => by
      have hv := size_le_length v
      have hfs := sizeFields_le_length fs
      have hk := length_renderStr k
      simp only [size, render, List.length_cons, List.length_append]
      omega

theorem sizeItems_le_length : ∀ xs : List Json, sizeItems xs ≤ (renderItems xs).length
  | [] => by simp [sizeItems, renderItems]
  | x :: xs => by
      have hx := size_le_length x
      have hxs := sizeItems_le_length xs
      simp only [sizeItems, renderItems, List.length_cons, List.length_append]
      omega

theorem sizeFields_le_length : ∀ fs : List (String × Json),
    sizeFields fs ≤ (renderFields fs).length
  | [] => by simp [sizeFields, renderFields]
  | (k, v) :: fs => by
      have hv := size_le_length v
      have hfs := sizeFields_le_length fs
      have hk := length_renderStr k
      simp only [sizeFields, renderFields, List.length_cons, List.length_append]
      omega

end

/-- The text cannot continue a bare token. -/
def TokenStops (r : List Char) : Prop := ∀ c, r.head? = some c → isTokenChar c = false

theorem TokenStops.nil : TokenStops [] := by simp [TokenStops]

theorem TokenStops.cons {c : Char} (r : List Char) (h : isTokenChar c = false) :
    TokenStops (c :: r) := by
  simpa [TokenStops] using h

theorem renderItems_tokenStops (xs : List Json) (r : List Char) :
    TokenStops (renderItems xs ++ r) := by
  cases xs <;> exact .cons _ (by decide)

theorem renderFields_tokenStops (fs : List (String × Json)) (r : List Char) :
    TokenStops (renderFields fs ++ r) := by
  rcases fs with _ | ⟨⟨k, v⟩, fs⟩ <;> exact .cons _ (by decide)

theorem takeWhile_token {token r : List Char} (ht : ∀ c ∈ token, isTokenChar c = true)
    (hr : TokenStops r) :
    (token ++ r).takeWhile isTokenChar = token ∧ (token ++ r).dropWhile isTokenChar = r := by
  rw [List.takeWhile_append_of_pos ht, List.dropWhile_append_of_pos ht]
  cases r with
  | nil => simp
  | cons c r => simp [hr c rfl]

theorem isTokenChar_renderInt (z : ℤ) : ∀ c ∈ renderInt z, isTokenChar c = true := by
  have hdigits : ∀ n, ∀ c ∈ Nat.toDigits 10 n, isTokenChar c = true := fun n c hc =>
    isTokenChar_of_isDigit (Nat.isDigit_of_mem_toDigits (by decide) (by decide) hc)
  cases z with
  | ofNat n => exact hdigits n
  | negSucc n =>
      intro c hc
      rcases List.mem_cons.1 hc with rfl | hc
      · rfl
      · exact hdigits _ c hc

theorem readValue_token {n : ℕ} {token r : List Char} {j : Json} (hne : token ≠ [])
    (ht : ∀ c ∈ token, isTokenChar c = true) (hr : TokenStops r) (hj : readToken token = some j) :
    readValue (n + 1) (token ++ r) = some (j, r) := by
  obtain ⟨htake, hdrop⟩ := takeWhile_token ht hr
  have hhead : ∀ c cs, token ++ r = c :: cs → isTokenChar c = true := by
    intro c cs h
    cases token with
    | nil => exact absurd rfl hne
    | cons d token =>
        obtain rfl : d = c := by simpa using (List.cons.inj h).1
        exact ht d (List.mem_cons_self ..)
  rw [readValue, htake, hdrop, hj]
  · rfl
  · intro cs h; exact absurd (hhead _ _ h) (by decide)
  · intro cs h; exact absurd (hhead _ _ h) (by decide)
  · intro cs h; exact absurd (hhead _ _ h) (by decide)

/-- A rendered value starts with no white space. -/
theorem skipSpace_render (j : Json) (r : List Char) :
    skipSpace (render j ++ r) = render j ++ r := by
  have hcons : ∀ c cs, (c == ' ' || c == '\t' || c == '\n' || c == '\r') = false →
      skipSpace (c :: cs) = c :: cs := by
    intro c cs hc
    rw [skipSpace, List.dropWhile_cons, hc]
    rfl
  cases j with
  | null => exact hcons _ _ (by decide)
  | bool b => cases b <;> exact hcons _ _ (by decide)
  | str s => exact hcons _ _ (by decide)
  | arr xs => cases xs <;> exact hcons _ _ (by decide)
  | obj fs => rcases fs with _ | ⟨⟨k, v⟩, fs⟩ <;> exact hcons _ _ (by decide)
  | int z =>
      cases z with
      | negSucc n => exact hcons _ _ (by decide)
      | ofNat n =>
          obtain ⟨c, hc, hdig⟩ := toDigits_head n r
          cases htext : Nat.toDigits 10 n ++ r with
          | nil => rw [htext] at hc; cases hc
          | cons d cs =>
              rw [htext] at hc
              obtain rfl : d = c := by simpa using hc
              rw [show render (int (Int.ofNat n)) ++ r = d :: cs from htext]
              refine hcons d cs ?_
              by_contra hspace
              simp only [Bool.not_eq_false, Bool.or_eq_true, beq_iff_eq] at hspace
              rcases hspace with ((rfl | rfl) | rfl) | rfl <;> exact absurd hdig (by decide)

theorem skipSpace_cons_render (j : Json) (r : List Char) :
    skipSpace (' ' :: (render j ++ r)) = render j ++ r := by
  rw [skipSpace, List.dropWhile_cons]
  exact skipSpace_render j r

theorem skipSpace_renderItems (xs : List Json) (r : List Char) :
    skipSpace (renderItems xs ++ r) = renderItems xs ++ r := by
  cases xs <;> rfl

theorem skipSpace_renderFields (fs : List (String × Json)) (r : List Char) :
    skipSpace (renderFields fs ++ r) = renderFields fs ++ r := by
  rcases fs with _ | ⟨⟨k, v⟩, fs⟩ <;> rfl

theorem readString_renderStr (s : String) (r : List Char) :
    readString ((s.toList.flatMap escapeChar ++ '"' :: r).length + 1)
      (s.toList.flatMap escapeChar ++ '"' :: r) = some (s.toList, r) := by
  refine readString_escape _ _ _ ?_
  have := length_le_escape s.toList
  simp only [List.length_append, List.length_cons]
  omega

theorem readValue_bracket {n : ℕ} {x : Json} {r : List Char} :
    readValue (n + 1) ('[' :: (render x ++ r)) = do
      let (y, r) ← readValue n (render x ++ r)
      let (ys, r) ← readItems n (skipSpace r)
      return (.arr (y :: ys), r) := by
  rw [readValue, skipSpace_render]
  split
  · next s hs => exact absurd hs (render_ne_bracket x r s)
  · rfl

theorem readValue_brace {n : ℕ} {k : String} {cs : List Char} :
    readValue (n + 1) ('{' :: (renderStr k ++ cs)) = do
      let (e, r) ← readEntry n (renderStr k ++ cs)
      let (es, r) ← readFields n (skipSpace r)
      return (.obj (dictOf (e :: es)), r) := by
  have hskip : skipSpace (renderStr k ++ cs) = renderStr k ++ cs := rfl
  rw [readValue, hskip]
  split
  · next s hs => cases hs
  · rfl

mutual

/-- **A rendered value is read back**, as long as what follows cannot continue a bare token. -/
theorem readValue_render : ∀ (j : Json) (n : ℕ) (r : List Char), Keyed j → size j ≤ n →
    TokenStops r → readValue n (render j ++ r) = some (j, r)
  | null, n + 1, r, _, _, hr =>
      @readValue_token n ['n', 'u', 'l', 'l'] r .null (by simp) (List.all_eq_true.1 rfl)
        hr rfl
  | bool true, n + 1, r, _, _, hr =>
      @readValue_token n ['t', 'r', 'u', 'e'] r (.bool true) (by simp) (List.all_eq_true.1 rfl)
        hr rfl
  | bool false, n + 1, r, _, _, hr =>
      @readValue_token n ['f', 'a', 'l', 's', 'e'] r (.bool false) (by simp) (List.all_eq_true.1 rfl)
        hr rfl
  | int z, n + 1, r, _, _, hr =>
      readValue_token (List.ne_nil_of_length_pos (length_renderInt_pos z)) (isTokenChar_renderInt z)
        hr (readToken_renderInt z)
  | str s, n + 1, r, _, _, _ => by
      simp only [render, renderStr, List.cons_append, List.append_assoc, List.nil_append,
        readValue, readString_renderStr]
      simp
  | arr [], n + 1, r, _, _, _ => rfl
  | arr (x :: xs), n + 1, r, hk, hn, _ => by
      simp only [Keyed, KeyedItems] at hk
      simp only [size] at hn
      rw [render, List.cons_append, List.append_assoc, readValue_bracket,
        readValue_render x n _ hk.1 (by omega) (renderItems_tokenStops xs r)]
      simp only [Option.bind_eq_bind, Option.bind_some]
      rw [skipSpace_renderItems, readItems_render xs n r hk.2 (by omega)]
      rfl
  | obj [], n + 1, r, _, _, _ => rfl
  | obj ((k, v) :: fs), n + 2, r, hk, hn, _ => by
      simp only [Keyed, KeyedFields] at hk
      simp only [size] at hn
      have hentry := readEntry_render k v n (renderFields fs ++ r) hk.2.1 (by omega)
        (renderFields_tokenStops fs r)
      have hrest := readFields_render fs (n + 1) r hk.2.2 (by omega)
      simp only [render, List.cons_append, List.append_assoc] at hentry ⊢
      rw [readValue_brace, hentry]
      simp only [Option.bind_eq_bind, Option.bind_some, skipSpace_renderFields, hrest,
        dictOf_of_nodup hk.1]
      rfl
  | null, 0, r, _, hn, _ => by simp [size] at hn
  | bool b, 0, r, _, hn, _ => by simp [size] at hn
  | int z, 0, r, _, hn, _ => by simp [size] at hn
  | str s, 0, r, _, hn, _ => by simp [size] at hn
  | arr [], 0, r, _, hn, _ => by simp [size] at hn
  | arr (x :: xs), 0, r, _, hn, _ => by simp only [size] at hn; omega
  | obj [], 0, r, _, hn, _ => by simp [size] at hn
  | obj ((k, v) :: fs), 0, r, _, hn, _ => by simp only [size] at hn; omega
  | obj ((k, v) :: fs), 1, r, _, hn, _ => by simp only [size] at hn; omega

theorem readEntry_render : ∀ (k : String) (v : Json) (n : ℕ) (r : List Char), Keyed v →
    size v ≤ n → TokenStops r →
    readEntry (n + 1) (renderStr k ++ ':' :: ' ' :: (render v ++ r)) = some ((k, v), r)
  | k, v, n, r, hk, hn, hr => by
      have hv := readValue_render v n r hk hn hr
      have hcolon : ∀ cs, skipSpace (':' :: cs) = ':' :: cs := fun _ => rfl
      simp only [renderStr, List.cons_append, List.append_assoc, List.nil_append, readEntry,
        readString_renderStr, Option.bind_eq_bind, Option.bind_some, hcolon,
        skipSpace_cons_render, hv]
      simp

theorem readItems_render : ∀ (xs : List Json) (n : ℕ) (r : List Char), KeyedItems xs →
    sizeItems xs ≤ n → readItems n (renderItems xs ++ r) = some (xs, r)
  | [], n + 1, r, _, _ => rfl
  | x :: xs, n + 1, r, hk, hn => by
      simp only [KeyedItems] at hk
      simp only [sizeItems] at hn
      rw [renderItems, List.cons_append, List.cons_append, List.append_assoc, readItems,
        skipSpace_cons_render, readValue_render x n _ hk.1 (by omega) (renderItems_tokenStops xs r)]
      simp only [Option.bind_eq_bind, Option.bind_some]
      rw [skipSpace_renderItems, readItems_render xs n r hk.2 (by omega)]
      rfl
  | [], 0, r, _, hn => by simp [sizeItems] at hn
  | x :: xs, 0, r, _, hn => by simp only [sizeItems] at hn; omega

theorem readFields_render : ∀ (fs : List (String × Json)) (n : ℕ) (r : List Char),
    KeyedFields fs → sizeFields fs ≤ n → readFields n (renderFields fs ++ r) = some (fs, r)
  | [], n + 1, r, _, _ => rfl
  | (k, v) :: fs, n + 2, r, hk, hn => by
      simp only [KeyedFields] at hk
      simp only [sizeFields] at hn
      have hentry := readEntry_render k v n (renderFields fs ++ r) hk.1 (by omega)
        (renderFields_tokenStops fs r)
      have hrest := readFields_render fs (n + 1) r hk.2 (by omega)
      have hskip : ∀ cs, skipSpace (' ' :: (renderStr k ++ cs)) = renderStr k ++ cs := fun _ => rfl
      simp only [renderFields, List.cons_append, List.append_assoc, readFields, hskip, hentry,
        Option.bind_eq_bind, Option.bind_some, skipSpace_renderFields, hrest]
      rfl
  | [], 0, r, _, hn => by simp [sizeFields] at hn
  | (k, v) :: fs, 0, r, _, hn => by simp only [sizeFields] at hn; omega
  | (k, v) :: fs, 1, r, _, hn => by simp only [sizeFields] at hn; omega

end

/-- **What is rendered is loaded.** -/
theorem loads_render {j : Json} (h : Keyed j) : loads (String.ofList (render j)) = some j := by
  have hsize := size_le_length j
  have hskip := skipSpace_render j []
  have hread := readValue_render j ((render j).length + 1) [] h (by omega) .nil
  rw [List.append_nil] at hskip hread
  rw [loads, String.toList_ofList, hskip, hread]
  rfl

/-- **What is dumped is loaded**, with the keys in order. -/
theorem loads_dumps {j : Json} (h : Keyed j) : loads (dumps j) = some (sortKeys j) :=
  loads_render (keyed_sortKeys h)

/-! ### Values up to the order of the keys -/

mutual

/-- The value with every dict in key order, each key once. -/
def normal : Json → Json
  | null => null
  | bool b => bool b
  | int z => int z
  | str s => str s
  | arr xs => arr (normalItems xs)
  | obj fs => obj (PyDict.ofList (normalFields fs)).entries

def normalItems : List Json → List Json
  | [] => []
  | x :: xs => normal x :: normalItems xs

def normalFields : List (String × Json) → List (String × Json)
  | [] => []
  | (k, v) :: fs => (k, normal v) :: normalFields fs

end

theorem keys_nodup (d : PyDict Json) : (d.entries.map Prod.fst).Nodup := by
  rw [List.Nodup, List.pairwise_map]
  exact d.sorted.imp fun h => ne_of_lt h

mutual

theorem keyed_normal : ∀ j : Json, Keyed (normal j)
  | null => trivial
  | bool _ => trivial
  | int _ => trivial
  | str _ => trivial
  | arr xs => keyedItems_normal xs
  | obj fs => by
      refine ⟨keys_nodup _, (keyedFields_iff _).2 fun f hf => ?_⟩
      exact keyed_normalFields fs f (PyDict.mem_ofList hf)

theorem keyedItems_normal : ∀ xs : List Json, KeyedItems (normalItems xs)
  | [] => trivial
  | x :: xs => ⟨keyed_normal x, keyedItems_normal xs⟩

theorem keyed_normalFields : ∀ fs : List (String × Json), ∀ f ∈ normalFields fs, Keyed f.2
  | [], f, hf => by cases hf
  | (k, v) :: fs, f, hf => by
      rcases List.mem_cons.1 hf with rfl | hf
      · exact keyed_normal v
      · exact keyed_normalFields fs f hf

end

theorem sortKeys_entries (d : PyDict Json) (h : ∀ e ∈ d.entries, sortKeys e.2 = e.2) :
    sortKeys (obj d.entries) = obj d.entries := by
  have hmap : (d.entries.map fun f => (f.1, sortKeys f.2)) = d.entries :=
    (List.map_congr_left fun e he => by rw [h e he]; rfl).trans (List.map_id _)
  rw [sortKeys_obj, hmap, List.Pairwise.insertionSort_eq (d.sorted.imp fun hlt => le_of_lt hlt)]

mutual

theorem sortKeys_normal : ∀ j : Json, sortKeys (normal j) = normal j
  | null => rfl
  | bool _ => rfl
  | int _ => rfl
  | str _ => rfl
  | arr xs => by rw [normal, sortKeys, sortKeysItems_normal xs]
  | obj fs => by
      rw [normal]
      exact sortKeys_entries _ fun e he => sortKeys_normalFields fs e (PyDict.mem_ofList he)

theorem sortKeysItems_normal : ∀ xs : List Json, sortKeysItems (normalItems xs) = normalItems xs
  | [] => rfl
  | x :: xs => by rw [normalItems, sortKeysItems, sortKeys_normal x, sortKeysItems_normal xs]

theorem sortKeys_normalFields : ∀ fs : List (String × Json), ∀ f ∈ normalFields fs,
    sortKeys f.2 = f.2
  | [], f, hf => by cases hf
  | (k, v) :: fs, f, hf => by
      rcases List.mem_cons.1 hf with rfl | hf
      · exact sortKeys_normal v
      · exact sortKeys_normalFields fs f hf

end

theorem ofList_of_sorted {fs : List (String × Json)} (hk : (fs.map Prod.fst).Nodup)
    (hs : fs.Pairwise fun a b => a.1 ≤ b.1) : (PyDict.ofList fs).entries = fs := by
  have hlt : fs.Pairwise fun a b => a.1 < b.1 := by
    rw [List.Nodup, List.pairwise_map] at hk
    exact (hs.and hk).imp fun h => lt_of_le_of_ne h.1 h.2
  exact congrArg PyDict.entries (PyDict.ofList_entries ⟨fs, hlt⟩)

theorem normalFields_of_forall {fs : List (String × Json)} (h : ∀ f ∈ fs, normal f.2 = f.2) :
    normalFields fs = fs := by
  induction fs with
  | nil => rfl
  | cons f fs ih =>
      obtain ⟨k, v⟩ := f
      rw [normalFields, h (k, v) (List.mem_cons_self ..),
        ih fun f hf => h f (List.mem_cons_of_mem _ hf)]

mutual

theorem normal_sortKeys : ∀ {j : Json}, Keyed j → normal (sortKeys j) = sortKeys j
  | null, _ => rfl
  | bool _, _ => rfl
  | int _, _ => rfl
  | str _, _ => rfl
  | arr xs, h => by rw [sortKeys, normal, normalItems_sortKeys h]
  | obj fs, h => by
      have hperm := List.perm_insertionSort (fun a b : String × Json => a.1 ≤ b.1)
        (sortKeysFields fs)
      have hkeys : (((sortKeysFields fs).insertionSort fun a b => a.1 ≤ b.1).map
          Prod.fst).Nodup := by
        refine (hperm.map Prod.fst).nodup_iff.2 ?_
        rw [sortKeysFields_eq_map, List.map_map]
        exact h.1
      rw [sortKeys, normal, normalFields_of_forall, ofList_of_sorted hkeys
        (List.pairwise_insertionSort _ _)]
      intro f hf
      exact normal_sortKeysFields h.2 f (hperm.mem_iff.1 hf)

theorem normalItems_sortKeys : ∀ {xs : List Json}, KeyedItems xs →
    normalItems (sortKeysItems xs) = sortKeysItems xs
  | [], _ => rfl
  | _ :: _, h => by rw [sortKeysItems, normalItems, normal_sortKeys h.1, normalItems_sortKeys h.2]

theorem normal_sortKeysFields : ∀ {fs : List (String × Json)}, KeyedFields fs →
    ∀ f ∈ sortKeysFields fs, normal f.2 = f.2
  | [], _, f, hf => by cases hf
  | (k, v) :: fs, h, f, hf => by
      rcases List.mem_cons.1 hf with rfl | hf
      · exact normal_sortKeys h.1
      · exact normal_sortKeysFields h.2 f hf

end

end Json
