/-
**PICTURE texts.**

`_parse_pic` and `_parse_pic_details` of `engine/transformation/cobol_parser.py` size a PICTURE by the
shape of its text: a run of one symbol, one symbol with a count, or, failing these, a symbol with a
count at the beginning.  The part behind a `V` is searched for nines.

Main definitions:

* `Picture.parsePic`, `Picture.parsePicDetails` — the functions;
* `Picture.Spells` — a text as a sequence of symbols, each with or without a count;
* `Picture.CobolSize` — the category and the sizes that the COBOL rules give a PICTURE;
* `Picture.Sized` — a PICTURE is refused or sized by the rules.

Main results:

* `Picture.parsePic_ok`, `Picture.parsePic_error` — the shapes that are taken and refused;
* `Picture.nines_iff` — the digits behind the `V`;
* `Picture.parsePicDetails_sized_iff` — **when a PICTURE is refused or sized by the rules**.
-/

import CobolJava.Lib.DecimalText
import CobolJava.Lib.PyCase
import CobolJava.Lib.PyDecimal
import CobolJava.Lib.PyExc
import CobolJava.Transformation.DataHierarchy

set_option autoImplicit false

namespace CobolJava.Picture

open Py (map_eq_ok map_eq_error)
open Py.Chars DecimalText
open CobolJava.DataDescription (PicType)

/-! ### The functions -/

/-- What the functions raise: a `CobolParseError`, or the `ValueError` of `int`. -/
inductive PictureError
  | cobolParse (message : List Char)
  | value (text : List Char)

/-- Upper case of a character that the clause expression captures. -/
def upperChar (c : Char) : Char :=
  if c = 'ı' then 'I' else if c = 'ſ' then 'S' else c.toUpper

/-- `pic_str.strip().rstrip(".").upper()` -/
def normalize (pic : List Char) : List Char :=
  ((strip pic).rdropWhile (· == '.')).map upperChar

/-- `int(text)` for a text without white space and underscores. -/
def pyInt (text : List Char) : Except PictureError ℤ :=
  let (negative, digits) := Py.Decimal.splitSign text
  if digits ≠ [] ∧ digits.all Char.isDigit = true ∧ digits.length ≤ 4300 then
    .ok (if negative then -(number digits : ℤ) else number digits)
  else .error (.value text)

/-- The digits of a count `(n)` at the beginning of a text. -/
def countDigits : List Char → Option (List Char)
  | '(' :: rest =>
      let digits := rest.takeWhile Char.isDigit
      if digits ≠ [] ∧ (rest.dropWhile Char.isDigit).head? = some ')' then some digits else none
  | _ => none

/-- `_parse_pic` -/
def parsePic (text : List Char) : Except PictureError (PicType × ℤ) :=
  let pic := normalize text
  let refused := PictureError.cobolParse ("Unsupported PIC clause: ".toList ++ pic)
  if ['X', '('] <+: pic ∧ [')'] <:+ pic then
    (pyInt ((pic.drop 2).dropLast)).map fun length => (.alphanumeric, length)
  else if ['9', '('] <+: pic ∧ [')'] <:+ pic then
    (pyInt ((pic.drop 2).dropLast)).map fun length => (.numeric, length)
  else if pic = ['X'] then .ok (.alphanumeric, 1)
  else if pic = ['9'] then .ok (.numeric, 1)
  else if pic ≠ [] ∧ pic.all (· == 'X') = true then .ok (.alphanumeric, pic.length)
  else if pic ≠ [] ∧ pic.all (· == '9') = true then .ok (.numeric, pic.length)
  else if '(' ∈ pic then
    -- `([X9])\((\d+)\)` at the beginning; a `ValueError` of `int` is caught
    match pic with
    | 'X' :: rest =>
        match (countDigits rest).map pyInt with
        | some (.ok length) => .ok (.alphanumeric, length)
        | _ => .error refused
    | '9' :: rest =>
        match (countDigits rest).map pyInt with
        | some (.ok length) => .ok (.numeric, length)
        | _ => .error refused
    | _ => .error refused
  else .error refused

/-- The nines of a text, each with its count: the loop over `9(?:\((\d+)\))?`, the first `skip`
characters belonging to the last match. -/
def nines (skip : ℕ) : List Char → Except PictureError ℤ
  | [] => .ok 0
  | c :: rest =>
      match skip with
      | skip + 1 => nines skip rest
      | 0 =>
          if c = '9' then
            match countDigits rest with
            | some digits =>
                match pyInt digits with
                | .error e => .error e
                | .ok n => (nines (digits.length + 2) rest).map (n + ·)
            | none => (nines 0 rest).map (1 + ·)
          else nines 0 rest

/-- `_pic_is_signed` -/
def picIsSigned (text : List Char) : Bool :=
  ((strip text).map upperChar).head? = some 'S'

/-- A normalized text without its sign. -/
def unsignedText (pic : List Char) : List Char :=
  if pic.head? = some 'S' then pic.drop 1 else pic

/-- The text in front of the first `V`. -/
def beforeV (pic : List Char) : List Char := pic.takeWhile (· != 'V')

/-- The text behind the first `V`. -/
def behindV (pic : List Char) : List Char := (pic.dropWhile (· != 'V')).drop 1

/-- `_parse_pic_details` -/
def parsePicDetails (text : List Char) : Except PictureError (PicType × ℤ × ℤ) :=
  let pic := unsignedText (normalize text)
  if 'V' ∈ pic then
    match parsePic (beforeV pic) with
    | .error e => .error e
    | .ok (typ, leftLen) =>
        (nines 0 (behindV pic)).map fun rightLen => (typ, leftLen + rightLen, rightLen)
  else (parsePic pic).map fun (typ, length) => (typ, length, 0)

/-! ### The rules of COBOL -/

/-- A symbol of a PICTURE, alone or with a count. -/
inductive Item
  | one (symbol : Char)
  | times (symbol : Char) (digits : List Char)

def Item.symbol : Item → Char
  | one c => c
  | times c _ => c

def Item.count : Item → ℕ
  | one _ => 1
  | times _ digits => number digits

def Digits (digits : List Char) : Prop := digits ≠ [] ∧ ∀ c ∈ digits, c.isDigit = true

/-- A text as a sequence of symbols. -/
inductive Spells : List Char → List Item → Prop
  | nil : Spells [] []
  | one {c : Char} {rest : List Char} {items : List Item} : c ≠ '(' → c ≠ ')' →
      Spells rest items → Spells (c :: rest) (.one c :: items)
  | times {c : Char} {digits rest : List Char} {items : List Item} : c ≠ '(' → c ≠ ')' →
      Digits digits → Spells rest items →
      Spells (c :: '(' :: (digits ++ ')' :: rest)) (.times c digits :: items)

/-- The positions of a sequence of symbols. -/
def total (items : List Item) : ℕ := (items.map Item.count).sum

def Only (c : Char) (items : List Item) : Prop := ∀ i ∈ items, i.symbol = c

/-- What the rules of COBOL give a PICTURE whose sign is stripped: category, positions and decimal
places.  A sign and a decimal point belong to numeric pictures only. -/
inductive CobolSize (signed : Bool) : List Char → PicType × ℤ × ℤ → Prop
  | alphanumeric {text : List Char} {items : List Item} : signed = false → Spells text items →
      (∀ i ∈ items, i.symbol = 'X' ∨ i.symbol = 'A' ∨ i.symbol = '9') → ¬Only '9' items →
      ¬Only 'A' items → CobolSize signed text (.alphanumeric, total items, 0)
  | integer {text : List Char} {items : List Item} : Spells text items → items ≠ [] →
      Only '9' items → CobolSize signed text (.numeric, total items, 0)
  | decimal {left right : List Char} {whole fraction : List Item} : Spells left whole →
      Spells right fraction → whole ++ fraction ≠ [] → Only '9' whole → Only '9' fraction →
      CobolSize signed (left ++ 'V' :: right)
        (.numeric, (total whole + total fraction : ℕ), total fraction)

/-- A PICTURE is refused with a `CobolParseError` or sized by the rules. -/
def Sized (text : List Char) : Prop :=
  (∃ message, parsePicDetails text = .error (.cobolParse message)) ∨
    ∃ size, parsePicDetails text = .ok size ∧
      CobolSize (picIsSigned text) (unsignedText (normalize text)) size

/-! ### Captured texts -/

/-- The characters of `[A-Z0-9()V+\-]` without regard to case. -/
def isPictureChar (c : Char) : Bool :=
  c.isAlphanum || ['(', ')', '+', '-', '\u0130', '\u0131', '\u017f', '\u212a'].contains c

/-- A text that is not changed by `normalize`. -/
def Stable (s : List Char) : Prop := ∀ c ∈ s, Py.isSpace c = false ∧ c ≠ '.' ∧ upperChar c = c

attribute [grind =] nines

section Captured

theorem normalize_of_plain {s : List Char} (h : ∀ c ∈ s, Py.isSpace c = false ∧ c ≠ '.') :
    normalize s = s.map upperChar := by
  have hpoint : s.rdropWhile (· == '.') = s := by
    rw [List.rdropWhile_eq_self_iff]
    intro hne
    simpa using (h _ (List.getLast_mem hne)).2
  rw [normalize, strip_eq_self fun c hc => (h c hc).1, hpoint]

theorem normalize_of_stable {s : List Char} (h : Stable s) : normalize s = s := by
  rw [normalize_of_plain fun c hc => ⟨(h c hc).1, (h c hc).2.1⟩,
    List.map_congr_left fun c hc => (h c hc).2.2, List.map_id']

theorem upperChar_upperChar (c : Char) : upperChar (upperChar c) = upperChar c := by
  by_cases hi : c = 'ı'
  · rw [hi]
    decide
  · by_cases hs : c = 'ſ'
    · rw [hs]
      decide
    · have hi' : c.toUpper ≠ 'ı' := fun h => hi ((toUpper_eq_iff (by decide)).1 h)
      have hs' : c.toUpper ≠ 'ſ' := fun h => hs ((toUpper_eq_iff (by decide)).1 h)
      have hc : upperChar c = c.toUpper := by rw [upperChar, if_neg hi, if_neg hs]
      rw [hc, upperChar, if_neg hi', if_neg hs', Char.toUpper_toUpper_eq_toUpper]

theorem plain_of_isPictureChar {c : Char} (h : isPictureChar c = true) :
    Py.isSpace c = false ∧ c ≠ '.' := by
  rw [isPictureChar, Bool.or_eq_true] at h
  rcases h with halnum | hother
  · refine ⟨isSpace_of_alphanum halnum, ?_⟩
    rintro rfl
    cases halnum
  · simp only [List.contains_iff_mem, List.mem_cons, List.not_mem_nil, or_false] at hother
    rcases hother with rfl | rfl | rfl | rfl | rfl | rfl | rfl | rfl <;> decide

theorem plain_upperChar {c : Char} (h : Py.isSpace c = false ∧ c ≠ '.') :
    Py.isSpace (upperChar c) = false ∧ upperChar c ≠ '.' := by
  rw [upperChar]
  split_ifs
  · decide
  · decide
  · exact ⟨by rw [isSpace_toUpper, h.1], fun hc => h.2 ((toUpper_eq_iff (by decide)).1 hc)⟩

theorem stable_map {s : List Char} (h : ∀ c ∈ s, isPictureChar c = true) :
    Stable (s.map upperChar) := by
  intro c hc
  obtain ⟨d, hd, rfl⟩ := List.mem_map.1 hc
  have hplain := plain_upperChar (plain_of_isPictureChar (h d hd))
  exact ⟨hplain.1, hplain.2, upperChar_upperChar d⟩

theorem normalize_captured {s : List Char} (h : ∀ c ∈ s, isPictureChar c = true) :
    normalize s = s.map upperChar :=
  normalize_of_plain fun c hc => plain_of_isPictureChar (h c hc)

theorem Stable.sublist {s t : List Char} (hs : Stable s) (h : t.Sublist s) : Stable t :=
  fun c hc => hs c (h.subset hc)

end Captured

/-! ### Spelled texts -/

section Spelling

variable {c : Char} {s rest digits : List Char} {items : List Item}

theorem Spells.head_ne_open (h : Spells s items) : s.head? ≠ some '(' := by
  cases h with
  | nil => nofun
  | one hopen _ _ => exact fun heq => hopen (Option.some.inj heq)
  | times hopen _ _ _ => exact fun heq => hopen (Option.some.inj heq)

theorem takeWhile_count (h : ∀ d ∈ digits, d.isDigit = true) (rest : List Char) :
    (digits ++ ')' :: rest).takeWhile Char.isDigit = digits ∧
      (digits ++ ')' :: rest).dropWhile Char.isDigit = ')' :: rest := by
  rw [List.takeWhile_append_of_pos h, List.dropWhile_append_of_pos h,
    List.takeWhile_cons_of_neg (by decide), List.dropWhile_cons_of_neg (by decide), List.append_nil]
  exact ⟨rfl, rfl⟩

theorem count_unique {digits' rest' : List Char} (h : ∀ d ∈ digits, d.isDigit = true)
    (h' : ∀ d ∈ digits', d.isDigit = true) (heq : digits ++ ')' :: rest = digits' ++ ')' :: rest') :
    digits = digits' ∧ rest = rest' := by
  have htake := (takeWhile_count h rest).1
  have hdrop := (takeWhile_count h rest).2
  rw [heq] at htake hdrop
  rw [(takeWhile_count h' rest').1] at htake
  rw [(takeWhile_count h' rest').2, List.cons.injEq] at hdrop
  exact ⟨htake.symm, hdrop.2.symm⟩

theorem countDigits_of_digits (h : Digits digits) (rest : List Char) :
    countDigits ('(' :: (digits ++ ')' :: rest)) = some digits := by
  have hcount := takeWhile_count h.2 rest
  rw [countDigits, hcount.1, hcount.2, if_pos ⟨h.1, rfl⟩]

theorem countDigits_eq_some (h : countDigits s = some digits) :
    Digits digits ∧ ∃ rest, s = '(' :: (digits ++ ')' :: rest) := by
  rw [countDigits.eq_def] at h
  split at h
  · rename_i text
    dsimp only at h
    split_ifs at h with hcount
    obtain rfl := Option.some.inj h
    refine ⟨⟨hcount.1, fun d hd => List.mem_takeWhile_imp hd⟩, ?_⟩
    obtain ⟨rest, hrest⟩ := List.head?_eq_some_iff.1 hcount.2
    refine ⟨rest, ?_⟩
    rw [← hrest, List.takeWhile_append_dropWhile]
  · cases h

theorem Spells.inv_times (h : Spells (c :: '(' :: s) items) :
    ∃ digits rest items', s = digits ++ ')' :: rest ∧ Digits digits ∧
      items = .times c digits :: items' ∧ Spells rest items' := by
  cases h with
  | one _ _ htail => exact absurd rfl htail.head_ne_open
  | times _ _ hdigits htail => exact ⟨_, _, _, rfl, hdigits, rfl, htail⟩

theorem Spells.total_pos (h : Spells s items) (hne : s ≠ []) (hlast : ¬[')'] <:+ s) :
    0 < total items := by
  induction h with
  | nil => exact absurd rfl hne
  | one _ _ _ _ =>
      rw [total, List.map_cons, List.sum_cons, Item.count]
      omega
  | @times c digits rest items _ _ _ _ ih =>
      have hsuffix : rest <:+ c :: '(' :: (digits ++ ')' :: rest) :=
        ⟨c :: '(' :: (digits ++ [')']), by simp⟩
      have hrest : rest ≠ [] := by
        rintro rfl
        exact hlast ⟨c :: '(' :: digits, by simp⟩
      have htotal := ih hrest fun hclose => hlast (hclose.trans hsuffix)
      rw [total] at htotal
      rw [total, List.map_cons, List.sum_cons]
      omega

theorem Spells.not_mem (h : Spells s items) (hdigit : c.isDigit = false) (hopen : c ≠ '(')
    (hclose : c ≠ ')') (hsymbol : ∀ i ∈ items, i.symbol ≠ c) : c ∉ s := by
  induction h with
  | nil => nofun
  | one _ _ _ ih =>
      rw [List.forall_mem_cons] at hsymbol
      rw [List.mem_cons, not_or]
      exact ⟨fun heq => hsymbol.1 heq.symm, ih hsymbol.2⟩
  | times _ _ hdigits _ ih =>
      rw [List.forall_mem_cons] at hsymbol
      simp only [List.mem_cons, List.mem_append, not_or]
      refine ⟨fun heq => hsymbol.1 heq.symm, hopen, fun hmem => ?_, hclose, ih hsymbol.2⟩
      rw [hdigits.2 c hmem] at hdigit
      cases hdigit

theorem spells_replicate (hopen : c ≠ '(') (hclose : c ≠ ')') (n : ℕ) :
    Spells (List.replicate n c) (List.replicate n (.one c)) := by
  induction n with
  | zero => exact .nil
  | succ n ih => exact .one hopen hclose ih

theorem total_replicate (n : ℕ) (c : Char) : total (List.replicate n (.one c)) = n := by
  simp [total, Item.count]

end Spelling

/-! ### The digits behind the `V` -/

/-- The digits of a count that `int` reads. -/
def Short (digits : List Char) : Prop := Digits digits ∧ digits.length ≤ 4300

/-- A symbol without a count, or with one that `int` reads. -/
def Item.Read : Item → Prop
  | one _ => True
  | times _ digits => digits.length ≤ 4300

/-- A sequence of nines whose counts are read. -/
def Nines (s : List Char) : Prop :=
  ∃ items, Spells s items ∧ Only '9' items ∧ ∀ i ∈ items, i.Read

section NinesSection

theorem splitSign_digits {digits : List Char} (h : Digits digits) :
    Py.Decimal.splitSign digits = (false, digits) := by
  rw [Py.Decimal.splitSign.eq_def]
  split
  · cases h.2 '-' (List.mem_cons_self ..)
  · cases h.2 '+' (List.mem_cons_self ..)
  · rfl

theorem pyInt_digits {digits : List Char} (h : Digits digits) : pyInt digits =
    if digits.length ≤ 4300 then .ok (number digits : ℤ) else .error (.value digits) := by
  rw [pyInt, splitSign_digits h]
  have hall : digits.all Char.isDigit = true := List.all_eq_true.2 h.2
  simp [h.1, hall]

theorem pyInt_error {text message : List Char} :
    pyInt text ≠ .error (.cobolParse message) := by
  rw [pyInt]
  dsimp only
  split_ifs <;> nofun

theorem nines_skip (pre rest : List Char) : nines pre.length (pre ++ rest) = nines 0 rest := by
  induction pre with
  | nil => rfl
  | cons c pre ih => rw [List.length_cons, List.cons_append, nines, ih]

theorem nines_one {rest : List Char} (h : rest.head? ≠ some '(') :
    nines 0 ('9' :: rest) = (nines 0 rest).map (1 + ·) := by
  have hnone : countDigits rest = none := by
    cases hcount : countDigits rest with
    | none => rfl
    | some digits =>
        obtain ⟨-, s, rfl⟩ := countDigits_eq_some hcount
        exact absurd rfl h
  rw [nines, if_pos rfl, hnone]

theorem nines_times {digits : List Char} (h : Digits digits) (rest : List Char) :
    nines 0 ('9' :: '(' :: (digits ++ ')' :: rest)) =
      if digits.length ≤ 4300 then (nines 0 rest).map ((number digits : ℤ) + ·)
      else .error (.value digits) := by
  have hskip := nines_skip ('(' :: (digits ++ [')'])) rest
  have hlength : ('(' :: (digits ++ [')'])).length = digits.length + 2 := by simp
  have htext : ('(' :: (digits ++ [')'])) ++ rest = '(' :: (digits ++ ')' :: rest) := by simp
  rw [hlength, htext] at hskip
  rw [nines, if_pos rfl, countDigits_of_digits h]
  dsimp only
  rw [pyInt_digits h, hskip]
  split_ifs <;> rfl

/-- **The digits behind the `V`**: the nines of a spelled text are counted when their counts are
read. -/
theorem nines_iff {s : List Char} {items : List Item} (h : Spells s items) (hnine : Only '9' items)
    (n : ℤ) : nines 0 s = .ok n ↔ n = total items ∧ ∀ i ∈ items, i.Read := by
  induction h generalizing n with
  | nil =>
      rw [nines, total]
      simp [eq_comm]
  | one _ _ hrest ih =>
      rw [Only, List.forall_mem_cons] at hnine
      obtain ⟨rfl, hnine⟩ := hnine
      have hcount : ∀ l, (total (.one '9' :: l) : ℤ) = 1 + total l := fun l => by
        rw [total, List.map_cons, List.sum_cons]
        rfl
      rw [nines_one hrest.head_ne_open, map_eq_ok, List.forall_mem_cons, hcount]
      constructor
      · rintro ⟨m, hm, rfl⟩
        obtain ⟨rfl, hread⟩ := (ih hnine m).1 hm
        exact ⟨rfl, trivial, hread⟩
      · rintro ⟨rfl, -, hread⟩
        exact ⟨_, (ih hnine _).2 ⟨rfl, hread⟩, rfl⟩
  | @times c digits rest items _ _ hdigits hrest ih =>
      rw [Only, List.forall_mem_cons] at hnine
      obtain ⟨rfl, hnine⟩ := hnine
      have hcount : ∀ l, (total (.times '9' digits :: l) : ℤ) = number digits + total l :=
        fun l => by
          rw [total, List.map_cons, List.sum_cons]
          rfl
      rw [nines_times hdigits, List.forall_mem_cons, hcount, Item.Read]
      split_ifs with hshort
      · rw [map_eq_ok]
        constructor
        · rintro ⟨m, hm, rfl⟩
          obtain ⟨rfl, hread⟩ := (ih hnine m).1 hm
          exact ⟨rfl, hshort, hread⟩
        · rintro ⟨rfl, -, hread⟩
          exact ⟨_, (ih hnine _).2 ⟨rfl, hread⟩, rfl⟩
      · exact iff_of_false nofun fun hboth => hshort hboth.2.1

theorem nines_error {s : List Char} {skip : ℕ} {message : List Char} :
    nines skip s ≠ .error (.cobolParse message) := by
  induction s generalizing skip with
  | nil => rw [nines]; nofun
  | cons c s ih =>
      rw [nines.eq_def]
      dsimp only
      intro h
      split at h
      · exact ih h
      · split_ifs at h
        · split at h
          · split at h
            · rename_i e he
              rw [Except.error.injEq] at h
              exact pyInt_error (h ▸ he)
            · exact ih (map_eq_error.1 h)
          · exact ih (map_eq_error.1 h)
        · exact ih h

end NinesSection

/-! ### The shapes -/

/-- `X` or `9`. -/
def Basic (c : Char) : Prop := c = 'X' ∨ c = '9'

/-- The category of a basic symbol. -/
def typeOf (c : Char) : PicType := if c = 'X' then .alphanumeric else .numeric

/-- A text of none of the shapes: no symbol with something in brackets, no run of one symbol, and no
count at the beginning. -/
def Refused (s : List Char) : Prop :=
  ∀ c, Basic c → (∀ m, s ≠ c :: '(' :: (m ++ [')'])) ∧ (∀ n, s ≠ List.replicate (n + 1) c) ∧
    ∀ digits rest, Short digits → s ≠ c :: '(' :: (digits ++ ')' :: rest)

/-- One symbol, repeated or with a count. -/
def Regular (c : Char) (s : List Char) : Prop :=
  (∃ n, s = List.replicate (n + 1) c) ∨ ∃ digits, Short digits ∧ s = c :: '(' :: (digits ++ [')'])

/-- What `_parse_pic` makes of a text. -/
inductive Shape (s : List Char) : Except PictureError (PicType × ℤ) → Prop
  | closed {c : Char} {m : List Char} : Basic c → s = c :: '(' :: (m ++ [')']) →
      Shape s ((pyInt m).map fun length => (typeOf c, length))
  | run {c : Char} {n : ℕ} : Basic c → s = List.replicate (n + 1) c →
      Shape s (.ok (typeOf c, ((n + 1 : ℕ) : ℤ)))
  | counted {c : Char} {digits rest : List Char} : Basic c → Short digits →
      s = c :: '(' :: (digits ++ ')' :: rest) → rest ≠ [] → ¬[')'] <:+ rest →
      Shape s (.ok (typeOf c, (number digits : ℤ)))
  | refused {message : List Char} : Refused s → Shape s (.error (.cobolParse message))

section Shapes

variable {s : List Char}

theorem closed_of_ends {c : Char} (hopen : [c, '('] <+: s) (hclose : [')'] <:+ s) :
    s = c :: '(' :: ((s.drop 2).dropLast ++ [')']) := by
  obtain ⟨t, rfl⟩ := hopen
  obtain ⟨u, hu⟩ := hclose
  have hlast : ([c, '('] ++ t).getLast? = some ')' := by rw [← hu, List.getLast?_concat]
  cases t with
  | nil => cases hlast
  | cons d t =>
      have htail : (d :: t).getLast? = some ')' := by
        rwa [List.getLast?_append_of_ne_nil _ (List.cons_ne_nil d t)] at hlast
      have hdrop : ([c, '('] ++ d :: t).drop 2 = d :: t := rfl
      rw [hdrop, List.dropLast_append_getLast? _ htail]
      rfl

theorem ends_of_closed {c : Char} {m : List Char} (h : s = c :: '(' :: (m ++ [')'])) :
    [c, '('] <+: s ∧ [')'] <:+ s :=
  ⟨⟨m ++ [')'], h.symm⟩, ⟨c :: '(' :: m, h.symm⟩⟩

theorem refused_of (hclosed : ∀ c, Basic c → ¬([c, '('] <+: s ∧ [')'] <:+ s))
    (hrun : ∀ c, Basic c → ¬(s ≠ [] ∧ s.all (· == c) = true))
    (hcount : ∀ c digits rest, Basic c → Short digits →
      s ≠ c :: '(' :: (digits ++ ')' :: rest)) : Refused s := by
  refine fun c hc => ⟨fun m hm => hclosed c hc (ends_of_closed hm), fun n hn => hrun c hc ?_,
    fun digits rest hdigits => hcount c digits rest hc hdigits⟩
  rw [hn]
  simp

theorem shape_run {c : Char} (hc : Basic c) (h : s ≠ [] ∧ s.all (· == c) = true) :
    Shape s (.ok (typeOf c, (s.length : ℤ))) := by
  obtain ⟨n, hn⟩ := Nat.exists_eq_succ_of_ne_zero (mt List.eq_nil_of_length_eq_zero h.1)
  rw [hn]
  refine .run hc (List.eq_replicate_iff.2 ⟨hn, fun d hd => ?_⟩)
  exact eq_of_beq (List.all_eq_true.1 h.2 d hd)

theorem shape_counted {c : Char} (hc : Basic c) {text digits : List Char} {length : ℤ}
    (hs : s = c :: text) (hcount : countDigits text = some digits)
    (hint : pyInt digits = .ok length) (hclosed : ¬([c, '('] <+: s ∧ [')'] <:+ s)) :
    Shape s (.ok (typeOf c, length)) := by
  obtain ⟨hdigits, rest, rfl⟩ := countDigits_eq_some hcount
  rw [pyInt_digits hdigits] at hint
  split_ifs at hint with hlength
  obtain rfl := Except.ok.inj hint
  refine .counted hc ⟨hdigits, hlength⟩ hs ?_ fun hclose => ?_
  · rintro rfl
    exact hclosed (ends_of_closed hs)
  · refine hclosed ⟨⟨digits ++ ')' :: rest, hs.symm⟩, hclose.trans ?_⟩
    exact ⟨c :: '(' :: (digits ++ [')']), by rw [hs]; simp⟩

theorem no_count {c : Char} {text : List Char} (hs : s = c :: text)
    (hno : ∀ length, (countDigits text).map pyInt ≠ some (.ok length)) :
    ∀ d digits rest, Basic d → Short digits → s ≠ d :: '(' :: (digits ++ ')' :: rest) := by
  rintro d digits rest - hdigits heq
  rw [hs, List.cons.injEq] at heq
  refine hno (number digits) ?_
  rw [heq.2, countDigits_of_digits hdigits.1, Option.map_some, pyInt_digits hdigits.1,
    if_pos hdigits.2]

/-- **The shape of a text.** -/
theorem shape_parsePic (h : Stable s) : Shape s (parsePic s) := by
  have hclosed : ¬(['X', '('] <+: s ∧ [')'] <:+ s) → ¬(['9', '('] <+: s ∧ [')'] <:+ s) →
      ∀ c, Basic c → ¬([c, '('] <+: s ∧ [')'] <:+ s) := by
    rintro hX h9 c (rfl | rfl)
    · exact hX
    · exact h9
  have hrun : ¬(s ≠ [] ∧ s.all (· == 'X') = true) → ¬(s ≠ [] ∧ s.all (· == '9') = true) →
      ∀ c, Basic c → ¬(s ≠ [] ∧ s.all (· == c) = true) := by
    rintro hX h9 c (rfl | rfl)
    · exact hX
    · exact h9
  rw [parsePic, normalize_of_stable h]
  split_ifs with hX h9 hx hn hXs h9s hopen
  · exact .closed (.inl rfl) (closed_of_ends hX.1 hX.2)
  · exact .closed (.inr rfl) (closed_of_ends h9.1 h9.2)
  · exact .run (.inl rfl) hx
  · exact .run (.inr rfl) hn
  · exact shape_run (.inl rfl) hXs
  · exact shape_run (.inr rfl) h9s
  · have hclosed := hclosed hX h9
    have hrun := hrun hXs h9s
    split
    · split
      · rename_i text _ length hcount
        obtain ⟨digits, hdigits, hint⟩ := Option.map_eq_some_iff.1 hcount
        exact shape_counted (.inl rfl) rfl hdigits hint hX
      · rename_i hno
        exact .refused (refused_of hclosed hrun (no_count rfl fun length => hno length))
    · split
      · rename_i text _ length hcount
        obtain ⟨digits, hdigits, hint⟩ := Option.map_eq_some_iff.1 hcount
        exact shape_counted (.inr rfl) rfl hdigits hint h9
      · rename_i hno
        exact .refused (refused_of hclosed hrun (no_count rfl fun length => hno length))
    · rename_i hnoX hno9
      refine .refused (refused_of hclosed hrun ?_)
      rintro c digits rest (rfl | rfl) - heq
      · exact hnoX _ heq
      · exact hno9 _ heq
  · refine .refused (refused_of (hclosed hX h9) (hrun hXs h9s) ?_)
    rintro c digits rest - - rfl
    exact hopen (by simp)

end Shapes

/-! ### Pictures that are sized by the rules -/

section Cases

variable {s : List Char} {c : Char}

theorem Basic.ne_open (hc : Basic c) : c ≠ '(' ∧ c ≠ ')' ∧ c ≠ 'V' := by
  rcases hc with rfl | rfl <;> decide

theorem Regular.spells (hc : Basic c) (h : Regular c s) :
    ∃ items, Spells s items ∧ items ≠ [] ∧ Only c items := by
  rcases h with ⟨n, rfl⟩ | ⟨digits, hdigits, rfl⟩
  · refine ⟨_, spells_replicate hc.ne_open.1 hc.ne_open.2.1 (n + 1), by simp, ?_⟩
    intro i hi
    rw [List.eq_of_mem_replicate hi, Item.symbol]
  · refine ⟨_, .times hc.ne_open.1 hc.ne_open.2.1 hdigits.1 .nil, List.cons_ne_nil _ _, ?_⟩
    intro i hi
    rw [List.mem_singleton.1 hi, Item.symbol]

theorem Regular.head (h : Regular c s) : s.head? = some c := by
  rcases h with ⟨n, rfl⟩ | ⟨digits, -, rfl⟩
  · rfl
  · rfl

theorem Regular.not_refused (hc : Basic c) (h : Regular c s) : ¬Refused s := by
  intro hrefused
  obtain ⟨hclosed, hrun, -⟩ := hrefused c hc
  rcases h with ⟨n, hn⟩ | ⟨digits, -, hs⟩
  · exact hrun n hn
  · exact hclosed digits hs

theorem Regular.no_v (hc : Basic c) (h : Regular c s) : 'V' ∉ s := by
  obtain ⟨items, hspells, -, honly⟩ := h.spells hc
  refine hspells.not_mem rfl (by decide) (by decide) fun i hi => ?_
  rw [honly i hi]
  exact hc.ne_open.2.2

theorem head_of_pyInt {m : List Char} {k : ℤ} (h : pyInt m = .ok k) (hno : ¬Short m) :
    ∃ sign rest, m = sign :: rest ∧ sign.isDigit = false ∧ sign ≠ ')' := by
  have hsplit : (∃ sign rest, m = sign :: rest ∧ sign.isDigit = false ∧ sign ≠ ')') ∨
      Py.Decimal.splitSign m = (false, m) := by
    rw [Py.Decimal.splitSign.eq_def]
    split
    · exact .inl ⟨'-', _, rfl, rfl, by decide⟩
    · exact .inl ⟨'+', _, rfl, rfl, by decide⟩
    · exact .inr rfl
  rcases hsplit with hsign | hsplit
  · exact hsign
  · rw [pyInt, hsplit] at h
    dsimp only at h
    have hdigits : m ≠ [] ∧ m.all Char.isDigit = true ∧ m.length ≤ 4300 := by
      by_contra hdigits
      rw [if_neg hdigits] at h
      cases h
    exact absurd ⟨⟨hdigits.1, List.all_eq_true.1 hdigits.2.1⟩, hdigits.2.2⟩ hno

theorem Regular.inv_count {text : List Char} (hc : Basic c) (h : Regular c (c :: '(' :: text)) :
    ∃ digits, Short digits ∧ text = digits ++ [')'] := by
  rcases h with ⟨n, hn⟩ | ⟨digits, hdigits, heq⟩
  · have hmem : '(' ∈ List.replicate (n + 1) c := by
      rw [← hn]
      simp
    exact absurd (List.eq_of_mem_replicate hmem).symm hc.ne_open.1
  · rw [List.cons.injEq, List.cons.injEq] at heq
    exact ⟨digits, hdigits, heq.2.2⟩

/-- **The three kinds of texts**: sized exactly, taken for something else, and refused. -/
theorem shape_cases {r : Except PictureError (PicType × ℤ)} (h : Shape s r) :
    (∃ c items, Basic c ∧ Regular c s ∧ Spells s items ∧ items ≠ [] ∧ Only c items ∧
      r = .ok (typeOf c, (total items : ℤ))) ∨
    (¬Refused s ∧ (∀ c, Basic c → ¬Regular c s) ∧ (∀ message, r ≠ .error (.cobolParse message)) ∧
      ∀ typ k items, r = .ok (typ, k) → Spells s items → k ≠ total items) ∨
    (Refused s ∧ ∃ message, r = .error (.cobolParse message)) := by
  cases h with
  | @closed c m hc hs =>
      by_cases hshort : Short m
      · refine .inl ⟨c, [.times c m], hc, .inr ⟨m, hshort, hs⟩, ?_, List.cons_ne_nil _ _, ?_, ?_⟩
        · rw [hs]
          exact .times hc.ne_open.1 hc.ne_open.2.1 hshort.1 .nil
        · intro i hi
          rw [List.mem_singleton.1 hi, Item.symbol]
        · rw [pyInt_digits hshort.1, if_pos hshort.2]
          rfl
      · refine .inr (.inl ⟨fun hrefused => (hrefused c hc).1 m hs, fun d hd hregular => ?_,
          fun message herror => pyInt_error (map_eq_error.1 herror), ?_⟩)
        · have hhead := hregular.head
          rw [hs, List.head?_cons, Option.some.injEq] at hhead
          subst hhead
          rw [hs] at hregular
          obtain ⟨digits, hdigits, heq⟩ := hregular.inv_count hc
          exact hshort (List.append_cancel_right heq ▸ hdigits)
        · -- a number with a sign is no count
          intro typ k items hr hspells
          obtain ⟨n, hn, -⟩ := map_eq_ok.1 hr
          obtain ⟨sign, text, rfl, hsign, hclose⟩ := head_of_pyInt hn hshort
          rw [hs] at hspells
          obtain ⟨digits, rest, _, heq, hdigits, -, -⟩ := hspells.inv_times
          cases digits with
          | nil => exact absurd rfl hdigits.1
          | cons d digits =>
              rw [List.cons_append, List.cons_append, List.cons.injEq] at heq
              rw [heq.1, hdigits.2 d (List.mem_cons_self ..)] at hsign
              cases hsign
  | @run c n hc hs =>
      refine .inl ⟨c, List.replicate (n + 1) (.one c), hc, .inl ⟨n, hs⟩, ?_, by simp, ?_, ?_⟩
      · rw [hs]
        exact spells_replicate hc.ne_open.1 hc.ne_open.2.1 (n + 1)
      · intro i hi
        rw [List.eq_of_mem_replicate hi, Item.symbol]
      · rw [total_replicate]
  | @counted c digits rest hc hdigits hs hne hlast =>
      refine .inr (.inl ⟨fun hrefused => (hrefused c hc).2.2 digits rest hdigits hs,
        fun d hd hregular => ?_, nofun, ?_⟩)
      · have hhead := hregular.head
        rw [hs, List.head?_cons, Option.some.injEq] at hhead
        subst hhead
        rw [hs] at hregular
        obtain ⟨digits', hdigits', heq⟩ := hregular.inv_count hc
        exact hne (count_unique hdigits.1.2 hdigits'.1.2 heq).2
      · -- the symbols behind the count are not counted
        intro typ k items hr hspells
        rw [hs] at hspells
        obtain ⟨digits', rest', items', heq, hdigits', rfl, hrest⟩ := hspells.inv_times
        obtain ⟨rfl, rfl⟩ := count_unique hdigits.1.2 hdigits'.2 heq
        have hpos := hrest.total_pos hne hlast
        rw [Except.ok.injEq, Prod.mk.injEq] at hr
        rw [total] at hpos
        rw [← hr.2, total, List.map_cons, List.sum_cons, Item.count]
        omega
  | refused hrefused => exact .inr (.inr ⟨hrefused, _, rfl⟩)

end Cases

section Rules

variable {signed : Bool} {pic : List Char} {typ : PicType} {k d : ℤ}

theorem CobolSize.inv_plain (h : CobolSize signed pic (typ, k, d)) (hv : 'V' ∉ pic) :
    d = 0 ∧ ∃ items, Spells pic items ∧ k = total items ∧
      (typ = .alphanumeric → signed = false) := by
  cases h with
  | alphanumeric hsigned hspells _ _ _ => exact ⟨rfl, _, hspells, rfl, fun _ => hsigned⟩
  | integer hspells _ _ => exact ⟨rfl, _, hspells, rfl, nofun⟩
  | decimal _ _ _ _ _ => exact absurd (by simp) hv

theorem beforeV_append {left : List Char} (h : 'V' ∉ left) (right : List Char) :
    beforeV (left ++ 'V' :: right) = left ∧ behindV (left ++ 'V' :: right) = right := by
  have hall : ∀ c ∈ left, (c != 'V') = true := by
    intro c hc
    rw [bne_iff_ne]
    rintro rfl
    exact h hc
  rw [beforeV, behindV, List.takeWhile_append_of_pos hall, List.dropWhile_append_of_pos hall,
    List.takeWhile_cons_of_neg (by decide), List.dropWhile_cons_of_neg (by decide), List.append_nil]
  exact ⟨rfl, rfl⟩

theorem beforeV_eq_self (h : 'V' ∉ pic) : beforeV pic = pic := by
  refine List.takeWhile_eq_self_iff.2 fun c hc => ?_
  rw [bne_iff_ne]
  rintro rfl
  exact h hc

/-- The rules for a PICTURE with a decimal point. -/
theorem CobolSize.inv_point (h : CobolSize signed pic (typ, k, d)) (hv : 'V' ∈ pic) :
    typ = .numeric ∧ ∃ whole fraction, Spells (beforeV pic) whole ∧
      Spells (behindV pic) fraction ∧ Only '9' fraction ∧
      k = total whole + total fraction ∧ d = total fraction := by
  have hnone : ∀ {s : List Char} {items : List Item}, Spells s items →
      (∀ i ∈ items, i.symbol = 'X' ∨ i.symbol = 'A' ∨ i.symbol = '9') → 'V' ∉ s := by
    refine fun hspells hsymbols => hspells.not_mem rfl (by decide) (by decide) fun i hi => ?_
    rcases hsymbols i hi with h | h | h <;> rw [h] <;> decide
  cases h with
  | alphanumeric _ hspells hsymbols _ _ => exact absurd hv (hnone hspells hsymbols)
  | integer hspells _ hnine =>
      exact absurd hv (hnone hspells fun i hi => .inr (.inr (hnine i hi)))
  | @decimal left right whole fraction hleft hright _ hwhole hfraction =>
      have hbefore := hnone hleft fun i hi => .inr (.inr (hwhole i hi))
      rw [(beforeV_append hbefore right).1, (beforeV_append hbefore right).2]
      exact ⟨rfl, whole, fraction, hleft, hright, hfraction, by push_cast; rfl, rfl⟩

/-- The shapes of a PICTURE that is refused or sized by the rules: in front of the `V` none of the
shapes, or `9` repeated or with a count, and nines behind the `V`; or an unsigned `X` repeated or
with a count. -/
def SafeShape (signed : Bool) (pic : List Char) : Prop :=
  Refused (beforeV pic) ∨ (Regular '9' (beforeV pic) ∧ ('V' ∈ pic → Nines (behindV pic))) ∨
    (Regular 'X' pic ∧ signed = false)

theorem not_only {items : List Item} {c d : Char} (hne : items ≠ []) (h : Only c items)
    (hcd : c ≠ d) : ¬Only d items := by
  obtain ⟨i, hi⟩ := List.exists_mem_of_ne_nil _ hne
  exact fun hd => hcd ((h i hi).symm.trans (hd i hi))

/-- A PICTURE without a decimal point. -/
theorem sized_plain (hstable : Stable pic) (hv : 'V' ∉ pic) :
    ((∃ message, parsePic pic = .error (.cobolParse message)) ∨
      ∃ typ k, parsePic pic = .ok (typ, k) ∧ CobolSize signed pic (typ, k, 0)) ↔
    SafeShape signed pic := by
  rw [SafeShape, beforeV_eq_self hv]
  rcases shape_cases (shape_parsePic hstable) with
    ⟨c, items, hc, hregular, hspells, hne, honly, hr⟩ | ⟨hrefused, hregular, herror, hother⟩ |
    ⟨hrefused, herror⟩
  · rw [hr]
    rcases hc with rfl | rfl
    · constructor
      · rintro (⟨message, hmessage⟩ | ⟨typ, k, hok, hsize⟩)
        · cases hmessage
        · rw [Except.ok.injEq, Prod.mk.injEq] at hok
          obtain ⟨-, _, -, -, hunsigned⟩ := hsize.inv_plain hv
          exact .inr (.inr ⟨hregular, hunsigned hok.1.symm⟩)
      · rintro (h | ⟨h, -⟩ | ⟨-, hunsigned⟩)
        · exact absurd h (hregular.not_refused (.inl rfl))
        · exact absurd (hregular.head.symm.trans h.head) (by decide)
        · refine .inr ⟨_, _, rfl, .alphanumeric hunsigned hspells (fun i hi => .inl (honly i hi))
            (not_only hne honly (by decide)) (not_only hne honly (by decide))⟩
    · refine iff_of_true (.inr ⟨_, _, rfl, .integer hspells hne honly⟩) (.inr (.inl ⟨hregular, ?_⟩))
      exact fun hmem => absurd hmem hv
  · refine iff_of_false ?_ ?_
    · rintro (⟨message, hmessage⟩ | ⟨typ, k, hok, hsize⟩)
      · exact herror message hmessage
      · obtain ⟨-, items, hspells, htotal, -⟩ := hsize.inv_plain hv
        exact hother typ k items hok hspells htotal
    · rintro (h | ⟨h, -⟩ | ⟨h, -⟩)
      · exact hrefused h
      · exact hregular '9' (.inr rfl) h
      · exact hregular 'X' (.inl rfl) h
  · exact iff_of_true (.inl herror) (.inl hrefused)

/-- A PICTURE with a decimal point. -/
theorem sized_point (hstable : Stable pic) (hv : 'V' ∈ pic) :
    ((∃ message, parsePic (beforeV pic) = .error (.cobolParse message)) ∨
      ∃ typ k n, parsePic (beforeV pic) = .ok (typ, k) ∧ nines 0 (behindV pic) = .ok n ∧
        CobolSize signed pic (typ, k + n, n)) ↔
    SafeShape signed pic := by
  have hsplit : pic = beforeV pic ++ 'V' :: behindV pic := by
    obtain ⟨left, right, hpic, hleft⟩ := List.eq_append_cons_of_mem hv
    conv_rhs => rw [hpic]
    rw [(beforeV_append hleft right).1, (beforeV_append hleft right).2, ← hpic]
  have hleft : Stable (beforeV pic) := hstable.sublist (List.takeWhile_sublist _)
  have hno : ∀ h : Regular 'X' pic ∧ signed = false, False := fun h => h.1.no_v (.inl rfl) hv
  rw [SafeShape]
  rcases shape_cases (shape_parsePic hleft) with
    ⟨c, items, hc, hregular, hspells, hne, honly, hr⟩ | ⟨hrefused, hregular, herror, hother⟩ |
    ⟨hrefused, herror⟩
  · rw [hr]
    rcases hc with rfl | rfl
    · refine iff_of_false ?_ ?_
      · rintro (⟨message, hmessage⟩ | ⟨typ, k, n, hok, -, hsize⟩)
        · cases hmessage
        · rw [Except.ok.injEq, Prod.mk.injEq] at hok
          have htyp := (hsize.inv_point hv).1
          rw [← hok.1] at htyp
          cases htyp
      · rintro (h | ⟨h, -⟩ | h)
        · exact hregular.not_refused (.inl rfl) h
        · exact absurd (hregular.head.symm.trans h.head) (by decide)
        · exact hno h
    · constructor
      · rintro (⟨message, hmessage⟩ | ⟨typ, k, n, hok, hn, hsize⟩)
        · cases hmessage
        · obtain ⟨-, _, fraction, -, hright, hnine, -, rfl⟩ := hsize.inv_point hv
          have hread := ((nines_iff hright hnine _).1 hn).2
          exact .inr (.inl ⟨hregular, fun _ => ⟨fraction, hright, hnine, hread⟩⟩)
      · rintro (h | ⟨-, h⟩ | h)
        · exact absurd h (hregular.not_refused (.inr rfl))
        · obtain ⟨fraction, hright, hnine, hread⟩ := h hv
          refine .inr ⟨_, _, _, rfl, (nines_iff hright hnine _).2 ⟨rfl, hread⟩, ?_⟩
          have hsize : CobolSize signed (beforeV pic ++ 'V' :: behindV pic) _ :=
            .decimal hspells hright (by simp [hne]) honly hnine
          rw [← hsplit] at hsize
          push_cast at hsize
          exact hsize
        · exact (hno h).elim
  · refine iff_of_false ?_ ?_
    · rintro (⟨message, hmessage⟩ | ⟨typ, k, n, hok, hn, hsize⟩)
      · exact herror message hmessage
      · obtain ⟨-, whole, fraction, hleft, -, -, hk, hd⟩ := hsize.inv_point hv
        exact hother typ k whole hok hleft (by omega)
    · rintro (h | ⟨h, -⟩ | h)
      · exact hrefused h
      · exact hregular '9' (.inr rfl) h
      · exact hno h
  · exact iff_of_true (.inl herror) (.inl hrefused)

/-- **When a PICTURE is refused or sized by the rules.** -/
theorem parsePicDetails_sized_iff (text : List Char) (h : ∀ c ∈ text, isPictureChar c = true) :
    Sized text ↔ SafeShape (picIsSigned text) (unsignedText (normalize text)) := by
  have hstable : Stable (unsignedText (normalize text)) := by
    rw [normalize_captured h, unsignedText]
    split_ifs
    · exact (stable_map h).sublist (List.drop_sublist _ _)
    · exact stable_map h
  rw [Sized, parsePicDetails]
  dsimp only
  split_ifs with hv
  · rw [← sized_point hstable hv]
    cases hleft : parsePic (beforeV (unsignedText (normalize text))) with
    | error e => simp
    | ok left =>
        obtain ⟨typ, k⟩ := left
        constructor
        · rintro (⟨message, hmessage⟩ | ⟨size, hok, hsize⟩)
          · exact absurd (map_eq_error.1 hmessage) nines_error
          · obtain ⟨n, hn, rfl⟩ := map_eq_ok.1 hok
            exact .inr ⟨typ, k, n, rfl, hn, hsize⟩
        · rintro (⟨message, hmessage⟩ | ⟨typ', k', n, hok, hn, hsize⟩)
          · cases hmessage
          · obtain ⟨rfl, rfl⟩ := Prod.mk.inj (Except.ok.inj hok)
            exact .inr ⟨_, map_eq_ok.2 ⟨n, hn, rfl⟩, hsize⟩
  · rw [← sized_plain hstable hv]
    refine or_congr (exists_congr fun message => map_eq_error) ?_
    constructor
    · rintro ⟨size, hok, hsize⟩
      obtain ⟨⟨typ, k⟩, hk, rfl⟩ := map_eq_ok.1 hok
      exact ⟨typ, k, hk, hsize⟩
    · rintro ⟨typ, k, hk, hsize⟩
      exact ⟨_, map_eq_ok.2 ⟨(typ, k), hk, rfl⟩, hsize⟩

/-- `S9(3)V9(2)` -/
theorem parsePicDetails_sized_iff_decimal :
    Sized "S9(3)V9(2)".toList ↔
      SafeShape (picIsSigned "S9(3)V9(2)".toList) (unsignedText (normalize "S9(3)V9(2)".toList)) :=
  parsePicDetails_sized_iff "S9(3)V9(2)".toList (by decide +kernel)

/-- `9(3)99` has five digits and is taken for three. -/
theorem parsePicDetails_not_sized : (∀ c ∈ "9(3)99".toList, isPictureChar c = true) ∧
    parsePicDetails "9(3)99".toList = .ok (.numeric, 3, 0) ∧ ¬Sized "9(3)99".toList := by
  have hok : parsePicDetails "9(3)99".toList = .ok (.numeric, 3, 0) := rfl
  refine ⟨by decide +kernel, hok, ?_⟩
  rintro (⟨message, hmessage⟩ | ⟨size, hsize, hrules⟩)
  · rw [hok] at hmessage
    cases hmessage
  · rw [hok] at hsize
    obtain rfl := Except.ok.inj hsize
    have htext : unsignedText (normalize "9(3)99".toList) = ['9', '(', '3', ')', '9', '9'] := by
      decide +kernel
    rw [htext] at hrules
    obtain ⟨-, items, hspells, htotal, -⟩ := hrules.inv_plain (by decide)
    obtain ⟨digits, rest, items', heq, hdigits, rfl, hrest⟩ := hspells.inv_times
    have hsplit : ['3'] ++ ')' :: ['9', '9'] = digits ++ ')' :: rest := heq
    obtain ⟨rfl, rfl⟩ := count_unique (by decide) hdigits.2 hsplit
    have hpos := hrest.total_pos (by decide) (by decide)
    have hcount : Item.count (.times '9' ['3']) = 3 := rfl
    rw [total] at hpos
    rw [total, List.map_cons, List.sum_cons, hcount] at htotal
    omega

end Rules

end CobolJava.Picture
