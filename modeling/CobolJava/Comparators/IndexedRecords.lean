/-
**Canonical texts of decoded records.**

`engine/comparators/indexed_records.py`: the records of an INDEXED file, or the records of a
RELATIVE file with their slot numbers, are compared through a text with one line per record.  The
text determines the records, so comparing texts byte by byte is comparing the decoded files.

Main definitions:

* `canonicalRecords`, `canonicalRelativeRecords` — the texts.

Main results:

* `canonicalText_injective`, `relativeText_injective` — **the text determines the records**.
-/

import CobolJava.Lib.PyBytes

set_option autoImplicit false

namespace CobolJava

open Py (Bytes)

/-! ### The texts -/

/-- A byte as it is shown: itself when printable, a dot otherwise. -/
def shownByte (b : UInt8) : Char := if 32 ≤ b ∧ b < 127 then Char.ofNat b.toNat else '.'

/-- The line of a record, without its terminator. -/
def recordLine (record : Bytes) : List Char := Py.hex record ++ '\t' :: record.map shownByte

def canonicalText (records : List Bytes) : List Char :=
  records.flatMap fun record => recordLine record ++ ['\n']

def canonicalRecords (records : List Bytes) : Bytes :=
  Py.encode (String.ofList (canonicalText records))

/-- The characters `str.splitlines` ends a line at. -/
def isLineBreak (c : Char) : Bool :=
  ['\n', '\r', Char.ofNat 11, Char.ofNat 12, Char.ofNat 28, Char.ofNat 29, Char.ofNat 30,
    Char.ofNat 133, Char.ofNat 8232, Char.ofNat 8233].contains c

/-- The lines that `current` and the characters after it make, each with its terminator. -/
def splitlinesTextFrom (current : List Char) : List Char → List (List Char)
  | [] => if current = [] then [] else [current]
  | '\r' :: '\n' :: rest => (current ++ ['\r', '\n']) :: splitlinesTextFrom [] rest
  | c :: rest =>
      if isLineBreak c then (current ++ [c]) :: splitlinesTextFrom [] rest
      else splitlinesTextFrom (current ++ [c]) rest

/-- The method `text.splitlines(True)`. -/
def splitlinesText (text : List Char) : List (List Char) := splitlinesTextFrom [] text

/-- The text of records with their slot numbers: each line of the canonical text of the records is
prefixed by the number of its slot. -/
def relativeText (records : List (ℕ × Bytes)) : List Char :=
  let lines := splitlinesText (canonicalText (records.map Prod.snd))
  (records.zip lines).flatMap fun r => Nat.toDigits 10 r.1.1 ++ '\t' :: r.2

/-- The text of records with their slot numbers, as bytes. -/
def canonicalRelativeRecords (records : List (ℕ × Bytes)) : Bytes :=
  Py.encode (String.ofList (relativeText records))

/-! ### Lines -/

theorem cut_unique {s : Char} {a b r r' : List Char} (ha : s ∉ a) (hb : s ∉ b)
    (h : a ++ s :: r = b ++ s :: r') : a = b ∧ r = r' := by
  induction a generalizing b with
  | nil =>
      cases b with
      | nil => exact ⟨rfl, (List.cons.inj h).2⟩
      | cons d b => exact absurd (List.mem_cons.2 (.inl (List.cons.inj h).1)) hb
  | cons c a ih =>
      cases b with
      | nil => exact absurd (List.mem_cons.2 (.inl (List.cons.inj h).1.symm)) ha
      | cons d b =>
          obtain ⟨hcd, hrest⟩ := List.cons.inj h
          obtain ⟨hab, hr⟩ := ih (fun hs => ha (List.mem_cons_of_mem _ hs))
            (fun hs => hb (List.mem_cons_of_mem _ hs)) hrest
          exact ⟨by rw [hcd, hab], hr⟩

theorem lines_injective {α : Type} {body : α → List Char} (hbody : ∀ a, '\n' ∉ body a)
    (hinj : Function.Injective body) :
    Function.Injective fun xs : List α => xs.flatMap fun a => body a ++ ['\n'] := by
  intro xs
  induction xs with
  | nil =>
      intro ys h
      cases ys with
      | nil => rfl
      | cons y ys => simp at h
  | cons x xs ih =>
      intro ys h
      cases ys with
      | nil => simp at h
      | cons y ys =>
          simp only [List.flatMap_cons, List.append_assoc, List.singleton_append] at h
          obtain ⟨hxy, hrest⟩ := cut_unique (hbody x) (hbody y) h
          rw [hinj hxy, ih hrest]

theorem splitlinesTextFrom_line {line : List Char} (hline : ∀ c ∈ line, isLineBreak c = false)
    (current rest : List Char) :
    splitlinesTextFrom current (line ++ '\n' :: rest) =
      (current ++ line ++ ['\n']) :: splitlinesTextFrom [] rest := by
  induction line generalizing current with
  | nil =>
      rw [List.nil_append, splitlinesTextFrom, if_pos (by decide), List.append_nil]
      rintro rest' ⟨⟩
  | cons c line ih =>
      have hc := hline c (List.mem_cons_self ..)
      have hcr : c ≠ '\r' := fun h => by rw [h] at hc; exact absurd hc (by decide)
      rw [List.cons_append, splitlinesTextFrom, if_neg (by rw [hc]; decide),
        ih fun d hd => hline d (List.mem_cons_of_mem _ hd)]
      · simp
      · rintro rest' h -
        exact hcr h

/-! ### The lines of records -/

theorem shownByte_not_lineBreak (b : UInt8) : isLineBreak (shownByte b) = false := by
  have hshown : ∀ n < 127, 32 ≤ n → isLineBreak (Char.ofNat n) = false := by decide
  unfold shownByte
  split_ifs with h
  · exact hshown b.toNat (UInt8.lt_iff_toNat_lt.1 h.2) (UInt8.le_iff_toNat_le.1 h.1)
  · decide

theorem hex_chars (record : Bytes) : ∀ c ∈ Py.hex record, isLineBreak c = false ∧ c ≠ '\t' := by
  have hdigit : ∀ n < 16, isLineBreak (Nat.digitChar n) = false ∧ Nat.digitChar n ≠ '\t' := by
    decide
  intro c hc
  obtain ⟨b, -, hb⟩ := List.mem_flatMap.1 hc
  have hlt := b.toNat_lt
  simp only [Py.hexByte, List.mem_cons, List.not_mem_nil, or_false] at hb
  rcases hb with rfl | rfl
  · exact hdigit _ (by omega)
  · exact hdigit _ (by omega)

theorem recordLine_not_lineBreak (record : Bytes) :
    ∀ c ∈ recordLine record, isLineBreak c = false := by
  intro c hc
  simp only [recordLine, List.mem_append, List.mem_cons, List.mem_map] at hc
  rcases hc with hc | rfl | ⟨b, -, rfl⟩
  · exact (hex_chars record c hc).1
  · decide
  · exact shownByte_not_lineBreak b

theorem newline_not_mem {line : List Char} (h : ∀ c ∈ line, isLineBreak c = false) :
    '\n' ∉ line := by
  intro hmem
  exact absurd (h _ hmem) (by decide)

theorem recordLine_injective : Function.Injective recordLine := by
  intro r r' h
  have htab : ∀ s, '\t' ∉ Py.hex s := fun s hs => (hex_chars s _ hs).2 rfl
  exact Py.hex_injective (cut_unique (htab r) (htab r') h).1

/-- **The canonical text determines the records.** -/
theorem canonicalText_injective : Function.Injective canonicalText :=
  lines_injective (fun r => newline_not_mem (recordLine_not_lineBreak r)) recordLine_injective

/-- **Equal texts mean equal records.** -/
theorem canonicalRecords_inj {records records' : List Bytes} :
    canonicalRecords records = canonicalRecords records' ↔ records = records' := by
  constructor
  · intro h
    exact canonicalText_injective (String.ofList_injective (Py.encode_injective h))
  · rintro rfl
    rfl

/-! ### The lines of numbered records -/

theorem splitlinesText_canonicalText (records : List Bytes) :
    splitlinesText (canonicalText records) = records.map fun r => recordLine r ++ ['\n'] := by
  unfold splitlinesText
  induction records with
  | nil => rfl
  | cons r records ih =>
      have hcons : canonicalText (r :: records) =
          recordLine r ++ '\n' :: canonicalText records := by
        simp [canonicalText]
      rw [hcons, splitlinesTextFrom_line (recordLine_not_lineBreak r), ih]
      rfl

/-- The line of a numbered record, without its terminator. -/
def relativeLine (r : ℕ × Bytes) : List Char := Nat.toDigits 10 r.1 ++ '\t' :: recordLine r.2

theorem relativeText_eq (records : List (ℕ × Bytes)) :
    relativeText records = records.flatMap fun r => relativeLine r ++ ['\n'] := by
  rw [relativeText, splitlinesText_canonicalText]
  induction records with
  | nil => rfl
  | cons r records ih =>
      simp only [List.map_cons, List.zip_cons_cons, List.flatMap_cons] at ih ⊢
      rw [ih]
      simp [relativeLine]

theorem digit_not_lineBreak {c : Char} (h : c.isDigit = true) :
    isLineBreak c = false ∧ c ≠ '\t' := by
  have hdigit : ∀ n < 58, 48 ≤ n → isLineBreak (Char.ofNat n) = false ∧ Char.ofNat n ≠ '\t' := by
    decide
  obtain ⟨hlo, hhi⟩ := Py.digit_bounds h
  have hc := hdigit c.toNat (by omega) hlo
  rwa [Char.ofNat_toNat] at hc

theorem toDigits_chars (n : ℕ) : ∀ c ∈ Nat.toDigits 10 n, isLineBreak c = false ∧ c ≠ '\t' :=
  fun _ hc => digit_not_lineBreak (Nat.isDigit_of_mem_toDigits (by decide) (by decide) hc)

theorem relativeLine_not_lineBreak (r : ℕ × Bytes) :
    ∀ c ∈ relativeLine r, isLineBreak c = false := by
  intro c hc
  simp only [relativeLine, List.mem_append, List.mem_cons] at hc
  rcases hc with hc | rfl | hc
  · exact (toDigits_chars r.1 c hc).1
  · decide
  · exact recordLine_not_lineBreak r.2 c hc

theorem relativeLine_injective : Function.Injective relativeLine := by
  rintro ⟨n, r⟩ ⟨n', r'⟩ h
  have htab : ∀ k, '\t' ∉ Nat.toDigits 10 k := fun k hk => (toDigits_chars k _ hk).2 rfl
  obtain ⟨hn, hr⟩ := cut_unique (htab n) (htab n') h
  have hval := congrArg (fun l => Nat.ofDigitChars 10 l 0) hn
  simp only [Nat.ofDigitChars_ten_toDigits] at hval
  exact Prod.ext hval (recordLine_injective hr)

/-- **The text of numbered records determines them.** -/
theorem relativeText_injective : Function.Injective relativeText := by
  intro rs rs' h
  rw [relativeText_eq, relativeText_eq] at h
  exact lines_injective (fun r => newline_not_mem (relativeLine_not_lineBreak r))
    relativeLine_injective h

/-- **Equal texts mean equal records in equal slots.** -/
theorem canonicalRelativeRecords_inj {records records' : List (ℕ × Bytes)} :
    canonicalRelativeRecords records = canonicalRelativeRecords records' ↔
      records = records' := by
  constructor
  · intro h
    exact relativeText_injective (String.ofList_injective (Py.encode_injective h))
  · rintro rfl
    rfl

end CobolJava
