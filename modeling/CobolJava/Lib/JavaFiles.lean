/-
**Java strings as code units, and the text files that hold them.**

A Java `char` is a UTF-16 code unit.  A `Writer` encodes a string in UTF-8: a high surrogate and the
low surrogate after it make one character, a surrogate on its own becomes a question mark.  A
`Reader` decodes the characters of a file again, and a `BufferedReader` hands them out line by
line.

Main definitions:

* `Java.CodeUnit`, `Java.Text` — characters and strings of Java;
* `Java.encoded`, `Java.decoded` — a string as it is written to a file, and read back;
* `Java.wellPaired` — whether each surrogate of a string stands in a pair;
* `Java.readLines` — the lines `BufferedReader.readLine` returns.

Main results:

* `Java.decoded_encoded` — **a well-paired string is read back as it was written**;
* `Java.encoded_append_cons` — a string is encoded in pieces at a character that is no surrogate;
* `Java.readLines_flatMap`, `Java.splitOn_flatMap` — lines that are written are the lines read.
-/

import CobolJava.Lib.JavaText

set_option autoImplicit false

namespace Java

/-- A `char`. -/
abbrev CodeUnit := Fin 65536

instance neZero_codeUnits : NeZero 65536 := ⟨by decide⟩

/-- A `String`. -/
abbrev Text := List CodeUnit

/-! ### Surrogates -/

/-- `Character.isHighSurrogate(u)` -/
def isHighSurrogate (u : CodeUnit) : Bool := 0xD800 ≤ u.val && u.val < 0xDC00

/-- `Character.isLowSurrogate(u)` -/
def isLowSurrogate (u : CodeUnit) : Bool := 0xDC00 ≤ u.val && u.val < 0xE000

/-- `Character.isSurrogate(u)` -/
def isSurrogate (u : CodeUnit) : Bool := 0xD800 ≤ u.val && u.val < 0xE000

/-- The character of a code unit that is no surrogate. -/
def charOf (u : CodeUnit) : Char := Char.ofNat u.val

/-- The character of a surrogate pair. -/
def pairChar (high low : CodeUnit) : Char :=
  Char.ofNat (0x10000 + (high.val - 0xD800) * 0x400 + (low.val - 0xDC00))

def unitsOf (c : Char) : Text :=
  if c.toNat < 0x10000 then [Fin.ofNat 65536 c.toNat]
  else [Fin.ofNat 65536 (0xD800 + (c.toNat - 0x10000) / 0x400),
    Fin.ofNat 65536 (0xDC00 + (c.toNat - 0x10000) % 0x400)]

/-- The string of characters that are no surrogate pairs. -/
def ofChars (s : List Char) : Text := s.flatMap unitsOf

/-- The character a code unit on its own is written as. -/
def aloneChar (u : CodeUnit) : Char := if isSurrogate u then '?' else charOf u

/-! ### Writing and reading -/

/-- The characters a string is written as. -/
def encoded : Text → List Char
  | [] => []
  | [u] => [aloneChar u]
  | u :: v :: rest =>
      if isHighSurrogate u && isLowSurrogate v then pairChar u v :: encoded rest
      else aloneChar u :: encoded (v :: rest)

/-- The string that is read from characters. -/
def decoded (s : List Char) : Text := s.flatMap unitsOf

/-- Whether each surrogate stands in a pair. -/
def wellPaired : Text → Bool
  | [] => true
  | [u] => !isSurrogate u
  | u :: v :: rest =>
      if isHighSurrogate u && isLowSurrogate v then wellPaired rest
      else !isSurrogate u && wellPaired (v :: rest)

attribute [grind =] encoded

theorem toNat_ofNat {n : ℕ} (h : n.isValidChar) : (Char.ofNat n).toNat = n := by
  rw [Char.ofNat, dif_pos h]
  rfl

theorem toNat_charOf {u : CodeUnit} (h : isSurrogate u = false) : (charOf u).toNat = u.val := by
  have hu := u.isLt
  simp only [isSurrogate, Bool.and_eq_false_iff, decide_eq_false_iff_not] at h
  exact toNat_ofNat (by simp only [Nat.isValidChar]; omega)

theorem unitsOf_charOf {u : CodeUnit} (h : isSurrogate u = false) : unitsOf (charOf u) = [u] := by
  have hu := u.isLt
  rw [unitsOf, toNat_charOf h, if_pos hu]
  simp

theorem toNat_pairChar {u v : CodeUnit} (hu : isHighSurrogate u = true)
    (hv : isLowSurrogate v = true) :
    (pairChar u v).toNat = 0x10000 + (u.val - 0xD800) * 0x400 + (v.val - 0xDC00) := by
  simp only [isHighSurrogate, isLowSurrogate, Bool.and_eq_true, decide_eq_true_eq] at hu hv
  exact toNat_ofNat (by simp only [Nat.isValidChar]; omega)

theorem unitsOf_pairChar {u v : CodeUnit} (hu : isHighSurrogate u = true)
    (hv : isLowSurrogate v = true) : unitsOf (pairChar u v) = [u, v] := by
  rw [unitsOf, toNat_pairChar hu hv, if_neg (by omega)]
  simp only [isHighSurrogate, isLowSurrogate, Bool.and_eq_true, decide_eq_true_eq] at hu hv
  have hdiv : 0xD800 + (0x10000 + (u.val - 0xD800) * 0x400 + (v.val - 0xDC00) - 0x10000) / 0x400 =
      u.val := by omega
  have hmod : 0xDC00 + (0x10000 + (u.val - 0xD800) * 0x400 + (v.val - 0xDC00) - 0x10000) % 0x400 =
      v.val := by omega
  rw [hdiv, hmod]
  simp

/-- **A well-paired string is read back as it was written.** -/
theorem decoded_encoded {s : Text} (h : wellPaired s = true) : decoded (encoded s) = s := by
  induction s using encoded.induct with
  | case1 => rfl
  | case2 u =>
      have hu : isSurrogate u = false := by simpa [wellPaired] using h
      simp [encoded, decoded, aloneChar, hu, unitsOf_charOf hu]
  | case3 u v rest hpair ih =>
      rw [wellPaired, if_pos hpair] at h
      rw [Bool.and_eq_true] at hpair
      rw [encoded, if_pos (by simp [hpair]), decoded, List.flatMap_cons,
        unitsOf_pairChar hpair.1 hpair.2, ← decoded, ih h]
      rfl
  | case4 u v rest hpair ih =>
      rw [wellPaired, if_neg hpair, Bool.and_eq_true, Bool.not_eq_true'] at h
      rw [encoded, if_neg hpair, decoded, List.flatMap_cons, aloneChar, h.1,
        if_neg (by decide), unitsOf_charOf h.1, ← decoded, ih h.2]
      rfl

/-! ### Pieces of a string -/

theorem not_low_of_not_surrogate {u : CodeUnit} (h : isSurrogate u = false) :
    isLowSurrogate u = false := by
  simp only [isSurrogate, isLowSurrogate, Bool.and_eq_false_iff, decide_eq_false_iff_not] at *
  omega

theorem not_high_of_not_surrogate {u : CodeUnit} (h : isSurrogate u = false) :
    isHighSurrogate u = false := by
  simp only [isSurrogate, isHighSurrogate, Bool.and_eq_false_iff, decide_eq_false_iff_not] at *
  omega

theorem encoded_cons {u : CodeUnit} (h : isSurrogate u = false) (s : Text) :
    encoded (u :: s) = charOf u :: encoded s := by
  cases s with
  | nil => simp [encoded, aloneChar, h]
  | cons v s => simp [encoded, not_high_of_not_surrogate h, aloneChar, h]

theorem wellPaired_cons {u : CodeUnit} (h : isSurrogate u = false) (s : Text) :
    wellPaired (u :: s) = wellPaired s := by
  cases s with
  | nil => simp [wellPaired, h]
  | cons v s => simp [wellPaired, not_high_of_not_surrogate h, h]

theorem encoded_append_cons (a : Text) {u : CodeUnit} (h : isSurrogate u = false) (b : Text) :
    encoded (a ++ u :: b) = encoded a ++ charOf u :: encoded b := by
  induction a using encoded.induct with
  | case1 => exact encoded_cons h b
  | case2 v =>
      have hu := not_low_of_not_surrogate h
      simp [encoded, hu, encoded_cons h]
  | case3 v w rest hpair ih =>
      simp only [List.cons_append, encoded, if_pos hpair, ih]
  | case4 v w rest hpair ih =>
      rw [List.cons_append, List.cons_append] at *
      rw [encoded, if_neg hpair, ih, encoded, if_neg hpair]
      rfl

theorem wellPaired_append_cons (a : Text) {u : CodeUnit} (h : isSurrogate u = false) (b : Text) :
    wellPaired (a ++ u :: b) = (wellPaired a && wellPaired b) := by
  induction a using wellPaired.induct with
  | case1 => simp [wellPaired, wellPaired_cons h]
  | case2 v =>
      have hu := not_low_of_not_surrogate h
      simp [wellPaired, hu, wellPaired_cons h]
  | case3 v w rest hpair ih =>
      simp only [List.cons_append, wellPaired, if_pos hpair, ih]
  | case4 v w rest hpair ih =>
      rw [List.cons_append, List.cons_append] at *
      rw [wellPaired, if_neg hpair, ih, wellPaired, if_neg hpair, Bool.and_assoc]

theorem encoded_append_of_plain {a : Text} (h : ∀ u ∈ a, isSurrogate u = false) (b : Text) :
    encoded (a ++ b) = a.map charOf ++ encoded b := by
  induction a with
  | nil => rfl
  | cons u a ih =>
      rw [List.cons_append, encoded_cons (h u (List.mem_cons_self ..)),
        ih fun v hv => h v (List.mem_cons_of_mem _ hv)]
      rfl

theorem wellPaired_append_of_plain {a : Text} (h : ∀ u ∈ a, isSurrogate u = false) (b : Text) :
    wellPaired (a ++ b) = wellPaired b := by
  induction a with
  | nil => rfl
  | cons u a ih =>
      rw [List.cons_append, wellPaired_cons (h u (List.mem_cons_self ..)),
        ih fun v hv => h v (List.mem_cons_of_mem _ hv)]

/-- A character below the surrogates that a string is written with, the question mark apart, is a
character of the string. -/
theorem mem_of_mem_encoded {s : Text} {c : Char} (hc : c ∈ encoded s) (hlow : c.toNat < 0xD800)
    (hmark : c ≠ '?') : Fin.ofNat 65536 c.toNat ∈ s := by
  have halone : ∀ u, c = aloneChar u → Fin.ofNat 65536 c.toNat = u := by
    intro u hu
    rw [aloneChar] at hu
    split at hu
    · exact absurd hu hmark
    · rename_i hs
      rw [hu, toNat_charOf (by simpa using hs)]
      simp
  induction s using encoded.induct with
  | case1 => cases hc
  | case2 u => exact List.mem_singleton.2 (halone u (List.mem_singleton.1 hc))
  | case3 u v rest hpair ih =>
      rw [encoded, if_pos hpair] at hc
      rw [Bool.and_eq_true] at hpair
      rcases List.mem_cons.1 hc with hfirst | hc
      · rw [hfirst, toNat_pairChar hpair.1 hpair.2] at hlow
        omega
      · exact List.mem_cons_of_mem _ (List.mem_cons_of_mem _ (ih hc))
  | case4 u v rest hpair ih =>
      rw [encoded, if_neg hpair] at hc
      rcases List.mem_cons.1 hc with hu | hc
      · exact List.mem_cons.2 (.inl (halone u hu))
      · exact List.mem_cons_of_mem _ (ih hc)

/-! ### Lines -/

/-- The lines that `current` and the characters after it make. -/
def readLinesFrom (current : Text) : Text → List Text
  | [] => if current = [] then [] else [current]
  | 13 :: 10 :: rest => current :: readLinesFrom [] rest
  | u :: rest =>
      if u = 10 ∨ u = 13 then current :: readLinesFrom [] rest
      else readLinesFrom (current ++ [u]) rest

/-- The lines `BufferedReader.readLine` returns. -/
def readLines (s : Text) : List Text := readLinesFrom [] s

/-- Whether a string holds a line terminator. -/
def isOneLine (s : Text) : Bool := s.all fun u => u ≠ 10 && u ≠ 13

attribute [grind =] readLinesFrom

theorem readLinesFrom_line {line : Text} (h : isOneLine line = true) (current rest : Text) :
    readLinesFrom current (line ++ 10 :: rest) = (current ++ line) :: readLinesFrom [] rest := by
  induction line generalizing current with
  | nil =>
      rw [List.nil_append, readLinesFrom, if_pos (.inl rfl), List.append_nil]
      intro rest' h13 _
      exact absurd h13 (by decide)
  | cons u line ih =>
      simp only [isOneLine, List.all_cons, Bool.and_eq_true, decide_eq_true_eq] at h
      rw [List.cons_append, readLinesFrom, if_neg (by simp [h.1.1, h.1.2]), ih h.2]
      · simp
      · rintro rest' h13 -
        exact h.1.2 h13

theorem readLines_flatMap {lines : List Text} (h : ∀ l ∈ lines, isOneLine l = true) :
    readLines (lines.flatMap fun l => l ++ [10]) = lines := by
  unfold readLines
  induction lines with
  | nil => rfl
  | cons l lines ih =>
      rw [List.flatMap_cons, List.append_assoc, List.singleton_append,
        readLinesFrom_line (h l (List.mem_cons_self ..)),
        ih fun l' hl' => h l' (List.mem_cons_of_mem _ hl')]
      rfl

theorem splitOn_flatMap {α : Type*} [DecidableEq α] (s : α) {lines : List (List α)}
    (h : ∀ l ∈ lines, s ∉ l) :
    (lines.flatMap fun l => l ++ [s]).splitOn s = lines ++ [[]] := by
  induction lines with
  | nil => rfl
  | cons l lines ih =>
      rw [List.flatMap_cons, List.append_assoc, List.singleton_append,
        List.splitOn_append_cons_self_of_not_mem (h l (List.mem_cons_self ..)),
        ih fun l' hl' => h l' (List.mem_cons_of_mem _ hl')]
      rfl

end Java
