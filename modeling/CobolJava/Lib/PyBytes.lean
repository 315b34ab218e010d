/-
**Python byte strings.**

The operations on `bytes` the modelled programs call, on lists of bytes: encoding, splitting into
lines, sorting, stripping, reading an integer, and the text `str` writes for them.

Main definitions:

* `Py.Bytes`, `Py.encode`, `Py.decode` — byte strings, and the encoding of a text;
* `Py.replaceCrlf`, `Py.splitlines`, `Py.sortedBytes` — the line operations;
* `Py.intOfBytes` — the call `int(content.strip())`;
* `Py.hex`, `Py.bytesStr` — the texts of a byte string.

Main results:

* `Py.encode_injective` — the encoding determines the text;
* `Py.encode_ofList` — the encoding of an ASCII text, character by character;
* `Py.intOfBytes_encode_toString` — **an integer is read back from its text**;
* `Py.hex_injective` — the hexadecimal text determines the bytes.
-/

import Mathlib.Data.List.Sort
import Mathlib.Data.List.Induction
import Mathlib.Data.UInt
import Mathlib.Tactic.Common

set_option autoImplicit false

namespace Py

abbrev Bytes := List UInt8

/-! ### Encoding -/

/-- The method `text.encode()`: the UTF-8 bytes of a text. -/
def encode (text : String) : Bytes := text.toUTF8.data.toList

theorem encode_injective : Function.Injective encode := by
  intro s t h
  have hdata : s.toByteArray.data = t.toByteArray.data := Array.toList_inj.1 h
  exact String.toByteArray_inj.1 (ByteArray.ext hdata)

/-- The method `content.decode("utf-8")`; `none` is a `UnicodeDecodeError`. -/
def decode (content : Bytes) : Option String := String.fromUTF8? ⟨content.toArray⟩

/-- **What is encoded is decoded.** -/
theorem decode_encode (text : String) : decode (encode text) = some text := by
  have hbytes : (⟨(encode text).toArray⟩ : ByteArray) = text.toByteArray := by
    apply ByteArray.ext
    simp [encode]
  rw [decode, hbytes, String.fromUTF8?, dif_pos text.isValidUTF8]
  rfl

theorem encode_of_decode {content : Bytes} {text : String} (h : decode content = some text) :
    encode text = content := by
  unfold decode String.fromUTF8? at h
  split_ifs at h with hvalid
  rw [← Option.some.inj h]
  exact List.toList_toArray

theorem length_le_encode (cs : List Char) : cs.length ≤ (encode (String.ofList cs)).length := by
  induction cs with
  | nil => exact Nat.zero_le _
  | cons c cs ih =>
      have hpos : 0 < (String.utf8EncodeChar c).length := by
        rw [String.length_utf8EncodeChar]
        exact c.utf8Size_pos
      have hsplit : (encode (String.ofList (c :: cs))).length =
          (String.utf8EncodeChar c).length + (encode (String.ofList cs)).length := by
        simp only [encode, String.toUTF8_eq_toByteArray, String.toByteArray_ofList,
          List.utf8Encode_cons (c := c) (l := cs), List.utf8Encode_singleton]
        simp
      rw [List.length_cons, hsplit]
      omega

/-- The byte of an ASCII character. -/
def byte (c : Char) : UInt8 := UInt8.ofNat c.toNat

theorem encode_ofList_cons {c : Char} (hc : c.toNat < 128) (cs : List Char) :
    encode (String.ofList (c :: cs)) = byte c :: encode (String.ofList cs) := by
  have hchar : String.utf8EncodeChar c = [byte c] := by
    rw [String.utf8EncodeChar_eq_singleton]
    · rfl
    · exact Char.utf8Size_eq_one_iff.2 (UInt32.le_iff_toNat_le.2 (Nat.lt_succ_iff.1 hc))
  simp only [encode, String.toUTF8_eq_toByteArray, String.toByteArray_ofList,
    List.utf8Encode_cons (c := c) (l := cs), List.utf8Encode_singleton, hchar]
  simp

theorem encode_ofList {cs : List Char} (h : ∀ c ∈ cs, c.toNat < 128) :
    encode (String.ofList cs) = cs.map byte := by
  induction cs with
  | nil => rfl
  | cons c cs ih =>
      rw [encode_ofList_cons (h c (List.mem_cons_self ..)),
        ih fun d hd => h d (List.mem_cons_of_mem _ hd), List.map_cons]

/-! ### Lines -/

/-- The method `content.replace(b"\r\n", b"\n")`. -/
def replaceCrlf : Bytes → Bytes
  | [] => []
  | 13 :: 10 :: rest => 10 :: replaceCrlf rest
  | b :: rest => b :: replaceCrlf rest

/-- The lines that `current` and the bytes after it make, each with its terminator. -/
def splitlinesFrom (current : Bytes) : Bytes → List Bytes
  | [] => if current = [] then [] else [current]
  | 13 :: 10 :: rest => (current ++ [13, 10]) :: splitlinesFrom [] rest
  | b :: rest =>
      if b = 10 ∨ b = 13 then (current ++ [b]) :: splitlinesFrom [] rest
      else splitlinesFrom (current ++ [b]) rest

/-- The method `content.splitlines(keepends=True)`. -/
def splitlines (content : Bytes) : List Bytes := splitlinesFrom [] content

def bytesLe : Bytes → Bytes → Bool
  | [], _ => true
  | _ :: _, [] => false
  | a :: as, b :: bs => a < b || (a == b && bytesLe as bs)

/-- The call `sorted(lines)`. -/
def sortedBytes (lines : List Bytes) : List Bytes :=
  lines.insertionSort fun a b => bytesLe a b = true

/-! ### Integers -/

/-- The white space of `bytes.isspace`. -/
def isSpaceByte (b : UInt8) : Bool := b == 32 || (9 ≤ b && b ≤ 13)

/-- The method `content.strip()`. -/
def stripBytes (content : Bytes) : Bytes :=
  ((content.dropWhile isSpaceByte).reverse.dropWhile isSpaceByte).reverse

/-- The number of decimal digits read after `acc`, single underscores between digits allowed;
`after` says that a digit came last. -/
def digitsFrom (acc : ℕ) (after : Bool) : Bytes → Option ℕ
  | [] => if after then some acc else none
  | b :: rest =>
      if 48 ≤ b ∧ b ≤ 57 then digitsFrom (10 * acc + (b.toNat - 48)) true rest
      else if b = 95 ∧ after = true then digitsFrom acc false rest
      else none

/-- The number of an unsigned integer literal. -/
def digits (content : Bytes) : Option ℕ := digitsFrom 0 false content

/-- The call `int(content.strip())`; `none` stands for the `ValueError`. -/
def intOfBytes (content : Bytes) : Option ℤ :=
  match stripBytes content with
  | 45 :: rest => (digits rest).map fun n => -(n : ℤ)
  | 43 :: rest => (digits rest).map fun n => (n : ℤ)
  | rest => (digits rest).map fun n => (n : ℤ)

attribute [grind =] replaceCrlf splitlinesFrom bytesLe

theorem digit_bounds {c : Char} (h : c.isDigit = true) : 48 ≤ c.toNat ∧ c.toNat ≤ 57 := by
  simp only [Char.isDigit, ge_iff_le, Bool.and_eq_true, decide_eq_true_eq] at h
  exact ⟨UInt32.le_iff_toNat_le.1 h.1, UInt32.le_iff_toNat_le.1 h.2⟩

theorem byte_toNat {c : Char} (h : c.toNat < 128) : (byte c).toNat = c.toNat := by
  rw [byte, UInt8.toNat_ofNat']
  omega

theorem digitsFrom_digits {cs : List Char} (h : ∀ c ∈ cs, c.isDigit = true) {acc : ℕ} {after : Bool}
    (hne : cs ≠ [] ∨ after = true) :
    digitsFrom acc after (cs.map byte) = some (Nat.ofDigitChars 10 cs acc) := by
  induction cs generalizing acc after with
  | nil =>
      have hafter : after = true := hne.resolve_left fun hn => hn rfl
      simp [digitsFrom, hafter]
  | cons c cs ih =>
      obtain ⟨hlo, hhi⟩ := digit_bounds (h c (List.mem_cons_self ..))
      have hval : (byte c).toNat = c.toNat := byte_toNat (by omega)
      have hdigit : 48 ≤ byte c ∧ byte c ≤ 57 := by
        rw [UInt8.le_iff_toNat_le, UInt8.le_iff_toNat_le, hval]
        exact ⟨hlo, hhi⟩
      rw [List.map_cons, digitsFrom, if_pos hdigit, hval,
        ih (fun d hd => h d (List.mem_cons_of_mem _ hd)) (.inr rfl), Nat.ofDigitChars_cons]
      rfl

theorem stripBytes_of_not_space {bs : Bytes} (h : ∀ b ∈ bs, isSpaceByte b = false) :
    stripBytes bs = bs := by
  have hdrop : ∀ l : Bytes, (∀ b ∈ l, isSpaceByte b = false) → l.dropWhile isSpaceByte = l := by
    intro l hl
    cases l with
    | nil => rfl
    | cons b l => simp [hl b (List.mem_cons_self ..)]
  rw [stripBytes, hdrop bs h, hdrop bs.reverse fun b hb => h b (List.mem_reverse.1 hb),
    List.reverse_reverse]

theorem not_space_of_digit {c : Char} (h : c.isDigit = true) : isSpaceByte (byte c) = false := by
  obtain ⟨hlo, hhi⟩ := digit_bounds h
  have hval : (byte c).toNat = c.toNat := byte_toNat (by omega)
  simp only [isSpaceByte, Bool.or_eq_false_iff, Bool.and_eq_false_iff, beq_eq_false_iff_ne,
    decide_eq_false_iff_not, UInt8.le_iff_toNat_le, ne_eq, ← UInt8.toNat_inj, hval]
  have h32 : (32 : UInt8).toNat = 32 := rfl
  have h13 : (13 : UInt8).toNat = 13 := rfl
  omega

theorem digits_toDigits (n : ℕ) : digits ((Nat.toDigits 10 n).map byte) = some n := by
  rw [digits, digitsFrom_digits (fun c hc => Nat.isDigit_of_mem_toDigits (by decide) (by decide) hc)
    (.inl Nat.toDigits_ne_nil), Nat.ofDigitChars_ten_toDigits]

theorem toDigits_ascii (n : ℕ) : ∀ c ∈ Nat.toDigits 10 n, c.toNat < 128 := by
  intro c hc
  obtain ⟨-, hhi⟩ := digit_bounds (Nat.isDigit_of_mem_toDigits (by decide) (by decide) hc)
  omega

theorem toString_int (n : ℤ) : toString n = String.ofList
    (match n with
      | .ofNat k => Nat.toDigits 10 k
      | .negSucc k => '-' :: Nat.toDigits 10 (k + 1)) := by
  cases n with
  | ofNat k => exact Nat.repr_eq_ofList_toDigits
  | negSucc k =>
      have h : toString (Int.negSucc k) = "-" ++ (k + 1).repr := rfl
      rw [h, Nat.repr_eq_ofList_toDigits]
      exact (@String.ofList_append ['-'] _).symm

/-- Reading unsigned digits. -/
theorem intOfBytes_digits (k : ℕ) : intOfBytes ((Nat.toDigits 10 k).map byte) = some (k : ℤ) := by
  have hstrip : stripBytes ((Nat.toDigits 10 k).map byte) = (Nat.toDigits 10 k).map byte := by
    refine stripBytes_of_not_space fun b hb => ?_
    obtain ⟨c, hc, rfl⟩ := List.mem_map.1 hb
    exact not_space_of_digit (Nat.isDigit_of_mem_toDigits (by decide) (by decide) hc)
  rw [intOfBytes, hstrip]
  cases hd : Nat.toDigits 10 k with
  | nil => exact absurd hd Nat.toDigits_ne_nil
  | cons c cs =>
      have hdig : c.isDigit = true := Nat.isDigit_of_mem_toDigits (b := 10) (n := k) (by decide)
        (by decide) (by rw [hd]; exact List.mem_cons_self ..)
      obtain ⟨hlo, hhi⟩ := digit_bounds hdig
      have hval : (byte c).toNat = c.toNat := byte_toNat (by omega)
      have hplus : byte c ≠ 43 := fun h => by
        rw [h] at hval
        have h43 : (43 : UInt8).toNat = 43 := rfl
        omega
      have hminus : byte c ≠ 45 := fun h => by
        rw [h] at hval
        have h45 : (45 : UInt8).toNat = 45 := rfl
        omega
      have hread := digits_toDigits k
      rw [hd] at hread
      simp only [List.map_cons] at hread ⊢
      split
      · next heq => exact absurd (List.cons.inj heq).1 hminus
      · next heq => exact absurd (List.cons.inj heq).1 hplus
      · rw [hread]
        rfl

/-- **An integer is read back from its text.** -/
theorem intOfBytes_encode_toString (n : ℤ) : intOfBytes (encode (toString n)) = some n := by
  rw [toString_int]
  cases n with
  | ofNat k =>
      rw [encode_ofList (toDigits_ascii k)]
      exact intOfBytes_digits k
  | negSucc k =>
      rw [encode_ofList_cons (by decide), encode_ofList (toDigits_ascii (k + 1))]
      have hstrip : stripBytes (byte '-' :: (Nat.toDigits 10 (k + 1)).map byte) =
          byte '-' :: (Nat.toDigits 10 (k + 1)).map byte := by
        refine stripBytes_of_not_space fun b hb => ?_
        rcases List.mem_cons.1 hb with rfl | hb
        · decide
        · obtain ⟨c, hc, rfl⟩ := List.mem_map.1 hb
          exact not_space_of_digit (Nat.isDigit_of_mem_toDigits (by decide) (by decide) hc)
      have hbyte : byte '-' = 45 := by decide
      rw [intOfBytes, hstrip, hbyte]
      simp only [digits_toDigits]
      exact congrArg some (Int.negSucc_eq k).symm

/-! ### Texts of a byte string -/

/-- The two hexadecimal digits of a byte. -/
def hexByte (b : UInt8) : List Char := [Nat.digitChar (b.toNat / 16), Nat.digitChar (b.toNat % 16)]

/-- The method `content.hex()`. -/
def hex (content : Bytes) : List Char := content.flatMap hexByte

/-- The escape `str` writes for a byte of a byte string quoted with `quote`. -/
def bytesEscape (quote : Char) (b : UInt8) : List Char :=
  if b = byte quote ∨ b = 92 then ['\\', Char.ofNat b.toNat]
  else if b = 9 then ['\\', 't']
  else if b = 10 then ['\\', 'n']
  else if b = 13 then ['\\', 'r']
  else if b < 32 ∨ 127 ≤ b then '\\' :: 'x' :: hexByte b
  else [Char.ofNat b.toNat]

/-- The text `str(content)`. -/
def bytesStr (content : Bytes) : String :=
  let quote := if 39 ∈ content ∧ 34 ∉ content then '"' else '\''
  String.ofList ('b' :: quote :: (content.flatMap (bytesEscape quote) ++ [quote]))

theorem hexByte_injective : Function.Injective hexByte := by
  intro a b h
  have hdigit : ∀ m < 16, ∀ n < 16, Nat.digitChar m = Nat.digitChar n → m = n := by decide
  simp only [hexByte, List.cons.injEq, and_true] at h
  have ha := a.toNat_lt
  have hb := b.toNat_lt
  have hhi := hdigit _ (by omega) _ (by omega) h.1
  have hlo := hdigit _ (by omega) _ (by omega) h.2
  rw [← UInt8.toNat_inj]
  omega

/-- **The hexadecimal text determines the bytes.** -/
theorem hex_injective : Function.Injective hex := by
  intro as
  induction as with
  | nil =>
      intro bs h
      cases bs with
      | nil => rfl
      | cons b bs => simp [hex, hexByte] at h
  | cons a as ih =>
      intro bs h
      cases bs with
      | nil => simp [hex, hexByte] at h
      | cons b bs =>
          have hsplit : hexByte a ++ hex as = hexByte b ++ hex bs := h
          obtain ⟨hab, hrest⟩ := List.append_inj hsplit rfl
          rw [hexByte_injective hab, ih hrest]

end Py
