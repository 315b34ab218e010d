/-
**Numbers read from standard input.**

The class `CobolStdin` of the generated programs (`stdin_support_template.py`): how `ACCEPT` turns a
line into the digits of an unsigned field.  Arrays are read with a check, so a read out of range is
the result `none`; `int` widths are natural numbers.

Main definitions:

* `digits`, `number`, `decimal` — the methods, over the UTF-8 bytes of the line;
* `inputBytes`, `numeral` — the bytes of the field, and the number they write;
* `Plain`, `Spoiled` — bytes that write a number, and bytes that zero the field.

Main results:

* `digits_eq` — no read is out of range, and what the digits are;
* `accept_correct` — **a line becomes the number that COBOL stores**.
-/

import CobolJava.Lib.DecimalText
import Mathlib.Tactic.IntervalCases

set_option autoImplicit false

namespace CobolJava.CobolStdin

/-! ### The methods -/

/-- `isDigit` -/
def isDigit (b : UInt8) : Bool :=
  48 ≤ b && b ≤ 57

/-- `isSpace`, that of the "C" locale. -/
def isSpace (b : UInt8) : Bool :=
  b = 32 || 9 ≤ b && b ≤ 13

def charOf (b : UInt8) : Char :=
  Char.ofNat b.toNat

/-- The bytes `.`, `,`, `+` and `-`. -/
abbrev point : UInt8 := 46
abbrev comma : UInt8 := 44
abbrev plus : UInt8 := 43
abbrev minus : UInt8 := 45

section Loops

variable (src : List UInt8)

/-- The loop over leading white space; `left` bytes are left before `end`. -/
def skipSpaces : ℕ → ℕ → Option ℕ
  | 0, s1 => some s1
  | left + 1, s1 => do
      let c ← src[s1]?
      if isSpace c then skipSpaces left (s1 + 1) else some s1

def skipSign (stop s1 : ℕ) : Option ℕ :=
  if s1 < stop then do
    let c ← src[s1]?
    some (if c = plus ∨ c = minus then s1 + 1 else s1)
  else some s1

/-- The loop that counts the digits before the first point. -/
def countDigits : ℕ → ℕ → ℕ → Option ℕ
  | 0, _, count => some count
  | left + 1, p, count => do
      let c ← src[p]?
      if c = point then some count
      else countDigits left (p + 1) (if isDigit c then count + 1 else count)

/-- `while (!isDigit(src[s1++]))`: no bound but that of the array, of which `left` bytes are left. -/
def passDigit : ℕ → ℕ → Option ℕ
  | 0, _ => none
  | left + 1, s1 => do
      let c ← src[s1]?
      if isDigit c then some (s1 + 1) else passDigit left (s1 + 1)

/-- The loop over the excess digits. -/
def dropDigits : ℕ → ℕ → Option ℕ
  | 0, s1 => some s1
  | excess + 1, s1 => do
      let s1 ← passDigit src (src.length - s1) s1
      dropDigits excess s1

/-- The loop that fills the field; `left` bytes are left before `end`. -/
def fill (size : ℕ) : ℕ → ℕ → ℕ → ℕ → List Char → Option (List Char)
  | 0, _, _, _, dst => some dst
  | left + 1, s1, s2, points, dst =>
      if s2 < size then do
        let c ← src[s1]?
        if isDigit c then fill size left (s1 + 1) (s2 + 1) points (dst.set s2 (charOf c))
        else if c = point then
          if points > 0 then some (List.replicate size '0')
          else fill size left (s1 + 1) s2 (points + 1) dst
        else if isSpace c || c = comma then fill size left (s1 + 1) s2 points dst
        else some (List.replicate size '0')
      else some dst

end Loops

/-- `digits` -/
def digits (src : List UInt8) (intDigits scale : ℕ) : Option (List Char) := do
  let size := intDigits + scale
  let stop := min src.length size
  let s1 ← skipSpaces src stop 0
  let s1 ← skipSign src stop s1
  let count ← countDigits src (stop - s1) s1 0
  let s2 := intDigits - count
  let s1 ← dropDigits src (count - intDigits) s1
  fill src size (stop - s1) s1 s2 0 (List.replicate size '0')

/-- `Long.parseLong` of digits. -/
def parseLong (text : List Char) : Option ℕ :=
  if text ≠ [] ∧ text.all Char.isDigit ∧ DecimalText.number text < 2 ^ 63 then
    some (DecimalText.number text)
  else none

/-- `new BigInteger` of digits. -/
def bigInteger (text : List Char) : Option ℕ :=
  if text ≠ [] ∧ text.all Char.isDigit then some (DecimalText.number text) else none

/-- `number` -/
def number (src : List UInt8) (width : ℕ) : Option ℕ := do
  parseLong (← digits src width 0)

/-- `decimal`: the unscaled value and the scale. -/
def decimal (src : List UInt8) (intDigits scale : ℕ) : Option (ℕ × ℕ) := do
  some (← bigInteger (← digits src intDigits scale), scale)

/-! ### What a line writes -/

/-- Bytes without leading white space and one sign. -/
def withoutSign (bytes : List UInt8) : List UInt8 :=
  match bytes.dropWhile isSpace with
  | c :: rest => if c = plus ∨ c = minus then rest else c :: rest
  | [] => []

/-- The bytes of a line that are read for a field of some width. -/
def inputBytes (src : List UInt8) (size : ℕ) : List UInt8 :=
  withoutSign (src.take size)

/-- The digits among some bytes, as text. -/
def digitText (bytes : List UInt8) : List Char :=
  (bytes.filter isDigit).map charOf

/-- The bytes before the first point. -/
def beforePoint (bytes : List UInt8) : List UInt8 :=
  bytes.takeWhile (· ≠ point)

/-- The bytes behind the first point. -/
def behindPoint (bytes : List UInt8) : List UInt8 :=
  (bytes.dropWhile (· ≠ point)).tail

/-- **The number that bytes write**, whatever stands between their digits. -/
def numeral (bytes : List UInt8) : ℚ :=
  DecimalText.number (digitText (beforePoint bytes)) +
    DecimalText.fraction (digitText (behindPoint bytes))

def isIgnored (b : UInt8) : Bool :=
  isSpace b || b = comma

/-- **Bytes that write a number**: digits, white space, commas and at most one point. -/
def Plain (bytes : List UInt8) : Prop :=
  (∀ b ∈ bytes, isDigit b ∨ isIgnored b ∨ b = point) ∧ bytes.count point ≤ 1

/-- The bytes behind the first so many digits. -/
def behindDigits : ℕ → List UInt8 → List UInt8
  | 0, bytes => bytes
  | excess + 1, bytes => behindDigits excess (bytes.dropWhile fun b => !isDigit b).tail

/-- The integer digits that bytes write. -/
def intCount (bytes : List UInt8) : ℕ :=
  (beforePoint bytes).countP isDigit

/-- The bytes without the excess integer digits. -/
def kept (intDigits : ℕ) (bytes : List UInt8) : List UInt8 :=
  behindDigits (intCount bytes - intDigits) bytes

/-- **A second point or another character is met before the field is full**: fewer digits stand
before it than the field still has room for. -/
def Spoiled (intDigits scale : ℕ) (bytes : List UInt8) : Prop :=
  ∃ before b behind, kept intDigits bytes = before ++ b :: behind ∧
    intDigits - intCount bytes + before.countP isDigit < intDigits + scale ∧
    ((isDigit b = false ∧ isIgnored b = false ∧ b ≠ point) ∨ (b = point ∧ point ∈ before))

/-! ### The loops stay inside the array -/

section Loops

variable {src e q : List UInt8} {s1 : ℕ} {c : UInt8}

theorem read_eq (he : e <+: src) (hq : e.drop s1 = c :: q) :
    src[s1]? = some c ∧ e.drop (s1 + 1) = q := by
  have hread : e[s1]? = some c := by
    rw [← List.head?_drop, hq]
    rfl
  constructor
  · obtain ⟨rest, rfl⟩ := he
    obtain ⟨hlt, -⟩ := List.getElem?_eq_some_iff.1 hread
    rw [List.getElem?_append_left hlt, hread]
  · rw [← List.tail_drop, hq]
    rfl

theorem skipSpaces_eq (he : e <+: src) (q : List UInt8) (s1 : ℕ) (hq : e.drop s1 = q) :
    ∃ s1', skipSpaces src q.length s1 = some s1' ∧ e.drop s1' = q.dropWhile isSpace := by
  induction q generalizing s1 with
  | nil => exact ⟨s1, rfl, hq⟩
  | cons c q ih =>
      obtain ⟨hread, hnext⟩ := read_eq he hq
      rw [List.length_cons, skipSpaces, hread, List.dropWhile_cons]
      by_cases hspace : isSpace c = true
      · simpa [hspace] using ih (s1 + 1) hnext
      · exact ⟨s1, by simp [hspace], by simpa [hspace] using hq⟩

theorem skipSign_eq (he : e <+: src) (hq : e.drop s1 = e.dropWhile isSpace) :
    ∃ s1', skipSign src e.length s1 = some s1' ∧ e.drop s1' = withoutSign e := by
  rw [withoutSign, skipSign]
  cases hcase : e.dropWhile isSpace with
  | nil =>
      have hend : ¬ s1 < e.length := by
        rw [hcase, List.drop_eq_nil_iff] at hq
        omega
      exact ⟨s1, if_neg hend, by rw [hq, hcase]⟩
  | cons c q =>
      rw [hcase] at hq
      obtain ⟨hread, hnext⟩ := read_eq he hq
      have hend : s1 < e.length := by
        by_contra hge
        rw [List.drop_eq_nil_of_le (by omega)] at hq
        cases hq
      rw [if_pos hend, hread]
      by_cases hsign : c = plus ∨ c = minus
      · exact ⟨s1 + 1, by simp [hsign], by simpa [hsign] using hnext⟩
      · exact ⟨s1, by simp [hsign], by simpa [hsign] using hq⟩

theorem countDigits_eq (he : e <+: src) (q : List UInt8) (p count : ℕ) (hq : e.drop p = q) :
    countDigits src q.length p count = some (count + intCount q) := by
  induction q generalizing p count with
  | nil => rfl
  | cons c q ih =>
      obtain ⟨hread, hnext⟩ := read_eq he hq
      rw [List.length_cons, countDigits, hread]
      by_cases hpoint : c = point
      · simp [hpoint, intCount, beforePoint]
      · have hcount : intCount (c :: q) = (if isDigit c then 1 else 0) + intCount q := by
          rw [intCount, beforePoint, List.takeWhile_cons_of_pos (by simpa using hpoint),
            List.countP_cons, Nat.add_comm]
          rfl
        rw [Option.bind_eq_bind, Option.bind_some, if_neg hpoint, ih _ _ hnext, hcount]
        split <;> simp [Nat.add_assoc]

theorem passDigit_eq (he : e <+: src) (q : List UInt8) (s1 left : ℕ) (hq : e.drop s1 = q)
    (hleft : q.length ≤ left) (hdigit : 0 < q.countP isDigit) :
    ∃ s1', passDigit src left s1 = some s1' ∧
      e.drop s1' = (q.dropWhile fun b => !isDigit b).tail := by
  induction q generalizing s1 left with
  | nil => simp at hdigit
  | cons c q ih =>
      obtain ⟨hread, hnext⟩ := read_eq he hq
      obtain ⟨left, rfl⟩ : ∃ n, left = n + 1 := ⟨left - 1, by rw [List.length_cons] at hleft; omega⟩
      rw [passDigit, hread, List.dropWhile_cons]
      by_cases hc : isDigit c = true
      · exact ⟨s1 + 1, by simp [hc], by simpa [hc] using hnext⟩
      · rw [List.countP_cons_of_neg hc] at hdigit
        rw [List.length_cons] at hleft
        simpa [hc] using ih (s1 + 1) left hnext (by omega) hdigit

theorem countP_behindDigit (q : List UInt8) :
    ((q.dropWhile fun b => !isDigit b).tail).countP isDigit = q.countP isDigit - 1 := by
  induction q with
  | nil => rfl
  | cons c q ih =>
      by_cases hc : isDigit c = true
      · simp [hc]
      · simpa [hc] using ih

theorem dropDigits_eq (he : e <+: src) (excess : ℕ) (q : List UInt8) (s1 : ℕ)
    (hq : e.drop s1 = q) (hexcess : excess ≤ q.countP isDigit) :
    ∃ s1', dropDigits src excess s1 = some s1' ∧ e.drop s1' = behindDigits excess q := by
  induction excess generalizing q s1 with
  | zero => exact ⟨s1, rfl, hq⟩
  | succ excess ih =>
      have hleft : q.length ≤ src.length - s1 := by
        rw [← hq, List.length_drop]
        exact Nat.sub_le_sub_right he.length_le s1
      obtain ⟨s1', hpass, hdrop⟩ := passDigit_eq he q s1 _ hq hleft (by omega)
      rw [dropDigits, hpass]
      exact ih _ s1' hdrop (by rw [countP_behindDigit]; omega)

/-- What the last loop makes of the bytes that are left. -/
def filled (size : ℕ) : List UInt8 → ℕ → ℕ → List Char → List Char
  | [], _, _, dst => dst
  | c :: q, s2, points, dst =>
      if s2 < size then
        if isDigit c then filled size q (s2 + 1) points (dst.set s2 (charOf c))
        else if c = point then
          if points > 0 then List.replicate size '0' else filled size q s2 (points + 1) dst
        else if isSpace c || c = comma then filled size q s2 points dst
        else List.replicate size '0'
      else dst

attribute [grind =] filled

theorem fill_eq (he : e <+: src) (size : ℕ) (q : List UInt8) (s1 s2 points : ℕ) (dst : List Char)
    (hq : e.drop s1 = q) :
    fill src size q.length s1 s2 points dst = some (filled size q s2 points dst) := by
  induction q generalizing s1 s2 points dst with
  | nil => rfl
  | cons c q ih =>
      obtain ⟨hread, hnext⟩ := read_eq he hq
      rw [List.length_cons, fill, filled, hread]
      by_cases hroom : s2 < size
      · rw [if_pos hroom, if_pos hroom, Option.bind_eq_bind, Option.bind_some]
        split_ifs
        · exact ih _ _ _ _ hnext
        · rfl
        · exact ih _ _ _ _ hnext
        · exact ih _ _ _ _ hnext
        · rfl
      · rw [if_neg hroom, if_neg hroom]

end Loops

/-- **No read is out of range**, and the field is what the last loop makes of the kept bytes. -/
theorem digits_eq (src : List UInt8) (intDigits scale : ℕ) :
    digits src intDigits scale =
      some (filled (intDigits + scale) (kept intDigits (inputBytes src (intDigits + scale)))
        (intDigits - intCount (inputBytes src (intDigits + scale))) 0
        (List.replicate (intDigits + scale) '0')) := by
  have he : src.take (intDigits + scale) <+: src := List.take_prefix _ _
  have hstop : min src.length (intDigits + scale) = (src.take (intDigits + scale)).length := by
    rw [List.length_take, Nat.min_comm]
  rw [inputBytes, digits, hstop]
  generalize src.take (intDigits + scale) = e at he
  -- each loop leaves a position of which the rest of the bytes is known
  obtain ⟨s1, hspaces, hs1⟩ := skipSpaces_eq he e 0 rfl
  obtain ⟨s1', hsign, hs1'⟩ := skipSign_eq he hs1
  have hlength : e.length - s1' = (withoutSign e).length := by
    rw [← hs1', List.length_drop]
  have hcount := countDigits_eq he (withoutSign e) s1' 0 hs1'
  have hexcess : intCount (withoutSign e) - intDigits ≤ (withoutSign e).countP isDigit := by
    have hle := (List.takeWhile_sublist (l := withoutSign e) (· ≠ point)).countP_le (p := isDigit)
    rw [intCount, beforePoint]
    omega
  obtain ⟨s1'', hdrop, hs1''⟩ := dropDigits_eq he _ (withoutSign e) s1' hs1' hexcess
  have hlength' : e.length - s1'' = (kept intDigits (withoutSign e)).length := by
    rw [kept, ← hs1'', List.length_drop]
  have hfill := fill_eq he (intDigits + scale) (kept intDigits (withoutSign e)) s1''
    (intDigits - intCount (withoutSign e)) 0 (List.replicate (intDigits + scale) '0') hs1''
  rw [Nat.zero_add] at hcount
  simp only [hspaces, hsign, hlength, hcount, hdrop, hlength', hfill, Option.bind_eq_bind,
    Option.bind_some]

/-! ### The field -/

section Field

variable {size s2 points : ℕ} {q : List UInt8} {c : UInt8} {dst : List Char}

theorem isDigit_charOf (h : isDigit c = true) : (charOf c).isDigit = true := by
  rw [isDigit, Bool.and_eq_true, decide_eq_true_eq, decide_eq_true_eq, UInt8.le_iff_toNat_le,
    UInt8.le_iff_toNat_le] at h
  obtain ⟨hlo, hhi⟩ : 48 ≤ c.toNat ∧ c.toNat ≤ 57 := h
  rw [charOf]
  interval_cases c.toNat <;> rfl

/-- The field keeps its width, and holds digits only. -/
theorem filled_digits (hlength : dst.length = size) (hdst : ∀ d ∈ dst, d.isDigit = true) :
    (filled size q s2 points dst).length = size ∧
      ∀ d ∈ filled size q s2 points dst, d.isDigit = true := by
  have hzeros : (List.replicate size '0').length = size ∧
      ∀ d ∈ List.replicate size '0', d.isDigit = true :=
    ⟨List.length_replicate, fun d hd => by rw [List.eq_of_mem_replicate hd]; rfl⟩
  induction q generalizing s2 points dst with
  | nil => exact ⟨hlength, hdst⟩
  | cons c q ih =>
      rw [filled]
      split_ifs with hroom hdigit hpoint hsecond
      · refine ih (by rw [List.length_set, hlength]) fun d hd => ?_
        rcases List.mem_or_eq_of_mem_set hd with hmem | rfl
        · exact hdst d hmem
        · exact isDigit_charOf hdigit
      · exact hzeros
      · exact ih hlength hdst
      · exact ih hlength hdst
      · exact hzeros
      · exact ⟨hlength, hdst⟩

/-- A second point or another character before the field is full makes it zero. -/
theorem filled_spoiled {before behind : List UInt8} {b : UInt8}
    (hroom : s2 + before.countP isDigit < size)
    (hbad : (isDigit b = false ∧ isIgnored b = false ∧ b ≠ point) ∨
      (b = point ∧ (point ∈ before ∨ 0 < points))) :
    filled size (before ++ b :: behind) s2 points dst = List.replicate size '0' := by
  induction before generalizing s2 points dst with
  | nil =>
      have hs2 : s2 < size := by simpa using hroom
      rw [List.nil_append, filled, if_pos hs2]
      rcases hbad with ⟨hdigit, hignored, hpoint⟩ | ⟨rfl, hsecond⟩
      · rw [isIgnored] at hignored
        simp [hdigit, hpoint, hignored]
      · have hpoints : 0 < points := by simpa using hsecond
        have hdigit : isDigit point = false := by decide
        simp [hdigit, hpoints]
  | cons c before ih =>
      rw [List.countP_cons] at hroom
      rw [List.cons_append, filled, if_pos (by omega)]
      by_cases hdigit : isDigit c = true
      · rw [if_pos hdigit] at hroom
        rw [if_pos hdigit]
        refine ih (by omega) (hbad.imp_right fun hpoint => ⟨hpoint.1, hpoint.2.imp_left ?_⟩)
        intro hmem
        rcases List.mem_cons.1 hmem with rfl | hmem
        · exact absurd hdigit (by decide)
        · exact hmem
      · rw [if_neg hdigit] at hroom
        rw [if_neg hdigit]
        by_cases hpoint : c = point
        · rw [if_pos hpoint]
          split_ifs
          · rfl
          · exact ih (by omega) (hbad.imp_right fun hb => ⟨hb.1, Or.inr (Nat.succ_pos _)⟩)
        · rw [if_neg hpoint]
          split_ifs
          · refine ih (by omega) (hbad.imp_right fun hb => ⟨hb.1, hb.2.imp_left fun hmem => ?_⟩)
            exact (List.mem_cons.1 hmem).resolve_left (Ne.symm hpoint)
          · rfl

/-- Bytes that write a number fill the field from left to right. -/
theorem filled_plain (hplain : ∀ b ∈ q, isDigit b ∨ isIgnored b ∨ b = point)
    (hpoints : points + q.count point ≤ 1) (first : List Char) (room : ℕ) :
    filled (first.length + room) q first.length points (first ++ List.replicate room '0') =
      first ++ DecimalText.fit room (digitText q) := by
  induction q generalizing points first room with
  | nil => simp [filled, DecimalText.fit, digitText]
  | cons c q ih =>
      have hrest : ∀ b ∈ q, isDigit b ∨ isIgnored b ∨ b = point := fun b hb =>
        hplain b (List.mem_cons_of_mem _ hb)
      rw [List.count_cons] at hpoints
      cases room with
      | zero => simp [filled, DecimalText.fit]
      | succ room =>
          rw [filled, if_pos (by omega)]
          by_cases hdigit : isDigit c = true
          · have hset : (first ++ List.replicate (room + 1) '0').set first.length (charOf c) =
                (first ++ [charOf c]) ++ List.replicate room '0' := by
              simp [List.replicate_succ]
            have hpoints' : points + q.count point ≤ 1 := by omega
            have hnext := ih hrest hpoints' (first ++ [charOf c]) room
            rw [List.length_append, List.length_singleton] at hnext
            have hfit : DecimalText.fit (room + 1) (digitText (c :: q)) =
                charOf c :: DecimalText.fit room (digitText q) := by
              simp [DecimalText.fit, digitText, hdigit]
            rw [if_pos hdigit, hset, hfit]
            rw [Nat.add_assoc, Nat.add_comm 1] at hnext
            simpa using hnext
          · have htext : digitText (c :: q) = digitText q := by simp [digitText, hdigit]
            rw [if_neg hdigit, htext]
            by_cases hpoint : c = point
            · rw [if_pos (by simpa using hpoint)] at hpoints
              rw [if_pos hpoint, if_neg (by omega)]
              exact ih hrest (by omega) _ _
            · have hignored : isIgnored c = true := by
                rcases hplain c List.mem_cons_self with h | h | h
                · exact absurd h hdigit
                · exact h
                · exact absurd h hpoint
              rw [isIgnored] at hignored
              rw [if_neg hpoint, if_pos hignored]
              exact ih hrest (by omega) _ _

end Field

/-! ### The number of the field -/

theorem behindDigits_suffix (excess : ℕ) (bytes : List UInt8) :
    behindDigits excess bytes <:+ bytes := by
  induction excess generalizing bytes with
  | zero => exact List.suffix_refl _
  | succ excess ih =>
      exact (ih _).trans ((List.tail_suffix _).trans (List.dropWhile_suffix _))

theorem digitText_behindDigits (excess : ℕ) (bytes : List UInt8) :
    digitText (behindDigits excess bytes) = (digitText bytes).drop excess := by
  have hstep (bytes : List UInt8) :
      digitText (bytes.dropWhile fun b => !isDigit b).tail = (digitText bytes).tail := by
    induction bytes with
    | nil => rfl
    | cons c bytes ih =>
        by_cases hc : isDigit c = true
        · simp [digitText, hc]
        · simpa [digitText, hc] using ih
  induction excess generalizing bytes with
  | zero => rfl
  | succ excess ih => rw [behindDigits, ih, hstep, List.drop_tail, Nat.add_comm]

theorem digitText_split (bytes : List UInt8) :
    digitText bytes = digitText (beforePoint bytes) ++ digitText (behindPoint bytes) := by
  have hpoint : digitText (behindPoint bytes) = digitText (bytes.dropWhile (· ≠ point)) := by
    rw [behindPoint]
    cases hcase : bytes.dropWhile (· ≠ point) with
    | nil => rfl
    | cons c rest =>
        have hhead : c = point := by
          have hnot := List.head?_dropWhile_not (· ≠ point) bytes
          rw [hcase] at hnot
          simpa using hnot
        have hdigit : isDigit point = false := by decide
        simp [digitText, hhead, hdigit]
  rw [hpoint, beforePoint, digitText, digitText, digitText, ← List.map_append, ← List.filter_append,
    List.takeWhile_append_dropWhile]

theorem length_digitText_beforePoint (bytes : List UInt8) :
    (digitText (beforePoint bytes)).length = intCount bytes := by
  rw [digitText, List.length_map, intCount, List.countP_eq_length_filter]

theorem mem_digitText {bytes : List UInt8} : ∀ d ∈ digitText bytes, d.isDigit = true := by
  intro d hd
  obtain ⟨b, hb, rfl⟩ := List.mem_map.1 hd
  exact isDigit_charOf (List.mem_filter.1 hb).2

theorem fit_append (first text : List Char) (room : ℕ) :
    DecimalText.fit (first.length + room) (first ++ text) = first ++ DecimalText.fit room text := by
  simp [DecimalText.fit, List.take_append, Nat.add_sub_add_left]

/-- **The field holds the number that the bytes write**, cut to its integer digits. -/
theorem number_field (intDigits scale : ℕ) (bytes : List UInt8) :
    DecimalText.number (List.replicate (intDigits - intCount bytes) '0' ++
        DecimalText.fit (intDigits + scale - (intDigits - intCount bytes))
          (digitText (kept intDigits bytes))) =
      ⌊numeral bytes * 10 ^ scale⌋₊ % 10 ^ (intDigits + scale) := by
  have hlength := length_digitText_beforePoint bytes
  have hint : DecimalText.number ((digitText (beforePoint bytes)).drop (intCount bytes - intDigits)) =
      DecimalText.number (digitText (beforePoint bytes)) % 10 ^ intDigits := by
    rcases le_or_gt intDigits (intCount bytes) with hle | hlt
    · rw [← hlength]
      exact DecimalText.number_drop mem_digitText (by omega)
    · have hsmall := DecimalText.number_lt (@mem_digitText (beforePoint bytes))
      have hpow : 10 ^ intCount bytes ≤ 10 ^ intDigits := Nat.pow_le_pow_right (by decide) hlt.le
      rw [hlength] at hsmall
      rw [Nat.sub_eq_zero_of_le hlt.le, List.drop_zero, Nat.mod_eq_of_lt (by omega)]
  have hkept : digitText (kept intDigits bytes) =
      (digitText (beforePoint bytes)).drop (intCount bytes - intDigits) ++
        digitText (behindPoint bytes) := by
    rw [kept, digitText_behindDigits, digitText_split, List.drop_append_of_le_length (by omega)]
  have hroom : intDigits + scale - (intDigits - intCount bytes) =
      ((digitText (beforePoint bytes)).drop (intCount bytes - intDigits)).length + scale := by
    rw [List.length_drop]
    omega
  have hfloor : ⌊numeral bytes * 10 ^ scale⌋₊ =
      DecimalText.number (digitText (beforePoint bytes)) * 10 ^ scale +
        ⌊DecimalText.fraction (digitText (behindPoint bytes)) * 10 ^ scale⌋₊ := by
    have hnonneg : 0 ≤ DecimalText.fraction (digitText (behindPoint bytes)) * 10 ^ scale :=
      mul_nonneg (DecimalText.fraction_nonneg _) (by positivity)
    have hsum : numeral bytes * 10 ^ scale =
        DecimalText.fraction (digitText (behindPoint bytes)) * 10 ^ scale +
          ((DecimalText.number (digitText (beforePoint bytes)) * 10 ^ scale : ℕ) : ℚ) := by
      rw [numeral]
      push_cast
      ring
    rw [hsum, Nat.floor_add_natCast hnonneg, Nat.add_comm]
  have hfraction := DecimalText.number_fit scale (@mem_digitText (behindPoint bytes))
  have hsmall : DecimalText.number (DecimalText.fit scale (digitText (behindPoint bytes))) <
      10 ^ scale := by
    have hdigits : ∀ d ∈ DecimalText.fit scale (digitText (behindPoint bytes)),
        d.isDigit = true := by
      intro d hd
      rcases List.mem_append.1 hd with hd | hd
      · exact mem_digitText d (List.mem_of_mem_take hd)
      · rw [List.eq_of_mem_replicate hd]
        rfl
    have hlt := DecimalText.number_lt hdigits
    rwa [DecimalText.length_fit] at hlt
  have hquotient : (DecimalText.number (digitText (beforePoint bytes)) * 10 ^ scale +
      DecimalText.number (DecimalText.fit scale (digitText (behindPoint bytes)))) / 10 ^ scale =
      DecimalText.number (digitText (beforePoint bytes)) := by
    rw [Nat.mul_comm, Nat.mul_add_div (by positivity), Nat.div_eq_of_lt hsmall, Nat.add_zero]
  rw [hroom, hkept, fit_append, DecimalText.number_append, DecimalText.number_zeros, Nat.zero_mul,
    Nat.zero_add, DecimalText.number_append, DecimalText.length_fit, hint, hfloor, ← hfraction,
    Nat.pow_add, Nat.mul_comm (10 ^ intDigits), Nat.mod_mul, Nat.mul_add_mod_of_lt hsmall, hquotient,
    Nat.add_comm, Nat.mul_comm]

theorem kept_plain {bytes : List UInt8} (h : Plain bytes) (intDigits : ℕ) :
    Plain (kept intDigits bytes) := by
  have hsuffix := behindDigits_suffix (intCount bytes - intDigits) bytes
  exact ⟨fun b hb => h.1 b (hsuffix.subset hb), (hsuffix.sublist.count_le _).trans h.2⟩

theorem filled_kept {bytes : List UInt8} (h : Plain bytes) (intDigits scale : ℕ) :
    filled (intDigits + scale) (kept intDigits bytes) (intDigits - intCount bytes) 0
        (List.replicate (intDigits + scale) '0') =
      List.replicate (intDigits - intCount bytes) '0' ++
        DecimalText.fit (intDigits + scale - (intDigits - intCount bytes))
          (digitText (kept intDigits bytes)) := by
  obtain ⟨hplain, hpoints⟩ := kept_plain h intDigits
  have hfilled := filled_plain hplain (by rw [Nat.zero_add]; exact hpoints : 0 + _ ≤ 1)
    (List.replicate (intDigits - intCount bytes) '0')
    (intDigits + scale - (intDigits - intCount bytes))
  have hwidth : intDigits - intCount bytes + (intDigits + scale - (intDigits - intCount bytes)) =
      intDigits + scale := by omega
  rwa [List.length_replicate, ← List.replicate_add, hwidth] at hfilled

theorem bigInteger_eq {text : List Char} (hne : text ≠ []) (h : ∀ d ∈ text, d.isDigit = true) :
    bigInteger text = some (DecimalText.number text) := by
  rw [bigInteger, if_pos ⟨hne, List.all_eq_true.2 h⟩]

theorem parseLong_eq {text : List Char} (hne : text ≠ []) (h : ∀ d ∈ text, d.isDigit = true)
    (hlength : text.length ≤ 18) : parseLong text = some (DecimalText.number text) := by
  have hsmall := DecimalText.number_lt h
  have hpow : 10 ^ text.length ≤ 10 ^ 18 := Nat.pow_le_pow_right (by decide) hlength
  rw [parseLong, if_pos ⟨hne, List.all_eq_true.2 h, by omega⟩]

/-- **A line becomes the number that COBOL stores**: the methods throw nothing, and the field holds
the number of its bytes, or zero where these are spoiled. -/
theorem accept_correct (src : List UInt8) (intDigits scale : ℕ) (h : 1 ≤ intDigits + scale) :
    ∃ field, digits src intDigits scale = some field ∧ field.length = intDigits + scale ∧
      (∀ d ∈ field, d.isDigit = true) ∧
      (Plain (inputBytes src (intDigits + scale)) → DecimalText.number field =
        ⌊numeral (inputBytes src (intDigits + scale)) * 10 ^ scale⌋₊ % 10 ^ (intDigits + scale)) ∧
      (Spoiled intDigits scale (inputBytes src (intDigits + scale)) → ∀ d ∈ field, d = '0') ∧
      (scale = 0 → intDigits ≤ 18 → number src intDigits = some (DecimalText.number field)) ∧
      decimal src intDigits scale = some (DecimalText.number field, scale) := by
  have hzeros : ∀ d ∈ List.replicate (intDigits + scale) '0', d.isDigit = true := fun d hd => by
    rw [List.eq_of_mem_replicate hd]
    rfl
  have heq := digits_eq src intDigits scale
  revert heq
  generalize inputBytes src (intDigits + scale) = bytes
  intro heq
  obtain ⟨hlength, hdigits⟩ := @filled_digits _ (intDigits - intCount bytes) 0
    (kept intDigits bytes) _ List.length_replicate hzeros
  have hne : filled (intDigits + scale) (kept intDigits bytes) (intDigits - intCount bytes) 0
      (List.replicate (intDigits + scale) '0') ≠ [] := by
    rw [← List.length_pos_iff, hlength]
    omega
  refine ⟨_, heq, hlength, hdigits, fun hplain => ?_, ?_, ?_, ?_⟩
  · rw [filled_kept hplain]
    exact number_field intDigits scale bytes
  · rintro ⟨before, b, behind, hkept, hroom, hbad⟩ d hd
    rw [hkept, filled_spoiled hroom (hbad.imp_right fun hpoint => ⟨hpoint.1, Or.inl hpoint.2⟩)] at hd
    exact List.eq_of_mem_replicate hd
  · rintro rfl hwidth
    rw [number, heq]
    exact parseLong_eq hne hdigits (by rw [hlength]; exact hwidth)
  · rw [decimal, heq]
    simp [bigInteger_eq hne hdigits]

/-- The line ` -12.5` in a field of five digits and a decimal. -/
theorem accept_correct_line : decimal [32, 45, 49, 50, 46, 53] 5 1 = some (125, 1) := by
  obtain ⟨field, hfield, -, -, -, -, -, hdecimal⟩ :=
    accept_correct [32, 45, 49, 50, 46, 53] 5 1 (by decide)
  have hdigits : digits [32, 45, 49, 50, 46, 53] 5 1 = some "000125".toList := by decide
  obtain rfl : field = "000125".toList := Option.some.inj (hfield.symm.trans hdigits)
  exact hdecimal

end CobolJava.CobolStdin
