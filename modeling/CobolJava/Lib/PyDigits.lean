/-
**Digits of Unicode.**

`str.isdigit` holds of decimal digits of every script and of the digits in superscripts, circles and
the like, whereas `int` takes decimal digits only, and no more than 4300 of them.

Main definitions:

* `Py.decimalValue`, `Py.isDigitChar` — the value of a decimal digit, and the digits;
* `Py.isdigit` — the method;
* `Py.intOfText` — the integer of a text of digits.
-/

import CobolJava.Lib.PyExc

set_option autoImplicit false

namespace Py

/-- The code points of the zeros of the scripts, each with its nine successors behind it. -/
def zeros : List ℕ :=
  [48, 1632, 1776, 1984, 2406, 2534, 2662, 2790, 2918, 3046, 3174, 3302, 3430, 3558, 3664, 3792,
    3872, 4160, 4240, 6112, 6160, 6470, 6608, 6784, 6800, 6992, 7088, 7232, 7248, 42528, 43216,
    43264, 43472, 43504, 43600, 44016, 65296, 66720, 68912, 69734, 69872, 69942, 70096, 70384,
    70736, 70864, 71248, 71360, 71472, 71904, 72016, 72784, 73040, 73120, 92768, 92864, 93008,
    120782, 120792, 120802, 120812, 120822, 123200, 123632, 125264, 130032]

/-- The ranges of code points of the other digits. -/
def otherDigits : List (ℕ × ℕ) :=
  [(178, 179), (185, 185), (4969, 4977), (6618, 6618), (8304, 8304), (8308, 8313), (8320, 8329),
    (9312, 9320), (9332, 9340), (9352, 9360), (9450, 9450), (9461, 9469), (9471, 9471),
    (10102, 10110), (10112, 10120), (10122, 10130), (68160, 68163), (69216, 69224),
    (69714, 69722), (127232, 127242)]

def decimalValue (c : Char) : Option ℕ :=
  (zeros.find? fun z => z ≤ c.toNat ∧ c.toNat < z + 10).map (c.toNat - ·)

/-- Whether a character is a digit. -/
def isDigitChar (c : Char) : Bool :=
  (decimalValue c).isSome || otherDigits.any fun r => r.1 ≤ c.toNat ∧ c.toNat ≤ r.2

/-- The method `text.isdigit()`. -/
def isdigit (text : List Char) : Bool := !text.isEmpty && text.all isDigitChar

/-- The most digits that are converted. -/
def maxIntDigits : ℕ := 4300

/-- The call `int(text)` for a text of digits. -/
def intOfText (text : List Char) : Except Exc ℕ :=
  match text.mapM decimalValue with
  | none => .error (.valueError "invalid literal for int() with base 10")
  | some digits =>
      if maxIntDigits < text.length then
        .error (.valueError "Exceeds the limit (4300 digits) for integer string conversion")
      else .ok (digits.foldl (fun n d => 10 * n + d) 0)

/-- **A text of digits is an integer** when all of them are decimal and there are not too many. -/
theorem intOfText_isOk {text : List Char} :
    (∃ n, intOfText text = .ok n) ↔
      (∀ c ∈ text, (decimalValue c).isSome) ∧ text.length ≤ maxIntDigits := by
  have hsome : (∃ digits, text.mapM decimalValue = some digits) ↔
      ∀ c ∈ text, (decimalValue c).isSome := by
    induction text with
    | nil => simp
    | cons c text ih =>
        rw [List.forall_mem_cons, ← ih, List.mapM_cons]
        cases decimalValue c with
        | none => simp
        | some d => cases text.mapM decimalValue <;> simp
  rw [← hsome, intOfText]
  cases text.mapM decimalValue with
  | none => simp
  | some digits =>
      dsimp only
      split_ifs with h
      · simp [h]
      · simpa using h

end Py
