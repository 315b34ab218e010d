/-
**Slices of a text and loops over it.**

`text[start:stop]` of Python, and loops that go over the characters of a text with their places.

Main definitions:

* `Py.Chars.slice` — `text[start:stop]`;
* `Py.Chars.walk` — a loop over the characters of a text and their places.

Main results:

* `Py.Chars.slice_append_drop` — a text is put together from its slices;
* `Py.Chars.walk_rel`, `Py.Chars.walk_inv` — what every step keeps, the loop keeps.
-/

import Mathlib.Data.List.Basic

set_option autoImplicit false

namespace Py.Chars

/-! ### Slices -/

/-- The place where a part of a text begins, and the place behind it. -/
abbrev Span := ℕ × ℕ

/-- `text[start:stop]` -/
def slice (text : List Char) (start stop : ℕ) : List Char :=
  (text.take stop).drop start

theorem slice_append_drop {a b : ℕ} (h : a ≤ b) (text : List Char) :
    slice text a b ++ text.drop b = text.drop a := by
  by_cases hb : b ≤ text.length
  · have hsplit : (text.take b ++ text.drop b).drop a = slice text a b ++ text.drop b := by
      rw [slice, List.drop_append_of_le_length (by rw [List.length_take]; omega)]
    rw [← hsplit, List.take_append_drop]
  · have hlong : text.length ≤ b := by omega
    rw [slice, List.take_of_length_le hlong, List.drop_eq_nil_of_le hlong, List.append_nil]

/-! ### Walking over a text -/

/-- A loop over the characters of a text, with their places. -/
def walk {σ : Type} (step : ℕ → Char → σ → σ) : ℕ → List Char → σ → σ
  | _, [], s => s
  | i, ch :: rest, s => walk step (i + 1) rest (step i ch s)

attribute [grind =] walk

/-- What every step keeps, two loops keep. -/
theorem walk_rel {σ τ : Type} {step : ℕ → Char → σ → σ} {step' : ℕ → Char → τ → τ} {text : List Char}
    (R : List Char → σ → τ → Prop)
    (hstep : ∀ before ch rest s t, text = before ++ ch :: rest → R before s t →
      R (before ++ [ch]) (step before.length ch s) (step' before.length ch t))
    {s : σ} {t : τ} (hinit : R [] s t) : R text (walk step 0 text s) (walk step' 0 text t) := by
  suffices hall : ∀ rest before s t, text = before ++ rest → R before s t →
      R text (walk step before.length rest s) (walk step' before.length rest t) from
    hall text [] s t rfl hinit
  intro rest
  induction rest with
  | nil =>
      intro before s t htext h
      obtain rfl : text = before := by simpa using htext
      exact h
  | cons ch rest ih =>
      intro before s t htext h
      have hnext := ih (before ++ [ch]) _ _ (by simpa using htext) (hstep _ _ _ _ _ htext h)
      simpa [walk] using hnext

theorem walk_inv {σ : Type} {step : ℕ → Char → σ → σ} {text : List Char} (P : List Char → σ → Prop)
    (hstep : ∀ before ch rest s, text = before ++ ch :: rest → P before s →
      P (before ++ [ch]) (step before.length ch s))
    {s : σ} (hinit : P [] s) : P text (walk step 0 text s) :=
  @walk_rel σ σ step step text (fun before s _ => P before s)
    (fun before ch rest s _ htext h => hstep before ch rest s htext h) s s hinit

end Py.Chars
