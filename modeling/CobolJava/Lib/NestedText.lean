/-
**Texts with parentheses and quotes.**

A text is read from the left with the depth of its parentheses and the quote that is open, and it is
cut at the separators that lie outside both.

Main definitions:

* `NestedText.Nesting`, `NestedText.step` — where a character lies, and how the next one does;
* `NestedText.cut` — the pieces between the separators outside parentheses and quotes;
* `NestedText.words` — the pieces that are not empty;
* `NestedText.free` — no separator lies outside;
* `NestedText.Nested` — the texts whose parentheses and quotes are balanced, as a grammar.

Main results:

* `NestedText.foldl_step_nested` — a balanced text leads back to where it began;
* `NestedText.free_nested` — a balanced text is free of what may not stand outside;
* `NestedText.cut_append_of_free`, `NestedText.cut_append_cons` — a text is cut at separators;
* `NestedText.count_cut`, `NestedText.count_words` — what the pieces hold.
-/

import Mathlib

set_option autoImplicit false

namespace NestedText

/-! ### Reading -/

/-- The depth of the parentheses around a character, and the quote of the literal around it. -/
structure Nesting where
  depth : ℕ
  quote : Option Char
deriving DecidableEq

/-- Outside parentheses and literals. -/
def outer : Nesting := ⟨0, none⟩

def isQuote (c : Char) : Bool :=
  c = '\'' || c = '"'

/-- What a character changes; a closing parenthesis too many changes nothing. -/
def step (s : Nesting) (c : Char) : Nesting :=
  match s.quote with
  | some q => if c = q then ⟨s.depth, none⟩ else s
  | none =>
      if isQuote c then ⟨s.depth, some c⟩
      else if c = '(' then ⟨s.depth + 1, none⟩
      else if c = ')' then ⟨s.depth - 1, none⟩
      else s

/-- No parenthesis and no quote is open behind a text. -/
def balanced (text : List Char) : Bool :=
  text.foldl step outer = outer

/-- The pieces of a text between the separators outside; `current` is the piece so far. -/
def cut (sep : Char → Bool) (s : Nesting) (current : List Char) : List Char → List (List Char)
  | [] => [current]
  | c :: rest =>
      if s = outer ∧ sep c then current :: cut sep s [] rest
      else cut sep (step s c) (current ++ [c]) rest

def words (sep : Char → Bool) (t : List Char) : List (List Char) :=
  (cut sep outer [] t).filter (· ≠ [])

def free (sep : Char → Bool) : Nesting → List Char → Bool
  | _, [] => true
  | s, c :: rest => !(s = outer && sep c) && free sep (step s c) rest

/-- A character that opens and closes nothing. -/
def Neutral (c : Char) : Prop :=
  isQuote c = false ∧ c ≠ '(' ∧ c ≠ ')'

attribute [grind =] cut free

instance (c : Char) : Decidable (Neutral c) :=
  inferInstanceAs (Decidable (_ ∧ _))

/-- **Balanced texts**: characters, literals and groups; `outside` is what may stand outside
groups and literals. -/
inductive Nested : (Char → Prop) → List Char → Prop
  | nil {outside : Char → Prop} : Nested outside []
  | plain {outside : Char → Prop} {c : Char} {s : List Char} (hc : outside c)
      (hneutral : Neutral c) (hs : Nested outside s) : Nested outside (c :: s)
  | literal {outside : Char → Prop} {q : Char} {body s : List Char} (hq : isQuote q = true)
      (hbody : q ∉ body) (hs : Nested outside s) : Nested outside (q :: (body ++ q :: s))
  | group {outside : Char → Prop} {inner s : List Char} (hinner : Nested (fun _ => True) inner)
      (hs : Nested outside s) : Nested outside ('(' :: (inner ++ ')' :: s))

variable {sep : Char → Bool} {outside : Char → Prop} {s : Nesting} {current t : List Char}

theorem step_neutral {c : Char} (h : Neutral c) (depth : ℕ) :
    step ⟨depth, none⟩ c = ⟨depth, none⟩ := by
  obtain ⟨hquote, hopen, hclose⟩ := h
  simp [step, hquote, hopen, hclose]

theorem step_outer {c : Char} (h : Neutral c) : step outer c = outer :=
  step_neutral h 0

theorem step_quote {q : Char} (h : isQuote q = true) (depth : ℕ) :
    step ⟨depth, none⟩ q = ⟨depth, some q⟩ := by
  simp [step, h]

theorem step_open (depth : ℕ) : step ⟨depth, none⟩ '(' = ⟨depth + 1, none⟩ := rfl

theorem step_close (depth : ℕ) : step ⟨depth + 1, none⟩ ')' = ⟨depth, none⟩ := rfl

theorem step_closing (q : Char) (depth : ℕ) : step ⟨depth, some q⟩ q = ⟨depth, none⟩ := by
  simp [step]

theorem step_literal {q c : Char} (h : q ≠ c) (depth : ℕ) :
    step ⟨depth, some q⟩ c = ⟨depth, some q⟩ := by
  simp [step, Ne.symm h]

theorem foldl_step_literal {q : Char} {body : List Char} (h : q ∉ body) (depth : ℕ) :
    body.foldl step ⟨depth, some q⟩ = ⟨depth, some q⟩ := by
  induction body with
  | nil => rfl
  | cons c body ih =>
      obtain ⟨hc, hbody⟩ : q ≠ c ∧ q ∉ body := by simpa using h
      rw [List.foldl_cons, step_literal hc, ih hbody]

/-- **A balanced text leads back to where it began.** -/
theorem foldl_step_nested (h : Nested outside t) (depth : ℕ) :
    t.foldl step ⟨depth, none⟩ = ⟨depth, none⟩ := by
  induction h generalizing depth with
  | nil => rfl
  | plain hc hneutral hs ih => rw [List.foldl_cons, step_neutral hneutral, ih]
  | literal hq hbody hs ih =>
      rw [List.foldl_cons, step_quote hq, List.foldl_append, foldl_step_literal hbody,
        List.foldl_cons, step_closing, ih]
  | group hinner hs ihinner ih =>
      rw [List.foldl_cons, step_open, List.foldl_append, ihinner, List.foldl_cons, step_close, ih]

/-! ### Texts without separators -/

theorem free_append (t t' : List Char) :
    free sep s (t ++ t') = (free sep s t && free sep (t.foldl step s) t') := by
  induction t generalizing s with
  | nil => simp [free]
  | cons c t ih => rw [List.cons_append, free, free, ih, List.foldl_cons, Bool.and_assoc]

theorem free_append_balanced {t : List Char} (h : balanced t = true) (t' : List Char) :
    free sep outer (t ++ t') = (free sep outer t && free sep outer t') := by
  rw [free_append, of_decide_eq_true h]

theorem free_of_forall (h : ∀ c ∈ t, sep c = false) : free sep s t = true := by
  induction t generalizing s with
  | nil => rfl
  | cons c t ih =>
      rw [free, h c List.mem_cons_self, ih fun d hd => h d (List.mem_cons_of_mem c hd)]
      simp

theorem free_cons_inside {c : Char} (h : s ≠ outer) (t : List Char) :
    free sep s (c :: t) = free sep (step s c) t := by
  simp [free, h]

theorem free_cons_other {c : Char} (h : sep c = false) (t : List Char) :
    free sep s (c :: t) = free sep (step s c) t := by
  simp [free, h]

theorem free_literal {q : Char} {body : List Char} (h : q ∉ body) (depth : ℕ) :
    free sep ⟨depth, some q⟩ body = true := by
  induction body with
  | nil => rfl
  | cons c body ih =>
      obtain ⟨hc, hbody⟩ : q ≠ c ∧ q ∉ body := by simpa using h
      rw [free_cons_inside (by simp [outer]), step_literal hc, ih hbody]

theorem free_inner (h : Nested outside t) (depth : ℕ) :
    free sep ⟨depth + 1, none⟩ t = true := by
  have hinside (depth : ℕ) : (⟨depth + 1, none⟩ : Nesting) ≠ outer := by simp [outer]
  induction h generalizing depth with
  | nil => rfl
  | plain hc hneutral hs ih =>
      rw [free_cons_inside (hinside depth), step_neutral hneutral, ih]
  | literal hq hbody hs ih =>
      rw [free_cons_inside (hinside depth), step_quote hq, free_append, free_literal hbody,
        Bool.true_and, foldl_step_literal hbody, free_cons_inside (by simp [outer]), step_closing,
        ih]
  | group hinner hs ihinner ih =>
      rw [free_cons_inside (hinside depth), step_open, free_append, ihinner, Bool.true_and,
        foldl_step_nested hinner, free_cons_inside (hinside (depth + 1)), step_close, ih]

/-- **A balanced text is free of what may not stand outside.** -/
theorem free_nested (h : Nested outside t) (hsep : ∀ c, outside c → sep c = false)
    (hneutral : ∀ c, sep c = true → Neutral c) : free sep outer t = true := by
  have hother {c : Char} (hc : ¬Neutral c) : sep c = false := by
    cases hsepc : sep c with
    | false => rfl
    | true => exact absurd (hneutral c hsepc) hc
  induction h with
  | nil => rfl
  | plain hc hneutral' hs ih => rw [free_cons_other (hsep _ hc), step_outer hneutral', ih hsep]
  | @literal _ q body s hq hbody hs ih =>
      have hquote : sep q = false := hother fun hn => by simp [hn.1] at hq
      rw [free_cons_other hquote, outer, step_quote hq, free_append, free_literal hbody,
        Bool.true_and, foldl_step_literal hbody, free_cons_inside (by simp [outer]), step_closing]
      exact ih hsep
  | group hinner hs ihinner ih =>
      rw [free_cons_other (hother (by decide)), outer, step_open, free_append, free_inner hinner,
        Bool.true_and, foldl_step_nested hinner, free_cons_inside (by simp [outer]), step_close]
      exact ih hsep

/-! ### Cutting -/

theorem cut_ne_nil (s : Nesting) (current t : List Char) : cut sep s current t ≠ [] := by
  induction t generalizing s current with
  | nil => exact List.cons_ne_nil _ _
  | cons c t ih =>
      rw [cut]
      split
      · exact List.cons_ne_nil _ _
      · exact ih _ _

theorem cut_cons_sep {c : Char} (h : sep c = true) (current t : List Char) :
    cut sep outer current (c :: t) = current :: cut sep outer [] t := by
  rw [cut, if_pos ⟨rfl, h⟩]

/-- **A text without separators outside is not cut.** -/
theorem cut_append_of_free (h : free sep s t = true) (current rest : List Char) :
    cut sep s current (t ++ rest) = cut sep (t.foldl step s) (current ++ t) rest := by
  induction t generalizing s current with
  | nil => simp
  | cons c t ih =>
      rw [free, Bool.and_eq_true, Bool.not_eq_true'] at h
      have hcut : ¬(s = outer ∧ sep c = true) := by simpa using h.1
      rw [List.cons_append, cut, if_neg hcut, ih h.2]
      simp

theorem cut_of_free (h : free sep s t = true) (current : List Char) :
    cut sep s current t = [current ++ t] := by
  have := cut_append_of_free h current []
  rwa [List.append_nil, cut] at this

theorem two_le_length_cut (h : free sep s t = false) (current : List Char) :
    2 ≤ (cut sep s current t).length := by
  induction t generalizing s current with
  | nil => cases h
  | cons c t ih =>
      rw [cut]
      split
      · have := List.length_pos_of_ne_nil (@cut_ne_nil sep s [] t)
        rw [List.length_cons]
        omega
      · rename_i hcut
        refine ih ?_ _
        rw [free, Bool.and_eq_false_iff, Bool.not_eq_false'] at h
        refine h.resolve_left fun hand => hcut ?_
        simpa using hand

/-- **A text is cut at a separator behind a balanced text.** -/
theorem cut_append_cons (hneutral : ∀ c, sep c = true → Neutral c)
    (h : t.foldl step s = outer) {c : Char} (hc : sep c = true) (current rest : List Char) :
    cut sep s current (t ++ c :: rest) = cut sep s current t ++ cut sep outer [] rest := by
  induction t generalizing s current with
  | nil =>
      obtain rfl : s = outer := h
      rw [List.nil_append, cut_cons_sep hc, cut]
      rfl
  | cons d t ih =>
      rw [List.cons_append, cut, cut]
      split
      · rename_i hcut
        obtain ⟨rfl, hd⟩ := hcut
        rw [List.foldl_cons, step_outer (hneutral d hd)] at h
        rw [ih h, List.cons_append]
      · exact ih h _

theorem count_cut {d : Char} (hsep : ∀ c, sep c = true → c = d) (s : Nesting)
    (current t : List Char) :
    ((cut sep s current t).map (List.count d)).sum + ((cut sep s current t).length - 1) =
      current.count d + t.count d := by
  induction t generalizing s current with
  | nil => simp [cut]
  | cons c t ih =>
      rw [cut]
      split
      · rename_i hcut
        have hlength := List.length_pos_of_ne_nil (@cut_ne_nil sep s [] t)
        have hrest := ih s []
        rw [hsep c hcut.2, List.map_cons, List.sum_cons, List.length_cons, List.count_cons_self]
        rw [List.count_nil] at hrest
        omega
      · have hcons : (c :: t).count d = [c].count d + t.count d := by
          rw [← List.count_append, List.singleton_append]
        rw [ih, List.count_append, hcons]
        omega

/-! ### Words -/

theorem words_sep {c : Char} (hc : sep c = true) (t : List Char) :
    words sep (c :: t) = words sep t := by
  rw [words, cut_cons_sep hc]
  rfl

/-- **The words around a separator behind a balanced text.** -/
theorem words_append_cons (hneutral : ∀ c, sep c = true → Neutral c)
    (h : balanced t = true) {c : Char} (hc : sep c = true) (rest : List Char) :
    words sep (t ++ c :: rest) = words sep t ++ words sep rest := by
  rw [words, cut_append_cons hneutral (of_decide_eq_true h) hc, List.filter_append]
  rfl

theorem words_of_free (h : free sep outer t = true) (hne : t ≠ []) : words sep t = [t] := by
  rw [words, cut_of_free h, List.nil_append, List.filter_cons_of_pos (by simpa using hne),
    List.filter_nil]

/-- The words hold all of a character that is no separator. -/
theorem count_words {d : Char} (hd : sep d = false) (t : List Char) :
    ((words sep t).map (List.count d)).sum = t.count d := by
  have hcut (s : Nesting) (current t : List Char) :
      (((cut sep s current t).filter (· ≠ [])).map (List.count d)).sum =
        current.count d + t.count d := by
    induction t generalizing s current with
    | nil =>
        by_cases hcurrent : current = []
        · simp [cut, hcurrent]
        · simp [cut, hcurrent]
    | cons c t ih =>
        have hcons : (c :: t).count d = [c].count d + t.count d := by
          rw [← List.count_append, List.singleton_append]
        rw [cut]
        split
        · rename_i hsep
          have hne : c ≠ d := fun heq => by simp [heq, hd] at hsep
          have hrest := ih s []
          rw [List.count_nil, Nat.zero_add] at hrest
          rw [hcons, List.count_singleton, if_neg (by simpa using hne), Nat.zero_add]
          by_cases hcurrent : current = []
          · rw [hcurrent, List.filter_cons_of_neg (by simp), hrest, List.count_nil, Nat.zero_add]
          · rw [List.filter_cons_of_pos (by simpa using hcurrent), List.map_cons, List.sum_cons,
              hrest]
        · rw [ih, List.count_append, hcons]
          omega
  rw [words, hcut, List.count_nil, Nat.zero_add]

end NestedText
