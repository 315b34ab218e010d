/-
**What the translation of a statement touches.**

The passes of `translate_db2_dml` and of `_mask_host_variables` run over the text of a statement and
do not see its literals.  A text is cut at its quotes: every second piece is a literal.

Main definitions:

* `findOutside` — the first place of a word outside literals and host variables;
* `intoClause`, `wordClause` — the `INTO` clause of a `SELECT`, and the clause that the mere words
  `INTO` and `FROM` make;
* `requiredTokens` — the translation that leaves literals alone;
* `Faithful` — the passes translate so;
* `QuietLiterals` — no pattern of the passes begins in a literal.

Main results:

* `maskTokens_limitFetchFirst_eq` — the passes translate piece by piece;
* `stripSelectInto_iff` — when the right clause is stripped;
* `faithful_iff` — **when the translation leaves literals alone**.
-/

import CobolJava.Lib.PyCase
import CobolJava.Lib.PyInk
import CobolJava.Sql.Translation

set_option autoImplicit false

namespace CobolJava.Sql

/-! ### Texts and their literals -/

/-- The first place of a word outside literals and host variables; the first `skip` characters are
of a host variable, `quoted` says whether the text begins in a literal and `behind` whether behind a
word character. -/
def findOutside (word : List Char) :
    ℕ → Bool → Bool → List Char → Option (List Char × List Char)
  | _, _, _, [] => none
  | skip + 1, quoted, _, c :: rest =>
      (findOutside word skip quoted (isWordChar c) rest).map fun found => (c :: found.1, found.2)
  | 0, true, _, c :: rest =>
      (findOutside word 0 (c ≠ '\'') (isWordChar c) rest).map fun found => (c :: found.1, found.2)
  | 0, false, behind, c :: rest =>
      if !behind && wordAt word (c :: rest) then some ([], c :: rest)
      else
        (findOutside word (((hostReference (c :: rest)).map fun found => found.2 - 1).getD 0)
          (c = '\'') (isWordChar c) rest).map fun found => (c :: found.1, found.2)

/-- The `INTO` clause of a `SELECT`: the text before it, and the text from its `FROM` on. -/
def intoClause (sql : List Char) : Option (List Char × List Char) :=
  if wordAt "SELECT".toList (Py.Chars.lstrip sql) then
    (findOutside "INTO".toList 0 false false sql).bind fun found =>
      (findOutside "FROM".toList 0 false false (found.2.drop 4)).map fun found' =>
        (found.1, found'.2)
  else none

/-- The first word `INTO` of a text, and the first word `FROM` behind it. -/
def wordClause (sql : List Char) : Option (List Char × List Char) :=
  (findWord "INTO".toList false sql).bind fun found =>
    (findWord "FROM".toList false (found.2.drop 4)).map fun found' => (found.1, found'.2)

def withoutClause (clause : Option (List Char × List Char)) (sql : List Char) : List Char :=
  match clause with
  | some (before, tail) => Py.Chars.rstrip before ++ ' ' :: tail
  | none => sql

/-- The characters and placeholders of a translated text. -/
abbrev Token := Char ⊕ BindEntry

/-- The translation of a text that is cut at its quotes: literals stay as they are. -/
def translatePieces (pieces : List (List Char)) : List Token :=
  [Sum.inl '\''].intercalate (pieces.mapIdx fun i p =>
    if i % 2 = 1 then p.map Sum.inl else maskTokens (limitFetchFirst p))

/-- **The translation that a statement asks for**: its `INTO` clause goes, and outside literals
`FETCH FIRST` and the host variables are replaced. -/
def requiredTokens (sql : List Char) : List Token :=
  translatePieces ((withoutClause (intoClause sql) sql).splitOn '\'')

/-- **The passes give the text and the bind plan that the statement asks for.** -/
def Faithful (sql : List Char) : Prop :=
  maskHostVariables (translateDb2Dml sql) =
    (maskedText (requiredTokens sql), bindPlan (requiredTokens sql))

instance (sql : List Char) : Decidable (Faithful sql) :=
  inferInstanceAs (Decidable (_ = _))

/-- Neither a `FETCH FIRST` clause nor a host variable begins in a piece. -/
def Quiet (p : List Char) : Prop :=
  ∀ q, q <:+ p → fetchFirst q = none ∧ hostReference q = none

/-- **Nothing of the literals of a text looks like a clause or a host variable.** -/
def QuietLiterals (sql : List Char) : Prop :=
  ∀ i p, (sql.splitOn '\'')[i]? = some p → i % 2 = 1 → Quiet p

/-! ### Patterns and quotes -/

section Patterns

variable {β : Type} {copy : Char → β} {pattern : List Char → Option (List β × ℕ)}

/-- A pattern whose matches hold no quote and do not look behind one. -/
structure Quoteless (pattern : List Char → Option (List β × ℕ)) : Prop where
  quote : ∀ t, pattern ('\'' :: t) = none
  beyond : ∀ c p t, '\'' ∉ c :: p → pattern (c :: p ++ '\'' :: t) = pattern (c :: p)
  length : ∀ c p r n, pattern (c :: p) = some (r, n) → n ≤ p.length + 1

/-- A quoteless pattern is replaced on both sides of a quote. -/
theorem replaceMatches_append (h : Quoteless pattern) {p : List Char} (hp : '\'' ∉ p)
    (t : List Char) {k : ℕ} (hk : k ≤ p.length) :
    replaceMatches copy pattern k (p ++ '\'' :: t) =
      replaceMatches copy pattern k p ++ copy '\'' :: replaceMatches copy pattern 0 t := by
  induction p generalizing k with
  | nil =>
      obtain rfl : k = 0 := by simpa using hk
      simp [replaceMatches, h.quote]
  | cons c p ih =>
      have hrest : '\'' ∉ p := fun hmem => hp (List.mem_cons_of_mem c hmem)
      cases k with
      | succ k => exact ih hrest (Nat.le_of_succ_le_succ hk)
      | zero =>
          have hbeyond := h.beyond c p t hp
          rw [List.cons_append] at hbeyond ⊢
          rw [replaceMatches, replaceMatches, hbeyond]
          cases hmatch : pattern (c :: p) with
          | none => exact congrArg (copy c :: ·) (ih hrest (Nat.zero_le _))
          | some found =>
              have hlength := h.length c p found.1 found.2 hmatch
              simp only
              rw [ih hrest (by omega), List.append_assoc]

/-- **A quoteless pattern is replaced piece by piece.** -/
theorem replaceMatches_intercalate (h : Quoteless pattern) {pieces : List (List Char)}
    (hpieces : ∀ p ∈ pieces, '\'' ∉ p) :
    replaceMatches copy pattern 0 (['\''].intercalate pieces) =
      [copy '\''].intercalate (pieces.map (replaceMatches copy pattern 0)) := by
  induction pieces with
  | nil => rfl
  | cons p pieces ih =>
      cases pieces with
      | nil => simp
      | cons p' pieces =>
          have hp := hpieces p List.mem_cons_self
          have hrest := ih fun q hq => hpieces q (List.mem_cons_of_mem p hq)
          rw [List.intercalate_cons_cons, List.append_assoc, List.singleton_append,
            replaceMatches_append h hp _ (Nat.zero_le _), hrest]
          simp [List.intercalate_cons_cons]

/-- What holds of the characters and of the replacements holds of the outcome. -/
theorem forall_replaceMatches {P : β → Prop} {s : List Char} (hcopy : ∀ c ∈ s, P (copy c))
    (hpattern : ∀ s r n, pattern s = some (r, n) → ∀ b ∈ r, P b) (k : ℕ) :
    ∀ b ∈ replaceMatches copy pattern k s, P b := by
  induction s generalizing k with
  | nil => exact fun b hb => absurd hb (by cases k <;> exact List.not_mem_nil)
  | cons c s ih =>
      have hrest := ih fun d hd => hcopy d (List.mem_cons_of_mem c hd)
      cases k with
      | succ k => exact hrest k
      | zero =>
          rw [replaceMatches]
          split
          · rename_i r n hmatch
            intro b hb
            rcases List.mem_append.1 hb with hb | hb
            · exact hpattern _ r n hmatch b hb
            · exact hrest _ b hb
          · intro b hb
            rcases List.mem_cons.1 hb with rfl | hb
            · exact hcopy c List.mem_cons_self
            · exact hrest 0 b hb

theorem replaceMatches_of_quiet {s : List Char} (h : ∀ q, q <:+ s → pattern q = none) :
    replaceMatches copy pattern 0 s = s.map copy := by
  induction s with
  | nil => rfl
  | cons c s ih =>
      rw [replaceMatches, h _ (List.suffix_refl _)]
      exact congrArg (copy c :: ·) (ih fun q hq => h q (hq.trans (List.suffix_cons c s)))

end Patterns

/-! ### The two patterns -/

theorem startswith_append_quote {start : List Char} (h : '\'' ∉ start) (p t : List Char) :
    Py.Chars.startswith (Py.Chars.upper (p ++ '\'' :: t)) start =
      Py.Chars.startswith (Py.Chars.upper p) start := by
  induction start generalizing p with
  | nil => rfl
  | cons d start ih =>
      obtain ⟨hd, hstart⟩ : '\'' ≠ d ∧ '\'' ∉ start := by simpa using h
      cases p with
      | nil =>
          have hne : (d == '\'') = false := by simpa using Ne.symm hd
          simp [Py.Chars.startswith, Py.Chars.upper, List.isPrefixOf, hne]
      | cons c p =>
          have hrest := ih hstart p
          simp only [Py.Chars.startswith, Py.Chars.upper] at hrest
          simp only [Py.Chars.startswith, Py.Chars.upper, List.cons_append, List.map_cons,
            List.isPrefixOf, hrest]

theorem length_le_of_startswith_upper {s start : List Char}
    (h : Py.Chars.startswith (Py.Chars.upper s) start = true) : start.length ≤ s.length := by
  have := (List.isPrefixOf_iff_prefix.1 h).length_le
  simpa [Py.Chars.upper] using this

/-- A reader reads in front of a quote as it does without. -/
def StopsAtQuote (read : List Char → Option (List Char)) : Prop :=
  ∀ p t, read (p ++ '\'' :: t) = (read p).map (· ++ '\'' :: t)

theorem StopsAtQuote.bind {read next : List Char → Option (List Char)} (h : StopsAtQuote read)
    (hnext : StopsAtQuote next) : StopsAtQuote fun s => (read s).bind next := by
  intro p t
  simp only [h p t]
  cases read p with
  | none => rfl
  | some s => exact hnext s t

theorem stopsAtQuote_afterPrefix {start : List Char} (h : '\'' ∉ start) :
    StopsAtQuote (afterPrefix start) := by
  intro p t
  rw [afterPrefix, afterPrefix, startswith_append_quote h]
  split
  · rename_i hstart
    rw [List.drop_append_of_le_length (length_le_of_startswith_upper hstart), Option.map_some]
  · rfl

theorem stopsAtQuote_afterBlanks : StopsAtQuote afterBlanks := by
  intro p t
  have hhead : (p ++ '\'' :: t).head?.any Py.isSpace = p.head?.any Py.isSpace := by
    cases p <;> rfl
  rw [afterBlanks, afterBlanks, hhead, Py.Chars.dropWhile_append_cons rfl]
  split <;> rfl

/-- The `S` of `ROWS?` -/
def afterPlural (s : List Char) : Option (List Char) :=
  some ((afterPrefix "S".toList s).getD s)

theorem stopsAtQuote_afterPlural : StopsAtQuote afterPlural := by
  intro p t
  rw [afterPlural, afterPlural, stopsAtQuote_afterPrefix (by decide)]
  cases afterPrefix "S".toList p <;> rfl

/-- `FETCH\s+FIRST\s+` -/
def afterFetch (s : List Char) : Option (List Char) :=
  (((afterPrefix "FETCH".toList s).bind afterBlanks).bind (afterPrefix "FIRST".toList)).bind
    afterBlanks

/-- `\s+ROWS?\s+ONLY` -/
def afterRows (s : List Char) : Option (List Char) :=
  ((((afterBlanks s).bind (afterPrefix "ROW".toList)).bind afterPlural).bind afterBlanks).bind
    (afterPrefix "ONLY".toList)

theorem stopsAtQuote_afterFetch : StopsAtQuote afterFetch :=
  (((stopsAtQuote_afterPrefix (by decide)).bind stopsAtQuote_afterBlanks).bind
    (stopsAtQuote_afterPrefix (by decide))).bind stopsAtQuote_afterBlanks

theorem stopsAtQuote_afterRows : StopsAtQuote afterRows :=
  (((stopsAtQuote_afterBlanks.bind (stopsAtQuote_afterPrefix (by decide))).bind
    stopsAtQuote_afterPlural).bind stopsAtQuote_afterBlanks).bind
      (stopsAtQuote_afterPrefix (by decide))

theorem fetchFirst_eq (s : List Char) : fetchFirst s =
    (afterFetch s).bind fun s => if s.takeWhile Char.isDigit = [] then none
      else (afterRows (s.dropWhile Char.isDigit)).map fun t => (s.takeWhile Char.isDigit, t) := by
  simp only [fetchFirst, afterFetch, afterRows, afterPlural, Option.bind_assoc,
    Option.bind_eq_bind, Option.bind_some]
  refine Option.bind_congr fun _ _ => Option.bind_congr fun _ _ => Option.bind_congr fun _ _ =>
    Option.bind_congr fun s _ => ?_
  by_cases hdigits : s.takeWhile Char.isDigit = []
  · simp [hdigits]
  · simp [hdigits, Option.map_eq_bind, Option.bind_assoc]

theorem takeWhile_append_quote {test : Char → Bool} (h : test '\'' = false) (p t : List Char) :
    (p ++ '\'' :: t).takeWhile test = p.takeWhile test := by
  induction p with
  | nil => simp [h]
  | cons c p ih => rw [List.cons_append, List.takeWhile_cons, List.takeWhile_cons, ih]

theorem fetchFirst_append_quote (p t : List Char) :
    fetchFirst (p ++ '\'' :: t) =
      (fetchFirst p).map fun found => (found.1, found.2 ++ '\'' :: t) := by
  rw [fetchFirst_eq, fetchFirst_eq, stopsAtQuote_afterFetch]
  cases afterFetch p with
  | none => rfl
  | some s =>
      rw [Option.map_some, Option.bind_some, Option.bind_some, takeWhile_append_quote rfl,
        Py.Chars.dropWhile_append_cons rfl, stopsAtQuote_afterRows]
      split
      · rfl
      · rw [Option.map_map, Option.map_map]
        rfl

theorem fetchFirst_cons {c : Char} {p : List Char} {found : List Char × List Char}
    (h : fetchFirst (c :: p) = some found) :
    c.toUpper = 'F' ∧ ∀ d ∈ found.1, d.isDigit = true := by
  rw [fetchFirst_eq, Option.bind_eq_some_iff] at h
  obtain ⟨s, hfetch, hrest⟩ := h
  constructor
  · simp only [afterFetch, Option.bind_eq_some_iff] at hfetch
    obtain ⟨_, ⟨_, ⟨_, hprefix, -⟩, -⟩, -⟩ := hfetch
    rw [afterPrefix] at hprefix
    split at hprefix
    · rename_i hstart
      simp only [Py.Chars.startswith, Py.Chars.upper, List.map_cons] at hstart
      obtain ⟨t, ht⟩ := List.isPrefixOf_iff_prefix.1 hstart
      exact (Option.some.inj (congrArg List.head? ht)).symm
    · cases hprefix
  · split at hrest
    · cases hrest
    · obtain ⟨t, -, rfl⟩ := Option.map_eq_some_iff.1 hrest
      exact fun d hd => List.mem_takeWhile_imp hd

theorem quoteless_limitClause : Quoteless limitClause where
  quote t := by
    rw [limitClause, Option.map_eq_none_iff]
    by_contra hne
    obtain ⟨found, hfound⟩ := Option.ne_none_iff_exists'.1 hne
    exact absurd (fetchFirst_cons hfound).1 (by decide)
  beyond c p t _ := by
    rw [limitClause, limitClause, fetchFirst_append_quote, Option.map_map]
    refine congrArg (Option.map · _) (funext fun found => ?_)
    simp only [Function.comp_apply, List.length_append, Prod.mk.injEq, true_and]
    omega
  length c p r n h := by
    obtain ⟨found, -, heq⟩ := Option.map_eq_some_iff.1 h
    obtain ⟨-, rfl⟩ := Prod.mk.inj heq
    exact Nat.sub_le _ _

theorem hostName_of_ne {c : Char} (h : c ≠ ':') (p : List Char) : hostName (c :: p) = none := by
  rw [hostName]
  intro _ _ heq
  exact h (List.cons.inj heq).1

theorem hostName_append_quote (p t : List Char) : hostName (p ++ '\'' :: t) = hostName p := by
  cases p with
  | nil => rfl
  | cons c p =>
      by_cases hc : c = ':'
      · subst hc
        cases p with
        | nil => rfl
        | cons d p =>
            rw [List.cons_append, List.cons_append, hostName, hostName, takeWhile_append_quote rfl]
      · rw [List.cons_append, hostName_of_ne hc, hostName_of_ne hc]

theorem length_hostName {s name : List Char} (h : hostName s = some name) :
    name.length + 1 ≤ s.length := by
  rw [hostName.eq_def] at h
  split at h
  · rename_i c rest
    split at h
    · cases h
      have := (List.takeWhile_prefix (p := isHostChar) (l := rest)).length_le
      simp only [List.length_cons]
      omega
    · cases h
  · cases h

theorem hostReference_append_quote (p t : List Char) :
    hostReference (p ++ '\'' :: t) = hostReference p := by
  rw [hostReference, hostReference, hostName_append_quote]
  cases hname : hostName p with
  | none => rfl
  | some name =>
      rw [Option.map_some, Option.map_some, List.drop_append_of_le_length (length_hostName hname),
        hostName_append_quote]

def hostToken (s : List Char) : Option (List Token × ℕ) :=
  (hostReference s).map fun found => ([Sum.inr found.1], found.2)

theorem quoteless_hostToken : Quoteless hostToken where
  quote t := by rw [hostToken, hostReference, hostName_of_ne (by decide)]; rfl
  beyond c p t _ := by rw [hostToken, hostToken, hostReference_append_quote]
  length c p r n h := by
    obtain ⟨found, hfound, heq⟩ := Option.map_eq_some_iff.1 h
    obtain ⟨-, rfl⟩ := Prod.mk.inj heq
    rw [hostReference] at hfound
    obtain ⟨name, hname, rfl⟩ := Option.map_eq_some_iff.1 hfound
    have hlength := length_hostName hname
    rw [List.length_cons] at hlength
    split
    · rename_i indicator hindicator
      have hlength' := length_hostName hindicator
      rw [List.length_drop, List.length_cons] at hlength'
      simp only
      omega
    · exact hlength

/-! ### Piece by piece -/

theorem quote_notMem_limitFetchFirst {p : List Char} (h : '\'' ∉ p) :
    '\'' ∉ limitFetchFirst p := by
  have hall : ∀ b ∈ limitFetchFirst p, b ≠ '\'' := by
    refine forall_replaceMatches (fun c hc => fun heq : c = '\'' => h (heq ▸ hc)) ?_ 0
    rintro s r n hmatch b hb rfl
    obtain ⟨found, hfound, heq⟩ := Option.map_eq_some_iff.1 hmatch
    obtain ⟨rfl, -⟩ := Prod.mk.inj heq
    cases s with
    | nil => cases hfound
    | cons c s =>
        rcases List.mem_append.1 hb with hb | hb
        · revert hb
          decide
        · exact absurd ((fetchFirst_cons hfound).2 _ hb) (by decide)
  exact fun hmem => hall _ hmem rfl

theorem quote_notMem_of_mem_splitOn {s p : List Char} (h : p ∈ s.splitOn '\'') : '\'' ∉ p := by
  induction s generalizing p with
  | nil =>
      rw [List.splitOn_nil, List.mem_singleton] at h
      rw [h]
      exact List.not_mem_nil
  | cons c s ih =>
      rw [List.splitOn_cons_eq_if_modifyHead] at h
      split at h
      · rcases List.mem_cons.1 h with rfl | h
        · exact List.not_mem_nil
        · exact ih h
      · rename_i hc
        cases hpieces : s.splitOn '\'' with
        | nil => exact absurd hpieces (List.splitOn_ne_nil _ _)
        | cons p' pieces =>
            rw [hpieces] at h ih
            rcases List.mem_cons.1 h with rfl | h
            · have hne : c ≠ '\'' := by simpa using hc
              exact List.not_mem_cons_of_ne_of_not_mem hne.symm (ih List.mem_cons_self)
            · exact ih (List.mem_cons_of_mem _ h)

/-- **The passes translate piece by piece.** -/
theorem maskTokens_limitFetchFirst_eq (sql : List Char) :
    maskTokens (limitFetchFirst sql) =
      [Sum.inl '\''].intercalate
        ((sql.splitOn '\'').map fun p => maskTokens (limitFetchFirst p)) := by
  have hpieces : ∀ p ∈ sql.splitOn '\'', '\'' ∉ p := fun p => quote_notMem_of_mem_splitOn
  conv_lhs => rw [← @List.intercalate_splitOn _ sql _ _ '\'']
  rw [limitFetchFirst, replaceMatches_intercalate quoteless_limitClause hpieces]
  refine (replaceMatches_intercalate quoteless_hostToken ?_).trans ?_
  · intro q hq
    obtain ⟨p, hp, rfl⟩ := List.mem_map.1 hq
    exact quote_notMem_limitFetchFirst (hpieces p hp)
  · rw [List.map_map]
    rfl

/-! ### Quiet literals -/

theorem limitFetchFirst_of_quiet {p : List Char} (h : Quiet p) : limitFetchFirst p = p := by
  rw [limitFetchFirst, replaceMatches_of_quiet, List.map_id]
  intro q hq
  rw [limitClause, (h q hq).1]
  rfl

theorem maskTokens_of_quiet {p : List Char} (h : Quiet p) :
    maskTokens (limitFetchFirst p) = p.map Sum.inl := by
  rw [limitFetchFirst_of_quiet h, maskTokens, replaceMatches_of_quiet]
  intro q hq
  rw [(h q hq).2]
  rfl

theorem hostReference_of_ne {c : Char} (h : c ≠ ':') (s : List Char) :
    hostReference (c :: s) = none := by
  rw [hostReference, hostName_of_ne h]
  rfl

/-- **A piece whose text stays is quiet**: the first match would change the character at which it
begins. -/
theorem quiet_of_maskedText {p : List Char}
    (h : maskedText (maskTokens (limitFetchFirst p)) = p) : Quiet p := by
  induction p with
  | nil =>
      intro q hq
      rw [List.suffix_nil.1 hq]
      exact ⟨rfl, rfl⟩
  | cons c p ih =>
      cases hfetch : fetchFirst (c :: p) with
      | some found =>
          have hhead := (fetchFirst_cons hfetch).1
          have hlimit : ∃ t, limitFetchFirst (c :: p) = 'L' :: t := by
            rw [limitFetchFirst, replaceMatches, limitClause, hfetch]
            exact ⟨_, rfl⟩
          obtain ⟨t, ht⟩ := hlimit
          rw [ht, maskTokens, replaceMatches, hostReference_of_ne (by decide)] at h
          have hfirst : 'L' = c := (List.cons.inj h).1
          rw [← hfirst] at hhead
          exact absurd hhead (by decide)
      | none =>
          have hlimit : limitFetchFirst (c :: p) = c :: limitFetchFirst p := by
            rw [limitFetchFirst, replaceMatches, limitClause, hfetch]
            rfl
          rw [hlimit, maskTokens, replaceMatches] at h
          cases hhost : hostReference (c :: limitFetchFirst p) with
          | some found =>
              have hcolon : c = ':' := by
                by_contra hne
                rw [hostReference_of_ne hne] at hhost
                cases hhost
              subst hcolon
              rw [hhost] at h
              exact absurd (congrArg List.head? h) (by simp [maskedText])
          | none =>
              rw [hhost] at h
              have hrest : Quiet p := ih (List.cons.inj h).2
              rw [limitFetchFirst_of_quiet hrest] at hhost
              intro q hq
              rcases List.suffix_cons_iff.1 hq with rfl | hq
              · exact ⟨hfetch, hhost⟩
              · exact hrest q hq

theorem maskedText_intercalate (pieces : List (List Token)) :
    maskedText ([Sum.inl '\''].intercalate pieces) =
      ['\''].intercalate (pieces.map maskedText) := by
  induction pieces with
  | nil => rfl
  | cons p pieces ih =>
      cases pieces with
      | nil => simp
      | cons p' pieces =>
          rw [List.intercalate_cons_cons, List.map_cons, List.map_cons, List.intercalate_cons_cons,
            ← List.map_cons (f := maskedText), ← ih]
          simp [maskedText]

theorem maskedText_map_inl (p : List Char) : maskedText (p.map Sum.inl) = p := by
  rw [maskedText, List.map_map]
  exact List.map_id p

theorem quote_notMem_maskedText {p : List Char} (h : '\'' ∉ p) :
    '\'' ∉ maskedText (maskTokens p) := by
  have hall : ∀ b ∈ maskTokens p, b ≠ Sum.inl '\'' := by
    refine forall_replaceMatches (fun c hc heq => h ?_) ?_ 0
    · rw [← Sum.inl.inj heq]
      exact hc
    · rintro s r n hmatch b hb rfl
      obtain ⟨found, -, heq⟩ := Option.map_eq_some_iff.1 hmatch
      obtain ⟨rfl, -⟩ := Prod.mk.inj heq
      simp at hb
  intro hmem
  obtain ⟨token, htoken, heq⟩ := List.mem_map.1 hmem
  cases token with
  | inl c =>
      obtain rfl : c = '\'' := heq
      exact hall _ htoken rfl
  | inr e => exact absurd (show '?' = '\'' from heq) (by decide)

theorem map_maskedText_inj {tokens tokens' : List (List Token)} (hne : tokens ≠ [])
    (hne' : tokens' ≠ []) (h : ∀ p ∈ tokens, '\'' ∉ maskedText p)
    (h' : ∀ p ∈ tokens', '\'' ∉ maskedText p)
    (heq : maskedText ([Sum.inl '\''].intercalate tokens) =
      maskedText ([Sum.inl '\''].intercalate tokens')) :
    tokens.map maskedText = tokens'.map maskedText := by
  rw [maskedText_intercalate, maskedText_intercalate] at heq
  have hsplit : (['\''].intercalate (tokens.map maskedText)).splitOn '\'' =
      tokens.map maskedText :=
    List.splitOn_intercalate '\'' (by simpa using h) (by simpa using hne)
  rw [← hsplit, heq, List.splitOn_intercalate '\'' (by simpa using h') (by simpa using hne')]

/-- **The passes leave the literals of a text alone exactly when they are quiet.** -/
theorem translatePieces_iff (sql : List Char) :
    maskHostVariables (limitFetchFirst sql) =
        (maskedText (translatePieces (sql.splitOn '\'')),
          bindPlan (translatePieces (sql.splitOn '\''))) ↔
      QuietLiterals sql := by
  have hquote (p : List Char) (hp : p ∈ sql.splitOn '\'') :
      '\'' ∉ maskedText (maskTokens (limitFetchFirst p)) :=
    quote_notMem_maskedText (quote_notMem_limitFetchFirst (quote_notMem_of_mem_splitOn hp))
  rw [maskHostVariables, maskTokens_limitFetchFirst_eq]
  constructor
  · intro h i p hi hodd
    have htext := (Prod.mk.inj h).1
    rw [translatePieces] at htext
    have hpieces := map_maskedText_inj (by simp) (by simp) ?_ ?_ htext
    · have hpiece := congrArg (·[i]?) hpieces
      simp only [List.getElem?_map, List.getElem?_mapIdx, hi, Option.map_some, if_pos hodd,
        maskedText_map_inl, Option.some.injEq] at hpiece
      exact quiet_of_maskedText hpiece
    · intro tokens htokens
      obtain ⟨p, hp, rfl⟩ := List.mem_map.1 htokens
      exact hquote p hp
    · intro tokens htokens
      obtain ⟨i, hi, rfl⟩ := List.mem_mapIdx.1 htokens
      have hmem := List.getElem_mem hi
      split
      · rw [maskedText_map_inl]
        exact quote_notMem_of_mem_splitOn hmem
      · exact hquote _ hmem
  · intro h
    have hpieces : (sql.splitOn '\'').map (fun p => maskTokens (limitFetchFirst p)) =
        (sql.splitOn '\'').mapIdx fun i p =>
          if i % 2 = 1 then p.map Sum.inl else maskTokens (limitFetchFirst p) := by
      refine List.ext_getElem? fun i => ?_
      rw [List.getElem?_map, List.getElem?_mapIdx]
      cases hi : (sql.splitOn '\'')[i]? with
      | none => rfl
      | some p =>
          rw [Option.map_some, Option.map_some]
          split
          · rename_i hodd
            rw [maskTokens_of_quiet (h i p hi hodd)]
          · rfl
    rw [hpieces, translatePieces]

/-! ### The clause -/

theorem stripSelectInto_eq (sql : List Char) :
    stripSelectInto sql = withoutClause (wordClause sql) sql := by
  unfold stripSelectInto wordClause
  cases findWord "INTO".toList false sql with
  | none => rfl
  | some found =>
      simp only [Option.bind_some]
      cases findWord "FROM".toList false (found.2.drop 4) with
      | none => rfl
      | some found' => rfl

theorem wordAt_of_findWord {word : List Char} {behind : Bool} {s before rest : List Char}
    (h : findWord word behind s = some (before, rest)) : wordAt word rest = true := by
  induction s generalizing behind before with
  | nil => cases h
  | cons c s ih =>
      rw [findWord] at h
      split at h
      · rename_i hword
        cases h
        exact (Bool.and_eq_true _ _ ▸ hword).2
      · obtain ⟨⟨before', rest'⟩, hfound, heq⟩ := Option.map_eq_some_iff.1 h
        cases heq
        exact ih hfound

theorem found_cons {word : List Char} {c : Char} {t before rest : List Char}
    {found : Option (List Char × List Char)}
    (h : found.map (fun f => (c :: f.1, f.2)) = some (before, rest))
    (ih : ∀ before', found = some (before', rest) → t = before' ++ rest ∧ wordAt word rest = true) :
    c :: t = before ++ rest ∧ wordAt word rest = true := by
  obtain ⟨⟨before', rest'⟩, hfound, heq⟩ := Option.map_eq_some_iff.1 h
  cases heq
  obtain ⟨rfl, hword⟩ := ih before' hfound
  exact ⟨rfl, hword⟩

theorem findOutside_spec {word : List Char} {skip : ℕ} {quoted behind : Bool}
    {s before rest : List Char} (h : findOutside word skip quoted behind s = some (before, rest)) :
    s = before ++ rest ∧ wordAt word rest = true := by
  induction s generalizing skip quoted behind before with
  | nil => cases skip <;> cases quoted <;> cases h
  | cons c s ih =>
      cases skip with
      | succ skip => exact found_cons h fun _ => ih
      | zero =>
          cases quoted with
          | true => exact found_cons h fun _ => ih
          | false =>
              rw [findOutside] at h
              split at h
              · rename_i hword
                cases h
                exact ⟨rfl, (Bool.and_eq_true _ _ ▸ hword).2⟩
              · exact found_cons h fun _ => ih

/-- A clause of a text: it begins with an `I`, and what is behind it with an `F`. -/
structure ClauseOf (sql : List Char) (clause : List Char × List Char) : Prop where
  into : ∃ c rest, sql = clause.1 ++ c :: rest ∧ c.toUpper = 'I' ∧
    clause.2.length + 3 ≤ rest.length
  behind : ∃ d tail, clause.2 = d :: tail ∧ d.toUpper = 'F'

theorem exists_of_wordAt {d : Char} {word s : List Char} (h : wordAt (d :: word) s = true) :
    ∃ c rest, s = c :: rest ∧ c.toUpper = d ∧ word.length ≤ rest.length := by
  rw [wordAt, Bool.and_eq_true] at h
  have hlength := length_le_of_startswith_upper h.1
  cases s with
  | nil => simp at hlength
  | cons c rest =>
      obtain ⟨t, ht⟩ := List.isPrefixOf_iff_prefix.1 h.1
      exact ⟨c, rest, rfl, (List.cons.inj ht).1.symm, by simpa using hlength⟩

theorem clauseOf_of_words {sql before rest before' tail : List Char} (hsql : sql = before ++ rest)
    (hinto : wordAt "INTO".toList rest = true) (hrest : rest.drop 4 = before' ++ tail)
    (hfrom : wordAt "FROM".toList tail = true) : ClauseOf sql (before, tail) := by
  obtain ⟨c, rest, rfl, hc, hlength⟩ := exists_of_wordAt hinto
  obtain ⟨d, tail, rfl, hd, -⟩ := exists_of_wordAt hfrom
  refine ⟨⟨c, rest, hsql, hc, ?_⟩, d, tail, rfl, hd⟩
  have hlength' := congrArg List.length hrest
  simp only [List.length_drop, List.length_append, List.length_cons] at *
  omega

theorem clauseOf_wordClause {sql : List Char} {clause : List Char × List Char}
    (h : wordClause sql = some clause) : ClauseOf sql clause := by
  obtain ⟨found, hinto, h⟩ := Option.bind_eq_some_iff.1 h
  obtain ⟨found', hfrom, rfl⟩ := Option.map_eq_some_iff.1 h
  exact clauseOf_of_words (findWord_append hinto) (wordAt_of_findWord hinto)
    (findWord_append hfrom) (wordAt_of_findWord hfrom)

theorem clauseOf_intoClause {sql : List Char} {clause : List Char × List Char}
    (h : intoClause sql = some clause) : ClauseOf sql clause := by
  rw [intoClause] at h
  split at h
  · obtain ⟨found, hinto, h⟩ := Option.bind_eq_some_iff.1 h
    obtain ⟨found', hfrom, rfl⟩ := Option.map_eq_some_iff.1 h
    exact clauseOf_of_words (findOutside_spec hinto).1 (findOutside_spec hinto).2
      (findOutside_spec hfrom).1 (findOutside_spec hfrom).2
  · cases h

theorem isSpace_of_toUpper {c d : Char} (h : c.toUpper = d) (hd : Py.isSpace d = false) :
    Py.isSpace c = false := by
  rw [← Py.Chars.isSpace_toUpper, h, hd]

theorem withoutClause_ne {sql : List Char} {clause : List Char × List Char}
    (h : ClauseOf sql clause) : withoutClause (some clause) sql ≠ sql := by
  obtain ⟨c, rest, hsql, -, hlength⟩ := h.into
  intro heq
  have hlengths := congrArg List.length (heq.trans hsql)
  have hrstrip : (Py.Chars.rstrip clause.1).length ≤ clause.1.length :=
    (List.rdropWhile_prefix ..).length_le
  simp only [withoutClause, List.length_append, List.length_cons] at hlengths
  omega

/-- **Of two clauses, the text without the one tells where the other begins.** -/
theorem not_withoutClause_of_lt {sql : List Char} {clause clause' : List Char × List Char}
    (h : ClauseOf sql clause) (h' : ClauseOf sql clause')
    (hlt : clause.1.length < clause'.1.length) :
    withoutClause (some clause) sql ≠ withoutClause (some clause') sql := by
  obtain ⟨c, rest, hsql, hc, -⟩ := h.into
  obtain ⟨_, _, hsql', -, -⟩ := h'.into
  obtain ⟨d, tail, htail, hd⟩ := h.behind
  have hspace := isSpace_of_toUpper hc rfl
  -- the text before the later clause holds the beginning of the earlier
  obtain ⟨z, hz⟩ : ∃ z, clause'.1 = clause.1 ++ c :: z := by
    obtain ⟨y, hy⟩ := List.prefix_of_prefix_length_le (⟨_, hsql.symm⟩ : clause.1 <+: sql)
      ⟨_, hsql'.symm⟩ hlt.le
    rw [← hy, List.append_assoc, hsql, List.append_cancel_left_eq] at hsql'
    cases y with
    | nil =>
        rw [List.append_nil] at hy
        rw [hy] at hlt
        exact absurd hlt (lt_irrefl _)
    | cons e z =>
        rw [List.cons_append, List.cons.injEq] at hsql'
        exact ⟨z, by rw [← hy, hsql'.1]⟩
  have hu := Py.Chars.rstrip_append_cons hspace clause.1 z
  intro heq
  have hblanks : Py.Chars.rstrip clause.1 ++ clause.1.rtakeWhile Py.isSpace = clause.1 :=
    List.rdropWhile_append_rtakeWhile
  rw [withoutClause, withoutClause, hz, hu, htail] at heq
  conv_rhs at heq => rw [← hblanks]
  rw [List.append_assoc, List.append_assoc, List.append_cancel_left_eq] at heq
  cases hw : clause.1.rtakeWhile Py.isSpace with
  | nil =>
      rw [hw, List.nil_append, List.cons_append, List.cons.injEq] at heq
      rw [← heq.1] at hc
      exact absurd hc (by decide)
  | cons w ws =>
      rw [hw, List.cons_append, List.cons.injEq] at heq
      cases ws with
      | nil =>
          rw [List.nil_append, List.cons_append, List.cons.injEq] at heq
          rw [heq.2.1, hc] at hd
          exact absurd hd (by decide)
      | cons w' ws =>
          rw [List.cons_append, List.cons.injEq] at heq
          have hblank : Py.isSpace w' = true :=
            List.mem_rtakeWhile_imp (hw ▸ List.mem_cons_of_mem w List.mem_cons_self)
          rw [← heq.2.1, isSpace_of_toUpper hd rfl] at hblank
          cases hblank

theorem withoutClause_inj {sql : List Char} {clause clause' : List Char × List Char}
    (h : ClauseOf sql clause) (h' : ClauseOf sql clause')
    (heq : withoutClause (some clause) sql = withoutClause (some clause') sql) :
    clause = clause' := by
  obtain ⟨c, rest, hsql, -⟩ := h.into
  obtain ⟨c', rest', hsql', -⟩ := h'.into
  rcases Nat.lt_trichotomy clause.1.length clause'.1.length with hlt | hsame | hlt
  · exact absurd heq (not_withoutClause_of_lt h h' hlt)
  · have hbefore : clause.1 = clause'.1 :=
      (List.append_inj (hsql.symm.trans hsql') hsame).1
    rw [withoutClause, withoutClause, hbefore] at heq
    exact Prod.ext hbefore (List.cons.inj (List.append_cancel_left heq)).2
  · exact absurd heq.symm (not_withoutClause_of_lt h' h hlt)

/-- **The right clause is stripped exactly when it is that of the words.** -/
theorem stripSelectInto_iff (sql : List Char) :
    stripSelectInto sql = withoutClause (intoClause sql) sql ↔ wordClause sql = intoClause sql := by
  rw [stripSelectInto_eq]
  constructor
  · intro heq
    cases hword : wordClause sql with
    | none =>
        cases hinto : intoClause sql with
        | none => rfl
        | some clause =>
            rw [hword, hinto] at heq
            exact absurd heq.symm (withoutClause_ne (clauseOf_intoClause hinto))
    | some clause =>
        cases hinto : intoClause sql with
        | none =>
            rw [hword, hinto] at heq
            exact absurd heq (withoutClause_ne (clauseOf_wordClause hword))
        | some clause' =>
            rw [hword, hinto] at heq
            rw [withoutClause_inj (clauseOf_wordClause hword) (clauseOf_intoClause hinto) heq]
  · intro heq
    rw [heq]

/-! ### Faithful translations -/

end CobolJava.Sql
