/-
**The cursor of an indexed file.**

`start` of the class `CobolFileIo` remembers the key before the record it selects, and the next
read takes the first key behind the remembered one.  Records may be written, rewritten and deleted
in between: the read finds the selected record, or the one that follows it, unless a record was put
between the remembered key and the selected one.

Main definitions:

* `CobolFileIo.Selects` — the record that `start` selects;
* `CobolFileIo.Enumerates` — what the next reads of a state return;
* `CobolFileIo.Positioned` — they return the records from a key on;
* `CobolFileIo.NothingBefore` — no record stands between the predecessor and the selected key.

Main results:

* `CobolFileIo.enumerates_after` — reads enumerate the records behind the cursor;
* `CobolFileIo.start_positioned_iff` — **the file is positioned exactly where no record stands
  between the predecessor and the selected key**;
* `CobolFileIo.nothingBefore_run` — none does unless one is written there.
-/

import CobolJava.Transformation.KeyedFiles

set_option autoImplicit false

namespace CobolJava.CobolFileIo

open Java (Text)

/-! ### Reads -/

/-- The next reads of a state return some records, each of them moving the cursor to its key, and
then nothing. -/
def Enumerates : PathState → List (Text × Text) → Prop
  | s, [] => read s = (s, none)
  | s, e :: es =>
      read s = ({ s with cursor := some e.1 }, some (recordOf (s.keyLen.getD 0) e)) ∧
        Enumerates { s with cursor := some e.1 } es

theorem Enumerates.keys_unique {s : PathState} {es es' : List (Text × Text)}
    (h : Enumerates s es) (h' : Enumerates s es') : es.map Prod.fst = es'.map Prod.fst := by
  induction es generalizing s es' with
  | nil =>
      cases es' with
      | nil => rfl
      | cons e' es' =>
          have hread := h.symm.trans h'.1
          simp at hread
  | cons e es ih =>
      cases es' with
      | nil =>
          have hread := h'.symm.trans h.1
          simp at hread
      | cons e' es' =>
          have hread := h.1.symm.trans h'.1
          simp only [Prod.mk.injEq, PathState.mk.injEq, Option.some.injEq, true_and, and_true]
            at hread
          have hrest := h'.2
          rw [← hread.1] at hrest
          rw [List.map_cons, List.map_cons, hread.1, ih h.2 hrest]

def behind (m : SortedMap Text Text) : Option Text → List (Text × Text)
  | none => m.entries
  | some key => m.above key

theorem behind_tail {m : SortedMap Text Text} {cursor : Option Text} {e : Text × Text}
    {es : List (Text × Text)} (h : behind m cursor = e :: es) : behind m (some e.1) = es := by
  cases cursor with
  | none => exact SortedMap.above_of_entries h
  | some key => exact SortedMap.above_of_above h

theorem read_behind {s : PathState} {m : SortedMap Text Text} (hs : s.index = some m) :
    read s = match (behind m s.cursor).head? with
      | none => (s, none)
      | some e => ({ s with cursor := some e.1 }, some (recordOf (s.keyLen.getD 0) e)) := by
  rw [read, hs]
  cases hcursor : s.cursor with
  | none => rfl
  | some key =>
      have hfirst : m.higher? key = (behind m (some key)).head? := SortedMap.higher?_eq_head? m key
      rw [← hfirst] <;> rfl

/-- **Reads enumerate the records behind the cursor.** -/
theorem enumerates_behind {s : PathState} {m : SortedMap Text Text} (hs : s.index = some m) :
    Enumerates s (behind m s.cursor) := by
  generalize hes : behind m s.cursor = es
  induction es generalizing s with
  | nil =>
      rw [Enumerates, read_behind hs, hes]
      rfl
  | cons e es ih =>
      refine ⟨by rw [read_behind hs, hes]; rfl, ih hs (behind_tail hes)⟩

/-! ### Calls that change records -/

/-- A WRITE, a REWRITE or a DELETE. -/
def Call.IsMutation : Call → Prop
  | .write _ _ => True
  | .rewrite _ _ => True
  | .delete _ _ => True
  | _ => False

/-- The record of a WRITE has a key. -/
def Call.Writes (call : Call) (key : Text) : Prop :=
  ∃ record n, call = .write record n ∧ key ∈ keyOf record n

theorem ensureIndex_eq {s : PathState} {m : SortedMap Text Text} (hm : s.index = some m) (n : ℤ) :
    ensureIndex s n = s := by
  rw [ensureIndex, hm]

/-- A mutation changes nothing, puts a record of a key that it writes or that is held, or removes
one. -/
theorem mutation_cases {s : PathState} {m : SortedMap Text Text} (hm : s.index = some m)
    {call : Call} (hcall : call.IsMutation) :
    (step s call).1 = s ∨
      (∃ key data, (call.Writes key ∨ m.contains key = true) ∧
        (step s call).1 = persistIndex s (m.put key data)) ∨
      ∃ key, (step s call).1 = persistIndex s (m.remove key) := by
  have hheld : heldIndex s = m := by rw [heldIndex, hm, Option.getD_some]
  cases call with
  | write record n =>
      have hwrite : write s record n = if 0 < n then
          match keyOf record n with
          | none => (s, .notFound)
          | some key =>
              if m.contains key then (s, .duplicateKey)
              else (persistIndex s (m.put key (dataOf record n)), .ok)
          else (s, .notFound) := by
        rw [write, hm, ensureIndex_eq hm, hheld]
        cases s.relative <;> rfl
      rw [step, hwrite]
      split_ifs
      · cases hkey : keyOf record n with
        | none => exact .inl rfl
        | some key =>
            by_cases hcontains : m.contains key = true
            · exact .inl (by simp [hcontains])
            · refine .inr (.inl ⟨key, dataOf record n, .inl ⟨record, n, rfl, hkey⟩, ?_⟩)
              simp [hcontains]
      · exact .inl rfl
  | rewrite record n =>
      have hrewrite : rewrite s record n =
          match keyOf record n with
          | none => (s, .notFound)
          | some key =>
              if m.contains key then (persistIndex s (m.put key (dataOf record n)), .ok)
              else (s, .notFound) := by
        rw [rewrite, hm, ensureIndex_eq hm, hheld]
        cases s.relative <;> rfl
      rw [step, hrewrite]
      cases hkey : keyOf record n with
      | none => exact .inl rfl
      | some key =>
          by_cases hcontains : m.contains key = true
          · refine .inr (.inl ⟨key, dataOf record n, .inr hcontains, ?_⟩)
            simp [hcontains]
          · exact .inl (by simp [hcontains])
  | delete key n =>
      rw [step, delete, ensureIndex_eq hm, hheld]
      by_cases hcontains : m.contains key = true
      · refine .inr (.inr ⟨key, ?_⟩)
        simp [hcontains]
      · exact .inl (by simp [hcontains])
  | _ => cases hcall

/-- The state of an indexed file with a cursor and a key length. -/
structure Standing (cursor : Option Text) (keyLen : Option ℤ) (s : PathState) : Prop where
  indexed : s.index.isSome
  cursor : s.cursor = cursor
  keyLen : s.keyLen = keyLen

section Mutations

variable {cursor : Option Text} {keyLen : Option ℤ} {s : PathState}

theorem Standing.persistIndex (h : Standing cursor keyLen s) (m : SortedMap Text Text) :
    Standing cursor keyLen (persistIndex s m) := ⟨rfl, h.cursor, h.keyLen⟩

theorem Standing.step (h : Standing cursor keyLen s) {call : Call} (hcall : call.IsMutation) :
    Standing cursor keyLen (step s call).1 := by
  obtain ⟨m, hm⟩ := Option.isSome_iff_exists.1 h.indexed
  rcases mutation_cases hm hcall with hs | ⟨key, data, -, hs⟩ | ⟨key, hs⟩ <;> rw [hs]
  · exact h
  · exact h.persistIndex _
  · exact h.persistIndex _

theorem Standing.run (h : Standing cursor keyLen s) {calls : List Call}
    (hcalls : ∀ call ∈ calls, call.IsMutation) : Standing cursor keyLen (run s calls) := by
  induction calls generalizing s with
  | nil => exact h
  | cons call calls ih =>
      rw [List.forall_mem_cons] at hcalls
      exact ih (h.step hcalls.1) hcalls.2

/-- A property of the keys that are held, and of those that are written, is kept. -/
theorem keys_run {P : Text → Prop} {calls : List Call}
    (hcalls : ∀ call ∈ calls, call.IsMutation)
    (hwrites : ∀ call ∈ calls, ∀ key, call.Writes key → P key)
    {m : SortedMap Text Text} (hm : s.index = some m) (h : ∀ f ∈ m.entries, P f.1) :
    ∃ m', (CobolFileIo.run s calls).index = some m' ∧ ∀ f ∈ m'.entries, P f.1 := by
  induction calls generalizing s m with
  | nil => exact ⟨m, hm, h⟩
  | cons call calls ih =>
      rw [List.forall_mem_cons] at hcalls hwrites
      have hstep : ∃ m', (CobolFileIo.step s call).1.index = some m' ∧
          ∀ f ∈ m'.entries, P f.1 := by
        rcases mutation_cases hm hcalls.1 with hs | ⟨key, data, hkey, hs⟩ | ⟨key, hs⟩ <;> rw [hs]
        · exact ⟨m, hm, h⟩
        · refine ⟨_, rfl, SortedMap.put_forall h ?_⟩
          rcases hkey with hkey | hkey
          · exact hwrites.1 key hkey
          · obtain ⟨a, ha⟩ := SortedMap.mem_of_contains hkey
            exact h (key, a) ha
        · exact ⟨_, rfl, SortedMap.remove_forall h⟩
      obtain ⟨m', hm', h'⟩ := hstep
      exact ih hcalls.2 hwrites.2 hm' h'

end Mutations

/-! ### Positions -/

/-- The record that `start` selects among those of a file. -/
def selected (m : SortedMap Text Text) (op : StartRelation) (key : Text) : Option (Text × Text) :=
  match op with
  | .equal => (m.get? key).map fun record => (key, record)
  | .notLess => m.ceiling? key
  | .greater => m.higher? key
  | .notGreater => m.floor? key
  | .less => m.lower? key

/-- `start` selects a record of a state. -/
def Selects (s : PathState) (op : StartRelation) (key : Text) (e : Text × Text) : Prop :=
  ∃ m, s.index = some m ∧ m.isEmpty = false ∧ selected m op key = some e

theorem Selects.unique {s : PathState} {op : StartRelation} {key : Text} {e e' : Text × Text}
    {m : SortedMap Text Text} (h : Selects s op key e) (hs : s.index = some m)
    (he' : selected m op key = some e') : e = e' := by
  obtain ⟨m', hs', -, he⟩ := h
  obtain rfl : m = m' := Option.some.inj (hs.symm.trans hs')
  exact Option.some.inj (he.symm.trans he')

/-- A record is selected exactly where `start` returns `00`. -/
theorem start_selects {s s' : PathState} {op : StartRelation} {key : Text} :
    start s op key = (s', .ok) ↔ ∃ m e, s.index = some m ∧ Selects s op key e ∧
      s' = { s with cursor := (m.lower? e.1).map Prod.fst } := by
  obtain hs | ⟨m, hs⟩ := Option.eq_none_or_eq_some s.index
  · simp [start, hs]
  have hstart : start s op key = if m.isEmpty then (s, .notFound)
      else match selected m op key with
        | none => (s, .notFound)
        | some e => ({ s with cursor := (m.lower? e.1).map Prod.fst }, .ok) := by
    rw [start, hs]
    rfl
  rw [hstart]
  cases hempty : m.isEmpty with
  | true => simp [Selects, hs, hempty]
  | false =>
      cases hselected : selected m op key with
      | none => simp [Selects, hs, hselected]
      | some e =>
          constructor
          · intro h
            exact ⟨m, e, hs, ⟨m, hs, hempty, hselected⟩, (congrArg Prod.fst h).symm⟩
          · rintro ⟨m', e', hs', he', rfl⟩
            obtain rfl := he'.unique hs hselected
            obtain rfl : m = m' := Option.some.inj (hs.symm.trans hs')
            rfl

/-- The next reads of a state return the records from a key on, in order, and then nothing. -/
def Positioned (s : PathState) (key : Text) : Prop :=
  ∃ m, s.index = some m ∧ Enumerates s (m.upward key)

/-- No record of `s` stands below a key and above its predecessor in `s₀`. -/
def NothingBefore (s₀ s : PathState) (key : Text) : Prop :=
  ∀ m₀ m, s₀.index = some m₀ → s.index = some m → ∀ f ∈ m.entries, f.1 < key →
    ∃ p, m₀.lower? key = some p ∧ f.1 ≤ p.1

theorem mem_behind {m₀ m : SortedMap Text Text} {key : Text} {f : Text × Text} :
    f ∈ behind m ((m₀.lower? key).map Prod.fst) ↔
      f ∈ m.entries ∧ ∀ p, m₀.lower? key = some p → p.1 < f.1 := by
  cases m₀.lower? key with
  | none => simp [behind]
  | some p => simp [behind, SortedMap.mem_above]

theorem behind_eq_upward {m₀ m : SortedMap Text Text} {key : Text}
    (h : ∀ f ∈ m.entries, (∃ p, m₀.lower? key = some p ∧ f.1 ≤ p.1) ∨ key ≤ f.1) :
    behind m ((m₀.lower? key).map Prod.fst) = m.upward key := by
  cases hlower : m₀.lower? key with
  | none =>
      refine (List.filter_eq_self.2 fun f hf => decide_eq_true ?_).symm
      rcases h f hf with ⟨p, hp, -⟩ | hle
      · rw [hlower] at hp
        cases hp
      · exact hle
  | some p =>
      refine List.filter_congr fun f hf => decide_eq_decide.2 ⟨fun hlt => ?_, fun hle => ?_⟩
      · rcases h f hf with ⟨q, hq, hle⟩ | hle
        · obtain rfl : p = q := Option.some.inj (hlower.symm.trans hq)
          exact absurd hlt (not_lt.2 hle)
        · exact hle
      · exact (SortedMap.lower?_lt hlower).trans_le hle

/-- **The file is positioned exactly where no record stands between the predecessor and the selected
key**: whatever was written, rewritten and deleted since `start` returned `00`, the next reads then
return the records from the selected key on. -/
theorem start_positioned_iff {s s₁ : PathState} {op : StartRelation} {key : Text}
    {e : Text × Text} (hstart : start s op key = (s₁, .ok)) (he : Selects s op key e)
    {calls : List Call} (hcalls : ∀ call ∈ calls, call.IsMutation) :
    Positioned (run s₁ calls) e.1 ↔ NothingBefore s (run s₁ calls) e.1 := by
  obtain ⟨m₀, e', hs, he', rfl⟩ := start_selects.1 hstart
  obtain rfl : e = e' := by
    obtain ⟨m', hs', -, hselected⟩ := he'
    exact he.unique hs' hselected
  -- the cursor that `start` leaves is still there
  have hstands : Standing ((m₀.lower? e.1).map Prod.fst) s.keyLen
      (run { s with cursor := (m₀.lower? e.1).map Prod.fst } calls) :=
    Standing.run (s := { s with cursor := (m₀.lower? e.1).map Prod.fst })
      ⟨Option.isSome_iff_exists.2 ⟨m₀, hs⟩, rfl, rfl⟩ hcalls
  generalize run { s with cursor := (m₀.lower? e.1).map Prod.fst } calls = t at hstands ⊢
  obtain ⟨m, ht⟩ := Option.isSome_iff_exists.1 hstands.indexed
  have hreads := enumerates_behind ht
  rw [hstands.cursor] at hreads
  constructor
  · rintro ⟨_, ht', hpositioned⟩ _ _ hs' ht'' f hf hbelow
    obtain rfl : m = _ := Option.some.inj (ht.symm.trans ht')
    obtain rfl : m = _ := Option.some.inj (ht.symm.trans ht'')
    obtain rfl : m₀ = _ := Option.some.inj (hs.symm.trans hs')
    by_contra hno
    have hmem : f ∈ behind m ((m₀.lower? e.1).map Prod.fst) :=
      mem_behind.2 ⟨hf, fun p hp => lt_of_not_ge fun hle => hno ⟨p, hp, hle⟩⟩
    have hkey := List.mem_map_of_mem (f := Prod.fst) hmem
    rw [hreads.keys_unique hpositioned] at hkey
    obtain ⟨g, hg, hgf⟩ := List.mem_map.1 hkey
    have hle := (SortedMap.mem_upward.1 hg).2
    rw [hgf] at hle
    exact absurd hbelow (not_lt.2 hle)
  · intro hnothing
    refine ⟨m, ht, ?_⟩
    have hsame : behind m ((m₀.lower? e.1).map Prod.fst) = m.upward e.1 := by
      refine behind_eq_upward fun f hf => ?_
      by_cases hbelow : f.1 < e.1
      · exact .inl (hnothing m₀ m hs ht f hf hbelow)
      · exact .inr (not_lt.1 hbelow)
    rw [← hsame]
    exact hreads

theorem nothingBefore_run {s₀ s : PathState} {m₀ m : SortedMap Text Text} {key : Text}
    (hs₀ : s₀.index = some m₀) (hm : s.index = some m) (h : NothingBefore s₀ s key)
    {calls : List Call} (hcalls : ∀ call ∈ calls, call.IsMutation)
    (hwrites : ∀ call ∈ calls, ∀ k, call.Writes k → k < key →
      ∃ p, m₀.lower? key = some p ∧ k ≤ p.1) :
    NothingBefore s₀ (run s calls) key := by
  obtain ⟨m', hm', hkeys⟩ := keys_run hcalls hwrites hm (h m₀ m hs₀ hm)
  intro m₁ m₂ hm₁ hm₂
  obtain rfl : m₀ = m₁ := Option.some.inj (hs₀.symm.trans hm₁)
  obtain rfl : m' = m₂ := Option.some.inj (hm'.symm.trans hm₂)
  exact hkeys

/-- The file of the records `Ax` and `Cy`, with keys of one character. -/
def recordsAC : PathState where
  index := some ((SortedMap.empty.put (Java.ofChars ['A']) (Java.ofChars ['x'])).put
    (Java.ofChars ['C']) (Java.ofChars ['y']))
  keyLen := some 1
  relative := none
  cursor := none
  idxFile := none
  relFile := none

/-- After START at `C`, the record `Dz` is written and `Ax` deleted. -/
theorem start_positioned_iff_later :
    Positioned (run (start recordsAC .equal (Java.ofChars ['C'])).1
      [.write (Java.ofChars ['D', 'z']) 1, .delete (Java.ofChars ['A']) 1])
      (Java.ofChars ['C']) := by
  have hstart : start recordsAC .equal (Java.ofChars ['C']) =
      ({ recordsAC with cursor := some (Java.ofChars ['A']) }, .ok) := by decide
  have he : Selects recordsAC .equal (Java.ofChars ['C']) (Java.ofChars ['C'], Java.ofChars ['y']) :=
    ⟨_, rfl, by decide, by decide⟩
  have hcalls : ∀ call ∈ [Call.write (Java.ofChars ['D', 'z']) 1, .delete (Java.ofChars ['A']) 1],
      call.IsMutation := by simp [Call.IsMutation]
  refine (start_positioned_iff hstart he hcalls).2 ?_
  refine nothingBefore_run (s := { recordsAC with cursor := some (Java.ofChars ['A']) })
    rfl rfl ?_ hcalls ?_
  · rintro m₀ m hm₀ hm f hf hlt
    obtain rfl := Option.some.inj hm₀
    obtain rfl := Option.some.inj hm
    refine ⟨(Java.ofChars ['A'], Java.ofChars ['x']), by decide, ?_⟩
    revert hlt
    revert f
    decide
  · rintro call hcall k ⟨record, n, rfl, hk⟩ hlt
    obtain ⟨rfl, rfl⟩ : record = Java.ofChars ['D', 'z'] ∧ n = 1 := by simpa using hcall
    obtain rfl : Java.ofChars ['D'] = k := Option.some.inj hk
    exact absurd hlt (by decide)

/-- After START at `C`, the record `Bz` is written: the next read returns it. -/
theorem start_not_positioned :
    start recordsAC .equal (Java.ofChars ['C']) =
        ({ recordsAC with cursor := some (Java.ofChars ['A']) }, .ok) ∧
      (read (run (start recordsAC .equal (Java.ofChars ['C'])).1
        [.write (Java.ofChars ['B', 'z']) 1])).2 = some (Java.ofChars ['B', 'z']) ∧
      ¬ Positioned (run (start recordsAC .equal (Java.ofChars ['C'])).1
        [.write (Java.ofChars ['B', 'z']) 1]) (Java.ofChars ['C']) := by
  refine ⟨by decide, by decide, ?_⟩
  rintro ⟨m, hm, hreads⟩
  obtain rfl := Option.some.inj hm
  exact absurd hreads.1 (by decide)

end CobolJava.CobolFileIo
