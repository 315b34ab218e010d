/-
**What the readers of file images raise.**

The comparison of keyed files goes on when a reader raises `UnreadableImage`; every other exception
ends it.  The reader of slot files raises nothing else.  The readers of the generated runtime's files
decode the image and convert numbers, each of which may fail; the reader of B-trees trusts the number
of entries of a page and the last offset of an internal page, and nests one call for each level.

Main definitions:

* `Images.Certain` — a step that raises `UnreadableImage` only;
* `Images.Convertible`, `Images.LinesConvertible` — numbers that `int` takes;
* `Images.Walked`, `Images.Faulty` — a part of a B-tree that is read, and one in which a page that is
  come to runs past its end or lies too deep.

Main results:

* `Images.gnucobolRelativeRecords_certain` — the reader of slot files;
* `Images.emulatedIndexRecords_certain_iff`, `Images.emulatedRelativeRecords_certain_iff`,
  `Images.bdbBtreeRecords_certain_iff` — **the other readers**, and when they do;
* `Images.walkFrom_nodup` — no page is entered twice;
* `Images.recordsOfBoth_falls_back` — the comparison goes on.
-/

import CobolJava.Comparators.RelativeSlots

set_option autoImplicit false

namespace CobolJava.Images

open Py (Bytes Exc unpack byteAt RaisesOnly)

/-! ### Steps that fail closed -/

/-- `except UnreadableImage` takes the exception. -/
def Unreadable (e : Exc) : Prop := ∃ message, e = unreadable message

/-- No exception but `UnreadableImage` is raised. -/
def Certain {α : Type} (x : Except Exc α) : Prop := RaisesOnly Unreadable x

theorem unreadable_unreadable (message : String) : Unreadable (unreadable message) := ⟨message, rfl⟩

theorem not_unreadable_valueError (text : String) : ¬Unreadable (.valueError text) := by
  rintro ⟨message, h⟩
  cases h

theorem not_unreadable_declared {name : String} (h : name ≠ "UnreadableImage") (text : String) :
    ¬Unreadable (.declared name text) := by
  rintro ⟨message, he⟩
  exact h (Exc.declared.inj he).1

theorem certain_certify_bind {α : Type} {condition : Bool} {message : String}
    {f : Unit → Except Exc α} :
    Certain (certify condition message >>= f) ↔ (condition = true → Certain (f ())) := by
  cases condition
  · simpa [Certain, certify, bind, Except.bind] using unreadable_unreadable message
  · simp [Certain, certify, bind, Except.bind]

theorem certain_bind {α β : Type} {x : Except Exc α} {f : α → Except Exc β} :
    Certain (x >>= f) ↔ Certain x ∧ ∀ a, x = .ok a → Certain (f a) := Py.raisesOnly_bind

theorem certify_bind_ok {α : Type} {condition : Bool} {message : String} {f : Unit → Except Exc α}
    {a : α} (h : (certify condition message >>= f) = .ok a) : condition = true ∧ f () = .ok a := by
  cases condition
  · cases h
  · exact ⟨rfl, h⟩

/-! ### Slot files -/

theorem gnucobolRelativeRecords_certain (image : Bytes) :
    Certain (gnucobolRelativeRecords image) := by
  by_cases hne : image = []
  · rw [gnucobolRelativeRecords, if_pos hne]
    exact Py.raisesOnly_ok []
  · rcases gnucobolRelativeRecords_cases hne with ⟨l, -, h⟩ | ⟨-, message, h⟩ <;> rw [h]
    · exact Py.raisesOnly_ok _
    · exact Py.raisesOnly_error.2 (unreadable_unreadable message)

/-! ### Files of the generated runtime -/

/-- The digits are decimal, and there are not too many. -/
def Convertible (text : List Char) : Prop :=
  (∀ c ∈ text, (Py.decimalValue c).isSome) ∧ text.length ≤ Py.maxIntDigits

theorem certain_intOfText {text : List Char} : Certain (Py.intOfText text) ↔ Convertible text := by
  rw [Convertible, ← Py.intOfText_isOk]
  constructor
  · intro h
    cases hint : Py.intOfText text with
    | ok n => exact ⟨n, rfl⟩
    | error e =>
        have he := h e hint
        rw [Py.intOfText] at hint
        split at hint
        · obtain rfl := Except.error.inj hint
          exact absurd he (not_unreadable_valueError _)
        · split_ifs at hint
          obtain rfl := Except.error.inj hint
          exact absurd he (not_unreadable_valueError _)
  · rintro ⟨n, hn⟩
    rw [hn]
    exact Py.raisesOnly_ok n

theorem certain_decoded_bind {α : Type} {image : Bytes} {f : List Char → Except Exc α} :
    Certain (decoded image >>= f) ↔ ∃ text, Py.decode image = some text ∧ Certain (f text.toList) := by
  rw [certain_bind, decoded]
  cases Py.decode image with
  | none =>
      refine iff_of_false ?_ (by simp)
      exact fun h => not_unreadable_declared (by decide) _ (h.1 _ rfl)
  | some text => exact ⟨fun h => ⟨text, rfl, h.2 _ rfl⟩, by simp [Certain]⟩

theorem certain_indexRecord (keyLength : ℕ) (line : List Char) :
    Certain (indexRecord keyLength line) := by
  rw [indexRecord]
  split
  · split_ifs
    · exact Py.raisesOnly_ok _
    · exact Py.raisesOnly_error.2 (unreadable_unreadable _)
  · exact Py.raisesOnly_error.2 (unreadable_unreadable _)

def linesOf (text : String) : List (List Char) := text.toList.splitOn '\n'

/-- **The reader of an index** fails closed when the image is UTF-8 and the number in its header can
be converted. -/
theorem emulatedIndexRecords_certain_iff (image : Bytes) :
    Certain (emulatedIndexRecords image) ↔ ∃ text, Py.decode image = some text ∧
      ∀ digits, indexHeader ((linesOf text).headD []) = some digits → Convertible digits := by
  rw [emulatedIndexRecords, certain_decoded_bind]
  refine exists_congr fun text => and_congr_right fun _ => ?_
  dsimp only
  rw [← linesOf]
  cases indexHeader ((linesOf text).headD []) with
  | none => exact iff_of_true (Py.raisesOnly_error.2 (unreadable_unreadable _)) (by simp)
  | some digits =>
      rw [certain_bind]
      constructor
      · rintro h _ ⟨⟩
        exact certain_intOfText.1 h.1
      · intro h
        refine ⟨certain_intOfText.2 (h digits rfl), fun keyLength _ => ?_⟩
        refine certain_certify_bind.2 fun _ => Py.raisesOnly_mapM.2 fun _ line _ _ _ => ?_
        exact certain_indexRecord keyLength line

/-- The numbers of the lines can be converted, as far as the lines are read behind a record
number. -/
def LinesConvertible : Option ℕ → List (List Char) → Prop
  | _, [] => True
  | last, line :: lines =>
      ∀ rrn record, partitionLine line = some (rrn, record) → Py.isdigit rrn = true →
        Convertible rrn ∧ ∀ number, Py.intOfText rrn = .ok number → 1 ≤ number →
          (∀ l ∈ last, l < number) → LinesConvertible (some number) lines

/-- **The lines of a slot file** are read without another exception as far as their numbers can be
converted. -/
theorem certain_relativeLines {records : List (ℕ × Bytes)} {lines : List (List Char)} :
    Certain (lines.foldlM relativeRecord records) ↔
      LinesConvertible (records.getLast?.map Prod.fst) lines := by
  induction lines generalizing records with
  | nil => exact iff_of_true (Py.raisesOnly_ok records) trivial
  | cons line lines ih =>
      rw [List.foldlM_cons, LinesConvertible, relativeRecord]
      cases hline : partitionLine line with
      | none =>
          refine iff_of_true ?_ (by simp)
          exact Py.raisesOnly_error.2 (unreadable_unreadable _)
      | some parts =>
          obtain ⟨rrn, record⟩ := parts
          simp only [bind_assoc]
          rw [certain_certify_bind]
          have hsplit : (∀ rrn' record', some (rrn, record) = some (rrn', record') →
              Py.isdigit rrn' = true → Convertible rrn' ∧ ∀ number, Py.intOfText rrn' = .ok number →
                1 ≤ number → (∀ l ∈ records.getLast?.map Prod.fst, l < number) →
                  LinesConvertible (some number) lines) ↔ (Py.isdigit rrn = true →
              Convertible rrn ∧ ∀ number, Py.intOfText rrn = .ok number →
                1 ≤ number → (∀ l ∈ records.getLast?.map Prod.fst, l < number) →
                  LinesConvertible (some number) lines) := by
            constructor
            · exact fun h => h rrn record rfl
            · rintro h _ _ ⟨⟩
              exact h
          rw [hsplit, certain_bind]
          refine imp_congr_right fun _ => and_congr certain_intOfText ?_
          refine forall_congr' fun number => imp_congr_right fun _ => ?_
          rw [certain_certify_bind, decide_eq_true_iff]
          refine imp_congr_right fun _ => ?_
          rw [certain_certify_bind]
          rw [pure_bind, ih, List.getLast?_concat]
          refine imp_congr ?_ Iff.rfl
          cases records.getLast? <;> simp

/-- **The reader of a slot file of the runtime** fails closed when the image is UTF-8 and the
numbers that are come to can be converted. -/
theorem emulatedRelativeRecords_certain_iff (image : Bytes) :
    Certain (emulatedRelativeRecords image) ↔ ∃ text, Py.decode image = some text ∧
      ((linesOf text).headD [] = ['R'] → (linesOf text).getLastD [] = [] →
        LinesConvertible none (linesOf text).tail.dropLast) := by
  rw [emulatedRelativeRecords, certain_decoded_bind]
  refine exists_congr fun text => and_congr_right fun _ => ?_
  show Certain (certify _ _ >>= fun _ => (linesOf text).tail.dropLast.foldlM relativeRecord []) ↔ _
  rw [certain_certify_bind, certain_relativeLines, decide_eq_true_iff, and_imp]
  rfl

/-! ### Pages -/

/-- The page size divides the image, and the header fits a page. -/
structure Paged (image : Bytes) (pageSize : ℕ) : Prop where
  large : 512 ≤ pageSize
  whole : image.length % pageSize = 0

/-- The number of entries that a page states. -/
def entriesOf (data : Bytes) : ℕ := Py.littleEndian ((data.drop 20).take 2)

/-- An internal page or a leaf states more entries than it has room for. -/
def Overruns (image : Bytes) (pageSize number : ℕ) : Prop :=
  ∃ data, page image pageSize number = .ok data ∧
    (byteAt data 25 = .ok 3 ∨ byteAt data 25 = .ok 5) ∧ pageSize < headerSize + 2 * entriesOf data

section Pages

variable {image data : Bytes} {pageSize : ℕ}

theorem page_eq_ok {number : ℕ}
    (h : page image pageSize number = .ok data) :
    0 < number ∧ number < image.length / pageSize ∧ data.length = pageSize := by
  rw [page] at h
  obtain ⟨hinside, h⟩ := certify_bind_ok h
  obtain ⟨named, -, h⟩ := Py.bind_ok h
  obtain ⟨-, h⟩ := certify_bind_ok h
  rw [decide_eq_true_iff] at hinside
  obtain rfl := Except.ok.inj h
  have hend : (number + 1) * pageSize ≤ image.length :=
    (Nat.mul_le_mul_right _ hinside.2).trans (Nat.div_mul_le_self ..)
  rw [Nat.add_one_mul] at hend
  refine ⟨hinside.1, hinside.2, ?_⟩
  rw [List.length_take, List.length_drop]
  omega

theorem certain_page (hpaged : Paged image pageSize) (number : ℕ) :
    Certain (page image pageSize number) := by
  rw [page, certain_certify_bind]
  intro hinside
  rw [decide_eq_true_iff] at hinside
  have hend : (number + 1) * pageSize ≤ image.length :=
    (Nat.mul_le_mul_right _ hinside.2).trans (Nat.div_mul_le_self ..)
  rw [Nat.add_one_mul] at hend
  have hlength : 12 ≤ ((image.drop (number * pageSize)).take pageSize).length := by
    have := hpaged.large
    rw [List.length_take, List.length_drop]
    omega
  have hread : unpack 4 ((image.drop (number * pageSize)).take pageSize) 8 = .ok _ :=
    Py.unpack_of_le hlength
  simp only [hread, Py.ok_bind]
  exact certain_certify_bind.2 fun _ => Py.raisesOnly_ok _

/-- The items of a page can be read when the page has room for its entries. -/
theorem certain_items (hpaged : Paged image pageSize) (hdata : data.length = pageSize) :
    Certain (items pageSize data) ↔ headerSize + 2 * entriesOf data ≤ pageSize := by
  have hlarge := hpaged.large
  have hentries : unpack 2 data 20 = .ok (entriesOf data) := Py.unpack_of_le (by omega)
  rw [items, hentries, Py.ok_bind, certain_bind]
  constructor
  · rintro ⟨hread, -⟩
    by_contra hover
    -- the first entry that does not lie in the page is come to
    have hlast : (pageSize - headerSize) / 2 < (List.range (entriesOf data)).length := by
      simp only [List.length_range, headerSize] at hover ⊢
      omega
    have hsplit := List.take_append_drop ((pageSize - headerSize) / 2)
      (List.range (entriesOf data))
    rw [List.drop_eq_getElem_cons hlast, List.getElem_range] at hsplit
    have hcome := Py.raisesOnly_mapM.1 hread _ _ _ hsplit.symm (fun z hz => ?_)
    · rw [unpack, if_neg (by simp only [headerSize]; omega)] at hcome
      exact not_unreadable_declared (by decide) _ (hcome _ rfl)
    · rw [List.take_range, List.mem_range] at hz
      rw [Py.unpack_of_le (by simp only [headerSize] at hz ⊢; omega)]
      exact ⟨_, rfl⟩
  · intro hroom
    refine ⟨Py.raisesOnly_mapM.2 fun pre i post hsplit _ => ?_, fun offsets _ =>
      certain_certify_bind.2 fun _ => Py.raisesOnly_ok offsets⟩
    have hi : i < entriesOf data := List.mem_range.1 (by rw [hsplit]; simp)
    rw [Py.unpack_of_le (by omega)]
    exact Py.raisesOnly_ok _

theorem items_lt {offsets : List ℕ} (h : items pageSize data = .ok offsets) : ∀ o ∈ offsets, o < pageSize - 3 := by
  rw [items] at h
  obtain ⟨entries, -, h⟩ := Py.bind_ok h
  obtain ⟨read, -, h⟩ := Py.bind_ok h
  obtain ⟨hall, h⟩ := certify_bind_ok h
  obtain rfl := Except.ok.inj h
  intro o ho
  exact (of_decide_eq_true (List.all_eq_true.1 hall o ho)).2

theorem certain_leafRecord (hpaged : Paged image pageSize) (hdata : data.length = pageSize)
    {keyAt dataAt : ℕ} (hkey : keyAt < pageSize - 3) (hat : dataAt < pageSize - 3) :
    Certain (leafRecord pageSize data keyAt dataAt) := by
  have hlarge := hpaged.large
  have hbyte : ∀ position, position < pageSize → ∃ b, byteAt data position = .ok b :=
    fun position h => Py.byteAt_of_lt (by omega)
  obtain ⟨keyType, hkeyType⟩ := hbyte (keyAt + 2) (by omega)
  obtain ⟨dataType, hdataType⟩ := hbyte (dataAt + 2) (by omega)
  have hlength : unpack 2 data dataAt = .ok _ := Py.unpack_of_le (by omega)
  rw [leafRecord, hkeyType, Py.ok_bind, hdataType, Py.ok_bind]
  split_ifs
  · exact Py.raisesOnly_ok _
  · rw [certain_certify_bind]
    intro _
    rw [hlength, Py.ok_bind, certain_certify_bind]
    exact fun _ => Py.raisesOnly_ok _

theorem mem_pairs {offsets : List ℕ} {p : ℕ × ℕ} (h : p ∈ pairs offsets) :
    p.1 ∈ offsets ∧ p.2 ∈ offsets := by
  induction offsets using pairs.induct with
  | case1 keyAt dataAt offsets ih =>
      rw [pairs, List.mem_cons] at h
      rcases h with rfl | h
      · simp
      · exact ⟨by simp [(ih h).1], by simp [(ih h).2]⟩
  | case2 offsets hshort =>
      rw [pairs.eq_2 offsets hshort] at h
      cases h

/-- **A page is read without another exception** when it does not overrun. -/
theorem certain_node (hpaged : Paged image pageSize) (number : ℕ) :
    Certain (node image pageSize number) ↔ ¬Overruns image pageSize number := by
  have hlarge := hpaged.large
  rw [node, certain_bind, and_iff_right (certain_page hpaged number)]
  have hoverruns : ¬Overruns image pageSize number ↔ ∀ data, page image pageSize number = .ok data →
      (byteAt data 25 = .ok 3 ∨ byteAt data 25 = .ok 5) →
        headerSize + 2 * entriesOf data ≤ pageSize := by
    simp only [Overruns, not_exists, not_and, not_lt]
  rw [hoverruns]
  refine forall_congr' fun data => imp_congr_right fun hpage => ?_
  obtain ⟨-, -, hdata⟩ := page_eq_ok hpage
  have hbyte : 25 < data.length := by omega
  obtain ⟨kind, hkind⟩ := Py.byteAt_of_lt hbyte
  rw [hkind, Py.ok_bind, ← certain_items hpaged hdata]
  by_cases hinternal : kind = 3
  · rw [if_pos hinternal, hinternal, certain_bind]
    exact ⟨fun h _ => h.1, fun h => ⟨h (.inl rfl), fun _ _ => Py.raisesOnly_ok _⟩⟩
  · rw [if_neg hinternal, certain_certify_bind, decide_eq_true_iff]
    have hleaf : (Except.ok kind = (.ok 3 : Except Exc ℕ) ∨ Except.ok kind = (.ok 5 : Except Exc ℕ)) ↔
        kind = 5 := by
      simp [hinternal]
    rw [hleaf]
    refine imp_congr_right fun _ => ?_
    rw [certain_bind]
    refine ⟨And.left, fun h => ⟨h, fun offsets hoffsets => ?_⟩⟩
    refine certain_certify_bind.2 fun _ => certain_bind.2 ⟨?_, fun _ _ => Py.raisesOnly_ok _⟩
    refine Py.raisesOnly_mapM.2 fun pre p post hsplit _ => ?_
    obtain ⟨hkey, hat⟩ := mem_pairs (p := p) (by rw [hsplit]; simp)
    exact certain_leafRecord hpaged hdata (items_lt hoffsets _ hkey) (items_lt hoffsets _ hat)

end Pages

/-! ### Walks -/

/-- The children of an internal page, none where the number runs past the page. -/
def children (data : Bytes) (offsets : List ℕ) : List (Option ℕ) :=
  offsets.map fun offset => (unpack 4 data (offset + 4)).toOption

section Walks

variable (image : Bytes) (pageSize : ℕ)

/-- Pages that are read one after the other, with everything below them, in at most `limit` nested
calls: the pages entered before and behind them. -/
inductive Walked : ℕ → List ℕ → List (Option ℕ) → List ℕ → Prop
  | done {limit : ℕ} {seen : List ℕ} : Walked limit seen [] seen
  | leaf {limit number : ℕ} {seen seen' : List ℕ} {rest : List (Option ℕ)} {records : List Bytes}
      (hnew : number ∉ seen) (hnode : node image pageSize number = .ok (.leaf records))
      (hrest : Walked (limit + 1) (number :: seen) rest seen') :
      Walked (limit + 1) seen (some number :: rest) seen'
  | internal {limit number : ℕ} {seen seen' seen'' : List ℕ} {rest : List (Option ℕ)} {data : Bytes}
      {offsets : List ℕ} (hnew : number ∉ seen)
      (hnode : node image pageSize number = .ok (.internal data offsets))
      (hbelow : Walked limit (number :: seen) (children data offsets) seen')
      (hrest : Walked (limit + 1) seen' rest seen'') :
      Walked (limit + 1) seen (some number :: rest) seen''

/-- Among pages that are to be read one after the other, a page is come to that overruns, lies too
deep, or whose number runs past the page above. -/
inductive Faulty : ℕ → List ℕ → List (Option ℕ) → Prop
  | cut {limit : ℕ} {seen : List ℕ} {rest : List (Option ℕ)} : Faulty limit seen (none :: rest)
  | deep {number : ℕ} {seen : List ℕ} {rest : List (Option ℕ)} : Faulty 0 seen (some number :: rest)
  | overruns {limit number : ℕ} {seen : List ℕ} {rest : List (Option ℕ)} (hnew : number ∉ seen)
      (hover : Overruns image pageSize number) : Faulty (limit + 1) seen (some number :: rest)
  | down {limit number : ℕ} {seen : List ℕ} {rest : List (Option ℕ)} {data : Bytes}
      {offsets : List ℕ} (hnew : number ∉ seen)
      (hnode : node image pageSize number = .ok (.internal data offsets))
      (hbelow : Faulty limit (number :: seen) (children data offsets)) :
      Faulty (limit + 1) seen (some number :: rest)
  | behind {limit number : ℕ} {seen seen' : List ℕ} {rest : List (Option ℕ)}
      (hfirst : Walked image pageSize limit seen [some number] seen') (hrest : Faulty limit seen' rest) :
      Faulty limit seen (some number :: rest)

end Walks

/-- The loop over the children of an internal page. -/
def walkChildren (walk : ℕ → Walk → Except Exc Unit × Walk) :
    List (Option ℕ) → Walk → Except Exc Unit × Walk
  | [], state => (.ok (), state)
  | none :: _, state =>
      (.error (.declared "struct.error" "unpack_from requires a larger buffer"), state)
  | some child :: rest, state =>
      match walk child state with
      | (.error e, state') => (.error e, state')
      | (.ok (), state') => walkChildren walk rest state'

attribute [grind =] walkChildren

theorem walkItems_eq (walk : ℕ → Walk → Except Exc Unit × Walk) (data : Bytes) (offsets : List ℕ)
    (state : Walk) :
    walkItems walk data offsets state = walkChildren walk (children data offsets) state := by
  induction offsets generalizing state with
  | nil => rfl
  | cons offset offsets ih =>
      have hcons : children data (offset :: offsets) =
          (unpack 4 data (offset + 4)).toOption :: children data offsets := rfl
      rw [walkItems, hcons, unpack]
      split_ifs
      · simp only [Except.toOption, walkChildren]
        rcases walk (Py.littleEndian ((data.drop (offset + 4)).take 4)) state with ⟨_ | _, state'⟩
        · rfl
        · exact ih state'
      · rfl

section Walks

variable {image : Bytes} {pageSize : ℕ}

/-- A part that is walked is read. -/
theorem Walked.run {limit : ℕ} {seen seen' : List ℕ} {pages : List (Option ℕ)}
    (h : Walked image pageSize limit seen pages seen') {state : Walk} (hstate : state.seen = seen) :
    ∃ state', walkChildren (walkFrom image pageSize limit) pages state = (.ok (), state') ∧
      state'.seen = seen' := by
  induction h generalizing state with
  | done => exact ⟨state, rfl, hstate⟩
  | @leaf limit number seen seen' rest records hnew hnode hrest ih =>
      subst hstate
      rw [walkChildren, walkFrom, if_neg hnew, hnode]
      exact ih rfl
  | @internal limit number seen seen' seen'' rest data offsets hnew hnode hbelow hrest ihb ihr =>
      subst hstate
      have hentered : ({ state with seen := number :: state.seen } : Walk).seen =
          number :: state.seen := rfl
      obtain ⟨below, hrun, hseen⟩ := ihb hentered
      rw [walkChildren, walkFrom, if_neg hnew, hnode]
      simp only [walkItems_eq, hrun]
      exact ihr hseen

/-- **A faulty part raises another exception.** -/
theorem Faulty.run (hpaged : Paged image pageSize) {limit : ℕ} {seen : List ℕ}
    {pages : List (Option ℕ)} (h : Faulty image pageSize limit seen pages) {state : Walk}
    (hstate : state.seen = seen) :
    ∃ e, (walkChildren (walkFrom image pageSize limit) pages state).1 = .error e ∧
      ¬Unreadable e := by
  induction h generalizing state with
  | cut => exact ⟨_, rfl, not_unreadable_declared (by decide) _⟩
  | deep => exact ⟨_, rfl, not_unreadable_declared (by decide) _⟩
  | @overruns limit number seen rest hnew hover =>
      subst hstate
      have hnode : ∃ e, node image pageSize number = .error e ∧ ¬Unreadable e := by
        have hnot := mt (certain_node hpaged number).1 (not_not_intro hover)
        simpa [Certain, RaisesOnly] using hnot
      obtain ⟨e, he, hother⟩ := hnode
      refine ⟨e, ?_, hother⟩
      rw [walkChildren, walkFrom, if_neg hnew, he]
  | @down limit number seen rest data offsets hnew hnode hbelow ih =>
      subst hstate
      have hentered : ({ state with seen := number :: state.seen } : Walk).seen =
          number :: state.seen := rfl
      obtain ⟨e, he, hother⟩ := ih hentered
      refine ⟨e, ?_, hother⟩
      rw [walkChildren, walkFrom, if_neg hnew, hnode]
      simp only [walkItems_eq]
      rcases hrun : walkChildren (walkFrom image pageSize limit) (children data offsets)
        { state with seen := number :: state.seen } with ⟨_ | _, state'⟩
      · rw [hrun] at he
        exact he
      · rw [hrun] at he
        cases he
  | @behind limit number seen seen' rest hfirst hrest ih =>
      obtain ⟨first, hrun, hseen⟩ := hfirst.run hstate
      obtain ⟨e, he, hother⟩ := ih hseen
      refine ⟨e, ?_, hother⟩
      have hstep : walkFrom image pageSize limit number state = (.ok (), first) := by
        rw [walkChildren] at hrun
        rcases hwalk : walkFrom image pageSize limit number state with ⟨_ | _, state'⟩
        · rw [hwalk] at hrun
          cases hrun
        · rw [hwalk] at hrun
          exact hrun
      rw [walkChildren, hstep]
      exact he

/-- **What is read was walked, and another exception comes from a faulty part.** -/
theorem walkChildren_cases (hpaged : Paged image pageSize) (limit : ℕ) (pages : List (Option ℕ))
    (state : Walk) :
    (∀ state', walkChildren (walkFrom image pageSize limit) pages state = (.ok (), state') →
      Walked image pageSize limit state.seen pages state'.seen) ∧
    (∀ e, (walkChildren (walkFrom image pageSize limit) pages state).1 = .error e →
      ¬Unreadable e → Faulty image pageSize limit state.seen pages) := by
  induction limit generalizing pages state with
  | zero =>
      cases pages with
      | nil =>
          refine ⟨?_, ?_⟩
          · rintro _ ⟨⟩
            exact .done
          · rintro e ⟨⟩
      | cons p rest =>
          cases p with
          | none => exact ⟨fun _ h => (by cases h), fun _ _ _ => .cut⟩
          | some number => exact ⟨fun _ h => (by cases h), fun _ _ _ => .deep⟩
  | succ limit ih =>
      induction pages generalizing state with
      | nil =>
          refine ⟨?_, ?_⟩
          · rintro _ ⟨⟩
            exact .done
          · rintro e ⟨⟩
      | cons p rest ihr =>
          cases p with
          | none => exact ⟨fun _ h => (by cases h), fun _ _ _ => .cut⟩
          | some number =>
              rw [walkChildren, walkFrom]
              by_cases hnew : number ∈ state.seen
              · rw [if_pos hnew]
                refine ⟨fun _ h => (by cases h), ?_⟩
                rintro e ⟨⟩ hother
                exact absurd (unreadable_unreadable _) hother
              · rw [if_neg hnew]
                cases hnode : node image pageSize number with
                | error e =>
                    refine ⟨fun _ h => (by cases h), ?_⟩
                    rintro _ ⟨⟩ hother
                    refine .overruns hnew (not_not.1 fun hover => hother ?_)
                    exact (certain_node hpaged number).2 hover e hnode
                | ok found =>
                    cases found with
                    | leaf records =>
                        obtain ⟨hread, hraised⟩ := ihr
                          ⟨number :: state.seen, state.records ++ records⟩
                        refine ⟨fun state' h => .leaf hnew hnode (hread state' h), ?_⟩
                        intro e he hother
                        have hleaf : Walked image pageSize (limit + 1) state.seen [some number]
                            (number :: state.seen) := .leaf hnew hnode .done
                        exact .behind hleaf (hraised e he hother)
                    | internal data offsets =>
                        obtain ⟨hread, hraised⟩ := ih (children data offsets)
                          { state with seen := number :: state.seen }
                        simp only [walkItems_eq]
                        rcases hrun : walkChildren (walkFrom image pageSize limit)
                          (children data offsets) { state with seen := number :: state.seen }
                          with ⟨e | _, entered⟩
                        · refine ⟨fun _ h => (by cases h), ?_⟩
                          rintro _ ⟨⟩ hother
                          exact .down hnew hnode (hraised e (by rw [hrun]) hother)
                        · have hdown := hread entered hrun
                          obtain ⟨hread', hraised'⟩ := ihr entered
                          refine ⟨fun state' h => .internal hnew hnode hdown (hread' state' h), ?_⟩
                          intro e he hother
                          have hfirst : Walked image pageSize (limit + 1) state.seen [some number]
                              entered.seen := .internal hnew hnode hdown .done
                          exact .behind hfirst (hraised' e he hother)

/-- **A walk fails closed** when no part of it is faulty. -/
theorem certain_walkChildren (hpaged : Paged image pageSize) (limit : ℕ) (pages : List (Option ℕ))
    (state : Walk) :
    Certain (walkChildren (walkFrom image pageSize limit) pages state).1 ↔
      ¬Faulty image pageSize limit state.seen pages := by
  constructor
  · intro h hfaulty
    obtain ⟨e, he, hother⟩ := hfaulty.run hpaged rfl
    exact hother (h e he)
  · intro h e he
    by_contra hother
    exact h ((walkChildren_cases hpaged limit pages state).2 e he hother)

/-! ### Pages that are entered -/

/-- Pages of the file, each of them once. -/
structure Entered (image : Bytes) (pageSize : ℕ) (seen : List ℕ) : Prop where
  nodup : seen.Nodup
  inside : ∀ number ∈ seen, 0 < number ∧ number < image.length / pageSize

theorem Entered.length_lt {seen : List ℕ} (h : Entered image pageSize seen)
    (hpages : 0 < image.length / pageSize) : seen.length < image.length / pageSize := by
  have hsub : (0 :: seen).Subperm (List.range (image.length / pageSize)) := by
    refine List.subperm_of_subset (List.nodup_cons.2 ⟨fun h0 => ?_, h.nodup⟩) fun n hn => ?_
    · exact absurd (h.inside 0 h0).1 (lt_irrefl 0)
    · rcases List.mem_cons.1 hn with rfl | hn
      · exact List.mem_range.2 hpages
      · exact List.mem_range.2 (h.inside n hn).2
  simpa [Nat.succ_le_iff] using hsub.length_le

theorem node_inside {number : ℕ} {found : Node} (h : node image pageSize number = .ok found) :
    0 < number ∧ number < image.length / pageSize := by
  rw [node] at h
  obtain ⟨data, hpage, -⟩ := Py.bind_ok h
  obtain ⟨hpos, hlt, -⟩ := page_eq_ok hpage
  exact ⟨hpos, hlt⟩

/-- What a walk leaves behind: no page was entered twice, all of them but a last one that is refused
stand in the file, and the calls were nested no deeper than there are pages. -/
structure Leaves (image : Bytes) (pageSize limit : ℕ) (state : Walk)
    (result : Except Exc Unit × Walk) : Prop where
  nodup : result.2.seen.Nodup
  entered : result.1 = .ok () → Entered image pageSize result.2.seen
  grows : state.seen.length ≤ result.2.seen.length
  bounded : 0 < image.length / pageSize → result.2.seen.length ≤ image.length / pageSize
  shallow : 0 < image.length / pageSize → image.length / pageSize ≤ limit + state.seen.length →
    result.1 ≠ .error recursionError

/-- The loop over children keeps what each walk leaves behind. -/
theorem leaves_walkChildren {limit : ℕ} {walk : ℕ → Walk → Except Exc Unit × Walk}
    (hwalk : ∀ number state, Entered image pageSize state.seen →
      Leaves image pageSize limit state (walk number state))
    (pages : List (Option ℕ)) {state : Walk} (hstate : Entered image pageSize state.seen) :
    Leaves image pageSize limit state (walkChildren walk pages state) := by
  induction pages generalizing state with
  | nil =>
      exact ⟨hstate.nodup, fun _ => hstate, le_rfl, fun h => (hstate.length_lt h).le,
        fun _ _ => by simp [walkChildren]⟩
  | cons p rest ih =>
      cases p with
      | none =>
          refine ⟨hstate.nodup, fun h => (by cases h), le_rfl, fun h => (hstate.length_lt h).le,
            fun _ _ h => ?_⟩
          exact absurd (Exc.declared.inj (Except.error.inj h)).1 (by decide)
      | some number =>
          have hfirst := hwalk number state hstate
          rw [walkChildren]
          rcases hrun : walk number state with ⟨e | _, state'⟩
          · rw [hrun] at hfirst
            exact ⟨hfirst.nodup, fun h => (by cases h), hfirst.grows, hfirst.bounded, hfirst.shallow⟩
          · rw [hrun] at hfirst
            have hrest := ih (hfirst.entered rfl)
            have hgrows : state.seen.length ≤ state'.seen.length := hfirst.grows
            refine ⟨hrest.nodup, hrest.entered, hgrows.trans hrest.grows, hrest.bounded, ?_⟩
            exact fun hpos hlimit => hrest.shallow hpos (hlimit.trans (Nat.add_le_add_left hgrows limit))

/-- Reading a page raises no `RecursionError`. -/
def Shallow {α : Type} (x : Except Exc α) : Prop := RaisesOnly (· ≠ recursionError) x

theorem shallow_certify (condition : Bool) (message : String) :
    Shallow (certify condition message) := by
  rw [certify]
  split_ifs
  · exact Py.raisesOnly_ok ()
  · exact Py.raisesOnly_error.2 (by simp [unreadable, recursionError])

theorem shallow_unpack (width : ℕ) (data : Bytes) (position : ℕ) :
    Shallow (unpack width data position) := by
  rw [unpack]
  split_ifs
  · exact Py.raisesOnly_ok _
  · exact Py.raisesOnly_error.2 (by simp [recursionError])

theorem shallow_byteAt (data : Bytes) (position : ℕ) : Shallow (byteAt data position) := by
  rw [byteAt]
  split
  · exact Py.raisesOnly_ok _
  · exact Py.raisesOnly_error.2 (by simp [recursionError])

theorem shallow_bind {α β : Type} {x : Except Exc α} {f : α → Except Exc β} (hx : Shallow x)
    (hf : ∀ a, Shallow (f a)) : Shallow (x >>= f) := Py.raisesOnly_bind.2 ⟨hx, fun a _ => hf a⟩

theorem shallow_pure {α : Type} (a : α) : Shallow (pure a) := Py.raisesOnly_ok a

theorem shallow_mapM {α β : Type} {f : α → Except Exc β} (hf : ∀ a, Shallow (f a)) (xs : List α) :
    Shallow (xs.mapM f) := Py.raisesOnly_mapM.2 fun _ x _ _ _ => hf x

theorem shallow_items (data : Bytes) : Shallow (items pageSize data) := by
  rw [items]
  refine shallow_bind (shallow_unpack _ _ _) fun entries => ?_
  refine shallow_bind (shallow_mapM (fun _ => shallow_unpack _ _ _) _) fun offsets => ?_
  exact shallow_bind (shallow_certify _ _) fun _ => shallow_pure _

theorem shallow_leafRecord (data : Bytes) (keyAt dataAt : ℕ) :
    Shallow (leafRecord pageSize data keyAt dataAt) := by
  rw [leafRecord]
  refine shallow_bind (shallow_byteAt _ _) fun _ => shallow_bind (shallow_byteAt _ _) fun _ => ?_
  split_ifs
  · exact shallow_pure _
  · refine shallow_bind (shallow_certify _ _) fun _ => shallow_bind (shallow_unpack _ _ _) fun _ => ?_
    exact shallow_bind (shallow_certify _ _) fun _ => shallow_pure _

theorem shallow_node (number : ℕ) : Shallow (node image pageSize number) := by
  rw [node, page]
  refine shallow_bind (shallow_bind (shallow_certify _ _) fun _ => shallow_bind (shallow_unpack _ _ _)
    fun _ => shallow_bind (shallow_certify _ _) fun _ => shallow_pure _) fun data => ?_
  refine shallow_bind (shallow_byteAt _ _) fun kind => ?_
  split_ifs
  · exact shallow_bind (shallow_items _) fun _ => shallow_pure _
  · refine shallow_bind (shallow_certify _ _) fun _ => shallow_bind (shallow_items _) fun _ => ?_
    refine shallow_bind (shallow_certify _ _) fun _ => ?_
    exact shallow_bind (shallow_mapM (fun _ => shallow_leafRecord _ _ _) _) fun _ => shallow_pure _

/-- **No page is entered twice.** -/
theorem leaves_walkFrom (limit number : ℕ) {state : Walk}
    (hstate : Entered image pageSize state.seen) :
    Leaves image pageSize limit state (walkFrom image pageSize limit number state) := by
  induction limit generalizing number state with
  | zero =>
      refine ⟨hstate.nodup, fun h => (by cases h), le_rfl, fun h => (hstate.length_lt h).le, ?_⟩
      intro hpos hlimit
      have := hstate.length_lt hpos
      omega
  | succ limit ih =>
      rw [walkFrom]
      by_cases hnew : number ∈ state.seen
      · rw [if_pos hnew]
        refine ⟨hstate.nodup, fun h => (by cases h), le_rfl, fun h => (hstate.length_lt h).le,
          fun _ _ h => ?_⟩
        exact absurd (Exc.declared.inj (Except.error.inj h)).1 (by decide)
      · rw [if_neg hnew]
        have hnodup : (number :: state.seen).Nodup := List.nodup_cons.2 ⟨hnew, hstate.nodup⟩
        cases hnode : node image pageSize number with
        | error e =>
            refine ⟨hnodup, fun h => (by cases h), by simp, fun h => hstate.length_lt h, ?_⟩
            rintro - - ⟨⟩
            exact shallow_node number _ hnode rfl
        | ok found =>
            have hentered : Entered image pageSize
                ({ state with seen := number :: state.seen } : Walk).seen :=
              ⟨hnodup, List.forall_mem_cons.2 ⟨node_inside hnode, hstate.inside⟩⟩
            cases found with
            | leaf records =>
                exact ⟨hnodup, fun _ => hentered, by simp, fun h => hstate.length_lt h,
                  fun _ _ => by simp⟩
            | internal data offsets =>
                simp only [walkItems_eq]
                have hbelow := leaves_walkChildren (fun n s hs => ih n hs) (children data offsets)
                  hentered
                refine ⟨hbelow.nodup, hbelow.entered, (Nat.le_succ _).trans hbelow.grows,
                  hbelow.bounded, fun hpos hlimit => hbelow.shallow hpos ?_⟩
                simp only [List.length_cons]
                omega

end Walks

/-! ### B-trees -/

def rootOf (image : Bytes) : ℕ := Py.littleEndian ((image.drop 88).take 4)

theorem metadata_eq_ok {image : Bytes} {pageSize : ℕ} (h : metadata image = .ok pageSize) :
    512 ≤ image.length ∧ Paged image pageSize := by
  rw [metadata] at h
  obtain ⟨hlong, h⟩ := certify_bind_ok h
  obtain ⟨magic, -, h⟩ := Py.bind_ok h
  obtain ⟨-, h⟩ := certify_bind_ok h
  obtain ⟨version, -, h⟩ := Py.bind_ok h
  obtain ⟨-, h⟩ := certify_bind_ok h
  obtain ⟨size, -, h⟩ := Py.bind_ok h
  obtain ⟨hsize, h⟩ := certify_bind_ok h
  obtain ⟨encryption, -, h⟩ := Py.bind_ok h
  obtain ⟨-, h⟩ := certify_bind_ok h
  obtain ⟨kind, -, h⟩ := Py.bind_ok h
  obtain ⟨-, h⟩ := certify_bind_ok h
  obtain rfl := Except.ok.inj h
  have hsize := of_decide_eq_true hsize
  exact ⟨of_decide_eq_true hlong, hsize.1, hsize.2.2⟩

theorem certain_metadata (image : Bytes) : Certain (metadata image) := by
  rw [metadata, certain_certify_bind]
  intro hlong
  have hlong := of_decide_eq_true hlong
  have hread : ∀ position, position ≤ 20 → ∃ n, unpack 4 image position = .ok n :=
    fun position h => ⟨_, Py.unpack_of_le (by omega)⟩
  have hbyte : ∀ position, position ≤ 25 → ∃ n, byteAt image position = .ok n :=
    fun position h => Py.byteAt_of_lt (by omega)
  obtain ⟨magic, hmagic⟩ := hread 12 (by omega)
  obtain ⟨version, hversion⟩ := hread 16 (by omega)
  obtain ⟨size, hsize⟩ := hread 20 (by omega)
  obtain ⟨encryption, hencryption⟩ := hbyte 24 (by omega)
  obtain ⟨kind, hkind⟩ := hbyte 25 (by omega)
  rw [hmagic, Py.ok_bind, certain_certify_bind]
  intro _
  rw [hversion, Py.ok_bind, certain_certify_bind]
  intro _
  rw [hsize, Py.ok_bind, certain_certify_bind]
  intro _
  rw [hencryption, Py.ok_bind, certain_certify_bind]
  intro _
  rw [hkind, Py.ok_bind, certain_certify_bind]
  exact fun _ => Py.raisesOnly_ok _

theorem walkRoot_eq {image : Bytes} (hlong : 512 ≤ image.length) (limit pageSize : ℕ) :
    walkRoot limit image pageSize =
      walkChildren (walkFrom image pageSize limit) [some (rootOf image)] ⟨[], []⟩ := by
  rw [walkRoot, Py.unpack_of_le (by omega)]
  show walkFrom image pageSize limit (rootOf image) ⟨[], []⟩ = _
  rw [walkChildren]
  rcases walkFrom image pageSize limit (rootOf image) ⟨[], []⟩ with ⟨_ | _, state⟩ <;> rfl

/-- No page of the tree that is come to overruns or lies too deep, and no number of a page runs past
the page above. -/
def BtreeSound (limit : ℕ) (image : Bytes) : Prop :=
  ∀ pageSize, metadata image = .ok pageSize →
    ¬Faulty image pageSize limit [] [some (rootOf image)]

/-- **The reader of a B-tree** fails closed when no page of it is faulty. -/
theorem bdbBtreeRecords_certain_iff (limit : ℕ) (image : Bytes) :
    Certain (bdbBtreeRecords limit image) ↔ BtreeSound limit image := by
  rw [bdbBtreeRecords, certain_bind, and_iff_right (certain_metadata image), BtreeSound]
  refine forall_congr' fun pageSize => imp_congr_right fun hmetadata => ?_
  obtain ⟨hlong, hpaged⟩ := metadata_eq_ok hmetadata
  rw [← certain_walkChildren hpaged limit _ ⟨[], []⟩, walkRoot_eq hlong]
  rcases walkChildren (walkFrom image pageSize limit) [some (rootOf image)] ⟨[], []⟩
    with ⟨e | _, state⟩
  · exact Py.raisesOnly_error.trans Py.raisesOnly_error.symm
  · exact iff_of_true (Py.raisesOnly_ok _) (Py.raisesOnly_ok _)

/-- **No page is entered twice**, and the calls are nested no deeper than there are pages. -/
theorem walkRoot_entered {image : Bytes} {pageSize : ℕ} (hmetadata : metadata image = .ok pageSize)
    (limit : ℕ) :
    (walkRoot limit image pageSize).2.seen.Nodup ∧
      (walkRoot limit image pageSize).2.seen.length ≤ image.length / pageSize ∧
      (image.length / pageSize ≤ limit →
        (walkRoot limit image pageSize).1 ≠ .error recursionError) := by
  obtain ⟨hlong, hpaged⟩ := metadata_eq_ok hmetadata
  have hlarge := hpaged.large
  have hpages : 0 < image.length / pageSize := by
    have hle : pageSize ≤ image.length :=
      Nat.le_of_dvd (by omega) (Nat.dvd_of_mod_eq_zero hpaged.whole)
    exact Nat.div_pos hle (by omega)
  have hnone : Entered image pageSize (⟨[], []⟩ : Walk).seen := ⟨List.nodup_nil, by simp⟩
  have hleaves := leaves_walkChildren (fun number state hs => leaves_walkFrom limit number hs)
    [some (rootOf image)] hnone
  rw [← walkRoot_eq hlong] at hleaves
  exact ⟨hleaves.nodup, hleaves.bounded hpages, fun h => hleaves.shallow hpages h⟩

/-! ### Both sides -/

theorem exists_handled_iff {α : Type} {x : Except Exc α} :
    (∃ found, handled x = .ok found) ↔ Certain x := by
  cases x with
  | ok records => exact iff_of_true ⟨_, rfl⟩ (Py.raisesOnly_ok records)
  | error e =>
      rw [Certain, Py.raisesOnly_error, handled.eq_def]
      constructor
      · rintro ⟨found, h⟩
        split at h
        · rename_i heq
          cases heq
        · rename_i message heq
          exact ⟨message, Except.error.inj heq⟩
        · cases h
      · rintro ⟨message, rfl⟩
        exact ⟨none, rfl⟩

/-- **The comparison goes on** when each reader that is called fails closed. -/
theorem recordsOfBoth_ok_iff {α : Type} {readOracle readCandidate : Bytes → Except Exc α}
    {oracle candidate : Bytes} :
    (∃ found, recordsOfBoth readOracle readCandidate oracle candidate = .ok found) ↔
      Certain (readOracle oracle) ∧
        ((∃ records, readOracle oracle = .ok records) → Certain (readCandidate candidate)) := by
  rw [recordsOfBoth, exists_handled_iff, certain_bind]
  refine and_congr_right fun _ => ⟨?_, fun h records hrecords => ?_⟩
  · rintro h ⟨records, hrecords⟩
    exact (certain_bind.1 (h records hrecords)).1
  · exact certain_bind.2 ⟨h ⟨records, hrecords⟩, fun _ _ => Py.raisesOnly_ok _⟩

/-- The header of an index states a number that can be converted. -/
def IndexSound (image : Bytes) : Prop :=
  ∃ text, Py.decode image = some text ∧
    ∀ digits, indexHeader ((linesOf text).headD []) = some digits → Convertible digits

/-- The numbers of the records that are come to can be converted. -/
def RelativeSound (image : Bytes) : Prop :=
  ∃ text, Py.decode image = some text ∧
    ((linesOf text).headD [] = ['R'] → (linesOf text).getLastD [] = [] →
      LinesConvertible none (linesOf text).tail.dropLast)

/-- **When the readers fail closed.**  All four of them do on an image that is UTF-8 with convertible
numbers and has no faulty page; the comparison goes on under the conditions of the readers it calls;
and no page is entered twice. -/
theorem readers_failClosed_iff (limit : ℕ) (image : Bytes) :
    ((Certain (bdbBtreeRecords limit image) ∧ Certain (gnucobolRelativeRecords image) ∧
        Certain (emulatedIndexRecords image) ∧ Certain (emulatedRelativeRecords image)) ↔
      BtreeSound limit image ∧ IndexSound image ∧ RelativeSound image) ∧
    (∀ candidate,
      (∃ found, recordsOfBoth (bdbBtreeRecords limit) emulatedIndexRecords image candidate =
          .ok found) ↔
        BtreeSound limit image ∧
          ((∃ records, bdbBtreeRecords limit image = .ok records) → IndexSound candidate)) ∧
    (∀ candidate,
      (∃ found, recordsOfBoth gnucobolRelativeRecords emulatedRelativeRecords image candidate =
          .ok found) ↔
        ((∃ records, gnucobolRelativeRecords image = .ok records) → RelativeSound candidate)) ∧
    (∀ pageSize, metadata image = .ok pageSize →
      (walkRoot limit image pageSize).2.seen.Nodup ∧
        (walkRoot limit image pageSize).2.seen.length ≤ image.length / pageSize ∧
        (image.length / pageSize ≤ limit →
          (walkRoot limit image pageSize).1 ≠ .error recursionError)) := by
  have hslots := gnucobolRelativeRecords_certain
  refine ⟨?_, fun candidate => ?_, fun candidate => ?_, fun pageSize h => walkRoot_entered h limit⟩
  · rw [bdbBtreeRecords_certain_iff, emulatedIndexRecords_certain_iff,
      emulatedRelativeRecords_certain_iff, and_iff_right (hslots image)]
    rfl
  · rw [recordsOfBoth_ok_iff, bdbBtreeRecords_certain_iff, emulatedIndexRecords_certain_iff]
    rfl
  · rw [recordsOfBoth_ok_iff, and_iff_right (hslots image), emulatedRelativeRecords_certain_iff]
    rfl

/-- A page number and the rest of a page. -/
def faultyLeaf : Bytes :=
  [1, 0, 0, 0, 0, 0, 0, 0, 1, 0, 0, 0, 0, 0, 0, 0, 0, 0, 0, 0, 255, 255, 0, 0, 1, 5] ++
    List.replicate 486 0

/-- A metadata page of 512 bytes that names page 1 as the root, and a leaf that states 65535
entries. -/
def faultyTree : Bytes :=
  List.replicate 12 0 ++ [0x62, 0x31, 5, 0, 9, 0, 0, 0, 0, 2, 0, 0, 0, 9] ++ List.replicate 62 0 ++
    [1, 0, 0, 0] ++ List.replicate 420 0 ++ faultyLeaf

/-- A byte that is not UTF-8, and a leaf that states more entries than it has room for. -/
theorem readers_not_failClosed :
    ¬Certain (emulatedIndexRecords [255]) ∧ ¬Certain (emulatedRelativeRecords [255]) ∧
      ¬Certain (bdbBtreeRecords 1000 faultyTree) := by
  have hdecode : Py.decode [255] = none := by decide +kernel
  refine ⟨fun h => ?_, fun h => ?_, fun h => ?_⟩
  · obtain ⟨text, htext, -⟩ := (emulatedIndexRecords_certain_iff _).1 h
    rw [hdecode] at htext
    cases htext
  · obtain ⟨text, htext, -⟩ := (emulatedRelativeRecords_certain_iff _).1 h
    rw [hdecode] at htext
    cases htext
  · have hread : bdbBtreeRecords 1000 faultyTree =
        .error (.declared "struct.error" "unpack_from requires a larger buffer") := by
      decide +kernel
    exact not_unreadable_declared (by decide) _ (h _ hread)

end CobolJava.Images
