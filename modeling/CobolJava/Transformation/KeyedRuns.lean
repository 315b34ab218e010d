/-
**Runs of keyed files.**

A generated program uses a path with one organization: with one key length for an INDEXED file, with
record numbers for a RELATIVE file.  As long as the calls store keys and records that the side file
can hold, each number stored is positive, and no record of a RELATIVE file is written before the file
was opened for output, the side file holds the map after every call, and a refused call changes
nothing.  A record with a line feed in it is stored and cannot be read back.

Main definitions:

* `FileOrganization` — how a program uses a path;
* `Persists`, `SameContent` — the side file holds the map; nothing has changed;
* `CobolFileIo.Call.fits`, `CobolFileIo.Call.harmless`, `CobolFileIo.harmlessRun` — the calls of an
  organization, and those that store what the side file can hold;
* `IndexInv`, `RelativeInv` — the invariants.

Main results:

* `IndexInv.step`, `RelativeInv.step` — a harmless call keeps the invariant, and a refused one
  changes nothing;
* `keyedFile_persists` — **the side file holds the map after every harmless run**;
* `lineFeed_not_persisted` — a record with a line feed is lost.
-/

import CobolJava.Transformation.KeyedImages

set_option autoImplicit false

namespace CobolJava

open Java (Text CodeUnit)
open CobolFileIo

/-! ### The organization of a path -/

/-- A key length: a positive `int`. -/
structure KeyLength where
  /-- The number. -/
  val : ℕ
  /-- A key holds a character. -/
  pos : 0 < val
  /-- It is an `int`. -/
  isInt : val < 2 ^ 31

/-- How a program uses a path. -/
inductive FileOrganization
  | indexed (keyLen : KeyLength)
  | relative

namespace CobolFileIo

/-- A call that a program makes on a path of an organization. -/
def Call.fits : FileOrganization → Call → Prop
  | .indexed k, .openFile _ n => n = k.val
  | .indexed k, .write _ n => n = k.val
  | .indexed k, .rewrite _ n => n = k.val
  | .indexed k, .delete _ n => n = k.val
  | .indexed _, _ => True
  | .relative, .openFile _ n => n < 0
  | .relative, .delete _ _ => False
  | .relative, _ => True

/-- What a call stores in the state, the side file can hold; and a record of a relative file is not
written before there is a map for it. -/
def Call.harmless : FileOrganization → PathState → Call → Prop
  | .indexed k, s, .write record _ => ∀ key ∈ keyOf record k.val,
      (heldIndex s).contains key = false →
        plainKey key = true ∧ plainData (dataOf record k.val) = true
  | .indexed k, s, .rewrite record _ => ∀ key ∈ keyOf record k.val,
      (heldIndex s).contains key = true → plainData (dataOf record k.val) = true
  | .relative, s, .write record rrn =>
      match s.relative with
      | some m => m.contains rrn = false → 1 ≤ rrn ∧ plainRecord record = true
      | none => rrn ≤ 0
  | .relative, s, .rewrite record rrn =>
      match s.relative with
      | some m => m.contains rrn = true → plainRecord record = true
      | none => False
  | _, _, _ => True

/-- Calls of an organization, each harmless in the state it is made in. -/
def harmlessRun (org : FileOrganization) : PathState → List Call → Prop
  | _, [] => True
  | s, call :: calls =>
      call.fits org ∧ call.harmless org s ∧ harmlessRun org (step s call).1 calls

end CobolFileIo

/-! ### What a side file persists -/

/-- The side file of a path holds what the map holds: it is absent and the map of the INDEXED file is
empty, or the verification reads the records of the map from it, in key order, and the runtime loads
the map from it. -/
def Persists : FileOrganization → PathState → Prop
  | .indexed k, s =>
      match s.idxFile with
      | none => heldIndex s = .empty
      | some image =>
          emulatedIndexRecords image =
              some ((heldIndex s).entries.map fun e => recordBytes (e.1 ++ e.2)) ∧
            (ensureIndex { s with index := none } k.val).index = some (heldIndex s)
  | .relative, s =>
      s.index = none ∧ ∀ m, s.relative = some m → ∃ image, s.relFile = some image ∧
        emulatedRelativeRecords image =
          some (m.entries.map fun e => (e.1.toNat, recordBytes e.2))

/-- Neither the maps nor the side files differ. -/
structure SameContent (s s' : PathState) : Prop where
  index : heldIndex s' = heldIndex s
  relative : s'.relative = s.relative
  idxFile : s'.idxFile = s.idxFile
  relFile : s'.relFile = s.relFile

theorem SameContent.refl (s : PathState) : SameContent s s := ⟨rfl, rfl, rfl, rfl⟩

/-- What a call may do: it keeps a property of the state, and changes nothing unless it answers
`00`. -/
def Outcome (P : PathState → Prop) (s : PathState) (r : PathState × FileStatus) : Prop :=
  P r.1 ∧ (r.2 = .ok ∨ SameContent s r.1)

theorem Outcome.answered {P : PathState → Prop} {s : PathState} (r : PathState × FileStatus)
    (h : Outcome P s r) :
    P (r.map id Answer.status).1 ∧ ∀ status, (r.map id Answer.status).2 = .status status →
      status = .ok ∨ SameContent s (r.map id Answer.status).1 := by
  obtain ⟨s', status'⟩ := r
  refine ⟨h.1, fun status hanswer => ?_⟩
  obtain rfl : status' = status := Answer.status.inj hanswer
  exact h.2

/-- The state of a path when a program starts: no map is in memory, and an index file is one that an
earlier program left. -/
structure StartsWith (org : FileOrganization) (s : PathState) : Prop where
  index : s.index = none
  keyLen : s.keyLen = none
  relative : s.relative = none
  left : ∀ k, org = .indexed k → ∀ image, s.idxFile = some image →
    ∃ m, PlainIndex k.val m ∧ image = indexImage k.val m

/-! ### Indexed files -/

/-- The map `m` of an indexed file and what the path holds of it. -/
structure IndexInv (k : KeyLength) (m : SortedMap Text Text) (s : PathState) : Prop where
  relative : s.relative = none
  plain : PlainIndex k.val m
  file : s.idxFile = none ∧ m = .empty ∨ s.idxFile = some (indexImage k.val m)
  loaded : s.index = none ∧ s.keyLen = none ∨ s.index = some m ∧ s.keyLen = some (k.val : ℤ)

section Indexed

variable {k : KeyLength} {m : SortedMap Text Text} {s : PathState}

theorem IndexInv.loadedMap_eq (h : IndexInv k m s) : loadedMap (fileLines s.idxFile) = m := by
  rcases h.file with ⟨hnone, rfl⟩ | himage
  · rw [hnone]
    rfl
  · rw [himage, loadedMap_indexImage k.pos h.plain]

theorem IndexInv.heldIndex_eq (h : IndexInv k m s) : heldIndex s = m := by
  rcases h.loaded with ⟨hindex, -⟩ | ⟨hindex, -⟩
  · rw [heldIndex, hindex, Option.getD_none, h.loadedMap_eq]
  · rw [heldIndex, hindex, Option.getD_some]

theorem IndexInv.ensureIndex_eq (h : IndexInv k m s) :
    ensureIndex s k.val = { s with index := some m, keyLen := some (k.val : ℤ) } := by
  rcases h.loaded with ⟨hindex, hkeyLen⟩ | ⟨hindex, hkeyLen⟩
  · have hlen : loadedKeyLen s.keyLen k.val (fileLines s.idxFile) = k.val := by
      rcases h.file with ⟨hnone, -⟩ | himage
      · rw [hnone, hkeyLen]
        rfl
      · rw [himage, loadedKeyLen_indexImage k.isInt h.plain]
    rw [ensureIndex, hindex]
    simp only
    rw [h.loadedMap_eq, hlen]
  · rw [ensureIndex, hindex]
    cases s
    simp_all

theorem IndexInv.ensureIndex (h : IndexInv k m s) :
    IndexInv k m (ensureIndex s k.val) ∧ SameContent s (ensureIndex s k.val) := by
  rw [h.ensureIndex_eq]
  exact ⟨⟨h.relative, h.plain, h.file, .inr ⟨rfl, rfl⟩⟩, ⟨h.heldIndex_eq.symm, rfl, rfl, rfl⟩⟩

theorem IndexInv.persistIndex {m' : SortedMap Text Text} (hrelative : s.relative = none)
    (hkeyLen : s.keyLen = some (k.val : ℤ)) (hplain : PlainIndex k.val m') :
    IndexInv k m' (persistIndex s m') :=
  ⟨hrelative, hplain, .inr (by rw [CobolFileIo.persistIndex, hkeyLen]; rfl), .inr ⟨rfl, hkeyLen⟩⟩

theorem IndexInv.moveCursor (h : IndexInv k m s) (cursor : Option Text) :
    IndexInv k m { s with cursor := cursor } ∧ SameContent s { s with cursor := cursor } :=
  ⟨⟨h.relative, h.plain, h.file, h.loaded⟩, ⟨rfl, rfl, rfl, rfl⟩⟩

/-- What a call may do to an indexed file. -/
abbrev IndexOutcome (k : KeyLength) : PathState → PathState × FileStatus → Prop :=
  Outcome fun s => ∃ m, IndexInv k m s

theorem IndexInv.refused (h : IndexInv k m s) (status : FileStatus) :
    IndexOutcome k s (s, status) :=
  ⟨⟨m, h⟩, .inr (SameContent.refl s)⟩

theorem IndexInv.refusedLoaded (h : IndexInv k m s) (status : FileStatus) :
    IndexOutcome k s (CobolFileIo.ensureIndex s k.val, status) :=
  ⟨⟨m, h.ensureIndex.1⟩, .inr h.ensureIndex.2⟩

theorem IndexInv.changed (h : IndexInv k m s) {m' : SortedMap Text Text}
    (hplain : PlainIndex k.val m') :
    IndexOutcome k s (CobolFileIo.persistIndex (CobolFileIo.ensureIndex s k.val) m', .ok) := by
  rw [h.ensureIndex_eq]
  exact ⟨⟨m', IndexInv.persistIndex h.relative rfl hplain⟩, .inl rfl⟩

theorem IndexInv.openFile (h : IndexInv k m s) (mode : OpenMode) :
    IndexOutcome k s (openFile s mode k.val) := by
  have hpos := k.pos
  rw [CobolFileIo.openFile, if_neg (by omega)]
  split_ifs
  · refine ⟨⟨.empty, h.relative, ?_, .inl ⟨rfl, rfl⟩, .inr ⟨rfl, rfl⟩⟩, .inl rfl⟩
    exact fun e he => absurd he (List.not_mem_nil)
  · exact h.refused _
  · exact h.refusedLoaded _

theorem IndexInv.close (h : IndexInv k m s) : IndexOutcome k s (close s) := by
  rw [CobolFileIo.close]
  split
  · rename_i m' hindex'
    rcases h.loaded with ⟨hindex, -⟩ | ⟨hindex, hkeyLen⟩
    · rw [hindex] at hindex'
      cases hindex'
    · obtain rfl : m = m' := Option.some.inj (hindex.symm.trans hindex')
      have hpersisted := IndexInv.persistIndex h.relative hkeyLen h.plain
      exact ⟨⟨m, (hpersisted.moveCursor none).1⟩, .inl rfl⟩
  · exact ⟨⟨m, (h.moveCursor none).1⟩, .inl rfl⟩

theorem length_pad (record : Text) (width : ℕ) : (pad record width).length = width := by
  simp only [pad, List.length_take, List.length_append, List.length_replicate]
  omega

theorem length_keyOf {record key : Text} {n : ℕ} (h : key ∈ keyOf record n) : key.length = n := by
  rw [keyOf, Option.mem_def] at h
  split_ifs at h with hlong hneg
  · rw [← Option.some.inj h, List.length_take]
    omega
  · rw [← Option.some.inj h, length_pad]
    omega

theorem IndexInv.write (h : IndexInv k m s) {record : Text}
    (hplain : Call.harmless (.indexed k) s (.write record k.val)) :
    IndexOutcome k s (write s record k.val) := by
  have hpos := k.pos
  rw [CobolFileIo.write, h.relative]
  simp only
  rw [if_pos (by omega)]
  cases hkey : keyOf record k.val with
  | none => exact h.refusedLoaded _
  | some key =>
      simp only
      split_ifs with hheld
      · exact h.refusedLoaded _
      · obtain ⟨hplainKey, hplainData⟩ := hplain key hkey (by simpa using hheld)
        rw [h.heldIndex_eq]
        exact h.changed (SortedMap.put_forall h.plain ⟨length_keyOf hkey, hplainKey, hplainData⟩)

theorem IndexInv.rewrite (h : IndexInv k m s) {record : Text}
    (hplain : Call.harmless (.indexed k) s (.rewrite record k.val)) :
    IndexOutcome k s (rewrite s record k.val) := by
  rw [CobolFileIo.rewrite, h.relative]
  simp only
  cases hkey : keyOf record k.val with
  | none => exact h.refusedLoaded _
  | some key =>
      simp only
      split_ifs with hheld
      · have hplainData := hplain key hkey hheld
        rw [h.heldIndex_eq] at hheld ⊢
        obtain ⟨a, ha⟩ := SortedMap.mem_of_contains hheld
        exact h.changed (SortedMap.put_forall h.plain
          ⟨length_keyOf hkey, (h.plain _ ha).2.1, hplainData⟩)
      · exact h.refusedLoaded _

theorem IndexInv.delete (h : IndexInv k m s) (key : Text) :
    IndexOutcome k s (delete s key k.val) := by
  rw [CobolFileIo.delete]
  split_ifs
  · rw [h.heldIndex_eq]
    exact h.changed (SortedMap.remove_forall h.plain)
  · exact h.refusedLoaded _

theorem IndexInv.start (h : IndexInv k m s) (op : StartRelation) (key : Text) :
    IndexOutcome k s (start s op key) := by
  rw [CobolFileIo.start]
  split
  · exact h.refused _
  · split_ifs
    · exact h.refused _
    · simp only
      split
      · exact h.refused _
      · exact ⟨⟨m, (h.moveCursor _).1⟩, .inl rfl⟩

theorem read_eq (s : PathState) : ∃ cursor, (read s).1 = { s with cursor := cursor } := by
  rw [CobolFileIo.read]
  split
  · exact ⟨s.cursor, rfl⟩
  · simp only
    split
    · exact ⟨s.cursor, rfl⟩
    · exact ⟨_, rfl⟩

theorem readKey_eq (s : PathState) (key : Text) :
    ∃ cursor, (readKey s key).1 = { s with cursor := cursor } := by
  rw [CobolFileIo.readKey]
  split
  · exact ⟨s.cursor, rfl⟩
  · split
    · exact ⟨s.cursor, rfl⟩
    · split_ifs
      · exact ⟨_, rfl⟩
      · exact ⟨s.cursor, rfl⟩

/-- A harmless call on an indexed file keeps the invariant, and a refused one changes nothing. -/
theorem IndexInv.step (h : IndexInv k m s) {call : Call} (hfits : call.fits (.indexed k))
    (hharmless : call.harmless (.indexed k) s) :
    (∃ m', IndexInv k m' (step s call).1) ∧
      ∀ status, (step s call).2 = .status status → status = .ok ∨ SameContent s (step s call).1 := by
  have hstatus := @Outcome.answered (fun s' => ∃ m', IndexInv k m' s') s
  cases call with
  | openFile mode n =>
      obtain rfl : n = k.val := hfits
      exact hstatus _ (h.openFile mode)
  | close => exact hstatus _ h.close
  | write record n =>
      obtain rfl : n = k.val := hfits
      exact hstatus _ (h.write hharmless)
  | rewrite record n =>
      obtain rfl : n = k.val := hfits
      exact hstatus _ (h.rewrite hharmless)
  | delete key n =>
      obtain rfl : n = k.val := hfits
      exact hstatus _ (h.delete key)
  | deleteRelative rrn =>
      have hrefused : deleteRelative s rrn = (s, .notFound) := by
        unfold CobolFileIo.deleteRelative
        rw [h.relative]
      refine hstatus (deleteRelative s rrn) ?_
      rw [hrefused]
      exact h.refused _
  | start op key => exact hstatus _ (h.start op key)
  | read =>
      obtain ⟨cursor, hread⟩ := read_eq s
      refine ⟨⟨m, ?_⟩, fun status hanswer => by cases hanswer⟩
      simp only [CobolFileIo.step, Prod.map_fst, id, hread]
      exact (h.moveCursor cursor).1
  | readKey key =>
      obtain ⟨cursor, hread⟩ := readKey_eq s key
      refine ⟨⟨m, ?_⟩, fun status hanswer => by cases hanswer⟩
      simp only [CobolFileIo.step, Prod.map_fst, id, hread]
      exact (h.moveCursor cursor).1
  | readRelative rrn => exact ⟨⟨m, h⟩, fun status hanswer => by cases hanswer⟩

theorem IndexInv.persists (h : IndexInv k m s) : Persists (.indexed k) s := by
  rw [Persists]
  have hheld := h.heldIndex_eq
  have hloaded := h.loadedMap_eq
  rcases h.file with ⟨hnone, hempty⟩ | himage
  · rw [hnone]
    simp only
    rw [hheld, hempty]
  · rw [himage] at hloaded ⊢
    refine ⟨by rw [hheld, emulatedIndexRecords_indexImage h.plain], ?_⟩
    simp only [CobolFileIo.ensureIndex]
    rw [hloaded, hheld]

end Indexed

/-! ### Relative files -/

/-- The map of a relative file is held by its side file. -/
structure RelativeInv (s : PathState) : Prop where
  index : s.index = none
  held : ∀ m, s.relative = some m → PlainRelative m ∧ s.relFile = some (relativeImage m)

section Relative

variable {s : PathState}

/-- What a call may do to a relative file. -/
abbrev RelativeOutcome : PathState → PathState × FileStatus → Prop := Outcome RelativeInv

theorem RelativeInv.refused (h : RelativeInv s) (status : FileStatus) :
    RelativeOutcome s (s, status) :=
  ⟨h, .inr (SameContent.refl s)⟩

theorem RelativeInv.persisted (h : RelativeInv s) {m : SortedMap ℤ Text} (hm : PlainRelative m) :
    RelativeOutcome s (persistRelative s m, .ok) := by
  refine ⟨⟨h.index, fun m' hm' => ?_⟩, .inl rfl⟩
  obtain rfl : m = m' := Option.some.inj hm'
  exact ⟨hm, rfl⟩

theorem RelativeInv.moveCursor (h : RelativeInv s) (cursor : Option Text) :
    RelativeInv { s with cursor := cursor } :=
  ⟨h.index, h.held⟩

theorem RelativeInv.openFile (h : RelativeInv s) (mode : OpenMode) {n : ℤ} (hn : n < 0) :
    RelativeOutcome s (openFile s mode n) := by
  rw [CobolFileIo.openFile, if_pos hn]
  split_ifs
  · exact h.persisted fun e he => absurd he (List.not_mem_nil)
  · exact h.refused _
  · exact h.refused _

theorem RelativeInv.write (h : RelativeInv s) {record : Text} {rrn : ℤ}
    (hplain : Call.harmless .relative s (.write record rrn)) :
    RelativeOutcome s (write s record rrn) := by
  rw [Call.harmless] at hplain
  rw [CobolFileIo.write, h.index]
  cases hrel : s.relative with
  | none =>
      rw [hrel] at hplain
      simp only at hplain ⊢
      rw [if_neg (by omega)]
      exact h.refused _
  | some m =>
      rw [hrel] at hplain
      simp only at hplain ⊢
      split_ifs with hheld
      · exact h.refused _
      · exact h.persisted (SortedMap.put_forall (h.held m hrel).1 (hplain (by simpa using hheld)))

theorem RelativeInv.rewrite (h : RelativeInv s) {record : Text} {rrn : ℤ}
    (hplain : Call.harmless .relative s (.rewrite record rrn)) :
    RelativeOutcome s (rewrite s record rrn) := by
  rw [Call.harmless] at hplain
  rw [CobolFileIo.rewrite, h.index]
  cases hrel : s.relative with
  | none =>
      rw [hrel] at hplain
      exact hplain.elim
  | some m =>
      rw [hrel] at hplain
      simp only at hplain ⊢
      split_ifs with hheld
      · obtain ⟨old, hold⟩ := SortedMap.mem_of_contains hheld
        have hm := (h.held m hrel).1
        exact h.persisted (SortedMap.put_forall hm ⟨(hm _ hold).1, hplain hheld⟩)
      · exact h.refused _

theorem RelativeInv.deleteRelative (h : RelativeInv s) (rrn : ℤ) :
    RelativeOutcome s (deleteRelative s rrn) := by
  unfold CobolFileIo.deleteRelative
  cases hrel : s.relative with
  | none => exact h.refused _
  | some m =>
      simp only
      split_ifs
      · exact h.persisted (SortedMap.remove_forall (h.held m hrel).1)
      · exact h.refused _

/-- A harmless call on a relative file keeps the invariant, and a refused one changes nothing. -/
theorem RelativeInv.step (h : RelativeInv s) {call : Call} (hfits : call.fits .relative)
    (hharmless : call.harmless .relative s) :
    RelativeInv (step s call).1 ∧
      ∀ status, (step s call).2 = .status status → status = .ok ∨ SameContent s (step s call).1 := by
  have hstatus := @Outcome.answered RelativeInv s
  cases call with
  | openFile mode n => exact hstatus _ (h.openFile mode hfits)
  | close =>
      have hclose : close s = ({ s with cursor := none }, .ok) := by
        rw [CobolFileIo.close]
        split
        · rename_i m hindex
          rw [h.index] at hindex
          cases hindex
        · rfl
      refine hstatus (close s) ?_
      rw [hclose]
      exact ⟨h.moveCursor none, .inl rfl⟩
  | write record n => exact hstatus _ (h.write hharmless)
  | rewrite record n => exact hstatus _ (h.rewrite hharmless)
  | delete key n => exact hfits.elim
  | deleteRelative rrn => exact hstatus _ (h.deleteRelative rrn)
  | start op key =>
      refine hstatus (start s op key) ?_
      rw [CobolFileIo.start, h.index]
      exact h.refused _
  | read =>
      obtain ⟨cursor, hread⟩ := read_eq s
      refine ⟨?_, fun status hanswer => by cases hanswer⟩
      simp only [CobolFileIo.step, Prod.map_fst, id, hread]
      exact h.moveCursor cursor
  | readKey key =>
      obtain ⟨cursor, hread⟩ := readKey_eq s key
      refine ⟨?_, fun status hanswer => by cases hanswer⟩
      simp only [CobolFileIo.step, Prod.map_fst, id, hread]
      exact h.moveCursor cursor
  | readRelative rrn => exact ⟨h, fun status hanswer => by cases hanswer⟩

theorem RelativeInv.persists (h : RelativeInv s) : Persists .relative s := by
  refine ⟨h.index, fun m hm => ?_⟩
  obtain ⟨hplain, hfile⟩ := h.held m hm
  exact ⟨_, hfile, emulatedRelativeRecords_relativeImage hplain⟩

end Relative

/-! ### Runs -/

/-- The invariant of an organization. -/
def KeyedInv : FileOrganization → PathState → Prop
  | .indexed k, s => ∃ m, IndexInv k m s
  | .relative, s => RelativeInv s

theorem KeyedInv.ofStart {org : FileOrganization} {s : PathState} (h : StartsWith org s) :
    KeyedInv org s := by
  cases org with
  | relative =>
      refine ⟨h.index, fun m hm => ?_⟩
      rw [h.relative] at hm
      cases hm
  | indexed k =>
      cases hfile : s.idxFile with
      | none =>
          refine ⟨.empty, h.relative, fun e he => ?_, .inl ⟨hfile, rfl⟩, .inl ⟨h.index, h.keyLen⟩⟩
          exact absurd he (List.not_mem_nil)
      | some image =>
          obtain ⟨m, hm, rfl⟩ := h.left k rfl image hfile
          exact ⟨m, h.relative, hm, .inr hfile, .inl ⟨h.index, h.keyLen⟩⟩

theorem KeyedInv.persists {org : FileOrganization} {s : PathState} (h : KeyedInv org s) :
    Persists org s := by
  cases org with
  | relative => exact RelativeInv.persists h
  | indexed k =>
      obtain ⟨m, hm⟩ := h
      exact hm.persists

theorem KeyedInv.step {org : FileOrganization} {s : PathState} (h : KeyedInv org s) {call : Call}
    (hfits : call.fits org) (hharmless : call.harmless org s) :
    KeyedInv org (step s call).1 ∧
      ∀ status, (step s call).2 = .status status → status = .ok ∨ SameContent s (step s call).1 := by
  cases org with
  | relative => exact RelativeInv.step h hfits hharmless
  | indexed k =>
      obtain ⟨m, hm⟩ := h
      exact hm.step hfits hharmless

theorem KeyedInv.run {org : FileOrganization} {s : PathState} (h : KeyedInv org s)
    {calls : List Call} (hcalls : harmlessRun org s calls) : KeyedInv org (run s calls) := by
  induction calls generalizing s with
  | nil => exact h
  | cons call calls ih =>
      obtain ⟨hfits, hharmless, hrest⟩ := hcalls
      exact ih (h.step hfits hharmless).1 hrest

/-- **In a run of harmless calls the side file holds the map after every call, and a call that
answers 22 or 23 changes neither.** -/
theorem keyedFile_persists (org : FileOrganization) (s : PathState) (hs : StartsWith org s)
    (calls : List Call) (hcalls : harmlessRun org s calls) :
    Persists org (run s calls) ∧
      ∀ call, call.fits org → call.harmless org (run s calls) →
        Persists org (step (run s calls) call).1 ∧
          ((step (run s calls) call).2 = .status .duplicateKey ∨
              (step (run s calls) call).2 = .status .notFound →
            SameContent (run s calls) (step (run s calls) call).1) := by
  have hinv := (KeyedInv.ofStart hs).run hcalls
  refine ⟨hinv.persists, fun call hfits hharmless => ?_⟩
  obtain ⟨hnext, hkept⟩ := hinv.step hfits hharmless
  refine ⟨hnext.persists, fun hrefused => ?_⟩
  rcases hrefused with hanswer | hanswer
  · exact (hkept _ hanswer).resolve_left (by decide)
  · exact (hkept _ hanswer).resolve_left (by decide)

/-- A path without maps and side files. -/
def PathState.absent : PathState := ⟨none, none, none, none, none, none⟩

def KeyLength.one : KeyLength := ⟨1, by decide, by decide⟩

/-- A record is written, and a second record of its key is refused. -/
theorem keyedFile_persists_twice :
    Persists (.indexed .one)
        (run .absent [.openFile .output 1, .write (Java.ofChars ['A', 'x']) 1]) ∧
      (step (run .absent [.openFile .output 1, .write (Java.ofChars ['A', 'x']) 1])
        (.write (Java.ofChars ['A', 'y']) 1)).2 = .status .duplicateKey := by
  have hruns := keyedFile_persists (.indexed .one) .absent
    ⟨rfl, rfl, rfl, fun _ _ _ himage => by cases himage⟩
    [.openFile .output 1, .write (Java.ofChars ['A', 'x']) 1]
    (by
      refine ⟨rfl, trivial, rfl, ?_, trivial⟩
      intro key hkey _
      obtain rfl : Java.ofChars ['A'] = key := Option.some.inj hkey
      decide)
  exact ⟨hruns.1, by decide⟩

/-- The record `A`, line feed: its line ends after the key, and the verification cannot read the
rest. -/
theorem lineFeed_not_persisted :
    ¬ Persists (.indexed .one) (run .absent
      [.openFile .output 1, .write (Java.ofChars ['A', '\n']) 1]) := by
  rintro ⟨hread, -⟩
  revert hread
  decide

end CobolJava
