/-
**The slots of a RELATIVE file.**

GnuCOBOL writes a RELATIVE file as slots of one size, each of them a size field and a record area.
The image does not state the record length, and the reader takes the one length under which every
size field is 0 or that length.  In a file with a live slot the true length is such a length, so
that what is returned are its records; in a file whose slots are all deleted the bytes of an old
record may be read as size fields of shorter slots.

Main definitions:

* `Images.Slot`, `Images.imageOf`, `Images.liveSlots` — slots, their image and their records;
* `Images.Fits` — an image can be read as slots for records of a length;
* `Images.ExactOrRefused` — the reader returns the live slots, or refuses the image.

Main results:

* `Images.gnucobolRelativeRecords_cases` — what the reader returns;
* `Images.sizes_imageOf`, `Images.liveRecords_imageOf` — slots are read with their own length;
* `Images.exactOrRefused_iff` — **the reader is exact** but for deleted slots that fit one other
  length.
-/

import CobolJava.Comparators.ImageReaders

set_option autoImplicit false

namespace CobolJava.Images

open Py (Bytes Exc unpack littleEndian)

/-! ### Lengths that fit an image -/

/-- The size fields of an image of slots for records of a length. -/
def sizes (image : Bytes) (length : ℕ) : List ℕ :=
  (List.range (image.length / (8 + length))).map fun i =>
    littleEndian ((image.drop (i * (8 + length))).take 8)

/-- An image can be read as slots for records of a length, one of them live. -/
def Fits (image : Bytes) (length : ℕ) : Prop :=
  1 ≤ length ∧ image.length % (8 + length) = 0 ∧
    (∀ size ∈ sizes image length, size = 0 ∨ size = length) ∧ length ∈ sizes image length

instance (image : Bytes) (length : ℕ) : Decidable (Fits image length) :=
  inferInstanceAs (Decidable (_ ∧ _))

theorem Fits.mem_range' {image : Bytes} {length : ℕ} (h : Fits image length) :
    length ∈ List.range' 1 (image.length - 8) := by
  obtain ⟨hpos, hdvd, -, hmem⟩ := h
  obtain ⟨i, hi, -⟩ := List.mem_map.1 hmem
  have hcount : 0 < image.length / (8 + length) := by
    have := List.mem_range.1 hi
    omega
  have hlong : 8 + length ≤ image.length := (Nat.div_pos_iff.1 hcount).2
  exact List.mem_range'_1.2 ⟨hpos, by omega⟩

/-- A length that is tried. -/
theorem layout_eq (image : Bytes) {length : ℕ} (hpos : 1 ≤ length) :
    layout image length =
      .ok (if Fits image length then some (8 + length, sizes image length) else none) := by
  rw [layout]
  by_cases hdvd : image.length % (8 + length) = 0
  · have hread : (List.range (image.length / (8 + length))).mapM
        (fun i => unpack 8 image (i * (8 + length))) = .ok (sizes image length) := by
      refine Py.mapM_eq_ok ?_
      rw [sizes, List.forall₂_map_right_iff, List.forall₂_same]
      intro i hi
      have hlt : i < image.length / (8 + length) := List.mem_range.1 hi
      have hend : (i + 1) * (8 + length) ≤ image.length :=
        (Nat.mul_le_mul_right _ hlt).trans (Nat.div_mul_le_self ..)
      rw [Nat.add_mul] at hend
      exact Py.unpack_of_le (by omega)
    rw [if_neg (by simpa using hdvd), hread, Py.ok_bind]
    by_cases hfits : Fits image length
    · have hall : ((sizes image length).all (fun size => size = 0 ∨ size = length) &&
          (sizes image length).contains length) = true := by
        simpa using hfits.2.2
      rw [if_pos hfits, if_pos hall]
      rfl
    · have hnot : ¬((sizes image length).all (fun size => size = 0 ∨ size = length) &&
          (sizes image length).contains length) = true := by
        intro hall
        exact hfits ⟨hpos, hdvd, by simpa using hall⟩
      rw [if_neg hfits, if_neg hnot]
      rfl
  · have hno : ¬Fits image length := fun h => hdvd h.2.1
    rw [if_pos hdvd, if_neg hno]
    rfl

theorem layouts_eq (image : Bytes) :
    (List.range' 1 (image.length - 8)).mapM (layout image) =
      .ok ((List.range' 1 (image.length - 8)).map fun length =>
        if Fits image length then some (8 + length, sizes image length) else none) := by
  refine Py.mapM_eq_ok ?_
  rw [List.forall₂_map_right_iff, List.forall₂_same]
  exact fun length h => layout_eq image (List.mem_range'_1.1 h).1

/-- **What the reader returns**: the records under the one length that fits, or nothing. -/
theorem gnucobolRelativeRecords_cases {image : Bytes} (hne : image ≠ []) :
    (∃ length, (∀ l, Fits image l ↔ l = length) ∧ gnucobolRelativeRecords image =
      .ok (liveRecords image (8 + length) (sizes image length))) ∨
    ((¬∃ length, ∀ l, Fits image l ↔ l = length) ∧
      ∃ message, gnucobolRelativeRecords image = .error (unreadable message)) := by
  have hfilter : ((List.range' 1 (image.length - 8)).map fun length =>
      if Fits image length then some (8 + length, sizes image length) else none).filterMap id =
      ((List.range' 1 (image.length - 8)).filter fun l => Fits image l).map
        fun l => (8 + l, sizes image l) := by
    rw [List.filterMap_map, ← List.filterMap_eq_map, ← List.filterMap_eq_filter,
      List.filterMap_filterMap]
    refine List.filterMap_congr fun l _ => ?_
    by_cases h : Fits image l <;> simp [h, Option.guard]
  have hmem : ∀ l, Fits image l ↔ l ∈ (List.range' 1 (image.length - 8)).filter
      fun l => Fits image l := by
    intro l
    rw [List.mem_filter, decide_eq_true_iff]
    exact ⟨fun h => ⟨h.mem_range', h⟩, And.right⟩
  have hnodup : ((List.range' 1 (image.length - 8)).filter fun l => Fits image l).Nodup :=
    List.Nodup.filter _ List.nodup_range'
  obtain ⟨result, hresult⟩ : ∃ result, gnucobolRelativeRecords image = result := ⟨_, rfl⟩
  rw [hresult]
  rw [gnucobolRelativeRecords, if_neg hne, layouts_eq, Py.ok_bind, hfilter] at hresult
  generalize (List.range' 1 (image.length - 8)).filter (fun l => Fits image l) = lengths
    at hmem hnodup hresult
  rcases lengths with _ | ⟨l₁, _ | ⟨l₂, lengths⟩⟩
  · -- no length fits
    refine .inr ⟨?_, _, hresult.symm⟩
    rintro ⟨length, h⟩
    exact absurd ((hmem length).1 ((h length).2 rfl)) (List.not_mem_nil)
  · exact .inl ⟨l₁, fun l => by rw [hmem, List.mem_singleton], hresult.symm⟩
  · -- two lengths fit
    refine .inr ⟨?_, _, hresult.symm⟩
    rintro ⟨length, h⟩
    have h₁ := (h l₁).1 ((hmem l₁).2 (by simp))
    have h₂ := (h l₂).1 ((hmem l₂).2 (by simp))
    rw [h₁, h₂] at hnodup
    simp at hnodup

/-! ### Slots -/

/-- A slot for a record of a length. -/
structure Slot (length : ℕ) where
  /-- The size field. -/
  header : Bytes
  header_length : header.length = 8
  /-- The record area. -/
  record : Bytes
  record_length : record.length = length
  /-- The size is 0 or the record length. -/
  stated : littleEndian header = 0 ∨ littleEndian header = length

variable {length : ℕ}

def Slot.Live (s : Slot length) : Prop := littleEndian s.header = length

instance (s : Slot length) : Decidable s.Live := inferInstanceAs (Decidable (_ = _))

def imageOf (slots : List (Slot length)) : Bytes := slots.flatMap fun s => s.header ++ s.record

/-- The live slots of a file: their numbers and records. -/
def liveSlots (slots : List (Slot length)) : List (ℕ × Bytes) :=
  (slots.zipIdx.filter fun p => p.1.Live).map fun p => (p.2 + 1, p.1.record)

theorem length_imageOf (slots : List (Slot length)) :
    (imageOf slots).length = slots.length * (8 + length) := by
  induction slots with
  | nil => simp [imageOf]
  | cons s slots ih =>
      have hcons : imageOf (s :: slots) = (s.header ++ s.record) ++ imageOf slots := rfl
      rw [hcons, List.length_append, ih, List.length_append, s.header_length, s.record_length,
        List.length_cons, Nat.add_one_mul]
      omega

theorem drop_imageOf (slots : List (Slot length)) (i : ℕ) (h : i < slots.length) :
    (imageOf slots).drop (i * (8 + length)) =
      slots[i].header ++ (slots[i].record ++ imageOf (slots.drop (i + 1))) := by
  induction slots generalizing i with
  | nil => simp at h
  | cons s slots ih =>
      have hcons : imageOf (s :: slots) = s.header ++ (s.record ++ imageOf slots) := by
        simp [imageOf]
      cases i with
      | zero => simpa using hcons
      | succ i =>
          have hskip : (i + 1) * (8 + length) = s.header.length + (s.record.length +
              i * (8 + length)) := by
            rw [s.header_length, s.record_length, Nat.add_one_mul]
            omega
          rw [hcons, hskip, List.drop_length_add_append, List.drop_length_add_append,
            ih i (by simpa using h)]
          rfl

/-- **The size fields of a file** are those of its slots. -/
theorem sizes_imageOf (slots : List (Slot length)) :
    sizes (imageOf slots) length = slots.map fun s => littleEndian s.header := by
  have hcount : (imageOf slots).length / (8 + length) = slots.length := by
    rw [length_imageOf, Nat.mul_div_cancel _ (by omega)]
  rw [sizes, hcount]
  refine List.ext_getElem (by simp) fun i h _ => ?_
  have hi : i < slots.length := by simpa using h
  rw [List.getElem_map, List.getElem_map, List.getElem_range, drop_imageOf slots i hi,
    List.take_left' slots[i].header_length]

/-- **The live records of a file** are those of its live slots. -/
theorem liveRecords_imageOf (hpos : 1 ≤ length) (slots : List (Slot length)) :
    liveRecords (imageOf slots) (8 + length) (sizes (imageOf slots) length) = liveSlots slots := by
  rw [liveRecords, liveSlots, sizes_imageOf, List.zipIdx_map, List.filter_map, List.map_map]
  have hlive : ∀ p ∈ slots.zipIdx, ((fun p : ℕ × ℕ => decide (p.1 ≠ 0)) ∘
      Prod.map (fun s : Slot length => littleEndian s.header) id) p = decide p.1.Live := by
    intro p _
    have hstated := p.1.stated
    refine decide_eq_decide.2 ?_
    show littleEndian p.1.header ≠ 0 ↔ littleEndian p.1.header = length
    omega
  rw [List.filter_congr hlive]
  refine List.map_congr_left fun p hp => ?_
  obtain ⟨hmem, hlivep⟩ := List.mem_filter.1 hp
  obtain ⟨hi, hslot⟩ := List.mem_zipIdx' hmem
  have hrecord : ((imageOf slots).drop (p.2 * (8 + length) + 8)).take (littleEndian p.1.header) =
      p.1.record := by
    rw [of_decide_eq_true hlivep, ← List.drop_drop, drop_imageOf slots p.2 hi, ← hslot,
      List.drop_left' p.1.header_length, List.take_left' p.1.record_length]
  exact Prod.ext rfl hrecord

/-! ### Exactness -/

/-- The reader returns the live slots, or refuses the image. -/
def ExactOrRefused (slots : List (Slot length)) : Prop :=
  gnucobolRelativeRecords (imageOf slots) = .ok (liveSlots slots) ∨
    ∃ message, gnucobolRelativeRecords (imageOf slots) = .error (unreadable message)

theorem fits_imageOf (hpos : 1 ≤ length) {slots : List (Slot length)} (hlive : ∃ s ∈ slots, s.Live) :
    Fits (imageOf slots) length := by
  refine ⟨hpos, by rw [length_imageOf, Nat.mul_mod_left], ?_, ?_⟩
  · rw [sizes_imageOf, List.forall_mem_map]
    exact fun s _ => s.stated
  · rw [sizes_imageOf]
    exact List.mem_map.2 hlive

theorem liveRecords_ne_nil {image : Bytes} {l : ℕ} (h : Fits image l) :
    liveRecords image (8 + l) (sizes image l) ≠ [] := by
  obtain ⟨hpos, -, -, hmem⟩ := h
  obtain ⟨i, hi, hsize⟩ := List.mem_iff_getElem.1 hmem
  have hpair : (l, i) ∈ (sizes image l).zipIdx := by
    rw [List.mem_zipIdx_iff_getElem?, List.getElem?_eq_getElem hi, hsize]
  refine List.ne_nil_of_mem (List.mem_map_of_mem (List.mem_filter.2 ⟨hpair, ?_⟩))
  simp only [ne_eq, decide_eq_true_eq]
  omega

/-- **The reader returns the live slots or refuses the image**, except where all slots are deleted
and their bytes fit exactly one length. -/
theorem exactOrRefused_iff (hpos : 1 ≤ length) (slots : List (Slot length)) :
    ExactOrRefused slots ↔ slots = [] ∨ (∃ s ∈ slots, s.Live) ∨
      ¬∃ l, ∀ l', Fits (imageOf slots) l' ↔ l' = l := by
  rcases slots.eq_nil_or_concat with rfl | ⟨slots', s', hconcat⟩
  · exact ⟨fun _ => .inl rfl, fun _ => .inl rfl⟩
  have hne : slots ≠ [] := by rw [hconcat]; simp
  have himage : imageOf slots ≠ [] := by
    intro h
    have hlength := length_imageOf slots
    rw [h, List.length_nil, eq_comm, Nat.mul_eq_zero, List.length_eq_zero_iff] at hlength
    exact hlength.elim hne (by omega)
  rcases gnucobolRelativeRecords_cases himage with ⟨l, hl, hread⟩ | ⟨hno, message, hread⟩
  · constructor
    · rintro (hexact | ⟨message, hrefused⟩)
      · refine .inr (.inl ?_)
        rw [hread] at hexact
        have hsome := liveRecords_ne_nil ((hl l).2 rfl)
        rw [Except.ok.inj hexact] at hsome
        obtain ⟨r, hr⟩ := List.exists_mem_of_ne_nil _ hsome
        obtain ⟨p, hp, -⟩ := List.mem_map.1 hr
        obtain ⟨hmem, hlive⟩ := List.mem_filter.1 hp
        obtain ⟨hi, hslot⟩ := List.mem_zipIdx' hmem
        exact ⟨p.1, by rw [hslot]; exact List.getElem_mem hi, of_decide_eq_true hlive⟩
      · rw [hread] at hrefused
        cases hrefused
    · rintro (hnil | hlive | hno)
      · exact absurd hnil hne
      · obtain rfl : length = l := (hl length).1 (fits_imageOf hpos hlive)
        exact .inl (by rw [hread, liveRecords_imageOf hpos])
      · exact absurd ⟨l, hl⟩ hno
  · exact ⟨fun _ => .inr (.inr hno), fun _ => .inr ⟨message, hread⟩⟩

/-- A deleted slot for records of two bytes, behind one that holds `AB`. -/
theorem exactOrRefused_iff_live :
    ExactOrRefused [(⟨[2, 0, 0, 0, 0, 0, 0, 0], rfl, [65, 66], rfl, by decide⟩ : Slot 2),
      ⟨[0, 0, 0, 0, 0, 0, 0, 0], rfl, [67, 68], rfl, by decide⟩] :=
  (exactOrRefused_iff (by decide) _).2 (.inr (.inl ⟨_, List.mem_cons_self .., by decide⟩))

/-- One deleted slot for records of ten bytes, whose old record holds a binary 1: its image is read
as two slots for records of one byte, the second of them live. -/
theorem deletedSlot_not_exact :
    gnucobolRelativeRecords (imageOf [(⟨[0, 0, 0, 0, 0, 0, 0, 0], rfl,
        [88, 1, 0, 0, 0, 0, 0, 0, 0, 89], rfl, by decide⟩ : Slot 10)]) = .ok [(2, [89])] ∧
      ¬ExactOrRefused [(⟨[0, 0, 0, 0, 0, 0, 0, 0], rfl,
        [88, 1, 0, 0, 0, 0, 0, 0, 0, 89], rfl, by decide⟩ : Slot 10)] := by
  have hread : gnucobolRelativeRecords (imageOf [(⟨[0, 0, 0, 0, 0, 0, 0, 0], rfl,
      [88, 1, 0, 0, 0, 0, 0, 0, 0, 89], rfl, by decide⟩ : Slot 10)]) = .ok [(2, [89])] := by
    decide +kernel
  refine ⟨hread, ?_⟩
  rintro (hexact | ⟨message, hrefused⟩)
  · rw [hread] at hexact
    exact absurd (Except.ok.inj hexact) (by decide +kernel)
  · rw [hread] at hrefused
    cases hrefused

end CobolJava.Images
