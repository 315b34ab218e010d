/-
**The side files of keyed files, read back.**

The index of a path is written with control characters between its parts: U+0001 after each key and
a line feed after each record.  When no key and no record holds what separates them, the reader of
the verification gets every record of the map, and the runtime itself loads the map it wrote.

Main definitions:

* `plainKey`, `plainData`, `plainRecord` — keys and records that the side files can hold;
* `PlainIndex`, `PlainRelative` — maps of them;
* `indexImage`, `relativeImage` — the texts of the side files.

Main results:

* `emulatedIndexRecords_indexImage`, `emulatedRelativeRecords_relativeImage` — **the readers return
  the records of the map, in key order**;
* `loadedMap_indexImage`, `loadedKeyLen_indexImage` — **the runtime loads what it wrote**.
-/

import Mathlib
import CobolJava.Transformation.KeyedFiles

set_option autoImplicit false

namespace CobolJava

open Java (Text CodeUnit)
open Py (Bytes)
open CobolFileIo

/-! ### Keys and records a side file can hold -/

/-- A key without separators, line terminators and surrogates. -/
def plainKey (key : Text) : Bool :=
  key.all fun u => u ≠ 1 && u ≠ 10 && u ≠ 13 && !Java.isSurrogate u

/-- The rest of an indexed record: one line, its surrogates in pairs. -/
def plainData (record : Text) : Bool :=
  Java.isOneLine record && Java.wellPaired record

/-- A relative record: no line feed, its surrogates in pairs. -/
def plainRecord (record : Text) : Bool :=
  record.all (· ≠ 10) && Java.wellPaired record

/-- An index with plain keys of one length and plain data. -/
def PlainIndex (k : ℕ) (m : SortedMap Text Text) : Prop :=
  ∀ e ∈ m.entries, e.1.length = k ∧ plainKey e.1 = true ∧ plainData e.2 = true

/-- Plain records under positive record numbers. -/
def PlainRelative (m : SortedMap ℤ Text) : Prop :=
  ∀ e ∈ m.entries, 1 ≤ e.1 ∧ plainRecord e.2 = true

def indexImage (k : ℕ) (m : SortedMap Text Text) : List Char :=
  Java.encoded ((indexLines k m).flatMap fun l => l ++ [10])

def relativeImage (m : SortedMap ℤ Text) : List Char :=
  Java.encoded ((relativeLines m).flatMap fun l => l ++ [10])

/-- A record as the readers return it. -/
def recordBytes (record : Text) : Bytes := Py.encode (String.ofList (Java.encoded record))

theorem plainKey_mem {key : Text} (h : plainKey key = true) {u : CodeUnit} (hu : u ∈ key) :
    u ≠ 1 ∧ u ≠ 10 ∧ u ≠ 13 ∧ Java.isSurrogate u = false := by
  have := List.all_eq_true.1 h u hu
  simp only [Bool.and_eq_true, decide_eq_true_eq, Bool.not_eq_true'] at this
  exact ⟨this.1.1.1, this.1.1.2, this.1.2, this.2⟩

/-! ### Terminated lines -/

theorem notSurrogate_lineFeed : Java.isSurrogate 10 = false := by decide

theorem notSurrogate_separator : Java.isSurrogate 1 = false := by decide

theorem encoded_lines (lines : List Text) :
    Java.encoded (lines.flatMap fun l => l ++ [10]) =
      (lines.map Java.encoded).flatMap fun l => l ++ ['\n'] := by
  induction lines with
  | nil => rfl
  | cons l lines ih =>
      rw [List.flatMap_cons, List.append_assoc, List.singleton_append,
        Java.encoded_append_cons l notSurrogate_lineFeed, ih]
      simp [Java.charOf]

theorem wellPaired_lines {lines : List Text} (h : ∀ l ∈ lines, Java.wellPaired l = true) :
    Java.wellPaired (lines.flatMap fun l => l ++ [10]) = true := by
  induction lines with
  | nil => rfl
  | cons l lines ih =>
      rw [List.flatMap_cons, List.append_assoc, List.singleton_append,
        Java.wellPaired_append_cons l notSurrogate_lineFeed, h l (List.mem_cons_self ..),
        ih fun l' hl' => h l' (List.mem_cons_of_mem _ hl')]
      rfl

theorem splitOn_encoded_lines {lines : List Text} (h : ∀ l ∈ lines, (10 : CodeUnit) ∉ l) :
    (Java.encoded (lines.flatMap fun l => l ++ [10])).splitOn '\n' =
      lines.map Java.encoded ++ [[]] := by
  rw [encoded_lines, Java.splitOn_flatMap]
  intro l' hl' hmem
  obtain ⟨l, hl, rfl⟩ := List.mem_map.1 hl'
  exact h l hl (Java.mem_of_mem_encoded hmem (by decide) (by decide))

theorem fileLines_encoded_lines {lines : List Text} (hone : ∀ l ∈ lines, Java.isOneLine l = true)
    (hpaired : ∀ l ∈ lines, Java.wellPaired l = true) :
    fileLines (some (Java.encoded (lines.flatMap fun l => l ++ [10]))) = lines := by
  change Java.readLines (Java.decoded _) = lines
  rw [Java.decoded_encoded (wellPaired_lines hpaired), Java.readLines_flatMap hone]

/-! ### ASCII texts -/

theorem ofChars_cons {c : Char} (h : c.toNat < 128) (s : List Char) :
    ∃ u : CodeUnit, Java.ofChars (c :: s) = u :: Java.ofChars s ∧ u.val = c.toNat ∧
      Java.isSurrogate u = false ∧ Java.charOf u = c := by
  have hval : (Fin.ofNat 65536 c.toNat).val = c.toNat := Nat.mod_eq_of_lt (by omega)
  refine ⟨Fin.ofNat 65536 c.toNat, ?_, hval, ?_, ?_⟩
  · rw [Java.ofChars, List.flatMap_cons, Java.unitsOf, if_pos (by omega)]
    rfl
  · simp only [Java.isSurrogate, hval, Bool.and_eq_false_iff, decide_eq_false_iff_not]
    omega
  · rw [Java.charOf, hval, Char.ofNat_toNat]

theorem ofChars_ascii {s : List Char} (h : ∀ c ∈ s, c.toNat < 128) :
    (∀ u ∈ Java.ofChars s, Java.isSurrogate u = false ∧ ∃ c ∈ s, u.val = c.toNat) ∧
      (Java.ofChars s).map Java.charOf = s := by
  induction s with
  | nil => exact ⟨fun u hu => absurd hu (by simp [Java.ofChars]), rfl⟩
  | cons c s ih =>
      obtain ⟨u, hu, hval, hplain, hchar⟩ := ofChars_cons (h c (List.mem_cons_self ..)) s
      obtain ⟨ihu, ihm⟩ := ih fun d hd => h d (List.mem_cons_of_mem _ hd)
      rw [hu]
      refine ⟨fun v hv => ?_, by rw [List.map_cons, hchar, ihm]⟩
      rcases List.mem_cons.1 hv with rfl | hv
      · exact ⟨hplain, c, List.mem_cons_self .., hval⟩
      · obtain ⟨hv, d, hd, hvd⟩ := ihu v hv
        exact ⟨hv, d, List.mem_cons_of_mem _ hd, hvd⟩

theorem encoded_ofChars {s : List Char} (h : ∀ c ∈ s, c.toNat < 128) :
    Java.encoded (Java.ofChars s) = s := by
  have hplain := Java.encoded_append_of_plain (fun u hu => ((ofChars_ascii h).1 u hu).1) []
  rw [List.append_nil, (ofChars_ascii h).2] at hplain
  rw [hplain, Java.encoded, List.append_nil]

theorem wellPaired_ofChars {s : List Char} (h : ∀ c ∈ s, c.toNat < 128) :
    Java.wellPaired (Java.ofChars s) = true := by
  have hplain := Java.wellPaired_append_of_plain (fun u hu => ((ofChars_ascii h).1 u hu).1) []
  rwa [List.append_nil] at hplain

theorem mem_ofChars {s : List Char} (h : ∀ c ∈ s, 43 ≤ c.toNat ∧ c.toNat < 128) {u : CodeUnit}
    (hu : u ∈ Java.ofChars s) : 43 ≤ u.val := by
  obtain ⟨-, c, hc, hval⟩ := (ofChars_ascii fun c hc => (h c hc).2).1 u hu
  rw [hval]
  exact (h c hc).1

theorem toDigits_digit (n : ℕ) : ∀ c ∈ Nat.toDigits 10 n, 48 ≤ c.toNat ∧ c.toNat ≤ 57 := by
  intro c hc
  exact Py.digit_bounds (Nat.isDigit_of_mem_toDigits (by decide) (by decide) hc)

theorem ofInteger_natCast (n : ℕ) : Java.ofInteger n = Nat.toDigits 10 n := by
  rw [Java.ofInteger, if_neg (by omega), Int.natAbs_natCast]

theorem isDigits_toDigits (n : ℕ) : Java.isDigits (Nat.toDigits 10 n) = true := by
  rw [Java.isDigits, Bool.and_eq_true, List.all_eq_true]
  refine ⟨?_, fun c hc => Nat.isDigit_of_mem_toDigits (by decide) (by decide) hc⟩
  simp

theorem oneLine_of_printable {line : Text} (h : ∀ u ∈ line, 43 ≤ u.val) :
    Java.isOneLine line = true := by
  rw [Java.isOneLine, List.all_eq_true]
  intro u hu
  have hlow := h u hu
  have h10 : u ≠ 10 := by
    rintro rfl
    exact absurd hlow (by decide)
  have h13 : u ≠ 13 := by
    rintro rfl
    exact absurd hlow (by decide)
  simp [h10, h13]

theorem lineFeed_not_mem {line : Text} (h : Java.isOneLine line = true) : (10 : CodeUnit) ∉ line := by
  intro hmem
  have := List.all_eq_true.1 h 10 hmem
  simp at this

/-! ### The lines of an index file -/

theorem keyLine_ascii (k : ℕ) :
    ∀ c ∈ 'K' :: Java.ofInteger k, 43 ≤ c.toNat ∧ c.toNat < 128 := by
  intro c hc
  rw [ofInteger_natCast] at hc
  rcases List.mem_cons.1 hc with rfl | hc
  · decide
  · have := toDigits_digit k c hc
    omega

theorem imageLine_plain {key record : Text} (hkey : plainKey key = true)
    (hrecord : plainData record = true) :
    Java.isOneLine (imageLine key record) = true ∧
      Java.wellPaired (imageLine key record) = true := by
  obtain ⟨hone, hpaired⟩ := Bool.and_eq_true_iff.1 hrecord
  constructor
  · have hkeyOne : Java.isOneLine key = true := by
      refine List.all_eq_true.2 fun u hu => ?_
      obtain ⟨-, h10, h13, -⟩ := plainKey_mem hkey hu
      simp [h10, h13]
    rw [Java.isOneLine] at hkeyOne hone ⊢
    rw [imageLine, List.all_append, List.all_cons, hkeyOne, hone]
    decide
  · rw [imageLine, Java.wellPaired_append_cons key notSurrogate_separator, hpaired, Bool.and_true]
    have := Java.wellPaired_append_of_plain (fun u hu => (plainKey_mem hkey hu).2.2.2) []
    rwa [List.append_nil] at this

theorem indexLines_plain {k : ℕ} {m : SortedMap Text Text} (hm : PlainIndex k m) :
    ∀ l ∈ indexLines k m, Java.isOneLine l = true ∧ Java.wellPaired l = true := by
  intro l hl
  rcases List.mem_cons.1 hl with rfl | hl
  · exact ⟨oneLine_of_printable fun u hu => mem_ofChars (keyLine_ascii k) hu,
      wellPaired_ofChars fun c hc => (keyLine_ascii k c hc).2⟩
  · obtain ⟨e, he, rfl⟩ := List.mem_map.1 hl
    exact imageLine_plain (hm e he).2.1 (hm e he).2.2

/-! ### What the verification reads from an index file -/

theorem partitioned_append {key rest : List Char} {sep : Char} (h : sep ∉ key) :
    partitioned (key ++ sep :: rest) sep = some (key, rest) := by
  have hkey : ∀ c ∈ key, decide (c ≠ sep) = true := by
    intro c hc
    rw [decide_eq_true_eq]
    rintro rfl
    exact h hc
  rw [partitioned, if_pos (by simp), List.takeWhile_append_of_pos hkey,
    List.dropWhile_append_of_pos hkey]
  simp

theorem separator_not_mem_key {key : Text} (h : plainKey key = true) :
    '\x01' ∉ key.map Java.charOf := by
  intro hmem
  obtain ⟨u, hu, hchar⟩ := List.mem_map.1 hmem
  obtain ⟨h1, -, -, hplain⟩ := plainKey_mem h hu
  have hval := Java.toNat_charOf hplain
  rw [hchar] at hval
  exact h1 (Fin.ext hval.symm)

theorem indexRecord_imageLine {key record : Text} (hkey : plainKey key = true) :
    indexRecord key.length (Java.encoded (imageLine key record)) =
      some (recordBytes (key ++ record)) := by
  have hplain : ∀ u ∈ key, Java.isSurrogate u = false := fun u hu => (plainKey_mem hkey hu).2.2.2
  have hsep : Java.charOf 1 = '\x01' := by decide
  rw [imageLine, Java.encoded_append_of_plain hplain, Java.encoded_cons notSurrogate_separator,
    hsep, indexRecord, partitioned_append (separator_not_mem_key hkey)]
  simp only [List.length_map, if_true]
  rw [recordBytes, Java.encoded_append_of_plain hplain]

theorem mapM_map_some {α β γ : Type} {f : β → Option γ} {g : α → β} {h : α → γ} {xs : List α}
    (heq : ∀ x ∈ xs, f (g x) = some (h x)) : (xs.map g).mapM f = some (xs.map h) := by
  induction xs with
  | nil => rfl
  | cons x xs ih =>
      rw [List.map_cons, List.mapM_cons, heq x (List.mem_cons_self ..),
        ih fun y hy => heq y (List.mem_cons_of_mem _ hy)]
      rfl

/-- **The reader of the verification returns the records of the index, in key order.** -/
theorem emulatedIndexRecords_indexImage {k : ℕ} {m : SortedMap Text Text} (hm : PlainIndex k m) :
    emulatedIndexRecords (indexImage k m) =
      some (m.entries.map fun e => recordBytes (e.1 ++ e.2)) := by
  have hlines := splitOn_encoded_lines fun l hl =>
    lineFeed_not_mem (indexLines_plain hm l hl).1
  have hfirst := encoded_ofChars fun c hc => (keyLine_ascii k c hc).2
  rw [ofInteger_natCast] at hfirst
  rw [emulatedIndexRecords, indexImage, hlines, indexLines, ofInteger_natCast, List.map_cons,
    hfirst, List.cons_append]
  simp only [isDigits_toDigits, true_and]
  rw [← List.cons_append, List.getLast?_concat, if_pos rfl, List.dropLast_concat,
    Nat.ofDigitChars_ten_toDigits, List.map_map]
  refine mapM_map_some fun e he => ?_
  obtain ⟨hlength, hkey, -⟩ := hm e he
  rw [Function.comp_apply, ← hlength, indexRecord_imageLine hkey]

/-! ### What the runtime loads from an index file -/

theorem separated_imageLine {key record : Text} (hkey : plainKey key = true) (hne : key ≠ []) :
    separated (imageLine key record) = some (key, record) := by
  have hnot : (1 : CodeUnit) ∉ key := fun hmem => (plainKey_mem hkey hmem).1 rfl
  have hidx : (imageLine key record).idxOf 1 = key.length := by
    rw [imageLine, List.idxOf_append_of_notMem hnot, List.idxOf_cons_self, Nat.add_zero]
  have hpos := List.length_pos_iff.2 hne
  rw [separated, hidx, if_pos ⟨hpos, by simp [imageLine]⟩]
  simp [imageLine]

theorem loadRecords_imageLines {es : List (Text × Text)} (m : SortedMap Text Text)
    (h : ∀ e ∈ es, plainKey e.1 = true ∧ e.1 ≠ []) :
    loadRecords m (es.map fun e => imageLine e.1 e.2) =
      es.foldl (fun m e => m.put e.1 e.2) m := by
  induction es generalizing m with
  | nil => rfl
  | cons e es ih =>
      obtain ⟨hkey, hne⟩ := h e (List.mem_cons_self ..)
      have htail := ih (m.put e.1 e.2) fun f hf => h f (List.mem_cons_of_mem _ hf)
      rw [loadRecords] at htail
      rw [loadRecords, List.map_cons, List.foldl_cons, separated_imageLine hkey hne, htail,
        List.foldl_cons]

theorem fileLines_indexImage {k : ℕ} {m : SortedMap Text Text} (hm : PlainIndex k m) :
    fileLines (some (indexImage k m)) = indexLines k m :=
  fileLines_encoded_lines (fun l hl => (indexLines_plain hm l hl).1)
    fun l hl => (indexLines_plain hm l hl).2

theorem keyLine_eq (k : ℕ) :
    Java.ofChars ('K' :: Java.ofInteger k) = 75 :: Java.ofChars (Java.ofInteger k) := by
  obtain ⟨u, hu, hval, -⟩ := ofChars_cons (c := 'K') (by decide) (Java.ofInteger k)
  rw [hu]
  exact congrArg (· :: _) (Fin.ext hval)

/-- **The runtime loads the index it wrote.** -/
theorem loadedMap_indexImage {k : ℕ} {m : SortedMap Text Text} (hpos : 0 < k)
    (hm : PlainIndex k m) : loadedMap (fileLines (some (indexImage k m))) = m := by
  rw [fileLines_indexImage hm, indexLines, keyLine_eq, loadedMap, List.head?_cons, if_pos rfl,
    loadRecords_imageLines .empty fun e he => ⟨(hm e he).2.1, ?_⟩, SortedMap.foldl_put_entries]
  intro hnil
  have := (hm e he).1
  rw [hnil, List.length_nil] at this
  omega

/-- **The runtime loads the key length it wrote.** -/
theorem loadedKeyLen_indexImage {k : ℕ} {m : SortedMap Text Text} (hk : k < 2 ^ 31)
    (hm : PlainIndex k m) (held : Option ℤ) (keyLen : ℤ) :
    loadedKeyLen held keyLen (fileLines (some (indexImage k m))) = k := by
  have hascii : ∀ c ∈ Java.ofInteger k, c.toNat < 128 :=
    fun c hc => (keyLine_ascii k c (List.mem_cons_of_mem _ hc)).2
  rw [fileLines_indexImage hm, indexLines, keyLine_eq, loadedKeyLen, List.head?_cons, if_pos rfl,
    statedKeyLen, List.drop_one, List.tail_cons, (ofChars_ascii hascii).2, ofInteger_natCast,
    Java.parseInteger_digits (isDigits_toDigits k)]
  · rw [Nat.ofDigitChars_ten_toDigits, Option.getD_some]
  · omega
  · rw [Nat.ofDigitChars_ten_toDigits]
    omega

/-! ### What the verification reads from a relative file -/

theorem rrn_ascii {rrn : ℤ} (h : 1 ≤ rrn) :
    Java.ofInteger rrn = Nat.toDigits 10 rrn.toNat := by
  conv_lhs => rw [← Int.toNat_of_nonneg (show 0 ≤ rrn by omega)]
  exact ofInteger_natCast _

theorem encoded_relativeLine {rrn : ℤ} (h : 1 ≤ rrn) (record : Text) :
    Java.encoded (imageLine (Java.ofChars (Java.ofInteger rrn)) record) =
      Nat.toDigits 10 rrn.toNat ++ '\x01' :: Java.encoded record := by
  have hascii : ∀ c ∈ Nat.toDigits 10 rrn.toNat, c.toNat < 128 := by
    intro c hc
    have := toDigits_digit _ c hc
    omega
  have hsep : Java.charOf 1 = '\x01' := by decide
  rw [imageLine, Java.encoded_append_cons _ notSurrogate_separator, hsep, rrn_ascii h,
    encoded_ofChars hascii]

theorem relativeLines_plain {m : SortedMap ℤ Text} (hm : PlainRelative m) :
    ∀ l ∈ relativeLines m, (10 : CodeUnit) ∉ l := by
  intro l hl
  rcases List.mem_cons.1 hl with rfl | hl
  · decide
  · obtain ⟨e, he, rfl⟩ := List.mem_map.1 hl
    obtain ⟨hpos, hrecord⟩ := hm e he
    have hdigits : ∀ c ∈ Java.ofInteger e.1, 43 ≤ c.toNat ∧ c.toNat < 128 := by
      intro c hc
      rw [rrn_ascii hpos] at hc
      have := toDigits_digit _ c hc
      omega
    have hrrn := lineFeed_not_mem (oneLine_of_printable fun u hu => mem_ofChars hdigits hu)
    have hdata : (10 : CodeUnit) ∉ e.2 := by
      intro hmem
      have := List.all_eq_true.1 (Bool.and_eq_true_iff.1 hrecord).1 10 hmem
      simp at this
    rw [imageLine, List.mem_append, List.mem_cons]
    rintro (hmem | hmem | hmem)
    · exact hrrn hmem
    · exact absurd hmem (by decide)
    · exact hdata hmem

/-- The lines of relative records are read as the records, after those read so far. -/
theorem relativeRecords_lines (es : List (ℤ × Text)) (records : List (ℕ × Bytes))
    (hpos : ∀ e ∈ es, 1 ≤ e.1) (hsorted : es.Pairwise fun a b => a.1 < b.1)
    (hlast : ∀ last ∈ records.getLast?, ∀ e ∈ es, (last.1 : ℤ) < e.1) :
    relativeRecords records
        (es.map fun e => Java.encoded (imageLine (Java.ofChars (Java.ofInteger e.1)) e.2)) =
      some (records ++ es.map fun e => (e.1.toNat, recordBytes e.2)) := by
  induction es generalizing records with
  | nil => simp [relativeRecords]
  | cons e es ih =>
      obtain ⟨hfirst, hrest⟩ := List.pairwise_cons.1 hsorted
      have he := hpos e (List.mem_cons_self ..)
      have hsep : '\x01' ∉ Nat.toDigits 10 e.1.toNat := by
        intro hmem
        exact absurd (toDigits_digit _ _ hmem).1 (by decide)
      have hnot : ¬ ∃ last ∈ records.getLast?, e.1.toNat ≤ last.1 := by
        rintro ⟨last, hmem, hle⟩
        have := hlast last hmem e (List.mem_cons_self ..)
        omega
      rw [List.map_cons, encoded_relativeLine he, relativeRecords, partitioned_append hsep]
      simp only [isDigits_toDigits, Nat.ofDigitChars_ten_toDigits]
      rw [if_neg (by simp; omega), if_neg hnot,
        ih _ (fun f hf => hpos f (List.mem_cons_of_mem _ hf)) hrest, List.append_assoc]
      · rfl
      · intro last hmem f hf
        rw [List.getLast?_concat, Option.mem_def, Option.some.injEq] at hmem
        have := hfirst f hf
        rw [← hmem]
        simp only
        omega

/-- **The reader of the verification returns the records of a relative file, in the order of their
numbers.** -/
theorem emulatedRelativeRecords_relativeImage {m : SortedMap ℤ Text} (hm : PlainRelative m) :
    emulatedRelativeRecords (relativeImage m) =
      some (m.entries.map fun e => (e.1.toNat, recordBytes e.2)) := by
  have hfirst : Java.encoded (Java.ofChars ['R']) = ['R'] := by decide
  rw [emulatedRelativeRecords, relativeImage, splitOn_encoded_lines (relativeLines_plain hm),
    relativeLines, List.map_cons, hfirst, List.cons_append]
  simp only
  rw [← List.cons_append, List.getLast?_concat, if_pos rfl, List.dropLast_concat, List.map_map]
  exact relativeRecords_lines m.entries [] (fun e he => (hm e he).1) m.sorted
    fun last hlast => absurd hlast (by simp)

end CobolJava
