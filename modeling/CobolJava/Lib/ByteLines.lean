/-
**Lines of byte strings, sorted and joined again.**

`bytes.splitlines(keepends=True)` cuts a content into lines that keep their terminators, `sorted`
orders them and `b"".join` glues them.  Gluing may run two lines into one: a line without
terminator with whatever follows it, and a line closed by a carriage return with a line feed.

Main definitions:

* `IsLine` — a line with its terminator;
* `Apart` — the joint between two lines survives gluing;
* `KeptApart` — so do all joints of the sorted lines of a content;
* `lines` — the lines of a content as a multiset.

Main results:

* `splitlines_flatten` — lines whose joints survive are read back from the glued content;
* `sortedLines_eq_iff` — sorted lines agree exactly when the multisets of lines do;
* `flatten_sortedLines_eq_iff` — **for contents kept apart, the glued sorted lines agree exactly when
  the multisets of lines do**.
-/

import Mathlib.Data.Multiset.Basic
import CobolJava.Lib.PyBytes

set_option autoImplicit false

namespace Py

/-! ### Lines -/

/-- A line: a body without line breaks and a terminator, which only a nonempty body may lack. -/
def IsLine (line : Bytes) : Prop :=
  ∃ body terminator : Bytes, line = body ++ terminator ∧ (∀ b ∈ body, b ≠ 10 ∧ b ≠ 13) ∧
    (terminator = [10] ∨ terminator = [13] ∨ terminator = [13, 10] ∨
      (terminator = [] ∧ body ≠ []))

/-- The joint between two lines survives gluing. -/
def Apart (line next : Bytes) : Prop :=
  line.getLast? = some 10 ∨ (line.getLast? = some 13 ∧ next.head? ≠ some 10)

/-- The lines of the content in order. -/
def sortedLines (content : Bytes) : List Bytes := sortedBytes (splitlines content)

/-- The joints of the sorted lines all survive gluing. -/
def KeptApart (content : Bytes) : Prop := List.IsChain Apart (sortedLines content)

/-- The lines of a content, each with its terminator. -/
def lines (content : Bytes) : Multiset Bytes := ↑(splitlines content)

theorem isLine_of_mem_splitlinesFrom {current content line : Bytes}
    (hcurrent : ∀ b ∈ current, b ≠ 10 ∧ b ≠ 13) (h : line ∈ splitlinesFrom current content) :
    IsLine line := by
  fun_induction splitlinesFrom current content with
  | case1 => simp at h
  | case2 current hne =>
      rw [List.mem_singleton] at h
      exact ⟨current, [], by simp [h], hcurrent, by simp [hne]⟩
  | case3 current rest ih =>
      rcases List.mem_cons.1 h with rfl | h
      · exact ⟨current, [13, 10], rfl, hcurrent, by simp⟩
      · exact ih (by simp) h
  | case4 current b rest _ hb ih =>
      rcases List.mem_cons.1 h with rfl | h
      · refine ⟨current, [b], rfl, hcurrent, ?_⟩
        rcases hb with rfl | rfl <;> simp
      · exact ih (by simp) h
  | case5 current b rest _ hb ih =>
      refine ih (fun c hc => ?_) h
      rcases List.mem_append.1 hc with hc | hc
      · exact hcurrent c hc
      · rw [List.mem_singleton.1 hc]
        exact not_or.1 hb

theorem isLine_of_mem_splitlines {content line : Bytes} (h : line ∈ splitlines content) :
    IsLine line :=
  isLine_of_mem_splitlinesFrom (by simp) h

theorem splitlinesFrom_body {body : Bytes} (h : ∀ b ∈ body, b ≠ 10 ∧ b ≠ 13)
    (current rest : Bytes) :
    splitlinesFrom current (body ++ rest) = splitlinesFrom (current ++ body) rest := by
  induction body generalizing current with
  | nil => simp
  | cons b body ih =>
      obtain ⟨h10, h13⟩ := h b (List.mem_cons_self ..)
      have hstep : splitlinesFrom current (b :: (body ++ rest)) =
          splitlinesFrom (current ++ [b]) (body ++ rest) := by
        rw [splitlinesFrom]
        · rw [if_neg (not_or.2 ⟨h10, h13⟩)]
        · exact fun _ hb => absurd hb h13
      rw [List.cons_append, hstep, ih fun c hc => h c (List.mem_cons_of_mem _ hc)]
      simp

theorem splitlinesFrom_return {rest : Bytes} (h : rest.head? ≠ some 10) (current : Bytes) :
    splitlinesFrom current (13 :: rest) = (current ++ [13]) :: splitlines rest := by
  rw [splitlinesFrom]
  · simp [splitlines]
  · intro tail _ hrest
    exact h (by simp [hrest])

theorem splitlinesFrom_feed (current rest : Bytes) :
    splitlinesFrom current (10 :: rest) = (current ++ [10]) :: splitlines rest := by
  rw [splitlinesFrom]
  · simp [splitlines]
  · simp

theorem splitlines_line {line rest : Bytes} (hline : IsLine line) (h : Apart line rest) :
    splitlines (line ++ rest) = line :: splitlines rest := by
  obtain ⟨body, terminator, rfl, hbody, hterm⟩ := hline
  rw [splitlines, List.append_assoc, splitlinesFrom_body hbody, List.nil_append]
  rcases hterm with rfl | rfl | rfl | ⟨rfl, -⟩
  · exact splitlinesFrom_feed body rest
  · refine splitlinesFrom_return ?_ body
    rcases h with h | h
    · simp at h
    · exact h.2
  · simp [splitlinesFrom, splitlines]
  · -- a body ends in no line break
    have hlast : ∀ b : UInt8, body.getLast? = some b → b ≠ 10 ∧ b ≠ 13 := fun b hb =>
      hbody b (List.mem_of_getLast? hb)
    rcases h with h | h
    · exact absurd rfl (hlast 10 (by simpa using h)).1
    · exact absurd rfl (hlast 13 (by simpa using h.1)).2

theorem splitlines_single {line : Bytes} (hline : IsLine line) : splitlines line = [line] := by
  obtain ⟨body, terminator, rfl, hbody, hterm⟩ := hline
  rw [splitlines, splitlinesFrom_body hbody, List.nil_append]
  rcases hterm with rfl | rfl | rfl | ⟨rfl, hne⟩
  · simp [splitlinesFrom]
  · simp [splitlinesFrom]
  · simp [splitlinesFrom]
  · simp [splitlinesFrom, hne]

theorem IsLine.ne_nil {line : Bytes} (h : IsLine line) : line ≠ [] := by
  obtain ⟨body, terminator, rfl, -, hterm⟩ := h
  rcases hterm with rfl | rfl | rfl | ⟨rfl, hne⟩
  · simp
  · simp
  · simp
  · simpa using hne

/-- Lines whose joints survive gluing are read back from the glued content. -/
theorem splitlines_flatten {pieces : List Bytes} (hlines : ∀ p ∈ pieces, IsLine p)
    (happart : List.IsChain Apart pieces) : splitlines pieces.flatten = pieces := by
  induction pieces with
  | nil => rfl
  | cons line pieces ih =>
      have hline := hlines line (List.mem_cons_self ..)
      cases pieces with
      | nil => simpa using splitlines_single hline
      | cons next pieces =>
          obtain ⟨hjoint, hrest⟩ := List.isChain_cons_cons.1 happart
          have hnext := (hlines next (by simp)).ne_nil
          have hhead : (next :: pieces).flatten.head? = next.head? := by
            rw [List.flatten_cons, List.head?_append_of_ne_nil _ hnext]
          have happartRest : Apart line (next :: pieces).flatten := by
            rw [Apart, hhead]
            exact hjoint
          rw [List.flatten_cons, splitlines_line hline happartRest,
            ih (fun p hp => hlines p (List.mem_cons_of_mem _ hp)) hrest]

/-! ### The order -/

theorem byte_lt_trichotomy (x y : UInt8) : x < y ∨ x = y ∨ y < x := by
  rw [UInt8.lt_iff_toNat_lt, UInt8.lt_iff_toNat_lt, ← UInt8.toNat_inj]
  omega

theorem bytesLe_total (a b : Bytes) : bytesLe a b = true ∨ bytesLe b a = true := by
  induction a generalizing b with
  | nil => simp [bytesLe]
  | cons x a ih =>
      cases b with
      | nil => simp [bytesLe]
      | cons y b =>
          simp only [bytesLe, Bool.or_eq_true, decide_eq_true_eq, Bool.and_eq_true, beq_iff_eq]
          rcases byte_lt_trichotomy x y with h | rfl | h
          · exact .inl (.inl h)
          · rcases ih b with h | h
            · exact .inl (.inr ⟨rfl, h⟩)
            · exact .inr (.inr ⟨rfl, h⟩)
          · exact .inr (.inl h)

theorem bytesLe_antisymm {a b : Bytes} (hab : bytesLe a b = true) (hba : bytesLe b a = true) :
    a = b := by
  induction a generalizing b with
  | nil => cases b <;> simp_all [bytesLe]
  | cons x a ih =>
      cases b with
      | nil => simp [bytesLe] at hab
      | cons y b =>
          simp only [bytesLe, Bool.or_eq_true, decide_eq_true_eq, Bool.and_eq_true,
            beq_iff_eq] at hab hba
          rcases hab with hab | ⟨rfl, hab⟩
          · rcases hba with hba | ⟨rfl, -⟩
            · exact absurd (UInt8.lt_trans hab hba) (UInt8.lt_irrefl _)
            · exact absurd hab (UInt8.lt_irrefl _)
          · rcases hba with hba | ⟨-, hba⟩
            · exact absurd hba (UInt8.lt_irrefl _)
            · rw [ih hab hba]

theorem bytesLe_trans {a b c : Bytes} (hab : bytesLe a b = true) (hbc : bytesLe b c = true) :
    bytesLe a c = true := by
  induction a generalizing b c with
  | nil => simp [bytesLe]
  | cons x a ih =>
      cases b with
      | nil => simp [bytesLe] at hab
      | cons y b =>
          cases c with
          | nil => simp [bytesLe] at hbc
          | cons z c =>
              simp only [bytesLe, Bool.or_eq_true, decide_eq_true_eq, Bool.and_eq_true,
                beq_iff_eq] at hab hbc ⊢
              rcases hab with hab | ⟨rfl, hab⟩
              · rcases hbc with hbc | ⟨rfl, -⟩
                · exact .inl (UInt8.lt_trans hab hbc)
                · exact .inl hab
              · rcases hbc with hbc | ⟨rfl, hbc⟩
                · exact .inl hbc
                · exact .inr ⟨rfl, ih hab hbc⟩

instance bytesLe_isTotal : Std.Total fun a b : Bytes => bytesLe a b = true := ⟨bytesLe_total⟩

instance bytesLe_isTrans : IsTrans Bytes fun a b => bytesLe a b = true :=
  ⟨fun _ _ _ => bytesLe_trans⟩

theorem sortedBytes_perm (pieces : List Bytes) : (sortedBytes pieces).Perm pieces :=
  List.perm_insertionSort _ _

theorem sortedBytes_eq_iff {as bs : List Bytes} : sortedBytes as = sortedBytes bs ↔ as.Perm bs := by
  constructor
  · intro h
    exact (sortedBytes_perm as).symm.trans (h ▸ sortedBytes_perm bs)
  · intro h
    have hperm := (sortedBytes_perm as).trans (h.trans (sortedBytes_perm bs).symm)
    exact hperm.eq_of_pairwise (fun _ _ _ _ => bytesLe_antisymm)
      (List.pairwise_insertionSort _ as) (List.pairwise_insertionSort _ bs)

theorem sortedLines_eq_iff {a b : Bytes} : sortedLines a = sortedLines b ↔ lines a = lines b := by
  rw [sortedLines, sortedLines, sortedBytes_eq_iff, lines, lines, Multiset.coe_eq_coe]

theorem isLine_of_mem_sortedLines {content line : Bytes} (h : line ∈ sortedLines content) :
    IsLine line :=
  isLine_of_mem_splitlines ((sortedBytes_perm _).mem_iff.1 h)

theorem flatten_sortedLines_eq_iff {a b : Bytes} (ha : KeptApart a) (hb : KeptApart b) :
    (sortedLines a).flatten = (sortedLines b).flatten ↔ lines a = lines b := by
  rw [← sortedLines_eq_iff]
  constructor
  · intro h
    rw [← splitlines_flatten (fun _ => isLine_of_mem_sortedLines) ha, h,
      splitlines_flatten (fun _ => isLine_of_mem_sortedLines) hb]
  · intro h
    rw [h]

theorem keptApart_of_feeds {content : Bytes}
    (h : ∀ line ∈ splitlines content, line.getLast? = some 10) : KeptApart content := by
  refine List.Pairwise.isChain (List.pairwise_of_forall_mem_list fun line hline _ _ => ?_)
  exact .inl (h line ((sortedBytes_perm _).mem_iff.1 hline))

end Py
