/-
**Forests of numbered entries.**

A list of entries that carry level numbers is an outline: an entry stands under the nearest entry
before it that has a smaller level.  The forest of the outline is built entry by entry, each one
going under the last entry that is still open for it.

Main definitions:

* `LevelForest.Rose` — trees with any number of children; `LevelForest.preorderForest` — their
  entries in order;
* `LevelForest.insert`, `LevelForest.forest` — an entry added to a forest, and the forest of a list;
* `LevelForest.spine` — the entries that are still open, the last one first;
* `LevelForest.parentsForest` — the positions of the parents;
* `LevelForest.nearest` — the position of the nearest entry with a smaller level;
* `LevelForest.IsParent` — one entry stands under another.

Main results:

* `LevelForest.preorder_forest` — **nothing is dropped, duplicated or reordered**;
* `LevelForest.ordered_forest` — children are deeper than their parents;
* `LevelForest.spine_insert` — a new entry closes the open entries that are not above it;
* `LevelForest.parents_forest` — **every entry stands under the nearest entry of a smaller level**;
* `LevelForest.isParent_forest` — who stands under whom.
-/

import Mathlib.Data.List.Induction
import Mathlib.Data.List.TakeWhile
import Mathlib.Data.Nat.Basic
import Mathlib.Order.Basic
import Mathlib.Tactic.SplitIfs

set_option autoImplicit false

namespace LevelForest

variable {α β : Type}

/-! ### Trees -/

/-- A tree with labels and any number of children. -/
inductive Rose (α : Type)
  | node (label : α) (children : List (Rose α))

def Rose.label : Rose α → α
  | .node a _ => a

def Rose.children : Rose α → List (Rose α)
  | .node _ cs => cs

mutual

/-- The labels of a tree, a label before those of its children. -/
def preorder : Rose α → List α
  | .node a cs => a :: preorderForest cs

def preorderForest : List (Rose α) → List α
  | [] => []
  | t :: ts => preorder t ++ preorderForest ts

end

mutual

def relabel (f : α → β) : Rose α → Rose β
  | .node a cs => .node (f a) (relabelForest f cs)

def relabelForest (f : α → β) : List (Rose α) → List (Rose β)
  | [] => []
  | t :: ts => relabel f t :: relabelForest f ts

end

theorem label_mem_preorderForest (t : Rose α) (ts : List (Rose α)) :
    t.label ∈ preorderForest (t :: ts) := by
  cases t
  exact List.mem_cons_self ..

theorem label_relabel (f : α → β) (t : Rose α) : (relabel f t).label = f t.label := by
  cases t
  rfl

/-! ### Insertion -/

section Levels

variable (level : α → ℕ)

mutual

/-- The tree with an entry below its label. -/
def graft (x : α) : Rose α → Rose α
  | .node a cs => .node a (insert x cs)

/-- The forest with an entry behind its last: below the last root if that has a smaller level. -/
def insert (x : α) : List (Rose α) → List (Rose α)
  | [] => [.node x []]
  | [t] => if level t.label < level x then [graft x t] else [t, .node x []]
  | t :: u :: ts => t :: insert x (u :: ts)

end

/-- The forest of a list of entries. -/
def forest (xs : List α) : List (Rose α) := xs.foldl (fun ts x => insert level x ts) []

theorem forest_append (xs : List α) (x : α) :
    forest level (xs ++ [x]) = insert level x (forest level xs) := by
  rw [forest, List.foldl_append]
  rfl

variable {level}

theorem label_graft (x : α) (t : Rose α) : (graft level x t).label = t.label := by
  cases t
  rw [graft]
  rfl

mutual

theorem preorder_graft (x : α) : ∀ t : Rose α, preorder (graft level x t) = preorder t ++ [x]
  | .node a cs => by
      rw [graft, preorder, preorder, preorder_insert x cs, List.cons_append]

theorem preorder_insert (x : α) : ∀ ts : List (Rose α),
    preorderForest (insert level x ts) = preorderForest ts ++ [x]
  | [] => by rw [insert]; rfl
  | [t] => by
      rw [insert]
      split_ifs
      · rw [preorderForest, preorder_graft x t]
        simp [preorderForest]
      · simp [preorderForest, preorder]
  | t :: u :: ts => by
      have hsplit : preorderForest (t :: u :: ts) = preorder t ++ preorderForest (u :: ts) := rfl
      rw [insert, preorderForest, preorder_insert x (u :: ts), hsplit, List.append_assoc]

end

/-- **Nothing is dropped, duplicated or reordered.** -/
theorem preorder_forest (xs : List α) : preorderForest (forest level xs) = xs := by
  induction xs using List.reverseRecOn with
  | nil => rfl
  | append_singleton xs x ih => rw [forest_append, preorder_insert, ih]

/-! ### Levels -/

mutual

theorem relabel_graft (f : β → α) (x : β) : ∀ t : Rose β,
    relabel f (graft (fun b => level (f b)) x t) = graft level (f x) (relabel f t)
  | .node a cs => by rw [graft, relabel, relabel_insert f x cs, relabel, graft]

theorem relabel_insert (f : β → α) (x : β) : ∀ ts : List (Rose β),
    relabelForest f (insert (fun b => level (f b)) x ts) = insert level (f x) (relabelForest f ts)
  | [] => by rw [insert, relabelForest, insert]; rfl
  | [t] => by
      rw [insert, relabelForest, relabelForest, insert, label_relabel]
      split_ifs
      · rw [relabelForest, relabel_graft f x t]
        rfl
      · rfl
  | t :: u :: ts => by
      have hsplit : relabelForest f (t :: u :: ts) = relabel f t :: relabel f u ::
        relabelForest f ts := rfl
      have htail : relabelForest f (u :: ts) = relabel f u :: relabelForest f ts := rfl
      rw [insert, relabelForest, relabel_insert f x (u :: ts), hsplit, htail, ← insert]

end

variable (level)

mutual

/-- Children are deeper than their parents, and no sibling is deeper than one before it. -/
def Ordered : Rose α → Prop
  | .node a cs => (∀ c ∈ cs, level a < level c.label) ∧ OrderedForest cs

def OrderedForest : List (Rose α) → Prop
  | [] => True
  | t :: ts => Ordered t ∧ (∀ u ∈ ts, level u.label ≤ level t.label) ∧ OrderedForest ts

end

variable {level}

/-- A root of the forest with a new entry is one of the old roots, or the new entry when that is no
deeper than any of them. -/
theorem roots_insert (x : α) : ∀ {ts : List (Rose α)}, OrderedForest level ts →
    ∀ u ∈ insert level x ts, (∃ t ∈ ts, u.label = t.label) ∨
      (u.label = x ∧ ∀ t ∈ ts, level x ≤ level t.label)
  | [], _, u, hu => by
      rw [insert, List.mem_singleton] at hu
      exact .inr ⟨by rw [hu]; rfl, nofun⟩
  | [t], _, u, hu => by
      rw [insert] at hu
      split_ifs at hu with hlevel
      · rw [List.mem_singleton.1 hu, label_graft]
        exact .inl ⟨t, List.mem_singleton_self t, rfl⟩
      · rw [List.mem_cons, List.mem_singleton] at hu
        rcases hu with rfl | rfl
        · exact .inl ⟨_, List.mem_singleton_self _, rfl⟩
        · refine .inr ⟨rfl, fun t' ht' => ?_⟩
          rw [List.mem_singleton.1 ht']
          exact not_lt.1 hlevel
  | t :: t' :: ts, h, u, hu => by
      rw [insert, List.mem_cons] at hu
      rcases hu with rfl | hu
      · exact .inl ⟨_, List.mem_cons_self .., rfl⟩
      · rcases roots_insert x h.2.2 u hu with ⟨v, hv, hlabel⟩ | ⟨hlabel, hall⟩
        · exact .inl ⟨v, List.mem_cons_of_mem _ hv, hlabel⟩
        · refine .inr ⟨hlabel, fun v hv => ?_⟩
          rcases List.mem_cons.1 hv with rfl | hv
          · exact (hall t' (List.mem_cons_self ..)).trans (h.2.1 t' (List.mem_cons_self ..))
          · exact hall v hv

mutual

theorem ordered_graft (x : α) : ∀ {t : Rose α}, Ordered level t → level t.label < level x →
    Ordered level (graft level x t)
  | .node a cs, h, hlevel => by
      rw [graft, Ordered]
      refine ⟨fun c hc => ?_, ordered_insert x h.2⟩
      rcases roots_insert x h.2 c hc with ⟨d, hd, hlabel⟩ | ⟨hlabel, -⟩
      · rw [hlabel]
        exact h.1 d hd
      · rw [hlabel]
        exact hlevel

theorem ordered_insert (x : α) : ∀ {ts : List (Rose α)}, OrderedForest level ts →
    OrderedForest level (insert level x ts)
  | [], _ => by
      rw [insert]
      exact ⟨⟨nofun, trivial⟩, nofun, trivial⟩
  | [t], h => by
      rw [insert]
      split_ifs with hlevel
      · exact ⟨ordered_graft x h.1 hlevel, nofun, trivial⟩
      · refine ⟨h.1, fun u hu => ?_, ⟨nofun, trivial⟩, nofun, trivial⟩
        rw [List.mem_singleton.1 hu]
        exact not_lt.1 hlevel
  | t :: u :: ts, h => by
      rw [insert]
      refine ⟨h.1, fun v hv => ?_, ordered_insert x h.2.2⟩
      rcases roots_insert x h.2.2 v hv with ⟨w, hw, hlabel⟩ | ⟨hlabel, hall⟩
      · rw [hlabel]
        exact h.2.1 w hw
      · rw [hlabel]
        exact (hall u (List.mem_cons_self ..)).trans (h.2.1 u (List.mem_cons_self ..))

end

/-- **Children are deeper than their parents.** -/
theorem ordered_forest (xs : List α) : OrderedForest level (forest level xs) := by
  induction xs using List.reverseRecOn with
  | nil => exact trivial
  | append_singleton xs x ih =>
      rw [forest_append]
      exact ordered_insert x ih

/-! ### Depth of the entries -/

mutual

theorem le_of_mem_preorder : ∀ {t : Rose α}, Ordered level t → ∀ a ∈ preorder t,
    level t.label ≤ level a
  | .node b cs, h, a, ha => by
      rw [preorder, List.mem_cons] at ha
      rcases ha with rfl | ha
      · exact le_rfl
      · obtain ⟨c, hc, hle⟩ := exists_root_le h.2 a ha
        exact (h.1 c hc).le.trans hle

theorem exists_root_le : ∀ {ts : List (Rose α)}, OrderedForest level ts →
    ∀ a ∈ preorderForest ts, ∃ t ∈ ts, level t.label ≤ level a
  | [], _, a, ha => by cases ha
  | t :: ts, h, a, ha => by
      rw [preorderForest, List.mem_append] at ha
      rcases ha with ha | ha
      · exact ⟨t, List.mem_cons_self .., le_of_mem_preorder h.1 a ha⟩
      · obtain ⟨u, hu, hle⟩ := exists_root_le h.2.2 a ha
        exact ⟨u, List.mem_cons_of_mem _ hu, hle⟩

end

/-! ### Open entries -/

mutual

/-- The labels on the way to the last entry of a tree, the last one first. -/
def spineTree : Rose α → List α
  | .node a cs => spine cs ++ [a]

def spine : List (Rose α) → List α
  | [] => []
  | [t] => spineTree t
  | _ :: u :: ts => spine (u :: ts)

end

mutual

theorem mem_preorder_of_mem_spine : ∀ (t : Rose α) {a : α}, a ∈ spineTree t → a ∈ preorder t
  | .node b cs, a, ha => by
      rw [spineTree, List.mem_append, List.mem_singleton] at ha
      rw [preorder, List.mem_cons]
      exact ha.symm.imp_right (mem_preorderForest_of_mem_spine cs)

theorem mem_preorderForest_of_mem_spine : ∀ (ts : List (Rose α)) {a : α}, a ∈ spine ts →
    a ∈ preorderForest ts
  | [], a, ha => by cases ha
  | [t], a, ha => by
      rw [spine] at ha
      rw [preorderForest, List.mem_append]
      exact .inl (mem_preorder_of_mem_spine t ha)
  | t :: u :: ts, a, ha => by
      rw [spine] at ha
      rw [preorderForest, List.mem_append]
      exact .inr (mem_preorderForest_of_mem_spine (u :: ts) ha)

end

variable (level) in
/-- The entries that stay open for a new one, the last one first. -/
def openFor (x : α) (l : List α) : List α := l.dropWhile fun a => decide (level x ≤ level a)

theorem openFor_eq_nil {x : α} {l : List α} (h : ∀ a ∈ l, level x ≤ level a) :
    openFor level x l = [] :=
  List.dropWhile_eq_nil_iff.2 fun a ha => decide_eq_true (h a ha)

theorem openFor_concat {x a : α} (l : List α) (h : level a < level x) :
    openFor level x (l ++ [a]) = openFor level x l ++ [a] := by
  induction l with
  | nil => simp [openFor, h]
  | cons b l ih =>
      rw [openFor] at ih ⊢
      rw [List.cons_append, List.dropWhile_cons, openFor, List.dropWhile_cons]
      split_ifs
      · exact ih
      · rfl

theorem openFor_spineTree {x : α} {t : Rose α} (ht : Ordered level t)
    (h : level x ≤ level t.label) : openFor level x (spineTree t) = [] :=
  openFor_eq_nil fun a ha => h.trans (le_of_mem_preorder ht a (mem_preorder_of_mem_spine t ha))

theorem spine_cons {t : Rose α} {ts : List (Rose α)} (h : ts ≠ []) : spine (t :: ts) = spine ts := by
  cases ts with
  | nil => exact absurd rfl h
  | cons u ts => rw [spine]

theorem insert_ne_nil (x : α) (ts : List (Rose α)) : insert level x ts ≠ [] := by
  intro h
  have horder : preorderForest (insert level x ts) = preorderForest ts ++ [x] :=
    preorder_insert x ts
  rw [h] at horder
  simp [preorderForest] at horder

mutual

theorem spine_graft (x : α) : ∀ {t : Rose α}, Ordered level t → level t.label < level x →
    spineTree (graft level x t) = x :: openFor level x (spineTree t)
  | .node a cs, h, hlevel => by
      have ha : level a < level x := hlevel
      rw [graft, spineTree, spine_insert x h.2, spineTree, openFor_concat _ ha, List.cons_append]

/-- **A new entry closes the open entries that are not above it.** -/
theorem spine_insert (x : α) : ∀ {ts : List (Rose α)}, OrderedForest level ts →
    spine (insert level x ts) = x :: openFor level x (spine ts)
  | [], _ => by
      rw [insert]
      rfl
  | [t], h => by
      rw [insert, spine]
      split_ifs with hlevel
      · rw [spine, spine_graft x h.1 hlevel]
      · rw [openFor_spineTree h.1 (not_lt.1 hlevel)]
        rfl
  | t :: u :: ts, h => by
      rw [insert, spine_cons (insert_ne_nil x _), spine_insert x h.2.2, spine]

end

theorem labels_insert (x : α) : ∀ {ts : List (Rose α)}, OrderedForest level ts →
    (insert level x ts).map Rose.label =
      ts.map Rose.label ++ if openFor level x (spine ts) = [] then [x] else []
  | [], _ => by
      rw [insert]
      rfl
  | [t], h => by
      rw [insert, spine]
      split_ifs with hlevel hopen hopen
      · cases t with
        | node a cs =>
            have ha : level a < level x := hlevel
            rw [spineTree, openFor_concat _ ha] at hopen
            simp at hopen
      · simp [label_graft]
      · rfl
      · exact absurd (openFor_spineTree h.1 (not_lt.1 hlevel)) hopen
  | t :: u :: ts, h => by
      have hsplit : (t :: u :: ts).map Rose.label = t.label :: (u :: ts).map Rose.label := rfl
      rw [insert, List.map_cons, labels_insert x h.2.2, spine, hsplit, List.cons_append]

/-! ### Parents -/

mutual

/-- The positions of the parents in order, the tree starting at position `n` under `up`. -/
def parents (up : Option ℕ) (n : ℕ) : Rose α → List (Option ℕ)
  | .node _ cs => up :: parentsForest (some n) (n + 1) cs

def parentsForest (up : Option ℕ) (n : ℕ) : List (Rose α) → List (Option ℕ)
  | [] => []
  | t :: ts => parents up n t ++ parentsForest up (n + (preorder t).length) ts

end

variable (level)

/-- The position of the last entry with a smaller level, the first entry being at position `n`. -/
def nearestFrom (n : ℕ) : List α → α → Option ℕ
  | [], _ => none
  | a :: l, x => (nearestFrom (n + 1) l x).or (if level a < level x then some n else none)

/-- The position of the nearest entry with a smaller level, among those before an entry. -/
def nearest (l : List α) (x : α) : Option ℕ := nearestFrom level 0 l x

variable {level}

theorem nearestFrom_none_iff {n : ℕ} {l : List α} {x : α} :
    nearestFrom level n l x = none ↔ ∀ a ∈ l, ¬level a < level x := by
  induction l generalizing n with
  | nil => simp [nearestFrom]
  | cons a l ih =>
      rw [nearestFrom, Option.or_eq_none_iff, ih, List.forall_mem_cons, and_comm]
      simp

theorem nearestFrom_eq_none {n : ℕ} {l : List α} {x : α} (h : ∀ a ∈ l, level x ≤ level a) :
    nearestFrom level n l x = none :=
  nearestFrom_none_iff.2 fun a ha => not_lt.2 (h a ha)

theorem nearestFrom_append (n : ℕ) (l l' : List α) (x : α) :
    nearestFrom level n (l ++ l') x =
      (nearestFrom level (n + l.length) l' x).or (nearestFrom level n l x) := by
  induction l generalizing n with
  | nil => simp [nearestFrom]
  | cons a l ih =>
      have hlength : n + 1 + l.length = n + (l.length + 1) := by omega
      rw [List.cons_append, nearestFrom, ih, nearestFrom, List.length_cons, hlength, Option.or_assoc]

/-- The nearest entry of a smaller level: those behind it are at least as deep. -/
theorem nearestFrom_eq_some {n i : ℕ} {l : List α} {x : α} :
    nearestFrom level n l x = some i ↔ ∃ pre a post, l = pre ++ a :: post ∧ i = n + pre.length ∧
      level a < level x ∧ ∀ b ∈ post, level x ≤ level b := by
  constructor
  · intro h
    induction l generalizing n with
    | nil => cases h
    | cons a l ih =>
        rw [nearestFrom] at h
        cases hrest : nearestFrom level (n + 1) l x with
        | some j =>
            rw [hrest, Option.some_or, Option.some.injEq] at h
            obtain ⟨pre, b, post, rfl, hi, hb⟩ := ih (h ▸ hrest)
            exact ⟨a :: pre, b, post, rfl, by rw [hi, List.length_cons]; omega, hb⟩
        | none =>
            rw [hrest, Option.none_or] at h
            split_ifs at h with hlevel
            refine ⟨[], a, l, rfl, (Option.some.inj h).symm, hlevel, fun b hb => ?_⟩
            exact not_lt.1 (nearestFrom_none_iff.1 hrest b hb)
  · rintro ⟨pre, a, post, rfl, rfl, hlevel, hpost⟩
    rw [nearestFrom_append, nearestFrom, nearestFrom_eq_none hpost, if_pos hlevel]
    rfl

theorem nearestFrom_self (n : ℕ) (a : α) (l : List α) {x : α} (h : level a < level x)
    (up : Option ℕ) : (nearestFrom level n (a :: l) x).or up = nearestFrom level n (a :: l) x := by
  rw [nearestFrom, if_pos h]
  cases nearestFrom level (n + 1) l x <;> rfl

mutual

theorem parents_graft (x : α) (up : Option ℕ) (n : ℕ) : ∀ {t : Rose α}, Ordered level t →
    level t.label < level x →
    parents up n (graft level x t) = parents up n t ++ [nearestFrom level n (preorder t) x]
  | .node a cs, h, hlevel => by
      have ha : level a < level x := hlevel
      rw [graft, parents, parentsForest_insert x (some n) (n + 1) h.2, parents, preorder,
        nearestFrom, if_pos ha, List.cons_append]

/-- An entry is inserted below the nearest entry of a smaller level. -/
theorem parentsForest_insert (x : α) (up : Option ℕ) (n : ℕ) : ∀ {ts : List (Rose α)},
    OrderedForest level ts → parentsForest up n (insert level x ts) =
      parentsForest up n ts ++ [(nearestFrom level n (preorderForest ts) x).or up]
  | [], _ => by
      rw [insert]
      rfl
  | [t], h => by
      have hsingle : parentsForest up n [t] = parents up n t := List.append_nil _
      have horder : preorderForest [t] = preorder t := List.append_nil _
      rw [insert, hsingle, horder]
      split_ifs with hlevel
      · have hgraft : parentsForest up n [graft level x t] = parents up n (graft level x t) :=
          List.append_nil _
        rw [hgraft, parents_graft x up n h.1 hlevel]
        cases t with
        | node a cs => rw [preorder, nearestFrom_self n a _ hlevel]
      · have hdeep : ∀ a ∈ preorder t, level x ≤ level a := fun a ha =>
          (not_lt.1 hlevel).trans (le_of_mem_preorder h.1 a ha)
        rw [nearestFrom_eq_none hdeep]
        rfl
  | t :: u :: ts, h => by
      have hsplit : preorderForest (t :: u :: ts) = preorder t ++ preorderForest (u :: ts) := rfl
      have hparents : parentsForest up n (t :: u :: ts) =
        parents up n t ++ parentsForest up (n + (preorder t).length) (u :: ts) := rfl
      rw [insert, parentsForest, parentsForest_insert x up (n + (preorder t).length) h.2.2, hsplit,
        hparents, nearestFrom_append, List.append_assoc]
      -- an entry below none of the later roots is below no entry of `t` either
      cases hrest : nearestFrom level (n + (preorder t).length) (preorderForest (u :: ts)) x with
      | some i => rfl
      | none =>
          have hu : level x ≤ level u.label :=
            not_lt.1 (nearestFrom_none_iff.1 hrest _ (label_mem_preorderForest u ts))
          have hdeep : ∀ a ∈ preorder t, level x ≤ level a := fun a ha =>
            (hu.trans (h.2.1 u (List.mem_cons_self ..))).trans (le_of_mem_preorder h.1 a ha)
          rw [nearestFrom_eq_none hdeep]
          rfl

end

/-- **Every entry stands under the nearest entry of a smaller level.** -/
theorem parents_forest (xs : List α) : ∀ pre x post, xs = pre ++ x :: post →
    (parentsForest none 0 (forest level xs))[pre.length]? = some (nearest level pre x) := by
  have hlength : ∀ ys : List α, (parentsForest none 0 (forest level ys)).length = ys.length := by
    intro ys
    induction ys using List.reverseRecOn with
    | nil => rfl
    | append_singleton ys y ih =>
        rw [forest_append, parentsForest_insert y none 0 (ordered_forest ys), List.length_append, ih,
          List.length_append]
        rfl
  induction xs using List.reverseRecOn with
  | nil => simp
  | append_singleton xs y ih =>
      intro pre x post hxs
      rw [forest_append, parentsForest_insert y none 0 (ordered_forest xs)]
      rcases List.eq_nil_or_concat post with rfl | ⟨post', z, rfl⟩
      · obtain ⟨rfl, hy⟩ := List.append_inj' hxs rfl
        obtain rfl : y = x := by simpa using hy
        rw [List.getElem?_append_right (hlength xs).le, hlength, Nat.sub_self, preorder_forest,
          Option.or_none]
        rfl
      · have hsplit : xs ++ [y] = (pre ++ x :: post') ++ [z] := by simpa using hxs
        obtain ⟨rfl, -⟩ := List.append_inj' hsplit rfl
        rw [List.getElem?_append_left (by rw [hlength]; simp)]
        exact ih pre x post' rfl

/-- The entry at position `i` is the parent of the entry at position `j`. -/
def IsParent (ts : List (Rose α)) (i j : ℕ) (a b : α) : Prop :=
  (preorderForest ts)[i]? = some a ∧ (preorderForest ts)[j]? = some b ∧
    (parentsForest none 0 ts)[j]? = some (some i)

theorem exists_split_of_getElem? {xs : List α} {j : ℕ} {b : α} (h : xs[j]? = some b) :
    ∃ pre post, xs = pre ++ b :: post ∧ j = pre.length := by
  obtain ⟨hj, hb⟩ := List.getElem?_eq_some_iff.1 h
  refine ⟨xs.take j, xs.drop (j + 1), ?_, (List.length_take_of_le hj.le).symm⟩
  rw [← hb, ← List.drop_eq_getElem_cons hj, List.take_append_drop]

/-- **Who stands under whom**: the entries between a parent and its child are at least as deep as the
child. -/
theorem isParent_forest {xs : List α} {i j : ℕ} {a b : α} :
    IsParent (forest level xs) i j a b ↔ ∃ pre mid post, xs = pre ++ a :: (mid ++ b :: post) ∧
      i = pre.length ∧ j = pre.length + (mid.length + 1) ∧ level a < level b ∧
      ∀ m ∈ mid, level b ≤ level m := by
  rw [IsParent, preorder_forest]
  constructor
  · rintro ⟨hi, hj, hparent⟩
    obtain ⟨before, post, rfl, rfl⟩ := exists_split_of_getElem? hj
    rw [parents_forest _ before b post rfl, Option.some.injEq] at hparent
    obtain ⟨pre, c, mid, rfl, rfl, hlevel, hmid⟩ := nearestFrom_eq_some.1 hparent
    obtain rfl : a = c := by simpa using hi.symm
    exact ⟨pre, mid, post, by simp, by simp, by simp, hlevel, hmid⟩
  · rintro ⟨pre, mid, post, rfl, rfl, rfl, hlevel, hmid⟩
    refine ⟨by simp, ?_, ?_⟩
    · rw [List.getElem?_append_right (by omega), Nat.add_sub_cancel_left, List.getElem?_cons_succ,
        List.getElem?_append_right le_rfl, Nat.sub_self]
      rfl
    · have hparent : (parentsForest none 0
          (forest level (pre ++ a :: mid ++ b :: post)))[(pre ++ a :: mid).length]? = _ :=
        parents_forest _ (pre ++ a :: mid) b post rfl
      rw [List.append_assoc, List.length_append, List.length_cons] at hparent
      rw [← List.cons_append, hparent, Option.some.injEq]
      exact nearestFrom_eq_some.2 ⟨pre, a, mid, rfl, by simp, hlevel, hmid⟩

end Levels

end LevelForest
