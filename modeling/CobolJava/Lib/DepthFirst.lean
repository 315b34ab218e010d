/-
**Depth-first search for cycles.**

A depth-first search over a graph given by the successors of every node, with one set of visited
nodes, the path to the current node, and a report whenever a successor lies on that path.  The depth
of the search is limited.

Main definitions:

* `DepthFirst.Search`, `DepthFirst.visit`, `DepthFirst.visitRoots` — the search;
* `DepthFirst.ClosedWalk` — a way back to its first node, the nodes in between different;
* `DepthFirst.Sound` — **the invariant** of the search.

Main results:

* `DepthFirst.exists_visitRoots` — the search ends within a depth that covers the nodes;
* `DepthFirst.Sound.visit` — a call keeps the invariant;
* `DepthFirst.visitRoots_reported` — every report is a closed walk;
* `DepthFirst.visitRoots_nil_iff` — **nothing is reported exactly when no cycle can be reached**.
-/

import Mathlib.Data.Finset.Card
import Mathlib.Data.Finset.Dedup
import Mathlib.Data.Finset.SDiff
import Mathlib.Data.List.Chain
import Mathlib.Logic.Relation

set_option autoImplicit false

namespace DepthFirst

variable {α : Type*}

/-! ### The search -/

/-- What a search has visited and reported. -/
structure Search (α : Type*) where
  visited : List α
  cycles : List (List α)

variable [DecidableEq α]

/-- A successor on the path is reported with the part of the path from it on. -/
def Search.report (search : Search α) (path : List α) (target : α) : Search α :=
  { search with cycles := search.cycles ++ [path.drop (path.idxOf target) ++ [target]] }

/-- A call on a node that was not visited, below the nodes above; none when the depth is used up. -/
def visit (next : α → List α) : ℕ → List α → α → Search α → Option (Search α)
  | 0, _, _, _ => none
  | depth + 1, above, node, search =>
      (next node).foldlM (fun search target =>
        if target ∉ search.visited then visit next depth (above ++ [node]) target search
        else if target ∈ above ++ [node] then some (search.report (above ++ [node]) target)
        else some search)
        { search with visited := search.visited ++ [node] }

def visitRoots (next : α → List α) (depth : ℕ) (roots : List α) : Option (Search α) :=
  roots.foldlM (fun search root =>
    if root ∉ search.visited then visit next depth [] root search else some search) ⟨[], []⟩

def explore (next : α → List α) (depth : ℕ) (path : List α) (search : Search α) (target : α) :
    Option (Search α) :=
  if target ∉ search.visited then visit next depth path target search
  else if target ∈ path then some (search.report path target)
  else some search

theorem visit_succ (next : α → List α) (depth : ℕ) (above : List α) (node : α)
    (search : Search α) :
    visit next (depth + 1) above node search =
      (next node).foldlM (explore next depth (above ++ [node]))
        { search with visited := search.visited ++ [node] } := rfl

/-! ### Loops -/

section Loops

variable {β σ : Type*} {f : σ → β → Option σ}

/-- What holds of the first state and is kept by a turn holds at the end of a loop; it may speak of
the elements that are done. -/
theorem foldlM_invariant {P : List β → σ → Prop} {xs : List β} {s s' : σ} (hstart : P [] s)
    (hturn : ∀ done x s s', x ∈ xs → P done s → f s x = some s' → P (done ++ [x]) s')
    (h : xs.foldlM f s = some s') : P xs s' := by
  suffices hrest : ∀ rest done s, done ++ rest = xs → P done s → rest.foldlM f s = some s' →
      P (done ++ rest) s' from hrest xs [] s rfl hstart h
  intro rest
  induction rest with
  | nil =>
      intro done s _ hP hfold
      rw [List.append_nil]
      obtain rfl : s = s' := Option.some.inj hfold
      exact hP
  | cons x rest ih =>
      intro done s hsplit hP hfold
      rw [List.foldlM_cons, Option.bind_eq_bind, Option.bind_eq_some_iff] at hfold
      obtain ⟨s₁, hx, hfold⟩ := hfold
      have hmem : x ∈ xs := by
        rw [← hsplit]
        simp
      rw [List.append_cons] at hsplit ⊢
      exact ih _ s₁ hsplit (hturn done x s s₁ hmem hP hx) hfold

theorem exists_foldlM {P : σ → Prop} {xs : List β} {s : σ} (hstart : P s)
    (hturn : ∀ x s, x ∈ xs → P s → ∃ s', f s x = some s' ∧ P s') :
    ∃ s', xs.foldlM f s = some s' ∧ P s' := by
  induction xs generalizing s with
  | nil => exact ⟨s, rfl, hstart⟩
  | cons x xs ih =>
      obtain ⟨s₁, hx, hs₁⟩ := hturn x s (List.mem_cons_self ..) hstart
      obtain ⟨s', hs', hP⟩ := ih hs₁ fun y s hy => hturn y s (List.mem_cons_of_mem _ hy)
      exact ⟨s', by rw [List.foldlM_cons, hx]; exact hs', hP⟩

theorem foldlM_of_turn {g : σ → β → Option σ} (h : ∀ s x s', f s x = some s' → g s x = some s')
    {xs : List β} {s s' : σ} (hfold : xs.foldlM f s = some s') : xs.foldlM g s = some s' := by
  induction xs generalizing s with
  | nil => exact hfold
  | cons x xs ih =>
      rw [List.foldlM_cons, Option.bind_eq_bind, Option.bind_eq_some_iff] at hfold ⊢
      obtain ⟨s₁, hx, hfold⟩ := hfold
      exact ⟨s₁, h s x s₁ hx, ih hfold⟩

end Loops

/-! ### Visited nodes -/

section Visited

variable {next : α → List α} {depth : ℕ} {path above : List α} {node target : α}
  {search search' : Search α}

theorem explore_cases (h : explore next depth path search target = some search') :
    (target ∉ search.visited ∧ visit next depth path target search = some search') ∨
      (target ∈ search.visited ∧ target ∈ path ∧ search' = search.report path target) ∨
      (target ∈ search.visited ∧ target ∉ path ∧ search' = search) := by
  unfold explore at h
  by_cases hnew : target ∈ search.visited
  · rw [if_neg (not_not.2 hnew)] at h
    by_cases hpath : target ∈ path
    · rw [if_pos hpath] at h
      exact .inr (.inl ⟨hnew, hpath, (Option.some.inj h).symm⟩)
    · rw [if_neg hpath] at h
      exact .inr (.inr ⟨hnew, hpath, (Option.some.inj h).symm⟩)
  · rw [if_pos hnew] at h
    exact .inl ⟨hnew, h⟩

/-- **A call visits its node**, and what was visited stays so. -/
theorem visited_visit (h : visit next depth above node search = some search') :
    search.visited ⊆ search'.visited ∧ node ∈ search'.visited := by
  induction depth generalizing above node search search' with
  | zero => cases h
  | succ depth ih =>
      rw [visit_succ] at h
      have hloop : search.visited ++ [node] ⊆ search'.visited := by
        refine foldlM_invariant (P := fun _ s => search.visited ++ [node] ⊆ s.visited)
          (List.Subset.refl _) (fun _ x s s' _ hs hx => ?_) h
        rcases explore_cases hx with ⟨-, hvisit⟩ | ⟨-, -, rfl⟩ | ⟨-, -, rfl⟩
        · exact List.Subset.trans hs (ih hvisit).1
        · exact hs
        · exact hs
      exact ⟨fun a ha => hloop (List.mem_append_left _ ha),
        hloop (List.mem_append_right _ (List.mem_singleton_self _))⟩

theorem visited_explore (h : explore next depth path search target = some search') :
    search.visited ⊆ search'.visited ∧ target ∈ search'.visited := by
  rcases explore_cases h with ⟨-, hvisit⟩ | ⟨hmem, -, rfl⟩ | ⟨hmem, -, rfl⟩
  · exact visited_visit hvisit
  · exact ⟨List.Subset.refl _, hmem⟩
  · exact ⟨List.Subset.refl _, hmem⟩

/-! ### The search ends -/

theorem card_unvisited_lt {nodes : Finset α} {visited : List α} {a : α} (ha : a ∈ nodes)
    (hnew : a ∉ visited) {before : List α} (hbefore : before ⊆ visited) :
    (nodes \ (a :: visited).toFinset).card < (nodes \ before.toFinset).card := by
  refine Finset.card_lt_card (Finset.ssubset_iff_subset_ne.2 ⟨?_, ?_⟩)
  · intro b hb
    simp only [Finset.mem_sdiff, List.mem_toFinset, List.mem_cons, not_or] at hb ⊢
    exact ⟨hb.1, fun hmem => hb.2.2 (hbefore hmem)⟩
  · intro heq
    have hmem : a ∈ nodes \ before.toFinset := by
      simp only [Finset.mem_sdiff, List.mem_toFinset]
      exact ⟨ha, fun hmem => hnew (hbefore hmem)⟩
    rw [← heq] at hmem
    simp at hmem

/-- **A call ends** when the depth covers the nodes that are not visited. -/
theorem exists_visit {nodes : Finset α} (hnodes : ∀ a, ∀ b ∈ next a, b ∈ nodes)
    (above : List α) (node : α) (search : Search α)
    (hdepth : (nodes \ (node :: search.visited).toFinset).card < depth) :
    ∃ search', visit next depth above node search = some search' := by
  induction depth generalizing above node search with
  | zero => exact absurd hdepth (Nat.not_lt_zero _)
  | succ depth ih =>
      have hturn : ∀ x s, x ∈ next node → node :: search.visited ⊆ s.visited →
          ∃ s', explore next depth (above ++ [node]) s x = some s' ∧
            node :: search.visited ⊆ s'.visited := by
        intro x s hx hs
        by_cases hnew : x ∈ s.visited
        · by_cases hpath : x ∈ above ++ [node]
          · exact ⟨s.report (above ++ [node]) x,
              by rw [explore, if_neg (not_not.2 hnew), if_pos hpath], hs⟩
          · exact ⟨s, by rw [explore, if_neg (not_not.2 hnew), if_neg hpath], hs⟩
        · have hless := card_unvisited_lt (hnodes node x hx) hnew hs
          obtain ⟨s', hs'⟩ := ih (above ++ [node]) x s (by omega)
          exact ⟨s', by rw [explore, if_pos hnew, hs'],
            List.Subset.trans hs (visited_visit hs').1⟩
      have hstart : node :: search.visited ⊆ search.visited ++ [node] := by
        intro a ha
        simpa [or_comm] using ha
      obtain ⟨search', hsearch, -⟩ := exists_foldlM
        (s := ⟨search.visited ++ [node], search.cycles⟩) hstart hturn
      exact ⟨search', hsearch⟩

/-- **The search ends** within a depth that covers the nodes. -/
theorem exists_visitRoots {nodes : Finset α} (hnodes : ∀ a, ∀ b ∈ next a, b ∈ nodes)
    (hdepth : nodes.card < depth) (roots : List α) :
    ∃ search, visitRoots next depth roots = some search := by
  have hturn : ∀ root s, root ∈ roots → True →
      ∃ s', (if root ∉ s.visited then visit next depth [] root s else some s) = some s' ∧ True := by
    intro root s _ _
    by_cases hnew : root ∈ s.visited
    · exact ⟨s, if_neg (not_not.2 hnew), trivial⟩
    · have hcard : (nodes \ (root :: s.visited).toFinset).card ≤ nodes.card :=
        Finset.card_le_card Finset.sdiff_subset
      obtain ⟨s', hs'⟩ := exists_visit hnodes [] root s (lt_of_le_of_lt hcard hdepth)
      exact ⟨s', by rw [if_pos hnew, hs'], trivial⟩
  obtain ⟨search, hsearch, -⟩ := exists_foldlM (s := ⟨[], []⟩) (P := fun _ => True) trivial hturn
  exact ⟨search, hsearch⟩

/-- **A deeper limit does not matter** to a call that ends. -/
theorem visit_mono {limit : ℕ} (h : visit next depth above node search = some search')
    (hlimit : depth ≤ limit) : visit next limit above node search = some search' := by
  induction depth generalizing above node search search' limit with
  | zero => cases h
  | succ depth ih =>
      cases limit with
      | zero => exact absurd hlimit (Nat.not_succ_le_zero _)
      | succ limit =>
          rw [visit_succ] at h ⊢
          refine foldlM_of_turn (fun s x s' hx => ?_) h
          unfold explore at hx ⊢
          by_cases hnew : x ∈ s.visited
          · rwa [if_neg (not_not.2 hnew)] at hx ⊢
          · rw [if_pos hnew] at hx ⊢
            exact ih hx (Nat.le_of_succ_le_succ hlimit)

theorem visitRoots_mono {limit : ℕ} {roots : List α} (h : visitRoots next depth roots = some search)
    (hlimit : depth ≤ limit) : visitRoots next limit roots = some search := by
  refine foldlM_of_turn (fun s root s' hstep => ?_) h
  by_cases hnew : root ∈ s.visited
  · rwa [if_neg (not_not.2 hnew)] at hstep ⊢
  · rw [if_pos hnew] at hstep ⊢
    exact visit_mono hstep hlimit

end Visited

/-! ### The invariant -/

def Edge (next : α → List α) (a b : α) : Prop := b ∈ next a

/-- **A closed walk**: along edges back to the first node, the nodes in between different from it and
from one another. -/
def ClosedWalk (next : α → List α) (cycle : List α) : Prop :=
  ∃ a inner, cycle = a :: inner ++ [a] ∧ (a :: inner).Nodup ∧ cycle.IsChain (Edge next)

/-- A node that some root leads to. -/
def Reachable (next : α → List α) (roots : List α) (a : α) : Prop :=
  ∃ root ∈ roots, Relation.ReflTransGen (Edge next) root a

/-- What a search has done, with a path that is not finished: what is visited can be reached, what is
reported is a closed walk that can be reached, and as long as nothing is reported no way from a
finished node is endless. -/
structure Sound (next : α → List α) (roots path : List α) (search : Search α) : Prop where
  path_visited : ∀ a ∈ path, a ∈ search.visited
  reachable : ∀ a ∈ search.visited, Reachable next roots a
  reported : ∀ cycle ∈ search.cycles, ClosedWalk next cycle ∧
    ∀ a ∈ cycle, Reachable next roots a
  finished : search.cycles = [] → ∀ a ∈ search.visited, a ∉ path →
    Acc (fun b a => Edge next a b) a

section Invariant

variable {next : α → List α} {roots : List α} {depth : ℕ} {path above : List α} {node target : α}
  {search search' : Search α}

/-- A successor on the path closes a walk. -/
theorem closedWalk_of_mem (hchain : (above ++ [node]).IsChain (Edge next))
    (hnodup : (above ++ [node]).Nodup) (hedge : Edge next node target)
    (hmem : target ∈ above ++ [node]) :
    ClosedWalk next ((above ++ [node]).drop ((above ++ [node]).idxOf target) ++ [target]) := by
  have hlt : (above ++ [node]).idxOf target < (above ++ [node]).length :=
    List.idxOf_lt_length_iff.2 hmem
  -- the rest of the path begins with the successor and ends with the node
  have hdrop : (above ++ [node]).drop ((above ++ [node]).idxOf target) =
      target :: (above ++ [node]).drop ((above ++ [node]).idxOf target + 1) := by
    rw [List.drop_eq_getElem_cons hlt, List.getElem_idxOf hlt]
  have hlast : ((above ++ [node]).drop ((above ++ [node]).idxOf target)).getLast? = some node := by
    rw [List.getLast?_drop, if_neg (by omega), List.getLast?_concat]
  refine ⟨target, (above ++ [node]).drop ((above ++ [node]).idxOf target + 1), ?_, ?_, ?_⟩
  · rw [hdrop]
  · rw [← hdrop]
    exact hnodup.sublist (List.drop_sublist _ _)
  · refine List.isChain_append.2 ⟨hchain.drop _, List.IsChain.singleton _, ?_⟩
    intro a ha b hb
    rw [hlast] at ha
    obtain rfl := Option.some.inj ha
    obtain rfl : target = b := Option.some.inj hb
    exact hedge

theorem Sound.report (h : Sound next roots (above ++ [node]) search)
    (hchain : (above ++ [node]).IsChain (Edge next)) (hnodup : (above ++ [node]).Nodup)
    (hedge : Edge next node target) (hmem : target ∈ above ++ [node]) :
    Sound next roots (above ++ [node]) (search.report (above ++ [node]) target) := by
  refine ⟨h.path_visited, h.reachable, fun cycle hcycle => ?_, fun hnil => ?_⟩
  · rcases List.mem_append.1 hcycle with hold | hnew
    · exact h.reported cycle hold
    · obtain rfl := List.mem_singleton.1 hnew
      refine ⟨closedWalk_of_mem hchain hnodup hedge hmem, fun a ha => h.reachable a ?_⟩
      rcases List.mem_append.1 ha with ha | ha
      · exact h.path_visited a (List.mem_of_mem_drop ha)
      · rw [List.mem_singleton.1 ha]
        exact h.path_visited target hmem
  · simp [Search.report] at hnil

/-- **A call keeps the invariant**, and finishes its node. -/
theorem Sound.visit (h : Sound next roots above search)
    (hchain : (above ++ [node]).IsChain (Edge next)) (habove : above.Nodup)
    (hnew : node ∉ search.visited) (hreachable : Reachable next roots node)
    (hvisit : visit next depth above node search = some search') :
    Sound next roots above search' ∧ (search'.cycles = [] → search.cycles = []) := by
  induction depth generalizing above node search search' with
  | zero => cases hvisit
  | succ depth ih =>
      have hnotAbove : node ∉ above := fun hmem => hnew (h.path_visited node hmem)
      have hnodup : (above ++ [node]).Nodup := by
        rw [List.nodup_append]
        refine ⟨habove, List.nodup_singleton _, fun a ha b hb => ?_⟩
        rw [List.mem_singleton.1 hb]
        rintro rfl
        exact hnotAbove ha
      have hstart : Sound next roots (above ++ [node])
          ⟨search.visited ++ [node], search.cycles⟩ := by
        refine ⟨fun a ha => ?_, fun a ha => ?_, h.reported, fun hnil a ha hpath => ?_⟩
        · rcases List.mem_append.1 ha with ha | ha
          · exact List.mem_append_left _ (h.path_visited a ha)
          · exact List.mem_append_right _ ha
        · rcases List.mem_append.1 ha with ha | ha
          · exact h.reachable a ha
          · rw [List.mem_singleton.1 ha]
            exact hreachable
        · rw [List.mem_append, not_or] at hpath
          rcases List.mem_append.1 ha with ha | ha
          · exact h.finished hnil a ha hpath.1
          · exact absurd ha hpath.2
      rw [visit_succ] at hvisit
      -- the successors that are done are finished, unless a cycle is reported
      obtain ⟨hsound, hcycles, hdone⟩ := foldlM_invariant
        (P := fun done s => Sound next roots (above ++ [node]) s ∧
          (s.cycles = [] → search.cycles = []) ∧
          (s.cycles = [] → ∀ b ∈ done, b ∈ s.visited ∧ b ∉ above ++ [node]))
        ⟨hstart, id, fun _ b hb => absurd hb List.not_mem_nil⟩
        (fun done b s s' hb hs hstep => by
          obtain ⟨hsound, hcycles, hdone⟩ := hs
          have hgrows := visited_explore hstep
          rcases explore_cases hstep with ⟨hfresh, hcall⟩ | ⟨-, hpath, rfl⟩ | ⟨hseen, hpath, rfl⟩
          · have hchain' : (above ++ [node] ++ [b]).IsChain (Edge next) := by
              refine List.isChain_append.2 ⟨hchain, List.IsChain.singleton _, ?_⟩
              intro a ha c hc
              rw [List.getLast?_concat] at ha
              obtain rfl := Option.some.inj ha
              obtain rfl : b = c := Option.some.inj hc
              exact hb
            have hnode := hsound.reachable node
              (hsound.path_visited node (List.mem_append_right _ (List.mem_singleton_self _)))
            obtain ⟨root, hroot, hto⟩ := hnode
            obtain ⟨hsound', hcycles'⟩ := ih hsound hchain' hnodup hfresh
              ⟨root, hroot, hto.tail hb⟩ hcall
            refine ⟨hsound', fun hnil => hcycles (hcycles' hnil), fun hnil c hc => ?_⟩
            rcases List.mem_append.1 hc with hc | hc
            · exact ⟨hgrows.1 (hdone (hcycles' hnil) c hc).1, (hdone (hcycles' hnil) c hc).2⟩
            · rw [List.mem_singleton.1 hc]
              exact ⟨hgrows.2, fun hpath => hfresh (hsound.path_visited b hpath)⟩
          · exact ⟨hsound.report hchain hnodup hb hpath, fun hnil => by simp [Search.report] at hnil,
              fun hnil => by simp [Search.report] at hnil⟩
          · refine ⟨hsound, hcycles, fun hnil c hc => ?_⟩
            rcases List.mem_append.1 hc with hc | hc
            · exact hdone hnil c hc
            · rw [List.mem_singleton.1 hc]
              exact ⟨hseen, hpath⟩) hvisit
      refine ⟨⟨fun a ha => hsound.path_visited a (List.mem_append_left _ ha), hsound.reachable,
        hsound.reported, fun hnil a ha hpath => ?_⟩, hcycles⟩
      by_cases hnode : a = node
      · subst hnode
        refine Acc.intro a fun b hb => ?_
        obtain ⟨hvisited, hoff⟩ := hdone hnil b hb
        exact hsound.finished hnil b hvisited hoff
      · refine hsound.finished hnil a ha ?_
        rw [List.mem_append, not_or]
        exact ⟨hpath, fun hmem => hnode (List.mem_singleton.1 hmem)⟩

/-- The search keeps the invariant, and visits all roots. -/
theorem sound_visitRoots (h : visitRoots next depth roots = some search) :
    Sound next roots [] search ∧ ∀ root ∈ roots, root ∈ search.visited := by
  refine foldlM_invariant
    (P := fun done s => Sound next roots [] s ∧ ∀ root ∈ done, root ∈ s.visited) ?_ ?_ h
  · exact ⟨⟨nofun, nofun, nofun, nofun⟩, nofun⟩
  · rintro done root s s' hroot ⟨hsound, hdone⟩ hstep
    by_cases hnew : root ∈ s.visited
    · rw [if_neg (not_not.2 hnew)] at hstep
      obtain rfl := Option.some.inj hstep
      refine ⟨hsound, fun a ha => ?_⟩
      rcases List.mem_append.1 ha with ha | ha
      · exact hdone a ha
      · rw [List.mem_singleton.1 ha]
        exact hnew
    · rw [if_pos hnew] at hstep
      have hgrows := visited_visit hstep
      refine ⟨(hsound.visit (List.IsChain.singleton _) List.nodup_nil hnew
        ⟨root, hroot, .refl⟩ hstep).1, fun a ha => ?_⟩
      rcases List.mem_append.1 ha with ha | ha
      · exact hgrows.1 (hdone a ha)
      · rw [List.mem_singleton.1 ha]
        exact hgrows.2

/-! ### What is reported -/

/-- **Every report is a closed walk** that can be reached. -/
theorem visitRoots_reported (h : visitRoots next depth roots = some search) :
    ∀ cycle ∈ search.cycles, ClosedWalk next cycle :=
  fun cycle hcycle => ((sound_visitRoots h).1.reported cycle hcycle).1

omit [DecidableEq α] in
theorem ClosedWalk.transGen {cycle : List α} (h : ClosedWalk next cycle) :
    ∃ a ∈ cycle, Relation.TransGen (Edge next) a a := by
  obtain ⟨a, inner, rfl, -, hchain⟩ := h
  refine ⟨a, List.mem_cons_self .., ?_⟩
  have hwalk : ∀ b, (b :: inner ++ [a]).IsChain (Edge next) → Relation.TransGen (Edge next) b a := by
    clear hchain
    induction inner with
    | nil =>
        intro b hb
        exact .single (List.isChain_cons_cons.1 hb).1
    | cons c inner ih =>
        intro b hb
        obtain ⟨hedge, hrest⟩ := List.isChain_cons_cons.1 hb
        exact (ih c hrest).head hedge
  exact hwalk a hchain

omit [DecidableEq α] in
theorem not_transGen_of_acc {a b : α} (h : Acc (fun b a => Edge next a b) a)
    (hab : Relation.ReflTransGen (Edge next) a b) : ¬Relation.TransGen (Edge next) b b := by
  have hb : Acc (fun b a => Edge next a b) b := by
    induction hab with
    | refl => exact h
    | tail _ hedge ih => exact ih.inv hedge
  clear hab
  induction hb with
  | intro b _ ih =>
      intro hcycle
      -- the first step of the cycle leads to a node with the same cycle
      obtain ⟨c, hedge, hback⟩ := Relation.TransGen.head'_iff.1 hcycle
      exact ih c hedge (Relation.TransGen.tail'_iff.2 ⟨b, hback, hedge⟩)

/-- **Nothing is reported exactly when no cycle can be reached.** -/
theorem visitRoots_nil_iff (h : visitRoots next depth roots = some search) :
    search.cycles = [] ↔
      ¬∃ a, Reachable next roots a ∧ Relation.TransGen (Edge next) a a := by
  obtain ⟨hsound, hvisited⟩ := sound_visitRoots h
  constructor
  · rintro hnil ⟨a, ⟨root, hroot, hto⟩, hcycle⟩
    have hacc := hsound.finished hnil root (hvisited root hroot) List.not_mem_nil
    exact not_transGen_of_acc hacc hto hcycle
  · intro hno
    refine List.eq_nil_iff_forall_not_mem.2 fun cycle hcycle => hno ?_
    obtain ⟨hclosed, hreachable⟩ := hsound.reported cycle hcycle
    obtain ⟨a, ha, hback⟩ := hclosed.transGen
    exact ⟨a, hreachable a ha, hback⟩

end Invariant

end DepthFirst
