/-
**Cycles of CALLs.**

`CobolApplication.detect_cycles` of `ir.py` with the depth of its recursion limited, as an
interpreter limits it: the search reports closed walks along the CALL edges, and reports none exactly
when no program unit leads to a cycle.

Main definitions:

* `detectCyclesWithin` — the search with a recursion limit;
* `Calls`, `CallCycle` — the edges that count, and what is to be reported.

Main results:

* `detectCyclesWithin_eq` — **the search ends** when the limit exceeds the number of edges;
* `detectCycles_exact` — **the cycles are reported exactly**.
-/

import CobolJava.Lib.DepthFirst
import CobolJava.Modernization.CapabilityReport

set_option autoImplicit false

namespace CobolJava.Modernization

/-! ### The search with a recursion limit -/

/-- `dfs` of `detect_cycles`; none when the recursion limit is exceeded. -/
def dfs (edges : List DependencyEdge) :
    ℕ → List String → String → CycleSearch → Option CycleSearch
  | 0, _, _, _ => none
  | depth + 1, above, node, search =>
      let recStack := above ++ [node]
      edges.foldlM (fun search edge =>
        if edge.source = node ∧ edge.isCall then
          if edge.target ∉ search.visited then dfs edges depth recStack edge.target search
          else if edge.target ∈ recStack then
            some { search with cycles := search.cycles ++
              [recStack.drop (recStack.idxOf edge.target) ++ [edge.target]] }
          else some search
        else some search) { search with visited := search.visited ++ [node] }

/-- `detect_cycles` with a recursion limit. -/
def detectCyclesWithin (depth : ℕ) (application : CobolApplication) :
    Option (List (List String)) :=
  (application.programs.foldlM (fun search unit =>
    if unit.programId ∉ search.visited then dfs application.edges depth [] unit.programId search
    else some search) ⟨[], []⟩).map CycleSearch.cycles

/-! ### Cycles -/

/-- A CALL edge leads from one name to another. -/
def Calls (application : CobolApplication) (source target : String) : Prop :=
  ∃ edge ∈ application.edges, edge.isCall = true ∧ edge.source = source ∧ edge.target = target

/-- **A cycle of CALLs**: a walk along CALL edges back to its first name, the names in between
different from it and from one another. -/
def CallCycle (application : CobolApplication) (cycle : List String) : Prop :=
  ∃ name inner, cycle = name :: inner ++ [name] ∧ (name :: inner).Nodup ∧
    cycle.IsChain (Calls application)

/-- Some name that a program unit leads to is on a cycle of CALLs. -/
def LeadsToCycle (application : CobolApplication) : Prop :=
  ∃ unit ∈ application.programs, ∃ name,
    Relation.ReflTransGen (Calls application) unit.programId name ∧
      Relation.TransGen (Calls application) name name

section Search

variable {edges : List DependencyEdge} {depth : ℕ}

/-- The names a program calls, in the order of the edges. -/
def callees (edges : List DependencyEdge) (node : String) : List String :=
  (edges.filter fun edge => edge.source = node ∧ edge.isCall).map DependencyEdge.target

theorem mem_callees {node target : String} : target ∈ callees edges node ↔
    ∃ edge ∈ edges, edge.isCall = true ∧ edge.source = node ∧ edge.target = target := by
  simp only [callees, List.mem_map, List.mem_filter, decide_eq_true_eq]
  constructor
  · rintro ⟨edge, ⟨hedge, hsource, hcall⟩, htarget⟩
    exact ⟨edge, hedge, hcall, hsource, htarget⟩
  · rintro ⟨edge, hedge, hcall, hsource, htarget⟩
    exact ⟨edge, ⟨hedge, hsource, hcall⟩, htarget⟩

/-- What the general search has done. -/
def CycleSearch.ofSearch (search : DepthFirst.Search String) : CycleSearch :=
  ⟨search.visited, search.cycles⟩

theorem foldlM_map_state {σ τ β : Type} {f : σ → β → Option σ} {g : τ → β → Option τ} {φ : τ → σ}
    (h : ∀ s x, f (φ s) x = (g s x).map φ) (xs : List β) (s : τ) :
    xs.foldlM f (φ s) = (xs.foldlM g s).map φ := by
  induction xs generalizing s with
  | nil => rfl
  | cons x xs ih =>
      rw [List.foldlM_cons, List.foldlM_cons, h]
      cases g s x with
      | none => rfl
      | some s' => exact ih s'

/-- **The search is a depth-first search** over the called programs. -/
theorem dfs_eq (above : List String) (node : String) (search : DepthFirst.Search String) :
    dfs edges depth above node (.ofSearch search) =
      (DepthFirst.visit (callees edges) depth above node search).map .ofSearch := by
  induction depth generalizing above node search with
  | zero => rfl
  | succ depth ih =>
      rw [dfs, DepthFirst.visit_succ, callees, List.foldlM_map, List.foldlM_filter]
      refine foldlM_map_state (φ := CycleSearch.ofSearch) (fun search edge => ?_) edges
        ⟨search.visited ++ [node], search.cycles⟩
      by_cases hcall : edge.source = node ∧ edge.isCall
      · have hdecided : decide (edge.source = node ∧ edge.isCall = true) = true :=
          decide_eq_true hcall
        rw [if_pos hcall, if_pos hdecided]
        unfold DepthFirst.explore
        by_cases hnew : edge.target ∈ search.visited
        · have hnew' : edge.target ∈ (CycleSearch.ofSearch search).visited := hnew
          rw [if_neg (not_not.2 hnew), if_neg (not_not.2 hnew')]
          by_cases hpath : edge.target ∈ above ++ [node]
          · rw [if_pos hpath, if_pos hpath]
            rfl
          · rw [if_neg hpath, if_neg hpath]
            rfl
        · have hnew' : edge.target ∉ (CycleSearch.ofSearch search).visited := hnew
          rw [if_pos hnew, if_pos hnew']
          exact ih ..
      · have hdecided : ¬decide (edge.source = node ∧ edge.isCall = true) = true := by
          rwa [decide_eq_true_eq]
        rw [if_neg hcall, if_neg hdecided]
        rfl

theorem visit_of_dfs {above : List String} {node : String} {search search' : CycleSearch}
    (h : dfs edges depth above node search = some search') :
    visit edges depth above node search = search' := by
  induction depth generalizing above node search search' with
  | zero => cases h
  | succ depth ih =>
      rw [dfs] at h
      rw [visit]
      refine DepthFirst.foldlM_invariant (s := ⟨search.visited ++ [node], search.cycles⟩)
        (P := fun done s => done.foldl _ _ = s) rfl (fun done edge s s' _ hs hstep => ?_) h
      rw [List.foldl_concat, hs]
      split_ifs at hstep ⊢
      · exact Option.some.inj hstep
      · exact Option.some.inj hstep
      · exact ih hstep
      · exact Option.some.inj hstep

def calledNames (edges : List DependencyEdge) : Finset String :=
  (edges.map DependencyEdge.target).toFinset

theorem card_calledNames_le : (calledNames edges).card ≤ edges.length := by
  have hcard := List.toFinset_card_le (edges.map DependencyEdge.target)
  rwa [List.length_map] at hcard

theorem mem_calledNames (node : String) : ∀ target ∈ callees edges node,
    target ∈ calledNames edges := by
  intro target htarget
  obtain ⟨edge, hedge, -, -, rfl⟩ := mem_callees.1 htarget
  exact List.mem_toFinset.2 (List.mem_map_of_mem hedge)

end Search

/-! ### What is reported -/

section Cycles

variable {application : CobolApplication} {depth : ℕ}

theorem edge_callees (source target : String) :
    DepthFirst.Edge (callees application.edges) source target ↔ Calls application source target :=
  mem_callees

/-- The search over an application. -/
theorem detectCyclesWithin_eq_map (depth : ℕ) (application : CobolApplication) :
    detectCyclesWithin depth application =
      (DepthFirst.visitRoots (callees application.edges) depth
        (application.programs.map CobolProgramUnit.programId)).map DepthFirst.Search.cycles := by
  have hloop := foldlM_map_state (φ := CycleSearch.ofSearch)
    (f := fun search (unit : CobolProgramUnit) =>
      if unit.programId ∉ search.visited then dfs application.edges depth [] unit.programId search
      else some search)
    (g := fun search unit =>
      if unit.programId ∉ search.visited then
        DepthFirst.visit (callees application.edges) depth [] unit.programId search
      else some search) (fun search unit => by
        by_cases hnew : unit.programId ∈ search.visited
        · have hnew' : unit.programId ∈ (CycleSearch.ofSearch search).visited := hnew
          rw [if_neg (not_not.2 hnew), if_neg (not_not.2 hnew')]
          rfl
        · have hnew' : unit.programId ∉ (CycleSearch.ofSearch search).visited := hnew
          rw [if_pos hnew, if_pos hnew', dfs_eq]) application.programs ⟨[], []⟩
  rw [detectCyclesWithin, DepthFirst.visitRoots, List.foldlM_map]
  have hstart : CycleSearch.ofSearch ⟨[], []⟩ = ⟨[], []⟩ := rfl
  rw [hstart] at hloop
  rw [hloop, Option.map_map]
  rfl

theorem detectCycles_of_within {cycles : List (List String)}
    (h : detectCyclesWithin (application.edges.length + 1) application = some cycles) :
    detectCycles application = cycles := by
  obtain ⟨search, hsearch, rfl⟩ := Option.map_eq_some_iff.1 h
  rw [detectCycles]
  congr 1
  refine DepthFirst.foldlM_invariant (P := fun done s => done.foldl _ ⟨[], []⟩ = s) rfl
    (fun done unit s s' _ hs hstep => ?_) hsearch
  rw [List.foldl_concat, hs]
  by_cases hnew : unit.programId ∈ s.visited
  · rw [if_neg (not_not.2 hnew)] at hstep ⊢
    exact Option.some.inj hstep
  · rw [if_pos hnew] at hstep ⊢
    exact visit_of_dfs hstep

/-- **The search ends** when the recursion limit exceeds the number of edges, and is the one of the
report. -/
theorem detectCyclesWithin_eq (hdepth : application.edges.length < depth) :
    ∃ search, DepthFirst.visitRoots (callees application.edges) depth
        (application.programs.map CobolProgramUnit.programId) = some search ∧
      detectCyclesWithin depth application = some search.cycles ∧
      detectCycles application = search.cycles := by
  have hcard : (calledNames application.edges).card < application.edges.length + 1 :=
    Nat.lt_succ_of_le card_calledNames_le
  obtain ⟨search, hsearch⟩ := DepthFirst.exists_visitRoots mem_calledNames hcard
    (application.programs.map CobolProgramUnit.programId)
  have hdeeper := DepthFirst.visitRoots_mono hsearch hdepth
  refine ⟨search, hdeeper, ?_, detectCycles_of_within ?_⟩
  · rw [detectCyclesWithin_eq_map, hdeeper]
    rfl
  · rw [detectCyclesWithin_eq_map, hsearch]
    rfl

/-- **The cycles of CALLs are reported exactly**: within any recursion limit above the number of
edges the search ends; what it reports are cycles of CALLs; and it reports none exactly when no
program unit leads to one. -/
theorem detectCycles_exact (application : CobolApplication) :
    (∀ depth, application.edges.length < depth →
      detectCyclesWithin depth application = some (detectCycles application)) ∧
    (∀ cycle ∈ detectCycles application, CallCycle application cycle) ∧
    (detectCycles application = [] ↔ ¬LeadsToCycle application) := by
  have hedge : DepthFirst.Edge (callees application.edges) = Calls application :=
    funext fun source => funext fun target => propext (edge_callees source target)
  obtain ⟨search, hsearch, -, hcycles⟩ := detectCyclesWithin_eq (Nat.lt_succ_self application.edges.length)
  refine ⟨fun depth hdepth => ?_, fun cycle hcycle => ?_, ?_⟩
  · obtain ⟨search', -, hwithin, hcycles'⟩ := detectCyclesWithin_eq hdepth
    rw [hwithin, hcycles']
  · rw [hcycles] at hcycle
    have hclosed := DepthFirst.visitRoots_reported hsearch cycle hcycle
    unfold DepthFirst.ClosedWalk at hclosed
    rwa [hedge] at hclosed
  · have hnil := DepthFirst.visitRoots_nil_iff hsearch
    rw [hcycles, hnil]
    refine not_congr ⟨?_, ?_⟩
    · rintro ⟨name, ⟨root, hroot, hto⟩, hback⟩
      obtain ⟨unit, hunit, rfl⟩ := List.mem_map.1 hroot
      rw [hedge] at hto hback
      exact ⟨unit, hunit, name, hto, hback⟩
    · rintro ⟨unit, hunit, name, hto, hback⟩
      rw [← hedge] at hto hback
      exact ⟨name, ⟨unit.programId, List.mem_map_of_mem hunit, hto⟩, hback⟩

end Cycles

end CobolJava.Modernization
