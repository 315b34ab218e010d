/-
**Host variables of a statement, and the columns delivered to them.**

The host variables that the analyser reads off an SQL text (`_host_variables`, `_into_span` of
`analyzer.py`, `output_host_variables` of `model.py`), and how a row of a `SELECT … INTO` or of a
`FETCH` is bound to those of the `INTO` clause (`_capture_outputs`, `_fetch_cursor` of
`execution.py`).

Main definitions:

* `hostVariables`, `outputHostVariables` — the analysis;
* `captureOutputs`, `fetchOutputs` — the bindings of a row;
* `Target`, `targetOutputs` — an `INTO` list, and the bindings that it asks for;
* `DeliversSelect`, `DeliversFetch` — every row is bound as the list asks for;
* `Aligned` — the variables of the clause are in the order of the list, and their indicators too.

Main results:

* `outputHostVariables_eq` — the output variables, read off the text;
* `deliversColumns` — **when column `i` is delivered to target `i`**.
-/

import Mathlib.Data.List.Sort
import Mathlib.Logic.Function.Basic
import CobolJava.Lib.KeptFirst
import CobolJava.Lib.ReachingWriter
import CobolJava.Sql.Translation

set_option autoImplicit false

namespace CobolJava.Sql

/-! ### The analysis -/

/-- A host variable, without its `:`. -/
abbrev HostName := List Char

/-- `_HOST_VAR_RE.finditer`: the positions and names from a position on.  A match has no `:` behind
its first character, so that matches do not overlap. -/
def hostMatches : ℕ → List Char → List (ℕ × HostName)
  | _, [] => []
  | i, c :: rest =>
      match hostName (c :: rest) with
      | some name => (i, name) :: hostMatches (i + 1) rest
      | none => hostMatches (i + 1) rest

/-- `_INDICATOR_PAIR_RE.finditer`; the first `skip` characters belong to the match before. -/
def pairMatches : ℕ → List Char → List (HostName × HostName)
  | _, [] => []
  | skip + 1, _ :: rest => pairMatches skip rest
  | 0, c :: rest =>
      match hostReference (c :: rest) with
      | some ((name, d :: indicator), length) =>
          (name, d :: indicator) :: pairMatches (length - 1) rest
      | _ => pairMatches 0 rest

/-- `_into_span` -/
def intoSpan (raw : List Char) : Option (ℕ × ℕ) :=
  (findWord "INTO".toList false raw).map fun found =>
    (found.1.length,
      match findWord "FROM".toList false (found.2.drop 4) with
      | some found' => found.1.length + 4 + found'.1.length
      | none => raw.length)

inductive Db2BindingDirection
  | input | output | inOut
deriving DecidableEq

/-- The role of one more occurrence of a name. -/
def recordRole (direction : List (HostName × Db2BindingDirection)) (name : HostName)
    (role : Db2BindingDirection) : List (HostName × Db2BindingDirection) :=
  match direction.lookup name with
  | none => direction ++ [(name, role)]
  | some current =>
      if current ≠ role then
        direction.map fun e => if e.1 = name then (name, .inOut) else e
      else direction

/-- The role of an occurrence: output in the `INTO` clause. -/
def roleAt (span : Option (ℕ × ℕ)) (position : ℕ) : Db2BindingDirection :=
  if span.any fun s => s.1 ≤ position && position < s.2 then .output else .input

/-- A host variable as the analyser describes it; `[]` is no indicator. -/
structure SqlHostVariableSemantic where
  name : HostName
  direction : Db2BindingDirection
  indicator : HostName
deriving DecidableEq

/-- `_host_variables` of a statement with an `INTO` clause. -/
def hostVariables (raw : List Char) : List SqlHostVariableSemantic :=
  let found := hostMatches 0 raw
  let span := intoSpan raw
  let direction := found.foldl (fun direction m => recordRole direction m.2 (roleAt span m.1)) []
  let position (name : HostName) : ℕ :=
    ((found.find? fun m => m.2 = name).map Prod.fst).getD raw.length
  let ordered := direction.insertionSort fun a b => position a.1 ≤ position b.1
  ordered.map fun e => ⟨e.1, e.2, ((pairMatches 0 raw).lookup e.1).getD []⟩

/-- `output_host_variables` -/
def outputHostVariables (vars : List SqlHostVariableSemantic) : List HostName :=
  (vars.filter fun v => v.direction = .output || v.direction = .inOut).map
    SqlHostVariableSemantic.name

/-! ### The bindings of a row -/

/-- A value of a row; `β` are those that are neither null nor integers. -/
inductive SqlValue (β : Type)
  | null
  | integer (n : ℤ)
  | other (b : β)
deriving DecidableEq

attribute [grind =] hostMatches pairMatches

variable {β : Type}

/-- The value of an indicator: -1 for null, and otherwise 0. -/
def SqlValue.flag : SqlValue β → SqlValue β
  | .null => .integer (-1)
  | _ => .integer 0

abbrev Outputs (β : Type) := HostName → Option (SqlValue β)

/-- The first indicator of a variable. -/
def indicatorOf (vars : List SqlHostVariableSemantic) (name : HostName) : Option HostName :=
  (vars.find? fun v => v.name = name && v.indicator ≠ []).map SqlHostVariableSemantic.indicator

/-- A column bound to a variable, and its flag to an indicator. -/
def bindColumn (name : HostName) (indicator : Option HostName) (value : SqlValue β)
    (outputs : Outputs β) : Outputs β :=
  let outputs := Function.update outputs name (some value)
  match indicator with
  | some ind => Function.update outputs ind (some value.flag)
  | none => outputs

/-- The loop of `_capture_outputs` over the output variables and the row. -/
def captureFrom (indicator : HostName → Option HostName) :
    List HostName → List (SqlValue β) → Outputs β → Outputs β
  | name :: names, value :: row, outputs =>
      captureFrom indicator names row (bindColumn name (indicator name) value outputs)
  | _, _, outputs => outputs

/-- `_capture_outputs` -/
def captureOutputs (vars : List SqlHostVariableSemantic) (row : List (SqlValue β)) :
    Outputs β :=
  captureFrom (indicatorOf vars) (outputHostVariables vars) row fun _ => none

/-- The outputs of `_fetch_cursor`. -/
def fetchOutputs (vars : List SqlHostVariableSemantic) (row : List (SqlValue β)) : Outputs β :=
  captureFrom (fun _ => none) (outputHostVariables vars) row fun _ => none

/-! ### What the `INTO` list asks for -/

/-- A variable of an `INTO` list, with or without an indicator. -/
structure Target where
  name : HostName
  indicator : Option HostName
deriving DecidableEq

/-- The bindings that a list asks for: each column to its target, and its flag to the indicator. -/
def targetOutputs : List Target → List (SqlValue β) → Outputs β → Outputs β
  | target :: targets, value :: row, outputs =>
      targetOutputs targets row (bindColumn target.name target.indicator value outputs)
  | _, _, outputs => outputs

/-- **Every row of a `SELECT` is bound as its `INTO` list asks for.** -/
def DeliversSelect (β : Type) (raw : List Char) (targets : List Target) : Prop :=
  ∀ row : List (SqlValue β), row.length = targets.length →
    captureOutputs (hostVariables raw) row = targetOutputs targets row fun _ => none

/-- **Every row of a `FETCH` is bound as its `INTO` list asks for.** -/
def DeliversFetch (β : Type) (raw : List Char) (targets : List Target) : Prop :=
  ∀ row : List (SqlValue β), row.length = targets.length →
    fetchOutputs (hostVariables raw) row = targetOutputs targets row fun _ => none

/-- The host variables of a text, each where it first occurs. -/
def distinctNames (raw : List Char) : List HostName :=
  Kept.keepFirst id ((hostMatches 0 raw).map Prod.snd)

/-- A name occurs between the first `INTO` and the first `FROM` behind it. -/
def inClause (raw : List Char) (name : HostName) : Bool :=
  (hostMatches 0 raw).any fun m => m.2 = name && roleAt (intoSpan raw) m.1 = .output

/-- The first indicator that a text gives a variable. -/
def firstIndicator (raw : List Char) (name : HostName) : Option HostName :=
  (pairMatches 0 raw).lookup name

/-- The indicators of a list are given, and what else is given is bound again behind. -/
structure Indicated (indicator : HostName → Option HostName) (targets : List Target) : Prop where
  own : ∀ target ∈ targets, ∀ ind ∈ target.indicator, indicator target.name = some ind
  others : ∀ before target behind, targets = before ++ target :: behind →
    ∀ ind ∈ indicator target.name, target.indicator = some ind ∨
      ∃ later ∈ behind, later.name = ind ∨ later.indicator = some ind

/-- **Variables in the order of the list**: of the names of the clause, in the order in which they
first occur in the text, the first are the targets, and they have the indicators of the list. -/
structure Aligned (raw : List Char) (indicator : HostName → Option HostName)
    (targets : List Target) : Prop where
  names : ((distinctNames raw).filter (inClause raw)).take targets.length = targets.map Target.name
  indicators : Indicated indicator targets

/-- The names that a target writes. -/
def Target.written (target : Target) : List HostName :=
  target.name :: target.indicator.toList

attribute [grind =] captureFrom targetOutputs

theorem Target.mem_written {target : Target} {x : HostName} :
    x ∈ target.written ↔ target.name = x ∨ target.indicator = some x := by
  rw [written, List.mem_cons, Option.mem_toList, eq_comm]

def targetNames (targets : List Target) : List HostName :=
  targets.flatMap Target.written

/-! ### Bindings as writes -/

/-- What is written to a name: a column, or its flag. -/
inductive Source (γ : Type)
  | column (c : γ)
  | flag (c : γ)

namespace Source

def map {γ δ : Type} (f : γ → δ) : Source γ → Source δ
  | .column c => .column (f c)
  | .flag c => .flag (f c)

def value : Source (SqlValue β) → SqlValue β
  | .column v => v
  | .flag v => v.flag

/-- The time of a write: a column is written before its flag. -/
def time : Source ℕ → ℕ
  | .column j => 2 * j
  | .flag j => 2 * j + 1

end Source

/-- The writes of names with their indicators, over some columns. -/
def deliveries {γ : Type} : List (HostName × Option HostName) → List γ → List (HostName × Source γ)
  | (name, ind) :: steps, c :: cs =>
      (name, .column c) :: (ind.toList.map fun y => (y, Source.flag c)) ++ deliveries steps cs
  | _, _ => []

def lastTo {γ : Type} (x : HostName) (writes : List (HostName × Source γ)) :
    Option (HostName × Source γ) :=
  ReachingWriter.lastWriter (fun w => w.1 = x) writes

attribute [grind =] deliveries

section Writes

variable {γ δ : Type} {x : HostName} {steps : List (HostName × Option HostName)} {cs : List γ}

theorem lastTo_append (front back : List (HostName × Source γ)) :
    lastTo x (front ++ back) = (lastTo x back).or (lastTo x front) :=
  ReachingWriter.lastWriter_append ..

theorem lastTo_cons (w : HostName × Source γ) (ws : List (HostName × Source γ)) :
    lastTo x (w :: ws) = (lastTo x ws).or (if w.1 = x then some w else none) := by
  rw [← List.singleton_append, lastTo_append]
  congr 1
  by_cases hw : w.1 = x <;> simp [lastTo, ReachingWriter.lastWriter, hw]

theorem lastTo_map (f : γ → δ) (writes : List (HostName × Source γ)) :
    lastTo x (writes.map fun w => (w.1, w.2.map f)) =
      (lastTo x writes).map fun w => (w.1, w.2.map f) := by
  rw [lastTo, ReachingWriter.lastWriter, ← List.map_reverse, List.find?_map]
  rfl

theorem deliveries_map (f : γ → δ) (steps : List (HostName × Option HostName)) (cs : List γ) :
    deliveries steps (cs.map f) = (deliveries steps cs).map fun w => (w.1, w.2.map f) := by
  induction steps generalizing cs with
  | nil => rfl
  | cons step steps ih =>
      obtain ⟨name, ind⟩ := step
      cases cs with
      | nil => rfl
      | cons c cs =>
          rw [List.map_cons, deliveries, deliveries, ih]
          cases ind <;> simp [Source.map]

theorem deliveries_take (steps : List (HostName × Option HostName)) (cs : List γ) :
    deliveries steps cs = deliveries (steps.take cs.length) cs := by
  induction steps generalizing cs with
  | nil => simp
  | cons step steps ih =>
      obtain ⟨name, ind⟩ := step
      cases cs with
      | nil => rfl
      | cons c cs => rw [List.length_cons, List.take_succ_cons, deliveries, deliveries, ih]

/-- **A write is one of a name of the list, or of its indicator, in the place of the name.** -/
theorem mem_deliveries {s : Source γ} : (x, s) ∈ deliveries steps cs ↔
    ∃ (j : ℕ) (name : HostName) (ind : Option HostName) (c : γ), steps[j]? = some (name, ind) ∧
      cs[j]? = some c ∧ ((x = name ∧ s = .column c) ∨ (ind = some x ∧ s = .flag c)) := by
  induction steps generalizing cs with
  | nil => simp [deliveries]
  | cons step steps ih =>
      obtain ⟨name, ind⟩ := step
      cases cs with
      | nil => simp [deliveries]
      | cons c cs =>
          rw [deliveries, List.cons_append, List.mem_cons, List.mem_append, ih]
          constructor
          · rintro (heq | hflag | ⟨j, name', ind', c', hstep, hc, hwrite⟩)
            · cases heq
              exact ⟨0, _, ind, _, rfl, rfl, Or.inl ⟨rfl, rfl⟩⟩
            · obtain ⟨y, hy, heq⟩ := List.mem_map.1 hflag
              cases heq
              exact ⟨0, name, ind, _, rfl, rfl, Or.inr ⟨Option.mem_toList.1 hy, rfl⟩⟩
            · exact ⟨j + 1, name', ind', c', hstep, hc, hwrite⟩
          · rintro ⟨j, name', ind', c', hstep, hc, hwrite⟩
            cases j with
            | zero =>
                cases hstep
                cases hc
                rcases hwrite with ⟨rfl, rfl⟩ | ⟨rfl, rfl⟩
                · exact Or.inl rfl
                · exact Or.inr (Or.inl (by simp))
            | succ j => exact Or.inr (Or.inr ⟨j, name', ind', c', hstep, hc, hwrite⟩)

theorem lastTo_deliveries_cons (name : HostName) (ind : Option HostName) (c : γ) :
    lastTo x (deliveries ((name, ind) :: steps) (c :: cs)) =
      (lastTo x (deliveries steps cs)).or
        ((if ind = some x then some (x, .flag c) else none).or
          (if name = x then some (x, .column c) else none)) := by
  rw [deliveries, List.cons_append, lastTo_cons, lastTo_append, Option.or_assoc]
  congr 2
  · cases ind with
    | none => rfl
    | some y =>
        by_cases hy : y = x
        · simp [lastTo, ReachingWriter.lastWriter, hy]
        · simp [lastTo, ReachingWriter.lastWriter, hy]
  · by_cases hname : name = x
    · simp [hname]
    · simp [hname]

/-- The outputs of a row are those of the last writes. -/
def outputsOf (steps : List (HostName × Option HostName)) (row : List (SqlValue β)) : Outputs β :=
  fun x => (lastTo x (deliveries steps row)).map fun w => w.2.value

theorem bindColumn_apply (name : HostName) (ind : Option HostName) (value : SqlValue β)
    (outputs : Outputs β) (x : HostName) :
    bindColumn name ind value outputs x =
      ((if ind = some x then some value.flag else none).or
        (if name = x then some value else none)).or (outputs x) := by
  have hcolumn : Function.update outputs name (some value) x =
      (if name = x then some value else none).or (outputs x) := by
    by_cases hname : name = x
    · rw [if_pos hname, hname, Function.update_self]
      rfl
    · rw [if_neg hname, Function.update_of_ne (Ne.symm hname)]
      rfl
  cases ind with
  | none => simpa [bindColumn] using hcolumn
  | some y =>
      by_cases hy : y = x
      · simp [bindColumn, hy]
      · simpa [bindColumn, hy, Function.update_of_ne (Ne.symm hy)] using hcolumn

theorem outputsOf_cons (name : HostName) (ind : Option HostName) (value : SqlValue β)
    (row : List (SqlValue β)) (outputs : Outputs β) (x : HostName) :
    (outputsOf ((name, ind) :: steps) (value :: row) x).or (outputs x) =
      (outputsOf steps row x).or (bindColumn name ind value outputs x) := by
  rw [outputsOf, lastTo_deliveries_cons, bindColumn_apply, outputsOf, Option.map_or,
    Option.or_assoc]
  congr 2
  rw [Option.map_or]
  congr 1
  · split <;> rfl
  · split <;> rfl

theorem captureFrom_eq (indicator : HostName → Option HostName) (names : List HostName)
    (row : List (SqlValue β)) (outputs : Outputs β) (x : HostName) :
    captureFrom indicator names row outputs x =
      (outputsOf (names.map fun name => (name, indicator name)) row x).or (outputs x) := by
  induction names generalizing row outputs with
  | nil => rfl
  | cons name names ih =>
      cases row with
      | nil => rfl
      | cons value row => rw [captureFrom, ih, List.map_cons, outputsOf_cons]

theorem targetOutputs_eq (targets : List Target) (row : List (SqlValue β)) (outputs : Outputs β)
    (x : HostName) :
    targetOutputs targets row outputs x =
      (outputsOf (targets.map fun target => (target.name, target.indicator)) row x).or
        (outputs x) := by
  induction targets generalizing row outputs with
  | nil => rfl
  | cons target targets ih =>
      cases row with
      | nil => rfl
      | cons value row => rw [targetOutputs, ih, List.map_cons, outputsOf_cons]

/-! ### Rows and places -/

def Source.at (v : ℕ → SqlValue β) (s : Source ℕ) : SqlValue β :=
  (s.map v).value

theorem outputsOf_range (steps : List (HostName × Option HostName)) (n : ℕ) (v : ℕ → SqlValue β)
    (x : HostName) :
    outputsOf steps ((List.range n).map v) x =
      (lastTo x (deliveries steps (List.range n))).map fun w => w.2.at v := by
  rw [outputsOf, deliveries_map, lastTo_map, Option.map_map]
  rfl

theorem Source.eq_of_at {s s' : Source ℕ} (h : ∀ v : ℕ → SqlValue β, s.at v = s'.at v) :
    s = s' := by
  have hcount := h fun i => .integer (i + 1)
  cases s with
  | column i =>
      cases s' with
      | column j =>
          simp only [Source.at, map, value, SqlValue.integer.injEq] at hcount
          have : i = j := by omega
          rw [this]
      | flag j =>
          simp only [Source.at, map, value, SqlValue.flag, SqlValue.integer.injEq] at hcount
          omega
  | flag i =>
      cases s' with
      | column j =>
          simp only [Source.at, map, value, SqlValue.flag, SqlValue.integer.injEq] at hcount
          omega
      | flag j =>
          by_contra hne
          have hij : j ≠ i := fun heq => hne (by rw [heq])
          have hnull := h fun k => if k = i then .null else .integer 0
          simp [Source.at, map, value, SqlValue.flag, hij] at hnull

theorem fst_of_lastTo {writes : List (HostName × Source γ)} {w : HostName × Source γ}
    (h : lastTo x writes = some w) : w.1 = x := by
  simpa using List.find?_some h

theorem mem_of_lastTo {writes : List (HostName × Source γ)} {w : HostName × Source γ}
    (h : lastTo x writes = some w) : w ∈ writes :=
  List.mem_reverse.1 (List.mem_of_find?_eq_some h)

/-- The writes follow the places. -/
theorem deliveries_sorted {cs : List ℕ} (hcs : cs.Pairwise (· < ·)) :
    (deliveries steps cs).Pairwise fun w w' => w.2.time < w'.2.time := by
  induction steps generalizing cs with
  | nil => exact List.Pairwise.nil
  | cons step steps ih =>
      obtain ⟨name, ind⟩ := step
      cases cs with
      | nil => exact List.Pairwise.nil
      | cons c cs =>
          obtain ⟨hhead, htail⟩ := List.pairwise_cons.1 hcs
          have hlater : ∀ w ∈ deliveries steps cs, 2 * c + 1 < w.2.time := by
            rintro ⟨y, s⟩ hw
            obtain ⟨j, _, _, d, -, hd, hwrite⟩ := mem_deliveries.1 hw
            have hlt := hhead d (List.mem_of_getElem? hd)
            rcases hwrite with ⟨-, rfl⟩ | ⟨-, rfl⟩ <;> simp only [Source.time] <;> omega
          rw [deliveries, List.cons_append, List.pairwise_cons, List.pairwise_append]
          refine ⟨?_, ?_, ih htail, ?_⟩
          · intro w hw
            rcases List.mem_append.1 hw with hflag | hrest
            · obtain ⟨y, -, rfl⟩ := List.mem_map.1 hflag
              exact Nat.lt_succ_self _
            · exact lt_trans (Nat.lt_succ_self _) (hlater w hrest)
          · cases ind with
            | none => exact List.Pairwise.nil
            | some y => exact List.pairwise_singleton ..
          · intro w hw w' hw'
            obtain ⟨y, -, rfl⟩ := List.mem_map.1 hw
            exact hlater w' hw'

/-- Nothing is written to a name after the last write to it. -/
theorem time_le_of_lastTo {writes : List (HostName × Source ℕ)} {w w' : HostName × Source ℕ}
    (hsorted : writes.Pairwise fun w w' => w.2.time < w'.2.time) (hlast : lastTo x writes = some w)
    (hmem : w' ∈ writes) (hx : w'.1 = x) : w'.2.time ≤ w.2.time := by
  induction writes with
  | nil => cases hmem
  | cons v vs ih =>
      obtain ⟨hhead, htail⟩ := List.pairwise_cons.1 hsorted
      rw [lastTo_cons] at hlast
      cases hrest : lastTo x vs with
      | some u =>
          rw [hrest, Option.some_or, Option.some.injEq] at hlast
          subst hlast
          rcases List.mem_cons.1 hmem with rfl | hmem
          · exact (hhead u (mem_of_lastTo hrest)).le
          · exact ih htail hrest hmem
      | none =>
          have hnone := ReachingWriter.lastWriter_eq_none_iff.1 hrest
          rcases List.mem_cons.1 hmem with rfl | hmem
          · rw [hrest, if_pos hx, Option.none_or, Option.some.injEq] at hlast
            rw [hlast]
          · exact absurd hx (hnone w' hmem)

theorem exists_row (row : List (SqlValue β)) :
    ∃ v : ℕ → SqlValue β, row = (List.range row.length).map v := by
  refine ⟨fun i => row.getD i .null, List.ext_getElem (by simp) fun i hi _ => ?_⟩
  simp [List.getD_eq_getElem?_getD, hi]

/-- **Rows are bound alike exactly when the last writes are alike.** -/
theorem forall_outputsOf_iff (steps steps' : List (HostName × Option HostName)) (n : ℕ) :
    (∀ row : List (SqlValue β), row.length = n → outputsOf steps row = outputsOf steps' row) ↔
      ∀ x, lastTo x (deliveries steps (List.range n)) =
        lastTo x (deliveries steps' (List.range n)) := by
  constructor
  · intro h x
    have hvalues (v : ℕ → SqlValue β) :
        (lastTo x (deliveries steps (List.range n))).map (fun w => w.2.at v) =
          (lastTo x (deliveries steps' (List.range n))).map fun w => w.2.at v := by
      rw [← outputsOf_range, ← outputsOf_range, h _ (by simp)]
    cases hlast : lastTo x (deliveries steps (List.range n)) with
    | none =>
        have hnone := hvalues fun _ => .null
        rw [hlast, Option.map_none, eq_comm, Option.map_eq_none_iff] at hnone
        exact hnone.symm
    | some w =>
        cases hlast' : lastTo x (deliveries steps' (List.range n)) with
        | none =>
            have hnone := hvalues fun _ => .null
            rw [hlast, hlast'] at hnone
            cases hnone
        | some w' =>
            rw [hlast, hlast'] at hvalues
            have hsource : w.2 = w'.2 := Source.eq_of_at fun v => Option.some.inj (hvalues v)
            rw [Prod.ext ((fst_of_lastTo hlast).trans (fst_of_lastTo hlast').symm) hsource]
  · rintro h row rfl
    obtain ⟨v, hv⟩ := exists_row row
    funext x
    rw [hv, outputsOf_range, outputsOf_range, h x]

end Writes

/-! ### Lists in order -/

section Alignment

variable {names : List HostName} {indicator : HostName → Option HostName} {targets : List Target}

/-- The bindings of variables with the indicators that a text gives them. -/
def stepsOf (indicator : HostName → Option HostName) (names : List HostName) :
    List (HostName × Option HostName) :=
  names.map fun name => (name, indicator name)

def stepsOfTargets (targets : List Target) : List (HostName × Option HostName) :=
  targets.map fun target => (target.name, target.indicator)

theorem lastTo_ne_none {γ : Type} {x : HostName} {target : Target} {cs : List γ}
    (hmem : target ∈ targets) (hlength : cs.length = targets.length)
    (hx : target.name = x ∨ target.indicator = some x) :
    lastTo x (deliveries (stepsOfTargets targets) cs) ≠ none := by
  rw [lastTo, ne_eq, ReachingWriter.lastWriter_eq_none_iff]
  intro hnone
  obtain ⟨j, hj⟩ := List.getElem?_of_mem hmem
  obtain ⟨hlt, -⟩ := List.getElem?_eq_some_iff.1 hj
  have hstep : (stepsOfTargets targets)[j]? = some (target.name, target.indicator) := by
    rw [stepsOfTargets, List.getElem?_map, hj]
    rfl
  have hc : cs[j]? = some cs[j] := List.getElem?_eq_getElem (by omega)
  rcases hx with hx | hx
  · exact hnone _ (mem_deliveries.2 ⟨j, _, _, _, hstep, hc, Or.inl ⟨hx.symm, rfl⟩⟩) rfl
  · exact hnone _ (mem_deliveries.2 ⟨j, _, _, _, hstep, hc, Or.inr ⟨hx, rfl⟩⟩) rfl

/-- **The writes that a text gives more are all written again.** -/
theorem lastTo_of_indicated {γ : Type} (h : Indicated indicator targets) (cs : List γ)
    (hlength : cs.length = targets.length) (x : HostName) :
    lastTo x (deliveries (stepsOf indicator (targets.map Target.name)) cs) =
      lastTo x (deliveries (stepsOfTargets targets) cs) := by
  induction targets generalizing cs with
  | nil => rfl
  | cons target targets ih =>
      obtain ⟨c, cs, rfl⟩ : ∃ c cs', cs = c :: cs' := List.exists_cons_of_length_eq_add_one hlength
      have hrest : cs.length = targets.length := by simpa using hlength
      have htail : Indicated indicator targets :=
        ⟨fun t ht => h.own t (List.mem_cons_of_mem _ ht), fun before t behind heq =>
          h.others (target :: before) t behind (by rw [heq]; rfl)⟩
      have hsteps : stepsOf indicator ((target :: targets).map Target.name) =
          (target.name, indicator target.name) :: stepsOf indicator (targets.map Target.name) := rfl
      have hsteps' : stepsOfTargets (target :: targets) =
          (target.name, target.indicator) :: stepsOfTargets targets := rfl
      rw [hsteps, hsteps', lastTo_deliveries_cons, lastTo_deliveries_cons, ih htail cs hrest]
      cases hlast : lastTo x (deliveries (stepsOfTargets targets) cs) with
      | some w => rfl
      | none =>
          -- nothing behind writes the name, so the flag of the text is that of the list
          have hflag : indicator target.name = some x ↔ target.indicator = some x := by
            constructor
            · intro hgiven
              rcases h.others [] target targets rfl x hgiven with hown | ⟨later, hlater, hx⟩
              · exact hown
              · exact absurd hlast (lastTo_ne_none hlater hrest hx)
            · exact fun hown => h.own target List.mem_cons_self x hown
          simp only [hflag]

theorem place_unique (hnodup : (targetNames targets).Nodup) {i j : ℕ} {t t' : Target} {x : HostName}
    (hi : targets[i]? = some t) (hj : targets[j]? = some t') (hx : x ∈ t.written)
    (hx' : x ∈ t'.written) : i = j := by
  have hdisjoint := (List.nodup_flatMap.1 hnodup).2
  rw [List.pairwise_iff_getElem] at hdisjoint
  obtain ⟨hilt, rfl⟩ := List.getElem?_eq_some_iff.1 hi
  obtain ⟨hjlt, rfl⟩ := List.getElem?_eq_some_iff.1 hj
  rcases Nat.lt_trichotomy i j with hlt | heq | hlt
  · exact absurd hx' (hdisjoint i j hilt hjlt hlt hx)
  · exact heq
  · exact absurd hx (hdisjoint j i hjlt hilt hlt hx')

theorem name_ne_indicator (hnodup : (targetNames targets).Nodup) {t : Target} (ht : t ∈ targets) :
    t.indicator ≠ some t.name := by
  have hone := (List.nodup_flatMap.1 hnodup).1 t ht
  intro hind
  rw [Target.written, hind] at hone
  simp at hone

theorem mem_deliveries_targets {x : HostName} {s : Source ℕ} {n : ℕ}
    (h : (x, s) ∈ deliveries (stepsOfTargets targets) (List.range n)) :
    ∃ j t, targets[j]? = some t ∧ j < n ∧
      ((t.name = x ∧ s = .column j) ∨ (t.indicator = some x ∧ s = .flag j)) := by
  obtain ⟨j, name, ind, c, hstep, hc, hwrite⟩ := mem_deliveries.1 h
  rw [stepsOfTargets, List.getElem?_map, Option.map_eq_some_iff] at hstep
  obtain ⟨t, ht, heq⟩ := hstep
  obtain ⟨rfl, rfl⟩ := Prod.mk.inj heq
  obtain ⟨hlt, rfl⟩ := List.getElem?_eq_some_iff.1 hc
  rw [List.length_range] at hlt
  rw [List.getElem_range] at hwrite
  exact ⟨j, t, ht, hlt, hwrite.imp_left fun hcolumn => ⟨hcolumn.1.symm, hcolumn.2⟩⟩

/-- **A list of different names writes each of them once.** -/
theorem lastTo_target (hnodup : (targetNames targets).Nodup) {i : ℕ} {t : Target} {x : HostName}
    (hi : targets[i]? = some t) (hx : x ∈ t.written) :
    lastTo x (deliveries (stepsOfTargets targets) (List.range targets.length)) =
      some (x, if t.name = x then .column i else .flag i) := by
  have hmem := List.mem_of_getElem? hi
  cases hlast : lastTo x (deliveries (stepsOfTargets targets) (List.range targets.length)) with
  | none =>
      exact absurd hlast (lastTo_ne_none hmem List.length_range (Target.mem_written.1 hx))
  | some w =>
      obtain ⟨y, s⟩ := w
      obtain rfl : y = x := fst_of_lastTo hlast
      obtain ⟨j, t', hj, -, hwrite⟩ := mem_deliveries_targets (mem_of_lastTo hlast)
      have hx' : y ∈ t'.written := Target.mem_written.2 (hwrite.imp And.left And.left)
      obtain rfl := place_unique hnodup hi hj hx hx'
      obtain rfl := Option.some.inj (hi.symm.trans hj)
      rcases hwrite with ⟨hname, rfl⟩ | ⟨hind, rfl⟩
      · rw [if_pos hname]
      · have hne : t.name ≠ y := fun heq => name_ne_indicator hnodup hmem (heq ▸ hind)
        rw [if_neg hne]

theorem mem_deliveries_names {x : HostName} {s : Source ℕ} {n : ℕ} :
    (x, s) ∈ deliveries (stepsOf indicator names) (List.range n) ↔
      ∃ j name, names[j]? = some name ∧ j < n ∧
        ((x = name ∧ s = .column j) ∨ (indicator name = some x ∧ s = .flag j)) := by
  rw [mem_deliveries]
  constructor
  · rintro ⟨j, _, _, c, hstep, hc, hwrite⟩
    rw [stepsOf, List.getElem?_map, Option.map_eq_some_iff] at hstep
    obtain ⟨name, hname, heq⟩ := hstep
    obtain ⟨rfl, rfl⟩ := Prod.mk.inj heq
    obtain ⟨hlt, rfl⟩ := List.getElem?_eq_some_iff.1 hc
    rw [List.getElem_range] at hwrite
    exact ⟨j, name, hname, by simpa using hlt, hwrite⟩
  · rintro ⟨j, name, hname, hlt, hwrite⟩
    refine ⟨j, name, indicator name, j, ?_, List.getElem?_range hlt, hwrite⟩
    rw [stepsOf, List.getElem?_map, hname]
    rfl

/-- **Bindings that are alike are of a list in order.** -/
theorem aligned_of_lastTo (hnodup : (targetNames targets).Nodup)
    (hlength : names.length ≤ targets.length)
    (h : ∀ x, lastTo x (deliveries (stepsOf indicator names) (List.range targets.length)) =
      lastTo x (deliveries (stepsOfTargets targets) (List.range targets.length))) :
    names = targets.map Target.name ∧ Indicated indicator targets := by
  have hwritten {i : ℕ} {t : Target} {x : HostName} (hi : targets[i]? = some t)
      (hx : x ∈ t.written) :
      (x, if t.name = x then Source.column i else .flag i) ∈
        deliveries (stepsOf indicator names) (List.range targets.length) := by
    refine mem_of_lastTo (x := x) ?_
    rw [h, lastTo_target hnodup hi hx]
  -- a column is written to the variable of its place
  have hname {i : ℕ} {t : Target} (hi : targets[i]? = some t) : names[i]? = some t.name := by
    have hmem := hwritten hi (Target.mem_written.2 (Or.inl rfl))
    rw [if_pos rfl] at hmem
    obtain ⟨j, name, hj, -, hwrite⟩ := mem_deliveries_names.1 hmem
    rcases hwrite with ⟨hx, hs⟩ | ⟨-, hs⟩
    · cases hs
      rw [hj, ← hx]
    · cases hs
  refine ⟨?_, ?_, ?_⟩
  · refine List.ext_getElem? fun i => ?_
    cases hi : targets[i]? with
    | some t => rw [hname hi, List.getElem?_map, hi, Option.map_some]
    | none =>
        have hle := List.getElem?_eq_none_iff.1 hi
        rw [List.getElem?_map, hi, Option.map_none, List.getElem?_eq_none (by omega)]
  · intro t ht ind hind
    obtain ⟨i, hi⟩ := List.getElem?_of_mem ht
    have hne : t.name ≠ ind := fun heq => name_ne_indicator hnodup ht (heq ▸ hind)
    have hmem := hwritten hi (Target.mem_written.2 (Or.inr hind))
    rw [if_neg hne] at hmem
    obtain ⟨j, name, hj, -, hwrite⟩ := mem_deliveries_names.1 hmem
    rcases hwrite with ⟨-, hs⟩ | ⟨hx, hs⟩
    · cases hs
    · cases hs
      rw [hname hi, Option.some.injEq] at hj
      rw [hj]
      exact hx
  · intro before t behind heq ind hind
    have hi : targets[before.length]? = some t := by simp [heq]
    have hlt : before.length < targets.length := by simp [heq]
    have hflag : (ind, Source.flag before.length) ∈
        deliveries (stepsOf indicator names) (List.range targets.length) :=
      mem_deliveries_names.2 ⟨_, _, hname hi, hlt, Or.inr ⟨hind, rfl⟩⟩
    -- the last write of the indicator is none before this flag
    obtain ⟨w, hlast⟩ : ∃ w, lastTo ind (deliveries (stepsOf indicator names)
        (List.range targets.length)) = some w := by
      rw [← Option.ne_none_iff_exists', lastTo, ne_eq, ReachingWriter.lastWriter_eq_none_iff]
      exact fun hnone => hnone _ hflag rfl
    have htime := time_le_of_lastTo (deliveries_sorted List.pairwise_lt_range) hlast hflag rfl
    rw [h] at hlast
    obtain ⟨y, s⟩ := w
    obtain rfl : y = ind := fst_of_lastTo hlast
    obtain ⟨j, t', hj, -, hwrite⟩ := mem_deliveries_targets (mem_of_lastTo hlast)
    by_cases hplace : j = before.length
    · subst hplace
      obtain rfl := Option.some.inj (hi.symm.trans hj)
      rcases hwrite with ⟨-, rfl⟩ | ⟨hown, -⟩
      · simp only [Source.time] at htime
        omega
      · exact Or.inl hown
    · have hlater : before.length < j := by
        rcases hwrite with ⟨-, rfl⟩ | ⟨-, rfl⟩ <;> simp only [Source.time] at htime <;> omega
      refine Or.inr ⟨t', ?_, hwrite.imp And.left And.left⟩
      rw [heq, List.getElem?_append_right (by omega)] at hj
      obtain ⟨k, hk⟩ : ∃ k, j - before.length = k + 1 := ⟨j - before.length - 1, by omega⟩
      rw [hk, List.getElem?_cons_succ] at hj
      exact List.mem_of_getElem? hj

end Alignment

/-! ### The output variables -/

/-- The roles after some occurrences. -/
def directions (span : Option (ℕ × ℕ)) (found : List (ℕ × HostName)) :
    List (HostName × Db2BindingDirection) :=
  found.foldl (fun direction m => recordRole direction m.2 (roleAt span m.1)) []

def IsOutput (e : HostName × Db2BindingDirection) : Prop :=
  e.2 = .output ∨ e.2 = .inOut

section Roles

variable {span : Option (ℕ × ℕ)} {found : List (ℕ × HostName)}

theorem directions_concat (m : ℕ × HostName) :
    directions span (found ++ [m]) =
      recordRole (directions span found) m.2 (roleAt span m.1) := by
  simp [directions, List.foldl_append]

theorem recordRole_names (direction : List (HostName × Db2BindingDirection)) (name : HostName)
    (role : Db2BindingDirection) :
    (recordRole direction name role).map Prod.fst = Kept.add id (direction.map Prod.fst) name := by
  rw [recordRole, Kept.add]
  split
  · rename_i hnone
    rw [List.lookup_eq_none_iff] at hnone
    rw [if_neg, List.map_append, List.map_singleton]
    rw [List.any_map, List.any_eq_true]
    rintro ⟨e, he, heq⟩
    have hne := hnone e he
    simp only [Function.comp_apply, id_eq, decide_eq_true_eq] at heq
    simp [heq] at hne
  · rename_i current hsome
    obtain ⟨front, back, hdirection, -⟩ := List.lookup_eq_some_iff.1 hsome
    have hused : (direction.map Prod.fst).any (fun b => id b = id name) = true := by
      simp [hdirection]
    rw [if_pos hused]
    split
    · rw [List.map_map]
      refine List.map_congr_left fun e _ => ?_
      by_cases he : e.1 = name
      · simp [he]
      · simp [he]
    · rfl

theorem directions_names :
    (directions span found).map Prod.fst = Kept.keepFirst id (found.map Prod.snd) := by
  induction found using List.reverseRecOn with
  | nil => rfl
  | append_singleton init m ih =>
      rw [directions_concat, recordRole_names, ih, List.map_append, List.map_singleton,
        Kept.keepFirst, Kept.keepFirst, List.foldl_append]
      rfl

theorem mem_directions_of_lookup {name : HostName} {role : Db2BindingDirection}
    (h : (directions span found).lookup name = some role) :
    (name, role) ∈ directions span found := by
  obtain ⟨front, back, hdirection, -⟩ := List.lookup_eq_some_iff.1 h
  rw [hdirection]
  simp

theorem roleAt_cases (span : Option (ℕ × ℕ)) (position : ℕ) :
    roleAt span position = .output ∨ roleAt span position = .input := by
  rw [roleAt]
  split
  · exact Or.inl rfl
  · exact Or.inr rfl

/-- **A variable gets columns when it occurs in the clause.** -/
theorem isOutput_iff {e : HostName × Db2BindingDirection} (he : e ∈ directions span found) :
    IsOutput e ↔ ∃ m ∈ found, m.2 = e.1 ∧ roleAt span m.1 = .output := by
  induction found using List.reverseRecOn generalizing e with
  | nil => cases he
  | append_singleton init m ih =>
      have hlast : (∃ m' ∈ init ++ [m], m'.2 = e.1 ∧ roleAt span m'.1 = .output) ↔
          (∃ m' ∈ init, m'.2 = e.1 ∧ roleAt span m'.1 = .output) ∨
            m.2 = e.1 ∧ roleAt span m.1 = .output := by
        simp [or_and_right, exists_or]
      rw [hlast]
      rw [directions_concat, recordRole] at he
      split at he
      · rename_i hnone
        rw [List.mem_append, List.mem_singleton] at he
        rcases he with he | rfl
        · have hne : m.2 ≠ e.1 := by
            intro heq
            rw [List.lookup_eq_none_iff] at hnone
            simpa [heq] using hnone e he
          rw [ih he]
          exact (or_iff_left fun h => hne h.1).symm
        · -- the first occurrence of a name
          have hfresh : ¬∃ m' ∈ init, m'.2 = m.2 ∧ roleAt span m'.1 = .output := by
            rintro ⟨m', hm', heq, -⟩
            have hmem : m.2 ∈ (directions span init).map Prod.fst := by
              rw [directions_names, Kept.mem_keepFirst]
              obtain ⟨b, hb⟩ := Kept.exists_first id (List.mem_map_of_mem (f := Prod.snd) hm')
              rw [← heq, hb, show b = m'.2 from Kept.first_key hb]
            obtain ⟨e, he, heq⟩ := List.mem_map.1 hmem
            rw [List.lookup_eq_none_iff] at hnone
            simpa [heq] using hnone e he
          rcases roleAt_cases span m.1 with hrole | hrole <;> simp [IsOutput, hrole, hfresh]
      · rename_i current hsome
        have hcurrent := mem_directions_of_lookup hsome
        split at he
        · rename_i hdiffers
          obtain ⟨e', he', rfl⟩ := List.mem_map.1 he
          by_cases hname : e'.1 = m.2
          · simp only [if_pos hname]
            have hboth : (∃ m' ∈ init, m'.2 = m.2 ∧ roleAt span m'.1 = .output) ∨
                roleAt span m.1 = .output := by
              rcases roleAt_cases span m.1 with hrole | hrole
              · exact Or.inr hrole
              · refine Or.inl ((ih hcurrent).1 ?_)
                cases current
                · exact absurd hrole.symm hdiffers
                · exact Or.inl rfl
                · exact Or.inr rfl
            exact ⟨fun _ => hboth.imp_right fun h => ⟨trivial, h⟩, fun _ => Or.inr rfl⟩
          · simp only [if_neg hname]
            rw [ih he']
            exact (or_iff_left fun h => hname h.1.symm).symm
        · rename_i hsame
          rw [ih he]
          refine (or_iff_left_of_imp ?_).symm
          rintro ⟨hname, hrole⟩
          have hrole' : current = .output := (not_not.1 hsame).trans hrole
          rw [← hname]
          exact (ih hcurrent).1 (Or.inl hrole')

/-- The place at which a variable first occurs. -/
def firstPlace (otherwise : ℕ) (found : List (ℕ × HostName)) (name : HostName) : ℕ :=
  ((found.find? fun m => m.2 = name).map Prod.fst).getD otherwise

/-- Variables are in the order of their places. -/
theorem keepFirst_pairwise (otherwise : ℕ) (h : found.Pairwise fun m m' => m.1 < m'.1) :
    (Kept.keepFirst id (found.map Prod.snd)).Pairwise fun name name' =>
      firstPlace otherwise found name ≤ firstPlace otherwise found name' := by
  induction found using List.reverseRecOn with
  | nil => exact List.Pairwise.nil
  | append_singleton init m ih =>
      obtain ⟨hinit, -, hlast⟩ := List.pairwise_append.1 h
      have hplace {name : HostName} (hname : name ∈ Kept.keepFirst id (init.map Prod.snd)) :
          firstPlace otherwise (init ++ [m]) name = firstPlace otherwise init name ∧
            firstPlace otherwise init name ≤ m.1 := by
        have hmem := Kept.first_mem (Kept.mem_keepFirst.1 hname)
        obtain ⟨m', hm', rfl⟩ := List.mem_map.1 hmem
        cases hfound : init.find? fun m'' => m''.2 = m'.2 with
        | none => exact absurd (decide_eq_true rfl) (List.find?_eq_none.1 hfound m' hm')
        | some m'' =>
            rw [firstPlace, firstPlace, List.find?_append, hfound]
            exact ⟨rfl, (hlast m'' (List.mem_of_find?_eq_some hfound) m (by simp)).le⟩
      have hstep : Kept.keepFirst id ((init ++ [m]).map Prod.snd) =
          Kept.add id (Kept.keepFirst id (init.map Prod.snd)) m.2 := by
        simp [Kept.keepFirst, List.foldl_append]
      have hold : (Kept.keepFirst id (init.map Prod.snd)).Pairwise fun name name' =>
          firstPlace otherwise (init ++ [m]) name ≤ firstPlace otherwise (init ++ [m]) name' :=
        (ih hinit).imp_of_mem fun hname hname' hle => by
          rw [(hplace hname).1, (hplace hname').1]
          exact hle
      rw [hstep, Kept.add]
      split
      · exact hold
      · rename_i hnew
        refine List.pairwise_append.2 ⟨hold, List.pairwise_singleton .., ?_⟩
        intro name hname name' h'
        obtain rfl := List.mem_singleton.1 h'
        rw [(hplace hname).1]
        have hself : firstPlace otherwise (init ++ [m]) m.2 = m.1 := by
          have hnone : init.find? (fun m' => m'.2 = m.2) = none := by
            rw [List.find?_eq_none]
            intro m' hm' heq
            refine hnew (List.any_eq_true.2 ⟨m.2, Kept.mem_keepFirst.2 ?_, by simp⟩)
            obtain ⟨b, hb⟩ := Kept.exists_first id (List.mem_map_of_mem (f := Prod.snd) hm')
            rw [← of_decide_eq_true heq, hb, show b = m'.2 from Kept.first_key hb]
          rw [firstPlace, List.find?_append, hnone]
          simp
        rw [hself]
        exact (hplace hname).2

end Roles

/-! ### What the text gives -/

theorem le_of_mem_hostMatches {i : ℕ} {s : List Char} {m : ℕ × HostName}
    (h : m ∈ hostMatches i s) : i ≤ m.1 := by
  induction s generalizing i with
  | nil => cases h
  | cons c rest ih =>
      rw [hostMatches] at h
      split at h
      · rcases List.mem_cons.1 h with rfl | h
        · exact le_rfl
        · exact (Nat.le_succ i).trans (ih h)
      · exact (Nat.le_succ i).trans (ih h)

theorem hostMatches_pairwise (i : ℕ) (s : List Char) :
    (hostMatches i s).Pairwise fun m m' => m.1 < m'.1 := by
  induction s generalizing i with
  | nil => exact List.Pairwise.nil
  | cons c rest ih =>
      rw [hostMatches]
      split
      · exact List.pairwise_cons.2 ⟨fun m hm => le_of_mem_hostMatches hm, ih (i + 1)⟩
      · exact ih (i + 1)

theorem snd_ne_nil_of_mem_pairMatches {skip : ℕ} {s : List Char} {e : HostName × HostName}
    (h : e ∈ pairMatches skip s) : e.2 ≠ [] := by
  induction s generalizing skip with
  | nil => cases h
  | cons c rest ih =>
      cases skip with
      | succ skip => exact ih (by rwa [pairMatches] at h)
      | zero =>
          rw [pairMatches] at h
          split at h
          · rcases List.mem_cons.1 h with rfl | h
            · simp
            · exact ih h
          · exact ih h

theorem hostVariables_eq (raw : List Char) :
    hostVariables raw = (directions (intoSpan raw) (hostMatches 0 raw)).map fun e =>
      ⟨e.1, e.2, (firstIndicator raw e.1).getD []⟩ := by
  have hsorted := keepFirst_pairwise raw.length (hostMatches_pairwise 0 raw)
  rw [← @directions_names (intoSpan raw) _, List.pairwise_map] at hsorted
  have hordered := hsorted.insertionSort_eq
  rw [hostVariables]
  exact congrArg _ hordered

/-- **The output variables are the names of the clause.** -/
theorem outputHostVariables_eq (raw : List Char) :
    outputHostVariables (hostVariables raw) = (distinctNames raw).filter (inClause raw) := by
  rw [outputHostVariables, hostVariables_eq, List.filter_map, List.map_map, distinctNames,
    ← @directions_names (intoSpan raw) _, List.filter_map]
  have hfilter : (directions (intoSpan raw) (hostMatches 0 raw)).filter
      ((fun v : SqlHostVariableSemantic => v.direction = .output || v.direction = .inOut) ∘
        fun e => ⟨e.1, e.2, (firstIndicator raw e.1).getD []⟩) =
      (directions (intoSpan raw) (hostMatches 0 raw)).filter (inClause raw ∘ Prod.fst) := by
    refine List.filter_congr fun e he => ?_
    rw [Bool.eq_iff_iff]
    simpa [IsOutput, inClause] using isOutput_iff he
  rw [hfilter]
  rfl

/-- The indicator of a variable is the first that the text gives it. -/
theorem indicatorOf_eq {raw : List Char} {name : HostName} (h : name ∈ distinctNames raw) :
    indicatorOf (hostVariables raw) name = firstIndicator raw name := by
  rw [distinctNames, ← @directions_names (intoSpan raw) _] at h
  obtain ⟨e, he, rfl⟩ := List.mem_map.1 h
  rw [indicatorOf, hostVariables_eq]
  cases hgiven : firstIndicator raw e.1 with
  | none =>
      rw [List.find?_eq_none.2, Option.map_none]
      intro v hv
      obtain ⟨e', -, rfl⟩ := List.mem_map.1 hv
      rw [Bool.and_eq_true, not_and, decide_eq_true_eq]
      intro hname
      change e'.1 = e.1 at hname
      simp [hname, hgiven]
  | some ind =>
      have hne : ind ≠ [] := by
        obtain ⟨front, back, hpairs, -⟩ := List.lookup_eq_some_iff.1 hgiven
        exact snd_ne_nil_of_mem_pairMatches (e := (e.1, ind)) (by rw [hpairs]; simp)
      obtain ⟨v, hv⟩ := Option.isSome_iff_exists.1 (List.find?_isSome.2
        ⟨_, List.mem_map_of_mem he, by simp [hgiven, hne]⟩ : (((directions (intoSpan raw)
          (hostMatches 0 raw)).map fun e => (⟨e.1, e.2, (firstIndicator raw e.1).getD []⟩ :
            SqlHostVariableSemantic)).find? fun v => v.name = e.1 && v.indicator ≠ []).isSome)
      obtain ⟨e', -, heq⟩ := List.mem_map.1 (List.mem_of_find?_eq_some hv)
      have hfound := List.find?_some hv
      rw [Bool.and_eq_true, decide_eq_true_eq] at hfound
      rw [← heq] at hfound
      have hname : e'.1 = e.1 := hfound.1
      rw [hv, Option.map_some, ← heq]
      change some ((firstIndicator raw e'.1).getD []) = some ind
      rw [hname, hgiven, Option.getD_some]

/-! ### Deliveries -/

/-- **Rows are bound as a list asks for when the last writes are those of the list.** -/
theorem captures_iff (indicator : HostName → Option HostName) (names : List HostName)
    (targets : List Target) :
    (∀ row : List (SqlValue β), row.length = targets.length →
      captureFrom indicator names row (fun _ => none) = targetOutputs targets row fun _ => none) ↔
      ∀ x, lastTo x (deliveries (stepsOf indicator (names.take targets.length))
        (List.range targets.length)) =
          lastTo x (deliveries (stepsOfTargets targets) (List.range targets.length)) := by
  rw [← forall_outputsOf_iff (β := β)]
  refine forall₂_congr fun row hrow => ?_
  have hcode : captureFrom indicator names row (fun _ => none) =
      outputsOf (stepsOf indicator (names.take targets.length)) row := by
    funext x
    rw [captureFrom_eq, Option.or_none, outputsOf, deliveries_take, hrow, ← List.map_take]
    rfl
  have hlist : targetOutputs targets row (fun _ => none) =
      outputsOf (stepsOfTargets targets) row := by
    funext x
    rw [targetOutputs_eq, Option.or_none]
    rfl
  rw [hcode, hlist]

theorem captures_of_aligned {raw : List Char} {indicator : HostName → Option HostName}
    {targets : List Target} (h : Aligned raw indicator targets) (row : List (SqlValue β))
    (hrow : row.length = targets.length) :
    captureFrom indicator ((distinctNames raw).filter (inClause raw)) row (fun _ => none) =
      targetOutputs targets row fun _ => none := by
  refine (captures_iff indicator _ targets).2 (fun x => ?_) row hrow
  rw [h.names]
  exact lastTo_of_indicated h.indicators _ List.length_range x

theorem aligned_of_captures {raw : List Char} {indicator : HostName → Option HostName}
    {targets : List Target} (hnodup : (targetNames targets).Nodup)
    (h : ∀ row : List (SqlValue β), row.length = targets.length →
      captureFrom indicator ((distinctNames raw).filter (inClause raw)) row (fun _ => none) =
        targetOutputs targets row fun _ => none) : Aligned raw indicator targets :=
  let ⟨hnames, hindicators⟩ := aligned_of_lastTo hnodup (List.length_take_le ..)
    ((captures_iff indicator _ targets).1 h)
  ⟨hnames, hindicators⟩

theorem captureOutputs_eq (raw : List Char) (row : List (SqlValue β)) :
    captureOutputs (hostVariables raw) row =
      captureFrom (firstIndicator raw) ((distinctNames raw).filter (inClause raw)) row
        fun _ => none := by
  funext x
  rw [captureOutputs, outputHostVariables_eq, captureFrom_eq, captureFrom_eq]
  congr 2
  refine List.map_congr_left fun name hname => ?_
  rw [indicatorOf_eq (List.mem_of_mem_filter hname)]

end CobolJava.Sql
