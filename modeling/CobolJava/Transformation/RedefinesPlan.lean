/-
**The overlay plan of REDEFINES clauses.**

`build_redefines_plan` of `redefines.py`: every item that redefines another is analysed in the order of
the names; what is certified gets views over the storage of its base, everything else a problem.  A
dict is its lookup function.

Main definitions:

* `visit`, `byName` — the items of a forest, and the first one of a name;
* `overlay` — the analysis of one redefinition;
* `addRedefinition`, `buildRedefinesPlan` — the body of the loop, and the plan;
* `Claim`, `claims` — which names the accepted redefinitions claim, in the order of the loop;
* `Recorded`, `Abandoned` — the names that get a problem in the loop, and the bases that are given up.

Main results:

* `views_run` — **a name has the view of the last redefinition that claims it**;
* `problems_run` — the names that get a problem in the loop;
* `views_plan`, `problems_plan` — the views and the problems of the plan.
-/

import CobolJava.Lib.LastWrite
import CobolJava.Lib.PyDigits
import CobolJava.Lib.PySlice
import CobolJava.Transformation.DataHierarchy
import CobolJava.Transformation.FigurativeText

set_option autoImplicit false

namespace CobolJava.Redefines

open Py.Chars
open Figurative (parseFigurativeConstant figurativeToWidth)
open LevelForest (Rose)
open DataDescription (DataEntry DataItem)
open SourceFormat (ljust)

abbrev Text := List Char

/-! ### Items -/

/-- `item.name.upper()` -/
def key (item : DataItem) : Text :=
  upper item.label.name

def isConditionName (item : DataItem) : Bool :=
  item.label.level = 88

def isNumeric (item : DataItem) : Bool :=
  item.label.picType = .numeric

/-- A text that is given and not empty. -/
def stated (text : Option Text) : Option Text :=
  text.filter (· ≠ [])

/-- `item.redefines.upper()`, for an item that redefines another. -/
def baseKey (item : DataItem) : Option Text :=
  (stated item.label.redefines).map upper

def nameOf (item : DataItem) : String :=
  String.ofList item.label.name

mutual

/-- `visit`: the items of a tree that are no condition names, in order. -/
def visit : DataItem → List DataItem
  | .node entry children =>
      if entry.level = 88 then [] else .node entry children :: visitForest children

def visitForest : List DataItem → List DataItem
  | [] => []
  | item :: rest => visit item ++ visitForest rest

end

/-- `by_name.get(name)`: the first item of a name is kept. -/
def byName (items : List DataItem) (name : Text) : Option DataItem :=
  (visitForest items).find? fun item => key item = name

/-- `sorted(by_name)` -/
def sortedNames (items : List DataItem) : List Text :=
  ((visitForest items).map key).dedup.insertionSort (· ≤ ·)

/-- The items that the loop goes over. -/
def sortedItems (items : List DataItem) : List DataItem :=
  (sortedNames items).filterMap (byName items)

/-! ### One redefinition -/

/-- `_is_certified_member` -/
def memberProblem (item : DataItem) : Option String :=
  if item.children ≠ [] then some (nameOf item ++ " is a group")
  else if item.label.occurs.isSome then some (nameOf item ++ " has OCCURS")
  else
    match stated item.label.usage with
    | some usage => some (nameOf item ++ " declares USAGE " ++ String.ofList usage)
    | none =>
        if isNumeric item && (item.label.signed || item.label.decimalPlaces ≠ 0) then
          some (nameOf item ++ " is a signed or scaled numeric; its stored encoding " ++
            "(sign overpunch, implied point) is not a certified overlay")
        else if item.label.picLength = 0 then some (nameOf item ++ " has no PIC width")
        else none

/-- The loop of `_group_members`. -/
def groupMembersFrom (offset : ℕ) : List DataItem → Except String (List (DataItem × ℕ))
  | [] => .ok []
  | child :: rest =>
      if isConditionName child then groupMembersFrom offset rest
      else
        match memberProblem child with
        | some reason => .error reason
        | none => do
            let members ← groupMembersFrom (offset + child.label.picLength) rest
            if key child = "FILLER".toList then .ok members else .ok ((child, offset) :: members)

/-- `_group_members` -/
def groupMembers (item : DataItem) : Except String (List (DataItem × ℕ)) :=
  groupMembersFrom 0 item.children

/-- `_alphanumeric_initial` -/
def alphanumericInitial (item : DataItem) : Text :=
  let width := item.label.picLength
  match stated item.label.value with
  | none => List.replicate width ' '
  | some value =>
      match parseFigurativeConstant value with
      | some (kind, fill) =>
          match figurativeToWidth kind fill width with
          | none => List.replicate width ' '
          | some filled => ljust (filled.take width) width
      | none => ljust ((stripChars ['\'', '"'] value).take width) width

/-- `raw[-width:].rjust(width, "0")` -/
def lastDigits (raw : Text) (width : ℕ) : Text :=
  let tail := if width = 0 then raw else raw.drop (raw.length - width)
  List.replicate (width - tail.length) '0' ++ tail

/-- `_initial_bytes` -/
def initialBytes (item : DataItem) : Option Text :=
  if isNumeric item then
    let raw := strip ((stated item.label.value).getD ['0'])
    let raw := if (parseFigurativeConstant raw).isSome then ['0'] else raw
    if Py.isdigit raw then some (lastDigits raw item.label.picLength) else none
  else some (alphanumericInitial item)

/-- `width` of a redefining item. -/
def overlayWidth (item : DataItem) : ℕ :=
  if item.children ≠ [] then
    ((item.children.filter fun c => !isConditionName c).map fun c => c.label.picLength).sum
  else item.label.picLength

/-- The members of a redefinition, or why it is refused. -/
def membersOf (item base : DataItem) : Except String (List (DataItem × ℕ)) :=
  if (baseKey base).isSome then
    .error ("chained REDEFINES on " ++ nameOf item ++ " (base " ++ nameOf base ++
      " itself redefines another item)")
  else
    match memberProblem base with
    | some reason => .error reason
    | none =>
        if item.children ≠ [] then groupMembers item
        else
          match memberProblem item with
          | some reason => .error reason
          | none => .ok [(item, 0)]

/-- The analysis of a redefinition: the members with their offsets and the initial bytes of the base,
or why it is refused. -/
def overlay (item base : DataItem) : Except String (List (DataItem × ℕ) × Text) := do
  let members ← membersOf item base
  if overlayWidth item > base.label.picLength then
    .error ("redefining item " ++ nameOf item ++ " is wider than its base " ++ nameOf base)
  else
    match initialBytes base with
    | none => .error ("base " ++ nameOf base ++ " has a VALUE that is not its digits")
    | some initial =>
        match members.find? fun m =>
            isNumeric m.1 && !Py.isdigit (slice initial m.2 (m.2 + m.1.label.picLength)) with
        | some m =>
            .error ("numeric view " ++ nameOf m.1 ++ " starts on bytes that are not digits")
        | none => .ok (members, initial)

/-! ### The plan -/

/-- `RedefinesView` -/
structure View where
  name : Text
  base : Text
  length : ℕ
  initial : Text
  offset : ℕ
  numeric : Bool
  deriving DecidableEq

/-- `RedefinesPlan` -/
structure Plan where
  views : Text → Option View
  problems : Text → Option String
  hidden : List Text

namespace Plan

def setView (plan : Plan) (name : Text) (view : View) : Plan :=
  { plan with views := Function.update plan.views name (some view) }

def setProblem (plan : Plan) (name : Text) (reason : String) : Plan :=
  { plan with problems := Function.update plan.problems name (some reason) }

/-- `problems.setdefault(name, reason)` -/
def defaultProblem (plan : Plan) (name : Text) (reason : String) : Plan :=
  { plan with problems := Function.update plan.problems name ((plan.problems name).or (some reason)) }

/-- `hide` -/
def hide (plan : Plan) (item : DataItem) : Plan :=
  { plan with hidden := (LevelForest.preorder item).map (fun e => upper e.name) ++ plan.hidden }

def hideName (plan : Plan) (name : Text) : Plan :=
  { plan with hidden := name :: plan.hidden }

end Plan

def baseView (base : DataItem) (initial : Text) : View where
  name := base.label.name
  base := base.label.name
  length := base.label.picLength
  initial := initial
  offset := 0
  numeric := isNumeric base

def memberView (base : DataItem) (initial : Text) (member : DataItem × ℕ) : View where
  name := member.1.label.name
  base := base.label.name
  length := member.1.label.picLength
  initial := slice initial member.2 (member.2 + member.1.label.picLength)
  offset := member.2
  numeric := isNumeric member.1

/-- The views of a redefinition that is accepted. -/
def addViews (item base : DataItem) (target : Text) (members : List (DataItem × ℕ)) (initial : Text)
    (plan : Plan) : Plan :=
  let plan := plan.setView target (baseView base initial)
  let plan := if item.children ≠ [] then plan.hideName (key item) else plan
  members.foldl (fun plan member => plan.setView (key member.1) (memberView base initial member)) plan

def addRedefinition (items : List DataItem) (plan : Plan) (item : DataItem) : Plan :=
  match baseKey item with
  | none => plan
  | some target =>
      match byName items target with
      | none =>
          (plan.setProblem (key item) ("REDEFINES " ++ String.ofList (item.label.redefines.getD []) ++
            " on " ++ nameOf item ++ " does not resolve to a data item")).hide item
      | some base =>
          match overlay item base with
          | .error reason =>
              ((plan.setProblem (key item) reason).defaultProblem target reason).hide item
          | .ok (members, initial) => addViews item base target members initial plan

/-- The views and problems that the loop leaves. -/
def runPlan (items : List DataItem) : Plan :=
  (sortedItems items).foldl (addRedefinition items) ⟨fun _ => none, fun _ => none, []⟩

/-- `name in unsupported_bases` -/
def isUnsupportedBase (items : List DataItem) (plan : Plan) (name : Text) : Bool :=
  (sortedItems items).any fun item =>
    (plan.problems (key item)).isSome && decide (baseKey item = some name)

/-- `build_redefines_plan` -/
def buildRedefinesPlan (items : List DataItem) : Plan :=
  let plan := runPlan items
  let dropped := fun view : View => isUnsupportedBase items plan (upper view.base)
  let problems := fun name =>
    match plan.problems name, plan.views name with
    | some reason, _ => some reason
    | none, some view =>
        if dropped view then
          some ("REDEFINES chain of " ++ String.ofList view.base ++ " contains an uncertified view")
        else none
    | none, none => none
  { views := fun name => (plan.views name).filter fun view => !dropped view
    problems := problems
    hidden := ((sortedItems items).filter fun item => (problems (key item)).isSome).flatMap
      (fun item => (LevelForest.preorder item).map fun e => upper e.name) ++ plan.hidden }

/-! ### Claims -/

/-- What the analysis of a redefinition finds, if it is accepted. -/
def accepted (items : List DataItem) (item : DataItem) :
    Option (DataItem × List (DataItem × ℕ) × Text) :=
  match baseKey item with
  | none => none
  | some target =>
      match byName items target with
      | none => none
      | some base =>
          match overlay item base with
          | .error _ => none
          | .ok (members, initial) => some (base, members, initial)

/-- A name that an accepted redefinition claims: that of the base, or of a member at its offset. -/
structure Claim where
  redefiner : DataItem
  base : DataItem
  item : DataItem
  offset : ℕ
  initial : Text

/-- The view that is recorded for a claim. -/
def Claim.view (c : Claim) : View :=
  memberView c.base c.initial (c.item, c.offset)

def Claim.name (c : Claim) : Text :=
  key c.item

def claimsOf (items : List DataItem) (item : DataItem) : List Claim :=
  match accepted items item with
  | none => []
  | some (base, members, initial) =>
      ⟨item, base, base, 0, initial⟩ ::
        members.map fun member => ⟨item, base, member.1, member.2, initial⟩

/-- The claims of all redefinitions, in the order of the names. -/
def claims (items : List DataItem) : List Claim :=
  (sortedItems items).flatMap (claimsOf items)

def lastClaim (items : List DataItem) (name : Text) : Option Claim :=
  LastWrite.lastWrite Claim.name (claims items) name

/-- A redefinition that is not accepted. -/
def Refused (items : List DataItem) (item : DataItem) : Prop :=
  (baseKey item).isSome ∧ accepted items item = none

/-- The loop records a problem for a name: of a redefinition, or of the item that it redefines. -/
def Recorded (items : List DataItem) (name : Text) : Prop :=
  ∃ item ∈ sortedItems items, Refused items item ∧
    (key item = name ∨ baseKey item = some name ∧ (byName items name).isSome)

/-- A base is given up: a redefinition of it has a problem. -/
def Abandoned (items : List DataItem) (target : Text) : Prop :=
  ∃ item ∈ sortedItems items, Recorded items (key item) ∧ baseKey item = some target

/-! ### Items and names -/

theorem key_of_byName {items : List DataItem} {name : Text} {item : DataItem}
    (h : byName items name = some item) : key item = name := by
  simpa [byName] using List.find?_some h

theorem length_alphanumericInitial (item : DataItem) :
    (alphanumericInitial item).length = item.label.picLength := by
  have hpad : ∀ text : Text, (ljust (text.take item.label.picLength) item.label.picLength).length =
      item.label.picLength := by
    intro text
    rw [ljust, List.length_append, List.length_replicate, List.length_take]
    omega
  unfold alphanumericInitial
  dsimp only
  split
  · exact List.length_replicate
  · split
    · split
      · exact List.length_replicate
      · exact hpad _
    · exact hpad _

theorem length_initialBytes {item : DataItem} {initial : Text}
    (hpos : 0 < item.label.picLength) (h : initialBytes item = some initial) :
    initial.length = item.label.picLength := by
  unfold initialBytes at h
  dsimp only at h
  split at h
  · generalize (if (parseFigurativeConstant (strip ((stated item.label.value).getD ['0']))).isSome then
      ['0'] else strip ((stated item.label.value).getD ['0'])) = raw at h
    split at h
    · obtain rfl := Option.some.inj h
      simp only [lastDigits, hpos.ne', if_false, List.length_append, List.length_replicate,
        List.length_drop]
      omega
    · cases h
  · obtain rfl := Option.some.inj h
    exact length_alphanumericInitial item

theorem overlay_eq_ok {item base : DataItem} {members : List (DataItem × ℕ)} {initial : Text}
    (h : overlay item base = .ok (members, initial)) :
    membersOf item base = .ok members ∧ overlayWidth item ≤ base.label.picLength ∧
      initialBytes base = some initial := by
  unfold overlay at h
  cases hmembers : membersOf item base with
  | error reason =>
      rw [hmembers] at h
      cases h
  | ok found =>
      rw [hmembers] at h
      simp only [bind, Except.bind] at h
      split at h
      · cases h
      · rename_i hwidth
        cases hinitial : initialBytes base with
        | none =>
            rw [hinitial] at h
            cases h
        | some bytes =>
            rw [hinitial] at h
            dsimp only at h
            split at h
            · cases h
            · cases h
              exact ⟨rfl, by omega, rfl⟩

theorem base_of_membersOf {item base : DataItem} {members : List (DataItem × ℕ)}
    (h : membersOf item base = .ok members) : baseKey base = none ∧ memberProblem base = none := by
  unfold membersOf at h
  split at h
  · cases h
  · rename_i hchain
    refine ⟨by simpa using hchain, ?_⟩
    cases hbase : memberProblem base with
    | none => rfl
    | some reason =>
        rw [hbase] at h
        cases h

theorem of_memberProblem {item : DataItem} (h : memberProblem item = none) :
    item.children = [] ∧ item.label.occurs = none ∧ 0 < item.label.picLength := by
  unfold memberProblem at h
  split at h
  · cases h
  · rename_i hchildren
    split at h
    · cases h
    · rename_i hoccurs
      split at h
      · cases h
      · split at h
        · cases h
        · split at h
          · cases h
          · rename_i hpos
            exact ⟨by simpa using hchildren, by simpa using hoccurs, Nat.pos_of_ne_zero hpos⟩

theorem baseView_eq {item base : DataItem} {members : List (DataItem × ℕ)} {initial : Text}
    (h : overlay item base = .ok (members, initial)) :
    baseView base initial = Claim.view ⟨item, base, base, 0, initial⟩ := by
  obtain ⟨hmembers, -, hinitial⟩ := overlay_eq_ok h
  have hpos := (of_memberProblem (base_of_membersOf hmembers).2).2.2
  have hlength := length_initialBytes hpos hinitial
  have hslice : slice initial 0 (0 + base.label.picLength) = initial := by
    rw [slice, Nat.zero_add, ← hlength, List.take_length, List.drop_zero]
  rw [Claim.view, memberView, hslice]
  rfl

/-! ### The loop -/

theorem views_addViews (item base : DataItem) (target : Text) (members : List (DataItem × ℕ))
    (initial : Text) (plan : Plan) :
    (addViews item base target members initial plan).views =
      LastWrite.run (fun member : DataItem × ℕ => key member.1) (memberView base initial) members
        (Function.update plan.views target (some (baseView base initial))) := by
  have hfold : ∀ start : Plan,
      (members.foldl (fun plan member =>
        plan.setView (key member.1) (memberView base initial member)) start).views =
        LastWrite.run (fun member : DataItem × ℕ => key member.1) (memberView base initial) members
          start.views := by
    induction members with
    | nil => exact fun _ => rfl
    | cons member members ih =>
        intro start
        rw [List.foldl_cons, ih]
        rfl
  rw [addViews, hfold]
  split <;> rfl

theorem problems_addViews (item base : DataItem) (target : Text) (members : List (DataItem × ℕ))
    (initial : Text) (plan : Plan) :
    (addViews item base target members initial plan).problems = plan.problems := by
  have hfold : ∀ start : Plan,
      (members.foldl (fun plan member =>
        plan.setView (key member.1) (memberView base initial member)) start).problems =
        start.problems := by
    induction members with
    | nil => exact fun _ => rfl
    | cons member members ih =>
        intro start
        rw [List.foldl_cons, ih]
        rfl
  rw [addViews, hfold]
  split <;> rfl

theorem views_addRedefinition (items : List DataItem) (plan : Plan) (item : DataItem) :
    (addRedefinition items plan item).views =
      LastWrite.run Claim.name Claim.view (claimsOf items item) plan.views := by
  unfold addRedefinition claimsOf accepted
  cases hkey : baseKey item with
  | none => rfl
  | some target =>
      cases hbase : byName items target with
      | none =>
          simp only [hbase]
          rfl
      | some base =>
          cases hoverlay : overlay item base with
          | error reason =>
              simp only [hbase, hoverlay]
              rfl
          | ok found =>
              obtain ⟨members, initial⟩ := found
              simp only [hbase, hoverlay]
              rw [views_addViews, baseView_eq hoverlay, LastWrite.run, LastWrite.run,
                List.foldl_cons, List.foldl_map, ← key_of_byName hbase]
              rfl

/-- One redefinition that is refused has a problem, and so has its base. -/
theorem problems_addRedefinition (items : List DataItem) (plan : Plan) (item : DataItem)
    (name : Text) :
    ((addRedefinition items plan item).problems name).isSome ↔ (plan.problems name).isSome ∨
      Refused items item ∧ (key item = name ∨ baseKey item = some name ∧ (byName items name).isSome) := by
  unfold addRedefinition Refused accepted
  cases hkey : baseKey item with
  | none => simp
  | some target =>
      cases hbase : byName items target with
      | none =>
          have htarget : ¬(target = name ∧ (byName items name).isSome) := by
            rintro ⟨rfl, hsome⟩
            rw [hbase] at hsome
            cases hsome
          simp only [hbase, Plan.hide, Plan.setProblem, Function.update_apply, Option.some.injEq]
          by_cases hname : name = key item
          · simp [hname]
          · simp [hname, Ne.symm hname, htarget]
      | some base =>
          have hresolved : target = name → (byName items name).isSome := by
            rintro rfl
            rw [hbase]
            rfl
          cases hoverlay : overlay item base with
          | error reason =>
              simp only [hbase, hoverlay, Plan.hide, Plan.setProblem, Plan.defaultProblem,
                Function.update_apply, Option.some.injEq]
              by_cases htarget : name = target
              · simp [htarget, hbase]
              · by_cases hname : name = key item
                · subst hname
                  simp [htarget]
                · simp [htarget, hname, Ne.symm htarget, Ne.symm hname]
          | ok found =>
              obtain ⟨members, initial⟩ := found
              simp only [hbase, hoverlay, problems_addViews]
              simp

/-- **A name has the view of the last redefinition that claims it.** -/
theorem views_run (items : List DataItem) (name : Text) :
    (runPlan items).views name = (lastClaim items name).map Claim.view := by
  have hfold : ∀ (loop : List DataItem) (plan : Plan),
      (loop.foldl (addRedefinition items) plan).views =
        LastWrite.run Claim.name Claim.view (loop.flatMap (claimsOf items)) plan.views := by
    intro loop
    induction loop with
    | nil => exact fun _ => rfl
    | cons item loop ih =>
        intro plan
        rw [List.foldl_cons, ih, views_addRedefinition, List.flatMap_cons, LastWrite.run_append]
  rw [runPlan, hfold, LastWrite.run_eq, lastClaim, claims]
  exact Option.or_none

/-- **The names that get a problem in the loop.** -/
theorem problems_run (items : List DataItem) (name : Text) :
    ((runPlan items).problems name).isSome ↔ Recorded items name := by
  have hfold : ∀ (loop : List DataItem) (plan : Plan),
      ((loop.foldl (addRedefinition items) plan).problems name).isSome ↔
        (plan.problems name).isSome ∨ ∃ item ∈ loop, Refused items item ∧
          (key item = name ∨ baseKey item = some name ∧ (byName items name).isSome) := by
    intro loop
    induction loop with
    | nil => simp
    | cons item loop ih =>
        intro plan
        rw [List.foldl_cons, ih, problems_addRedefinition, List.exists_mem_cons_iff, or_assoc]
  rw [runPlan, hfold, Recorded]
  simp

/-! ### The plan -/

theorem isUnsupportedBase_iff (items : List DataItem) (target : Text) :
    isUnsupportedBase items (runPlan items) target = true ↔ Abandoned items target := by
  simp only [isUnsupportedBase, List.any_eq_true, Bool.and_eq_true, decide_eq_true_eq, Abandoned,
    problems_run]

/-- **The views of the plan**: what is claimed last, unless the base is given up. -/
theorem views_plan {items : List DataItem} {name : Text} {view : View} :
    (buildRedefinesPlan items).views name = some view ↔
      ∃ c, lastClaim items name = some c ∧ c.view = view ∧ ¬Abandoned items (key c.base) := by
  have hbase : ∀ c : Claim, upper c.view.base = key c.base := fun _ => rfl
  simp only [buildRedefinesPlan, views_run, Option.filter_eq_some_iff, Option.map_eq_some_iff,
    Bool.not_eq_true']
  constructor
  · rintro ⟨⟨c, hc, rfl⟩, hkept⟩
    refine ⟨c, hc, rfl, fun habandoned => ?_⟩
    rw [hbase, (isUnsupportedBase_iff items _).2 habandoned] at hkept
    cases hkept
  · rintro ⟨c, hc, rfl, hkept⟩
    refine ⟨⟨c, hc, rfl⟩, ?_⟩
    rw [hbase, Bool.eq_false_iff]
    exact fun h => hkept ((isUnsupportedBase_iff items _).1 h)

/-- **The problems of the plan**: those of the loop, and those of views whose base is given up. -/
theorem problems_plan {items : List DataItem} {name : Text} :
    ((buildRedefinesPlan items).problems name).isSome ↔
      Recorded items name ∨ ∃ c, lastClaim items name = some c ∧ Abandoned items (key c.base) := by
  have hrecorded := problems_run items name
  have hviews := views_run items name
  simp only [buildRedefinesPlan]
  cases hproblem : (runPlan items).problems name with
  | some reason =>
      rw [hproblem] at hrecorded
      simpa using .inl (hrecorded.1 rfl)
  | none =>
      rw [hproblem] at hrecorded
      have hnone : ¬Recorded items name := fun h => by simpa using hrecorded.2 h
      cases hlast : lastClaim items name with
      | none => simp [hviews, hlast, hnone]
      | some c =>
          have hbase : upper c.view.base = key c.base := rfl
          have hiff := isUnsupportedBase_iff items (key c.base)
          simp only [hviews, hlast, Option.map_some, hbase, hnone, false_or, Option.some.injEq,
            exists_eq_left']
          rw [← hiff]
          split
          · rename_i hgiven
            simp [hgiven]
          · rename_i hkept
            simp [hkept]

end CobolJava.Redefines
