/-
**Merging copybook records into a program.**

`materialize_copybooks_into_program` of `copybook_model.py`: the records of the copybooks of a program
are appended to its WORKING-STORAGE, except for the items whose names are taken, and the elementary
items of each record follow it.  All names go into one set, and `FILLER` is a name like any other.

Main definitions:

* `mergeItem`, `flattenRecords`, `materialize` — the merge of one item, the elementary items of records,
  and the merge of all copybooks;
* `fields` — the elementary items of an item, each with the groups it stands in;
* `KeepsLayout` — what a merge should keep;
* `trim`, `copied` — the same loop with no name but `FILLER`.

Main results:

* `mergeItem_eq_trim` — as long as no other name collides, the merge only trims `FILLER`s;
* `intact_trim_iff` — when a trimmed item keeps its fields;
* `keepsLayout_iff` — **when the merge keeps the layout of the records**.
-/

import CobolJava.Lib.KeptFirst
import CobolJava.Transformation.RedefinesOverlays

set_option autoImplicit false

namespace CobolJava.CopybookMerge

open Py.Chars (upper)
open LevelForest (Rose preorderForest)
open DataDescription (DataEntry DataItem)
open Redefines (key isConditionName)

abbrev Text := List Char

/-- Texts are compared character by character. -/
local instance lawfulBEq_text : LawfulBEq (List Char) := List.instLawfulBEq

/-! ### The merge of one item -/

/-- A program, as far as the merge reads it. -/
structure Program where
  programId : Text
  copybooks : List Text
  workingStorage : List DataItem

/-- `CopybookModel`, as far as the merge reads it. -/
structure CopybookModel where
  name : Text
  records : List DataItem

/-- The diagnostics of a merge. -/
inductive Diagnostic
  | collision (programId name modelName : Text)
  | modelMissing (programId reference : Text)
  deriving DecidableEq

namespace Diagnostic

def level : Diagnostic → String
  | .collision .. => "WARNING"
  | .modelMissing .. => "ERROR"

def code : Diagnostic → String
  | .collision .. => "COPYBOOK_FIELD_COLLISION"
  | .modelMissing .. => "COPYBOOK_MODEL_MISSING"

def message : Diagnostic → String
  | .collision programId name modelName =>
      "Program " ++ String.ofList programId ++ " keeps its own " ++ String.ofList name ++
        "; copybook " ++ String.ofList modelName ++ " definition skipped"
  | .modelMissing programId reference =>
      "Program " ++ String.ofList programId ++ " references COPY " ++ String.ofList reference ++
        " with no materialized model"

end Diagnostic

/-- The names that are taken, and the diagnostics so far. -/
structure Names where
  existing : List Text
  diagnostics : List Diagnostic

mutual

/-- `merge_item`: the item as it is merged, if it is; `report` makes the diagnostic of a name. -/
def mergeItem (report : Text → Diagnostic) : DataItem → Names → Option DataItem × Names
  | .node entry children, s =>
      if upper entry.name ∈ s.existing then
        (none, { s with diagnostics := s.diagnostics ++ [report entry.name] })
      else
        let merged := mergeChildren report children s
        if children ≠ [] ∧ merged.1 = [] ∧ entry.picLength = 0 then (none, merged.2)
        else
          (some (if merged.1.length = children.length then .node entry children
              else .node entry merged.1),
            { merged.2 with existing := upper entry.name :: merged.2.existing })

def mergeChildren (report : Text → Diagnostic) : List DataItem → Names → List DataItem × Names
  | [], s => ([], s)
  | child :: rest, s =>
      let first := mergeItem report child s
      let others := mergeChildren report rest first.2
      (first.1.toList ++ others.1, others.2)

end

mutual

/-- `visit` of `flatten_records` -/
def flattenItem : DataItem → List DataItem
  | .node entry children =>
      if children ≠ [] ∧ entry.picLength = 0 ∧ entry.occurs = none then flattenForest children
      else .node entry children :: flattenForest children

def flattenForest : List DataItem → List DataItem
  | [] => []
  | item :: rest => flattenItem item ++ flattenForest rest

end

/-- `flatten_records` -/
def flattenRecords (records : List DataItem) : List DataItem :=
  Kept.keepFirst key (flattenForest records)

/-! ### The merge of all copybooks -/

/-- What the loop has made so far, with the records that it has appended: each as it was parsed, and as
it was merged. -/
structure Merge where
  existing : List Text
  expanded : List Text
  merged : List DataItem
  diagnostics : List Diagnostic
  appended : List (DataItem × DataItem)

/-- The expansion of one elementary item of a record. -/
def expandLeaf (owned : List Text) (record : DataItem) (m : Merge) (leaf : DataItem) : Merge :=
  if key leaf = key record then m
  else if key leaf ∈ owned then m
  else if key leaf ∈ m.expanded then m
  else
    { m with
      expanded := key leaf :: m.expanded
      existing := key leaf :: m.existing
      merged := m.merged ++ [leaf] }

/-- The body of the loop over the records of a model. -/
def mergeRecord (programId : Text) (owned : List Text) (modelName : Text) (m : Merge)
    (record : DataItem) : Merge :=
  let result := mergeItem (fun name => .collision programId name modelName) record
    ⟨m.existing, m.diagnostics⟩
  let m := { m with existing := result.2.existing, diagnostics := result.2.diagnostics }
  match result.1 with
  | none => m
  | some merged =>
      (flattenRecords [merged]).foldl (expandLeaf owned merged)
        { m with merged := m.merged ++ [merged], appended := m.appended ++ [(record, merged)] }

/-- The model of a reference: that of the program, or the shared one. -/
def modelOf (models : Text → Option CopybookModel)
    (programModels : Text × Text → Option CopybookModel) (programId reference : Text) :
    Option CopybookModel :=
  (programModels (upper programId, upper reference)).or (models (upper reference))

section Materialize

variable (program : Program) (models : Text → Option CopybookModel)
  (programModels : Text × Text → Option CopybookModel)

/-- The names of the program itself. -/
def owned : List Text :=
  (preorderForest program.workingStorage).map fun entry => upper entry.name

/-- The body of the loop over the copybooks. -/
def mergeReference (m : Merge) (reference : Text) : Merge :=
  match modelOf models programModels program.programId reference with
  | none => { m with diagnostics := m.diagnostics ++ [.modelMissing program.programId reference] }
  | some model => model.records.foldl (mergeRecord program.programId (owned program) model.name) m

/-- `materialize_copybooks_into_program`; `program_models` that is not given is empty. -/
def materialize : Merge :=
  program.copybooks.foldl (mergeReference program models programModels)
    ⟨owned program, [], program.workingStorage, [], []⟩

end Materialize

/-! ### What a merge should keep -/

mutual

/-- The elementary items of an item, each with the entries of the groups it stands in, from the outside
in.  A condition name does not make its item a group. -/
def fields : DataItem → List (List DataEntry)
  | .node entry children =>
      if children.all isConditionName then [[entry]] else (fieldsForest children).map (entry :: ·)

def fieldsForest : List DataItem → List (List DataEntry)
  | [] => []
  | item :: rest =>
      if isConditionName item then fieldsForest rest else fields item ++ fieldsForest rest

end

def filler : Text :=
  "FILLER".toList

/-- The names of some items but `FILLER`. -/
def namesOf (items : List DataItem) : List Text :=
  (items.map key).filter (· ≠ filler)

/-- No error is reported, and no collision of another name than `FILLER`. -/
def Quiet (diagnostics : List Diagnostic) : Prop :=
  ∀ d ∈ diagnostics, d.level ≠ "ERROR" ∧
    ∀ programId name modelName, d = .collision programId name modelName → upper name = filler

/-- **The merge keeps the layout of the records**: every appended record has the fields that it was
parsed with, and no name but `FILLER` is on the top level twice. -/
def KeepsLayout (m : Merge) : Prop :=
  (∀ record ∈ m.appended, fields record.2 = fields record.1) ∧ (namesOf m.merged).Nodup

/-! ### The merge with no name but `FILLER` -/

mutual

/-- The item without the `FILLER`s that come after a first one, if anything is left, whether all its
fields are left, and whether a `FILLER` has come by then.  An item that loses none of its own children
is left as it is. -/
def trim (seen : Bool) : DataItem → Option (DataItem × Bool) × Bool
  | .node entry children =>
      if upper entry.name = filler ∧ seen then (none, seen)
      else
        let trimmed := trimChildren seen children
        if children ≠ [] ∧ trimmed.1 = [] ∧ entry.picLength = 0 then (none, trimmed.2.2)
        else
          (some (if trimmed.1.length = children.length then (.node entry children, true)
              else (.node entry trimmed.1, trimmed.2.1)),
            trimmed.2.2 || decide (upper entry.name = filler))

/-- The children that are left, whether all fields are left with them, and whether a `FILLER` has come
by then. -/
def trimChildren (seen : Bool) : List DataItem → List DataItem × Bool × Bool
  | [] => ([], true, seen)
  | child :: rest =>
      let first := trim seen child
      let others := trimChildren first.2 rest
      ((first.1.map Prod.fst).toList ++ others.1,
        (isConditionName child || first.1.any Prod.snd) && others.2.1, others.2.2)

end

/-- What the same loop over all records has made so far. -/
structure Copies where
  seen : Bool
  records : List (DataItem × DataItem × Bool)

/-- One record: as it was parsed, as it is left, and whether all its fields are left. -/
def copyRecord (c : Copies) (record : DataItem) : Copies :=
  let trimmed := trim c.seen record
  match trimmed.1 with
  | none => { c with seen := trimmed.2 }
  | some left => ⟨trimmed.2, c.records ++ [(record, left)]⟩

section Copied

variable (program : Program) (models : Text → Option CopybookModel)
  (programModels : Text × Text → Option CopybookModel)

def copyReference (c : Copies) (reference : Text) : Copies :=
  match modelOf models programModels program.programId reference with
  | none => c
  | some model => model.records.foldl copyRecord c

/-- The records that the merge appends as long as no name but `FILLER` collides. -/
def copied : List (DataItem × DataItem × Bool) :=
  (program.copybooks.foldl (copyReference program models programModels)
    ⟨decide (filler ∈ owned program), []⟩).records

end Copied

/-- No elementary item of a record has the name of a record before it. -/
def LeavesApart (records : List DataItem) : Prop :=
  ∀ pre record post, records = pre ++ record :: post → ∀ leaf ∈ flattenRecords [record],
    key leaf ≠ filler → key leaf ≠ key record → key leaf ∉ pre.map key

/-! ### Fields -/

theorem ne_nil_of_mem_fields : ∀ {item : DataItem} {path : List DataEntry}, path ∈ fields item →
    path ≠ []
  | .node entry children, path, h => by
      rw [fields] at h
      split at h
      · rw [List.mem_singleton.1 h]
        exact List.cons_ne_nil _ _
      · obtain ⟨path', -, rfl⟩ := List.mem_map.1 h
        exact List.cons_ne_nil _ _

mutual

theorem fields_ne_nil : ∀ item : DataItem, fields item ≠ []
  | .node entry children => by
      rw [fields]
      split
      · exact List.cons_ne_nil _ _
      · rename_i hchildren
        intro hnil
        exact hchildren ((fieldsForest_eq_nil_iff children).1 (List.map_eq_nil_iff.1 hnil))

theorem fieldsForest_eq_nil_iff : ∀ children : List DataItem,
    fieldsForest children = [] ↔ children.all isConditionName = true
  | [] => by simp [fieldsForest]
  | item :: rest => by
      rw [fieldsForest, List.all_cons]
      split
      · rename_i hcondition
        rw [hcondition, Bool.true_and]
        exact fieldsForest_eq_nil_iff rest
      · rename_i hcondition
        simp [hcondition, fields_ne_nil item]

end

theorem fieldsForest_cons {item : DataItem} (h : isConditionName item = false)
    (rest : List DataItem) : fieldsForest (item :: rest) = fields item ++ fieldsForest rest := by
  rw [fieldsForest, h]
  rfl

/-- The fields of an item with other children. -/
theorem fields_node_eq_iff (entry : DataEntry) {left children : List DataItem}
    (hle : (fieldsForest left).length ≤ (fieldsForest children).length) :
    (fields (.node entry left) = fields (.node entry children) ↔
        fieldsForest left = fieldsForest children) ∧
      (fields (.node entry left)).length ≤ (fields (.node entry children)).length := by
  have hinjective : Function.Injective (entry :: · : List DataEntry → List DataEntry) :=
    fun _ _ h => (List.cons.inj h).2
  rw [fields, fields]
  by_cases hleft : left.all isConditionName = true
  · have hnone := (fieldsForest_eq_nil_iff left).2 hleft
    rw [if_pos hleft, hnone]
    by_cases hchildren : children.all isConditionName = true
    · rw [if_pos hchildren, (fieldsForest_eq_nil_iff children).2 hchildren]
      exact ⟨iff_of_true rfl rfl, le_rfl⟩
    · have hsome : fieldsForest children ≠ [] := fun h =>
        hchildren ((fieldsForest_eq_nil_iff children).1 h)
      rw [if_neg hchildren]
      refine ⟨iff_of_false (fun h => ?_) (fun h => hsome h.symm), ?_⟩
      · -- a field below the item has a longer path
        obtain ⟨item, hitem, hcondition⟩ : ∃ item ∈ children, isConditionName item = false := by
          simpa using hchildren
        have hpath : ∀ path ∈ fieldsForest children, path ≠ [] := by
          clear h hsome hchildren hle hitem hcondition
          induction children with
          | nil => exact fun path h => absurd h List.not_mem_nil
          | cons child rest ih =>
              intro path h
              rw [fieldsForest] at h
              split at h
              · exact ih path h
              · rcases List.mem_append.1 h with h | h
                · exact ne_nil_of_mem_fields h
                · exact ih path h
        cases hforest : fieldsForest children with
        | nil => exact hsome hforest
        | cons path rest =>
            rw [hforest, List.map_cons] at h
            exact hpath path (by rw [hforest]; exact List.mem_cons_self)
              (List.cons.inj (List.cons.inj h).1).2.symm
      · rw [List.length_map]
        exact List.length_pos_iff.2 hsome
  · have hsome : fieldsForest left ≠ [] := fun h => hleft ((fieldsForest_eq_nil_iff left).1 h)
    have hpos := List.length_pos_iff.2 hsome
    have hchildren : ¬children.all isConditionName = true := by
      intro h
      rw [(fieldsForest_eq_nil_iff children).2 h, List.length_nil] at hle
      omega
    rw [if_neg hleft, if_neg hchildren, List.length_map, List.length_map]
    exact ⟨(List.map_injective_iff.2 hinjective).eq_iff, hle⟩

/-! ### Trimmed items -/

mutual

/-- **When a trimmed item keeps its fields.** -/
theorem intact_trim_iff : ∀ {item : DataItem} {seen : Bool} {left : DataItem} {intact : Bool},
    (trim seen item).1 = some (left, intact) →
      (intact = true ↔ fields left = fields item) ∧ left.label = item.label ∧
        (fields left).length ≤ (fields item).length
  | .node entry children, seen, left, intact, h => by
      have hchildren := intact_trimChildren_iff children seen
      rw [trim] at h
      split at h
      · cases h
      · dsimp only at h
        split at h
        · cases h
        · split at h
          · obtain ⟨rfl, rfl⟩ := Prod.mk.inj (Option.some.inj h)
            exact ⟨iff_of_true rfl rfl, rfl, le_rfl⟩
          · obtain ⟨rfl, rfl⟩ := Prod.mk.inj (Option.some.inj h)
            obtain ⟨hsame, hle⟩ := fields_node_eq_iff entry hchildren.2
            exact ⟨hchildren.1.trans hsame.symm, rfl, hle⟩

theorem intact_trimChildren_iff : ∀ (children : List DataItem) (seen : Bool),
    ((trimChildren seen children).2.1 = true ↔
        fieldsForest (trimChildren seen children).1 = fieldsForest children) ∧
      (fieldsForest (trimChildren seen children).1).length ≤ (fieldsForest children).length
  | [], seen => by simp [trimChildren]
  | child :: rest, seen => by
      obtain ⟨hrest, hle⟩ := intact_trimChildren_iff rest (trim seen child).2
      rw [trimChildren]
      dsimp only
      cases hcondition : isConditionName child with
      | true =>
          have hskip : fieldsForest (((trim seen child).1.map Prod.fst).toList ++
              (trimChildren (trim seen child).2 rest).1) =
              fieldsForest (trimChildren (trim seen child).2 rest).1 := by
            cases hfirst : (trim seen child).1 with
            | none => rfl
            | some left =>
                have hlabel := (intact_trim_iff hfirst).2.1
                have hleft : isConditionName left.1 = true := by
                  rw [← hcondition, isConditionName, isConditionName, hlabel]
                simp only [Option.map_some, Option.toList_some, List.singleton_append]
                rw [fieldsForest, if_pos hleft]
          rw [hskip, fieldsForest, if_pos hcondition, Bool.true_or, Bool.true_and]
          exact ⟨hrest, hle⟩
      | false =>
          rw [fieldsForest_cons hcondition, Bool.false_or]
          have hpos := List.length_pos_iff.2 (fields_ne_nil child)
          cases hfirst : (trim seen child).1 with
          | none =>
              -- a child that is lost takes a field with it
              simp only [Option.map_none, Option.toList_none, List.nil_append, Option.any_none,
                Bool.false_and, Bool.false_eq_true, false_iff, List.length_append]
              refine ⟨fun h => ?_, by omega⟩
              have := congrArg List.length h
              rw [List.length_append] at this
              omega
          | some left =>
              obtain ⟨hintact, hlabel, hfewer⟩ := intact_trim_iff hfirst
              have hleft : isConditionName left.1 = false := by
                rw [← hcondition, isConditionName, isConditionName, hlabel]
              simp only [Option.map_some, Option.toList_some, List.singleton_append, Option.any_some,
                Bool.and_eq_true]
              rw [fieldsForest_cons hleft, hintact, hrest, List.length_append, List.length_append]
              refine ⟨⟨fun h => by rw [h.1, h.2], fun h => ?_⟩, by omega⟩
              have hlength := congrArg List.length h
              rw [List.length_append, List.length_append] at hlength
              exact List.append_inj h (by omega)

end

/-! ### The merge and the trimming -/

mutual

theorem mono_mergeItem (report : Text → Diagnostic) : ∀ (item : DataItem) (s : Names),
    s.existing ⊆ (mergeItem report item s).2.existing ∧
      s.diagnostics ⊆ (mergeItem report item s).2.diagnostics
  | .node entry children, s => by
      obtain ⟨hexisting, hdiagnostics⟩ := mono_mergeChildren report children s
      rw [mergeItem]
      split
      · exact ⟨List.Subset.refl _, List.subset_append_left _ _⟩
      · dsimp only
        split
        · exact ⟨hexisting, hdiagnostics⟩
        · exact ⟨fun _ h => List.mem_cons_of_mem _ (hexisting h), hdiagnostics⟩

theorem mono_mergeChildren (report : Text → Diagnostic) : ∀ (children : List DataItem) (s : Names),
    s.existing ⊆ (mergeChildren report children s).2.existing ∧
      s.diagnostics ⊆ (mergeChildren report children s).2.diagnostics
  | [], s => ⟨List.Subset.refl _, List.Subset.refl _⟩
  | child :: rest, s => by
      obtain ⟨hexisting, hdiagnostics⟩ := mono_mergeItem report child s
      obtain ⟨hexisting', hdiagnostics'⟩ := mono_mergeChildren report rest (mergeItem report child s).2
      rw [mergeChildren]
      exact ⟨fun _ h => hexisting' (hexisting h), fun _ h => hdiagnostics' (hdiagnostics h)⟩

end

theorem Quiet.mono {diagnostics diagnostics' : List Diagnostic} (h : Quiet diagnostics')
    (hsub : diagnostics ⊆ diagnostics') : Quiet diagnostics :=
  fun d hd => h d (hsub hd)

section Trimming

variable {programId modelName : Text}

mutual

/-- **As long as no other name collides, the merge only trims `FILLER`s.** -/
theorem mergeItem_eq_trim : ∀ (item : DataItem) {s : Names} {seen : Bool},
    (seen = true ↔ filler ∈ s.existing) →
    Quiet (mergeItem (fun name => .collision programId name modelName) item s).2.diagnostics →
      (mergeItem (fun name => .collision programId name modelName) item s).1 =
          (trim seen item).1.map Prod.fst ∧
        ((trim seen item).2 = true ↔
          filler ∈ (mergeItem (fun name => .collision programId name modelName) item s).2.existing)
  | .node entry children, s, seen, hseen, hquiet => by
      rw [mergeItem] at hquiet ⊢
      rw [trim]
      split at hquiet
      · -- a collision is one of `FILLER`
        rename_i htaken
        have hfiller : upper entry.name = filler :=
          (hquiet _ (List.mem_append_right _ (List.mem_singleton_self _))).2 programId entry.name
            modelName rfl
        have htrue : seen = true := hseen.2 (hfiller ▸ htaken)
        rw [if_pos htaken, if_pos ⟨hfiller, htrue⟩]
        exact ⟨rfl, hseen⟩
      · rename_i hfree
        have hkept : ¬(upper entry.name = filler ∧ seen = true) := by
          rintro ⟨hfiller, htrue⟩
          exact hfree (hfiller ▸ hseen.1 htrue)
        rw [if_neg hfree, if_neg hkept]
        have hquiet' : Quiet (mergeChildren (fun name => .collision programId name modelName)
            children s).2.diagnostics := by
          dsimp only at hquiet
          split at hquiet <;> exact hquiet
        obtain ⟨hchildren, hlater⟩ := mergeChildren_eq_trim children hseen hquiet'
        dsimp only
        rw [hchildren]
        split
        · exact ⟨rfl, hlater⟩
        · refine ⟨?_, ?_⟩
          · split <;> rfl
          · rw [Bool.or_eq_true, decide_eq_true_eq, hlater, List.mem_cons, or_comm, eq_comm]

theorem mergeChildren_eq_trim : ∀ (children : List DataItem) {s : Names} {seen : Bool},
    (seen = true ↔ filler ∈ s.existing) →
    Quiet (mergeChildren (fun name => .collision programId name modelName)
      children s).2.diagnostics →
      (mergeChildren (fun name => .collision programId name modelName) children s).1 =
          (trimChildren seen children).1 ∧
        ((trimChildren seen children).2.2 = true ↔
          filler ∈ (mergeChildren (fun name => .collision programId name modelName)
            children s).2.existing)
  | [], s, seen, hseen, _ => ⟨rfl, hseen⟩
  | child :: rest, s, seen, hseen, hquiet => by
      rw [mergeChildren] at hquiet ⊢
      dsimp only at hquiet ⊢
      rw [trimChildren]
      have hmono := (mono_mergeChildren (fun name => .collision programId name modelName) rest
        (mergeItem (fun name => .collision programId name modelName) child s).2).2
      obtain ⟨hfirst, hlater⟩ := mergeItem_eq_trim child hseen (hquiet.mono hmono)
      obtain ⟨hrest, hlast⟩ := mergeChildren_eq_trim rest hlater hquiet
      rw [hfirst, hrest]
      exact ⟨rfl, hlast⟩

end

end Trimming

mutual

/-- A `FILLER` has come behind an item if one came before it or stands in it, and also if the item is
lost. -/
theorem seen_trim : ∀ (item : DataItem) (seen : Bool),
    seen = true ∨ filler ∈ (LevelForest.preorder item).map (fun e => upper e.name) ∨
        (trim seen item).1 = none →
      (trim seen item).2 = true
  | .node entry children, seen, h => by
      have hchildren := seen_trimChildren children seen
      rw [LevelForest.preorder, List.map_cons, List.mem_cons] at h
      rw [trim] at h ⊢
      split at h
      · rename_i hfiller
        rw [if_pos hfiller]
        exact hfiller.2
      · rename_i hkept
        rw [if_neg hkept]
        dsimp only at h ⊢
        split at h
        · rename_i hlost
          rw [if_pos hlost]
          exact hchildren (.inr (.inr ⟨hlost.1, hlost.2.1⟩))
        · rename_i hleft
          rw [if_neg hleft, Bool.or_eq_true, decide_eq_true_eq]
          rcases h with hseen | (hname | hbelow) | hnone
          · exact .inl (hchildren (.inl hseen))
          · exact .inr hname.symm
          · exact .inl (hchildren (.inr (.inl hbelow)))
          · cases hnone

theorem seen_trimChildren : ∀ (children : List DataItem) (seen : Bool),
    seen = true ∨ filler ∈ (preorderForest children).map (fun e => upper e.name) ∨
        (children ≠ [] ∧ (trimChildren seen children).1 = []) →
      (trimChildren seen children).2.2 = true
  | [], seen, h => by simpa [trimChildren, preorderForest] using h
  | child :: rest, seen, h => by
      have hfirst := seen_trim child seen
      have hrest := seen_trimChildren rest (trim seen child).2
      rw [trimChildren] at h ⊢
      dsimp only at h ⊢
      rw [preorderForest, List.map_append, List.mem_append] at h
      rcases h with hseen | (hchild | hbehind) | ⟨-, hlost⟩
      · exact hrest (.inl (hfirst (.inl hseen)))
      · exact hrest (.inl (hfirst (.inr (.inl hchild))))
      · exact hrest (.inr (.inl hbehind))
      · have hnone : (trim seen child).1 = none := by
          have hnil := (List.append_eq_nil_iff.1 hlost).1
          simpa using hnil
        exact hrest (.inl (hfirst (.inr (.inr hnone))))

end

/-! ### Items that are left -/

mutual

theorem preorder_trim_subset : ∀ {item : DataItem} {seen : Bool} {left : DataItem × Bool},
    (trim seen item).1 = some left → LevelForest.preorder left.1 ⊆ LevelForest.preorder item
  | .node entry children, seen, left, h => by
      have hchildren := preorder_trimChildren_subset children seen
      rw [trim] at h
      split at h
      · cases h
      · dsimp only at h
        split at h
        · cases h
        · obtain rfl := Option.some.inj h
          split
          · exact List.Subset.refl _
          · rw [LevelForest.preorder, LevelForest.preorder]
            exact List.cons_subset_cons _ hchildren

theorem preorder_trimChildren_subset : ∀ (children : List DataItem) (seen : Bool),
    preorderForest (trimChildren seen children).1 ⊆ preorderForest children
  | [], seen => List.Subset.refl _
  | child :: rest, seen => by
      have hrest := preorder_trimChildren_subset rest (trim seen child).2
      rw [trimChildren]
      dsimp only
      cases hfirst : (trim seen child).1 with
      | none =>
          exact fun e he => List.mem_append_right _ (hrest he)
      | some left =>
          have hchild := preorder_trim_subset hfirst
          simp only [Option.map_some, Option.toList_some, List.singleton_append]
          rw [preorderForest, preorderForest]
          exact List.append_subset.2 ⟨fun e he => List.mem_append_left _ (hchild he),
            fun e he => List.mem_append_right _ (hrest he)⟩

end

mutual

theorem label_mem_of_mem_flattenItem : ∀ {item leaf : DataItem}, leaf ∈ flattenItem item →
    leaf.label ∈ LevelForest.preorder item
  | .node entry children, leaf, h => by
      rw [LevelForest.preorder]
      rw [flattenItem] at h
      split at h
      · exact List.mem_cons_of_mem _ (label_mem_of_mem_flattenForest h)
      · rcases List.mem_cons.1 h with rfl | h
        · exact List.mem_cons_self
        · exact List.mem_cons_of_mem _ (label_mem_of_mem_flattenForest h)

theorem label_mem_of_mem_flattenForest : ∀ {items : List DataItem} {leaf : DataItem},
    leaf ∈ flattenForest items → leaf.label ∈ preorderForest items
  | [], leaf, h => absurd h List.not_mem_nil
  | item :: rest, leaf, h => by
      rw [preorderForest]
      rcases List.mem_append.1 h with h | h
      · exact List.mem_append_left _ (label_mem_of_mem_flattenItem h)
      · exact List.mem_append_right _ (label_mem_of_mem_flattenForest h)

end

theorem label_mem_of_mem_flattenRecords {record leaf : DataItem}
    (h : leaf ∈ flattenRecords [record]) : leaf.label ∈ LevelForest.preorder record := by
  have hleaf := Kept.first_mem (Kept.mem_keepFirst.1 h)
  simpa [preorderForest] using label_mem_of_mem_flattenForest hleaf

theorem label_mem_preorderForest {items : List DataItem} {item : DataItem} (h : item ∈ items) :
    item.label ∈ preorderForest items := by
  induction items with
  | nil => exact absurd h List.not_mem_nil
  | cons first rest ih =>
      rcases List.mem_cons.1 h with rfl | h
      · exact LevelForest.label_mem_preorderForest _ _
      · exact List.mem_append_right _ (ih h)

/-! ### Names on the top level -/

theorem namesOf_concat (items : List DataItem) (item : DataItem) :
    namesOf (items ++ [item]) = namesOf items ++ if key item = filler then [] else [key item] := by
  rw [namesOf, namesOf, List.map_append, List.filter_append]
  by_cases h : key item = filler <;> simp [h]

theorem mem_namesOf_concat (items : List DataItem) (item : DataItem) (k : Text) :
    k ∈ namesOf (items ++ [item]) ↔ k ∈ namesOf items ∨ k = key item ∧ k ≠ filler := by
  rw [namesOf_concat, List.mem_append]
  by_cases hfiller : key item = filler
  · simp only [hfiller, if_true, List.not_mem_nil, or_false]
    exact ⟨.inl, fun h => h.resolve_right fun h => h.2 h.1⟩
  · simp only [hfiller, if_false, List.mem_singleton]
    exact or_congr_right ⟨fun heq => ⟨heq, heq ▸ hfiller⟩, And.left⟩

theorem nodup_concat {names : List Text} {name : Text} :
    (names ++ [name]).Nodup ↔ names.Nodup ∧ name ∉ names := by
  rw [List.nodup_append_comm, List.singleton_append, List.nodup_cons, and_comm]

theorem leavesApart_concat (records : List DataItem) (record : DataItem) :
    LeavesApart (records ++ [record]) ↔ LeavesApart records ∧
      ∀ leaf ∈ flattenRecords [record], key leaf ≠ filler → key leaf ≠ key record →
        key leaf ∉ records.map key := by
  constructor
  · intro h
    refine ⟨fun pre r post hsplit => h pre r (post ++ [record]) ?_, h records record [] rfl⟩
    rw [hsplit, List.append_assoc, List.cons_append]
  · rintro ⟨hbefore, hlast⟩ pre r post hsplit
    rcases List.eq_nil_or_concat post with rfl | ⟨init, last, rfl⟩
    · obtain ⟨rfl, heq⟩ := List.append_inj' hsplit rfl
      obtain rfl := (List.cons.inj heq).1
      exact hlast
    · have hinit : records = pre ++ r :: init ∧ [record] = [last] := by
        refine List.append_inj' (hsplit.trans ?_) rfl
        simp
      exact hbefore pre r init hinit.1

/-- The names of the records that a merge has appended. -/
def recordNames (m : Merge) : List Text :=
  m.appended.map fun p => key p.2

/-- Where the names on the top level come from, and when none of them is there twice. -/
structure Taken (program : Program) (m : Merge) (apart : Prop) : Prop where
  owned : ∀ k ∈ owned program, k ∈ m.existing
  top : ∀ k ∈ namesOf m.merged, k ∈ m.existing
  sources : ∀ k ∈ namesOf m.merged, k ∈ CopybookMerge.owned program ∨ k ∈ m.expanded ∨
    k ∈ recordNames m
  expanded : ∀ k ∈ m.expanded, k ≠ filler → k ∈ namesOf m.merged
  records : ∀ k ∈ recordNames m, k ≠ filler → k ∉ CopybookMerge.owned program ∧ k ∈ namesOf m.merged
  once : (namesOf m.merged).Nodup → ∀ k ∈ m.expanded, k ≠ filler → k ∉ recordNames m
  nodup : (namesOf m.merged).Nodup ↔ apart

section Taken

variable {program : Program} {m : Merge} {apart : Prop}

theorem Taken.grow (h : Taken program m apart) {existing : List Text} (diagnostics : List Diagnostic)
    (hsub : m.existing ⊆ existing) :
    Taken program { m with existing := existing, diagnostics := diagnostics } apart where
  owned := fun k hk => hsub (h.owned k hk)
  top := fun k hk => hsub (h.top k hk)
  sources := h.sources
  expanded := h.expanded
  records := h.records
  once := h.once
  nodup := h.nodup

/-- A record whose name is free is appended. -/
theorem Taken.append (h : Taken program m apart) {existing : List Text} (record : DataItem)
    {merged : DataItem} (diagnostics : List Diagnostic) (hsub : m.existing ⊆ existing) (hfree : key merged ∉ m.existing)
    (htaken : key merged ∈ existing) :
    Taken program { m with
      existing := existing
      diagnostics := diagnostics
      merged := m.merged ++ [merged]
      appended := m.appended ++ [(record, merged)] } apart := by
  have hnew : key merged ∉ namesOf m.merged := fun hmem => hfree (h.top _ hmem)
  have hnames := mem_namesOf_concat m.merged merged
  have hrecords : ∀ k, k ∈ (m.appended ++ [(record, merged)]).map (fun p => key p.2) ↔
      k ∈ recordNames m ∨ k = key merged := by
    intro k
    rw [List.map_append, List.mem_append]
    exact or_congr_right List.mem_singleton
  have hnodup : (namesOf (m.merged ++ [merged])).Nodup ↔ (namesOf m.merged).Nodup := by
    rw [namesOf_concat]
    split
    · rw [List.append_nil]
    · rw [nodup_concat]
      exact and_iff_left hnew
  refine ⟨fun k hk => hsub (h.owned k hk), fun k hk => ?_, fun k hk => ?_, fun k hk hne => ?_,
    fun k hk hne => ?_, fun hapart k hk hne hmem => ?_, hnodup.trans h.nodup⟩
  · rcases (hnames k).1 hk with hk | ⟨rfl, -⟩
    · exact hsub (h.top k hk)
    · exact htaken
  · rcases (hnames k).1 hk with hk | ⟨rfl, -⟩
    · rcases h.sources k hk with hk | hk | hk
      · exact .inl hk
      · exact .inr (.inl hk)
      · exact .inr (.inr ((hrecords k).2 (.inl hk)))
    · exact .inr (.inr ((hrecords _).2 (.inr rfl)))
  · exact (hnames k).2 (.inl (h.expanded k hk hne))
  · rcases (hrecords k).1 hk with hk | rfl
    · exact ⟨(h.records k hk hne).1, (hnames k).2 (.inl (h.records k hk hne).2)⟩
    · exact ⟨fun hmem => hfree (h.owned _ hmem), (hnames _).2 (.inr ⟨rfl, hne⟩)⟩
  · rcases (hrecords k).1 hmem with hmem | rfl
    · exact h.once (hnodup.1 hapart) k hk hne hmem
    · exact hnew (h.expanded _ hk hne)

/-- One elementary item follows its record. -/
theorem Taken.leaf (h : Taken program m apart) {before : List (DataItem × DataItem)}
    {record merged leaf : DataItem} (happended : m.appended = before ++ [(record, merged)]) :
    Taken program (expandLeaf (CopybookMerge.owned program) merged m leaf)
      (apart ∧ (key leaf ≠ filler → key leaf ≠ key merged →
        key leaf ∉ before.map fun p => key p.2)) := by
  have hrecords : ∀ k, k ∈ recordNames m ↔ k ∈ before.map (fun p => key p.2) ∨ k = key merged := by
    intro k
    rw [recordNames, happended, List.map_append, List.mem_append]
    exact or_congr_right List.mem_singleton
  -- an item that is skipped is no new name
  have hskip : ((namesOf m.merged).Nodup → key leaf ≠ filler → key leaf ≠ key merged →
      key leaf ∉ before.map fun p => key p.2) → Taken program m (apart ∧ (key leaf ≠ filler →
        key leaf ≠ key merged → key leaf ∉ before.map fun p => key p.2)) := fun hleaf =>
    ⟨h.owned, h.top, h.sources, h.expanded, h.records, h.once,
      ⟨fun hnodup => ⟨h.nodup.1 hnodup, hleaf hnodup⟩, fun hapart => h.nodup.2 hapart.1⟩⟩
  rw [expandLeaf]
  split
  · rename_i hsame
    exact hskip fun _ _ hne => absurd hsame hne
  · rename_i hother
    split
    · rename_i howned
      refine hskip fun _ hne _ hmem => ?_
      exact (h.records _ ((hrecords _).2 (.inl hmem)) hne).1 howned
    · rename_i hfree
      split
      · rename_i hexpanded
        refine hskip fun hnodup hne _ hmem => ?_
        exact h.once hnodup _ hexpanded hne ((hrecords _).2 (.inl hmem))
      · rename_i hnew
        have hnames := mem_namesOf_concat m.merged leaf
        have hfresh : key leaf ≠ filler →
            (key leaf ∉ namesOf m.merged ↔ key leaf ∉ before.map fun p => key p.2) := by
          intro hne
          refine not_congr ⟨fun hmem => ?_, fun hmem => ?_⟩
          · rcases h.sources _ hmem with hmem | hmem | hmem
            · exact absurd hmem hfree
            · exact absurd hmem hnew
            · exact ((hrecords _).1 hmem).resolve_right hother
          · exact (h.records _ ((hrecords _).2 (.inl hmem)) hne).2
        have hnodup : (namesOf (m.merged ++ [leaf])).Nodup ↔ (namesOf m.merged).Nodup ∧
            (key leaf ≠ filler → key leaf ≠ key merged →
              key leaf ∉ before.map fun p => key p.2) := by
          rw [namesOf_concat]
          split
          · rename_i hfiller
            rw [List.append_nil]
            exact (and_iff_left fun hne => absurd hfiller hne).symm
          · rename_i hne
            rw [nodup_concat, hfresh hne]
            exact and_congr_right fun _ => ⟨fun h _ _ => h, fun h => h hne hother⟩
        refine ⟨fun k hk => List.mem_cons_of_mem _ (h.owned k hk), fun k hk => ?_, fun k hk => ?_,
          fun k hk hne => ?_, fun k hk hne => ?_, fun hapart k hk hne hmem => ?_,
          hnodup.trans (and_congr_left fun _ => h.nodup)⟩
        · rcases (hnames k).1 hk with hk | ⟨rfl, -⟩
          · exact List.mem_cons_of_mem _ (h.top k hk)
          · exact List.mem_cons_self
        · rcases (hnames k).1 hk with hk | ⟨rfl, -⟩
          · rcases h.sources k hk with hk | hk | hk
            · exact .inl hk
            · exact .inr (.inl (List.mem_cons_of_mem _ hk))
            · exact .inr (.inr hk)
          · exact .inr (.inl List.mem_cons_self)
        · rcases List.mem_cons.1 hk with rfl | hk
          · exact (hnames _).2 (.inr ⟨rfl, hne⟩)
          · exact (hnames k).2 (.inl (h.expanded k hk hne))
        · exact ⟨(h.records k hk hne).1, (hnames k).2 (.inl (h.records k hk hne).2)⟩
        · rcases List.mem_cons.1 hk with rfl | hk
          · -- its name is not that of a record
            rcases (hrecords _).1 hmem with hmem | hmem
            · exact (hnodup.1 hapart).2 hne hother hmem
            · exact hother hmem
          · exact h.once (hnodup.1 hapart).1 k hk hne hmem

/-- All elementary items follow their record. -/
theorem Taken.leaves {before : List (DataItem × DataItem)} {record merged : DataItem}
    (leaves : List DataItem) : ∀ {m : Merge} {apart : Prop}, Taken program m apart →
      m.appended = before ++ [(record, merged)] →
      Taken program (leaves.foldl (expandLeaf (CopybookMerge.owned program) merged) m)
        (apart ∧ ∀ leaf ∈ leaves, key leaf ≠ filler → key leaf ≠ key merged →
          key leaf ∉ before.map fun p => key p.2) := by
  induction leaves with
  | nil =>
      intro m apart h _
      simpa using h
  | cons leaf leaves ih =>
      intro m apart h happended
      have hkeeps : (expandLeaf (CopybookMerge.owned program) merged m leaf).appended = m.appended := by
        unfold expandLeaf
        split_ifs <;> rfl
      have hrest := ih (h.leaf happended) (hkeeps.trans happended)
      rw [List.foldl_cons]
      simpa only [List.forall_mem_cons, and_assoc] using hrest

end Taken

/-- What the expansion of elementary items leaves as it is. -/
theorem expandLeaves_eq (owned : List Text) (record : DataItem) (leaves : List DataItem) (m : Merge) :
    (leaves.foldl (expandLeaf owned record) m).appended = m.appended ∧
      (leaves.foldl (expandLeaf owned record) m).diagnostics = m.diagnostics ∧
      ∀ k, k ∈ (leaves.foldl (expandLeaf owned record) m).existing →
        k ∈ m.existing ∨ k ∈ leaves.map key := by
  induction leaves generalizing m with
  | nil => exact ⟨rfl, rfl, fun k hk => .inl hk⟩
  | cons leaf leaves ih =>
      obtain ⟨happended, hdiagnostics, hexisting⟩ := ih (expandLeaf owned record m leaf)
      have hstep : (expandLeaf owned record m leaf).appended = m.appended ∧
          (expandLeaf owned record m leaf).diagnostics = m.diagnostics ∧
          ∀ k, k ∈ (expandLeaf owned record m leaf).existing → k ∈ m.existing ∨ k = key leaf := by
        unfold expandLeaf
        split_ifs
        · exact ⟨rfl, rfl, fun k hk => .inl hk⟩
        · exact ⟨rfl, rfl, fun k hk => .inl hk⟩
        · exact ⟨rfl, rfl, fun k hk => .inl hk⟩
        · exact ⟨rfl, rfl, fun k hk => (List.mem_cons.1 hk).symm⟩
      refine ⟨happended.trans hstep.1, hdiagnostics.trans hstep.2.1, fun k hk => ?_⟩
      rw [List.map_cons, List.mem_cons]
      rcases hexisting k hk with hk | hk
      · exact (hstep.2.2 k hk).imp_right .inl
      · exact .inr (.inr hk)

theorem existing_subset_expandLeaves (owned : List Text) (record : DataItem) (leaves : List DataItem)
    (m : Merge) : m.existing ⊆ (leaves.foldl (expandLeaf owned record) m).existing := by
  induction leaves generalizing m with
  | nil => exact List.Subset.refl _
  | cons leaf leaves ih =>
      have hstep : m.existing ⊆ (expandLeaf owned record m leaf).existing := by
        unfold expandLeaf
        split_ifs
        · exact List.Subset.refl _
        · exact List.Subset.refl _
        · exact List.Subset.refl _
        · exact List.subset_cons_self _ _
      exact fun k hk => ih _ (hstep hk)

theorem mergeItem_eq_some {report : Text → Diagnostic} {item merged : DataItem} {s : Names}
    (h : (mergeItem report item s).1 = some merged) :
    key merged = key item ∧ key item ∉ s.existing ∧
      key item ∈ (mergeItem report item s).2.existing := by
  obtain ⟨entry, children⟩ := item
  rw [mergeItem] at h ⊢
  split at h
  · cases h
  · rename_i hfree
    rw [if_neg hfree]
    dsimp only at h ⊢
    split at h
    · cases h
    · rename_i hkept
      rw [if_neg hkept]
      obtain rfl := Option.some.inj h
      refine ⟨?_, hfree, List.mem_cons_self⟩
      split <;> rfl

/-! ### The loop -/

/-- The merge goes along with the trimming. -/
structure Follows (program : Program) (m : Merge) (c : Copies) : Prop where
  seen : c.seen = true ↔ filler ∈ m.existing
  appended : m.appended = c.records.map fun p => (p.1, p.2.1)
  intact : ∀ p ∈ c.records, p.2.2 = true ↔ fields p.2.1 = fields p.1
  taken : Taken program m
    ((namesOf program.workingStorage).Nodup ∧ LeavesApart (c.records.map fun p => p.2.1))

section Loop

variable {program : Program} {m : Merge} {c : Copies}

theorem diagnostics_mergeRecord (modelName : Text) (m : Merge) (record : DataItem) :
    (mergeRecord program.programId (owned program) modelName m record).diagnostics =
      (mergeItem (fun name => .collision program.programId name modelName) record
        ⟨m.existing, m.diagnostics⟩).2.diagnostics := by
  rw [mergeRecord]
  dsimp only
  split
  · rfl
  · rw [(expandLeaves_eq _ _ _ _).2.1]

/-- One record. -/
theorem Follows.mergeRecord (h : Follows program m c) {modelName : Text} {record : DataItem}
    (hquiet : Quiet (CopybookMerge.mergeRecord program.programId (owned program) modelName m
      record).diagnostics) :
    Follows program
      (CopybookMerge.mergeRecord program.programId (owned program) modelName m record)
      (copyRecord c record) := by
  rw [diagnostics_mergeRecord] at hquiet
  obtain ⟨hresult, hseen⟩ := mergeItem_eq_trim record
    (s := ⟨m.existing, m.diagnostics⟩) h.seen hquiet
  have hsub := (mono_mergeItem (fun name => .collision program.programId name modelName) record
    ⟨m.existing, m.diagnostics⟩).1
  rw [CopybookMerge.mergeRecord, copyRecord]
  dsimp only
  cases htrim : (trim c.seen record).1 with
  | none =>
      rw [htrim, Option.map_none] at hresult
      rw [hresult]
      exact ⟨hseen, h.appended, h.intact, h.taken.grow _ hsub⟩
  | some left =>
      rw [htrim, Option.map_some] at hresult
      rw [hresult]
      obtain ⟨hkey, hfree, htaken⟩ := mergeItem_eq_some hresult
      have hstart := h.taken.append record
        (mergeItem (fun name => .collision program.programId name modelName) record
          ⟨m.existing, m.diagnostics⟩).2.diagnostics hsub (hkey ▸ hfree) (hkey ▸ htaken)
      have hleaves := Taken.leaves (flattenRecords [left.1]) hstart rfl
      refine ⟨?_, ?_, ?_, ?_⟩
      · rw [hseen]
        refine ⟨fun hmem => existing_subset_expandLeaves _ _ _ _ hmem, fun hmem => ?_⟩
        rcases (expandLeaves_eq _ _ _ _).2.2 _ hmem with hmem | hmem
        · exact hmem
        · -- a `FILLER` that is expanded stands in the record
          obtain ⟨leaf, hleaf, hname⟩ := List.mem_map.1 hmem
          have hentry := preorder_trim_subset htrim (label_mem_of_mem_flattenRecords hleaf)
          refine hseen.1 (seen_trim record c.seen (.inr (.inl ?_)))
          exact List.mem_map.2 ⟨leaf.label, hentry, hname⟩
      · rw [(expandLeaves_eq _ _ _ _).1, List.map_append]
        exact congrArg₂ _ h.appended rfl
      · intro p hp
        rcases List.mem_append.1 hp with hp | hp
        · exact h.intact p hp
        · obtain rfl := List.mem_singleton.1 hp
          exact (intact_trim_iff htrim).1
      · have hbefore : m.appended.map (fun p => key p.2) =
            (c.records.map fun p => p.2.1).map key := by
          rw [h.appended, List.map_map, List.map_map]
          rfl
        rw [List.map_append, List.map_cons, List.map_nil, leavesApart_concat, ← and_assoc,
          ← hbefore]
        exact hleaves

theorem diagnostics_foldl {α : Type} {step : Merge → α → Merge}
    (hstep : ∀ m x, m.diagnostics ⊆ (step m x).diagnostics) (xs : List α) (m : Merge) :
    m.diagnostics ⊆ (xs.foldl step m).diagnostics := by
  induction xs generalizing m with
  | nil => exact List.Subset.refl _
  | cons x xs ih => exact fun d hd => ih _ (hstep m x hd)

theorem Follows.foldl {α : Type} {step : Merge → α → Merge} {step' : Copies → α → Copies}
    (hmono : ∀ m x, m.diagnostics ⊆ (step m x).diagnostics)
    (hstep : ∀ {m c} x, Follows program m c → Quiet (step m x).diagnostics →
      Follows program (step m x) (step' c x)) (xs : List α) {m : Merge} {c : Copies}
    (h : Follows program m c) (hquiet : Quiet (xs.foldl step m).diagnostics) :
    Follows program (xs.foldl step m) (xs.foldl step' c) := by
  induction xs generalizing m c with
  | nil => exact h
  | cons x xs ih =>
      have hfirst := hstep x h (hquiet.mono (diagnostics_foldl hmono xs _))
      exact ih hfirst hquiet

theorem mono_mergeRecord (modelName : Text) (m : Merge) (record : DataItem) :
    m.diagnostics ⊆
      (CopybookMerge.mergeRecord program.programId (owned program) modelName m record).diagnostics := by
  rw [diagnostics_mergeRecord]
  exact (mono_mergeItem _ record ⟨m.existing, m.diagnostics⟩).2

variable {models : Text → Option CopybookModel} {programModels : Text × Text → Option CopybookModel}

theorem follows_materialize
    (hquiet : Quiet (materialize program models programModels).diagnostics) :
    Follows program (materialize program models programModels)
      (program.copybooks.foldl (copyReference program models programModels)
        ⟨decide (filler ∈ owned program), []⟩) := by
  have hinit : Follows program ⟨owned program, [], program.workingStorage, [], []⟩
      ⟨decide (filler ∈ owned program), []⟩ := by
    have htop : ∀ k ∈ namesOf program.workingStorage, k ∈ owned program := by
      intro k hk
      obtain ⟨item, hitem, rfl⟩ := List.mem_map.1 (List.mem_filter.1 hk).1
      exact List.mem_map.2 ⟨item.label, label_mem_preorderForest hitem, rfl⟩
    refine ⟨decide_eq_true_iff, rfl, fun p hp => absurd hp List.not_mem_nil, fun k hk => hk, htop,
      fun k hk => .inl (htop k hk), fun k hk => absurd hk List.not_mem_nil,
      fun k hk => absurd hk List.not_mem_nil, fun _ k hk => absurd hk List.not_mem_nil, ?_⟩
    refine (and_iff_left fun pre record post hsplit => ?_).symm
    exact absurd hsplit.symm (by simp)
  refine Follows.foldl (fun m reference => ?_) (fun reference h hstep => ?_) _ hinit hquiet
  · rw [mergeReference]
    split
    · exact List.subset_append_left _ _
    · exact diagnostics_foldl (fun m record => mono_mergeRecord _ m record) _ m
  · rw [mergeReference] at hstep ⊢
    rw [copyReference]
    cases hmodel : modelOf models programModels program.programId reference with
    | none =>
      rw [hmodel] at hstep
      exact absurd rfl (hstep _ (List.mem_append_right _ (List.mem_singleton_self _))).1
    | some model =>
      rw [hmodel] at hstep
      exact Follows.foldl (fun m record => mono_mergeRecord _ m record)
        (fun record h hrecord => h.mergeRecord hrecord) _ h hstep

/-- **When the merge keeps the layout of the records**, if it reports no error and no collision of a
named item: no record loses a field to the trimming, the program has its own names once, and no
elementary item of a record has the name of a record before it. -/
theorem keepsLayout_iff
    (hquiet : Quiet (materialize program models programModels).diagnostics) :
    KeepsLayout (materialize program models programModels) ↔
      (∀ record ∈ copied program models programModels, record.2.2 = true) ∧
        (namesOf program.workingStorage).Nodup ∧
        LeavesApart ((copied program models programModels).map fun record => record.2.1) := by
  have h := follows_materialize hquiet
  rw [KeepsLayout, h.taken.nodup, h.appended]
  refine and_congr_left fun _ => ?_
  rw [List.forall_mem_map]
  exact forall₂_congr fun record hrecord => (h.intact record hrecord).symm

end Loop

/-! ### A record with `FILLER`s -/

/-- A program that copies `LAYOUT` and has no data of its own. -/
def copying : Program :=
  ⟨"MAIN".toList, ["LAYOUT".toList], []⟩

/-- The copybook `LAYOUT` with the record `R`, whose items have one character each. -/
def layoutOf (names : List String) (name : Text) : Option CopybookModel :=
  if name = "LAYOUT".toList then
    some ⟨name, [Redefines.textItem "R" 0 none
      (names.map fun item => Redefines.textItem item 1 none [])]⟩
  else none

/-- Of two `FILLER`s in a record the second is left out, and what follows it moves up. -/
theorem not_keepsLayout : ¬∀ (program : Program) (models : Text → Option CopybookModel)
    (programModels : Text × Text → Option CopybookModel),
    Quiet (materialize program models programModels).diagnostics →
      KeepsLayout (materialize program models programModels) := by
  intro hall
  have hdiagnostics : (materialize copying (layoutOf ["FILLER", "A", "FILLER", "B"])
      fun _ => none).diagnostics =
        [.collision "MAIN".toList "FILLER".toList "LAYOUT".toList] := by decide
  obtain ⟨hfields, -⟩ := hall copying (layoutOf ["FILLER", "A", "FILLER", "B"]) (fun _ => none) <| by
    rw [hdiagnostics]
    intro d hd
    obtain rfl := List.mem_singleton.1 hd
    refine ⟨by decide, fun _ _ _ heq => ?_⟩
    cases heq
    decide
  have happended : ∀ record ∈ (materialize copying (layoutOf ["FILLER", "A", "FILLER", "B"])
      fun _ => none).appended, (fields record.2).length = (fields record.1).length :=
    fun record hrecord => congrArg List.length (hfields record hrecord)
  exact absurd happended (by decide)

/-- A record with one `FILLER` keeps its layout. -/
theorem keepsLayout_iff_once :
    KeepsLayout (materialize copying (layoutOf ["FILLER", "A", "B"]) fun _ => none) := by
  have hdiagnostics : (materialize copying (layoutOf ["FILLER", "A", "B"])
      fun _ => none).diagnostics = [] := by decide
  refine (keepsLayout_iff (by simp [hdiagnostics, Quiet])).2 ⟨by decide, by decide, ?_⟩
  have hrecords : (copied copying (layoutOf ["FILLER", "A", "B"]) fun _ => none).length = 1 := by
    decide
  intro pre record post hsplit leaf _ _ _ hmem
  -- no record stands before the only one
  have hlength := congrArg List.length hsplit
  rw [List.length_map, hrecords, List.length_append, List.length_cons] at hlength
  obtain rfl : pre = [] := List.length_eq_zero_iff.1 (by omega)
  exact absurd hmem List.not_mem_nil

end CobolJava.CopybookMerge
