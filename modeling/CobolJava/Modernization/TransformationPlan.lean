/-
**The transformation plan of an application.**

`TransformationPlanGenerator` of `transformation_plan.py`: one entry per program and copybook, planned
by the component the report holds under its identifier, and one entry per CALL that cannot be
dispatched.

Main definitions:

* `TransformationPlan`, `ComponentPlan` — the plan;
* `capabilityLookup` — the component found under an identifier;
* `planProgram`, `planCopybook`, `blockedCalls` — the entries;
* `generatePlan` — the plan of a report.

Main results:

* `planProgram_action`, `planCopybook_action` — entries are planned as the component found asks for;
* `mem_callPlans_of_not_supported` — **no unsupported CALL escapes**: each has an entry;
* `callPlans_blocked` — an entry for a CALL is one of a component that is not supported.
-/

import CobolJava.Modernization.CapabilityReport

set_option autoImplicit false

namespace CobolJava.Modernization

inductive TransformerType
  | internalNative
  | openSource4j
  | skip
  deriving DecidableEq, Repr

inductive TransformationAction
  | transform
  | skip
  | manual
  deriving DecidableEq, Repr

structure ComponentPlan where
  componentId : String
  componentType : String
  action : TransformationAction
  transformer : TransformerType
  reason : String
  deriving DecidableEq, Repr

structure AssemblyPlan where
  outputType : String
  basePackage : String
  applicationName : String
  includeServiceRegistry : Bool

structure OraclePlan where
  sourceFormat : String
  entryProgram : String

structure TransformationPlan where
  applicationId : String
  components : List ComponentPlan
  assembly : AssemblyPlan
  oracle : OraclePlan
  totalPrograms : ℕ
  transformablePrograms : ℕ
  skippedPrograms : ℕ

/-- An entry that is left out of the transformation. -/
def skipPlan (componentId componentType reason : String) : ComponentPlan :=
  ⟨componentId, componentType, .skip, .skip, reason⟩

def transformPlan (componentId componentType reason : String) : ComponentPlan :=
  ⟨componentId, componentType, .transform, .internalNative, reason⟩

/-! ### Programs and copybooks -/

/-- `capability_lookup.get(id)`; of the components with one identifier the last one counts. -/
def capabilityLookup (report : CapabilityReport) (componentId : String) :
    Option ComponentCapability :=
  Py.lastBy ComponentCapability.componentId report.components componentId

/-- `_plan_program` -/
def planProgram (programId : String) : Option ComponentCapability → ComponentPlan
  | none => skipPlan programId "PROGRAM"
      "No capability analysis result — transformation blocked (unknown capability)"
  | some capability =>
      match capability.level with
      | .supported => transformPlan programId "PROGRAM" "All constructs supported"
      | .partly => skipPlan programId "PROGRAM"
          ("Partial support — transformation blocked: " ++ capability.reason)
      | .unsupported => skipPlan programId "PROGRAM" ("Unsupported: " ++ capability.reason)
      | .unavailable => skipPlan programId "PROGRAM" ("Unavailable: " ++ capability.reason)
      | .unknown => skipPlan programId "PROGRAM"
          "Unknown capability level 'CapabilityLevel.UNKNOWN' — transformation blocked"

def planCopybook (name : String) : Option ComponentCapability → ComponentPlan
  | none => skipPlan name "COPYBOOK"
      "No capability analysis result — copybook transformation blocked"
  | some capability =>
      if capability.level = .supported then transformPlan name "COPYBOOK" capability.reason
      else skipPlan name "COPYBOOK" (capability.level.value ++ ": " ++ capability.reason)

def programPlans (application : CobolApplication) (report : CapabilityReport) :
    List ComponentPlan :=
  application.programs.map fun unit =>
    planProgram unit.programId (capabilityLookup report unit.programId)

def copybookPlans (application : CobolApplication) (report : CapabilityReport) :
    List ComponentPlan :=
  application.copybooks.map fun name => planCopybook name (capabilityLookup report name)

/-- The action the level of a component asks for. -/
def CapabilityLevel.action (level : CapabilityLevel) : TransformationAction :=
  if level = .supported then .transform else .skip

theorem CapabilityLevel.action_eq_action {level other : CapabilityLevel} :
    level.action = other.action ↔ (level = .supported ↔ other = .supported) := by
  cases level <;> cases other <;> decide

theorem planProgram_action (programId : String) (capability : ComponentCapability) :
    (planProgram programId (some capability)).action = capability.level.action := by
  unfold planProgram
  cases hlevel : capability.level <;>
    simp [hlevel, skipPlan, transformPlan, CapabilityLevel.action]

theorem planCopybook_action (name : String) (capability : ComponentCapability) :
    (planCopybook name (some capability)).action = capability.level.action := by
  rw [planCopybook, CapabilityLevel.action]
  split <;> rfl

theorem planProgram_id (programId : String) (capability : Option ComponentCapability) :
    (planProgram programId capability).componentId = programId ∧
      (planProgram programId capability).componentType = "PROGRAM" := by
  cases capability with
  | none => exact ⟨rfl, rfl⟩
  | some capability =>
      unfold planProgram
      cases hlevel : capability.level <;> simp [hlevel, skipPlan, transformPlan]

theorem planCopybook_id (name : String) (capability : Option ComponentCapability) :
    (planCopybook name capability).componentId = name ∧
      (planCopybook name capability).componentType = "COPYBOOK" := by
  cases capability with
  | none => exact ⟨rfl, rfl⟩
  | some capability =>
      rw [planCopybook]
      split <;> exact ⟨rfl, rfl⟩

/-! ### CALLs -/

/-- The entries for the edges that are not resolved. -/
def unresolvedCalls (application : CobolApplication) : List ComponentPlan :=
  (application.edges.filter fun edge => edge.isCall && edge.metadataHas "UNRESOLVED").map fun edge =>
    skipPlan edge.callId "CALL" ("Unresolved call target: " ++ edge.target)

/-- One more component that is not supported, unless its CALL is planned. -/
def addBlockedCall (planned : List ComponentPlan) (c : ComponentCapability) : List ComponentPlan :=
  if c.componentType = "CALL" ∧ c.level ≠ .supported ∧
      c.componentId ∉ planned.map ComponentPlan.componentId then
    planned ++ [skipPlan c.componentId "CALL" (c.level.value ++ ": " ++ c.reason)]
  else planned

/-- The entries for CALLs: those not resolved, then every other one that is not supported. -/
def callPlans (application : CobolApplication) (report : CapabilityReport) : List ComponentPlan :=
  report.components.foldl addBlockedCall (unresolvedCalls application)

theorem mem_addBlockedCall {planned : List ComponentPlan} {c : ComponentCapability}
    {p : ComponentPlan} (h : p ∈ addBlockedCall planned c) :
    p ∈ planned ∨ c.componentType = "CALL" ∧ c.level ≠ .supported ∧
      p = skipPlan c.componentId "CALL" (c.level.value ++ ": " ++ c.reason) := by
  unfold addBlockedCall at h
  split at h
  · rename_i hblocked
    rcases List.mem_append.1 h with hp | hp
    · exact .inl hp
    · exact .inr ⟨hblocked.1, hblocked.2.1, List.mem_singleton.1 hp⟩
  · exact .inl h

theorem subset_addBlockedCall (planned : List ComponentPlan) (c : ComponentCapability) :
    planned ⊆ addBlockedCall planned c := by
  unfold addBlockedCall
  split
  · exact List.subset_append_left _ _
  · exact fun _ h => h

theorem exists_addBlockedCall (planned : List ComponentPlan) {c : ComponentCapability}
    (hcall : c.componentType = "CALL") (hlevel : c.level ≠ .supported) :
    ∃ p ∈ addBlockedCall planned c, p.componentId = c.componentId := by
  unfold addBlockedCall
  split
  · exact ⟨_, List.mem_append_right _ (List.mem_singleton_self _), rfl⟩
  · rename_i hplanned
    have hmem : c.componentId ∈ planned.map ComponentPlan.componentId := by
      by_contra hnew
      exact hplanned ⟨hcall, hlevel, hnew⟩
    obtain ⟨p, hp, hid⟩ := List.mem_map.1 hmem
    exact ⟨p, hp, hid⟩

theorem subset_foldl_addBlockedCall (planned : List ComponentPlan)
    (components : List ComponentCapability) :
    planned ⊆ components.foldl addBlockedCall planned := by
  induction components generalizing planned with
  | nil => exact fun _ h => h
  | cons c components ih =>
      intro p hp
      rw [List.foldl_cons]
      exact ih _ (subset_addBlockedCall planned c hp)

theorem mem_foldl_addBlockedCall {planned : List ComponentPlan}
    {components : List ComponentCapability} {p : ComponentPlan}
    (h : p ∈ components.foldl addBlockedCall planned) :
    p ∈ planned ∨ ∃ c ∈ components, c.componentType = "CALL" ∧ c.level ≠ .supported ∧
      p = skipPlan c.componentId "CALL" (c.level.value ++ ": " ++ c.reason) := by
  induction components generalizing planned with
  | nil => exact .inl h
  | cons c components ih =>
      rw [List.foldl_cons] at h
      rcases ih h with hp | ⟨d, hd, hblocked⟩
      · rcases mem_addBlockedCall hp with hp | hblocked
        · exact .inl hp
        · exact .inr ⟨c, List.mem_cons_self, hblocked⟩
      · exact .inr ⟨d, List.mem_cons_of_mem _ hd, hblocked⟩

/-- **No unsupported CALL escapes**: each has an entry. -/
theorem mem_callPlans_of_not_supported (application : CobolApplication) {report : CapabilityReport}
    {c : ComponentCapability} (hc : c ∈ report.components) (hcall : c.componentType = "CALL")
    (hlevel : c.level ≠ .supported) :
    ∃ p ∈ callPlans application report, p.componentId = c.componentId := by
  unfold callPlans
  generalize unresolvedCalls application = planned
  revert hc
  generalize report.components = components
  intro hc
  induction components generalizing planned with
  | nil => simp at hc
  | cons d components ih =>
      rw [List.foldl_cons]
      rcases List.mem_cons.1 hc with rfl | hc
      · -- the entry made here stays to the end of the loop
        obtain ⟨p, hp, hid⟩ := exists_addBlockedCall planned hcall hlevel
        exact ⟨p, subset_foldl_addBlockedCall _ components hp, hid⟩
      · exact ih _ hc

/-! ### The plan -/

def plannedComponents (application : CobolApplication) (report : CapabilityReport) :
    List ComponentPlan :=
  programPlans application report ++
    (copybookPlans application report ++ callPlans application report)

/-- `_resolve_entrypoint` -/
def resolveEntrypoint (components : List ComponentPlan) (requested : String) : String :=
  let allPrograms := components.filter fun c => c.componentType = "PROGRAM"
  let transformable := allPrograms.filter fun c => c.action = .transform
  let asked := if requested = "" then none else
    allPrograms.find? fun c => normalizeCobolName c.componentId = normalizeCobolName requested
  ((asked.or (transformable.head?.or allPrograms.head?)).map ComponentPlan.componentId).getD ""

/-- `generate` -/
def generatePlan (application : CobolApplication) (report : CapabilityReport)
    (entrypoint outputType : String) : TransformationPlan :=
  let components := plannedComponents application report
  let programs := components.filter fun c => c.componentType = "PROGRAM"
  let transformable := programs.countP fun c => c.action = .transform
  { applicationId := application.applicationId
    components
    assembly :=
      { outputType
        basePackage := "com.modernized.app"
        applicationName := application.applicationId
        includeServiceRegistry := 1 < programs.length }
    oracle :=
      { sourceFormat := "free"
        entryProgram := resolveEntrypoint components entrypoint }
    totalPrograms := programs.length
    transformablePrograms := transformable
    skippedPrograms := programs.length - transformable }

theorem metadataHas_unresolved {edge : DependencyEdge} (hcall : edge.isCall = true)
    (hunresolved : edge.metadataHas "UNRESOLVED" = true) :
    edge.metadataHas "resolution=RESOLVED" = false := by
  obtain ⟨source, target, edgeType⟩ := edge
  cases edgeType with
  | call resolution callType =>
      revert hunresolved
      simp only [DependencyEdge.metadataHas, DependencyEdge.metadata]
      cases resolution <;> cases callType <;> decide +kernel
  | copy | fileRead | fileWrite => exact absurd hcall Bool.false_ne_true

theorem analyzeCall_unresolved {edge : DependencyEdge} (hcall : edge.isCall = true)
    (hunresolved : edge.metadataHas "UNRESOLVED" = true) (units : List ComponentCapability) :
    (analyzeCall units edge).level ≠ .supported := by
  unfold analyzeCall
  rw [metadataHas_unresolved hcall hunresolved]
  dsimp only
  split_ifs <;> simp_all

/-- **An entry for a CALL** leaves it out, and is one of a component that is not supported. -/
theorem callPlans_blocked {scan : CopybookScan} {dockerAvailable : Bool}
    {application : CobolApplication} {p : ComponentPlan}
    (h : p ∈ callPlans application (analyze scan dockerAvailable application)) :
    p.componentType = "CALL" ∧ p.action = .skip ∧
      ∃ c ∈ (analyze scan dockerAvailable application).components,
        c.componentType = "CALL" ∧ c.componentId = p.componentId ∧ c.level ≠ .supported := by
  rcases mem_foldl_addBlockedCall h with hp | ⟨c, hc, hcall, hlevel, rfl⟩
  · obtain ⟨edge, hedge, rfl⟩ := List.mem_map.1 hp
    obtain ⟨hmem, hedge⟩ := List.mem_filter.1 hedge
    obtain ⟨hcall, hunresolved⟩ := Bool.and_eq_true_iff.1 hedge
    refine ⟨rfl, rfl, _, List.mem_map_of_mem (List.mem_append_right _ (List.mem_append_right _
      (List.mem_append_left _ (List.mem_map_of_mem (List.mem_filter.2 ⟨hmem, hcall⟩))))), ?_⟩
    have hlevel := analyzeCall_unresolved hcall hunresolved
      (application.programs.flatMap analyzeProgramUnit)
    -- the override touches SUPPORTED components only
    rw [withInfrastructure, if_neg (by simp [hlevel])]
    exact ⟨rfl, rfl, hlevel⟩
  · exact ⟨rfl, rfl, c, hc, hcall, rfl, hlevel⟩

/-! ### The types of the entries -/

def plannedOfType (components : List ComponentPlan) (componentType : String) : List ComponentPlan :=
  components.filter fun p => p.componentType = componentType

theorem plannedOfType_append (components others : List ComponentPlan) (componentType : String) :
    plannedOfType (components ++ others) componentType =
      plannedOfType components componentType ++ plannedOfType others componentType :=
  List.filter_append ..

theorem plannedOfType_eq {components : List ComponentPlan} {componentType : String}
    (h : ∀ p ∈ components, p.componentType = componentType) (other : String) :
    plannedOfType components other = if componentType = other then components else [] := by
  split
  · rename_i heq
    exact List.filter_eq_self.2 fun p hp => decide_eq_true ((h p hp).trans heq)
  · rename_i hne
    exact List.filter_eq_nil_iff.2 fun p hp htype =>
      hne ((h p hp).symm.trans (of_decide_eq_true htype))

theorem programPlans_type {application : CobolApplication} {report : CapabilityReport}
    {p : ComponentPlan} (h : p ∈ programPlans application report) : p.componentType = "PROGRAM" := by
  obtain ⟨unit, _, rfl⟩ := List.mem_map.1 h
  exact (planProgram_id ..).2

theorem copybookPlans_type {application : CobolApplication} {report : CapabilityReport}
    {p : ComponentPlan} (h : p ∈ copybookPlans application report) :
    p.componentType = "COPYBOOK" := by
  obtain ⟨name, _, rfl⟩ := List.mem_map.1 h
  exact (planCopybook_id ..).2

theorem callPlans_type {application : CobolApplication} {report : CapabilityReport}
    {p : ComponentPlan} (h : p ∈ callPlans application report) : p.componentType = "CALL" := by
  rcases mem_foldl_addBlockedCall h with hp | ⟨c, _, _, _, rfl⟩
  · obtain ⟨edge, _, rfl⟩ := List.mem_map.1 hp
    rfl
  · rfl

theorem plannedOfType_plannedComponents (application : CobolApplication) (report : CapabilityReport)
    (componentType : String) :
    plannedOfType (plannedComponents application report) componentType =
      (if "PROGRAM" = componentType then programPlans application report else []) ++
        ((if "COPYBOOK" = componentType then copybookPlans application report else []) ++
          if "CALL" = componentType then callPlans application report else []) := by
  rw [plannedComponents, plannedOfType_append, plannedOfType_append,
    plannedOfType_eq (fun p => programPlans_type), plannedOfType_eq (fun p => copybookPlans_type),
    plannedOfType_eq (fun p => callPlans_type)]

end CobolJava.Modernization
