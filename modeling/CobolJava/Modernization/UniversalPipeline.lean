/-
**The modernization pipeline.**

`UniversalModernizationPipeline.execute` of `pipeline.py`: discovery, capability report, plan,
generation and assembly, with the gate between plan and generation.  Discovery, generation and the
assembly of a project are parameters, each with the exception it may end with.

Main definitions:

* `ModernizationConfig`, `ModernizationReport`, `Surroundings` — what a run reads and reports;
* `planGate` — what blocks generation;
* `execute` — the run;
* `GateSound`, `OwnLevels` — the law of the gate, and the condition on the identifiers.

Main results:

* `execute_generationSuccess` — a run that reports success has passed the gate;
* `plannedByOwnLevel_iff` — **the plan follows the components themselves** exactly when identifiers
  lead to components of the same support;
* `gateSound_iff` — **code is generated for supported applications only**, under that condition and
  under no other.
-/

import CobolJava.Modernization.TransformationPlan

set_option autoImplicit false

namespace CobolJava.Modernization

/-! ### Configuration and report -/

inductive TargetRuntime
  | springBoot
  | plainJava
  | jakartaEe
  | quarkus
  | micronaut
  deriving DecidableEq, Repr

namespace TargetRuntime

def value : TargetRuntime → String
  | .springBoot => "spring_boot"
  | .plainJava => "plain_java"
  | .jakartaEe => "jakarta_ee"
  | .quarkus => "quarkus"
  | .micronaut => "micronaut"

/-- `plan_output_type_for` -/
def planOutputType : TargetRuntime → String
  | .springBoot => "SPRING_BOOT"
  | .plainJava => "NATIVE_JAVA"
  | .jakartaEe => "JAKARTA_EE"
  | .quarkus => "QUARKUS"
  | .micronaut => "MICRONAUT"

end TargetRuntime

structure ModernizationConfig where
  sourceDir : String
  /-- `Path(source_dir).name` -/
  sourceName : String
  outputDir : String
  applicationId : String
  entrypoint : String
  dockerAvailable : Bool
  targetRuntime : TargetRuntime

structure ModernizationReport where
  applicationId : String
  sourceDir : String
  outputDir : String
  targetRuntime : TargetRuntime
  discoveredPrograms : List String := []
  discoveredCopybooks : List String := []
  discoveredCalls : List String := []
  discoveredFiles : List String := []
  dependencyEdges : ℕ := 0
  capabilityReport : Option CapabilityReport := none
  overallCapability : String := ""
  transformationPlan : Option TransformationPlan := none
  transformableCount : ℕ := 0
  skippedCount : ℕ := 0
  generationSuccess : Bool := false
  generationErrors : List String := []
  generatedProgramIds : List String := []
  generatedProjectDir : String := ""
  generatedEntrypoint : String := ""
  limitations : List String := []
  recommendations : List String := []

structure ApplicationGenerationResult (J : Type) where
  success : Bool
  programIds : List String
  errors : List String
  javaApplication : Option J

structure AssemblyOutcome where
  projectDir : String
  entrypoint : String
  /-- The fail-closed symbols of the Java files of the project, sorted. -/
  failClosedSymbols : List String

/-- What the pipeline calls; `J` is the generated application, an error the text of an exception. -/
structure Surroundings (J : Type) where
  getRuntimeAdapter : TargetRuntime → Except String (J → String → Except String AssemblyOutcome)
  discover : Except String CobolApplication
  scan : CopybookScan
  generate : CobolApplication → String → Except String (ApplicationGenerationResult J)

variable {J : Type}

/-! ### The gate -/

/-- The ids of the entries of a type that are left out. -/
def skipped (plan : TransformationPlan) (componentType : String) : List String :=
  (plan.components.filter fun c => c.componentType = componentType ∧ c.action = .skip).map
    ComponentPlan.componentId

/-- The reasons of the entries with one of the ids. -/
def reasonsOf (entries : List ComponentPlan) (ids : List String) : List String :=
  (entries.filter fun c => c.componentId ∈ ids ∧ c.reason ≠ "").map ComponentPlan.reason

/-- What blocks generation: the errors, limitations and recommendations of the report. -/
def planGate (plan : TransformationPlan) : Option (List String × List String × List String) :=
  let programs := skipped plan "PROGRAM"
  let calls := skipped plan "CALL"
  let copybooks := skipped plan "COPYBOOK"
  if copybooks ≠ [] ∧ programs = [] ∧ calls = [] then
    some (("Transformation plan contains non-transformable copybooks: " ++
          ", ".intercalate copybooks) :: reasonsOf plan.components copybooks,
      "Transformation blocked by capability plan" :: reasonsOf plan.components copybooks, [])
  else if calls ≠ [] ∧ programs = [] then
    some (["Transformation plan contains non-transformable CALLs: " ++ ", ".intercalate calls],
      "Transformation blocked by capability plan" :: reasonsOf plan.components calls, [])
  else if programs ≠ [] then
    some (["Transformation plan contains non-transformable programs: " ++
          ", ".intercalate programs],
      "Transformation blocked by capability plan" ::
        reasonsOf (plan.components.filter fun c => c.componentType = "PROGRAM") programs,
      ["Add a producer/transformer for the blocked constructs or " ++
        "provide an explicit manual transformation path"])
  else none

/-! ### A run -/

/-- `_fill_discovery` -/
def fillDiscovery (report : ModernizationReport) (application : CobolApplication) :
    ModernizationReport :=
  { report with
    discoveredPrograms := application.programs.map CobolProgramUnit.programId
    discoveredCopybooks := application.copybooks
    discoveredCalls := (application.edges.filter DependencyEdge.isCall).map DependencyEdge.callId
    discoveredFiles := (application.edges.filter fun edge =>
      match edge.edgeType with
      | .fileRead _ | .fileWrite _ => true
      | _ => false).map DependencyEdge.target
    dependencyEdges := application.edges.length }

def targetDisclosure : TargetRuntime → List String
  | .springBoot => []
  | .plainJava =>
      ["target_runtime=plain_java: generation here; Maven build + " ++
        "jar execution + fresh oracle comparison are produced per " ++
        "workload by the verification pipeline (no universal equivalence claim)"]
  | .jakartaEe =>
      ["target_runtime=jakarta_ee: generation profile here; the " ++
        "dependency-free jar builds/executes offline via the Maven " ++
        "lane with fresh per-workload oracle comparison — no Jakarta " ++
        "EE server runtime and no universal equivalence claim"]
  | target =>
      ["target_runtime=" ++ target.value ++ ": command-mode " ++
        "application (the run unit executes once inside the " ++
        "framework container; no HTTP endpoints, no native image); " ++
        "Maven build + jar execution + fresh oracle comparison are " ++
        "produced per workload by the verification pipeline (no universal equivalence claim)"]

/-- `_derive_limitations`, of a run whose generation was successful. -/
def deriveLimitations (config : ModernizationConfig) (capability : CapabilityReport) :
    List String × List String :=
  let unsupported := capability.components.countP fun c => c.level = .unsupported
  let unavailable := capability.components.countP fun c => c.level = .unavailable
  let limitations :=
    (if 0 < unsupported then
      [toString unsupported ++ " component(s) contain unsupported constructs"] else []) ++
    ((if 0 < unavailable then
      [toString unavailable ++ " component(s) require unavailable infrastructure"] else []) ++
      targetDisclosure config.targetRuntime)
  (if limitations = [] then ["No limitations identified"] else limitations,
    (if 0 < unsupported then
      ["Add transformer support for unsupported constructs or manual intervention"] else []) ++
    if 0 < unavailable then ["Ensure Docker is running with required images"] else [])

/-- Phase 5, with the generated application. -/
def assemblePhase (assemble : J → String → Except String AssemblyOutcome)
    (config : ModernizationConfig) (capability : CapabilityReport) (programIds : List String)
    (javaApplication : J) (report : ModernizationReport) : ModernizationReport :=
  match assemble javaApplication config.entrypoint with
  | .error e =>
      { report with
        generationErrors := report.generationErrors ++ ["Assembly failed: " ++ e]
        generatedProgramIds := programIds
        limitations := ["Assembly failed: " ++ e] }
  | .ok outcome =>
      if outcome.failClosedSymbols ≠ [] then
        let errors := outcome.failClosedSymbols.map fun symbol =>
          "Unsupported construct in generated Java: " ++ symbol
        { report with
          generatedProgramIds := programIds
          generationErrors := errors
          limitations := "Transformation failed" :: errors }
      else
        let (limitations, recommendations) := deriveLimitations config capability
        { report with
          generationSuccess := true
          generatedProgramIds := programIds
          generatedProjectDir := outcome.projectDir
          generatedEntrypoint := outcome.entrypoint
          limitations, recommendations }

def transformPhase (env : Surroundings J)
    (assemble : J → String → Except String AssemblyOutcome) (config : ModernizationConfig)
    (application : CobolApplication) (capability : CapabilityReport)
    (report : ModernizationReport) : ModernizationReport :=
  match env.generate application config.entrypoint with
  | .error e =>
      { report with
        generationErrors := [e]
        limitations := ["Transformation exception: " ++ e] }
  | .ok result =>
      if !result.success then
        { report with
          generationErrors := result.errors
          limitations := "Transformation failed" :: result.errors }
      else
        match result.javaApplication with
        | none =>
            { report with
              generationErrors := ["Transformation produced no Java application"]
              limitations := ["Transformation produced no Java application"] }
        | some javaApplication =>
            assemblePhase assemble config capability result.programIds javaApplication report

/-- Phases 2 and 3, and what follows unless the gate is shut. -/
def analyzePhase (env : Surroundings J)
    (assemble : J → String → Except String AssemblyOutcome) (config : ModernizationConfig)
    (application : CobolApplication) (report : ModernizationReport) : ModernizationReport :=
  let capability := analyze env.scan config.dockerAvailable application
  let plan := generatePlan application capability config.entrypoint
    config.targetRuntime.planOutputType
  let report :=
    { report with
      capabilityReport := some capability
      overallCapability := capability.overallLevel.value
      transformationPlan := some plan
      transformableCount := plan.transformablePrograms
      skippedCount := plan.skippedPrograms }
  match planGate plan with
  | some (generationErrors, limitations, recommendations) =>
      { report with generationErrors, limitations, recommendations }
  | none => transformPhase env assemble config application capability report

def initialReport (config : ModernizationConfig) : ModernizationReport :=
  { applicationId := if config.applicationId = "" then config.sourceName else config.applicationId
    sourceDir := config.sourceDir
    outputDir := config.outputDir
    targetRuntime := config.targetRuntime }

/-- `execute` -/
def execute (env : Surroundings J) (config : ModernizationConfig) : ModernizationReport :=
  let report := initialReport config
  match env.getRuntimeAdapter config.targetRuntime with
  | .error e => { report with limitations := ["Runtime adapter unavailable: " ++ e] }
  | .ok assemble =>
      match env.discover with
      | .error e => { report with limitations := ["Discovery failed: " ++ e] }
      | .ok application =>
          let report := fillDiscovery report application
          if application.discoveryErrors ≠ [] then
            { report with
              limitations := "Discovery incomplete; transformation is fail-closed." ::
                application.discoveryErrors }
          else analyzePhase env assemble config application report

/-! ### What a run reports -/

/-- The application a run analyzes. -/
def analyzed (env : Surroundings J) (config : ModernizationConfig) : Option CobolApplication :=
  match env.getRuntimeAdapter config.targetRuntime, env.discover with
  | .ok _, .ok application => if application.discoveryErrors = [] then some application else none
  | _, _ => none

section Reports

variable (env : Surroundings J) (assemble : J → String → Except String AssemblyOutcome)
  (config : ModernizationConfig) (application : CobolApplication) (capability : CapabilityReport)

theorem assemblePhase_keeps (programIds : List String) (javaApplication : J)
    (report : ModernizationReport) :
    (assemblePhase assemble config capability programIds javaApplication report).capabilityReport =
        report.capabilityReport ∧
      (assemblePhase assemble config capability programIds javaApplication
        report).transformationPlan = report.transformationPlan := by
  unfold assemblePhase
  cases assemble javaApplication config.entrypoint with
  | error e => exact ⟨rfl, rfl⟩
  | ok outcome => dsimp only; split <;> exact ⟨rfl, rfl⟩

theorem transformPhase_keeps (report : ModernizationReport) :
    (transformPhase env assemble config application capability report).capabilityReport =
        report.capabilityReport ∧
      (transformPhase env assemble config application capability report).transformationPlan =
        report.transformationPlan := by
  unfold transformPhase
  cases env.generate application config.entrypoint with
  | error e => exact ⟨rfl, rfl⟩
  | ok result =>
      dsimp only
      split
      · exact ⟨rfl, rfl⟩
      · cases result.javaApplication with
        | none => exact ⟨rfl, rfl⟩
        | some javaApplication => exact assemblePhase_keeps ..

theorem analyzePhase_keeps (report : ModernizationReport) :
    (analyzePhase env assemble config application report).capabilityReport =
        some (analyze env.scan config.dockerAvailable application) ∧
      (analyzePhase env assemble config application report).transformationPlan =
        some (generatePlan application (analyze env.scan config.dockerAvailable application)
          config.entrypoint config.targetRuntime.planOutputType) := by
  unfold analyzePhase
  dsimp only
  split
  · exact ⟨rfl, rfl⟩
  · exact transformPhase_keeps ..

theorem analyzePhase_gate {report : ModernizationReport} (hreport : report.generationSuccess = false)
    (h : (analyzePhase env assemble config application report).generationSuccess = true) :
    planGate (generatePlan application (analyze env.scan config.dockerAvailable application)
      config.entrypoint config.targetRuntime.planOutputType) = none := by
  unfold analyzePhase at h
  dsimp only at h
  split at h
  · exact absurd h (by simp [hreport])
  · assumption

/-- What a run reports of the application it analyzes. -/
theorem execute_eq (env : Surroundings J) (config : ModernizationConfig) :
    (∃ application assemble, analyzed env config = some application ∧
      execute env config = analyzePhase env assemble config application
        (fillDiscovery (initialReport config) application)) ∨
    analyzed env config = none ∧ (execute env config).capabilityReport = none ∧
      (execute env config).transformationPlan = none ∧
        (execute env config).generationSuccess = false := by
  unfold execute analyzed
  cases env.getRuntimeAdapter config.targetRuntime with
  | error e => exact .inr ⟨rfl, rfl, rfl, rfl⟩
  | ok assemble =>
      cases env.discover with
      | error e => exact .inr ⟨rfl, rfl, rfl, rfl⟩
      | ok application =>
          dsimp only
          by_cases herrors : application.discoveryErrors = []
          · rw [if_pos herrors, if_neg (not_not.2 herrors)]
            exact .inl ⟨application, assemble, rfl, rfl⟩
          · rw [if_neg herrors, if_pos herrors]
            exact .inr ⟨rfl, rfl, rfl, rfl⟩

end Reports

/-! ### The law of the gate -/

def FullySupported (report : CapabilityReport) : Prop :=
  ∀ c ∈ report.components, c.componentType ∈ ["PROGRAM", "COPYBOOK", "CALL", "FILE"] →
    c.level = .supported

/-- An entry is planned as the level of its own component asks for. -/
def PlannedAs (c : ComponentCapability) (p : ComponentPlan) : Prop :=
  p.componentId = c.componentId ∧ p.action = c.level.action

/-- Programs and copybooks have one entry per component, in the order of the report; a CALL has an
entry when it is to be left out. -/
structure PlannedByOwnLevel (report : CapabilityReport) (plan : TransformationPlan) : Prop where
  programs : List.Forall₂ PlannedAs (ofType report.components "PROGRAM")
    (plannedOfType plan.components "PROGRAM")
  copybooks : List.Forall₂ PlannedAs (ofType report.components "COPYBOOK")
    (plannedOfType plan.components "COPYBOOK")
  calls : ∀ p ∈ plannedOfType plan.components "CALL", ∃ c ∈ ofType report.components "CALL", PlannedAs c p
  blocked : ∀ c ∈ ofType report.components "CALL", c.level ≠ .supported →
    ∃ p ∈ plannedOfType plan.components "CALL", PlannedAs c p
  nothingElse : ∀ p ∈ plan.components, p.componentType ∈ ["PROGRAM", "COPYBOOK", "CALL"]

/-- Code is generated for supported applications only, and the plan follows the components. -/
def GateSound (result : ModernizationReport) : Prop :=
  (result.generationSuccess = true →
    ∃ report, result.capabilityReport = some report ∧ FullySupported report) ∧
  ∀ report, result.capabilityReport = some report →
    ∀ plan, result.transformationPlan = some plan → PlannedByOwnLevel report plan

/-- What is found under the identifier of a component is supported exactly when the component is. -/
def SameSupport (report : CapabilityReport) (c : ComponentCapability) : Prop :=
  ∀ found, capabilityLookup report c.componentId = some found →
    (found.level = .supported ↔ c.level = .supported)

/-- No program and no copybook has an identifier that leads to a component of another support. -/
def OwnLevels (report : CapabilityReport) : Prop :=
  ∀ c ∈ report.components, c.componentType = "PROGRAM" ∨ c.componentType = "COPYBOOK" →
    SameSupport report c

/-- An entry made from what is found under the identifier of a component is planned as the component
asks for when both are supported or neither is. -/
theorem plannedAs_iff {report : CapabilityReport} {c : ComponentCapability} {id : String}
    {plan : Option ComponentCapability → ComponentPlan} (hc : c ∈ report.components)
    (hid : c.componentId = id) (hplan : ∀ capability, (plan capability).componentId = id)
    (haction : ∀ capability, (plan (some capability)).action = capability.level.action) :
    PlannedAs c (plan (capabilityLookup report id)) ↔ SameSupport report c := by
  obtain ⟨found, hfound⟩ := Py.lastBy_isSome ComponentCapability.componentId hc
  have hlookup : capabilityLookup report c.componentId = some found := hfound
  rw [SameSupport, ← hid, hlookup, PlannedAs, hplan, haction, CapabilityLevel.action_eq_action,
    and_iff_right hid.symm]
  exact ⟨fun h other hother => Option.some.inj hother ▸ h, fun h => h found rfl⟩

theorem forall₂_plannedAs_iff {ι : Type} {xs : List ι} {component : ι → ComponentCapability}
    {entry : ι → ComponentPlan} {P : ComponentCapability → Prop}
    (h : ∀ x ∈ xs, PlannedAs (component x) (entry x) ↔ P (component x)) :
    List.Forall₂ PlannedAs (xs.map component) (xs.map entry) ↔
      ∀ c ∈ xs.map component, P c := by
  rw [List.forall₂_map_left_iff, List.forall₂_map_right_iff, List.forall₂_same,
    List.forall_mem_map]
  exact forall₂_congr h

section Law

variable (scan : CopybookScan) (dockerAvailable : Bool) (application : CobolApplication)
  (entrypoint outputType : String)

theorem programPlans_iff :
    List.Forall₂ PlannedAs (ofType (analyze scan dockerAvailable application).components "PROGRAM")
        (programPlans application (analyze scan dockerAvailable application)) ↔
      ∀ c ∈ ofType (analyze scan dockerAvailable application).components "PROGRAM",
        SameSupport (analyze scan dockerAvailable application) c := by
  have hmem := ofType_programs scan dockerAvailable application ▸
    fun c (hc : c ∈ ofType (analyze scan dockerAvailable application).components "PROGRAM") =>
      (List.mem_filter.1 hc).1
  rw [ofType_programs, programPlans]
  refine forall₂_plannedAs_iff fun unit hunit => plannedAs_iff (hmem _ (List.mem_map_of_mem hunit))
    ?_ (fun capability => (planProgram_id ..).1) (planProgram_action unit.programId)
  rw [withInfrastructure_componentId, (programComponent_id unit).1]

theorem copybookPlans_iff :
    List.Forall₂ PlannedAs (ofType (analyze scan dockerAvailable application).components "COPYBOOK")
        (copybookPlans application (analyze scan dockerAvailable application)) ↔
      ∀ c ∈ ofType (analyze scan dockerAvailable application).components "COPYBOOK",
        SameSupport (analyze scan dockerAvailable application) c := by
  have hmem := ofType_copybooks scan dockerAvailable application ▸
    fun c (hc : c ∈ ofType (analyze scan dockerAvailable application).components "COPYBOOK") =>
      (List.mem_filter.1 hc).1
  rw [ofType_copybooks, copybookPlans]
  refine forall₂_plannedAs_iff fun name hname => plannedAs_iff (hmem _ (List.mem_map_of_mem hname))
    ?_ (fun capability => (planCopybook_id ..).1) (planCopybook_action name)
  rw [withInfrastructure_componentId, (analyzeCopybook_id ..).1]

/-- **The plan follows the components themselves** exactly when identifiers lead to components of the
same support. -/
theorem plannedByOwnLevel_iff :
    PlannedByOwnLevel (analyze scan dockerAvailable application)
        (generatePlan application (analyze scan dockerAvailable application) entrypoint
          outputType) ↔
      OwnLevels (analyze scan dockerAvailable application) := by
  have hparts : OwnLevels (analyze scan dockerAvailable application) ↔
      (∀ c ∈ ofType (analyze scan dockerAvailable application).components "PROGRAM",
        SameSupport (analyze scan dockerAvailable application) c) ∧
      ∀ c ∈ ofType (analyze scan dockerAvailable application).components "COPYBOOK",
        SameSupport (analyze scan dockerAvailable application) c := by
    simp only [OwnLevels, ofType, List.mem_filter, decide_eq_true_eq, and_imp, or_imp, forall_and]
  have hplan := plannedOfType_plannedComponents application
    (analyze scan dockerAvailable application)
  rw [hparts, ← programPlans_iff, ← copybookPlans_iff]
  constructor
  · rintro ⟨hprograms, hcopybooks, -, -, -⟩
    rw [generatePlan, hplan] at hprograms hcopybooks
    exact ⟨by simpa using hprograms, by simpa using hcopybooks⟩
  · rintro ⟨hprograms, hcopybooks⟩
    refine ⟨?_, ?_, ?_, ?_, ?_⟩
    · rw [generatePlan, hplan]
      simpa using hprograms
    · rw [generatePlan, hplan]
      simpa using hcopybooks
    · -- an entry for a CALL leaves it out
      rw [generatePlan, hplan]
      intro p hp
      obtain ⟨-, haction, c, hc, hcall, hid, hlevel⟩ := callPlans_blocked (by simpa using hp)
      exact ⟨c, List.mem_filter.2 ⟨hc, decide_eq_true hcall⟩, hid.symm,
        haction.trans (if_neg hlevel).symm⟩
    · rw [generatePlan, hplan]
      intro c hc hlevel
      obtain ⟨hmem, hcall⟩ := List.mem_filter.1 hc
      obtain ⟨p, hp, hid⟩ := mem_callPlans_of_not_supported application hmem
        (of_decide_eq_true hcall) hlevel
      exact ⟨p, by simpa using hp, hid,
        (callPlans_blocked hp).2.1.trans (if_neg hlevel).symm⟩
    · intro p hp
      rcases List.mem_append.1 hp with hp | hp
      · simp [programPlans_type hp]
      · rcases List.mem_append.1 hp with hp | hp
        · simp [copybookPlans_type hp]
        · simp [callPlans_type hp]

end Law

theorem skipped_eq_nil {plan : TransformationPlan} {componentType : String} :
    skipped plan componentType = [] ↔
      ∀ p ∈ plannedOfType plan.components componentType, p.action ≠ .skip := by
  simp [skipped, plannedOfType]

theorem planGate_eq_none {plan : TransformationPlan} (h : planGate plan = none) :
    skipped plan "PROGRAM" = [] ∧ skipped plan "COPYBOOK" = [] ∧ skipped plan "CALL" = [] := by
  unfold planGate at h
  dsimp only at h
  split at h
  · cases h
  · split at h
    · cases h
    · split at h
      · cases h
      · rename_i hcopybooks hcalls hprograms
        have hprograms := not_not.1 hprograms
        have hcalls : skipped plan "CALL" = [] := by
          by_contra hne
          exact hcalls ⟨hne, hprograms⟩
        exact ⟨hprograms, by_contra fun hne => hcopybooks ⟨hne, hprograms, hcalls⟩, hcalls⟩

theorem CapabilityLevel.supported_of_action {level : CapabilityLevel} (h : level.action ≠ .skip) :
    level = .supported := by
  by_contra hne
  exact h (if_neg hne)

theorem supported_of_planned {components : List ComponentCapability} {entries : List ComponentPlan}
    (hplanned : List.Forall₂ PlannedAs components entries) (h : ∀ p ∈ entries, p.action ≠ .skip) :
    ∀ c ∈ components, c.level = .supported := by
  induction hplanned with
  | nil => simp
  | cons hplanned _ ih =>
      rw [List.forall_mem_cons] at h ⊢
      exact ⟨CapabilityLevel.supported_of_action (hplanned.2 ▸ h.1), ih h.2⟩

/-- A plan that follows the components and passes the gate is one of a supported application. -/
theorem fullySupported_of_gate {scan : CopybookScan} {dockerAvailable : Bool}
    {application : CobolApplication} {plan : TransformationPlan}
    (hplanned : PlannedByOwnLevel (analyze scan dockerAvailable application) plan)
    (hgate : planGate plan = none) :
    FullySupported (analyze scan dockerAvailable application) := by
  obtain ⟨hprograms, hcopybooks, hcalls⟩ := planGate_eq_none hgate
  rw [skipped_eq_nil] at hprograms hcopybooks hcalls
  have hprogram := supported_of_planned hplanned.programs hprograms
  intro c hc htype
  simp only [List.mem_cons, List.not_mem_nil, or_false] at htype
  rcases htype with htype | htype | htype | htype
  · exact hprogram c (List.mem_filter.2 ⟨hc, decide_eq_true htype⟩)
  · exact supported_of_planned hplanned.copybooks hcopybooks c
      (List.mem_filter.2 ⟨hc, decide_eq_true htype⟩)
  · by_contra hlevel
    obtain ⟨p, hp, hid, haction⟩ :=
      hplanned.blocked c (List.mem_filter.2 ⟨hc, decide_eq_true htype⟩) hlevel
    exact hcalls p hp (haction.trans (if_neg hlevel))
  · -- the verdict on a file is a finding of its program
    obtain ⟨unit, hunit, hfile⟩ := mem_files scan dockerAvailable application hc htype
    have hunit : withInfrastructure dockerAvailable (programComponent unit) ∈
        ofType (analyze scan dockerAvailable application).components "PROGRAM" := by
      rw [ofType_programs]
      exact List.mem_map_of_mem hunit
    exact files_supported (supported_of_withInfrastructure (hprogram _ hunit)) c hfile

/-- **Code is generated for supported applications only**, and the plan follows the components, exactly
when no program or copybook shares its identifier with a component of another support that is found in
its place. -/
theorem gateSound_iff {J : Type} (env : Surroundings J) (config : ModernizationConfig) :
    GateSound (execute env config) ↔ ∀ application, analyzed env config = some application →
      OwnLevels (analyze env.scan config.dockerAvailable application) := by
  rcases execute_eq env config with ⟨application, assemble, hanalyzed, hrun⟩ |
      ⟨hnone, hreport, hplan, hsuccess⟩
  · obtain ⟨hreport, hplan⟩ := analyzePhase_keeps env assemble config application
      (fillDiscovery (initialReport config) application)
    rw [hanalyzed, GateSound, hrun, hreport, hplan]
    simp only [Option.some.injEq, forall_eq', exists_eq_left']
    rw [plannedByOwnLevel_iff, and_iff_right_iff_imp]
    intro hown hsuccess
    exact fullySupported_of_gate (plannedByOwnLevel_iff _ _ _ _ _ |>.2 hown)
      (analyzePhase_gate env assemble config application rfl hsuccess)
  · rw [hnone, GateSound, hreport, hplan, hsuccess]
    simp

/-! ### A program and its copybook -/

/-- A program with packed fields, which is supported in part only. -/
def customerUnit : CobolProgramUnit where
  programId := "CUSTOMER"
  program := some
    { programId := "CUSTOMER"
      fileDefinitions := []
      linkageSection := []
      callStatements := []
      findings := [⟨"COMP-3", .partly, "COMP-3 (packed decimal) value semantics are mapped; " ++
        "packed sign/byte encoding is not certified; items: BALANCE (COMP-3)"⟩] }
  copybooks := [⟨"CUSTOMER", "RESOLVED", "copy/CUSTOMER.cpy"⟩]
  fileDependencies := []
  parseError := ""
  parseDiagnostics := []

/-- The program and the copybook of its name. -/
def customerApplication : CobolApplication where
  applicationId := "customer"
  programs := [customerUnit]
  copybooks := ["CUSTOMER"]
  edges := [⟨"CUSTOMER", "CUSTOMER", .copy⟩]
  discoveryErrors := []

def customerSurroundings : Surroundings Unit where
  getRuntimeAdapter _ := .ok fun _ _ => .ok ⟨"out/pipeline-customer", "Customer", []⟩
  discover := .ok customerApplication
  scan :=
    { readText := fun _ => .ok "01 CUSTOMER-RECORD. 05 CUSTOMER-ID PIC 9(5)."
      collect := fun _ => ([], [("CUSTOMER", [])])
      sourceLevel := fun _ => none
      stem := fun _ => "CUSTOMER" }
  generate _ _ := .ok ⟨true, ["CUSTOMER"], [], some ()⟩

def customerConfig : ModernizationConfig where
  sourceDir := "src/customer"
  sourceName := "customer"
  outputDir := "out"
  applicationId := ""
  entrypoint := "CUSTOMER"
  dockerAvailable := true
  targetRuntime := .springBoot

/-- Code is generated for the program, which takes the support of its copybook for its own. -/
theorem sharedName_not_sound : ¬ GateSound (execute customerSurroundings customerConfig) := by
  rintro ⟨hgenerated, -⟩
  obtain ⟨report, hreport, hfull⟩ := hgenerated (by decide +kernel)
  obtain rfl := Option.some.inj hreport
  have hprogram := hfull (programComponent customerUnit) (by decide +kernel) (by decide +kernel)
  exact absurd hprogram (by decide +kernel)

end CobolJava.Modernization
