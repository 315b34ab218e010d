/-
**The capability report of an application.**

`CapabilityAnalyzer` of `capability_analyzer.py`: the components of a discovered application with the
level of support of each.  What the walk over the statements and the source of a program finds is part
of its parsed program, and the reading of copybooks is a parameter.

Main definitions:

* `CapabilityLevel`, `ComponentCapability` — the components of a capability report;
* `CobolApplication` — a discovered application;
* `analyzeProgramUnit`, `analyzeCopybook`, `analyzeCall` — what is reported of each part;
* `analyze` — the report.

Main results:

* `files_supported` — a supported program has supported files only;
* `ofType_programs`, `ofType_copybooks`, `mem_files` — where the components of a type come from.
-/

import CobolJava.Lib.PyLines
import CobolJava.Lib.PyText

set_option autoImplicit false

namespace CobolJava.Modernization

/-! ### Components -/

inductive CapabilityLevel
  | supported
  | partly
  | unknown
  | unsupported
  | unavailable
  deriving DecidableEq, Repr

namespace CapabilityLevel

def value : CapabilityLevel → String
  | .supported => "SUPPORTED"
  | .partly => "PARTIAL"
  | .unknown => "UNKNOWN"
  | .unsupported => "UNSUPPORTED"
  | .unavailable => "UNAVAILABLE"

/-- `_LEVEL_RANK` -/
def rank : CapabilityLevel → ℕ
  | .supported => 0
  | .unavailable => 1
  | .partly => 2
  | .unknown => 3
  | .unsupported => 4

end CapabilityLevel

/-- `worst_level`, of the first level and those behind it. -/
def worstFrom (worst : CapabilityLevel) (levels : List CapabilityLevel) : CapabilityLevel :=
  levels.foldl (fun worst level => if worst.rank < level.rank then level else worst) worst

/-- `worst_level` -/
def worstLevel : List CapabilityLevel → Option CapabilityLevel
  | [] => none
  | level :: levels => some (worstFrom level levels)

theorem worstFrom_eq_supported {levels : List CapabilityLevel} {worst : CapabilityLevel} :
    worstFrom worst levels = .supported ↔
      worst = .supported ∧ ∀ level ∈ levels, level = .supported := by
  induction levels generalizing worst with
  | nil => simp [worstFrom]
  | cons level levels ih =>
      have hstep : worstFrom worst (level :: levels) =
          worstFrom (if worst.rank < level.rank then level else worst) levels := rfl
      rw [hstep, ih, List.forall_mem_cons, ← and_assoc]
      refine and_congr_left fun _ => ?_
      cases worst <;> cases level <;> decide

structure ComponentCapability where
  componentId : String
  componentType : String
  level : CapabilityLevel
  reason : String
  deriving DecidableEq, Repr

structure CapabilityReport where
  applicationId : String
  components : List ComponentCapability
  overallLevel : CapabilityLevel

/-! ### Applications -/

/-- `normalize_cobol_name` -/
def normalizeCobolName (name : String) : String :=
  String.ofList (Py.Chars.upper name.toList)

inductive FileOrganization
  | sequential
  | indexed
  | relative
  deriving DecidableEq, Repr

def FileOrganization.value : FileOrganization → String
  | .sequential => "SEQUENTIAL"
  | .indexed => "INDEXED"
  | .relative => "RELATIVE"

inductive FileAccessMode
  | sequential
  | random
  | dynamic
  deriving DecidableEq, Repr

def FileAccessMode.value : FileAccessMode → String
  | .sequential => "SEQUENTIAL"
  | .random => "RANDOM"
  | .dynamic => "DYNAMIC"

structure FileDefinition where
  name : String
  organization : FileOrganization
  accessMode : FileAccessMode
  alternateKeys : List String

structure CallStatement where
  programName : String
  arguments : List String
  isDynamic : Bool

/-- A construct with its level and what the level rests on. -/
structure Finding where
  key : String
  level : CapabilityLevel
  evidence : String

structure CobolProgram where
  programId : String
  fileDefinitions : List FileDefinition
  /-- The level numbers of the LINKAGE SECTION. -/
  linkageSection : List ℕ
  callStatements : List CallStatement
  /-- What is found in the statements, the data items and the source. -/
  findings : List Finding

structure FileDependency where
  fileName : String
  operation : String
  mode : String

structure CopybookReference where
  copybookName : String
  resolution : String
  resolvedPath : String

structure CobolProgramUnit where
  programId : String
  program : Option CobolProgram
  copybooks : List CopybookReference
  fileDependencies : List FileDependency
  parseError : String
  parseDiagnostics : List String

inductive Resolution
  | unresolved
  | resolved
  | external
  deriving DecidableEq, Repr

def Resolution.value : Resolution → String
  | .unresolved => "UNRESOLVED"
  | .resolved => "RESOLVED"
  | .external => "EXTERNAL"

inductive CallType
  | static
  | dynamic
  | functionPointer
  deriving DecidableEq, Repr

def CallType.value : CallType → String
  | .static => "STATIC"
  | .dynamic => "DYNAMIC"
  | .functionPointer => "FUNCTION-POINTER"

/-- The type of an edge, with what its metadata is made from. -/
inductive EdgeType
  | call (resolution : Resolution) (callType : CallType)
  | copy
  | fileRead (mode : String)
  | fileWrite (mode : String)
  deriving DecidableEq, Repr

def EdgeType.isCall : EdgeType → Bool
  | .call _ _ => true
  | _ => false

structure DependencyEdge where
  source : String
  target : String
  edgeType : EdgeType
  deriving DecidableEq, Repr

namespace DependencyEdge

def isCall (edge : DependencyEdge) : Bool :=
  edge.edgeType.isCall

def metadata (edge : DependencyEdge) : String :=
  match edge.edgeType with
  | .call resolution callType =>
      "resolution=" ++ resolution.value ++ ";call_type=" ++ callType.value
  | .copy => ""
  | .fileRead mode | .fileWrite mode => if mode = "" then "" else "mode=" ++ mode

/-- `text in edge.metadata` -/
def metadataHas (edge : DependencyEdge) (text : String) : Bool :=
  Py.Chars.contains edge.metadata.toList text.toList

/-- The id of a component made from an edge. -/
def callId (edge : DependencyEdge) : String :=
  edge.source ++ "->" ++ edge.target

end DependencyEdge

structure CobolApplication where
  applicationId : String
  programs : List CobolProgramUnit
  copybooks : List String
  edges : List DependencyEdge
  discoveryErrors : List String

/-! ### Programs and their files -/

/-- `file_defs.get(fd.file_name)`; of two definitions the later one counts. -/
def fileDefinition (program : CobolProgram) (fd : FileDependency) : Option FileDefinition :=
  Py.lastBy FileDefinition.name program.fileDefinitions fd.fileName

/-- `_file_capability` -/
def fileCapability (program : CobolProgram) (fd : FileDependency) : CapabilityLevel × String :=
  match fileDefinition program fd with
  | none => (.unsupported, "File dependency " ++ fd.fileName ++ " has no FILE definition")
  | some definition =>
      if definition.alternateKeys ≠ [] then
        (.unsupported, "ALTERNATE RECORD KEY on " ++ fd.fileName ++
          " has no alternate-index lowering")
      else if definition.organization ≠ .sequential then
        if definition.accessMode ≠ .dynamic then
          (.unsupported, definition.organization.value ++ " file " ++ fd.fileName ++
            " with ACCESS MODE " ++ definition.accessMode.value ++ " is outside the " ++
            "certified subset (certified: ACCESS MODE DYNAMIC only)")
        else
          (.supported, definition.organization.value ++ " file " ++ fd.operation ++ " for " ++
            fd.fileName ++ " is lowered for the certified keyed subset and " ++
            "oracle-proven on the shipped fixtures; behavioral equivalence " ++
            "(stdout, FILE STATUS, exit code) is PROVEN for the certified " ++
            "subset. The on-disk record/index representation is an emulation, " ++
            "not VSAM; file-image equivalence is not claimed — the files are " ++
            "certified by their records (key order / RRN).")
      else if definition.accessMode = .dynamic then
        (.unsupported, "Dynamic access mode for " ++ fd.fileName ++ " is outside the " ++
          "certified sequential file boundary")
      else if normalizeCobolName fd.operation = "REWRITE" then
        (.unsupported, "Sequential REWRITE for " ++ fd.fileName ++ " is explicitly " ++
          "unsupported by the file runtime")
      else if fd.operation = "OPEN" ∧ fd.mode = "I-O" then
        (.partly, "OPEN " ++ fd.mode ++ " on " ++ fd.fileName ++ " is not reproduced by the " ++
          "sequential file runtime")
      else (.supported, "Sequential file " ++ fd.operation ++ " within certified boundary")

/-- The findings of a level with their evidence. -/
def named (findings : List Finding) (level : CapabilityLevel) : List String :=
  Py.sortedSet ((findings.filter fun f => f.level = level).map fun f =>
    f.key ++ " (" ++ f.evidence ++ ")")

/-- `_aggregate` -/
def aggregate (findings : List Finding) : CapabilityLevel × String :=
  match worstLevel (findings.map Finding.level) with
  | none | some .supported => (.supported, "All constructs supported")
  | some .unknown =>
      (.unknown, "Support cannot be determined for: " ++ ", ".intercalate
        (Py.sortedSet ((findings.filter fun f => f.level = .unknown).map Finding.key)))
  | some .unsupported =>
      (.unsupported, "Contains unsupported constructs: " ++
        "; ".intercalate (named findings .unsupported))
  | some .partly =>
      (.partly, "Contains partially supported constructs: " ++
        "; ".intercalate (named findings .partly))
  | some .unavailable => (.unavailable, "; ".intercalate (named findings .unavailable))

theorem aggregate_supported {findings : List Finding} :
    (aggregate findings).1 = .supported ↔ ∀ f ∈ findings, f.level = .supported := by
  have hworst : (aggregate findings).1 = .supported ↔
      ∀ level, worstLevel (findings.map Finding.level) = some level → level = .supported := by
    unfold aggregate
    cases worstLevel (findings.map Finding.level) with
    | none => simp
    | some level => cases level <;> simp
  rw [hworst]
  cases findings with
  | nil => simp [worstLevel]
  | cons f findings =>
      simp only [List.map_cons, worstLevel, Option.some.injEq, forall_eq', worstFrom_eq_supported,
        List.forall_mem_map, List.forall_mem_cons]

/-- The verdict on a file blocks its program. -/
def blocksProgram (level : CapabilityLevel) : Bool :=
  [.unsupported, .partly, .unknown].contains level

def fileFindings (program : CobolProgram) (fds : List FileDependency) : List Finding :=
  fds.filterMap fun fd =>
    let (level, reason) := fileCapability program fd
    if blocksProgram level then some ⟨"file " ++ fd.fileName, level, reason⟩ else none

/-- The findings of a unit with a parsed program. -/
def unitFindings (unit : CobolProgramUnit) (program : CobolProgram) : List Finding :=
  (if unit.parseError = "" then [] else
      [⟨"parse_error", .unsupported, "Parser raised CobolParseError: " ++ unit.parseError⟩]) ++
    (unit.parseDiagnostics.map fun message => ⟨"unparsed_statement", .unsupported, message⟩) ++
    program.findings ++ fileFindings program unit.fileDependencies

def programComponent (unit : CobolProgramUnit) : ComponentCapability :=
  match unit.program with
  | none => ⟨unit.programId, "PROGRAM", .unsupported, "Failed to parse program"⟩
  | some program =>
      let (level, reason) := aggregate (unitFindings unit program)
      ⟨unit.programId, "PROGRAM", level, reason⟩

def fileComponents (unit : CobolProgramUnit) : List ComponentCapability :=
  match unit.program with
  | none => []
  | some program => unit.fileDependencies.map fun fd =>
      let (level, reason) := fileCapability program fd
      ⟨unit.programId ++ ":" ++ fd.fileName, "FILE", level, reason⟩

/-- `_analyze_program_unit` -/
def analyzeProgramUnit (unit : CobolProgramUnit) : List ComponentCapability :=
  programComponent unit :: fileComponents unit

theorem blocksProgram_fileCapability (program : CobolProgram) (fd : FileDependency) :
    blocksProgram (fileCapability program fd).1 = false ↔
      (fileCapability program fd).1 = .supported := by
  have hrange : (fileCapability program fd).1 ≠ .unavailable := by
    unfold fileCapability
    cases fileDefinition program fd with
    | none => simp
    | some definition => dsimp only; split_ifs <;> simp
  revert hrange
  cases (fileCapability program fd).1 <;> decide

/-- **A supported program has supported files only.** -/
theorem files_supported {unit : CobolProgramUnit}
    (h : (programComponent unit).level = .supported) :
    ∀ c ∈ fileComponents unit, c.level = .supported := by
  unfold programComponent at h
  unfold fileComponents
  cases hprogram : unit.program with
  | none => simp
  | some program =>
      rw [hprogram] at h
      intro c hc
      obtain ⟨fd, hfd, rfl⟩ := List.mem_map.1 hc
      -- a verdict that is not SUPPORTED would be among the findings of the program
      rw [← blocksProgram_fileCapability, ← Bool.not_eq_true]
      intro hblocks
      have hfinding : (⟨"file " ++ fd.fileName, (fileCapability program fd).1,
          (fileCapability program fd).2⟩ : Finding) ∈ unitFindings unit program := by
        refine List.mem_append_right _ (List.mem_filterMap.2 ⟨fd, hfd, ?_⟩)
        exact if_pos hblocks
      have hlevel := aggregate_supported.1 h _ hfinding
      rw [← blocksProgram_fileCapability, hblocks] at hlevel
      exact absurd hlevel (by decide)

/-! ### Copybooks -/

/-- What is read from the files of a copybook. -/
structure CopybookScan where
  /-- `read_text` of a resolved path, or the text of the exception. -/
  readText : String → Except String String
  /-- The errors of `collect_copybook_texts`, and the constructs of each file by its stem. -/
  collect : String → List String × List (String × List String)
  /-- `CONSTRUCT_REGISTRY[key].effective_source_level` -/
  sourceLevel : String → Option CapabilityLevel
  /-- `Path(path).stem.upper()` -/
  stem : String → String

/-- The last exception of the paths that could not be read, unless one could be read. -/
def readError (scan : CopybookScan) : List String → String → String × String
  | [], error => ("", error)
  | path :: paths, error =>
      match scan.readText path with
      | .ok content => (content, error)
      | .error text => readError scan paths text

/-- What the constructs of the files of a copybook make of it. -/
def copybookVerdict (scan : CopybookScan) (name topPath : String)
    (files : List (String × List String)) : ComponentCapability :=
  let detected := Py.sortedSet (files.flatMap Prod.snd)
  match worstLevel (detected.filterMap scan.sourceLevel) with
  | none =>
      ⟨name, "COPYBOOK", .supported, "Copybook resolved and contains no unsupported constructs" ++
        if 1 < files.length then
          " (including " ++ toString (files.length - 1) ++ " nested copybook(s))"
        else ""⟩
  | some worst =>
      let entryKeys := ", ".intercalate (detected.filter fun key => scan.sourceLevel key = some worst)
      let offenders := Py.sortedSet ((files.filter fun file =>
        file.1 ≠ scan.stem topPath ∧ file.2.any fun key => scan.sourceLevel key = some worst).map
          Prod.fst)
      let nestedNote :=
        if offenders = [] then ""
        else " (via nested copybook " ++ ", ".intercalate offenders ++ ")"
      ⟨name, "COPYBOOK", worst,
        (match worst with
        | .unknown => "Support cannot be determined for: " ++ entryKeys
        | .unsupported => "Copybook contains unsupported constructs: " ++ entryKeys
        | .partly => "Copybook contains partially supported constructs: " ++ entryKeys
        | .supported | .unavailable => "Copybook contents classify as " ++ worst.value) ++
          nestedNote⟩

/-- `_analyze_copybook` -/
def analyzeCopybook (scan : CopybookScan) (application : CobolApplication) (name : String) :
    ComponentCapability :=
  let refs := (application.programs.flatMap CobolProgramUnit.copybooks).filter fun ref =>
    ref.copybookName = name
  let isResolved (ref : CopybookReference) : Bool :=
    ref.resolution = "RESOLVED" ∧ ref.resolvedPath ≠ ""
  let resolvedPaths := (refs.filter isResolved).map CopybookReference.resolvedPath
  let unresolved := refs.filter fun ref => !isResolved ref
  match resolvedPaths, unresolved with
  | topPath :: _, [] =>
      let (content, error) := readError scan resolvedPaths ""
      if content = "" ∧ error ≠ "" then
        ⟨name, "COPYBOOK", .unsupported,
          "Unsupported: copybook " ++ name ++ " could not be read (" ++ error ++ ")"⟩
      else
        let (nestedErrors, files) := scan.collect topPath
        if nestedErrors ≠ [] then
          ⟨name, "COPYBOOK", .unsupported,
            "Copybook " ++ name ++ " has nested COPY problems: " ++ "; ".intercalate nestedErrors⟩
        else copybookVerdict scan name topPath files
  | _, _ =>
      if unresolved.any fun ref => ref.resolution = "AMBIGUOUS" then
        ⟨name, "COPYBOOK", .unsupported,
          "Copybook " ++ name ++ " is ambiguous: multiple equal-precedence " ++
            "candidates and no single target (resolution=AMBIGUOUS); " ++
            "generation deterministically fails with 'Missing COPY target'"⟩
      else
        ⟨name, "COPYBOOK", .unsupported,
          "Copybook " ++ name ++ " is unresolved: at least one COPY " ++
            "reference has no target on the copybook search path " ++
            "(resolution=UNRESOLVED); generation deterministically fails " ++
            "with 'Missing COPY target'"⟩

/-! ### CALLs -/

/-- `program_levels.get(normalize_cobol_name(target))` -/
def programLevel (units : List ComponentCapability) (target : String) : Option CapabilityLevel :=
  (Py.lastBy (fun c => normalizeCobolName c.componentId)
    (units.filter fun c => c.componentType = "PROGRAM") (normalizeCobolName target)).map
      ComponentCapability.level

/-- `_analyze_call`, with the components of the units. -/
def analyzeCall (units : List ComponentCapability) (edge : DependencyEdge) : ComponentCapability :=
  let verdict : CapabilityLevel × String :=
    if edge.metadataHas "call_type=DYNAMIC" then
      (.unsupported, "Dynamic CALL (data-item target) has no static dispatch")
    else if normalizeCobolName edge.source = normalizeCobolName edge.target then
      (.unsupported, "Recursive/self CALL is out of scope")
    else if !edge.metadataHas "resolution=RESOLVED" then
      (.partly, "Unresolved static call target")
    else
      match programLevel units edge.target with
      | some .supported => (.supported, "Resolved")
      | none =>
          (.unknown, "Resolved call target " ++ edge.target ++ " has no capability analysis")
      | some .partly =>
          (.partly, "Callee " ++ edge.target ++ " is not fully supported (PARTIAL)")
      | some .unavailable =>
          (.partly, "Callee " ++ edge.target ++ " is not fully supported (UNAVAILABLE)")
      | some callee =>
          (callee, "Callee " ++ edge.target ++ " cannot be transformed (" ++ callee.value ++ ")")
  ⟨edge.callId, "CALL", verdict.1, verdict.2⟩

/-- What a search for cycles has visited and found. -/
structure CycleSearch where
  visited : List String
  cycles : List (List String)

/-- `dfs` of `detect_cycles`; each deeper call visits a target that was not visited before. -/
def visit (edges : List DependencyEdge) : ℕ → List String → String → CycleSearch → CycleSearch
  | 0, _, _, search => search
  | fuel + 1, above, node, search =>
      let recStack := above ++ [node]
      edges.foldl (fun search edge =>
        if edge.source = node ∧ edge.isCall then
          if edge.target ∉ search.visited then visit edges fuel recStack edge.target search
          else if edge.target ∈ recStack then
            { search with cycles := search.cycles ++
              [recStack.drop (recStack.idxOf edge.target) ++ [edge.target]] }
          else search
        else search) { search with visited := search.visited ++ [node] }

/-- `detect_cycles` -/
def detectCycles (application : CobolApplication) : List (List String) :=
  (application.programs.foldl (fun search unit =>
    if unit.programId ∉ search.visited then
      visit application.edges (application.edges.length + 1) [] unit.programId search
    else search) ⟨[], []⟩).cycles

def cycleComponent (cycle : List String) : ComponentCapability :=
  ⟨"->".intercalate cycle, "CALL", .unsupported, "Cyclic CALL dependency is out of scope"⟩

/-- `stmt.program_name.rstrip(".")` in upper case. -/
def callTarget (stmt : CallStatement) : String :=
  String.ofList (Py.Chars.upper (stmt.programName.toList.rdropWhile (· = '.')))

/-- `_analyze_call_linkage_arity` -/
def analyzeCallLinkageArity (application : CobolApplication) : List ComponentCapability :=
  let parsed := application.programs.filterMap CobolProgramUnit.program
  application.programs.flatMap fun unit =>
    ((unit.program.map CobolProgram.callStatements).getD []).filterMap fun stmt =>
      if stmt.isDynamic then none
      else
        match Py.lastBy (fun p => normalizeCobolName p.programId) parsed (callTarget stmt) with
        | none => none
        | some callee =>
            let declared := callee.linkageSection.count 1
            let passed := stmt.arguments.length
            if passed = declared then none
            else some ⟨unit.programId ++ "->" ++ callTarget stmt, "CALL", .unsupported,
              "CALL linkage arity mismatch: caller passes " ++ toString passed ++
                " argument(s) but callee " ++ callTarget stmt ++ " declares " ++
                toString declared ++ " top-level LINKAGE item(s)"⟩

/-! ### The report -/

/-- The override for a missing infrastructure. -/
def withInfrastructure (dockerAvailable : Bool) (c : ComponentCapability) : ComponentCapability :=
  if !dockerAvailable ∧ c.level = .supported ∧
      (c.componentType = "PROGRAM" ∨ c.componentType = "CALL") then
    ⟨c.componentId, c.componentType, .unavailable, "Docker infrastructure not available"⟩
  else c

def callComponents (application : CobolApplication) : List ComponentCapability :=
  (application.edges.filter DependencyEdge.isCall).map
      (analyzeCall (application.programs.flatMap analyzeProgramUnit)) ++
    ((detectCycles application).map cycleComponent ++ analyzeCallLinkageArity application)

/-- `analyze` -/
def analyze (scan : CopybookScan) (dockerAvailable : Bool) (application : CobolApplication) :
    CapabilityReport :=
  let components := (application.programs.flatMap analyzeProgramUnit ++
    (application.copybooks.map (analyzeCopybook scan application) ++
      callComponents application)).map (withInfrastructure dockerAvailable)
  { applicationId := application.applicationId
    components
    overallLevel := (worstLevel (components.map ComponentCapability.level)).getD .supported }

/-! ### The types of the components -/

@[simp] theorem withInfrastructure_componentType (dockerAvailable : Bool) (c : ComponentCapability) :
    (withInfrastructure dockerAvailable c).componentType = c.componentType := by
  unfold withInfrastructure
  split <;> rfl

@[simp] theorem withInfrastructure_componentId (dockerAvailable : Bool) (c : ComponentCapability) :
    (withInfrastructure dockerAvailable c).componentId = c.componentId := by
  unfold withInfrastructure
  split <;> rfl

theorem supported_of_withInfrastructure {dockerAvailable : Bool} {c : ComponentCapability}
    (h : (withInfrastructure dockerAvailable c).level = .supported) : c.level = .supported := by
  unfold withInfrastructure at h
  split at h
  · cases h
  · exact h

theorem programComponent_id (unit : CobolProgramUnit) :
    (programComponent unit).componentId = unit.programId ∧
      (programComponent unit).componentType = "PROGRAM" := by
  unfold programComponent
  split <;> exact ⟨rfl, rfl⟩

theorem fileComponents_type {unit : CobolProgramUnit} {c : ComponentCapability}
    (h : c ∈ fileComponents unit) : c.componentType = "FILE" := by
  unfold fileComponents at h
  split at h
  · simp at h
  · obtain ⟨fd, _, rfl⟩ := List.mem_map.1 h
    rfl

theorem copybookVerdict_id (scan : CopybookScan) (name topPath : String)
    (files : List (String × List String)) :
    (copybookVerdict scan name topPath files).componentId = name ∧
      (copybookVerdict scan name topPath files).componentType = "COPYBOOK" := by
  unfold copybookVerdict
  dsimp only
  split <;> exact ⟨rfl, rfl⟩

theorem analyzeCopybook_id (scan : CopybookScan) (application : CobolApplication) (name : String) :
    (analyzeCopybook scan application name).componentId = name ∧
      (analyzeCopybook scan application name).componentType = "COPYBOOK" := by
  unfold analyzeCopybook
  dsimp only
  split
  · split
    · exact ⟨rfl, rfl⟩
    · split
      · exact ⟨rfl, rfl⟩
      · exact copybookVerdict_id ..
  · split <;> exact ⟨rfl, rfl⟩

theorem callComponents_type {application : CobolApplication} {c : ComponentCapability}
    (h : c ∈ callComponents application) : c.componentType = "CALL" := by
  rcases List.mem_append.1 h with h | h
  · obtain ⟨edge, _, rfl⟩ := List.mem_map.1 h
    rfl
  rcases List.mem_append.1 h with h | h
  · obtain ⟨cycle, _, rfl⟩ := List.mem_map.1 h
    rfl
  · obtain ⟨unit, _, h⟩ := List.mem_flatMap.1 h
    obtain ⟨stmt, _, h⟩ := List.mem_filterMap.1 h
    dsimp only at h
    split at h
    · cases h
    · split at h
      · cases h
      · split at h
        · cases h
        · cases h
          rfl

def ofType (components : List ComponentCapability) (componentType : String) :
    List ComponentCapability :=
  components.filter fun c => c.componentType = componentType

theorem ofType_map (f : ComponentCapability → ComponentCapability)
    (hf : ∀ c, (f c).componentType = c.componentType) (components : List ComponentCapability)
    (componentType : String) :
    ofType (components.map f) componentType = (ofType components componentType).map f := by
  simp only [ofType, List.filter_map, Function.comp_def, hf]

theorem ofType_append (components others : List ComponentCapability) (componentType : String) :
    ofType (components ++ others) componentType =
      ofType components componentType ++ ofType others componentType :=
  List.filter_append ..

theorem ofType_eq_self {components : List ComponentCapability} {componentType : String}
    (h : ∀ c ∈ components, c.componentType = componentType) :
    ofType components componentType = components :=
  List.filter_eq_self.2 fun c hc => decide_eq_true (h c hc)

theorem ofType_eq_nil {components : List ComponentCapability} {componentType other : String}
    (h : ∀ c ∈ components, c.componentType = other) (hne : other ≠ componentType) :
    ofType components componentType = [] :=
  List.filter_eq_nil_iff.2 fun c hc htype => hne ((h c hc).symm.trans (of_decide_eq_true htype))

theorem ofType_units (units : List CobolProgramUnit) :
    ofType (units.flatMap analyzeProgramUnit) "PROGRAM" = units.map programComponent := by
  induction units with
  | nil => rfl
  | cons unit units ih =>
      have hprogram : ofType (analyzeProgramUnit unit) "PROGRAM" = [programComponent unit] := by
        rw [analyzeProgramUnit, ← List.singleton_append, ofType_append,
          ofType_eq_self (by simpa using (programComponent_id unit).2),
          ofType_eq_nil (fun c => fileComponents_type) (by decide), List.append_nil]
      rw [List.flatMap_cons, ofType_append, ih, hprogram, List.map_cons, List.singleton_append]

section Sections

variable (scan : CopybookScan) (dockerAvailable : Bool) (application : CobolApplication)

theorem ofType_programs :
    ofType (analyze scan dockerAvailable application).components "PROGRAM" =
      application.programs.map fun unit =>
        withInfrastructure dockerAvailable (programComponent unit) := by
  have hcopybooks : ofType (application.copybooks.map (analyzeCopybook scan application)) "PROGRAM" =
      [] :=
    ofType_eq_nil (List.forall_mem_map.2 fun name _ => (analyzeCopybook_id ..).2) (by decide)
  have hcalls : ofType (callComponents application) "PROGRAM" = [] :=
    ofType_eq_nil (fun c => callComponents_type) (by decide)
  rw [analyze, ofType_map _ (withInfrastructure_componentType dockerAvailable), ofType_append,
    ofType_append, ofType_units, hcopybooks, hcalls, List.append_nil, List.append_nil, List.map_map]
  rfl

theorem ofType_copybooks :
    ofType (analyze scan dockerAvailable application).components "COPYBOOK" =
      application.copybooks.map fun name =>
        withInfrastructure dockerAvailable (analyzeCopybook scan application name) := by
  have hunits : ofType (application.programs.flatMap analyzeProgramUnit) "COPYBOOK" = [] := by
    refine List.filter_eq_nil_iff.2 fun c hc => ?_
    obtain ⟨unit, _, hc⟩ := List.mem_flatMap.1 hc
    rcases List.mem_cons.1 hc with rfl | hc
    · simp [(programComponent_id unit).2]
    · simp [fileComponents_type hc]
  have hcopybooks : ofType (application.copybooks.map (analyzeCopybook scan application))
      "COPYBOOK" = application.copybooks.map (analyzeCopybook scan application) :=
    ofType_eq_self (List.forall_mem_map.2 fun name _ => (analyzeCopybook_id ..).2)
  have hcalls : ofType (callComponents application) "COPYBOOK" = [] :=
    ofType_eq_nil (fun c => callComponents_type) (by decide)
  rw [analyze, ofType_map _ (withInfrastructure_componentType dockerAvailable), ofType_append,
    ofType_append, hunits, hcopybooks, hcalls, List.append_nil, List.nil_append, List.map_map]
  rfl

/-- A file of the report is one of a program, and keeps its verdict. -/
theorem mem_files {c : ComponentCapability}
    (hc : c ∈ (analyze scan dockerAvailable application).components)
    (htype : c.componentType = "FILE") :
    ∃ unit ∈ application.programs, c ∈ fileComponents unit := by
  obtain ⟨d, hd, rfl⟩ := List.mem_map.1 hc
  rw [withInfrastructure_componentType] at htype
  have hkeeps : withInfrastructure dockerAvailable d = d := by
    rw [withInfrastructure, if_neg (by simp [htype])]
  rw [hkeeps]
  rcases List.mem_append.1 hd with hd | hd
  · obtain ⟨unit, hunit, hd⟩ := List.mem_flatMap.1 hd
    rcases List.mem_cons.1 hd with rfl | hd
    · exact absurd ((programComponent_id unit).2.symm.trans htype) (by decide)
    · exact ⟨unit, hunit, hd⟩
  · rcases List.mem_append.1 hd with hd | hd
    · obtain ⟨name, _, rfl⟩ := List.mem_map.1 hd
      exact absurd ((analyzeCopybook_id ..).2.symm.trans htype) (by decide)
    · exact absurd ((callComponents_type hd).symm.trans htype) (by decide)

end Sections

end CobolJava.Modernization
