/-
**The declaration-driven comparison.**

`VerticalSlicePipeline._run_declaration_driven` of `engine/pipeline.py`, for a workload without
business invariants: the declared artifacts and the three streams every run compares, then every
generated file no declaration names, the image of a keyed file by the records in it.  The scan of
the COBOL source for `SELECT` clauses and the readers of the keyed images are parameters.

Main definitions:

* `ExecutionResult` — what an execution left;
* `Subject`, `Compared` — what a comparison is about, and the comparison with its two artifacts;
* `effectiveArtifacts` — the declared artifacts with the required ones;
* `emulatedFileImageNames`, `compareRecordsOf` — the lane of the keyed files;
* `runDeclarationDriven` — the run;
* `artifactEvidenceOf`, `comparisonEvidenceOf` — the evidence it leaves.

Main results:

* `effectiveArtifacts_nodup` — **the artifacts of a run have different logical names**.
-/

import Mathlib
import CobolJava.Comparators.Binding
import CobolJava.Comparators.IndexedRecords
import CobolJava.Execution.Artifacts
import CobolJava.Workload

set_option autoImplicit false

namespace CobolJava

open Py (Bytes Exc)

/-! ### What a run is given -/

/-- What an execution left: its streams, its exit code, and the files it wrote. -/
structure ExecutionResult where
  executionId : ExecutionId
  exitCode : Option ℤ
  stdout : Bytes
  stderr : Bytes
  generatedFiles : PyDict Bytes

/-- A `SELECT … ASSIGN "literal" …` clause of the source, with the keyed organizations its text
names. -/
structure SelectClause where
  assign : String
  indexed : Bool
  relative : Bool

/-- The readers of the keyed images, of the oracle and of the emulation. -/
structure RecordReaders where
  bdbBtreeRecords : Bytes → Except Exc (List Bytes)
  emulatedIndexRecords : Bytes → Except Exc (List Bytes)
  gnucobolRelativeRecords : Bytes → Except Exc (List (ℕ × Bytes))
  emulatedRelativeRecords : Bytes → Except Exc (List (ℕ × Bytes))

/-- What a reader raises on an image it does not certify. -/
def unreadableImage (text : String) : Exc := .declared "UnreadableImage" text

/-- Whether an exception is the one a reader raises on purpose. -/
def isUnreadableImage : Exc → Bool
  | .declared name _ => name = "UnreadableImage"
  | _ => false

/-! ### What a comparison is about -/

/-- What a comparison is about: a declared artifact, a generated file, or the records of a keyed
file with its two images. -/
inductive Subject where
  | artifact (a : WorkloadArtifact)
  | file (name : String)
  | records (name image : String)

/-- The output paths a comparison covers. -/
def Subject.covers : Subject → String → Prop
  | .artifact a, path => a.artifactType ∈ fileArtifactTypes ∧ a.outputPath = some path
  | .file name, path => name = path
  | .records name image, path => name = path ∨ image = path

/-- A comparison with the artifacts captured for it. -/
structure Compared where
  subject : Subject
  oracle : CapturedArtifact
  candidate : CapturedArtifact
  evidence : ComparisonEvidence

section Run

variable (py : Py.Rendering) (now : String) (runId : RunId)
variable (oracleResult candidateResult : ExecutionResult)

/-! ### Steps -/

/-- The content of an artifact; a missing file has none. -/
def extractArtifactContent (artifactType : String) (outputPath : Option String)
    (result : ExecutionResult) : Option Bytes :=
  if artifactType = "STDOUT" then some result.stdout
  else if artifactType = "STDERR" then some result.stderr
  else if artifactType = "EXIT_STATUS" then
    some (Py.encode (toString (result.exitCode.getD (-1))))
  else if artifactType ∈ fileArtifactTypes then
    match outputPath with
    | some path => if path ≠ "" then result.generatedFiles.get? path else none
    | none => none
  else none

/-- The capture of an artifact; without content it is missing. -/
def captureArtifact (artifactType : String) (htype : artifactType ∈ validArtifactTypes)
    (executionId : ExecutionId) (content : Option Bytes) (logicalName : String) (side : Side)
    (recordLength : Option ℤ) : Except Exc CapturedArtifact :=
  match content with
  | none => .ok (captureMissing now executionId artifactType logicalName side htype)
  | some content =>
      if artifactType = "STDOUT" then .ok (captureStdout now executionId content logicalName side)
      else if artifactType = "STDERR" then
        .ok (captureStderr now executionId content logicalName side)
      else if artifactType = "EXIT_STATUS" then
        match Py.intOfBytes content with
        | some exitCode => .ok (captureExitStatus now executionId exitCode side)
        | none => .error (.valueError
            s!"invalid literal for int() with base 10: {Py.bytesStr content}")
      else if artifactType = "TEXT_FILE" then
        .ok (captureTextFileFromBytes now executionId content logicalName side)
      else if artifactType = "FIXED_RECORD" then
        captureFixedRecord now executionId content logicalName side recordLength
      else .error (.valueError s!"Unsupported artifact_type: {artifactType}")

/-- A difference as the hash of a comparison records it. -/
def differenceJson (d : ComparisonDifference) : Json :=
  .obj [("location", .str d.location), ("expected", .str d.expected), ("actual", .str d.actual)]

def makeComparisonEvidence (logicalName artifactType : String) (oracle candidate : CapturedArtifact)
    (result : ComparatorResult) : ComparisonEvidence where
  comparisonId := s!"comp-{logicalName}-{runId.value}"
  runId := runId
  comparatorId := result.comparatorId.comparatorId
  comparatorVersion := result.comparatorId.version
  oracleArtifactId := oracle.artifact.artifactId
  candidateArtifactId := candidate.artifact.artifactId
  artifactType := artifactType
  result := result.result.value
  normalizationApplied := result.normalizationApplied
  differences := result.differences.map ComparisonDifference.description
  fieldLevelResults := []
  contentHash := ContentHash.fromString (Json.dumps (.obj
    [("result", .str result.result.value),
      ("differences", .arr (result.differences.map differenceJson))]))
  orderingApplied := result.orderingApplied
  failurePolicy := result.failurePolicy
  workloadId := none

/-- The evidence of a comparison that was not made. -/
def inconclusiveComparison (logicalName artifactType : String) (oracle candidate : CapturedArtifact)
    (comparator : ComparatorId) (difference : String) : ComparisonEvidence where
  comparisonId := s!"comp-{logicalName}-{runId.value}"
  runId := runId
  comparatorId := comparator.comparatorId
  comparatorVersion := comparator.version
  oracleArtifactId := oracle.artifact.artifactId
  candidateArtifactId := candidate.artifact.artifactId
  artifactType := artifactType
  result := "INCONCLUSIVE"
  normalizationApplied := []
  differences := [difference]
  fieldLevelResults := []
  contentHash := ContentHash.fromString (Json.dumps (.obj
    [("result", .str "INCONCLUSIVE"), ("differences", .arr [.str difference])]))
  orderingApplied := "SEQUENTIAL"
  failurePolicy := ""
  workloadId := none

/-! ### The declared artifacts -/

/-- The first name not taken, appending `-required` as often as needed; `fuel` bounds how often. -/
def freshName : ℕ → List String → String → String
  | 0, _, name => name
  | fuel + 1, names, name =>
      if name ∈ names then freshName fuel names (name ++ "-required") else name

/-- The name found is not taken when the fuel covers the names that are as long. -/
theorem freshName_not_mem {fuel : ℕ} {names : List String} {name : String}
    (h : (names.filter fun n => name.length ≤ n.length).length ≤ fuel) :
    freshName fuel names name ∉ names := by
  induction fuel generalizing name with
  | zero =>
      intro hmem
      have hfound : name ∈ names.filter fun n => name.length ≤ n.length :=
        List.mem_filter.2 ⟨hmem, by simp⟩
      rw [List.length_eq_zero_iff.1 (Nat.le_zero.1 h)] at hfound
      simp at hfound
  | succ fuel ih =>
      unfold freshName
      by_cases hmem : name ∈ names
      · rw [if_pos hmem]
        refine ih (Nat.lt_succ_iff.1 (lt_of_lt_of_le ?_ h))
        -- the taken name itself is not as long as the next one
        have hsub : (names.filter fun n => (name ++ "-required").length ≤ n.length) =
            (names.filter fun n => name.length ≤ n.length).filter fun n =>
              (name ++ "-required").length ≤ n.length := by
          rw [List.filter_filter]
          refine List.filter_congr fun n _ => ?_
          rw [String.length_append]
          by_cases hn : name.length + "-required".length ≤ n.length
          · have hle : name.length ≤ n.length := by omega
            simp [hle]
          · simp [hn]
        rw [hsub, List.length_filter_lt_length_iff_exists]
        refine ⟨name, List.mem_filter.2 ⟨hmem, by simp⟩, ?_⟩
        have hpos : 0 < "-required".length := by decide
        rw [String.length_append, decide_eq_true_eq]
        omega
      · rw [if_neg hmem]
        exact hmem

/-- The required artifact of a stream under a name. -/
def requiredArtifact (artifactType logicalName comparatorId : String)
    (htype : artifactType ∈ ["STDOUT", "STDERR", "EXIT_STATUS"]) : WorkloadArtifact where
  logicalName := logicalName
  artifactType := artifactType
  comparatorId := comparatorId
  outputPath := none
  normalization := none
  ordering := none
  failure := none
  recordLength := none
  artifactType_mem := by
    have h : ∀ t ∈ ["STDOUT", "STDERR", "EXIT_STATUS"], t ∈ workloadArtifactTypes := by decide
    exact h _ htype
  outputPath_ne := by
    have h : ∀ t ∈ ["STDOUT", "STDERR", "EXIT_STATUS"], t ∉ fileArtifactTypes := by decide
    exact fun hf => absurd hf (h _ htype)

/-- The artifacts with the required one of a stream appended, unless one of its type is there. -/
def addRequired (artifacts : List WorkloadArtifact) (artifactType logicalName comparatorId : String)
    (htype : artifactType ∈ ["STDOUT", "STDERR", "EXIT_STATUS"]) : List WorkloadArtifact :=
  if artifacts.any fun a => a.artifactType = artifactType then artifacts
  else
    let names := artifacts.map WorkloadArtifact.logicalName
    artifacts ++
      [requiredArtifact artifactType (freshName names.length names logicalName) comparatorId htype]

/-- The declared artifacts with the required ones. -/
def effectiveArtifacts (workload : WorkloadDefinition) : List WorkloadArtifact :=
  let artifacts := addRequired workload.artifacts "STDOUT" "stdout" "stdout-exact" (by decide)
  let artifacts := addRequired artifacts "STDERR" "stderr" "stderr-exact" (by decide)
  addRequired artifacts "EXIT_STATUS" "exit-status" "exit-status-exact" (by decide)

theorem addRequired_nodup {artifacts : List WorkloadArtifact} {t n i : String}
    {ht : t ∈ ["STDOUT", "STDERR", "EXIT_STATUS"]}
    (h : (artifacts.map WorkloadArtifact.logicalName).Nodup) :
    ((addRequired artifacts t n i ht).map WorkloadArtifact.logicalName).Nodup := by
  unfold addRequired
  split_ifs
  · exact h
  · rw [List.map_append, List.map_singleton, List.nodup_append_comm, List.singleton_append,
      List.nodup_cons]
    exact ⟨freshName_not_mem (List.length_filter_le _ _), h⟩

/-- **The artifacts of a run have different logical names.** -/
theorem effectiveArtifacts_nodup (workload : WorkloadDefinition) :
    ((effectiveArtifacts workload).map WorkloadArtifact.logicalName).Nodup :=
  addRequired_nodup (addRequired_nodup (addRequired_nodup workload.logicalNames_nodup))

/-- The comparison of a captured pair. -/
def compareCaptured (comparator : TypedComparator) (policy : ComparisonPolicy) (subject : Subject)
    (logicalName artifactType : String) (oracle candidate : CapturedArtifact) :
    Except Exc Compared := do
  let result ← comparator.compare ⟨oracle.artifact, oracle.content⟩
    ⟨candidate.artifact, candidate.content⟩ policy
  return ⟨subject, oracle, candidate,
    makeComparisonEvidence runId logicalName artifactType oracle candidate result⟩

/-- A declaration names the comparator registered for its type, or none. -/
def bindingMismatch (a : WorkloadArtifact) (registeredId : String) : Option Exc :=
  let declaredId := Py.strip a.comparatorId
  if declaredId ≠ "" ∧ resolveComparatorId declaredId ≠ registeredId then
    some (.valueError (s!"Comparator binding mismatch for artifact_type={py.repr a.artifactType}: " ++
      s!"declaration {py.repr declaredId} resolves to " ++
      s!"{py.repr (resolveComparatorId declaredId)} but registry provides " ++
      s!"{py.repr registeredId}"))
  else none

/-- The comparison of a declared artifact. -/
def compareDeclared (a : WorkloadArtifact) : Except Exc Compared := do
  let oracleContent := extractArtifactContent a.artifactType a.outputPath oracleResult
  let candidateContent := extractArtifactContent a.artifactType a.outputPath candidateResult
  let oracle ← captureArtifact now a.artifactType a.artifactType_valid oracleResult.executionId
    oracleContent a.logicalName .oracle a.recordLength
  let candidate ← captureArtifact now a.artifactType a.artifactType_valid
    candidateResult.executionId candidateContent a.logicalName .candidate a.recordLength
  match registered (defaultRegistry py) a.artifactType with
  | none => throw (.valueError
      s!"No comparator registered for artifact_type={py.repr a.artifactType}")
  | some comparator =>
      match bindingMismatch py a comparator.comparatorId.comparatorId with
      | some exc => throw exc
      | none =>
          compareCaptured runId comparator a.policy (.artifact a) a.logicalName a.artifactType
            oracle candidate

/-! ### The files no declaration names -/

/-- The paths the declarations name. -/
def declaredPaths (workload : WorkloadDefinition) : List String :=
  workload.artifacts.filterMap fun a => a.outputPath.filter fun path => path ≠ ""

/-- The generated files no declaration names, in order. -/
def undeclaredFiles (workload : WorkloadDefinition) : List String :=
  Py.sortedSet ((oracleResult.generatedFiles.keys ++ candidateResult.generatedFiles.keys).filter
    fun name => name ∉ declaredPaths workload)

/-- A one-sided file is a difference. -/
def oneSidedFileIsMismatch : FailurePolicy where
  onMissing := "FAILED"
  onMalformed := "INCONCLUSIVE"
  onExtra := "MISMATCH"

/-- The policy generated files are compared under: byte by byte. -/
def filePolicy : ComparisonPolicy := ⟨[], "SEQUENTIAL", some oneSidedFileIsMismatch⟩

/-- The two captures of a generated file. -/
def captureFilePair (logicalName : String) (oracleContent candidateContent : Option Bytes) :
    Except Exc (CapturedArtifact × CapturedArtifact) := do
  let oracle ← captureArtifact now "TEXT_FILE" textFile_mem_validArtifactTypes
    oracleResult.executionId oracleContent logicalName .oracle none
  let candidate ← captureArtifact now "TEXT_FILE" textFile_mem_validArtifactTypes
    candidateResult.executionId candidateContent logicalName .candidate none
  return (oracle, candidate)

/-- The comparison of a generated file. -/
def compareFile (name : String) : Except Exc Compared := do
  let logicalName := s!"generated-file:{name}"
  let (oracle, candidate) ← captureFilePair now oracleResult candidateResult logicalName
    (oracleResult.generatedFiles.get? name) (candidateResult.generatedFiles.get? name)
  compareCaptured runId (textFileComparator py) filePolicy (.file name) logicalName "TEXT_FILE"
    oracle candidate

/-- The image of a keyed file whose content is not compared. -/
def leaveImage (name : String) : Except Exc Compared := do
  let logicalName := s!"generated-file:{name}"
  let (oracle, candidate) ← captureFilePair now oracleResult candidateResult logicalName
    (oracleResult.generatedFiles.get? name) (candidateResult.generatedFiles.get? name)
  return ⟨.file name, oracle, candidate,
    inconclusiveComparison runId logicalName "TEXT_FILE" oracle candidate
      (textFileComparator py).comparatorId
      (s!"{name}: on-disk image of an INDEXED/RELATIVE file; the " ++
        "Java file organisation is an emulation, so its bytes are " ++
        "not comparable and its record content is not compared")⟩

/-! ### The keyed files -/

def baseName (path : String) : String :=
  String.ofList ((path.toList.reverse.takeWhile fun c => c ≠ '/').reverse)

/-- The base names of the files of the chosen organizations. -/
def keyedFileNames (selects : List SelectClause) (chosen : SelectClause → Bool) : List String :=
  (selects.filter chosen).map fun s => baseName s.assign

/-- The generated files that are images of keyed files: the file, or a companion that adds an
extension. -/
def emulatedFileImageNames (selects : List SelectClause) (names : List String) : List String :=
  let keyed := keyedFileNames selects fun s => s.indexed || s.relative
  names.filter fun name => keyed.any fun k =>
    baseName name = k || Py.startswith (baseName name) (k ++ ".")

/-- The two keyed organizations with a lane of their own. -/
inductive Organization where
  | indexed
  | relative
deriving DecidableEq

/-- Whether a clause names an organization. -/
def SelectClause.has (s : SelectClause) : Organization → Bool
  | .indexed => s.indexed
  | .relative => s.relative

/-- The suffix of the emulation of an organization. -/
def Organization.suffix : Organization → String
  | .indexed => ".idx"
  | .relative => ".rel"

/-- The decoded content of a keyed file. -/
inductive DecodedRecords where
  | indexed (records : List Bytes)
  | relative (records : List (ℕ × Bytes))

/-- The canonical text of decoded records. -/
def DecodedRecords.canonical : DecodedRecords → Bytes
  | .indexed records => canonicalRecords records
  | .relative records => canonicalRelativeRecords records

/-- Decoding the image the oracle left. -/
def readOracleImage (readers : RecordReaders) (image : Bytes) :
    Organization → Except Exc DecodedRecords
  | .indexed => (readers.bdbBtreeRecords image).map .indexed
  | .relative => (readers.gnucobolRelativeRecords image).map .relative

/-- Decoding the image the emulation left. -/
def readCandidateImage (readers : RecordReaders) (image : Bytes) :
    Organization → Except Exc DecodedRecords
  | .indexed => (readers.emulatedIndexRecords image).map .indexed
  | .relative => (readers.emulatedRelativeRecords image).map .relative

/-- The organizations a file of this name has. -/
def organizationsOf (selects : List SelectClause) (name : String) : List Organization :=
  [Organization.indexed, .relative].filter fun org =>
    decide (baseName name ∈ keyedFileNames selects fun s => s.has org)

/-- Both images decoded; `none` when one of them is unreadable. -/
def decodePair (readers : RecordReaders) (org : Organization) (oracleImage candidateImage : Bytes) :
    Except Exc (Option (DecodedRecords × DecodedRecords)) :=
  match readOracleImage readers oracleImage org with
  | .error exc => if isUnreadableImage exc then .ok none else .error exc
  | .ok oracleRecords =>
      match readCandidateImage readers candidateImage org with
      | .error exc => if isUnreadableImage exc then .ok none else .error exc
      | .ok candidateRecords => .ok (some (oracleRecords, candidateRecords))

/-- The two images of a keyed file, each on its own side only: that of the oracle under the name,
that of the emulation under the name with the suffix. -/
def imagePair (org : Organization) (name : String) : Option (Bytes × Bytes) :=
  let image := name ++ org.suffix
  match oracleResult.generatedFiles.get? name, candidateResult.generatedFiles.get? name,
    candidateResult.generatedFiles.get? image, oracleResult.generatedFiles.get? image with
  | some oracleImage, none, some candidateImage, none => some (oracleImage, candidateImage)
  | _, _, _, _ => none

/-- The comparison of two decoded contents. -/
def compareDecoded (org : Organization) (name : String)
    (records : DecodedRecords × DecodedRecords) : Except Exc Compared := do
  let logicalName := s!"generated-file:{name}#records"
  let (oracle, candidate) ← captureFilePair now oracleResult candidateResult logicalName
    (some records.1.canonical) (some records.2.canonical)
  compareCaptured runId (textFileComparator py) filePolicy
    (.records name (name ++ org.suffix)) logicalName "TEXT_FILE" oracle candidate

/-- The comparison of a keyed file by its records, if its images allow one. -/
def compareRecordsOf (selects : List SelectClause) (readers : RecordReaders) (name : String) :
    Except Exc (Option Compared) :=
  match organizationsOf selects name with
  | [org] =>
      match imagePair oracleResult candidateResult org name with
      | none => .ok none
      | some (oracleImage, candidateImage) => do
          match ← decodePair readers org oracleImage candidateImage with
          | none => return none
          | some records =>
              return some (← compareDecoded py now runId oracleResult candidateResult org name
                records)
  | _ => .ok none

/-- The names a comparison of records has handled. -/
def handledNames (records : List Compared) : List String :=
  records.flatMap fun c =>
    match c.subject with
    | .records name image => [name, image]
    | _ => []

/-- The comparison of a generated file no declaration names, after the keyed files. -/
def compareUndeclared (emulated : List String) (name : String) : Except Exc Compared :=
  if name ∈ emulated then leaveImage py now runId oracleResult candidateResult name
  else compareFile py now runId oracleResult candidateResult name

/-! ### The run -/

/-- **The run**: every comparison it makes, with the artifacts captured for it. -/
def runDeclarationDriven (selects : List SelectClause) (readers : RecordReaders)
    (workload : WorkloadDefinition) : Except Exc (List Compared) := do
  let declared ← (effectiveArtifacts workload).mapM
    (compareDeclared py now runId oracleResult candidateResult)
  let undeclared := undeclaredFiles oracleResult candidateResult workload
  let emulated := emulatedFileImageNames selects undeclared
  let records ← emulated.mapM
    (compareRecordsOf py now runId oracleResult candidateResult selects readers)
  let records := records.reduceOption
  let files ← (undeclared.filter fun name => name ∉ handledNames records).mapM
    (compareUndeclared py now runId oracleResult candidateResult emulated)
  return declared ++ records ++ files

/-- The artifact evidence of a run. -/
def artifactEvidenceOf (run : List Compared) : List ArtifactEvidence :=
  run.map (fun c => c.oracle.toEvidence) ++ run.map fun c => c.candidate.toEvidence

/-- The comparison evidence of a run. -/
def comparisonEvidenceOf (run : List Compared) : List ComparisonEvidence :=
  run.map Compared.evidence

end Run

end CobolJava
