/-
**Every observable effect is compared.**

What follows from a run of `Pipeline/DeclarationDriven.lean` whose comparisons all match.  The
streams, the exit codes and the files of the two executions agree, with two exceptions: an output
path named only by a declaration that is no file is taken out of the comparison of files, and a
missing exit code is compared as the exit code -1.

Main definitions:

* `SameView`, `AgreeAt` — contents equal up to the declared normalization and ordering;
* `KeyedFile` — a keyed file whose two images decode;
* `EffectsCompared` — every observable effect was compared and agrees;
* `NothingMasked`, `ExitCodesTold` — the two exceptions do not occur.

Main results:

* `effectsCompared_iff` — **the effects of a matching run were compared exactly when the two
  exceptions do not occur**;
* `masked_file_not_compared` — a run that matches over differing files.
-/

import CobolJava.Evidence.Sample
import CobolJava.Pipeline.DeclarationDriven
import Mathlib.Data.List.ReduceOption

set_option autoImplicit false

namespace CobolJava

open Py (Bytes Exc bind_ok map_ok)

/-! ### What a matching run should say -/

section Effects

variable (py : Py.Rendering) (selects : List SelectClause) (readers : RecordReaders)
variable (workload : WorkloadDefinition) (oracle candidate : ExecutionResult)

/-- Two contents are equal up to the normalization and ordering of a policy. -/
def SameView (policy : ComparisonPolicy) (x y : Bytes) : Prop :=
  ∃ v, view py policy x = .ok v ∧ view py policy y = .ok v

/-- The policy without normalization and ordering. -/
def exactPolicy : ComparisonPolicy := ⟨[], "SEQUENTIAL", none⟩

/-- The policies a stream is declared under: byte by byte when no declaration names it. -/
def streamPolicies (artifactType : String) : List ComparisonPolicy :=
  let declared := workload.artifacts.filter fun a => a.artifactType = artifactType
  if declared = [] then [exactPolicy] else declared.map WorkloadArtifact.policy

/-- One of the executions wrote the file. -/
def Generated (path : String) : Prop :=
  path ∈ oracle.generatedFiles.keys ∨ path ∈ candidate.generatedFiles.keys

/-- The artifact declares a file at the path. -/
def DeclaresFile (a : WorkloadArtifact) (path : String) : Prop :=
  a.artifactType ∈ fileArtifactTypes ∧ a.outputPath = some path

/-- Two contents of a path are equal up to what the declarations of a file there say, and equal when
there is none. -/
def AgreeAt (path : String) (x y : Bytes) : Prop :=
  (∀ a ∈ workload.artifacts, DeclaresFile a path →
    if a.artifactType = "TEXT_FILE" then SameView py a.policy x y else x = y) ∧
  ((¬ ∃ a ∈ workload.artifacts, DeclaresFile a path) → x = y)

/-- The file `name` of organization `org`, not named by a declaration, whose two images are each on
its own side only and decode to the given records. -/
structure KeyedFile (org : Organization) (name : String) (x y : DecodedRecords) : Prop where
  undeclared : name ∉ declaredPaths workload
  organization : organizationsOf selects name = [org]
  decoded : ∃ a b, imagePair oracle candidate org name = some (a, b) ∧
    decodePair readers org a b = .ok (some (x, y))

/-- The executions agree on a file: both wrote it with equal contents, or it is an image of a keyed
file whose decoded records are equal. -/
def FileAgrees (path : String) : Prop :=
  (∃ x y, oracle.generatedFiles.get? path = some x ∧ candidate.generatedFiles.get? path = some y ∧
    AgreeAt py workload path x y) ∨
  ∃ org name x, KeyedFile selects readers workload oracle candidate org name x x ∧
    (name = path ∨ name ++ org.suffix = path)

/-- **Every observable effect was compared** in a run and agrees. -/
structure EffectsCompared (run : List Compared) : Prop where
  stdout : ∀ p ∈ streamPolicies workload "STDOUT", SameView py p oracle.stdout candidate.stdout
  stderr : ∀ p ∈ streamPolicies workload "STDERR", SameView py p oracle.stderr candidate.stderr
  exitCode : oracle.exitCode = candidate.exitCode
  files : ∀ path, Generated oracle candidate path →
    FileAgrees py selects readers workload oracle candidate path
  not_dropped : ∀ path ∈ declaredPaths workload, Generated oracle candidate path →
    ∃ c ∈ run, c.subject.covers path

/-- A generated file at a declared path is declared as a file there, or it is an image of a keyed
file that decodes. -/
def NothingMasked : Prop :=
  ∀ path ∈ declaredPaths workload, Generated oracle candidate path →
    (∃ a ∈ workload.artifacts, DeclaresFile a path) ∨
    ∃ org name x y, KeyedFile selects readers workload oracle candidate org name x y ∧
      (name = path ∨ name ++ org.suffix = path)

/-- A missing exit code does not stand beside the exit code -1. -/
def ExitCodesTold : Prop :=
  ¬ (oracle.exitCode = none ∧ candidate.exitCode = some (-1)) ∧
    ¬ (oracle.exitCode = some (-1) ∧ candidate.exitCode = none)

end Effects

/-! ### The captured content -/

variable {py : Py.Rendering} {now : String} {runId : RunId}
variable {oracleResult candidateResult : ExecutionResult}

/-- What is captured of a declared artifact is what was extracted. -/
theorem captureArtifact_content {artifactType : String} {htype : artifactType ∈ validArtifactTypes}
    {executionId : ExecutionId} {outputPath : Option String} {result : ExecutionResult}
    {logicalName : String} {side : Side} {recordLength : Option ℤ} {c : CapturedArtifact}
    (h : captureArtifact now artifactType htype executionId
      (extractArtifactContent artifactType outputPath result) logicalName side recordLength =
        .ok c) :
    c.content = extractArtifactContent artifactType outputPath result := by
  unfold captureArtifact at h
  cases hx : extractArtifactContent artifactType outputPath result with
  | none =>
      rw [hx] at h
      rw [← Except.ok.inj h]
      rfl
  | some content =>
      rw [hx] at h
      simp only at h
      by_cases h1 : artifactType = "STDOUT"
      · rw [if_pos h1] at h
        rw [← Except.ok.inj h]
        rfl
      rw [if_neg h1] at h
      by_cases h2 : artifactType = "STDERR"
      · rw [if_pos h2] at h
        rw [← Except.ok.inj h]
        rfl
      rw [if_neg h2] at h
      by_cases h3 : artifactType = "EXIT_STATUS"
      · -- the exit status is written and read back
        subst h3
        have hc : content = Py.encode (toString (result.exitCode.getD (-1))) := by
          simpa [extractArtifactContent] using hx.symm
        rw [if_pos rfl, hc, Py.intOfBytes_encode_toString] at h
        rw [← Except.ok.inj h, hc]
        rfl
      rw [if_neg h3] at h
      by_cases h4 : artifactType = "TEXT_FILE"
      · rw [if_pos h4] at h
        rw [← Except.ok.inj h]
        rfl
      rw [if_neg h4] at h
      by_cases h5 : artifactType = "FIXED_RECORD"
      · rw [if_pos h5] at h
        unfold captureFixedRecord at h
        cases recordLength with
        | none =>
            rw [← Except.ok.inj h]
            rfl
        | some length =>
            simp only at h
            split_ifs at h <;> rw [← Except.ok.inj h] <;> rfl
      · rw [if_neg h5] at h
        cases h

theorem captureFilePair_content {logicalName : String} {x y : Option Bytes}
    {p : CapturedArtifact × CapturedArtifact}
    (h : captureFilePair now oracleResult candidateResult logicalName x y = .ok p) :
    p.1.content = x ∧ p.2.content = y := by
  have hcapture : ∀ {executionId : ExecutionId} {content : Option Bytes} {side : Side}
      {c : CapturedArtifact}, captureArtifact now "TEXT_FILE" (by decide) executionId content
        logicalName side none = .ok c → c.content = content := by
    intro executionId content side c hc
    cases content <;> · rw [← Except.ok.inj hc]; rfl
  obtain ⟨o, ho, hrest⟩ := bind_ok h
  obtain ⟨c, hc, hp⟩ := bind_ok hrest
  rw [← Except.ok.inj hp]
  exact ⟨hcapture ho, hcapture hc⟩

/-! ### Comparisons step by step -/

theorem compareCaptured_spec {comparator : TypedComparator} {policy : ComparisonPolicy}
    {subject : Subject} {logicalName artifactType : String} {o c : CapturedArtifact} {x : Compared}
    (h : compareCaptured runId comparator policy subject logicalName artifactType o c = .ok x) :
    x.subject = subject ∧ ∃ r, comparator.compare ⟨o.artifact, o.content⟩ ⟨c.artifact, c.content⟩
      policy = .ok r ∧ (x.evidence.result = "MATCH" ↔ r.result = .MATCH) := by
  obtain ⟨r, hr, hx⟩ := bind_ok h
  rw [← Except.ok.inj hx]
  exact ⟨rfl, r, hr, ComparisonResult.value_eq_match⟩

/-- The comparison of a declared artifact compares the extracted contents. -/
theorem compareDeclared_spec {a : WorkloadArtifact} {x : Compared}
    (h : compareDeclared py now runId oracleResult candidateResult a = .ok x) :
    x.subject = .artifact a ∧ ∃ comparator o c r,
      registered (defaultRegistry py) a.artifactType = some comparator ∧
      o.content = extractArtifactContent a.artifactType a.outputPath oracleResult ∧
      c.content = extractArtifactContent a.artifactType a.outputPath candidateResult ∧
      comparator.compare o c a.policy = .ok r ∧
      (x.evidence.result = "MATCH" ↔ r.result = .MATCH) := by
  obtain ⟨o, ho, h⟩ := bind_ok h
  obtain ⟨c, hc, h⟩ := bind_ok h
  cases hreg : registered (defaultRegistry py) a.artifactType with
  | none =>
      rw [hreg] at h
      cases h
  | some comparator =>
      simp only [hreg] at h
      cases hbind : bindingMismatch py a comparator.comparatorId.comparatorId with
      | some exc =>
          rw [hbind] at h
          cases h
      | none =>
          rw [hbind] at h
          obtain ⟨hsub, r, hr, hres⟩ := compareCaptured_spec h
          exact ⟨hsub, comparator, _, _, r, rfl, captureArtifact_content ho,
            captureArtifact_content hc, hr, hres⟩

theorem filePolicy_match {o c : CapturedArtifact} {subject : Subject} {logicalName : String}
    {x : Compared} (h : compareCaptured runId (textFileComparator py) filePolicy subject logicalName
      "TEXT_FILE" o c = .ok x) (hx : x.evidence.result = "MATCH") :
    ∃ b, o.content = some b ∧ c.content = some b := by
  obtain ⟨-, r, hr, hres⟩ := compareCaptured_spec h
  obtain ⟨a, b, v, ha, hb, hva, hvb⟩ := (compareText_match hr).1 (hres.1 hx)
  -- under the policy of generated files the view of a content is the content
  have hview : ∀ content, view py filePolicy content = .ok content := fun _ => rfl
  rw [hview, Except.ok.injEq] at hva hvb
  exact ⟨v, by rw [← hva]; exact ha, by rw [← hvb]; exact hb⟩

theorem compareFile_spec {name : String} {x : Compared}
    (h : compareFile py now runId oracleResult candidateResult name = .ok x) :
    x.subject = .file name ∧ (x.evidence.result = "MATCH" →
      ∃ b, oracleResult.generatedFiles.get? name = some b ∧
        candidateResult.generatedFiles.get? name = some b) := by
  obtain ⟨p, hp, h⟩ := bind_ok h
  obtain ⟨ho, hc⟩ := captureFilePair_content hp
  refine ⟨(compareCaptured_spec h).1, fun hx => ?_⟩
  obtain ⟨b, hob, hcb⟩ := filePolicy_match h hx
  exact ⟨b, by rw [← ho, hob], by rw [← hc, hcb]⟩

theorem leaveImage_spec {name : String} {x : Compared}
    (h : leaveImage py now runId oracleResult candidateResult name = .ok x) :
    x.subject = .file name ∧ x.evidence.result ≠ "MATCH" := by
  obtain ⟨p, -, h⟩ := bind_ok h
  rw [← Except.ok.inj h]
  exact ⟨rfl, by simp [inconclusiveComparison]⟩

/-- Decoded images with one canonical text hold the same records. -/
theorem decodePair_canonical {readers : RecordReaders} {org : Organization} {a b : Bytes}
    {x y : DecodedRecords} (h : decodePair readers org a b = .ok (some (x, y)))
    (hxy : x.canonical = y.canonical) : x = y := by
  unfold decodePair at h
  cases ho : readOracleImage readers a org with
  | error exc =>
      simp only [ho] at h
      split_ifs at h
      cases Except.ok.inj h
  | ok x' =>
      cases hc : readCandidateImage readers b org with
      | error exc =>
          simp only [ho, hc] at h
          split_ifs at h
          cases Except.ok.inj h
      | ok y' =>
          simp only [ho, hc, Except.ok.injEq, Option.some.injEq, Prod.mk.injEq] at h
          obtain ⟨rfl, rfl⟩ := h
          cases org with
          | indexed =>
              obtain ⟨xs, -, rfl⟩ := map_ok ho
              obtain ⟨ys, -, rfl⟩ := map_ok hc
              rw [canonicalRecords_inj.1 hxy]
          | relative =>
              obtain ⟨xs, -, rfl⟩ := map_ok ho
              obtain ⟨ys, -, rfl⟩ := map_ok hc
              rw [canonicalRelativeRecords_inj.1 hxy]

/-- The comparison of decoded contents is made, and matches equal canonical texts only. -/
theorem exists_compareDecoded (org : Organization) (name : String)
    (records : DecodedRecords × DecodedRecords) :
    ∃ x, compareDecoded py now runId oracleResult candidateResult org name records = .ok x ∧
      (x.evidence.result = "MATCH" ↔ records.1.canonical = records.2.canonical) := by
  -- under the policy of generated files the view of a content is the content
  have hview : ∀ content, view py filePolicy content = .ok content := fun _ => rfl
  have hcompared : ∀ o c : ComparedSide, o.content = some records.1.canonical →
      c.content = some records.2.canonical →
      ∃ r, (textFileComparator py).compare o c filePolicy = .ok r ∧
        (r.result = .MATCH ↔ records.1.canonical = records.2.canonical) := by
    intro o c ho hc
    obtain ⟨r, hr⟩ : ∃ r, (textFileComparator py).compare o c filePolicy = .ok r := by
      simp only [textFileComparator, compareText, ho, hc, hview, bind, Except.bind]
      split <;> exact ⟨_, rfl⟩
    refine ⟨r, hr, (compareText_match hr).trans ?_⟩
    simp [ho, hc, hview, eq_comm]
  obtain ⟨pair, hpair⟩ : ∃ pair, captureFilePair now oracleResult candidateResult
      s!"generated-file:{name}#records" (some records.1.canonical)
        (some records.2.canonical) = .ok pair := ⟨_, rfl⟩
  obtain ⟨ho, hc⟩ := captureFilePair_content hpair
  obtain ⟨r, hr, hmatch⟩ := hcompared ⟨pair.1.artifact, pair.1.content⟩
    ⟨pair.2.artifact, pair.2.content⟩ ho hc
  refine ⟨_, by
    rw [compareDecoded, hpair]
    simp only [bind, Except.bind, compareCaptured, hr]
    rfl, ?_⟩
  exact ComparisonResult.value_eq_match.trans hmatch

/-- The canonical texts determine the decoded records with their order and their slot numbers, and
the comparison of two decoded files matches exactly when the files hold the same records. -/
theorem recordTexts_exact (name : String) :
    (∀ records records' : List Bytes,
      canonicalRecords records = canonicalRecords records' ↔ records = records') ∧
    (∀ records records' : List (ℕ × Bytes),
      canonicalRelativeRecords records = canonicalRelativeRecords records' ↔
        records = records') ∧
    (∀ records records' : List Bytes,
      ∃ x, compareDecoded py now runId oracleResult candidateResult .indexed name
          (.indexed records, .indexed records') = .ok x ∧
        (x.evidence.result = "MATCH" ↔ records = records')) ∧
    ∀ records records' : List (ℕ × Bytes),
      ∃ x, compareDecoded py now runId oracleResult candidateResult .relative name
          (.relative records, .relative records') = .ok x ∧
        (x.evidence.result = "MATCH" ↔ records = records') := by
  refine ⟨fun _ _ => canonicalRecords_inj, fun _ _ => canonicalRelativeRecords_inj, ?_, ?_⟩
  · intro records records'
    obtain ⟨x, hx, hmatch⟩ := @exists_compareDecoded py now runId oracleResult candidateResult
      .indexed name (.indexed records, .indexed records')
    exact ⟨x, hx, hmatch.trans canonicalRecords_inj⟩
  · intro records records'
    obtain ⟨x, hx, hmatch⟩ := @exists_compareDecoded py now runId oracleResult candidateResult
      .relative name (.relative records, .relative records')
    exact ⟨x, hx, hmatch.trans canonicalRelativeRecords_inj⟩

/-- The comparison of a keyed file compares its decoded records. -/
theorem compareRecordsOf_spec {selects : List SelectClause} {readers : RecordReaders}
    {name : String} {x : Compared}
    (h : compareRecordsOf py now runId oracleResult candidateResult selects readers name =
      .ok (some x)) :
    ∃ org a b xs ys, organizationsOf selects name = [org] ∧
      imagePair oracleResult candidateResult org name = some (a, b) ∧
      decodePair readers org a b = .ok (some (xs, ys)) ∧
      x.subject = .records name (name ++ org.suffix) ∧
      (x.evidence.result = "MATCH" → xs = ys) := by
  unfold compareRecordsOf at h
  split at h
  · next org horg =>
    cases himg : imagePair oracleResult candidateResult org name with
    | none =>
        rw [himg] at h
        cases Except.ok.inj h
    | some images =>
        obtain ⟨a, b⟩ := images
        rw [himg] at h
        obtain ⟨decoded, hdec, h⟩ := bind_ok h
        cases decoded with
        | none => cases Except.ok.inj h
        | some records =>
            obtain ⟨y, hy, h⟩ := bind_ok h
            obtain rfl : y = x := Option.some.inj (Except.ok.inj h)
            obtain ⟨p, hp, hcmp⟩ := bind_ok hy
            obtain ⟨ho, hc⟩ := captureFilePair_content hp
            refine ⟨org, a, b, records.1, records.2, horg, himg, hdec,
              (compareCaptured_spec hcmp).1, fun hx => ?_⟩
            obtain ⟨t, hot, hct⟩ := filePolicy_match hcmp hx
            rw [ho, Option.some.injEq] at hot
            rw [hc, Option.some.injEq] at hct
            exact decodePair_canonical hdec (hot.trans hct.symm)
  · cases Except.ok.inj h

theorem exists_compareRecordsOf {selects : List SelectClause} {readers : RecordReaders}
    {name : String} {org : Organization} {a b : Bytes} {xs ys : DecodedRecords}
    {r : Option Compared} (horg : organizationsOf selects name = [org])
    (himg : imagePair oracleResult candidateResult org name = some (a, b))
    (hdec : decodePair readers org a b = .ok (some (xs, ys)))
    (h : compareRecordsOf py now runId oracleResult candidateResult selects readers name = .ok r) :
    ∃ x, r = some x := by
  unfold compareRecordsOf at h
  rw [horg] at h
  simp only [himg] at h
  obtain ⟨decoded, hd, h⟩ := bind_ok h
  rw [hdec] at hd
  cases Except.ok.inj hd
  obtain ⟨x, -, h⟩ := bind_ok h
  exact ⟨x, (Except.ok.inj h).symm⟩

/-! ### The run -/

/-- What a run is made of, lane by lane. -/
structure RunLanes (py : Py.Rendering) (now : String) (runId : RunId)
    (oracleResult candidateResult : ExecutionResult) (selects : List SelectClause)
    (readers : RecordReaders) (workload : WorkloadDefinition) (run : List Compared) : Prop where
  /-- Each artifact has its comparison. -/
  declared : ∀ a ∈ effectiveArtifacts workload, ∃ x ∈ run,
    compareDeclared py now runId oracleResult candidateResult a = .ok x
  /-- Each keyed file was tried. -/
  keyed : ∀ name ∈ emulatedFileImageNames selects
      (undeclaredFiles oracleResult candidateResult workload),
    ∃ r, compareRecordsOf py now runId oracleResult candidateResult selects readers name = .ok r ∧
      ∀ x, r = some x → x ∈ run
  /-- Each other file has its comparison. -/
  files : ∀ name ∈ undeclaredFiles oracleResult candidateResult workload,
    (∃ x ∈ run, x.subject.covers name ∧ ∃ key,
      compareRecordsOf py now runId oracleResult candidateResult selects readers key =
        .ok (some x)) ∨
    ∃ x ∈ run, compareFile py now runId oracleResult candidateResult name = .ok x ∨
      leaveImage py now runId oracleResult candidateResult name = .ok x
  /-- Each comparison comes from one of the lanes. -/
  origin : ∀ x ∈ run,
    (∃ a ∈ effectiveArtifacts workload,
      compareDeclared py now runId oracleResult candidateResult a = .ok x) ∨
    (∃ name ∈ undeclaredFiles oracleResult candidateResult workload,
      compareRecordsOf py now runId oracleResult candidateResult selects readers name =
        .ok (some x)) ∨
    ∃ name ∈ undeclaredFiles oracleResult candidateResult workload,
      compareFile py now runId oracleResult candidateResult name = .ok x ∨
        leaveImage py now runId oracleResult candidateResult name = .ok x

theorem mem_handledNames {records : List Compared} {name : String} :
    name ∈ handledNames records ↔ ∃ x ∈ records, ∃ key image, x.subject = .records key image ∧
      (name = key ∨ name = image) := by
  simp only [handledNames, List.mem_flatMap]
  refine exists_congr fun x => and_congr_right fun _ => ?_
  cases hs : x.subject <;> simp

theorem compareUndeclared_spec {emulated : List String} {name : String} {x : Compared}
    (h : compareUndeclared py now runId oracleResult candidateResult emulated name = .ok x) :
    compareFile py now runId oracleResult candidateResult name = .ok x ∨
      leaveImage py now runId oracleResult candidateResult name = .ok x := by
  unfold compareUndeclared at h
  split_ifs at h
  · exact .inr h
  · exact .inl h

/-- **A run is made of its lanes.** -/
theorem runLanes {selects : List SelectClause} {readers : RecordReaders}
    {workload : WorkloadDefinition} {run : List Compared}
    (h : runDeclarationDriven py now runId oracleResult candidateResult selects readers workload =
      .ok run) :
    RunLanes py now runId oracleResult candidateResult selects readers workload run := by
  obtain ⟨declared, hdec, h⟩ := bind_ok h
  obtain ⟨records, hrec, h⟩ := bind_ok h
  obtain ⟨files, hfiles, h⟩ := bind_ok h
  rw [← Except.ok.inj h]
  constructor
  · intro a ha
    obtain ⟨x, hx, hax⟩ := Py.exists_of_mapM_ok hdec a ha
    exact ⟨x, by simp [hx], hax⟩
  · intro name hname
    obtain ⟨r, hr, hnr⟩ := Py.exists_of_mapM_ok hrec name hname
    refine ⟨r, hnr, fun x hx => ?_⟩
    simp [List.reduceOption_mem_iff, ← hx, hr]
  · intro name hname
    by_cases hhandled : name ∈ handledNames records.reduceOption
    · obtain ⟨x, hx, key, image, hsub, hcov⟩ := mem_handledNames.1 hhandled
      obtain ⟨key', -, hkey⟩ := Py.mem_of_mapM_ok hrec _ (List.reduceOption_mem_iff.1 hx)
      refine .inl ⟨x, by simp [hx], ?_, key', hkey⟩
      rw [hsub]
      rcases hcov with rfl | rfl
      · exact .inl rfl
      · exact .inr rfl
    · obtain ⟨x, hx, hnx⟩ := Py.exists_of_mapM_ok hfiles name
        (List.mem_filter.2 ⟨hname, by simpa using hhandled⟩)
      exact .inr ⟨x, by simp [hx], compareUndeclared_spec hnx⟩
  · intro x hx
    simp only [List.mem_append, or_assoc] at hx
    rcases hx with hx | hx | hx
    · exact .inl (Py.mem_of_mapM_ok hdec x hx)
    · obtain ⟨name, hname, hnx⟩ := Py.mem_of_mapM_ok hrec _ (List.reduceOption_mem_iff.1 hx)
      exact .inr (.inl ⟨name, (List.mem_filter.1 hname).1, hnx⟩)
    · obtain ⟨name, hname, hnx⟩ := Py.mem_of_mapM_ok hfiles x hx
      exact .inr (.inr ⟨name, (List.mem_filter.1 hname).1, compareUndeclared_spec hnx⟩)

/-! ### The artifacts of a run -/

theorem mem_addRequired {artifacts : List WorkloadArtifact} {t n i : String}
    {ht : t ∈ ["STDOUT", "STDERR", "EXIT_STATUS"]} {a : WorkloadArtifact} (ha : a ∈ artifacts) :
    a ∈ addRequired artifacts t n i ht := by
  unfold addRequired
  split_ifs
  · exact ha
  · simp [ha]

theorem of_mem_addRequired {artifacts : List WorkloadArtifact} {t n i : String}
    {ht : t ∈ ["STDOUT", "STDERR", "EXIT_STATUS"]} {a : WorkloadArtifact}
    (ha : a ∈ addRequired artifacts t n i ht) :
    a ∈ artifacts ∨ a.outputPath = none ∧ a.policy = exactPolicy := by
  unfold addRequired at ha
  split_ifs at ha
  · exact .inl ha
  · rcases List.mem_append.1 ha with ha | ha
    · exact .inl ha
    · obtain rfl := List.mem_singleton.1 ha
      exact .inr ⟨rfl, rfl⟩

theorem exists_addRequired (artifacts : List WorkloadArtifact) (t n i : String)
    (ht : t ∈ ["STDOUT", "STDERR", "EXIT_STATUS"]) :
    ∃ a ∈ addRequired artifacts t n i ht, a.artifactType = t := by
  unfold addRequired
  split_ifs with h
  · obtain ⟨a, ha, hat⟩ := List.any_eq_true.1 h
    exact ⟨a, ha, by simpa using hat⟩
  · exact ⟨_, List.mem_append_right _ (List.mem_singleton.2 rfl), rfl⟩

theorem mem_effectiveArtifacts {workload : WorkloadDefinition} {a : WorkloadArtifact}
    (ha : a ∈ workload.artifacts) : a ∈ effectiveArtifacts workload :=
  mem_addRequired (mem_addRequired (mem_addRequired ha))

theorem of_mem_effectiveArtifacts {workload : WorkloadDefinition} {a : WorkloadArtifact}
    (ha : a ∈ effectiveArtifacts workload) :
    a ∈ workload.artifacts ∨ a.outputPath = none ∧ a.policy = exactPolicy := by
  rcases of_mem_addRequired ha with ha | ha
  · rcases of_mem_addRequired ha with ha | ha
    · exact of_mem_addRequired ha
    · exact .inr ha
  · exact .inr ha

theorem exists_effective (workload : WorkloadDefinition) {t : String}
    (ht : t ∈ ["STDOUT", "STDERR", "EXIT_STATUS"]) :
    ∃ a ∈ effectiveArtifacts workload, a.artifactType = t := by
  simp only [List.mem_cons, List.not_mem_nil, or_false] at ht
  rcases ht with rfl | rfl | rfl
  · obtain ⟨a, ha, hat⟩ := exists_addRequired workload.artifacts "STDOUT" "stdout" "stdout-exact"
      (by decide)
    exact ⟨a, mem_addRequired (mem_addRequired ha), hat⟩
  · obtain ⟨a, ha, hat⟩ := exists_addRequired
      (addRequired workload.artifacts "STDOUT" "stdout" "stdout-exact" (by decide))
      "STDERR" "stderr" "stderr-exact" (by decide)
    exact ⟨a, mem_addRequired ha, hat⟩
  · exact exists_addRequired _ "EXIT_STATUS" "exit-status" "exit-status-exact" (by decide)

/-! ### Matching comparisons -/

theorem extract_stream {path : Option String} {result : ExecutionResult} :
    extractArtifactContent "STDOUT" path result = some result.stdout ∧
      extractArtifactContent "STDERR" path result = some result.stderr ∧
      extractArtifactContent "EXIT_STATUS" path result =
        some (Py.encode (toString (result.exitCode.getD (-1)))) := ⟨rfl, rfl, rfl⟩

theorem sameView_of_match {id : ComparatorId} {o c : ComparedSide} {location description : String}
    {policy : ComparisonPolicy} {r : ComparatorResult} {x y : Bytes}
    (h : compareText py id o c location description policy = .ok r) (hr : r.result = .MATCH)
    (ho : o.content = some x) (hc : c.content = some y) : SameView py policy x y := by
  obtain ⟨a, b, v, ha, hb, hva, hvb⟩ := (compareText_match h).1 hr
  obtain rfl : x = a := Option.some.inj (ho.symm.trans ha)
  obtain rfl : y = b := Option.some.inj (hc.symm.trans hb)
  exact ⟨v, hva, hvb⟩

/-- What a matching comparison of a declared artifact says, type by type. -/
theorem compareDeclared_match {a : WorkloadArtifact} {x : Compared}
    (h : compareDeclared py now runId oracleResult candidateResult a = .ok x)
    (hx : x.evidence.result = "MATCH") :
    (a.artifactType = "STDOUT" →
      SameView py a.policy oracleResult.stdout candidateResult.stdout) ∧
    (a.artifactType = "STDERR" →
      SameView py a.policy oracleResult.stderr candidateResult.stderr) ∧
    (a.artifactType = "EXIT_STATUS" →
      oracleResult.exitCode.getD (-1) = candidateResult.exitCode.getD (-1)) ∧
    ∀ path, DeclaresFile a path → path ≠ "" ∧ ∃ u v,
      oracleResult.generatedFiles.get? path = some u ∧
      candidateResult.generatedFiles.get? path = some v ∧
      if a.artifactType = "TEXT_FILE" then SameView py a.policy u v else u = v := by
  obtain ⟨-, comparator, o, c, r, hreg, ho, hc, hcmp, hres⟩ := compareDeclared_spec h
  have hr := hres.1 hx
  refine ⟨fun ht => ?_, fun ht => ?_, fun ht => ?_, fun path hfile => ?_⟩
  · rw [ht] at hreg ho hc
    cases hreg
    exact sameView_of_match hcmp hr (ho.trans extract_stream.1) (hc.trans extract_stream.1)
  · rw [ht] at hreg ho hc
    cases hreg
    exact sameView_of_match hcmp hr (ho.trans extract_stream.2.1) (hc.trans extract_stream.2.1)
  · rw [ht] at hreg ho hc
    cases hreg
    obtain ⟨u, v, n, hu, hv, hnu, hnv⟩ := (compareExitStatus_match hcmp).1 hr
    obtain rfl := Option.some.inj ((ho.trans extract_stream.2.2).symm.trans hu)
    obtain rfl := Option.some.inj ((hc.trans extract_stream.2.2).symm.trans hv)
    rw [Py.intOfBytes_encode_toString] at hnu hnv
    exact (Option.some.inj hnu).trans (Option.some.inj hnv).symm
  · obtain ⟨hty, hpath⟩ := hfile
    simp only [fileArtifactTypes, List.mem_cons, List.not_mem_nil, or_false] at hty
    have hextract : ∀ result, extractArtifactContent a.artifactType a.outputPath result =
        if path ≠ "" then result.generatedFiles.get? path else none := by
      intro result
      rcases hty with hty | hty <;> simp [extractArtifactContent, hty, hpath, fileArtifactTypes]
    rw [hextract] at ho hc
    have hne : path ≠ "" := by
      intro hempty
      simp only [hempty, ne_eq, not_true_eq_false, if_false] at ho
      rcases hty with hty | hty <;> rw [hty] at hreg <;> cases hreg
      · obtain ⟨u, -, -, hu, -⟩ := (compareText_match hcmp).1 hr
        rw [ho] at hu
        cases hu
      · obtain ⟨u, hu, -⟩ := (compareFixedRecord_match hcmp).1 hr
        rw [ho] at hu
        cases hu
    rw [if_pos hne] at ho hc
    refine ⟨hne, ?_⟩
    rcases hty with hty | hty <;> rw [hty] at hreg <;> cases hreg
    · obtain ⟨u, v, w, hu, hv, hwu, hwv⟩ := (compareText_match hcmp).1 hr
      exact ⟨u, v, ho.symm.trans hu, hc.symm.trans hv, by rw [if_pos hty]; exact ⟨w, hwu, hwv⟩⟩
    · obtain ⟨u, hu, hv, -⟩ := (compareFixedRecord_match hcmp).1 hr
      exact ⟨u, u, ho.symm.trans hu, hc.symm.trans hv, by rw [if_neg (by rw [hty]; decide)]⟩

/-! ### The effects of a matching run -/

section Matching

variable {selects : List SelectClause} {readers : RecordReaders} {workload : WorkloadDefinition}
variable {run : List Compared}

theorem exists_of_streamPolicies {t : String} (ht : t ∈ ["STDOUT", "STDERR", "EXIT_STATUS"])
    {p : ComparisonPolicy} (hp : p ∈ streamPolicies workload t) :
    ∃ a ∈ effectiveArtifacts workload, a.artifactType = t ∧ a.policy = p := by
  unfold streamPolicies at hp
  simp only at hp
  split_ifs at hp with hnone
  · obtain rfl := List.mem_singleton.1 hp
    obtain ⟨a, ha, hat⟩ := exists_effective workload ht
    rcases of_mem_effectiveArtifacts ha with hdecl | ⟨-, hpol⟩
    · have hmem : a ∈ workload.artifacts.filter fun a => a.artifactType = t :=
        List.mem_filter.2 ⟨hdecl, by simpa using hat⟩
      rw [hnone] at hmem
      simp at hmem
    · exact ⟨a, ha, hat, hpol⟩
  · obtain ⟨a, ha, rfl⟩ := List.mem_map.1 hp
    obtain ⟨hdecl, hat⟩ := List.mem_filter.1 ha
    exact ⟨a, mem_effectiveArtifacts hdecl, by simpa using hat, rfl⟩

theorem mem_undeclaredFiles {name : String} :
    name ∈ undeclaredFiles oracleResult candidateResult workload ↔
      Generated oracleResult candidateResult name ∧ name ∉ declaredPaths workload := by
  simp only [undeclaredFiles, Py.sortedSet, List.mem_insertionSort, List.mem_dedup,
    List.mem_filter, List.mem_append, decide_eq_true_eq, Generated]

theorem mem_declaredPaths {path : String} :
    path ∈ declaredPaths workload ↔
      ∃ a ∈ workload.artifacts, a.outputPath = some path ∧ path ≠ "" := by
  simp [declaredPaths, List.mem_filterMap, Option.filter_eq_some_iff]

theorem declared_of_covers {a : WorkloadArtifact} (ha : a ∈ effectiveArtifacts workload)
    {path : String} (hcov : (Subject.artifact a).covers path) : a ∈ workload.artifacts := by
  rcases of_mem_effectiveArtifacts ha with hdecl | ⟨hnone, -⟩
  · exact hdecl
  · rw [hcov.2] at hnone
    cases hnone

theorem exitCode_eq (htold : ExitCodesTold oracleResult candidateResult)
    (h : oracleResult.exitCode.getD (-1) = candidateResult.exitCode.getD (-1)) :
    oracleResult.exitCode = candidateResult.exitCode := by
  unfold ExitCodesTold at htold
  cases ho : oracleResult.exitCode with
  | none =>
      cases hc : candidateResult.exitCode with
      | none => rfl
      | some m =>
          rw [ho, hc] at htold h
          obtain rfl : -1 = m := h
          exact absurd ⟨rfl, rfl⟩ htold.1
  | some n =>
      cases hc : candidateResult.exitCode with
      | none =>
          rw [ho, hc] at htold h
          obtain rfl : n = -1 := h
          exact absurd ⟨rfl, rfl⟩ htold.2
      | some m =>
          rw [ho, hc] at h
          exact congrArg some h

/-- A keyed file whose images are there is tried by its records. -/
theorem KeyedFile.emulated {org : Organization} {name : String} {x y : DecodedRecords}
    (h : KeyedFile selects readers workload oracleResult candidateResult org name x y) :
    name ∈ emulatedFileImageNames selects
      (undeclaredFiles oracleResult candidateResult workload) := by
  obtain ⟨a, b, himg, -⟩ := h.decoded
  have hkey : name ∈ oracleResult.generatedFiles.keys := by
    rw [PyDict.mem_keys_iff]
    cases ho : oracleResult.generatedFiles.get? name with
    | some image => exact ⟨image, rfl⟩
    | none => simp [imagePair, ho] at himg
  have hbase : baseName name ∈ keyedFileNames selects fun s => s.has org := by
    have hmem : org ∈ organizationsOf selects name := by
      rw [h.organization]
      exact List.mem_singleton.2 rfl
    simpa [organizationsOf] using (List.mem_filter.1 hmem).2
  refine List.mem_filter.2 ⟨mem_undeclaredFiles.2 ⟨.inl hkey, h.undeclared⟩, ?_⟩
  refine List.any_eq_true.2 ⟨baseName name, ?_, by simp⟩
  simp only [keyedFileNames, List.mem_map, List.mem_filter] at hbase ⊢
  obtain ⟨s, ⟨hs, hhas⟩, hname⟩ := hbase
  refine ⟨s, ⟨hs, ?_⟩, hname⟩
  cases org <;> simp_all [SelectClause.has]

/-- A keyed file whose images decode has its comparison in the run, and in a matching run its
records are equal. -/
theorem KeyedFile.compared (hlanes : RunLanes py now runId oracleResult candidateResult selects
      readers workload run) {org : Organization} {name : String} {x y : DecodedRecords}
    (h : KeyedFile selects readers workload oracleResult candidateResult org name x y) :
    ∃ c ∈ run, c.subject = .records name (name ++ org.suffix) ∧
      (c.evidence.result = "MATCH" → x = y) := by
  obtain ⟨a, b, himg, hdec⟩ := h.decoded
  obtain ⟨r, hr, hrun⟩ := hlanes.keyed name h.emulated
  obtain ⟨c, rfl⟩ := exists_compareRecordsOf h.organization himg hdec hr
  obtain ⟨org', a', b', x', y', horg, himg', hdec', hsub, hmatch⟩ := compareRecordsOf_spec hr
  obtain rfl : org = org' := by
    rw [h.organization] at horg
    exact (List.cons.inj horg).1
  obtain ⟨rfl, rfl⟩ : a = a' ∧ b = b' := by
    simpa using himg.symm.trans himg'
  obtain ⟨rfl, rfl⟩ : x = x' ∧ y = y' := by
    simpa using hdec.symm.trans hdec'
  exact ⟨c, hrun c rfl, hsub, hmatch⟩

theorem keyedFile_of_compared {name : String} {c : Compared}
    (hname : name ∈ undeclaredFiles oracleResult candidateResult workload)
    (h : compareRecordsOf py now runId oracleResult candidateResult selects readers name =
      .ok (some c)) :
    ∃ org x y, KeyedFile selects readers workload oracleResult candidateResult org name x y ∧
      c.subject = .records name (name ++ org.suffix) ∧
      (c.evidence.result = "MATCH" → x = y) := by
  obtain ⟨org, a, b, x, y, horg, himg, hdec, hsub, hmatch⟩ := compareRecordsOf_spec h
  exact ⟨org, x, y, ⟨(mem_undeclaredFiles.1 hname).2, horg, a, b, himg, hdec⟩, hsub, hmatch⟩

/-- A file the comparisons of a matching run cover is one the executions agree on. -/
theorem fileAgrees_of_covers (hlanes : RunLanes py now runId oracleResult candidateResult selects
      readers workload run) (hall : ∀ c ∈ run, c.evidence.result = "MATCH") {path : String}
    {c : Compared} (hc : c ∈ run) (hcov : c.subject.covers path) :
    FileAgrees py selects readers workload oracleResult candidateResult path := by
  -- the comparison of a declaration of a file at the path
  have hdeclared : ∀ a ∈ workload.artifacts, DeclaresFile a path → path ≠ "" ∧ ∃ u v,
      oracleResult.generatedFiles.get? path = some u ∧
      candidateResult.generatedFiles.get? path = some v ∧
      if a.artifactType = "TEXT_FILE" then SameView py a.policy u v else u = v := by
    intro a ha hfile
    obtain ⟨x, hx, hax⟩ := hlanes.declared a (mem_effectiveArtifacts ha)
    exact (compareDeclared_match hax (hall x hx)).2.2.2 path hfile
  rcases hlanes.origin c hc with ⟨a, ha, hac⟩ | ⟨name, hname, hnc⟩ | ⟨name, hname, hnc⟩
  · rw [(compareDeclared_spec hac).1] at hcov
    have hmem := declared_of_covers ha hcov
    obtain ⟨-, u, v, hu, hv, -⟩ := hdeclared a hmem hcov
    refine .inl ⟨u, v, hu, hv, fun a' ha' hfile' => ?_, fun hnone => absurd ⟨a, hmem, hcov⟩ hnone⟩
    obtain ⟨-, u', v', hu', hv', hagree⟩ := hdeclared a' ha' hfile'
    obtain rfl : u = u' := by simpa using hu.symm.trans hu'
    obtain rfl : v = v' := by simpa using hv.symm.trans hv'
    exact hagree
  · obtain ⟨org, x, y, hkey, hsub, hmatch⟩ := keyedFile_of_compared hname hnc
    obtain rfl := hmatch (hall c hc)
    rw [hsub] at hcov
    exact .inr ⟨org, name, x, hkey, hcov⟩
  · rcases hnc with hnc | hnc
    · obtain ⟨hsub, hmatch⟩ := compareFile_spec hnc
      rw [hsub] at hcov
      obtain rfl : name = path := hcov
      obtain ⟨b, hb, hb'⟩ := hmatch (hall c hc)
      refine .inl ⟨b, b, hb, hb', fun a ha hfile => ?_, fun _ => rfl⟩
      -- a declaration at an undeclared path is one at the empty path, and does not match
      obtain ⟨hne, -⟩ := hdeclared a ha hfile
      exact absurd (mem_declaredPaths.2 ⟨a, ha, hfile.2, hne⟩) (mem_undeclaredFiles.1 hname).2
    · exact absurd (hall c hc) (leaveImage_spec hnc).2

/-- **The effects of a matching run were compared exactly when** nothing was masked by a declaration
that is no file, and no missing exit code stands beside the exit code -1. -/
theorem effectsCompared_iff
    (hrun : runDeclarationDriven py now runId oracleResult candidateResult selects readers
      workload = .ok run)
    (hall : ∀ c ∈ run, c.evidence.result = "MATCH") :
    EffectsCompared py selects readers workload oracleResult candidateResult run ↔
      NothingMasked selects readers workload oracleResult candidateResult ∧
        ExitCodesTold oracleResult candidateResult := by
  have hlanes := runLanes hrun
  have hmatch : ∀ a ∈ effectiveArtifacts workload, ∃ x ∈ run,
      compareDeclared py now runId oracleResult candidateResult a = .ok x ∧
        x.evidence.result = "MATCH" := by
    intro a ha
    obtain ⟨x, hx, hax⟩ := hlanes.declared a ha
    exact ⟨x, hx, hax, hall x hx⟩
  constructor
  · intro h
    refine ⟨fun path hpath hgen => ?_, ?_, ?_⟩
    · obtain ⟨c, hc, hcov⟩ := h.not_dropped path hpath hgen
      rcases hlanes.origin c hc with ⟨a, ha, hac⟩ | ⟨name, hname, hnc⟩ | ⟨name, hname, hnc⟩
      · rw [(compareDeclared_spec hac).1] at hcov
        exact .inl ⟨a, declared_of_covers ha hcov, hcov⟩
      · obtain ⟨org, x, y, hkey, hsub, -⟩ := keyedFile_of_compared hname hnc
        rw [hsub] at hcov
        exact .inr ⟨org, name, x, y, hkey, hcov⟩
      · have hsub : c.subject = .file name := by
          rcases hnc with hnc | hnc
          · exact (compareFile_spec hnc).1
          · exact (leaveImage_spec hnc).1
        rw [hsub] at hcov
        obtain rfl : name = path := hcov
        exact absurd hpath (mem_undeclaredFiles.1 hname).2
    · rintro ⟨ho, hc⟩
      have heq := h.exitCode
      rw [ho, hc] at heq
      cases heq
    · rintro ⟨ho, hc⟩
      have heq := h.exitCode
      rw [ho, hc] at heq
      cases heq
  · rintro ⟨hmasked, htold⟩
    have hcovered : ∀ path, Generated oracleResult candidateResult path →
        ∃ c ∈ run, c.subject.covers path := by
      intro path hgen
      by_cases hpath : path ∈ declaredPaths workload
      · rcases hmasked path hpath hgen with ⟨a, ha, hfile⟩ | ⟨org, name, x, y, hkey, hname⟩
        · obtain ⟨c, hc, hac, -⟩ := hmatch a (mem_effectiveArtifacts ha)
          exact ⟨c, hc, by rw [(compareDeclared_spec hac).1]; exact hfile⟩
        · obtain ⟨c, hc, hsub, -⟩ := hkey.compared hlanes
          exact ⟨c, hc, by rw [hsub]; exact hname⟩
      · rcases hlanes.files path (mem_undeclaredFiles.2 ⟨hgen, hpath⟩) with
          ⟨c, hc, hcov, -⟩ | ⟨c, hc, hpc⟩
        · exact ⟨c, hc, hcov⟩
        · refine ⟨c, hc, ?_⟩
          rcases hpc with hpc | hpc
          · rw [(compareFile_spec hpc).1]
            rfl
          · rw [(leaveImage_spec hpc).1]
            rfl
    refine
      { stdout := fun p hp => ?_
        stderr := fun p hp => ?_
        exitCode := ?_
        files := fun path hgen => ?_
        not_dropped := fun path _ hgen => hcovered path hgen }
    · obtain ⟨a, ha, hat, rfl⟩ := exists_of_streamPolicies (by decide) hp
      obtain ⟨x, -, hax, hx⟩ := hmatch a ha
      exact (compareDeclared_match hax hx).1 hat
    · obtain ⟨a, ha, hat, rfl⟩ := exists_of_streamPolicies (by decide) hp
      obtain ⟨x, -, hax, hx⟩ := hmatch a ha
      exact (compareDeclared_match hax hx).2.1 hat
    · obtain ⟨a, ha, hat⟩ := exists_effective workload (t := "EXIT_STATUS") (by decide)
      obtain ⟨x, -, hax, hx⟩ := hmatch a ha
      exact exitCode_eq htold ((compareDeclared_match hax hx).2.2.1 hat)
    · obtain ⟨c, hc, hcov⟩ := hcovered path hgen
      exact fileAgrees_of_covers hlanes hall hc hcov

end Matching

/-! ### Two small runs -/

/-- A workload that declares the standard output only, with an output path beside it or not. -/
def Sample.consoleWorkload (outputPath : Option String) : WorkloadDefinition where
  workloadId := "payroll"
  description := "payroll"
  artifacts :=
    [{ logicalName := "console"
       artifactType := "STDOUT"
       comparatorId := "stdout-exact"
       outputPath := outputPath
       normalization := none
       ordering := none
       failure := none
       recordLength := none }]
  artifacts_ne := by simp
  logicalNames_nodup := by simp

/-- An execution that printed nothing and wrote one report. -/
def Sample.reporting (executionId : ExecutionId) (report : Bytes) : ExecutionResult where
  executionId := executionId
  exitCode := some 0
  stdout := []
  stderr := []
  generatedFiles := ⟨[("report.txt", report)], by simp⟩

def Sample.noReaders : RecordReaders where
  bdbBtreeRecords := fun _ => .error (unreadableImage "not certified")
  emulatedIndexRecords := fun _ => .error (unreadableImage "not certified")
  gnucobolRelativeRecords := fun _ => .error (unreadableImage "not certified")
  emulatedRelativeRecords := fun _ => .error (unreadableImage "not certified")

/-- Two executions that wrote one report are compared in all they did. -/
theorem effectsCompared_reporting : ∃ run,
    runDeclarationDriven Sample.plain "now" ⟨"run-1", by decide⟩
      (Sample.reporting ⟨"exec-o", by decide⟩ [65]) (Sample.reporting ⟨"exec-c", by decide⟩ [65])
      [] Sample.noReaders (Sample.consoleWorkload none) = .ok run ∧
    EffectsCompared Sample.plain [] Sample.noReaders (Sample.consoleWorkload none)
      (Sample.reporting ⟨"exec-o", by decide⟩ [65]) (Sample.reporting ⟨"exec-c", by decide⟩ [65])
      run := by
  refine ⟨_, rfl, (effectsCompared_iff rfl (by decide)).2 ⟨fun path hpath => ?_, ?_⟩⟩
  · exact absurd hpath (by simp [declaredPaths, Sample.consoleWorkload])
  · simp [ExitCodesTold, Sample.reporting]

/-- **A run that matches over differing files**: the report is named by the declaration of the
standard output, and the two executions wrote different ones. -/
theorem masked_file_not_compared :
    ¬ ∀ (py : Py.Rendering) (now : String) (runId : RunId) (oracle candidate : ExecutionResult)
      (selects : List SelectClause) (readers : RecordReaders) (workload : WorkloadDefinition)
      (run : List Compared),
      runDeclarationDriven py now runId oracle candidate selects readers workload = .ok run →
      (∀ c ∈ run, c.evidence.result = "MATCH") →
      EffectsCompared py selects readers workload oracle candidate run := by
  intro h
  have heff := h Sample.plain "now" ⟨"run-1", by decide⟩ (Sample.reporting ⟨"exec-o", by decide⟩ [65])
    (Sample.reporting ⟨"exec-c", by decide⟩ [66]) [] Sample.noReaders
    (Sample.consoleWorkload (some "report.txt")) _ rfl (by decide)
  rcases heff.files "report.txt" (.inl (by decide)) with ⟨x, y, hx, hy, hagree⟩ | ⟨org, name, _, hkey, -⟩
  · obtain rfl : [65] = x := Option.some.inj hx
    obtain rfl : [66] = y := Option.some.inj hy
    refine absurd (hagree.2 ?_) (by decide)
    rintro ⟨a, ha, hty, -⟩
    obtain rfl := List.mem_singleton.1 ha
    exact absurd hty (by simp [fileArtifactTypes])
  · have horg := hkey.organization
    simp [organizationsOf, keyedFileNames] at horg

end CobolJava
