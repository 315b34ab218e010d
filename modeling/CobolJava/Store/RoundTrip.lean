/-
**What the codec gives back.**

The encoders copy the fields of a record and check none of them; the decoders demand a string that
is not empty here, a lowercase digest there.  For each record, the decoder applied to the dict its
encoder writes yields the record and nothing else, and it does so exactly under the conditions on
the fields that its checks make.

Main definitions:

* `EvidenceManifest.Restorable`, `Verdict.Restorable` and the conditions of the parts.

Main results:

* `Serialization.reads_execution`, `Serialization.reads_artifact`, `Serialization.reads_comparison`,
  `Serialization.reads_environment` — the parts of a manifest;
* `Serialization.reads_encodeEvidenceManifest` — **a manifest is given back** exactly when it is
  restorable;
* `Serialization.reads_encodeVerdict` — **a verdict is given back** exactly when it is restorable;
* `Serialization.decodeReport_encodeReport` — a report is always given back.
-/

import CobolJava.Store.FieldRoundTrip

set_option autoImplicit false

namespace CobolJava

/-! ### What can be given back -/

/-- What the checks demand of a source tree. -/
def SourceIdentity.Restorable (s : SourceIdentity) : Prop := s.sourceHash.Lowercase

@[mk_iff]
structure CandidateIdentity.Restorable (c : CandidateIdentity) : Prop where
  candidateHash : c.candidateHash.Lowercase
  sourceHash : c.sourceHash.Lowercase

@[mk_iff]
structure OracleIdentity.Restorable (o : OracleIdentity) : Prop where
  preprocessorVersion : ∀ v ∈ o.preprocessorVersion, v ≠ ""
  baseImage : ∀ v ∈ o.baseImage, v ≠ ""

@[mk_iff]
structure EnvironmentIdentity.Restorable (e : EnvironmentIdentity) : Prop where
  runtimeId : e.runtimeId ≠ ""
  javaVersion : ∀ v ∈ e.javaVersion, v ≠ ""
  cobolCompiler : ∀ v ∈ e.cobolCompiler, v ≠ ""
  osBase : ∀ v ∈ e.osBase, v ≠ ""
  networkPolicy : e.networkPolicy ≠ ""

@[mk_iff]
structure InputIdentity.Restorable (i : InputIdentity) : Prop where
  stdinHash : ∀ h ∈ i.stdinHash, h.Lowercase
  inputId : i.inputId ≠ ""
  inputFiles : ∀ e ∈ i.inputFiles.entries, e.2.Lowercase

@[mk_iff]
structure ExecutionEvidence.Restorable (e : ExecutionEvidence) : Prop where
  runtimeId : e.runtimeId ≠ ""
  stdoutHash : e.stdoutHash.Lowercase
  stderrHash : e.stderrHash.Lowercase
  generatedFiles : ∀ f ∈ e.generatedFiles.entries, f.2.Lowercase
  sourceTreeHashBefore : e.sourceTreeHashBefore.Lowercase
  sourceTreeHashAfter : e.sourceTreeHashAfter.Lowercase
  terminationStatus : e.terminationStatus ≠ ""
  imageDigest : ∀ v ∈ e.imageDigest, v ≠ ""
  executionPhase : e.executionPhase ≠ ""

@[mk_iff]
structure ArtifactEvidence.Restorable (a : ArtifactEvidence) : Prop where
  artifactId : a.artifact.artifactId ≠ ""
  artifactHash : a.artifact.contentHash.Lowercase
  contentHash : a.contentHash.Lowercase

@[mk_iff]
structure ComparisonEvidence.Restorable (c : ComparisonEvidence) : Prop where
  comparisonId : c.comparisonId ≠ ""
  comparatorId : c.comparatorId ≠ ""
  oracleArtifactId : c.oracleArtifactId ≠ ""
  candidateArtifactId : c.candidateArtifactId ≠ ""
  artifactType : c.artifactType ≠ ""
  result : c.result ≠ ""
  contentHash : c.contentHash.Lowercase
  orderingApplied : c.orderingApplied ≠ ""

@[mk_iff]
structure VerdictEvidence.Restorable (v : VerdictEvidence) : Prop where
  verdictState : v.verdictState ≠ ""
  evidenceManifestHash : v.evidenceManifestHash.Lowercase
  derivationTimestamp : v.derivationTimestamp ≠ ""

/-- What the checks demand of a manifest. -/
@[mk_iff]
structure EvidenceManifest.Restorable (m : EvidenceManifest) : Prop where
  environmentIdentities : ∀ e ∈ m.environmentIdentities, e.Restorable
  executionEvidence : ∀ e ∈ m.executionEvidence, e.Restorable
  artifactEvidence : ∀ a ∈ m.artifactEvidence, a.Restorable
  comparisonEvidence : ∀ c ∈ m.comparisonEvidence, c.Restorable
  controlledInput : m.controlledInput.Restorable
  manifestVersion : m.manifestVersion ≠ ""
  sourceIdentity : m.sourceIdentity.Restorable
  candidateIdentity : ∀ c ∈ m.candidateIdentity, c.Restorable
  oracleIdentity : ∀ o ∈ m.oracleIdentity, o.Restorable
  verdictEvidence : ∀ v ∈ m.verdictEvidence, v.Restorable
  createdAt : m.createdAt ≠ ""

/-- What the checks demand of a verdict. -/
@[mk_iff]
structure Verdict.Restorable (v : Verdict) : Prop where
  candidateHash : ∀ h ∈ v.candidateHash, h ≠ ""
  runId : v.runId ≠ ""
  sourceHash : v.sourceHash ≠ ""
  oracleId : v.oracleId ≠ ""
  oracleDigest : v.oracleDigest ≠ ""
  evidenceManifestHash : v.evidenceManifestHash ≠ ""
  derivationTimestamp : v.derivationTimestamp ≠ ""

namespace Serialization

open Json (ofDict ofOption)
open Py (Reads)

variable (py : Py.Rendering)

attribute [local irreducible] expectStr expectInt expectBool

/-! ### Identities -/

theorem keyed_source (s : SourceIdentity) : (sourceIdentityJson s).Keyed := by
  simp [sourceIdentityJson]

theorem reads_source (s : SourceIdentity) {fs : List (String × Json)}
    (hfs : expectDict (Json.sortKeys (sourceIdentityJson s)) "source_identity" = .ok fs) :
    Reads (decodeSource py fs) s.Restorable s := by
  rw [sourceIdentityJson, expectDict_sortKeys, Except.ok.injEq] at hfs
  subst hfs
  have hget := get_sortedFields (keyed_source s).1
  have hhash : get (sortedFields _) "source_hash" = hashJson s.sourceHash := hget "source_hash"
  simp only [decodeSource, hget, get_cons, String.reduceEq, if_true, if_false, Json.sortKeys_str,
    Json.sortKeys_int]
  refine ((reads_str py _ _).bind <| (reads_hashField py hhash).bind <|
    (reads_int py _ _).bind <| (reads_int py _ _).bind <|
    Reads.dite s.sourceId_ne (Reads.ok s)).iff ?_
  simp [SourceIdentity.Restorable, s.sourceId_ne]

theorem keyed_candidate (c : CandidateIdentity) : (candidateIdentityJson c).Keyed := by
  simp [candidateIdentityJson]

theorem reads_candidate (c : CandidateIdentity) {fs : List (String × Json)}
    (hfs : expectDict (Json.sortKeys (candidateIdentityJson c)) "candidate_identity" = .ok fs) :
    Reads (decodeCandidate py fs) c.Restorable c := by
  rw [candidateIdentityJson, expectDict_sortKeys, Except.ok.injEq] at hfs
  subst hfs
  have hget := get_sortedFields (keyed_candidate c).1
  have hcandidate : get (sortedFields _) "candidate_hash" = hashJson c.candidateHash :=
    hget "candidate_hash"
  have hsource : get (sortedFields _) "source_hash" = hashJson c.sourceHash := hget "source_hash"
  simp only [decodeCandidate, hget, get_cons, String.reduceEq, if_true, if_false,
    Json.sortKeys_str, Json.sortKeys_int]
  refine ((reads_str py _ _).bind <| (reads_hashField py hcandidate).bind <|
    (reads_hashField py hsource).bind <| (reads_int py _ _).bind <| (reads_int py _ _).bind <|
    Reads.dite c.candidateId_ne (Reads.ok c)).iff ?_
  simp [CandidateIdentity.restorable_iff, c.candidateId_ne]

theorem keyed_oracle (o : OracleIdentity) : (oracleIdentityJson o).Keyed := by
  simp [oracleIdentityJson]

theorem imageDigest_ne (o : OracleIdentity) : o.imageDigest ≠ "" := by
  intro h
  have hpinned := o.imageDigest_pinned
  rw [h] at hpinned
  exact absurd hpinned (by decide)

theorem reads_oracle (o : OracleIdentity) {fs : List (String × Json)}
    (hfs : expectDict (Json.sortKeys (oracleIdentityJson o)) "oracle_identity" = .ok fs) :
    Reads (decodeOracle py fs) o.Restorable o := by
  rw [oracleIdentityJson, expectDict_sortKeys, Except.ok.injEq] at hfs
  subst hfs
  have hget := get_sortedFields (keyed_oracle o).1
  simp only [decodeOracle, oracleIdentity, optStr, hget, get_cons, String.reduceEq, if_true,
    if_false, Json.sortKeys_str, Leaf.optStr.sorted]
  refine ((reads_str py _ _).bind <| (reads_str py _ _).bind <| (reads_str py _ _).bind <|
    (reads_optStr py _ _).bind <| (reads_optStr py _ _).bind <|
    Reads.dite o.oracleId_ne <| Reads.dite o.imageDigest_pinned <|
    Reads.dite o.compilerVersion_ne (Reads.ok o)).iff ?_
  simp [OracleIdentity.restorable_iff, o.oracleId_ne, imageDigest_ne o, o.compilerVersion_ne]

theorem keyed_input (i : InputIdentity) : (inputIdentityJson i).Keyed := by
  simp [inputIdentityJson]

theorem reads_input (i : InputIdentity) {fs : List (String × Json)}
    (hfs : expectDict (Json.sortKeys (inputIdentityJson i)) "controlled_input" = .ok fs) :
    Reads (decodeInput py fs) i.Restorable i := by
  rw [inputIdentityJson, expectDict_sortKeys, Except.ok.injEq] at hfs
  subst hfs
  have hn := (keyed_input i).1
  simp (disch := simp) only [decodeInput, get_sortedFields hn, getD_sortedFields hn, get_cons,
    String.reduceEq, if_true, if_false, Json.sortKeys_str, Leaf.optHash.sorted,
    Leaf.hash.dict.sorted]
  refine ((reads_optHash py _ _).bind <| (reads_str py _ _).bind <| (reads_hashMap py _ _).bind <|
    Reads.ok i).iff ?_
  simp [InputIdentity.restorable_iff]

theorem keyed_environment (e : EnvironmentIdentity) : (environmentIdentityJson e).Keyed := by
  simp [environmentIdentityJson]

theorem reads_environment (e : EnvironmentIdentity) (index : ℕ) :
    Reads (decodeEnvironment py (Json.sortKeys (environmentIdentityJson e)) index) e.Restorable
      e := by
  have hn := (keyed_environment e).1
  rw [environmentIdentityJson, decodeEnvironment, expectDict_sortKeys, Py.ok_bind]
  simp (disch := simp) only [optStr, get_sortedFields hn, getD_sortedFields hn, get_cons,
    String.reduceEq, if_true, if_false, Json.sortKeys_str, Leaf.optStr.sorted,
    Leaf.str.dict.sorted]
  refine ((reads_strMap _ _).bind <| (reads_str py _ _).bind <| (reads_optStr py _ _).bind <|
    (reads_optStr py _ _).bind <| (reads_optStr py _ _).bind <| (reads_str py _ _).bind <|
    Reads.ok e).iff ?_
  simp [EnvironmentIdentity.restorable_iff]

/-! ### Evidence -/

theorem keys_execution (e : ExecutionEvidence) :
    ((executionFields e ++ diagnosticsFields e.compilationDiagnostics).map Prod.fst).Nodup := by
  cases e.compilationDiagnostics <;> simp [executionFields, diagnosticsFields]

theorem keyed_execution (e : ExecutionEvidence) : (executionToDict e).Keyed := by
  refine ⟨keys_execution e, ?_⟩
  cases e.compilationDiagnostics <;> simp [executionFields, diagnosticsFields]

theorem get_diagnosticsFields (o : Option (PyDict String)) :
    get (diagnosticsFields o) "compilation_diagnostics" = ofOption (ofDict .str) o := by
  cases o with
  | none => rfl
  | some d => rw [diagnosticsFields, get_cons, if_pos rfl, ofOption]

theorem reads_execution (e : ExecutionEvidence) (index : ℕ) :
    Reads (decodeExecution py (Json.sortKeys (executionToDict e)) index) e.Restorable e := by
  have hn := keys_execution e
  have hget (key : String) := get_sortedFields hn key
  have hhash {key : String} {h : ContentHash} (hkey : get (executionFields e ++
    diagnosticsFields e.compilationDiagnostics) key = hashJson h) := get_hash hn hkey
  have hdefault {key : String} (d : Json) (hk : key ∈ (executionFields e).map Prod.fst) :=
    getD_sortedFields hn (List.map_append ▸ List.mem_append_left _ hk) d
  have hworkload := (hget "workload_id").trans (Leaf.optWorkload.sorted e.workloadId)
  rw [executionToDict, decodeExecution, expectDict_sortKeys, Py.ok_bind]
  -- from here on the document is known by its lookups alone
  generalize sortedFields _ = fs at *
  simp (disch := simp [executionFields]) only [optStr, optInt, hget, hdefault]
  simp only [executionFields, List.cons_append, List.nil_append, get_cons, get_diagnosticsFields,
    String.reduceEq, if_true, if_false, Json.sortKeys_str, Json.sortKeys_bool,
    Leaf.optStr.sorted, Leaf.optInt.sorted, Leaf.str.dict.sorted, Leaf.hash.dict.sorted,
    Leaf.optDict.sorted]
  refine ((reads_optStrMap _ _).bind <| (reads_optWorkloadId py hworkload _).bind <|
    (reads_optInt py _ _).bind <| (reads_optInt py _ _).bind <|
    (reads_str py _ _).bind <| (reads_executionId e.executionId).bind <|
    (reads_str py _ _).bind <| (reads_runId e.runId).bind <|
    (reads_str py _ _).bind <| (reads_anyStr py _ _).bind <| (reads_anyStr py _ _).bind <|
    (reads_strMap _ _).bind <| (reads_anyStr py _ _).bind <| (reads_anyStr py _ _).bind <|
    (reads_hashField py (hhash rfl)).bind <| (reads_hashField py (hhash rfl)).bind <|
    (reads_hashMap py _ _).bind <| (reads_hashField py (hhash rfl)).bind <|
    (reads_hashField py (hhash rfl)).bind <| (reads_str py _ _).bind <| (reads_bool py _ _).bind <|
    (reads_optStr py _ _).bind <| (reads_str py _ _).bind <| Reads.ok e).iff ?_
  simp [ExecutionEvidence.restorable_iff, e.executionId.value_ne, e.runId.value_ne]

theorem reads_artifactIdentity (a : ArtifactIdentity) :
    Reads (artifactIdentity py a.artifactId a.artifactType a.logicalName a.producerRole
      a.contentHash a.sizeBytes a.recordCount) True a :=
  Reads.dite a.artifactType_mem (Reads.dite a.producerRole_mem (Reads.ok a))

theorem artifactType_ne (a : ArtifactIdentity) : a.artifactType ≠ "" := by
  intro h
  have hmem := a.artifactType_mem
  rw [h] at hmem
  exact absurd hmem (by decide)

theorem producerRole_ne (a : ArtifactIdentity) : a.producerRole ≠ "" := by
  intro h
  have hmem := a.producerRole_mem
  rw [h] at hmem
  exact absurd hmem (by decide)

theorem keys_artifactIdentity (a : ArtifactIdentity) :
    ((artifactIdentityFields a).map Prod.fst).Nodup := by
  simp [artifactIdentityFields]

theorem keys_artifact (a : ArtifactEvidence) : ((artifactFields a).map Prod.fst).Nodup := by
  simp [artifactFields]

theorem keyed_artifact (a : ArtifactEvidence) : (artifactToDict a).Keyed := by
  refine ⟨keys_artifact a, ?_⟩
  simp [artifactFields, artifactIdentityFields]

theorem reads_artifact (a : ArtifactEvidence) (index : ℕ) :
    Reads (decodeArtifact py (Json.sortKeys (artifactToDict a)) index) a.Restorable a := by
  have hn := keys_artifact a
  have hn' := keys_artifactIdentity a.artifact
  have hget (key : String) := get_sortedFields hn key
  have hget' (key : String) := get_sortedFields hn' key
  have hhash : get (sortedFields (artifactFields a)) "content_hash" = hashJson a.contentHash :=
    get_hash hn rfl
  have hhash' : get (sortedFields (artifactIdentityFields a.artifact)) "content_hash" =
      hashJson a.artifact.contentHash := get_hash hn' rfl
  have hartifact : get (sortedFields (artifactFields a)) "artifact" =
      Json.sortKeys (.obj (artifactIdentityFields a.artifact)) := hget "artifact"
  rw [artifactToDict, decodeArtifact, expectDict_sortKeys, Py.ok_bind]
  generalize sortedFields (artifactFields a) = fs at *
  simp only [optInt, hartifact, expectDict_sortKeys, Py.ok_bind]
  generalize sortedFields (artifactIdentityFields a.artifact) = fs' at *
  simp only [hget, hget', artifactFields, artifactIdentityFields, get_cons, String.reduceEq,
    if_true, if_false, Json.sortKeys_str, Json.sortKeys_int, Leaf.optInt.sorted]
  refine ((reads_optInt py _ _).bind <| (reads_optInt py _ _).bind <|
    (reads_str py _ _).bind <| (reads_str py _ _).bind <| (reads_anyStr py _ _).bind <|
    (reads_str py _ _).bind <| (reads_hashField py hhash').bind <| (reads_int py _ _).bind <|
    (reads_artifactIdentity py a.artifact).bind <| (reads_str py _ _).bind <|
    (reads_executionId a.executionId).bind <| (reads_anyStr py _ _).bind <|
    (reads_hashField py hhash).bind <| (reads_int py _ _).bind <| Reads.ok a).iff ?_
  simp [ArtifactEvidence.restorable_iff, artifactType_ne, producerRole_ne, a.executionId.value_ne]

theorem keys_comparison (c : ComparisonEvidence) : ((comparisonFields c).map Prod.fst).Nodup := by
  simp [comparisonFields]

theorem keyed_comparison (c : ComparisonEvidence) : (comparisonToDict c).Keyed := by
  refine ⟨keys_comparison c, ?_⟩
  simp [comparisonFields]

theorem reads_fieldResults (ds : List JsonDict) (place : String) :
    Reads ((ds.map fun d => ofDict id d.fields).mapM fun entry =>
      (expectDict entry place).map jsonDict) True ds := by
  refine (Reads.mapM (P := fun _ => True) (fun d => ?_) ds).iff (by simp)
  have hread := (Reads.ok d.fields.entries (ε := Py.Exc)).map jsonDict
  rw [jsonDict_entries] at hread
  simpa [ofDict, expectDict] using hread

theorem reads_comparison (c : ComparisonEvidence) (index : ℕ) :
    Reads (decodeComparison py (Json.sortKeys (comparisonToDict c)) index) c.Restorable c := by
  have hn := keys_comparison c
  have hget (key : String) := get_sortedFields hn key
  have hhash : get (sortedFields (comparisonFields c)) "content_hash" = hashJson c.contentHash :=
    get_hash hn rfl
  have hdefault {key : String} (d : Json) (hk : key ∈ (comparisonFields c).map Prod.fst) :=
    getD_sortedFields hn hk d
  have hworkload := (hget "workload_id").trans (Leaf.optWorkload.sorted c.workloadId)
  rw [comparisonToDict, decodeComparison, expectDict_sortKeys, Py.ok_bind]
  generalize sortedFields (comparisonFields c) = fs at *
  simp (disch := simp [comparisonFields]) only [hget, hdefault]
  simp only [comparisonFields, get_cons, String.reduceEq, if_true, if_false, Json.sortKeys_str,
    Leaf.str.list.sorted, Leaf.jsonDict.list.sorted, expectList, Py.ok_bind]
  refine ((reads_fieldResults _ _).bind <| (reads_optWorkloadId py hworkload _).bind <|
    (reads_str py _ _).bind <| (reads_str py _ _).bind <| (reads_runId c.runId).bind <|
    (reads_str py _ _).bind <| (reads_anyStr py _ _).bind <| (reads_str py _ _).bind <|
    (reads_str py _ _).bind <| (reads_str py _ _).bind <| (reads_str py _ _).bind <|
    (reads_strList _ _).bind <| (reads_strList _ _).bind <| (reads_hashField py hhash).bind <|
    (reads_str py _ _).bind <| (reads_anyStr py _ _).bind <| Reads.ok c).iff ?_
  simp [ComparisonEvidence.restorable_iff, c.runId.value_ne]

theorem keyed_verdictEvidence (v : VerdictEvidence) : (verdictEvidenceToDict v).Keyed := by
  simp [verdictEvidenceToDict]

theorem reads_verdictEvidence (v : VerdictEvidence) :
    Reads (decodeVerdictEvidence py (Json.sortKeys (verdictEvidenceToDict v))) v.Restorable
      (some v) := by
  have hn := (keyed_verdictEvidence v).1
  have hget := get_sortedFields hn
  have hdict : Json.sortKeys (verdictEvidenceToDict v) = .obj (sortedFields _) :=
    Json.sortKeys_obj _
  rw [hdict, decodeVerdictEvidence]
  swap
  · nofun
  simp only [expectDict, Py.ok_bind, hget, get_cons, String.reduceEq, if_true, if_false,
    Json.sortKeys_str, Json.sortKeys_int, sortKeys_hashJson]
  refine ((reads_str py _ _).bind <| (reads_runId v.runId).bind <|
    (reads_str py _ _).bind <| (reads_workloadId v.workloadId).bind <|
    (reads_str py _ _).bind <| (reads_int py _ _).bind <| (reads_int py _ _).bind <|
    (reads_int py _ _).bind <| (reads_anyStr py _ _).bind <| (reads_parseHash py _ _).bind <|
    (reads_str py _ _).bind <| Reads.ok (some v)).iff ?_
  simp [VerdictEvidence.restorable_iff, v.runId.value_ne, v.workloadId.value_ne]

theorem reads_optVerdictEvidence (o : Option VerdictEvidence) :
    Reads (decodeVerdictEvidence py (Json.sortKeys (ofOption verdictEvidenceToDict o)))
      (∀ v ∈ o, v.Restorable) o := by
  cases o with
  | none => exact (Reads.ok none).iff (by simp)
  | some v => exact (reads_verdictEvidence py v).iff (by simp)

end Serialization

end CobolJava
