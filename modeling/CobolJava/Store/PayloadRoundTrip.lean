/-
**Whole payloads given back.**

The payload columns of a run: an evidence manifest, a verdict and a report, each in its envelope.
The envelope is always opened again, a report always comes back, a manifest and a verdict exactly
when their fields pass the checks of the decoder.

Main results:

* `Serialization.decodeEnvelope_encodeEnvelope` — the envelope is opened;
* `Serialization.reads_encodeVerdict` — **a verdict is given back** exactly when it is restorable;
* `Serialization.reads_encodeEvidenceManifest` — **a manifest is given back** exactly when it is
  restorable;
* `Serialization.decodeReport_encodeReport` — a report is always given back.
-/

import CobolJava.Store.RoundTrip

set_option autoImplicit false

namespace CobolJava

namespace Serialization

open Json (ofDict ofOption)
open Py (Reads)

variable (py : Py.Rendering)

attribute [local irreducible] expectStr expectInt expectBool

/-! ### The envelope -/

theorem keys_document (schema : String) (payload : List (String × Json)) :
    ((document schema payload).map Prod.fst).Nodup := by
  simp [document]

/-- **The envelope is opened** on the payload it was closed on, its keys in order. -/
theorem decodeEnvelope_encodeEnvelope (schema : String) {payload : List (String × Json)}
    (h : (Json.obj payload).Keyed) :
    decodeEnvelope py (some (encodeEnvelope schema payload)) schema =
      .ok (some (sortedFields payload)) := by
  have hkeyed : (Json.obj (document schema payload)).Keyed :=
    ⟨keys_document schema payload, trivial, trivial, h, trivial⟩
  have hget (key : String) := get_sortedFields (keys_document schema payload) key
  have hschema := hget "schema"
  have hversion := hget "schema_version"
  have hpayload := hget "payload"
  simp only [document, get_cons, String.reduceEq, if_true, if_false, Json.sortKeys_str,
    Json.sortKeys_int] at hschema hversion hpayload
  rw [encodeEnvelope, decodeEnvelope, Py.decode_encode]
  dsimp only
  rw [Py.ok_bind, Json.loads_dumps hkeyed]
  dsimp only
  rw [Py.ok_bind, expectDict_sortKeys, Py.ok_bind]
  simp only [document] at hschema hversion hpayload ⊢
  rw [hschema, hversion, hpayload, expectDict_sortKeys]
  simp only [if_true, Py.ok_bind]
  rfl

/-! ### Verdicts -/

theorem keyed_verdict (v : Verdict) : (Json.obj (verdictEntries v)).Keyed := by
  simp [verdictEntries]

theorem absent_verdict (v : Verdict) : (verdictFields.filter fun key =>
    !((sortedFields (verdictEntries v)).map Prod.fst).contains key) = [] := by
  have hperm : ((sortedFields (verdictEntries v)).map Prod.fst).Perm verdictFields := by
    have h := (List.perm_insertionSort (fun a b : String × Json => a.1 ≤ b.1)
      ((verdictEntries v).map fun f => (f.1, Json.sortKeys f.2))).map Prod.fst
    rw [List.map_map] at h
    exact h
  rw [List.filter_eq_nil_iff]
  intro key hkey
  simpa using hperm.mem_iff.2 hkey

theorem Reads.malformedVerdict {α : Type} {x : Except Py.Exc α} {F : Prop} {a : α}
    (h : Reads x F a) : Reads (malformedVerdict x) F a := by
  intro v
  rw [← h v]
  rcases x with (e | a)
  · cases e <;> simp [Serialization.malformedVerdict, corrupt]
  · rfl

theorem reads_verdictState (state : VerdictState) :
    Reads (match verdictStateOf state.value with
      | some state => .ok state
      | none => corrupt ("persisted verdict state " ++ py.repr state.value ++
          " is not a valid verdict state")) True state := by
  rw [verdictStateOf_value]
  exact Reads.ok state

theorem verdictState_value_ne (state : VerdictState) : state.value ≠ "" := by
  cases state <;> decide

/-- **A verdict is given back** exactly when its fields pass the checks. -/
theorem reads_encodeVerdict (v : Verdict) :
    Reads (decodeVerdict py (some (encodeEnvelope schemaVerdict (verdictEntries v)))) v.Restorable
      (some v) := by
  have hn := (keyed_verdict v).1
  have hget (key : String) := get_sortedFields hn key
  have habsent := absent_verdict v
  rw [decodeVerdict, decodeEnvelope_encodeEnvelope py _ (keyed_verdict v), Py.ok_bind]
  dsimp only
  rw [if_neg (not_not.2 habsent)]
  generalize sortedFields (verdictEntries v) = fs at *
  simp only [optStr, hget, verdictEntries, get_cons, String.reduceEq, if_true, if_false,
    Json.sortKeys_str, Json.sortKeys_int, Leaf.optStr.sorted, Leaf.str.list.sorted]
  refine ((reads_str py _ _).bind <| (reads_verdictState py v.state).bind <|
    (reads_optStr py _ _).bind <| Reads.bind (f := fun v => .ok (some v)) (Reads.malformedVerdict <|
      (reads_str py _ _).bind <| (reads_workloadId v.workloadId).bind <|
      (reads_str py _ _).bind <| (reads_str py _ _).bind <| (reads_str py _ _).bind <|
      (reads_str py _ _).bind <| (reads_int py _ _).bind <| (reads_int py _ _).bind <|
      (reads_int py _ _).bind <| (reads_anyStr py _ _).bind <| (reads_str py _ _).bind <|
      (reads_str py _ _).bind <| (reads_strList _ _).bind <| Reads.ok v) <|
    Reads.ok (some v)).iff ?_
  simp [Verdict.restorable_iff, verdictState_value_ne, v.workloadId.value_ne]

/-! ### Reports -/

/-- **A report is given back.** -/
theorem decodeReport_encodeReport (report : Option JsonDict) :
    ∃ raw, encodeReport report = .ok raw ∧ decodeReport py raw = .ok report := by
  cases report with
  | none => exact ⟨none, rfl, rfl⟩
  | some report =>
      refine ⟨_, rfl, ?_⟩
      have hkeyed : (Json.obj [("report", ofDict id report.fields)]).Keyed := by simp
      have hget := get_sortedFields hkeyed.1 "report"
      simp only [get_cons, if_true, Leaf.jsonDict.sorted] at hget
      rw [decodeReport, decodeEnvelope_encodeEnvelope py _ hkeyed, Py.ok_bind]
      dsimp only
      rw [hget]
      have hentries : (report.fields.map id).entries = report.fields.entries := by simp
      simp only [ofDict, hentries, jsonDict_entries]
      rfl

/-! ### Manifests -/

theorem keyed_manifest (m : EvidenceManifest) (oracle : OracleIdentity) :
    (Json.obj (manifestFields m oracle)).Keyed := by
  refine ⟨by simp [manifestFields], trivial, trivial, trivial, keyed_source _,
    keyed_ofOption keyed_candidate _, keyed_oracle _, keyed_arr keyed_environment _,
    keyed_input _, keyed_arr keyed_execution _, keyed_arr keyed_artifact _,
    keyed_arr keyed_comparison _, keyed_ofOption keyed_verdictEvidence _, trivial,
    keyed_ofOption keyed_hashJson _, trivial⟩

theorem Reads.malformed {α : Type} {x : Except Py.Exc α} {F : Prop} {a : α} (h : Reads x F a) :
    Reads (malformed x) F a := by
  intro v
  rw [← h v]
  rcases x with (e | a)
  · cases e <;> simp [Serialization.malformed, corrupt]
  · rfl

/-- The candidate is read in two steps: its dict first, its fields later. -/
theorem reads_optCandidate (o : Option CandidateIdentity) : ∃ raw,
    optional (fun v => expectDict v "candidate_identity")
      (Json.sortKeys (ofOption candidateIdentityJson o)) = .ok raw ∧
    Reads (raw.mapM (decodeCandidate py)) (∀ c ∈ o, c.Restorable) o := by
  cases o with
  | none => exact ⟨none, rfl, (Reads.ok none).iff (by simp)⟩
  | some c =>
      obtain ⟨fs, hfs⟩ : ∃ fs, expectDict (Json.sortKeys (candidateIdentityJson c))
          "candidate_identity" = .ok fs := ⟨_, expectDict_sortKeys _ _⟩
      have hobj : Json.sortKeys (candidateIdentityJson c) = .obj fs := by
        rw [candidateIdentityJson, expectDict_sortKeys, Except.ok.injEq] at hfs
        rw [candidateIdentityJson, Json.sortKeys_obj, ← hfs, sortedFields]
      refine ⟨some fs, ?_, ?_⟩
      · rw [ofOption, hobj]
        rfl
      · exact ((reads_candidate py c hfs).map some).iff (by simp)

theorem toStr_ne (h : ContentHash) : h.toStr ≠ "" := by
  intro heq
  have hlen := congrArg String.length heq
  simp [ContentHash.toStr] at hlen

theorem postInit_eq {m : EvidenceManifest} (hseal : m.sealedHash = some m.manifestHash) :
    EvidenceManifest.postInit { m with sealedHash := none } = m := by
  cases m
  simp only [EvidenceManifest.postInit] at hseal ⊢
  rw [hseal]
  rfl

theorem reads_seal (m : EvidenceManifest) (hash : ContentHash) (hseal : m.sealedHash = some hash) :
    Reads (if m.sealedHash.map ContentHash.toStr = some hash.toStr then .ok (some m)
      else corrupt "persisted evidence seal mismatch (evidence was modified)") True (some m) := by
  rw [if_pos (by rw [hseal]; rfl)]
  exact Reads.ok (some m)

/-- **A manifest is given back** exactly when its fields pass the checks. -/
theorem reads_encodeEvidenceManifest (m : EvidenceManifest) (oracle : OracleIdentity)
    (horacle : m.oracleIdentity = some oracle) (hseal : m.sealedHash = some m.manifestHash) :
    Reads (decodeEvidenceManifest py
      (some (encodeEnvelope schemaEvidence (manifestFields m oracle)))) m.Restorable (some m) := by
  have hkeyed := keyed_manifest m oracle
  have hget (key : String) := get_sortedFields hkeyed.1 key
  obtain ⟨source, hsource⟩ : ∃ fs, expectDict (Json.sortKeys (sourceIdentityJson m.sourceIdentity))
      "source_identity" = .ok fs := ⟨_, expectDict_sortKeys _ _⟩
  obtain ⟨candidate, hcandidate, hreads⟩ := reads_optCandidate py m.candidateIdentity
  obtain ⟨oracleRaw, horacleRaw⟩ : ∃ fs, expectDict (Json.sortKeys (oracleIdentityJson oracle))
      "oracle_identity" = .ok fs := ⟨_, expectDict_sortKeys _ _⟩
  obtain ⟨controlled, hcontrolled⟩ : ∃ fs, expectDict
      (Json.sortKeys (inputIdentityJson m.controlledInput)) "controlled_input" = .ok fs :=
    ⟨_, expectDict_sortKeys _ _⟩
  have hsealJson : ofOption hashJson (some m.manifestHash) = .str m.manifestHash.toStr := rfl
  have hbuilt : Reads (.ok (EvidenceManifest.postInit
      { m with oracleIdentity := some oracle, sealedHash := none }) : Except Py.Exc _) True m := by
    rw [← horacle, postInit_eq hseal]
    exact Reads.ok m
  rw [decodeEvidenceManifest, decodeEnvelope_encodeEnvelope py _ hkeyed, Py.ok_bind]
  dsimp only
  generalize sortedFields (manifestFields m oracle) = fs at *
  simp only [hget, manifestFields, get_cons, String.reduceEq, if_true, if_false,
    Json.sortKeys_str, Json.sortKeys_arr, List.map_map, hseal, hsealJson,
    hsource, hcandidate, horacleRaw, hcontrolled, expectList, Py.ok_bind, toStr_ne]
  refine ((Reads.mapM_zipIdx (reads_environment py) _ 0).bind <|
    (Reads.mapM_zipIdx (reads_execution py) _ 0).bind <|
    (Reads.mapM_zipIdx (reads_artifact py) _ 0).bind <|
    (Reads.mapM_zipIdx (reads_comparison py) _ 0).bind <|
    (reads_input py _ hcontrolled).bind <| Reads.bind (a := m) (Reads.malformed <|
      (reads_str py _ _).bind <| (reads_str py _ _).bind <| (reads_runId m.runId).bind <|
      (reads_str py _ _).bind <| (reads_workloadId m.workloadId).bind <|
      (reads_source py _ hsource).bind <| hreads.bind <| (reads_oracle py _ horacleRaw).bind <|
      (reads_optVerdictEvidence py m.verdictEvidence).bind <| (reads_str py _ _).bind <|
      hbuilt) <|
    reads_seal m m.manifestHash hseal).iff ?_
  simp [EvidenceManifest.restorable_iff, horacle, m.runId.value_ne, m.workloadId.value_ne]

end Serialization

end CobolJava
