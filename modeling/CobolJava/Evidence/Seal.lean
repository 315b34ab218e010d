/-
**What the seal of a manifest covers.**

The seal is the hash of the JSON text of the canonical evidence graph.  The text determines the
graph, and the graph determines every field of every record of the manifest but the fields
`docs/TRUST_BOUNDARY.md` leaves out: the creation time, the verdict evidence, the seal itself, and
the hash and the sizes of the identity nested in an artifact record, for which those of the record
stand.

Main definitions:

* `ArtifactEvidence.covered`, `EvidenceManifest.covered` — a record, and a manifest, with the fields
  the graph leaves out set to fixed values.

Main results:

* `canonicalEvidenceGraph_covered` — the graph reads the covered part only;
* `covered_of_graphText` — **the text of the graph determines the covered part**;
* `graphText_eq_iff`, `canonicalEvidenceGraph_eq_iff` — and the other way round.
-/

import CobolJava.Evidence.Models

set_option autoImplicit false

namespace CobolJava

open Json (ofDict ofOption)

/-! ### Values inside a record -/

@[simp] theorem sortKeys_hashJson (h : ContentHash) : Json.sortKeys (hashJson h) = hashJson h := rfl

theorem hashJson_injective : Function.Injective hashJson := fun _ _ h =>
  ContentHash.toStr_injective (Json.str_injective h)

@[simp] theorem hashJson_inj {h h' : ContentHash} : hashJson h = hashJson h' ↔ h = h' :=
  hashJson_injective.eq_iff

/-- Values that `sort_keys` leaves alone and that determine what they are written for. -/
structure Leaf {α : Type} (f : α → Json) : Prop where
  sorted : ∀ a, Json.sortKeys (f a) = f a
  inj : Function.Injective f

theorem Leaf.str : Leaf Json.str := ⟨fun _ => rfl, Json.str_injective⟩

theorem Leaf.int : Leaf Json.int := ⟨fun _ => rfl, Json.int_injective⟩

theorem Leaf.hash : Leaf hashJson := ⟨fun _ => rfl, hashJson_injective⟩

theorem Leaf.workload : Leaf fun w : WorkloadId => Json.str w.value :=
  ⟨fun _ => rfl, fun _ _ h => WorkloadId.value_injective (Json.str_injective h)⟩

theorem Leaf.dict {α : Type} {f : α → Json} (hf : Leaf f) : Leaf (ofDict f) := by
  refine ⟨fun d => ?_, Json.ofDict_injective hf.inj⟩
  rw [Json.sortKeys_ofDict]
  exact congrArg (fun g => ofDict g d) (funext hf.sorted)

theorem Leaf.option {α : Type} {f : α → Json} (hf : Leaf f) (hnull : ∀ a, f a ≠ Json.null) :
    Leaf (ofOption f) := by
  refine ⟨fun o => ?_, Json.ofOption_injective hf.inj hnull⟩
  rw [Json.sortKeys_ofOption]
  exact congrArg (fun g => ofOption g o) (funext hf.sorted)

theorem Leaf.list {α : Type} {f : α → Json} (hf : Leaf f) :
    Leaf fun xs : List α => Json.arr (xs.map f) := by
  refine ⟨fun xs => ?_, fun xs ys h => List.map_injective_iff.2 hf.inj (Json.arr.inj h)⟩
  rw [Json.sortKeys_arr, List.map_map]
  exact congrArg Json.arr (List.map_congr_left fun a _ => hf.sorted a)

theorem Leaf.jsonDict : Leaf fun d : JsonDict => ofDict id d.fields := by
  constructor
  · rintro ⟨d, hd, _⟩
    rw [Json.sortKeys_ofDict, ofDict, ofDict, Json.obj.injEq]
    simp only [PyDict.map_entries, id_eq]
    exact List.map_congr_left fun e he => by rw [hd e he]
  · rintro ⟨d, hd, _⟩ ⟨d', hd', _⟩ h
    obtain rfl : d = d' := Json.ofDict_injective Function.injective_id h
    rfl

theorem Leaf.optStr : Leaf (ofOption Json.str) := Leaf.str.option (by simp)

theorem Leaf.optInt : Leaf (ofOption Json.int) := Leaf.int.option (by simp)

theorem Leaf.optHash : Leaf (ofOption hashJson) := Leaf.hash.option (by simp [hashJson])

theorem Leaf.optWorkload : Leaf (ofOption fun w : WorkloadId => Json.str w.value) :=
  Leaf.workload.option (by simp)

theorem Leaf.optDict : Leaf (ofOption (ofDict Json.str)) :=
  Leaf.str.dict.option (by simp [ofDict])

/-! ### Records -/

theorem fields_eq {fs gs : List (String × Json)} (h : Json.sortKeys (.obj fs) =
    Json.sortKeys (.obj gs)) (hk : fs.map Prod.fst = gs.map Prod.fst)
    (hn : (fs.map Prod.fst).Nodup) :
    fs.map (fun f => Json.sortKeys f.2) = gs.map fun f => Json.sortKeys f.2 :=
  Json.sortKeys_obj_inj hk hn h

theorem sourceIdentityJson_inj {s s' : SourceIdentity}
    (h : Json.sortKeys (sourceIdentityJson s) = Json.sortKeys (sourceIdentityJson s')) : s = s' := by
  have hf := fields_eq h rfl (by simp)
  simp only [List.map_cons, List.map_nil, Json.sortKeys_str, Json.sortKeys_int, sortKeys_hashJson,
    List.cons.injEq, Json.str.injEq, Json.int.injEq, hashJson_inj, and_true] at hf
  cases s
  cases s'
  simpa using hf

theorem candidateIdentityJson_inj {c c' : CandidateIdentity}
    (h : Json.sortKeys (candidateIdentityJson c) = Json.sortKeys (candidateIdentityJson c')) :
    c = c' := by
  have hf := fields_eq h rfl (by simp)
  simp only [List.map_cons, List.map_nil, Json.sortKeys_str, Json.sortKeys_int, sortKeys_hashJson,
    List.cons.injEq, Json.str.injEq, Json.int.injEq, hashJson_inj, and_true] at hf
  cases c
  cases c'
  simpa using hf

theorem oracleIdentityJson_inj {o o' : OracleIdentity}
    (h : Json.sortKeys (oracleIdentityJson o) = Json.sortKeys (oracleIdentityJson o')) : o = o' := by
  have hf := fields_eq h rfl (by simp)
  simp only [List.map_cons, List.map_nil, Json.sortKeys_str, Leaf.optStr.sorted, List.cons.injEq,
    Json.str.injEq, Leaf.optStr.inj.eq_iff, and_true] at hf
  cases o
  cases o'
  simpa using hf

theorem environmentIdentityJson_inj {e e' : EnvironmentIdentity}
    (h : Json.sortKeys (environmentIdentityJson e) = Json.sortKeys (environmentIdentityJson e')) :
    e = e' := by
  have hf := fields_eq h rfl (by simp)
  simp only [List.map_cons, List.map_nil, Json.sortKeys_str, Leaf.optStr.sorted,
    Leaf.str.dict.sorted, List.cons.injEq, Json.str.injEq, Leaf.optStr.inj.eq_iff,
    Leaf.str.dict.inj.eq_iff, and_true] at hf
  cases e
  cases e'
  simpa using hf

theorem inputIdentityJson_inj {i i' : InputIdentity}
    (h : Json.sortKeys (inputIdentityJson i) = Json.sortKeys (inputIdentityJson i')) : i = i' := by
  have hf := fields_eq h rfl (by simp)
  simp only [List.map_cons, List.map_nil, Json.sortKeys_str, Leaf.optHash.sorted,
    Leaf.hash.dict.sorted, List.cons.injEq, Json.str.injEq, Leaf.optHash.inj.eq_iff,
    Leaf.hash.dict.inj.eq_iff, and_true] at hf
  cases i
  cases i'
  simpa using hf

theorem executionEvidenceJson_inj {e e' : ExecutionEvidence}
    (h : Json.sortKeys (executionEvidenceJson e) = Json.sortKeys (executionEvidenceJson e')) :
    e = e' := by
  have hf := fields_eq h rfl (by simp)
  simp only [List.map_cons, List.map_nil, Json.sortKeys_str, Json.sortKeys_bool, sortKeys_hashJson,
    Leaf.optStr.sorted, Leaf.optInt.sorted, Leaf.optWorkload.sorted, Leaf.optDict.sorted,
    Leaf.str.dict.sorted, Leaf.hash.dict.sorted, List.cons.injEq, Json.str.injEq,
    Json.bool.injEq, hashJson_inj, Leaf.optStr.inj.eq_iff, Leaf.optInt.inj.eq_iff,
    Leaf.optWorkload.inj.eq_iff, Leaf.optDict.inj.eq_iff, Leaf.str.dict.inj.eq_iff,
    Leaf.hash.dict.inj.eq_iff, ExecutionId.value_injective.eq_iff, RunId.value_injective.eq_iff,
    and_true] at hf
  cases e
  cases e'
  simp only [ExecutionEvidence.mk.injEq]
  simp only at hf
  tauto

theorem comparisonEvidenceJson_inj {c c' : ComparisonEvidence}
    (h : Json.sortKeys (comparisonEvidenceJson c) = Json.sortKeys (comparisonEvidenceJson c')) :
    c = c' := by
  have hf := fields_eq h rfl (by simp)
  simp only [List.map_cons, List.map_nil, Json.sortKeys_str, sortKeys_hashJson,
    Leaf.optWorkload.sorted, Leaf.str.list.sorted, Leaf.jsonDict.list.sorted, List.cons.injEq,
    Json.str.injEq, hashJson_inj, Leaf.optWorkload.inj.eq_iff, Leaf.str.list.inj.eq_iff,
    Leaf.jsonDict.list.inj.eq_iff, RunId.value_injective.eq_iff, and_true] at hf
  cases c
  cases c'
  simp only [ComparisonEvidence.mk.injEq]
  simp only at hf
  tauto

/-! ### The covered part -/

/-- The artifact record with the hash and the sizes of its identity set to those of the record. -/
def ArtifactEvidence.covered (a : ArtifactEvidence) : ArtifactEvidence :=
  { a with
    artifact :=
      { a.artifact with
        contentHash := a.contentHash
        sizeBytes := a.sizeBytes
        recordCount := a.recordCount } }

/-- The manifest with the fields outside the graph set to fixed values. -/
def EvidenceManifest.covered (m : EvidenceManifest) : EvidenceManifest :=
  { m with
    artifactEvidence := m.artifactEvidence.map ArtifactEvidence.covered
    verdictEvidence := none
    createdAt := ""
    sealedHash := none }

theorem canonicalEvidenceGraph_covered (m : EvidenceManifest) :
    canonicalEvidenceGraph m.covered = canonicalEvidenceGraph m := by
  have hart : (m.artifactEvidence.map ArtifactEvidence.covered).map artifactEvidenceJson =
      m.artifactEvidence.map artifactEvidenceJson := by
    rw [List.map_map]
    rfl
  simp only [canonicalEvidenceGraph, EvidenceManifest.covered, hart]

theorem artifactEvidenceJson_inj {a a' : ArtifactEvidence}
    (h : Json.sortKeys (artifactEvidenceJson a) = Json.sortKeys (artifactEvidenceJson a')) :
    a.covered = a'.covered := by
  have hf := fields_eq h rfl (by simp)
  simp only [List.map_cons, List.map_nil, Json.sortKeys_str, Json.sortKeys_int, sortKeys_hashJson,
    Leaf.optInt.sorted, List.cons.injEq, Json.str.injEq, Json.int.injEq, hashJson_inj,
    Leaf.optInt.inj.eq_iff, ExecutionId.value_injective.eq_iff, and_true] at hf
  rcases a with ⟨⟨⟩, _⟩
  rcases a' with ⟨⟨⟩, _⟩
  simp only [ArtifactEvidence.covered, ArtifactEvidence.mk.injEq, ArtifactIdentity.mk.injEq]
  simp only at hf
  tauto

/-! ### The text determines the covered part -/

theorem map_eq_of_sortKeys {α β : Type} {f : α → Json} {g : α → β}
    (hinj : ∀ a a', Json.sortKeys (f a) = Json.sortKeys (f a') → g a = g a') {xs ys : List α}
    (h : Json.sortKeys (.arr (xs.map f)) = Json.sortKeys (.arr (ys.map f))) :
    xs.map g = ys.map g := by
  rw [Json.sortKeys_arr, Json.sortKeys_arr, List.map_map, List.map_map, Json.arr.injEq] at h
  induction xs generalizing ys with
  | nil =>
      cases ys with
      | nil => rfl
      | cons y ys => simp at h
  | cons x xs ih =>
      cases ys with
      | nil => simp at h
      | cons y ys =>
          rw [List.map_cons, List.map_cons, List.cons.injEq] at h
          rw [List.map_cons, List.map_cons, hinj x y h.1, ih h.2]

theorem option_eq_of_sortKeys {α : Type} {f : α → Json}
    (hinj : ∀ a a', Json.sortKeys (f a) = Json.sortKeys (f a') → a = a')
    (hnull : ∀ a, Json.sortKeys (f a) ≠ .null) {o o' : Option α}
    (h : Json.sortKeys (ofOption f o) = Json.sortKeys (ofOption f o')) : o = o' := by
  cases o with
  | none =>
      cases o' with
      | none => rfl
      | some b => exact absurd h.symm (hnull b)
  | some a =>
      cases o' with
      | none => exact absurd h (hnull a)
      | some b => rw [hinj a b h]

/-- The sorted graph determines the covered part of the manifest. -/
theorem covered_of_sortKeys {m m' : EvidenceManifest}
    (h : Json.sortKeys (canonicalEvidenceGraph m) = Json.sortKeys (canonicalEvidenceGraph m')) :
    m.covered = m'.covered := by
  have hf := fields_eq h rfl (by simp)
  simp only [List.map_cons, List.map_nil, Json.sortKeys_str, List.cons.injEq, Json.str.injEq,
    RunId.value_injective.eq_iff, WorkloadId.value_injective.eq_iff, and_true] at hf
  obtain ⟨hver, hrun, hwl, hsrc, hcand, horacle, henv, hin, hexec, hart, hcomp⟩ := hf
  have hsrc' := sourceIdentityJson_inj hsrc
  have hcand' := option_eq_of_sortKeys (fun _ _ => candidateIdentityJson_inj)
    (fun c => by simp [candidateIdentityJson, Json.sortKeys_obj]) hcand
  have horacle' := option_eq_of_sortKeys (fun _ _ => oracleIdentityJson_inj)
    (fun o => by simp [oracleIdentityJson, Json.sortKeys_obj]) horacle
  have henv' := map_eq_of_sortKeys (g := id) (fun _ _ => environmentIdentityJson_inj) henv
  have hin' := inputIdentityJson_inj hin
  have hexec' := map_eq_of_sortKeys (g := id) (fun _ _ => executionEvidenceJson_inj) hexec
  have hart' := map_eq_of_sortKeys (fun _ _ => artifactEvidenceJson_inj) hart
  have hcomp' := map_eq_of_sortKeys (g := id) (fun _ _ => comparisonEvidenceJson_inj) hcomp
  simp only [List.map_id] at henv' hexec' hcomp'
  simp only [EvidenceManifest.covered, hver, hrun, hwl, hsrc', hcand', horacle', henv', hin',
    hexec', hart', hcomp']

/-- **The text of the graph determines the covered part of the manifest.** -/
theorem covered_of_graphText {m m' : EvidenceManifest} (h : graphText m = graphText m') :
    m.covered = m'.covered :=
  covered_of_sortKeys (Json.dumps_injective h)

theorem canonicalEvidenceGraph_eq_iff {m m' : EvidenceManifest} :
    canonicalEvidenceGraph m = canonicalEvidenceGraph m' ↔ m.covered = m'.covered := by
  constructor
  · intro h
    exact covered_of_sortKeys (congrArg Json.sortKeys h)
  · intro h
    rw [← canonicalEvidenceGraph_covered m, h, canonicalEvidenceGraph_covered]

theorem graphText_eq_iff {m m' : EvidenceManifest} :
    graphText m = graphText m' ↔ m.covered = m'.covered :=
  ⟨covered_of_graphText, fun h =>
    congrArg Json.dumps (canonicalEvidenceGraph_eq_iff.2 h)⟩

end CobolJava
