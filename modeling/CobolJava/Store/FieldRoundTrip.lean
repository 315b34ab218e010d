/-
**Reading a field back.**

A decoder looks a field up in a dict whose keys are in order, and checks what it finds.  For each
kind of field, the check applied to what the encoder writes yields the value and nothing else, and
does so exactly under the condition the check makes.

Main definitions:

* `Serialization.sortedFields` — the entries of a dict as they are written;
* `ContentHash.Lowercase` — the condition on a hash.

Main results:

* `Serialization.get_sortedFields` — **a lookup finds the value**, its own keys in order;
* `Serialization.reads_str`, `Serialization.reads_parseHash`, `Serialization.reads_hashMap`,
  `Serialization.reads_strList` and the like — **each kind of field** is read back;
* `Serialization.jsonDict_entries` — a dict of any values is built from its own entries.
-/

import CobolJava.Evidence.Seal
import CobolJava.Lib.Table
import CobolJava.Store.Serialization

set_option autoImplicit false

namespace CobolJava

/-- The digest is written in lowercase hexadecimal digits. -/
def ContentHash.Lowercase (h : ContentHash) : Prop :=
  h.digest.toList.all Serialization.isHexDigit = true

namespace Serialization

open Json (ofDict ofOption)
open Py (Reads)

variable (py : Py.Rendering)

/-! ### Looking up in a dict whose keys are in order -/

/-- The entries of a dict as `sort_keys` writes them. -/
def sortedFields (fs : List (String × Json)) : List (String × Json) :=
  (fs.map fun f => (f.1, Json.sortKeys f.2)).insertionSort fun a b => a.1 ≤ b.1

theorem expectDict_sortKeys (fs : List (String × Json)) (place : String) :
    expectDict (Json.sortKeys (.obj fs)) place = .ok (sortedFields fs) := by
  rw [Json.sortKeys_obj]
  rfl

theorem find?_of_perm {fs gs : List (String × Json)} (h : fs.Perm gs)
    (hn : (fs.map Prod.fst).Nodup) (key : String) :
    fs.find? (fun e => decide (e.1 = key)) = gs.find? fun e => decide (e.1 = key) := by
  have hn' : (gs.map Prod.fst).Nodup := (h.map Prod.fst).nodup_iff.1 hn
  refine Option.ext fun e => ?_
  have hf : fs.find? (fun e => decide (e.1 = key)) = some e ↔ e ∈ fs ∧ e.1 = key :=
    Table.find?_eq_some_iff (t := ⟨fs, hn⟩)
  have hg : gs.find? (fun e => decide (e.1 = key)) = some e ↔ e ∈ gs ∧ e.1 = key :=
    Table.find?_eq_some_iff (t := ⟨gs, hn'⟩)
  exact hf.trans ((and_congr_left' h.mem_iff).trans hg.symm)

theorem find?_sortedFields {fs : List (String × Json)} (hn : (fs.map Prod.fst).Nodup)
    (key : String) :
    (sortedFields fs).find? (fun e => decide (e.1 = key)) =
      (fs.find? fun e => decide (e.1 = key)).map fun f => (f.1, Json.sortKeys f.2) := by
  have hperm := List.perm_insertionSort (fun a b : String × Json => a.1 ≤ b.1)
    (fs.map fun f => (f.1, Json.sortKeys f.2))
  rw [sortedFields, ← find?_of_perm hperm.symm, List.find?_map]
  · rfl
  · simpa only [List.map_map, Function.comp_def] using hn

/-- **A lookup finds the value, its own keys in order.** -/
theorem get_sortedFields {fs : List (String × Json)} (hn : (fs.map Prod.fst).Nodup)
    (key : String) : get (sortedFields fs) key = Json.sortKeys (get fs key) := by
  rw [get, getD, find?_sortedFields hn, get, getD]
  cases fs.find? fun e => decide (e.1 = key) <;> rfl

theorem getD_sortedFields {fs : List (String × Json)} (hn : (fs.map Prod.fst).Nodup)
    {key : String} (hk : key ∈ fs.map Prod.fst) (d : Json) :
    getD (sortedFields fs) key d = Json.sortKeys (get fs key) := by
  obtain ⟨f, hf, rfl⟩ := List.mem_map.1 hk
  have hfind : fs.find? (fun e => decide (e.1 = f.1)) = some f :=
    (Table.find?_eq_some_iff (t := ⟨fs, hn⟩)).2 ⟨hf, rfl⟩
  rw [getD, find?_sortedFields hn, get, getD, hfind]
  rfl

theorem get_cons (k : String) (v : Json) (fs : List (String × Json)) (key : String) :
    get ((k, v) :: fs) key = if k = key then v else get fs key := by
  rw [get, getD, List.find?_cons]
  by_cases h : k = key <;> simp [h, get, getD]

/-! ### Fields -/

theorem reads_str (s place : String) :
    Reads (expectStr py (.str s) place false) (s ≠ "") s := by
  by_cases h : s = ""
  · subst h
    exact Reads.error _ (not_not.2 rfl) _
  · have hok : expectStr py (.str s) place false = .ok s := by simp [expectStr, h]
    rw [hok]
    exact (Reads.ok s).iff (by simp [h])

theorem reads_anyStr (s place : String) : Reads (expectStr py (.str s) place true) True s :=
  Reads.ok s

theorem reads_int (z : ℤ) (place : String) : Reads (expectInt py (.int z) place) True z :=
  Reads.ok z

theorem reads_bool (b : Bool) (place : String) : Reads (expectBool py (.bool b) place) True b :=
  Reads.ok b

theorem reads_optional {α : Type} {check : Json → Except Py.Exc α} {f : α → Json} {P : α → Prop}
    (hnull : ∀ a, f a ≠ .null) (h : ∀ a, Reads (check (f a)) (P a) a) (o : Option α) :
    Reads (optional check (ofOption f o)) (∀ a ∈ o, P a) o := by
  cases o with
  | none => exact (Reads.ok none).iff (by simp)
  | some a =>
      have hmap : optional check (ofOption f (some a)) = (check (f a)).map some := by
        have hne := hnull a
        rw [ofOption]
        cases hj : f a <;> first | exact absurd hj hne | rfl
      rw [hmap]
      exact ((h a).map some).iff (by simp)

theorem reads_optStr (o : Option String) (place : String) :
    Reads (optional (fun v => expectStr py v place false) (ofOption .str o))
      (∀ s ∈ o, s ≠ "") o :=
  reads_optional (by simp) (fun s => reads_str py s place) o

theorem reads_optInt (o : Option ℤ) (place : String) :
    Reads (optional (fun v => expectInt py v place) (ofOption .int o)) True o :=
  (reads_optional (by simp) (fun z => reads_int py z place) o).iff (by simp)

/-! ### Hashes -/

theorem stripSha256_toStr (h : ContentHash) : stripSha256 h.toStr = h.digest := by
  have hlist : h.toStr.toList = "sha256:".toList ++ h.digest.toList := String.toList_append
  have hstart : Py.startswith h.toStr "sha256:" = true :=
    Py.startswith_iff.2 ⟨_, hlist.symm⟩
  rw [stripSha256, if_pos hstart, hlist]
  simp

/-- **A hash is read back** exactly when its digest is lowercase. -/
theorem reads_parseHash (h : ContentHash) (place : String) :
    Reads (parseHash py (hashJson h) place) h.Lowercase h := by
  have hne : h.toStr ≠ "" := by
    intro heq
    have hlen := congrArg String.length heq
    simp [ContentHash.toStr] at hlen
  have hread := (reads_str py h.toStr place).eq_ok hne
  rw [parseHash, hashJson, hread, Py.ok_bind]
  dsimp only
  rw [stripSha256_toStr, dif_pos h.digest_length]
  by_cases hd : h.digest.toList.all isHexDigit = true
  · rw [if_pos hd]
    exact (Reads.ok h).iff (by simp [ContentHash.Lowercase, hd])
  · rw [if_neg hd]
    exact Reads.error _ hd h

theorem hashField_eq {payload : List (String × Json)} {key place : String} {h : ContentHash}
    (hget : get payload key = hashJson h) :
    hashField py payload key place = parseHash py (hashJson h) (place ++ "." ++ key) := by
  rw [hashField, hget]
  rfl

theorem reads_hashField {payload : List (String × Json)} {key place : String} {h : ContentHash}
    (hget : get payload key = hashJson h) :
    Reads (hashField py payload key place) h.Lowercase h := by
  rw [hashField_eq py hget]
  exact reads_parseHash py h _

theorem get_hash {fs : List (String × Json)} (hn : (fs.map Prod.fst).Nodup) {key : String}
    {h : ContentHash} (hkey : get fs key = hashJson h) :
    get (sortedFields fs) key = hashJson h :=
  (get_sortedFields hn key).trans (congrArg Json.sortKeys hkey)

theorem reads_optHash (o : Option ContentHash) (place : String) :
    Reads (optional (fun v => parseHash py v place) (ofOption hashJson o))
      (∀ h ∈ o, h.Lowercase) o :=
  @reads_optional _ (fun v => parseHash py v place) hashJson ContentHash.Lowercase
    (by simp [hashJson]) (fun h => reads_parseHash py h place) o

/-! ### Dicts and lists -/

theorem reads_hashMap (d : PyDict ContentHash) (place : String) :
    Reads (hashMap py (ofDict hashJson d) place) (∀ e ∈ d.entries, e.2.Lowercase) d := by
  have hloop := Reads.mapM
    (f := fun e : String × Json =>
      (parseHash py e.2 (place ++ "." ++ e.1)).map fun h => (e.1, h))
    (g := fun e : String × ContentHash => (e.1, hashJson e.2))
    (fun e => (reads_parseHash py e.2 (place ++ "." ++ e.1)).map fun h => (e.1, h)) d.entries
  have hend : Reads (.ok (PyDict.ofList d.entries) : Except Py.Exc _) True d := by
    rw [PyDict.ofList_entries]
    exact Reads.ok d
  exact (hloop.bind hend).iff (by simp)

/-- The loop body of `strMap`. -/
def strMapEntry (place : String) (e : String × Json) : Except Py.Exc (String × String) :=
  match e.2 with
  | .str s => .ok (e.1, s)
  | _ => corrupt (place ++ " must map strings")

theorem reads_strMap (d : PyDict String) (place : String) :
    Reads (strMap (ofDict .str d) place) True d := by
  have hloop := Reads.mapM (f := strMapEntry place)
    (g := fun e : String × String => (e.1, Json.str e.2)) (fun e => Reads.ok e) d.entries
  have hend : Reads (.ok (PyDict.ofList d.entries) : Except Py.Exc _) True d := by
    rw [PyDict.ofList_entries]
    exact Reads.ok d
  exact (hloop.bind hend).iff (by simp)

theorem reads_optStrMap (o : Option (PyDict String)) (place : String) :
    Reads (optional (fun v => strMap v place) (ofOption (ofDict .str) o)) True o :=
  (reads_optional (by simp [ofDict]) (fun d => reads_strMap d place) o).iff (by simp)

/-- The loop body of `strList`. -/
def strListEntry (place : String) (item : Json) : Except Py.Exc String :=
  match item with
  | .str s => .ok s
  | _ => corrupt (place ++ " entries must be strings")

theorem reads_strList (xs : List String) (place : String) :
    Reads (strList (.arr (xs.map .str)) place) True xs := by
  have hloop := Reads.mapM (f := strListEntry place) (g := Json.str) Reads.ok xs
  exact hloop.iff (by simp)

theorem jsonDict_ext {d d' : JsonDict} (h : d.fields = d'.fields) : d = d' := by
  cases d
  cases d'
  congr

theorem jsonDict_entries (d : JsonDict) : jsonDict d.fields.entries = d := by
  have hnormal : Json.normalFields d.fields.entries = d.fields.entries := by
    refine Json.normalFields_of_forall fun e he => ?_
    have h := Json.normal_sortKeys (d.keyed e he)
    rwa [d.nested e he] at h
  exact jsonDict_ext ((congrArg PyDict.ofList hnormal).trans (PyDict.ofList_entries _))

/-! ### Identifiers -/

theorem reads_runId (id : RunId) : Reads (runId id.value) True id := by
  rw [runId, dif_pos id.value_ne]
  exact Reads.ok id

theorem reads_workloadId (id : WorkloadId) : Reads (workloadId id.value) True id := by
  rw [workloadId, dif_pos id.value_ne]
  exact Reads.ok id

theorem reads_executionId (id : ExecutionId) : Reads (executionId id.value) True id := by
  rw [executionId, dif_pos id.value_ne]
  exact Reads.ok id

theorem reads_optWorkloadId {item : List (String × Json)} {o : Option WorkloadId}
    (hget : get item "workload_id" = ofOption (fun w => .str w.value) o) (place : String) :
    Reads (optWorkloadId py item place) True o := by
  have hread : Reads (optional (fun v => expectStr py v (place ++ ".workload_id") false)
      (ofOption .str (o.map WorkloadId.value))) True (o.map WorkloadId.value) := by
    refine (reads_optStr py (o.map WorkloadId.value) _).iff ?_
    simp only [Option.mem_def, Option.map_eq_some_iff, iff_true]
    rintro s ⟨w, -, rfl⟩
    exact w.value_ne
  have hvalue : ofOption (fun w : WorkloadId => Json.str w.value) o =
      ofOption .str (o.map WorkloadId.value) := by
    cases o <;> rfl
  rw [optWorkloadId, hget, hvalue]
  refine (hread.bind (G := True) ?_).iff (by simp)
  cases o with
  | none => exact Reads.ok none
  | some w =>
      rw [Option.map_some]
      dsimp only
      rw [dif_pos w.value_ne]
      exact Reads.ok (some w)

/-! ### Dicts that hold each key once -/

@[simp] theorem keyed_hashJson (h : ContentHash) : (hashJson h).Keyed := trivial

@[simp] theorem keyed_ofDict {α : Type} {f : α → Json} (hf : ∀ a, (f a).Keyed) (d : PyDict α) :
    (ofDict f d).Keyed := by
  refine ⟨?_, (Json.keyedFields_iff _).2 ?_⟩
  · rw [PyDict.map_entries, List.map_map]
    exact List.pairwise_map.2 (d.sorted.imp fun hlt => ne_of_lt hlt)
  · simp only [PyDict.map_entries, List.mem_map]
    rintro _ ⟨e, -, rfl⟩
    exact hf e.2

@[simp] theorem keyed_ofOption {α : Type} {f : α → Json} (hf : ∀ a, (f a).Keyed) (o : Option α) :
    (ofOption f o).Keyed := by
  cases o with
  | none => trivial
  | some a => exact hf a

@[simp] theorem keyed_arr {α : Type} {f : α → Json} (hf : ∀ a, (f a).Keyed) (xs : List α) :
    (Json.arr (xs.map f)).Keyed := by
  refine (Json.keyedItems_iff _).2 fun j hj => ?_
  obtain ⟨a, -, rfl⟩ := List.mem_map.1 hj
  exact hf a

@[simp] theorem keyed_jsonDict (d : JsonDict) : (ofDict id d.fields).Keyed := by
  refine ⟨?_, (Json.keyedFields_iff _).2 ?_⟩
  · rw [PyDict.map_entries, List.map_map]
    exact List.pairwise_map.2 (d.fields.sorted.imp fun hlt => ne_of_lt hlt)
  · simp only [PyDict.map_entries, List.mem_map]
    rintro _ ⟨e, he, rfl⟩
    exact d.keyed e he

end Serialization

end CobolJava
