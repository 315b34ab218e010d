/-
**Which exceptions leave the decoders of persisted payloads.**

A decoder of a column fails closed when it ends with a value or with one of the two exceptions of
the codec.  Every check of a field does, whatever the value; what remains are the texts that the
`json` module does not read or write under the recursion limit, and the constructor of an artifact
identity, which is called where nothing catches its `ValueError`.

Main definitions:

* `PersistedPayloads.Check.accepts`, `PersistedPayloads.Check.value` — what a check accepts, and the
  value it hands on;
* `PersistedPayloads.FailsClosed` — the law of a value of a column;
* `PersistedPayloads.ArtifactsRegistered`, `PersistedPayloads.Writable` — no artifact with a type or
  a role out of the registry is reached, and the graph of the evidence can be written.

Main results:

* `PersistedPayloads.reads_apply`, `PersistedPayloads.closed_apply` — the checks;
* `PersistedPayloads.closed_decodeArtifact` — the constructor that is not guarded;
* `PersistedPayloads.failsClosed_iff` — **the values on which the decoders fail closed**.
-/

import CobolJava.Lib.PyJsonText
import CobolJava.Store.PersistedPayloads

set_option autoImplicit false

namespace CobolJava

namespace PersistedPayloads

open Serialization (corrupt unsupported refused schemaEvidence schemaVerdict schemaReport
  currentSchemaVersion)
open Py (Reads RaisesOnly)

variable {α : Type} (py : Interpreter)

/-! ### The exceptions of the codec -/

/-- One of the two exceptions of the codec. -/
def Closed (e : Py.Exc) : Prop :=
  className e ∈ ["PersistenceCorruptionError", "UnsupportedSchemaError"]

@[simp] theorem closed_corrupt (message : String) :
    RaisesOnly Closed (corrupt message : Except Py.Exc α) :=
  Py.raisesOnly_error.2 (List.mem_cons_self ..)

@[simp] theorem closed_unsupported (message : String) :
    RaisesOnly Closed (unsupported message : Except Py.Exc α) :=
  Py.raisesOnly_error.2 (List.mem_cons_of_mem _ (List.mem_cons_self ..))

@[simp] theorem not_closed_refused (text : String) :
    ¬RaisesOnly Closed (refused text : Except Py.Exc α) := by
  rw [refused, Py.raisesOnly_error]
  simp [Closed, className]

@[simp] theorem not_closed_recursionError : ¬Closed recursionError := by
  simp [Closed, className, recursionError]

/-! ### What the checks accept -/

def isObj : PyJson → Bool
  | .obj _ => true
  | _ => false

def isStr : PyJson → Bool
  | .str _ => true
  | _ => false

def entriesOf : PyJson → Entries
  | .obj fs => fs
  | _ => []

def itemsOf : PyJson → List PyJson
  | .arr xs => xs
  | _ => []

def isArr : PyJson → Bool
  | .arr _ => true
  | _ => false

def strOf : PyJson → PyStr
  | .str s => s
  | _ => []

def isHash (v : PyJson) : Bool :=
  isStr v && decide ((digestOf (strOf v)).length = 64) && (digestOf (strOf v)).all isHex

/-- The spelling of a hash with its prefix. -/
def hashOf (v : PyJson) : PyJson :=
  match v with
  | .str s => .str (sha256Mark ++ digestOf s)
  | v => v

/-- The values that a check accepts. -/
def Check.accepts : Check → PyJson → Bool
  | .str allowEmpty, v => isStr v && (allowEmpty || !(strOf v).isEmpty)
  | .identifier _, v => isStr v && !(strOf v).isEmpty
  | .int, v => match v with | .int _ => true | _ => false
  | .bool, v => match v with | .bool _ => true | _ => false
  | .hash, v => isHash v
  | .parsedHash, v => isHash v
  | .hashMap, v => isObj v && (entriesOf v).all fun e => isHash e.2
  | .strMap, v => isObj v && (entriesOf v).all fun e => isStr e.2
  | .dict, v => isObj v
  | .strList, v => isArr v && (itemsOf v).all isStr
  | .dictList, v => isArr v && (itemsOf v).all isObj
  | .optional check, v => match v with | .null => true | v => check.accepts v

/-- The value that a check hands on. -/
def Check.value : Check → PyJson → PyJson
  | .hash, v => hashOf v
  | .parsedHash, v => hashOf v
  | .hashMap, v => .obj ((entriesOf v).map fun e => (e.1, hashOf e.2))
  | .optional check, v => match v with | .null => .null | v => check.value v
  | _, v => v

attribute [grind =] Check.accepts

/-! ### The checks read and fail closed -/

theorem reads_expectDict (v : PyJson) (place : String) :
    Reads (expectDict v place) (isObj v = true) (entriesOf v) := by
  cases v with
  | obj fs => exact (Reads.ok fs).iff (by simp [isObj])
  | _ => exact Reads.error _ (by simp [isObj]) _

theorem closed_expectDict (v : PyJson) (place : String) :
    RaisesOnly Closed (expectDict v place) := by
  cases v <;> simp [expectDict]

theorem reads_expectList (v : PyJson) (place : String) :
    Reads (expectList v place) (isArr v = true) (itemsOf v) := by
  cases v with
  | arr xs => exact (Reads.ok xs).iff (by simp [isArr])
  | _ => exact Reads.error _ (by simp [isArr]) _

theorem closed_expectList (v : PyJson) (place : String) :
    RaisesOnly Closed (expectList v place) := by
  cases v <;> simp [expectList]

theorem reads_expectStr (v : PyJson) (place : String) (allowEmpty : Bool) :
    Reads (expectStr py v place allowEmpty) ((Check.str allowEmpty).accepts v = true)
      (strOf v) := by
  cases v with
  | str s =>
      rw [expectStr]
      split
      next h => exact Reads.error _ (by simp_all [Check.accepts, strOf]) _
      next h => exact (Reads.ok s).iff (by simp_all [Check.accepts, isStr, strOf]; grind)
  | _ => exact Reads.error _ (by simp [Check.accepts, isStr]) _

theorem closed_expectStr (v : PyJson) (place : String) (allowEmpty : Bool) :
    RaisesOnly Closed (expectStr py v place allowEmpty) := by
  cases v with
  | str s =>
      rw [expectStr]
      split
      · exact closed_corrupt _
      · exact Py.raisesOnly_ok s
  | _ => simp [expectStr, missing]

theorem reads_parseHash (v : PyJson) (place : String) :
    Reads (parseHash py v place) (isHash v = true) (sha256Mark ++ digestOf (strOf v)) := by
  have hrest : Reads
      (if (digestOf (strOf v)).length ≠ 64 ∨ (digestOf (strOf v)).all isHex = false then
        corrupt (place ++ " is not a sha256 digest")
      else contentHash (digestOf (strOf v)))
      ((digestOf (strOf v)).length = 64 ∧ (digestOf (strOf v)).all isHex = true)
      (sha256Mark ++ digestOf (strOf v)) := by
    split
    next h => exact Reads.error _ (by rintro ⟨hlen, hall⟩; simp [hlen, hall] at h) _
    next h =>
      obtain ⟨hlen, hall⟩ := not_or.1 h
      rw [not_ne_iff] at hlen
      rw [contentHash, if_neg (not_not.2 hlen)]
      exact (Reads.ok _).iff (by simpa [hlen] using hall)
  refine ((reads_expectStr py v place false).bind hrest).iff ?_
  cases v with
  | str s =>
      have hempty : s = [] → (digestOf s).length ≠ 64 := by
        rintro rfl
        decide
      simp only [Check.accepts, isHash, isStr, strOf]
      grind
  | _ => simp [Check.accepts, isHash, isStr]

theorem closed_parseHash (v : PyJson) (place : String) :
    RaisesOnly Closed (parseHash py v place) := by
  refine Py.raisesOnly_bind.2 ⟨closed_expectStr py v place false, fun text _ => ?_⟩
  dsimp only
  split
  · exact closed_corrupt _
  · rename_i h
    rw [contentHash, if_neg fun hlen => h (.inl hlen)]
    exact Py.raisesOnly_ok _

theorem hashOf_eq {v : PyJson} (h : isHash v = true) :
    hashOf v = .str (sha256Mark ++ digestOf (strOf v)) := by
  cases v with
  | str s => rfl
  | _ => simp [isHash, isStr] at h

theorem str_strOf {v : PyJson} (h : isStr v = true) : PyJson.str (strOf v) = v := by
  cases v with
  | str s => rfl
  | _ => cases h

theorem obj_entriesOf {v : PyJson} (h : isObj v = true) : PyJson.obj (entriesOf v) = v := by
  cases v with
  | obj fs => rfl
  | _ => cases h

theorem arr_itemsOf {v : PyJson} (h : isArr v = true) : PyJson.arr (itemsOf v) = v := by
  cases v with
  | arr xs => rfl
  | _ => cases h

theorem reads_congr {x : Except Py.Exc α} {F : Prop} {a b : α} (h : Reads x F a)
    (hab : F → a = b) : Reads x F b := by
  intro v
  rw [h v]
  exact and_congr_right fun hF => by rw [hab hF]

theorem reads_hash (v : PyJson) (place : String) :
    Reads ((parseHash py v place).map PyJson.str) (isHash v = true) (hashOf v) :=
  reads_congr ((reads_parseHash py v place).map PyJson.str) fun h => (hashOf_eq h).symm

theorem reads_hashMap (v : PyJson) (place : String) :
    Reads (hashMap py v place) (Check.hashMap.accepts v = true)
      ((entriesOf v).map fun e => (e.1, hashOf e.2)) := by
  have hloop := (reads_expectDict v place).bind (Reads.each (P := fun e => isHash e.2 = true)
    (g := fun e => (e.1, hashOf e.2)) (f := fun e : PyStr × PyJson =>
      (parseHash py e.2 (place ++ "." ++ py.shown e.1)).map fun h => (e.1, .str h)) (fun e => ?_)
    (entriesOf v))
  · exact hloop.iff (by simp [Check.accepts])
  · exact reads_congr ((reads_parseHash py e.2 _).map _) fun h => by rw [hashOf_eq h]

theorem closed_hashMap (v : PyJson) (place : String) : RaisesOnly Closed (hashMap py v place) :=
  Py.raisesOnly_bind.2 ⟨closed_expectDict v place, fun raw _ =>
    Py.raisesOnly_mapM_of_forall (fun e => Py.raisesOnly_map.2 (closed_parseHash py e.2 _)) raw⟩

theorem reads_strMap (v : PyJson) (place : String) :
    Reads (strMap v place) (Check.strMap.accepts v = true) (entriesOf v) := by
  have hloop := (reads_expectDict v place).bind (Reads.each (P := fun e => isStr e.2 = true)
    (g := id) (f := fun e : PyStr × PyJson => match e.2 with
      | .str s => .ok (e.1, .str s)
      | _ => corrupt (place ++ " must map strings")) (fun e => ?_) (entriesOf v))
  · rw [List.map_id] at hloop
    exact hloop.iff (by simp [Check.accepts])
  · obtain ⟨k, w⟩ := e
    cases w with
    | str s => exact (Reads.ok _).iff (by simp [isStr])
    | _ => exact Reads.error _ (by simp [isStr]) _

theorem closed_strMap (v : PyJson) (place : String) : RaisesOnly Closed (strMap v place) := by
  refine Py.raisesOnly_bind.2 ⟨closed_expectDict v place, fun raw _ =>
    Py.raisesOnly_mapM_of_forall (fun e => ?_) raw⟩
  obtain ⟨k, w⟩ := e
  cases w <;> simp

theorem reads_strList (v : PyJson) (place : String) :
    Reads (strList v place) (Check.strList.accepts v = true) (itemsOf v) := by
  have hloop := (reads_expectList v place).bind (Reads.each (P := fun w => isStr w = true)
    (g := id) (f := fun item : PyJson => match item with
      | .str s => .ok (.str s)
      | _ => corrupt (place ++ " entries must be strings")) (fun w => ?_) (itemsOf v))
  · rw [List.map_id] at hloop
    exact hloop.iff (by simp [Check.accepts])
  · cases w with
    | str s => exact (Reads.ok _).iff (by simp [isStr])
    | _ => exact Reads.error _ (by simp [isStr]) _

theorem closed_strList (v : PyJson) (place : String) : RaisesOnly Closed (strList v place) := by
  refine Py.raisesOnly_bind.2 ⟨closed_expectList v place, fun raw _ =>
    Py.raisesOnly_mapM_of_forall (fun w => ?_) raw⟩
  cases w <;> simp

theorem reads_dictList (v : PyJson) (place : String) :
    Reads (dictList v place) (Check.dictList.accepts v = true) (itemsOf v) := by
  have hloop := (reads_expectList v place).bind (Reads.each (P := fun w => isObj w = true)
    (g := id) (f := fun entry => (expectDict entry (place ++ " entry")).map PyJson.obj)
    (fun w => ?_) (itemsOf v))
  · rw [List.map_id] at hloop
    exact hloop.iff (by simp [Check.accepts])
  · exact reads_congr ((reads_expectDict w _).map PyJson.obj) obj_entriesOf

theorem closed_dictList (v : PyJson) (place : String) : RaisesOnly Closed (dictList v place) :=
  Py.raisesOnly_bind.2 ⟨closed_expectList v place, fun raw _ =>
    Py.raisesOnly_mapM_of_forall (fun w => Py.raisesOnly_map.2 (closed_expectDict w _)) raw⟩

theorem apply_hash {v : PyJson} (hv : v ≠ .null) (label : String) :
    Check.hash.apply py v label = (parseHash py v label).map .str := by
  cases v with
  | null => exact absurd rfl hv
  | _ => rfl

/-- **A check reads** the values that it accepts. -/
theorem reads_apply (check : Check) (v : PyJson) (label : String) :
    Reads (check.apply py v label) (check.accepts v = true) (check.value v) := by
  induction check with
  | str allowEmpty =>
      refine reads_congr ((reads_expectStr py v label allowEmpty).map PyJson.str) fun h => ?_
      simp only [Check.accepts, Bool.and_eq_true] at h
      exact str_strOf h.1
  | identifier name =>
      have hrest : (strOf v).isEmpty = false →
          ((identifier name (strOf v)).map PyJson.str) = .ok (.str (strOf v)) := by
        intro h
        rw [identifier, if_neg (by simp [h])]
        rfl
      refine reads_congr (a := PyJson.str (strOf v)) (fun w => ?_) fun h => ?_
      · rw [Check.apply, Py.bind_eq_ok_iff_of_unique (reads_expectStr py v label false)]
        simp only [Check.accepts, Bool.false_or, Bool.and_eq_true, Bool.not_eq_true']
        refine and_congr_right fun h => ?_
        rw [hrest h.2, Except.ok.injEq, eq_comm]
      · simp only [Check.accepts, Bool.and_eq_true] at h
        exact str_strOf h.1
  | int =>
      cases v with
      | int z => exact (Reads.ok _).iff (by simp [Check.accepts])
      | _ => exact Reads.error _ (by simp [Check.accepts]) _
  | bool =>
      cases v with
      | bool b => exact (Reads.ok _).iff (by simp [Check.accepts])
      | _ => exact Reads.error _ (by simp [Check.accepts]) _
  | hash =>
      by_cases hv : v = .null
      · subst hv
        exact Reads.error _ (by simp [Check.accepts, isHash, isStr]) _
      · rw [apply_hash py hv]
        exact reads_hash py v label
  | parsedHash => exact reads_hash py v label
  | hashMap => exact (reads_hashMap py v label).map PyJson.obj
  | strMap =>
      refine reads_congr ((reads_strMap v label).map PyJson.obj) fun h => ?_
      simp only [Check.accepts, Bool.and_eq_true] at h
      exact obj_entriesOf h.1
  | dict => exact reads_congr ((reads_expectDict v label).map PyJson.obj) obj_entriesOf
  | strList =>
      refine reads_congr ((reads_strList v label).map PyJson.arr) fun h => ?_
      simp only [Check.accepts, Bool.and_eq_true] at h
      exact arr_itemsOf h.1
  | dictList =>
      refine reads_congr ((reads_dictList v label).map PyJson.arr) fun h => ?_
      simp only [Check.accepts, Bool.and_eq_true] at h
      exact arr_itemsOf h.1
  | optional check ih =>
      cases v with
      | null => exact (Reads.ok _).iff (by simp [Check.accepts])
      | _ => exact ih

/-- **A check fails closed**, on every value. -/
theorem closed_apply (check : Check) (v : PyJson) (label : String) :
    RaisesOnly Closed (check.apply py v label) := by
  induction check with
  | str allowEmpty => exact Py.raisesOnly_map.2 (closed_expectStr py v label allowEmpty)
  | identifier name =>
      -- The text has passed the check for an empty one, so that the constructor accepts it.
      rw [Check.apply, (reads_expectStr py v label false).raisesOnly_bind
        (closed_expectStr py v label false)]
      intro h
      simp only [Check.accepts, Bool.false_or, Bool.and_eq_true, Bool.not_eq_true'] at h
      rw [identifier, if_neg (by simp [h.2])]
      exact Py.raisesOnly_ok _
  | int => cases v <;> simp [Check.apply, expectInt, missing]
  | bool => cases v <;> simp [Check.apply, expectBool, missing]
  | hash =>
      by_cases hv : v = .null
      · subst hv
        exact closed_corrupt _
      · rw [apply_hash py hv]
        exact Py.raisesOnly_map.2 (closed_parseHash py v label)
  | parsedHash => exact Py.raisesOnly_map.2 (closed_parseHash py v label)
  | hashMap => exact Py.raisesOnly_map.2 (closed_hashMap py v label)
  | strMap => exact Py.raisesOnly_map.2 (closed_strMap v label)
  | dict => exact Py.raisesOnly_map.2 (closed_expectDict v label)
  | strList => exact Py.raisesOnly_map.2 (closed_strList v label)
  | dictList => exact Py.raisesOnly_map.2 (closed_dictList v label)
  | optional check ih =>
      cases v with
      | null => exact Py.raisesOnly_ok _
      | _ => exact ih

/-! ### Tables -/

/-- Every field of an object is accepted. -/
def fieldsAccepted (fields : List Field) (item : Entries) : Bool :=
  fields.all fun f => f.check.accepts (f.read item)

/-- The attributes that the fields of an object make. -/
def fieldsValue (fields : List Field) (item : Entries) : Attributes :=
  fields.map fun f => (f.key, f.check.value (f.read item))

theorem reads_decodeFields (fields : List Field) (item : Entries) (place : String) :
    Reads (decodeFields py fields item place) (fieldsAccepted fields item = true)
      (fieldsValue fields item) := by
  have hloop := Reads.each (fun f : Field =>
    (reads_apply py f.check (f.read item) (f.label place)).map fun v => (f.key, v)) fields
  exact hloop.iff (by simp [fieldsAccepted])

theorem closed_decodeFields (fields : List Field) (item : Entries) (place : String) :
    RaisesOnly Closed (decodeFields py fields item place) := by
  refine Py.raisesOnly_mapM_of_forall (fun f => ?_) fields
  exact Py.raisesOnly_map.2 (closed_apply py f.check (f.read item) (f.label place))

/-- A dict whose fields are all accepted. -/
def objectAccepted (fields : List Field) (raw : PyJson) : Bool :=
  isObj raw && fieldsAccepted fields (entriesOf raw)

theorem reads_object (fields : List Field) (raw : PyJson) (place : String) :
    Reads (expectDict raw place >>= fun item => decodeFields py fields item place)
      (objectAccepted fields raw = true) (fieldsValue fields (entriesOf raw)) :=
  ((reads_expectDict raw place).bind (reads_decodeFields py fields _ place)).iff
    (by simp [objectAccepted])

theorem closed_object (fields : List Field) (raw : PyJson) (place : String) :
    RaisesOnly Closed (expectDict raw place >>= fun item => decodeFields py fields item place) :=
  Py.raisesOnly_bind.2 ⟨closed_expectDict raw place, fun item _ =>
    closed_decodeFields py fields item place⟩

/-! ### Artifacts -/

/-- The dict of the identity of an artifact. -/
def identityOf (raw : PyJson) : PyJson := get (entriesOf raw) "artifact"

/-- An artifact whose identity is reached, every field of it accepted. -/
def identityAccepted (raw : PyJson) : Bool :=
  objectAccepted artifactCountFields raw && objectAccepted artifactIdentityFields (identityOf raw)

/-- The text of a field of the identity of an artifact. -/
def identityText (raw : PyJson) (key : String) : PyStr :=
  strOf (get (entriesOf (identityOf raw)) key)

/-- The type and the role of an artifact are registered. -/
def registered (raw : PyJson) : Bool :=
  (namesOf validArtifactTypes).contains (identityText raw "artifact_type") &&
    (namesOf producerRoles).contains (identityText raw "producer_role")

def artifactAccepted (raw : PyJson) : Bool :=
  identityAccepted raw && registered raw && fieldsAccepted artifactFields (entriesOf raw)

/-- The attributes of the identity of an artifact. -/
abbrev identityValue (raw : PyJson) : Attributes :=
  fieldsValue artifactIdentityFields (entriesOf (identityOf raw))

def artifactValue (raw : PyJson) : Artifact :=
  ⟨identityValue raw,
    fieldsValue artifactCountFields (entriesOf raw) ++ fieldsValue artifactFields (entriesOf raw)⟩

theorem textAttribute_identity (raw : PyJson) {key : String}
    (hkey : key = "artifact_type" ∨ key = "producer_role") :
    textAttribute (identityValue raw) key =
      identityText raw key := by
  obtain rfl | rfl := hkey <;> rfl

theorem reads_artifactIdentity (raw : PyJson) :
    Reads (artifactIdentity py (identityValue raw))
      (registered raw = true) (identityValue raw) := by
  rw [artifactIdentity, textAttribute_identity raw (.inl rfl),
    textAttribute_identity raw (.inr rfl)]
  split
  next h => exact Reads.error _ (by simp [registered, h]) _
  next h =>
    split
    next h' => exact Reads.error _ (by simp [registered, h']) _
    next h' => exact (Reads.ok _).iff (by simp_all [registered])

theorem closed_artifactIdentity (raw : PyJson) :
    RaisesOnly Closed
        (artifactIdentity py (identityValue raw)) ↔
      registered raw = true := by
  constructor
  · intro h
    by_contra hraw
    cases hx : artifactIdentity py (identityValue raw)
      with
    | ok attrs => exact hraw ((reads_artifactIdentity py raw attrs).1 hx).1
    | error e =>
        rw [artifactIdentity] at h
        split at h
        · exact not_closed_refused _ h
        · split at h
          · exact not_closed_refused _ h
          · rename_i ht hr
            rw [artifactIdentity, if_neg ht, if_neg hr] at hx
            cases hx
  · intro h
    rw [(reads_artifactIdentity py raw).eq_ok h]
    exact Py.raisesOnly_ok _

theorem reads_decodeArtifact (raw : PyJson) (index : ℕ) :
    Reads (decodeArtifact py raw index) (artifactAccepted raw = true) (artifactValue raw) := by
  refine ((reads_expectDict raw _).bind <| (reads_decodeFields py artifactCountFields _ _).bind <|
    (reads_expectDict _ _).bind <| (reads_decodeFields py artifactIdentityFields _ _).bind <|
    (reads_artifactIdentity py raw).bind <| (reads_decodeFields py artifactFields _ _).bind <|
    Reads.ok (artifactValue raw)).iff ?_
  simp only [artifactAccepted, identityAccepted, objectAccepted, identityOf, Bool.and_eq_true,
    and_true, and_assoc]

/-- **An artifact fails closed** exactly when its type and its role are registered or its fields
are refused before that is asked. -/
theorem closed_decodeArtifact (raw : PyJson) (index : ℕ) :
    RaisesOnly Closed (decodeArtifact py raw index) ↔
      (identityAccepted raw = true → registered raw = true) := by
  rw [decodeArtifact, (reads_expectDict raw _).raisesOnly_bind (closed_expectDict raw _),
    (reads_decodeFields py artifactCountFields _ _).raisesOnly_bind (closed_decodeFields py _ _ _),
    (reads_expectDict _ _).raisesOnly_bind (closed_expectDict _ _),
    (reads_decodeFields py artifactIdentityFields _ _).raisesOnly_bind
      (closed_decodeFields py _ _ _),
    Py.raisesOnly_bind]
  have hrest : ∀ identity, RaisesOnly Closed (do
      let rest ← decodeFields py artifactFields (entriesOf raw)
        (entryPlace "artifact_evidence" index)
      return Artifact.mk identity (fieldsValue artifactCountFields (entriesOf raw) ++ rest)) :=
    fun identity => Py.raisesOnly_bind.2 ⟨closed_decodeFields py _ _ _, fun _ _ =>
      Py.raisesOnly_ok _⟩
  have hclosed := closed_artifactIdentity py raw
  rw [identityValue, identityOf] at hclosed
  simp only [hrest, implies_true, and_true, hclosed, identityAccepted, objectAccepted, identityOf,
    Bool.and_eq_true, and_imp]

/-! ### Lists of entries -/

/-- A list whose items are all accepted. -/
def listAccepted (accepts : PyJson → Bool) (payload : Entries) (key : String) : Bool :=
  isArr (get payload key) && (itemsOf (get payload key)).all accepts

theorem reads_decodeEntries {decode : PyJson → ℕ → Except Py.Exc α} {accepts : PyJson → Bool}
    {value : PyJson → α} (h : ∀ raw i, Reads (decode raw i) (accepts raw = true) (value raw))
    (payload : Entries) (key : String) :
    Reads (decodeEntries decode payload key) (listAccepted accepts payload key = true)
      ((itemsOf (get payload key)).map value) :=
  ((reads_expectList (get payload key) key).bind (Reads.each_zipIdx h _ 0)).iff
    (by simp [listAccepted])

theorem closed_decodeEntries {decode : PyJson → ℕ → Except Py.Exc α}
    (h : ∀ raw i, RaisesOnly Closed (decode raw i)) (payload : Entries) (key : String) :
    RaisesOnly Closed (decodeEntries decode payload key) :=
  Py.raisesOnly_bind.2 ⟨closed_expectList _ key, fun _ _ =>
    Py.raisesOnly_mapM_of_forall (fun p : PyJson × ℕ => h p.1 p.2) _⟩

/-- No artifact that is reached, every one before it decoded, has fields that are accepted and a
type or a role out of the registry. -/
def ArtifactsRegistered (payload : Entries) : Prop :=
  ∀ pre raw post, itemsOf (get payload "artifact_evidence") = pre ++ raw :: post →
    (∀ earlier ∈ pre, artifactAccepted earlier = true) → identityAccepted raw = true →
    registered raw = true

theorem closed_decodeArtifacts (payload : Entries) :
    RaisesOnly Closed (decodeEntries (decodeArtifact py) payload "artifact_evidence") ↔
      ArtifactsRegistered payload := by
  have hok (raw : PyJson) (i : ℕ) :
      (∃ a, decodeArtifact py raw i = .ok a) ↔ artifactAccepted raw = true :=
    ⟨fun ⟨a, ha⟩ => ((reads_decodeArtifact py raw i a).1 ha).1,
      fun h => ⟨_, (reads_decodeArtifact py raw i).eq_ok h⟩⟩
  have hloop := Py.raisesOnly_mapM_zipIdx hok (closed_decodeArtifact py)
    (itemsOf (get payload "artifact_evidence")) 0
  rw [decodeEntries, (reads_expectList _ _).raisesOnly_bind (closed_expectList _ _), hloop,
    ArtifactsRegistered]
  refine ⟨fun h pre raw post hsplit => ?_, fun h _ => h⟩
  refine h ?_ pre raw post hsplit
  cases hget : get payload "artifact_evidence" with
  | arr xs => rfl
  | _ => rw [hget] at hsplit; simp [itemsOf] at hsplit

/-! ### The parts of a manifest -/

/-- A value that is `None` or a dict whose fields are all accepted. -/
def optionalAccepted (accepts : PyJson → Bool) : PyJson → Bool
  | .null => true
  | v => accepts v

/-- The dict of a value that may be `None`. -/
def optionalEntries : PyJson → Option Entries
  | .null => none
  | v => some (entriesOf v)

theorem reads_optionalDict (v : PyJson) (place : String) :
    Reads (optionalDict v place) (optionalAccepted isObj v = true) (optionalEntries v) := by
  cases v with
  | null => exact (Reads.ok none).iff (by simp [optionalAccepted])
  | obj fs => exact (Reads.ok (some fs)).iff (by simp [optionalAccepted, isObj])
  | _ => exact Reads.error _ (by simp [optionalAccepted, isObj]) _

theorem closed_optionalDict (v : PyJson) (place : String) :
    RaisesOnly Closed (optionalDict v place) := by
  cases v with
  | null => exact Py.raisesOnly_ok _
  | obj fs => exact Py.raisesOnly_ok _
  | _ => exact closed_corrupt _

def sealAccepted (v : PyJson) : Bool := isStr v && !(strOf v).isEmpty

theorem reads_decodeSeal (v : PyJson) :
    Reads (decodeSeal v) (sealAccepted v = true) (strOf v) := by
  cases v with
  | str s =>
      rw [decodeSeal]
      split
      next h => exact Reads.error _ (by simp_all [sealAccepted, strOf]) _
      next h => exact (Reads.ok s).iff (by simp_all [sealAccepted, isStr, strOf])
  | _ => exact Reads.error _ (by simp [sealAccepted, isStr]) _

theorem closed_decodeSeal (v : PyJson) : RaisesOnly Closed (decodeSeal v) := by
  cases v with
  | str s =>
      rw [decodeSeal]
      split
      · exact closed_corrupt _
      · exact Py.raisesOnly_ok s
  | _ => exact closed_corrupt _

/-- What is accepted before the artifacts are reached. -/
def reachesArtifacts (payload : Entries) : Bool :=
  isObj (get payload "source_identity") &&
    optionalAccepted isObj (get payload "candidate_identity") &&
    isObj (get payload "oracle_identity") && isObj (get payload "controlled_input") &&
    listAccepted (objectAccepted environmentFields) payload "environment_identities" &&
    listAccepted (objectAccepted executionFields) payload "execution_evidence"

/-- What is accepted before the constructors are guarded. -/
def partsAccepted (payload : Entries) : Bool :=
  reachesArtifacts payload && listAccepted artifactAccepted payload "artifact_evidence" &&
    listAccepted (objectAccepted comparisonFields) payload "comparison_evidence" &&
    fieldsAccepted inputFields (entriesOf (get payload "controlled_input")) &&
    sealAccepted (get payload "sealed_hash")

/-- The attributes of the items of a list. -/
def listValue (fields : List Field) (payload : Entries) (key : String) : List Attributes :=
  (itemsOf (get payload key)).map fun raw => fieldsValue fields (entriesOf raw)

def partsValue (payload : Entries) : Decoded where
  sourceRaw := entriesOf (get payload "source_identity")
  candidateRaw := optionalEntries (get payload "candidate_identity")
  oracleRaw := entriesOf (get payload "oracle_identity")
  controlledRaw := entriesOf (get payload "controlled_input")
  environments := listValue environmentFields payload "environment_identities"
  executions := listValue executionFields payload "execution_evidence"
  artifacts := (itemsOf (get payload "artifact_evidence")).map artifactValue
  comparisons := listValue comparisonFields payload "comparison_evidence"
  controlled := fieldsValue inputFields (entriesOf (get payload "controlled_input"))
  sealText := strOf (get payload "sealed_hash")

theorem reads_environments (payload : Entries) :
    Reads (decodeEntries (decodeEnvironment py) payload "environment_identities")
      (listAccepted (objectAccepted environmentFields) payload "environment_identities" = true)
      (listValue environmentFields payload "environment_identities") :=
  reads_decodeEntries (fun raw _ => reads_object py environmentFields raw _) payload _

theorem reads_executions (payload : Entries) :
    Reads (decodeEntries (decodeExecution py) payload "execution_evidence")
      (listAccepted (objectAccepted executionFields) payload "execution_evidence" = true)
      (listValue executionFields payload "execution_evidence") :=
  reads_decodeEntries (fun raw _ => reads_object py executionFields raw _) payload _

theorem reads_comparisons (payload : Entries) :
    Reads (decodeEntries (decodeComparison py) payload "comparison_evidence")
      (listAccepted (objectAccepted comparisonFields) payload "comparison_evidence" = true)
      (listValue comparisonFields payload "comparison_evidence") :=
  reads_decodeEntries (fun raw _ => reads_object py comparisonFields raw _) payload _

theorem reads_decodeParts (payload : Entries) :
    Reads (decodeParts py payload) (partsAccepted payload = true) (partsValue payload) := by
  refine ((reads_expectDict _ _).bind <| (reads_optionalDict _ _).bind <|
    (reads_expectDict _ _).bind <| (reads_expectDict _ _).bind <|
    (reads_environments py payload).bind <| (reads_executions py payload).bind <|
    (reads_decodeEntries (reads_decodeArtifact py) payload _).bind <|
    (reads_comparisons py payload).bind <| (reads_decodeFields py inputFields _ _).bind <|
    (reads_decodeSeal _).bind <| Reads.ok (partsValue payload)).iff ?_
  simp only [partsAccepted, reachesArtifacts, Bool.and_eq_true, and_true, and_assoc]

/-- **The parts fail closed** unless an artifact out of the registry is reached. -/
theorem closed_decodeParts (payload : Entries) :
    RaisesOnly Closed (decodeParts py payload) ↔
      (reachesArtifacts payload = true → ArtifactsRegistered payload) := by
  have hrest : ∀ sourceRaw candidateRaw oracleRaw controlledRaw environments executions artifacts,
      RaisesOnly Closed (do
        let comparisons ← decodeEntries (decodeComparison py) payload "comparison_evidence"
        let controlled ← decodeFields py inputFields controlledRaw "controlled_input"
        let sealText ← decodeSeal (get payload "sealed_hash")
        return (⟨sourceRaw, candidateRaw, oracleRaw, controlledRaw, environments, executions,
          artifacts, comparisons, controlled, sealText⟩ : Decoded)) := by
    intro sourceRaw candidateRaw oracleRaw controlledRaw environments executions artifacts
    refine Py.raisesOnly_bind.2 ⟨closed_decodeEntries (fun raw i => closed_object py _ raw _) _ _,
      fun comparisons _ => ?_⟩
    refine Py.raisesOnly_bind.2 ⟨closed_decodeFields py _ _ _, fun controlled _ => ?_⟩
    exact Py.raisesOnly_bind.2 ⟨closed_decodeSeal _, fun _ _ => Py.raisesOnly_ok _⟩
  rw [decodeParts, (reads_expectDict _ _).raisesOnly_bind (closed_expectDict _ _),
    (reads_optionalDict _ _).raisesOnly_bind (closed_optionalDict _ _),
    (reads_expectDict _ _).raisesOnly_bind (closed_expectDict _ _),
    (reads_expectDict _ _).raisesOnly_bind (closed_expectDict _ _),
    (reads_environments py payload).raisesOnly_bind
      (closed_decodeEntries (fun raw i => closed_object py _ raw _) _ _),
    (reads_executions py payload).raisesOnly_bind
      (closed_decodeEntries (fun raw i => closed_object py _ raw _) _ _),
    Py.raisesOnly_bind, closed_decodeArtifacts]
  simp only [hrest, implies_true, and_true, reachesArtifacts, Bool.and_eq_true, and_imp]

/-! ### The constructors -/

/-- The fields of the candidate are accepted. -/
def candidateAccepted : Option Entries → Bool
  | none => true
  | some raw => fieldsAccepted candidateFields raw

/-- The oracle is pinned by digest. -/
def pinned (raw : Entries) : Bool := sha256Mark.isPrefixOf (strOf (get raw "image_digest"))

def evidenceAccepted (payload : Entries) : Bool :=
  fieldsAccepted manifestFields payload &&
    fieldsAccepted sourceFields (entriesOf (get payload "source_identity")) &&
    candidateAccepted (optionalEntries (get payload "candidate_identity")) &&
    fieldsAccepted oracleFields (entriesOf (get payload "oracle_identity")) &&
    pinned (entriesOf (get payload "oracle_identity")) &&
    optionalAccepted (objectAccepted verdictEvidenceFields) (get payload "verdict_evidence") &&
    fieldsAccepted createdFields payload

/-- The attributes of the derivation of a verdict. -/
def verdictEvidenceValue : PyJson → Option Attributes
  | .null => none
  | v => some (fieldsValue verdictEvidenceFields (entriesOf v))

def evidenceValue (payload : Entries) : Evidence where
  manifest := fieldsValue manifestFields payload
  sourceIdentity := fieldsValue sourceFields (entriesOf (get payload "source_identity"))
  candidateIdentity :=
    (optionalEntries (get payload "candidate_identity")).map (fieldsValue candidateFields)
  oracleIdentity := fieldsValue oracleFields (entriesOf (get payload "oracle_identity"))
  environmentIdentities := listValue environmentFields payload "environment_identities"
  controlledInput := fieldsValue inputFields (entriesOf (get payload "controlled_input"))
  executionEvidence := listValue executionFields payload "execution_evidence"
  artifactEvidence := (itemsOf (get payload "artifact_evidence")).map artifactValue
  comparisonEvidence := listValue comparisonFields payload "comparison_evidence"
  verdictEvidence := verdictEvidenceValue (get payload "verdict_evidence")
  created := fieldsValue createdFields payload

/-- An exception of the codec or one of the classes that a guard catches. -/
def Guarded (caught : List String) (e : Py.Exc) : Prop := Closed e ∨ className e ∈ caught

theorem closed_malformed {caught : List String} {what : String} {x : Except Py.Exc α} :
    RaisesOnly Closed (malformed caught what x) ↔ RaisesOnly (Guarded caught) x := by
  cases x with
  | ok a => simp [malformed]
  | error e =>
      rw [malformed, Py.raisesOnly_error, Guarded]
      split
      next h => exact iff_of_true (closed_corrupt _) (.inr h)
      next h => rw [Py.raisesOnly_error, or_iff_left h]

theorem malformed_eq_ok {caught : List String} {what : String} {x : Except Py.Exc α} {a : α} :
    malformed caught what x = .ok a ↔ x = .ok a := by
  cases x with
  | ok b => rfl
  | error e =>
      rw [malformed]
      split <;> simp [corrupt]

/-- The classes that the guard of the manifest catches. -/
def manifestCaught : List String := ["ValueError", "TypeError", "KeyError", "AttributeError"]

theorem guarded_refused (text : String) :
    RaisesOnly (Guarded manifestCaught) (refused text : Except Py.Exc α) :=
  Py.raisesOnly_error.2 (.inr (List.mem_cons_self ..))

theorem guarded_of_closed {x : Except Py.Exc α} (h : RaisesOnly Closed x) :
    RaisesOnly (Guarded manifestCaught) x :=
  h.mono fun _ => .inl

theorem reads_constructed (name : String) (attrs : Attributes) :
    Reads (constructed name attrs) ((textAttribute attrs name).isEmpty = false) attrs := by
  rw [constructed]
  split
  next h => exact Reads.error _ (by simp [h]) _
  next h => exact (Reads.ok attrs).iff (by simpa using h)

theorem guarded_constructed (name : String) (attrs : Attributes) :
    RaisesOnly (Guarded manifestCaught) (constructed name attrs) := by
  rw [constructed]
  split
  · exact guarded_refused _
  · exact Py.raisesOnly_ok attrs

theorem isEmpty_of_accepted (fields : List Field) (item : Entries) (key : String)
    (hf : ⟨key, .str false, .null, false⟩ ∈ fields) (h : fieldsAccepted fields item = true) :
    (strOf (get item key)).isEmpty = false := by
  have hacc := List.all_eq_true.1 h _ hf
  simp only [Check.accepts, Field.read, Bool.false_or, Bool.and_eq_true, Bool.not_eq_true'] at hacc
  exact hacc.2

theorem reads_oracleIdentity (raw : Entries) :
    Reads (oracleIdentity (fieldsValue oracleFields raw))
      ((strOf (get raw "oracle_id")).isEmpty = false ∧ pinned raw = true ∧
        (strOf (get raw "compiler_version")).isEmpty = false)
      (fieldsValue oracleFields raw) := by
  refine (reads_constructed "oracle_id" _).bind ?_
  change Reads (if pinned raw = false then _ else _) _ _
  split
  next h => exact Reads.error _ (by simp [h]) _
  next h =>
    exact (reads_constructed "compiler_version" _).iff
      (iff_and_self.2 fun _ => Bool.eq_true_of_not_eq_false h)

theorem guarded_oracleIdentity (attrs : Attributes) :
    RaisesOnly (Guarded manifestCaught) (oracleIdentity attrs) := by
  refine Py.raisesOnly_bind.2 ⟨guarded_constructed _ _, fun attrs _ => ?_⟩
  split
  · exact guarded_refused _
  · exact guarded_constructed _ _

theorem reads_decodeCandidate (raw : Option Entries) :
    Reads (decodeCandidate py raw) (candidateAccepted raw = true)
      (raw.map (fieldsValue candidateFields)) := by
  cases raw with
  | none => exact (Reads.ok none).iff (by simp [candidateAccepted])
  | some raw =>
      refine ((reads_decodeFields py candidateFields raw _).bind <|
        (reads_constructed "candidate_id" _).bind <|
        Reads.ok (some (fieldsValue candidateFields raw))).iff ?_
      rw [candidateAccepted, and_true]
      exact and_iff_left_of_imp
        (isEmpty_of_accepted candidateFields raw "candidate_id" (by simp [candidateFields]))

theorem guarded_decodeCandidate (raw : Option Entries) :
    RaisesOnly (Guarded manifestCaught) (decodeCandidate py raw) := by
  cases raw with
  | none => exact Py.raisesOnly_ok none
  | some raw =>
      refine Py.raisesOnly_bind.2 ⟨guarded_of_closed (closed_decodeFields py _ _ _), fun _ _ => ?_⟩
      exact Py.raisesOnly_bind.2 ⟨guarded_constructed _ _, fun _ _ => Py.raisesOnly_ok _⟩

theorem decodeVerdictEvidence_of_ne {raw : PyJson} (h : raw ≠ .null) :
    decodeVerdictEvidence py raw = (do
      let item ← expectDict raw "verdict_evidence"
      let attrs ← decodeFields py verdictEvidenceFields item "verdict_evidence"
      return some attrs) := by
  cases raw with
  | null => exact absurd rfl h
  | _ => rfl

theorem reads_decodeVerdictEvidence (raw : PyJson) :
    Reads (decodeVerdictEvidence py raw)
      (optionalAccepted (objectAccepted verdictEvidenceFields) raw = true)
      (verdictEvidenceValue raw) := by
  by_cases hraw : raw = .null
  · subst hraw
    exact (Reads.ok none).iff (by simp [optionalAccepted])
  · have hvalue : verdictEvidenceValue raw =
        some (fieldsValue verdictEvidenceFields (entriesOf raw)) := by
      cases raw with
      | null => exact absurd rfl hraw
      | _ => rfl
    have haccepted : optionalAccepted (objectAccepted verdictEvidenceFields) raw =
        objectAccepted verdictEvidenceFields raw := by
      cases raw with
      | null => exact absurd rfl hraw
      | _ => rfl
    rw [decodeVerdictEvidence_of_ne py hraw, hvalue, haccepted]
    refine ((reads_expectDict raw _).bind <| (reads_decodeFields py _ _ _).bind <|
      Reads.ok (some (fieldsValue verdictEvidenceFields (entriesOf raw)))).iff ?_
    rw [objectAccepted, Bool.and_eq_true, and_true]

theorem closed_decodeVerdictEvidence (raw : PyJson) :
    RaisesOnly Closed (decodeVerdictEvidence py raw) := by
  by_cases hraw : raw = .null
  · subst hraw
    exact Py.raisesOnly_ok none
  · rw [decodeVerdictEvidence_of_ne py hraw]
    refine Py.raisesOnly_bind.2 ⟨closed_expectDict _ _, fun _ _ => ?_⟩
    exact Py.raisesOnly_bind.2 ⟨closed_decodeFields py _ _ _, fun _ _ => Py.raisesOnly_ok _⟩

theorem reads_decodeEvidence (payload : Entries) :
    Reads (decodeEvidence py payload (partsValue payload)) (evidenceAccepted payload = true)
      (evidenceValue payload) := by
  refine ((reads_decodeFields py manifestFields payload _).bind <|
    (reads_decodeFields py sourceFields _ _).bind <| (reads_constructed "source_id" _).bind <|
    (reads_decodeCandidate py _).bind <| (reads_decodeFields py oracleFields _ _).bind <|
    (reads_oracleIdentity _).bind <| (reads_decodeVerdictEvidence py _).bind <|
    (reads_decodeFields py createdFields payload _).bind <|
    Reads.ok (evidenceValue payload)).iff ?_
  have hsource := isEmpty_of_accepted sourceFields
    (entriesOf (get payload "source_identity")) "source_id" (by simp [sourceFields])
  have horacle := isEmpty_of_accepted oracleFields
    (entriesOf (get payload "oracle_identity")) "oracle_id" (by simp [oracleFields])
  have hcompiler := isEmpty_of_accepted oracleFields
    (entriesOf (get payload "oracle_identity")) "compiler_version" (by simp [oracleFields])
  simp only [evidenceAccepted, Bool.and_eq_true, and_true, and_assoc]
  constructor
  · rintro ⟨hm, hs, -, hc, ho, -, hp, -, hv, hcreated⟩
    exact ⟨hm, hs, hc, ho, hp, hv, hcreated⟩
  · rintro ⟨hm, hs, hc, ho, hp, hv, hcreated⟩
    exact ⟨hm, hs, hsource hs, hc, ho, horacle ho, hp, hcompiler ho, hv, hcreated⟩

theorem guarded_decodeEvidence (payload : Entries) (d : Decoded) :
    RaisesOnly (Guarded manifestCaught) (decodeEvidence py payload d) := by
  refine Py.raisesOnly_bind.2 ⟨guarded_of_closed (closed_decodeFields py _ _ _), fun _ _ => ?_⟩
  refine Py.raisesOnly_bind.2 ⟨guarded_of_closed (closed_decodeFields py _ _ _), fun _ _ => ?_⟩
  refine Py.raisesOnly_bind.2 ⟨guarded_constructed _ _, fun _ _ => ?_⟩
  refine Py.raisesOnly_bind.2 ⟨guarded_decodeCandidate py _, fun _ _ => ?_⟩
  refine Py.raisesOnly_bind.2 ⟨guarded_of_closed (closed_decodeFields py _ _ _), fun _ _ => ?_⟩
  refine Py.raisesOnly_bind.2 ⟨guarded_oracleIdentity _, fun _ _ => ?_⟩
  refine Py.raisesOnly_bind.2 ⟨guarded_of_closed (closed_decodeVerdictEvidence py _), fun _ _ => ?_⟩
  exact Py.raisesOnly_bind.2 ⟨guarded_of_closed (closed_decodeFields py _ _ _), fun _ _ =>
    Py.raisesOnly_ok _⟩

/-! ### The manifest -/

/-- The graph of the evidence of a payload can be written. -/
def Writable (payload : Entries) : Prop :=
  (py.dumps (canonicalEvidenceGraph (evidenceValue payload))).isSome

theorem guarded_evidenceManifest (e : Evidence) :
    RaisesOnly (Guarded manifestCaught) (evidenceManifest py e) ↔
      (py.dumps (canonicalEvidenceGraph e)).isSome := by
  rw [evidenceManifest]
  cases hd : py.dumps (canonicalEvidenceGraph e) with
  | some content => simp
  | none => simp [recursionError, Guarded, Closed, className, manifestCaught]

/-- **A payload fails closed** unless an artifact out of the registry is reached or the graph of
its evidence cannot be written. -/
theorem closed_decodePayload (payload : Entries) :
    RaisesOnly Closed (decodePayload py payload) ↔
      (reachesArtifacts payload = true → ArtifactsRegistered payload) ∧
        (partsAccepted payload = true → evidenceAccepted payload = true → Writable py payload) := by
  have hseal (manifest : Manifest) (text : PyStr) : RaisesOnly Closed
      (if PyStr.of manifest.sealedHash.toStr ≠ text then
        corrupt "persisted evidence seal mismatch (evidence was modified)"
      else (return manifest : Except Py.Exc Manifest)) := by
    split
    · exact closed_corrupt _
    · exact Py.raisesOnly_ok _
  rw [decodePayload, Py.raisesOnly_bind, closed_decodeParts]
  refine and_congr_right fun _ => ?_
  simp only [Py.raisesOnly_bind, closed_malformed, hseal, implies_true, and_true]
  constructor
  · intro h hparts hevidence
    have hbind := h _ ((reads_decodeParts py payload).eq_ok hparts)
    exact (guarded_evidenceManifest py _).1
      (hbind.2 _ ((reads_decodeEvidence py payload).eq_ok hevidence))
  · intro h parts hparts
    obtain ⟨hp, rfl⟩ := (reads_decodeParts py payload parts).1 hparts
    refine ⟨guarded_decodeEvidence py payload _, fun e he => ?_⟩
    obtain ⟨hevidence, rfl⟩ := (reads_decodeEvidence py payload e).1 he
    exact (guarded_evidenceManifest py _).2 (h hp hevidence)

/-- The manifest that is decoded carries the seal of its graph. -/
theorem seal_of_decodePayload {payload : Entries} {m : Manifest}
    (h : decodePayload py payload = .ok m) :
    ∃ content, py.dumps (canonicalEvidenceGraph m.toEvidence) = some content ∧
      get payload "sealed_hash" = .str (PyStr.of (ContentHash.fromBytes content).toStr) := by
  obtain ⟨parts, hparts, h⟩ := Py.bind_ok h
  obtain ⟨manifest, hmanifest, h⟩ := Py.bind_ok h
  obtain ⟨e, -, hseal⟩ := Py.bind_ok (malformed_eq_ok.1 hmanifest)
  split at h
  · cases h
  · rename_i htext
    obtain rfl : manifest = m := Except.ok.inj h
    obtain ⟨haccepted, rfl⟩ := (reads_decodeParts py payload parts).1 hparts
    rw [evidenceManifest] at hseal
    cases hd : py.dumps (canonicalEvidenceGraph e) with
    | none => rw [hd] at hseal; cases hseal
    | some content =>
        rw [hd] at hseal
        obtain rfl := Except.ok.inj hseal
        refine ⟨content, hd, ?_⟩
        simp only [partsAccepted, sealAccepted, Bool.and_eq_true] at haccepted
        rw [not_not.1 htext]
        exact (str_strOf haccepted.2.1).symm

/-! ### Envelopes -/

theorem reads_expectSchema (doc : Entries) (schema : String) :
    Reads (expectSchema py doc schema) (get doc "schema" = .str (PyStr.of schema)) () := by
  rw [expectSchema]
  cases get doc "schema" with
  | str text =>
      dsimp only
      split
      next h => exact (Reads.ok ()).iff (by simp [h])
      next h => exact Reads.error _ (by simpa using h) ()
  | _ => exact Reads.error _ nofun ()

theorem closed_expectSchema (doc : Entries) (schema : String) :
    RaisesOnly Closed (expectSchema py doc schema) := by
  rw [expectSchema]
  cases get doc "schema" with
  | str text =>
      dsimp only
      split
      · exact Py.raisesOnly_ok _
      · exact closed_corrupt _
  | _ => exact closed_corrupt _

theorem reads_expectVersion (doc : Entries) :
    Reads (expectVersion doc) (get doc "schema_version" = .int currentSchemaVersion) () := by
  rw [expectVersion]
  cases get doc "schema_version" with
  | int version =>
      dsimp only
      split
      next h => exact (Reads.ok ()).iff (by simp [h])
      next h => exact Reads.error _ (by simpa using h) ()
  | _ => exact Reads.error _ nofun ()

theorem closed_expectVersion (doc : Entries) : RaisesOnly Closed (expectVersion doc) := by
  rw [expectVersion]
  cases get doc "schema_version" with
  | int version =>
      dsimp only
      split
      · exact Py.raisesOnly_ok _
      · exact closed_unsupported _
  | _ => exact closed_corrupt _

/-- A document of a schema with a payload. -/
def IsDocument (document : PyJson) (schema : String) (payload : Entries) : Prop :=
  ∃ doc, document = .obj doc ∧ get doc "schema" = .str (PyStr.of schema) ∧
    get doc "schema_version" = .int currentSchemaVersion ∧ get doc "payload" = .obj payload

theorem payloadOf_eq_ok {document : PyJson} {schema : String} {payload : Entries} :
    payloadOf py document schema = .ok payload ↔ IsDocument document schema payload := by
  have hread : Reads (payloadOf py document schema)
      (isObj document = true ∧ get (entriesOf document) "schema" = .str (PyStr.of schema) ∧
        get (entriesOf document) "schema_version" = .int currentSchemaVersion ∧
        isObj (get (entriesOf document) "payload") = true)
      (entriesOf (get (entriesOf document) "payload")) :=
    (reads_expectDict _ _).bind <| (reads_expectSchema py _ _).bind <|
      (reads_expectVersion _).bind <| reads_expectDict _ _
  refine (hread payload).trans ?_
  constructor
  · rintro ⟨⟨hdoc, hschema, hversion, hobj⟩, rfl⟩
    exact ⟨entriesOf document, (obj_entriesOf hdoc).symm, hschema, hversion,
      (obj_entriesOf hobj).symm⟩
  · rintro ⟨doc, rfl, hschema, hversion, hpayload⟩
    have hobj : isObj (get doc "payload") = true := by rw [hpayload]; rfl
    exact ⟨⟨rfl, hschema, hversion, hobj⟩, by rw [entriesOf, hpayload]; rfl⟩

theorem closed_payloadOf (document : PyJson) (schema : String) :
    RaisesOnly Closed (payloadOf py document schema) := by
  refine Py.raisesOnly_bind.2 ⟨closed_expectDict _ _, fun doc _ => ?_⟩
  refine Py.raisesOnly_bind.2 ⟨closed_expectSchema py doc schema, fun _ _ => ?_⟩
  exact Py.raisesOnly_bind.2 ⟨closed_expectVersion doc, fun _ _ => closed_expectDict _ _⟩

theorem closed_loadDocument (text : String) :
    RaisesOnly Closed (loadDocument py text) ↔ py.loads text ≠ .error .recursion := by
  rw [loadDocument]
  cases py.loads text with
  | ok document => simp
  | error e => cases e <;> simp

/-- The value of a column holds a document of a schema with a payload. -/
def Enveloped (raw : SqlValue) (schema : String) (payload : Entries) : Prop :=
  ∃ content text document, raw = .blob content ∧ Py.decode content = some text ∧
    py.loads text = .ok document ∧ IsDocument document schema payload

theorem decodeEnvelope_eq_some {raw : SqlValue} {schema : String} {payload : Entries} :
    decodeEnvelope py raw schema = .ok (some payload) ↔ Enveloped py raw schema payload := by
  cases raw with
  | blob content =>
      simp only [Enveloped, SqlValue.blob.injEq, exists_and_left, exists_eq_left']
      rw [decodeEnvelope]
      cases hd : Py.decode content with
      | none => simp [corrupt]
      | some text =>
          simp only [Option.some.injEq, exists_eq_left']
          rw [Py.bind_eq_ok_iff]
          refine exists_congr fun document => and_congr ?_ ?_
          · rw [loadDocument]
            cases py.loads text with
            | ok document => simp
            | error e => cases e <;> simp [corrupt, recursionError]
          · rw [Py.map_eq_ok, ← payloadOf_eq_ok py]
            simp
  | null => simp [decodeEnvelope, Enveloped]
  | _ => simp [decodeEnvelope, Enveloped, corrupt]

def blobText (raw : SqlValue) : Option String :=
  match raw with
  | .blob content => Py.decode content
  | _ => none

/-- **An envelope fails closed** unless its text is nested too deep. -/
theorem closed_decodeEnvelope (raw : SqlValue) (schema : String) :
    RaisesOnly Closed (decodeEnvelope py raw schema) ↔
      ∀ text, blobText raw = some text → py.loads text ≠ .error .recursion := by
  cases raw with
  | blob content =>
      rw [decodeEnvelope, blobText]
      cases Py.decode content with
      | none => simp
      | some text =>
          simp only [Option.some.injEq, forall_eq']
          rw [Py.raisesOnly_bind, closed_loadDocument]
          exact and_iff_left fun document _ => Py.raisesOnly_map.2 (closed_payloadOf py document _)
  | null => simp [decodeEnvelope, blobText]
  | _ => simp [decodeEnvelope, blobText]

theorem closed_ofEnvelope {raw : SqlValue} {schema : String}
    {decode : Entries → Except Py.Exc (Option α)} :
    RaisesOnly Closed (decodeEnvelope py raw schema >>= fun payload => match payload with
      | none => return none
      | some payload => decode payload) ↔
      (∀ text, blobText raw = some text → py.loads text ≠ .error .recursion) ∧
        ∀ payload, Enveloped py raw schema payload → RaisesOnly Closed (decode payload) := by
  rw [Py.raisesOnly_bind, closed_decodeEnvelope]
  refine and_congr_right fun _ => ?_
  constructor
  · exact fun h payload hp => h (some payload) ((decodeEnvelope_eq_some py).2 hp)
  · intro h payload hp
    cases payload with
    | none => exact Py.raisesOnly_ok _
    | some payload => exact h payload ((decodeEnvelope_eq_some py).1 hp)

/-! ### The other columns -/

theorem closed_decodeState (payload : Entries) : RaisesOnly Closed (decodeState py payload) := by
  refine Py.raisesOnly_bind.2 ⟨closed_expectStr py _ _ _, fun state _ => ?_⟩
  split
  · exact Py.raisesOnly_ok _
  · exact closed_corrupt _

theorem closed_decodeVerdictPayload (payload : Entries) :
    RaisesOnly Closed (decodeVerdictPayload py payload) := by
  rw [decodeVerdictPayload]
  split
  · exact closed_corrupt _
  · refine Py.raisesOnly_bind.2 ⟨closed_decodeState py payload, fun state _ => ?_⟩
    refine Py.raisesOnly_bind.2 ⟨closed_decodeFields py _ payload _, fun candidate _ => ?_⟩
    refine Py.raisesOnly_bind.2 ⟨closed_malformed.2 ?_, fun attrs _ => Py.raisesOnly_ok _⟩
    exact (closed_decodeFields py _ payload _).mono fun _ => .inl

theorem closed_decodeVerdict (raw : SqlValue) :
    RaisesOnly Closed (decodeVerdict py raw) ↔
      ∀ text, blobText raw = some text → py.loads text ≠ .error .recursion :=
  (closed_ofEnvelope py).trans
    (and_iff_left fun payload _ => Py.raisesOnly_map.2 (closed_decodeVerdictPayload py payload))

theorem closed_decodeReport (raw : SqlValue) :
    RaisesOnly Closed (decodeReport py raw) ↔
      ∀ text, blobText raw = some text → py.loads text ≠ .error .recursion := by
  refine (closed_ofEnvelope py).trans (and_iff_left fun payload _ => ?_)
  cases get payload "report" with
  | obj report => exact Py.raisesOnly_ok _
  | _ => exact closed_corrupt _

theorem closed_strItems (items : List PyJson) : RaisesOnly Closed (strItems items) := by
  refine Py.raisesOnly_mapM_of_forall (fun item => ?_) items
  cases item with
  | str s => exact Py.raisesOnly_ok s
  | _ => exact closed_corrupt _

/-- A text that is parsed, unless it is blank. -/
def unlessBlank (text : Option String) : Option String :=
  text.filter fun text => decide (Py.strip text ≠ "")

/-- The text that the decoder of the string lists parses. -/
def strListParsed (raw : SqlValue) : Option String :=
  unlessBlank (match raw with
    | .blob content => Py.decode content
    | .text s => some s
    | _ => none)

theorem closed_parseStrList (text : String) :
    RaisesOnly Closed (parseStrList py text) ↔
      ∀ parsed, unlessBlank (some text) = some parsed → py.loads parsed ≠ .error .recursion := by
  rw [parseStrList, unlessBlank]
  split
  next h => simp [h]
  next h =>
    simp only [Option.filter, h, ne_eq, not_false_eq_true, decide_true, if_true,
      Option.some.injEq, forall_eq']
    cases py.loads text with
    | ok document => cases document <;> simp [closed_strItems]
    | error e => cases e <;> simp

/-- **A string list fails closed** unless its text is nested too deep. -/
theorem closed_decodeStrList (raw : SqlValue) :
    RaisesOnly Closed (decodeStrList py raw) ↔
      ∀ text, strListParsed raw = some text → py.loads text ≠ .error .recursion := by
  cases raw with
  | null => exact iff_of_true (Py.raisesOnly_ok _) (fun text h => by cases h)
  | text s => exact closed_parseStrList py s
  | blob content =>
      rw [strListParsed]
      cases hd : Py.decode content with
      | none =>
          have hcorrupt : decodeStrList py (.blob content) =
              corrupt "string list column is not UTF-8" := by
            simp only [decodeStrList, strListText, hd]
            rfl
          rw [hcorrupt]
          exact iff_of_true (closed_corrupt _) (fun text h => by cases h)
      | some text =>
          have hparse : decodeStrList py (.blob content) = parseStrList py text := by
            simp only [decodeStrList, strListText, hd]
            rfl
          rw [hparse]
          exact closed_parseStrList py text
  | integer z => exact iff_of_true (closed_corrupt _) (fun text h => by cases h)
  | real bits => exact iff_of_true (closed_corrupt _) (fun text h => by cases h)

/-! ### The law -/

/-- **The decoders fail closed** on a value of a column: they end with a value or with one of the
exceptions of the codec, and a manifest that is decoded carries the seal of its graph. -/
structure FailsClosed (raw : SqlValue) : Prop where
  evidence : RaisesOnly Closed (decodeEvidenceManifest py raw)
  verdict : RaisesOnly Closed (decodeVerdict py raw)
  report : RaisesOnly Closed (decodeReport py raw)
  strList : RaisesOnly Closed (decodeStrList py raw)
  sealed : ∀ m, decodeEvidenceManifest py raw = .ok (some m) → ∃ payload content,
    Enveloped py raw schemaEvidence payload ∧
    py.dumps (canonicalEvidenceGraph m.toEvidence) = some content ∧
    get payload "sealed_hash" = .str (PyStr.of (ContentHash.fromBytes content).toStr)

theorem closed_decodeEvidenceManifest (raw : SqlValue) :
    RaisesOnly Closed (decodeEvidenceManifest py raw) ↔
      (∀ text, blobText raw = some text → py.loads text ≠ .error .recursion) ∧
        ∀ payload, Enveloped py raw schemaEvidence payload →
          (reachesArtifacts payload = true → ArtifactsRegistered payload) ∧
            (partsAccepted payload = true → evidenceAccepted payload = true →
              Writable py payload) := by
  refine (closed_ofEnvelope py).trans (and_congr_right fun _ => ?_)
  simp only [Py.raisesOnly_map, closed_decodePayload]

theorem seal_of_decodeEvidenceManifest {raw : SqlValue} {m : Manifest}
    (h : decodeEvidenceManifest py raw = .ok (some m)) : ∃ payload content,
    Enveloped py raw schemaEvidence payload ∧
    py.dumps (canonicalEvidenceGraph m.toEvidence) = some content ∧
    get payload "sealed_hash" = .str (PyStr.of (ContentHash.fromBytes content).toStr) := by
  obtain ⟨payload, hpayload, h⟩ := Py.bind_ok h
  cases payload with
  | none => cases h
  | some payload =>
      obtain ⟨manifest, hmanifest, heq⟩ := Py.map_ok h
      obtain rfl : manifest = m := Option.some.inj heq
      obtain ⟨content, hdumps, hseal⟩ := seal_of_decodePayload py hmanifest
      exact ⟨payload, content, (decodeEnvelope_eq_some py).1 hpayload, hdumps, hseal⟩

/-- The texts that are parsed: the text of a blob, and the text of a string list. -/
def parsedTexts (raw : SqlValue) : List String :=
  (blobText raw).toList ++ (strListParsed raw).toList

/-- **The values on which the decoders fail closed**: no text that is parsed is nested too deep for
the interpreter, no artifact that is reached has accepted fields and a type or a role out of the
registry, and the graph of accepted evidence is not nested too deep to be written. -/
theorem failsClosed_iff (raw : SqlValue) :
    FailsClosed py raw ↔
      (∀ text ∈ parsedTexts raw, py.loads text ≠ .error .recursion) ∧
        ∀ payload, Enveloped py raw schemaEvidence payload →
          (reachesArtifacts payload = true → ArtifactsRegistered payload) ∧
            (partsAccepted payload = true → evidenceAccepted payload = true →
              Writable py payload) := by
  have htexts : (∀ text ∈ parsedTexts raw, py.loads text ≠ .error .recursion) ↔
      (∀ text, blobText raw = some text → py.loads text ≠ .error .recursion) ∧
        ∀ text, strListParsed raw = some text → py.loads text ≠ .error .recursion := by
    simp only [parsedTexts, List.mem_append, Option.mem_toList, or_imp, forall_and]
  rw [htexts]
  constructor
  · intro h
    obtain ⟨hblob, hpayload⟩ := (closed_decodeEvidenceManifest py raw).1 h.evidence
    exact ⟨⟨hblob, (closed_decodeStrList py raw).1 h.strList⟩, hpayload⟩
  · rintro ⟨⟨hblob, hstr⟩, hpayload⟩
    exact {
      evidence := (closed_decodeEvidenceManifest py raw).2 ⟨hblob, hpayload⟩
      verdict := (closed_decodeVerdict py raw).2 hblob
      report := (closed_decodeReport py raw).2 hblob
      strList := (closed_decodeStrList py raw).2 hstr
      sealed := fun m hm => seal_of_decodeEvidenceManifest py hm }

/-- An interpreter that nests a thousand levels deep. -/
def sampleInterpreter : Interpreter where
  repr s := "'" ++ s ++ "'"
  setStr xs := "\x7b" ++ ", ".intercalate xs ++ "\x7d"
  loads text := match PyJson.loads 1000 text with
    | .ok document => .ok document
    | .error .depth => .error .recursion
    | .error _ => .error .valueError
  dumps v := (PyJson.dumps 1000 v).toOption
  reprValue := typeName
  shown s := String.ofList (s.map Char.ofNat)

def entry (key : String) (value : PyJson) : PyStr × PyJson := (PyStr.of key, value)

/-- An artifact of a type that is not registered. -/
def foreignArtifact : PyJson :=
  .obj [entry "artifact" (.obj
    [entry "artifact_id" (.str (PyStr.of "A")), entry "artifact_type" (.str (PyStr.of "INDEXED")),
      entry "content_hash" (.str (List.replicate 64 48)), entry "logical_name" (.str []),
      entry "producer_role" (.str (PyStr.of "ORACLE")), entry "size_bytes" (.int 0)])]

/-- The payload of evidence with such an artifact. -/
def foreignPayload : Entries :=
  [entry "artifact_evidence" (.arr [foreignArtifact]), entry "controlled_input" (.obj []),
    entry "environment_identities" (.arr []), entry "execution_evidence" (.arr []),
    entry "oracle_identity" (.obj []), entry "source_identity" (.obj [])]

def foreignDocument : PyJson :=
  .obj [entry "payload" (.obj foreignPayload), entry "schema" (.str (PyStr.of schemaEvidence)),
    entry "schema_version" (.int 1)]

theorem loads_foreignDocument :
    PyJson.loads 1000 (String.ofList (PyJson.compact foreignDocument)) = .ok foreignDocument := by
  refine PyJson.loads_compact ?_ (by decide)
  simp only [foreignDocument, foreignPayload, foreignArtifact, entry, PyJson.Ordered,
    PyJson.OrderedFields, PyJson.OrderedItems, and_true, true_and]
  decide

theorem sampleInterpreter_loads {text : String} {document : PyJson}
    (h : PyJson.loads 1000 text = .ok document) : sampleInterpreter.loads text = .ok document := by
  simp only [sampleInterpreter, h]

/-- The bytes of that document do not fail closed: the `ValueError` of the constructor escapes. -/
theorem foreign_escapes : ¬FailsClosed sampleInterpreter
    (.blob (Py.encode (String.ofList (PyJson.compact foreignDocument)))) := by
  intro h
  have henveloped : Enveloped sampleInterpreter
      (.blob (Py.encode (String.ofList (PyJson.compact foreignDocument)))) schemaEvidence
      foreignPayload :=
    ⟨_, _, foreignDocument, rfl, Py.decode_encode _, sampleInterpreter_loads loads_foreignDocument,
      _, rfl, rfl, rfl, rfl⟩
  have hregistered := ((closed_decodeEvidenceManifest _ _).1 h.evidence).2 _ henveloped
  exact absurd (hregistered.1 (by decide) [] foreignArtifact [] rfl nofun (by decide)) (by decide)

end PersistedPayloads

end CobolJava
