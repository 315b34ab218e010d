/-
**Admission of business-invariant reports.**

`admit_report` of `engine/verification/business_invariants.py`, and the comparator of reports of
`engine/comparators/framework.py` that admits both sides before it looks at them.

Main definitions:

* `Business.admitReport` — the report of some bytes, read and checked again;
* `Business.sameDefinitions` — the equality of parsed definitions;
* `Business.compareReports` — the comparator.

Main results:

* `Business.sameItems_self` — parsed values are equal to themselves.
-/

import CobolJava.Comparators.Framework
import CobolJava.Verification.BusinessInvariants

set_option autoImplicit false

namespace CobolJava.Business

open Py (Bytes Exc)

/-! ### Checks of parsed values -/

/-- How Python shows parsed values in messages. -/
structure Shown where
  /-- `str(value)` of a value that is no text. -/
  str : PyJson → PyStr
  /-- `repr(value)`. -/
  repr : PyJson → String
  /-- The text of the exception for bytes that are no JSON text. -/
  jsonError : Bytes → String

/-- `str(value)` -/
def Shown.text (shown : Shown) : PyJson → PyStr
  | .str s => s
  | j => shown.str j

def shownStr (s : PyStr) : String := String.ofList (s.map Char.ofNat)

def Shown.listStr (shown : Shown) (xs : List PyStr) : String :=
  "[" ++ ", ".intercalate (xs.map fun s => shown.repr (.str s)) ++ "]"

/-- What hashing a list or a dict raises. -/
def unhashable (typeName : String) : Exc :=
  .declared "TypeError" ("unhashable type: '" ++ typeName ++ "'")

/-- `value in values` for a set of texts; a list and a dict cannot be looked up. -/
def isOneOf (values : List String) : PyJson → Except Exc Bool
  | .str s => .ok ((values.map PyStr.of).contains s)
  | .arr _ => .error (unhashable "list")
  | .obj _ => .error (unhashable "dict")
  | _ => .ok false

/-- Raises an exception unless a condition holds. -/
def require (condition : Bool) (message : String) : Except Exc Unit :=
  if condition then .ok () else .error (.valueError message)

/-- `item[key]` of a dict that holds the key. -/
def item (fs : List (PyStr × PyJson)) (key : String) : PyJson := (PyJson.field fs key).getD .null

def definitionFields : List String :=
  ["invariant_id", "kind", "source", "phase", "source_name", "expected", "record_length", "offset",
    "length", "record_index", "decimal_places", "json_path", "description"]

def outcomeFields : List String :=
  ["invariant_id", "phase", "kind", "passed", "expected", "observed", "reason"]

/-- Whether a dict has exactly the required fields. -/
def hasFields (required : List String) (fs : List (PyStr × PyJson)) : Bool :=
  let keys := fs.map Prod.fst
  (required.map PyStr.of).all keys.contains && keys.all (required.map PyStr.of).contains

/-- Whether a parsed value is a text. -/
def isStr : PyJson → Bool
  | .str _ => true
  | _ => false

/-- The Boolean of a parsed value, if it is one. -/
def asBool : PyJson → Option Bool
  | .bool b => some b
  | _ => none

/-! ### Admission -/

abbrev Entry := List (PyStr × PyJson)

/-- An admitted report. -/
structure AdmittedReport where
  definitionDigest : PyStr
  definitions : List Entry
  overall : PyStr
  outcomes : List Entry

section Admission

variable (shown : Shown) (limit : ℕ)

/-- The dict of an entry that has exactly some fields. -/
def entryOf (what : String) (required : List String) : PyJson → Except Exc Entry
  | .obj fs => do
      let keys := fs.map Prod.fst
      require (hasFields required fs)
        (what ++ " fields mismatch: missing=" ++
          shown.listStr (((required.map PyStr.of).filter fun k => !keys.contains k).insertionSort
            (· ≤ ·)) ++ " extra=" ++
          shown.listStr (keys.filter fun k => !(required.map PyStr.of).contains k))
      return fs
  | _ => .error (.valueError (what ++ " entries must be JSON objects"))

/-- The check of a field that holds one of some texts. -/
def requireOneOf (values : List String) (message : String) (fs : Entry) (key : String) :
    Except Exc Unit := do
  let found ← isOneOf values (item fs key)
  require found (message ++ shown.repr (item fs key))

/-- `_canonical_definition` -/
def canonicalDefinition (j : PyJson) : Except Exc Entry := do
  let fs ← entryOf shown "definition" definitionFields j
  requireOneOf shown kindValues "invalid definition kind " fs "kind"
  requireOneOf shown sourceValues "invalid definition source " fs "source"
  requireOneOf shown phaseValues "invalid definition phase " fs "phase"
  return fs

/-- `_canonical_outcome` -/
def canonicalOutcome (j : PyJson) : Except Exc Entry := do
  let fs ← entryOf shown "outcome" outcomeFields j
  require (isStr (item fs "reason")) "outcome reason must be a string"
  return fs

/-- The checks of the fields of an outcome; the Boolean it holds. -/
def outcomePassed (fs : Entry) : Except Exc Bool := do
  requireOneOf shown phaseValues "invalid outcome phase " fs "phase"
  requireOneOf shown kindValues "invalid outcome kind " fs "kind"
  match asBool (item fs "passed") with
  | some passed => return passed
  | none => .error (.valueError "outcome passed must be a boolean")

/-- The ids of parsed entries, in order. -/
def sortedIds (entries : List Entry) : List PyStr :=
  (entries.map fun fs => shown.text (item fs "invariant_id")).insertionSort (· ≤ ·)

/-- The list that a field holds, unless it is empty. -/
def nonEmptyList (message : String) : PyJson → Except Exc (List PyJson)
  | .arr (x :: xs) => .ok (x :: xs)
  | _ => .error (.valueError message)

/-- The text of a value, if it has a property. -/
def textWith (p : PyStr → Bool) (message : String) : PyJson → Except Exc PyStr
  | .str s => if p s then .ok s else .error (.valueError message)
  | _ => .error (.valueError message)

/-- The exception for a text that is not read. -/
def loadError (content : Bytes) : PyJson.Failure → Exc
  | .malformed => .valueError
      ("business-invariant report is not valid JSON: " ++ shown.jsonError content)
  | .digits => .valueError "Exceeds the limit for integer string conversion"
  | .exponent => .declared "InvalidOperation" ""
  | .depth => .declared "RecursionError" "maximum recursion depth exceeded"

/-- The parsed document of some bytes. -/
def parsedReport (content : Bytes) : Except Exc Entry :=
  match Py.decode content with
  | none => .error (loadError shown content .malformed)
  | some text =>
      match PyJson.loads limit text with
      | .error failure => .error (loadError shown content failure)
      | .ok (.obj fs) => .ok fs
      | .ok _ => .error (.valueError "business-invariant report must be a JSON object")

/-- `PASS` unless one of the outcomes failed. -/
def computedOverall (passed : List Bool) : String := if passed.all id then "PASS" else "FAIL"

/-- The checks of the fields of the document: its definitions, outcomes, digest and overall
status. -/
def documentParts (document : Entry) :
    Except Exc (List PyJson × List PyJson × PyStr × PyStr) := do
  let version := item document "schema_version"
  require (match version with | .str s => s = PyStr.of schemaVersion | _ => false)
    ("unsupported business-invariant report schema_version " ++ shown.repr version)
  let definitions ← nonEmptyList "business-invariant report declares no definitions"
    (item document "definitions")
  let outcomes ← nonEmptyList "business-invariant report declares no outcomes"
    (item document "outcomes")
  let digest ← textWith (·.length = 64)
    "business-invariant report has an invalid definition_digest"
    (item document "definition_digest")
  let overall ← textWith ((["PASS", "FAIL"].map PyStr.of).contains ·)
    ("invalid overall status " ++ shown.repr (item document "overall")) (item document "overall")
  return (definitions, outcomes, digest, overall)

/-- The checked definitions, whose digest must be the declared one. -/
def admitDefinitions (definitions : List PyJson) (digest : PyStr) : Except Exc (List Entry) := do
  let canonicalDefinitions ← definitions.mapM (canonicalDefinition shown)
  let recomputed ← digestOf limit (canonicalDefinitions.map .obj)
  require (PyStr.of recomputed = digest)
    "business-invariant report definition_digest does not match its definitions"
  return canonicalDefinitions

/-- The checked outcomes, which must be those of the definitions and lead to the overall status. -/
def admitOutcomes (outcomes : List PyJson) (definitions : List Entry) (overall : PyStr) :
    Except Exc (List Entry) := do
  let canonicalOutcomes ← outcomes.mapM (canonicalOutcome shown)
  require (sortedIds shown definitions = sortedIds shown canonicalOutcomes)
    "business-invariant report outcomes do not match declared invariants exactly"
  let passed ← canonicalOutcomes.mapM (outcomePassed shown)
  require (PyStr.of (computedOverall passed) = overall)
    ("business-invariant report overall=" ++ shown.repr (.str overall) ++
      " contradicts its outcomes (" ++ computedOverall passed ++ ")")
  return canonicalOutcomes

/-- `admit_report` -/
def admitReport (content : Bytes) : Except Exc AdmittedReport := do
  let document ← parsedReport shown limit content
  let (definitions, outcomes, digest, overall) ← documentParts shown document
  let definitions ← admitDefinitions shown limit definitions digest
  let outcomes ← admitOutcomes shown outcomes definitions overall
  return ⟨digest, definitions, overall, outcomes⟩

end Admission

/-! ### Equality of definitions -/

mutual

/-- `a == b` for parsed values: Booleans and numbers compare by their values. -/
def same : PyJson → PyJson → Bool
  | .null, .null => true
  | .constant a, .constant b => a = b
  | .str s, .str t => s = t
  | .arr xs, .arr ys => sameItems xs ys
  | .obj fs, .obj gs => sameFields fs gs
  | a, b =>
      match parsedNumber a, parsedNumber b with
      | some p, some q => p = q
      | _, _ => false

def sameItems : List PyJson → List PyJson → Bool
  | [], [] => true
  | x :: xs, y :: ys => same x y && sameItems xs ys
  | _, _ => false

def sameFields : List (PyStr × PyJson) → List (PyStr × PyJson) → Bool
  | [], [] => true
  | (k, x) :: fs, (l, y) :: gs => decide (k = l) && same x y && sameFields fs gs
  | _, _ => false

end

mutual

theorem same_self : ∀ j : PyJson, same j j = true
  | .null => rfl
  | .bool b => by simp [same, parsedNumber]
  | .int z => by simp [same, parsedNumber]
  | .decimal d => by simp [same, parsedNumber]
  | .constant name => by simp [same]
  | .str s => by simp [same]
  | .arr xs => sameItems_self xs
  | .obj fs => sameFields_self fs

theorem sameItems_self : ∀ xs : List PyJson, sameItems xs xs = true
  | [] => rfl
  | x :: xs => by rw [sameItems, same_self x, sameItems_self xs]; rfl

theorem sameFields_self : ∀ fs : List (PyStr × PyJson), sameFields fs fs = true
  | [] => rfl
  | (k, x) :: fs => by rw [sameFields, same_self x, sameFields_self fs]; simp

end

/-- `oracle.definitions == candidate.definitions` -/
def sameDefinitions (definitions definitions' : List Entry) : Bool :=
  sameItems (definitions.map .obj) (definitions'.map .obj)

/-! ### The comparator -/

def businessInvariantId : ComparatorId := ⟨"BUSINESS_INVARIANT_COMPARATOR", "1.0.0", by decide⟩

/-- The text of a tuple of strings. -/
def tupleStr (py : Py.Rendering) : List String → String
  | [x] => "(" ++ py.repr x ++ ",)"
  | xs => "(" ++ ", ".intercalate (xs.map py.repr) ++ ")"

section Comparator

variable (py : Py.Rendering) (shown : Shown) (limit : ℕ) (oracle candidate : ComparedSide)

/-- The result when the comparison is not decided. -/
def inconclusive (difference : ComparisonDifference) (failurePolicy : String) : ComparatorResult :=
  { matchResult businessInvariantId oracle candidate [] "SEQUENTIAL" with
    result := .INCONCLUSIVE
    differences := [difference]
    failurePolicy := failurePolicy }

/-- The result when a report is not admitted. -/
def refused (failure : Option FailurePolicy) (text : String) : ComparatorResult :=
  inconclusive oracle candidate
    ⟨"business_invariant_report", "self-consistent canonical report",
      "malformed or inconsistent report", "Business-invariant report failed admission: " ++ text⟩
    ((failure.map FailurePolicy.onMissing).getD "")

/-- The differences of one side: an entry for each failed outcome. -/
def failedOutcomes (side sideLower : String) (report : AdmittedReport) :
    List ComparisonDifference :=
  (report.outcomes.filter fun fs => asBool (item fs "passed") != some true).map fun fs =>
    ⟨sideLower ++ ":" ++ shownStr (shown.text (item fs "invariant_id")),
      shownStr (shown.text (item fs "expected")), shownStr (shown.text (item fs "observed")),
      side ++ " invariant " ++ shown.repr (item fs "invariant_id") ++ " (" ++
        shownStr (shown.text (item fs "phase")) ++ ") failed: " ++
        shownStr (shown.text (item fs "reason"))⟩

/-- The comparison of two admitted reports. -/
def compareAdmitted (a b : AdmittedReport) : ComparatorResult :=
  if a.definitionDigest ≠ b.definitionDigest ∨ sameDefinitions a.definitions b.definitions = false
  then
    inconclusive oracle candidate
      ⟨"business_invariant_definitions", shownStr a.definitionDigest, shownStr b.definitionDigest,
        "Oracle and candidate business-invariant reports were evaluated against different " ++
          "declarations; equivalence is not decidable"⟩ ""
  else if a.overall = PyStr.of "PASS" ∧ b.overall = PyStr.of "PASS" then
    matchResult businessInvariantId oracle candidate [] "SEQUENTIAL"
  else
    mismatchResult businessInvariantId oracle candidate
      (failedOutcomes shown "Oracle" "oracle" a ++ failedOutcomes shown "Candidate" "candidate" b)
      [] "SEQUENTIAL"

/-- The admission of both sides; a `ValueError` makes the comparison inconclusive. -/
def compareContents (failure : Option FailurePolicy) (a b : Bytes) :
    Except Exc ComparatorResult :=
  let admitted := do
    let ra ← admitReport shown limit a
    let rb ← admitReport shown limit b
    return compareAdmitted shown oracle candidate ra rb
  match admitted with
  | .error (.valueError text) => .ok (refused oracle candidate failure text)
  | result => result

/-- `BusinessInvariantComparator.compare` -/
def compareReports (policy : ComparisonPolicy) : Except Exc ComparatorResult :=
  if policy.normalizations ≠ [] then
    .error (.valueError ("BUSINESS_INVARIANT comparison does not accept normalization: " ++
      tupleStr py policy.normalizations))
  else if policy.ordering ≠ "SEQUENTIAL" then
    .error (.valueError ("BUSINESS_INVARIANT comparison only supports SEQUENTIAL ordering, got " ++
      py.repr policy.ordering))
  else
    match oracle.content, candidate.content with
    | some a, some b => compareContents shown limit oracle candidate policy.failure a b
    | _, _ => .ok (handleMissing businessInvariantId oracle candidate policy.failure)

end Comparator

end CobolJava.Business
