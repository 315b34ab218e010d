/-
**Business invariants.**

The declarations of `engine/verification/business_invariants.py`, their evaluation against what one
execution left behind, and the report of it.

Main definitions:

* `Business.BusinessInvariant`, `Business.toCanonicalDict` — the declarations and their canonical
  form;
* `Business.InvariantObservation` — what an execution leaves behind;
* `Business.evaluateFixedTotal`, `Business.evaluateJsonField` and the like — the kinds of invariants;
* `Business.evaluateOne`, `Business.evaluateInvariants` — the evaluation;
* `Business.buildReport`, `Business.Report.toBytes` — the report of one side.

Main results:

* `Business.sortedById_perm` — **the order of the declarations does not matter**.
-/

import CobolJava.Domain.Identities
import CobolJava.Lib.Sha256
import CobolJava.Verification.InvariantValues

set_option autoImplicit false

namespace CobolJava.Business

open Py (Bytes)

/-! ### Declarations -/

/-- When an invariant must hold. -/
inductive InvariantPhase
  | precondition
  | postcondition
  | errorBehavior
deriving DecidableEq

def InvariantPhase.value : InvariantPhase → String
  | precondition => "PRECONDITION"
  | postcondition => "POSTCONDITION"
  | errorBehavior => "ERROR_BEHAVIOR"

/-- The kinds of invariants. -/
inductive InvariantKind
  | exitCode
  | exactLines
  | lineCount
  | recordCount
  | fixedFieldEquals
  | fixedFieldTotal
  | jsonFieldEquals
deriving DecidableEq

def InvariantKind.value : InvariantKind → String
  | exitCode => "EXIT_CODE"
  | exactLines => "EXACT_LINES"
  | lineCount => "LINE_COUNT"
  | recordCount => "RECORD_COUNT"
  | fixedFieldEquals => "FIXED_FIELD_EQUALS"
  | fixedFieldTotal => "FIXED_FIELD_TOTAL"
  | jsonFieldEquals => "JSON_FIELD_EQUALS"

/-- Where an invariant reads its observed value from. -/
inductive InvariantSource
  | stdout
  | stderr
  | exitStatus
  | file
  | input
deriving DecidableEq

def InvariantSource.value : InvariantSource → String
  | stdout => "STDOUT"
  | stderr => "STDERR"
  | exitStatus => "EXIT_STATUS"
  | file => "FILE"
  | input => "INPUT"

def phaseValues : List String := ["PRECONDITION", "POSTCONDITION", "ERROR_BEHAVIOR"]

def kindValues : List String :=
  ["EXIT_CODE", "EXACT_LINES", "LINE_COUNT", "RECORD_COUNT", "FIXED_FIELD_EQUALS",
    "FIXED_FIELD_TOTAL", "JSON_FIELD_EQUALS"]

def sourceValues : List String := ["STDOUT", "STDERR", "EXIT_STATUS", "FILE", "INPUT"]

theorem InvariantPhase.value_mem (phase : InvariantPhase) : phase.value ∈ phaseValues := by
  cases phase <;> decide

theorem InvariantKind.value_mem (kind : InvariantKind) : kind.value ∈ kindValues := by
  cases kind <;> decide

theorem InvariantSource.value_mem (source : InvariantSource) : source.value ∈ sourceValues := by
  cases source <;> decide

/-- A declared business rule. -/
structure BusinessInvariant where
  invariantId : String
  kind : InvariantKind
  source : InvariantSource
  expected : Value
  phase : InvariantPhase
  sourceName : Option String
  recordLength : Option ℕ
  offset : Option ℕ
  length : Option ℕ
  recordIndex : Option ℕ
  decimalPlaces : ℕ
  jsonPath : Option String
  description : String
  /-- The mappings of the expected value hold each key once. -/
  expected_wellFormed : expected.WellFormed

/-- A number or a text that may be missing. -/
def optNat : Option ℕ → PyJson
  | some n => .int n
  | none => .null

def optText : Option String → PyJson
  | some s => text s
  | none => .null

/-- The dict with the given entries. -/
def dict (entries : List (String × PyJson)) : PyJson :=
  .obj (PyJson.dictOf (entries.map fun e => (PyStr.of e.1, e.2)))

/-- `to_canonical_dict`, if it raises no exception. -/
def toCanonicalDict (inv : BusinessInvariant) : Option PyJson :=
  (canonicalValue inv.expected).map fun expected => dict
    [("invariant_id", text inv.invariantId),
      ("kind", text inv.kind.value),
      ("source", text inv.source.value),
      ("phase", text inv.phase.value),
      ("source_name", optText inv.sourceName),
      ("expected", expected),
      ("record_length", optNat inv.recordLength),
      ("offset", optNat inv.offset),
      ("length", optNat inv.length),
      ("record_index", optNat inv.recordIndex),
      ("decimal_places", .int inv.decimalPlaces),
      ("json_path", optText inv.jsonPath),
      ("description", text inv.description)]

/-- `sorted(invariants, key=lambda item: item.invariant_id)` -/
def sortedById (invariants : List BusinessInvariant) : List BusinessInvariant :=
  invariants.insertionSort fun a b => a.invariantId ≤ b.invariantId

/-- The canonical declarations in the order of their ids. -/
def canonicalDefinitions (invariants : List BusinessInvariant) : Option (List PyJson) :=
  (sortedById invariants).mapM toCanonicalDict

instance idOrder_isTotal :
    Std.Total fun a b : BusinessInvariant => a.invariantId ≤ b.invariantId :=
  ⟨fun a b => le_total a.invariantId b.invariantId⟩

instance idOrder_isTrans :
    IsTrans BusinessInvariant fun a b => a.invariantId ≤ b.invariantId :=
  ⟨fun _ _ _ => le_trans⟩

/-- **The order in which invariants are declared does not matter**, their ids being distinct. -/
theorem sortedById_perm {l l' : List BusinessInvariant} (h : l.Perm l')
    (hids : (l.map BusinessInvariant.invariantId).Nodup) : sortedById l = sortedById l' := by
  have hperm : (sortedById l).Perm (sortedById l') :=
    (List.perm_insertionSort _ l).trans (h.trans (List.perm_insertionSort _ l').symm)
  refine hperm.eq_of_pairwise (fun a b ha hb hab hba => ?_) (List.pairwise_insertionSort _ l)
    (List.pairwise_insertionSort _ l')
  have ha' : a ∈ l := (List.perm_insertionSort _ l).mem_iff.1 ha
  have hb' : b ∈ l := h.mem_iff.2 ((List.perm_insertionSort _ l').mem_iff.1 hb)
  exact List.inj_on_of_nodup_map hids ha' hb' (le_antisymm hab hba)

/-! ### Observations -/

/-- What one execution left behind. -/
structure InvariantObservation where
  exitCode : Option ℤ
  stdout : Bytes
  stderr : Bytes
  files : PyDict Bytes
  inputs : PyDict Bytes

/-- What the evaluation of an invariant finds. -/
structure Finding where
  passed : Bool
  observed : Value
  reason : String
  /-- The mappings of the observed value hold each key once. -/
  observed_wellFormed : observed.WellFormed

/-- The outcome of one invariant. -/
structure InvariantOutcome where
  invariantId : String
  phase : InvariantPhase
  kind : InvariantKind
  expected : Value
  finding : Finding

/-- `_outcome` -/
def outcome (inv : BusinessInvariant) (finding : Finding) : InvariantOutcome :=
  ⟨inv.invariantId, inv.phase, inv.kind, inv.expected, finding⟩

/-- `_read_source`: the content, unless it is missing, and its label. -/
def readSource (inv : BusinessInvariant) (observation : InvariantObservation) :
    Option Bytes × String :=
  let name := inv.sourceName.getD ""
  match inv.source with
  | .stdout => (some observation.stdout, "STDOUT")
  | .stderr => (some observation.stderr, "STDERR")
  | .file => (observation.files.get? name, "FILE:" ++ name)
  | .input => (observation.inputs.get? name, "INPUT:" ++ name)
  | .exitStatus => (none, "EXIT_STATUS")

/-- The expected number of a declaration that expects one. -/
def expectedInt (inv : BusinessInvariant) : ℤ :=
  match inv.expected with
  | .int z => z
  | _ => 0

/-- The lines of a declaration that expects lines. -/
def expectedLines (inv : BusinessInvariant) : List PyStr :=
  match inv.expected with
  | .tuple items => items.filterMap fun v => match v with
      | .str s => some s
      | _ => none
  | _ => []

/-- The bytes of a declaration that expects bytes. -/
def expectedBytes (inv : BusinessInvariant) : Bytes :=
  match inv.expected with
  | .bytes content => content
  | _ => []

/-- `_records` -/
def records (content : Bytes) (recordLength : ℕ) : List Bytes :=
  (List.range (content.length / recordLength)).map fun i =>
    (content.drop (i * recordLength)).take recordLength

def numbersText (ns : List ℕ) : String := "[" ++ ", ".intercalate (ns.map toString) ++ "]"

/-- A text, a number or some bytes that are observed. -/
def observedText (passed : Bool) (s reason : String) : Finding :=
  ⟨passed, .str (PyStr.of s), reason, trivial⟩

def observedInt (passed : Bool) (z : ℤ) (reason : String) : Finding := ⟨passed, .int z, reason, trivial⟩

def observedTagged (passed : Bool) (tag : String) (s : List Char) (reason : String) : Finding :=
  ⟨passed, .mapping [(PyStr.of tag, .str (s.map Char.toNat))], reason,
    List.pairwise_singleton .., trivial, trivial⟩

def observedHex (passed : Bool) (content : Bytes) (reason : String) : Finding :=
  observedTagged passed "$bytes_hex" (Py.hex content) reason

/-- The finding for a content whose length is no multiple of the record length. -/
def undivided (content : Bytes) (label : String) (recordLength : ℕ) : Finding :=
  observedInt false content.length
    (label ++ " length " ++ toString content.length ++ " is not divisible by record_length " ++
      toString recordLength)

/-- The lines of a text that are observed. -/
def observedLines (passed : Bool) (lines : List PyStr) (reason : String) : Finding :=
  ⟨passed, .list (lines.map Value.str), reason,
    wellFormedItems_map (show ∀ s : PyStr, (Value.str s).WellFormed from fun _ => trivial) lines⟩

/-- The summary of the records that were checked. -/
def checkedRecords (checked : ℕ) (mismatched : List ℕ) : Value :=
  .mapping [(PyStr.of "mismatched", .list (mismatched.map fun n : ℕ => Value.int n)),
    (PyStr.of "records_checked", .int checked)]

theorem wellFormed_checkedRecords (checked : ℕ) (mismatched : List ℕ) :
    (checkedRecords checked mismatched).WellFormed := by
  have hkeys : PyStr.of "mismatched" < PyStr.of "records_checked" := by decide
  have hitems : WellFormedItems (mismatched.map fun n : ℕ => Value.int n) :=
    wellFormedItems_map (show ∀ n : ℕ, (Value.int n).WellFormed from fun _ => trivial) mismatched
  exact ⟨List.pairwise_pair.2 hkeys, hitems, trivial, trivial⟩

/-- The finding for the records that were checked. -/
def observedRecords (checked : ℕ) (mismatched : List ℕ) (reason : String) : Finding :=
  ⟨mismatched.isEmpty, checkedRecords checked mismatched, reason,
    wellFormed_checkedRecords checked mismatched⟩

/-- `EXIT_CODE` -/
def evaluateExitCode (inv : BusinessInvariant) (observation : InvariantObservation) : Finding :=
  match observation.exitCode with
  | none => observedText false "MISSING" "execution reported no exit code"
  | some actual =>
      if actual = expectedInt inv then observedInt true actual "exit code matched"
      else observedInt false actual
        ("exit code " ++ toString actual ++ " != expected " ++ toString (expectedInt inv))

/-- `EXACT_LINES` and `LINE_COUNT` -/
def evaluateLines (inv : BusinessInvariant) (content : Bytes) (label : String) : Finding :=
  match Py.decode content with
  | none => observedHex false content
      (label ++ " is not valid UTF-8; exact line comparison refused")
  | some text =>
      let lines := (Py.Chars.splitlines text.toList).map fun line => line.map Char.toNat
      if inv.kind = .exactLines then
        if lines = expectedLines inv then
          observedLines true lines (label ++ " lines matched exactly")
        else observedLines false lines
          (label ++ " lines differ from the declared exact sequence")
      else if (lines.length : ℤ) = expectedInt inv then
        observedInt true lines.length (label ++ " line count matched")
      else observedInt false lines.length (label ++ " has " ++ toString lines.length ++
        " line(s), expected " ++ toString (expectedInt inv))

/-- `RECORD_COUNT` -/
def evaluateRecordCount (inv : BusinessInvariant) (content : Bytes) (label : String) : Finding :=
  let recordLength := inv.recordLength.getD 0
  if content.length % recordLength ≠ 0 then undivided content label recordLength
  else
    let count := content.length / recordLength
    if (count : ℤ) = expectedInt inv then observedInt true count (label ++ " record count matched")
    else observedInt false count (label ++ " has " ++ toString count ++ " record(s), expected " ++
      toString (expectedInt inv))

/-- `FIXED_FIELD_EQUALS` -/
def evaluateFixedField (inv : BusinessInvariant) (content : Bytes) (label : String) : Finding :=
  let recordLength := inv.recordLength.getD 0
  let field (record : Bytes) := (record.drop (inv.offset.getD 0)).take (inv.length.getD 0)
  if content.length % recordLength ≠ 0 then undivided content label recordLength
  else
    let found := records content recordLength
    let matched := label ++ " fixed field matched exactly"
    let differs (indexes : List ℕ) :=
      label ++ " fixed field differs at record(s) " ++ numbersText indexes
    if found.isEmpty then observedInt false 0 (label ++ " contains no complete records")
    else
      match inv.recordIndex with
      | some index =>
          match found[index]? with
          | none => observedInt false found.length ("record_index " ++ toString index ++
              " is out of range for " ++ toString found.length ++ " record(s) in " ++ label)
          | some record =>
              if field record = expectedBytes inv then observedHex true (field record) matched
              else observedHex false (field record) (differs [index])
      | none =>
          let mismatched := (List.range found.length).filter fun i =>
            found[i]?.any fun record => field record ≠ expectedBytes inv
          observedRecords found.length mismatched
            (if mismatched.isEmpty then matched else differs mismatched)

/-! ### Totals -/

/-- The text of an optionally signed run of digits. -/
def isSignedInteger (token : List Char) : Bool :=
  let digits := (Py.Decimal.splitSign token).2
  !digits.isEmpty && digits.all Char.isDigit

/-- `_numeric_token` -/
def numericToken (field : Bytes) : Option (List Char) :=
  let token := Py.Chars.strip (field.map fun b => Char.ofNat b.toNat)
  if field.all (· < 128) && isSignedInteger token then some token else none

/-- `Decimal(token)` of a signed integer. -/
def tokenDecimal (token : List Char) : Py.Decimal :=
  let (negative, digits) := Py.Decimal.splitSign token
  ⟨negative, Nat.ofDigitChars 10 digits 0, 0⟩

/-- `_expected_decimal`, if it raises no exception. -/
def expectedDecimal (inv : BusinessInvariant) : Option Py.Decimal :=
  match inv.expected with
  | .decimal d => some d
  | .int z => some (Py.Decimal.ofSigned z 0)
  | .str s => decimalOfStr s
  | _ => none

section Totals

variable (label : String) (found : List Bytes) (window : Bytes → Bytes)

/-- The loop over the records: a finding that ends it, or the total; `none` is an overflow. -/
def addFields : List ℕ → Py.Decimal → Option (Except Finding Py.Decimal)
  | [], total => some (.ok total)
  | index :: rest, total =>
      match found[index]? with
      | none => some (.error (observedInt false found.length ("record_index " ++ toString index ++
          " is out of range for " ++ toString found.length ++ " record(s) in " ++ label)))
      | some record =>
          match numericToken (window record) with
          | none => some (.error (observedHex false (window record) (label ++ " record " ++
              toString index ++ " field is not an exact signed integer")))
          | some token => (total.add (tokenDecimal token)).bind fun total => addFields rest total

end Totals

def totalFinding (label : String) (total expected : Py.Decimal) : Finding :=
  let passed := decide (total.toRat = expected.toRat)
  observedTagged passed "$decimal" total.format
    (if passed then label ++ " fixed-field total matched"
    else label ++ " fixed-field total " ++ String.ofList total.format ++ " != expected " ++
      String.ofList expected.format)

/-- `FIXED_FIELD_TOTAL`, if it raises no exception. -/
def evaluateFixedTotal (inv : BusinessInvariant) (content : Bytes) (label : String) :
    Option Finding :=
  let recordLength := inv.recordLength.getD 0
  let window (record : Bytes) := (record.drop (inv.offset.getD 0)).take (inv.length.getD 0)
  if content.length % recordLength ≠ 0 then some (undivided content label recordLength)
  else
    let found := records content recordLength
    if found.isEmpty then some (observedInt false 0 (label ++ " contains no complete records"))
    else
      let indexes := match inv.recordIndex with
        | some index => [index]
        | none => List.range found.length
      match addFields label found window indexes ⟨false, 0, 0⟩ with
      | none => none
      | some (.error finding) => some finding
      | some (.ok total) =>
          (if inv.decimalPlaces = 0 then some total else total.scaleDown inv.decimalPlaces).bind
            fun total => (expectedDecimal inv).map (totalFinding label total)

/-! ### Fields of JSON documents -/

/-- A step of a path into a document. -/
inductive PathToken
  | name (s : String)
  | index (i : ℕ)

/-- A letter or an underscore; with digits, the characters of a name. -/
def isNameStart (c : Char) : Bool := c.isAlpha || c == '_'

/-- The indexes `[0][1]` at the end of a component, at most `n` of them. -/
def indexTokens : ℕ → List Char → Option (List PathToken)
  | _, [] => some []
  | 0, _ :: _ => none
  | n + 1, c :: s =>
      let digits := s.takeWhile Char.isDigit
      match s.drop digits.length with
      | ']' :: rest =>
          if c = '[' ∧ digits ≠ [] then
            (indexTokens n rest).map (.index (Nat.ofDigitChars 10 digits 0) :: ·)
          else none
      | _ => none

/-- The tokens of a component of a path. -/
def componentTokens (s : List Char) : Option (List PathToken) :=
  let name := s.takeWhile fun c => isNameStart c || c.isDigit
  if name.head?.any isNameStart then
    (indexTokens s.length (s.drop name.length)).map (.name (String.ofList name) :: ·)
  else none

/-- `_json_tokens`, if it raises no exception. -/
def jsonTokens (path : String) : Option (List PathToken) :=
  ((path.toList.splitOn '.').mapM componentTokens).map List.flatten

/-- Texts that depend on the interpreter. -/
structure Messages where
  /-- How strings are shown. -/
  rendering : Py.Rendering
  /-- `exc.msg` and `exc.pos` of a text that is no JSON document. -/
  jsonError : String → String

def plainMessages : Messages := ⟨⟨fun s => "'" ++ s ++ "'", ", ".intercalate⟩, fun _ => ""⟩

/-- `_resolve_json_path`: the value at the end of a path, or the text of an exception. -/
def resolve (rendering : Py.Rendering) : PyJson → List PathToken → Except String PyJson
  | current, [] => .ok current
  | .arr xs, .index i :: rest =>
      match xs[i]? with
      | some x => resolve rendering x rest
      | none => .error "list index out of range"
  | _, .index i :: _ => .error s!"cannot index non-list with [{i}]"
  | .obj fs, .name s :: rest =>
      match PyJson.field fs s with
      | some v => resolve rendering v rest
      | none => .error (rendering.repr s)
  | _, .name s :: _ => .error s!"cannot read {rendering.repr s} from non-object"
termination_by _ tokens => tokens.length

/-- What a path leads to in a document that is in order is in order. -/
theorem ordered_resolve {rendering : Py.Rendering} : ∀ {tokens : List PathToken}
    {document actual : PyJson}, document.Ordered → resolve rendering document tokens = .ok actual →
    actual.Ordered := by
  intro tokens
  induction tokens with
  | nil =>
      intro document actual hdocument h
      rw [resolve, Except.ok.injEq] at h
      exact h ▸ hdocument
  | cons token tokens ih =>
      intro document actual hdocument h
      unfold resolve at h
      split at h
      · cases ‹token :: tokens = []›
      · split at h
        · next x hx =>
            obtain ⟨rfl, rfl⟩ := List.cons.inj ‹token :: tokens = _›
            exact ih (PyJson.orderedItems_iff.1 hdocument _ (List.mem_of_getElem? hx)) h
        · cases h
      · cases h
      · split at h
        · next v hv =>
            obtain ⟨rfl, rfl⟩ := List.cons.inj ‹token :: tokens = _›
            obtain ⟨f, hf, rfl⟩ := Option.map_eq_some_iff.1 hv
            exact ih (PyJson.orderedFields_iff.1 hdocument.2 _ (List.mem_of_find?_eq_some hf)) h
        · cases h
      · cases h

/-- A parsed value that is observed. -/
def observedParsed (passed : Bool) (actual : PyJson) (h : actual.Ordered) (reason : String) :
    Finding :=
  ⟨passed, ofParsed actual, reason, wellFormed_ofParsed h⟩

section Evaluation

variable (messages : Messages) (limit : ℕ)

/-- `JSON_FIELD_EQUALS`, if it raises no exception. -/
def evaluateJsonField (inv : BusinessInvariant) (content : Bytes) (label : String) :
    Option Finding :=
  let path := inv.jsonPath.getD ""
  match Py.decode content with
  | none => some (observedHex false content (label ++ " is not valid UTF-8 JSON"))
  | some text =>
      match hload : PyJson.loads limit text with
      | .error .malformed => some (observedText false "MALFORMED_JSON"
          (label ++ " is not valid JSON: " ++ messages.jsonError text))
      | .error _ => none
      | .ok document =>
          (jsonTokens path).bind fun tokens =>
            match hactual : resolve messages.rendering document tokens with
            | .error e => some (observedText false "MISSING_PATH" ("json_path " ++
                messages.rendering.repr path ++ " not found in " ++ label ++ ": " ++ e))
            | .ok actual =>
                let passed := jsonEqual actual inv.expected
                some (observedParsed passed actual
                  (ordered_resolve (PyJson.ordered_loads hload) hactual)
                  (if passed then label ++ " JSON field matched"
                  else label ++ " JSON field differs at " ++ path))

/-! ### Evaluation -/

/-- `_evaluate_one`, if it raises no exception. -/
def evaluateOne (inv : BusinessInvariant) (observation : InvariantObservation) :
    Option InvariantOutcome :=
  (match inv.kind with
    | .exitCode => some (evaluateExitCode inv observation)
    | kind =>
        match readSource inv observation with
        | (none, label) =>
            some (observedText false "MISSING" ("declared source " ++ label ++ " is missing"))
        | (some content, label) =>
            match kind with
            | .recordCount => some (evaluateRecordCount inv content label)
            | .fixedFieldEquals => some (evaluateFixedField inv content label)
            | .fixedFieldTotal => evaluateFixedTotal inv content label
            | .jsonFieldEquals => evaluateJsonField messages limit inv content label
            | _ => some (evaluateLines inv content label)).map (outcome inv)

/-- `evaluate_invariants`, if it raises no exception. -/
def evaluateInvariants (invariants : List BusinessInvariant) (observation : InvariantObservation) :
    Option (List InvariantOutcome) :=
  if (invariants.map BusinessInvariant.invariantId).Nodup then
    (sortedById invariants).mapM fun inv => evaluateOne messages limit inv observation
  else none

end Evaluation

/-! ### Digests -/

/-- `_canonical_json(value).encode("utf-8")` under a limit of the nesting. -/
def canonicalJson (limit : ℕ) (value : PyJson) : Except Py.Exc Bytes := PyJson.dumps limit value

/-- The digest of canonical declarations. -/
def digestOf (limit : ℕ) (definitions : List PyJson) : Except Py.Exc String :=
  (canonicalJson limit (.arr definitions)).map Sha256.hexdigest

/-- `invariant_definition_digest`, if it raises no exception. -/
def invariantDefinitionDigest (limit : ℕ) (invariants : List BusinessInvariant) : Option String :=
  (canonicalDefinitions invariants).bind fun definitions => (digestOf limit definitions).toOption

/-! ### Reports -/

/-- The report of one side. -/
structure Report where
  definitionDigest : String
  definitions : List PyJson
  outcomes : List InvariantOutcome

/-- `build_report`, if it raises no exception. -/
def buildReport (messages : Messages) (limit : ℕ) (invariants : List BusinessInvariant)
    (observation : InvariantObservation) : Option Report :=
  if invariants = [] then none
  else
    (canonicalDefinitions invariants).bind fun definitions =>
      (digestOf limit definitions).toOption.bind fun digest =>
        (evaluateInvariants messages limit invariants observation).map fun outcomes =>
          ⟨digest, definitions, outcomes⟩

/-- Whether every invariant of a report passed. -/
def Report.passed (r : Report) : Bool :=
  !r.outcomes.isEmpty && r.outcomes.all fun o => o.finding.passed

/-- The property `overall`. -/
def Report.overall (r : Report) : String := if r.passed then "PASS" else "FAIL"

/-- `to_dict` of an outcome, if it raises no exception. -/
def InvariantOutcome.toDict (o : InvariantOutcome) : Option PyJson :=
  (canonicalValue o.expected).bind fun expected =>
    (canonicalValue o.finding.observed).map fun observed => dict
      [("invariant_id", text o.invariantId),
        ("phase", text o.phase.value),
        ("kind", text o.kind.value),
        ("passed", .bool o.finding.passed),
        ("expected", expected),
        ("observed", observed),
        ("reason", text o.finding.reason)]

/-- `SCHEMA_VERSION` -/
def schemaVersion : String := "1.0"

/-- `to_dict` of a report, if it raises no exception. -/
def Report.toDict (r : Report) : Option PyJson :=
  (r.outcomes.mapM InvariantOutcome.toDict).map fun outcomes => dict
    [("schema_version", text schemaVersion),
      ("definition_digest", text r.definitionDigest),
      ("definitions", .arr r.definitions),
      ("overall", text r.overall),
      ("evaluated_count", .int r.outcomes.length),
      ("failed_count", .int (r.outcomes.countP fun o => !o.finding.passed)),
      ("outcomes", .arr outcomes)]

/-- `to_bytes`, if it raises no exception. -/
def Report.toBytes (limit : ℕ) (r : Report) : Option Bytes :=
  r.toDict.bind fun document => (canonicalJson limit document).toOption

end CobolJava.Business
