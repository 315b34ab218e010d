/-
**The dependency ledger and the central gate.**

`build_dependency_ledger` and `evaluate_central_status` of `integrated_proof.py`: one entry per
declared dependency, and the status of the application computed from the entries and the evidence of
the runtime lane.

Main definitions:

* `DependencyKind`, `DependencyLedgerEntry`, `RuntimeLaneEvidence` — what the gate reads;
* `proofStateFor`, `jclLedgerEntry`, `buildDependencyLedger` — the ledger;
* `evaluateCentralStatus` — the gate.

Main results:

* `evaluateCentralStatus_eq_verified` — when the gate opens.
-/

import CobolJava.Lib.KeptFirst
import CobolJava.Modernization.CapabilityReport

set_option autoImplicit false

namespace CobolJava.Modernization

/-! ### Dependencies -/

inductive ProofState
  | proven
  | partly
  | blocked
  | unproven
  deriving DecidableEq, Repr

def ProofState.value : ProofState → String
  | .proven => "PROVEN"
  | .partly => "PARTIAL"
  | .blocked => "BLOCKED"
  | .unproven => "UNPROVEN"

inductive DependencyKind
  | program
  | copybook
  | call
  | file
  | jcl
  | db2
  | cics
  | parameter
  | mq
  | ims
  | unknown
  deriving DecidableEq, Repr

namespace DependencyKind

def value : DependencyKind → String
  | .program => "PROGRAM"
  | .copybook => "COPYBOOK"
  | .call => "CALL"
  | .file => "FILE"
  | .jcl => "JCL"
  | .db2 => "DB2"
  | .cics => "CICS"
  | .parameter => "PARAMETER"
  | .mq => "MQ"
  | .ims => "IMS"
  | .unknown => "UNKNOWN"

def all : List DependencyKind :=
  [.program, .copybook, .call, .file, .jcl, .db2, .cics, .parameter, .mq, .ims, .unknown]

/-- `RUNTIME_PROVEN_KINDS` -/
def runtimeProven : List DependencyKind :=
  [.program, .copybook, .call, .file, .parameter]

/-- `NON_RUNTIME_KINDS` -/
def nonRuntime : List DependencyKind :=
  [.jcl, .db2, .cics]

end DependencyKind

/-- `_kind_for` -/
def kindFor (componentType : String) : Option DependencyKind :=
  DependencyKind.all.find? fun kind => kind.value = componentType

structure DependencyLedgerEntry where
  dependencyId : String
  kind : DependencyKind
  visible : Bool
  capabilityLevel : CapabilityLevel
  proofState : ProofState
  required : Bool
  reason : String
  deriving DecidableEq, Repr

structure RuntimeLaneEvidence where
  verdictState : String
  executedCheckCount : ℤ
  evidenceComplete : Bool
  evidenceIntegrityValid : Bool
  /-- Artifact type and result of each comparison. -/
  artifactResults : List (String × String)
  deriving DecidableEq, Repr

namespace RuntimeLaneEvidence

def verdictIsVerified (runtime : RuntimeLaneEvidence) : Bool :=
  runtime.verdictState = "VERIFIED"

/-- The results of the compared files. -/
def fileResults (runtime : RuntimeLaneEvidence) : List String :=
  (runtime.artifactResults.filter fun artifact =>
    ["TEXT_FILE", "FIXED_RECORD"].contains artifact.1).map Prod.snd

end RuntimeLaneEvidence

/-! ### The ledger -/

/-- `_proof_state_for` -/
def proofStateFor (kind : DependencyKind) (level : CapabilityLevel)
    (runtime : RuntimeLaneEvidence) : ProofState × String :=
  let mismatched := Py.sortedSet (runtime.fileResults.filter (· ≠ "MATCH"))
  if kind = .unknown then
    (.blocked, "component kind is UNKNOWN; an unclassifiable dependency can never be proven")
  else if level = .unsupported ∨ level = .unavailable then
    (.blocked, kind.value ++ " capability is " ++ level.value ++ "; transformation is blocked")
  else if level = .partly ∨ level = .unknown then
    (.partly, kind.value ++ " capability is " ++ level.value ++ "; only partial evidence exists")
  else if kind ∈ DependencyKind.nonRuntime then
    (.partly, kind.value ++ " has no runtime lane in this repository; the construct is parsed and " ++
      "classified but never executed, so it cannot be claimed proven")
  else if !runtime.verdictIsVerified then
    if runtime.verdictState = "NOT_RUN" then
      (.unproven, kind.value ++ " capability is SUPPORTED but the runtime lane was not executed")
    else
      (.partly, kind.value ++ " capability is SUPPORTED but the runtime verdict is " ++
        runtime.verdictState)
  else if !(runtime.evidenceComplete && runtime.evidenceIntegrityValid) then
    (.partly, kind.value ++ " ran under a VERIFIED verdict but the evidence manifest is incomplete " ++
      "or failed integrity validation")
  else if kind = .file ∧ runtime.fileResults = [] then
    (.partly, "FILE capability is SUPPORTED and the runtime verdict is VERIFIED, but no file " ++
      "artifact (TEXT_FILE/FIXED_RECORD) was compared in this run; a workload-level verdict is " ++
      "not dependency-specific evidence for a file dependency")
  else if kind = .file ∧ mismatched ≠ [] then
    (.partly, "FILE capability is SUPPORTED but a compared file artifact did not MATCH (" ++
      ", ".intercalate mismatched ++ "); the file dependency cannot be claimed proven")
  else
    (.proven, kind.value ++ " capability is SUPPORTED and behaviour was proven by the COBOL/Java " ++
      "runtime lane")

/-- The entry of a component; `repr` is the interpreter's. -/
def componentEntry (py : Py.Rendering) (runtime : RuntimeLaneEvidence)
    (component : ComponentCapability) : DependencyLedgerEntry :=
  let dependencyId :=
    if component.componentType = "PROGRAM" then component.componentId
    else component.componentType ++ ":" ++ component.componentId
  match kindFor component.componentType with
  | none =>
      ⟨dependencyId, .unknown, true, component.level, .blocked, true,
        "component type " ++ py.repr component.componentType ++ " is not a known dependency kind; " ++
          "the classification cannot be modelled, so the dependency is BLOCKED (fail-closed)"⟩
  | some kind =>
      let (state, reason) := proofStateFor kind component.level runtime
      ⟨dependencyId, kind, true, component.level, state, true, reason⟩

/-- `jcl_ledger_entry` -/
def jclLedgerEntry (jclStatus : String) : DependencyLedgerEntry :=
  let full : Bool := jclStatus = "FULL"
  { dependencyId := "JCL:" ++ jclStatus
    kind := .jcl
    visible := true
    capabilityLevel := if full then .partly else .unsupported
    proofState := if full then .partly else .blocked
    required := true
    reason :=
      if full then
        "JCL has no runtime lane in this repository; the job stream is parsed and classified but " ++
          "never executed"
      else "JCL modernization status is " ++ jclStatus }

def jclPresent (jclStatus : String) : Bool :=
  !(["", "NOT_PRESENT"].contains jclStatus)

/-- The entries of a report in the order in which they are added; without a capability report there are
no components. -/
def declaredEntries (py : Py.Rendering) (components : Option (List ComponentCapability))
    (runtime : RuntimeLaneEvidence) (extras : List DependencyLedgerEntry) (jclStatus : String) :
    List DependencyLedgerEntry :=
  (components.getD []).map (componentEntry py runtime) ++
    (extras ++ if jclPresent jclStatus then [jclLedgerEntry jclStatus] else [])

/-- An entry is added unless its id was seen. -/
def buildDependencyLedger (py : Py.Rendering) (components : Option (List ComponentCapability))
    (runtime : RuntimeLaneEvidence) (extras : List DependencyLedgerEntry) (jclStatus : String) :
    List DependencyLedgerEntry :=
  Kept.keepFirst DependencyLedgerEntry.dependencyId
    (declaredEntries py components runtime extras jclStatus)

/-! ### The gate -/

inductive CentralStatus
  | verified
  | notVerified
  deriving DecidableEq, Repr

def DependencyLedgerEntry.fails (entry : DependencyLedgerEntry) : Bool :=
  entry.required && entry.proofState ≠ .proven

/-- The blocking reasons of the runtime lane. -/
def runtimeReasons (runtime : RuntimeLaneEvidence) : List String :=
  if !runtime.verdictIsVerified then ["runtime verdict is " ++ runtime.verdictState]
  else
    (if !runtime.evidenceComplete then ["runtime evidence manifest is incomplete"] else []) ++
      ((if !runtime.evidenceIntegrityValid then
          ["runtime evidence failed integrity validation"] else []) ++
        if runtime.executedCheckCount ≤ 0 then
          ["runtime verdict is VERIFIED but no checks were executed (executed_check_count=0)"]
        else [])

def blockingReasons (ledger : List DependencyLedgerEntry) (runtime : RuntimeLaneEvidence)
    (generationSuccess : Bool) : List String :=
  (if !generationSuccess then ["transformation did not produce a candidate"] else []) ++
    (runtimeReasons runtime ++
      ((if ledger = [] then
          ["dependency ledger is empty: no declared dependency has been proven (vacuous VERIFIED " ++
            "is forbidden)"]
        else []) ++
        (ledger.filter DependencyLedgerEntry.fails).map fun entry =>
          entry.dependencyId ++ ": " ++ entry.proofState.value ++ " (" ++ entry.reason ++ ")"))

/-- `evaluate_central_status` -/
def evaluateCentralStatus (ledger : List DependencyLedgerEntry) (runtime : RuntimeLaneEvidence)
    (generationSuccess : Bool) : CentralStatus × List String :=
  let reasons := blockingReasons ledger runtime generationSuccess
  (if reasons = [] then .verified else .notVerified, reasons)

/-- Generation and the runtime lane let the gate open. -/
structure GateOpen (runtime : RuntimeLaneEvidence) (generationSuccess : Bool) : Prop where
  generation : generationSuccess = true
  verdict : runtime.verdictState = "VERIFIED"
  complete : runtime.evidenceComplete = true
  integrity : runtime.evidenceIntegrityValid = true
  checks : 0 < runtime.executedCheckCount

theorem singleton_if_eq_nil {c : Prop} [Decidable c] {reason : String} :
    (if c then [reason] else []) = [] ↔ ¬ c := by
  split <;> simp [*]

theorem runtimeReasons_eq_nil (runtime : RuntimeLaneEvidence) :
    runtimeReasons runtime = [] ↔ runtime.verdictState = "VERIFIED" ∧
      runtime.evidenceComplete = true ∧ runtime.evidenceIntegrityValid = true ∧
        0 < runtime.executedCheckCount := by
  rw [runtimeReasons, RuntimeLaneEvidence.verdictIsVerified]
  by_cases hverdict : runtime.verdictState = "VERIFIED"
  · rw [if_neg (by simp [hverdict]), List.append_eq_nil_iff, List.append_eq_nil_iff,
      singleton_if_eq_nil, singleton_if_eq_nil, singleton_if_eq_nil, and_iff_right hverdict,
      Bool.not_eq_true', Bool.not_eq_false, Bool.not_eq_true', Bool.not_eq_false, not_le]
  · rw [if_pos (by simp [hverdict])]
    exact iff_of_false (List.cons_ne_nil _ _) fun h => hverdict h.1

/-- The gate opens for a ledger that is not empty and has no entry that keeps it shut. -/
theorem evaluateCentralStatus_eq_verified (ledger : List DependencyLedgerEntry)
    (runtime : RuntimeLaneEvidence) (generationSuccess : Bool) :
    (evaluateCentralStatus ledger runtime generationSuccess).1 = .verified ↔
      GateOpen runtime generationSuccess ∧ ledger ≠ [] ∧
        ∀ entry ∈ ledger, entry.fails = false := by
  have hreasons : (evaluateCentralStatus ledger runtime generationSuccess).1 = .verified ↔
      blockingReasons ledger runtime generationSuccess = [] := by
    unfold evaluateCentralStatus
    generalize blockingReasons ledger runtime generationSuccess = reasons
    simp
  rw [hreasons, blockingReasons, List.append_eq_nil_iff, List.append_eq_nil_iff,
    List.append_eq_nil_iff, singleton_if_eq_nil, runtimeReasons_eq_nil, singleton_if_eq_nil,
    List.map_eq_nil_iff, List.filter_eq_nil_iff, Bool.not_eq_true', Bool.not_eq_false]
  simp only [Bool.not_eq_true]
  constructor
  · rintro ⟨hgeneration, ⟨hverdict, hcomplete, hintegrity, hchecks⟩, hempty, hentries⟩
    exact ⟨⟨hgeneration, hverdict, hcomplete, hintegrity, hchecks⟩, hempty, hentries⟩
  · rintro ⟨⟨hgeneration, hverdict, hcomplete, hintegrity, hchecks⟩, hempty, hentries⟩
    exact ⟨hgeneration, ⟨hverdict, hcomplete, hintegrity, hchecks⟩, hempty, hentries⟩

end CobolJava.Modernization
