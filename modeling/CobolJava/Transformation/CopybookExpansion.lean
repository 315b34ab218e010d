/-
**Nested copybooks.**

The files a copybook brings in by `COPY` statements of its own: the resolver
(`copybook_resolver.py`), the expansion that generation reads (`_expand_copybook_text`) and the list
of files that analysis scans (`collect_copybook_texts`).

Main definitions:

* `CopybookFile`, `resolveCopybook` — the files, and the file of a name;
* `expandCopybookText`, `collectCopybookTexts` — generation and analysis;
* `IsExpansion` — a text with every `COPY` statement replaced by the expansion of its target.

Main results:

* `expand_terminates`, `walk_terminates` — the recursion ends, for the stems of a chain differ;
* `walk_of_expand` — analysis sees the files generation inlines, with the same diagnostics;
* `isExpansion_of_expand` — without diagnostics the expansion is the substitution;
* `analysis_sees_expansion` — the three together.
-/

import Mathlib.Data.Finset.Card
import Mathlib.Data.Finset.Dedup
import Mathlib.Data.Finset.SDiff
import CobolJava.Lib.PyExc
import CobolJava.Transformation.CopybookText

set_option autoImplicit false

namespace CobolJava.Copybook

open Py.Chars
open SourceFormat (Text)

/-! ### Files -/

/-- A file: its path, the stem and the suffix of its name, and what reading it gives. -/
structure CopybookFile where
  path : String
  stem : Text
  suffix : Text
  content : Except String Text

def CopybookFile.key (file : CopybookFile) : Text :=
  upper file.stem

/-- The text of a file without sequence numbers, or the text of the exception. -/
def CopybookFile.read (file : CopybookFile) : Except String Text :=
  file.content.map stripSequenceNumbers

/-- `_EXTENSION_PRECEDENCE` -/
def extensionPrecedence : List Text :=
  [".cpy".toList, ".cbl".toList, ".cob".toList]

/-- The place of the suffix of a file, in any case. -/
def CopybookFile.precedence (file : CopybookFile) : ℕ :=
  extensionPrecedence.idxOf (file.suffix.map Char.toLower)

/-- `_candidate_files`, over the files of the directories that are searched. -/
def candidateFiles (searchDirs : List (List CopybookFile)) (stemUpper : Text) :
    List CopybookFile :=
  searchDirs.flatMap fun directory => directory.filter fun file =>
    file.key = stemUpper && extensionPrecedence.contains (file.suffix.map Char.toLower)

/-- What a name resolves to. -/
inductive Resolution
  | found (file : CopybookFile)
  | ambiguous (candidates : List CopybookFile)
  | missing

/-- `resolve_copybook` -/
def resolveCopybook (searchDirs : List (List CopybookFile)) (copybookName : Text) : Resolution :=
  let candidates := candidateFiles searchDirs (upper copybookName)
  let winners := candidates.filter fun c => candidates.all fun d => c.precedence ≤ d.precedence
  match winners.mergeSort fun c d => decide (c.path ≤ d.path) with
  | [] => .missing
  | [file] => .found file
  | several => .ambiguous several

theorem mem_of_resolveCopybook {searchDirs : List (List CopybookFile)} {name : Text}
    {file : CopybookFile} (h : resolveCopybook searchDirs name = .found file) :
    file ∈ searchDirs.flatten ∧ file.key = upper name := by
  rw [resolveCopybook] at h
  split at h
  · simp at h
  · rename_i winner hwinners
    obtain rfl : winner = file := by simpa using h
    have hmem : winner ∈ candidateFiles searchDirs (upper name) := by
      have hsorted := hwinners ▸ List.mem_singleton_self winner
      exact (List.mem_filter.1 (List.mem_mergeSort.1 hsorted)).1
    obtain ⟨directory, hdirectory, hfile⟩ := List.mem_flatMap.1 hmem
    obtain ⟨hin, htest⟩ := List.mem_filter.1 hfile
    rw [Bool.and_eq_true, decide_eq_true_eq] at htest
    exact ⟨List.mem_flatten.2 ⟨directory, hdirectory, hin⟩, htest.1⟩
  · simp at h

/-! ### Diagnostics -/

/-- `CopybookDiagnostic` -/
structure CopybookDiagnostic where
  level : String
  code : String
  message : String
  deriving DecidableEq, Repr

def errorDiagnostic (code message : String) : CopybookDiagnostic :=
  ⟨"ERROR", code, message⟩

/-- The diagnostics of a `REPLACING` clause. -/
def CopybookDiagnostic.ofClause (d : CopybookDiagnostic) : Prop :=
  ∃ kind : ClauseErrorKind, d.code = kind.code

section Expansion

variable (py : Py.Rendering) (searchDirs : List (List CopybookFile))

def unreadable (file : CopybookFile) (exc : String) : CopybookDiagnostic :=
  errorDiagnostic "COPYBOOK_UNREADABLE"
    ("Copybook " ++ String.ofList file.key ++ " at " ++ file.path ++ ": " ++ exc)

/-- The file of the target of a `COPY` statement, or the diagnostic: both recursions decide this in
the same words. -/
def targetFile (stem : Text) (chain : List Text) (target : Text) :
    Except CopybookDiagnostic CopybookFile :=
  let targetKey := upper target
  if targetKey = stem || chain.contains targetKey then
    .error (errorDiagnostic "COPYBOOK_CYCLE" ("Cyclic COPY reference: " ++
      " -> ".intercalate ((chain ++ [stem, targetKey]).map String.ofList)))
  else
    match resolveCopybook searchDirs target with
    | .found file => .ok file
    | .ambiguous candidates =>
        .error (errorDiagnostic "COPYBOOK_AMBIGUOUS" ("Ambiguous COPY target " ++
          py.repr (String.ofList target) ++ " in copybook " ++ String.ofList stem ++ ": " ++
          ", ".intercalate (candidates.map CopybookFile.path)))
    | .missing =>
        .error (errorDiagnostic "COPYBOOK_UNRESOLVED" ("Missing COPY target: " ++
          String.ofList target ++ " (in copybook " ++ String.ofList stem ++ ")"))

/-! ### The expansion -/

/-- How a call ends without a value: the exception of reading the top-level file, or, of the model
only, no fuel. -/
inductive Stop
  | raised (exc : String)
  | outOfFuel

/-- An expanded text, with the diagnostics that were appended and the files whose text was inlined,
in that order. -/
structure Expansion where
  text : Text
  diagnostics : List CopybookDiagnostic
  inlined : List CopybookFile

/-- `text[start:stop]` -/
def slice (text : Text) (start stop : ℕ) : Text :=
  (text.take stop).drop start

/-- The loop of `_expand_copybook_text` over the `COPY` statements of a text, from a cursor on. -/
def expandSpans (recur : CopybookFile → Except Stop Expansion) (text : Text) (stem : Text)
    (chain : List Text) : List Span → ℕ → Except Stop Expansion
  | [], cursor => .ok ⟨text.drop cursor, [], []⟩
  | span :: rest, cursor =>
      match parseReplacingClause py (slice (maskComments text) span.start span.stop) with
      | (_, some e) => do
          let r ← expandSpans recur text stem chain rest span.stop
          let d := errorDiagnostic e.kind.code
            (e.message ++ " (in copybook " ++ String.ofList stem ++ ")")
          .ok { r with diagnostics := d :: r.diagnostics }
      | (pairs, none) =>
          let before := slice text cursor span.start
          match targetFile py searchDirs stem chain span.target with
          | .error d => do
              let r ← expandSpans recur text stem chain rest span.stop
              .ok ⟨before ++ r.text, d :: r.diagnostics, r.inlined⟩
          | .ok file => do
              let inner ← recur file
              let r ← expandSpans recur text stem chain rest span.stop
              .ok ⟨before ++ (applyReplacing inner.text pairs ++ r.text),
                inner.diagnostics ++ r.diagnostics, inner.inlined ++ r.inlined⟩

/-- `_expand_copybook_text` -/
def expandCopybookText : ℕ → CopybookFile → List Text → Except Stop Expansion
  | 0, _, _ => .error .outOfFuel
  | fuel + 1, file, chain =>
      match file.read with
      | .error exc =>
          if chain = [] then .error (.raised exc)
          else .ok ⟨[], [unreadable file exc], []⟩
      | .ok text =>
          let spans := findCopyStatements text
          if spans = [] then .ok ⟨text, [], [file]⟩
          else do
            let r ← expandSpans py searchDirs
              (fun target => expandCopybookText fuel target (chain ++ [file.key]))
              text file.key chain spans 0
            .ok { r with inlined := file :: r.inlined }

/-! ### The files that are scanned -/

/-- The files of a copybook with their texts, and the diagnostics. -/
structure Collection where
  files : List (CopybookFile × Text)
  diagnostics : List CopybookDiagnostic

/-- The loop of `_walk` over the `COPY` statements of a text. -/
def walkSpans (recur : CopybookFile → Except Stop Collection) (stem : Text) (chain : List Text) :
    List Span → Except Stop Collection
  | [] => .ok ⟨[], []⟩
  | span :: rest =>
      match targetFile py searchDirs stem chain span.target with
      | .error d => do
          let r ← walkSpans recur stem chain rest
          .ok ⟨r.files, d :: r.diagnostics⟩
      | .ok file => do
          let inner ← recur file
          let r ← walkSpans recur stem chain rest
          .ok ⟨inner.files ++ r.files, inner.diagnostics ++ r.diagnostics⟩

/-- `_walk` of `collect_copybook_texts` -/
def walk : ℕ → CopybookFile → List Text → Except Stop Collection
  | 0, _, _ => .error .outOfFuel
  | fuel + 1, file, chain =>
      match file.read with
      | .error exc => .ok ⟨[], [unreadable file exc]⟩
      | .ok text => do
          let r ← walkSpans py searchDirs
            (fun target => walk fuel target (chain ++ [file.key])) file.key chain
            (findCopyStatements text)
          .ok ⟨(file, text) :: r.files, r.diagnostics⟩

/-- `collect_copybook_texts` -/
def collectCopybookTexts (fuel : ℕ) (file : CopybookFile) : Except Stop Collection :=
  walk py searchDirs fuel file []

attribute [grind =] expandSpans expandCopybookText walkSpans walk

/-! ### What a step does -/

variable {py searchDirs}

theorem of_targetFile {stem target : Text} {chain : List Text} {file : CopybookFile}
    (h : targetFile py searchDirs stem chain target = .ok file) :
    file ∈ searchDirs.flatten ∧ file.key ≠ stem ∧ file.key ∉ chain := by
  rw [targetFile] at h
  split at h
  · simp at h
  · rename_i hnew
    rw [Bool.or_eq_true, decide_eq_true_eq, List.contains_iff_mem, not_or] at hnew
    split at h
    · rename_i found hfound
      obtain rfl : found = file := by simpa using h
      obtain ⟨hmem, hkey⟩ := mem_of_resolveCopybook hfound
      rw [hkey]
      exact ⟨hmem, hnew⟩
    · simp at h
    · simp at h

section Spans

variable {recur recur' : CopybookFile → Except Stop Expansion}
  {collect : CopybookFile → Except Stop Collection} {text stem : Text} {chain : List Text}
  {span : Span} {rest : List Span} {cursor : ℕ}

/-- The ways the loop goes on at a `COPY` statement: its clause is in error, its target is, or the
target is expanded. -/
theorem expandSpans_cons {r : Expansion}
    (h : expandSpans py searchDirs recur text stem chain (span :: rest) cursor = .ok r) :
    ∃ tail, expandSpans py searchDirs recur text stem chain rest span.stop = .ok tail ∧
      ((∃ d : CopybookDiagnostic, d.ofClause ∧
          r = { tail with diagnostics := d :: tail.diagnostics }) ∨
        (∃ d, targetFile py searchDirs stem chain span.target = .error d ∧
          r = ⟨slice text cursor span.start ++ tail.text, d :: tail.diagnostics, tail.inlined⟩) ∨
        ∃ pairs file inner,
          parseReplacingClause py (slice (maskComments text) span.start span.stop) =
            (pairs, none) ∧
          targetFile py searchDirs stem chain span.target = .ok file ∧ recur file = .ok inner ∧
          r = ⟨slice text cursor span.start ++ (applyReplacing inner.text pairs ++ tail.text),
            inner.diagnostics ++ tail.diagnostics, inner.inlined ++ tail.inlined⟩) := by
  rw [expandSpans] at h
  split at h
  · rename_i e hclause
    obtain ⟨tail, htail, hr⟩ := Py.bind_ok h
    exact ⟨tail, htail, .inl ⟨_, ⟨e.kind, rfl⟩, (Except.ok.inj hr).symm⟩⟩
  · rename_i pairs hclause
    split at h
    · rename_i d htarget
      obtain ⟨tail, htail, hr⟩ := Py.bind_ok h
      exact ⟨tail, htail, .inr (.inl ⟨d, htarget, (Except.ok.inj hr).symm⟩)⟩
    · rename_i file htarget
      obtain ⟨inner, hinner, h⟩ := Py.bind_ok h
      obtain ⟨tail, htail, hr⟩ := Py.bind_ok h
      exact ⟨tail, htail, .inr (.inr
        ⟨pairs, file, inner, hclause, htarget, hinner, (Except.ok.inj hr).symm⟩)⟩

theorem expandSpans_ok (hrecur : ∀ file target,
      targetFile py searchDirs stem chain target = .ok file → ∃ r, recur file = .ok r)
    (spans : List Span) (cursor : ℕ) :
    ∃ r, expandSpans py searchDirs recur text stem chain spans cursor = .ok r := by
  induction spans generalizing cursor with
  | nil => exact ⟨_, rfl⟩
  | cons span rest ih =>
      obtain ⟨tail, htail⟩ := ih span.stop
      rw [expandSpans, htail]
      split
      · exact ⟨_, rfl⟩
      · split
        · exact ⟨_, rfl⟩
        · rename_i file htarget
          obtain ⟨inner, hinner⟩ := hrecur file span.target htarget
          rw [hinner]
          exact ⟨_, rfl⟩

theorem walkSpans_ok (hcollect : ∀ file target,
      targetFile py searchDirs stem chain target = .ok file → ∃ c, collect file = .ok c)
    (spans : List Span) : ∃ c, walkSpans py searchDirs collect stem chain spans = .ok c := by
  induction spans with
  | nil => exact ⟨_, rfl⟩
  | cons span rest ih =>
      obtain ⟨tail, htail⟩ := ih
      rw [walkSpans, htail]
      split
      · exact ⟨_, rfl⟩
      · rename_i file htarget
        obtain ⟨inner, hinner⟩ := hcollect file span.target htarget
        rw [hinner]
        exact ⟨_, rfl⟩

theorem expandSpans_mono (hmono : ∀ file r, recur file = .ok r → recur' file = .ok r)
    {spans : List Span} {cursor : ℕ} {r : Expansion}
    (h : expandSpans py searchDirs recur text stem chain spans cursor = .ok r) :
    expandSpans py searchDirs recur' text stem chain spans cursor = .ok r := by
  induction spans generalizing cursor r with
  | nil => exact h
  | cons span rest ih =>
      rw [expandSpans] at h ⊢
      split at h
      · obtain ⟨tail, htail, hr⟩ := Py.bind_ok h
        rw [ih htail]
        exact hr
      · split at h
        · obtain ⟨tail, htail, hr⟩ := Py.bind_ok h
          rw [ih htail]
          exact hr
        · obtain ⟨inner, hinner, h⟩ := Py.bind_ok h
          obtain ⟨tail, htail, hr⟩ := Py.bind_ok h
          rw [hmono _ _ hinner, ih htail]
          exact hr

theorem walkSpans_mono {collect' : CopybookFile → Except Stop Collection}
    (hmono : ∀ file c, collect file = .ok c → collect' file = .ok c) {spans : List Span}
    {c : Collection} (h : walkSpans py searchDirs collect stem chain spans = .ok c) :
    walkSpans py searchDirs collect' stem chain spans = .ok c := by
  induction spans generalizing c with
  | nil => exact h
  | cons span rest ih =>
      rw [walkSpans] at h ⊢
      split at h
      · obtain ⟨tail, htail, hc⟩ := Py.bind_ok h
        rw [ih htail]
        exact hc
      · obtain ⟨inner, hinner, h⟩ := Py.bind_ok h
        obtain ⟨tail, htail, hc⟩ := Py.bind_ok h
        rw [hmono _ _ hinner, ih htail]
        exact hc

/-- The files that are scanned are those that are inlined, in their order, and the diagnostics are
the same. -/
def SameFiles (r : Expansion) (c : Collection) : Prop :=
  r.inlined = c.files.map Prod.fst ∧ r.diagnostics = c.diagnostics

/-- The two loops see the same files when the two recursions do. -/
theorem sameFiles_spans
    (hsame : ∀ file r c, recur file = .ok r → collect file = .ok c →
      (∀ d ∈ r.diagnostics, ¬d.ofClause) → SameFiles r c)
    {spans : List Span} {cursor : ℕ} {r : Expansion} {c : Collection}
    (hr : expandSpans py searchDirs recur text stem chain spans cursor = .ok r)
    (hc : walkSpans py searchDirs collect stem chain spans = .ok c)
    (hclause : ∀ d ∈ r.diagnostics, ¬d.ofClause) : SameFiles r c := by
  induction spans generalizing cursor r c with
  | nil =>
      obtain rfl := Except.ok.inj hr
      obtain rfl := Except.ok.inj hc
      exact ⟨rfl, rfl⟩
  | cons span rest ih =>
      obtain ⟨tail, htail, hcase⟩ := expandSpans_cons hr
      rw [walkSpans] at hc
      rcases hcase with ⟨d, hd, rfl⟩ | ⟨d, htarget, rfl⟩ | ⟨pairs, file, inner, -, htarget, hinner, rfl⟩
      · exact absurd hd (hclause d List.mem_cons_self)
      · rw [htarget] at hc
        obtain ⟨ctail, hctail, hc⟩ := Py.bind_ok hc
        obtain rfl := Except.ok.inj hc
        obtain ⟨hfiles, hdiagnostics⟩ := ih htail hctail
          fun e he => hclause e (List.mem_cons_of_mem d he)
        exact ⟨hfiles, by simp only [hdiagnostics]⟩
      · rw [htarget] at hc
        obtain ⟨cinner, hcinner, hc⟩ := Py.bind_ok hc
        obtain ⟨ctail, hctail, hc⟩ := Py.bind_ok hc
        obtain rfl := Except.ok.inj hc
        obtain ⟨hfiles, hdiagnostics⟩ := ih htail hctail
          fun e he => hclause e (List.mem_append_right _ he)
        obtain ⟨hinnerFiles, hinnerDiagnostics⟩ := hsame file inner cinner hinner hcinner
          fun e he => hclause e (List.mem_append_left _ he)
        refine ⟨?_, ?_⟩
        · simp only [List.map_append, hfiles, hinnerFiles]
        · simp only [hdiagnostics, hinnerDiagnostics]

end Spans

/-! ### Termination -/

/-- How many stems of the directories are not on a chain. -/
def unvisited (searchDirs : List (List CopybookFile)) (chain : List Text) : ℕ :=
  ((searchDirs.flatten.map CopybookFile.key).toFinset \ chain.toFinset).card

theorem unvisited_append_lt {chain : List Text} {file : CopybookFile}
    (hfile : file ∈ searchDirs.flatten) (hnew : file.key ∉ chain) :
    unvisited searchDirs (chain ++ [file.key]) < unvisited searchDirs chain := by
  refine Finset.card_lt_card (Finset.ssubset_iff_of_subset ?_ |>.2 ⟨file.key, ?_, ?_⟩)
  · refine Finset.sdiff_subset_sdiff (Finset.Subset.refl _) ?_
    intro k hk
    rw [List.mem_toFinset] at hk ⊢
    exact List.mem_append_left _ hk
  · rw [Finset.mem_sdiff, List.mem_toFinset, List.mem_toFinset]
    exact ⟨List.mem_map_of_mem hfile, hnew⟩
  · rw [Finset.mem_sdiff, List.mem_toFinset, List.mem_toFinset]
    exact fun h => h.2 (List.mem_append_right _ List.mem_cons_self)

theorem unvisited_target_lt {stem target : Text} {chain : List Text} {file : CopybookFile}
    (h : targetFile py searchDirs stem chain target = .ok file) :
    unvisited searchDirs ((chain ++ [stem]) ++ [file.key]) <
      unvisited searchDirs (chain ++ [stem]) := by
  obtain ⟨hmem, hstem, hchain⟩ := of_targetFile h
  refine unvisited_append_lt hmem fun hkey => ?_
  rcases List.mem_append.1 hkey with hkey | hkey
  · exact hchain hkey
  · exact hstem (List.mem_singleton.1 hkey)

/-- With fuel for the stems that are left the expansion ends, unless the top-level file cannot be
read. -/
theorem expand_terminates {fuel : ℕ} {file : CopybookFile} {chain : List Text}
    (hfuel : unvisited searchDirs (chain ++ [file.key]) < fuel)
    (hread : chain = [] → ∃ text, file.read = .ok text) :
    ∃ r, expandCopybookText py searchDirs fuel file chain = .ok r := by
  induction fuel generalizing file chain with
  | zero => omega
  | succ fuel ih =>
      rw [expandCopybookText]
      split
      · rename_i exc hexc
        by_cases hchain : chain = []
        · obtain ⟨text, htext⟩ := hread hchain
          rw [htext] at hexc
          cases hexc
        · exact ⟨_, if_neg hchain⟩
      · rename_i text htext
        have htargets : ∀ target name, targetFile py searchDirs file.key chain name = .ok target →
            ∃ r, expandCopybookText py searchDirs fuel target (chain ++ [file.key]) = .ok r :=
          fun target name htarget =>
            ih (Nat.lt_of_lt_of_le (unvisited_target_lt htarget) (Nat.le_of_lt_succ hfuel))
              fun hnil => absurd hnil (List.append_ne_nil_of_right_ne_nil _ (by simp))
        obtain ⟨r, hr⟩ : ∃ r, expandSpans py searchDirs
            (fun target => expandCopybookText py searchDirs fuel target (chain ++ [file.key]))
            text file.key chain (findCopyStatements text) 0 = .ok r :=
          expandSpans_ok htargets _ 0
        dsimp only
        rw [hr]
        split
        · exact ⟨_, rfl⟩
        · exact ⟨_, rfl⟩

theorem walk_terminates {fuel : ℕ} {file : CopybookFile} {chain : List Text}
    (hfuel : unvisited searchDirs (chain ++ [file.key]) < fuel) :
    ∃ c, walk py searchDirs fuel file chain = .ok c := by
  induction fuel generalizing file chain with
  | zero => omega
  | succ fuel ih =>
      rw [walk]
      split
      · exact ⟨_, rfl⟩
      · rename_i text htext
        have htargets : ∀ target name, targetFile py searchDirs file.key chain name = .ok target →
            ∃ c, walk py searchDirs fuel target (chain ++ [file.key]) = .ok c :=
          fun target name htarget =>
            ih (Nat.lt_of_lt_of_le (unvisited_target_lt htarget) (Nat.le_of_lt_succ hfuel))
        obtain ⟨c, hc⟩ := walkSpans_ok htargets (findCopyStatements text)
        rw [hc]
        exact ⟨_, rfl⟩

theorem expand_mono {fuel : ℕ} {file : CopybookFile} {chain : List Text} {r : Expansion}
    (h : expandCopybookText py searchDirs fuel file chain = .ok r) :
    expandCopybookText py searchDirs (fuel + 1) file chain = .ok r := by
  induction fuel generalizing file chain r with
  | zero => simp [expandCopybookText] at h
  | succ fuel ih =>
      rw [expandCopybookText] at h ⊢
      split at h
      · exact h
      · dsimp only at h ⊢
        split at h
        · rename_i hspans
          rw [if_pos hspans]
          exact h
        · rename_i hspans
          rw [if_neg hspans]
          obtain ⟨tail, htail, hr⟩ := Py.bind_ok h
          rw [expandSpans_mono (fun target inner => ih) htail]
          exact hr

theorem walk_mono {fuel : ℕ} {file : CopybookFile} {chain : List Text} {c : Collection}
    (h : walk py searchDirs fuel file chain = .ok c) :
    walk py searchDirs (fuel + 1) file chain = .ok c := by
  induction fuel generalizing file chain c with
  | zero => simp [walk] at h
  | succ fuel ih =>
      rw [walk] at h ⊢
      split at h
      · exact h
      · obtain ⟨tail, htail, hc⟩ := Py.bind_ok h
        rw [walkSpans_mono (fun target inner => ih) htail]
        exact hc

/-! ### Agreement -/

/-- Analysis sees the files generation inlines, in their order, and both append the same
diagnostics, when no clause is in error. -/
theorem walk_of_expand {fuel : ℕ} {file : CopybookFile} {chain : List Text} {r : Expansion}
    {c : Collection} (hr : expandCopybookText py searchDirs fuel file chain = .ok r)
    (hc : walk py searchDirs fuel file chain = .ok c)
    (hclause : ∀ d ∈ r.diagnostics, ¬d.ofClause) : SameFiles r c := by
  induction fuel generalizing file chain r c with
  | zero => simp [expandCopybookText] at hr
  | succ fuel ih =>
      rw [expandCopybookText] at hr
      rw [walk] at hc
      cases hread : file.read with
      | error exc =>
          rw [hread] at hr hc
          by_cases hchain : chain = []
          · simp [hchain] at hr
          · simp only [hchain, if_false, Except.ok.injEq] at hr
            obtain rfl := hr
            obtain rfl := Except.ok.inj hc
            exact ⟨rfl, rfl⟩
      | ok text =>
          rw [hread] at hr hc
          dsimp only at hr hc
          obtain ⟨ctail, hctail, hc⟩ := Py.bind_ok hc
          obtain rfl := Except.ok.inj hc
          by_cases hspans : findCopyStatements text = []
          · rw [hspans] at hr hctail
            obtain rfl := Except.ok.inj hr
            obtain rfl := Except.ok.inj hctail
            exact ⟨rfl, rfl⟩
          · rw [if_neg hspans] at hr
            obtain ⟨tail, htail, hr⟩ := Py.bind_ok hr
            obtain rfl := Except.ok.inj hr
            obtain ⟨hfiles, hdiagnostics⟩ := sameFiles_spans
              (fun target inner cinner hinner hcinner => ih hinner hcinner)
              htail hctail hclause
            exact ⟨congrArg (file :: ·) hfiles, hdiagnostics⟩

/-! ### Substitution -/

mutual

/-- A text of a file with every `COPY` statement replaced by an expansion of its target, to which
the clause of the statement is applied. -/
inductive IsExpansion (py : Py.Rendering) (searchDirs : List (List CopybookFile)) :
    CopybookFile → Text → Prop
  | file {file : CopybookFile} {text expanded : Text} (hread : file.read = .ok text)
      (hsplice : Splices py searchDirs text (findCopyStatements text) 0 expanded) :
      IsExpansion py searchDirs file expanded

/-- The rest of a text from a cursor on, with its `COPY` statements replaced. -/
inductive Splices (py : Py.Rendering) (searchDirs : List (List CopybookFile)) :
    Text → List Span → ℕ → Text → Prop
  | done {text : Text} {cursor : ℕ} : Splices py searchDirs text [] cursor (text.drop cursor)
  | copy {text inner expanded : Text} {span : Span} {rest : List Span} {cursor : ℕ}
      {pairs : List (Text × Text)} {target : CopybookFile}
      (hclause : parseReplacingClause py (slice (maskComments text) span.start span.stop) =
        (pairs, none))
      (htarget : resolveCopybook searchDirs span.target = .found target)
      (hinner : IsExpansion py searchDirs target inner)
      (hrest : Splices py searchDirs text rest span.stop expanded) :
      Splices py searchDirs text (span :: rest) cursor
        (slice text cursor span.start ++ (applyReplacing inner pairs ++ expanded))

end

theorem resolve_of_targetFile {stem target : Text} {chain : List Text} {file : CopybookFile}
    (h : targetFile py searchDirs stem chain target = .ok file) :
    resolveCopybook searchDirs target = .found file := by
  rw [targetFile] at h
  split at h
  · simp at h
  · split at h
    · rename_i found hfound
      obtain rfl : found = file := by simpa using h
      exact hfound
    · simp at h
    · simp at h

theorem splices_of_expandSpans {recur : CopybookFile → Except Stop Expansion} {text stem : Text}
    {chain : List Text} (hrecur : ∀ file r, recur file = .ok r → r.diagnostics = [] →
      IsExpansion py searchDirs file r.text)
    {spans : List Span} {cursor : ℕ} {r : Expansion}
    (h : expandSpans py searchDirs recur text stem chain spans cursor = .ok r)
    (hnone : r.diagnostics = []) : Splices py searchDirs text spans cursor r.text := by
  induction spans generalizing cursor r with
  | nil =>
      obtain rfl := Except.ok.inj h
      exact .done
  | cons span rest ih =>
      obtain ⟨tail, htail, hcase⟩ := expandSpans_cons h
      rcases hcase with ⟨d, -, rfl⟩ | ⟨d, -, rfl⟩ | ⟨pairs, file, inner, hclause, htarget, hinner, rfl⟩
      · simp at hnone
      · simp at hnone
      · obtain ⟨hinnerNone, htailNone⟩ := List.append_eq_nil_iff.1 hnone
        exact .copy hclause (resolve_of_targetFile htarget) (hrecur file inner hinner hinnerNone)
          (ih htail htailNone)

/-- Without diagnostics the expanded text is the substitution of every `COPY` statement. -/
theorem isExpansion_of_expand {fuel : ℕ} {file : CopybookFile} {chain : List Text} {r : Expansion}
    (h : expandCopybookText py searchDirs fuel file chain = .ok r) (hnone : r.diagnostics = []) :
    IsExpansion py searchDirs file r.text := by
  induction fuel generalizing file chain r with
  | zero => simp [expandCopybookText] at h
  | succ fuel ih =>
      rw [expandCopybookText] at h
      cases hread : file.read with
      | error exc =>
          rw [hread] at h
          by_cases hchain : chain = []
          · simp [hchain] at h
          · simp only [hchain, if_false, Except.ok.injEq] at h
            obtain rfl := h
            simp at hnone
      | ok text =>
          rw [hread] at h
          dsimp only at h
          by_cases hspans : findCopyStatements text = []
          · rw [if_pos hspans] at h
            obtain rfl := Except.ok.inj h
            refine .file hread ?_
            rw [hspans]
            exact .done
          · rw [if_neg hspans] at h
            obtain ⟨tail, htail, hr⟩ := Py.bind_ok h
            obtain rfl := Except.ok.inj hr
            have hsplices := splices_of_expandSpans (fun target inner hinner => ih hinner) htail hnone
            exact .file hread hsplices

theorem unvisited_le (chain : List Text) :
    unvisited searchDirs chain ≤ searchDirs.flatten.length := by
  refine (Finset.card_le_card Finset.sdiff_subset).trans ?_
  exact (List.toFinset_card_le _).trans (List.length_map _).le

theorem expand_of_le {fuel fuel' : ℕ} (hle : fuel ≤ fuel') {file : CopybookFile}
    {chain : List Text} {r : Expansion}
    (h : expandCopybookText py searchDirs fuel file chain = .ok r) :
    expandCopybookText py searchDirs fuel' file chain = .ok r := by
  induction hle with
  | refl => exact h
  | step _ ih => exact expand_mono ih

theorem walk_of_le {fuel fuel' : ℕ} (hle : fuel ≤ fuel') {file : CopybookFile}
    {chain : List Text} {c : Collection} (h : walk py searchDirs fuel file chain = .ok c) :
    walk py searchDirs fuel' file chain = .ok c := by
  induction hle with
  | refl => exact h
  | step _ ih => exact walk_mono ih

/-- Both recursions end on a copybook that can be read, with one result for any fuel beyond the
number of files.  When no clause is in error analysis sees the files generation inlines, and both
append the same diagnostics; when there are none the expansion is the substitution. -/
theorem analysis_sees_expansion (py : Py.Rendering) (searchDirs : List (List CopybookFile))
    {file : CopybookFile} {text : Text} (hread : file.read = .ok text) :
    ∃ r c, (∀ fuel, searchDirs.flatten.length < fuel →
        expandCopybookText py searchDirs fuel file [] = .ok r ∧
          collectCopybookTexts py searchDirs fuel file = .ok c) ∧
      ((∀ d ∈ r.diagnostics, ¬d.ofClause) → SameFiles r c) ∧
      (r.diagnostics = [] → IsExpansion py searchDirs file r.text) := by
  have hfuel : unvisited searchDirs ([] ++ [file.key]) < searchDirs.flatten.length + 1 :=
    Nat.lt_succ_of_le (unvisited_le _)
  obtain ⟨r, hr⟩ : ∃ r, expandCopybookText py searchDirs _ file [] = .ok r :=
    expand_terminates hfuel fun _ => ⟨text, hread⟩
  obtain ⟨c, hc⟩ : ∃ c, walk py searchDirs _ file [] = .ok c := walk_terminates hfuel
  exact ⟨r, c, fun fuel hlt => ⟨expand_of_le hlt hr, walk_of_le hlt hc⟩,
    walk_of_expand hr hc, isExpansion_of_expand hr⟩

def selfCopy : CopybookFile :=
  ⟨"A.cpy", "A".toList, ".cpy".toList, .ok "01 X PIC 9. COPY A.".toList⟩

theorem analysis_sees_selfCopy :
    ∃ r c, (∀ fuel, [[selfCopy]].flatten.length < fuel →
        expandCopybookText ⟨id, fun _ => ""⟩ [[selfCopy]] fuel selfCopy [] = .ok r ∧
          collectCopybookTexts ⟨id, fun _ => ""⟩ [[selfCopy]] fuel selfCopy = .ok c) ∧
      ((∀ d ∈ r.diagnostics, ¬d.ofClause) → SameFiles r c) ∧
      (r.diagnostics = [] → IsExpansion ⟨id, fun _ => ""⟩ [[selfCopy]] selfCopy r.text) :=
  have hread : selfCopy.read = .ok (stripSequenceNumbers "01 X PIC 9. COPY A.".toList) := rfl
  analysis_sees_expansion _ _ hread

/-- What a call of the expansion has appended. -/
def appended : Except Stop Expansion → List CopybookDiagnostic
  | .ok r => r.diagnostics
  | .error _ => []

/-- A copybook that cannot be read is reported by the collection, and by the expansion only through
the exception it raises. -/
theorem unreadable_not_appended :
    ¬∀ (py : Py.Rendering) (searchDirs : List (List CopybookFile)) (file : CopybookFile)
      (fuel : ℕ) (c : Collection), collectCopybookTexts py searchDirs fuel file = .ok c →
        appended (expandCopybookText py searchDirs fuel file []) = c.diagnostics := by
  intro h
  have hsame := h ⟨id, fun _ => ""⟩ [] ⟨"A.cpy", "A".toList, ".cpy".toList, .error "denied"⟩ 1 _ rfl
  simp [expandCopybookText, CopybookFile.read, Except.map, appended] at hsame

end Expansion

end CobolJava.Copybook
