/-
**One reference format for an application.**

The format the oracle compiles the modules of an application in (`DockerOracleAdapter`), against the
formats in which the translator reads the modules and the copybooks they copy: each text is read in
the format its own lines suggest.

Main definitions:

* `moduleSourceFormat`, `compileFormatFlag` — the oracle;
* `Module`, `ReadsOneFormat` — an application, and the agreement of oracle and translator;
* `HasFreeLine` — a line only free format can have.

Main results:

* `compileFormatFlag_eq_free_iff` — when the oracle compiles as free format;
* `readsOneFormat_iff` — the applications that are read in the format they are compiled in.
-/

import Mathlib.Data.Finset.Dedup
import Mathlib.Data.Finset.Insert
import CobolJava.Transformation.SourceFormat

set_option autoImplicit false

namespace CobolJava.SourceFormat

open Py.Chars

/-! ### The oracle -/

/-- `_module_source_format`, of a file that may be unreadable. -/
def moduleSourceFormat : Option Text → Format
  | some text => detectSourceFormat text
  | none => .fixed

/-- `_compile_format_flag` -/
def compileFormatFlag (modules : List (Option Text)) : String :=
  if (modules.map moduleSourceFormat).toFinset = {.free} then "-free " else ""

/-- The format `cobc` compiles in under a flag. -/
def flagFormat (flag : String) : Format :=
  if flag = "-free " then .free else .fixed

/-! ### An application -/

/-- A module with the texts of the copybooks it copies. -/
structure Module where
  source : Text
  copybooks : List Text

/-- The format the modules of an application are compiled in. -/
def oracleFormat (application : List Module) : Format :=
  flagFormat (compileFormatFlag (application.map fun m => some m.source))

/-- Every module, and every copybook of a module, is read in the format it is compiled in. -/
def ReadsOneFormat (application : List Module) : Prop :=
  ∀ m ∈ application, detectSourceFormat m.source = oracleFormat application ∧
    ∀ copybook ∈ m.copybooks, detectSourceFormat copybook = oracleFormat application

def texts (application : List Module) : List Text :=
  application.flatMap fun m => m.source :: m.copybooks

/-- A code line with something other than digits and blanks in columns 1 to 6. -/
def HasFreeLine (text : Text) : Prop :=
  ∃ line ∈ splitlines text, looksFree line = true

/-! ### Agreement -/

theorem toFinset_eq_singleton_iff {α : Type*} [DecidableEq α] {xs : List α} {a : α} :
    xs.toFinset = {a} ↔ xs ≠ [] ∧ ∀ x ∈ xs, x = a := by
  rw [Finset.eq_singleton_iff_nonempty_unique_mem, List.toFinset_nonempty_iff]
  simp only [List.mem_toFinset]

theorem compileFormatFlag_eq_free_iff {modules : List (Option Text)} :
    flagFormat (compileFormatFlag modules) = .free ↔
      modules ≠ [] ∧ ∀ m ∈ modules, moduleSourceFormat m = .free := by
  have hset : (modules.map moduleSourceFormat).toFinset = {.free} ↔
      modules ≠ [] ∧ ∀ m ∈ modules, moduleSourceFormat m = .free := by
    rw [toFinset_eq_singleton_iff]
    simp
  rw [← hset, compileFormatFlag]
  split <;> simp_all [flagFormat]

theorem oracleFormat_eq_free_iff {application : List Module} :
    oracleFormat application = .free ↔
      application ≠ [] ∧ ∀ m ∈ application, detectSourceFormat m.source = .free := by
  rw [oracleFormat, compileFormatFlag_eq_free_iff]
  simp [moduleSourceFormat]

theorem Format.eq_fixed_iff {format : Format} : format = .fixed ↔ format ≠ .free := by
  cases format <;> simp

/-- Oracle and translator agree exactly when all texts have one format. -/
theorem readsOneFormat_iff_formats {application : List Module} :
    ReadsOneFormat application ↔
      (∀ text ∈ texts application, detectSourceFormat text = .free) ∨
        ∀ text ∈ texts application, detectSourceFormat text = .fixed := by
  have hall : ∀ format, (∀ text ∈ texts application, detectSourceFormat text = format) ↔
      ∀ m ∈ application, detectSourceFormat m.source = format ∧
        ∀ copybook ∈ m.copybooks, detectSourceFormat copybook = format := by
    intro format
    simp only [texts, List.mem_flatMap, forall_exists_index, and_imp, List.mem_cons]
    refine ⟨fun h m hm => ⟨h _ m hm (.inl rfl), fun c hc => h c m hm (.inr hc)⟩, ?_⟩
    rintro h text m hm (rfl | hc)
    · exact (h m hm).1
    · exact (h m hm).2 text hc
  have hread : ReadsOneFormat application ↔
      ∀ text ∈ texts application, detectSourceFormat text = oracleFormat application :=
    (hall (oracleFormat application)).symm
  constructor
  · intro h
    rw [hread] at h
    cases hformat : oracleFormat application with
    | free => exact .inl (hformat ▸ h)
    | fixed => exact .inr (hformat ▸ h)
  · rintro (h | h)
    · rcases eq_or_ne application [] with rfl | hne
      · exact fun m hm => absurd hm List.not_mem_nil
      have hformat : oracleFormat application = .free :=
        oracleFormat_eq_free_iff.2 ⟨hne, fun m hm => ((hall .free).1 h m hm).1⟩
      exact hread.2 (hformat ▸ h)
    · rcases eq_or_ne application [] with rfl | hne
      · exact fun m hm => absurd hm List.not_mem_nil
      have hformat : oracleFormat application = .fixed := by
        rw [Format.eq_fixed_iff]
        intro hfree
        obtain ⟨m, hm⟩ := List.exists_mem_of_ne_nil application hne
        have := (oracleFormat_eq_free_iff.1 hfree).2 m hm
        rw [((hall .fixed).1 h m hm).1] at this
        exact absurd this (by decide)
      exact hread.2 (hformat ▸ h)

/-- Without directives an application is read in the format it is compiled in exactly when all its
modules and copybooks have a line only free format can have, or none of them has one. -/
theorem readsOneFormat_iff {application : List Module}
    (h : ∀ text ∈ texts application, NoDirective text) :
    ReadsOneFormat application ↔
      (∀ text ∈ texts application, HasFreeLine text) ∨
        ∀ text ∈ texts application, ¬HasFreeLine text := by
  have hfree : ∀ text ∈ texts application,
      (detectSourceFormat text = .free ↔ HasFreeLine text) := fun text htext =>
    detectSourceFormat_of_plain (h text htext)
  rw [readsOneFormat_iff_formats]
  refine or_congr (forall₂_congr hfree) (forall₂_congr fun text htext => ?_)
  rw [Format.eq_fixed_iff, Ne, hfree text htext]

/-- An application of one module in each format. -/
def mixedApplication : List Module :=
  [⟨"       DISPLAY 1.".toList, []⟩, ⟨"DISPLAY 1.".toList, []⟩]

theorem readsOneFormat_iff_mixed :
    (∀ text ∈ texts mixedApplication, NoDirective text) ∧
      (ReadsOneFormat mixedApplication ↔
        (∀ text ∈ texts mixedApplication, HasFreeLine text) ∨
          ∀ text ∈ texts mixedApplication, ¬HasFreeLine text) :=
  have hplain : ∀ text ∈ texts mixedApplication, NoDirective text := by decide +kernel
  ⟨hplain, readsOneFormat_iff hplain⟩

/-- The free module of a mixed application is compiled as fixed format and read as free format. -/
theorem mixedApplication_not_read :
    ¬∀ application : List Module, (∀ text ∈ texts application, NoDirective text) →
      ReadsOneFormat application := by
  intro h
  have hread := h mixedApplication (by decide +kernel)
  have hfree := (hread ⟨"DISPLAY 1.".toList, []⟩ (by simp [mixedApplication])).1
  exact absurd hfree (by decide +kernel)

end CobolJava.SourceFormat
