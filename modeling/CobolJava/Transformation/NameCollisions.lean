/-
**Collisions of generated names.**

The Java names of programs, paragraphs and data items in the three lanes that generate Java: the Spring
Boot project (`java_to_spring_mapping.py` over `cobol_to_java_mapping.py`), the plain Java project
(`java_generator.py`), and the project of a CICS application (`cics/naming.py` and the mapper and the
generator beside it).

Main definitions:

* `toJavaMethodName`, `paragraphMethodName`, `toJavaClassName`, `pascal`, `camel` — the mangled names;
* `Program`, `Application`, `Lane` — what is generated, and by what;
* `Separates`, `Distinct` — different names have different images, and no paragraph is an entry method;
* `NamesApart` — no two different names of a kind are written alike.

Main results:

* `toJavaClassName_eq_iff`, `camel_className_eq_iff`, `methodName_eq_iff` — which names are mapped to
  one;
* `methodName_not_mem_entryMethods` — **no paragraph is an entry method**;
* `namesDistinct_iff` — **distinct names stay distinct** exactly when the application is refused or its
  names are apart;
* `underscore_merges_fields` — two data items become one field.
-/

import Mathlib
import CobolJava.Lib.KeptFirst
import CobolJava.Transformation.JavaNames

set_option autoImplicit false

namespace CobolJava.Names

open Py (isSpace)
open Py.Chars

/-- Texts are compared character by character. -/
local instance lawfulBEq_text : LawfulBEq (List Char) := List.instLawfulBEq

/-! ### Mangled names -/

/-- `name.replace("-", "_")` -/
def underscored (name : Text) : Text :=
  name.map fun c => if c = '-' then '_' else c

/-- `_to_java_method_name` -/
def toJavaMethodName (name : Text) : Text :=
  let javaName := (strip name).map fun c => if c = '-' ∨ c = ' ' then '_' else c
  if javaName.head?.any Char.isDigit then 'p' :: javaName else javaName

def mainLogic : Text := "MAIN_LOGIC".toList

def paraMainLogic : Text := "PARA_MAIN_LOGIC".toList

/-- `_paragraph_method_name`, of a program with or without a `LINKAGE SECTION` -/
def paragraphMethodName (linkage : Bool) (name : Text) : Text :=
  let javaName := toJavaMethodName name
  if linkage && javaName = mainLogic then paraMainLogic else javaName

/-- `_to_java_class_name` -/
def toJavaClassName (name : Text) : Text :=
  title (name.map fun c => if c = '-' ∨ c = ' ' then '_' else c)

/-- `_capitalize` -/
def capitalize (token : Text) : Text :=
  match lower token with
  | [] => []
  | c :: rest => c.toUpper :: rest

/-- The tokens of a name: its runs of letters and digits. -/
def tokens (name : Text) : List Text :=
  (name.splitOnP fun c => !c.isAlphanum).filter fun token => token ≠ []

/-- `pascal` -/
def pascal (name : Text) : Text :=
  let joined := (tokens name).flatMap capitalize
  if joined = [] then "Unknown".toList else joined

/-- `name[0].lower() + name[1:]` -/
def lowerFirst : Text → Text
  | [] => []
  | c :: rest => c.toLower :: rest

/-- `camel` -/
def camel (name : Text) : Text :=
  lowerFirst (pascal name)

/-! ### Programs -/

/-- The name of a paragraph, which the parser finds when it starts with a capital letter or a digit. -/
structure ParagraphName where
  word : Word
  first_capital : (word.first.isUpper || word.first.isDigit) = true

/-- A data item; `declared` when a field is made for it: it is no table of variable length, no uncertified
or hidden part of a `REDEFINES`, and no group that occurs. -/
structure DataItem where
  name : Word
  declared : Bool

structure Program where
  programId : Word
  paragraphs : List ParagraphName
  fileRecordItems : List DataItem
  workingStorage : List DataItem
  linkageSection : List DataItem
  /-- The host variables of the `EXEC CICS` blocks. -/
  hostVariables : List Word

namespace Program

def hasLinkage (p : Program) : Bool :=
  !p.linkageSection.isEmpty

def hasReturnCode (p : Program) : Bool :=
  p.workingStorage.any fun item => upper item.name.text = "RETURN-CODE".toList

def dataItems (p : Program) : List DataItem :=
  p.fileRecordItems ++ p.workingStorage ++ p.linkageSection

end Program

/-- `map_cobol_data_items_to_fields`: the first item of a Java name has its field. -/
def mapDataItemsToFields (items : List DataItem) : List Text :=
  ((Kept.keepFirst (fun item => underscored item.name.text) items).filter DataItem.declared).map
    fun item => underscored item.name.text

/-- The fields of the class of a program. -/
def javaFields (p : Program) : List Text :=
  let fields := mapDataItemsToFields (p.fileRecordItems ++ p.workingStorage)
  fields ++ (mapDataItemsToFields p.linkageSection).filter fun field => field ∉ fields

/-- `RUN_UNIT_ENTRY_METHOD` -/
def runUnitEntryMethod : Text := "RUN_UNIT$ENTRY".toList

/-- `RUN_UNIT_EXIT_STATUS_METHOD` -/
def runUnitExitStatusMethod : Text := "RUN_UNIT$EXIT_STATUS".toList

/-- The methods through which the class of a program is entered or left. -/
def entryMethods (p : Program) : List Text :=
  ["main".toList] ++ (if p.hasLinkage then [mainLogic] else []) ++ [runUnitEntryMethod] ++
    if p.hasReturnCode then [runUnitExitStatusMethod] else []

/-! ### Applications -/

inductive Lane
  | springBoot
  | plainJava
  | cics
  deriving DecidableEq

/-- An application, with the names of the repositories, adapters and models of its Spring project. -/
structure Application where
  programs : List Program
  components : List Text

def className : Lane → Word → Text
  | .springBoot, programId => toClassName programId.text
  | .plainJava, programId => toJavaClassName programId.text
  | .cics, programId => pascal programId.text ++ "Service".toList

/-- The generation refuses an application when two components of its Spring project have one name. -/
def Accepted : Lane → Application → Prop
  | .springBoot, app =>
      (app.programs.map (fun p => toClassName p.programId.text) ++ app.components).Nodup
  | _, _ => True

/-- `by_key` of `_rewrite_service_calls` -/
def byKey (app : Application) (key : Text) : Option Program :=
  (Kept.first Prod.fst (app.programs.flatMap fun p =>
    [(serviceKey (toClassName p.programId.text), p), (serviceKey p.programId.text, p)]) key).map Prod.snd

/-- The program ids with their classes. -/
def classNames (lane : Lane) (app : Application) : List (Word × Text) :=
  app.programs.map fun p => (p.programId, className lane p.programId)

/-- The program ids with the fields or parameters of their services. -/
def beanFields : Lane → Application → List (Word × Text)
  | .springBoot, app => app.programs.filterMap fun p =>
      (byKey app (serviceKey p.programId.text)).map fun service =>
        (p.programId, lowerFirst (toClassName service.programId.text))
  | .plainJava, _ => []
  | .cics, app => app.programs.map fun p => (p.programId, camel (className .cics p.programId))

/-- The paragraphs with their methods. -/
def methodNames : Lane → Program → List (Word × Text)
  | .cics, _ => []
  | _, p => p.paragraphs.map fun paragraph =>
      (paragraph.word, paragraphMethodName p.hasLinkage paragraph.word.text)

/-- The data names with their fields. -/
def fieldNames : Lane → Program → List (Word × Text)
  | .cics, p => p.hostVariables.map fun name => (name, camel name.text)
  | _, p => p.dataItems.map fun item => (item.name, underscored item.name.text)

/-- The accessors of the data holder of a program. -/
def accessors : Lane → Program → List Text
  | .cics, p => p.hostVariables.flatMap fun name =>
      ["get".toList ++ pascal name.text, "set".toList ++ pascal name.text]
  | _, _ => []

/-! ### The law -/

/-- Two names that COBOL tells apart. -/
def Word.Differs (a b : Word) : Prop :=
  upper a.text ≠ upper b.text

/-- Different names have different images. -/
def Separates (names : List (Word × Text)) : Prop :=
  ∀ a ∈ names, ∀ b ∈ names, a.1.Differs b.1 → a.2 ≠ b.2

structure Distinct (lane : Lane) (app : Application) : Prop where
  classes : Separates (classNames lane app)
  beans : Separates (beanFields lane app)
  methods : ∀ p ∈ app.programs, Separates (methodNames lane p)
  fields : ∀ p ∈ app.programs, Separates (fieldNames lane p)
  /-- No paragraph is an accessor or an entry method. -/
  entries : ∀ p ∈ app.programs, ∀ m ∈ methodNames lane p,
    m.2 ∉ accessors lane p ∧ m.2 ∉ entryMethods p

/-- Names stay distinct, or the generation refuses the application. -/
def NamesDistinct (lane : Lane) (app : Application) : Prop :=
  Accepted lane app → Distinct lane app

/-! ### Names that are written alike -/

/-- Program ids with one name: with one key, or that differ in hyphens and underscores only. -/
def IdsAlike : Lane → Word → Word → Prop
  | .plainJava, a, b => upper (underscored a.text) = upper (underscored b.text)
  | _, a, b => serviceKey a.text = serviceKey b.text

/-- Paragraphs that differ in hyphens and underscores only, or that a `LINKAGE SECTION` brings
together. -/
def ParagraphsAlike (linkage : Bool) (a b : Word) : Prop :=
  underscored a.text = underscored b.text ∨
    linkage = true ∧ underscored a.text = mainLogic ∧ underscored b.text = paraMainLogic

/-- Data names that differ in hyphens and underscores only; host variables of one Pascal case. -/
def DataAlike : Lane → Word → Word → Prop
  | .cics, a, b => pascal a.text = pascal b.text
  | _, a, b => underscored a.text = underscored b.text

/-- The data names of a program in a lane. -/
def dataNames : Lane → Program → List Word
  | .cics, p => p.hostVariables
  | _, p => p.dataItems.map DataItem.name

/-- No two names of a kind that COBOL tells apart are written alike. -/
structure NamesApart (lane : Lane) (app : Application) : Prop where
  ids : ∀ p ∈ app.programs, ∀ q ∈ app.programs, p.programId.Differs q.programId →
    ¬ IdsAlike lane p.programId q.programId
  paragraphs : lane ≠ .cics → ∀ p ∈ app.programs, ∀ a ∈ p.paragraphs, ∀ b ∈ p.paragraphs,
    a.word.Differs b.word → ¬ ParagraphsAlike p.hasLinkage a.word b.word
  data : ∀ p ∈ app.programs, ∀ a ∈ dataNames lane p, ∀ b ∈ dataNames lane p, a.Differs b →
    ¬ DataAlike lane a b

/-! ### Classes -/

variable {a b w : Word} {lane : Lane} {app : Application} {p q : Program}

theorem map_separators_word (w : Word) :
    (w.text.map fun c => if c = '-' ∨ c = ' ' then '_' else c) = underscored w.text := by
  refine List.map_congr_left fun c hc => ?_
  have hblank : c ≠ ' ' := by
    rintro rfl
    exact absurd (w.wordChar hc) (by decide)
  simp only [hblank, or_false]

theorem toJavaClassName_eq_iff : toJavaClassName a.text = toJavaClassName b.text ↔
    upper (underscored a.text) = upper (underscored b.text) := by
  rw [toJavaClassName, toJavaClassName, map_separators_word, map_separators_word, title_eq_iff]

/-- Only the letters and digits of a word are left when its hyphens and underscores go. -/
theorem filter_underscored {s : Text} (h : ∀ c ∈ s, isWordChar c = true) :
    (underscored s).filter (fun c => c ≠ '_') = s.filter Char.isAlphanum := by
  induction s with
  | nil => rfl
  | cons c rest ih =>
      have hrest := ih fun d hd => h d (List.mem_cons_of_mem _ hd)
      have hword := h c List.mem_cons_self
      rw [underscored] at hrest ⊢
      simp only [isWordChar, Bool.or_eq_true, beq_iff_eq] at hword
      rcases hword with (hc | rfl) | rfl
      · have hne : c ≠ '-' ∧ c ≠ '_' := by
          constructor <;> rintro rfl <;> exact absurd hc (by decide)
        rw [List.map_cons, if_neg hne.1, List.filter_cons_of_pos (by simpa using hne.2),
          List.filter_cons_of_pos hc, hrest]
      · rw [List.map_cons, List.filter_cons_of_neg (by simp),
          List.filter_cons_of_neg (by decide), hrest]
      · rw [List.map_cons, List.filter_cons_of_neg (by decide),
          List.filter_cons_of_neg (by decide), hrest]

theorem upper_toClassName (w : Word) : upper (toClassName w.text) = serviceKey w.text := by
  have hcase : ∀ c : Char, decide (c.toUpper ≠ '_') = decide (c ≠ '_') := by
    intro c
    rw [decide_eq_decide, ne_eq, ne_eq, toUpper_eq_iff (by decide)]
  rw [toClassName, upper_filter hcase, upper_title, ← upper_filter hcase, map_separators_word,
    filter_underscored fun c hc => w.wordChar hc, serviceKey_word]

theorem serviceKey_toClassName (w : Word) : serviceKey (toClassName w.text) = serviceKey w.text := by
  rw [serviceKey_eq_upper fun c hc => isAlphanum_of_mem_toClassName hc, upper_toClassName]

/-! ### Tokens -/

theorem flatten_splitOnP (P : Char → Bool) (s : Text) :
    (s.splitOnP P).flatten = s.filter fun c => !P c := by
  induction s with
  | nil => rfl
  | cons c rest ih =>
      rw [List.splitOnP_cons_eq_if_modifyHead]
      split_ifs with hc
      · rw [List.flatten_cons, ih, List.filter_cons_of_neg (by simp [hc])]
        rfl
      · obtain ⟨token, others, hsplit⟩ := List.exists_cons_of_ne_nil (List.splitOnP_ne_nil P rest)
        rw [hsplit] at ih ⊢
        rw [List.modifyHead_cons, List.flatten_cons, List.cons_append, ← List.flatten_cons, ih,
          List.filter_cons_of_pos (by simp [hc])]

theorem flatten_tokens (name : Text) : (tokens name).flatten = name.filter Char.isAlphanum := by
  rw [tokens, List.flatten_filter_ne_nil, flatten_splitOnP]
  simp

theorem upper_capitalize (token : Text) : upper (capitalize token) = upper token := by
  cases token with
  | nil => rfl
  | cons c rest =>
      show upper (c.toLower.toUpper :: lower rest) = _
      rw [upper_cons, upper_lower, Char.toUpper_toLower_eq_toUpper,
        Char.toUpper_toUpper_eq_toUpper, upper_cons]

theorem upper_flatMap_capitalize (parts : List Text) :
    upper (parts.flatMap capitalize) = upper parts.flatten := by
  induction parts with
  | nil => rfl
  | cons token rest ih =>
      rw [List.flatMap_cons, upper_append, ih, upper_capitalize, List.flatten_cons, upper_append]

/-- The tokens of a word start with a letter or a digit in upper case. -/
theorem pascal_word (w : Word) : ∃ (c : Char) (rest : Text), pascal w.text = c.toUpper :: rest ∧
    upper (pascal w.text) = serviceKey w.text := by
  have hflat := flatten_tokens w.text
  have hfirst : w.text.filter Char.isAlphanum = w.first :: w.rest.filter Char.isAlphanum :=
    List.filter_cons_of_pos w.first_alphanum
  have hjoined : upper ((tokens w.text).flatMap capitalize) = serviceKey w.text := by
    rw [upper_flatMap_capitalize, hflat, serviceKey_word]
  cases htokens : tokens w.text with
  | nil =>
      rw [htokens, hfirst] at hflat
      cases hflat
  | cons token others =>
      have hne : token ≠ [] := by
        have hmem : token ∈ tokens w.text := htokens ▸ List.mem_cons_self
        simpa [tokens] using (List.mem_filter.1 hmem).2
      obtain ⟨c, rest, rfl⟩ := List.exists_cons_of_ne_nil hne
      have hpascal : pascal w.text =
          c.toLower.toUpper :: (lower rest ++ others.flatMap capitalize) := by
        rw [pascal, htokens]
        rfl
      have hsame : pascal w.text = (tokens w.text).flatMap capitalize := by
        rw [hpascal, htokens]
        rfl
      exact ⟨c.toLower, _, hpascal, hsame ▸ hjoined⟩

theorem isAlphanum_of_upper {s t : Text} (h : upper s = upper t)
    (ht : ∀ c ∈ t, c.isAlphanum = true) : ∀ c ∈ s, c.isAlphanum = true := by
  intro c hc
  have hmem : c.toUpper ∈ upper t := h ▸ List.mem_map_of_mem hc
  obtain ⟨d, hd, hdc⟩ := List.mem_map.1 hmem
  rw [← isAlphanum_toUpper, ← hdc, isAlphanum_toUpper, ht d hd]

theorem isAlphanum_of_mem_pascal {c : Char} (hc : c ∈ pascal w.text) : c.isAlphanum = true := by
  obtain ⟨-, -, -, hupper⟩ := pascal_word w
  rw [serviceKey_word] at hupper
  exact isAlphanum_of_upper hupper (fun d hd => (List.mem_filter.1 hd).2) c hc

theorem upper_lowerFirst (s : Text) : upper (lowerFirst s) = upper s := by
  cases s with
  | nil => rfl
  | cons c rest => rw [lowerFirst, upper_cons, Char.toUpper_toLower_eq_toUpper, upper_cons]

theorem camel_eq_iff : camel a.text = camel b.text ↔ pascal a.text = pascal b.text := by
  constructor
  · intro h
    obtain ⟨c, rest, hc, -⟩ := pascal_word a
    obtain ⟨d, rest', hd, -⟩ := pascal_word b
    rw [camel, camel, hc, hd] at h
    obtain ⟨hfirst, rfl⟩ := List.cons.inj h
    have hupper := congrArg Char.toUpper hfirst
    simp only [Char.toLower_toUpper_eq_toLower, Char.toUpper_toLower_eq_toUpper] at hupper
    rw [hc, hd, hupper]
  · intro h
    rw [camel, camel, h]

theorem camel_eq_lower {s : Text} (hne : s ≠ []) (h : ∀ c ∈ s, c.isAlphanum = true) :
    camel s = lower s := by
  have htokens : tokens s = [s] := by
    rw [tokens, List.splitOnP_eq_singleton fun c hc => by simp [h c hc]]
    simp [hne]
  obtain ⟨c, rest, rfl⟩ := List.exists_cons_of_ne_nil hne
  have hpascal : pascal (c :: rest) = c.toLower.toUpper :: lower rest := by
    simp [pascal, htokens, capitalize, lower]
  rw [camel, hpascal, lowerFirst, Char.toLower_toUpper_eq_toLower, Char.toLower_toLower_eq_toLower]
  rfl

theorem camel_className_eq_iff : camel (className .cics a) = camel (className .cics b) ↔
    serviceKey a.text = serviceKey b.text := by
  have hcamel : ∀ w : Word, camel (className .cics w) = lower (className .cics w) := by
    intro w
    refine camel_eq_lower (by simp [className]) fun c hc => ?_
    rcases List.mem_append.1 hc with hc | hc
    · exact isAlphanum_of_mem_pascal hc
    · exact List.all_eq_true.1 (by decide : "Service".toList.all Char.isAlphanum = true) c hc
  have hupper : ∀ w : Word,
      upper (className .cics w) = serviceKey w.text ++ upper "Service".toList := by
    intro w
    obtain ⟨-, -, -, hw⟩ := pascal_word w
    rw [className, upper_append, hw]
  rw [hcamel, hcamel, lower_eq_iff, hupper, hupper, List.append_cancel_right_eq]

/-! ### Services -/

theorem exists_byKey (hp : p ∈ app.programs) : ∃ service,
    byKey app (serviceKey p.programId.text) = some service := by
  have hmem : (serviceKey p.programId.text, p) ∈ app.programs.flatMap fun p =>
      [(serviceKey (toClassName p.programId.text), p), (serviceKey p.programId.text, p)] :=
    List.mem_flatMap.2 ⟨p, hp, by simp⟩
  obtain ⟨entry, hentry⟩ := Kept.exists_first Prod.fst hmem
  exact ⟨entry.2, by rw [byKey, hentry, Option.map_some]⟩

theorem serviceKey_of_byKey {key : Text} (h : byKey app key = some p) :
    serviceKey p.programId.text = key := by
  obtain ⟨entry, hentry, rfl⟩ := Option.map_eq_some_iff.1 h
  have hkey := Kept.first_key hentry
  obtain ⟨service, -, hmem⟩ := List.mem_flatMap.1 (Kept.first_mem hentry)
  rcases List.mem_pair.1 hmem with rfl | rfl
  · rw [← hkey, serviceKey_toClassName]
  · exact hkey

theorem serviceKey_eq_of_bean
    (h : lowerFirst (toClassName a.text) = lowerFirst (toClassName b.text)) :
    serviceKey a.text = serviceKey b.text := by
  rw [← upper_toClassName, ← upper_toClassName, ← upper_lowerFirst, h, upper_lowerFirst]

/-! ### Methods -/

theorem underscored_word (w : Word) : underscored w.text = w.first :: underscored w.rest := by
  have hne : w.first ≠ '-' := by
    intro h
    have hfirst := w.first_alphanum
    rw [h] at hfirst
    exact absurd hfirst (by decide)
  rw [underscored, Word.text, List.map_cons, if_neg hne]
  rfl

theorem toJavaMethodName_word (w : Word) : toJavaMethodName w.text =
    if w.first.isDigit then 'p' :: underscored w.text else underscored w.text := by
  have hstrip : strip w.text = w.text := by
    refine strip_eq_self fun c hc => ?_
    have hword := w.wordChar hc
    simp only [isWordChar, Bool.or_eq_true, beq_iff_eq] at hword
    rcases hword with (h | rfl) | rfl
    · have hsep := isSeparator_of_isAlphanum h
      simp only [isSeparator, Bool.or_eq_false_iff] at hsep
      exact hsep.1.1.1.2
    · decide
    · decide
  rw [toJavaMethodName, hstrip, map_separators_word, underscored_word]
  rfl

theorem isDigit_of_isUpper {c : Char} (h : c.isUpper = true) : c.isDigit = false := by
  cases hdigit : c.isDigit
  · rfl
  · simp only [Char.isUpper, Char.isDigit, Bool.and_eq_true, decide_eq_true_eq,
      UInt32.le_iff_toNat_le, ge_iff_le] at h hdigit
    exact absurd (h.1.trans hdigit.2) (by decide)

theorem toJavaMethodName_eq_capital {c : Char} {rest : Text} (hc : c.isUpper = true) :
    toJavaMethodName w.text = c :: rest ↔ underscored w.text = c :: rest := by
  rw [toJavaMethodName_word]
  split_ifs with hdigit
  · constructor
    · intro h
      obtain ⟨rfl, -⟩ := List.cons.inj h
      exact absurd hc (by decide)
    · intro h
      rw [underscored_word] at h
      obtain ⟨rfl, -⟩ := List.cons.inj h
      rw [isDigit_of_isUpper hc] at hdigit
      cases hdigit
  · rfl

theorem toJavaMethodName_eq_mainLogic :
    toJavaMethodName w.text = mainLogic ↔ underscored w.text = mainLogic :=
  toJavaMethodName_eq_capital (c := 'M') rfl

theorem toJavaMethodName_eq_paraMainLogic :
    toJavaMethodName w.text = paraMainLogic ↔ underscored w.text = paraMainLogic :=
  toJavaMethodName_eq_capital (c := 'P') rfl

theorem ParagraphName.isUpper_of_not_isDigit (a : ParagraphName)
    (h : a.word.first.isDigit ≠ true) : a.word.first.isUpper = true := by
  have hfirst := a.first_capital
  rw [Bool.or_eq_true] at hfirst
  exact hfirst.resolve_right h

variable {x y : ParagraphName}

/-- Two paragraphs have one plain method name when they differ in hyphens and underscores only. -/
theorem toJavaMethodName_eq_iff : toJavaMethodName x.word.text = toJavaMethodName y.word.text ↔
    underscored x.word.text = underscored y.word.text := by
  -- the prefix of a digit is no capital letter
  have hlead : ∀ z : ParagraphName, z.word.first.isDigit ≠ true → 'p' ≠ z.word.first := by
    intro z hz h
    have hupper := z.isUpper_of_not_isDigit hz
    rw [← h] at hupper
    exact absurd hupper (by decide)
  rw [toJavaMethodName_word, toJavaMethodName_word]
  split_ifs with hx hy hy
  · exact ⟨fun h => (List.cons.inj h).2, fun h => congrArg _ h⟩
  · rw [underscored_word y.word, underscored_word x.word]
    constructor
    · intro h
      exact absurd (List.cons.inj h).1 (hlead y hy)
    · intro h
      rw [(List.cons.inj h).1] at hx
      exact absurd hx hy
  · rw [underscored_word y.word, underscored_word x.word]
    constructor
    · intro h
      exact absurd (List.cons.inj h).1.symm (hlead x hx)
    · intro h
      rw [← (List.cons.inj h).1] at hy
      exact absurd hy hx
  · rfl

theorem methodName_eq_iff {linkage : Bool} :
    paragraphMethodName linkage x.word.text = paragraphMethodName linkage y.word.text ↔
      ParagraphsAlike linkage x.word y.word ∨ ParagraphsAlike linkage y.word x.word := by
  have hne : mainLogic ≠ paraMainLogic := by decide
  cases linkage
  · simp only [paragraphMethodName, ParagraphsAlike, Bool.false_and, Bool.false_eq_true, if_false,
      false_and, or_false, toJavaMethodName_eq_iff]
    exact ⟨.inl, fun h => h.elim id Eq.symm⟩
  · simp only [paragraphMethodName, ParagraphsAlike, Bool.true_and, decide_eq_true_eq, true_and]
    split_ifs with hx hy hy
    · -- both are the main paragraph
      rw [toJavaMethodName_eq_mainLogic] at hx hy
      exact iff_of_true rfl (.inl (.inl (hx.trans hy.symm)))
    · rw [toJavaMethodName_eq_mainLogic] at hx hy
      rw [eq_comm, toJavaMethodName_eq_paraMainLogic]
      constructor
      · exact fun h => .inl (.inr ⟨hx, h⟩)
      · rintro ((h | ⟨-, h⟩) | h | ⟨h, -⟩)
        · exact absurd (h.symm.trans hx) hy
        · exact h
        · exact absurd (h.trans hx) hy
        · exact absurd h hy
    · rw [toJavaMethodName_eq_mainLogic] at hx hy
      rw [toJavaMethodName_eq_paraMainLogic]
      constructor
      · exact fun h => .inr (.inr ⟨hy, h⟩)
      · rintro ((h | ⟨h, -⟩) | h | ⟨-, h⟩)
        · exact absurd (h.trans hy) hx
        · exact absurd h hx
        · exact absurd (h.symm.trans hy) hx
        · exact h
    · rw [toJavaMethodName_eq_mainLogic] at hx hy
      rw [toJavaMethodName_eq_iff]
      constructor
      · exact fun h => .inl (.inl h)
      · rintro ((h | ⟨h, -⟩) | h | ⟨h, -⟩)
        · exact h
        · exact absurd h hx
        · exact h.symm
        · exact absurd h hy

/-- A method of a paragraph starts with a capital letter or the prefix of a digit, and has no dollar
sign. -/
theorem paragraphMethodName_shape (linkage : Bool) (x : ParagraphName) :
    (∃ c ∈ (paragraphMethodName linkage x.word.text).head?, c.isUpper = true ∨ c = 'p') ∧
      '$' ∉ paragraphMethodName linkage x.word.text := by
  have hdollar : '$' ∉ underscored x.word.text := by
    intro hmem
    obtain ⟨c, hc, hcd⟩ := List.mem_map.1 hmem
    split_ifs at hcd
    · cases hcd
    · rw [hcd] at hc
      exact absurd (x.word.wordChar hc) (by decide)
  rw [paragraphMethodName]
  split_ifs
  · exact ⟨⟨'P', rfl, .inl rfl⟩, by decide⟩
  · rw [toJavaMethodName_word]
    split_ifs with hdigit
    · refine ⟨⟨'p', rfl, .inr rfl⟩, ?_⟩
      rw [List.mem_cons]
      exact fun h => h.elim (by decide) hdollar
    · refine ⟨⟨x.word.first, ?_, .inl (x.isUpper_of_not_isDigit hdigit)⟩, hdollar⟩
      rw [underscored_word, List.head?_cons]
      rfl

/-- **No paragraph is an entry method.** -/
theorem methodName_not_mem_entryMethods :
    paragraphMethodName p.hasLinkage x.word.text ∉ entryMethods p := by
  obtain ⟨⟨c, hc, hcapital⟩, hdollar⟩ := paragraphMethodName_shape p.hasLinkage x
  simp only [entryMethods, List.mem_append, List.mem_singleton, not_or]
  refine ⟨⟨⟨?_, ?_⟩, ?_⟩, ?_⟩
  · intro hmain
    rw [hmain] at hc
    obtain rfl : 'm' = c := Option.some.inj hc
    exact absurd hcapital (by decide)
  · split_ifs with hlinkage
    · rw [List.mem_singleton, paragraphMethodName, hlinkage, Bool.true_and]
      split_ifs with hlogic
      · decide
      · exact fun h => hlogic (decide_eq_true h)
    · exact List.not_mem_nil
  · intro hentry
    rw [hentry] at hdollar
    exact hdollar (by decide)
  · split_ifs
    · rw [List.mem_singleton]
      intro hexit
      rw [hexit] at hdollar
      exact hdollar (by decide)
    · exact List.not_mem_nil

/-! ### The law -/

theorem separates_map {ι : Type*} {l : List ι} {name : ι → Word} {image : ι → Text} :
    Separates (l.map fun i => (name i, image i)) ↔
      ∀ i ∈ l, ∀ j ∈ l, (name i).Differs (name j) → image i ≠ image j := by
  simp only [Separates, List.forall_mem_map]

theorem separates_beanFields : Separates (beanFields .springBoot app) ↔
    ∀ p ∈ app.programs, ∀ q ∈ app.programs, p.programId.Differs q.programId →
      serviceKey p.programId.text ≠ serviceKey q.programId.text := by
  constructor
  · intro h p hp q hq hdiffers hkey
    obtain ⟨service, hservice⟩ := exists_byKey hp
    have hmem : ∀ r ∈ app.programs, byKey app (serviceKey r.programId.text) = some service →
        (r.programId, lowerFirst (toClassName service.programId.text)) ∈
          beanFields .springBoot app := by
      intro r hr hr'
      exact List.mem_filterMap.2 ⟨r, hr, by rw [hr', Option.map_some]⟩
    -- the second program finds the service of the first
    exact h _ (hmem p hp hservice) _ (hmem q hq (hkey ▸ hservice)) hdiffers rfl
  · intro h a ha b hb hdiffers hbean
    obtain ⟨p, hp, ha⟩ := List.mem_filterMap.1 ha
    obtain ⟨q, hq, hb⟩ := List.mem_filterMap.1 hb
    obtain ⟨service, hservice, rfl⟩ := Option.map_eq_some_iff.1 ha
    obtain ⟨service', hservice', rfl⟩ := Option.map_eq_some_iff.1 hb
    refine h p hp q hq hdiffers ?_
    rw [← serviceKey_of_byKey hservice, ← serviceKey_of_byKey hservice']
    exact serviceKey_eq_of_bean hbean

/-- Program ids stay distinct when no two are written alike. -/
theorem separates_ids : Separates (classNames lane app) ∧ Separates (beanFields lane app) ↔
    ∀ p ∈ app.programs, ∀ q ∈ app.programs, p.programId.Differs q.programId →
      ¬ IdsAlike lane p.programId q.programId := by
  rw [classNames, separates_map]
  cases lane with
  | springBoot =>
      rw [separates_beanFields]
      refine ⟨fun h => h.2, fun h => ⟨?_, h⟩⟩
      intro p hp q hq hdiffers hclass
      refine h p hp q hq hdiffers ?_
      have hkey := congrArg serviceKey hclass
      rwa [className, className, serviceKey_toClassName, serviceKey_toClassName] at hkey
  | plainJava =>
      have hbeans : Separates (beanFields .plainJava app) := fun a ha => nomatch ha
      simp only [hbeans, and_true, className, ne_eq, toJavaClassName_eq_iff, IdsAlike]
  | cics =>
      rw [beanFields, separates_map]
      simp only [ne_eq, camel_className_eq_iff, IdsAlike]
      refine ⟨fun h => h.2, fun h => ⟨?_, h⟩⟩
      intro p hp q hq hdiffers hclass
      refine h p hp q hq hdiffers ?_
      rw [← camel_className_eq_iff, hclass]

theorem separates_methodNames (hlane : lane ≠ .cics) : Separates (methodNames lane p) ↔
    ∀ x ∈ p.paragraphs, ∀ y ∈ p.paragraphs, x.word.Differs y.word →
      ¬ ParagraphsAlike p.hasLinkage x.word y.word := by
  have hnames : methodNames lane p = p.paragraphs.map fun paragraph =>
      (paragraph.word, paragraphMethodName p.hasLinkage paragraph.word.text) := by
    cases lane with
    | cics => exact absurd rfl hlane
    | springBoot | plainJava => rfl
  rw [hnames, separates_map]
  simp only [ne_eq, methodName_eq_iff, not_or]
  constructor
  · exact fun h x hx y hy hdiffers => (h x hx y hy hdiffers).1
  · exact fun h x hx y hy hdiffers => ⟨h x hx y hy hdiffers, h y hy x hx hdiffers.symm⟩

theorem separates_fieldNames : Separates (fieldNames lane p) ↔
    ∀ a ∈ dataNames lane p, ∀ b ∈ dataNames lane p, a.Differs b → ¬ DataAlike lane a b := by
  cases lane with
  | cics =>
      rw [fieldNames, separates_map]
      simp only [ne_eq, camel_eq_iff]
      rfl
  | springBoot | plainJava =>
      rw [fieldNames, separates_map]
      · simp only [dataNames, List.forall_mem_map, DataAlike, ne_eq]
      · rintro ⟨⟩

theorem not_mem_entries {m : Word × Text} (hm : m ∈ methodNames lane p) :
    m.2 ∉ accessors lane p ∧ m.2 ∉ entryMethods p := by
  cases lane with
  | cics => cases hm
  | springBoot | plainJava =>
      obtain ⟨x, -, rfl⟩ := List.mem_map.1 hm
      exact ⟨List.not_mem_nil, methodName_not_mem_entryMethods⟩

/-- **Distinct names stay distinct** exactly when the application is refused or no two of its names of
one kind are written alike. -/
theorem namesDistinct_iff (lane : Lane) (app : Application) :
    NamesDistinct lane app ↔ ¬ Accepted lane app ∨ NamesApart lane app := by
  have hlaw : Distinct lane app ↔ NamesApart lane app := by
    constructor
    · intro h
      refine ⟨separates_ids.1 ⟨h.classes, h.beans⟩, ?_, ?_⟩
      · exact fun hlane p hp => (separates_methodNames hlane).1 (h.methods p hp)
      · exact fun p hp => separates_fieldNames.1 (h.fields p hp)
    · intro h
      obtain ⟨hclasses, hbeans⟩ := separates_ids.2 h.ids
      refine ⟨hclasses, hbeans, ?_, ?_, ?_⟩
      · intro p hp
        by_cases hlane : lane = .cics
        · -- a CICS application has no paragraphs
          subst hlane
          exact fun a ha => nomatch ha
        · exact (separates_methodNames hlane).2 (h.paragraphs hlane p hp)
      · exact fun p hp => separates_fieldNames.2 (h.data p hp)
      · exact fun p _ m hm => not_mem_entries hm
  rw [NamesDistinct, hlaw, imp_iff_not_or]

/-! ### An underscore for a hyphen -/

/-- The data items `WS-A` and `WS_A`. -/
def hyphenAndUnderscore : Program where
  programId := ⟨'P', [], by decide, by decide⟩
  paragraphs := []
  fileRecordItems := []
  workingStorage :=
    [⟨⟨'W', "S-A".toList, by decide, by decide⟩, true⟩,
      ⟨⟨'W', "S_A".toList, by decide, by decide⟩, true⟩]
  linkageSection := []
  hostVariables := []

/-- The two items have one field. -/
theorem underscore_merges_fields :
    javaFields hyphenAndUnderscore = ["WS_A".toList] ∧
      ¬ ∀ lane app, NamesDistinct lane app := by
  refine ⟨by decide, fun h => ?_⟩
  have hdistinct := h .springBoot ⟨[hyphenAndUnderscore], []⟩ (List.nodup_singleton _)
  have hfields := hdistinct.fields _ (List.mem_singleton_self _)
  refine hfields _ List.mem_cons_self _ (List.mem_cons_of_mem _ List.mem_cons_self) ?_ rfl
  unfold Word.Differs
  decide

end CobolJava.Names
