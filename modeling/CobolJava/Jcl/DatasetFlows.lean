/-
**Dataset edges.**

The producers and consumers of the datasets of a job, as `JclSemanticBuilder._build_job` collects
them, and the edges `JclSpringBatchMapper._build_dataset_edges` makes of them, against the order of
the steps.

Main definitions:

* `resourceUse` — what a `DD` statement does with its dataset;
* `flowTables`, `datasetFlows` — the producer and the consumers of every dataset;
* `buildDatasetEdges` — the edges;
* `DatasetEdgesExact` — the edges follow the order of the steps;
* `FlowExact` — when they do for one dataset.

Main results:

* `mem_buildDatasetEdges` — the edges that are made;
* `datasetEdgesExact_iff` — **when the edges follow the order of the steps**;
* `reported_iff_expected_iff` — for steps with names of their own.
-/

import CobolJava.Jcl.Parser
import CobolJava.Lib.PyCase
import CobolJava.Lib.PyText
import CobolJava.Lib.ReachingWriter

set_option autoImplicit false

namespace CobolJava.Jcl

open Py.Chars

/-! ### Datasets of a step -/

inductive JclDisposition
  | shr
  | old
  | new
  | mod
  | unspecified
  deriving DecidableEq, Repr

inductive JclDatasetUse
  | input
  | output
  | unspecified
  deriving DecidableEq, Repr

/-- `_normalize_disposition` -/
def normalizeDisposition (disposition : Text) : JclDisposition :=
  let raw := upper (strip disposition)
  let first := (raw.dropWhile (· = '(')).takeWhile (· ≠ ',')
  if raw = [] then .unspecified
  else if first = "SHR".toList then .shr
  else if first = "OLD".toList then .old
  else if first = "NEW".toList then .new
  else if first = "MOD".toList then .mod
  else .unspecified

/-- `_dataset_use` -/
def datasetUse : JclDisposition → JclDatasetUse
  | .new | .mod => .output
  | .old | .shr => .input
  | .unspecified => .unspecified

/-- The `dataset_use` of `_build_resource`. -/
def resourceUse (dd : JclDD) : JclDatasetUse :=
  if dd.sysout ≠ [] then .unspecified
  else if dd.isInline then .input
  else if dd.isTemporary || startswith dd.dataset "&&".toList then
    if dd.disposition ≠ [] then datasetUse (normalizeDisposition dd.disposition) else .output
  else if dd.dataset ≠ [] then datasetUse (normalizeDisposition dd.disposition)
  else .unspecified

/-! ### Flows -/

/-- `producers` and `consumers` of `_build_job`, by their entries in the order in which they are
made. -/
structure FlowTables where
  producers : List (Text × Text)
  consumers : List (Text × Text)

/-- The body of the loop over the resources of a step. -/
def addResource (stepName : Text) (tables : FlowTables) (dd : JclDD) : FlowTables :=
  if dd.dataset = [] then tables
  else
    match resourceUse dd with
    | .output => { tables with producers := tables.producers ++ [(dd.dataset, stepName)] }
    | .input => { tables with consumers := tables.consumers ++ [(dd.dataset, stepName)] }
    | .unspecified => tables

def flowTables (job : JclJob) : FlowTables :=
  job.steps.foldl (fun tables step => step.ddStatements.foldl (addResource step.name) tables)
    ⟨[], []⟩

structure JclDatasetFlow where
  dataset : Text
  producer : Text
  consumers : List Text

/-- `sorted(set(…))` -/
def sortedSet (texts : List Text) : List Text :=
  texts.dedup.mergeSort (fun a b => decide (a ≤ b))

/-- The `dataset_flows` of `_build_job`. -/
def datasetFlows (job : JclJob) : List JclDatasetFlow :=
  let tables := flowTables job
  (sortedSet (tables.producers.map Prod.fst ++ tables.consumers.map Prod.fst)).map fun dataset =>
    { dataset
      producer := ((Py.lastBy Prod.fst tables.producers dataset).map Prod.snd).getD []
      consumers := sortedSet
        ((tables.consumers.filter fun entry => entry.1 = dataset).map Prod.snd) }

/-! ### Edges -/

/-- `_camel_bean` -/
def camelBean (name : Text) : Text :=
  ((name.splitOnP fun c => !c.isAlphanum).filter (· ≠ [])).flatMap fun part =>
    upper (part.take 1) ++ lower (part.drop 1)

structure SpringBatchDatasetEdge where
  job : Text
  dataset : Text
  producer : Text
  consumer : Text
  deriving DecidableEq, Repr

def flowEdges (job : Text) (flow : JclDatasetFlow) : List SpringBatchDatasetEdge :=
  if flow.producer ≠ [] then
    (if flow.consumers = [] then [[]] else flow.consumers).map fun consumer =>
      ⟨job, flow.dataset, camelBean flow.producer, if consumer ≠ [] then camelBean consumer else []⟩
  else flow.consumers.map fun consumer => ⟨job, flow.dataset, [], camelBean consumer⟩

/-- `_build_dataset_edges` of the model that is built for some jobs. -/
def buildDatasetEdges (jobs : List JclJob) : List SpringBatchDatasetEdge :=
  jobs.flatMap fun job => (datasetFlows job).flatMap (flowEdges job.name)

/-! ### The order of the steps -/

/-- A step uses a dataset in one of its `DD` statements. -/
def JclStep.Uses (dataset : Text) (use : JclDatasetUse) (step : JclStep) : Prop :=
  ∃ dd ∈ step.ddStatements, dd.dataset = dataset ∧ resourceUse dd = use

instance (dataset : Text) (use : JclDatasetUse) : DecidablePred (JclStep.Uses dataset use) :=
  fun step => inferInstanceAs (Decidable (∃ dd ∈ step.ddStatements, _))

abbrev JclStep.Writes (dataset : Text) : JclStep → Prop := JclStep.Uses dataset .output

abbrev JclStep.Reads (dataset : Text) : JclStep → Prop := JclStep.Uses dataset .input

/-- What the order of the steps says of a dataset: a step reads what the last step before it that
writes has written, or what comes from outside, and what a step writes may never be read. -/
def Expected (job : JclJob) (dataset producer consumer : Text) : Prop :=
  (∃ w r, ReachingWriter.Feeds (JclStep.Writes dataset) (JclStep.Reads dataset) job.steps w r ∧
      producer = camelBean w.name ∧ consumer = camelBean r.name) ∨
    (∃ r, ReachingWriter.Fresh (JclStep.Writes dataset) (JclStep.Reads dataset) job.steps r ∧
      producer = [] ∧ consumer = camelBean r.name) ∨
    ∃ w, ReachingWriter.Unread (JclStep.Writes dataset) (JclStep.Reads dataset) job.steps w ∧
      producer = camelBean w.name ∧ consumer = []

/-- **The edges follow the order of the steps.** -/
def DatasetEdgesExact (job : JclJob) : Prop :=
  ∀ edge, edge ∈ buildDatasetEdges [job] ↔
    edge.job = job.name ∧ edge.dataset ≠ [] ∧ Expected job edge.dataset edge.producer edge.consumer

/-- The bean of the step that last wrote a dataset, empty when none did. -/
def producerBean (steps : List JclStep) (dataset : Text) : Text :=
  ((ReachingWriter.lastWriter (JclStep.Writes dataset) steps).map fun w => camelBean w.name).getD []

/-- **When the edges of a dataset follow the order of the steps.** -/
structure FlowExact (job : JclJob) (dataset : Text) : Prop where
  /-- What a step reads was last written, before it, under the name of the last step of the whole job
  that writes. -/
  reads_last : ∀ before r behind, job.steps = before ++ r :: behind → r.Reads dataset →
    producerBean before dataset = producerBean job.steps dataset
  /-- What is never read was written under that name, and nothing is read at all; unless a step that
  reads has an empty bean name. -/
  unread_last : ∀ w, ReachingWriter.Unread (JclStep.Writes dataset) (JclStep.Reads dataset)
      job.steps w → camelBean w.name = producerBean job.steps dataset ∧
    ((∃ r ∈ job.steps, r.Reads dataset ∧ camelBean r.name = []) ∨
      (∀ r ∈ job.steps, ¬r.Reads dataset) ∧
        ∀ m ∈ ReachingWriter.lastWriter (JclStep.Writes dataset) job.steps, m.name ≠ [])

/-! ### The tables -/

section Tables

variable {job : JclJob} {dataset : Text}

theorem mem_sortedSet {texts : List Text} {t : Text} : t ∈ sortedSet texts ↔ t ∈ texts := by
  rw [sortedSet, List.mem_mergeSort, List.mem_dedup]

/-- The entries a step makes for one kind of use. -/
def JclStep.entries (use : JclDatasetUse) (step : JclStep) : List (Text × Text) :=
  (step.ddStatements.filter fun dd => dd.dataset ≠ [] ∧ resourceUse dd = use).map fun dd =>
    (dd.dataset, step.name)

theorem foldl_addResource (step : JclStep) (tables : FlowTables) :
    step.ddStatements.foldl (addResource step.name) tables =
      ⟨tables.producers ++ step.entries .output, tables.consumers ++ step.entries .input⟩ := by
  unfold JclStep.entries
  induction step.ddStatements generalizing tables with
  | nil => simp
  | cons dd dds ih =>
      rw [List.foldl_cons, ih, addResource]
      by_cases hdataset : dd.dataset = []
      · simp [hdataset]
      · rw [if_neg hdataset]
        cases huse : resourceUse dd with
        | input => simp [hdataset, huse]
        | output => simp [hdataset, huse]
        | unspecified => simp [huse]

/-- **The tables** hold the entries of the steps in their order. -/
theorem flowTables_eq (job : JclJob) :
    flowTables job =
      ⟨job.steps.flatMap (JclStep.entries .output), job.steps.flatMap (JclStep.entries .input)⟩ := by
  have hloop : ∀ (steps : List JclStep) (tables : FlowTables),
      steps.foldl (fun tables step => step.ddStatements.foldl (addResource step.name) tables)
        tables = ⟨tables.producers ++ steps.flatMap (JclStep.entries .output),
          tables.consumers ++ steps.flatMap (JclStep.entries .input)⟩ := by
    intro steps
    induction steps with
    | nil => simp
    | cons step steps ih =>
        intro tables
        rw [List.foldl_cons, ih, foldl_addResource]
        simp
  rw [flowTables, hloop]
  simp

theorem mem_entries {use : JclDatasetUse} {step : JclStep} {entry : Text × Text} :
    entry ∈ step.entries use ↔ entry.1 ≠ [] ∧ step.Uses entry.1 use ∧ entry.2 = step.name := by
  simp only [JclStep.entries, List.mem_map, List.mem_filter, decide_eq_true_eq, JclStep.Uses]
  constructor
  · rintro ⟨dd, ⟨hdd, hne, huse⟩, rfl⟩
    exact ⟨hne, ⟨dd, hdd, rfl, huse⟩, rfl⟩
  · rintro ⟨hne, ⟨dd, hdd, hdataset, huse⟩, hname⟩
    exact ⟨dd, ⟨hdd, hdataset ▸ hne, huse⟩, Prod.ext hdataset hname.symm⟩

theorem lastBy_entries {step : JclStep} (hne : dataset ≠ []) :
    (Py.lastBy Prod.fst (step.entries .output) dataset).map Prod.snd =
      if step.Writes dataset then some step.name else none := by
  by_cases hwrites : step.Writes dataset
  · have hmem : (dataset, step.name) ∈ step.entries .output := mem_entries.2 ⟨hne, hwrites, rfl⟩
    obtain ⟨entry, hentry⟩ := Py.lastBy_isSome Prod.fst hmem
    rw [if_pos hwrites, hentry, Option.map_some, (mem_entries.1 (Py.lastBy_mem hentry)).2.2]
  · rw [if_neg hwrites, Option.map_eq_none_iff, Option.eq_none_iff_forall_ne_some]
    intro entry hentry
    obtain ⟨-, huses, -⟩ := mem_entries.1 (Py.lastBy_mem hentry)
    rw [Py.lastBy_key Prod.fst hentry] at huses
    exact hwrites huses

/-- **The producer of a dataset** is the last step of the job that writes it. -/
theorem producer_eq (hne : dataset ≠ []) :
    (Py.lastBy Prod.fst (flowTables job).producers dataset).map Prod.snd =
      (ReachingWriter.lastWriter (JclStep.Writes dataset) job.steps).map JclStep.name := by
  rw [flowTables_eq]
  dsimp only
  induction job.steps using List.reverseRecOn with
  | nil => rfl
  | append_singleton steps step ih =>
      have hlast : ReachingWriter.lastWriter (JclStep.Writes dataset) [step] =
          if step.Writes dataset then some step else none := by
        by_cases hwrites : step.Writes dataset
        · simp [ReachingWriter.lastWriter, hwrites]
        · simp [ReachingWriter.lastWriter, hwrites]
      rw [List.flatMap_append, Py.lastBy_append, ReachingWriter.lastWriter_append, Option.map_or,
        Option.map_or, ih, hlast, List.flatMap_singleton, lastBy_entries hne]
      split_ifs
      · rfl
      · rfl

/-- **The consumers of a dataset** are the steps that read it. -/
theorem mem_consumers (hne : dataset ≠ []) {name : Text} :
    name ∈ sortedSet (((flowTables job).consumers.filter fun entry => entry.1 = dataset).map
        Prod.snd) ↔ ∃ r ∈ job.steps, r.Reads dataset ∧ name = r.name := by
  rw [mem_sortedSet, flowTables_eq]
  simp only [List.mem_map, List.mem_filter, List.mem_flatMap, mem_entries, decide_eq_true_eq]
  constructor
  · rintro ⟨entry, ⟨⟨r, hr, -, huses, hname⟩, rfl⟩, rfl⟩
    exact ⟨r, hr, huses, hname⟩
  · rintro ⟨r, hr, huses, rfl⟩
    exact ⟨(dataset, r.name), ⟨⟨r, hr, hne, huses, rfl⟩, rfl⟩, rfl⟩

theorem mem_allDatasets : dataset ∈ sortedSet
      ((flowTables job).producers.map Prod.fst ++ (flowTables job).consumers.map Prod.fst) ↔
    dataset ≠ [] ∧ ∃ s ∈ job.steps, s.Writes dataset ∨ s.Reads dataset := by
  rw [mem_sortedSet, flowTables_eq]
  simp only [List.mem_append, List.mem_map, List.mem_flatMap, mem_entries]
  constructor
  · rintro (⟨entry, ⟨s, hs, hne, huses, -⟩, rfl⟩ | ⟨entry, ⟨s, hs, hne, huses, -⟩, rfl⟩)
    · exact ⟨hne, s, hs, .inl huses⟩
    · exact ⟨hne, s, hs, .inr huses⟩
  · rintro ⟨hne, s, hs, huses | huses⟩
    · exact .inl ⟨(dataset, s.name), ⟨s, hs, hne, huses, rfl⟩, rfl⟩
    · exact .inr ⟨(dataset, s.name), ⟨s, hs, hne, huses, rfl⟩, rfl⟩

/-! ### The edges that are made -/

/-- The edges of a dataset: the last step of the job that writes it with every step that reads it,
or alone when none does. -/
def Reported (job : JclJob) (dataset producer consumer : Text) : Prop :=
  producer = producerBean job.steps dataset ∧
    ((∃ r ∈ job.steps, r.Reads dataset ∧ consumer = camelBean r.name) ∨
      ((∀ r ∈ job.steps, ¬r.Reads dataset) ∧
        (∃ m ∈ ReachingWriter.lastWriter (JclStep.Writes dataset) job.steps, m.name ≠ []) ∧
          consumer = []))

@[simp] theorem camelBean_nil : camelBean [] = [] := rfl

theorem mem_flowEdges {job : Text} {flow : JclDatasetFlow} {edge : SpringBatchDatasetEdge} :
    edge ∈ flowEdges job flow ↔ edge.job = job ∧ edge.dataset = flow.dataset ∧
      edge.producer = camelBean flow.producer ∧
        ((∃ name ∈ flow.consumers, edge.consumer = camelBean name) ∨
          (flow.consumers = [] ∧ flow.producer ≠ [] ∧ edge.consumer = [])) := by
  have hname : ∀ name : Text, (if name ≠ [] then camelBean name else []) = camelBean name := by
    intro name
    by_cases hnil : name = []
    · simp [hnil]
    · rw [if_pos hnil]
  unfold flowEdges
  simp only [hname]
  by_cases hproducer : flow.producer = []
  · rw [if_neg (not_not.2 hproducer), hproducer, camelBean_nil]
    simp only [List.mem_map, ne_eq, not_true_eq_false, false_and, and_false, or_false]
    constructor
    · rintro ⟨name, hmem, rfl⟩
      exact ⟨rfl, rfl, rfl, name, hmem, rfl⟩
    · rintro ⟨hjob, hdataset, hproducer', name, hmem, hconsumer⟩
      obtain ⟨job', dataset', producer', consumer'⟩ := edge
      subst hjob hdataset hproducer' hconsumer
      exact ⟨name, hmem, rfl⟩
  · rw [if_pos hproducer]
    obtain ⟨job', dataset', producer', consumer'⟩ := edge
    by_cases hconsumers : flow.consumers = []
    · rw [if_pos hconsumers, hconsumers]
      simp only [List.map_cons, List.map_nil, List.mem_singleton, camelBean_nil,
        SpringBatchDatasetEdge.mk.injEq, List.not_mem_nil, false_and, exists_false, false_or,
        true_and, ne_eq, hproducer, not_false_eq_true]
    · rw [if_neg hconsumers]
      simp only [List.mem_map, SpringBatchDatasetEdge.mk.injEq, hconsumers, false_and, or_false]
      constructor
      · rintro ⟨name, hmem, rfl, rfl, rfl, rfl⟩
        exact ⟨rfl, rfl, rfl, name, hmem, rfl⟩
      · rintro ⟨rfl, rfl, rfl, name, hmem, rfl⟩
        exact ⟨name, hmem, rfl, rfl, rfl, rfl⟩

/-- **The edges that are made.** -/
theorem mem_buildDatasetEdges {edge : SpringBatchDatasetEdge} :
    edge ∈ buildDatasetEdges [job] ↔
      edge.job = job.name ∧ edge.dataset ≠ [] ∧
        Reported job edge.dataset edge.producer edge.consumer := by
  simp only [buildDatasetEdges, List.flatMap_singleton, List.mem_flatMap, datasetFlows,
    List.mem_map, mem_allDatasets]
  have hbean : ∀ d, d ≠ [] → camelBean
      (((Py.lastBy Prod.fst (flowTables job).producers d).map Prod.snd).getD []) =
        producerBean job.steps d := by
    intro d hne
    rw [producer_eq hne, producerBean]
    cases ReachingWriter.lastWriter (JclStep.Writes d) job.steps with
    | none => rfl
    | some m => rfl
  have hnone : ∀ d, d ≠ [] → (sortedSet (((flowTables job).consumers.filter fun entry =>
      entry.1 = d).map Prod.snd) = [] ↔ ∀ r ∈ job.steps, ¬r.Reads d) := by
    intro d hne
    rw [List.eq_nil_iff_forall_not_mem]
    simp only [mem_consumers hne]
    constructor
    · exact fun hno r hr hreads => hno r.name ⟨r, hr, hreads, rfl⟩
    · rintro hno name ⟨r, hr, hreads, -⟩
      exact hno r hr hreads
  have hnamed : ∀ d, d ≠ [] → (((Py.lastBy Prod.fst (flowTables job).producers d).map
      Prod.snd).getD [] ≠ [] ↔
        ∃ m ∈ ReachingWriter.lastWriter (JclStep.Writes d) job.steps, m.name ≠ []) := by
    intro d hne
    rw [producer_eq hne]
    cases ReachingWriter.lastWriter (JclStep.Writes d) job.steps with
    | none => simp
    | some m => simp
  constructor
  · rintro ⟨-, ⟨d, ⟨hne, -⟩, rfl⟩, hedge⟩
    obtain ⟨hjob, rfl, hproducer, hconsumer⟩ := mem_flowEdges.1 hedge
    refine ⟨hjob, hne, hproducer.trans (hbean _ hne), ?_⟩
    rcases hconsumer with ⟨name, hmem, hconsumer⟩ | ⟨hno, hproducer', hconsumer⟩
    · obtain ⟨r, hr, hreads, rfl⟩ := (mem_consumers hne).1 hmem
      exact .inl ⟨r, hr, hreads, hconsumer⟩
    · exact .inr ⟨(hnone _ hne).1 hno, (hnamed _ hne).1 hproducer', hconsumer⟩
  · rintro ⟨hjob, hne, hproducer, hconsumer⟩
    refine ⟨_, ⟨edge.dataset, ⟨hne, ?_⟩, rfl⟩, mem_flowEdges.2 ⟨hjob, rfl,
      hproducer.trans (hbean _ hne).symm, ?_⟩⟩
    · rcases hconsumer with ⟨r, hr, hreads, -⟩ | ⟨-, ⟨m, hm, -⟩, -⟩
      · exact ⟨r, hr, .inr hreads⟩
      · obtain ⟨before, behind, hsplit, hwrites, -⟩ := ReachingWriter.lastWriter_eq_some_iff.1 hm
        exact ⟨m, by rw [hsplit]; simp, .inl hwrites⟩
    · rcases hconsumer with ⟨r, hr, hreads, hconsumer⟩ | ⟨hno, hm, hconsumer⟩
      · exact .inl ⟨r.name, (mem_consumers hne).2 ⟨r, hr, hreads, rfl⟩, hconsumer⟩
      · exact .inr ⟨(hnone _ hne).2 hno, (hnamed _ hne).2 hm, hconsumer⟩

/-! ### The condition -/

/-- The edges of one dataset. -/
theorem expected_iff_reported_iff (job : JclJob) (dataset : Text) :
    (∀ producer consumer, Reported job dataset producer consumer ↔
      Expected job dataset producer consumer) ↔ FlowExact job dataset := by
  constructor
  · intro h
    refine ⟨fun before r behind hsplit hreads => ?_, fun w hunread => ?_⟩
    · have hmem : r ∈ job.steps := by
        rw [hsplit]
        simp
      have hexpected : Expected job dataset (producerBean before dataset) (camelBean r.name) := by
        cases hlast : ReachingWriter.lastWriter (JclStep.Writes dataset) before with
        | none =>
            exact .inr (.inl ⟨r, ReachingWriter.fresh_iff.2 ⟨before, behind, hsplit, hreads, hlast⟩,
              by rw [producerBean, hlast]; rfl, rfl⟩)
        | some w =>
            exact .inl ⟨w, r, ReachingWriter.feeds_iff.2 ⟨before, behind, hsplit, hreads, hlast⟩,
              by rw [producerBean, hlast]; rfl, rfl⟩
      exact ((h _ _).2 hexpected).1
    · obtain ⟨hproducer, hconsumer⟩ := (h _ _).2 (.inr (.inr ⟨w, hunread, rfl, rfl⟩))
      refine ⟨hproducer, ?_⟩
      rcases hconsumer with ⟨r, hr, hreads, hempty⟩ | ⟨hno, ⟨m, hm, hname⟩, -⟩
      · exact .inl ⟨r, hr, hreads, hempty.symm⟩
      · refine .inr ⟨hno, fun m' hm' => ?_⟩
        rwa [Option.mem_unique hm' hm]
  · intro h producer consumer
    constructor
    · rintro ⟨rfl, ⟨r, hr, hreads, rfl⟩ | ⟨hno, ⟨m, hm, hname⟩, rfl⟩⟩
      · obtain ⟨before, behind, hsplit⟩ := List.append_of_mem hr
        rw [← h.reads_last before r behind hsplit hreads]
        cases hlast : ReachingWriter.lastWriter (JclStep.Writes dataset) before with
        | none =>
            exact .inr (.inl ⟨r, ReachingWriter.fresh_iff.2 ⟨before, behind, hsplit, hreads, hlast⟩,
              by rw [producerBean, hlast]; rfl, rfl⟩)
        | some w =>
            exact .inl ⟨w, r, ReachingWriter.feeds_iff.2 ⟨before, behind, hsplit, hreads, hlast⟩,
              by rw [producerBean, hlast]; rfl, rfl⟩
      · have hm' : ReachingWriter.lastWriter (JclStep.Writes dataset) job.steps = some m := hm
        refine .inr (.inr ⟨m, ReachingWriter.unread_of_lastWriter hm' hno, ?_, rfl⟩)
        rw [producerBean, hm']
        rfl
    · rintro (⟨w, r, hfeeds, rfl, rfl⟩ | ⟨r, hfresh, rfl, rfl⟩ | ⟨w, hunread, rfl, rfl⟩)
      · obtain ⟨before, behind, hsplit, hreads, hlast⟩ := ReachingWriter.feeds_iff.1 hfeeds
        refine ⟨?_, .inl ⟨r, by rw [hsplit]; simp, hreads, rfl⟩⟩
        rw [← h.reads_last before r behind hsplit hreads, producerBean, hlast]
        rfl
      · obtain ⟨before, behind, hsplit, hreads, hlast⟩ := ReachingWriter.fresh_iff.1 hfresh
        refine ⟨?_, .inl ⟨r, by rw [hsplit]; simp, hreads, rfl⟩⟩
        rw [← h.reads_last before r behind hsplit hreads, producerBean, hlast]
        rfl
      · obtain ⟨hproducer, hconsumer⟩ := h.unread_last w hunread
        refine ⟨hproducer, ?_⟩
        rcases hconsumer with ⟨r, hr, hreads, hempty⟩ | ⟨hno, hname⟩
        · exact .inl ⟨r, hr, hreads, hempty.symm⟩
        · obtain ⟨before, behind, hsplit, hwrites, -⟩ := hunread
          have hsome : ReachingWriter.lastWriter (JclStep.Writes dataset) job.steps ≠ none := by
            rw [Ne, ReachingWriter.lastWriter_eq_none_iff]
            intro hnone
            exact hnone w (by rw [hsplit]; simp) hwrites
          obtain ⟨m, hm⟩ := Option.ne_none_iff_exists'.1 hsome
          exact .inr ⟨hno, ⟨m, hm, hname m hm⟩, rfl⟩

/-- **When the edges follow the order of the steps**: they do for every dataset. -/
theorem datasetEdgesExact_iff (job : JclJob) :
    DatasetEdgesExact job ↔ ∀ dataset, dataset ≠ [] → FlowExact job dataset := by
  simp only [← expected_iff_reported_iff, DatasetEdgesExact, mem_buildDatasetEdges]
  constructor
  · intro h dataset hne producer consumer
    have hedge := h ⟨job.name, dataset, producer, consumer⟩
    simpa [hne] using hedge
  · intro h edge
    refine and_congr_right fun _ => and_congr_right fun hne => h edge.dataset hne _ _

theorem bean_ne {before behind : List JclStep}
    (hnodup : ((before ++ behind).map fun s => camelBean s.name).Nodup) {s t : JclStep}
    (hs : s ∈ before) (ht : t ∈ behind) : camelBean s.name ≠ camelBean t.name := by
  rw [List.map_append, List.nodup_append] at hnodup
  exact hnodup.2.2 _ (List.mem_map_of_mem hs) _ (List.mem_map_of_mem ht)

theorem producerBean_append (before : List JclStep) {behind : List JclStep} {s : JclStep} (hs : s ∈ behind)
    (hwrites : s.Writes dataset) :
    ∃ m ∈ behind, producerBean (before ++ behind) dataset = camelBean m.name := by
  have hsome : ReachingWriter.lastWriter (JclStep.Writes dataset) behind ≠ none := by
    rw [Ne, ReachingWriter.lastWriter_eq_none_iff]
    exact fun hnone => hnone s hs hwrites
  obtain ⟨m, hm⟩ := Option.ne_none_iff_exists'.1 hsome
  obtain ⟨front, back, hsplit, -⟩ := ReachingWriter.lastWriter_eq_some_iff.1 hm
  refine ⟨m, by rw [hsplit]; simp, ?_⟩
  rw [producerBean, ReachingWriter.lastWriter_append, hm]
  rfl

/-- **For steps with bean names of their own**, the edges of a dataset follow the order of the steps
exactly when at most one step writes the dataset, and none reads it before or in that step. -/
theorem reported_iff_expected_iff (hnodup : (job.steps.map fun s => camelBean s.name).Nodup)
    (hnamed : ∀ s ∈ job.steps, camelBean s.name ≠ []) :
    (∀ producer consumer, Reported job dataset producer consumer ↔
      Expected job dataset producer consumer) ↔
      ∀ before w behind, job.steps = before ++ w :: behind → w.Writes dataset →
        (∀ s ∈ behind, ¬s.Writes dataset) ∧ ∀ r ∈ before ++ [w], ¬r.Reads dataset := by
  rw [expected_iff_reported_iff]
  constructor
  · intro h before w behind hsplit hw
    constructor
    · intro s hs hwrites
      -- the step that writes last is behind `w`, so that it has another bean
      have hsplit' : job.steps = (before ++ [w]) ++ behind := by simp [hsplit]
      obtain ⟨m, hm, hlast⟩ := producerBean_append (before ++ [w]) hs hwrites
      rw [← hsplit'] at hlast
      have hother : camelBean w.name ≠ camelBean m.name :=
        bean_ne (hsplit' ▸ hnodup) (List.mem_append_right _ (List.mem_singleton_self w)) hm
      by_cases hunread : ∀ between r rest, behind = between ++ r :: rest →
          (∀ s ∈ between, ¬s.Writes dataset) → ¬r.Reads dataset
      · exact hother ((h.unread_last w ⟨before, behind, hsplit, hw, hunread⟩).1.trans hlast)
      · push Not at hunread
        obtain ⟨between, r, rest, rfl, hbetween, hreads⟩ := hunread
        have hproducer := h.reads_last (before ++ w :: between) r rest (by simp [hsplit]) hreads
        have hw' : ReachingWriter.lastWriter (JclStep.Writes dataset) (before ++ w :: between) =
            some w := ReachingWriter.lastWriter_eq_some_iff.2 ⟨before, between, rfl, hw, hbetween⟩
        rw [hlast, producerBean, hw'] at hproducer
        exact hother hproducer
    · intro r hr hreads
      -- `w` writes behind the place of `r`, so that another step wrote what `r` reads
      obtain ⟨front, back, hfront⟩ := List.append_of_mem hr
      have hsplit' : job.steps = front ++ (r :: back ++ behind) := by
        have hall : before ++ w :: behind = before ++ [w] ++ behind := by simp
        rw [hsplit, hall, hfront]
        simp
      have hw' : w ∈ r :: back ++ behind := by
        have hlast : (front ++ r :: back).getLast? = some w := by
          rw [← hfront, List.getLast?_concat]
        rw [List.getLast?_append_of_ne_nil _ (List.cons_ne_nil _ _)] at hlast
        exact List.mem_append_left _ (List.mem_of_getLast? hlast)
      obtain ⟨m, hm, hlast⟩ := producerBean_append front hw' hw
      rw [← hsplit'] at hlast
      have hproducer := h.reads_last front r (back ++ behind) (by simpa using hsplit') hreads
      rw [hlast, producerBean] at hproducer
      cases hbefore : ReachingWriter.lastWriter (JclStep.Writes dataset) front with
      | none =>
          rw [hbefore] at hproducer
          refine hnamed m ?_ hproducer.symm
          rw [hsplit']
          exact List.mem_append_right _ hm
      | some w' =>
          rw [hbefore] at hproducer
          obtain ⟨u, v, rfl, -⟩ := ReachingWriter.lastWriter_eq_some_iff.1 hbefore
          exact bean_ne (hsplit' ▸ hnodup) (by simp) hm hproducer
  · intro h
    have hlast : ∀ before w behind, job.steps = before ++ w :: behind → w.Writes dataset →
        producerBean job.steps dataset = camelBean w.name := by
      intro before w behind hsplit hw
      have hlast : ReachingWriter.lastWriter (JclStep.Writes dataset) job.steps = some w :=
        ReachingWriter.lastWriter_eq_some_iff.2
          ⟨before, behind, hsplit, hw, (h before w behind hsplit hw).1⟩
      rw [producerBean, hlast]
      rfl
    refine ⟨fun before r behind hsplit hreads => ?_, fun w hunread => ?_⟩
    · cases hbefore : ReachingWriter.lastWriter (JclStep.Writes dataset) before with
      | some w =>
          obtain ⟨front, back, rfl, hw, -⟩ := ReachingWriter.lastWriter_eq_some_iff.1 hbefore
          rw [hlast front w (back ++ r :: behind) (by simp [hsplit]) hw, producerBean, hbefore]
          rfl
      | none =>
          have hnone : ReachingWriter.lastWriter (JclStep.Writes dataset) job.steps = none := by
            rw [ReachingWriter.lastWriter_eq_none_iff] at hbefore ⊢
            intro w hmem hw
            rw [hsplit] at hmem
            rcases List.mem_append.1 hmem with hmem | hmem
            · exact hbefore w hmem hw
            · obtain ⟨front, back, hback⟩ := List.append_of_mem hmem
              refine (h (before ++ front) w back ?_ hw).2 r ?_ hreads
              · rw [hsplit, hback, List.append_assoc]
              · cases front with
                | nil => simp [(List.cons.inj hback).1]
                | cons s front => simp [(List.cons.inj hback).1]
          rw [producerBean, producerBean, hbefore, hnone]
    · obtain ⟨before, behind, hsplit, hw, hno⟩ := hunread
      obtain ⟨hbehind, hbefore⟩ := h before w behind hsplit hw
      refine ⟨(hlast before w behind hsplit hw).symm, .inr ⟨fun r hr hreads => ?_, fun m hm => ?_⟩⟩
      · have hmem : r ∈ (before ++ [w]) ++ behind := by simpa [hsplit] using hr
        rcases List.mem_append.1 hmem with hmem | hmem
        · exact hbefore r hmem hreads
        · obtain ⟨front, back, rfl⟩ := List.append_of_mem hmem
          exact hno front r back rfl (fun s hs => hbehind s (by simp [hs])) hreads
      · obtain ⟨front, back, hm', -⟩ := ReachingWriter.lastWriter_eq_some_iff.1 hm
        have hnamed' := hnamed m (by rw [hm']; simp)
        rintro hname
        rw [hname] at hnamed'
        exact hnamed' rfl

end Tables

/-! ### A job that writes a dataset twice -/

/-- A step with one `DD` statement. -/
def oneStep (name dataset disposition : String) : JclStep :=
  ⟨0, name.toList, some ⟨"MAIN".toList, [], []⟩,
    [⟨0, "FILE".toList, dataset.toList, disposition.toList, [], [], [], [], [], false, false⟩], none⟩

/-- `STEP1` and `STEP3` write a dataset that `STEP2` and `STEP4` read. -/
def rewriting : JclJob :=
  ⟨none, "REWRITE".toList, [], [oneStep "STEP1" "PAY.WORK" "NEW", oneStep "STEP2" "PAY.WORK" "OLD",
    oneStep "STEP3" "PAY.WORK" "MOD", oneStep "STEP4" "PAY.WORK" "SHR"], [], []⟩

/-- The bean names of its steps differ, and `STEP3` writes behind `STEP1`. -/
theorem reported_iff_expected_iff_rewriting :
    ¬∀ producer consumer, Reported rewriting "PAY.WORK".toList producer consumer ↔
      Expected rewriting "PAY.WORK".toList producer consumer := by
  rw [reported_iff_expected_iff (by decide +kernel) (by decide +kernel)]
  intro h
  exact (h [] _ _ rfl (by decide +kernel)).1 (oneStep "STEP3" "PAY.WORK" "MOD") (by simp)
    (by decide +kernel)

/-- `STEP2` reads what `STEP1` has written, and no edge says so. -/
theorem rewriting_not_exact : ¬DatasetEdgesExact rewriting := by
  intro hexact
  have hwrites : (oneStep "STEP1" "PAY.WORK" "NEW").Writes "PAY.WORK".toList := by decide +kernel
  have hreads : (oneStep "STEP2" "PAY.WORK" "OLD").Reads "PAY.WORK".toList := by decide +kernel
  have hfeeds : ReachingWriter.Feeds (JclStep.Writes "PAY.WORK".toList)
      (JclStep.Reads "PAY.WORK".toList) rewriting.steps (oneStep "STEP1" "PAY.WORK" "NEW")
      (oneStep "STEP2" "PAY.WORK" "OLD") := ⟨[], [], _, rfl, hwrites, hreads, nofun⟩
  have hedge := (hexact ⟨rewriting.name, "PAY.WORK".toList, camelBean "STEP1".toList,
    camelBean "STEP2".toList⟩).2 ⟨rfl, by decide, .inl ⟨_, _, hfeeds, rfl, rfl⟩⟩
  have hlast : camelBean "STEP1".toList ≠ producerBean rewriting.steps "PAY.WORK".toList := by
    decide +kernel
  exact hlast (mem_buildDatasetEdges.1 hedge).2.2.1

end CobolJava.Jcl
