/-
**The hierarchy of data descriptions.**

`parse_data_description_lines` of `engine/transformation/cobol_parser.py` puts the parsed entries of
a section together: every entry is a node that knows its children, and a stack holds the nodes that
are still open.  The nodes are frozen into data items when all entries are read.

Main definitions:

* `DataDescription.DataEntry`, `DataDescription.DataItem` — an entry, and an entry with what stands
  under it;
* `DataDescription.addNode`, `DataDescription.freeze`, `DataDescription.hierarchy` — the loop over the
  entries, the frozen nodes, and the items of a list of entries;
* `DataDescription.Sound` — the hierarchy that the level numbers ask for.

Main results:

* `DataDescription.represents_addNode` — one entry: the nodes stay a picture of the forest of the
  entries;
* `DataDescription.hierarchy_eq` — **the frozen nodes are the forest of the entries**;
* `DataDescription.hierarchy_sound_iff` — **when the hierarchy is sound**.
-/

import CobolJava.Lib.LevelForest
import Mathlib.Data.List.Chain
import Mathlib.Data.List.Nodup

set_option autoImplicit false

namespace CobolJava.DataDescription

open LevelForest

/-! ### Entries -/

inductive PicType
  | alphanumeric
  | numeric
  deriving DecidableEq

/-- A parsed data-description entry. -/
structure DataEntry where
  name : List Char
  level : ℕ
  picType : PicType
  picLength : ℕ
  decimalPlaces : ℕ
  signed : Bool
  value : Option (List Char)
  occurs : Option ℕ
  occursDependingOn : Option (List Char)
  redefines : Option (List Char)
  usage : Option (List Char)
  deriving DecidableEq

/-- An entry with the items that stand under it. -/
abbrev DataItem := Rose DataEntry

/-! ### The loop over the entries -/

/-- `_Pending`: a node with the positions of its children. -/
structure Pending where
  level : ℕ
  item : DataEntry
  children : List ℕ

/-- The nodes in the order of their creation, the roots, and the open nodes, the last one first. -/
structure Build where
  nodes : List Pending
  roots : List ℕ
  stack : List ℕ

def levelAt (nodes : List Pending) (i : ℕ) : ℕ := (nodes[i]?.map Pending.level).getD 0

/-- `node.children.append(child)` -/
def Pending.addChild (child : ℕ) (node : Pending) : Pending :=
  { node with children := node.children ++ [child] }

/-- The body of the loop: the nodes that are not above the entry are closed, and the entry becomes a
child of the last open one. -/
def addNode (s : Build) (entry : DataEntry) : Build :=
  let stack := s.stack.dropWhile fun i => decide (entry.level ≤ levelAt s.nodes i)
  let node := s.nodes.length
  match stack with
  | [] => ⟨s.nodes ++ [⟨entry.level, entry, []⟩], s.roots ++ [node], [node]⟩
  | top :: rest =>
      ⟨s.nodes.modify top (Pending.addChild node) ++ [⟨entry.level, entry, []⟩], s.roots,
        node :: top :: rest⟩

/-- `freeze` under a limit of the depth. -/
def freeze (nodes : List Pending) : ℕ → ℕ → Option DataItem
  | 0, _ => none
  | depth + 1, i => (nodes[i]?).bind fun node =>
      (node.children.mapM (freeze nodes depth)).map (.node node.item)

/-- The nodes that the loop over the parsed entries creates. -/
def build (parsed : List DataEntry) : Build := parsed.foldl addNode ⟨[], [], []⟩

/-- The hierarchy that `parse_data_description_lines` returns for its parsed entries. -/
def hierarchy (parsed : List DataEntry) : Option (List DataItem) :=
  let built := build parsed
  built.roots.mapM (freeze built.nodes built.nodes.length)

/-! ### Nodes and forests -/

/-- An entry with the position of its node. -/
abbrev Placed := ℕ × DataEntry

def Placed.level (p : Placed) : ℕ := p.2.level

mutual

/-- The nodes hold a tree: every label is a node whose children are the labels below it. -/
def Stored (nodes : List Pending) : Rose Placed → Prop
  | .node p cs => nodes[p.1]? = some ⟨p.2.level, p.2, (cs.map Rose.label).map Prod.fst⟩ ∧
      StoredForest nodes cs

def StoredForest (nodes : List Pending) : List (Rose Placed) → Prop
  | [] => True
  | t :: ts => Stored nodes t ∧ StoredForest nodes ts

end

section Storage

variable {nodes nodes' : List Pending}

mutual

theorem stored_congr : ∀ {t : Rose Placed}, (∀ p ∈ preorder t, nodes'[p.1]? = nodes[p.1]?) →
    Stored nodes t → Stored nodes' t
  | .node p cs, h, hs => by
      rw [preorder, List.forall_mem_cons] at h
      rw [Stored] at hs ⊢
      exact ⟨by rw [h.1, hs.1], storedForest_congr h.2 hs.2⟩

theorem storedForest_congr : ∀ {ts : List (Rose Placed)},
    (∀ p ∈ preorderForest ts, nodes'[p.1]? = nodes[p.1]?) →
    StoredForest nodes ts → StoredForest nodes' ts
  | [], _, _ => trivial
  | t :: ts, h, hs => by
      rw [preorderForest, List.forall_mem_append] at h
      rw [StoredForest] at hs ⊢
      exact ⟨stored_congr h.1 hs.1, storedForest_congr h.2 hs.2⟩

end

mutual

theorem level_of_stored : ∀ {t : Rose Placed}, Stored nodes t →
    ∀ p ∈ preorder t, levelAt nodes p.1 = p.2.level
  | .node q cs, hs, p, hp => by
      rw [Stored] at hs
      rw [preorder, List.mem_cons] at hp
      rcases hp with rfl | hp
      · rw [levelAt, hs.1]
        rfl
      · exact level_of_storedForest hs.2 p hp

theorem level_of_storedForest : ∀ {ts : List (Rose Placed)}, StoredForest nodes ts →
    ∀ p ∈ preorderForest ts, levelAt nodes p.1 = p.2.level
  | [], _, p, hp => by cases hp
  | t :: ts, hs, p, hp => by
      rw [StoredForest] at hs
      rw [preorderForest, List.mem_append] at hp
      exact hp.elim (level_of_stored hs.1 p) (level_of_storedForest hs.2 p)

end

mutual

theorem freeze_stored : ∀ {t : Rose Placed} {depth : ℕ}, Stored nodes t →
    (preorder t).length ≤ depth →
    freeze nodes depth t.label.1 = some (relabel Prod.snd t)
  | .node p cs, 0, _, hdepth => by
      rw [preorder, List.length_cons] at hdepth
      omega
  | .node p cs, depth + 1, hs, hdepth => by
      rw [Stored] at hs
      rw [preorder, List.length_cons, Nat.add_le_add_iff_right] at hdepth
      have hlabel : (Rose.node p cs).label = p := rfl
      rw [hlabel, freeze, hs.1, Option.bind_some]
      dsimp only
      rw [freeze_storedForest hs.2 hdepth, Option.map_some, relabel]

theorem freeze_storedForest : ∀ {ts : List (Rose Placed)} {depth : ℕ}, StoredForest nodes ts →
    (preorderForest ts).length ≤ depth →
    ((ts.map Rose.label).map Prod.fst).mapM (freeze nodes depth) =
      some (relabelForest Prod.snd ts)
  | [], _, _, _ => rfl
  | t :: ts, depth, hs, hdepth => by
      rw [StoredForest] at hs
      rw [preorderForest, List.length_append] at hdepth
      rw [List.map_cons, List.map_cons, List.mapM_cons, freeze_stored hs.1 (by omega),
        freeze_storedForest hs.2 (by omega)]
      rfl

end

/-- **The nodes with a new entry hold the forest with the entry**: the new node is there, the last
open node has a child more, and the other nodes are as they were. -/
theorem storedForest_insert {x : Placed} : ∀ {ts : List (Rose Placed)},
    OrderedForest Placed.level ts → ((preorderForest ts).map Prod.fst).Nodup →
    StoredForest nodes ts → nodes'[x.1]? = some ⟨x.2.level, x.2, []⟩ →
    (∀ p ∈ preorderForest ts, (openFor Placed.level x (spine ts)).head? ≠ some p →
      nodes'[p.1]? = nodes[p.1]?) →
    (∀ p, (openFor Placed.level x (spine ts)).head? = some p →
      nodes'[p.1]? = (nodes[p.1]?).map (Pending.addChild x.1)) →
    StoredForest nodes' (LevelForest.insert Placed.level x ts)
  | [], _, _, _, hnew, _, _ => by
      rw [LevelForest.insert]
      exact ⟨⟨hnew, trivial⟩, trivial⟩
  | [.node p cs], ho, hnodup, hs, hnew, hsame, htop => by
      have horder : preorderForest [.node p cs] = p :: preorderForest cs := List.append_nil _
      have hspine : spine [.node p cs] = spine cs ++ [p] := by rw [spine, spineTree]
      rw [horder, List.map_cons, List.nodup_cons] at hnodup
      rw [horder] at hsame
      rw [hspine] at hsame htop
      rw [LevelForest.insert]
      split_ifs with hlevel
      · have hp : Placed.level p < Placed.level x := hlevel
        rw [openFor_concat _ hp] at hsame htop
        have hroot := hs.1.1
        have hlabels := labels_insert x ho.1.2
        -- the new entry is a child of `p` unless an entry below `p` stays open
        have hnode : nodes'[p.1]? = some ⟨p.2.level, p.2,
            ((LevelForest.insert Placed.level x cs).map Rose.label).map Prod.fst⟩ := by
          cases hopen : openFor Placed.level x (spine cs) with
          | nil =>
              rw [hlabels, if_pos hopen, htop p (by rw [hopen]; rfl), hroot, List.map_append]
              rfl
          | cons q l =>
              have hq : q ∈ openFor Placed.level x (spine cs) := by simp [hopen]
              have hmem := mem_preorderForest_of_mem_spine cs (List.dropWhile_subset _ hq)
              have hne : some q ≠ some p := by
                rintro ⟨⟩
                exact hnodup.1 (List.mem_map_of_mem hmem)
              rw [hlabels, if_neg (by simp [hopen]), List.append_nil,
                hsame p (List.mem_cons_self ..) (by rw [hopen]; exact hne), hroot]
        refine ⟨⟨hnode, storedForest_insert ho.1.2 hnodup.2 hs.1.2 hnew (fun q hq hhead => ?_)
          fun q hhead => ?_⟩, trivial⟩
        · refine hsame q (List.mem_cons_of_mem _ hq) ?_
          cases hopen : openFor Placed.level x (spine cs) with
          | nil =>
              rintro ⟨⟩
              exact hnodup.1 (List.mem_map_of_mem hq)
          | cons r l => rwa [hopen] at hhead
        · refine htop q ?_
          rw [List.head?_append, hhead]
          rfl
      · have hclosed : openFor Placed.level x (spine cs ++ [p]) = [] := by
          rw [← hspine, spine]
          exact openFor_spineTree ho.1 (not_lt.1 hlevel)
        rw [hclosed] at hsame
        refine ⟨stored_congr (fun q hq => ?_) hs.1, ⟨hnew, trivial⟩, trivial⟩
        exact hsame q hq nofun
  | t :: u :: ts, ho, hnodup, hs, hnew, hsame, htop => by
      have hsplit : preorderForest (t :: u :: ts) = preorder t ++ preorderForest (u :: ts) := rfl
      have hspine : spine (t :: u :: ts) = spine (u :: ts) := by rw [spine]
      rw [hsplit, List.map_append, List.nodup_append] at hnodup
      rw [hsplit, hspine] at hsame
      rw [hspine] at htop
      rw [LevelForest.insert]
      refine ⟨stored_congr (fun p hp => hsame p (List.mem_append_left _ hp) fun hhead => ?_) hs.1,
        storedForest_insert ho.2.2 hnodup.2.1 hs.2 hnew
          (fun p hp => hsame p (List.mem_append_right _ hp)) htop⟩
      have hopen := List.dropWhile_subset _ (List.mem_of_mem_head? hhead)
      have hmem := mem_preorderForest_of_mem_spine (u :: ts) hopen
      exact hnodup.2.2 _ (List.mem_map_of_mem hp) _ (List.mem_map_of_mem hmem) rfl

end Storage

/-! ### The run over the entries -/

/-- The nodes are a picture of the forest of the entries read so far. -/
structure Represents (s : Build) (ts : List (Rose Placed)) (parsed : List DataEntry) : Prop where
  stored : StoredForest s.nodes ts
  roots : s.roots = (ts.map Rose.label).map Prod.fst
  stack : s.stack = (spine ts).map Prod.fst
  positions : (preorderForest ts).map Prod.fst = List.range s.nodes.length
  ordered : OrderedForest Placed.level ts
  items : relabelForest Prod.snd ts = forest DataEntry.level parsed

section Run

variable {s : Build} {ts : List (Rose Placed)} {parsed : List DataEntry}

theorem Represents.nodup (h : Represents s ts parsed) :
    ((preorderForest ts).map Prod.fst).Nodup := by
  rw [h.positions]
  exact List.nodup_range

theorem dropWhile_levelAt {nodes : List Pending} (x : Placed) {l : List Placed}
    (h : ∀ p ∈ l, levelAt nodes p.1 = p.2.level) :
    (l.map Prod.fst).dropWhile (fun i => decide (x.2.level ≤ levelAt nodes i)) =
      (openFor Placed.level x l).map Prod.fst := by
  induction l with
  | nil => rfl
  | cons p l ih =>
      rw [List.forall_mem_cons] at h
      have hp : Placed.level x ≤ Placed.level p ↔ x.2.level ≤ levelAt nodes p.1 := by
        rw [h.1]
        rfl
      rw [openFor] at ih ⊢
      rw [List.map_cons, List.dropWhile_cons, List.dropWhile_cons, ih h.2]
      simp only [hp, decide_eq_true_iff]
      split_ifs <;> rfl

theorem Represents.open_stack (h : Represents s ts parsed) (x : Placed) :
    (s.stack.dropWhile fun i => decide (x.2.level ≤ levelAt s.nodes i)) =
      (openFor Placed.level x (spine ts)).map Prod.fst := by
  rw [h.stack]
  exact dropWhile_levelAt x fun p hp =>
    level_of_storedForest h.stored p (mem_preorderForest_of_mem_spine ts hp)

theorem Represents.lt_length (h : Represents s ts parsed) {p : Placed}
    (hp : p ∈ preorderForest ts) : p.1 < s.nodes.length := by
  have hmem : p.1 ∈ (preorderForest ts).map Prod.fst := List.mem_map_of_mem hp
  rw [h.positions] at hmem
  exact List.mem_range.1 hmem

theorem Represents.positions_insert (h : Represents s ts parsed) (entry : DataEntry) :
    (preorderForest (LevelForest.insert Placed.level (s.nodes.length, entry) ts)).map Prod.fst =
      List.range (s.nodes.length + 1) := by
  rw [preorder_insert, List.map_append, h.positions, List.range_succ]
  rfl

theorem Represents.items_insert (h : Represents s ts parsed) (entry : DataEntry) (n : ℕ) :
    relabelForest Prod.snd (LevelForest.insert Placed.level (n, entry) ts) =
      forest DataEntry.level (parsed ++ [entry]) := by
  rw [forest_append, ← h.items]
  exact relabel_insert Prod.snd ((n, entry) : Placed) ts

/-- **One entry**: the nodes stay a picture of the forest. -/
theorem represents_addNode (h : Represents s ts parsed) (entry : DataEntry) :
    Represents (addNode s entry)
      (LevelForest.insert Placed.level (s.nodes.length, entry) ts) (parsed ++ [entry]) := by
  have hstack := h.open_stack (s.nodes.length, entry)
  have hspine := spine_insert (s.nodes.length, entry) h.ordered
  have hlabels := labels_insert (s.nodes.length, entry) h.ordered
  have hordered := ordered_insert (s.nodes.length, entry) h.ordered
  cases hopen : openFor Placed.level (s.nodes.length, entry) (spine ts) with
  | nil =>
      have hadd : addNode s entry = ⟨s.nodes ++ [⟨entry.level, entry, []⟩],
          s.roots ++ [s.nodes.length], [s.nodes.length]⟩ := by
        rw [hopen] at hstack
        rw [addNode, hstack]
        rfl
      rw [hopen] at hspine
      rw [if_pos hopen] at hlabels
      rw [hadd]
      refine ⟨storedForest_insert h.ordered h.nodup h.stored ?_ (fun p hp _ => ?_) fun p hp => ?_,
        ?_, ?_, ?_, hordered, h.items_insert entry _⟩
      · rw [List.getElem?_append_right le_rfl, Nat.sub_self]
        rfl
      · exact List.getElem?_append_left (h.lt_length hp)
      · rw [hopen] at hp
        cases hp
      · rw [hlabels, List.map_append, ← h.roots]
        rfl
      · rw [hspine]
        rfl
      · rw [h.positions_insert, List.length_append]
        rfl
  | cons top rest =>
      have hadd : addNode s entry =
          ⟨s.nodes.modify top.1 (Pending.addChild s.nodes.length) ++ [⟨entry.level, entry, []⟩],
            s.roots, s.nodes.length :: top.1 :: rest.map Prod.fst⟩ := by
        rw [hopen] at hstack
        rw [addNode, hstack]
        rfl
      have htop : top ∈ preorderForest ts := by
        have hmem : top ∈ openFor Placed.level (s.nodes.length, entry) (spine ts) := by
          rw [hopen]
          exact List.mem_cons_self ..
        exact mem_preorderForest_of_mem_spine ts (List.dropWhile_subset _ hmem)
      have hlength : (s.nodes.modify top.1 (Pending.addChild s.nodes.length)).length =
        s.nodes.length := List.length_modify ..
      rw [hopen] at hspine
      rw [if_neg (by simp [hopen]), List.append_nil] at hlabels
      rw [hadd]
      refine ⟨storedForest_insert h.ordered h.nodup h.stored ?_ (fun p hp hhead => ?_)
        fun p hp => ?_, ?_, ?_, ?_, hordered, h.items_insert entry _⟩
      · rw [List.getElem?_append_right hlength.le, hlength, Nat.sub_self]
        rfl
      · rw [List.getElem?_append_left (by rw [hlength]; exact h.lt_length hp)]
        refine List.getElem?_modify_ne _ _ fun hsame => hhead ?_
        rw [hopen, List.head?_cons, List.inj_on_of_nodup_map h.nodup htop hp hsame]
      · rw [hopen, List.head?_cons, Option.some.injEq] at hp
        rw [← hp, List.getElem?_append_left (by rw [hlength]; exact h.lt_length htop),
          List.getElem?_modify_eq]
        rfl
      · rw [hlabels]
        exact h.roots
      · rw [hspine]
        rfl
      · rw [h.positions_insert, List.length_append, hlength]
        rfl

/-- **The whole run**: the nodes are a picture of the forest of the entries. -/
theorem represents_build (parsed : List DataEntry) : ∃ ts, Represents (build parsed) ts parsed ∧
    (build parsed).nodes.length = parsed.length := by
  induction parsed using List.reverseRecOn with
  | nil => exact ⟨[], ⟨trivial, rfl, rfl, rfl, trivial, rfl⟩, rfl⟩
  | append_singleton parsed entry ih =>
      obtain ⟨ts, hts, hlength⟩ := ih
      have hstep : build (parsed ++ [entry]) = addNode (build parsed) entry := by
        rw [build, List.foldl_append]
        rfl
      rw [hstep]
      have hnext := represents_addNode hts entry
      refine ⟨_, hnext, ?_⟩
      have hpositions := congrArg List.length hnext.positions
      rw [hts.positions_insert, List.length_range, List.length_range] at hpositions
      rw [← hpositions, hlength, List.length_append]
      rfl

/-- **The frozen nodes are the forest of the entries.** -/
theorem hierarchy_eq (parsed : List DataEntry) :
    hierarchy parsed = some (forest DataEntry.level parsed) := by
  obtain ⟨ts, hts, -⟩ := represents_build parsed
  have hlength : (preorderForest ts).length ≤ (build parsed).nodes.length := by
    have hpositions := congrArg List.length hts.positions
    rw [List.length_map, List.length_range] at hpositions
    exact hpositions.le
  rw [hierarchy, hts.roots, freeze_storedForest hts.stored hlength, hts.items]

end Run

/-! ### Sound hierarchies -/

def DataEntry.Numbered (a : DataEntry) : Prop :=
  1 ≤ a.level ∧ a.level ≤ 49 ∨ a.level = 77 ∨ a.level = 88

instance (a : DataEntry) : Decidable a.Numbered := inferInstanceAs (Decidable (_ ∨ _))

/-- The hierarchy that the level numbers ask for. -/
structure Sound (parsed : List DataEntry) (items : List DataItem) : Prop where
  preorder : preorderForest items = parsed
  deeper : ∀ i j a b, IsParent items i j a b → a.level < b.level
  nearest : ∀ pre x post, parsed = pre ++ x :: post →
    (parentsForest none 0 items)[pre.length]? = some (nearest DataEntry.level pre x)
  roots : ∀ (j : ℕ) (x : DataEntry), parsed[j]? = some x → x.level = 1 ∨ x.level = 77 →
    (parentsForest none 0 items)[j]? = some none
  groups : ∀ i j a b, IsParent items i j a b → a.picLength = 0 ∨ b.level = 88

/-- No level-77 entry comes after one of levels 01 to 49. -/
def LoneFirst (parsed : List DataEntry) : Prop :=
  parsed.Pairwise fun a b => b.level = 77 → 77 ≤ a.level

/-- Condition names aside, no entry with a PICTURE is followed by a deeper one. -/
def ShallowAfterPic (parsed : List DataEntry) : Prop :=
  (parsed.filter (fun a => decide (a.level ≠ 88))).IsChain
    fun a b => 0 < a.picLength → b.level ≤ a.level

section Soundness

variable {parsed : List DataEntry}

theorem root_iff {pre post : List DataEntry} {x : DataEntry} (h : parsed = pre ++ x :: post) :
    (parentsForest none 0 (forest DataEntry.level parsed))[pre.length]? = some none ↔
      ∀ a ∈ pre, x.level ≤ a.level := by
  rw [parents_forest _ pre x post h, Option.some.injEq, nearest, nearestFrom_none_iff]
  simp only [not_lt]

/-- Entries of level 01 and 77 are roots when the level-77 ones come first. -/
theorem roots_iff (h : ∀ a ∈ parsed, a.Numbered) :
    (∀ (j : ℕ) (x : DataEntry), parsed[j]? = some x → x.level = 1 ∨ x.level = 77 →
      (parentsForest none 0 (forest DataEntry.level parsed))[j]? = some none) ↔
    LoneFirst parsed := by
  constructor
  · intro hroots
    rw [LoneFirst, List.pairwise_iff_getElem]
    intro i j hi hj hij hlevel
    have hx : parsed[j]? = some parsed[j] := List.getElem?_eq_getElem hj
    have hroot := hroots j _ hx (.inr hlevel)
    obtain ⟨pre, post, hsplit, hlength⟩ := exists_split_of_getElem? hx
    rw [hlength, root_iff hsplit] at hroot
    rw [← hlevel]
    have hmem : parsed[i] ∈ pre := by
      rw [hlength] at hij
      have hget : parsed[i]? = pre[i]? := by
        conv_lhs => rw [hsplit, List.getElem?_append_left hij]
      rw [List.getElem?_eq_getElem hi, List.getElem?_eq_getElem hij, Option.some.injEq] at hget
      rw [hget]
      exact List.getElem_mem hij
    exact hroot _ hmem
  · intro hfirst j x hx hlevel
    obtain ⟨pre, post, rfl, rfl⟩ := exists_split_of_getElem? hx
    rw [root_iff rfl]
    intro a ha
    rcases hlevel with hone | hlone
    · -- no level is smaller than 01
      have hnumbered := h a (List.mem_append_left _ ha)
      rw [DataEntry.Numbered] at hnumbered
      omega
    · rw [LoneFirst, List.pairwise_append] at hfirst
      rw [hlone]
      exact hfirst.2.2 a ha x (List.mem_cons_self ..) hlone

/-- Two entries with only condition names between them. -/
theorem isChain_filter_iff {R : DataEntry → DataEntry → Prop} :
    (parsed.filter (fun a => decide (a.level ≠ 88))).IsChain R ↔
      ∀ pre a mid b post, parsed = pre ++ a :: (mid ++ b :: post) → a.level ≠ 88 → b.level ≠ 88 →
        (∀ m ∈ mid, m.level = 88) → R a b := by
  rw [List.isChain_iff_forall_rel_of_append_cons_cons]
  constructor
  · rintro h pre a mid b post rfl ha hb hmid
    have hempty : mid.filter (fun m => decide (m.level ≠ 88)) = [] :=
      List.filter_eq_nil_iff.2 fun m hm => by simp [hmid m hm]
    refine @h a b (pre.filter (fun m => decide (m.level ≠ 88)))
      (post.filter (fun m => decide (m.level ≠ 88))) ?_
    rw [List.filter_append, List.filter_cons_of_pos (by simpa using ha), List.filter_append, hempty,
      List.nil_append, List.filter_cons_of_pos (by simpa using hb)]
  · intro h a b l l' hsplit
    obtain ⟨pre, rest, rfl, -, hrest⟩ := List.filter_eq_append_iff.1 hsplit
    obtain ⟨skip, rest, rfl, -, ha, hrest⟩ := List.filter_eq_cons_iff.1 hrest
    obtain ⟨mid, post, rfl, hmid, hb, -⟩ := List.filter_eq_cons_iff.1 hrest
    refine h (pre ++ skip) a mid b post (by simp) (by simpa using ha) (by simpa using hb) ?_
    exact fun m hm => by simpa using hmid m hm

theorem exists_next {mid : List DataEntry} {b : DataEntry} (post : List DataEntry)
    (hb : b.level ≠ 88) (h : ∀ m ∈ mid, b.level ≤ m.level) :
    ∃ mid' c post', mid ++ b :: post = mid' ++ c :: post' ∧ (∀ m ∈ mid', m.level = 88) ∧
      c.level ≠ 88 ∧ b.level ≤ c.level := by
  induction mid with
  | nil => exact ⟨[], b, post, rfl, nofun, hb, le_rfl⟩
  | cons m mid ih =>
      rw [List.forall_mem_cons] at h
      by_cases hm : m.level = 88
      · obtain ⟨mid', c, post', hsplit, hcond, hc⟩ := ih h.2
        refine ⟨m :: mid', c, post', by rw [List.cons_append, hsplit, List.cons_append], ?_, hc⟩
        exact List.forall_mem_cons.2 ⟨hm, hcond⟩
      · exact ⟨[], m, mid ++ b :: post, rfl, nofun, hm, h.1⟩

/-- Only groups have children, condition names aside, when nothing deeper follows a PICTURE. -/
theorem groups_iff (h : ∀ a ∈ parsed, a.Numbered) :
    (∀ i j a b, IsParent (forest DataEntry.level parsed) i j a b →
      a.picLength = 0 ∨ b.level = 88) ↔ ShallowAfterPic parsed := by
  rw [ShallowAfterPic, isChain_filter_iff]
  constructor
  · rintro hgroups pre a mid b post rfl ha hb hmid hpic
    by_contra hdeep
    have hbelow : ∀ m ∈ mid, b.level ≤ m.level := by
      intro m hm
      have hnumbered := h b (by simp)
      rw [DataEntry.Numbered] at hnumbered
      rw [hmid m hm]
      omega
    have hparent := hgroups _ _ a b
      (isParent_forest.2 ⟨pre, mid, post, rfl, rfl, rfl, not_le.1 hdeep, hbelow⟩)
    omega
  · intro hshallow i j a b hparent
    obtain ⟨pre, mid, post, rfl, -, -, hlevel, hmid⟩ := isParent_forest.1 hparent
    by_contra hno
    rw [not_or] at hno
    have hb := h b (by simp)
    rw [DataEntry.Numbered] at hb
    have ha : a.level ≠ 88 := by omega
    obtain ⟨mid', c, post', hsplit, hcond, hc, hdeep⟩ := exists_next post hno.2 hmid
    have hle := hshallow pre a mid' c post' (by rw [hsplit]) ha hc hcond (by omega)
    omega

end Soundness

/-- **When the hierarchy is sound**: it always holds every entry once and in order, under the nearest
entry of a smaller level; but a level-77 entry is a root only in front of the entries of levels 01 to
49, and an entry with a PICTURE takes a deeper one that follows it as its child. -/
theorem hierarchy_sound_iff (parsed : List DataEntry) (h : ∀ a ∈ parsed, a.Numbered) :
    (∃ items, hierarchy parsed = some items ∧ Sound parsed items) ↔
      LoneFirst parsed ∧ ShallowAfterPic parsed := by
  rw [← roots_iff h, ← groups_iff h]
  constructor
  · rintro ⟨items, hitems, hsound⟩
    rw [hierarchy_eq, Option.some.injEq] at hitems
    subst hitems
    exact ⟨hsound.roots, hsound.groups⟩
  · rintro ⟨hroots, hgroups⟩
    refine ⟨_, hierarchy_eq parsed, preorder_forest parsed, fun i j a b hparent => ?_,
      parents_forest parsed, hroots, hgroups⟩
    obtain ⟨pre, mid, post, -, -, -, hlevel, -⟩ := isParent_forest.1 hparent
    exact hlevel

/-- An entry with a level, a name and a length. -/
def entryOf (level : ℕ) (name : List Char) (picLength : ℕ) : DataEntry where
  name := name
  level := level
  picType := .numeric
  picLength := picLength
  decimalPlaces := 0
  signed := false
  value := none
  occurs := none
  occursDependingOn := none
  redefines := none
  usage := none

/-- `77 N PIC 9.`, `01 R.`, `05 A PIC 9.` -/
theorem hierarchy_sound_iff_record :
    (∃ items, hierarchy [entryOf 77 ['N'] 1, entryOf 1 ['R'] 0, entryOf 5 ['A'] 1] = some items ∧
      Sound [entryOf 77 ['N'] 1, entryOf 1 ['R'] 0, entryOf 5 ['A'] 1] items) ↔
    LoneFirst [entryOf 77 ['N'] 1, entryOf 1 ['R'] 0, entryOf 5 ['A'] 1] ∧
      ShallowAfterPic [entryOf 77 ['N'] 1, entryOf 1 ['R'] 0, entryOf 5 ['A'] 1] :=
  hierarchy_sound_iff [entryOf 77 ['N'] 1, entryOf 1 ['R'] 0, entryOf 5 ['A'] 1] (by decide)

/-- `77 N PIC 9.` after `01 A PIC 9.` becomes a child of the elementary `A`. -/
theorem hierarchy_not_sound :
    (∀ a ∈ [entryOf 1 ['A'] 1, entryOf 77 ['N'] 1], a.Numbered) ∧
    hierarchy [entryOf 1 ['A'] 1, entryOf 77 ['N'] 1] =
      some [.node (entryOf 1 ['A'] 1) [.node (entryOf 77 ['N'] 1) []]] ∧
    ¬ ∃ items, hierarchy [entryOf 1 ['A'] 1, entryOf 77 ['N'] 1] = some items ∧
      Sound [entryOf 1 ['A'] 1, entryOf 77 ['N'] 1] items := by
  have hitems : hierarchy [entryOf 1 ['A'] 1, entryOf 77 ['N'] 1] =
      some [.node (entryOf 1 ['A'] 1) [.node (entryOf 77 ['N'] 1) []]] := rfl
  refine ⟨by decide, hitems, ?_⟩
  rintro ⟨items, hsome, hsound⟩
  rw [hitems, Option.some.injEq] at hsome
  subst hsome
  have hroot := hsound.roots 1 (entryOf 77 ['N'] 1) rfl (.inr rfl)
  simp [parentsForest, parents] at hroot

end CobolJava.DataDescription
