/-
**Where certified views lie.**

The plan of `Transformation/RedefinesPlan.lean` gives every view an offset in the storage of its base.
Against it stands the storage of a COBOL program: an item starts where those before it end, and an item
that redefines another one starts where that one starts.

Main definitions:

* `storageLength`, `starts` — the length of an item, and where the children of a group start;
* `RedefinesItem` — the item that a `REDEFINES` clause names;
* `Addresses` — a view lies where its item lies, with the bytes that are there;
* `PlacedAlike` — no child of the redefinition redefines anything, up to the item.

Main results:

* `le_of_mem_startsFrom` — a child never starts behind the offset that the plan counts for it;
* `addresses_iff` — **when a view lies where its item lies**.
-/

import CobolJava.Transformation.RedefinesOverlays

set_option autoImplicit false

namespace CobolJava.Redefines

open Py.Chars (upper slice)
open DataDescription (DataEntry DataItem)
open LevelForest (Rose)

/-! ### The storage of a program -/

mutual

/-- The length of an item in characters: that of its elementary items, those that redefine others
left out. -/
def storageLength : DataItem → ℕ
  | .node entry children =>
      (if children.all isConditionName then entry.picLength else forestLength children) *
        entry.occurs.getD 1

def forestLength : List DataItem → ℕ
  | [] => 0
  | item :: rest =>
      if isConditionName item || (baseKey item).isSome then forestLength rest
      else storageLength item + forestLength rest

end

/-- Where the children of a group start, with the starts of the siblings before them: behind those
that redefine nothing, or where the item that a child redefines starts. -/
def startsFrom (start : ℕ) (placed : List (Text × ℕ)) : List DataItem → List (DataItem × Option ℕ)
  | [] => []
  | child :: rest =>
      if isConditionName child then startsFrom start placed rest
      else
        match baseKey child with
        | none =>
            (child, some start) ::
              startsFrom (start + storageLength child) ((key child, start) :: placed) rest
        | some target =>
            match placed.lookup target with
            | none => (child, none) :: startsFrom start placed rest
            | some at_ => (child, some at_) :: startsFrom start ((key child, at_) :: placed) rest

/-- Where the children of a group start in its storage. -/
def starts (group : DataItem) : List (DataItem × Option ℕ) :=
  startsFrom 0 [] group.children

/-- The items, and the children of every item. -/
def siblingLists (items : List DataItem) : List (List DataItem) :=
  items :: (visitForest items).map Rose.children

/-- An item redefines another: the last one of the name among the siblings before it. -/
def RedefinesItem (items : List DataItem) (item base : DataItem) : Prop :=
  ∃ target, baseKey item = some target ∧ ∃ siblings ∈ siblingLists items, ∃ pre mid post,
    siblings = pre ++ base :: (mid ++ item :: post) ∧ key base = target ∧ ∀ s ∈ mid, key s ≠ target

/-! ### Views and storage -/

/-- The item of a claim starts at an offset in the storage of the base: it is the base, the item that
redefines it, or a child of that. -/
def StartsAt (items : List DataItem) (c : Claim) (offset : ℕ) : Prop :=
  (c.item = c.base ∧ offset = 0) ∨
    (RedefinesItem items c.redefiner c.base ∧
      ((c.item = c.redefiner ∧ offset = 0) ∨ (c.item, some offset) ∈ starts c.redefiner))

/-- **A view lies where its item lies** in the storage of its base, it has the length of the item, it
lies within the base, and its initial text is what stands there. -/
def Addresses (items : List DataItem) (name : Text) (view : View) : Prop :=
  ∃ c, lastClaim items name = some c ∧
    view.name = c.item.label.name ∧ view.base = c.base.label.name ∧
    StartsAt items c view.offset ∧ view.length = storageLength c.item ∧
    view.offset + view.length ≤ storageLength c.base ∧
    ∃ bytes, initialBytes c.base = some bytes ∧
      view.initial = slice bytes view.offset (view.offset + view.length)

/-- The offsets that the plan counts for the children of a group. -/
def offsetsFrom (offset : ℕ) : List DataItem → List (DataItem × ℕ)
  | [] => []
  | child :: rest =>
      if isConditionName child then offsetsFrom offset rest
      else (child, offset) :: offsetsFrom (offset + child.label.picLength) rest

/-- **A claim is placed alike**: it is that of the base itself, or the redefinition redefines the base,
and none of its children up to the item redefines anything. -/
def PlacedAlike (items : List DataItem) (c : Claim) : Prop :=
  (c.item = c.base ∧ c.offset = 0) ∨
    (RedefinesItem items c.redefiner c.base ∧
      ∀ child ∈ offsetsFrom 0 c.redefiner.children, child.2 ≤ c.offset → baseKey child.1 = none)

/-! ### Offsets -/

theorem offsetsFrom_cons {child : DataItem} (h : isConditionName child = false) (offset : ℕ)
    (rest : List DataItem) :
    offsetsFrom offset (child :: rest) =
      (child, offset) :: offsetsFrom (offset + child.label.picLength) rest := by
  rw [offsetsFrom, h]
  rfl

theorem le_of_mem_offsetsFrom {offset : ℕ} {children : List DataItem} {c : DataItem × ℕ}
    (h : c ∈ offsetsFrom offset children) : offset ≤ c.2 := by
  induction children generalizing offset with
  | nil => exact absurd h List.not_mem_nil
  | cons child rest ih =>
      rw [offsetsFrom] at h
      split at h
      · exact ih h
      · rcases List.mem_cons.1 h with rfl | h
        · exact le_rfl
        · have := ih h
          omega

/-- The members of a group are its named children, at their offsets. -/
theorem groupMembersFrom_eq {offset : ℕ} {children : List DataItem} {members : List (DataItem × ℕ)}
    (h : groupMembersFrom offset children = .ok members) :
    members = (offsetsFrom offset children).filter (fun c => key c.1 ≠ "FILLER".toList) ∧
      ∀ c ∈ offsetsFrom offset children, memberProblem c.1 = none := by
  induction children generalizing offset members with
  | nil =>
      obtain rfl := Except.ok.inj h
      exact ⟨rfl, fun c hc => absurd hc List.not_mem_nil⟩
  | cons child rest ih =>
      rw [groupMembersFrom] at h
      cases hcondition : isConditionName child with
      | true =>
          rw [hcondition, if_pos rfl] at h
          rw [offsetsFrom, hcondition, if_pos rfl]
          exact ih h
      | false =>
          rw [hcondition, if_neg Bool.false_ne_true] at h
          rw [offsetsFrom_cons hcondition]
          cases hproblem : memberProblem child with
          | some reason =>
              rw [hproblem] at h
              cases h
          | none =>
              rw [hproblem] at h
              cases hmembers : groupMembersFrom (offset + child.label.picLength) rest with
              | error reason =>
                  simp only [hmembers] at h
                  cases h
              | ok found =>
                  simp only [hmembers, bind, Except.bind] at h
                  obtain ⟨hfound, hcertified⟩ := ih hmembers
                  have hall : ∀ c ∈ (child, offset) ::
                      offsetsFrom (offset + child.label.picLength) rest, memberProblem c.1 = none :=
                    List.forall_mem_cons.2 ⟨hproblem, hcertified⟩
                  refine ⟨?_, hall⟩
                  split at h
                  · rename_i hfiller
                    obtain rfl := Except.ok.inj h
                    rw [List.filter_cons_of_neg (by simp [hfiller])]
                    exact hfound
                  · rename_i hnamed
                    obtain rfl := Except.ok.inj h
                    rw [List.filter_cons_of_pos (by simpa using hnamed), ← hfound]

theorem storageLength_of_member {item : DataItem} (h : memberProblem item = none) :
    storageLength item = item.label.picLength := by
  obtain ⟨hchildren, hoccurs, -⟩ := of_memberProblem h
  obtain ⟨entry, children⟩ := item
  obtain rfl : children = [] := hchildren
  have hoccurs' : entry.occurs = none := hoccurs
  simp [storageLength, Rose.label, hoccurs']

/-- **A child never starts behind the offset that is counted for it**, and at this offset only if no
child up to it redefines anything. -/
theorem le_of_mem_startsFrom {start offset : ℕ} {placed : List (Text × ℕ)} {children : List DataItem}
    {item : DataItem} {at_ : ℕ} (hcertified : ∀ c ∈ offsetsFrom offset children, memberProblem c.1 = none)
    (hstart : start ≤ offset) (hplaced : ∀ p ∈ placed, p.2 < start)
    (h : (item, some at_) ∈ startsFrom start placed children) :
    ∃ counted, (item, counted) ∈ offsetsFrom offset children ∧ at_ ≤ counted ∧
      (at_ = counted → start = offset ∧
        ∀ c ∈ offsetsFrom offset children, c.2 ≤ counted → baseKey c.1 = none) := by
  induction children generalizing start offset placed with
  | nil => exact absurd h List.not_mem_nil
  | cons child rest ih =>
      rw [startsFrom] at h
      cases hcondition : isConditionName child with
      | true =>
          rw [hcondition, if_pos rfl] at h
          rw [offsetsFrom, hcondition, if_pos rfl] at hcertified ⊢
          exact ih hcertified hstart hplaced h
      | false =>
          rw [hcondition, if_neg Bool.false_ne_true] at h
          rw [offsetsFrom_cons hcondition] at hcertified ⊢
          obtain ⟨hchild, hrest⟩ := List.forall_mem_cons.1 hcertified
          have hwidth : storageLength child = child.label.picLength := storageLength_of_member hchild
          have hpos : 0 < child.label.picLength := (of_memberProblem hchild).2.2
          -- the children behind this one are counted further on
          have hbehind : ∀ c ∈ offsetsFrom (offset + child.label.picLength) rest, offset < c.2 := by
            intro c hc
            have := le_of_mem_offsetsFrom hc
            omega
          cases hbase : baseKey child with
          | none =>
              rw [hbase] at h
              rcases List.mem_cons.1 h with heq | h
              · obtain ⟨rfl, hat⟩ := Prod.mk.inj heq
                obtain rfl := Option.some.inj hat
                refine ⟨offset, List.mem_cons_self, hstart, fun hsame => ⟨hsame, ?_⟩⟩
                intro c hc hle
                rcases List.mem_cons.1 hc with rfl | hc
                · exact hbase
                · have := hbehind c hc
                  omega
              · have hplaced' : ∀ p ∈ (key child, start) :: placed, p.2 < start + storageLength child := by
                  intro p hp
                  rcases List.mem_cons.1 hp with rfl | hp
                  · dsimp only
                    omega
                  · have := hplaced p hp
                    omega
                obtain ⟨counted, hmem, hle, hsame⟩ := ih hrest (by omega) hplaced' h
                refine ⟨counted, List.mem_cons_of_mem _ hmem, hle, fun heq => ?_⟩
                obtain ⟨hstarts, hnone⟩ := hsame heq
                refine ⟨by omega, fun c hc hcount => ?_⟩
                rcases List.mem_cons.1 hc with rfl | hc
                · exact hbase
                · exact hnone c hc hcount
          | some target =>
              rw [hbase] at h
              -- a child that redefines another starts earlier, and so do all behind it
              have hearlier : ∀ placed', (∀ p ∈ placed', p.2 < start) →
                  (item, some at_) ∈ startsFrom start placed' rest →
                  ∃ counted, (item, counted) ∈ (child, offset) ::
                      offsetsFrom (offset + child.label.picLength) rest ∧ at_ < counted := by
                intro placed' hplaced' h
                obtain ⟨counted, hmem, hle, hsame⟩ := ih hrest (by omega) hplaced' h
                refine ⟨counted, List.mem_cons_of_mem _ hmem, lt_of_le_of_ne hle fun heq => ?_⟩
                have := (hsame heq).1
                omega
              have hfound : ∃ counted, (item, counted) ∈ (child, offset) ::
                  offsetsFrom (offset + child.label.picLength) rest ∧ at_ < counted := by
                cases hlookup : placed.lookup target with
                | none =>
                    simp only [hlookup] at h
                    rcases List.mem_cons.1 h with heq | h
                    · cases (Prod.mk.inj heq).2
                    · exact hearlier placed hplaced h
                | some first =>
                    simp only [hlookup] at h
                    have hfirst : first < start := by
                      obtain ⟨k, hk⟩ : ∃ k, (k, first) ∈ placed := by
                        obtain ⟨pre, post, hsplit, -⟩ := List.lookup_eq_some_iff.1 hlookup
                        exact ⟨target, by rw [hsplit]; simp⟩
                      exact hplaced _ hk
                    rcases List.mem_cons.1 h with heq | h
                    · obtain ⟨rfl, hat⟩ := Prod.mk.inj heq
                      obtain rfl := Option.some.inj hat
                      exact ⟨offset, List.mem_cons_self, by omega⟩
                    · refine hearlier _ (fun p hp => ?_) h
                      rcases List.mem_cons.1 hp with rfl | hp
                      · exact hfirst
                      · exact hplaced p hp
              obtain ⟨counted, hmem, hlt⟩ := hfound
              exact ⟨counted, hmem, hlt.le, fun heq => absurd heq hlt.ne⟩

/-- A child is where it is counted, if no child up to it redefines anything. -/
theorem mem_startsFrom {offset : ℕ} {placed : List (Text × ℕ)} {children : List DataItem}
    {item : DataItem} {counted : ℕ}
    (hcertified : ∀ c ∈ offsetsFrom offset children, memberProblem c.1 = none)
    (hnone : ∀ c ∈ offsetsFrom offset children, c.2 ≤ counted → baseKey c.1 = none)
    (h : (item, counted) ∈ offsetsFrom offset children) :
    (item, some counted) ∈ startsFrom offset placed children := by
  induction children generalizing offset placed with
  | nil => exact absurd h List.not_mem_nil
  | cons child rest ih =>
      rw [startsFrom]
      cases hcondition : isConditionName child with
      | true =>
          rw [offsetsFrom, hcondition, if_pos rfl] at hcertified hnone h
          rw [if_pos rfl]
          exact ih hcertified hnone h
      | false =>
          have hle := le_of_mem_offsetsFrom h
          rw [offsetsFrom_cons hcondition] at hcertified hnone h
          obtain ⟨hchild, hrest⟩ := List.forall_mem_cons.1 hcertified
          obtain ⟨hfirst, hothers⟩ := List.forall_mem_cons.1 hnone
          rw [if_neg Bool.false_ne_true, hfirst hle]
          dsimp only
          rw [storageLength_of_member hchild]
          rcases List.mem_cons.1 h with heq | h
          · obtain ⟨rfl, rfl⟩ := Prod.mk.inj heq
            exact List.mem_cons_self
          · exact List.mem_cons_of_mem _ (ih hrest hothers h)

/-! ### Claims -/

theorem offsetsFrom_sorted (offset : ℕ) (children : List DataItem) :
    (offsetsFrom offset children).Pairwise fun c d => c.2 ≤ d.2 := by
  induction children generalizing offset with
  | nil => exact List.Pairwise.nil
  | cons child rest ih =>
      rw [offsetsFrom]
      split
      · exact ih offset
      · refine List.pairwise_cons.2 ⟨fun c hc => ?_, ih _⟩
        have := le_of_mem_offsetsFrom hc
        dsimp only
        omega

theorem end_of_mem_offsetsFrom {offset : ℕ} {children : List DataItem} {c : DataItem × ℕ}
    (h : c ∈ offsetsFrom offset children) :
    c.2 + c.1.label.picLength ≤ offset +
      ((children.filter fun c => !isConditionName c).map fun c => c.label.picLength).sum := by
  induction children generalizing offset with
  | nil => exact absurd h List.not_mem_nil
  | cons child rest ih =>
      cases hcondition : isConditionName child with
      | true =>
          rw [offsetsFrom, hcondition, if_pos rfl] at h
          rw [List.filter_cons_of_neg (by simp [hcondition])]
          exact ih h
      | false =>
          rw [offsetsFrom_cons hcondition] at h
          rw [List.filter_cons_of_pos (by simp [hcondition]), List.map_cons, List.sum_cons]
          rcases List.mem_cons.1 h with rfl | h
          · dsimp only
            omega
          · have := ih h
            omega

/-- What is known of the last claim of a name. -/
structure Standing (c : Claim) : Prop where
  base : memberProblem c.base = none
  item : memberProblem c.item = none
  bytes : initialBytes c.base = some c.initial
  within : c.offset + c.item.label.picLength ≤ c.base.label.picLength
  children : ∀ d ∈ offsetsFrom 0 c.redefiner.children, memberProblem d.1 = none
  /-- It is the claim of the base, of an elementary redefinition, or of the last child of the name. -/
  place : (c.item = c.base ∧ c.offset = 0) ∨ (c.item = c.redefiner ∧ c.offset = 0) ∨
    ((c.item, c.offset) ∈ offsetsFrom 0 c.redefiner.children ∧
      ∀ d ∈ offsetsFrom 0 c.redefiner.children, d.1 = c.item → d.2 ≤ c.offset)

/-- The claims of an accepted redefinition. -/
theorem standing_of_accepted {item base : DataItem} {members : List (DataItem × ℕ)} {initial : Text}
    (hoverlay : overlay item base = .ok (members, initial)) {name : Text} {c : Claim}
    (hlast : LastWrite.lastWrite Claim.name (⟨item, base, base, 0, initial⟩ ::
      members.map fun member => ⟨item, base, member.1, member.2, initial⟩) name = some c) :
    Standing c := by
  obtain ⟨hmembers, hwidth, hinitial⟩ := overlay_eq_ok hoverlay
  have hbase := (base_of_membersOf hmembers).2
  obtain ⟨hmem, -⟩ := LastWrite.mem_of_lastWrite hlast
  unfold membersOf at hmembers
  split at hmembers
  · cases hmembers
  · rw [hbase] at hmembers
    dsimp only at hmembers
    split at hmembers
    · -- a group
      rename_i hgroup
      obtain ⟨rfl, hcertified⟩ := groupMembersFrom_eq hmembers
      rw [overlayWidth, if_pos hgroup] at hwidth
      rcases List.mem_cons.1 hmem with rfl | hmem
      · exact ⟨hbase, hbase, hinitial, by simp, hcertified, .inl ⟨rfl, rfl⟩⟩
      · obtain ⟨member, hmember, rfl⟩ := List.mem_map.1 hmem
        have hchild := (List.mem_filter.1 hmember).1
        have hend := end_of_mem_offsetsFrom hchild
        refine ⟨hbase, hcertified _ hchild, hinitial, by dsimp only; omega, hcertified,
          .inr (.inr ⟨hchild, fun d hd hsame => ?_⟩)⟩
        -- a child like this one has a claim as well
        have hclaim : (⟨item, base, d.1, d.2, initial⟩ : Claim) ∈
            (⟨item, base, base, 0, initial⟩ : Claim) :: ((offsetsFrom 0 item.children).filter
              fun c => key c.1 ≠ "FILLER".toList).map fun member =>
                ⟨item, base, member.1, member.2, initial⟩ := by
          refine List.mem_cons_of_mem _ (List.mem_map.2 ⟨d, List.mem_filter.2 ⟨hd, ?_⟩, rfl⟩)
          rw [hsame]
          exact (List.mem_filter.1 hmember).2
        have hsorted : ((⟨item, base, base, 0, initial⟩ : Claim) :: ((offsetsFrom 0
            item.children).filter fun c => key c.1 ≠ "FILLER".toList).map fun member =>
              ⟨item, base, member.1, member.2, initial⟩).Pairwise fun c d => c.offset ≤ d.offset := by
          refine List.pairwise_cons.2 ⟨fun _ _ => Nat.zero_le _, List.pairwise_map.2 ?_⟩
          exact (offsetsFrom_sorted 0 item.children).filter _
        have hname : Claim.name ⟨item, base, d.1, d.2, initial⟩ = name := by
          rw [← (LastWrite.mem_of_lastWrite hlast).2, Claim.name, Claim.name]
          exact congrArg key hsame
        rcases LastWrite.rel_lastWrite hsorted hlast hclaim hname with heq | hle
        · exact (congrArg Claim.offset heq).le
        · exact hle
    · -- an elementary item
      rename_i helementary
      have hchildren : item.children = [] := by simpa using helementary
      have hnone : ∀ d ∈ offsetsFrom 0 item.children, memberProblem d.1 = none := by
        rw [hchildren]
        exact fun d hd => absurd hd List.not_mem_nil
      rw [overlayWidth, if_neg helementary] at hwidth
      cases hitem : memberProblem item with
      | some reason =>
          rw [hitem] at hmembers
          cases hmembers
      | none =>
          rw [hitem] at hmembers
          obtain rfl := Except.ok.inj hmembers
          rcases List.mem_cons.1 hmem with rfl | hmem
          · exact ⟨hbase, hbase, hinitial, by simp, hnone, .inl ⟨rfl, rfl⟩⟩
          · obtain rfl := List.mem_singleton.1 hmem
            exact ⟨hbase, hitem, hinitial, by simpa using hwidth, hnone, .inr (.inl ⟨rfl, rfl⟩)⟩

theorem standing_of_lastClaim {items : List DataItem} {name : Text} {c : Claim}
    (h : lastClaim items name = some c) : Standing c := by
  obtain ⟨item, -, hlast⟩ := LastWrite.exists_of_lastWrite_flatMap h
  unfold claimsOf accepted at hlast
  split at hlast
  · cases hlast
  · rename_i haccepted
    split at haccepted
    · cases haccepted
    · split at haccepted
      · cases haccepted
      · split at haccepted
        · cases haccepted
        · rename_i hoverlay
          cases haccepted
          exact standing_of_accepted hoverlay hlast

/-- A claim starts at its offset exactly if it is placed alike. -/
theorem startsAt_iff (items : List DataItem) {c : Claim} (h : Standing c) :
    StartsAt items c c.offset ↔ PlacedAlike items c := by
  constructor
  · rintro (hbase | ⟨hredefines, ⟨hitem, -⟩ | hstart⟩)
    · exact .inl hbase
    · refine .inr ⟨hredefines, ?_⟩
      rw [← hitem, (of_memberProblem h.item).1]
      exact fun child hchild => absurd hchild List.not_mem_nil
    · obtain ⟨counted, hmem, hle, hsame⟩ :=
        le_of_mem_startsFrom h.children le_rfl (fun p hp => absurd hp List.not_mem_nil) hstart
      rcases h.place with hbase | ⟨hitem, -⟩ | ⟨-, hlast⟩
      · exact .inl hbase
      · rw [← hitem, (of_memberProblem h.item).1] at hmem
        exact absurd hmem List.not_mem_nil
      · have heq : c.offset = counted := le_antisymm hle (hlast _ hmem rfl)
        refine .inr ⟨hredefines, ?_⟩
        rw [heq]
        exact (hsame heq).2
  · rintro (hbase | ⟨hredefines, hnone⟩)
    · exact .inl hbase
    · rcases h.place with hbase | hitem | ⟨hmem, -⟩
      · exact .inl hbase
      · exact .inr ⟨hredefines, .inl hitem⟩
      · exact .inr ⟨hredefines, .inr (mem_startsFrom h.children hnone hmem)⟩

/-- **When a view lies where its item lies.** -/
theorem addresses_iff {items : List DataItem} {name : Text} {view : View}
    (h : (buildRedefinesPlan items).views name = some view) :
    Addresses items name view ↔ ∃ c, lastClaim items name = some c ∧ PlacedAlike items c := by
  obtain ⟨c, hc, rfl, -⟩ := views_plan.1 h
  have hstanding := standing_of_lastClaim hc
  have hlength := storageLength_of_member hstanding.item
  have hbase := storageLength_of_member hstanding.base
  constructor
  · rintro ⟨c', hc', -, -, hstarts, -⟩
    obtain rfl : c = c' := Option.some.inj (hc.symm.trans hc')
    exact ⟨c, hc, (startsAt_iff items hstanding).1 hstarts⟩
  · rintro ⟨c', hc', hplaced⟩
    obtain rfl : c = c' := Option.some.inj (hc.symm.trans hc')
    refine ⟨c, hc, rfl, rfl, (startsAt_iff items hstanding).2 hplaced, hlength.symm, ?_, c.initial,
      hstanding.bytes, rfl⟩
    rw [hbase]
    exact hstanding.within

/-! ### A redefinition inside a redefinition -/

/-- `B` with `C`, `D REDEFINES C` and `E`, two characters each, over `A`. -/
def nestedGroup : DataItem :=
  textItem "B" 0 (some "A")
    [textItem "C" 2 none [], textItem "D" 2 (some "C") [], textItem "E" 2 none []]

/-- `A PIC X(6)`, and the group over it. -/
def nestedOverlay : List DataItem :=
  [textItem "A" 6 none [], nestedGroup]

theorem lastClaim_nestedOverlay : lastClaim nestedOverlay "E".toList =
    some ⟨nestedGroup, textItem "A" 6 none [], textItem "E" 2 none [], 4, "      ".toList⟩ := rfl

/-- The view of `E` starts at 4, and not at 2. -/
theorem not_addresses : ¬∀ (items : List DataItem) (name : Text) (view : View),
    (buildRedefinesPlan items).views name = some view → Addresses items name view := by
  intro hall
  have hview : (buildRedefinesPlan nestedOverlay).views "E".toList =
      some ⟨"E".toList, "A".toList, 2, "  ".toList, 4, false⟩ := by decide
  obtain ⟨c, hc, -, -, hstarts, -⟩ := hall _ _ _ hview
  obtain rfl := Option.some.inj (lastClaim_nestedOverlay.symm.trans hc)
  have hgroup : starts nestedGroup = [(textItem "C" 2 none [], some 0),
      (textItem "D" 2 (some "C") [], some 0), (textItem "E" 2 none [], some 2)] := rfl
  rcases hstarts with ⟨-, h⟩ | ⟨-, ⟨-, h⟩ | h⟩
  · cases h
  · cases h
  · rw [hgroup] at h
    simp at h

/-- `B` with `C` and `E`, two characters each, over `A`. -/
def plainGroup : DataItem :=
  textItem "B" 0 (some "A") [textItem "C" 2 none [], textItem "E" 2 none []]

/-- `A PIC X(4)`, and the group over it. -/
def plainOverlay : List DataItem :=
  [textItem "A" 4 none [], plainGroup]

theorem lastClaim_plainOverlay : lastClaim plainOverlay "E".toList =
    some ⟨plainGroup, textItem "A" 4 none [], textItem "E" 2 none [], 2, "    ".toList⟩ := rfl

theorem addresses_iff_plain : Addresses plainOverlay "E".toList
    ⟨"E".toList, "A".toList, 2, "  ".toList, 2, false⟩ := by
  have hview : (buildRedefinesPlan plainOverlay).views "E".toList =
      some ⟨"E".toList, "A".toList, 2, "  ".toList, 2, false⟩ := by decide
  have hredefines : RedefinesItem plainOverlay plainGroup (textItem "A" 4 none []) :=
    ⟨"A".toList, rfl, plainOverlay, List.mem_cons_self, [], [], [], rfl, rfl, by simp⟩
  have hchildren : offsetsFrom 0 plainGroup.children =
      [(textItem "C" 2 none [], 0), (textItem "E" 2 none [], 2)] := rfl
  refine (addresses_iff hview).2 ⟨_, lastClaim_plainOverlay, .inr ⟨hredefines, ?_⟩⟩
  rw [hchildren]
  simp [textItem, baseKey, stated, Rose.label]

end CobolJava.Redefines
