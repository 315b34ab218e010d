/-
**Programs that count slots.**

Threads that reserve slots on one shared counter: a program takes a slot if the counter is below a
limit, gives it back, or launches another thread, which the slot passes to.  Calls may raise, and
programs handle exceptions.  The slots have numbers, which no program sees: with them, that a slot is
given back once is a statement about the run.

Main definitions:

* `Slots.Prog` — programs, with `try … except` and `try … finally`;
* `Slots.Thread`, `Slots.State`, `Slots.Step` — any interleaving of the threads;
* `Slots.Balanced` — how a program accounts for its slot, however it ends.

Main results:

* `Slots.Balanced.sound` — **a balanced program keeps the account** at every step;
* `Slots.Accounted.exact` — what the account says about the counter and the slots.
-/

import Mathlib.Data.List.Perm.Basic
import Mathlib.Data.List.Nodup
import Mathlib.Data.List.Range
import Mathlib.Data.Int.Order.Basic

set_option autoImplicit false

namespace Slots

/-! ### Programs -/

/-- Programs over one slot. -/
inductive Prog
  | skip
  /-- A call that returns or raises. -/
  | call
  | raise
  /-- Take a slot, or raise when the limit is reached. -/
  | acquire
  | release
  /-- Start a thread, which the slot passes to, or raise and start none. -/
  | launch (worker : Prog)
  | seq (first rest : Prog)
  /-- The handler decides how the whole ends. -/
  | tryExcept (body handler : Prog)
  | tryFinally (body final : Prog)

/-- What is left to do around the program that is running. -/
inductive Frame
  | next (rest : Prog)
  | except (handler : Prog)
  | final (final : Prog)
  /-- Behind a `finally`: the outcome that waits for its end. -/
  | resume (raised : Bool)

/-- The program that is running, or its outcome. -/
inductive Control
  | eval (p : Prog)
  | done (raised : Bool)

/-- A thread, with the number of the slot it holds. -/
structure Thread where
  control : Control
  frames : List Frame
  slot : Option ℕ

/-- The thread has ended, by a return or by an exception. -/
def Thread.Ended (t : Thread) : Prop :=
  t.frames = [] ∧ ∃ raised, t.control = .done raised

def Thread.start (p : Prog) (slot : Option ℕ) : Thread :=
  ⟨.eval p, [], slot⟩

/-- The moves that do not touch the counter. -/
inductive Move : Control × List Frame → Control × List Frame → Prop
  | skip {K : List Frame} : Move (.eval .skip, K) (.done false, K)
  | call {K : List Frame} (raised : Bool) : Move (.eval .call, K) (.done raised, K)
  | raise {K : List Frame} : Move (.eval .raise, K) (.done true, K)
  | seq {p q : Prog} {K : List Frame} : Move (.eval (.seq p q), K) (.eval p, .next q :: K)
  | tryExcept {p q : Prog} {K : List Frame} :
      Move (.eval (.tryExcept p q), K) (.eval p, .except q :: K)
  | tryFinally {p q : Prog} {K : List Frame} :
      Move (.eval (.tryFinally p q), K) (.eval p, .final q :: K)
  | next {q : Prog} {K : List Frame} : Move (.done false, .next q :: K) (.eval q, K)
  | skipNext {q : Prog} {K : List Frame} : Move (.done true, .next q :: K) (.done true, K)
  | skipHandler {q : Prog} {K : List Frame} : Move (.done false, .except q :: K) (.done false, K)
  | handle {q : Prog} {K : List Frame} : Move (.done true, .except q :: K) (.eval q, K)
  | final {q : Prog} {K : List Frame} (raised : Bool) :
      Move (.done raised, .final q :: K) (.eval q, .resume raised :: K)
  | resume {K : List Frame} (raised : Bool) :
      Move (.done false, .resume raised :: K) (.done raised, K)
  | failedFinal {K : List Frame} (raised : Bool) :
      Move (.done true, .resume raised :: K) (.done true, K)

/-- The counter, the number of slots taken so far, the slots given back so far, and the threads.
Giving back without a slot is recorded as `none`. -/
structure State where
  active : ℤ
  taken : ℕ
  released : List (Option ℕ)
  threads : List Thread

def heldBy (threads : List Thread) : List (Option ℕ) :=
  (threads.map Thread.slot).filter Option.isSome

/-- The number of threads that hold a slot. -/
def holders (threads : List Thread) : ℕ :=
  threads.countP fun t => t.slot.isSome

def Start (s : State) : Prop :=
  s = ⟨0, 0, [], []⟩

/-- An acquisition with the limit it was made under, or any other step. -/
inductive Action
  | acquire (limit : ℤ)
  | other

/-- The steps: a request begins, or one of the threads makes a move. -/
inductive Step (methods : List Prog) : State → Action → State → Prop
  | request {s : State} {p : Prog} (h : p ∈ methods) :
      Step methods s .other { s with threads := s.threads ++ [.start p none] }
  | move {active : ℤ} {taken : ℕ} {released : List (Option ℕ)} {front back : List Thread}
      {c c' : Control} {K K' : List Frame} {slot : Option ℕ} (h : Move (c, K) (c', K')) :
      Step methods ⟨active, taken, released, front ++ ⟨c, K, slot⟩ :: back⟩ .other
        ⟨active, taken, released, front ++ ⟨c', K', slot⟩ :: back⟩
  | acquire {active limit : ℤ} {taken : ℕ} {released : List (Option ℕ)}
      {front back : List Thread} {K : List Frame} {slot : Option ℕ} (h : active < limit) :
      Step methods ⟨active, taken, released, front ++ ⟨.eval .acquire, K, slot⟩ :: back⟩
        (.acquire limit)
        ⟨active + 1, taken + 1, released, front ++ ⟨.done false, K, some taken⟩ :: back⟩
  | refuse {active limit : ℤ} {taken : ℕ} {released : List (Option ℕ)}
      {front back : List Thread} {K : List Frame} {slot : Option ℕ} (h : limit ≤ active) :
      Step methods ⟨active, taken, released, front ++ ⟨.eval .acquire, K, slot⟩ :: back⟩ .other
        ⟨active, taken, released, front ++ ⟨.done true, K, slot⟩ :: back⟩
  | release {active : ℤ} {taken : ℕ} {released : List (Option ℕ)} {front back : List Thread}
      {K : List Frame} {slot : Option ℕ} :
      Step methods ⟨active, taken, released, front ++ ⟨.eval .release, K, slot⟩ :: back⟩ .other
        ⟨active - 1, taken, slot :: released, front ++ ⟨.done false, K, none⟩ :: back⟩
  | launch {active : ℤ} {taken : ℕ} {released : List (Option ℕ)} {front back : List Thread}
      {worker : Prog} {K : List Frame} {slot : Option ℕ} :
      Step methods ⟨active, taken, released, front ++ ⟨.eval (.launch worker), K, slot⟩ :: back⟩
        .other
        ⟨active, taken, released,
          front ++ ⟨.done false, K, none⟩ :: (back ++ [.start worker slot])⟩
  | launchFails {active : ℤ} {taken : ℕ} {released : List (Option ℕ)}
      {front back : List Thread} {worker : Prog} {K : List Frame} {slot : Option ℕ} :
      Step methods ⟨active, taken, released, front ++ ⟨.eval (.launch worker), K, slot⟩ :: back⟩
        .other ⟨active, taken, released, front ++ ⟨.done true, K, slot⟩ :: back⟩

/-! ### Balanced programs -/

/-- `Balanced p h n e`: begun with a slot (or without, by `h`), the program returns with a slot by
`n` and raises with a slot by `e`; the threads it launches give theirs back. -/
inductive Balanced : Prog → Bool → Bool → Bool → Prop
  | skip {h e : Bool} : Balanced .skip h h e
  | call {h : Bool} : Balanced .call h h h
  | raise {h n : Bool} : Balanced .raise h n h
  | acquire : Balanced .acquire false true false
  | release {e : Bool} : Balanced .release true false e
  | launch {worker : Prog} (h : Balanced worker true false false) :
      Balanced (.launch worker) true false true
  | seq {p q : Prog} {h m n e : Bool} (hp : Balanced p h m e) (hq : Balanced q m n e) :
      Balanced (.seq p q) h n e
  | tryExcept {p q : Prog} {h n e e' : Bool} (hp : Balanced p h n e') (hq : Balanced q e' n e) :
      Balanced (.tryExcept p q) h n e
  | tryFinally {p q : Prog} {h n n' e e' : Bool} (hp : Balanced p h n' e')
      (hreturn : Balanced q n' n e) (hraise : Balanced q e' e e) :
      Balanced (.tryFinally p q) h n e

/-- `Frames K n e`: with a slot by `n` at a return and by `e` at an exception, what is left to do

ends without a slot. -/
inductive Frames : List Frame → Bool → Bool → Prop
  | nil : Frames [] false false
  | next {q : Prog} {K : List Frame} {n n' e : Bool} (hq : Balanced q n n' e)
      (hK : Frames K n' e) : Frames (.next q :: K) n e
  | except {q : Prog} {K : List Frame} {n e e' : Bool} (hq : Balanced q e n e')
      (hK : Frames K n e') : Frames (.except q :: K) n e
  | final {q : Prog} {K : List Frame} {n n' e e' : Bool} (hreturn : Balanced q n n' e')
      (hraise : Balanced q e e' e') (hK : Frames K n' e') : Frames (.final q :: K) n e
  | resumeReturn {K : List Frame} {n e : Bool} (hK : Frames K n e) :
      Frames (.resume false :: K) n e
  | resumeRaise {K : List Frame} {n e : Bool} (hK : Frames K n e) :
      Frames (.resume true :: K) e e

/-- A thread that will end without a slot. -/
inductive Settled : Control → List Frame → Bool → Prop
  | eval {p : Prog} {K : List Frame} {h n e : Bool} (hp : Balanced p h n e) (hK : Frames K n e) :
      Settled (.eval p) K h
  | returned {K : List Frame} {n e : Bool} (hK : Frames K n e) : Settled (.done false) K n
  | raised {K : List Frame} {n e : Bool} (hK : Frames K n e) : Settled (.done true) K e

/-- A move keeps a thread settled. -/
theorem Settled.move {c c' : Control} {K K' : List Frame} {h : Bool} (hsettled : Settled c K h)
    (hmove : Move (c, K) (c', K')) : Settled c' K' h := by
  cases hmove with
  | skip =>
      cases hsettled with
      | eval hp hK => cases hp; exact .returned hK
  | call raised =>
      cases hsettled with
      | eval hp hK =>
          cases hp
          cases raised
          · exact .returned hK
          · exact .raised hK
  | raise =>
      cases hsettled with
      | eval hp hK => cases hp; exact .raised hK
  | seq =>
      cases hsettled with
      | eval hp hK =>
          cases hp with
          | seq hp hq => exact .eval hp (.next hq hK)
  | tryExcept =>
      cases hsettled with
      | eval hp hK =>
          cases hp with
          | tryExcept hp hq => exact .eval hp (.except hq hK)
  | tryFinally =>
      cases hsettled with
      | eval hp hK =>
          cases hp with
          | tryFinally hp hreturn hraise => exact .eval hp (.final hreturn hraise hK)
  | next =>
      cases hsettled with
      | returned hK =>
          cases hK with
          | next hq hK => exact .eval hq hK
  | skipNext =>
      cases hsettled with
      | raised hK =>
          cases hK with
          | next hq hK => exact .raised hK
  | skipHandler =>
      cases hsettled with
      | returned hK =>
          cases hK with
          | except hq hK => exact .returned hK
  | handle =>
      cases hsettled with
      | raised hK =>
          cases hK with
          | except hq hK => exact .eval hq hK
  | final raised =>
      cases hsettled with
      | returned hK =>
          cases hK with
          | final hreturn hraise hK => exact .eval hreturn (.resumeReturn hK)
      | raised hK =>
          cases hK with
          | final hreturn hraise hK => exact .eval hraise (.resumeRaise hK)
  | resume raised =>
      cases hsettled with
      | returned hK =>
          cases hK with
          | resumeReturn hK => exact .returned hK
          | resumeRaise hK => exact .raised hK
  | failedFinal raised =>
      cases hsettled with
      | raised hK =>
          cases hK with
          | resumeReturn hK => exact .raised hK
          | resumeRaise hK => exact .raised hK

/-! ### The account -/

/-- The account of a state: every thread will end without a slot, the counter counts the holders,
and every slot taken so far was given back once or is held once. -/
structure Accounted (s : State) : Prop where
  settled : ∀ t ∈ s.threads, Settled t.control t.frames t.slot.isSome
  counter : s.active = holders s.threads
  slots : (s.released ++ heldBy s.threads).Perm ((List.range s.taken).map some)

@[simp] theorem heldBy_append (front back : List Thread) :
    heldBy (front ++ back) = heldBy front ++ heldBy back := by
  simp [heldBy]

@[simp] theorem heldBy_some {c : Control} {K : List Frame} {k : ℕ} (back : List Thread) :
    heldBy (⟨c, K, some k⟩ :: back) = some k :: heldBy back := by
  simp [heldBy]

@[simp] theorem heldBy_none {c : Control} {K : List Frame} (back : List Thread) :
    heldBy (⟨c, K, none⟩ :: back) = heldBy back := by
  simp [heldBy]

@[simp] theorem holders_append (front back : List Thread) :
    holders (front ++ back) = holders front + holders back := by
  simp [holders]

@[simp] theorem holders_some {c : Control} {K : List Frame} {k : ℕ} (back : List Thread) :
    holders (⟨c, K, some k⟩ :: back) = holders back + 1 := by
  simp [holders]

@[simp] theorem holders_none {c : Control} {K : List Frame} (back : List Thread) :
    holders (⟨c, K, none⟩ :: back) = holders back := by
  simp [holders]

@[simp] theorem heldBy_nil : heldBy [] = [] := rfl

@[simp] theorem holders_nil : holders [] = 0 := rfl

section Steps

variable {active : ℤ} {taken : ℕ} {released : List (Option ℕ)} {front back : List Thread}
  {c c' : Control} {K K' : List Frame} {slot : Option ℕ}

theorem Accounted.mover
    (h : Accounted ⟨active, taken, released, front ++ ⟨c, K, slot⟩ :: back⟩) :
    Settled c K slot.isSome :=
  h.settled ⟨c, K, slot⟩ (by simp)

theorem Accounted.settled_insert {t' : Thread}
    (h : Accounted ⟨active, taken, released, front ++ ⟨c, K, slot⟩ :: back⟩)
    (hmoved : Settled t'.control t'.frames t'.slot.isSome) :
    ∀ u ∈ front ++ t' :: back, Settled u.control u.frames u.slot.isSome := by
  intro u hu
  obtain hu | rfl | hu : u ∈ front ∨ u = t' ∨ u ∈ back := by simpa using hu
  · exact h.settled u (by simp [hu])
  · exact hmoved
  · exact h.settled u (by simp [hu])

theorem Accounted.keep
    (h : Accounted ⟨active, taken, released, front ++ ⟨c, K, slot⟩ :: back⟩)
    (hmoved : Settled c' K' slot.isSome) :
    Accounted ⟨active, taken, released, front ++ ⟨c', K', slot⟩ :: back⟩ := by
  refine ⟨h.settled_insert hmoved, ?_, ?_⟩
  · have hcounter := h.counter
    cases slot <;> simpa using hcounter
  · have hslots := h.slots
    cases slot <;> simpa using hslots

/-- An acquisition takes the next slot. -/
theorem Accounted.acquire
    (h : Accounted ⟨active, taken, released, front ++ ⟨.eval .acquire, K, slot⟩ :: back⟩) :
    Accounted ⟨active + 1, taken + 1, released, front ++ ⟨.done false, K, some taken⟩ :: back⟩ := by
  -- a balanced program only acquires without a slot
  obtain ⟨rfl, hK⟩ : slot = none ∧ ∃ n e, Frames K n e ∧ n = true := by
    have hmover := h.mover
    generalize hslot : slot.isSome = held at hmover
    cases hmover with
    | eval hp hK =>
        cases hp
        exact ⟨by simpa using hslot, _, _, hK, rfl⟩
  obtain ⟨n, e, hK, rfl⟩ := hK
  refine ⟨h.settled_insert (.returned hK), ?_, ?_⟩
  · have hcounter := h.counter
    simp only [holders_append, holders_none, holders_some] at hcounter ⊢
    push_cast at hcounter ⊢
    omega
  · have hslots := h.slots
    simp only [heldBy_append, heldBy_none, heldBy_some] at hslots ⊢
    rw [List.range_succ, List.map_append, List.map_singleton, ← List.append_assoc]
    refine List.perm_middle.trans ((List.Perm.cons _ ?_).trans (List.perm_append_singleton _ _).symm)
    rwa [List.append_assoc]

/-- A release gives the slot of its thread back. -/
theorem Accounted.release
    (h : Accounted ⟨active, taken, released, front ++ ⟨.eval .release, K, slot⟩ :: back⟩) :
    Accounted ⟨active - 1, taken, slot :: released, front ++ ⟨.done false, K, none⟩ :: back⟩ := by
  obtain ⟨⟨k, rfl⟩, n, e, hK, rfl⟩ : (∃ k, slot = some k) ∧ ∃ n e, Frames K n e ∧ n = false := by
    have hmover := h.mover
    generalize hslot : slot.isSome = held at hmover
    cases hmover with
    | eval hp hK =>
        cases hp
        exact ⟨Option.isSome_iff_exists.1 hslot, _, _, hK, rfl⟩
  refine ⟨h.settled_insert (.returned hK), ?_, ?_⟩
  · have hcounter := h.counter
    simp only [holders_append, holders_none, holders_some] at hcounter ⊢
    push_cast at hcounter ⊢
    omega
  · have hslots := h.slots
    simp only [heldBy_append, heldBy_none, heldBy_some] at hslots ⊢
    refine List.Perm.trans ?_ hslots
    rw [List.cons_append, ← List.append_assoc, ← List.append_assoc]
    exact List.perm_middle.symm

/-- A thread that is launched takes the slot over. -/
theorem Accounted.launch {worker : Prog}
    (h : Accounted ⟨active, taken, released, front ++ ⟨.eval (.launch worker), K, slot⟩ :: back⟩) :
    Accounted ⟨active, taken, released,
      front ++ ⟨.done false, K, none⟩ :: (back ++ [.start worker slot])⟩ := by
  obtain ⟨⟨k, rfl⟩, hworker, n, e, hK, rfl⟩ : (∃ k, slot = some k) ∧
      Balanced worker true false false ∧ ∃ n e, Frames K n e ∧ n = false := by
    have hmover := h.mover
    generalize hslot : slot.isSome = held at hmover
    cases hmover with
    | eval hp hK =>
        cases hp with
        | launch hworker =>
            exact ⟨Option.isSome_iff_exists.1 hslot, hworker, _, _, hK, rfl⟩
  refine ⟨?_, ?_, ?_⟩
  · intro u hu
    rw [← List.cons_append, ← List.append_assoc, List.mem_append, List.mem_singleton] at hu
    obtain hu | rfl := hu
    · have hmoved : Settled (Thread.mk (.done false) K none).control K false := .returned hK
      exact h.settled_insert hmoved u hu
    · exact .eval hworker .nil
  · have hcounter := h.counter
    simp only [Thread.start, holders_append, holders_none, holders_some, holders_nil] at hcounter ⊢
    push_cast at hcounter ⊢
    omega
  · have hslots := h.slots
    simp only [Thread.start, heldBy_append, heldBy_none, heldBy_some, heldBy_nil] at hslots ⊢
    refine List.Perm.trans (List.Perm.append_left _ (List.Perm.append_left _ ?_)) hslots
    exact List.perm_append_singleton _ _

theorem Accounted.fail {p : Prog}
    (h : Accounted ⟨active, taken, released, front ++ ⟨.eval p, K, slot⟩ :: back⟩)
    (hp : p = .acquire ∨ ∃ worker, p = .launch worker) :
    Accounted ⟨active, taken, released, front ++ ⟨.done true, K, slot⟩ :: back⟩ := by
  refine h.keep ?_
  have hmover := h.mover
  generalize slot.isSome = held at hmover
  obtain rfl | ⟨worker, rfl⟩ := hp
  · cases hmover with
    | eval hp hK => cases hp; exact .raised hK
  · cases hmover with
    | eval hp hK => cases hp; exact .raised hK

end Steps

/-- **A balanced program keeps the account**: whatever step is made from an accounted state, when
every request runs a balanced program. -/
theorem Balanced.sound {methods : List Prog} (hmethods : ∀ p ∈ methods, Balanced p false false false)
    {s s' : State} {a : Action} (h : Accounted s) (hstep : Step methods s a s') : Accounted s' := by
  cases hstep with
  | @request s p hp =>
      refine ⟨?_, ?_, ?_⟩
      · intro t ht
        obtain ht | rfl := (List.mem_append.1 ht).imp_right List.mem_singleton.1
        · exact h.settled t ht
        · exact .eval (hmethods p hp) .nil
      · simpa [Thread.start] using h.counter
      · simpa [Thread.start] using h.slots
  | move hmove => exact h.keep (h.mover.move hmove)
  | acquire hlimit => exact h.acquire
  | refuse hlimit => exact h.fail (.inl rfl)
  | release => exact h.release
  | launch => exact h.launch
  | launchFails => exact h.fail (.inr ⟨_, rfl⟩)

theorem Accounted.start {s : State} (h : Start s) : Accounted s := by
  obtain rfl := h
  exact ⟨by simp, rfl, List.Perm.refl _⟩

theorem Settled.slot_of_ended {t : Thread} (h : Settled t.control t.frames t.slot.isSome)
    (hended : t.Ended) : t.slot = none := by
  obtain ⟨hframes, raised, hcontrol⟩ := hended
  rw [hframes, hcontrol] at h
  generalize hslot : t.slot.isSome = held at h
  cases h with
  | returned hK => cases hK; simpa using hslot
  | raised hK => cases hK; simpa using hslot

/-- **What the account says**: no slot is given back twice or while it is held, nothing is given
back that was not taken, and when every thread has ended the counter is zero and every slot taken
was given back. -/
theorem Accounted.exact {s : State} (h : Accounted s) :
    (s.released ++ heldBy s.threads).Nodup ∧
    (∀ slot ∈ s.released, ∃ k < s.taken, slot = some k) ∧
    ((∀ t ∈ s.threads, t.Ended) →
      s.active = 0 ∧ s.released.Perm ((List.range s.taken).map some)) := by
  refine ⟨?_, ?_, ?_⟩
  · rw [h.slots.nodup_iff]
    exact List.nodup_range.map fun _ _ => Option.some.inj
  · intro slot hslot
    have hmem := h.slots.mem_iff.1 (List.mem_append_left _ hslot)
    obtain ⟨k, hk, rfl⟩ := List.mem_map.1 hmem
    exact ⟨k, List.mem_range.1 hk, rfl⟩
  · intro hended
    have hnone : ∀ t ∈ s.threads, t.slot = none := fun t ht =>
      (h.settled t ht).slot_of_ended (hended t ht)
    have hheld : heldBy s.threads = [] := by
      simp only [heldBy, List.filter_eq_nil_iff, List.mem_map]
      rintro slot ⟨t, ht, rfl⟩
      simp [hnone t ht]
    have hholders : holders s.threads = 0 := by
      simp only [holders, List.countP_eq_zero]
      intro t ht
      simp [hnone t ht]
    have hslots := h.slots
    rw [hheld, List.append_nil] at hslots
    exact ⟨by rw [h.counter, hholders]; rfl, hslots⟩

end Slots
