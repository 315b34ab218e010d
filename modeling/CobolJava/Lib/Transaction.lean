/-
**Statements on one connection, with implicit transactions.**

A connection holds the state last committed and the state its own statements see.  A statement that
writes opens a transaction when none is open; only `commit` and `rollback` end it, an exception does
not.  A program is a sequence of statements that may end with an exception, and whatever it has
written by then stays pending.

Main definitions:

* `Connection` — the two states, and `Connection.Idle`, nothing pending;
* `Tx` — the programs;
* `Tx.fetch`, `Tx.execute`, `Tx.executeCount`, `Tx.executeOrRaise`, `Tx.commit`, `Tx.rollback`,
  `Tx.raise`, `Tx.ofExcept` — the steps;
* `Tx.Atomic` — programs whose failures leave the connection as it was.
-/

import CobolJava.Lib.PyExc

set_option autoImplicit false

/-- A connection to a database whose states are of type `σ`. -/
@[ext]
structure Connection (σ : Type*) where
  /-- What is committed. -/
  committed : σ
  /-- What the statements of the connection see. -/
  working : σ

/-- A connection without pending writes. -/
def Connection.Idle {σ : Type*} (c : Connection σ) : Prop := c.working = c.committed

/-- A program over the connection: its result or its exception, and the connection it leaves. -/
def Tx (σ ε α : Type) : Type := Connection σ → Except ε α × Connection σ

namespace Tx

variable {σ ε α β : Type}

instance : Monad (Tx σ ε) where
  pure a := fun c => (.ok a, c)
  bind x f := fun c =>
    match x c with
    | (.ok a, c') => f a c'
    | (.error e, c') => (.error e, c')

/-! ### Steps -/

def fetch (f : σ → α) : Tx σ ε α := fun c => (.ok (f c.working), c)

def execute (f : σ → σ) : Tx σ ε Unit := fun c => (.ok (), { c with working := f c.working })

/-- A statement that writes, with the number of rows it matched. -/
def executeCount (count : σ → ℕ) (f : σ → σ) : Tx σ ε ℕ :=
  fun c => (.ok (count c.working), { c with working := f c.working })

/-- A statement that a constraint may refuse; refused, it writes nothing. -/
def executeOrRaise (f : σ → Option σ) (e : ε) : Tx σ ε Unit := fun c =>
  match f c.working with
  | some s => (.ok (), { c with working := s })
  | none => (.error e, c)

/-- The end of the transaction that keeps its writes. -/
def commit : Tx σ ε Unit := fun c => (.ok (), { c with committed := c.working })

/-- The end of the transaction that discards its writes. -/
def rollback : Tx σ ε Unit := fun c => (.ok (), { c with working := c.committed })

def raise (e : ε) : Tx σ ε α := fun c => (.error e, c)

/-- A computation that does not touch the connection. -/
def ofExcept (r : Except ε α) : Tx σ ε α := fun c => (r, c)

/-- The program without its result. -/
def discard (x : Tx σ ε α) : Tx σ ε Unit := fun c => ((x c).1.map fun _ => (), (x c).2)

@[simp] theorem discard_snd (x : Tx σ ε α) (c : Connection σ) : (x.discard c).2 = (x c).2 := rfl

theorem discard_eq_error_iff {x : Tx σ ε α} {c : Connection σ} {e : ε} :
    (x.discard c).1 = .error e ↔ (x c).1 = .error e := by
  change (x c).1.map (fun _ => ()) = _ ↔ _
  cases (x c).1 <;> simp [Except.map]

@[simp] theorem pure_run (a : α) (c : Connection σ) : (pure a : Tx σ ε α) c = (.ok a, c) := rfl

@[simp] theorem fetch_bind (f : σ → α) (g : α → Tx σ ε β) (c : Connection σ) :
    (fetch f >>= g) c = g (f c.working) c := rfl

@[simp] theorem execute_bind (f : σ → σ) (g : Unit → Tx σ ε β) (c : Connection σ) :
    (execute f >>= g) c = g () { c with working := f c.working } := rfl

@[simp] theorem executeCount_bind (count : σ → ℕ) (f : σ → σ) (g : ℕ → Tx σ ε β)
    (c : Connection σ) :
    (executeCount count f >>= g) c = g (count c.working) { c with working := f c.working } := rfl

theorem executeOrRaise_some_bind {f : σ → Option σ} {s : σ} {c : Connection σ}
    (h : f c.working = some s) (e : ε) (g : Unit → Tx σ ε β) :
    (executeOrRaise f e >>= g) c = g () { c with working := s } := by
  simp only [bind, executeOrRaise, h]

theorem executeOrRaise_none_bind {f : σ → Option σ} {c : Connection σ}
    (h : f c.working = none) (e : ε) (g : Unit → Tx σ ε β) :
    (executeOrRaise f e >>= g) c = (.error e, c) := by
  simp only [bind, executeOrRaise, h]

@[simp] theorem commit_run (c : Connection σ) :
    (commit : Tx σ ε Unit) c = (.ok (), { c with committed := c.working }) := rfl

@[simp] theorem commit_bind (g : Unit → Tx σ ε β) (c : Connection σ) :
    (commit >>= g) c = g () { c with committed := c.working } := rfl

@[simp] theorem rollback_bind (g : Unit → Tx σ ε β) (c : Connection σ) :
    (rollback >>= g) c = g () { c with working := c.committed } := rfl

@[simp] theorem raise_run (e : ε) (c : Connection σ) :
    (raise e : Tx σ ε α) c = (.error e, c) := rfl

@[simp] theorem raise_bind (e : ε) (g : α → Tx σ ε β) (c : Connection σ) :
    (raise e >>= g) c = (.error e, c) := rfl

@[simp] theorem ofExcept_run (r : Except ε α) (c : Connection σ) :
    (ofExcept r : Tx σ ε α) c = (r, c) := rfl

theorem ofExcept_bind (r : Except ε α) (g : α → Tx σ ε β) (c : Connection σ) :
    (ofExcept r >>= g) c =
      match r with
      | .ok a => g a c
      | .error e => (.error e, c) := by
  cases r <;> rfl

/-! ### Atomic programs -/

/-- A failure of the program leaves the connection as it was. -/
def Atomic (x : Tx σ ε α) : Prop := ∀ c e, (x c).1 = .error e → (x c).2 = c

end Tx
