import Mathlib.Data.List.Basic
import Mathlib.Logic.Basic

/-! # Transactions at READ COMMITTED

  An interleaving semantics for programs that talk to a database in
  transactions:

  - A statement is one atomic step. It reads the committed database with
    the transaction's own writes on top, it may lock rows, and it adds
    writes that stay private until the transaction commits.
  - A statement whose locks conflict with those of another open
    transaction is not enabled: it waits. Locks are held to the end of
    the transaction, and every written row is locked exclusively.
  - A transaction can be rolled back by its own program or be killed at
    any point; both drop its writes and its locks.
  - Every commit is recorded in a log, `State.wal`, with the database it
    was applied to.

  The database is any type with a `Store` structure; nothing here knows
  its tables.
-/

namespace ReadCommitted

/-! ## Section 1: Locks -/

/-- Row lock modes. `shared` is FOR SHARE and the lock a foreign key check
    takes; `exclusive` is FOR UPDATE and the lock of a written row. -/
inductive Mode where
  | shared
  | exclusive
deriving DecidableEq, Repr

/-- A set of locks, as the list in which they were taken. -/
abbrev Locks (κ : Type) : Type := List (κ × Mode)

/-- Two transactions can hold these locks at the same time. -/
def Compatible {κ : Type} (l l' : Locks κ) : Prop :=
  ∀ x ∈ l, ∀ y ∈ l', x.1 = y.1 → x.2 = .shared ∧ y.2 = .shared

instance {κ : Type} [DecidableEq κ] (l l' : Locks κ) : Decidable (Compatible l l') :=
  inferInstanceAs (Decidable (∀ x ∈ l, ∀ y ∈ l', x.1 = y.1 → x.2 = .shared ∧ y.2 = .shared))

theorem Compatible.symm {κ : Type} {l l' : Locks κ} (h : Compatible l l') :
    Compatible l' l := by
  intro y hy x hx hxy
  exact (h x hx y hy hxy.symm).symm

theorem compatible_nil_left {κ : Type} (l : Locks κ) : Compatible [] l := by
  intro x hx; cases hx

theorem compatible_nil_right {κ : Type} (l : Locks κ) : Compatible l [] := by
  intro x _ y hy; cases hy

/-- An exclusive lock excludes every lock of another transaction on the key. -/
theorem Compatible.not_mem_of_exclusive {κ : Type} {l l' : Locks κ} (h : Compatible l l')
    {k : κ} (hk : (k, Mode.exclusive) ∈ l) (m : Mode) : (k, m) ∉ l' := by
  intro hm
  have := (h _ hk _ hm rfl).1
  cases this

/-! ## Section 2: Stores -/

/-- Private write sets `W` over lockable keys `κ`. -/
class WriteSet (W : Type) (κ : outParam Type) where
  nothing : W
  append : W → W → W
  written : W → List κ

/-- What the semantics needs of a database type `D`. `Agree k` says that
    two databases have the same row under `k`; `tick n` hands out `n`
    identifiers, and like a sequence is never rolled back. -/
class Store (D : Type) (W κ : outParam Type) [WriteSet W κ] where
  apply : W → D → D
  tick : Nat → D → D
  Agree : κ → D → D → Prop

export WriteSet (nothing written)
export Store (tick Agree)

/-- The laws of a store. -/
class LawfulStore (D : Type) {W κ : outParam Type} [WriteSet W κ] [Store D W κ] : Prop where
  apply_nothing : ∀ d : D, Store.apply (nothing : W) d = d
  apply_append : ∀ (w w' : W) (d : D),
    Store.apply (WriteSet.append w w') d = Store.apply w' (Store.apply w d)
  append_nothing : ∀ w : W, WriteSet.append w nothing = w
  tick_zero : ∀ d : D, tick 0 d = d
  written_nothing : ∀ k : κ, k ∉ written (nothing : W)
  written_append : ∀ (w w' : W) (k : κ),
    k ∈ written (WriteSet.append w w') ↔ k ∈ written w ∨ k ∈ written w'
  agree_refl : ∀ (k : κ) (d : D), Agree k d d
  agree_trans : ∀ (k : κ) (a b c : D), Agree k a b → Agree k b c → Agree k a c
  agree_tick : ∀ (k : κ) (n : Nat) (d : D), Agree k d (tick n d)
  agree_apply : ∀ (k : κ) (w : W) (d : D), k ∉ written w → Agree k d (Store.apply w d)

/-! ## Section 3: Transactions -/

/-- What one statement does. `notes` are observations about what it read;
    no statement reads them back. `ids` is how many identifiers it draws. -/
structure Effect (W κ ν : Type) where
  locks : Locks κ := []
  writes : W
  notes : List ν := []
  ids : Nat := 0

/-- An open transaction: what its statements did so far. -/
structure Tx (W κ ν : Type) where
  locks : Locks κ
  writes : W
  notes : List ν

/-- What a statement sees: the committed database with the transaction's
    own writes on top, and the clock. -/
structure View (D : Type) where
  db : D
  now : Nat

variable {D W κ ν H R C ε α β : Type} [WriteSet W κ]

namespace Tx

/-- No transaction is open, or none of its statements ran yet. -/
def empty : Tx W κ ν := ⟨[], nothing, []⟩

/-- The transaction after one more statement. Written rows are locked. -/
def add (tx : Tx W κ ν) (e : Effect W κ ν) : Tx W κ ν where
  locks := tx.locks ++ (e.locks ++ (written e.writes).map fun k => (k, Mode.exclusive))
  writes := WriteSet.append tx.writes e.writes
  notes := tx.notes ++ e.notes

@[simp] theorem add_locks (tx : Tx W κ ν) (e : Effect W κ ν) : (tx.add e).locks
    = tx.locks ++ (e.locks ++ (written e.writes).map fun k => (k, Mode.exclusive)) := rfl

@[simp] theorem add_writes (tx : Tx W κ ν) (e : Effect W κ ν) :
    (tx.add e).writes = WriteSet.append tx.writes e.writes := rfl

@[simp] theorem add_notes (tx : Tx W κ ν) (e : Effect W κ ν) :
    (tx.add e).notes = tx.notes ++ e.notes := rfl

/-- What `tx` sees of the committed database `d`. -/
def view [Store D W κ] (tx : Tx W κ ν) (d : D) (now : Nat) : View D :=
  ⟨Store.apply tx.writes d, now⟩

end Tx

/-- The body of a transaction: a sequence of statements that ends with a
    value or throws. -/
inductive Txn (D W κ ν ε α : Type) : Type where
  | ret (a : α)
  | throw (e : ε)
  | stmt (act : View D → Effect W κ ν) (next : View D → Txn D W κ ν ε α)

namespace Txn

/-- Sequencing; a thrown error skips the rest. -/
def bind : Txn D W κ ν ε α → (α → Txn D W κ ν ε β) → Txn D W κ ν ε β
  | .ret a, k => k a
  | .throw e, _ => .throw e
  | .stmt act next, k => .stmt act fun v => (next v).bind k

instance : Monad (Txn D W κ ν ε) where
  pure := .ret
  bind := bind

/-- Lift a computation that touches no table. -/
def ofExcept : Except ε α → Txn D W κ ν ε α
  | .ok a => .ret a
  | .error e => .throw e

/-- Run one statement; the result is computed from what it sees, and an
    error ends the transaction. -/
def exec (act : View D → Effect W κ ν) (res : View D → Except ε α) : Txn D W κ ν ε α :=
  .stmt act fun v => ofExcept (res v)

/-- A plain `SELECT`. -/
def select (res : View D → α) : Txn D W κ ν ε α :=
  .stmt (fun _ => { writes := nothing }) fun v => .ret (res v)

/-- Rethrow every error as another one. -/
def mapError (f : ε → ε) : Txn D W κ ν ε α → Txn D W κ ν ε α
  | .ret a => .ret a
  | .throw e => .throw (f e)
  | .stmt act next => .stmt act fun v => (next v).mapError f

end Txn

/-! ## Section 4: Programs

    A program is what one client call runs: plain reads outside any
    transaction, transactions, and messages sent to the outside. -/

/-- A program that ends with a reply `R`. -/
inductive Prog (D W κ ν H R : Type) : Type where
  | done (r : R)
  | query (next : View D → Prog D W κ ν H R)
  | stmt (act : View D → Effect W κ ν) (next : View D → Prog D W κ ν H R)
  | rollback (next : Prog D W κ ν H R)
  | commit (next : Prog D W κ ν H R)
  | emit (h : H) (next : Prog D W κ ν H R)

/-- Run a body in a transaction: commit its value, or roll back and pass
    the error on. -/
def Txn.transact : Txn D W κ ν ε α → (Except ε α → Prog D W κ ν H R) → Prog D W κ ν H R
  | .ret a, k => .commit (k (.ok a))
  | .throw e, k => .rollback (k (.error e))
  | .stmt act next, k => .stmt act fun v => (next v).transact k

/-- Send a list of messages. -/
def Prog.emitAll : List H → Prog D W κ ν H R → Prog D W κ ν H R
  | [], next => next
  | h :: hs, next => .emit h (emitAll hs next)

/-! ## Section 5: States and steps -/

/-- One running or finished call. `seen` is the committed database of its
    last plain read and `last` the one of its last step (at first, both
    are the one it started in). No program reads these two. -/
structure Proc (D W κ ν H R C : Type) where
  call : C
  prog : Prog D W κ ν H R
  tx : Tx W κ ν
  seen : D
  last : D

/-- One commit: by which process, of what, onto which database. -/
structure Commit (D W κ ν C : Type) where
  pid : Nat
  call : C
  seen : D
  tx : Tx W κ ν
  before : D

/-- The database a commit leaves. -/
def Commit.after [Store D W κ] (c : Commit D W κ ν C) : D := Store.apply c.tx.writes c.before

/-- The committed database, the calls so far, the commits so far and the
    messages sent so far. -/
structure State (D W κ ν H R C : Type) where
  db : D
  procs : List (Proc D W κ ν H R C)
  wal : List (Commit D W κ ν C)
  hints : List H

/-- A new call arrives, a process runs its next step at some clock
    reading, or a process is stopped (its transaction aborts). -/
inductive Action (C : Type) where
  | start (c : C)
  | run (p : Nat) (now : Nat)
  | kill (p : Nat)

/-- The fixed parts of a system: the program of each call, which calls the
    environment lets in, the reply of a killed call, the first database. -/
structure System (D W κ ν H R C : Type) where
  code : C → Prog D W κ ν H R
  admits : D → C → Bool
  killed : R
  init : D

variable [Store D W κ]

/-- Go on with `prog` after a step in the database `d`. A pending rollback
    is carried out at once. -/
def Proc.resume (pr : Proc D W κ ν H R C) (d : D) (tx : Tx W κ ν) :
    Prog D W κ ν H R → Proc D W κ ν H R C
  | .rollback next => pr.resume d Tx.empty next
  | prog => { pr with last := d, tx := tx, prog := prog }

/-- A new process. -/
def Proc.fresh (c : C) (d : D) (prog : Prog D W κ ν H R) : Proc D W κ ν H R C :=
  Proc.resume ⟨c, prog, Tx.empty, d, d⟩ d Tx.empty prog

/-- No other process holds a lock that conflicts with `locks`. -/
def unblocked [DecidableEq κ] (procs : List (Proc D W κ ν H R C)) (p : Nat)
    (locks : Locks κ) : Bool :=
  procs.zipIdx.all fun x => x.2 == p || decide (Compatible x.1.tx.locks locks)

/-- The next step of the process `pr`, which has the number `p`. -/
def runProc [DecidableEq κ] (s : State D W κ ν H R C) (p now : Nat)
    (pr : Proc D W κ ν H R C) : Option (State D W κ ν H R C) :=
  match pr.prog with
  | .done _ => none
  | .query next =>
      some { s with
        procs := s.procs.set p
          (Proc.resume { pr with seen := s.db } s.db pr.tx (next (pr.tx.view s.db now))) }
  | .stmt act next =>
      let v := pr.tx.view s.db now
      let tx := pr.tx.add (act v)
      if unblocked s.procs p tx.locks then
        let db := tick (act v).ids s.db
        some { s with
          db := db
          procs := s.procs.set p (pr.resume db tx (next v)) }
      else none
  | .rollback _ => none
  | .commit next =>
      let db := Store.apply pr.tx.writes s.db
      some { s with
        db := db
        procs := s.procs.set p (pr.resume db Tx.empty next)
        wal := s.wal ++ [⟨p, pr.call, pr.seen, pr.tx, s.db⟩] }
  | .emit h next =>
      some { s with
        procs := s.procs.set p (pr.resume s.db pr.tx next)
        hints := s.hints ++ [h] }

/-- One step. A step that is not enabled gives `none`. -/
def step [DecidableEq κ] (sys : System D W κ ν H R C) (s : State D W κ ν H R C) :
    Action C → Option (State D W κ ν H R C)
  | .start c =>
      if sys.admits s.db c then
        some { s with procs := s.procs ++ [Proc.fresh c s.db (sys.code c)] }
      else none
  | .run p now =>
      match s.procs[p]? with
      | none => none
      | some pr => runProc s p now pr
  | .kill p =>
      match s.procs[p]? with
      | none => none
      | some pr =>
          match pr.prog with
          | .done _ => none
          | _ => some { s with
              procs := s.procs.set p (pr.resume s.db Tx.empty (.done sys.killed)) }

/-- The step `a` in `s` makes the commit `c`. -/
def Commits (s : State D W κ ν H R C) (a : Action C) (c : Commit D W κ ν C) : Prop :=
  ∃ now pr next, a = .run c.pid now ∧ s.procs[c.pid]? = some pr ∧ pr.prog = .commit next ∧
    c = ⟨c.pid, pr.call, pr.seen, pr.tx, s.db⟩

/-- Where every run starts. -/
def System.initial (sys : System D W κ ν H R C) : State D W κ ν H R C :=
  ⟨sys.init, [], [], []⟩

/-- States reached by runs whose steps all meet `ok`. -/
inductive Run [DecidableEq κ] (sys : System D W κ ν H R C)
    (ok : State D W κ ν H R C → Action C → Prop) : State D W κ ν H R C → Prop where
  | init : Run sys ok sys.initial
  | step : ∀ {s s'} a, Run sys ok s → ok s a → step sys s a = some s' → Run sys ok s'

/-- Take steps one after the other, as long as they pass `check`. -/
def driveIf [DecidableEq κ] (sys : System D W κ ν H R C)
    (check : State D W κ ν H R C → Action C → Bool) (s : State D W κ ν H R C) :
    List (Action C) → Option (State D W κ ν H R C)
  | [] => some s
  | a :: as =>
      if check s a then (step sys s a).bind fun s' => driveIf sys check s' as else none

/-- Take steps from the start, one after the other. -/
def drive [DecidableEq κ] (sys : System D W κ ν H R C) (as : List (Action C)) :
    Option (State D W κ ν H R C) := driveIf sys (fun _ _ => true) sys.initial as

theorem Run.driveIf [DecidableEq κ] {sys : System D W κ ν H R C}
    {ok : State D W κ ν H R C → Action C → Prop} {check : State D W κ ν H R C → Action C → Bool}
    (hcheck : ∀ s a, check s a = true → ok s a) {s s' : State D W κ ν H R C}
    {as : List (Action C)} (h : Run sys ok s)
    (hs : ReadCommitted.driveIf sys check s as = some s') : Run sys ok s' := by
  induction as generalizing s with
  | nil => cases hs; exact h
  | cons a as ih =>
    rw [ReadCommitted.driveIf] at hs
    split at hs
    · next ha =>
      obtain ⟨s₁, hstep, hrest⟩ := Option.bind_eq_some_iff.mp hs
      exact ih (.step a h (hcheck s a ha) hstep) hrest
    · cases hs

theorem Run.drive [DecidableEq κ] {sys : System D W κ ν H R C} {s : State D W κ ν H R C}
    {as : List (Action C)} (hs : ReadCommitted.drive sys as = some s) :
    Run sys (fun _ _ => True) s := .driveIf (fun _ _ _ => trivial) .init hs

/-- A run that was computed, by a fact about the state it ends in. -/
theorem Run.exists_of_driveIf [DecidableEq κ] (sys : System D W κ ν H R C)
    {ok : State D W κ ν H R C → Action C → Prop} {check : State D W κ ν H R C → Action C → Bool}
    (hcheck : ∀ s a, check s a = true → ok s a) (as : List (Action C))
    (q : State D W κ ν H R C → Bool)
    (h : (ReadCommitted.driveIf sys check sys.initial as).any q = true) :
    ∃ s, Run sys ok s ∧ q s = true := by
  obtain ⟨s, hs, hq⟩ := (Option.any_eq_true _ _).mp h
  exact ⟨s, .driveIf hcheck .init hs, hq⟩

theorem Run.exists_of_drive [DecidableEq κ] (sys : System D W κ ν H R C) (as : List (Action C))
    (q : State D W κ ν H R C → Bool) (h : (ReadCommitted.drive sys as).any q = true) :
    ∃ s, Run sys (fun _ _ => True) s ∧ q s = true :=
  Run.exists_of_driveIf sys (fun _ _ _ => trivial) as q h

/-- Calls that run one after the other, each for so many steps. The first
    one is process `p`. -/
def serial (now : Nat) : Nat → List (C × Nat) → List (Action C)
  | _, [] => []
  | p, (c, n) :: rest => .start c :: (List.replicate n (.run p now) ++ serial now (p + 1) rest)

/-- States reached by any run. -/
abbrev Reachable [DecidableEq κ] (sys : System D W κ ν H R C) :
    State D W κ ν H R C → Prop :=
  Run sys fun _ _ => True

theorem Run.mono [DecidableEq κ] {sys : System D W κ ν H R C}
    {ok ok' : State D W κ ν H R C → Action C → Prop} (h : ∀ s a, ok s a → ok' s a)
    {s : State D W κ ν H R C} (hs : Run sys ok s) : Run sys ok' s := by
  induction hs with
  | init => exact .init
  | step a _ ha hstep ih => exact .step a ih (h _ _ ha) hstep

/-- In every run each step starts in a reachable state. -/
theorem Run.reachable [DecidableEq κ] {sys : System D W κ ν H R C} {s : State D W κ ν H R C}
    (hs : Reachable sys s) : Run sys (fun s _ => Reachable sys s) s := by
  induction hs with
  | init => exact .init
  | step a hs _ hstep ih => exact .step a ih hs hstep

/-- The system goes from `s` to `s'`. -/
inductive Steps [DecidableEq κ] (sys : System D W κ ν H R C) (s : State D W κ ν H R C) :
    State D W κ ν H R C → Prop where
  | refl : Steps sys s s
  | step : ∀ {s' s''} a, Steps sys s s' → step sys s' a = some s'' → Steps sys s s''

theorem Steps.reachable [DecidableEq κ] {sys : System D W κ ν H R C} {s s' : State D W κ ν H R C}
    (h : Steps sys s s') (hs : Reachable sys s) : Reachable sys s' := by
  induction h with
  | refl => exact hs
  | step a _ hstep ih => exact .step a ih trivial hstep

/-- Steps that were computed, by a fact about the state they end in. -/
theorem Steps.exists_of_drive [DecidableEq κ] (sys : System D W κ ν H R C) (s : State D W κ ν H R C)
    (as : List (Action C)) (q : State D W κ ν H R C → Bool)
    (h : (ReadCommitted.driveIf sys (fun _ _ => true) s as).any q = true) :
    ∃ s', Steps sys s s' ∧ q s' = true := by
  have hsteps : ∀ {as s₀ s'}, Steps sys s s₀ →
      ReadCommitted.driveIf sys (fun _ _ => true) s₀ as = some s' → Steps sys s s' := by
    intro as
    induction as with
    | nil =>
      intro s₀ s' hs₀ hdrive
      cases hdrive
      exact hs₀
    | cons a as ih =>
      intro s₀ s' hs₀ hdrive
      obtain ⟨s₁, hstep, hrest⟩ := Option.bind_eq_some_iff.mp hdrive
      exact ih (.step a hs₀ hstep) hrest
  obtain ⟨s', hs', hq⟩ := (Option.any_eq_true _ _).mp h
  exact ⟨s', hsteps .refl hs', hq⟩

end ReadCommitted
