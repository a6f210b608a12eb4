import Homi.Framework.ReadCommitted
import Mathlib.Data.List.Forall2

/-! # Reasoning under interference

  Proof rules for `ReadCommitted` systems, one process at a time.

  A `Protocol` fixes what other processes may do to the committed
  database while a transaction holds its locks (`rely`), and what a
  transaction guarantees when it commits (`guar`). `Protocol.Safe` is the
  symbolic execution of one program in which the database may move by
  `rely` before every step; `Protocol.wp` is the same for the body of a
  transaction. `Protocol.sound` puts the processes together: when every
  guarantee implies every rely, all processes are safe in every run.
-/

namespace ReadCommitted

variable {D W κ ν H R C ε α β : Type}

/-! ## Section 1: What a step can do -/

theorem unblocked_iff [DecidableEq κ] {procs : List (Proc D W κ ν H R C)} {p : Nat}
    {locks : Locks κ} :
    unblocked procs p locks = true ↔
      ∀ q qr, procs[q]? = some qr → q ≠ p → Compatible qr.tx.locks locks := by
  simp only [unblocked, List.all_eq_true, Bool.or_eq_true, beq_iff_eq, decide_eq_true_eq]
  constructor
  · intro h q qr hq hqp
    have hmem : (qr, q) ∈ procs.zipIdx := by
      rw [List.mem_zipIdx_iff_getElem?]; exact hq
    exact (h _ hmem).resolve_left hqp
  · rintro h ⟨qr, q⟩ hmem
    rw [List.mem_zipIdx_iff_getElem?] at hmem
    by_cases hqp : q = p
    · exact Or.inl hqp
    · exact Or.inr (h q qr hmem hqp)

section steps

variable [WriteSet W κ]

@[simp] theorem Proc.resume_call (pr : Proc D W κ ν H R C) (d : D) (tx : Tx W κ ν)
    (prog : Prog D W κ ν H R) : (pr.resume d tx prog).call = pr.call := by
  induction prog generalizing tx with
  | rollback next ih => exact ih _
  | _ => rfl

@[simp] theorem Proc.resume_seen (pr : Proc D W κ ν H R C) (d : D) (tx : Tx W κ ν)
    (prog : Prog D W κ ν H R) : (pr.resume d tx prog).seen = pr.seen := by
  induction prog generalizing tx with
  | rollback next ih => exact ih _
  | _ => rfl

@[simp] theorem Proc.resume_last (pr : Proc D W κ ν H R C) (d : D) (tx : Tx W κ ν)
    (prog : Prog D W κ ν H R) : (pr.resume d tx prog).last = d := by
  induction prog generalizing tx with
  | rollback next ih => exact ih _
  | _ => rfl

theorem Proc.resume_tx (pr : Proc D W κ ν H R C) (d : D) (tx : Tx W κ ν)
    (prog : Prog D W κ ν H R) :
    (pr.resume d tx prog).tx = Tx.empty ∨ (pr.resume d tx prog).tx = tx := by
  induction prog generalizing tx with
  | rollback next ih => exact Or.inl ((ih Tx.empty).elim id id)
  | _ => exact Or.inr rfl

theorem Proc.resume_empty_tx (pr : Proc D W κ ν H R C) (d : D) (prog : Prog D W κ ν H R) :
    (pr.resume d Tx.empty prog).tx = Tx.empty := (pr.resume_tx d Tx.empty prog).elim id id

variable [Store D W κ]

/-- The steps of a system, one constructor for each kind. -/
inductive Moves (sys : System D W κ ν H R C) (s : State D W κ ν H R C) :
    Action C → State D W κ ν H R C → Prop where
  | start (c : C) (hadm : sys.admits s.db c = true) :
      Moves sys s (.start c)
        { s with procs := s.procs ++ [Proc.fresh c s.db (sys.code c)] }
  | query (p now : Nat) (pr : Proc D W κ ν H R C) (next : View D → Prog D W κ ν H R)
      (hp : s.procs[p]? = some pr) (hprog : pr.prog = .query next) :
      Moves sys s (.run p now)
        { s with
          procs := s.procs.set p
            (Proc.resume { pr with seen := s.db } s.db pr.tx (next (pr.tx.view s.db now))) }
  | stmt (p now : Nat) (pr : Proc D W κ ν H R C) (act : View D → Effect W κ ν)
      (next : View D → Prog D W κ ν H R)
      (hp : s.procs[p]? = some pr) (hprog : pr.prog = .stmt act next)
      (hfree : ∀ q qr, s.procs[q]? = some qr → q ≠ p →
        Compatible qr.tx.locks (pr.tx.add (act (pr.tx.view s.db now))).locks) :
      Moves sys s (.run p now)
        { s with
          db := tick (act (pr.tx.view s.db now)).ids s.db
          procs := s.procs.set p
            (pr.resume (tick (act (pr.tx.view s.db now)).ids s.db)
              (pr.tx.add (act (pr.tx.view s.db now))) (next (pr.tx.view s.db now))) }
  | commit (p now : Nat) (pr : Proc D W κ ν H R C) (next : Prog D W κ ν H R)
      (hp : s.procs[p]? = some pr) (hprog : pr.prog = .commit next) :
      Moves sys s (.run p now)
        { s with
          db := Store.apply pr.tx.writes s.db
          procs := s.procs.set p (pr.resume (Store.apply pr.tx.writes s.db) Tx.empty next)
          wal := s.wal ++ [⟨p, pr.call, pr.seen, pr.tx, s.db⟩] }
  | emit (p now : Nat) (pr : Proc D W κ ν H R C) (h : H) (next : Prog D W κ ν H R)
      (hp : s.procs[p]? = some pr) (hprog : pr.prog = .emit h next) :
      Moves sys s (.run p now)
        { s with
          procs := s.procs.set p (pr.resume s.db pr.tx next)
          hints := s.hints ++ [h] }
  | kill (p : Nat) (pr : Proc D W κ ν H R C) (hp : s.procs[p]? = some pr)
      (hrun : ∀ r, pr.prog ≠ .done r) :
      Moves sys s (.kill p)
        { s with procs := s.procs.set p (pr.resume s.db Tx.empty (.done sys.killed)) }

theorem moves_of_step [DecidableEq κ] {sys : System D W κ ν H R C}
    {s s' : State D W κ ν H R C} {a : Action C}
    (h : step sys s a = some s') : Moves sys s a s' := by
  cases a with
  | start c =>
    simp only [step] at h
    split at h
    · next hadm => cases h; exact .start c hadm
    · cases h
  | run p now =>
    simp only [step] at h
    cases hp : s.procs[p]? with
    | none => simp [hp] at h
    | some pr =>
      simp only [hp, runProc] at h
      cases hprog : pr.prog with
      | done r => simp [hprog] at h
      | query next =>
        simp only [hprog] at h
        cases h
        rw [← hprog]
        exact .query p now pr next hp hprog
      | stmt act next =>
        simp only [hprog] at h
        split at h
        · next hfree => cases h; exact .stmt p now pr act next hp hprog (unblocked_iff.mp hfree)
        · cases h
      | rollback next => simp [hprog] at h
      | commit next => simp only [hprog] at h; cases h; exact .commit p now pr next hp hprog
      | emit hint next => simp only [hprog] at h; cases h; exact .emit p now pr hint next hp hprog
  | kill p =>
    simp only [step] at h
    cases hp : s.procs[p]? with
    | none => simp [hp] at h
    | some pr =>
      simp only [hp] at h
      split at h
      · cases h
      · next hrun => cases h; exact .kill p pr hp hrun

end steps

/-! ## Section 2: Locks in runs -/

section locks

variable [WriteSet W κ]

/-- Every written row is locked by its writer, and no two processes hold
    conflicting locks. -/
structure LockInv (procs : List (Proc D W κ ν H R C)) : Prop where
  held : ∀ (p : Nat) (pr : Proc D W κ ν H R C), procs[p]? = some pr →
    ∀ k ∈ written pr.tx.writes, (k, Mode.exclusive) ∈ pr.tx.locks
  apart : ∀ (p q : Nat) (pr qr : Proc D W κ ν H R C),
    procs[p]? = some pr → procs[q]? = some qr → p ≠ q → Compatible pr.tx.locks qr.tx.locks

theorem getElem?_set_cases {α : Type} {l : List α} {p q : Nat} {a b : α}
    (h : (l.set p a)[q]? = some b) : (q = p ∧ b = a) ∨ (q ≠ p ∧ l[q]? = some b) := by
  rw [List.getElem?_set] at h
  by_cases hqp : p = q
  · subst hqp
    simp only [if_pos] at h
    split at h
    · exact Or.inl ⟨rfl, (Option.some.inj h).symm⟩
    · cases h
  · rw [if_neg hqp] at h
    exact Or.inr ⟨Ne.symm hqp, h⟩

theorem LockInv.set {procs : List (Proc D W κ ν H R C)} (h : LockInv procs) (p : Nat)
    {pr : Proc D W κ ν H R C}
    (hheld : ∀ k ∈ written pr.tx.writes, (k, Mode.exclusive) ∈ pr.tx.locks)
    (hapart : ∀ q qr, procs[q]? = some qr → q ≠ p → Compatible qr.tx.locks pr.tx.locks) :
    LockInv (procs.set p pr) := by
  refine ⟨?_, ?_⟩
  · intro q qr hq
    rcases getElem?_set_cases hq with ⟨_, rfl⟩ | ⟨_, hq⟩
    · exact hheld
    · exact h.held q qr hq
  · intro q r qr rr hq hr hne
    rcases getElem?_set_cases hq with ⟨rfl, rfl⟩ | ⟨hqp, hq'⟩
    · rcases getElem?_set_cases hr with ⟨rfl, _⟩ | ⟨hrp, hr'⟩
      · exact absurd rfl hne
      · exact (hapart r rr hr' hrp).symm
    · rcases getElem?_set_cases hr with ⟨rfl, rfl⟩ | ⟨_, hr'⟩
      · exact hapart q qr hq' hqp
      · exact h.apart q r qr rr hq' hr' hne

variable [Store D W κ] [LawfulStore D]

include D in
theorem held_empty : ∀ k ∈ written (Tx.empty : Tx W κ ν).writes,
    (k, Mode.exclusive) ∈ (Tx.empty : Tx W κ ν).locks := by
  intro k hk
  exact absurd hk (LawfulStore.written_nothing (D := D) k)

include D in
theorem held_add {tx : Tx W κ ν} (h : ∀ k ∈ written tx.writes, (k, Mode.exclusive) ∈ tx.locks)
    (e : Effect W κ ν) :
    ∀ k ∈ written (tx.add e).writes, (k, Mode.exclusive) ∈ (tx.add e).locks := by
  intro k hk
  rw [Tx.add_writes, LawfulStore.written_append (D := D)] at hk
  rw [Tx.add_locks]
  rcases hk with hk | hk
  · exact List.mem_append_left _ (h k hk)
  · exact List.mem_append_right _ (List.mem_append_right _ (List.mem_map.mpr ⟨k, hk, rfl⟩))

/-- Going on with the same or with more locks, or with none at all. -/
theorem LockInv.resume {procs : List (Proc D W κ ν H R C)} (h : LockInv procs) (p : Nat)
    (pr : Proc D W κ ν H R C) (d : D) {tx : Tx W κ ν} (prog : Prog D W κ ν H R)
    (hheld : ∀ k ∈ written tx.writes, (k, Mode.exclusive) ∈ tx.locks)
    (hapart : ∀ q qr, procs[q]? = some qr → q ≠ p → Compatible qr.tx.locks tx.locks) :
    LockInv (procs.set p (pr.resume d tx prog)) := by
  refine h.set p ?_ ?_
  · rcases pr.resume_tx d tx prog with htx | htx <;> rw [htx]
    · exact held_empty (D := D)
    · exact hheld
  · intro q qr hq hqp
    rcases pr.resume_tx d tx prog with htx | htx <;> rw [htx]
    · exact compatible_nil_right _
    · exact hapart q qr hq hqp

theorem lockInv_moves {sys : System D W κ ν H R C} {s s' : State D W κ ν H R C} {a : Action C}
    (h : LockInv s.procs) (hm : Moves sys s a s') : LockInv s'.procs := by
  cases hm with
  | start c hadm =>
    refine ⟨?_, ?_⟩
    · intro q qr hq
      rcases List.mem_append.mp (List.mem_of_getElem? hq) with hmem | hmem
      · obtain ⟨i, hi⟩ := List.mem_iff_getElem?.mp hmem
        exact h.held i qr hi
      · rw [List.mem_singleton.mp hmem, Proc.fresh, Proc.resume_empty_tx]
        exact held_empty (D := D)
    · intro q r qr rr hq hr hne
      rw [List.getElem?_append] at hq hr
      split at hq
      · split at hr
        · exact h.apart q r qr rr hq hr hne
        · rw [List.mem_singleton.mp (List.mem_of_getElem? hr), Proc.fresh, Proc.resume_empty_tx]
          exact compatible_nil_right _
      · rw [List.mem_singleton.mp (List.mem_of_getElem? hq), Proc.fresh, Proc.resume_empty_tx]
        exact compatible_nil_left _
  | query p now pr next hp hprog =>
    exact h.resume p _ s.db _ (h.held p pr hp) fun q qr hq hqp => h.apart q p qr pr hq hp hqp
  | stmt p now pr act next hp hprog hfree =>
    exact h.resume p pr _ _ (held_add (D := D) (h.held p pr hp) _) hfree
  | commit p now pr next hp hprog =>
    exact h.resume p pr _ _ (held_empty (D := D)) fun q qr _ _ => compatible_nil_right _
  | emit p now pr hint next hp hprog =>
    exact h.resume p pr s.db _ (h.held p pr hp) fun q qr hq hqp => h.apart q p qr pr hq hp hqp
  | kill p pr hp hrun =>
    exact h.resume p pr _ _ (held_empty (D := D)) fun q qr _ _ => compatible_nil_right _

theorem lockInv_run [DecidableEq κ] {sys : System D W κ ν H R C}
    {ok : State D W κ ν H R C → Action C → Prop} {s : State D W κ ν H R C}
    (h : Run sys ok s) : LockInv s.procs := by
  induction h with
  | init => exact ⟨fun p pr hp => by simp [System.initial] at hp,
      fun p q pr qr hp => by simp [System.initial] at hp⟩
  | step a _ _ hstep ih => exact lockInv_moves ih (moves_of_step hstep)

end locks

/-! ### The log

    Between one commit and the next, identifiers are all that changes. -/

section log

variable [WriteSet W κ] [Store D W κ]

/-- `b` is `a` after some identifiers were drawn. -/
inductive Ticks : D → D → Prop where
  | refl (d : D) : Ticks d d
  | more {a b : D} (n : Nat) (h : Ticks a b) : Ticks a (tick n b)

/-- What the condition on the steps of a run says of commits holds of all
    commits so far. -/
theorem Run.commits [DecidableEq κ] {sys : System D W κ ν H R C}
    {ok : State D W κ ν H R C → Action C → Prop} {q : Commit D W κ ν C → Prop}
    (hq : ∀ s a c, ok s a → Commits s a c → q c) {s : State D W κ ν H R C} (h : Run sys ok s) :
    ∀ c ∈ s.wal, q c := by
  induction h with
  | init => exact fun c hc => absurd hc List.not_mem_nil
  | step a _ ha hstep ih =>
    cases moves_of_step hstep with
    | commit p now pr next hp hprog =>
      intro c hc
      rcases List.mem_append.mp hc with hold | hnew
      · exact ih c hold
      · rw [List.mem_singleton.mp hnew]
        exact hq _ _ _ ha ⟨now, pr, next, rfl, hp, hprog, rfl⟩
    | _ => exact ih

theorem Ticks.keep {Q : D → Prop} (htick : ∀ n d, Q d → Q (tick n d)) {a b : D} (h : Ticks a b)
    (ha : Q a) : Q b := by
  induction h with
  | refl => exact ha
  | more n _ ih => exact htick n _ ih

/-- Where every commit does to what `abs` reads what some line tells, the
    run refines the machine that replays the lines. -/
theorem Run.refines [DecidableEq κ] {B L : Type*} {sys : System D W κ ν H R C}
    {ok : State D W κ ν H R C → Action C → Prop} {abs : D → B} {post : B → L → B}
    {tells : Commit D W κ ν C → L → Prop} (htick : ∀ n d, abs (tick n d) = abs d)
    {s : State D W κ ν H R C} (h : Run sys ok s)
    (hstep : ∀ c ∈ s.wal, ∃ line, tells c line ∧ abs c.after = post (abs c.before) line) :
    ∃ lines, List.Forall₂ tells s.wal lines ∧ abs s.db = lines.foldl post (abs sys.init) := by
  induction h with
  | init => exact ⟨[], .nil, rfl⟩
  | @step s s' a hs _ hmove ih =>
    cases moves_of_step hmove with
    | commit p now pr next hp hprog =>
      obtain ⟨lines, htells, habs⟩ := ih fun c hc => hstep c (List.mem_append_left _ hc)
      obtain ⟨line, hline, hpost⟩ := hstep _ (List.mem_append_right _ (List.mem_singleton_self _))
      refine ⟨lines ++ [line], List.rel_append htells (.cons hline .nil), ?_⟩
      rw [List.foldl_append, ← habs]
      exact hpost
    | stmt p now pr act next hp hprog hfree =>
      obtain ⟨lines, htells, habs⟩ := ih hstep
      exact ⟨lines, htells, (htick _ _).trans habs⟩
    | _ => exact ih hstep

end log

/-- What a transaction owns: the rows it wrote and those it locked exclusively. -/
def Tx.Owns [WriteSet W κ] (tx : Tx W κ ν) (k : κ) : Prop :=
  k ∈ written tx.writes ∨ (k, Mode.exclusive) ∈ tx.locks

/-- What a transaction holds a lock on, in any mode. -/
def Tx.Holds [WriteSet W κ] (tx : Tx W κ ν) (k : κ) : Prop :=
  k ∈ written tx.writes ∨ ∃ mode, (k, mode) ∈ tx.locks

/-- Nothing happens to the rows that `tx` holds. -/
def Frame [WriteSet W κ] [Store D W κ] (tx : Tx W κ ν) (d d' : D) : Prop :=
  ∀ k, tx.Holds k → Agree k d d'

section frame

variable [WriteSet W κ]

theorem Tx.Owns.holds {tx : Tx W κ ν} {k : κ} (h : tx.Owns k) : tx.Holds k := by
  rcases h with h | h
  · exact Or.inl h
  · exact Or.inr ⟨_, h⟩

theorem Tx.holds_of_lock {tx : Tx W κ ν} {k : κ} {mode : Mode} (h : (k, mode) ∈ tx.locks) :
    tx.Holds k := Or.inr ⟨mode, h⟩

/-- What one transaction owns, no other one holds. -/
theorem not_holds_of_owns {tx tx' : Tx W κ ν} {k : κ} (hc : Compatible tx.locks tx'.locks)
    (hheld : ∀ k ∈ written tx.writes, (k, Mode.exclusive) ∈ tx.locks)
    (hheld' : ∀ k ∈ written tx'.writes, (k, Mode.exclusive) ∈ tx'.locks)
    (h' : tx'.Owns k) : ¬ tx.Holds k := by
  intro h
  have hx : (k, Mode.exclusive) ∈ tx'.locks := h'.elim (hheld' k) id
  rcases h with h | ⟨mode, h⟩
  · exact hc.symm.not_mem_of_exclusive hx _ (hheld k h)
  · exact hc.symm.not_mem_of_exclusive hx _ h

variable [Store D W κ] [LawfulStore D]

include D in
theorem Tx.holds_add {tx : Tx W κ ν} {e : Effect W κ ν} {k : κ} (h : tx.Holds k) :
    (tx.add e).Holds k := by
  rcases h with h | ⟨mode, h⟩
  · exact Or.inl ((LawfulStore.written_append (D := D) _ _ _).mpr (Or.inl h))
  · exact Or.inr ⟨mode, List.mem_append_left _ h⟩

theorem Frame.refl (tx : Tx W κ ν) (d : D) : Frame tx d d :=
  fun k _ => LawfulStore.agree_refl k d

theorem Frame.trans {tx : Tx W κ ν} {a b c : D} (h : Frame tx a b) (h' : Frame tx b c) :
    Frame tx a c :=
  fun k hk => LawfulStore.agree_trans k a b c (h k hk) (h' k hk)

theorem Frame.tick (tx : Tx W κ ν) (n : Nat) (d : D) : Frame tx d (tick n d) :=
  fun k _ => LawfulStore.agree_tick k n d

/-- A commit leaves alone what others hold. -/
theorem Frame.commit {c : Commit D W κ ν C} {tx : Tx W κ ν}
    (hc : Compatible tx.locks c.tx.locks)
    (hheld : ∀ k ∈ written tx.writes, (k, Mode.exclusive) ∈ tx.locks)
    (hheld' : ∀ k ∈ written c.tx.writes, (k, Mode.exclusive) ∈ c.tx.locks) :
    Frame tx c.before c.after := by
  intro k hk
  refine LawfulStore.agree_apply k c.tx.writes c.before ?_
  intro hw
  exact not_holds_of_owns hc hheld hheld' (Or.inl hw) hk

end frame

/-! ## Section 3: Protocols -/

/-- A protocol between the processes of a system.

    * `inv d`: an invariant of the committed database.
    * `rely tx d d'`: what the others can do while `tx` is open.
    * `guar c seen tx d`: what a commit of `tx` by the call `c` onto `d`
      looks like, when the last plain read of the call returned `seen`.
    * `post c r d`: what holds in `d` when the call `c` ends there with `r`.
    * `allows c prog tx d now`: the call `c` may take the next step of
      `prog` in `d`. It restricts the runs the protocol speaks about.
    * `stops c d`: the call `c` may be killed in `d`. -/
structure Protocol (D W κ ν H R C : Type) where
  inv : D → Prop
  rely : Tx W κ ν → D → D → Prop
  guar : C → D → Tx W κ ν → D → Prop
  post : C → R → D → Prop
  allows : C → Prog D W κ ν H R → Tx W κ ν → D → Nat → Prop
  stops : C → D → Prop

namespace Protocol

variable [WriteSet W κ] [Store D W κ] (P : Protocol D W κ ν H R C)

/-- Every execution of the program, from a point where the database was
    `d`, keeps to the protocol when the others do. -/
def Safe (c : C) : Prog D W κ ν H R → D → Tx W κ ν → D → Prop
  | .done r, _, _, d => P.post c r d
  | .query next, _, tx, d => ∀ d' now, P.rely tx d d' → P.inv d' →
      P.allows c (.query next) tx d' now → Safe c (next (tx.view d' now)) d' tx d'
  | .stmt act next, seen, tx, d => ∀ d' now, P.rely tx d d' → P.inv d' →
      P.allows c (.stmt act next) tx d' now →
      Safe c (next (tx.view d' now)) seen (tx.add (act (tx.view d' now)))
        (tick (act (tx.view d' now)).ids d')
  | .rollback next, seen, _, d => Safe c next seen Tx.empty d
  | .commit next, seen, tx, d => ∀ d', P.rely tx d d' → P.inv d' →
      P.guar c seen tx d' ∧
        (P.inv (Store.apply tx.writes d') →
          Safe c next seen Tx.empty (Store.apply tx.writes d'))
  | .emit _ next, seen, tx, d => ∀ d', P.rely tx d d' → P.inv d' → Safe c next seen tx d'

/-- What has to hold between the parts of a protocol. `known` and `apart`
    are facts about commits that the runs at hand provide. -/
structure Lawful (sys : System D W κ ν H R C) (known : Commit D W κ ν C → Prop)
    (apart : Commit D W κ ν C → Tx W κ ν → Prop) : Prop where
  rely_refl : ∀ tx d, P.rely tx d d
  rely_trans : ∀ tx a b c, P.rely tx a b → P.rely tx b c → P.rely tx a c
  rely_tick : ∀ tx n d, P.inv d → P.rely tx d (tick n d)
  inv_tick : ∀ n d, P.inv d → P.inv (tick n d)
  inv_init : P.inv sys.init
  inv_commit : ∀ c : Commit D W κ ν C, known c → P.inv c.before →
    P.guar c.call c.seen c.tx c.before →
    (∀ k ∈ written c.tx.writes, (k, Mode.exclusive) ∈ c.tx.locks) → P.inv c.after
  rely_commit : ∀ (c : Commit D W κ ν C) (tx : Tx W κ ν), known c → P.inv c.before →
    P.guar c.call c.seen c.tx c.before →
    (∀ k ∈ written c.tx.writes, (k, Mode.exclusive) ∈ c.tx.locks) →
    (∀ k ∈ written tx.writes, (k, Mode.exclusive) ∈ tx.locks) →
    Compatible tx.locks c.tx.locks → apart c tx → P.rely tx c.before c.after
  apart_empty : ∀ c, apart c Tx.empty
  start : ∀ c d, P.inv d → sys.admits d c = true → P.Safe c (sys.code c) d Tx.empty d
  killed : ∀ c d, P.inv d → P.stops c d → P.post c sys.killed d

/-- The condition `ok` on the steps of a run gives what the protocol
    assumes of them. -/
structure Covers [DecidableEq κ] (sys : System D W κ ν H R C)
    (ok : State D W κ ν H R C → Action C → Prop) (known : Commit D W κ ν C → Prop)
    (apart : Commit D W κ ν C → Tx W κ ν → Prop) : Prop where
  allows : ∀ s p now pr, ok s (.run p now) → s.procs[p]? = some pr →
    P.allows pr.call pr.prog pr.tx s.db now
  stops : ∀ s p pr, ok s (.kill p) → s.procs[p]? = some pr → P.stops pr.call s.db
  apart : ∀ s a c q qr, ok s a → Commits s a c → q ≠ c.pid → s.procs[q]? = some qr →
    apart c qr.tx
  known : ∀ s, Run sys ok s → ∀ c ∈ s.wal, known c

/-- The protocol holds in a state. -/
structure Holds (s : State D W κ ν H R C) : Prop where
  inv : P.inv s.db
  commits : ∀ c ∈ s.wal, P.inv c.before ∧ P.guar c.call c.seen c.tx c.before
  order : s.wal.Pairwise fun c c' => P.rely Tx.empty c.after c'.before
  past : ∀ c ∈ s.wal, P.rely Tx.empty c.after s.db
  procs : ∀ (p : Nat) (pr : Proc D W κ ν H R C), s.procs[p]? = some pr →
    P.Safe pr.call pr.prog pr.seen pr.tx pr.last ∧ P.rely pr.tx pr.last s.db

variable {P} {sys : System D W κ ν H R C} {known : Commit D W κ ν C → Prop}
  {apart : Commit D W κ ν C → Tx W κ ν → Prop}

/-- The same system, started on another database. -/
theorem Lawful.from (h : P.Lawful sys known apart) {d : D} (hd : P.inv d) : P.Lawful { sys with init := d } known apart where
  rely_refl := h.rely_refl
  rely_trans := h.rely_trans
  rely_tick := h.rely_tick
  inv_tick := h.inv_tick
  inv_init := hd
  inv_commit := h.inv_commit
  rely_commit := h.rely_commit
  apart_empty := h.apart_empty
  start := h.start
  killed := h.killed

/-- A safe process that goes on with `prog` in `d` is safe after `resume`. -/
theorem safe_resume {pr : Proc D W κ ν H R C} {d : D} {tx : Tx W κ ν} {prog : Prog D W κ ν H R}
    (h : P.Safe pr.call prog pr.seen tx d) :
    P.Safe (pr.resume d tx prog).call (pr.resume d tx prog).prog (pr.resume d tx prog).seen
      (pr.resume d tx prog).tx (pr.resume d tx prog).last := by
  induction prog generalizing tx with
  | rollback next ih => exact ih h
  | _ => exact h

/-- The committed database moved by `rely` for everyone and one process
    took a step. -/
theorem Holds.set {s : State D W κ ν H R C} (h : P.Holds s) (hP : P.Lawful sys known apart)
    {d : D} {p : Nat} {pr : Proc D W κ ν H R C} (hints : List H) (hinv : P.inv d)
    (hd : P.rely Tx.empty s.db d)
    (hothers : ∀ q qr, s.procs[q]? = some qr → q ≠ p → P.rely qr.tx s.db d)
    (hlast : pr.last = d) (hsafe : P.Safe pr.call pr.prog pr.seen pr.tx pr.last) :
    P.Holds ⟨d, s.procs.set p pr, s.wal, hints⟩ where
  inv := hinv
  commits := h.commits
  order := h.order
  past := fun c hc => hP.rely_trans _ _ _ _ (h.past c hc) hd
  procs := by
    intro q qr hq
    rcases getElem?_set_cases hq with ⟨_, rfl⟩ | ⟨hqp, hq⟩
    · refine ⟨hsafe, ?_⟩
      rw [hlast]
      exact hP.rely_refl _ _
    · obtain ⟨hs, hr⟩ := h.procs q qr hq
      exact ⟨hs, hP.rely_trans _ _ _ _ hr (hothers q qr hq hqp)⟩

/-- What the database does to the others when it does not change. -/
theorem rely_same (hP : P.Lawful sys known apart) {s : State D W κ ν H R C} {p : Nat} :
    ∀ q qr, s.procs[q]? = some qr → q ≠ p → P.rely qr.tx s.db s.db :=
  fun _ _ _ _ => hP.rely_refl _ _

theorem holds_moves [LawfulStore D] [DecidableEq κ] {ok : State D W κ ν H R C → Action C → Prop}
    (hP : P.Lawful sys known apart) (hok : P.Covers sys ok known apart)
    {s s' : State D W κ ν H R C} {a : Action C} (h : P.Holds s) (hl : LockInv s.procs)
    (ha : ok s a) (hknown : ∀ c ∈ s'.wal, known c) (hm : Moves sys s a s') : P.Holds s' := by
  cases hm with
  | start c hadm =>
    -- the new process starts from the state it sees
    refine ⟨h.inv, h.commits, h.order, h.past, ?_⟩
    intro q qr hq
    rw [List.getElem?_append] at hq
    split at hq
    · exact h.procs q qr hq
    · rw [List.mem_singleton.mp (List.mem_of_getElem? hq), Proc.fresh]
      refine ⟨safe_resume (hP.start c s.db h.inv hadm), ?_⟩
      rw [Proc.resume_last]
      exact hP.rely_refl _ _
  | query p now pr next hp hprog =>
    obtain ⟨hs, hr⟩ := h.procs p pr hp
    have hallow := hok.allows s p now pr ha hp
    rw [hprog] at hs hallow
    exact h.set hP s.hints h.inv (hP.rely_refl _ _) (rely_same hP) (Proc.resume_last ..)
      (safe_resume (hs s.db now hr h.inv hallow))
  | stmt p now pr act next hp hprog hfree =>
    obtain ⟨hs, hr⟩ := h.procs p pr hp
    have hallow := hok.allows s p now pr ha hp
    rw [hprog] at hs hallow
    exact h.set hP s.hints (hP.inv_tick _ _ h.inv) (hP.rely_tick _ _ _ h.inv)
      (fun q qr _ _ => hP.rely_tick _ _ _ h.inv) (Proc.resume_last ..)
      (safe_resume (hs s.db now hr h.inv hallow))
  | commit p now pr next hp hprog =>
    obtain ⟨hs, hr⟩ := h.procs p pr hp
    rw [hprog] at hs
    obtain ⟨hguar, hnext⟩ := hs s.db hr h.inv
    have hcm : known ⟨p, pr.call, pr.seen, pr.tx, s.db⟩ := hknown _ (by simp)
    have hheld := hl.held p pr hp
    have hinv := hP.inv_commit _ hcm h.inv hguar hheld
    -- what the commit means for a transaction that holds other locks
    have hrely : ∀ tx : Tx W κ ν, (∀ k ∈ written tx.writes, (k, Mode.exclusive) ∈ tx.locks) →
        Compatible tx.locks pr.tx.locks → apart ⟨p, pr.call, pr.seen, pr.tx, s.db⟩ tx →
        P.rely tx s.db (Store.apply pr.tx.writes s.db) :=
      fun tx hown hc hap => hP.rely_commit _ tx hcm h.inv hguar hheld hown hc hap
    have hempty := hrely Tx.empty (held_empty (D := D)) (compatible_nil_left _) (hP.apart_empty _)
    have hset := h.set hP s.hints hinv hempty
      (fun q qr hq hqp => hrely qr.tx (hl.held q qr hq) (hl.apart q p qr pr hq hp hqp)
        (hok.apart s _ ⟨p, pr.call, pr.seen, pr.tx, s.db⟩ q qr ha ⟨now, pr, next, rfl, hp, hprog, rfl⟩
          hqp hq))
      (Proc.resume_last pr _ Tx.empty next) (safe_resume (hnext hinv))
    refine ⟨hinv, ?_, ?_, ?_, hset.procs⟩
    · intro c hc
      rcases List.mem_append.mp hc with hc | hc
      · exact h.commits c hc
      · rw [List.mem_singleton.mp hc]
        exact ⟨h.inv, hguar⟩
    · refine List.pairwise_append.mpr ⟨h.order, List.pairwise_singleton _ _, ?_⟩
      intro c hc c' hc'
      rw [List.mem_singleton.mp hc']
      exact h.past c hc
    · intro c hc
      rcases List.mem_append.mp hc with hc | hc
      · exact hP.rely_trans _ _ _ _ (h.past c hc) hempty
      · rw [List.mem_singleton.mp hc]
        exact hP.rely_refl _ _
  | emit p now pr hint next hp hprog =>
    obtain ⟨hs, hr⟩ := h.procs p pr hp
    rw [hprog] at hs
    -- a hint changes no state
    exact h.set hP (s.hints ++ [hint]) h.inv (hP.rely_refl _ _) (rely_same hP)
      (Proc.resume_last ..) (safe_resume (hs s.db hr h.inv))
  | kill p pr hp hrun =>
    have hstop := hok.stops s p pr ha hp
    exact h.set hP s.hints h.inv (hP.rely_refl _ _) (rely_same hP) (Proc.resume_last ..)
      (safe_resume (hP.killed pr.call s.db h.inv hstop))

/-- A lawful protocol holds in every state of every run it covers. -/
theorem sound [LawfulStore D] [DecidableEq κ] {ok : State D W κ ν H R C → Action C → Prop}
    (hP : P.Lawful sys known apart) (hok : P.Covers sys ok known apart)
    {s : State D W κ ν H R C} (hrun : Run sys ok s) : P.Holds s := by
  induction hrun with
  | init =>
    refine ⟨hP.inv_init, ?_, ?_, ?_, ?_⟩
    · intro c hc; cases hc
    · exact List.Pairwise.nil
    · intro c hc; cases hc
    · intro p pr hp; simp [System.initial] at hp
  | step a hrun ha hstep ih =>
    exact holds_moves hP hok ih (lockInv_run hrun) ha (hok.known _ (.step a hrun ha hstep))
      (moves_of_step hstep)

/-- A call that the protocol asks nothing of is safe. -/
theorem safe_trivial {c : C} (hguar : ∀ seen tx d, P.guar c seen tx d) (hpost : ∀ r d, P.post c r d)
    (prog : Prog D W κ ν H R) (seen : D) (tx : Tx W κ ν) (d : D) : P.Safe c prog seen tx d := by
  induction prog generalizing seen tx d with
  | done r => exact hpost r d
  | query next ih => exact fun d' now _ _ _ => ih _ d' tx d'
  | stmt act next ih => exact fun d' now _ _ _ => ih _ seen _ _
  | rollback next ih => exact ih seen _ d
  | commit next ih => exact fun d' _ _ => ⟨hguar seen tx d', fun _ => ih seen _ _⟩
  | emit h next ih => exact fun d' _ _ => ih seen tx d'

end Protocol

/-! ## Section 4: What a transaction writes -/

namespace Txn

/-- The writes of every statement have `p`. -/
def Only (p : W → Prop) : Txn D W κ ν ε α → Prop
  | .ret _ => True
  | .throw _ => True
  | .stmt act next => (∀ v, p (act v).writes) ∧ ∀ v, (next v).Only p

variable {p : W → Prop}

@[simp] theorem only_pure (a : α) : (pure a : Txn D W κ ν ε α).Only p := trivial

@[simp] theorem only_throw (e : ε) : (.throw e : Txn D W κ ν ε α).Only p := trivial

@[simp] theorem only_ret (a : α) : (.ret a : Txn D W κ ν ε α).Only p := trivial

theorem only_bind {m : Txn D W κ ν ε α} {k : α → Txn D W κ ν ε β} (hm : m.Only p)
    (hk : ∀ a, (k a).Only p) : (m >>= k).Only p := by
  induction m with
  | ret a => exact hk a
  | throw e => trivial
  | stmt act next ih => exact ⟨hm.1, fun v => ih v (hm.2 v)⟩

@[simp] theorem only_ofExcept (r : Except ε α) : (.ofExcept r : Txn D W κ ν ε α).Only p := by
  cases r <;> trivial

theorem only_exec {act : View D → Effect W κ ν} {res : View D → Except ε α}
    (h : ∀ v, p (act v).writes) : (.exec act res : Txn D W κ ν ε α).Only p :=
  ⟨h, fun v => only_ofExcept (res v)⟩

theorem only_select [WriteSet W κ] {res : View D → α} (h : p nothing) :
    (.select res : Txn D W κ ν ε α).Only p := ⟨fun _ => h, fun _ => trivial⟩

theorem only_true (m : Txn D W κ ν ε α) : m.Only fun _ => True := by
  induction m with
  | ret a => trivial
  | throw e => trivial
  | stmt act next ih => exact ⟨fun _ => trivial, ih⟩

theorem only_mapError {f : ε → ε} {m : Txn D W κ ν ε α} (hm : m.Only p) :
    (m.mapError f).Only p := by
  induction m with
  | ret a => trivial
  | throw e => trivial
  | stmt act next ih => exact ⟨hm.1, fun v => ih v (hm.2 v)⟩

/-! ### And what it locks -/

/-- The effect of every statement has `q`: its writes, and also its locks. -/
def Does (q : Effect W κ ν → Prop) : Txn D W κ ν ε α → Prop
  | .ret _ => True
  | .throw _ => True
  | .stmt act next => (∀ v, q (act v)) ∧ ∀ v, (next v).Does q

variable {q : Effect W κ ν → Prop}

theorem does_bind {m : Txn D W κ ν ε α} {k : α → Txn D W κ ν ε β} (hm : m.Does q)
    (hk : ∀ a, (k a).Does q) : (m >>= k).Does q := by
  induction m with
  | ret a => exact hk a
  | throw e => trivial
  | stmt act next ih => exact ⟨hm.1, fun v => ih v (hm.2 v)⟩

theorem does_ofExcept (r : Except ε α) : (.ofExcept r : Txn D W κ ν ε α).Does q := by
  cases r <;> trivial

theorem does_exec {act : View D → Effect W κ ν} {res : View D → Except ε α}
    (h : ∀ v, q (act v)) : (.exec act res : Txn D W κ ν ε α).Does q :=
  ⟨h, fun v => does_ofExcept (res v)⟩

theorem does_select [WriteSet W κ] {res : View D → α} (h : q { writes := nothing }) :
    (.select res : Txn D W κ ν ε α).Does q := ⟨fun _ => h, fun _ => trivial⟩

end Txn

/-! ## Section 5: Rules for transactions -/

namespace Protocol

variable [WriteSet W κ] [Store D W κ] (P : Protocol D W κ ν H R C)

/-- Weakest precondition of the body of a transaction: every way the body
    can go from `tx` and `d` ends in a result, a transaction and a
    database with `Q`. -/
def wp : Txn D W κ ν ε α → (Except ε α → Tx W κ ν → D → Prop) → Tx W κ ν → D → Prop
  | .ret a, Q, tx, d => Q (.ok a) tx d
  | .throw e, Q, tx, d => Q (.error e) tx d
  | .stmt act next, Q, tx, d => ∀ d' now, P.rely tx d d' → P.inv d' →
      wp (next (tx.view d' now)) Q (tx.add (act (tx.view d' now)))
        (tick (act (tx.view d' now)).ids d')

variable {P}

theorem wp_mono {m : Txn D W κ ν ε α} {Q Q' : Except ε α → Tx W κ ν → D → Prop}
    (hQ : ∀ r tx d, Q r tx d → Q' r tx d) {tx : Tx W κ ν} {d : D} (h : P.wp m Q tx d) :
    P.wp m Q' tx d := by
  induction m generalizing tx d with
  | ret a => exact hQ _ _ _ h
  | throw e => exact hQ _ _ _ h
  | stmt act next ih =>
    intro d' now hr hi
    exact ih _ (h d' now hr hi)

@[simp] theorem wp_pure (a : α) (Q : Except ε α → Tx W κ ν → D → Prop) (tx : Tx W κ ν) (d : D) :
    P.wp (pure a : Txn D W κ ν ε α) Q tx d ↔ Q (.ok a) tx d := Iff.rfl

@[simp] theorem wp_throw (e : ε) (Q : Except ε α → Tx W κ ν → D → Prop) (tx : Tx W κ ν) (d : D) :
    P.wp (.throw e : Txn D W κ ν ε α) Q tx d ↔ Q (.error e) tx d := Iff.rfl

/-- Sequencing: a thrown error skips the rest. -/
theorem wp_bind (m : Txn D W κ ν ε α) (k : α → Txn D W κ ν ε β)
    (Q : Except ε β → Tx W κ ν → D → Prop) (tx : Tx W κ ν) (d : D) :
    P.wp (m >>= k) Q tx d ↔
      P.wp m (fun r tx d => match r with
        | .ok a => P.wp (k a) Q tx d
        | .error e => Q (.error e) tx d) tx d := by
  induction m generalizing tx d with
  | ret a => exact Iff.rfl
  | throw e => exact Iff.rfl
  | stmt act next ih =>
    constructor
    · intro h d' now hr hi
      exact (ih _ _ _).mp (h d' now hr hi)
    · intro h d' now hr hi
      exact (ih _ _ _).mpr (h d' now hr hi)

theorem wp_ofExcept (r : Except ε α) (Q : Except ε α → Tx W κ ν → D → Prop) (tx : Tx W κ ν)
    (d : D) : P.wp (.ofExcept r) Q tx d ↔ Q r tx d := by
  cases r <;> exact Iff.rfl

/-- One statement. -/
theorem wp_exec (act : View D → Effect W κ ν) (res : View D → Except ε α)
    (Q : Except ε α → Tx W κ ν → D → Prop) (tx : Tx W κ ν) (d : D) :
    P.wp (.exec act res) Q tx d ↔ ∀ d' now, P.rely tx d d' → P.inv d' →
      Q (res (tx.view d' now)) (tx.add (act (tx.view d' now)))
        (tick (act (tx.view d' now)).ids d') := by
  constructor
  · intro h d' now hr hi
    exact (wp_ofExcept _ _ _ _).mp (h d' now hr hi)
  · intro h d' now hr hi
    exact (wp_ofExcept _ _ _ _).mpr (h d' now hr hi)

/-- Errors that are rethrown as others. -/
theorem wp_mapError (f : ε → ε) (m : Txn D W κ ν ε α) (Q : Except ε α → Tx W κ ν → D → Prop)
    (tx : Tx W κ ν) (d : D) :
    P.wp (m.mapError f) Q tx d ↔ P.wp m (fun r => Q (r.mapError f)) tx d := by
  induction m generalizing tx d with
  | ret a => exact Iff.rfl
  | throw e => exact Iff.rfl
  | stmt act next ih =>
    constructor
    · intro h d' now hr hi
      exact (ih _ _ _).mp (h d' now hr hi)
    · intro h d' now hr hi
      exact (ih _ _ _).mpr (h d' now hr hi)

theorem wp_and {m : Txn D W κ ν ε α} {Q Q' : Except ε α → Tx W κ ν → D → Prop} {tx : Tx W κ ν}
    {d : D} (h : P.wp m Q tx d) (h' : P.wp m Q' tx d) :
    P.wp m (fun r tx d => Q r tx d ∧ Q' r tx d) tx d := by
  induction m generalizing tx d with
  | ret a => exact ⟨h, h'⟩
  | throw e => exact ⟨h, h'⟩
  | stmt act next ih =>
    intro d' now hr hi
    exact ih _ (h d' now hr hi) (h' d' now hr hi)

/-- What holds of the writes of every statement holds of the transaction. -/
theorem wp_only {p : W → Prop} (hp : ∀ w w', p w → p w' → p (WriteSet.append w w'))
    {m : Txn D W κ ν ε α} (hm : m.Only p) {tx : Tx W κ ν} {d : D} (htx : p tx.writes) :
    P.wp m (fun _ tx _ => p tx.writes) tx d := by
  induction m generalizing tx d with
  | ret a => exact htx
  | throw e => exact htx
  | stmt act next ih =>
    intro d' now _ _
    exact ih _ (hm.2 _) (hp _ _ htx (hm.1 _))

/-- A transaction is safe when its body ends in a state from which the
    commit, or what follows the rollback, is. -/
theorem safe_transact {c : C} (m : Txn D W κ ν ε α) (k : Except ε α → Prog D W κ ν H R)
    {seen : D} {tx : Tx W κ ν} {d : D}
    (h : P.wp m (fun r tx d => match r with
      | .ok a => P.Safe c (.commit (k (.ok a))) seen tx d
      | .error e => P.Safe c (.rollback (k (.error e))) seen tx d) tx d) :
    P.Safe c (m.transact k) seen tx d := by
  induction m generalizing tx d with
  | ret a => exact h
  | throw e => exact h
  | stmt act next ih =>
    intro d' now hr hi _
    exact ih _ (h d' now hr hi)

/-! ### Triples

    `Triple A m B`: from `A`, every way through `m` that does not throw
    ends in `B`. An assertion is stable when interference cannot break it. -/

variable (P)

def Stable (A : Tx W κ ν → D → Prop) : Prop :=
  ∀ tx d d', P.rely tx d d' → P.inv d' → A tx d → A tx d'

def Triple (A : Tx W κ ν → D → Prop) (m : Txn D W κ ν ε α) (B : α → Tx W κ ν → D → Prop) : Prop :=
  ∀ tx d, A tx d → P.wp m (fun r tx d => ∀ a, r = .ok a → B a tx d) tx d

variable {P} {A A' : Tx W κ ν → D → Prop} {B B' : α → Tx W κ ν → D → Prop}

omit [WriteSet W κ] [Store D W κ] in
theorem Stable.and (h : P.Stable A) (h' : P.Stable A') :
    P.Stable fun tx d => A tx d ∧ A' tx d :=
  fun tx d d' hr hi hA => ⟨h tx d d' hr hi hA.1, h' tx d d' hr hi hA.2⟩

omit [WriteSet W κ] [Store D W κ] in
theorem stable_const (q : Tx W κ ν → Prop) : P.Stable fun tx _ => q tx := fun _ _ _ _ _ h => h

theorem triple_weaken {m : Txn D W κ ν ε α} (h : P.Triple A m B) (hA : ∀ tx d, A' tx d → A tx d)
    (hB : ∀ a tx d, B a tx d → B' a tx d) : P.Triple A' m B' :=
  fun tx d hA' => wp_mono (fun _ _ _ hQ a hr => hB _ _ _ (hQ a hr)) (h tx d (hA tx d hA'))

/-- More to rely on leaves fewer ways through a transaction. -/
theorem wp_transfer {P' : Protocol D W κ ν H R C} {m : Txn D W κ ν ε α}
    (hrely : ∀ tx d d', P'.rely tx d d' → P.rely tx d d') (hinv : ∀ d, P'.inv d → P.inv d)
    {Q : Except ε α → Tx W κ ν → D → Prop} {tx : Tx W κ ν} {d : D} (h : P.wp m Q tx d) :
    P'.wp m Q tx d := by
  induction m generalizing tx d with
  | ret a => exact h
  | throw e => exact h
  | stmt act next ih => exact fun d' now hr hi => ih _ (h d' now (hrely _ _ _ hr) (hinv _ hi))

theorem triple_transfer {P' : Protocol D W κ ν H R C} {m : Txn D W κ ν ε α}
    (hrely : ∀ tx d d', P'.rely tx d d' → P.rely tx d d') (hinv : ∀ d, P'.inv d → P.inv d)
    (h : P.Triple A m B) : P'.Triple A m B :=
  fun tx d hA => wp_transfer hrely hinv (h tx d hA)

theorem triple_pure {a : α} (h : ∀ tx d, A tx d → B a tx d) :
    P.Triple A (pure a : Txn D W κ ν ε α) B := by
  intro tx d hA a' ha
  cases ha
  exact h tx d hA

theorem triple_throw (e : ε) : P.Triple A (.throw e : Txn D W κ ν ε α) B := by
  intro tx d _ a ha
  cases ha

theorem triple_bind {m : Txn D W κ ν ε α} {k : α → Txn D W κ ν ε β}
    {Q : β → Tx W κ ν → D → Prop} (h : P.Triple A m B) (hk : ∀ a, P.Triple (B a) (k a) Q) :
    P.Triple A (m >>= k) Q := by
  intro tx d hA
  refine (wp_bind _ _ _ _ _).mpr (wp_mono ?_ (h tx d hA))
  intro r tx d hQ
  cases r with
  | ok a => exact hk a tx d (hQ a rfl)
  | error e => intro b hb; cases hb

theorem triple_ofExcept {r : Except ε α} (h : ∀ a, r = .ok a → ∀ tx d, A tx d → B a tx d) :
    P.Triple A (.ofExcept r : Txn D W κ ν ε α) B := by
  intro tx d hA
  exact (wp_ofExcept _ _ _ _).mpr fun a ha => h a ha tx d hA

theorem triple_exec {act : View D → Effect W κ ν} {res : View D → Except ε α} (hs : P.Stable A)
    (h : ∀ tx d now a, A tx d → P.inv d → res (tx.view d now) = .ok a →
      B a (tx.add (act (tx.view d now))) (tick (act (tx.view d now)).ids d)) :
    P.Triple A (.exec act res) B := by
  intro tx d hA
  refine (wp_exec _ _ _ _ _).mpr ?_
  intro d' now hr hi a ha
  exact h tx d' now a (hs tx d d' hr hi hA) hi ha

theorem triple_mapError {f : ε → ε} {m : Txn D W κ ν ε α} (h : P.Triple A m B) :
    P.Triple A (m.mapError f) B := by
  intro tx d hA
  refine (wp_mapError _ _ _ _ _).mpr (wp_mono ?_ (h tx d hA))
  intro r tx d hQ a ha
  cases r with
  | ok b => exact hQ a ha
  | error e => cases ha

theorem triple_and {m : Txn D W κ ν ε α} (h : P.Triple A m B) (h' : P.Triple A' m B') :
    P.Triple (fun tx d => A tx d ∧ A' tx d) m fun a tx d => B a tx d ∧ B' a tx d := by
  intro tx d hA
  refine wp_mono ?_ (wp_and (h tx d hA.1) (h' tx d hA.2))
  intro r tx d hQ a ha
  exact ⟨hQ.1 a ha, hQ.2 a ha⟩

/-- What holds of the writes of every statement holds of the transaction. -/
theorem triple_only {p : W → Prop} (hp : ∀ w w', p w → p w' → p (WriteSet.append w w'))
    {m : Txn D W κ ν ε α} (hm : m.Only p) :
    P.Triple (fun tx _ => p tx.writes) m fun _ tx _ => p tx.writes :=
  fun _ _ htx => wp_mono (fun _ _ _ h _ _ => h) (wp_only hp hm htx)

/-- Neither interference nor a statement whose writes have `q` breaks `A`. -/
structure Passive (P : Protocol D W κ ν H R C) (q : W → Prop) (A : Tx W κ ν → D → Prop) :
    Prop where
  stable : P.Stable A
  step : ∀ tx d (e : Effect W κ ν), q e.writes → A tx d → A (tx.add e) (tick e.ids d)

theorem Passive.mono {q q' : W → Prop} (h : P.Passive q A) (hq : ∀ w, q' w → q w) :
    P.Passive q' A :=
  ⟨h.stable, fun tx d e hw hA => h.step tx d e (hq _ hw) hA⟩

theorem Passive.and {q : W → Prop} (h : P.Passive q A) (h' : P.Passive q A') :
    P.Passive q fun tx d => A tx d ∧ A' tx d :=
  ⟨h.stable.and h'.stable, fun tx d e hq hA => ⟨h.step tx d e hq hA.1, h'.step tx d e hq hA.2⟩⟩

theorem Passive.all {q : W → Prop} {ι : Sort*} {A : ι → Tx W κ ν → D → Prop}
    (h : ∀ i, P.Passive q (A i)) : P.Passive q fun tx d => ∀ i, A i tx d :=
  ⟨fun tx d d' hr hi hA i => (h i).stable tx d d' hr hi (hA i),
    fun tx d e hq hA i => (h i).step tx d e hq (hA i)⟩

theorem passive_const (q : W → Prop) (r : Prop) : P.Passive q fun _ _ => r :=
  ⟨fun _ _ _ _ _ h => h, fun _ _ _ _ h => h⟩

/-- The writes of a transaction keep a property that statements with `q` keep. -/
theorem passive_writes {q p : W → Prop} (h : ∀ w w', p w → q w' → p (WriteSet.append w w')) :
    P.Passive q fun tx _ => p tx.writes :=
  ⟨fun _ _ _ _ _ h => h, fun _ _ _ hq hp => h _ _ hp hq⟩

/-- The frame rule for every way out of a transaction. -/
theorem wp_passive {q : W → Prop} {m : Txn D W κ ν ε α} (hA : P.Passive q A) (hm : m.Only q)
    {tx : Tx W κ ν} {d : D} (h : A tx d) : P.wp m (fun _ tx d => A tx d) tx d := by
  induction m generalizing tx d with
  | ret a => exact h
  | throw e => exact h
  | stmt act next ih =>
    intro d' now hr hi
    exact ih _ (hm.2 _) (hA.step _ _ _ (hm.1 _) (hA.stable _ _ _ hr hi h))

/-- Frame rule. -/
theorem triple_passive {q : W → Prop} {m : Txn D W κ ν ε α} (hA : P.Passive q A) (hm : m.Only q) :
    P.Triple A m fun _ tx d => A tx d :=
  fun _ _ h => wp_mono (fun _ _ _ h _ _ => h) (wp_passive hA hm h)

/-- Neither interference nor a statement whose effect has `p` breaks `A`. -/
structure Undisturbed (P : Protocol D W κ ν H R C) (p : Effect W κ ν → Prop)
    (A : Tx W κ ν → D → Prop) : Prop where
  stable : P.Stable A
  step : ∀ tx d (e : Effect W κ ν), p e → A tx d → A (tx.add e) (tick e.ids d)

theorem Undisturbed.and {p : Effect W κ ν → Prop} (h : P.Undisturbed p A) (h' : P.Undisturbed p A') :
    P.Undisturbed p fun tx d => A tx d ∧ A' tx d :=
  ⟨h.stable.and h'.stable, fun tx d e he hA => ⟨h.step tx d e he hA.1, h'.step tx d e he hA.2⟩⟩

theorem Undisturbed.mono {p q : Effect W κ ν → Prop} (h : P.Undisturbed p A) (hq : ∀ e, q e → p e) :
    P.Undisturbed q A := ⟨h.stable, fun tx d e he => h.step tx d e (hq e he)⟩

/-- Frame rule, where locks matter. -/
theorem triple_undisturbed {p : Effect W κ ν → Prop} {m : Txn D W κ ν ε α} (hA : P.Undisturbed p A)
    (hm : m.Does p) : P.Triple A m fun _ tx d => A tx d := by
  induction m with
  | ret a => exact fun tx d h _ _ => h
  | throw e => exact fun tx d _ _ ha => by cases ha
  | stmt act next ih =>
    intro tx d h d' now hr hi
    exact ih _ (hm.2 _) _ _ (hA.step _ _ _ (hm.1 _) (hA.stable _ _ _ hr hi h))

/-- One statement, with what it leaves alone. -/
theorem triple_exec_passive {q : W → Prop} {act : View D → Effect W κ ν} {res : View D → Except ε α}
    (hA : P.Passive q A) (hq : ∀ v, q (act v).writes)
    (h : ∀ tx d now a, A tx d → P.inv d → res (tx.view d now) = .ok a →
      B a (tx.add (act (tx.view d now))) (tick (act (tx.view d now)).ids d)) :
    P.Triple A (.exec act res) fun a tx d => A tx d ∧ B a tx d :=
  triple_exec hA.stable fun tx d now a hAd hi hr =>
    ⟨hA.step _ _ _ (hq _) hAd, h tx d now a hAd hi hr⟩

section lawful

variable [LawfulStore D]

include D in
theorem Tx.add_nothing (tx : Tx W κ ν) : tx.add { writes := nothing } = tx := by
  have hnone : written (nothing : W) = [] :=
    List.eq_nil_iff_forall_not_mem.mpr (LawfulStore.written_nothing (D := D))
  have happ := LawfulStore.append_nothing (D := D) tx.writes
  cases tx
  simp_all [Tx.add]

theorem triple_select {res : View D → α} (hs : P.Stable A)
    (h : ∀ tx d now, A tx d → P.inv d → B (res (tx.view d now)) tx d) :
    P.Triple A (.select res : Txn D W κ ν ε α) B := by
  intro tx d hA d' now hr hi
  rw [Tx.add_nothing (D := D), LawfulStore.tick_zero]
  intro a ha
  cases ha
  exact h tx d' now (hs tx d d' hr hi hA) hi

end lawful

/-- A transaction is safe when its body ends in a stable assertion that
    gives the guarantee. -/
theorem safe_of_triple {c : C} {m : Txn D W κ ν ε α} {k : Except ε α → Prog D W κ ν H R}
    {seen d : D} (h : P.Triple A m B) (hA : A Tx.empty d) (hB : ∀ a, P.Stable (B a))
    (hguar : ∀ a tx d, B a tx d → P.inv d → P.guar c seen tx d)
    (hok : ∀ a tx d, B a tx d → P.inv (Store.apply tx.writes d) →
      P.Safe c (k (.ok a)) seen Tx.empty (Store.apply tx.writes d))
    (herr : ∀ e d, P.Safe c (k (.error e)) seen Tx.empty d) :
    P.Safe c (m.transact k) seen Tx.empty d := by
  refine safe_transact m k (wp_mono ?_ (h Tx.empty d hA))
  intro r tx d hQ
  cases r with
  | ok a =>
    intro d' hr hi
    have hB' := hB a tx d d' hr hi (hQ a rfl)
    exact ⟨hguar a tx d' hB' hi, hok a tx d' hB'⟩
  | error e => exact herr e d

/-- The same with a fact `F` about the database that nobody breaks. -/
theorem safe_of_triple_fact {F : D → Prop} (hF : P.Passive (fun _ => True) fun _ d => F d) {c : C}
    {m : Txn D W κ ν ε α} {k : Except ε α → Prog D W κ ν H R} {seen d : D} (h : P.Triple A m B)
    (hA : A Tx.empty d) (hFd : F d) (hB : ∀ a, P.Stable (B a))
    (hguar : ∀ a tx d, B a tx d → P.inv d → P.guar c seen tx d)
    (hok : ∀ a tx d, B a tx d → F d → P.inv (Store.apply tx.writes d) →
      P.Safe c (k (.ok a)) seen Tx.empty (Store.apply tx.writes d))
    (herr : ∀ e d, F d → P.Safe c (k (.error e)) seen Tx.empty d) :
    P.Safe c (m.transact k) seen Tx.empty d := by
  have hwp := wp_and (h Tx.empty d hA) (wp_passive hF (Txn.only_true m) hFd)
  refine safe_transact m k (wp_mono ?_ hwp)
  intro r tx d hQ
  cases r with
  | ok a =>
    intro d' hr hi
    have hB' := hB a tx d d' hr hi (hQ.1 a rfl)
    exact ⟨hguar a tx d' hB' hi, hok a tx d' hB' (hF.stable tx d d' hr hi hQ.2)⟩
  | error e => exact herr e d hQ.2

end Protocol

end ReadCommitted
