import Homi.Framework.Interference

/-! # Running alone

  What a program does when no other process takes a step until it is done,
  and the clock stands still: one function from the database to the reply
  and the database after it.

  `Prog.alone_steps` says that the system has this run wherever no other
  process holds a lock.
-/

namespace ReadCommitted

variable {D W κ ν H R C ε α β : Type} [WriteSet W κ] [Store D W κ]

/-- What a transaction with the writes `w` sees. -/
def seen (w : W) (d : D) (now : Nat) : View D := ⟨Store.apply w d, now⟩

/-! ## Section 1: Transactions -/

namespace Txn

/-- Where the body of a transaction ends that has the writes `w` already:
    its value or error, the database, and all its writes. -/
def alone (now : Nat) : Txn D W κ ν ε α → D → W → Except ε α × D × W
  | .ret a, d, w => (.ok a, d, w)
  | .throw e, d, w => (.error e, d, w)
  | .stmt act next, d, w =>
      (next (seen w d now)).alone now (tick (act (seen w d now)).ids d)
        (WriteSet.append w (act (seen w d now)).writes)

variable {now : Nat} {d : D} {w : W}

@[simp] theorem alone_pure (a : α) :
    (pure a : Txn D W κ ν ε α).alone now d w = (.ok a, d, w) := rfl

@[simp] theorem alone_ret (a : α) :
    (.ret a : Txn D W κ ν ε α).alone now d w = (.ok a, d, w) := rfl

@[simp] theorem alone_throw (e : ε) :
    (.throw e : Txn D W κ ν ε α).alone now d w = (.error e, d, w) := rfl

@[simp] theorem alone_ofExcept (r : Except ε α) :
    (.ofExcept r : Txn D W κ ν ε α).alone now d w = (r, d, w) := by
  cases r <;> rfl

/-- Sequencing: a thrown error skips the rest. -/
theorem alone_bind (m : Txn D W κ ν ε α) (k : α → Txn D W κ ν ε β) :
    (m >>= k).alone now d w = match m.alone now d w with
      | (.ok a, d', w') => (k a).alone now d' w'
      | (.error e, d', w') => (.error e, d', w') := by
  induction m generalizing d w with
  | ret a => rfl
  | throw e => rfl
  | stmt act next ih => exact ih _

/-- One statement. -/
@[simp] theorem alone_exec (act : View D → Effect W κ ν) (res : View D → Except ε α) :
    (.exec act res : Txn D W κ ν ε α).alone now d w =
      (res (seen w d now), tick (act (seen w d now)).ids d,
        WriteSet.append w (act (seen w d now)).writes) := alone_ofExcept _

theorem alone_mapError (f : ε → ε) (m : Txn D W κ ν ε α) :
    (m.mapError f).alone now d w = ((m.alone now d w).1.mapError f, (m.alone now d w).2) := by
  induction m generalizing d w with
  | ret a => rfl
  | throw e => rfl
  | stmt act next ih => exact ih _

/-! ### Bodies that only read -/

/-- Run alone, the body returns `r` of what it sees, and it writes nothing. -/
def Reads (m : Txn D W κ ν ε α) (r : View D → Except ε α) : Prop :=
  ∀ now d w, m.alone now d w = (r (seen w d now), d, w)

variable {m : Txn D W κ ν ε α} {r : View D → Except ε α}

theorem reads_pure (a : α) : (pure a : Txn D W κ ν ε α).Reads fun _ => .ok a :=
  fun _ _ _ => rfl

theorem reads_ret (a : α) : (.ret a : Txn D W κ ν ε α).Reads fun _ => .ok a :=
  fun _ _ _ => rfl

theorem reads_throw (e : ε) : (.throw e : Txn D W κ ν ε α).Reads fun _ => .error e :=
  fun _ _ _ => rfl

theorem reads_ofExcept (x : Except ε α) : (.ofExcept x : Txn D W κ ν ε α).Reads fun _ => x :=
  fun _ _ _ => alone_ofExcept x

theorem reads_bind {k : α → Txn D W κ ν ε β} {q : α → View D → Except ε β} (hm : m.Reads r)
    (hk : ∀ a, (k a).Reads (q a)) :
    (m >>= k).Reads fun v => (r v).bind fun a => q a v := by
  intro now d w
  rw [alone_bind, hm now d w]
  dsimp only
  cases r (seen w d now) with
  | error e => rfl
  | ok a => exact hk a now d w

theorem Reads.congr {r' : View D → Except ε α} (hm : m.Reads r) (h : ∀ v, r v = r' v) :
    m.Reads r' := by
  rw [← funext h]
  exact hm

/-- What comes after a part that only reads. -/
theorem Reads.alone_bind_ok (hm : m.Reads r) {k : α → Txn D W κ ν ε β} {a : α}
    (h : r (seen w d now) = .ok a) : (m >>= k).alone now d w = (k a).alone now d w := by
  rw [alone_bind, hm now d w, h]

theorem Reads.alone_bind_error (hm : m.Reads r) {k : α → Txn D W κ ν ε β} {e : ε}
    (h : r (seen w d now) = .error e) : (m >>= k).alone now d w = (.error e, d, w) := by
  rw [alone_bind, hm now d w, h]

variable [LawfulStore D]

/-- One statement that writes nothing. -/
theorem reads_exec {act : View D → Effect W κ ν} {res : View D → Except ε α}
    (hw : ∀ v, (act v).writes = nothing) (hids : ∀ v, (act v).ids = 0) :
    (Txn.exec act res).Reads res := by
  intro now d w
  rw [alone_exec, hids, hw, LawfulStore.tick_zero, LawfulStore.append_nothing (D := D)]

theorem reads_select (f : View D → α) : (.select f : Txn D W κ ν ε α).Reads fun v => .ok (f v) :=
  @reads_exec _ _ _ _ _ _ _ _ _ (fun _ => { writes := nothing }) (fun v => .ok (f v))
    (fun _ => rfl) fun _ => rfl

/-! ### Bodies that do not throw

    `Runs A m B`: run alone from `A`, the body returns a value, and `B`
    holds of it, the database and the writes. -/

def Runs (A : D → W → Prop) (m : Txn D W κ ν ε α) (B : α → D → W → Prop) : Prop :=
  ∀ now d w, A d w → ∃ a d' w', m.alone now d w = (.ok a, d', w') ∧ B a d' w'

omit [LawfulStore D]

variable {A A' : D → W → Prop} {B B' : α → D → W → Prop}

theorem runs_weaken (h : m.Runs A B) (hA : ∀ d w, A' d w → A d w)
    (hB : ∀ a d w, B a d w → B' a d w) : m.Runs A' B' := by
  intro now d w hA'
  obtain ⟨a, d', w', ha, hres⟩ := h now d w (hA d w hA')
  exact ⟨a, d', w', ha, hB a d' w' hres⟩

theorem runs_pure {a : α} (h : ∀ d w, A d w → B a d w) :
    (pure a : Txn D W κ ν ε α).Runs A B := fun _ d w hA => ⟨a, d, w, rfl, h d w hA⟩

theorem runs_bind {k : α → Txn D W κ ν ε β} {Q : β → D → W → Prop} (hm : m.Runs A B)
    (hk : ∀ a, (k a).Runs (B a) Q) : (m >>= k).Runs A Q := by
  intro now d w hA
  obtain ⟨a, d', w', ha, hB⟩ := hm now d w hA
  rw [alone_bind, ha]
  exact hk a now d' w' hB

theorem runs_exec {act : View D → Effect W κ ν} {res : View D → Except ε α}
    (h : ∀ now d w, A d w → ∃ a, res (seen w d now) = .ok a ∧
      B a (tick (act (seen w d now)).ids d) (WriteSet.append w (act (seen w d now)).writes)) :
    (Txn.exec act res).Runs A B := by
  intro now d w hA
  obtain ⟨a, ha, hB⟩ := h now d w hA
  rw [alone_exec, ha]
  exact ⟨a, _, _, rfl, hB⟩

theorem runs_select {f : View D → α}
    (h : ∀ now d w, A d w → B (f (seen w d now)) (tick 0 d) (WriteSet.append w nothing)) :
    (.select f : Txn D W κ ν ε α).Runs A B := fun now d w hA => ⟨_, _, _, rfl, h now d w hA⟩

/-- What every statement keeps, the body keeps. -/
theorem alone_keeps {p : W → Prop} {I : D → W → Prop}
    (hI : ∀ d w n w', I d w → p w' → I (tick n d) (WriteSet.append w w')) (hm : m.Only p) (h : I d w) :
    I (m.alone now d w).2.1 (m.alone now d w).2.2 := by
  induction m generalizing d w with
  | ret a => exact h
  | throw e => exact h
  | stmt act next ih => exact ih _ (hm.2 _) (hI _ _ _ _ h (hm.1 _))

/-- A body that does not throw keeps what its statements keep. -/
theorem Runs.keeps {p : W → Prop} {I : D → W → Prop}
    (hI : ∀ d w n w', I d w → p w' → I (tick n d) (WriteSet.append w w')) (hm : m.Only p)
    (h : m.Runs A B) : m.Runs (fun d w => A d w ∧ I d w) fun a d w => B a d w ∧ I d w := by
  intro now d w hA
  obtain ⟨a, d', w', ha, hB⟩ := h now d w hA.1
  have hI' : I (m.alone now d w).2.1 (m.alone now d w).2.2 := alone_keeps hI hm hA.2
  rw [ha] at hI'
  exact ⟨a, d', w', ha, hB, hI'⟩

/-- What the writes and the drawn ids leave alone. -/
theorem Runs.keeping {p : W → Prop} {Q : D → Prop}
    (hp : ∀ w w', p w → p w' → p (WriteSet.append w w')) (hQ : ∀ n d, Q d → Q (tick n d))
    (hm : m.Only p) (h : m.Runs (fun d w => p w ∧ Q d) B) :
    m.Runs (fun d w => p w ∧ Q d) fun a d w => B a d w ∧ p w ∧ Q d :=
  runs_weaken (Runs.keeps (fun _ _ _ _ hI hw' => ⟨hp _ _ hI.1 hw', hQ _ _ hI.2⟩) hm h)
    (fun _ _ hA => ⟨hA, hA⟩) fun _ _ _ hB => hB

end Txn

/-! ## Section 2: Programs -/

namespace Prog

/-- The reply of the program, and the database it leaves. -/
def alone (now : Nat) : Prog D W κ ν H R → D → W → R × D
  | .done r, d, _ => (r, d)
  | .query next, d, w => (next (seen w d now)).alone now d w
  | .stmt act next, d, w =>
      (next (seen w d now)).alone now (tick (act (seen w d now)).ids d)
        (WriteSet.append w (act (seen w d now)).writes)
  | .rollback next, d, _ => next.alone now d nothing
  | .commit next, d, w => next.alone now (Store.apply w d) nothing
  | .emit _ next, d, w => next.alone now d w

variable {now : Nat} {d : D} {w : W}

theorem alone_emitAll (hs : List H) (next : Prog D W κ ν H R) :
    (Prog.emitAll hs next).alone now d w = next.alone now d w := by
  induction hs with
  | nil => rfl
  | cons h hs ih => exact ih

/-- The program only reads, outside of any transaction. -/
def Queries : Prog D W κ ν H R → Prop
  | .done _ => True
  | .query next => ∀ v, (next v).Queries
  | _ => False

theorem Queries.alone_db {prog : Prog D W κ ν H R} (h : prog.Queries) :
    (prog.alone now d w).2 = d := by
  induction prog with
  | done r => rfl
  | query next ih => exact ih _ (h _)
  | stmt act next _ => exact h.elim
  | rollback next _ => exact h.elim
  | commit next _ => exact h.elim
  | emit hint next _ => exact h.elim

/-- A transaction commits what its body wrote, or nothing. -/
theorem alone_transact (m : Txn D W κ ν ε α) (k : Except ε α → Prog D W κ ν H R) :
    (m.transact k).alone now d w = match m.alone now d w with
      | (.ok a, d', w') => (k (.ok a)).alone now (Store.apply w' d') nothing
      | (.error e, d', _) => (k (.error e)).alone now d' nothing := by
  induction m generalizing d w with
  | ret a => rfl
  | throw e => rfl
  | stmt act next ih => exact ih _

/-- One step first, then the others. -/
theorem steps_head [DecidableEq κ] {sys : System D W κ ν H R C} {s s₁ s' : State D W κ ν H R C}
    {a : Action C} (hstep : step sys s a = some s₁) (h : Steps sys s₁ s') : Steps sys s s' := by
  induction h with
  | refl => exact .step a .refl hstep
  | step b _ hb ih => exact .step b ih hb

/-- The process `p` goes on as `pr'`, the others stay where they are. -/
theorem idle_step [DecidableEq κ] {sys : System D W κ ν H R C} {s s₁ : State D W κ ν H R C}
    {a : Action C} {p : Nat} {pr pr' : Proc D W κ ν H R C} (hp : s.procs[p]? = some pr)
    (hidle : ∀ q qr, s.procs[q]? = some qr → q ≠ p → qr.tx.locks = [])
    (_ : step sys s a = some s₁) (hprocs : s₁.procs = s.procs.set p pr') :
    s₁.procs[p]? = some pr' ∧ ∀ q qr, s₁.procs[q]? = some qr → q ≠ p → qr.tx.locks = [] := by
  rw [hprocs]
  refine ⟨List.getElem?_set_self (List.getElem?_eq_some_iff.mp hp).1, fun q qr hq hqp => ?_⟩
  rw [List.getElem?_set_ne (Ne.symm hqp)] at hq
  exact hidle q qr hq hqp

/-- Where no other process holds a lock, the system can run the process to
    its end, and it ends as `alone` says. -/
theorem alone_steps [DecidableEq κ] {sys : System D W κ ν H R C} (now : Nat)
    (prog : Prog D W κ ν H R) {s : State D W κ ν H R C} {p : Nat} {pr : Proc D W κ ν H R C}
    {last : D} {tx : Tx W κ ν} (hp : s.procs[p]? = some (pr.resume last tx prog))
    (hidle : ∀ q qr, s.procs[q]? = some qr → q ≠ p → qr.tx.locks = []) :
    ∃ s', Steps sys s s' ∧ s'.db = (prog.alone now s.db tx.writes).2 ∧
      ∃ pr', s'.procs[p]? = some pr' ∧ pr'.prog = .done (prog.alone now s.db tx.writes).1 := by
  induction prog generalizing s pr last tx with
  | done r => exact ⟨s, .refl, rfl, _, hp, rfl⟩
  | query next ih =>
    have hstep : step sys s (.run p now) = some { s with
        procs := s.procs.set p (Proc.resume { pr.resume last tx (.query next) with seen := s.db }
          s.db tx (next (tx.view s.db now))) } := by
      simp only [step, hp]
      rfl
    obtain ⟨hp₁, hidle₁⟩ := idle_step hp hidle hstep rfl
    obtain ⟨s', hsteps, hend⟩ := ih _ hp₁ hidle₁
    exact ⟨s', steps_head hstep hsteps, hend⟩
  | stmt act next ih =>
    -- the statement waits for no one
    have hfree : unblocked s.procs p (tx.add (act (tx.view s.db now))).locks = true :=
      unblocked_iff.mpr fun q qr hq hqp => by
        rw [hidle q qr hq hqp]
        exact compatible_nil_left _
    have hstep : step sys s (.run p now) = some { s with
        db := tick (act (tx.view s.db now)).ids s.db
        procs := s.procs.set p ((pr.resume last tx (.stmt act next)).resume
          (tick (act (tx.view s.db now)).ids s.db) (tx.add (act (tx.view s.db now)))
          (next (tx.view s.db now))) } := by
      simp only [step, hp]
      exact if_pos hfree
    obtain ⟨hp₁, hidle₁⟩ := idle_step hp hidle hstep rfl
    obtain ⟨s', hsteps, hend⟩ := ih _ hp₁ hidle₁
    exact ⟨s', steps_head hstep hsteps, hend⟩
  | rollback next ih => exact ih hp hidle
  | commit next ih =>
    have hstep : step sys s (.run p now) = some { s with
        db := Store.apply tx.writes s.db
        procs := s.procs.set p ((pr.resume last tx (.commit next)).resume
          (Store.apply tx.writes s.db) Tx.empty next)
        wal := s.wal ++ [⟨p, (pr.resume last tx (.commit next)).call,
          (pr.resume last tx (.commit next)).seen, tx, s.db⟩] } := by
      simp only [step, hp]
      rfl
    obtain ⟨hp₁, hidle₁⟩ := idle_step hp hidle hstep rfl
    obtain ⟨s', hsteps, hend⟩ := ih hp₁ hidle₁
    exact ⟨s', steps_head hstep hsteps, hend⟩
  | emit h next ih =>
    have hstep : step sys s (.run p now) = some { s with
        procs := s.procs.set p ((pr.resume last tx (.emit h next)).resume s.db tx next)
        hints := s.hints ++ [h] } := by
      simp only [step, hp]
      rfl
    obtain ⟨hp₁, hidle₁⟩ := idle_step hp hidle hstep rfl
    obtain ⟨s', hsteps, hend⟩ := ih hp₁ hidle₁
    exact ⟨s', steps_head hstep hsteps, hend⟩

/-- The same for a call that starts where no process holds a lock. -/
theorem alone_call [DecidableEq κ] {sys : System D W κ ν H R C} (now : Nat)
    {s : State D W κ ν H R C} {c : C} (hadmits : sys.admits s.db c = true)
    (hidle : ∀ (q : Nat) qr, s.procs[q]? = some qr → qr.tx.locks = []) :
    ∃ s₁ s', step sys s (.start c) = some s₁ ∧ Steps sys s₁ s' ∧
      s'.db = ((sys.code c).alone now s.db nothing).2 ∧
      ∃ pr, s'.procs[s.procs.length]? = some pr ∧
        pr.prog = .done ((sys.code c).alone now s.db nothing).1 := by
  have hstart : step sys s (.start c) = some { s with
      procs := s.procs ++ [Proc.fresh c s.db (sys.code c)] } := if_pos hadmits
  have hidle₁ : ∀ q (qr : Proc D W κ ν H R C), (s.procs ++ [Proc.fresh c s.db (sys.code c)])[q]? = some qr →
      q ≠ s.procs.length → qr.tx.locks = [] := by
    intro q qr hq hne
    have hlt : q < s.procs.length := by
      have hlen := (List.getElem?_eq_some_iff.mp hq).1
      rw [List.length_append, List.length_singleton] at hlen
      omega
    rw [List.getElem?_append_left hlt] at hq
    exact hidle q qr hq
  let s₁ : State D W κ ν H R C := { s with procs := s.procs ++ [Proc.fresh c s.db (sys.code c)] }
  have hp : s₁.procs[s.procs.length]? = some (Proc.fresh c s.db (sys.code c)) :=
    List.getElem?_concat_length
  obtain ⟨s', hsteps, hend⟩ := alone_steps now (sys.code c) hp hidle₁
  exact ⟨s₁, s', hstart, hsteps, hend⟩

end Prog

end ReadCommitted
