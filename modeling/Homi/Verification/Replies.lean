import Homi.Framework.Output
import Homi.Verification.Statements

/-! # Rejected requests

  A request that is answered with an error has committed nothing: its
  guards only read, and its one transaction was rolled back.
-/

namespace Homi

open ReadCommitted

/-! ## Section 1: Programs -/

/-- A run of the worker posts bill by bill, and may fail after some. -/
def Call.isRequest : Call → Bool
  | .postDueBills _ => false
  | _ => true

/-- The failure of a request comes with no commit. -/
def rejectSpec (c : Call) : OutputSpec Writes LockKey Note Hint Reply where
  ok _ := True
  rest _ := True
  post out r := c.isRequest = true → ∀ err, r = .failure err → ∀ tx, .commit tx ∉ out

/-- Whatever the program reads, it fails only without a commit. -/
def FailsClean (c : Call) (prog : DbProg) : Prop := prog.Tells (rejectSpec c) Tx.empty []

/-- The program answers with a success. -/
def Succeeds (prog : DbProg) : Prop := ∃ outcome, prog = .done (.success outcome)

variable {c : Call}

theorem failsClean_closed : Closed (FailsClean c) where
  done _ _ _ _ _ h := by cases h
  query _ h := ⟨trivial, fun _ _ => h _⟩

theorem tells_emitAll_success {hints : List Hint} {prog : DbProg} (h : Succeeds prog) (tx : DbTx)
    (out : List (Output Writes LockKey Note Hint)) :
    (Prog.emitAll hints prog).Tells (rejectSpec c) tx out := by
  obtain ⟨outcome, rfl⟩ := h
  exact Prog.tells_emitAll (fun _ => trivial) fun _ _ err herr => by cases herr

section programs

variable {α : Type} {env : Env}

theorem gives_anything (m : DbTxn α) : m.Gives Db fun _ _ => True :=
  fun _ _ _ => Protocol.wp_mono (fun _ _ _ _ _ _ => trivial)
    (Protocol.wp_only (fun _ _ _ _ => trivial) (Txn.only_true m) trivial)

theorem failsClean_bare {m : DbTxn α} {next : Except Err α → DbProg}
    (hok : ∀ a, Succeeds (next (.ok a))) (herr : ∀ e, FailsClean c (next (.error e))) :
    FailsClean c (m.transact next) :=
  Prog.tells_transact Db.empty (gives_anything m) trivial
    (fun a _ _ => ⟨trivial, by
      obtain ⟨outcome, hdone⟩ := hok a
      rw [hdone]
      exact fun _ err herr => by cases herr⟩) herr

theorem failsClean_transact {fn : Millis → DbTxn (α × List ActivityInput)}
    {next : Except Err α → DbProg} (hok : ∀ a, Succeeds (next (.ok a)))
    (herr : ∀ e, FailsClean c (next (.error e))) : FailsClean c (transact fn next) :=
  Prog.tells_transact Db.empty (gives_anything _) trivial
    (fun r _ _ => ⟨trivial, tells_emitAll_success (hok r.1) _ _⟩) herr

theorem failsClean_withIdempotency {id : KeyId} {hash : JsString}
    {fn : (StoredResponse → DbTxn Unit) → Millis → DbTxn (StoredResponse × List ActivityInput)} :
    FailsClean c (withIdempotency id hash fun store next => transact (fn store) next) := by
  refine failsClean_closed.query _ fun v => ?_
  split
  · exact failsClean_closed.respond _
  · exact failsClean_closed.respond _
  · refine failsClean_transact (fun response => ⟨_, rfl⟩) fun err => ?_
    dsimp only
    split
    · refine failsClean_closed.query _ fun v => ?_
      split <;> exact failsClean_closed.respond _
    · exact failsClean_closed.respond _

theorem failsClean_route (c : Call) : FailsClean c (route env c) := by
  have hG : Closed (FailsClean c) := failsClean_closed
  have hdone : ∀ err, FailsClean c (.done (.failure err)) := fun _ => hG.done _
  -- every route ends in one transaction, behind its guards
  cases c with
  | signUp email name => exact failsClean_bare (fun _ => ⟨_, rfl⟩) hdone
  | createHouse u input => exact hG.parseBody (failsClean_transact (fun _ => ⟨_, rfl⟩) hdone)
  | createPlaceholder k u name =>
    exact hG.houseMemberGuard (hG.parseBody (failsClean_transact (fun _ => ⟨_, rfl⟩) hdone))
  | setDisplayName k u name =>
    exact hG.houseMemberGuard (hG.parseBody (failsClean_transact (fun _ => ⟨_, rfl⟩) hdone))
  | setRooms k u rooms =>
    refine hG.houseMemberGuard (hG.parseBody ?_)
    unfold setRooms
    dsimp only
    split
    · exact hG.done _
    · split
      · exact hG.done _
      · exact failsClean_transact (fun _ => ⟨_, rfl⟩) hdone
  | createInvite k u placeholderId =>
    refine hG.houseMemberGuard (hG.parseBody (hG.query _ fun v => ?_))
    split
    · exact hG.done _
    · exact failsClean_bare (fun _ => ⟨_, rfl⟩) hdone
  | acceptInvite token u =>
    rw [route, acceptInvite]
    exact failsClean_transact (fun _ => ⟨_, rfl⟩) hdone
  | createExpense k u key input =>
    exact hG.houseMemberGuard (hG.idempotencyKey (hG.parseBody failsClean_withIdempotency))
  | editExpense e u key input =>
    exact hG.uuidPipe (hG.idempotencyKey (hG.parseBody failsClean_withIdempotency))
  | recordPayment k u key input =>
    refine hG.houseMemberGuard (hG.idempotencyKey (hG.parseBody ?_))
    unfold recordPayment
    split
    · exact hG.done _
    · exact failsClean_withIdempotency
  | disputePayment id u => exact hG.uuidPipe (failsClean_transact (fun _ => ⟨_, rfl⟩) hdone)
  | resolvePayment id u => exact hG.uuidPipe (failsClean_transact (fun _ => ⟨_, rfl⟩) hdone)
  | createBill k u key input =>
    refine hG.houseMemberGuard (hG.idempotencyKey (hG.parseBody ?_))
    unfold createBill
    split
    · exact hG.done _
    · exact failsClean_withIdempotency
  | setActive k b u active =>
    exact hG.houseMemberGuard (hG.uuidPipe (failsClean_transact (fun _ => ⟨_, rfl⟩) hdone))
  | postDueBills now =>
    exact Prog.tells_trivial (fun _ => trivial) (fun _ => trivial) (fun _ _ h => by cases h) _ _ _

end programs

/-! ## Section 2: Runs -/

/-- A request that failed has committed nothing, whatever ran beside it. -/
theorem failed_commits_nothing {env : Env} {d₀ : Db} {ok : HomiState → Action Call → Prop}
    {s : HomiState} (h : Run (homiFrom env d₀) ok s) {p : ℕ}
    {pr : Proc Db Writes LockKey Note Hint Reply Call} (hp : s.procs[p]? = some pr)
    (hc : pr.call.isRequest = true) {err : Err} (hprog : pr.prog = .done (.failure err)) :
    ∀ c ∈ s.wal, c.pid ≠ p := by
  obtain ⟨log, hlog⟩ := Run.logged h
  have hstart : ∀ c d, (homiFrom env d₀).admits d c = true →
      ((homiFrom env d₀).code c).Tells (rejectSpec c) Tx.empty [] := fun c _ _ => failsClean_route c
  obtain ⟨_, hlast⟩ := (hlog.tells (S := rejectSpec) (fun _ => trivial) hstart
    fun _ _ _ _ _ herr => by cases herr).1 p pr hp
  rw [hprog] at hlast
  intro c hmem hpid
  exact hlast hc err rfl c.tx ((hlog.commits p c.tx).mpr ⟨c, hmem, hpid, rfl⟩)

end Homi
