import Homi.Framework.Output
import Homi.Verification.LedgerRuns

/-! # Hints mirror the feed

  After each commit a call publishes one hint for each event that the
  commit inserted, in their order, and it publishes nothing else.
-/

namespace Homi

open ReadCommitted Protocol

/-! ## Section 1: What a transaction logs -/

/-- The protocol that asks for nothing, over this database. -/
abbrev freeDb : Protocol Db Writes LockKey Note Unit Unit Unit := Protocol.free

/-- The events that the transaction inserted so far. -/
def Logs (l : List ActivityEvent) (tx : DbTx) (_ : Db) : Prop := tx.writes.activityEvents = l

/-- Writes to other tables. -/
def Writes.Unlogged (w : Writes) : Prop := w.activityEvents = []

theorem unlogged_nothing : Writes.Unlogged {} := rfl

section logs

variable {α : Type} {l : List ActivityEvent} {m : DbTxn α}

theorem triple_unlogged (hm : m.Only Writes.Unlogged) : freeDb.Triple (Logs l) m fun _ => Logs l := by
  have hpassive : freeDb.Passive Writes.Unlogged (Logs l) :=
    passive_writes (p := fun w : Writes => w.activityEvents = l) fun w w' hw hw' => by
      rw [Writes.append_eq, Writes.append, hw, show w'.activityEvents = [] from hw',
        List.append_nil]
  exact triple_passive hpassive hm

theorem triple_log {event : ActivityInput} :
    freeDb.Triple (Logs l) (log event) fun e tx d => e = event ∧ Logs (l ++ [event.row]) tx d := by
  refine triple_exec (fun _ _ _ _ _ h => h) fun tx d now a hA _ hres => ?_
  cases hres
  refine ⟨rfl, ?_⟩
  show tx.writes.activityEvents ++ [event.row] = l ++ [event.row]
  rw [show tx.writes.activityEvents = l from hA]

theorem triple_logAll_logs {events : List ActivityInput} :
    freeDb.Triple (Logs l) (logAll events) fun r => Logs (l ++ r.map ActivityInput.row) := by
  induction events generalizing l with
  | nil => exact triple_pure fun tx d hA => by simpa [Logs] using hA
  | cons event events ih =>
    refine triple_bind triple_log fun first => triple_bind (B := fun rest tx d =>
      first = event ∧ Logs (l ++ [event.row] ++ rest.map ActivityInput.row) tx d) ?_ fun rest =>
      triple_pure fun tx d hA => ?_
    · intro tx d hA
      exact wp_mono (fun _ _ _ h a ha => ⟨hA.1, h a ha⟩) (ih tx d hA.2)
    · obtain ⟨rfl, hA⟩ := hA
      simpa [Logs] using hA

theorem triple_insertEvent {event : ActivityInput} :
    freeDb.Triple (Logs l) (insertEvent event) fun _ => Logs (l ++ [event.row]) := by
  refine triple_exec (fun _ _ _ _ _ h => h) fun tx d now a hA _ _ => ?_
  show tx.writes.activityEvents ++ [event.row] = l ++ [event.row]
  rw [show tx.writes.activityEvents = l from hA]

/-- The transaction returns what it logs. -/
def ReturnsLogged (m : DbTxn (α × List ActivityInput)) : Prop :=
  freeDb.Triple (Logs []) m fun r => Logs (r.2.map ActivityInput.row)

/-- The last log of a transaction that logs once. -/
theorem returnsLogged_last {event : ActivityInput} {f : ActivityInput → DbTxn (α × List ActivityInput)}
    (hf : ∀ e, freeDb.Triple (fun tx d => e = event ∧ Logs [event.row] tx d) (f e)
      fun r => Logs (r.2.map ActivityInput.row)) : ReturnsLogged (do f (← log event)) :=
  triple_bind triple_log hf

theorem triple_return {a : α} {e event : ActivityInput} :
    freeDb.Triple (fun tx d => e = event ∧ Logs [event.row] tx d)
      (pure (a, [e]) : DbTxn (α × List ActivityInput)) fun r => Logs (r.2.map ActivityInput.row) :=
  triple_pure fun tx d hA => by
    obtain ⟨rfl, hA⟩ := hA
    exact hA

/-- `store` and `return` after the last log. -/
theorem triple_storeReturn {id : KeyId} {hash : JsString} {response : StoredResponse}
    {e event : ActivityInput} :
    freeDb.Triple (fun tx d => e = event ∧ Logs [event.row] tx d)
      (do store id hash response; return (response, [e]))
      fun r => Logs (r.2.map ActivityInput.row) := by
  refine triple_bind (B := fun _ tx d => e = event ∧ Logs [event.row] tx d) ?_ fun _ => triple_return
  intro tx d hA
  exact wp_mono (fun _ _ _ h a ha => ⟨hA.1, h a ha⟩)
    (triple_unlogged (only_store (p := Writes.Unlogged) fun _ => rfl) tx d hA.2)

/-- A first part that logs nothing. -/
theorem returnsLogged_bind {β : Type} {m : DbTxn β} {k : β → DbTxn (α × List ActivityInput)}
    (hm : m.Only Writes.Unlogged) (hk : ∀ b, ReturnsLogged (k b)) : ReturnsLogged (m >>= k) :=
  triple_bind (triple_unlogged hm) hk

theorem returnsLogged_pure {a : α} : ReturnsLogged (pure (a, []) : DbTxn (α × List ActivityInput)) :=
  triple_pure fun _ _ hA => hA

end logs

/-! ## Section 2: All transactions -/

section transactions

variable {env : Env} {startedAt : Millis}

theorem createHouse_logged {u : Uuid} {input : CreateHouseInput} :
    ReturnsLogged (createHouseTx env u input startedAt) :=
  returnsLogged_bind (Txn.only_exec fun _ => rfl) fun _ =>
    returnsLogged_bind (only_insertMember fun _ => rfl) fun _ =>
      returnsLogged_last fun _ => triple_return

theorem createPlaceholder_logged {h : JsString} {u : Uuid} {name : JsString} :
    ReturnsLogged (createPlaceholderTx env h u name startedAt) :=
  returnsLogged_bind (only_requireAdmin unlogged_nothing) fun _ =>
    returnsLogged_bind (Txn.only_exec fun _ => rfl) fun _ =>
      returnsLogged_bind (only_insertMember fun _ => rfl) fun _ =>
        returnsLogged_last fun _ => triple_return

theorem setDisplayName_logged {h : JsString} {u : Uuid} {name : Option JsString} :
    ReturnsLogged (setDisplayNameTx h u name startedAt) := by
  refine returnsLogged_bind (only_read unlogged_nothing) fun current => ?_
  split
  · exact returnsLogged_pure
  · exact returnsLogged_bind (only_updateMember fun _ => rfl) fun _ =>
      returnsLogged_last fun _ => triple_return

theorem setRooms_logged {h : JsString} {u : Uuid} {rooms : List RoomInput} :
    ReturnsLogged (setRoomsTx env h u rooms startedAt) :=
  returnsLogged_bind (only_requireAdmin unlogged_nothing) fun _ => returnsLogged_bind (Txn.only_select unlogged_nothing) fun _ =>
    returnsLogged_bind only_reject fun _ =>
      returnsLogged_bind (only_vacateRooms unlogged_nothing fun _ => rfl) fun _ =>
        returnsLogged_bind (only_deleteRooms unlogged_nothing fun _ => rfl) fun _ =>
          returnsLogged_bind (only_insertRooms fun _ => rfl) fun _ =>
            returnsLogged_bind (only_assignRooms fun _ => rfl) fun _ =>
              returnsLogged_last fun _ => triple_return

theorem createExpense_logged {h : JsString} {u : Uuid} {input : CreateExpenseInput} {id : KeyId}
    {hash : JsString} : ReturnsLogged (createExpenseTx env h u input (store id hash) startedAt) :=
  returnsLogged_bind (only_selectHouse unlogged_nothing) fun _ => returnsLogged_bind only_reject fun _ =>
    returnsLogged_bind (only_resolveSplitsOr400 unlogged_nothing) fun _ =>
      returnsLogged_bind (only_insertExpense (fun _ => rfl) fun _ => rfl) fun _ =>
        returnsLogged_last fun _ => triple_storeReturn

theorem editExpense_logged {e : JsString} {u : Uuid} {input : EditExpenseInput} {id : KeyId}
    {hash : JsString} : ReturnsLogged (editExpenseTx e u input (store id hash) startedAt) :=
  returnsLogged_bind (only_lockExpense unlogged_nothing) fun _ => returnsLogged_bind (Txn.only_select unlogged_nothing) fun _ =>
    returnsLogged_bind only_reject fun _ => returnsLogged_bind (Txn.only_select unlogged_nothing) fun _ =>
      returnsLogged_bind (only_insertRevisions fun _ => rfl) fun _ =>
        returnsLogged_bind (only_resolveSplitsOr400 unlogged_nothing) fun _ =>
          returnsLogged_bind (only_updateExpense fun _ => rfl) fun _ =>
            returnsLogged_bind (only_deleteSplitsOf unlogged_nothing fun _ => rfl) fun _ =>
              returnsLogged_bind (only_insertSplits fun _ => rfl) fun _ =>
                returnsLogged_last fun _ => triple_storeReturn

theorem recordPayment_logged {h : JsString} {u : Uuid} {input : RecordPaymentInput} {id : KeyId}
    {hash : JsString} : ReturnsLogged (recordPaymentTx env h u input (store id hash) startedAt) :=
  returnsLogged_bind (only_selectHouse unlogged_nothing) fun _ => returnsLogged_bind only_reject fun _ =>
    returnsLogged_bind (Txn.only_mapError (only_lockActingMember unlogged_nothing)) fun _ =>
      returnsLogged_bind (only_insertPayment fun _ => rfl) fun _ =>
        returnsLogged_last fun _ => triple_storeReturn

theorem disputePayment_logged {id : JsString} {u : Uuid} :
    ReturnsLogged (disputePaymentTx id u startedAt) :=
  returnsLogged_bind (only_paymentForRecipient unlogged_nothing) fun _ => returnsLogged_bind only_reject fun _ =>
    returnsLogged_bind (only_clock unlogged_nothing) fun _ => returnsLogged_bind only_reject fun _ =>
      returnsLogged_bind (only_updatePayment fun _ => rfl) fun _ =>
        returnsLogged_last fun _ => triple_return

theorem resolvePayment_logged {id : JsString} {u : Uuid} :
    ReturnsLogged (resolvePaymentTx id u startedAt) :=
  returnsLogged_bind (only_paymentForRecipient unlogged_nothing) fun _ => returnsLogged_bind only_reject fun _ =>
    returnsLogged_bind (only_updatePayment fun _ => rfl) fun _ =>
      returnsLogged_last fun _ => triple_return

theorem createBill_logged {h : JsString} {u : Uuid} {input : CreateBillInput} {id : KeyId}
    {hash : JsString} : ReturnsLogged (createBillTx env h u input (store id hash) startedAt) :=
  returnsLogged_bind (only_selectHouse unlogged_nothing) fun _ =>
    returnsLogged_bind (Txn.only_mapError (only_lockActingMember unlogged_nothing)) fun _ =>
      returnsLogged_bind (only_clock unlogged_nothing) fun _ => returnsLogged_bind only_liftSchedule fun _ =>
        returnsLogged_bind (only_insertBill fun _ => rfl) fun _ =>
          returnsLogged_last fun _ => triple_storeReturn

theorem setActive_logged {h b : JsString} {u : Uuid} {active : Bool} :
    ReturnsLogged (setActiveTx env h b u active startedAt) := by
  refine returnsLogged_bind (only_lockBill unlogged_nothing) fun bill =>
    returnsLogged_bind (Txn.only_select unlogged_nothing) fun _ => returnsLogged_bind only_reject fun _ => ?_
  split
  · exact returnsLogged_pure
  · exact returnsLogged_bind (only_resumedNextRun unlogged_nothing) fun _ =>
      returnsLogged_bind (only_updateBill fun _ => rfl) fun _ =>
        returnsLogged_last fun _ => triple_return

theorem triple_reviseFolded_logged {k u : Uuid} {folded : List (Uuid × Expense)} :
    freeDb.Triple (Logs []) (reviseFolded k u folded) fun r => Logs (r.map ActivityInput.row) := by
  unfold reviseFolded
  split
  · exact triple_pure fun _ _ hA => hA
  · exact triple_bind (triple_unlogged (Txn.only_select unlogged_nothing)) fun _ =>
      triple_bind (triple_unlogged (only_insertRevisions fun _ => rfl)) fun _ => triple_logAll_logs

theorem triple_claimHistory_logged {k p u : Uuid} :
    freeDb.Triple (Logs []) (claimHistory k p u) fun r => Logs (r.map ActivityInput.row) :=
  triple_bind (triple_unlogged (only_selectFolded unlogged_nothing)) fun _ =>
    triple_bind triple_reviseFolded_logged fun _ =>
      triple_bind (triple_unlogged (only_foldSplits unlogged_nothing fun _ => rfl)) fun _ =>
        triple_bind (triple_unlogged (only_sweepSplits unlogged_nothing fun _ => rfl)) fun _ =>
          triple_bind (triple_unlogged (only_reidentifySplits unlogged_nothing fun _ => rfl)) fun _ =>
            triple_bind (triple_unlogged (only_updateMember fun _ => rfl)) fun _ =>
              triple_bind (triple_unlogged (only_softDeleteUser fun _ => rfl)) fun _ =>
                triple_pure fun _ _ hA => hA

theorem triple_claimBound_logged {invite : Invite} {u : Uuid} {roomId : Option Uuid} :
    freeDb.Triple (Logs []) (claimBound invite u roomId) fun r => Logs (r.map ActivityInput.row) := by
  unfold claimBound
  split
  · refine triple_bind (triple_unlogged (only_inheritRoom unlogged_nothing fun _ => rfl)) fun _ =>
      triple_bind triple_claimHistory_logged fun events => triple_bind triple_log fun event =>
        triple_pure fun tx d hA => ?_
    obtain ⟨rfl, hA⟩ := hA
    simpa [Logs] using hA
  · exact triple_pure fun _ _ hA => hA

theorem triple_logJoined_logged {k u : Uuid} {already : Bool} {l : List ActivityEvent} :
    freeDb.Triple (Logs l) (logJoined k u already) fun r => Logs (l ++ r.map ActivityInput.row) := by
  unfold logJoined
  split
  · exact triple_pure fun tx d hA => by simpa [Logs] using hA
  · exact triple_logAll_logs

theorem finishAccept_logged {id : Uuid} {invite : Invite} {u : Uuid} {roomId : Option Uuid}
    {already : Bool} : ReturnsLogged (finishAccept id invite u roomId already) :=
  triple_bind triple_claimBound_logged fun claimed =>
    triple_bind (triple_unlogged (only_consumeUse fun _ => rfl)) fun _ =>
      triple_bind triple_logJoined_logged fun joined =>
        triple_pure fun tx d hA => by simpa [Logs] using hA

theorem acceptInvite_logged {token : JsString} {u : Uuid} :
    ReturnsLogged (acceptInviteTx env token u startedAt) := by
  refine returnsLogged_bind (only_lockInvite unlogged_nothing) fun found =>
    returnsLogged_bind (only_selectExisting unlogged_nothing) fun existing => ?_
  split
  · exact returnsLogged_pure
  · refine returnsLogged_bind (only_lockBound unlogged_nothing) fun roomId =>
      returnsLogged_bind (only_becomeMember unlogged_nothing fun _ => rfl) fun member => ?_
    split
    · exact returnsLogged_pure
    · exact finishAccept_logged

/-- The worker's posting logs one event, for the expense that it returns. -/
theorem triple_postOne_logged {bill : DueBill} {period nextRun : JsString} :
    freeDb.Triple (Logs []) (postOneTx env bill period nextRun) fun id tx _ =>
      ∃ e, tx.writes.activityEvents = [e] ∧ e.houseId = toUuid bill.template.houseId ∧
        e.type = .billPosted ∧ e.entityType = .expense ∧ e.entityId = toUuid id := by
  refine triple_bind (triple_unlogged (only_begin unlogged_nothing)) fun _ =>
    triple_bind (triple_unlogged (only_lockActiveMembers unlogged_nothing)) fun _ =>
    triple_bind (triple_unlogged only_reject) fun _ => triple_bind (triple_unlogged only_reject) fun _ =>
    triple_bind (triple_unlogged (only_resolveSplits unlogged_nothing)) fun _ =>
    triple_bind (triple_unlogged (only_insertExpense (fun _ => rfl) fun _ => rfl)) fun r =>
    triple_bind triple_insertEvent fun _ =>
    triple_bind (triple_unlogged (only_advanceBill fun _ => rfl)) fun _ =>
    triple_pure fun tx d hA => ⟨_, hA, rfl, rfl, rfl, rfl⟩

theorem triple_pause_logged {bill : DueBill} {reason : JsString} :
    freeDb.Triple (Logs []) (pauseTx bill reason) fun updated tx _ =>
      (updated = false → tx.writes.activityEvents = []) ∧ (updated = true →
        ∃ e, tx.writes.activityEvents = [e] ∧ e.houseId = toUuid bill.template.houseId ∧
          e.type = .billPaused ∧ e.entityType = .bill ∧ e.entityId = toUuid bill.id) := by
  refine triple_bind (triple_unlogged (Txn.only_exec fun _ => rfl)) fun updated => ?_
  split
  · refine triple_bind triple_insertEvent fun _ => triple_pure fun tx d hA => ?_
    exact ⟨fun h => (by cases h), fun _ => ⟨_, hA, rfl, rfl, rfl, rfl⟩⟩
  · exact triple_pure fun tx d hA => ⟨fun _ => hA, fun h => (by cases h)⟩

end transactions

/-! ## Section 3: Programs -/

/-- The hint of an event. A hint has the ids as the request spelled them. -/
structure HintOf (e : ActivityEvent) (h : Hint) : Prop where
  house : e.houseId = toUuid h.houseId
  type : e.type = h.type
  entityType : e.entityType = h.entityType
  entityId : e.entityId = toUuid h.entityId

/-- Each commit is followed by the hints of its events; `owed` are those
    whose hints are still to come. -/
abbrev Mirror : List (Output Writes LockKey Note Hint) → List ActivityEvent → Prop :=
  Mirrors (fun tx => tx.writes.activityEvents) HintOf

def hintSpec : OutputSpec Writes LockKey Note Hint Reply where
  ok out := ∃ owed, Mirror out owed
  rest out := Mirror out []
  post out r := r ≠ .stopped → Mirror out []

/-- Once it has published all it owed, the program goes on to do so. -/
def Publishes (prog : DbProg) : Prop := ∀ out, Mirror out [] → prog.Tells hintSpec Tx.empty out

theorem publishes_closed : Closed Publishes where
  done _ _ hout := fun _ => hout
  query _ hnext out hout := ⟨hout, fun _ _ => hnext _ out hout⟩

/-- What a commit owes is published next. -/
theorem publishes_commit {tx : DbTx} {out : List (Output Writes LockKey Note Hint)}
    (hints : List Hint) {next : DbProg} (hout : Mirror out [])
    (hsame : List.Forall₂ HintOf tx.writes.activityEvents hints) (hnext : Publishes next) :
    hintSpec.ok (out ++ [.commit tx]) ∧
      (Prog.emitAll hints next).Tells hintSpec Tx.empty (out ++ [.commit tx]) :=
  ⟨⟨_, hout.commit tx⟩, (hout.commit tx).emitAll (S := hintSpec) (fun _ owed h => ⟨owed, h⟩) hsame hnext⟩

section programs

variable {α : Type} {env : Env}

theorem gives_of_logs {m : DbTxn α} {B : α → DbTx → Prop}
    (h : freeDb.Triple (Logs []) m fun a tx _ => B a tx) : m.Gives Db B :=
  triple_weaken h (fun _ _ htx => by rw [htx]; rfl) fun _ _ _ hB => hB

theorem publishes_transact {fn : Millis → DbTxn (α × List ActivityInput)}
    (h : ∀ startedAt, ReturnsLogged (fn startedAt)) : Passes Publishes fn := by
  intro next hnext out hout
  refine Prog.tells_transact Db.empty (gives_of_logs
    (triple_bind (triple_unlogged (only_begin unlogged_nothing)) h)) hout (fun r tx hr => ?_)
    fun _ => hnext _ out hout
  refine publishes_commit _ hout ?_ (hnext _)
  rw [show tx.writes.activityEvents = r.2.map ActivityInput.row from hr, List.forall₂_map_left_iff,
    List.forall₂_map_right_iff, List.forall₂_same]
  exact fun event _ => (⟨rfl, rfl, rfl, rfl⟩ : HintOf event.row event.hint)

/-- A transaction that logs nothing. -/
theorem publishes_bare {m : DbTxn α} (hm : m.Only Writes.Unlogged) : PassesBare Publishes m := by
  intro next hnext out hout
  refine Prog.tells_transact Db.empty (gives_of_logs (triple_unlogged hm)) hout (fun a tx ha => ?_)
    fun _ => hnext _ out hout
  refine publishes_commit [] hout ?_ (hnext _)
  rw [show tx.writes.activityEvents = [] from ha]
  exact .nil

theorem publishes_postOne {bill : DueBill} {dueISO advanced : JsString}
    {next : Except Err (Uuid × JsString) → DbProg} (hnext : ∀ r, Publishes (next r)) :
    Publishes (postOne env bill dueISO advanced next) := by
  unfold postOne
  split
  · exact hnext _
  · intro out hout
    refine Prog.tells_transact Db.empty (gives_of_logs triple_postOne_logged) hout
      (fun id tx hid => ?_) fun _ => hnext _ out hout
    obtain ⟨e, he, hhouse, htype, hentity, hid⟩ := hid
    refine publishes_commit [_] hout ?_ (hnext _)
    rw [he]
    exact .cons ⟨hhouse, htype, hentity, hid⟩ .nil

theorem publishes_pause {bill : DueBill} {reason : JsString} {next : DbProg}
    (hnext : Publishes next) : Publishes (pause bill reason next) := by
  intro out hout
  refine Prog.tells_transact Db.empty (gives_of_logs triple_pause_logged) hout
    (fun updated tx hlogged => ?_) fun _ _ => hout
  cases updated with
  | false =>
    refine publishes_commit [] hout ?_ hnext
    rw [hlogged.1 rfl]
    exact .nil
  | true =>
    obtain ⟨e, he, hhouse, htype, hentity, hid⟩ := hlogged.2 rfl
    refine publishes_commit [_] hout ?_ hnext
    rw [he]
    exact .cons ⟨hhouse, htype, hentity, hid⟩ .nil

theorem publishes_route (c : Call) : Publishes (route env c) := by
  refine publishes_closed.route ?_
  cases c with
  | signUp email name => exact publishes_bare (only_signUpTx fun _ => rfl)
  | createHouse u input => exact publishes_transact fun _ => createHouse_logged
  | createPlaceholder h u name => exact publishes_transact fun _ => createPlaceholder_logged
  | setDisplayName h u name => exact publishes_transact fun _ => setDisplayName_logged
  | setRooms h u rooms => exact publishes_transact fun _ => setRooms_logged
  | createInvite h u placeholderId =>
    exact fun _ => publishes_bare (only_createInviteTx unlogged_nothing fun _ => rfl)
  | acceptInvite token u => exact publishes_transact fun _ => acceptInvite_logged
  | createExpense h u key input => exact publishes_transact fun _ => createExpense_logged
  | editExpense e u key input => exact publishes_transact fun _ => editExpense_logged
  | recordPayment h u key input => exact publishes_transact fun _ => recordPayment_logged
  | disputePayment id u => exact publishes_transact fun _ => disputePayment_logged
  | resolvePayment id u => exact publishes_transact fun _ => resolvePayment_logged
  | createBill h u key input => exact publishes_transact fun _ => createBill_logged
  | setActive h b u active => exact publishes_transact fun _ => setActive_logged
  | postDueBills now =>
    exact fun bill => ⟨fun _ _ _ hnext => publishes_postOne hnext,
      fun _ _ => publishes_bare (only_advanceBill fun _ => rfl),
      fun _ _ hnext => publishes_pause hnext⟩

end programs

/-! ## Section 4: Runs -/

/-- What the hints of a run are.

    * `mirrors`: a process publishes a hint for each event of each of its
      commits, once, after the commit and before it does anything else.
    * `settled`: unless the next step publishes a hint, or the process was
      stopped, all its committed events are published.
    * `silent`: who commits nothing publishes nothing.
    * `commits`, `hints`: the log has the commits and hints of the state. -/
structure HintsMirror (log : List (ℕ × Output Writes LockKey Note Hint)) (s : HomiState) : Prop where
  mirrors : ∀ p, ∃ owed, Mirror (outputOf p log) owed
  settled : ∀ (p : ℕ) (pr : Proc Db Writes LockKey Note Hint Reply Call), s.procs[p]? = some pr →
    (∀ h next, pr.prog ≠ .emit h next) → pr.prog ≠ .done .stopped → Mirror (outputOf p log) []
  silent : ∀ p, (∀ c ∈ s.wal, c.pid ≠ p) → outputOf p log = []
  commits : ∀ p tx, .commit tx ∈ outputOf p log ↔ ∃ c ∈ s.wal, c.pid = p ∧ c.tx = tx
  hints : s.hints = messages log

/-- In every run, stopped at any point, the hints mirror the committed feed. -/
theorem hints_mirror_feed (env : Env) (log : List (ℕ × Output Writes LockKey Note Hint))
    (s : HomiState) (h : Logged (homi env) log s) : HintsMirror log s := by
  obtain ⟨hprocs, hnew⟩ := h.tells (S := fun _ => hintSpec) (fun _ => ⟨[], .nil⟩)
    (fun c _ _ => publishes_route c [] .nil) (fun _ _ _ hne => absurd rfl hne)
  have hmirrors : ∀ p, ∃ owed, Mirror (outputOf p log) owed := by
    intro p
    cases hp : s.procs[p]? with
    | none => exact ⟨[], by rw [hnew p (List.getElem?_eq_none_iff.mp hp)]; exact .nil⟩
    | some pr => exact (hprocs p pr hp).1
  refine ⟨hmirrors, fun p pr hp hemit hstop => ?_, fun p hp => ?_, h.commits, h.hints⟩
  · have htells := (hprocs p pr hp).2
    generalize hprog : pr.prog = prog at htells hemit hstop
    cases prog with
    | done r => exact htells fun heq => hstop (heq ▸ rfl)
    | query next => exact htells.1
    | stmt act next => exact htells.1
    | rollback next => exact htells.1
    | commit next =>
      obtain ⟨owed, howed⟩ := htells.1
      exact howed.of_commit
    | emit hint next => exact absurd rfl (hemit hint next)
  · obtain ⟨owed, howed⟩ := hmirrors p
    refine (howed.silent fun tx htx => ?_).1
    obtain ⟨c, hc, hpid, _⟩ := (h.commits p tx).mp htx
    exact hp c hc hpid

theorem hints_mirror_feed_dinner :
    ∃ log, ∃ s : HomiState, s.hints.length = 5 ∧ HintsMirror log s := by
  obtain ⟨s, hrun, hs⟩ := Run.exists_of_drive (homi sampleEnv) claimSession
    (fun s => s.hints.length = 5) (by decide +kernel)
  obtain ⟨log, hlog⟩ := Run.logged hrun
  exact ⟨log, s, of_decide_eq_true hs, hints_mirror_feed sampleEnv log s hlog⟩

end Homi
