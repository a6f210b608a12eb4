import Homi.Framework.Interference
import Homi.System

/-! # Footprints

  Which tables each helper of the services writes. `p` is any property of
  write sets, and a lemma asks of it that writes to these tables have it,
  so that one lemma serves every property of this kind.
-/

namespace Homi

open ReadCommitted Txn

variable {p : Writes → Prop}

/-! ## Section 1: Helpers that write nothing -/

section reads

variable (h0 : p {})
include h0

theorem only_read {α : Type} {locks : View Db → Locks LockKey} {notes : View Db → List Note}
    {res : View Db → Except Err α} :
    (.exec (fun v => { locks := locks v, notes := notes v, writes := {} }) res : DbTxn α).Only p :=
  only_exec fun _ => h0

theorem only_begin : begin.Only p := only_select h0

theorem only_clock : clock.Only p := only_exec fun _ => h0

omit h0 in
theorem only_reject {bad : Prop} [Decidable bad] {err : Err} : (reject bad err).Only p := by
  unfold reject
  split <;> trivial

omit h0 in
theorem only_liftSplit {α : Type} {r : Except (SplitError JsString) α} : (liftSplit r).Only p := by
  cases r <;> trivial

omit h0 in
theorem only_liftSchedule {α : Type} {r : Except ScheduleError α} : (liftSchedule r).Only p := by
  cases r <;> trivial

theorem only_requireAdmin {h u : Uuid} {action : JsString} : (requireAdmin h u action).Only p :=
  only_bind (only_select h0) fun _ => only_reject

theorem only_lockActiveMembers {h : JsString} {ids : Option (List JsString)} :
    (lockActiveMembers h ids).Only p :=
  only_bind (only_select h0) fun _ => only_read h0

theorem only_lockActingMember {h u : JsString} {who : Acting} :
    (lockActingMember h u who).Only p := only_read h0

theorem only_selectRooms {h : JsString} {ids : List Uuid} : (selectRooms h ids).Only p := by
  unfold selectRooms
  split
  · trivial
  · exact only_select h0

theorem only_deriveRoomWeights {h : JsString} {ids : List JsString} {ms : List ActiveMember} :
    (deriveRoomWeights h ids ms).Only p :=
  only_bind (only_selectRooms h0) fun _ => only_bind only_liftSplit fun _ => only_ofExcept _

theorem only_postingMembers {h : JsString} {mode : SplitMode} {ids : List JsString}
    {pre : Option (List ActiveMember)} : (postingMembers h mode ids pre).Only p := by
  unfold postingMembers
  split
  · trivial
  · exact only_lockActiveMembers h0

theorem only_postingWeights {h : JsString} {input : ResolveSplitsInput} {ms : List ActiveMember} :
    (postingWeights h input ms).Only p := by
  unfold postingWeights
  split
  · split
    · trivial
    · exact only_bind (only_deriveRoomWeights h0) fun _ => trivial
  · trivial

theorem only_resolveSplits {h : JsString} {input : ResolveSplitsInput}
    {pre : Option (List ActiveMember)} : (resolveSplits h input pre).Only p := by
  unfold resolveSplits
  refine only_bind (only_postingMembers h0) fun members => ?_
  split
  · trivial
  · split
    · trivial
    · exact only_bind (only_postingWeights h0) fun _ => only_liftSplit

theorem only_resolveSplitsOr400 {h : JsString} {input : ResolveSplitsInput} :
    (resolveSplitsOr400 h input).Only p := only_mapError (only_resolveSplits h0)

theorem only_selectHouse {h : JsString} {missing : Err} : (selectHouse h missing).Only p :=
  only_read h0

theorem only_lockExpense {e : Uuid} : (lockExpense e).Only p := only_read h0

theorem only_lockPayment {id : Uuid} : (lockPayment id).Only p := only_read h0

theorem only_paymentForRecipient {id : JsString} {u : Uuid} {msg : JsString} :
    (paymentForRecipient id u msg).Only p :=
  only_bind (only_lockPayment h0) fun _ => only_bind (only_select h0) fun _ =>
    only_bind only_reject fun _ => only_bind only_reject fun _ => trivial

theorem only_lockBill {h b : JsString} : (lockBill h b).Only p := only_read h0

theorem only_resumedNextRun {env : Env} {h : JsString} {bill : BillTemplate} {active : Bool} :
    (resumedNextRun env h bill active).Only p := by
  unfold resumedNextRun
  split
  · exact only_bind (only_selectHouse h0) fun _ => only_bind (only_clock h0) fun _ =>
      only_liftSchedule
  · trivial

theorem only_lockUnclaimed {h u : Uuid} : (lockUnclaimed h u).Only p := only_read h0

theorem only_checkBound {h : Uuid} {placeholder : Option Uuid} : (checkBound h placeholder).Only p := by
  cases placeholder with
  | none => trivial
  | some u => exact only_lockUnclaimed h0

theorem only_lockInvite {env : Env} {token : JsString} : (lockInvite env token).Only p :=
  only_read h0

theorem only_selectExisting {h u : Uuid} : (selectExisting h u).Only p := only_read h0

theorem only_lockPlaceholder {h u : Uuid} : (lockPlaceholder h u).Only p := only_read h0

theorem only_lockBound {invite : Invite} : (lockBound invite).Only p := by
  unfold lockBound
  split
  · exact only_lockPlaceholder h0
  · trivial

theorem only_selectFolded {a b : Uuid} : (selectFolded a b).Only p := only_read h0

end reads

/-! ## Section 2: Helpers that write one table -/

theorem only_log {event : ActivityInput} (h : p { activityEvents := [event.row] }) :
    (log event).Only p := only_exec fun _ => h

theorem only_logAll {events : List ActivityInput}
    (h : ∀ event ∈ events, p { activityEvents := [event.row] }) : (logAll events).Only p := by
  induction events with
  | nil => trivial
  | cons event events ih =>
    have hrest := ih fun e he => h e (List.mem_cons_of_mem _ he)
    exact only_bind (only_log (h event (List.mem_cons_self ..))) fun _ =>
      only_bind hrest fun _ => trivial

theorem only_insertEvent {event : ActivityInput} (h : p { activityEvents := [event.row] }) :
    (insertEvent event).Only p := only_exec fun _ => h

theorem only_store (h : ∀ es, p { idempotencyKeys := es }) {id : KeyId} {hash : JsString}
    {response : StoredResponse} : (store id hash response).Only p := only_exec fun _ => h _

theorem only_insertSplits (h : ∀ es, p { expenseSplits := es }) {e : Uuid}
    {splits : Splits JsString} : (insertSplits e splits).Only p := only_exec fun _ => h _

theorem only_deleteSplitsOf (h0 : p {}) (h : ∀ es, p { expenseSplits := es }) {e : Uuid} :
    (deleteSplitsOf e).Only p :=
  only_bind (only_select h0) fun _ => only_exec fun _ => h _

theorem only_insertExpense (h : ∀ es, p { expenses := es }) (h' : ∀ es, p { expenseSplits := es })
    {env : Env} {startedAt : Millis} {spec : ExpenseSpec} {splits : Splits JsString} :
    (insertExpense env startedAt spec splits).Only p :=
  only_bind (only_exec fun _ => h _) fun _ => only_bind (only_insertSplits h') fun _ => trivial

theorem only_updateExpense (h : ∀ es, p { expenses := es }) {e : Uuid} {input : EditExpenseInput} :
    (updateExpense e input).Only p := only_exec fun _ => h _

theorem only_insertRevisions (h : ∀ rs, p { expenseRevisions := rs }) {rs : List Revision} :
    (insertRevisions rs).Only p := only_exec fun _ => h _

theorem only_insertPayment (h : ∀ es, p { payments := es }) {env : Env} {row : Payment} :
    (insertPayment env row).Only p := only_exec fun _ => h _

theorem only_updatePayment (h : ∀ es, p { payments := es }) {id : Uuid} {status : PaymentStatus}
    {closed : Err} {set : Millis → Payment → Payment} :
    (updatePayment id status closed set).Only p := only_exec fun _ => h _

theorem only_insertBill (h : ∀ es, p { billTemplates := es }) {env : Env} {row : BillTemplate} :
    (insertBill env row).Only p := only_exec fun _ => h _

theorem only_updateBill (h : ∀ es, p { billTemplates := es }) {id : Uuid} {active : Bool}
    {nextRun : JsString} {bill : BillTemplate} : (updateBill id active nextRun bill).Only p :=
  only_exec fun _ => h _

theorem only_advanceBill (h : ∀ es, p { billTemplates := es }) {id : Uuid} {nextRun : JsString}
    {matching : BillTemplate → Bool} : (advanceBill id nextRun matching).Only p :=
  only_exec fun _ => h _

theorem only_insertMember (h : ∀ es, p { houseMembers := es }) {k u : Uuid} {m : HouseMember} :
    (insertMember k u m).Only p := only_exec fun _ => h _

theorem only_updateMember (h : ∀ es, p { houseMembers := es }) {k u : Uuid}
    {matching : HouseMember → Bool} {set : Millis → HouseMember → HouseMember} :
    (updateMember k u matching set).Only p := only_exec fun _ => h _

theorem only_updateMember_row (h0 : p {}) {k u : Uuid} {matching : HouseMember → Bool}
    {set : Millis → HouseMember → HouseMember}
    (h : ∀ now m, p { houseMembers := [((k, u), some (set now m))] }) :
    (updateMember k u matching set).Only p := by
  refine only_exec fun v => ?_
  dsimp only
  split
  · split
    · exact h _ _
    · exact h0
  · exact h0

theorem only_joinHouse (h0 : p {}) (h : ∀ es, p { houseMembers := es }) {k u : Uuid}
    {roomId : Option Uuid} {startedAt : Millis} : (joinHouse k u roomId startedAt).Only p := by
  refine only_exec fun v => ?_
  split
  · exact h0
  · exact h _

theorem only_moveMember (h0 : p {}) (h : ∀ es, p { houseMembers := es }) {k u : Uuid}
    {roomId : Option Uuid} {matching : HouseMember → Bool}
    {set : Millis → HouseMember → HouseMember} :
    (moveMember k u roomId matching set).Only p := by
  refine only_exec fun v => ?_
  split
  · exact h _
  · exact h0

theorem only_becomeMember (h0 : p {}) (h : ∀ es, p { houseMembers := es }) {invite : Invite}
    {u : Uuid} {existing : Option HouseMember} {roomId : Option Uuid} {startedAt : Millis} :
    (becomeMember invite u existing roomId startedAt).Only p := by
  unfold becomeMember
  split
  · refine only_bind (only_joinHouse h0 h) fun inserted => ?_
    split <;> trivial
  · split
    · trivial
    · exact only_bind (only_moveMember h0 h) fun _ => trivial

theorem only_inheritRoom (h0 : p {}) (h : ∀ es, p { houseMembers := es }) {k u : Uuid}
    {roomId : Option Uuid} : (inheritRoom k u roomId).Only p := by
  unfold inheritRoom
  split
  · exact only_moveMember h0 h
  · trivial

theorem only_vacateRooms (h0 : p {}) (h : ∀ es, p { houseMembers := es }) {k : Uuid} :
    (vacateRooms k).Only p := only_bind (only_select h0) fun _ => only_exec fun _ => h _

theorem only_assignRooms (h : ∀ es, p { houseMembers := es }) {k : Uuid}
    {l : List ((Uuid × Room) × RoomInput)} : (assignRooms k l).Only p := by
  induction l with
  | nil => trivial
  | cons x l ih => exact only_bind (only_exec fun _ => h _) fun _ => ih

theorem only_deleteRooms (h0 : p {}) (h : ∀ es, p { rooms := es }) {k : Uuid} :
    (deleteRooms k).Only p := only_bind (only_select h0) fun _ => only_exec fun _ => h _

theorem only_insertRooms (h : ∀ es, p { rooms := es }) {env : Env} {k : Uuid}
    {rooms : List RoomInput} : (insertRooms env k rooms).Only p := only_exec fun _ => h _

theorem only_insertInvite (h : ∀ es, p { invites := es }) {env : Env} {k u : Uuid}
    {placeholder : Option Uuid} {expiresAt : Millis} :
    (insertInvite env k u placeholder expiresAt).Only p := only_exec fun _ => h _

theorem only_consumeUse (h : ∀ es, p { invites := es }) {id : Uuid} : (consumeUse id).Only p :=
  only_exec fun _ => h _

theorem only_softDeleteUser (h : ∀ es, p { users := es }) {u : Uuid} : (softDeleteUser u).Only p :=
  only_exec fun _ => h _

/-! ## Section 3: The claim -/

/-- What an accept logs. -/
def acceptEvents : List EventType := [.expenseEdited, .memberClaimed, .memberJoined]

theorem only_reviseFolded (h0 : p {}) (h : ∀ rs, p { expenseRevisions := rs })
    (h' : ∀ e : ActivityEvent, e.type = .expenseEdited → p { activityEvents := [e] }) {k u : Uuid}
    {folded : List (Uuid × Expense)} :
    (reviseFolded k u folded).Only p := by
  unfold reviseFolded
  split
  · trivial
  · refine only_bind (only_select h0) fun _ => only_bind (only_insertRevisions h) fun _ =>
      only_logAll fun event hevent => ?_
    obtain ⟨x, _, rfl⟩ := List.mem_map.mp hevent
    exact h' _ rfl

theorem only_foldSplits (h0 : p {}) (h : ∀ es, p { expenseSplits := es }) {a b : Uuid} :
    (foldSplits a b).Only p := only_bind (only_read h0) fun _ => only_exec fun _ => h _

theorem only_sweepSplits (h0 : p {}) (h : ∀ es, p { expenseSplits := es }) {a b : Uuid} :
    (sweepSplits a b).Only p := only_bind (only_read h0) fun _ => only_exec fun _ => h _

theorem only_reidentifySplits (h0 : p {}) (h : ∀ es, p { expenseSplits := es }) {a b : Uuid} :
    (reidentifySplits a b).Only p := only_bind (only_select h0) fun _ => only_exec fun _ => h _

/-- The row of a placeholder after its claim. -/
def claimRow (claimerId : Uuid) (now : Millis) (m : HouseMember) : HouseMember :=
  { m with claimedBy := some claimerId, leftAt := some now, roomId := none }

/-- The one membership that a claim writes. -/
theorem only_claimHistory_row (h0 : p {}) (h : ∀ es, p { expenseSplits := es })
    (hr : ∀ rs, p { expenseRevisions := rs })
    (he : ∀ e : ActivityEvent, e.type = .expenseEdited → p { activityEvents := [e] })
    {k a b : Uuid} (hm : ∀ now m, p { houseMembers := [((k, a), some (claimRow b now m))] })
    (hu : ∀ es, p { users := es }) : (claimHistory k a b).Only p :=
  only_bind (only_selectFolded h0) fun _ => only_bind (only_reviseFolded h0 hr he) fun _ =>
    only_bind (only_foldSplits h0 h) fun _ => only_bind (only_sweepSplits h0 h) fun _ =>
      only_bind (only_reidentifySplits h0 h) fun _ => only_bind (only_updateMember_row h0 hm) fun _ =>
        only_bind (only_softDeleteUser hu) fun _ => trivial

theorem only_claimHistory (h0 : p {}) (h : ∀ es, p { expenseSplits := es })
    (hr : ∀ rs, p { expenseRevisions := rs })
    (he : ∀ e : ActivityEvent, e.type ∈ acceptEvents → p { activityEvents := [e] })
    (hm : ∀ es, p { houseMembers := es }) (hu : ∀ es, p { users := es }) {k a b : Uuid} :
    (claimHistory k a b).Only p :=
  only_claimHistory_row h0 h hr (fun e heq => he e (by simp [heq, acceptEvents])) (fun _ _ => hm _) hu

theorem only_logJoined
    (he : ∀ e : ActivityEvent, e.type ∈ acceptEvents → p { activityEvents := [e] }) {k u : Uuid}
    {already : Bool} : (logJoined k u already).Only p := by
  unfold logJoined
  split
  · trivial
  · exact only_logAll fun event hevent => he _ (by
      rw [List.mem_singleton.mp hevent]; simp [acceptEvents, ActivityInput.row])

theorem only_claimBound (h0 : p {}) (h : ∀ es, p { expenseSplits := es })
    (hr : ∀ rs, p { expenseRevisions := rs })
    (he : ∀ e : ActivityEvent, e.type ∈ acceptEvents → p { activityEvents := [e] })
    (hm : ∀ es, p { houseMembers := es }) (hu : ∀ es, p { users := es }) {invite : Invite}
    {u : Uuid} {roomId : Option Uuid} : (claimBound invite u roomId).Only p := by
  unfold claimBound
  split
  · exact only_bind (only_inheritRoom h0 hm) fun _ =>
      only_bind (only_claimHistory h0 h hr he hm hu) fun _ => only_bind (only_log (he _ (by
        simp [acceptEvents, ActivityInput.row]))) fun _ => trivial
  · trivial

theorem only_finishAccept (h0 : p {}) (h : ∀ es, p { expenseSplits := es })
    (hr : ∀ rs, p { expenseRevisions := rs })
    (he : ∀ e : ActivityEvent, e.type ∈ acceptEvents → p { activityEvents := [e] })
    (hm : ∀ es, p { houseMembers := es }) (hu : ∀ es, p { users := es })
    (hi : ∀ es, p { invites := es }) {id : Uuid} {invite : Invite} {u : Uuid}
    {roomId : Option Uuid} {already : Bool} : (finishAccept id invite u roomId already).Only p :=
  only_bind (only_claimBound h0 h hr he hm hu) fun _ => only_bind (only_consumeUse hi) fun _ =>
    only_bind (only_logJoined he) fun _ => trivial

theorem only_acceptInviteTx (h0 : p {}) (h : ∀ es, p { expenseSplits := es })
    (hr : ∀ rs, p { expenseRevisions := rs })
    (he : ∀ e : ActivityEvent, e.type ∈ acceptEvents → p { activityEvents := [e] })
    (hm : ∀ es, p { houseMembers := es }) (hu : ∀ es, p { users := es })
    (hi : ∀ es, p { invites := es }) {env : Env} {token : JsString} {u : Uuid}
    {startedAt : Millis} : (acceptInviteTx env token u startedAt).Only p := by
  refine only_bind (only_lockInvite h0) fun found =>
    only_bind (only_selectExisting h0) fun existing => ?_
  split
  · trivial
  · refine only_bind (only_lockBound h0) fun roomId => only_bind (only_becomeMember h0 hm) fun member => ?_
    split
    · trivial
    · exact only_finishAccept h0 h hr he hm hu hi

/-! ## Section 4: Whole transactions -/

section whole

variable {env : Env} {store : StoredResponse → DbTxn Unit} {startedAt : Millis}

theorem only_createExpenseTx (h0 : p {}) (hx : ∀ es, p { expenses := es })
    (hs : ∀ es, p { expenseSplits := es }) (he : ∀ e : ActivityEvent, e.type = .expenseCreated → p { activityEvents := [e] })
    (hstore : ∀ r, (store r).Only p) {h : JsString} {u : Uuid} {input : CreateExpenseInput} :
    (createExpenseTx env h u input store startedAt).Only p :=
  only_bind (only_selectHouse h0) fun _ => only_bind only_reject fun _ =>
    only_bind (only_resolveSplitsOr400 h0) fun _ => only_bind (only_insertExpense hx hs) fun _ =>
      only_bind (only_log (he _ rfl)) fun _ => only_bind (hstore _) fun _ => trivial

theorem only_editExpenseTx (h0 : p {}) (hx : ∀ es, p { expenses := es })
    (hs : ∀ es, p { expenseSplits := es }) (hr : ∀ rs, p { expenseRevisions := rs })
    (he : ∀ e : ActivityEvent, e.type = .expenseEdited → p { activityEvents := [e] }) (hstore : ∀ r, (store r).Only p) {e : JsString}
    {u : Uuid} {input : EditExpenseInput} : (editExpenseTx e u input store startedAt).Only p :=
  only_bind (only_lockExpense h0) fun _ => only_bind (only_select h0) fun _ =>
    only_bind only_reject fun _ => only_bind (only_select h0) fun _ =>
      only_bind (only_insertRevisions hr) fun _ => only_bind (only_resolveSplitsOr400 h0) fun _ =>
        only_bind (only_updateExpense hx) fun _ => only_bind (only_deleteSplitsOf h0 hs) fun _ =>
          only_bind (only_insertSplits hs) fun _ => only_bind (only_log (he _ rfl)) fun _ =>
            only_bind (hstore _) fun _ => trivial

theorem only_recordPaymentTx (h0 : p {}) (hp : ∀ es, p { payments := es })
    (he : ∀ e : ActivityEvent, e.type = .paymentRecorded → p { activityEvents := [e] }) (hstore : ∀ r, (store r).Only p) {h : JsString}
    {u : Uuid} {input : RecordPaymentInput} :
    (recordPaymentTx env h u input store startedAt).Only p :=
  only_bind (only_selectHouse h0) fun _ => only_bind only_reject fun _ =>
    only_bind (only_mapError (only_lockActingMember h0)) fun _ =>
      only_bind (only_insertPayment hp) fun _ => only_bind (only_log (he _ rfl)) fun _ =>
        only_bind (hstore _) fun _ => trivial

theorem only_disputePaymentTx (h0 : p {}) (hp : ∀ es, p { payments := es })
    (he : ∀ e : ActivityEvent, e.type = .paymentDisputed → p { activityEvents := [e] }) {id : JsString} {u : Uuid} :
    (disputePaymentTx id u startedAt).Only p :=
  only_bind (only_paymentForRecipient h0) fun _ => only_bind only_reject fun _ =>
    only_bind (only_clock h0) fun _ => only_bind only_reject fun _ =>
      only_bind (only_updatePayment hp) fun _ => only_bind (only_log (he _ rfl)) fun _ => trivial

theorem only_resolvePaymentTx (h0 : p {}) (hp : ∀ es, p { payments := es })
    (he : ∀ e : ActivityEvent, e.type = .paymentResolved → p { activityEvents := [e] }) {id : JsString} {u : Uuid} :
    (resolvePaymentTx id u startedAt).Only p :=
  only_bind (only_paymentForRecipient h0) fun _ => only_bind only_reject fun _ =>
    only_bind (only_updatePayment hp) fun _ => only_bind (only_log (he _ rfl)) fun _ => trivial

theorem only_createBillTx (h0 : p {}) (hb : ∀ es, p { billTemplates := es })
    (he : ∀ e : ActivityEvent, e.type = .billCreated → p { activityEvents := [e] }) (hstore : ∀ r, (store r).Only p) {h : JsString}
    {u : Uuid} {input : CreateBillInput} : (createBillTx env h u input store startedAt).Only p :=
  only_bind (only_selectHouse h0) fun _ => only_bind (only_mapError (only_lockActingMember h0))
    fun _ => only_bind (only_clock h0) fun _ => only_bind only_liftSchedule fun _ =>
      only_bind (only_insertBill hb) fun _ => only_bind (only_log (he _ rfl)) fun _ =>
        only_bind (hstore _) fun _ => trivial

theorem only_setActiveTx (h0 : p {}) (hb : ∀ es, p { billTemplates := es })
    (he : ∀ e : ActivityEvent, e.type = .billResumed ∨ e.type = .billPaused →
      p { activityEvents := [e] }) {h b : JsString} {u : Uuid} {active : Bool} :
    (setActiveTx env h b u active startedAt).Only p := by
  refine only_bind (only_lockBill h0) fun bill => only_bind (only_select h0) fun _ =>
    only_bind only_reject fun _ => ?_
  split
  · trivial
  · exact only_bind (only_resumedNextRun h0) fun _ => only_bind (only_updateBill hb) fun _ =>
      only_bind (only_log (he _ (by
        cases active
        · exact Or.inr rfl
        · exact Or.inl rfl))) fun _ => trivial

theorem only_signUpTx (hu : ∀ es, p { users := es }) {email name : JsString} :
    (signUpTx env email name).Only p := only_exec fun _ => hu _

theorem only_createHouseTx (hh : ∀ es, p { houses := es }) (hm : ∀ es, p { houseMembers := es })
    (he : ∀ e : ActivityEvent, e.type = .houseCreated → p { activityEvents := [e] }) {u : Uuid} {input : CreateHouseInput} :
    (createHouseTx env u input startedAt).Only p :=
  only_bind (only_exec fun _ => hh _) fun _ => only_bind (only_insertMember hm) fun _ =>
    only_bind (only_log (he _ rfl)) fun _ => trivial

theorem only_createPlaceholderTx (h0 : p {}) (hu : ∀ es, p { users := es })
    (hm : ∀ es, p { houseMembers := es }) (he : ∀ e : ActivityEvent, e.type = .memberPlaceholderAdded → p { activityEvents := [e] }) {h : JsString}
    {u : Uuid} {name : JsString} : (createPlaceholderTx env h u name startedAt).Only p :=
  only_bind (only_requireAdmin h0) fun _ => only_bind (only_exec fun _ => hu _) fun _ =>
    only_bind (only_insertMember hm) fun _ => only_bind (only_log (he _ rfl)) fun _ => trivial

theorem only_setDisplayNameTx (h0 : p {}) (hm : ∀ es, p { houseMembers := es })
    (he : ∀ e : ActivityEvent, e.type = .memberRenamed → p { activityEvents := [e] }) {h : JsString} {u : Uuid} {name : Option JsString} :
    (setDisplayNameTx h u name startedAt).Only p := by
  refine only_bind (only_read h0) fun current => ?_
  split
  · trivial
  · exact only_bind (only_updateMember hm) fun _ => only_bind (only_log (he _ rfl)) fun _ => trivial

theorem only_setRoomsTx (h0 : p {}) (hm : ∀ es, p { houseMembers := es })
    (hr : ∀ es, p { rooms := es }) (he : ∀ e : ActivityEvent, e.type = .roomsConfigured → p { activityEvents := [e] }) {h : JsString} {u : Uuid}
    {rooms : List RoomInput} : (setRoomsTx env h u rooms startedAt).Only p :=
  only_bind (only_requireAdmin h0) fun _ => only_bind (only_select h0) fun _ =>
    only_bind only_reject fun _ => only_bind (only_vacateRooms h0 hm) fun _ =>
      only_bind (only_deleteRooms h0 hr) fun _ => only_bind (only_insertRooms hr) fun _ =>
        only_bind (only_assignRooms hm) fun _ => only_bind (only_log (he _ rfl)) fun _ => trivial

theorem only_createInviteTx (h0 : p {}) (hi : ∀ es, p { invites := es }) {h u : Uuid}
    {placeholder : Option Uuid} {expiresAt : Millis} :
    (createInviteTx env h u placeholder expiresAt).Only p :=
  only_bind (only_checkBound h0) fun _ => only_insertInvite hi

theorem only_postOneTx (h0 : p {}) (hx : ∀ es, p { expenses := es })
    (hs : ∀ es, p { expenseSplits := es }) (he : ∀ e : ActivityEvent, e.type = .billPosted → p { activityEvents := [e] })
    (hb : ∀ es, p { billTemplates := es }) {bill : DueBill} {period nextRun : JsString} :
    (postOneTx env bill period nextRun).Only p :=
  only_bind (only_begin h0) fun _ => only_bind (only_lockActiveMembers h0) fun _ =>
    only_bind only_reject fun _ => only_bind only_reject fun _ =>
      only_bind (only_resolveSplits h0) fun _ => only_bind (only_insertExpense hx hs) fun _ =>
        only_bind (only_insertEvent (he _ rfl)) fun _ => only_bind (only_advanceBill hb) fun _ => trivial

theorem only_pauseTx (he : ∀ e : ActivityEvent, e.type = .billPaused → p { activityEvents := [e] }) (hb : ∀ es, p { billTemplates := es })
    {bill : DueBill} {reason : JsString} : (pauseTx bill reason).Only p := by
  refine only_bind (only_exec fun _ => hb _) fun updated => ?_
  split
  · exact only_bind (only_insertEvent (he _ rfl)) fun _ => trivial
  · trivial

end whole

/-! ## Section 5: The footprint of a call -/

inductive TableName where
  | users
  | houses
  | rooms
  | houseMembers
  | invites
  | expenses
  | expenseSplits
  | expenseRevisions
  | billTemplates
  | payments
  | idempotencyKeys
deriving DecidableEq, Repr

/-- The writes leave a table alone. -/
def Writes.Spares (w : Writes) : TableName → Prop
  | .users => w.users = []
  | .houses => w.houses = []
  | .rooms => w.rooms = []
  | .houseMembers => w.houseMembers = []
  | .invites => w.invites = []
  | .expenses => w.expenses = []
  | .expenseSplits => w.expenseSplits = []
  | .expenseRevisions => w.expenseRevisions = []
  | .billTemplates => w.billTemplates = []
  | .payments => w.payments = []
  | .idempotencyKeys => w.idempotencyKeys = []

/-- The tables that a call writes, besides its events. -/
def Call.tables : Call → List TableName
  | .signUp _ _ => [.users]
  | .createHouse _ _ => [.houses, .houseMembers]
  | .createPlaceholder _ _ _ => [.users, .houseMembers]
  | .setDisplayName _ _ _ => [.houseMembers]
  | .setRooms _ _ _ => [.rooms, .houseMembers]
  | .createInvite _ _ _ => [.invites]
  | .acceptInvite _ _ => [.users, .houseMembers, .invites, .expenseSplits, .expenseRevisions]
  | .createExpense _ _ _ _ => [.expenses, .expenseSplits, .idempotencyKeys]
  | .editExpense _ _ _ _ => [.expenses, .expenseSplits, .expenseRevisions, .idempotencyKeys]
  | .recordPayment _ _ _ _ => [.payments, .idempotencyKeys]
  | .disputePayment _ _ => [.payments]
  | .resolvePayment _ _ => [.payments]
  | .createBill _ _ _ _ => [.billTemplates, .idempotencyKeys]
  | .setActive _ _ _ _ => [.billTemplates]
  | .postDueBills _ => [.expenses, .expenseSplits, .billTemplates]

/-- The events that a call logs. -/
def Call.events : Call → List EventType
  | .signUp _ _ => []
  | .createHouse _ _ => [.houseCreated]
  | .createPlaceholder _ _ _ => [.memberPlaceholderAdded]
  | .setDisplayName _ _ _ => [.memberRenamed]
  | .setRooms _ _ _ => [.roomsConfigured]
  | .createInvite _ _ _ => []
  | .acceptInvite _ _ => acceptEvents
  | .createExpense _ _ _ _ => [.expenseCreated]
  | .editExpense _ _ _ _ => [.expenseEdited]
  | .recordPayment _ _ _ _ => [.paymentRecorded]
  | .disputePayment _ _ => [.paymentDisputed]
  | .resolvePayment _ _ => [.paymentResolved]
  | .createBill _ _ _ _ => [.billCreated]
  | .setActive _ _ _ _ => [.billResumed, .billPaused]
  | .postDueBills _ => [.billPosted, .billPaused]

/-- The writes stay within these tables and events. -/
structure Writes.Within (tables : List TableName) (events : List EventType) (w : Writes) : Prop where
  tables : ∀ t, t ∉ tables → w.Spares t
  events : ∀ e ∈ w.activityEvents, e.type ∈ events

section within

variable {ts : List TableName} {es : List EventType}

theorem within_nothing : Writes.Within ts es {} where
  tables t _ := by cases t <;> rfl
  events e he := by cases he

theorem Writes.Within.append {w w' : Writes} (h : w.Within ts es) (h' : w'.Within ts es) :
    (w.append w').Within ts es where
  tables t ht := by
    have h₁ := h.tables t ht
    have h₂ := h'.tables t ht
    cases t <;> simp_all [Writes.Spares, Writes.append]
  events e he := by
    rcases List.mem_append.mp he with he | he
    · exact h.events e he
    · exact h'.events e he

theorem within_event {e : ActivityEvent} (h : e.type ∈ es) :
    Writes.Within ts es { activityEvents := [e] } where
  tables t _ := by cases t <;> rfl
  events e' he' := by rw [List.mem_singleton.mp he']; exact h

/-- Writes to one table. -/
theorem within_table {w : Writes} (t : TableName) (ht : t ∈ ts) (he : w.activityEvents = [])
    (h : ∀ t', t' ≠ t → w.Spares t') : Writes.Within ts es w where
  tables t' ht' := h t' fun heq => ht' (heq ▸ ht)
  events e hmem := by rw [he] at hmem; cases hmem

theorem within_users (h : .users ∈ ts) (x : Edits Uuid User) :
    Writes.Within ts es { users := x } :=
  within_table .users h rfl fun t ht => by cases t <;> first | rfl | exact absurd rfl ht

theorem within_houses (h : .houses ∈ ts) (x : Edits Uuid House) :
    Writes.Within ts es { houses := x } :=
  within_table .houses h rfl fun t ht => by cases t <;> first | rfl | exact absurd rfl ht

theorem within_rooms (h : .rooms ∈ ts) (x : Edits Uuid Room) :
    Writes.Within ts es { rooms := x } :=
  within_table .rooms h rfl fun t ht => by cases t <;> first | rfl | exact absurd rfl ht

theorem within_houseMembers (h : .houseMembers ∈ ts) (x : Edits (Uuid × Uuid) HouseMember) :
    Writes.Within ts es { houseMembers := x } :=
  within_table .houseMembers h rfl fun t ht => by cases t <;> first | rfl | exact absurd rfl ht

theorem within_invites (h : .invites ∈ ts) (x : Edits Uuid Invite) :
    Writes.Within ts es { invites := x } :=
  within_table .invites h rfl fun t ht => by cases t <;> first | rfl | exact absurd rfl ht

theorem within_expenses (h : .expenses ∈ ts) (x : Edits Uuid Expense) :
    Writes.Within ts es { expenses := x } :=
  within_table .expenses h rfl fun t ht => by cases t <;> first | rfl | exact absurd rfl ht

theorem within_expenseSplits (h : .expenseSplits ∈ ts) (x : Edits Rid (Option Split)) :
    Writes.Within ts es { expenseSplits := x } :=
  within_table .expenseSplits h rfl fun t ht => by cases t <;> first | rfl | exact absurd rfl ht

theorem within_expenseRevisions (h : .expenseRevisions ∈ ts) (x : List Revision) :
    Writes.Within ts es { expenseRevisions := x } :=
  within_table .expenseRevisions h rfl fun t ht => by cases t <;> first | rfl | exact absurd rfl ht

theorem within_billTemplates (h : .billTemplates ∈ ts) (x : Edits Uuid BillTemplate) :
    Writes.Within ts es { billTemplates := x } :=
  within_table .billTemplates h rfl fun t ht => by cases t <;> first | rfl | exact absurd rfl ht

theorem within_payments (h : .payments ∈ ts) (x : Edits Uuid Payment) :
    Writes.Within ts es { payments := x } :=
  within_table .payments h rfl fun t ht => by cases t <;> first | rfl | exact absurd rfl ht

theorem within_idempotencyKeys (h : .idempotencyKeys ∈ ts) (x : Edits KeyId KeyRow) :
    Writes.Within ts es { idempotencyKeys := x } :=
  within_table .idempotencyKeys h rfl fun t ht => by cases t <;> first | rfl | exact absurd rfl ht

end within

end Homi
