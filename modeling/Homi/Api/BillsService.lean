import Homi.Api.LedgerService

/-! # Bills service

  `apps/api/src/ledger/bills.service.ts`: bill templates. Posting them is
  the worker's job.
-/

namespace Homi

open ReadCommitted

/-- The due date on or after today in a house: "after yesterday". -/
def firstDue (env : Env) (timezone : JsString) (cadence : Cadence) (cadenceDay : JsString)
    (now : Millis) : Except ScheduleError JsString := do
  let today ← todayInTimezone env timezone now
  nextDueDate cadence cadenceDay (← isoAddDays today (-1))

def insertBill (env : Env) (row : BillTemplate) : DbTxn Uuid :=
  .exec (fun v => { writes := { billTemplates := [(env.uuid v.db.fresh, some row)] }, ids := 1 })
    fun v => if row.amountCents ≤ 0 then .error .checkViolation else .ok (env.uuid v.db.fresh)

def createBillTx (env : Env) (houseId : JsString) (userId : Uuid) (input : CreateBillInput)
    (store : StoredResponse → DbTxn Unit) (startedAt : Millis) :
    DbTxn (StoredResponse × List ActivityInput) := do
  let ownerId := input.ownerId.getD userId
  let house ← selectHouse houseId noHouse
  (lockActingMember houseId ownerId .billOwner).mapError throwPostingProblemAs400
  let now ← clock
  let nextRun ← liftSchedule (firstDue env house.timezone input.cadence input.cadenceDay now)
  let bill : BillTemplate := {
      houseId := toUuid houseId
      description := input.description
      amountCents := input.amountCents
      ownerId := toUuid ownerId
      splitMode := input.splitMode
      cadence := input.cadence
      cadenceDay := input.cadenceDay
      nextRun := nextRun
      active := true
      createdBy := userId
      createdAt := startedAt }
  let id ← insertBill env bill
  let event ← log {
      houseId := houseId
      actorId := userId
      type := .billCreated
      entityType := .bill
      entityId := id
      payload := .bill bill.description bill.amountCents nextRun }
  let response : StoredResponse := ⟨201, .bill id bill⟩
  store response
  return (response, [event])

def createBill (env : Env) (houseId : JsString) (userId : Uuid) (idempotencyKey : JsString)
    (input : CreateBillInput) : DbProg :=
  match validateSchedule input.cadence input.cadenceDay with
  | .error err => .done (.failure (.badRequest err.message))
  | .ok _ =>
      withIdempotency ⟨toUuid idempotencyKey, userId, .createBill⟩
        (env.hashRequest (.createBill houseId input))
        fun store next => transact (createBillTx env houseId userId input store) next

/-- `SELECT * FROM bill_templates WHERE id = b AND house_id = h FOR UPDATE`. -/
def lockBill (houseId billId : JsString) : DbTxn BillTemplate :=
  let found (d : Db) := (d.billTemplates.lookup (toUuid billId)).filter fun bill =>
    bill.houseId = toUuid houseId
  .exec (fun v =>
      { locks := if (found v.db).isSome then [(.template (toUuid billId), .exclusive)] else []
        writes := {} })
    fun v => match found v.db with
      | some bill => .ok bill
      | none => .error (.notFound (js "Bill not found"))

/-- The next run of a bill that is set to `active`. -/
def resumedNextRun (env : Env) (houseId : JsString) (bill : BillTemplate) (active : Bool) :
    DbTxn JsString :=
  if active then do
    let house ← selectHouse houseId (.notFound (js "House not found"))
    let now ← clock
    liftSchedule (firstDue env house.timezone bill.cadence bill.cadenceDay now)
  else pure bill.nextRun

def updateBill (id : Uuid) (active : Bool) (nextRun : JsString) (bill : BillTemplate) :
    DbTxn BillTemplate :=
  let updated := { bill with active := active, nextRun := nextRun }
  .exec (fun _ => { writes := { billTemplates := [(id, some updated)] } }) fun _ => .ok updated

def setActiveTx (env : Env) (houseId billId : JsString) (userId : Uuid) (active : Bool)
    (_startedAt : Millis) : DbTxn ((Uuid × BillTemplate) × List ActivityInput) := do
  let bill ← lockBill houseId billId
  let role ← .select fun v => activeMemberRole v.db (toUuid houseId) userId
  reject (role = none ∨ (role ≠ some .admin ∧ bill.ownerId ≠ userId))
    (.forbidden (js "Only the bill owner or a house admin can change a bill"))
  if bill.active = active then return ((toUuid billId, bill), [])
  else do
    let nextRun ← resumedNextRun env houseId bill active
    let updated ← updateBill (toUuid billId) active nextRun bill
    let event ← log {
        houseId := houseId
        actorId := userId
        type := if active then .billResumed else .billPaused
        entityType := .bill
        entityId := billId }
    return ((toUuid billId, updated), [event])

def setActive (env : Env) (houseId billId : JsString) (userId : Uuid) (active : Bool) : DbProg :=
  transact (setActiveTx env houseId billId userId active) fun
    | .ok (id, bill) => .done (.success (.bill id bill))
    | .error err => .done (.failure err)

end Homi
