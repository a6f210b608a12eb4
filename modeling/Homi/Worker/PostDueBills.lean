import Homi.Api.BillsService

/-! # Posting due bills

  `apps/worker/src/bills/post-due-bills.ts`: one run reads the due
  templates once and then posts up to `MAX_CATCHUP_PER_RUN` periods of
  each from that copy, one transaction a period.
-/

namespace Homi

open ReadCommitted

/-! ## Section 1: The scan -/

def MAX_CATCHUP_PER_RUN : ℕ := 24

/-- One row of the scan. -/
structure DueBill where
  id : Uuid
  template : BillTemplate
  timezone : JsString
  currency : JsString

/-- `a <= b` on a `date` column; years beyond 9999 print longer. -/
def dateLe (a b : JsString) : Prop := a.length < b.length ∨ (a.length = b.length ∧ a ≤ b)

instance (a b : JsString) : Decidable (dateLe a b) :=
  inferInstanceAs (Decidable (a.length < b.length ∨ (a.length = b.length ∧ a ≤ b)))

/-- The active templates with `next_run` up to `latest`, oldest first. -/
def dueBills (d : Db) (latest : JsString) : List DueBill :=
  (d.billTemplates.rows.filterMap fun (id, template) =>
    if template.active ∧ dateLe template.nextRun latest then
      (d.houses.lookup template.houseId).map fun house =>
        (⟨id, template, house.timezone, house.currency⟩ : DueBill)
    else none).insertionSort fun a b => a.template.createdAt ≤ b.template.createdAt

/-! ## Section 2: One period -/

/-- The members that a bill splits over. -/
def billParticipants (mode : SplitMode) (members : List ActiveMember) : List JsString :=
  (if mode = .room_weighted then members.filter fun m => m.roomId ≠ none else members).map
    ActiveMember.userId

/-- `UPDATE bill_templates SET next_run = … WHERE id = t AND …`. -/
def advanceBill (templateId : Uuid) (advancedNextRun : JsString) (matching : BillTemplate → Bool) :
    DbTxn Unit :=
  .exec (fun v =>
      { writes := { billTemplates :=
          match (v.db.billTemplates.lookup templateId).filter matching with
          | some t => [(templateId, some { t with nextRun := advancedNextRun })]
          | none => [] } })
    fun _ => .ok ()

/-- `INSERT INTO activity_events`. -/
def insertEvent (event : ActivityInput) : DbTxn Unit :=
  .exec (fun _ => { writes := { activityEvents := [event.row] } }) fun _ => .ok ()

def postOneTx (env : Env) (bill : DueBill) (period advancedNextRun : JsString) : DbTxn Uuid := do
  let template := bill.template
  let startedAt ← begin
  let members ← lockActiveMembers template.houseId none
  reject (¬ members.any fun m => m.userId = template.ownerId) (.posting .ownerLeft)
  let participants := billParticipants template.splitMode members
  reject (participants = []) (.posting .nobodyActive)
  let splits ← resolveSplits template.houseId {
      amountCents := template.amountCents
      paidBy := template.ownerId
      mode := template.splitMode
      participants := participants
      exactCents := none
      weightsBp := none } (some members)
  let (id, _) ← insertExpense env startedAt {
      houseId := template.houseId
      description := template.description
      amountCents := template.amountCents
      currency := bill.currency
      paidBy := template.ownerId
      templateId := some bill.id
      period := some period
      createdBy := template.ownerId } splits
  insertEvent {
      houseId := template.houseId
      actorId := template.ownerId
      type := .billPosted
      entityType := .expense
      entityId := id
      payload := .posted bill.id period template.amountCents }
  advanceBill bill.id advancedNextRun fun _ => true
  return id

/-- `postOne`; the period that it posted comes back with the expense. -/
def postOne (env : Env) (bill : DueBill) (dueISO advancedNextRun : JsString)
    (next : Except Err (Uuid × JsString) → DbProg) : DbProg :=
  match periodKey bill.template.cadence dueISO with
  | .error err => next (.error (.schedule err))
  | .ok period => (postOneTx env bill period advancedNextRun).transact fun
      | .ok id => .emit ⟨bill.template.houseId, .billPosted, .expense, id⟩ (next (.ok (id, period)))
      | .error err => next (.error err)

/-! ## Section 3: Pausing -/

/-- Whether the template was active until now. -/
def pauseTx (bill : DueBill) (reason : JsString) : DbTxn Bool := do
  let updated ← Txn.exec
    (fun v =>
      { writes := { billTemplates :=
          match (v.db.billTemplates.lookup bill.id).filter BillTemplate.active with
          | some t => [(bill.id, some { t with active := false })]
          | none => [] } })
    fun v => .ok ((v.db.billTemplates.lookup bill.id).any BillTemplate.active)
  if updated then do
    insertEvent {
        houseId := bill.template.houseId
        actorId := bill.template.ownerId
        type := .billPaused
        entityType := .bill
        entityId := bill.id
        payload := .reason reason }
    return true
  else return false

def pause (bill : DueBill) (reason : JsString) (next : DbProg) : DbProg :=
  (pauseTx bill reason).transact fun
    | .ok true => .emit ⟨bill.template.houseId, .billPaused, .bill, bill.id⟩ next
    | .ok false => next
    | .error err => .done (.failure err)

/-- The errors that pause a bill; any other one ends the run. -/
def pausesBill : Err → Bool
  | .posting _ | .schedule _ | .split _ => true
  | _ => false

/-! ## Section 4: The run -/

/-- The periods of one bill, from `dueISO` on. -/
def postPeriods (env : Env) (bill : DueBill) (today : JsString) :
    ℕ → JsString → PostDueBillsResult → (PostDueBillsResult → DbProg) → DbProg
  | 0, _, result, next => next result
  | n + 1, dueISO, result, next =>
      if today < dueISO then next result
      else
        match nextDueDate bill.template.cadence bill.template.cadenceDay dueISO with
        | .error err => .done (.failure (.schedule err))
        | .ok advanced => postOne env bill dueISO advanced fun
            | .ok (expenseId, period) =>
                postPeriods env bill today n advanced
                  { result with posted := result.posted ++ [⟨bill.id, expenseId, period⟩] } next
            | .error err =>
                if isUniqueViolation err then
                  (advanceBill bill.id advanced fun t => t.nextRun = dueISO).transact fun
                    | .error err => .done (.failure err)
                    | .ok _ => match periodKey bill.template.cadence dueISO with
                      | .error err => .done (.failure (.schedule err))
                      | .ok period =>
                          postPeriods env bill today n advanced
                            { result with alreadyPosted := result.alreadyPosted ++ [(bill.id, period)] }
                            next
                else if pausesBill err then
                  pause bill err.message
                    (next { result with paused := result.paused ++ [(bill.id, err.message)] })
                else .done (.failure err)

def postBills (env : Env) (now : Millis) : List DueBill → PostDueBillsResult → DbProg
  | [], result => .done (.success (.run result))
  | bill :: bills, result =>
      match todayInTimezone env bill.timezone now with
      | .error err =>
          let reason := js "Error: " ++ err.message
          pause bill reason
            (postBills env now bills { result with paused := result.paused ++ [(bill.id, reason)] })
      | .ok today =>
          postPeriods env bill today MAX_CATCHUP_PER_RUN bill.template.nextRun result
            (postBills env now bills)

/-- `now.toISOString().slice(0, 10)`. -/
def utcDate (now : Millis) : JsString := isoOf ((now : ℤ) / 86400000)

def postDueBills (env : Env) (now : Millis) : DbProg :=
  match isoAddDays (utcDate now) 1 with
  | .error err => .done (.failure (.schedule err))
  | .ok latestPossibleToday => .query fun v =>
      postBills env now (dueBills v.db latestPossibleToday) {}

end Homi
