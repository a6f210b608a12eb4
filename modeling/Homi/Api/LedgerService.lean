import Homi.Api.Access

/-! # Ledger service

  `apps/api/src/ledger/ledger.service.ts`: expenses and payments.
-/

namespace Homi

open ReadCommitted

/-! ## Section 1: Expenses -/

def noHouse : Err := .badRequest (js "House not found")

/-- `SELECT * FROM houses WHERE id = h`. -/
def selectHouse (houseId : JsString) (missing : Err) : DbTxn House :=
  .exec (fun _ => { writes := {} }) fun v => match v.db.houses.lookup (toUuid houseId) with
    | some house => .ok house
    | none => .error missing

/-- The balance function is single-currency. -/
def rejectCurrency (house : House) (currency : Option JsString) : DbTxn Unit :=
  reject (currency.any (· ≠ house.currency))
    (.badRequest (js "This house keeps its ledger in " ++ house.currency))

def CreateExpenseInput.resolve (input : CreateExpenseInput) : ResolveSplitsInput where
  amountCents := input.amountCents
  paidBy := input.paidBy
  mode := input.mode
  participants := input.participants
  exactCents := input.exactCents
  weightsBp := input.weightsBp

def EditExpenseInput.resolve (input : EditExpenseInput) : ResolveSplitsInput where
  amountCents := input.amountCents
  paidBy := input.paidBy
  mode := input.mode
  participants := input.participants
  exactCents := input.exactCents
  weightsBp := input.weightsBp

/-- `LedgerService.resolveSplits`: the posting core, with domain rejections as 400s. -/
def resolveSplitsOr400 (houseId : JsString) (input : ResolveSplitsInput) :
    DbTxn (Splits JsString) :=
  (resolveSplits houseId input none).mapError throwPostingProblemAs400

def createExpenseTx (env : Env) (houseId : JsString) (userId : Uuid) (input : CreateExpenseInput)
    (store : StoredResponse → DbTxn Unit) (startedAt : Millis) :
    DbTxn (StoredResponse × List ActivityInput) := do
  let house ← selectHouse houseId noHouse
  rejectCurrency house input.currency
  let splits ← resolveSplitsOr400 houseId input.resolve
  let (id, expense) ← insertExpense env startedAt {
      houseId := houseId
      description := input.description
      amountCents := input.amountCents
      currency := input.currency.getD house.currency
      paidBy := input.paidBy
      category := input.category
      isStaple := input.isStaple
      createdBy := userId } splits
  let event ← log {
      houseId := houseId
      actorId := userId
      type := .expenseCreated
      entityType := .expense
      entityId := id
      payload := .expense expense.amountCents expense.description }
  let response : StoredResponse := ⟨201, .expense id expense splits⟩
  store response
  return (response, [event])

def createExpense (env : Env) (houseId : JsString) (userId : Uuid) (idempotencyKey : JsString)
    (input : CreateExpenseInput) : DbProg :=
  withIdempotency ⟨toUuid idempotencyKey, userId, .createExpense⟩
    (env.hashRequest (.createExpense houseId input))
    fun store next => transact (createExpenseTx env houseId userId input store) next

def noExpense : Err := .notFound (js "Expense not found")

/-- The JSON that a revision keeps. -/
def Expense.previous (e : Expense) (splits : List Split) : Previous where
  description := e.description
  amountCents := e.amountCents
  currency := e.currency
  paidBy := e.paidBy
  category := e.category
  isStaple := e.isStaple
  splits := splits.foldl (fun r s => r.insert s.userId s.amountCents) ∅

/-- `SELECT * FROM expenses WHERE id = e FOR UPDATE`. -/
def lockExpense (expenseId : Uuid) : DbTxn Expense :=
  .exec (fun v =>
      { locks := if (v.db.expenses.lookup expenseId).isSome then [(.expense expenseId, .exclusive)]
          else []
        notes := [.snapshot expenseId]
        writes := {} })
    fun v => match v.db.expenses.lookup expenseId with
      | some expense => if expense.deletedAt = none then .ok expense else .error noExpense
      | none => .error noExpense

/-- `INSERT INTO expense_revisions`; the foreign key locks the expense. -/
def insertRevisions (revisions : List Revision) : DbTxn Unit :=
  .exec (fun _ =>
      { locks := revisions.map fun r => (.expense r.expenseId, .shared)
        writes := { expenseRevisions := revisions } }) fun _ => .ok ()

/-- The expense after an edit. -/
def Expense.edited (e : Expense) (input : EditExpenseInput) : Expense :=
  { e with
    description := input.description
    amountCents := input.amountCents
    paidBy := toUuid input.paidBy
    category := input.category
    isStaple := input.isStaple.getD false }

def updateExpense (expenseId : Uuid) (input : EditExpenseInput) : DbTxn Expense :=
  .exec (fun v =>
      { writes := { expenses := match v.db.expenses.lookup expenseId with
          | some expense => [(expenseId, some (expense.edited input))]
          | none => [] } })
    fun v => match v.db.expenses.lookup expenseId with
      | some expense =>
          if input.amountCents ≤ 0 then .error .checkViolation else .ok (expense.edited input)
      | none => .error (.internal (js "update returned no row"))

/-- `DELETE FROM expense_splits WHERE expense_id = e`. -/
def deleteSplitsOf (expenseId : Uuid) : DbTxn Unit := do
  let found ← .select fun v => v.db.splitsOf expenseId
  .exec (fun v =>
      { writes := { expenseSplits := found.filterMap fun (rid, _) =>
          (v.db.split rid).map fun _ => (rid, some none) } }) fun _ => .ok ()

def editExpenseTx (expenseId : JsString) (userId : Uuid) (input : EditExpenseInput)
    (store : StoredResponse → DbTxn Unit) (_startedAt : Millis) :
    DbTxn (StoredResponse × List ActivityInput) := do
  let e := toUuid expenseId
  let expense ← lockExpense e
  let editor ← .select fun v => activeMember v.db expense.houseId userId
  reject (editor = none) noExpense
  let previousSplits ← .select fun v => v.db.splitsOf e
  insertRevisions [⟨e, userId, expense.previous (previousSplits.map Prod.snd)⟩]
  let splits ← resolveSplitsOr400 expense.houseId input.resolve
  let updated ← updateExpense e input
  deleteSplitsOf e
  insertSplits e splits
  let event ← log {
      houseId := expense.houseId
      actorId := userId
      type := .expenseEdited
      entityType := .expense
      entityId := expenseId
      payload := .expense updated.amountCents updated.description }
  let response : StoredResponse := ⟨200, .expense e updated splits⟩
  store response
  return (response, [event])

def editExpense (env : Env) (expenseId : JsString) (userId : Uuid) (idempotencyKey : JsString)
    (input : EditExpenseInput) : DbProg :=
  withIdempotency ⟨toUuid idempotencyKey, userId, .editExpense⟩
    (env.hashRequest (.editExpense expenseId input))
    fun store next => transact (editExpenseTx expenseId userId input store) next

/-! ## Section 2: Payments -/

/-- `INSERT INTO payments`, with its two checks. -/
def insertPayment (env : Env) (row : Payment) : DbTxn Uuid :=
  .exec (fun v => { writes := { payments := [(env.uuid v.db.fresh, some row)] }, ids := 1 })
    fun v =>
      if row.amountCents ≤ 0 ∨ row.fromUser = row.toUser then .error .checkViolation
      else .ok (env.uuid v.db.fresh)

def recordPaymentTx (env : Env) (houseId : JsString) (userId : Uuid) (input : RecordPaymentInput)
    (store : StoredResponse → DbTxn Unit) (startedAt : Millis) :
    DbTxn (StoredResponse × List ActivityInput) := do
  let house ← selectHouse houseId noHouse
  rejectCurrency house input.currency
  (lockActingMember houseId input.toUser .recipient).mapError throwPostingProblemAs400
  let payment : Payment := {
      houseId := toUuid houseId
      fromUser := userId
      toUser := toUuid input.toUser
      amountCents := input.amountCents
      currency := input.currency.getD house.currency
      method := input.method
      status := .recorded
      createdAt := startedAt
      disputedAt := none
      resolvedAt := none }
  let id ← insertPayment env payment
  let event ← log {
      houseId := houseId
      actorId := userId
      type := .paymentRecorded
      entityType := .payment
      entityId := id
      payload := .payment payment.amountCents payment.toUser }
  let response : StoredResponse := ⟨201, .payment id payment⟩
  store response
  return (response, [event])

def recordPayment (env : Env) (houseId : JsString) (userId : Uuid) (idempotencyKey : JsString)
    (input : RecordPaymentInput) : DbProg :=
  if input.toUser = userId then
    .done (.failure (.badRequest (js "You cannot record a payment to yourself")))
  else
    withIdempotency ⟨toUuid idempotencyKey, userId, .recordPayment⟩
      (env.hashRequest (.recordPayment houseId input))
      fun store next => transact (recordPaymentTx env houseId userId input store) next

def DISPUTE_WINDOW_MS : ℕ := 72 * 60 * 60 * 1000

def noPayment : Err := .notFound (js "Payment not found")

/-- `SELECT * FROM payments WHERE id = p FOR UPDATE`. -/
def lockPayment (paymentId : Uuid) : DbTxn Payment :=
  .exec (fun v =>
      { locks := if (v.db.payments.lookup paymentId).isSome then [(.payment paymentId, .exclusive)]
          else []
        writes := {} })
    fun v => match v.db.payments.lookup paymentId with
      | some payment => .ok payment
      | none => .error noPayment

/-- `UPDATE payments … WHERE id = p AND status = s`. -/
def updatePayment (paymentId : Uuid) (status : PaymentStatus) (closed : Err)
    (set : Millis → Payment → Payment) : DbTxn Payment :=
  .exec (fun v =>
      { writes := { payments := match v.db.payments.lookup paymentId with
          | some payment => if payment.status = status then [(paymentId, some (set v.now payment))] else []
          | none => [] } })
    fun v => match v.db.payments.lookup paymentId with
      | some payment => if payment.status = status then .ok (set v.now payment) else .error closed
      | none => .error closed

/-- The checks that disputing and resolving share. -/
def paymentForRecipient (paymentId : JsString) (userId : Uuid) (forbidden : JsString) :
    DbTxn Payment := do
  let payment ← lockPayment (toUuid paymentId)
  let membership ← .select fun v => activeMember v.db payment.houseId userId
  reject (membership = none) noPayment
  reject (payment.toUser ≠ userId) (.forbidden forbidden)
  return payment

def disputePaymentTx (paymentId : JsString) (userId : Uuid) (_startedAt : Millis) :
    DbTxn ((Uuid × Payment) × List ActivityInput) := do
  let notOpen : Err := .badRequest (js "This payment is not open for dispute")
  let payment ← paymentForRecipient paymentId userId
    (js "Only the payment recipient can dispute it")
  reject (payment.status ≠ .recorded) notOpen
  let now ← clock
  reject (payment.createdAt + DISPUTE_WINDOW_MS < now)
    (.badRequest (js "The 72-hour dispute window has closed"))
  let disputedPayment ← updatePayment (toUuid paymentId) .recorded notOpen fun now payment =>
    { payment with status := .disputed, disputedAt := some now }
  let event ← log {
      houseId := payment.houseId
      actorId := userId
      type := .paymentDisputed
      entityType := .payment
      entityId := paymentId }
  return ((toUuid paymentId, disputedPayment), [event])

def resolvePaymentTx (paymentId : JsString) (userId : Uuid) (_startedAt : Millis) :
    DbTxn ((Uuid × Payment) × List ActivityInput) := do
  let notOpen : Err := .badRequest (js "Only a disputed payment can be resolved")
  let payment ← paymentForRecipient paymentId userId
    (js "Only the payment recipient can resolve their dispute")
  reject (payment.status ≠ .disputed) notOpen
  let resolvedPayment ← updatePayment (toUuid paymentId) .disputed notOpen fun now payment =>
    { payment with status := .resolved, resolvedAt := some now }
  let event ← log {
      houseId := payment.houseId
      actorId := userId
      type := .paymentResolved
      entityType := .payment
      entityId := paymentId }
  return ((toUuid paymentId, resolvedPayment), [event])

def replyPayment : Except Err (Uuid × Payment) → DbProg
  | .ok (id, payment) => .done (.success (.payment id payment))
  | .error err => .done (.failure err)

def disputePayment (paymentId : JsString) (userId : Uuid) : DbProg :=
  transact (disputePaymentTx paymentId userId) replyPayment

def resolvePayment (paymentId : JsString) (userId : Uuid) : DbProg :=
  transact (resolvePaymentTx paymentId userId) replyPayment

/-! ## Section 3: Balances -/

/-- The expenses of a house with their splits, as the join groups them: an
    expense without splits has no row there. -/
def expenseRows (d : Db) (houseId : Uuid) : List ExpenseRow :=
  d.expenses.rows.filterMap fun (id, e) =>
    if e.houseId = houseId ∧ e.deletedAt = none ∧ d.splitsOf id ≠ [] then
      some ⟨e.paidBy, (d.splitsOf id).foldl (fun splits (_, s) =>
        splits.insert s.userId s.amountCents) ∅⟩
    else none

def Payment.toRow (p : Payment) : PaymentRow := ⟨p.fromUser, p.toUser, p.amountCents, p.status⟩

def paymentRows (d : Db) (houseId : Uuid) : List PaymentRow :=
  (d.payments.rows.filter fun (_, p) => p.houseId = houseId).map fun (_, p) => p.toRow

/-- `getBalances`, which reads one snapshot. -/
def getBalances (d : Db) (houseId : JsString) : Balances :=
  computeBalances (expenseRows d (toUuid houseId)) (paymentRows d (toUuid houseId))

end Homi
