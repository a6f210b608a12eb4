import Homi.Db.Schema

/-! # Requests

  The bodies that the controllers accept, with the bounds of their zod
  schemas (`ledger.controller.ts`, `houses.controller.ts`), and the part
  of a keyed request that its hash covers.

  Ids in a request are texts as the client spelled them. A number in a
  record is any JavaScript number until a schema has looked at it.
-/

namespace Homi

/-! ## Section 1: Ledger bodies -/

def MAX_AMOUNT_CENTS : ℤ := 10000000000

/-- `z.string().min(lo).max(hi)`. -/
def textSchema (lo hi : ℕ) (s : JsString) : Bool := lo ≤ s.length && s.length ≤ hi

/-- `z.number().int().positive().max(MAX_AMOUNT_CENTS)`. -/
def amountSchema (n : ℤ) : Bool := 0 < n && n ≤ MAX_AMOUNT_CENTS

/-- `z.record(z.string().uuid(), z.number().int().nonnegative().max(hi))`. -/
def recordSchema (hi : ℤ) (r : Record JsString JsNumber) : Bool :=
  r.rows.all fun (id, x) => UUID_RE id && match x with
    | .int n => 0 ≤ n && n ≤ hi
    | .other => false

structure CreateExpenseInput where
  description : JsString
  amountCents : ℤ
  currency : Option JsString := none
  paidBy : JsString
  category : Option JsString := none
  isStaple : Option Bool := none
  mode : SplitMode
  participants : List JsString
  exactCents : Option (Record JsString JsNumber) := none
  weightsBp : Option (Record JsString JsNumber) := none

/-- `Omit<CreateExpenseInput, 'currency'>`. -/
structure EditExpenseInput where
  description : JsString
  amountCents : ℤ
  paidBy : JsString
  category : Option JsString := none
  isStaple : Option Bool := none
  mode : SplitMode
  participants : List JsString
  exactCents : Option (Record JsString JsNumber) := none
  weightsBp : Option (Record JsString JsNumber) := none

def editExpenseSchema (input : EditExpenseInput) : Bool :=
  textSchema 1 200 input.description && amountSchema input.amountCents &&
  UUID_RE input.paidBy && input.category.all (textSchema 0 50) &&
  input.participants.all UUID_RE &&
  (1 ≤ input.participants.length && input.participants.length ≤ 50) &&
  input.exactCents.all (recordSchema MAX_AMOUNT_CENTS) &&
  input.weightsBp.all (recordSchema 10000)

def CreateExpenseInput.omitCurrency (input : CreateExpenseInput) : EditExpenseInput where
  description := input.description
  amountCents := input.amountCents
  paidBy := input.paidBy
  category := input.category
  isStaple := input.isStaple
  mode := input.mode
  participants := input.participants
  exactCents := input.exactCents
  weightsBp := input.weightsBp

def createExpenseSchema (input : CreateExpenseInput) : Bool :=
  input.currency.all (textSchema 3 3) && editExpenseSchema input.omitCurrency

structure RecordPaymentInput where
  toUser : JsString
  amountCents : ℤ
  currency : Option JsString := none
  method : Option JsString := none

def recordPaymentSchema (input : RecordPaymentInput) : Bool :=
  UUID_RE input.toUser && amountSchema input.amountCents &&
  input.currency.all (textSchema 3 3) &&
  input.method.all fun m =>
    m ∈ [js "venmo", js "zelle", js "cash_app", js "cash", js "other"]

structure CreateBillInput where
  description : JsString
  amountCents : ℤ
  splitMode : SplitMode
  cadence : Cadence
  cadenceDay : JsString
  ownerId : Option JsString := none

def createBillSchema (input : CreateBillInput) : Bool :=
  textSchema 1 200 input.description && amountSchema input.amountCents &&
  (input.splitMode = .equal || input.splitMode = .room_weighted) &&
  textSchema 1 10 input.cadenceDay && input.ownerId.all UUID_RE

/-! ## Section 2: House bodies -/

structure CreateHouseInput where
  name : JsString
  timezone : JsString
  currency : JsString

def createHouseSchema (input : CreateHouseInput) : Bool :=
  textSchema 1 100 input.name && textSchema 1 64 input.timezone && textSchema 3 3 input.currency

structure RoomInput where
  name : JsString
  weightBp : ℤ
  userIds : List JsString

def setRoomsSchema (rooms : List RoomInput) : Bool :=
  (1 ≤ rooms.length && rooms.length ≤ 20) && rooms.all fun r =>
    textSchema 1 80 r.name && (0 < r.weightBp && r.weightBp ≤ 10000) &&
    r.userIds.all UUID_RE && (1 ≤ r.userIds.length && r.userIds.length ≤ 4)

def createPlaceholderSchema (name : JsString) : Bool := textSchema 1 80 name

def setDisplayNameSchema (displayName : Option JsString) : Bool :=
  displayName.all (textSchema 1 80)

def createInviteSchema (placeholderId : Option JsString) : Bool := placeholderId.all UUID_RE

/-! ## Section 3: Scopes -/

/-- What `hashRequest` hashes, one constructor for each keyed route. -/
inductive Scope where
  | createExpense (houseId : JsString) (input : CreateExpenseInput)
  | editExpense (expenseId : JsString) (input : EditExpenseInput)
  | recordPayment (houseId : JsString) (input : RecordPaymentInput)
  | createBill (houseId : JsString) (input : CreateBillInput)

end Homi
