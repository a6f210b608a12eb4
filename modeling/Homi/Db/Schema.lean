import Homi.Framework.ReadCommitted
import Homi.Domain.Balances
import Homi.Domain.Schedule

/-! # Database schema

  `packages/db/src/schema`: the tables behind the API and the worker, the
  private write set of a transaction over them, and the keys that its
  locks are taken on.

  Columns that no modelled function reads or returns are left out. A
  timestamp is a clock reading in milliseconds, and a `uuid` column holds
  the text that Postgres prints for it, which is lower case: comparing a
  request id with a column casts it first (`toUuid`).

  Rows of `expense_splits` are kept by physical row and not by primary
  key, because a statement that waits for a row goes on with that row
  under its new key. A deleted row stays in its slot as `none`.
-/

namespace Homi

open ReadCommitted

/-! ## Section 1: Identifiers -/

/-- A `uuid` column. -/
abbrev Uuid : Type := JsString

abbrev Millis : Type := ℕ

/-- The physical place of a row. -/
abbrev Rid : Type := ℕ

/-- Lower case of one ASCII code unit. -/
def lowerUnit (c : CodeUnit) : CodeUnit := if 65 ≤ c ∧ c ≤ 90 then c + 32 else c

/-- `$1::uuid`. -/
def toUuid (s : JsString) : Uuid := s.map lowerUnit

theorem lowerUnit_lowerUnit (c : CodeUnit) : lowerUnit (lowerUnit c) = lowerUnit c := by
  unfold lowerUnit
  by_cases hc : 65 ≤ c ∧ c ≤ 90
  · have hlow : (65 : ℕ) ≤ c.val := hc.1
    have hhigh : c.val ≤ (90 : ℕ) := hc.2
    have hval : (c + 32).val = c.val + 32 := by
      rw [Fin.val_add]
      exact Nat.mod_eq_of_lt (show c.val + 32 < 65536 by omega)
    rw [if_pos hc, if_neg fun h => ?_]
    have hle : (c + 32).val ≤ (90 : ℕ) := h.2
    omega
  · rw [if_neg hc, if_neg hc]

/-- Ids that were cast stay as they are. -/
theorem toUuid_toUuid (s : JsString) : toUuid (toUuid s) = toUuid s := by
  rw [toUuid, toUuid, List.map_map]
  exact List.map_congr_left fun c _ => lowerUnit_lowerUnit c

def isHex (c : CodeUnit) : Bool :=
  isDigit c || (65 ≤ c && c ≤ 70) || (97 ≤ c && c ≤ 102)

/-- `/^[0-9a-f]{8}-[0-9a-f]{4}-[0-9a-f]{4}-[0-9a-f]{4}-[0-9a-f]{12}$/i`. -/
def UUID_RE (s : JsString) : Bool :=
  s.length = 36 && s.zipIdx.all fun (c, i) => if i ∈ [8, 13, 18, 23] then c = dash else isHex c

/-! ## Section 2: Rows -/

structure User where
  email : Option JsString
  name : JsString
  deletedAt : Option Millis
deriving DecidableEq

structure House where
  name : JsString
  timezone : JsString
  currency : JsString
  createdBy : Uuid
  createdAt : Millis
deriving DecidableEq

structure Room where
  houseId : Uuid
  name : JsString
  weightBp : ℤ
deriving DecidableEq

inductive Role where
  | admin
  | member
deriving DecidableEq, Repr

/-- A row of `house_members` besides its key (house, user). -/
structure HouseMember where
  role : Role
  displayName : Option JsString
  isPlaceholder : Bool
  claimedBy : Option Uuid
  roomId : Option Uuid
  joinedAt : Millis
  leftAt : Option Millis
deriving DecidableEq

structure Invite where
  houseId : Uuid
  tokenHash : JsString
  createdBy : Uuid
  placeholderUserId : Option Uuid
  expiresAt : Millis
  maxUses : ℕ
  uses : ℕ
  revokedAt : Option Millis
deriving DecidableEq

structure Expense where
  houseId : Uuid
  description : JsString
  amountCents : ℤ
  currency : JsString
  paidBy : Uuid
  category : Option JsString
  isStaple : Bool
  templateId : Option Uuid
  period : Option JsString
  createdBy : Uuid
  createdAt : Millis
  deletedAt : Option Millis
deriving DecidableEq

/-- A row of `expense_splits`. -/
structure Split where
  expenseId : Uuid
  userId : Uuid
  amountCents : ℤ
deriving DecidableEq

/-- The JSON of `expense_revisions.previous`: the fields of the expense and
    its splits. -/
structure Previous where
  description : JsString
  amountCents : ℤ
  currency : JsString
  paidBy : Uuid
  category : Option JsString
  isStaple : Bool
  splits : Splits Uuid
deriving DecidableEq

/-- A row of `expense_revisions`. -/
structure Revision where
  expenseId : Uuid
  changedBy : Uuid
  previous : Previous
deriving DecidableEq

structure BillTemplate where
  houseId : Uuid
  description : JsString
  amountCents : ℤ
  ownerId : Uuid
  splitMode : SplitMode
  cadence : Cadence
  cadenceDay : JsString
  nextRun : JsString
  active : Bool
  createdBy : Uuid
  createdAt : Millis
deriving DecidableEq

structure Payment where
  houseId : Uuid
  fromUser : Uuid
  toUser : Uuid
  amountCents : ℤ
  currency : JsString
  method : Option JsString
  status : PaymentStatus
  createdAt : Millis
  disputedAt : Option Millis
  resolvedAt : Option Millis
deriving DecidableEq

/-- The routes that take an `Idempotency-Key`. -/
inductive Endpoint where
  | createExpense
  | editExpense
  | recordPayment
  | createBill
deriving DecidableEq, Repr

def Endpoint.text : Endpoint → String
  | .createExpense => "POST /v1/houses/:houseId/expenses"
  | .editExpense => "PUT /v1/expenses/:expenseId"
  | .recordPayment => "POST /v1/houses/:houseId/payments"
  | .createBill => "POST /v1/houses/:houseId/bills"

/-- The primary key of `idempotency_keys`. -/
structure KeyId where
  key : Uuid
  userId : Uuid
  endpoint : Endpoint
deriving DecidableEq

/-- The JSON body of a keyed mutation's response. -/
inductive ResponseBody where
  | expense (id : Uuid) (expense : Expense) (splits : Splits JsString)
  | payment (id : Uuid) (payment : Payment)
  | bill (id : Uuid) (bill : BillTemplate)
deriving DecidableEq

structure StoredResponse where
  status : ℕ
  body : ResponseBody
deriving DecidableEq

/-- A row of `idempotency_keys` besides its key. -/
structure KeyRow where
  requestHash : JsString
  response : StoredResponse
deriving DecidableEq

inductive EventType where
  | houseCreated
  | memberPlaceholderAdded
  | memberRenamed
  | memberClaimed
  | memberJoined
  | roomsConfigured
  | expenseCreated
  | expenseEdited
  | paymentRecorded
  | paymentDisputed
  | paymentResolved
  | billCreated
  | billPaused
  | billResumed
  | billPosted
deriving DecidableEq, Repr

def EventType.text : EventType → String
  | .houseCreated => "house.created"
  | .memberPlaceholderAdded => "member.placeholder_added"
  | .memberRenamed => "member.renamed"
  | .memberClaimed => "member.claimed"
  | .memberJoined => "member.joined"
  | .roomsConfigured => "rooms.configured"
  | .expenseCreated => "expense.created"
  | .expenseEdited => "expense.edited"
  | .paymentRecorded => "payment.recorded"
  | .paymentDisputed => "payment.disputed"
  | .paymentResolved => "payment.resolved"
  | .billCreated => "bill.created"
  | .billPaused => "bill.paused"
  | .billResumed => "bill.resumed"
  | .billPosted => "bill.posted"

inductive EntityType where
  | house
  | member
  | expense
  | payment
  | bill
deriving DecidableEq, Repr

/-- The JSON payload of an event. -/
inductive Payload where
  | none
  | name (name : JsString)
  | claimed (placeholderUserId : Uuid)
  | rooms (rooms : List (JsString × ℤ))
  | expense (amountCents : ℤ) (description : JsString)
  | payment (amountCents : ℤ) (toUser : Uuid)
  | bill (description : JsString) (amountCents : ℤ) (nextRun : JsString)
  | posted (templateId : Uuid) (period : JsString) (amountCents : ℤ)
  | reason (reason : JsString)
deriving DecidableEq

/-- A row of `activity_events`. -/
structure ActivityEvent where
  houseId : Uuid
  actorId : Uuid
  type : EventType
  entityType : EntityType
  entityId : Uuid
  payload : Payload := .none
deriving DecidableEq

/-! ## Section 3: The database -/

/-- The committed database. `fresh` counts the identifiers drawn so far;
    revisions and events are only ever appended. -/
structure Db where
  users : Table Uuid User
  houses : Table Uuid House
  rooms : Table Uuid Room
  houseMembers : Table (Uuid × Uuid) HouseMember
  invites : Table Uuid Invite
  expenses : Table Uuid Expense
  expenseSplits : Table Rid (Option Split)
  expenseRevisions : List Revision
  billTemplates : Table Uuid BillTemplate
  payments : Table Uuid Payment
  idempotencyKeys : Table KeyId KeyRow
  activityEvents : List ActivityEvent
  fresh : ℕ

/-- The database before the first request. -/
def Db.empty : Db :=
  ⟨∅, ∅, ∅, ∅, ∅, ∅, ∅, [], ∅, ∅, ∅, [], 0⟩

/-- The live row in a slot of `expense_splits`. -/
def Db.split (d : Db) (rid : Rid) : Option Split := (d.expenseSplits.lookup rid).join

/-- All live rows of `expense_splits`. -/
def Db.splitRows (d : Db) : List (Rid × Split) :=
  d.expenseSplits.rows.filterMap fun (rid, row) => row.map fun s => (rid, s)

/-- `WHERE expense_id = e`. -/
def Db.splitsOf (d : Db) (e : Uuid) : List (Rid × Split) :=
  d.splitRows.filter fun r => r.2.expenseId = e

@[simp] theorem Db.mem_splitRows {d : Db} {rid : Rid} {s : Split} :
    (rid, s) ∈ d.splitRows ↔ d.split rid = some s := by
  constructor
  · intro h
    obtain ⟨⟨rid', row⟩, hrow, hs⟩ := List.mem_filterMap.mp h
    obtain ⟨s', rfl, heq⟩ := Option.map_eq_some_iff.mp hs
    obtain ⟨rfl, rfl⟩ := Prod.mk.inj heq
    rw [Db.split, Table.mem_rows.mp hrow]
    rfl
  · intro h
    refine List.mem_filterMap.mpr ⟨(rid, some s), ?_, rfl⟩
    rw [Table.mem_rows]
    rw [Db.split] at h
    cases hrow : d.expenseSplits.lookup rid with
    | none => rw [hrow] at h; cases h
    | some row => rw [hrow] at h; exact congrArg some h

@[simp] theorem Db.mem_splitsOf {d : Db} {e : Uuid} {rid : Rid} {s : Split} :
    (rid, s) ∈ d.splitsOf e ↔ d.split rid = some s ∧ s.expenseId = e := by
  simp [Db.splitsOf]

/-! ## Section 4: Locks and writes -/

/-- What a lock is taken on: a row by its primary key, or the entry of a
    unique index (`email`, `tokenHash`, `period`, `splitSlot`). -/
inductive LockKey where
  | user (id : Uuid)
  | email (email : JsString)
  | house (id : Uuid)
  | room (id : Uuid)
  | member (houseId userId : Uuid)
  | invite (id : Uuid)
  | tokenHash (hash : JsString)
  | expense (id : Uuid)
  | period (templateId : Uuid) (period : JsString)
  | split (rid : Rid)
  | splitSlot (expenseId userId : Uuid)
  | template (id : Uuid)
  | payment (id : Uuid)
  | key (id : KeyId)
deriving DecidableEq

/-- The private writes of a transaction, table by table. -/
structure Writes where
  users : Edits Uuid User := []
  houses : Edits Uuid House := []
  rooms : Edits Uuid Room := []
  houseMembers : Edits (Uuid × Uuid) HouseMember := []
  invites : Edits Uuid Invite := []
  expenses : Edits Uuid Expense := []
  expenseSplits : Edits Rid (Option Split) := []
  expenseRevisions : List Revision := []
  billTemplates : Edits Uuid BillTemplate := []
  payments : Edits Uuid Payment := []
  idempotencyKeys : Edits KeyId KeyRow := []
  activityEvents : List ActivityEvent := []

def Writes.append (w w' : Writes) : Writes where
  users := w.users ++ w'.users
  houses := w.houses ++ w'.houses
  rooms := w.rooms ++ w'.rooms
  houseMembers := w.houseMembers ++ w'.houseMembers
  invites := w.invites ++ w'.invites
  expenses := w.expenses ++ w'.expenses
  expenseSplits := w.expenseSplits ++ w'.expenseSplits
  expenseRevisions := w.expenseRevisions ++ w'.expenseRevisions
  billTemplates := w.billTemplates ++ w'.billTemplates
  payments := w.payments ++ w'.payments
  idempotencyKeys := w.idempotencyKeys ++ w'.idempotencyKeys
  activityEvents := w.activityEvents ++ w'.activityEvents

/-- The rows of a write set. Appended rows are nobody else's business. -/
def Writes.written (w : Writes) : List LockKey :=
  (w.users.map fun e => .user e.1) ++ (w.houses.map fun e => .house e.1) ++
  (w.rooms.map fun e => .room e.1) ++ (w.houseMembers.map fun e => .member e.1.1 e.1.2) ++
  (w.invites.map fun e => .invite e.1) ++ (w.expenses.map fun e => .expense e.1) ++
  (w.expenseSplits.map fun e => .split e.1) ++ (w.billTemplates.map fun e => .template e.1) ++
  (w.payments.map fun e => .payment e.1) ++ (w.idempotencyKeys.map fun e => .key e.1)

def Writes.apply (w : Writes) (d : Db) : Db where
  users := d.users.patch w.users
  houses := d.houses.patch w.houses
  rooms := d.rooms.patch w.rooms
  houseMembers := d.houseMembers.patch w.houseMembers
  invites := d.invites.patch w.invites
  expenses := d.expenses.patch w.expenses
  expenseSplits := d.expenseSplits.patch w.expenseSplits
  expenseRevisions := d.expenseRevisions ++ w.expenseRevisions
  billTemplates := d.billTemplates.patch w.billTemplates
  payments := d.payments.patch w.payments
  idempotencyKeys := d.idempotencyKeys.patch w.idempotencyKeys
  activityEvents := d.activityEvents ++ w.activityEvents
  fresh := d.fresh

/-- Two databases have the same row under a key. An entry of an index has
    no row of its own. -/
def Db.Agree : LockKey → Db → Db → Prop
  | .user id, d, d' => d'.users.lookup id = d.users.lookup id
  | .house id, d, d' => d'.houses.lookup id = d.houses.lookup id
  | .room id, d, d' => d'.rooms.lookup id = d.rooms.lookup id
  | .member h u, d, d' => d'.houseMembers.lookup (h, u) = d.houseMembers.lookup (h, u)
  | .invite id, d, d' => d'.invites.lookup id = d.invites.lookup id
  | .expense id, d, d' => d'.expenses.lookup id = d.expenses.lookup id
  | .split rid, d, d' => d'.expenseSplits.lookup rid = d.expenseSplits.lookup rid
  | .template id, d, d' => d'.billTemplates.lookup id = d.billTemplates.lookup id
  | .payment id, d, d' => d'.payments.lookup id = d.payments.lookup id
  | .key id, d, d' => d'.idempotencyKeys.lookup id = d.idempotencyKeys.lookup id
  | .email _, _, _ => True
  | .tokenHash _, _, _ => True
  | .period _ _, _, _ => True
  | .splitSlot _ _, _, _ => True

instance : WriteSet Writes LockKey where
  nothing := {}
  append := Writes.append
  written := Writes.written

instance : Store Db Writes LockKey where
  apply := Writes.apply
  tick n d := { d with fresh := d.fresh + n }
  Agree := Db.Agree

@[simp] theorem Writes.append_eq (w w' : Writes) : WriteSet.append w w' = w.append w' := rfl

theorem Writes.mem_written {w : Writes} {k : LockKey} : k ∈ w.written ↔
    match k with
    | .user id => id ∈ w.users.map Prod.fst
    | .house id => id ∈ w.houses.map Prod.fst
    | .room id => id ∈ w.rooms.map Prod.fst
    | .member h u => (h, u) ∈ w.houseMembers.map Prod.fst
    | .invite id => id ∈ w.invites.map Prod.fst
    | .expense id => id ∈ w.expenses.map Prod.fst
    | .split rid => rid ∈ w.expenseSplits.map Prod.fst
    | .template id => id ∈ w.billTemplates.map Prod.fst
    | .payment id => id ∈ w.payments.map Prod.fst
    | .key id => id ∈ w.idempotencyKeys.map Prod.fst
    | .email _ | .tokenHash _ | .period _ _ | .splitSlot _ _ => False := by
  cases k <;> simp [Writes.written]

instance : LawfulStore Db where
  apply_nothing d := by
    show Writes.apply {} d = d
    simp [Writes.apply]
  apply_append w w' d := by
    show Writes.apply (w.append w') d = w'.apply (w.apply d)
    simp [Writes.apply, Writes.append, Table.patch_append]
  append_nothing w := by
    show w.append {} = w
    simp [Writes.append]
  tick_zero _ := rfl
  written_nothing k := by
    show k ∉ Writes.written {}
    simp [Writes.written]
  written_append w w' k := by
    show k ∈ (w.append w').written ↔ k ∈ w.written ∨ k ∈ w'.written
    simp only [Writes.mem_written, Writes.append, List.map_append]
    cases k <;> simp only [List.mem_append, or_false]
  agree_refl k d := by
    show Db.Agree k d d
    cases k <;> simp [Db.Agree]
  agree_trans k a b c h h' := by
    change Db.Agree k a b at h
    change Db.Agree k b c at h'
    show Db.Agree k a c
    cases k <;> simp_all [Db.Agree]
  agree_tick k n d := by
    show Db.Agree k d { d with fresh := d.fresh + n }
    cases k <;> simp [Db.Agree]
  agree_apply k w d h := by
    change k ∉ w.written at h
    show Db.Agree k d (w.apply d)
    rw [Writes.mem_written] at h
    cases k <;> simp only [Db.Agree, Writes.apply] <;> exact Table.lookup_patch_of_notMem h

end Homi
