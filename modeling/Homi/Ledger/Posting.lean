import Homi.Db.Client

/-! # The posting core

  `packages/ledger/src/posting.ts`: the money write core that the API
  (expense create and edit) and the worker (bill posting) share.

  A statement that locks several rows finds them in one snapshot and then
  waits for them. It is two steps here: the rows the snapshot shows, and
  the versions of them that are current once all locks are there.
-/

namespace Homi

open ReadCommitted

/-! ## Section 1: Members -/

structure ActiveMember where
  userId : Uuid
  isPlaceholder : Bool
  roomId : Option Uuid
  joinedAt : Millis
deriving DecidableEq

/-- The row of a member that has not left. -/
def activeMember (d : Db) (houseId userId : Uuid) : Option ActiveMember :=
  match d.houseMembers.lookup (houseId, userId) with
  | some m =>
      if m.leftAt = none then some ⟨userId, m.isPlaceholder, m.roomId, m.joinedAt⟩ else none
  | none => none

/-- The active rows of a house, or those of `userIds` when these are given. -/
def activeMembers (d : Db) (houseId : Uuid) (userIds : Option (List Uuid)) : List ActiveMember :=
  d.houseMembers.rows.filterMap fun ((h, u), _) =>
    if h = houseId ∧ userIds.all (fun ids => u ∈ ids) then activeMember d h u else none

def lockActiveMembers (houseId : JsString) (userIds : Option (List JsString)) :
    DbTxn (List ActiveMember) := do
  let h := toUuid houseId
  let found ← .select fun v => activeMembers v.db h (userIds.map fun ids => ids.map toUuid)
  .exec (fun _ =>
      { locks := found.map fun m => (.member h m.userId, .shared), writes := {} })
    fun v => .ok (found.filterMap fun m => activeMember v.db h m.userId)

def lockActingMember (houseId userId : JsString) (who : Acting) : DbTxn Unit :=
  let h := toUuid houseId
  let u := toUuid userId
  .exec (fun v =>
      { locks := if (activeMember v.db h u).isSome then [(.member h u, .shared)] else []
        writes := {} })
    fun v => match activeMember v.db h u with
      | none => .error (.posting (.notActive who))
      | some member =>
          if member.isPlaceholder then .error (.posting (.placeholderActs who)) else .ok ()

/-! ## Section 2: Splits -/

structure ResolveSplitsInput where
  amountCents : ℤ
  paidBy : JsString
  mode : SplitMode
  participants : List JsString
  exactCents : Option (Record JsString JsNumber)
  weightsBp : Option (Record JsString JsNumber)

def byId (members : List ActiveMember) (id : JsString) : Option ActiveMember :=
  members.find? fun m => m.userId = id

/-- `a.joinedAt - b.joinedAt || a.userId.localeCompare(b.userId)`. -/
def earlier (a b : ActiveMember) : Prop :=
  a.joinedAt < b.joinedAt ∨ (a.joinedAt = b.joinedAt ∧ a.userId ≤ b.userId)

instance (a b : ActiveMember) : Decidable (earlier a b) :=
  inferInstanceAs (Decidable (a.joinedAt < b.joinedAt ∨
    (a.joinedAt = b.joinedAt ∧ a.userId ≤ b.userId)))

/-- `shareByUser`: each room's weight over all its active occupants. -/
def roomShares (members : List ActiveMember) (rooms : List (Uuid × Room)) :
    Except (SplitError JsString) (Record JsString ℤ) :=
  rooms.foldlM (fun shareByUser (id, room) => do
    let occupants := (members.filter fun m => m.roomId = some id).insertionSort earlier
    let shares ← divideRoomWeight (.int room.weightBp) (occupants.map ActiveMember.userId)
    return shares.rows.foldl (fun shareByUser (u, share) => shareByUser.insert u share) shareByUser)
    ∅

/-- The rooms of the house among `roomIds`. -/
def selectRooms (houseId : JsString) (roomIds : List Uuid) : DbTxn (List (Uuid × Room)) :=
  if roomIds = [] then pure []
  else .select fun v => v.db.rooms.rows.filter fun (id, room) =>
    room.houseId = toUuid houseId ∧ id ∈ roomIds

def deriveRoomWeights (houseId : JsString) (participants : List JsString)
    (members : List ActiveMember) : DbTxn (Record JsString JsNumber) := do
  let roomIds := (participants.filterMap fun id => (byId members id).bind ActiveMember.roomId).eraseDups
  let rooms ← selectRooms houseId roomIds
  let shareByUser ← liftSplit (roomShares members rooms)
  .ofExcept (participants.foldlM (fun weights userId =>
    match shareByUser.lookup userId with
    | some share => .ok (weights.insert userId (JsNumber.int share))
    | none => .error (.posting .noRoom)) ∅)

/-- The rows a posting resolves against: those involved, or for a
    room-weighted split the whole house. -/
def postingMembers (houseId : JsString) (mode : SplitMode) (involved : List JsString)
    (preloadedMembers : Option (List ActiveMember)) : DbTxn (List ActiveMember) :=
  match preloadedMembers with
  | some members => pure members
  | none => lockActiveMembers houseId (if mode = .room_weighted then none else some involved)

/-- The weights of the request, or for a room-weighted split the derived ones. -/
def postingWeights (houseId : JsString) (input : ResolveSplitsInput)
    (members : List ActiveMember) : DbTxn (Option (Record JsString JsNumber)) :=
  if input.mode = .room_weighted then
    if input.weightsBp.isSome then .throw (.posting .weightsSent)
    else some <$> deriveRoomWeights houseId input.participants members
  else pure input.weightsBp

def resolveSplits (houseId : JsString) (input : ResolveSplitsInput)
    (preloadedMembers : Option (List ActiveMember)) : DbTxn (Splits JsString) := do
  let involved := (input.participants ++ [input.paidBy]).eraseDups
  let members ← postingMembers houseId input.mode involved preloadedMembers
  if involved.any (fun id => (byId members id).isNone) then .throw (.posting .notMembers)
  else if (byId members input.paidBy).any ActiveMember.isPlaceholder then
    .throw (.posting .placeholderPays)
  else do
    let weightsBp ← postingWeights houseId input members
    liftSplit (computeSplits {
      totalCents := .int input.amountCents
      paidBy := input.paidBy
      mode := input.mode
      participants := input.participants
      exactCents := input.exactCents
      weightsBp := weightsBp })

/-! ## Section 3: The expense write -/

structure ExpenseSpec where
  houseId : JsString
  description : JsString
  amountCents : ℤ
  currency : JsString
  paidBy : JsString
  category : Option JsString := none
  isStaple : Option Bool := none
  templateId : Option Uuid := none
  period : Option JsString := none
  createdBy : Uuid

/-- The row that `insertExpense` writes. -/
def ExpenseSpec.row (spec : ExpenseSpec) (startedAt : Millis) : Expense where
  houseId := toUuid spec.houseId
  description := spec.description
  amountCents := spec.amountCents
  currency := spec.currency
  paidBy := toUuid spec.paidBy
  category := spec.category
  isStaple := spec.isStaple.getD false
  templateId := spec.templateId
  period := spec.period
  createdBy := spec.createdBy
  createdAt := startedAt
  deletedAt := none

/-- The expense that took the slot (template, period) of the partial index. -/
def postedFor (d : Db) (templateId : Uuid) (period : JsString) : Option (Uuid × Expense) :=
  d.expenses.rows.find? fun (_, e) => e.templateId = some templateId ∧ e.period = some period

/-- `INSERT INTO expense_splits`, one row for each entry. -/
def splitRowsFor (expenseId : Uuid) (splits : Splits JsString) : List Split :=
  splits.rows.map fun (userId, amountCents) => ⟨expenseId, toUuid userId, amountCents⟩

/-- The primary key (expense, user) is taken. -/
def splitTaken (d : Db) (s : Split) : Bool :=
  d.splitRows.any fun (_, s') => s'.expenseId = s.expenseId ∧ s'.userId = s.userId

def insertSplits (expenseId : Uuid) (splits : Splits JsString) : DbTxn Unit :=
  let rows := splitRowsFor expenseId splits
  .exec (fun v =>
      { locks := rows.map fun s => (.splitSlot expenseId s.userId, .exclusive)
        writes := { expenseSplits := rows.zipIdx.map fun (s, i) => (v.db.fresh + i, some (some s)) }
        ids := rows.length })
    fun v =>
      if rows = [] then .error (.internal (js "values() must be called with at least one value"))
      else if rows.any fun s => s.amountCents < 0 then .error .checkViolation
      else if ¬ (rows.map Split.userId).Nodup ∨ rows.any (splitTaken v.db) then .error .uniqueViolation
      else .ok ()

def insertExpense (env : Env) (startedAt : Millis) (spec : ExpenseSpec) (splits : Splits JsString) :
    DbTxn (Uuid × Expense) := do
  let row := spec.row startedAt
  let id ← Txn.exec (fun v =>
      { locks := match spec.templateId, spec.period with
          | some t, some p => [(.period t p, .exclusive)]
          | _, _ => []
        writes := { expenses := [(env.uuid v.db.fresh, some row)] }
        ids := 1 })
    fun v =>
      if row.amountCents ≤ 0 then .error .checkViolation
      else match spec.templateId, spec.period with
        | some t, some p =>
            if (postedFor v.db t p).isSome then .error .uniqueViolation
            else .ok (env.uuid v.db.fresh)
        | _, _ => .ok (env.uuid v.db.fresh)
  insertSplits id splits
  return (id, row)

end Homi
