import Homi.Api.LedgerService
import Homi.Framework.Keyset
import Mathlib.Data.Prod.Lex

/-! # Snapshot

  `apps/api/src/houses/snapshot.service.ts`: the HOME tab in one request.
  Everything is read in one repeatable-read snapshot, so that `getSnapshot`
  is a function of one database.
-/

namespace Homi

/-! ## Section 1: Action items -/

/-- What a member is asked to do. -/
inductive ActionItem where
  | settleUp (toUserId : Uuid) (amountCents : ℤ)
  | confirmPayment (paymentId fromUserId : Uuid) (amountCents : ℤ) (disputableUntil : Millis)
deriving DecidableEq

/-- Payments to the user that are still inside their dispute window, the
    newest first. Postgres compares `created_at` in microseconds: those below
    the millisecond are `micros`, and no other code reads them. -/
def disputablePayments (micros : Uuid → ℕ) (d : Db) (houseId : JsString) (userId : Uuid)
    (now : Millis) : List (Uuid × Payment) :=
  let createdAt (r : Uuid × Payment) : ℕ := r.2.createdAt * 1000 + micros r.1
  Keyset.newest (fun r => toLex (createdAt r, r.1)) (d.payments.rows.filter fun r =>
    r.2.houseId = toUuid houseId ∧ r.2.toUser = userId ∧ r.2.status = .recorded ∧
      now * 1000 < createdAt r + DISPUTE_WINDOW_MS * 1000)

def confirmations (micros : Uuid → ℕ) (d : Db) (houseId : JsString) (userId : Uuid)
    (now : Millis) : List ActionItem :=
  (disputablePayments micros d houseId userId now).map fun (id, p) =>
    .confirmPayment id p.fromUser p.amountCents (p.createdAt + DISPUTE_WINDOW_MS)

def debts (d : Db) (houseId : JsString) (userId : Uuid) : List ActionItem :=
  ((getBalances d houseId).pairwise.filter fun p => p.fromUser = userId).map fun p =>
    .settleUp p.toUser p.amountCents

/-- `actionItems`. -/
def actionItems (micros : Uuid → ℕ) (d : Db) (houseId : JsString) (userId : Uuid)
    (now : Millis) : List ActionItem :=
  debts d houseId userId ++ confirmations micros d houseId userId now

/-! ## Section 2: The snapshot -/

def FEED_HEAD_SIZE : ℕ := 20

/-- What the database knows of its rows beyond `Db`: the microseconds of
    `payments.created_at` and of `house_members.joined_at`, and the time, in
    microseconds, and id of the `i`-th row of `activity_events`. -/
structure Stamps where
  payment : Uuid → ℕ
  joined : Uuid × Uuid → Millis → ℕ
  event : ℕ → ℕ × Uuid

structure SnapshotHouse where
  id : Uuid
  name : JsString
  timezone : JsString
  currency : JsString
deriving DecidableEq

structure SnapshotMember where
  userId : Uuid
  name : JsString
  displayName : Option JsString
  role : Role
  isPlaceholder : Bool
  roomId : Option Uuid
  joinedAt : Millis
deriving DecidableEq

structure FeedEvent where
  id : Uuid
  createdAt : Millis
  event : ActivityEvent
deriving DecidableEq

structure Snapshot where
  house : SnapshotHouse
  members : List SnapshotMember
  balances : Balances
  actionItems : List ActionItem
  feed : List FeedEvent

/-- A row of the join of `house_members` with `users`. -/
def selectMember (d : Db) (houseId : Uuid) (r : (Uuid × Uuid) × HouseMember) : Option SnapshotMember :=
  if r.1.1 = houseId ∧ r.2.leftAt = none then
    (d.users.lookup r.1.2).map fun user =>
      { userId := r.1.2
        name := user.name
        displayName := r.2.displayName
        role := r.2.role
        isPlaceholder := r.2.isPlaceholder
        roomId := r.2.roomId
        joinedAt := r.2.joinedAt }
  else none

/-- `members`, the first to join first. SQL gives no order to rows of one
    microsecond; here they have that of their ids. -/
def selectMembers (stamps : Stamps) (d : Db) (houseId : Uuid) : List SnapshotMember :=
  let joinedAt (m : SnapshotMember) : ℕ := m.joinedAt * 1000 + stamps.joined (houseId, m.userId) m.joinedAt
  Keyset.newest (fun m => OrderDual.toDual (toLex (joinedAt m, m.userId)))
    (d.houseMembers.rows.filterMap (selectMember d houseId))

/-- The events of the house, with their places in the table. -/
def houseEvents (d : Db) (houseId : Uuid) : List (ActivityEvent × ℕ) :=
  d.activityEvents.zipIdx.filter fun r => r.1.houseId = houseId

/-- `feed`: the head of the feed, the newest first. -/
def selectFeed (stamps : Stamps) (d : Db) (houseId : Uuid) : List FeedEvent :=
  ((Keyset.newest (fun r => toLex (stamps.event r.2)) (houseEvents d houseId)).take FEED_HEAD_SIZE).map
    fun (event, i) => ⟨(stamps.event i).2, (stamps.event i).1 / 1000, event⟩

def getSnapshot (stamps : Stamps) (d : Db) (houseId : JsString) (userId : Uuid) (now : Millis) :
    Except Err Snapshot :=
  match d.houses.lookup (toUuid houseId) with
  | none => .error (.notFound (js "House not found"))
  | some house => .ok {
      house := ⟨toUuid houseId, house.name, house.timezone, house.currency⟩
      members := selectMembers stamps d (toUuid houseId)
      balances := getBalances d houseId
      actionItems := actionItems stamps.payment d houseId userId now
      feed := selectFeed stamps d (toUuid houseId) }

/-- `GET /v1/houses/:houseId/snapshot`, behind `HouseMemberGuard`. -/
def snapshotRoute (stamps : Stamps) (houseId : JsString) (userId : Uuid) :
    ReadCommitted.Prog Db Writes LockKey Note Hint (Except Err Snapshot) :=
  if UUID_RE houseId then
    .query fun v =>
      if (activeMember v.db (toUuid houseId) userId).isSome then
        .query fun v => .done (getSnapshot stamps v.db houseId userId v.now)
      else .done (.error notAMember)
  else .done (.error notAMember)

end Homi
