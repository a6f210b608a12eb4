import Homi.Ledger.Posting

/-! # Access and idempotency

  What stands between a request and its service: the guards and pipes of
  the routes, and `withIdempotency` (`apps/api/src/auth`, `apps/api/src/lib`).

  `AuthGuard` is not here: a request carries the user of its session.
-/

namespace Homi

open ReadCommitted

/-! ## Section 1: Guards and pipes -/

def notAMember : Err := .forbidden (js "You are not a member of this house")

/-- `HouseMemberGuard`. -/
def houseMemberGuard (houseId : JsString) (userId : Uuid) (next : DbProg) : DbProg :=
  if UUID_RE houseId then
    .query fun v =>
      if (activeMember v.db (toUuid houseId) userId).isSome then next
      else .done (.failure notAMember)
  else .done (.failure notAMember)

/-- `UuidPipe` on the parameter `name`. -/
def uuidPipe (name value : JsString) (next : DbProg) : DbProg :=
  if UUID_RE value then next
  else .done (.failure (.badRequest (name ++ js " must be a UUID")))

/-- The `IdempotencyKey` decorator. -/
def idempotencyKey (key : JsString) (next : DbProg) : DbProg :=
  if UUID_RE key then next
  else .done (.failure (.badRequest
    (js "Idempotency-Key header (UUID) is required on money mutations")))

/-- `parseBody` of a body whose schema says `ok`. -/
def parseBody (ok : Bool) (next : DbProg) : DbProg :=
  if ok then next else .done (.failure (.badRequest (js "Validation failed")))

def activeMemberRole (d : Db) (houseId userId : Uuid) : Option Role :=
  match d.houseMembers.lookup (houseId, userId) with
  | some m => if m.leftAt = none then some m.role else none
  | none => none

def adminsOnly (action : JsString) : Err := .forbidden (js "Only house admins can " ++ action)

/-- `requireAdmin` on a transaction handle. -/
def requireAdmin (houseId userId : Uuid) (action : JsString) : DbTxn Unit := do
  let role ← .select fun v => activeMemberRole v.db houseId userId
  reject (role ≠ some .admin) (adminsOnly action)

/-! ## Section 2: Idempotency -/

def findStoredResponse (d : Db) (id : KeyId) (requestHash : JsString) :
    Except Err (Option StoredResponse) :=
  match d.idempotencyKeys.lookup id with
  | none => .ok none
  | some row =>
      if row.requestHash ≠ requestHash then
        .error (.conflict (js "Idempotency-Key was already used with a different request"))
      else .ok (some row.response)

/-- `store`, on the transaction of the mutation. -/
def store (id : KeyId) (requestHash : JsString) (response : StoredResponse) : DbTxn Unit :=
  .exec (fun _ => { writes := { idempotencyKeys := [(id, some ⟨requestHash, response⟩)] } })
    fun v => if (v.db.idempotencyKeys.lookup id).isSome then .error .uniqueViolation else .ok ()

/-- What a keyed call replies with. -/
def respond : Except Err StoredResponse → DbProg
  | .ok response => .done (.success (.response response))
  | .error err => .done (.failure err)

/-- The second lookup, after `execute` failed with `err`. -/
def replayAfter (id : KeyId) (requestHash : JsString) (err : Err) : DbProg :=
  .query fun v => match findStoredResponse v.db id requestHash with
    | .ok (some stored) => respond (.ok stored)
    | .ok none => respond (.error err)
    | .error conflict => respond (.error conflict)

def withIdempotency (id : KeyId) (requestHash : JsString)
    (execute : (StoredResponse → DbTxn Unit) → (Except Err StoredResponse → DbProg) → DbProg) :
    DbProg :=
  .query fun v => match findStoredResponse v.db id requestHash with
    | .ok (some stored) => respond (.ok stored)
    | .error conflict => respond (.error conflict)
    | .ok none => execute (store id requestHash) fun
        | .ok response => respond (.ok response)
        | .error err =>
            if isUniqueViolation err then replayAfter id requestHash err
            else respond (.error err)

end Homi
