import Homi.Api.LedgerService

/-! # Houses, members and rooms

  `houses.service.ts`, `members.service.ts` and `rooms.service.ts` of
  `apps/api/src/houses`, and the `users` row that a sign-up leaves behind.
-/

namespace Homi

open ReadCommitted

/-! ## Section 1: Users and houses -/

/-- The first sign-in of an email address. -/
def signUpTx (env : Env) (email name : JsString) : DbTxn Uuid :=
  .exec (fun v =>
      { locks := [(.email email, .exclusive)]
        writes := { users := [(env.uuid v.db.fresh, some ⟨some email, name, none⟩)] }
        ids := 1 })
    fun v =>
      if v.db.users.rows.any fun (_, u) => u.email = some email then .error .uniqueViolation
      else .ok (env.uuid v.db.fresh)

def signUp (env : Env) (email name : JsString) : DbProg :=
  (signUpTx env email name).transact fun
    | .ok id => .done (.success (.user id))
    | .error err => .done (.failure err)

/-- `INSERT INTO house_members`. The key of the row is new where this is
    called without `ON CONFLICT`. -/
def insertMember (houseId userId : Uuid) (member : HouseMember) : DbTxn Unit :=
  .exec (fun _ => { writes := { houseMembers := [((houseId, userId), some member)] } })
    fun v =>
      if (v.db.houseMembers.lookup (houseId, userId)).isSome then .error .uniqueViolation
      else .ok ()

def createHouseTx (env : Env) (userId : Uuid) (input : CreateHouseInput) (startedAt : Millis) :
    DbTxn ((Uuid × House) × List ActivityInput) := do
  let house : House := ⟨input.name, input.timezone, input.currency, userId, startedAt⟩
  let id ← Txn.exec
    (fun v => { writes := { houses := [(env.uuid v.db.fresh, some house)] }, ids := 1 })
    fun v => .ok (env.uuid v.db.fresh)
  insertMember id userId {
      role := .admin
      displayName := none
      isPlaceholder := false
      claimedBy := none
      roomId := none
      joinedAt := startedAt
      leftAt := none }
  let event ← log {
      houseId := id
      actorId := userId
      type := .houseCreated
      entityType := .house
      entityId := id }
  return ((id, house), [event])

def createHouse (env : Env) (userId : Uuid) (input : CreateHouseInput) : DbProg :=
  transact (createHouseTx env userId input) fun
    | .ok (id, house) => .done (.success (.house id house))
    | .error err => .done (.failure err)

/-! ## Section 2: Members -/

def createPlaceholderTx (env : Env) (houseId : JsString) (actorId : Uuid) (name : JsString)
    (startedAt : Millis) : DbTxn (Uuid × List ActivityInput) := do
  requireAdmin (toUuid houseId) actorId (js "add placeholder roommates")
  let id ← Txn.exec
    (fun v =>
      { writes := { users := [(env.uuid v.db.fresh, some ⟨none, name, none⟩)] }, ids := 1 })
    fun v => .ok (env.uuid v.db.fresh)
  insertMember (toUuid houseId) id {
      role := .member
      displayName := none
      isPlaceholder := true
      claimedBy := none
      roomId := none
      joinedAt := startedAt
      leftAt := none }
  let event ← log {
      houseId := houseId
      actorId := actorId
      type := .memberPlaceholderAdded
      entityType := .member
      entityId := id
      payload := .name name }
  return (id, [event])

def createPlaceholder (env : Env) (houseId : JsString) (actorId : Uuid) (name : JsString) : DbProg :=
  transact (createPlaceholderTx env houseId actorId name) fun
    | .ok id => .done (.success (.placeholder id name))
    | .error err => .done (.failure err)

/-- `UPDATE house_members … WHERE house_id = h AND user_id = u AND …`; a row
    that does not match is left alone. -/
def updateMember (houseId userId : Uuid) (matching : HouseMember → Bool)
    (set : Millis → HouseMember → HouseMember) : DbTxn Unit :=
  .exec (fun v =>
      { writes := { houseMembers := match v.db.houseMembers.lookup (houseId, userId) with
          | some m => if matching m then [((houseId, userId), some (set v.now m))] else []
          | none => [] } })
    fun _ => .ok ()

def setDisplayNameTx (houseId : JsString) (userId : Uuid) (displayName : Option JsString)
    (_startedAt : Millis) : DbTxn (Unit × List ActivityInput) := do
  let h := toUuid houseId
  let current ← Txn.exec
    (fun v =>
      { locks := if (activeMember v.db h userId).isSome then [(.member h userId, .exclusive)] else []
        writes := {} })
    fun v => match v.db.houseMembers.lookup (h, userId) with
      | some m =>
          if m.leftAt = none then .ok m else .error (.notFound (js "Membership not found"))
      | none => .error (.notFound (js "Membership not found"))
  if current.displayName = displayName then return ((), [])
  else do
    updateMember h userId (fun _ => true) fun _ m => { m with displayName := displayName }
    let event ← log {
        houseId := houseId
        actorId := userId
        type := .memberRenamed
        entityType := .member
        entityId := userId }
    return ((), [event])

def setDisplayName (houseId : JsString) (userId : Uuid) (displayName : Option JsString) : DbProg :=
  transact (setDisplayNameTx houseId userId displayName) fun
    | .ok _ => .done (.success (.displayName displayName))
    | .error err => .done (.failure err)

/-! ## Section 3: Rooms -/

/-- `UPDATE house_members SET room_id = NULL WHERE house_id = h`. -/
def vacateRooms (houseId : Uuid) : DbTxn Unit := do
  let found ← .select fun v =>
    (v.db.houseMembers.rows.map Prod.fst).filter fun (h, _) => h = houseId
  .exec (fun v =>
      { writes := { houseMembers := found.filterMap fun k =>
          (v.db.houseMembers.lookup k).map fun m => (k, some { m with roomId := none }) } })
    fun _ => .ok ()

/-- `DELETE FROM rooms WHERE house_id = h`; a row that a member still lives
    in cannot go. -/
def deleteRooms (houseId : Uuid) : DbTxn Unit := do
  let found ← .select fun v =>
    (v.db.rooms.rows.filter fun (_, room) => room.houseId = houseId).map Prod.fst
  .exec (fun v =>
      { writes := { rooms := found.filterMap fun id =>
          ((v.db.rooms.lookup id).filter fun room => room.houseId = houseId).map fun _ => (id, none) } })
    fun v =>
      if v.db.houseMembers.rows.any fun (_, m) => m.roomId.any (· ∈ found) then
        .error .foreignKeyViolation
      else .ok ()

/-- `INSERT INTO rooms … RETURNING`, with the check on the weight. -/
def insertRooms (env : Env) (houseId : Uuid) (rooms : List RoomInput) : DbTxn (List (Uuid × Room)) :=
  let created (d : Db) : List (Uuid × Room) := rooms.zipIdx.map fun (r, i) =>
    (env.uuid (d.fresh + i), ⟨houseId, r.name, r.weightBp⟩)
  .exec (fun v =>
      { writes := { rooms := (created v.db).map fun (id, room) => (id, some room) }
        ids := rooms.length })
    fun v =>
      if rooms.any fun r => r.weightBp < 1 ∨ 10000 < r.weightBp then .error .checkViolation
      else .ok (created v.db)

/-- `UPDATE house_members SET room_id = r WHERE house_id = h AND user_id IN …`. -/
def assignRoom (houseId roomId : Uuid) (userIds : List JsString) : DbTxn Unit :=
  .exec (fun v =>
      { writes := { houseMembers := ((userIds.map toUuid).eraseDups).filterMap fun u =>
          (v.db.houseMembers.lookup (houseId, u)).map fun m =>
            ((houseId, u), some { m with roomId := some roomId }) } })
    fun _ => .ok ()

def assignRooms (houseId : Uuid) : List ((Uuid × Room) × RoomInput) → DbTxn Unit
  | [] => pure ()
  | ((id, _), input) :: rest => do
      assignRoom houseId id input.userIds
      assignRooms houseId rest

/-- The occupants among the active members, whose rows are not locked. -/
def selectOccupants (houseId : Uuid) (occupants : List Uuid) : DbTxn (List ActiveMember) :=
  .exec (fun _ => { notes := [.checked houseId occupants], writes := {} })
    fun v => .ok (activeMembers v.db houseId (some occupants))

def setRoomsTx (env : Env) (houseId : JsString) (actorId : Uuid) (rooms : List RoomInput)
    (_startedAt : Millis) : DbTxn (List (Uuid × Room) × List ActivityInput) := do
  let h := toUuid houseId
  let occupants := rooms.flatMap RoomInput.userIds
  requireAdmin h actorId (js "configure rooms")
  let found ← selectOccupants h (occupants.map toUuid)
  reject (found.length ≠ occupants.length)
    (.badRequest (js "Every room occupant must be an active house member"))
  vacateRooms h
  deleteRooms h
  let created ← insertRooms env h rooms
  assignRooms h (created.zip rooms)
  let event ← log {
      houseId := houseId
      actorId := actorId
      type := .roomsConfigured
      entityType := .house
      entityId := houseId
      payload := .rooms (rooms.map fun r => (r.name, r.weightBp)) }
  return (created, [event])

def setRooms (env : Env) (houseId : JsString) (actorId : Uuid) (rooms : List RoomInput) : DbProg :=
  let weightSum := (rooms.map RoomInput.weightBp).sum
  let occupants := rooms.flatMap RoomInput.userIds
  if weightSum ≠ 10000 then
    .done (.failure (.badRequest
      (js "Room weights must sum to 10000 basis points, got " ++ JsString.decimal weightSum)))
  else if ¬ occupants.Nodup then
    .done (.failure (.badRequest (js "A member can occupy only one room")))
  else transact (setRoomsTx env houseId actorId rooms) fun
    | .ok created => .done (.success (.rooms created))
    | .error err => .done (.failure err)

end Homi
