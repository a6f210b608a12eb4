import Homi.Api.Houses

/-! # Invites

  `apps/api/src/houses/invites.service.ts`: invite links, accepting them,
  and the claim of a placeholder's history (H11).

  Each statement of `claimHistory` that works on several rows of
  `expense_splits` finds them in one snapshot and then waits for their
  locks; a row that changed meanwhile is looked at again before it is
  written.
-/

namespace Homi

open ReadCommitted

/-! ## Section 1: Creating invites -/

def INVITE_TTL_DAYS : ℕ := 7

def notUnclaimed : Err :=
  .badRequest (js "placeholderId must be an unclaimed placeholder of this house")

/-- The unclaimed check, with the placeholder row locked FOR UPDATE. -/
def lockUnclaimed (houseId placeholderId : Uuid) : DbTxn Unit :=
  let found (d : Db) := (d.houseMembers.lookup (houseId, placeholderId)).filter fun m =>
    m.isPlaceholder && m.leftAt = none
  .exec (fun v =>
      { locks := if (found v.db).isSome then [(.member houseId placeholderId, .exclusive)] else []
        writes := {} })
    fun v => match found v.db with
      | some m => if m.claimedBy = none then .ok () else .error notUnclaimed
      | none => .error notUnclaimed

/-- `INSERT INTO invites … RETURNING`, with a fresh token. -/
def insertInvite (env : Env) (houseId actorId : Uuid) (placeholderId : Option Uuid)
    (expiresAt : Millis) : DbTxn (JsString × Invite) :=
  let token (d : Db) := env.randomToken d.fresh
  let row (d : Db) : Invite :=
    { houseId := houseId
      tokenHash := env.hashToken (token d)
      createdBy := actorId
      placeholderUserId := placeholderId
      expiresAt := expiresAt
      maxUses := 10
      uses := 0
      revokedAt := none }
  .exec (fun v =>
      { locks := [(.tokenHash (env.hashToken (token v.db)), .exclusive)]
        writes := { invites := [(env.uuid v.db.fresh, some (row v.db))] }
        ids := 1 })
    fun v =>
      if v.db.invites.rows.any fun (_, i) => i.tokenHash = env.hashToken (token v.db) then
        .error .uniqueViolation
      else .ok (token v.db, row v.db)

/-- The check of a bound invite. -/
def checkBound (houseId : Uuid) : Option Uuid → DbTxn Unit
  | some placeholderId => lockUnclaimed houseId placeholderId
  | none => pure ()

def createInviteTx (env : Env) (houseId actorId : Uuid) (placeholderId : Option Uuid)
    (expiresAt : Millis) : DbTxn (JsString × Invite) := do
  checkBound houseId placeholderId
  insertInvite env houseId actorId placeholderId expiresAt

def createInvite (env : Env) (houseId : JsString) (actorId : Uuid)
    (placeholderId : Option JsString) : DbProg :=
  .query fun v =>
    if activeMemberRole v.db (toUuid houseId) actorId ≠ some .admin then
      .done (.failure (adminsOnly (js "create invites")))
    else
      let expiresAt := v.now + INVITE_TTL_DAYS * 24 * 60 * 60 * 1000
      (createInviteTx env (toUuid houseId) actorId (placeholderId.map toUuid) expiresAt).transact fun
        | .ok (token, invite) =>
            .done (.success (.invite (env.inviteLinkOrigin ++ js "/j/" ++ token) invite.expiresAt
              invite.maxUses invite.placeholderUserId))
        | .error err => .done (.failure err)

/-! ## Section 2: Claiming a history -/

/-- The splits of a user. -/
def Db.splitsOfUser (d : Db) (userId : Uuid) : List (Rid × Split) :=
  d.splitRows.filter fun r => r.2.userId = userId

/-- The user has a split in the expense. -/
def Db.hasSplit (d : Db) (expenseId userId : Uuid) : Bool :=
  (d.splitsOf expenseId).any fun r => r.2.userId = userId

/-- `folded`: the expenses in which both have a split. The query reads every
    expense of the placeholder. -/
def selectFolded (placeholderId claimerId : Uuid) : DbTxn (List (Uuid × Expense)) :=
  .exec (fun v =>
      { notes := (v.db.splitsOfUser placeholderId).map fun r => .snapshot r.2.expenseId
        writes := {} })
    fun v => .ok (v.db.expenses.rows.filter fun (e, _) =>
      v.db.hasSplit e placeholderId && v.db.hasSplit e claimerId)

/-- The revision that a fold leaves behind. -/
def foldRevision (claimerId : Uuid) (foldedSplits : List Split) (folded : Uuid × Expense) : Revision :=
  ⟨folded.1, claimerId, folded.2.previous (foldedSplits.filter fun s => s.expenseId = folded.1)⟩

def logAll : List ActivityInput → DbTxn (List ActivityInput)
  | [] => pure []
  | event :: events => do
      let first ← log event
      let rest ← logAll events
      return first :: rest

/-- The revisions and events of the expenses to fold. -/
def reviseFolded (houseId claimerId : Uuid) (folded : List (Uuid × Expense)) :
    DbTxn (List ActivityInput) :=
  if folded = [] then pure []
  else do
    let foldedSplits ← .select fun v =>
      (v.db.splitRows.map Prod.snd).filter fun s => s.expenseId ∈ folded.map Prod.fst
    insertRevisions (folded.map (foldRevision claimerId foldedSplits))
    logAll (folded.map fun (e, expense) =>
      { houseId := houseId
        actorId := claimerId
        type := .expenseEdited
        entityType := .expense
        entityId := e
        payload := .expense expense.amountCents expense.description })

/-- The rows of the claimer, each with the placeholder's of the same expense. -/
def Db.foldPairs (d : Db) (placeholderId claimerId : Uuid) : List (Rid × Split) :=
  (d.splitsOfUser claimerId).flatMap fun mine =>
    ((d.splitsOfUser placeholderId).filter fun theirs =>
      theirs.2.expenseId = mine.2.expenseId).map fun theirs => (mine.1, theirs.2)

/-- `UPDATE expense_splits AS mine … FROM expense_splits AS theirs`. -/
def foldSplits (placeholderId claimerId : Uuid) : DbTxn Unit := do
  let pairs ← Txn.exec
    (fun v =>
      { notes := [.folding claimerId ((v.db.splitsOfUser placeholderId).map fun r => r.2.expenseId)]
        writes := {} })
    fun v => .ok (v.db.foldPairs placeholderId claimerId)
  let matched (d : Db) := pairs.filterMap fun (rid, theirs) =>
    ((d.split rid).filter fun mine => mine.userId = claimerId).map fun mine => (rid, mine, theirs)
  .exec (fun v =>
      { writes := { expenseSplits := (matched v.db).map fun (rid, mine, theirs) =>
          (rid, some (some { mine with amountCents := mine.amountCents + theirs.amountCents })) } })
    fun _ => .ok ()

/-- `DELETE FROM expense_splits AS theirs … AND EXISTS (…)`. -/
def sweepSplits (placeholderId claimerId : Uuid) : DbTxn Unit := do
  let found ← Txn.exec (fun _ => { notes := [.sweeping], writes := {} })
    fun v => .ok ((v.db.splitsOfUser placeholderId).filter fun theirs =>
      v.db.hasSplit theirs.2.expenseId claimerId)
  let matched (d : Db) := found.filter fun (rid, _) =>
    (d.split rid).any fun theirs => theirs.userId = placeholderId
  .exec (fun v =>
      { writes := { expenseSplits := (matched v.db).map fun r => (r.1, some none) } })
    fun _ => .ok ()

/-- `UPDATE expense_splits SET user_id = claimer WHERE user_id = placeholder`. -/
def reidentifySplits (placeholderId claimerId : Uuid) : DbTxn Unit := do
  let found ← .select fun v => v.db.splitsOfUser placeholderId
  let matched (d : Db) := found.filterMap fun (rid, _) =>
    ((d.split rid).filter fun s => s.userId = placeholderId).map fun s =>
      (rid, { s with userId := claimerId })
  .exec (fun v =>
      { locks := (matched v.db).map fun (_, s) => (.splitSlot s.expenseId claimerId, .exclusive)
        writes := { expenseSplits := (matched v.db).map fun (rid, s) => (rid, some (some s)) } })
    fun v =>
      if (matched v.db).any fun (_, s) => splitTaken v.db s then .error .uniqueViolation else .ok ()

/-- `UPDATE users SET deleted_at = … WHERE id = u`. -/
def softDeleteUser (userId : Uuid) : DbTxn Unit :=
  .exec (fun v =>
      { writes := { users := match v.db.users.lookup userId with
          | some user => [(userId, some { user with deletedAt := some v.now })]
          | none => [] } })
    fun _ => .ok ()

def claimHistory (houseId placeholderId claimerId : Uuid) : DbTxn (List ActivityInput) := do
  let folded ← selectFolded placeholderId claimerId
  let events ← reviseFolded houseId claimerId folded
  foldSplits placeholderId claimerId
  sweepSplits placeholderId claimerId
  reidentifySplits placeholderId claimerId
  updateMember houseId placeholderId (fun _ => true) fun now m =>
    { m with claimedBy := some claimerId, leftAt := some now, roomId := none }
  softDeleteUser placeholderId
  return events

/-! ## Section 3: Accepting invites -/

def noLongerValid : Err := .badRequest (js "This invite link is no longer valid")

def alreadyClaimed : Err := .badRequest
  (js "This placeholder was already claimed; ask your house admin for a fresh invite")

/-- `invite.revokedAt`, `expiresAt` and `uses` allow one more accept. -/
def Invite.usable (invite : Invite) (now : Millis) : Prop :=
  invite.revokedAt = none ∧ now ≤ invite.expiresAt ∧ invite.uses < invite.maxUses

instance (invite : Invite) (now : Millis) : Decidable (invite.usable now) :=
  inferInstanceAs (Decidable (_ ∧ _ ∧ _))

/-- `SELECT * FROM invites WHERE token_hash = … FOR UPDATE`, and its checks. -/
def lockInvite (env : Env) (token : JsString) : DbTxn (Uuid × Invite) :=
  let found (d : Db) := d.invites.rows.find? fun (_, i) => i.tokenHash = env.hashToken token
  .exec (fun v =>
      { locks := match found v.db with
          | some (id, _) => [(.invite id, .exclusive)]
          | none => []
        notes := [.clock v.now]
        writes := {} })
    fun v => match found v.db with
      | some (id, invite) => if invite.usable v.now then .ok (id, invite) else .error noLongerValid
      | none => .error noLongerValid

/-- `existing`: the membership row of the user, not locked. -/
def selectExisting (houseId userId : Uuid) : DbTxn (Option HouseMember) :=
  let found (d : Db) := d.houseMembers.lookup (houseId, userId)
  .exec (fun v =>
      { notes := if (found v.db).any fun m => m.leftAt.isSome then [.left houseId userId] else []
        writes := {} })
    fun v => .ok (found v.db)

/-- The placeholder's membership row, locked FOR UPDATE; its room. -/
def lockPlaceholder (houseId placeholderId : Uuid) : DbTxn (Option Uuid) :=
  let found (d : Db) := (d.houseMembers.lookup (houseId, placeholderId)).filter HouseMember.isPlaceholder
  .exec (fun v =>
      { locks := if (found v.db).isSome then [(.member houseId placeholderId, .exclusive)] else []
        writes := {} })
    fun v => match found v.db with
      | some m => if m.claimedBy = none ∧ m.leftAt = none then .ok m.roomId else .error alreadyClaimed
      | none => .error alreadyClaimed

/-- The foreign key of a `room_id` that is written. -/
def roomLocks (roomId : Option Uuid) : Locks LockKey :=
  match roomId with
  | some r => [(.room r, .shared)]
  | none => []

def roomExists (d : Db) (roomId : Option Uuid) : Bool :=
  roomId.all fun r => (d.rooms.lookup r).isSome

/-- `INSERT INTO house_members … ON CONFLICT DO NOTHING RETURNING`: whether
    a row was inserted. -/
def joinHouse (houseId userId : Uuid) (roomId : Option Uuid) (startedAt : Millis) : DbTxn Bool :=
  let member : HouseMember :=
    { role := .member
      displayName := none
      isPlaceholder := false
      claimedBy := none
      roomId := roomId
      joinedAt := startedAt
      leftAt := none }
  let conflict (d : Db) := (d.houseMembers.lookup (houseId, userId)).isSome
  .exec (fun v =>
      if conflict v.db then { writes := {} }
      else
        { locks := roomLocks roomId
          writes := { houseMembers := [((houseId, userId), some member)] } })
    fun v =>
      if conflict v.db then .ok false
      else if roomExists v.db roomId then .ok true
      else .error .foreignKeyViolation

/-- An update of a membership that sets its room. -/
def moveMember (houseId userId : Uuid) (roomId : Option Uuid) (matching : HouseMember → Bool)
    (set : Millis → HouseMember → HouseMember) : DbTxn Unit :=
  let hit (d : Db) := (d.houseMembers.lookup (houseId, userId)).filter matching
  .exec (fun v =>
      match hit v.db with
      | some m =>
          { locks := roomLocks roomId
            writes := { houseMembers := [((houseId, userId), some (set v.now m))] } }
      | none => { writes := {} })
    fun v =>
      if (hit v.db).isSome ∧ ¬ roomExists v.db roomId then .error .foreignKeyViolation else .ok ()

/-- The returning member (Y4). -/
def rejoin (roomId : Option Uuid) (now : Millis) (m : HouseMember) : HouseMember :=
  { m with leftAt := none, joinedAt := now, role := .member, roomId := roomId }

/-- Make the user a member. `some already` says whether somebody else had
    done so; `none` ends the accept without a change. -/
def becomeMember (invite : Invite) (userId : Uuid) (existing : Option HouseMember)
    (inheritedRoomId : Option Uuid) (startedAt : Millis) : DbTxn (Option Bool) :=
  match existing with
  | none => do
      let inserted ← joinHouse invite.houseId userId inheritedRoomId startedAt
      if inserted then return some false
      else return if invite.placeholderUserId = none then none else some true
  | some m =>
      if m.leftAt = none then pure (some true)
      else do
        moveMember invite.houseId userId inheritedRoomId (fun _ => true) (rejoin inheritedRoomId)
        return some false

/-- A claimer without a room takes the placeholder's. -/
def inheritRoom (houseId userId : Uuid) (inheritedRoomId : Option Uuid) : DbTxn Unit :=
  if inheritedRoomId.isSome then
    moveMember houseId userId inheritedRoomId
      (fun m => m.roomId = none && m.leftAt = none) fun _ m => { m with roomId := inheritedRoomId }
  else pure ()

/-- The claim of an accept: the room, the history and the event. -/
def claimPlaceholder (invite : Invite) (userId placeholderId : Uuid)
    (inheritedRoomId : Option Uuid) : DbTxn (List ActivityInput) := do
  inheritRoom invite.houseId userId inheritedRoomId
  let events ← claimHistory invite.houseId placeholderId userId
  let event ← log {
      houseId := invite.houseId
      actorId := userId
      type := .memberClaimed
      entityType := .member
      entityId := userId
      payload := .claimed placeholderId }
  return events ++ [event]

/-- `SET uses = uses + 1`, with the check against `max_uses`. -/
def consumeUse (inviteId : Uuid) : DbTxn Unit :=
  .exec (fun v =>
      { writes := { invites := match v.db.invites.lookup inviteId with
          | some invite => [(inviteId, some { invite with uses := invite.uses + 1 })]
          | none => [] } })
    fun v =>
      if (v.db.invites.lookup inviteId).any fun invite => invite.maxUses < invite.uses + 1 then
        .error .checkViolation
      else .ok ()

/-- What an accept returns: the house, whether the user was a member
    already, and the placeholder it claimed. -/
structure Accepted where
  houseId : Uuid
  alreadyMember : Bool
  claimedPlaceholderId : Option Uuid

/-- The claim, when the invite carries one. -/
def claimBound (invite : Invite) (userId : Uuid) (inheritedRoomId : Option Uuid) :
    DbTxn (List ActivityInput) :=
  match invite.placeholderUserId with
  | some placeholderId => claimPlaceholder invite userId placeholderId inheritedRoomId
  | none => pure []

def logJoined (houseId userId : Uuid) (alreadyMember : Bool) : DbTxn (List ActivityInput) :=
  if alreadyMember then pure []
  else logAll [{
      houseId := houseId
      actorId := userId
      type := .memberJoined
      entityType := .member
      entityId := userId }]

/-- The end of an accept that changes something. -/
def finishAccept (id : Uuid) (invite : Invite) (userId : Uuid) (inheritedRoomId : Option Uuid)
    (alreadyMember : Bool) : DbTxn (Accepted × List ActivityInput) := do
  let claimed ← claimBound invite userId inheritedRoomId
  consumeUse id
  let joined ← logJoined invite.houseId userId alreadyMember
  return (⟨invite.houseId, alreadyMember, invite.placeholderUserId⟩, claimed ++ joined)

/-- The placeholder of the invite, when it carries one. -/
def lockBound (invite : Invite) : DbTxn (Option Uuid) :=
  match invite.placeholderUserId with
  | some placeholderId => lockPlaceholder invite.houseId placeholderId
  | none => pure none

def acceptInviteTx (env : Env) (token : JsString) (userId : Uuid) (startedAt : Millis) :
    DbTxn (Accepted × List ActivityInput) := do
  let (id, invite) ← lockInvite env token
  let existing ← selectExisting invite.houseId userId
  if existing.any (fun m => m.leftAt = none) ∧ invite.placeholderUserId = none then
    return (⟨invite.houseId, true, none⟩, [])
  else do
    let inheritedRoomId ← lockBound invite
    let member ← becomeMember invite userId existing inheritedRoomId startedAt
    match member with
    | none => return (⟨invite.houseId, true, none⟩, [])
    | some alreadyMember => finishAccept id invite userId inheritedRoomId alreadyMember

def acceptInvite (env : Env) (token : JsString) (userId : Uuid) : DbProg :=
  transact (acceptInviteTx env token userId) fun
    | .ok r => .done (.success (.joined r.houseId r.alreadyMember r.claimedPlaceholderId))
    | .error err => .done (.failure err)

/-! ## Section 4: Previewing invites -/

/-- What `previewInvite` shows before the join button. -/
structure InvitePreview where
  houseId : Uuid
  houseName : JsString
  invitedByName : JsString
  expiresAt : Millis
  placeholderName : Option JsString
deriving DecidableEq

/-- The first select: the invite of the token, with its house and its creator. -/
def selectPreview (env : Env) (d : Db) (token : JsString) : Option (Invite × House × User) :=
  d.invites.rows.findSome? fun (_, invite) =>
    if invite.tokenHash = env.hashToken token then
      (d.houses.lookup invite.houseId).bind fun house =>
        (d.users.lookup invite.createdBy).map fun creator => (invite, house, creator)
    else none

/-- The second select: the membership of the placeholder, with its user. -/
def selectPlaceholder (d : Db) (houseId placeholderId : Uuid) : Option (HouseMember × User) :=
  (d.houseMembers.lookup (houseId, placeholderId)).bind fun m =>
    (d.users.lookup placeholderId).map fun user => (m, user)

def previewInvite (env : Env) (token : JsString) :
    Prog Db Writes LockKey Note Hint (Except Err InvitePreview) :=
  .query fun v => match selectPreview env v.db token with
    | none => .done (.error noLongerValid)
    | some (invite, house, creator) =>
        if ¬ invite.usable v.now then .done (.error noLongerValid)
        else
          let preview (placeholderName : Option JsString) : InvitePreview :=
            ⟨invite.houseId, house.name, creator.name, invite.expiresAt, placeholderName⟩
          match invite.placeholderUserId with
          | none => .done (.ok (preview none))
          | some placeholderId => .query fun v =>
              match selectPlaceholder v.db invite.houseId placeholderId with
              | none => .done (.error noLongerValid)
              | some (m, user) =>
                  if m.claimedBy ≠ none then .done (.error noLongerValid)
                  else .done (.ok (preview (some (m.displayName.getD user.name))))

end Homi
