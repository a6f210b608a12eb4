import Homi.Api.Requests

/-! # Database client

  What every service shares: the outside world (`Env`), the errors a
  transaction can end with, and the transactions and programs over the
  database of `Db.Schema`.

  Foreign keys are modelled where they can fail or make a statement wait:
  on `rooms`, whose rows are deleted, and on `expenses`, whose rows are
  locked `FOR UPDATE`. No other referenced row is deleted or so locked.
-/

namespace Homi

open ReadCommitted

/-! ## Section 1: The outside world -/

/-- What the code takes from outside: `defaultRandom()` ids, which never
    repeat, hashes and random tokens, and `Intl.DateTimeFormat`, which
    throws on a timezone it does not know. -/
structure Env where
  uuid : ℕ → Uuid
  uuid_inj : Function.Injective uuid
  toUuid_uuid : ∀ n, toUuid (uuid n) = uuid n
  bar_notMem_uuid : ∀ n, bar ∉ uuid n
  hashRequest : Scope → JsString
  hashToken : JsString → JsString
  randomToken : ℕ → JsString
  inviteLinkOrigin : JsString
  formatDate : JsString → Millis → Except JsString JsString

def todayInTimezone (env : Env) (timezone : JsString) (now : Millis) :
    Except ScheduleError JsString :=
  match env.formatDate timezone now with
  | .ok today => .ok today
  | .error err => .error (.timezone timezone err)

/-! ## Section 2: Errors -/

/-- The roles that `lockActingMember` names in its messages. -/
inductive Acting where
  | billOwner
  | recipient
deriving DecidableEq, Repr

def Acting.subject : Acting → JsString
  | .billOwner => js "Bill owner"
  | .recipient => js "Recipient"

def Acting.verb : Acting → JsString
  | .billOwner => js "own a bill"
  | .recipient => js "receive payments"

/-- `PostingProblem`, one constructor for each `throw`. -/
inductive PostingProblem where
  | notActive (who : Acting)
  | placeholderActs (who : Acting)
  | notMembers
  | placeholderPays
  | weightsSent
  | noRoom
  | ownerLeft
  | nobodyActive
deriving DecidableEq, Repr

def PostingProblem.message : PostingProblem → JsString
  | .notActive who => who.subject ++ js " must be an active house member"
  | .placeholderActs who => js "A placeholder roommate cannot " ++ who.verb
  | .notMembers => js "Payer and all participants must be active house members"
  | .placeholderPays => js "A placeholder roommate cannot pay an expense"
  | .weightsSent => js "room_weighted splits are derived from rooms; do not send weightsBp"
  | .noRoom => js "Every participant needs a room for a room-weighted split"
  | .ownerLeft => js "the bill owner is no longer a house member"
  | .nobodyActive => js "the house has no active members"

/-- Everything that the modelled code throws. -/
inductive Err where
  | badRequest (message : JsString)
  | forbidden (message : JsString)
  | notFound (message : JsString)
  | conflict (message : JsString)
  | posting (problem : PostingProblem)
  | split (err : SplitError JsString)
  | schedule (err : ScheduleError)
  | uniqueViolation
  | checkViolation
  | foreignKeyViolation
  | internal (message : JsString)
deriving DecidableEq

def isUniqueViolation : Err → Bool
  | .uniqueViolation => true
  | _ => false

/-- `err.message`. A database error has no text in the model. -/
def Err.message : Err → JsString
  | .badRequest message | .forbidden message | .notFound message | .conflict message
  | .internal message => message
  | .posting problem => problem.message
  | .split err => err.message id
  | .schedule err => err.message
  | .uniqueViolation | .checkViolation | .foreignKeyViolation => []

def throwPostingProblemAs400 : Err → Err
  | .posting problem => .badRequest problem.message
  | .split err => .badRequest (err.message id)
  | err => err

/-! ## Section 3: Transactions and programs -/

/-- What statements record about what they read.

    * `snapshot e`: the transaction read expense `e` for a revision.
    * `folding u es`: the claim of `u` took the snapshot of its fold, where
      the placeholder had splits in the expenses `es`.
    * `sweeping`: the claim took the snapshot of its delete.
    * `clock now`: the transaction read the clock.
    * `left h u`: the accept of `u` read that the member has left `h`.
    * `checked h us`: a room configuration found `us` to be active members
      of `h`. -/
inductive Note where
  | snapshot (expenseId : Uuid)
  | folding (claimerId : Uuid) (expenseIds : List Uuid)
  | sweeping
  | clock (now : Millis)
  | left (houseId userId : Uuid)
  | checked (houseId : Uuid) (userIds : List Uuid)
deriving DecidableEq

/-- What a service logs; ids are spelled as the service has them. -/
structure ActivityInput where
  houseId : JsString
  actorId : Uuid
  type : EventType
  entityType : EntityType
  entityId : JsString
  payload : Payload := .none

/-- The row that `log` inserts. -/
def ActivityInput.row (event : ActivityInput) : ActivityEvent where
  houseId := toUuid event.houseId
  actorId := event.actorId
  type := event.type
  entityType := event.entityType
  entityId := toUuid event.entityId
  payload := event.payload

/-- A realtime hint, less its time stamp, with the house it is published for. -/
structure Hint where
  houseId : JsString
  type : EventType
  entityType : EntityType
  entityId : JsString
deriving DecidableEq

def ActivityInput.hint (event : ActivityInput) : Hint :=
  ⟨event.houseId, event.type, event.entityType, event.entityId⟩

structure Posted where
  templateId : Uuid
  expenseId : Uuid
  period : JsString
deriving DecidableEq

structure PostDueBillsResult where
  posted : List Posted := []
  alreadyPosted : List (Uuid × JsString) := []
  paused : List (Uuid × JsString) := []
deriving DecidableEq

/-- What a call returns when it succeeds. -/
inductive Outcome where
  | response (response : StoredResponse)
  | user (id : Uuid)
  | house (id : Uuid) (house : House)
  | placeholder (userId : Uuid) (name : JsString)
  | displayName (displayName : Option JsString)
  | rooms (created : List (Uuid × Room))
  | invite (url : JsString) (expiresAt : Millis) (maxUses : ℕ) (placeholderUserId : Option Uuid)
  | joined (houseId : Uuid) (alreadyMember : Bool) (claimedPlaceholderId : Option Uuid)
  | payment (id : Uuid) (payment : Payment)
  | bill (id : Uuid) (bill : BillTemplate)
  | run (result : PostDueBillsResult)
deriving DecidableEq

/-- How a call ends. `stopped` is a call whose process died. -/
inductive Reply where
  | success (outcome : Outcome)
  | failure (err : Err)
  | stopped
deriving DecidableEq

def Reply.ofExcept : Except Err Outcome → Reply
  | .ok outcome => .success outcome
  | .error err => .failure err

abbrev DbTxn (α : Type) : Type := Txn Db Writes LockKey Note Err α

abbrev DbProg : Type := Prog Db Writes LockKey Note Hint Reply

/-- `BEGIN`; `now()` keeps this clock reading for the whole transaction. -/
def begin : DbTxn Millis := .select View.now

/-- `new Date()` inside a transaction. -/
def clock : DbTxn Millis :=
  .exec (fun v => { notes := [.clock v.now], writes := {} }) fun v => .ok v.now

/-- `if (bad) throw err`. -/
def reject (bad : Prop) [Decidable bad] (err : Err) : DbTxn Unit :=
  if bad then .throw err else .ret ()

/-- Lift a domain computation. -/
def liftSplit {α : Type} : Except (SplitError JsString) α → DbTxn α
  | .ok a => .ret a
  | .error err => .throw (.split err)

def liftSchedule {α : Type} : Except ScheduleError α → DbTxn α
  | .ok a => .ret a
  | .error err => .throw (.schedule err)

/-- `ActivityService.transact`: run `fn` in a transaction, then publish
    what it logged. -/
def transact {α : Type} (fn : Millis → DbTxn (α × List ActivityInput))
    (next : Except Err α → DbProg) : DbProg :=
  (do fn (← begin)).transact fun
    | .ok (result, logged) => .emitAll (logged.map ActivityInput.hint) (next (.ok result))
    | .error err => next (.error err)

/-- `log`, which also returns the event. -/
def log (event : ActivityInput) : DbTxn ActivityInput :=
  .exec (fun _ => { writes := { activityEvents := [event.row] } }) fun _ => .ok event

end Homi
