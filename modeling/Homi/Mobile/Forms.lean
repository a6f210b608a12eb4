import Homi.Framework.Encoding
import Homi.System

/-! # The money forms of the app

  `AddExpenseForm` (`apps/mobile/src/expenses/AddExpenseScreen.tsx`) and
  `SettleUpForm` (`apps/mobile/src/settle/SettleUpScreen.tsx`), with the
  key of their pending request (`apps/mobile/src/api/idempotency.ts`) and
  the network between them and the server.

  The fields of a form matter only for the input that a tap would send. An
  edit may leave any input there, or none where the form cannot be
  submitted. A request that was sent arrives once, late, or never; so does
  its response.
-/

namespace Homi.Mobile

open ReadCommitted Encoding

/-! ## Section 1: Bodies -/

/-- `JSON.stringify` of an object with these members. A member that is
    `undefined` is left out. -/
def stringifyMembers (members : List (JsString × Option JsString)) : JsString :=
  let texts := members.filterMap fun (name, value) => value.map fun v => Json.quote name ++ 58 :: v
  123 :: [44].intercalate texts ++ [125]

/-- `JSON.stringify` of an array. -/
def stringifyItems (items : List JsString) : JsString := 91 :: [44].intercalate items ++ [93]

/-- A mode as its text. The app offers the first two. -/
def modeText : SplitMode → JsString
  | .equal => js "equal"
  | .exact => js "exact"
  | .percent => js "percent"
  | .room_weighted => js "room_weighted"

/-- The input of `createExpense`. -/
structure CreateExpenseInput where
  description : JsString
  amountCents : ℤ
  paidBy : JsString
  mode : SplitMode
  participants : List JsString
  exactCents : Option (List (JsString × ℤ)) := none

def CreateExpenseInput.stringify (input : CreateExpenseInput) : JsString := stringifyMembers [
  (js "description", some (Json.quote input.description)),
  (js "amountCents", some (JsString.decimal input.amountCents)),
  (js "paidBy", some (Json.quote input.paidBy)),
  (js "mode", some (Json.quote (modeText input.mode))),
  (js "participants", some (stringifyItems (input.participants.map Json.quote))),
  (js "exactCents", input.exactCents.map fun shares =>
    stringifyMembers (shares.map fun (id, cents) => (id, some (JsString.decimal cents))))]

/-- The body as the server parses it. -/
def CreateExpenseInput.parsed (input : CreateExpenseInput) : Homi.CreateExpenseInput where
  description := input.description
  amountCents := input.amountCents
  paidBy := input.paidBy
  mode := input.mode
  participants := input.participants
  exactCents := input.exactCents.map fun shares =>
    shares.foldl (fun r (id, cents) => r.insert id (JsNumber.int cents)) ∅

/-- The input of `recordPayment`. -/
structure RecordPaymentInput where
  toUser : JsString
  amountCents : ℤ
  method : Option JsString := none

def RecordPaymentInput.stringify (input : RecordPaymentInput) : JsString := stringifyMembers [
  (js "toUser", some (Json.quote input.toUser)),
  (js "amountCents", some (JsString.decimal input.amountCents)),
  (js "method", input.method.map Json.quote)]

def RecordPaymentInput.parsed (input : RecordPaymentInput) : Homi.RecordPaymentInput where
  toUser := input.toUser
  amountCents := input.amountCents
  method := input.method

/-! ## Section 2: Keys -/

structure PendingRequest where
  key : JsString
  body : JsString
deriving DecidableEq

/-- Reuses `pending` when the body is unchanged, otherwise takes the minted
    key. `serialized` is `JSON.stringify(body)`. -/
def bindIdempotencyKey (pending : Option PendingRequest) (serialized mint : JsString) :
    PendingRequest :=
  match pending with
  | some p => if p.body = serialized then p else ⟨mint, serialized⟩
  | none => ⟨mint, serialized⟩

def IDEMPOTENCY_CONFLICT : ℕ := 409

/-- The status of an error response. -/
def status : Err → ℕ
  | .badRequest _ => 400
  | .forbidden _ => 403
  | .notFound _ => 404
  | .conflict _ => 409
  | _ => 500

/-! ## Section 3: Forms -/

/-- What differs between the two forms. -/
structure Form (β : Type) where
  stringify : β → JsString
  request : JsString → β → Call

def AddExpenseForm (houseId : JsString) (viewerId : Uuid) : Form CreateExpenseInput where
  stringify := CreateExpenseInput.stringify
  request key input := .createExpense houseId viewerId key input.parsed

def SettleUpForm (houseId : JsString) (viewerId : Uuid) : Form RecordPaymentInput where
  stringify := RecordPaymentInput.stringify
  request key input := .recordPayment houseId viewerId key input.parsed

/-- A request that was sent, and the process that serves it once it has
    arrived. -/
structure Sent (β : Type) where
  request : PendingRequest
  input : β
  pid : Option ℕ

/-- A mounted form and its server. `awaited` is the request whose response
    the form waits for while it is busy, `closed` that it has had a success. -/
structure FormState (β : Type) where
  server : HomiState
  input : Option β
  pending : Option PendingRequest
  awaited : Option ℕ
  sent : List (Sent β)
  closed : Bool

/-- What can happen next. -/
inductive FormAction (β : Type) where
  | server (a : Action Call)
  | edit (input : Option β)
  | submit (mint : JsString)
  | arrive (i : ℕ)
  | respond
  | unreachable

section steps

variable {β : Type}

/-- A form on a server. -/
def mounted (server : HomiState) : FormState β where
  server := server
  input := none
  pending := none
  awaited := none
  sent := []
  closed := false

/-- A tap, with the key that `newIdempotencyKey` would return. -/
def FormState.submit (form : Form β) (s : FormState β) (mint : JsString) : Option (FormState β) :=
  if s.closed || s.awaited.isSome then none
  else s.input.map fun input =>
    let pending := bindIdempotencyKey s.pending (form.stringify input) mint
    { s with
      pending := some pending
      awaited := some s.sent.length
      sent := s.sent ++ [⟨pending, input, none⟩] }

/-- The awaited response is there. -/
def FormState.receive (s : FormState β) : Reply → Option (FormState β)
  | .success _ => some { s with pending := none, awaited := none, closed := true }
  | .failure err => some { s with
      awaited := none
      pending := if status err = IDEMPOTENCY_CONFLICT then none else s.pending }
  | .stopped => none

/-- The reply of the server to the request that the form waits for. -/
def FormState.reply (s : FormState β) : Option Reply := do
  let x ← s.sent[← s.awaited]?
  let pr ← s.server.procs[← x.pid]?
  match pr.prog with
  | .done r => some r
  | _ => none

/-- One step. The server goes on by itself, and with calls of others. -/
def formStep (env : Env) (form : Form β) (s : FormState β) : FormAction β → Option (FormState β)
  | .server a => (step (homi env) s.server a).map fun server => { s with server := server }
  | .edit input => some { s with input := input }
  | .submit mint => s.submit form mint
  | .arrive i => do
      let x ← s.sent[i]?
      if x.pid.isSome then none
      else
        let server ← step (homi env) s.server (.start (form.request x.request.key x.input))
        return { s with
          server := server
          sent := s.sent.set i { x with pid := some s.server.procs.length } }
  | .respond => s.reply.bind s.receive
  | .unreachable => if s.awaited.isSome then some { s with awaited := none } else none

/-- States after runs from a mount, on a server in any state, whose steps
    all meet `ok`. -/
inductive FormRun (env : Env) (form : Form β) (ok : FormState β → FormAction β → Prop) :
    FormState β → Prop where
  | mount {server : HomiState} (h : HomiReachable env server) : FormRun env form ok (mounted server)
  | step {s s' : FormState β} (a : FormAction β) (h : FormRun env form ok s) (hok : ok s a)
      (hstep : formStep env form s a = some s') : FormRun env form ok s'

/-- Take steps one after the other, as long as they pass `check`. -/
def formDrive (env : Env) (form : Form β) (check : FormState β → FormAction β → Bool)
    (s : FormState β) : List (FormAction β) → Option (FormState β)
  | [] => some s
  | a :: as =>
      if check s a then (formStep env form s a).bind fun s' => formDrive env form check s' as else none

theorem FormRun.drive {env : Env} {form : Form β} {ok : FormState β → FormAction β → Prop}
    {check : FormState β → FormAction β → Bool} (hcheck : ∀ s a, check s a = true → ok s a)
    {s s' : FormState β} {as : List (FormAction β)} (h : FormRun env form ok s)
    (hs : formDrive env form check s as = some s') : FormRun env form ok s' := by
  induction as generalizing s with
  | nil => cases hs; exact h
  | cons a as ih =>
    rw [formDrive] at hs
    split at hs
    · next ha =>
      obtain ⟨s₁, hstep, hrest⟩ := Option.bind_eq_some_iff.mp hs
      exact ih (.step a h (hcheck s a ha) hstep) hrest
    · cases hs

end steps

end Homi.Mobile
