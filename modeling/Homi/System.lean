import Homi.Api.Invites
import Homi.Worker.PostDueBills
import Mathlib.Tactic.IntervalCases

/-! # The system

  All mutations of the API and the worker's posting run, over one database
  that starts empty. A request carries the user of its session, and only
  users with an account (an email address) have sessions.
-/

namespace Homi

open ReadCommitted

/-- One request to a mutating route, or one run of the worker. -/
inductive Call where
  | signUp (email name : JsString)
  | createHouse (userId : Uuid) (input : CreateHouseInput)
  | createPlaceholder (houseId : JsString) (userId : Uuid) (name : JsString)
  | setDisplayName (houseId : JsString) (userId : Uuid) (displayName : Option JsString)
  | setRooms (houseId : JsString) (userId : Uuid) (rooms : List RoomInput)
  | createInvite (houseId : JsString) (userId : Uuid) (placeholderId : Option JsString)
  | acceptInvite (token : JsString) (userId : Uuid)
  | createExpense (houseId : JsString) (userId : Uuid) (key : JsString) (input : CreateExpenseInput)
  | editExpense (expenseId : JsString) (userId : Uuid) (key : JsString) (input : EditExpenseInput)
  | recordPayment (houseId : JsString) (userId : Uuid) (key : JsString) (input : RecordPaymentInput)
  | disputePayment (paymentId : JsString) (userId : Uuid)
  | resolvePayment (paymentId : JsString) (userId : Uuid)
  | createBill (houseId : JsString) (userId : Uuid) (key : JsString) (input : CreateBillInput)
  | setActive (houseId billId : JsString) (userId : Uuid) (active : Bool)
  | postDueBills (now : Millis)

/-- The user of the session. -/
def Call.user? : Call → Option Uuid
  | .signUp _ _ => none
  | .createHouse u _ => some u
  | .createPlaceholder _ u _ => some u
  | .setDisplayName _ u _ => some u
  | .setRooms _ u _ => some u
  | .createInvite _ u _ => some u
  | .acceptInvite _ u => some u
  | .createExpense _ u _ _ => some u
  | .editExpense _ u _ _ => some u
  | .recordPayment _ u _ _ => some u
  | .disputePayment _ u => some u
  | .resolvePayment _ u => some u
  | .createBill _ u _ _ => some u
  | .setActive _ _ u _ => some u
  | .postDueBills _ => none

/-- The user has signed up. -/
def hasAccount (d : Db) (userId : Uuid) : Bool :=
  (d.users.lookup userId).any fun u => u.email.isSome

def admits (d : Db) (c : Call) : Bool := c.user?.all (hasAccount d)

/-- The routes: guards, then pipes, then the schema of the body, then the
    service. -/
def route (env : Env) : Call → DbProg
  | .signUp email name => signUp env email name
  | .createHouse u input => parseBody (createHouseSchema input) (createHouse env u input)
  | .createPlaceholder h u name =>
      houseMemberGuard h u (parseBody (createPlaceholderSchema name) (createPlaceholder env h u name))
  | .setDisplayName h u displayName =>
      houseMemberGuard h u (parseBody (setDisplayNameSchema displayName) (setDisplayName h u displayName))
  | .setRooms h u rooms =>
      houseMemberGuard h u (parseBody (setRoomsSchema rooms) (setRooms env h u rooms))
  | .createInvite h u placeholderId =>
      houseMemberGuard h u
        (parseBody (createInviteSchema placeholderId) (createInvite env h u placeholderId))
  | .acceptInvite token u => acceptInvite env token u
  | .createExpense h u key input =>
      houseMemberGuard h u (idempotencyKey key
        (parseBody (createExpenseSchema input) (createExpense env h u key input)))
  | .editExpense e u key input =>
      uuidPipe (js "expenseId") e (idempotencyKey key
        (parseBody (editExpenseSchema input) (editExpense env e u key input)))
  | .recordPayment h u key input =>
      houseMemberGuard h u (idempotencyKey key
        (parseBody (recordPaymentSchema input) (recordPayment env h u key input)))
  | .disputePayment p u => uuidPipe (js "paymentId") p (disputePayment p u)
  | .resolvePayment p u => uuidPipe (js "paymentId") p (resolvePayment p u)
  | .createBill h u key input =>
      houseMemberGuard h u (idempotencyKey key
        (parseBody (createBillSchema input) (createBill env h u key input)))
  | .setActive h b u active =>
      houseMemberGuard h u (uuidPipe (js "billId") b (setActive env h b u active))
  | .postDueBills now => postDueBills env now

/-- The API, the worker and the database. -/
def homi (env : Env) : System Db Writes LockKey Note Hint Reply Call where
  code := route env
  admits := admits
  killed := .stopped
  init := Db.empty

/-- The same system, started on the database `d`. -/
def homiFrom (env : Env) (d : Db) : System Db Writes LockKey Note Hint Reply Call :=
  { homi env with init := d }

/-- States of the whole system. -/
abbrev HomiState : Type := State Db Writes LockKey Note Hint Reply Call

abbrev HomiCommit : Type := Commit Db Writes LockKey Note Call

/-- Every state of every run. -/
abbrev HomiReachable (env : Env) : HomiState → Prop := Reachable (homi env)

/-! ## A world to run it in -/

/-- A hexadecimal digit. -/
def hexUnit (n : ℕ) : CodeUnit := Fin.ofNat 65536 (if n < 10 then 48 + n else 87 + n)

theorem hexUnit_val {n : ℕ} (h : n < 16) :
    (hexUnit n : ℕ) = if n < 10 then 48 + n else 87 + n := by
  unfold hexUnit
  simp only [Fin.val_ofNat]
  split <;> omega

theorem hexUnit_inj {m n : ℕ} (hm : m < 16) (hn : n < 16) (h : hexUnit m = hexUnit n) : m = n := by
  have hval := congrArg Fin.val h
  rw [hexUnit_val hm, hexUnit_val hn] at hval
  split at hval <;> split at hval <;> omega

/-- The `n`th identifier of `sampleEnv`. The first 256 look like uuids. -/
def sampleUuid (n : ℕ) : Uuid :=
  hexUnit (n % 256 / 16) :: hexUnit (n % 16) ::
    (js "000000-0000-4000-8000-000000000000" ++ List.replicate (n / 256) 48)

theorem sampleUuid_inj : Function.Injective sampleUuid := by
  intro m n h
  obtain ⟨hhigh, hrest⟩ := List.cons.inj h
  obtain ⟨hlow, htail⟩ := List.cons.inj hrest
  have hlen := congrArg List.length htail
  simp only [List.length_append, List.length_replicate, Nat.add_left_cancel_iff] at hlen
  have h1 := hexUnit_inj (by omega) (by omega) hhigh
  have h2 := hexUnit_inj (by omega) (by omega) hlow
  omega

theorem lowerUnit_hexUnit {n : ℕ} (h : n < 16) : lowerUnit (hexUnit n) = hexUnit n := by
  interval_cases n <;> decide

theorem toUuid_sampleUuid (n : ℕ) : toUuid (sampleUuid n) = sampleUuid n := by
  have hhigh := lowerUnit_hexUnit (show n % 256 / 16 < 16 by omega)
  have hlow := lowerUnit_hexUnit (show n % 16 < 16 by omega)
  have htail : (js "000000-0000-4000-8000-000000000000").map lowerUnit =
      js "000000-0000-4000-8000-000000000000" := by decide
  simp only [toUuid, sampleUuid, List.map_cons, List.map_append, List.map_replicate, hhigh, hlow,
    htail, show lowerUnit 48 = 48 by decide]

theorem bar_notMem_sampleUuid (n : ℕ) : bar ∉ sampleUuid n := by
  have hhex : ∀ k < 16, bar ≠ hexUnit k := by
    intro k hk
    interval_cases k <;> decide
  have htail : bar ∉ js "000000-0000-4000-8000-000000000000" := by decide
  simp only [sampleUuid, List.mem_cons, List.mem_append, List.mem_replicate, not_or]
  exact ⟨hhex _ (by omega), hhex _ (by omega), htail, fun h => absurd h.2 (by decide)⟩

/-- A stand-in for `hashRequest` that tells the bodies of one route apart by
    their texts and amounts. -/
def sampleHash : Scope → JsString
  | .createExpense h input => h ++ input.description ++ JsString.decimal input.amountCents
  | .editExpense e input => e ++ input.description ++ JsString.decimal input.amountCents
  | .recordPayment h input => h ++ input.toUser ++ JsString.decimal input.amountCents
  | .createBill h input => h ++ input.description ++ JsString.decimal input.amountCents

/-- An outside world whose only timezone is UTC. -/
def sampleEnv : Env where
  uuid := sampleUuid
  uuid_inj := sampleUuid_inj
  toUuid_uuid := toUuid_sampleUuid
  bar_notMem_uuid := bar_notMem_sampleUuid
  hashRequest := sampleHash
  hashToken t := js "sha256:" ++ t
  randomToken n := js "token-" ++ JsString.decimal n
  inviteLinkOrigin := js "https://homi.app"
  formatDate timezone now :=
    if timezone = js "UTC" then .ok (utcDate now)
    else .error (js "RangeError: Invalid time zone specified: " ++ timezone)

end Homi
