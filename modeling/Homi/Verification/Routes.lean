import Homi.System

/-! # Routes

  One walk over all programs. A property of programs that holds of every
  reply and passes through plain reads and through the transactions of a
  call holds of the route of the call.
-/

namespace Homi

open ReadCommitted

/-! ## Section 1: Rules -/

/-- The property holds of every failure and passes through plain reads. -/
structure Refuses (G : DbProg → Prop) : Prop where
  fail : ∀ err, G (.done (.failure err))
  query : ∀ next : View Db → DbProg, (∀ v, G (next v)) → G (.query next)

/-- The property holds of every reply and passes through plain reads. -/
structure Closed (G : DbProg → Prop) : Prop extends Refuses G where
  done : ∀ r, G (.done r)
  fail := fun _ => done _

section rules

variable (G : DbProg → Prop) {α : Type}

/-- The property passes through a transaction that publishes what it logs. -/
def Passes (fn : Millis → DbTxn (α × List ActivityInput)) : Prop :=
  ∀ next : Except Err α → DbProg, (∀ r, G (next r)) → G (transact fn next)

/-- The property passes through a transaction that publishes nothing. -/
def PassesBare (m : DbTxn α) : Prop :=
  ∀ next : Except Err α → DbProg, (∀ r, G (next r)) → G (m.transact next)

/-- The property passes through all that the worker does for a bill. -/
structure BillRules (env : Env) (bill : DueBill) : Prop where
  post : ∀ dueISO advanced (next : Except Err (Uuid × JsString) → DbProg), (∀ r, G (next r)) →
    G (postOne env bill dueISO advanced next)
  advance : ∀ nextRun matching, PassesBare G (advanceBill bill.id nextRun matching)
  pause : ∀ reason next, G next → G (pause bill reason next)

/-- The property passes through all transactions of the call. -/
def Handles (env : Env) : Call → Prop
  | .signUp email name => PassesBare G (signUpTx env email name)
  | .createHouse u input => Passes G (createHouseTx env u input)
  | .createPlaceholder h u name => Passes G (createPlaceholderTx env h u name)
  | .setDisplayName h u displayName => Passes G (setDisplayNameTx h u displayName)
  | .setRooms h u rooms => Passes G (setRoomsTx env h u rooms)
  | .createInvite h u placeholderId => ∀ expiresAt,
      PassesBare G (createInviteTx env (toUuid h) u (placeholderId.map toUuid) expiresAt)
  | .acceptInvite token u => Passes G (acceptInviteTx env token u)
  | .createExpense h u key input => Passes G (createExpenseTx env h u input
      (store ⟨toUuid key, u, .createExpense⟩ (env.hashRequest (.createExpense h input))))
  | .editExpense e u key input => Passes G (editExpenseTx e u input
      (store ⟨toUuid key, u, .editExpense⟩ (env.hashRequest (.editExpense e input))))
  | .recordPayment h u key input => Passes G (recordPaymentTx env h u input
      (store ⟨toUuid key, u, .recordPayment⟩ (env.hashRequest (.recordPayment h input))))
  | .disputePayment id u => Passes G (disputePaymentTx id u)
  | .resolvePayment id u => Passes G (resolvePaymentTx id u)
  | .createBill h u key input => Passes G (createBillTx env h u input
      (store ⟨toUuid key, u, .createBill⟩ (env.hashRequest (.createBill h input))))
  | .setActive h b u active => Passes G (setActiveTx env h b u active)
  | .postDueBills _ => ∀ bill, BillRules G env bill

end rules

/-! ## Section 2: Guards and keys -/

section guards

variable {G : DbProg → Prop}

section refuses

variable (hG : Refuses G)
include hG

theorem Refuses.houseMemberGuard {h : JsString} {u : Uuid} {next : DbProg} (hnext : G next) :
    G (houseMemberGuard h u next) := by
  unfold Homi.houseMemberGuard
  split
  · refine hG.query _ fun v => ?_
    split
    · exact hnext
    · exact hG.fail _
  · exact hG.fail _

theorem Refuses.uuidPipe {name value : JsString} {next : DbProg} (hnext : G next) :
    G (uuidPipe name value next) := by
  unfold Homi.uuidPipe
  split
  · exact hnext
  · exact hG.fail _

theorem Refuses.idempotencyKey {key : JsString} {next : DbProg} (hnext : G next) :
    G (idempotencyKey key next) := by
  unfold Homi.idempotencyKey
  split
  · exact hnext
  · exact hG.fail _

theorem Refuses.parseBody {ok : Bool} {next : DbProg} (hnext : G next) : G (parseBody ok next) := by
  unfold Homi.parseBody
  split
  · exact hnext
  · exact hG.fail _

end refuses

variable (hG : Closed G)
include hG

theorem Closed.respond (r : Except Err StoredResponse) : G (respond r) := by
  cases r <;> exact hG.done _

theorem Closed.withIdempotency {id : KeyId} {hash : JsString}
    {fn : (StoredResponse → DbTxn Unit) → Millis → DbTxn (StoredResponse × List ActivityInput)}
    (h : Passes G (fn (store id hash))) :
    G (withIdempotency id hash fun store next => transact (fn store) next) := by
  refine hG.query _ fun v => ?_
  split
  · exact hG.respond _
  · exact hG.respond _
  · refine h _ fun r => ?_
    cases r with
    | ok response => exact hG.respond _
    | error err =>
      dsimp only
      split
      · refine hG.query _ fun v => ?_
        split <;> exact hG.respond _
      · exact hG.respond _

/-! ## Section 3: The worker -/

variable {env : Env}

/-- The rules for a bill, where the dates that it advances to are its due
    dates. -/
structure DueRules (G : DbProg → Prop) (env : Env) (bill : DueBill) : Prop where
  post : ∀ dueISO advanced (next : Except Err (Uuid × JsString) → DbProg),
    nextDueDate bill.template.cadence bill.template.cadenceDay dueISO = .ok advanced →
    (∀ r, G (next r)) → G (postOne env bill dueISO advanced next)
  advance : ∀ dueISO advanced,
    nextDueDate bill.template.cadence bill.template.cadenceDay dueISO = .ok advanced →
    PassesBare G (advanceBill bill.id advanced fun t => t.nextRun = dueISO)
  pause : ∀ reason next, G next → G (pause bill reason next)

omit hG in
theorem BillRules.due {bill : DueBill} (h : BillRules G env bill) : DueRules G env bill where
  post dueISO advanced next _ hnext := h.post dueISO advanced next hnext
  advance _ advanced _ := h.advance advanced _
  pause := h.pause

omit hG in
theorem passes_postPeriods (hdone : ∀ r, G (.done r)) {bill : DueBill} (hbill : DueRules G env bill)
    {today : JsString} {n : ℕ} {dueISO : JsString} {result : PostDueBillsResult}
    {next : PostDueBillsResult → DbProg} (hnext : ∀ result, G (next result)) :
    G (postPeriods env bill today n dueISO result next) := by
  induction n generalizing dueISO result with
  | zero => exact hnext result
  | succ n ih =>
    unfold postPeriods
    split
    · exact hnext result
    · split
      · exact hdone _
      · next advanced hadvanced =>
        refine hbill.post _ _ _ hadvanced fun r => ?_
        cases r with
        | ok r => exact ih
        | error err =>
          dsimp only
          split
          · refine hbill.advance _ _ hadvanced _ fun r => ?_
            cases r with
            | error err => exact hdone _
            | ok _ =>
              dsimp only
              split
              · exact hdone _
              · exact ih
          · split
            · exact hbill.pause _ _ (hnext _)
            · exact hdone _

omit hG in
/-- The run after its scan reads nothing outside transactions. -/
theorem passes_postBills (hdone : ∀ r, G (.done r)) {now : Millis} {bills : List DueBill}
    {result : PostDueBillsResult} (hbills : ∀ bill ∈ bills, DueRules G env bill) :
    G (postBills env now bills result) := by
  induction bills generalizing result with
  | nil => exact hdone _
  | cons bill bills ih =>
    have hrest : ∀ result, G (postBills env now bills result) :=
      fun _ => ih fun b hb => hbills b (List.mem_cons_of_mem _ hb)
    unfold postBills
    split
    · exact (hbills bill (List.mem_cons_self ..)).pause _ _ (hrest _)
    · exact passes_postPeriods hdone (hbills bill (List.mem_cons_self ..)) hrest

theorem Closed.postDueBills {now : Millis} (hbills : ∀ bill, BillRules G env bill) :
    G (postDueBills env now) := by
  unfold Homi.postDueBills
  split
  · exact hG.done _
  · exact hG.query _ fun v => passes_postBills hG.done fun bill _ => (hbills bill).due

end guards

/-! ## Section 4: All routes -/

/-- The house and the user of a route behind `HouseMemberGuard`. -/
def Call.guard? : Call → Option (JsString × Uuid)
  | .createPlaceholder h u _ | .setDisplayName h u _ | .setRooms h u _ | .createInvite h u _
  | .createExpense h u _ _ | .recordPayment h u _ _ | .createBill h u _ _ | .setActive h _ u _ =>
      some (h, u)
  | _ => none

/-- What is behind the guard of a call. -/
theorem Closed.guarded {G : DbProg → Prop} (hG : Closed G) {env : Env} {c : Call}
    (h : Handles G env c) {k : JsString} {u : Uuid} (hc : c.guard? = some (k, u)) :
    ∃ next, route env c = houseMemberGuard k u next ∧ G next := by
  cases c <;> cases hc
  case createPlaceholder name =>
    exact ⟨_, rfl, hG.parseBody (h _ fun r => by cases r <;> exact hG.done _)⟩
  case setDisplayName name =>
    exact ⟨_, rfl, hG.parseBody (h _ fun r => by cases r <;> exact hG.done _)⟩
  case setRooms rooms =>
    refine ⟨_, rfl, hG.parseBody ?_⟩
    unfold setRooms
    dsimp only
    split
    · exact hG.done _
    · split
      · exact hG.done _
      · exact h _ fun r => by cases r <;> exact hG.done _
  case createInvite placeholderId =>
    refine ⟨_, rfl, hG.parseBody (hG.query _ fun v => ?_)⟩
    split
    · exact hG.done _
    · exact h _ _ fun r => by cases r <;> exact hG.done _
  case createExpense key input =>
    exact ⟨_, rfl, hG.idempotencyKey (hG.parseBody (hG.withIdempotency h))⟩
  case recordPayment key input =>
    refine ⟨_, rfl, hG.idempotencyKey (hG.parseBody ?_)⟩
    unfold recordPayment
    split
    · exact hG.done _
    · exact hG.withIdempotency h
  case createBill key input =>
    refine ⟨_, rfl, hG.idempotencyKey (hG.parseBody ?_)⟩
    unfold createBill
    split
    · exact hG.done _
    · exact hG.withIdempotency h
  case setActive b active =>
    exact ⟨_, rfl, hG.uuidPipe (h _ fun r => by cases r <;> exact hG.done _)⟩

theorem Closed.route {G : DbProg → Prop} (hG : Closed G) {env : Env} {c : Call}
    (h : Handles G env c) : G (route env c) := by
  have hguarded : ∀ k u, c.guard? = some (k, u) → G (Homi.route env c) := by
    intro k u hc
    obtain ⟨next, heq, hnext⟩ := hG.guarded h hc
    rw [heq]
    exact hG.houseMemberGuard hnext
  cases c with
  | signUp email name => exact h _ fun r => by cases r <;> exact hG.done _
  | createHouse u input =>
    exact hG.parseBody (h _ fun r => by cases r <;> exact hG.done _)
  | acceptInvite token u =>
    rw [Homi.route, acceptInvite]
    exact h _ fun r => by cases r <;> exact hG.done _
  | editExpense e u key input =>
    exact hG.uuidPipe (hG.idempotencyKey (hG.parseBody
      (hG.withIdempotency h)))
  | disputePayment id u => exact hG.uuidPipe (h _ fun r => by cases r <;> exact hG.done _)
  | resolvePayment id u => exact hG.uuidPipe (h _ fun r => by cases r <;> exact hG.done _)
  | postDueBills now => exact hG.postDueBills h
  | _ => exact hguarded _ _ rfl

end Homi
