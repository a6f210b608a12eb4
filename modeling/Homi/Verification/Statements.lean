import Homi.Framework.Interference
import Homi.Verification.Routes

/-! # Statements

  Rules for the statements of this database under any protocol: what a
  transaction holds after them, and triples of the smallest helpers.
-/

namespace Homi

open ReadCommitted Protocol

abbrev DbTx : Type := Tx Writes LockKey Note

abbrev DbProtocol : Type := Protocol Db Writes LockKey Note Hint Reply Call

/-- The database that a commit of `tx` leaves. -/
abbrev DbTx.commit (tx : DbTx) (d : Db) : Db := tx.writes.apply d

/-! ## Section 1: Adding a statement -/

section add

variable (tx : DbTx) (e : Effect Writes LockKey Note)

theorem owns_add {k : LockKey} (h : tx.Owns k) : (tx.add e).Owns k := by
  rcases h with h | h
  · exact Or.inl ((LawfulStore.written_append (D := Db) _ _ _).mpr (Or.inl h))
  · exact Or.inr (List.mem_append_left _ h)

theorem holds_add {k : LockKey} (h : tx.Holds k) : (tx.add e).Holds k :=
  Tx.holds_add (D := Db) h

theorem owns_of_write {k : LockKey} (h : k ∈ e.writes.written) : (tx.add e).Owns k :=
  Or.inl ((LawfulStore.written_append (D := Db) _ _ _).mpr (Or.inr h))

theorem owns_of_lock {k : LockKey} (h : (k, Mode.exclusive) ∈ e.locks) : (tx.add e).Owns k :=
  Or.inr (List.mem_append_right _ (List.mem_append_left _ h))

theorem holds_of_lock {k : LockKey} {mode : Mode} (h : (k, mode) ∈ e.locks) :
    (tx.add e).Holds k :=
  Or.inr ⟨mode, List.mem_append_right _ (List.mem_append_left _ h)⟩

end add

/-! ## Section 2: Triples -/

variable {P : DbProtocol} {α : Type} {A : DbTx → Db → Prop} {B : α → DbTx → Db → Prop}

theorem triple_begin (hA : P.Stable A) : P.Triple A begin fun _ tx d => A tx d :=
  triple_select hA fun _ _ _ h _ => h

/-- Reading the clock leaves a note. -/
theorem triple_clock {q : Writes → Prop} (hA : P.Passive q A) (hq : q {}) :
    P.Triple A clock fun now tx d => A tx d ∧ .clock now ∈ tx.notes :=
  triple_exec_passive hA (fun _ => hq) fun tx d now a _ _ hres => by
    cases hres
    exact List.mem_append_right _ (List.mem_singleton_self _)

theorem triple_reject {bad : Prop} [Decidable bad] (err : Err) :
    P.Triple A (reject bad err) fun _ tx d => A tx d ∧ ¬ bad := by
  unfold reject
  split
  · exact triple_throw err
  · next h => exact triple_pure fun tx d hA => ⟨hA, h⟩

theorem triple_liftSplit {r : Except (SplitError JsString) α}
    (h : ∀ a, r = .ok a → ∀ tx d, A tx d → B a tx d) : P.Triple A (liftSplit r) B := by
  cases r with
  | ok a => exact triple_pure (h a rfl)
  | error err => exact triple_throw _

theorem triple_liftSchedule {r : Except ScheduleError α}
    (h : ∀ a, r = .ok a → ∀ tx d, A tx d → B a tx d) : P.Triple A (liftSchedule r) B := by
  cases r with
  | ok a => exact triple_pure (h a rfl)
  | error err => exact triple_throw _

/-! ## Section 3: Programs

    Between its transactions a program holds nothing, so most programs are
    safe wherever they start. -/

variable (P)

/-- The program keeps to the protocol from wherever it starts. -/
def Always (c : Call) (prog : DbProg) : Prop := ∀ seen d, P.Safe c prog seen Tx.empty d

/-- The transaction keeps to the protocol if what follows it does. -/
def Keeps (c : Call) (m : DbTxn α) : Prop :=
  ∀ k : Except Err α → DbProg, (∀ r, Always P c (k r)) → Always P c (m.transact k)

variable {P} {c : Call} {next : DbProg}

theorem always_done {r : Reply} (h : ∀ d, P.post c r d) : Always P c (.done r) := fun _ d => h d

theorem always_query {next : View Db → DbProg} (h : ∀ v, Always P c (next v)) :
    Always P c (.query next) := fun _ _ d' _ _ _ _ => h _ d' d'

theorem always_emitAll {hints : List Hint} (h : Always P c next) :
    Always P c (.emitAll hints next) := by
  induction hints with
  | nil => exact h
  | cons hint hints ih => exact fun seen _ d' _ _ => ih seen d'

/-- What follows the commit of `transact`. -/
theorem always_logged {next : Except Err α → DbProg} (h : ∀ r, Always P c (next r))
    (r : Except Err (α × List ActivityInput)) :
    Always P c (match r with
      | .ok (result, logged) => .emitAll (logged.map ActivityInput.hint) (next (.ok result))
      | .error err => next (.error err)) := by
  cases r with
  | ok r => exact always_emitAll (h _)
  | error err => exact h _

theorem Keeps.transact {fn : Millis → DbTxn (α × List ActivityInput)}
    {next : Except Err α → DbProg} (hfn : Keeps P c (do fn (← begin)))
    (h : ∀ r, Always P c (next r)) : Always P c (Homi.transact fn next) :=
  hfn _ (always_logged h)

/-- A transaction that starts from what the call knows. -/
theorem safe_transact_logged {fn : Millis → DbTxn (α × List ActivityInput)}
    {next : Except Err α → DbProg} {A : DbTx → Db → Prop} {B : α × List ActivityInput → DbTx → Db → Prop}
    {seen d : Db} (h : P.Triple A (do fn (← begin)) B) (hA : A Tx.empty d) (hB : ∀ a, P.Stable (B a))
    (hguar : ∀ a tx d, B a tx d → P.inv d → P.guar c seen tx d) (hnext : ∀ r, Always P c (next r)) :
    P.Safe c (Homi.transact fn next) seen Tx.empty d :=
  safe_of_triple h hA hB hguar (fun a _ _ _ _ => always_logged hnext (.ok a) _ _)
    fun e _ => always_logged hnext (.error e) _ _

/-- Every transaction of the call keeps to the protocol. -/
def KeepsAll (P : DbProtocol) (env : Env) (c : Call) : Prop :=
  match c with
  | .signUp email name => Keeps P c (signUpTx env email name)
  | .createHouse u input => Keeps P c (begin >>= createHouseTx env u input)
  | .createPlaceholder h u name => Keeps P c (begin >>= createPlaceholderTx env h u name)
  | .setDisplayName h u displayName => Keeps P c (begin >>= setDisplayNameTx h u displayName)
  | .setRooms h u rooms => Keeps P c (begin >>= setRoomsTx env h u rooms)
  | .createInvite h u placeholderId => ∀ expiresAt,
      Keeps P c (createInviteTx env (toUuid h) u (placeholderId.map toUuid) expiresAt)
  | .acceptInvite token u => Keeps P c (begin >>= acceptInviteTx env token u)
  | .createExpense h u key input => Keeps P c (begin >>= createExpenseTx env h u input
      (store ⟨toUuid key, u, .createExpense⟩ (env.hashRequest (.createExpense h input))))
  | .editExpense e u key input => Keeps P c (begin >>= editExpenseTx e u input
      (store ⟨toUuid key, u, .editExpense⟩ (env.hashRequest (.editExpense e input))))
  | .recordPayment h u key input => Keeps P c (begin >>= recordPaymentTx env h u input
      (store ⟨toUuid key, u, .recordPayment⟩ (env.hashRequest (.recordPayment h input))))
  | .disputePayment id u => Keeps P c (begin >>= disputePaymentTx id u)
  | .resolvePayment id u => Keeps P c (begin >>= resolvePaymentTx id u)
  | .createBill h u key input => Keeps P c (begin >>= createBillTx env h u input
      (store ⟨toUuid key, u, .createBill⟩ (env.hashRequest (.createBill h input))))
  | .setActive h b u active => Keeps P c (begin >>= setActiveTx env h b u active)
  | .postDueBills _ =>
      (∀ bill period nextRun, Keeps P c (postOneTx env bill period nextRun)) ∧
      (∀ id nextRun matching, Keeps P c (advanceBill id nextRun matching)) ∧
      ∀ bill reason, Keeps P c (pauseTx bill reason)

section worker

variable {env : Env} {G : DbProg → Prop} {bill : DueBill}

theorem passes_postOne (hemit : ∀ hint next, G next → G (.emit hint next)) {dueISO advanced : JsString}
    (hpost : ∀ period, PassesBare G (postOneTx env bill period advanced))
    {next : Except Err (Uuid × JsString) → DbProg} (hnext : ∀ r, G (next r)) :
    G (postOne env bill dueISO advanced next) := by
  unfold postOne
  split
  · exact hnext _
  · refine hpost _ _ fun r => ?_
    cases r with
    | ok id => exact hemit _ _ (hnext _)
    | error err => exact hnext _

theorem passes_pause (hdone : ∀ r, G (.done r)) (hemit : ∀ hint next, G next → G (.emit hint next))
    {reason : JsString} (hpause : PassesBare G (pauseTx bill reason)) {next : DbProg}
    (hnext : G next) : G (pause bill reason next) := by
  refine hpause _ fun r => ?_
  cases r with
  | error err => exact hdone _
  | ok updated =>
    cases updated with
    | true => exact hemit _ _ hnext
    | false => exact hnext

/-- The worker's rules for a bill, from those for its transactions. -/
theorem billRules_of_keeps (hdone : ∀ r, G (.done r))
    (hemit : ∀ hint next, G next → G (.emit hint next))
    (hpost : ∀ period nextRun, PassesBare G (postOneTx env bill period nextRun))
    (hadvance : ∀ nextRun matching, PassesBare G (advanceBill bill.id nextRun matching))
    (hpause : ∀ reason, PassesBare G (pauseTx bill reason)) : BillRules G env bill where
  post _ advanced _ hnext := passes_postOne hemit (fun period => hpost period advanced) hnext
  advance := hadvance
  pause reason _ hnext := passes_pause hdone hemit (hpause reason) hnext

/-- The same, where the dates that it advances to are its due dates. -/
theorem dueRules_of_keeps (hdone : ∀ r, G (.done r))
    (hemit : ∀ hint next, G next → G (.emit hint next))
    (hpost : ∀ dueISO advanced,
      nextDueDate bill.template.cadence bill.template.cadenceDay dueISO = .ok advanced →
      ∀ period, PassesBare G (postOneTx env bill period advanced))
    (hadvance : ∀ dueISO advanced,
      nextDueDate bill.template.cadence bill.template.cadenceDay dueISO = .ok advanced →
      PassesBare G (advanceBill bill.id advanced fun t => t.nextRun = dueISO))
    (hpause : ∀ reason, PassesBare G (pauseTx bill reason)) : DueRules G env bill where
  post dueISO advanced _ hdue hnext := passes_postOne hemit (hpost dueISO advanced hdue) hnext
  advance := hadvance
  pause reason _ hnext := passes_pause hdone hemit (hpause reason) hnext

end worker

theorem always_closed (hdone : ∀ r d, P.post c r d) : Closed (Always P c) where
  done := fun r => always_done (hdone r)
  query := fun _ h => always_query h

/-- A call whose transactions keep to a protocol that promises nothing
    about replies is safe wherever it starts. -/
theorem always_route {env : Env} (hdone : ∀ r d, P.post c r d) (h : KeepsAll P env c) :
    Always P c (route env c) := by
  refine (always_closed hdone).route ?_
  cases c with
  | signUp email name => exact h
  | createInvite k u placeholderId => exact h
  | postDueBills now =>
    exact fun bill => billRules_of_keeps (always_closed hdone).done
      (fun _ _ hnext seen _ d' _ _ => hnext seen d') (h.1 bill) (h.2.1 bill.id) (h.2.2 bill)
  | _ => exact fun next hnext => Keeps.transact h hnext

end Homi
