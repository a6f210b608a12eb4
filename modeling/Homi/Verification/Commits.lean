import Homi.Verification.LedgerRuns

/-! # What every commit does

  Facts about the commits of any run that the other protocols build on:
  the tables and events of each call, the account of its user, and what
  the ledger protocol says about the rows.
-/

namespace Homi

open ReadCommitted Protocol

variable {env : Env} {c : Call}

/-! ## Section 1: Footprints -/

/-- A protocol between calls that only asks for their footprints. -/
def footprintProtocol : DbProtocol where
  inv _ := True
  rely _ _ _ := True
  guar c _ tx _ := tx.writes.Within c.tables c.events
  post _ _ _ := True
  allows _ _ _ _ _ := True
  stops _ _ := True

theorem footprint_keeps {α : Type} {m : DbTxn α}
    (hm : m.Only (Writes.Within c.tables c.events)) : Keeps footprintProtocol c m := by
  intro k hk seen d
  refine safe_of_triple (triple_only (fun _ _ h h' => h.append h') hm) within_nothing
    (fun _ => stable_const _) (fun _ _ _ h _ => h) (fun a _ _ _ _ => hk (.ok a) _ _)
    fun e _ => hk (.error e) _ _

theorem footprint_begin {α : Type} {fn : Millis → DbTxn α}
    (h : ∀ startedAt, (fn startedAt).Only (Writes.Within c.tables c.events)) :
    Keeps footprintProtocol c (begin >>= fn) :=
  footprint_keeps (Txn.only_bind (only_begin within_nothing) h)

theorem footprint_keepsAll : KeepsAll footprintProtocol env c := by
  have h0 : Writes.Within c.tables c.events {} := within_nothing
  -- each call writes the tables and the events that are listed for it
  cases c with
  | signUp email name =>
    exact footprint_keeps (only_signUpTx (within_users (by simp [Call.tables])))
  | createHouse u input =>
    exact footprint_begin fun _ => only_createHouseTx (within_houses (by simp [Call.tables]))
      (within_houseMembers (by simp [Call.tables])) fun e he => within_event (by simp [he, Call.events])
  | createPlaceholder h u name =>
    exact footprint_begin fun _ => only_createPlaceholderTx h0 (within_users (by simp [Call.tables]))
      (within_houseMembers (by simp [Call.tables])) fun e he => within_event (by simp [he, Call.events])
  | setDisplayName h u name =>
    exact footprint_begin fun _ => only_setDisplayNameTx h0 (within_houseMembers (by simp [Call.tables]))
      fun e he => within_event (by simp [he, Call.events])
  | setRooms h u rooms =>
    exact footprint_begin fun _ => only_setRoomsTx h0 (within_houseMembers (by simp [Call.tables]))
      (within_rooms (by simp [Call.tables])) fun e he => within_event (by simp [he, Call.events])
  | createInvite h u placeholderId =>
    exact fun _ => footprint_keeps (only_createInviteTx h0 (within_invites (by simp [Call.tables])))
  | acceptInvite token u =>
    exact footprint_begin fun _ => only_acceptInviteTx h0 (within_expenseSplits (by simp [Call.tables]))
      (within_expenseRevisions (by simp [Call.tables])) (fun e he => within_event he)
      (within_houseMembers (by simp [Call.tables])) (within_users (by simp [Call.tables]))
      (within_invites (by simp [Call.tables]))
  | createExpense h u key input =>
    exact footprint_begin fun _ => only_createExpenseTx h0 (within_expenses (by simp [Call.tables]))
      (within_expenseSplits (by simp [Call.tables])) (fun e he => within_event (by simp [he, Call.events]))
      (fun _ => only_store (within_idempotencyKeys (by simp [Call.tables])))
  | editExpense e u key input =>
    exact footprint_begin fun _ => only_editExpenseTx h0 (within_expenses (by simp [Call.tables]))
      (within_expenseSplits (by simp [Call.tables])) (within_expenseRevisions (by simp [Call.tables]))
      (fun e he => within_event (by simp [he, Call.events]))
      (fun _ => only_store (within_idempotencyKeys (by simp [Call.tables])))
  | recordPayment h u key input =>
    exact footprint_begin fun _ => only_recordPaymentTx h0 (within_payments (by simp [Call.tables]))
      (fun e he => within_event (by simp [he, Call.events]))
      (fun _ => only_store (within_idempotencyKeys (by simp [Call.tables])))
  | disputePayment p u =>
    exact footprint_begin fun _ => only_disputePaymentTx h0 (within_payments (by simp [Call.tables]))
      fun e he => within_event (by simp [he, Call.events])
  | resolvePayment p u =>
    exact footprint_begin fun _ => only_resolvePaymentTx h0 (within_payments (by simp [Call.tables]))
      fun e he => within_event (by simp [he, Call.events])
  | createBill h u key input =>
    exact footprint_begin fun _ => only_createBillTx h0 (within_billTemplates (by simp [Call.tables]))
      (fun e he => within_event (by simp [he, Call.events]))
      (fun _ => only_store (within_idempotencyKeys (by simp [Call.tables])))
  | setActive h b u active =>
    exact footprint_begin fun _ => only_setActiveTx h0 (within_billTemplates (by simp [Call.tables]))
      fun e he => within_event (by rcases he with he | he <;> simp [he, Call.events])
  | postDueBills now =>
    refine ⟨fun _ _ _ => footprint_keeps (only_postOneTx h0 (within_expenses (by simp [Call.tables]))
      (within_expenseSplits (by simp [Call.tables])) (fun e he => within_event (by simp [he, Call.events]))
      (within_billTemplates (by simp [Call.tables]))), fun _ _ _ => footprint_keeps (only_advanceBill
      (within_billTemplates (by simp [Call.tables]))), fun _ _ => footprint_keeps (only_pauseTx
      (p := Writes.Within _ _) (fun e he => within_event (by simp [he, Call.events]))
      (within_billTemplates (by simp [Call.tables])))⟩

theorem footprint_lawful : footprintProtocol.Lawful (homi env) (fun _ => True) fun _ _ => True where
  rely_refl _ _ := trivial
  rely_trans _ _ _ _ _ _ := trivial
  rely_tick _ _ _ _ := trivial
  inv_tick _ _ _ := trivial
  inv_init := trivial
  inv_commit _ _ _ _ _ := trivial
  rely_commit _ _ _ _ _ _ _ _ _ := trivial
  apart_empty _ := trivial
  start _ d _ _ := always_route (fun _ _ => trivial) footprint_keepsAll d d
  killed _ _ _ _ := trivial

/-- A commit writes the tables and logs the events of its call. -/
theorem commit_within {d₀ : Db} {ok : HomiState → Action Call → Prop} {s : HomiState}
    (h : Run (homiFrom env d₀) ok s) (c : HomiCommit) (hc : c ∈ s.wal) :
    c.tx.writes.Within c.call.tables c.call.events := by
  have hcover : footprintProtocol.Covers (homiFrom env d₀) ok (fun _ => True) fun _ _ => True := {
    allows := fun _ _ _ _ _ _ => trivial
    stops := fun _ _ _ _ _ => trivial
    apart := fun _ _ _ _ _ _ _ _ _ => trivial
    known := fun _ _ _ _ => trivial }
  exact ((Protocol.sound (footprint_lawful.from trivial) hcover h).commits c hc).2

/-! ## Section 2: Users -/

/-- The user of the call, if it has one, has an account. -/
def Call.HasAccount (c : Call) (d : Db) : Prop := ∀ u, c.user? = some u → hasAccount d u = true

theorem Call.HasAccount.persist {d d' : Db} (h : c.HasAccount d) (hp : Persist d d') :
    c.HasAccount d' := fun u hu => hasAccount_rely (h u hu) hp

section start

variable {d₀ : Db} {ok : HomiState → Action Call → Prop} {s : HomiState}

/-- The ledger protocol in runs that start on any database that meets it. -/
theorem ledger_from (hd : LedgerBase env d₀) (h : Run (homiFrom env d₀) ok s) :
    (ledgerProtocol env False False).Holds s :=
  Protocol.sound (ledger_lawful.from ⟨hd, False.elim⟩)
    { allows := fun _ _ _ _ _ _ => trivial
      stops := fun _ _ _ _ _ => trivial
      apart := fun _ _ _ _ _ _ _ _ _ => ⟨False.elim, False.elim⟩
      known := fun _ _ _ _ => trivial } h

theorem ledger_persist (hd : LedgerBase env d₀) (h : Run (homiFrom env d₀) ok s) {c : HomiCommit}
    (hc : c ∈ s.wal) : Persist c.before c.after :=
  ((ledger_from hd h).commits _ hc).2.step.toPersist

/-- A user with a call has an account from then on. -/
theorem accounts_run (hd : LedgerBase env d₀) (h : Run (homiFrom env d₀) ok s) :
    (∀ (p : ℕ) (pr : Proc Db Writes LockKey Note Hint Reply Call), s.procs[p]? = some pr →
      pr.call.HasAccount s.db) ∧ ∀ c ∈ s.wal, c.call.HasAccount c.before := by
  induction h with
  | init => exact ⟨fun p pr hp => by simp [System.initial] at hp, fun c hc => by cases hc⟩
  | @step s s' a hs hok hstep ih =>
    have hs' : Run (homiFrom env d₀) ok s' := .step a hs hok hstep
    -- a step that lets processes go on and moves the rows by `Persist`
    have hgo : ∀ (p : ℕ) (pr pr' : Proc Db Writes LockKey Note Hint Reply Call) (d : Db),
        s.procs[p]? = some pr → pr'.call = pr.call → Persist s.db d →
        ∀ (q : ℕ) (qr : Proc Db Writes LockKey Note Hint Reply Call),
          (s.procs.set p pr')[q]? = some qr → qr.call.HasAccount d := by
      intro p pr pr' d hp hcall hd q qr hq
      rcases getElem?_set_cases hq with ⟨_, rfl⟩ | ⟨_, hq⟩
      · rw [hcall]
        exact (ih.1 p pr hp).persist hd
      · exact (ih.1 q qr hq).persist hd
    cases moves_of_step hstep with
    | start c hadm =>
      refine ⟨fun p pr hp => ?_, ih.2⟩
      rcases List.mem_append.mp (List.mem_of_getElem? hp) with hmem | hmem
      · obtain ⟨q, hq⟩ := List.mem_iff_getElem?.mp hmem
        exact ih.1 q pr hq
      · rw [List.mem_singleton.mp hmem]
        intro u hu
        have hall : c.user?.all (hasAccount s.db) = true := hadm
        rw [Proc.fresh, Proc.resume_call] at hu
        rw [show c.user? = some u from hu] at hall
        exact hall
    | query p now pr next hp hprog =>
      exact ⟨hgo p pr _ _ hp (Proc.resume_call ..) (Persist.refl _), ih.2⟩
    | stmt p now pr act next hp hprog hfree =>
      exact ⟨hgo p pr _ _ hp (Proc.resume_call ..) (LedgerRely.tick Tx.empty _ _ : LedgerRely
        False False _ _ _).toPersist, ih.2⟩
    | emit p now pr hint next hp hprog =>
      exact ⟨hgo p pr _ _ hp (Proc.resume_call ..) (Persist.refl _), ih.2⟩
    | kill p pr hp hrun =>
      exact ⟨hgo p pr _ _ hp (Proc.resume_call ..) (Persist.refl _), ih.2⟩
    | commit p now pr next hp hprog =>
      have hpersist := ledger_persist hd hs' (List.mem_append_right _ (List.mem_singleton_self _))
      refine ⟨hgo p pr _ _ hp (Proc.resume_call ..) hpersist, fun c hc => ?_⟩
      rcases List.mem_append.mp hc with hc | hc
      · exact ih.2 c hc
      · rw [List.mem_singleton.mp hc]
        exact ih.1 p pr hp

end start

/-! ## Section 3: What is known -/

/-- What is known of every commit of every run. -/
structure Known (env : Env) (c : HomiCommit) : Prop where
  within : c.tx.writes.Within c.call.tables c.call.events
  account : c.call.HasAccount c.before
  before : LedgerBase env c.before
  after : LedgerBase env c.after
  step : LedgerStep c.tx c.before c.after

theorem known_from {d₀ : Db} (hd : LedgerBase env d₀) {ok : HomiState → Action Call → Prop}
    {s : HomiState} (h : Run (homiFrom env d₀) ok s) : ∀ c ∈ s.wal, Known env c := by
  intro c hc
  obtain ⟨hinv, hguar⟩ := (ledger_from hd h).commits c hc
  exact ⟨commit_within h c hc, (accounts_run hd h).2 c hc, hinv.1, hguar.base, hguar.step⟩

theorem known_reachable {s : HomiState} (h : HomiReachable env s) : ∀ c ∈ s.wal, Known env c :=
  known_from (ledgerBase_empty env) h

/-- A protocol that no run has to be restricted for. -/
theorem holds_from {P : DbProtocol} {d₀ : Db} (hd : LedgerBase env d₀)
    (hP : P.Lawful (homiFrom env d₀) (Known env) fun _ _ => True)
    (hallows : ∀ c prog tx d now, P.allows c prog tx d now) (hstops : ∀ c d, P.stops c d)
    {s : HomiState} (h : Reachable (homiFrom env d₀) s) : P.Holds s :=
  Protocol.sound hP
    { allows := fun _ _ _ _ _ _ => hallows _ _ _ _ _
      stops := fun _ _ _ _ _ => hstops _ _
      apart := fun _ _ _ _ _ _ _ _ _ => trivial
      known := fun _ hs => known_from hd hs } h

theorem holds_of_known {P : DbProtocol}
    (hP : P.Lawful (homi env) (Known env) fun _ _ => True)
    (hallows : ∀ c prog tx d now, P.allows c prog tx d now) (hstops : ∀ c d, P.stops c d)
    {s : HomiState} (h : HomiReachable env s) : P.Holds s :=
  holds_from (ledgerBase_empty env) hP hallows hstops h

end Homi
