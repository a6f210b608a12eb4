import Homi.Verification.Parties
import Homi.Verification.LedgerRuns
import Homi.Verification.Replies

/-! # Disputes

  A payment is recorded, and its recipient may dispute it once and then
  resolve the dispute once. The row lock that both calls take makes each
  move start from the status it checked.
-/

namespace Homi

open ReadCommitted Protocol

variable {env : Env} {c : Call}

/-! ## Section 1: Rows -/

/-- The time stamps fit the status. -/
structure Stamped (r : Payment) : Prop where
  disputed : r.disputedAt.isSome ↔ r.status ≠ .recorded
  resolved : r.resolvedAt.isSome ↔ r.status = .resolved

def statusRank : PaymentStatus → ℕ
  | .recorded => 0
  | .disputed => 1
  | .resolved => 2

/-- The same payment, in its status or a later one. -/
structure Payment.Later (r r' : Payment) : Prop where
  same : r' = { r with status := r'.status, disputedAt := r'.disputedAt, resolvedAt := r'.resolvedAt }
  rank : statusRank r.status ≤ statusRank r'.status

theorem Payment.Later.refl (r : Payment) : r.Later r := ⟨rfl, le_refl _⟩

theorem Payment.Later.trans {a b d : Payment} (h : a.Later b) (h' : b.Later d) : a.Later d := by
  refine ⟨?_, h.rank.trans h'.rank⟩
  rw [h'.same, h.same]

/-- Payments stay. -/
def PaymentsStep (d d' : Db) : Prop :=
  ∀ p r, d.payments.lookup p = some r → ∃ r', d'.payments.lookup p = some r' ∧ r.Later r'

theorem PaymentsStep.refl (d : Db) : PaymentsStep d d := fun _ r h => ⟨r, h, .refl r⟩

theorem PaymentsStep.trans {a b d : Db} (h : PaymentsStep a b) (h' : PaymentsStep b d) :
    PaymentsStep a d := by
  intro p r hr
  obtain ⟨r', hr', hlater⟩ := h p r hr
  obtain ⟨r'', hr'', hlater'⟩ := h' p r' hr'
  exact ⟨r'', hr'', hlater.trans hlater'⟩

structure PaymentsBase (env : Env) (d : Db) : Prop where
  ids : ∀ p r, d.payments.lookup p = some r → ∃ n < d.fresh, p = env.uuid n
  stamped : ∀ p r, d.payments.lookup p = some r → Stamped r

/-! ## Section 2: The protocol -/

/-- What others do meanwhile. -/
structure PaymentsRely (tx : DbTx) (d d' : Db) : Prop where
  persist : Persist d d'
  payments : PaymentsStep d d'
  frame : Frame tx d d'
  fresh : d.fresh ≤ d'.fresh

/-- `u` is a member of the house; an account never leaves. -/
def Resident (h u : Uuid) (d : Db) : Prop :=
  ∃ m, d.houseMembers.lookup (h, u) = some m ∧ (m.isPlaceholder = false → m.leftAt = none)

/-- The payment `p` is `r`, and its recipient `u` a member of the house. -/
structure ForRecipient (p u : Uuid) (r : Payment) (d : Db) : Prop where
  row : d.payments.lookup p = some r
  recipient : r.toUser = u
  member : Resident r.houseId u d

/-- The clock was read within the window. -/
def InWindow (r : Payment) (tx : DbTx) : Prop :=
  ∃ now, Note.clock now ∈ tx.notes ∧ now ≤ r.createdAt + DISPUTE_WINDOW_MS

/-- The writes of a move: the row and one event. -/
def moveWrites (p u : Uuid) (r' : Payment) (type : EventType) : Writes where
  payments := [(p, some r')]
  activityEvents := [⟨toUuid r'.houseId, u, type, .payment, p, .none⟩]

def Payment.dispute (r : Payment) (now : Millis) : Payment :=
  { r with status := .disputed, disputedAt := some now }

def Payment.resolve (r : Payment) (now : Millis) : Payment :=
  { r with status := .resolved, resolvedAt := some now }

/-- New payments are recorded, under new ids. -/
structure RecordsNew (env : Env) (tx : DbTx) (d : Db) : Prop where
  free : ∀ p o, (p, o) ∈ tx.writes.payments → d.payments.lookup p = none ∧ ∃ n < d.fresh, p = env.uuid n
  rows : ∀ p o, (p, o) ∈ tx.writes.payments →
    ∃ r, o = some r ∧ r.status = .recorded ∧ r.disputedAt = none ∧ r.resolvedAt = none

def PaymentsGuar (env : Env) : Call → DbTx → Db → Prop
  | .recordPayment _ _ _ _, tx, d => RecordsNew env tx d
  | .disputePayment id u, tx, d => ∃ r now, ForRecipient (toUuid id) u r d ∧ r.status = .recorded ∧
      InWindow r tx ∧ tx.writes = moveWrites (toUuid id) u (r.dispute now) .paymentDisputed
  | .resolvePayment id u, tx, d => ∃ r now, ForRecipient (toUuid id) u r d ∧ r.status = .disputed ∧
      tx.writes = moveWrites (toUuid id) u (r.resolve now) .paymentResolved
  | _, _, _ => True

def paymentsProtocol (env : Env) : DbProtocol where
  inv d := LedgerBase env d ∧ PaymentsBase env d
  rely := PaymentsRely
  guar c _ tx d := PaymentsGuar env c tx d
  post _ _ _ := True
  allows _ _ _ _ _ := True
  stops _ _ := True

/-- What a commit does to the payments. -/
inductive PaymentCommit (env : Env) (c : HomiCommit) : Prop where
  | aside (h : c.tx.writes.payments = [])
      (hevents : ∀ e ∈ c.tx.writes.activityEvents, e.type ≠ .paymentDisputed ∧ e.type ≠ .paymentResolved)
  | recorded (h : RecordsNew env c.tx c.before)
      (hevents : ∀ e ∈ c.tx.writes.activityEvents, e.type ≠ .paymentDisputed ∧ e.type ≠ .paymentResolved)
  | disputed (id : JsString) (u : Uuid) (r : Payment) (now : Millis)
      (hcall : c.call = .disputePayment id u) (h : ForRecipient (toUuid id) u r c.before)
      (hold : r.status = .recorded) (hwindow : InWindow r c.tx)
      (hwrites : c.tx.writes = moveWrites (toUuid id) u (r.dispute now) .paymentDisputed)
  | resolved (id : JsString) (u : Uuid) (r : Payment) (now : Millis)
      (hcall : c.call = .resolvePayment id u) (h : ForRecipient (toUuid id) u r c.before)
      (hold : r.status = .disputed)
      (hwrites : c.tx.writes = moveWrites (toUuid id) u (r.resolve now) .paymentResolved)

theorem Known.paymentCommit {c : HomiCommit} (h : Known env c)
    (hg : PaymentsGuar env c.call c.tx c.before) : PaymentCommit env c := by
  -- calls that do not dispute or resolve log other events
  have hevents : EventType.paymentDisputed ∉ c.call.events → EventType.paymentResolved ∉ c.call.events →
      ∀ e ∈ c.tx.writes.activityEvents, e.type ≠ .paymentDisputed ∧ e.type ≠ .paymentResolved :=
    fun hd hr e he => ⟨fun heq => hd (heq ▸ h.within.events e he), fun heq => hr (heq ▸ h.within.events e he)⟩
  have haside : .payments ∉ c.call.tables → EventType.paymentDisputed ∉ c.call.events →
      EventType.paymentResolved ∉ c.call.events → PaymentCommit env c :=
    fun ht hd hr => .aside (h.within.tables .payments ht) (hevents hd hr)
  cases hc : c.call with
  | recordPayment k u key input =>
    rw [hc] at hg
    exact .recorded hg (hevents (by simp [hc, Call.events]) (by simp [hc, Call.events]))
  | disputePayment id u =>
    rw [hc] at hg
    obtain ⟨r, now, hrow, hold, hwindow, hwrites⟩ := hg
    exact .disputed id u r now hc hrow hold hwindow hwrites
  | resolvePayment id u =>
    rw [hc] at hg
    obtain ⟨r, now, hrow, hold, hwrites⟩ := hg
    exact .resolved id u r now hc hrow hold hwrites
  | _ =>
    exact haside (by simp [hc, Call.tables]) (by simp [hc, Call.events, acceptEvents])
      (by simp [hc, Call.events, acceptEvents])

section commits

variable {c : HomiCommit}

/-- The row of a payment after a commit. -/
theorem after_payments (p : Uuid) : c.after.payments.lookup p =
    (Table.lastEdit c.tx.writes.payments p).getD (c.before.payments.lookup p) :=
  Table.lookup_patch c.before.payments c.tx.writes.payments p

theorem after_moved {p u : Uuid} {r' : Payment} {type : EventType}
    (h : c.tx.writes = moveWrites p u r' type) (q : Uuid) :
    c.after.payments.lookup q = if p = q then some r' else c.before.payments.lookup q := by
  show (c.before.payments.patch c.tx.writes.payments).lookup q = _
  rw [h]
  exact Table.lookup_patch_singleton _ _ _ _

theorem after_aside (h : c.tx.writes.payments = []) (p : Uuid) :
    c.after.payments.lookup p = c.before.payments.lookup p := by
  rw [after_payments, h]
  rfl

/-- A payment that was there stays as it was when new ones are recorded. -/
theorem after_recorded (h : RecordsNew env c.tx c.before) {p : Uuid} {r : Payment}
    (hr : c.before.payments.lookup p = some r) : c.after.payments.lookup p = some r := by
  rw [after_payments]
  cases hedit : Table.lastEdit c.tx.writes.payments p with
  | none => exact hr
  | some o =>
    rw [(h.free p o (Table.mem_of_lastEdit hedit)).1] at hr
    cases hr

theorem PaymentCommit.step (h : PaymentCommit env c) : PaymentsStep c.before c.after := by
  intro p r hr
  cases h with
  | aside h _ => exact ⟨r, by rw [after_aside h, hr], .refl r⟩
  | recorded h _ => exact ⟨r, after_recorded h hr, .refl r⟩
  | disputed id u r₀ now hcall h hold hwindow hwrites =>
    rw [after_moved hwrites]
    split
    · next heq =>
      subst heq
      rw [h.row] at hr
      cases hr
      exact ⟨_, rfl, rfl, by rw [hold]; exact Nat.zero_le _⟩
    · exact ⟨r, hr, .refl r⟩
  | resolved id u r₀ now hcall h hold hwrites =>
    rw [after_moved hwrites]
    split
    · next heq =>
      subst heq
      rw [h.row] at hr
      cases hr
      exact ⟨_, rfl, rfl, by rw [hold]; exact Nat.le_succ _⟩
    · exact ⟨r, hr, .refl r⟩

theorem PaymentCommit.base (h : PaymentCommit env c) (hb : PaymentsBase env c.before) :
    PaymentsBase env c.after := by
  -- a payment that was there, or one that this commit wrote
  have hrow : ∀ p r', c.after.payments.lookup p = some r' →
      (∃ r, c.before.payments.lookup p = some r) ∨ ∃ n < c.before.fresh, p = env.uuid n := by
    intro p r' hr'
    cases hold : c.before.payments.lookup p with
    | some r => exact Or.inl ⟨r, rfl⟩
    | none =>
      refine Or.inr ?_
      cases h with
      | aside h _ => rw [after_aside h, hold] at hr'; cases hr'
      | recorded h _ =>
        rcases lookup_patch_cases hr' with hr' | hmem
        · rw [hold] at hr'; cases hr'
        · exact (h.free p _ hmem).2
      | disputed id u r₀ now hcall h _ hwindow hwrites =>
        rw [after_moved hwrites] at hr'
        split at hr'
        · next heq => rw [← heq, h.row] at hold; cases hold
        · rw [hold] at hr'; cases hr'
      | resolved id u r₀ now hcall h _ hwrites =>
        rw [after_moved hwrites] at hr'
        split at hr'
        · next heq => rw [← heq, h.row] at hold; cases hold
        · rw [hold] at hr'; cases hr'
  refine ⟨fun p r' hr' => ?_, fun p r' hr' => ?_⟩
  · -- ids are drawn
    rcases hrow p r' hr' with ⟨r, hr⟩ | hnew
    · exact hb.ids p r hr
    · exact hnew
  · -- each status change sets its own stamp and keeps the other
    cases h with
    | aside h _ => rw [after_aside h] at hr'; exact hb.stamped p r' hr'
    | recorded h _ =>
      rcases lookup_patch_cases hr' with hr' | hmem
      · exact hb.stamped p r' hr'
      · obtain ⟨r, heq, hstatus, hd, hres⟩ := h.rows p _ hmem
        cases heq
        exact ⟨by simp [hstatus, hd], by simp [hstatus, hres]⟩
    | disputed id u r₀ now hcall h hold hwindow hwrites =>
      rw [after_moved hwrites] at hr'
      split at hr'
      · cases hr'
        have hresolved := (hb.stamped _ _ h.row).resolved
        exact ⟨by simp [Payment.dispute], by simpa [Payment.dispute, hold] using hresolved⟩
      · exact hb.stamped p r' hr'
    | resolved id u r₀ now hcall h hold hwrites =>
      rw [after_moved hwrites] at hr'
      split at hr'
      · cases hr'
        have hdisputed := (hb.stamped _ _ h.row).disputed
        exact ⟨by simpa [Payment.resolve, hold] using hdisputed, by simp [Payment.resolve]⟩
      · exact hb.stamped p r' hr'

end commits

/-! ## Section 3: Transactions -/

section transactions

variable {α : Type} {p u : Uuid} {r : Payment}

theorem Resident.persist {h u : Uuid} {d d' : Db} (hA : Resident h u d) (hp : Persist d d') :
    Resident h u d' := by
  obtain ⟨m, hm, hleft⟩ := hA
  obtain ⟨m', hm', hsame, _, hstay⟩ := hp.members (h, u) m hm
  exact ⟨m', hm', fun hreal => hstay (by rw [← hsame, hreal]) (hleft (by rw [← hsame, hreal]))⟩

theorem resident_of_active {h u : Uuid} {d : Db} (ha : activeMember d h u ≠ none) : Resident h u d := by
  obtain ⟨a, ha⟩ := Option.ne_none_iff_exists'.mp ha
  obtain ⟨_, m, hm, hleft⟩ := activeMember_eq_some ha
  exact ⟨m, hm, fun _ => hleft⟩

/-- A resident with an account is an active member. -/
theorem Resident.active {h u : Uuid} {d : Db} (hA : Resident h u d) (hp : People env d)
    (hu : hasAccount d u = true) : (activeMember d h u).isSome = true := by
  obtain ⟨m, hm, hleft⟩ := hA
  simp [activeMember, hm, hleft (hp.member_of_account hu hm).1]

/-- The transaction holds the payment that it has read. -/
structure PaymentHeld (p : Uuid) (r : Payment) (tx : DbTx) (d : Db) : Prop where
  holds : tx.Holds (.payment p)
  row : d.payments.lookup p = some r

theorem passive_paymentHeld (q : Writes → Prop) :
    (paymentsProtocol env).Passive q (PaymentHeld p r) where
  stable tx d d' hr _ hA := by
    have hsame : d'.payments.lookup p = d.payments.lookup p := hr.frame _ hA.holds
    exact ⟨hA.holds, by rw [hsame, hA.row]⟩
  step tx _ e _ hA := ⟨holds_add tx e hA.holds, hA.row⟩

/-- The transaction holds the payment of a recipient who is a member. -/
structure RecipientHeld (p u : Uuid) (r : Payment) (tx : DbTx) (d : Db) : Prop where
  held : PaymentHeld p r tx d
  recipient : r.toUser = u
  member : Resident r.houseId u d

theorem passive_recipientHeld (q : Writes → Prop) :
    (paymentsProtocol env).Passive q (RecipientHeld p u r) where
  stable tx d d' hr hi hA := ⟨(passive_paymentHeld q).stable tx d d' hr hi hA.held, hA.recipient,
    hA.member.persist hr.persist⟩
  step tx _ e _ hA := ⟨⟨holds_add tx e hA.held.holds, hA.held.row⟩, hA.recipient, hA.member⟩

/-- As long as nothing is written. -/
theorem passive_heldUnwritten (env : Env) (p u : Uuid) (r : Payment) :
    (paymentsProtocol env).Passive (fun w => w = {})
      fun tx d => tx.writes = {} ∧ RecipientHeld p u r tx d := by
  have hwrites : (paymentsProtocol env).Passive (fun w => w = {}) fun tx _ => tx.writes = {} :=
    passive_writes (p := fun w : Writes => w = {}) (q := fun w => w = {}) fun w w' hw hw' => by
      rw [hw, hw']
      rfl
  exact hwrites.and (passive_recipientHeld _)

theorem RecipientHeld.forRecipient {tx : DbTx} {d : Db} (hA : RecipientHeld p u r tx d) :
    ForRecipient p u r d := ⟨hA.held.row, hA.recipient, hA.member⟩

theorem view_payments {tx : DbTx} {d : Db} {now : ℕ} (h : tx.writes.payments = []) :
    (tx.view d now).db.payments = d.payments := by
  show d.payments.patch tx.writes.payments = d.payments
  rw [h, Table.patch_nil]

theorem triple_lockPayment :
    (paymentsProtocol env).Triple (fun tx _ => tx.writes = {}) (lockPayment p)
      fun r tx d => tx.writes = {} ∧ PaymentHeld p r tx d := by
  refine triple_exec (stable_const fun tx : DbTx => tx.writes = {}) fun tx d now r hA hi hres => ?_
  rw [view_payments (by rw [hA])] at hres
  split at hres
  · next payment hrow =>
    cases hres
    refine ⟨by simp [hA, Writes.append], (owns_of_lock tx _ ?_).holds, hrow⟩
    rw [view_payments (by rw [hA]), hrow]
    exact List.mem_singleton_self _
  · cases hres

theorem triple_paymentForRecipient {id : JsString} {forbidden : JsString} :
    (paymentsProtocol env).Triple (fun tx _ => tx.writes = {}) (paymentForRecipient id u forbidden)
      fun r tx d => tx.writes = {} ∧ RecipientHeld (toUuid id) u r tx d := by
  refine triple_bind triple_lockPayment fun r => ?_
  have hstable : (paymentsProtocol env).Stable fun tx d => tx.writes = {} ∧ PaymentHeld (toUuid id) r tx d :=
    (stable_const _).and (passive_paymentHeld fun _ => True).stable
  refine triple_bind (B := fun m tx d => (tx.writes = {} ∧ PaymentHeld (toUuid id) r tx d) ∧
    (m ≠ none → Resident r.houseId u d)) (triple_select hstable fun tx d now hA hi => ⟨hA, fun hm => ?_⟩)
    fun m => ?_
  · refine resident_of_active (fun hnone => hm ?_)
    have hmembers : (tx.view d now).db.houseMembers = d.houseMembers :=
      view_houseMembers (by rw [hA.1])
    simpa only [activeMember, hmembers] using hnone
  refine triple_bind (triple_reject _) fun _ => triple_bind (triple_reject _) fun _ => ?_
  exact triple_pure fun tx d hA => ⟨hA.1.1.1.1, hA.1.1.1.2, not_not.mp hA.2, hA.1.1.2 hA.1.2⟩

/-- The guarded update, and the event of the move. -/
theorem triple_move {status : PaymentStatus} {closed : Err} {set : Millis → Payment → Payment}
    {event : ActivityInput} {N : DbTx → Prop}
    (hN : (paymentsProtocol env).Passive (fun _ => True) fun tx _ => N tx)
    (hset : ∀ now, (set now r).houseId = r.houseId)
    (hevent : event.row = ⟨toUuid r.houseId, u, event.type, .payment, p, .none⟩) :
    (paymentsProtocol env).Triple
      (fun tx d => (tx.writes = {} ∧ RecipientHeld p u r tx d) ∧ N tx)
      (do
        let moved ← updatePayment p status closed set
        let event ← log event
        return ((p, moved), [event]))
      fun _ tx d => ∃ now, ForRecipient p u r d ∧ r.status = status ∧ N tx ∧
        tx.writes = moveWrites p u (set now r) event.type := by
  have hkeep : (paymentsProtocol env).Passive (fun _ => True)
      fun tx d => RecipientHeld p u r tx d ∧ N tx := (passive_recipientHeld _).and hN
  have hstable : (paymentsProtocol env).Stable
      fun tx d => (tx.writes = {} ∧ RecipientHeld p u r tx d) ∧ N tx :=
    ((stable_const _).and (passive_recipientHeld fun _ => True).stable).and hN.stable
  refine triple_bind (B := fun _ tx d => (∃ now, tx.writes = { payments := [(p, some (set now r))] }) ∧
    r.status = status ∧ RecipientHeld p u r tx d ∧ N tx) ?_ fun moved => ?_
  · refine triple_exec hstable fun tx d now r' hA hi hres => ?_
    have hrow : (tx.view d now).db.payments.lookup p = some r := by
      rw [view_payments (by rw [hA.1.1])]
      exact hA.1.2.held.row
    rw [hrow] at hres ⊢
    dsimp only at hres ⊢
    split at hres
    · next hstatus =>
      refine ⟨⟨now, ?_⟩, hstatus, hkeep.step _ _ _ trivial ⟨hA.1.2, hA.2⟩⟩
      rw [if_pos hstatus, Tx.add_writes, hA.1.1]
      rfl
    · cases hres
  · refine triple_bind (B := fun _ tx d => ∃ now, ForRecipient p u r d ∧ r.status = status ∧ N tx ∧
      tx.writes = moveWrites p u (set now r) event.type) ?_ fun _ => triple_pure fun _ _ hA => hA
    refine triple_exec ((stable_const fun tx => ∃ now, tx.writes = { payments := [(p, some (set now r))] }).and
      ((stable_const fun _ => r.status = status).and hkeep.stable)) fun tx d now _ hA _ _ => ?_
    obtain ⟨⟨at', hwrites⟩, hstatus, hkept⟩ := hA
    obtain ⟨hheld, hn⟩ := hkeep.step tx d { writes := { activityEvents := [event.row] } } trivial hkept
    refine ⟨at', hheld.forRecipient, hstatus, hn, ?_⟩
    rw [Tx.add_writes, hwrites, hevent, moveWrites, hset]
    rfl

theorem passive_inWindow (r : Payment) :
    (paymentsProtocol env).Passive (fun _ => True) fun tx _ => InWindow r tx where
  stable _ _ _ _ _ hA := hA
  step _ _ _ _ hA := by
    obtain ⟨now, hnow, hle⟩ := hA
    exact ⟨now, List.mem_append_left _ hnow, hle⟩

/-- The end of a move. -/
def Moved (p u : Uuid) (status : PaymentStatus) (N : Payment → DbTx → Prop)
    (set : Millis → Payment → Payment) (type : EventType) (tx : DbTx) (d : Db) : Prop :=
  ∃ r now, ForRecipient p u r d ∧ r.status = status ∧ N r tx ∧
    tx.writes = moveWrites p u (set now r) type

theorem stable_moved {status : PaymentStatus} {N : Payment → DbTx → Prop}
    {set : Millis → Payment → Payment} {type : EventType} :
    (paymentsProtocol env).Stable (Moved p u status N set type) := by
  rintro tx d d' hr hi ⟨r, now, h, hstatus, hn, hwrites⟩
  have hwritten : LockKey.payment p ∈ tx.writes.written := by
    rw [hwrites]
    exact Writes.mem_written.mpr (List.mem_singleton_self _)
  have hsame : d'.payments.lookup p = d.payments.lookup p := hr.frame _ (Or.inl hwritten)
  exact ⟨r, now, ⟨by rw [hsame, h.row], h.recipient, h.member.persist hr.persist⟩, hstatus, hn, hwrites⟩

theorem Keeps.of_moved {m : DbTxn α} {status : PaymentStatus} {N : Payment → DbTx → Prop}
    {f : Millis → Payment → Payment} {type : EventType}
    (hm : (paymentsProtocol env).Triple (fun tx _ => tx.writes = {}) m
      fun _ => Moved p u status N f type)
    (hguar : ∀ tx d, Moved p u status N f type tx d → PaymentsGuar env c tx d) :
    Keeps (paymentsProtocol env) c m := fun _ hk _ _ =>
  safe_of_triple hm rfl (fun _ => stable_moved) (fun _ _ _ hA _ => hguar _ _ hA)
    (fun a _ _ _ _ => hk (.ok a) _ _) fun e _ => hk (.error e) _ _

theorem disputePayment_keeps {id : JsString} :
    Keeps (paymentsProtocol env) (.disputePayment id u) (begin >>= disputePaymentTx id u) := by
  refine Keeps.of_moved (N := InWindow) (f := fun now r => r.dispute now)
    (triple_bind (triple_begin (stable_const _)) fun _ =>
      triple_bind triple_paymentForRecipient fun r => ?_)
    fun _ _ ⟨r, now, h, hstatus, hwindow, hwrites⟩ => ⟨r, now, h, hstatus, hwindow, hwrites⟩
  have hkeep := passive_heldUnwritten env (toUuid id) u r
  refine triple_bind (triple_passive hkeep only_reject) fun _ => ?_
  refine triple_bind (triple_clock hkeep rfl) fun now => ?_
  refine triple_bind (triple_reject _) fun _ => ?_
  exact triple_weaken (triple_move (passive_inWindow r) (fun _ => rfl) rfl)
    (fun tx d hA => ⟨hA.1.1, now, hA.1.2, not_lt.mp hA.2⟩) fun _ _ _ ⟨now, hA⟩ => ⟨r, now, hA⟩

theorem resolvePayment_keeps {id : JsString} :
    Keeps (paymentsProtocol env) (.resolvePayment id u) (begin >>= resolvePaymentTx id u) := by
  refine Keeps.of_moved (N := fun _ _ => True) (f := fun now r => r.resolve now)
    (triple_bind (triple_begin (stable_const _)) fun _ =>
      triple_bind triple_paymentForRecipient fun r => ?_)
    fun _ _ ⟨r, now, h, hstatus, _, hwrites⟩ => ⟨r, now, h, hstatus, hwrites⟩
  have hkeep := passive_heldUnwritten env (toUuid id) u r
  refine triple_bind (triple_passive hkeep only_reject) fun _ => ?_
  exact triple_weaken (triple_move (passive_const _ True) (fun _ => rfl) rfl)
    (fun tx d hA => ⟨hA, trivial⟩) fun _ _ _ ⟨now, hA⟩ => ⟨r, now, hA⟩

/-! ### Recording -/

theorem passive_recordsNew : (paymentsProtocol env).Passive (fun w => w.payments = []) (RecordsNew env) where
  stable tx d d' hr _ hA := by
    refine ⟨fun p o hmem => ?_, hA.rows⟩
    obtain ⟨hnone, n, hn, hid⟩ := hA.free p o hmem
    have hwritten : LockKey.payment p ∈ tx.writes.written :=
      Writes.mem_written.mpr (List.mem_map.mpr ⟨(p, o), hmem, rfl⟩)
    have hsame : d'.payments.lookup p = d.payments.lookup p := hr.frame _ (Or.inl hwritten)
    exact ⟨by rw [hsame, hnone], n, lt_of_lt_of_le hn hr.fresh, hid⟩
  step tx d e hq hA := by
    have hsame : (tx.add e).writes.payments = tx.writes.payments := by
      simp [Writes.append, hq]
    refine ⟨fun p o hmem => ?_, fun p o hmem => hA.rows p o (hsame ▸ hmem)⟩
    obtain ⟨hnone, n, hn, hid⟩ := hA.free p o (hsame ▸ hmem)
    exact ⟨hnone, n, lt_of_lt_of_le hn (Nat.le_add_right _ _), hid⟩

theorem recordPayment_keeps {h : JsString} {key : JsString} {input : RecordPaymentInput} {id : KeyId}
    {hash : JsString} :
    Keeps (paymentsProtocol env) (.recordPayment h u key input)
      (begin >>= recordPaymentTx env h u input (store id hash)) := by
  intro k hk seen d
  refine safe_of_triple (A := fun tx _ => tx.writes.payments = []) (B := fun _ => RecordsNew env)
    ?_ rfl (fun _ => passive_recordsNew.stable) (fun _ _ _ hA _ => hA)
    (fun a _ _ _ _ => hk (.ok a) _ _) fun e d => hk (.error e) _ d
  have hnone : (paymentsProtocol env).Passive (fun w => w.payments = [])
      fun tx _ => tx.writes.payments = [] :=
    passive_writes (p := fun w : Writes => w.payments = []) (q := fun w => w.payments = [])
      fun w w' hw hw' => by simp [Writes.append, hw, hw']
  have h0 : ({} : Writes).payments = [] := rfl
  refine triple_bind (triple_passive hnone (only_begin h0)) fun startedAt => ?_
  refine triple_bind (triple_passive hnone (only_selectHouse h0)) fun house =>
    triple_bind (triple_passive hnone only_reject) fun _ => triple_bind (triple_passive hnone
      (Txn.only_mapError (only_lockActingMember h0))) fun _ => ?_
  refine triple_bind (B := fun _ => RecordsNew env) ?_ fun _ =>
    triple_bind (triple_passive passive_recordsNew (only_log rfl)) fun _ =>
    triple_bind (triple_passive passive_recordsNew (only_store fun _ => rfl)) fun _ =>
    triple_pure fun _ _ hA => hA
  refine triple_exec hnone.stable fun tx d now p hA hi _ => ?_
  have hwrites : (tx.add { writes := { payments := [(env.uuid d.fresh, some
      (⟨toUuid h, u, toUuid input.toUser, input.amountCents, input.currency.getD house.currency,
        input.method, .recorded, startedAt, none, none⟩ : Payment))] }, ids := 1 }).writes.payments =
      [(env.uuid d.fresh, some ⟨toUuid h, u, toUuid input.toUser, input.amountCents,
        input.currency.getD house.currency, input.method, .recorded, startedAt, none, none⟩)] := by
    simp [Writes.append, hA]
  refine ⟨fun p o hmem => ?_, fun p o hmem => ?_⟩
  · obtain ⟨rfl, _⟩ := Prod.mk.inj (List.mem_singleton.mp (hwrites ▸ hmem))
    refine ⟨?_, d.fresh, Nat.lt_succ_self _, rfl⟩
    show d.payments.lookup _ = none
    by_contra hne
    obtain ⟨r, hr⟩ := Option.ne_none_iff_exists'.mp hne
    obtain ⟨n, hn, hid⟩ := hi.2.ids _ r hr
    exact absurd (env.uuid_inj hid) (by omega)
  · obtain ⟨_, rfl⟩ := Prod.mk.inj (List.mem_singleton.mp (hwrites ▸ hmem))
    exact ⟨_, rfl, rfl, rfl, rfl⟩

end transactions

/-! ## Section 4: Runs -/

theorem payments_safe (c : Call) (d : Db) :
    (paymentsProtocol env).Safe c (route env c) d Tx.empty d := by
  cases c with
  | recordPayment h u key input =>
    exact always_route (fun _ _ => trivial)
      (show KeepsAll (paymentsProtocol env) env (.recordPayment h u key input) from recordPayment_keeps) _ _
  | disputePayment p u =>
    exact always_route (fun _ _ => trivial)
      (show KeepsAll (paymentsProtocol env) env (.disputePayment p u) from disputePayment_keeps) _ _
  | resolvePayment p u =>
    exact always_route (fun _ _ => trivial)
      (show KeepsAll (paymentsProtocol env) env (.resolvePayment p u) from resolvePayment_keeps) _ _
  | _ => exact safe_trivial (fun _ _ _ => trivial) (fun _ _ => trivial) _ _ _ _

theorem payments_lawful :
    (paymentsProtocol env).Lawful (homi env) (Known env) fun _ _ => True where
  rely_refl tx d := ⟨Persist.refl d, .refl d, Frame.refl tx d, le_refl _⟩
  rely_trans _ _ _ _ h h' := ⟨h.persist.trans h'.persist, h.payments.trans h'.payments,
    h.frame.trans h'.frame, h.fresh.trans h'.fresh⟩
  rely_tick tx n d _ := ⟨(LedgerRely.tick tx n d : LedgerRely False False _ _ _).toPersist,
    .refl d, Frame.tick tx n d, Nat.le_add_right _ _⟩
  inv_tick n d h := ⟨h.1.tick n, fun p r hr => by
    obtain ⟨m, hm, hid⟩ := h.2.ids p r hr
    exact ⟨m, lt_of_lt_of_le hm (Nat.le_add_right _ _), hid⟩, h.2.stamped⟩
  inv_init := ⟨ledgerBase_empty env, fun _ _ h => (by cases h), fun _ _ h => (by cases h)⟩
  inv_commit c hk hi hg _ := ⟨hk.after, (hk.paymentCommit hg).base hi.2⟩
  rely_commit c tx hk _ hg hheld' hheld hc _ :=
    ⟨hk.step.toPersist, (hk.paymentCommit hg).step, Frame.commit hc hheld hheld', le_refl _⟩
  apart_empty _ := trivial
  start c d _ _ := payments_safe c d
  killed _ _ _ _ := trivial

theorem payments_reachable {s : HomiState} (h : HomiReachable env s) : (paymentsProtocol env).Holds s :=
  holds_of_known payments_lawful (fun _ _ _ _ _ => trivial) (fun _ _ => trivial) h

theorem paymentCommit_reachable {s : HomiState} (h : HomiReachable env s) :
    ∀ c ∈ s.wal, PaymentCommit env c := fun c hc =>
  (known_reachable h c hc).paymentCommit ((payments_reachable h).commits c hc).2

/-! ## Section 5: Balances -/

/-- The database with the payment back as it was recorded. -/
def Db.undisputed (d : Db) (p : Uuid) (r : Payment) : Db :=
  let r₀ : Payment := { r with status := .recorded, disputedAt := none, resolvedAt := none }
  { d with payments := d.payments.patch [(p, some r₀)] }

section balances

variable {d : Db} {p : Uuid} {r : Payment}

/-- The rows of a table, one of them first. -/
theorem rows_perm_cons {V : Type} {T : Table Uuid V} {v : V} (h : T.lookup p = some v) :
    T.rows.Perm ((p, v) :: T.rows.filter fun x => x.1 ≠ p) := by
  have hnodup : T.rows.Nodup := List.Nodup.of_map _ T.nodup_keys_rows
  refine (List.perm_ext_iff_of_nodup hnodup (List.nodup_cons.mpr ⟨by simp, hnodup.filter _⟩)).mpr ?_
  rintro ⟨k, x⟩
  simp only [List.mem_cons, List.mem_filter, Table.mem_rows, Prod.mk.injEq, decide_eq_true_eq, ne_eq]
  constructor
  · intro hk
    by_cases heq : k = p
    · subst heq
      rw [h] at hk
      exact Or.inl ⟨rfl, (Option.some.inj hk).symm⟩
    · exact Or.inr ⟨hk, heq⟩
  · rintro (⟨rfl, rfl⟩ | ⟨hk, _⟩)
    · exact h
    · exact hk

/-- The rows of a house, the payment first. -/
theorem paymentRows_perm (h : d.payments.lookup p = some r) (houseId : Uuid) :
    (paymentRows d houseId).Perm ((if r.houseId = houseId then [r.toRow] else []) ++
      ((d.payments.rows.filter fun x => x.1 ≠ p).filter fun (_, p) => p.houseId = houseId).map
        fun (_, p) => p.toRow) := by
  have hperm := ((rows_perm_cons h).filter fun (_, p) => p.houseId = houseId).map
    fun x : Uuid × Payment => x.2.toRow
  refine hperm.trans (List.Perm.of_eq ?_)
  by_cases hh : r.houseId = houseId <;> simp [hh]

theorem getBalances_perm {payments : List PaymentRow} {houseId : JsString}
    (h : (paymentRows d (toUuid houseId)).Perm payments) :
    getBalances d houseId = computeBalances (expenseRows d (toUuid houseId)) payments := by
  refine computeBalances_congr ⟨⟨_, List.Perm.refl _, List.forall₂_same.mpr fun _ _ => ⟨rfl, .refl _⟩⟩, h⟩

/-- The payments of the house besides `p`. -/
theorem undisputed_rest (d : Db) (p : Uuid) (r : Payment) (houseId : Uuid) :
    ((((d.undisputed p r).payments.rows.filter fun x => x.1 ≠ p).filter
      fun (_, p) => p.houseId = houseId).map fun (_, p) => p.toRow).Perm
      (((d.payments.rows.filter fun x => x.1 ≠ p).filter
        fun (_, p) => p.houseId = houseId).map fun (_, p) => p.toRow) := by
  have hnodup : ∀ T : Table Uuid Payment, T.rows.Nodup := fun T => List.Nodup.of_map _ T.nodup_keys_rows
  refine ((List.perm_ext_iff_of_nodup ((hnodup _).filter _) ((hnodup _).filter _)).mpr ?_).filter _ |>.map _
  rintro ⟨k, x⟩
  simp only [List.mem_filter, Table.mem_rows, Db.undisputed, decide_eq_true_eq]
  refine and_congr_left fun hk => ?_
  rw [Table.lookup_patch_singleton, if_neg (Ne.symm hk)]

theorem getBalances_undisputed (houseId : JsString) :
    getBalances (d.undisputed p r) houseId = computeBalances (expenseRows d (toUuid houseId))
      ((if r.houseId = toUuid houseId then [{ r.toRow with status := .recorded }] else []) ++
        ((d.payments.rows.filter fun x => x.1 ≠ p).filter fun (_, p) => p.houseId = toUuid houseId).map
          fun (_, p) => p.toRow) := by
  have hrow : (d.undisputed p r).payments.lookup p =
      some { r with status := .recorded, disputedAt := none, resolvedAt := none } := by
    rw [Db.undisputed, Table.lookup_patch_singleton, if_pos rfl]
  exact getBalances_perm ((paymentRows_perm hrow (toUuid houseId)).trans
    ((undisputed_rest d p r (toUuid houseId)).append_left _))

/-- A payment counts unless it is disputed. -/
theorem balances_of_counted (h : d.payments.lookup p = some r) (hr : r.status ≠ .disputed)
    (houseId : JsString) : getBalances d houseId = getBalances (d.undisputed p r) houseId := by
  rw [getBalances_undisputed, getBalances_perm (paymentRows_perm h (toUuid houseId))]
  split
  · exact computeBalances_of_counted _ _ hr
  · rfl

theorem balances_of_disputed (h : d.payments.lookup p = some r) (hr : r.status = .disputed)
    (hgood : GoodPayment none d r) (hpeople : People env d) (hhouse : toUuid r.houseId = r.houseId) :
    getBalances d r.houseId ≠ getBalances (d.undisputed p r) r.houseId := by
  have hclean : ∀ u, Acts none d u → bar ∉ u := by
    rintro u (hu | hu)
    · obtain ⟨row, hrow, _⟩ := hasAccount_iff.mp hu
      obtain ⟨n, _, rfl⟩ := hpeople.ids u row hrow
      exact env.bar_notMem_uuid n
    · cases hu
  rw [getBalances_undisputed, getBalances_perm (paymentRows_perm h (toUuid r.houseId)),
    if_pos hhouse.symm, if_pos hhouse.symm]
  exact computeBalances_of_disputed (p := r.toRow) _ _ hr hgood.ne (ne_of_gt hgood.positive)
    (hclean _ hgood.fromUser) (hclean _ hgood.toUser)

end balances

/-! ## Section 6: The result -/

/-- The commit moves the payment from `old` to `new`. -/
def MovesPayment (c : HomiCommit) (p : Uuid) (old new : PaymentStatus) : Prop :=
  ∃ r r', c.before.payments.lookup p = some r ∧ c.after.payments.lookup p = some r' ∧
    r.status = old ∧ r'.status = new

/-- The events of one type about the payment that a commit adds. -/
def eventCount (c : HomiCommit) (type : EventType) (p : Uuid) : ℕ :=
  (c.tx.writes.activityEvents.filter fun e => e.type = type ∧ e.entityId = p).length

/-- The call of the commit is `call`, made by the recipient of `p`, who is
    then an active member of its house. -/
def ByRecipient (c : HomiCommit) (p : Uuid) (r : Payment) (call : JsString → Uuid → Call) : Prop :=
  (∃ id, c.call = call id r.toUser ∧ toUuid id = p) ∧
    (activeMember c.before r.houseId r.toUser).isSome = true

/-- The life of the payments of a run.

    * `created`, `kept`: a payment starts as recorded, and a commit leaves it
      alone or moves it on; the rest of its row never changes.
    * `disputes`, `resolves`: the moves are made by the recipient, disputes
      after a look at the clock within the window.
    * `once`: no move is made twice.
    * `stamps`: the time stamps fit the status.
    * `events`: each move has one event, and there are no others.
    * `rejected`: a call that fails commits nothing.
    * `balances`: the balances are those with the payment counted, exactly
      unless it is disputed. -/
structure PaymentLives (s : HomiState) : Prop where
  created : ∀ c ∈ s.wal, ∀ p r', c.before.payments.lookup p = none →
    c.after.payments.lookup p = some r' → r'.status = .recorded
  kept : ∀ c ∈ s.wal, ∀ p r, c.before.payments.lookup p = some r →
    ∃ r', c.after.payments.lookup p = some r' ∧
      r' = { r with status := r'.status, disputedAt := r'.disputedAt, resolvedAt := r'.resolvedAt } ∧
      (r' = r ∨ (r.status = .recorded ∧ r'.status = .disputed) ∨
        (r.status = .disputed ∧ r'.status = .resolved))
  disputes : ∀ c ∈ s.wal, ∀ p, MovesPayment c p .recorded .disputed →
    ∃ r, c.before.payments.lookup p = some r ∧ ByRecipient c p r .disputePayment ∧ InWindow r c.tx
  resolves : ∀ c ∈ s.wal, ∀ p, MovesPayment c p .disputed .resolved →
    ∃ r, c.before.payments.lookup p = some r ∧ ByRecipient c p r .resolvePayment
  once : ∀ p old new, old ≠ new →
    s.wal.Pairwise fun c c' => ¬ (MovesPayment c p old new ∧ MovesPayment c' p old new)
  stamps : ∀ p r, s.db.payments.lookup p = some r →
    (r.disputedAt.isSome ↔ r.status = .disputed ∨ r.status = .resolved) ∧
      (r.resolvedAt.isSome ↔ r.status = .resolved)
  events : ∀ c ∈ s.wal, ∀ p,
    (MovesPayment c p .recorded .disputed → eventCount c .paymentDisputed p = 1) ∧
    (¬ MovesPayment c p .recorded .disputed → eventCount c .paymentDisputed p = 0) ∧
    (MovesPayment c p .disputed .resolved → eventCount c .paymentResolved p = 1) ∧
    (¬ MovesPayment c p .disputed .resolved → eventCount c .paymentResolved p = 0)
  rejected : ∀ (n : ℕ) (pr : Proc Db Writes LockKey Note Hint Reply Call), s.procs[n]? = some pr →
    (∃ id u, pr.call = .disputePayment id u ∨ pr.call = .resolvePayment id u) →
    (∃ err, pr.prog = .done (.failure err)) → ∀ c ∈ s.wal, c.pid ≠ n
  balances : ∀ p r, s.db.payments.lookup p = some r →
    (r.status ≠ .disputed →
      ∀ h, getBalances s.db h = getBalances (s.db.undisputed p r) h) ∧
    (r.status = .disputed →
      getBalances s.db r.houseId ≠ getBalances (s.db.undisputed p r) r.houseId)

section moves

variable {c : HomiCommit} {p : Uuid}

theorem PaymentCommit.moved (h : PaymentCommit env c) {r : Payment}
    (hr : c.before.payments.lookup p = some r) :
    ∃ r', c.after.payments.lookup p = some r' ∧
      r' = { r with status := r'.status, disputedAt := r'.disputedAt, resolvedAt := r'.resolvedAt } ∧
      (r' = r ∨ (r.status = .recorded ∧ r'.status = .disputed) ∨
        (r.status = .disputed ∧ r'.status = .resolved)) := by
  cases h with
  | aside h _ => exact ⟨r, by rw [after_aside h, hr], rfl, Or.inl rfl⟩
  | recorded h _ => exact ⟨r, after_recorded h hr, rfl, Or.inl rfl⟩
  | disputed id u r₀ now hcall h hold hwindow hwrites =>
    rw [after_moved hwrites]
    split
    · next heq =>
      subst heq
      obtain rfl := Option.some.inj (h.row.symm.trans hr)
      exact ⟨_, rfl, rfl, Or.inr (Or.inl ⟨hold, rfl⟩)⟩
    · exact ⟨r, hr, rfl, Or.inl rfl⟩
  | resolved id u r₀ now hcall h hold hwrites =>
    rw [after_moved hwrites]
    split
    · next heq =>
      subst heq
      obtain rfl := Option.some.inj (h.row.symm.trans hr)
      exact ⟨_, rfl, rfl, Or.inr (Or.inr ⟨hold, rfl⟩)⟩
    · exact ⟨r, hr, rfl, Or.inl rfl⟩

/-- A move is that of a dispute or a resolve of this payment. -/
theorem PaymentCommit.of_moves (h : PaymentCommit env c) {old new : PaymentStatus} (hne : old ≠ new)
    (hm : MovesPayment c p old new) :
    (∃ id u r now, c.call = .disputePayment id u ∧ toUuid id = p ∧ ForRecipient p u r c.before ∧
      old = .recorded ∧ new = .disputed ∧ InWindow r c.tx ∧
      c.tx.writes = moveWrites p u (r.dispute now) .paymentDisputed) ∨
    ∃ id u r now, c.call = .resolvePayment id u ∧ toUuid id = p ∧ ForRecipient p u r c.before ∧
      old = .disputed ∧ new = .resolved ∧
      c.tx.writes = moveWrites p u (r.resolve now) .paymentResolved := by
  obtain ⟨r, r', hr, hr', rfl, rfl⟩ := hm
  have hsame : c.after.payments.lookup p ≠ c.before.payments.lookup p := by
    rw [hr, hr']
    rintro heq
    cases heq
    exact hne rfl
  cases h with
  | aside h _ => exact absurd (after_aside h p) hsame
  | recorded h _ => exact absurd ((after_recorded h hr).trans hr.symm) hsame
  | disputed id u r₀ now hcall h hold hwindow hwrites =>
    rw [after_moved hwrites] at hr' hsame
    split at hr'
    · next heq =>
      subst heq
      obtain rfl := Option.some.inj (h.row.symm.trans hr)
      cases hr'
      exact Or.inl ⟨id, u, r₀, now, hcall, rfl, h, hold, rfl, hwindow, hwrites⟩
    · next hother => exact absurd (if_neg hother) hsame
  | resolved id u r₀ now hcall h hold hwrites =>
    rw [after_moved hwrites] at hr' hsame
    split at hr'
    · next heq =>
      subst heq
      obtain rfl := Option.some.inj (h.row.symm.trans hr)
      cases hr'
      exact Or.inr ⟨id, u, r₀, now, hcall, rfl, h, hold, rfl, hwrites⟩
    · next hother => exact absurd (if_neg hother) hsame

theorem eventCount_of_writes {q u : Uuid} {r' : Payment} {type type' : EventType}
    (h : c.tx.writes = moveWrites q u r' type') :
    eventCount c type p = if type' = type ∧ q = p then 1 else 0 := by
  rw [eventCount, h]
  simp only [moveWrites, List.filter_cons, List.filter_nil]
  split <;> simp_all

theorem eventCount_of_others {type : EventType}
    (h : ∀ e ∈ c.tx.writes.activityEvents, e.type ≠ type) : eventCount c type p = 0 := by
  rw [eventCount, List.length_eq_zero_iff, List.filter_eq_nil_iff]
  intro e he
  simp [h e he]

theorem PaymentCommit.not_moves (h : PaymentCommit env c) {old new : PaymentStatus} (hne : old ≠ new)
    {type : EventType} (htype : (old = .recorded ∧ new = .disputed ∧ type = .paymentDisputed) ∨
      (old = .disputed ∧ new = .resolved ∧ type = .paymentResolved)) :
    (MovesPayment c p old new → eventCount c type p = 1) ∧
      (¬ MovesPayment c p old new → eventCount c type p = 0) := by
  constructor
  · intro hm
    rcases h.of_moves hne hm with ⟨id, u, r, now, _, _, _, rfl, rfl, _, hwrites⟩ |
      ⟨id, u, r, now, _, _, _, rfl, rfl, hwrites⟩
    · obtain ⟨_, _, rfl⟩ | ⟨hbad, _⟩ := htype
      · rw [eventCount_of_writes hwrites, if_pos ⟨rfl, rfl⟩]
      · cases hbad
    · obtain ⟨hbad, _⟩ | ⟨_, _, rfl⟩ := htype
      · cases hbad
      · rw [eventCount_of_writes hwrites, if_pos ⟨rfl, rfl⟩]
  · intro hm
    cases h with
    | aside _ hevents | recorded _ hevents =>
      refine eventCount_of_others fun e he => ?_
      rcases htype with ⟨_, _, rfl⟩ | ⟨_, _, rfl⟩
      · exact (hevents e he).1
      · exact (hevents e he).2
    | disputed id u r now hcall h hold hwindow hwrites =>
      rw [eventCount_of_writes hwrites, if_neg]
      rintro ⟨rfl, rfl⟩
      rcases htype with ⟨rfl, rfl, _⟩ | ⟨_, _, hbad⟩
      · exact hm ⟨r, r.dispute now, h.row, by rw [after_moved hwrites, if_pos rfl], hold, rfl⟩
      · cases hbad
    | resolved id u r now hcall h hold hwrites =>
      rw [eventCount_of_writes hwrites, if_neg]
      rintro ⟨rfl, rfl⟩
      rcases htype with ⟨_, _, hbad⟩ | ⟨rfl, rfl, _⟩
      · cases hbad
      · exact hm ⟨r, r.resolve now, h.row, by rw [after_moved hwrites, if_pos rfl], hold, rfl⟩

end moves

/-- In every run, payments live by the rules of disputes. -/
theorem payments_live_by_disputes (env : Env) (s : HomiState) (h : HomiReachable env s) :
    PaymentLives s := by
  have hcommit := paymentCommit_reachable h
  have hknown := known_reachable h
  have hholds := payments_reachable h
  obtain ⟨hbase, hparties⟩ := (parties_reachable h).inv
  have hactive : ∀ c ∈ s.wal, ∀ {p u : Uuid} {r : Payment}, c.call.user? = some u →
      ForRecipient p u r c.before → (activeMember c.before r.houseId r.toUser).isSome = true := by
    intro c hc p u r huser hr
    rw [hr.recipient]
    exact hr.member.active (hknown c hc).before.people ((hknown c hc).account u huser)
  refine ⟨fun c hc p r' hold hr' => ?_, fun c hc p r hr => (hcommit c hc).moved hr,
    fun c hc p hm => ?_, fun c hc p hm => ?_, fun p old new hne => ?_, fun p r hr => ?_,
    fun c hc p => ?_, fun n pr hp hcall hprog => ?_, fun p r hr => ⟨fun hs hh => ?_, fun hs => ?_⟩⟩
  · -- a payment enters with status recorded
    cases hcommit c hc with
    | aside h _ => rw [after_aside h, hold] at hr'; cases hr'
    | recorded h _ =>
      rcases lookup_patch_cases hr' with hr' | hmem
      · rw [hold] at hr'; cases hr'
      · obtain ⟨r, heq, hstatus, _⟩ := h.rows p _ hmem
        cases heq
        exact hstatus
    | disputed id u r₀ now hcall h _ hwindow hwrites =>
      rw [after_moved hwrites] at hr'
      split at hr'
      · next heq => rw [← heq, h.row] at hold; cases hold
      · rw [hold] at hr'; cases hr'
    | resolved id u r₀ now hcall h _ hwrites =>
      rw [after_moved hwrites] at hr'
      split at hr'
      · next heq => rw [← heq, h.row] at hold; cases hold
      · rw [hold] at hr'; cases hr'
  · -- disputed by the recipient, in the window
    rcases (hcommit c hc).of_moves (by decide) hm with ⟨id, u, r, now, hcall, hid, hr, _, _, hwindow, _⟩ |
      ⟨_, _, _, _, _, _, _, hbad, _⟩
    · refine ⟨r, hr.row, ⟨⟨id, by rw [hr.recipient]; exact hcall, hid⟩, ?_⟩, hwindow⟩
      exact hactive c hc (by rw [hcall]; rfl) hr
    · cases hbad
  · -- resolved by the recipient
    rcases (hcommit c hc).of_moves (by decide) hm with ⟨_, _, _, _, _, _, _, hbad, _⟩ |
      ⟨id, u, r, now, hcall, hid, hr, _, _, _⟩
    · cases hbad
    · refine ⟨r, hr.row, ⟨id, by rw [hr.recipient]; exact hcall, hid⟩, ?_⟩
      exact hactive c hc (by rw [hcall]; rfl) hr
  · refine hholds.order.imp_of_mem ?_
    rintro c c' hc hc' hrely ⟨hm, hm'⟩
    -- the status has moved on since the first one
    obtain ⟨r, r', hr, hr', rfl, rfl⟩ := hm
    obtain ⟨r₁, _, hr₁, _, hold, _⟩ := hm'
    obtain ⟨r₂, hr₂, hlater⟩ := hrely.payments p r' hr'
    rw [hr₁] at hr₂
    cases hr₂
    obtain ⟨r₃, hr₃, hlater'⟩ := (hcommit c hc).step p r hr
    rw [hr'] at hr₃
    cases hr₃
    have hrank := hlater.rank
    have hrank' := hlater'.rank
    rw [hold] at hrank
    cases hs : r.status <;> cases hs' : r'.status <;> simp_all [statusRank]
  · -- the time stamps go with the status
    obtain ⟨hd, hres⟩ := hholds.inv.2.stamped p r hr
    refine ⟨hd.trans ?_, hres⟩
    cases r.status <;> simp
  · -- no other moves
    obtain ⟨hd, hd'⟩ := (hcommit c hc).not_moves (p := p) (by decide : PaymentStatus.recorded ≠ .disputed)
      (Or.inl ⟨rfl, rfl, rfl⟩)
    obtain ⟨hr, hr'⟩ := (hcommit c hc).not_moves (p := p) (by decide : PaymentStatus.disputed ≠ .resolved)
      (Or.inr ⟨rfl, rfl, rfl⟩)
    exact ⟨hd, hd', hr, hr'⟩
  · -- a request that fails leaves no commit
    obtain ⟨err, hprog⟩ := hprog
    refine failed_commits_nothing h hp ?_ hprog
    obtain ⟨id, u, hcall | hcall⟩ := hcall <;> rw [hcall] <;> rfl
  · exact balances_of_counted hr hs hh
  · have hgood := hparties.payments p r hr
    obtain ⟨house, hhouse, _⟩ := hgood.currency
    obtain ⟨n, _, hid⟩ := hparties.houses _ house hhouse
    exact balances_of_disputed hr hs hgood hbase.people (by rw [hid]; exact env.toUuid_uuid n)

/-- `ann` pays `cleo`, who disputes the payment and then accepts it. -/
def disputeSession : List (Action Call) := serial 1000 0 (opening ++ [
  (.createInvite theHouse ann none, 4),
  (.acceptInvite (js "token-3") cleo, 8),
  (.recordPayment theHouse ann (sampleUuid 200) { toUser := cleo, amountCents := 500 }, 10),
  (.disputePayment (sampleUuid 4) cleo, 7),
  (.resolvePayment (sampleUuid 4) cleo, 7)])

theorem payments_live_by_disputes_resolved :
    ∃ s : HomiState, (∃ p r, s.db.payments.lookup p = some r ∧ r.status = .resolved) ∧
      PaymentLives s := by
  obtain ⟨s, hrun, hs⟩ := Run.exists_of_drive (homi sampleEnv) disputeSession
    (fun s => (s.db.payments.lookup (sampleUuid 4)).any fun r => r.status = .resolved)
    (by decide +kernel)
  obtain ⟨r, hr, hresolved⟩ := (Option.any_eq_true _ _).mp hs
  exact ⟨s, ⟨sampleUuid 4, r, hr, of_decide_eq_true hresolved⟩, payments_live_by_disputes sampleEnv s hrun⟩

end Homi
