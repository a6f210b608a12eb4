import Homi.Api.Snapshot
import Homi.Framework.Alone
import Homi.Verification.Payments

/-! # The dispute prompt

  The payments that a snapshot asks a member to confirm, against those that
  the member can dispute at that instant.
-/

namespace Homi

open ReadCommitted

/-! ## Section 1: What a dispute needs -/

section dispute

variable {α : Type} {d : Db} {w : Writes} {now : ℕ}

theorem reads_reject {bad : Prop} [Decidable bad] {err : Err} :
    (reject bad err).Reads fun _ => if bad then .error err else .ok () := by
  unfold reject
  split
  · exact Txn.reads_throw _
  · exact Txn.reads_ret _

theorem reads_begin : begin.Reads fun v => .ok v.now := Txn.reads_select _

theorem reads_clock : clock.Reads fun v => .ok v.now := Txn.reads_exec (fun _ => rfl) fun _ => rfl

/-- The payment, to its recipient who is still a member. -/
def recipientsPayment (d : Db) (paymentId userId : Uuid) (forbidden : JsString) :
    Except Err Payment :=
  match d.payments.lookup paymentId with
  | none => .error noPayment
  | some p =>
      if activeMember d p.houseId userId = none then .error noPayment
      else if p.toUser ≠ userId then .error (.forbidden forbidden)
      else .ok p

theorem reads_paymentForRecipient {id : JsString} {u : Uuid} {forbidden : JsString} :
    (paymentForRecipient id u forbidden).Reads fun v =>
      recipientsPayment v.db (toUuid id) u forbidden := by
  refine (Txn.reads_bind (Txn.reads_exec (fun _ => rfl) fun _ => rfl) fun p =>
    Txn.reads_bind (Txn.reads_select _) fun membership =>
    Txn.reads_bind reads_reject fun _ => Txn.reads_bind reads_reject fun _ =>
    Txn.reads_pure p).congr fun v => ?_
  unfold recipientsPayment
  cases v.db.payments.lookup (toUuid id) with
  | none => rfl
  | some p =>
    by_cases hmember : activeMember v.db p.houseId u = none
    · simp [hmember, Except.bind]
    · by_cases hmine : p.toUser = u <;> simp [hmember, hmine, Except.bind]

/-- The dispute would succeed at the instant `t`, with nobody else there. -/
def DisputeSucceeds (d : Db) (id : JsString) (u : Uuid) (t : Millis) : Prop :=
  ∃ outcome, ((disputePayment id u).alone t d {}).1 = .success outcome

theorem recipientsPayment_eq_ok {p : Uuid} {u : Uuid} {forbidden : JsString} {r : Payment} :
    recipientsPayment d p u forbidden = .ok r ↔ d.payments.lookup p = some r ∧
      activeMember d r.houseId u ≠ none ∧ r.toUser = u := by
  unfold recipientsPayment
  cases hp : d.payments.lookup p with
  | none => simp
  | some r' =>
    dsimp only
    constructor
    · intro h
      split at h
      · cases h
      · next hmember =>
        split at h
        · cases h
        · next hmine =>
          cases h
          exact ⟨rfl, hmember, not_not.mp hmine⟩
    · rintro ⟨hr, hmember, hmine⟩
      cases hr
      rw [if_neg hmember, if_neg (not_not_intro hmine)]

/-- A transaction that wrote nothing sees the database as it is. -/
theorem seen_nothing (d : Db) (now : ℕ) : seen ({} : Writes) d now = ⟨d, now⟩ := by
  show (⟨Store.apply ({} : Writes) d, now⟩ : View Db) = ⟨d, now⟩
  rw [show Store.apply ({} : Writes) d = d from LawfulStore.apply_nothing d]

/-- The transaction of a dispute, run alone. -/
theorem disputePaymentTx_alone {id : JsString} {u : Uuid} {startedAt t : Millis} :
    (∃ r, ((disputePaymentTx id u startedAt).alone t d {}).1 = .ok r) ↔
      ∃ p, d.payments.lookup (toUuid id) = some p ∧ activeMember d p.houseId u ≠ none ∧
        p.toUser = u ∧ p.status = .recorded ∧ t ≤ p.createdAt + DISPUTE_WINDOW_MS := by
  have hseen := seen_nothing d t
  unfold disputePaymentTx
  dsimp only
  -- first the payment, the membership and the recipient
  cases hfound : recipientsPayment d (toUuid id) u
      (js "Only the payment recipient can dispute it") with
  | error e =>
    rw [reads_paymentForRecipient.alone_bind_error (e := e) (by rw [hseen]; exact hfound)]
    constructor
    · rintro ⟨r, hr⟩
      cases hr
    · rintro ⟨p, hp, hmember, hmine, _⟩
      rw [recipientsPayment_eq_ok.mpr ⟨hp, hmember, hmine⟩] at hfound
      cases hfound
  | ok p =>
    obtain ⟨hp, hmember, hmine⟩ := recipientsPayment_eq_ok.mp hfound
    rw [reads_paymentForRecipient.alone_bind_ok (a := p) (by rw [hseen]; exact hfound)]
    have hiff : (∃ p', d.payments.lookup (toUuid id) = some p' ∧ activeMember d p'.houseId u ≠ none ∧
        p'.toUser = u ∧ p'.status = .recorded ∧ t ≤ p'.createdAt + DISPUTE_WINDOW_MS) ↔
        p.status = .recorded ∧ t ≤ p.createdAt + DISPUTE_WINDOW_MS := by
      constructor
      · rintro ⟨p', hp', _, _, hrest⟩
        rw [hp] at hp'
        cases hp'
        exact hrest
      · exact fun hrest => ⟨p, hp, hmember, hmine, hrest⟩
    rw [hiff]
    -- then the status, and last the window
    by_cases hstatus : p.status = .recorded
    · rw [reads_reject.alone_bind_ok (a := ()) (if_neg (not_not_intro hstatus)),
        reads_clock.alone_bind_ok (a := t) rfl]
      by_cases hwindow : p.createdAt + DISPUTE_WINDOW_MS < t
      · rw [reads_reject.alone_bind_error (if_pos hwindow)]
        constructor
        · rintro ⟨r, hr⟩
          cases hr
        · exact fun hrest => absurd hrest.2 (Nat.not_le_of_lt hwindow)
      · rw [reads_reject.alone_bind_ok (a := ()) (if_neg hwindow), Txn.alone_bind, updatePayment,
          Txn.alone_exec, hseen]
        dsimp only
        rw [hp]
        dsimp only
        rw [if_pos hstatus]
        exact ⟨fun _ => ⟨hstatus, Nat.le_of_not_lt hwindow⟩, fun _ => ⟨_, rfl⟩⟩
    · rw [reads_reject.alone_bind_error (if_pos hstatus)]
      constructor
      · rintro ⟨r, hr⟩
        cases hr
      · exact fun hrest => absurd hrest.1 hstatus

/-- What it takes: an open payment to the user, who is a member of its
    house, within the window. -/
theorem disputeSucceeds_iff {id : JsString} {u : Uuid} {t : Millis} :
    DisputeSucceeds d id u t ↔ ∃ p, d.payments.lookup (toUuid id) = some p ∧
      activeMember d p.houseId u ≠ none ∧ p.toUser = u ∧ p.status = .recorded ∧
        t ≤ p.createdAt + DISPUTE_WINDOW_MS := by
  rw [← disputePaymentTx_alone]
  unfold DisputeSucceeds disputePayment transact
  rw [Prog.alone_transact, reads_begin.alone_bind_ok (a := t) rfl]
  generalize (disputePaymentTx id u t).alone t d {} = result
  obtain ⟨r, d', w'⟩ := result
  cases r with
  | error e =>
    constructor
    · rintro ⟨outcome, h⟩
      cases h
    · rintro ⟨r, h⟩
      cases h
  | ok r =>
    dsimp only
    rw [Prog.alone_emitAll]
    exact ⟨fun _ => ⟨r, rfl⟩, fun _ => ⟨_, rfl⟩⟩

end dispute

/-! ## Section 2: The prompt -/

/-- The payments that a snapshot asks the user to confirm. -/
def PromptedFor (micros : Uuid → ℕ) (d : Db) (houseId : JsString) (u : Uuid) (t : Millis)
    (id : Uuid) : Prop :=
  ∃ fromUserId amountCents disputableUntil,
    ActionItem.confirmPayment id fromUserId amountCents disputableUntil ∈
      actionItems micros d houseId u t

section prompt

variable {micros : Uuid → ℕ} {d : Db} {houseId : JsString} {u : Uuid} {t : Millis} {id : Uuid}

theorem mem_confirmations {fromUserId : Uuid} {amountCents : ℤ} {until' : Millis} :
    ActionItem.confirmPayment id fromUserId amountCents until' ∈ actionItems micros d houseId u t ↔
      ∃ p, d.payments.lookup id = some p ∧ p.houseId = toUuid houseId ∧ p.toUser = u ∧
        p.status = .recorded ∧
        t * 1000 < p.createdAt * 1000 + micros id + DISPUTE_WINDOW_MS * 1000 ∧
        p.fromUser = fromUserId ∧ p.amountCents = amountCents ∧
        until' = p.createdAt + DISPUTE_WINDOW_MS := by
  unfold actionItems debts confirmations disputablePayments
  simp only [List.mem_append, List.mem_map, Keyset.mem_newest, List.mem_filter, decide_eq_true_eq,
    Prod.exists, Table.mem_rows]
  constructor
  · rintro (⟨_, _, hitem⟩ | ⟨id', p, ⟨hp, hhouse, hmine, hstatus, hwindow⟩, hitem⟩)
    · cases hitem
    · cases hitem
      exact ⟨p, hp, hhouse, hmine, hstatus, hwindow, rfl, rfl, rfl⟩
  · rintro ⟨p, hp, hhouse, hmine, hstatus, hwindow, rfl, rfl, rfl⟩
    exact Or.inr ⟨id, p, ⟨hp, hhouse, hmine, hstatus, hwindow⟩, rfl⟩

/-- The strict bound in microseconds misses one instant of the window. -/
theorem lt_window_iff {createdAt window now micros : ℕ} (h : micros < 1000) :
    now * 1000 < createdAt * 1000 + micros + window * 1000 ↔
      now ≤ createdAt + window ∧ ¬ (createdAt + window = now ∧ micros = 0) := by
  omega

/-- A payment to the user whose window closes at this very instant. -/
def ClosesAt (micros : Uuid → ℕ) (d : Db) (houseId : JsString) (u : Uuid) (t : Millis) : Prop :=
  ∃ id p, d.payments.lookup id = some p ∧ p.houseId = toUuid houseId ∧ p.toUser = u ∧
    p.status = .recorded ∧ p.createdAt + DISPUTE_WINDOW_MS = t ∧ micros id = 0

end prompt

/-- For every state, member and instant: the snapshot asks the member to
    confirm exactly the payments of the house that the member can dispute,
    if and only if the window of none of them closes at this instant. And
    the end of the window that an item shows is the last instant at which
    the dispute succeeds. -/
theorem prompts_match_disputes (env : Env) (s : HomiState) (h : HomiReachable env s)
    (micros : Uuid → ℕ) (hmicros : ∀ id, micros id < 1000) (houseId : JsString) (u : Uuid)
    (hu : (activeMember s.db (toUuid houseId) u).isSome) (t : Millis) :
    ((∀ id, PromptedFor micros s.db houseId u t id ↔
        (∃ p, s.db.payments.lookup id = some p ∧ p.houseId = toUuid houseId) ∧
          DisputeSucceeds s.db id u t) ↔ ¬ ClosesAt micros s.db houseId u t) ∧
    ∀ id fromUserId amountCents disputableUntil,
      .confirmPayment id fromUserId amountCents disputableUntil ∈
        actionItems micros s.db houseId u t →
      ∀ t', DisputeSucceeds s.db id u t' ↔ t' ≤ disputableUntil := by
  have hbase : PaymentsBase env s.db := (payments_reachable h).inv.2
  have hcanonical : ∀ id p, s.db.payments.lookup id = some p → toUuid id = id := by
    intro id p hp
    obtain ⟨n, _, rfl⟩ := hbase.ids id p hp
    exact env.toUuid_uuid n
  -- what the dispute of a listed row needs
  have hdispute : ∀ id p t', s.db.payments.lookup id = some p → p.houseId = toUuid houseId →
      (DisputeSucceeds s.db id u t' ↔
        p.toUser = u ∧ p.status = .recorded ∧ t' ≤ p.createdAt + DISPUTE_WINDOW_MS) := by
    intro id p t' hp hhouse
    rw [disputeSucceeds_iff, hcanonical id p hp]
    constructor
    · rintro ⟨p', hp', _, hrest⟩
      rw [hp] at hp'
      cases hp'
      exact hrest
    · refine fun hrest => ⟨p, hp, ?_, hrest⟩
      rw [hhouse]
      exact Option.isSome_iff_ne_none.mp hu
  refine ⟨⟨fun hagree => ?_, fun hopen id => ?_⟩, ?_⟩
  · rintro ⟨id, p, hp, hhouse, hmine, hstatus, hclose, hzero⟩
    -- the dispute still succeeds, and the prompt is gone
    have hsucceeds : DisputeSucceeds s.db id u t :=
      (hdispute id p t hp hhouse).mpr ⟨hmine, hstatus, hclose.ge⟩
    obtain ⟨_, _, _, hitem⟩ := (hagree id).mpr ⟨⟨p, hp, hhouse⟩, hsucceeds⟩
    obtain ⟨p', hp', _, _, _, hwindow, _⟩ := mem_confirmations.mp hitem
    rw [hp] at hp'
    cases hp'
    exact ((lt_window_iff (hmicros id)).mp hwindow).2 ⟨hclose, hzero⟩
  · constructor
    · -- a prompt is inside the window to the millisecond
      rintro ⟨_, _, _, hitem⟩
      obtain ⟨p, hp, hhouse, hmine, hstatus, hwindow, _⟩ := mem_confirmations.mp hitem
      exact ⟨⟨p, hp, hhouse⟩, (hdispute id p t hp hhouse).mpr
        ⟨hmine, hstatus, ((lt_window_iff (hmicros id)).mp hwindow).1⟩⟩
    · -- the last instant is not this one, so the microseconds do not matter
      rintro ⟨⟨p, hp, hhouse⟩, hsucceeds⟩
      obtain ⟨hmine, hstatus, hwindow⟩ := (hdispute id p t hp hhouse).mp hsucceeds
      have hnot : ¬ (p.createdAt + DISPUTE_WINDOW_MS = t ∧ micros id = 0) := fun hclose =>
        hopen ⟨id, p, hp, hhouse, hmine, hstatus, hclose.1, hclose.2⟩
      exact ⟨_, _, _, mem_confirmations.mpr
        ⟨p, hp, hhouse, hmine, hstatus, (lt_window_iff (hmicros id)).mpr ⟨hwindow, hnot⟩,
          rfl, rfl, rfl⟩⟩
  · -- the end that an item shows is the last instant
    intro id _ _ until' hitem t'
    obtain ⟨p, hp, hhouse, hmine, hstatus, _, _, _, rfl⟩ := mem_confirmations.mp hitem
    rw [hdispute id p t' hp hhouse]
    exact ⟨fun h => h.2.2, fun h => ⟨hmine, hstatus, h⟩⟩

/-- `ann` pays `cleo`, at the instant 1000. -/
def paidSession : List (Action Call) := serial 1000 0 (opening ++ [
  (.createInvite theHouse ann none, 4),
  (.acceptInvite (js "token-3") cleo, 8),
  (.recordPayment theHouse ann (sampleUuid 200) { toUser := cleo, amountCents := 500 }, 10)])

/-- The payment of `paidSession`. -/
def paidOpen (d : Db) : Bool :=
  (activeMember d theHouse cleo).isSome && (d.payments.lookup (sampleUuid 4)).any fun p =>
    p.houseId = theHouse ∧ p.toUser = cleo ∧ p.status = .recorded ∧ p.createdAt = 1000

theorem paidSession_run : ∃ s : HomiState, HomiReachable sampleEnv s ∧
    (activeMember s.db theHouse cleo).isSome ∧ ∃ p, s.db.payments.lookup (sampleUuid 4) = some p ∧
      p.houseId = theHouse ∧ p.toUser = cleo ∧ p.status = .recorded ∧ p.createdAt = 1000 := by
  obtain ⟨s, hrun, hs⟩ := Run.exists_of_drive (homi sampleEnv) paidSession
    (fun s => paidOpen s.db) (by decide +kernel)
  obtain ⟨hactive, hpaid⟩ := Bool.and_eq_true_iff.mp hs
  obtain ⟨p, hp, hfacts⟩ := (Option.any_eq_true _ _).mp hpaid
  exact ⟨s, hrun, hactive, p, hp, of_decide_eq_true hfacts⟩

theorem prompts_match_disputes_paid :
    ∃ s : HomiState, PromptedFor (fun _ => 0) s.db theHouse cleo 1000 (sampleUuid 4) := by
  obtain ⟨s, hrun, hactive, p, hp, hhouse, hmine, hstatus, hat⟩ := paidSession_run
  have hopen : ¬ ClosesAt (fun _ => 0) s.db theHouse cleo 1000 := by
    rintro ⟨_, q, _, _, _, _, hclose, _⟩
    have hlt : 1000 < q.createdAt + DISPUTE_WINDOW_MS :=
      Nat.lt_of_lt_of_le (by decide) (Nat.le_add_left _ _)
    exact absurd hclose hlt.ne'
  refine ⟨s, ((prompts_match_disputes sampleEnv s hrun (fun _ => 0) (fun _ => by decide) theHouse
    cleo hactive 1000).1.mpr hopen _).mpr ⟨⟨p, hp, hhouse⟩, disputeSucceeds_iff.mpr ?_⟩⟩
  refine ⟨p, hp, ?_, hmine, hstatus, ?_⟩
  · rw [hhouse]
    exact Option.isSome_iff_ne_none.mp hactive
  · rw [hat]
    decide

/-- When the window of a payment closes, the recipient can still dispute it,
    and the snapshot of that instant does not ask. -/
theorem prompt_ends_early :
    ∃ s : HomiState, HomiReachable sampleEnv s ∧
      (activeMember s.db (toUuid theHouse) cleo).isSome ∧
      DisputeSucceeds s.db (sampleUuid 4) cleo (1000 + DISPUTE_WINDOW_MS) ∧
      ¬ PromptedFor (fun _ => 0) s.db theHouse cleo (1000 + DISPUTE_WINDOW_MS) (sampleUuid 4) := by
  obtain ⟨s, hrun, hactive, p, hp, hhouse, hmine, hstatus, hat⟩ := paidSession_run
  refine ⟨s, hrun, hactive, disputeSucceeds_iff.mpr ⟨p, hp, ?_, hmine, hstatus, ?_⟩, ?_⟩
  · rw [hhouse]
    exact Option.isSome_iff_ne_none.mp hactive
  · rw [hat]
  · rintro ⟨_, _, _, hitem⟩
    obtain ⟨q, hq, _, _, _, hwindow, _⟩ := mem_confirmations.mp hitem
    rw [hp] at hq
    cases hq
    rw [hat] at hwindow
    exact absurd hwindow (by decide)

end Homi
