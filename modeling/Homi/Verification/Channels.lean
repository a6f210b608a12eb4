import Homi.Api.Realtime
import Homi.Verification.Hints

/-! # Where hints go

  A call behind `HouseMemberGuard` publishes its hints under the house id
  as its route spelled it. The gateway listens under the id in lower case.
-/

namespace Homi

open ReadCommitted

/-! ## Section 1: What the transactions log -/

section names

variable {α : Type} {k : JsString} {env : Env} {startedAt : Millis}

/-- All that is logged names the house `k`. -/
def Names (k : JsString) (r : α × List ActivityInput) : Prop := ∀ event ∈ r.2, event.houseId = k

/-- A transaction that logs one event, and what it does after that. -/
theorem returns_log {event : ActivityInput} {f : ActivityInput → DbTxn (α × List ActivityInput)}
    (hf : (f event).Returns (Names k)) : (log event >>= f).Returns (Names k) := by
  refine Txn.returns_bind (B := fun e => e = event)
    (Txn.returns_exec fun _ _ heq => (Except.ok.inj heq).symm) ?_
  rintro _ rfl
  exact hf

theorem returns_last {event : ActivityInput} {a : α} (hk : event.houseId = k) :
    (pure (a, [event]) : DbTxn (α × List ActivityInput)).Returns (Names k) := by
  intro e he
  rw [List.mem_singleton.mp he]
  exact hk

theorem returns_nothing {a : α} :
    (pure (a, []) : DbTxn (α × List ActivityInput)).Returns (Names k) :=
  fun _ he => absurd he List.not_mem_nil

theorem createPlaceholder_names {u : Uuid} {name : JsString} :
    (createPlaceholderTx env k u name startedAt).Returns (Names k) :=
  Txn.returns_then fun _ => Txn.returns_then fun _ => Txn.returns_then fun _ =>
    returns_log (returns_last rfl)

theorem setDisplayName_names {u : Uuid} {name : Option JsString} :
    (setDisplayNameTx k u name startedAt).Returns (Names k) := by
  apply Txn.returns_then
  intro current
  by_cases hsame : current.displayName = name
  · rw [if_pos hsame]
    exact returns_nothing
  · rw [if_neg hsame]
    exact Txn.returns_then fun _ => returns_log (returns_last rfl)

theorem setRooms_names {u : Uuid} {rooms : List RoomInput} :
    (setRoomsTx env k u rooms startedAt).Returns (Names k) :=
  Txn.returns_then fun _ => Txn.returns_then fun _ => Txn.returns_then fun _ =>
    Txn.returns_then fun _ => Txn.returns_then fun _ => Txn.returns_then fun _ =>
      Txn.returns_then fun _ => returns_log (returns_last rfl)

variable {u : Uuid} {store : StoredResponse → DbTxn Unit}

theorem createExpense_names {input : CreateExpenseInput} :
    (createExpenseTx env k u input store startedAt).Returns (Names k) :=
  Txn.returns_then fun _ => Txn.returns_then fun _ => Txn.returns_then fun _ =>
    Txn.returns_then fun _ => returns_log (Txn.returns_then fun _ => returns_last rfl)

theorem recordPayment_names {input : RecordPaymentInput} :
    (recordPaymentTx env k u input store startedAt).Returns (Names k) :=
  Txn.returns_then fun _ => Txn.returns_then fun _ => Txn.returns_then fun _ =>
    Txn.returns_then fun _ => returns_log (Txn.returns_then fun _ => returns_last rfl)

theorem createBill_names {input : CreateBillInput} :
    (createBillTx env k u input store startedAt).Returns (Names k) :=
  Txn.returns_then fun _ => Txn.returns_then fun _ => Txn.returns_then fun _ =>
    Txn.returns_then fun _ => Txn.returns_then fun _ =>
      returns_log (Txn.returns_then fun _ => returns_last rfl)

theorem setActive_names {b : JsString} {active : Bool} :
    (setActiveTx env k b u active startedAt).Returns (Names k) := by
  apply Txn.returns_then
  intro bill
  apply Txn.returns_then
  intro role
  apply Txn.returns_then
  intro _
  by_cases hsame : bill.active = active
  · rw [if_pos hsame]
    exact returns_nothing
  · rw [if_neg hsame]
    exact Txn.returns_then fun _ => Txn.returns_then fun _ => returns_log (returns_last rfl)

end names

/-! ## Section 2: What the calls publish -/

/-- The output of a call that publishes for the house `k` alone. -/
def houseSpec (k : JsString) : OutputSpec Writes LockKey Note Hint Reply where
  ok out := ∀ hint, .hint hint ∈ out → hint.houseId = k
  rest _ := True
  post _ _ := True

/-- From here on, the program publishes for the house `k` alone. -/
def PublishesFor (k : JsString) (prog : DbProg) : Prop :=
  ∀ out, (houseSpec k).ok out → prog.Tells (houseSpec k) Tx.empty out

theorem publishesFor_closed (k : JsString) : Closed (PublishesFor k) where
  done _ _ _ := trivial
  query _ hnext out hout := ⟨trivial, fun _ _ => hnext _ out hout⟩

section publishes

variable {α : Type} {k : JsString} {env : Env} {out : List (Output Writes LockKey Note Hint)}

theorem houseSpec_commit {tx : DbTx} (hout : (houseSpec k).ok out) :
    (houseSpec k).ok (out ++ [.commit tx]) := by
  intro hint hmem
  rcases List.mem_append.mp hmem with hmem | hmem
  · exact hout hint hmem
  · cases List.mem_singleton.mp hmem

theorem publishesFor_emitAll {hints : List Hint} {next : DbProg} (hnext : PublishesFor k next)
    (hhints : ∀ hint ∈ hints, hint.houseId = k) : PublishesFor k (Prog.emitAll hints next) := by
  induction hints with
  | nil => exact hnext
  | cons first rest ih =>
    intro out hout
    have hsent : (houseSpec k).ok (out ++ [.hint first]) := by
      intro hint hmem
      rcases List.mem_append.mp hmem with hmem | hmem
      · exact hout hint hmem
      · cases List.mem_singleton.mp hmem
        exact hhints _ (List.mem_cons_self ..)
    exact ⟨hsent, ih (fun hint hmem => hhints hint (List.mem_cons_of_mem _ hmem)) _ hsent⟩

theorem publishesFor_transact {fn : Millis → DbTxn (α × List ActivityInput)}
    (h : ∀ startedAt, (fn startedAt).Returns (Names k)) : Passes (PublishesFor k) fn := by
  intro next hnext out hout
  refine Prog.tells_transact Db.empty
    (Txn.Returns.gives (B := Names k) (Txn.returns_then h)) trivial (fun r tx hr => ?_)
    fun _ => hnext _ out hout
  refine ⟨houseSpec_commit hout, publishesFor_emitAll (hnext _) ?_ _ (houseSpec_commit hout)⟩
  intro hint hmem
  obtain ⟨event, hevent, rfl⟩ := List.mem_map.mp hmem
  exact hr event hevent

theorem publishesFor_bare (m : DbTxn α) : PassesBare (PublishesFor k) m := by
  intro next hnext out hout
  refine Prog.tells_transact (B := fun _ _ => True) Db.empty
    (Txn.Returns.gives (B := fun _ => True) (Txn.returns_true m)) trivial (fun a tx _ => ?_)
    fun _ => hnext _ out hout
  exact ⟨houseSpec_commit hout, hnext _ _ (houseSpec_commit hout)⟩

/-- A call behind `HouseMemberGuard` publishes for the house of its route,
    spelled as the route spells it. -/
theorem publishesFor_route {c : Call} {u : Uuid} (hc : c.guard? = some (k, u)) :
    PublishesFor k (route env c) := by
  refine (publishesFor_closed k).route ?_
  cases c <;> cases hc
  case createPlaceholder name => exact publishesFor_transact fun _ => createPlaceholder_names
  case setDisplayName name => exact publishesFor_transact fun _ => setDisplayName_names
  case setRooms rooms => exact publishesFor_transact fun _ => setRooms_names
  case createInvite placeholderId => exact fun _ => publishesFor_bare _
  case createExpense key input => exact publishesFor_transact fun _ => createExpense_names
  case recordPayment key input => exact publishesFor_transact fun _ => recordPayment_names
  case createBill key input => exact publishesFor_transact fun _ => createBill_names
  case setActive b active => exact publishesFor_transact fun _ => setActive_names

end publishes

/-! ## Section 3: Runs -/

/-- What is asked of a call: behind the guard, that it publishes for the
    house of its route; else nothing. -/
def callSpec (c : Call) : OutputSpec Writes LockKey Note Hint Reply where
  ok out := ∀ k u, c.guard? = some (k, u) → (houseSpec k).ok out
  rest _ := True
  post _ _ := True

theorem tells_callSpec {c : Call} {k : JsString} {u : Uuid} (hc : c.guard? = some (k, u))
    {prog : DbProg} {tx : DbTx} {out : List (Output Writes LockKey Note Hint)}
    (h : prog.Tells (houseSpec k) tx out) : prog.Tells (callSpec c) tx out := by
  have hok : ∀ {out}, (houseSpec k).ok out → (callSpec c).ok out := by
    intro out hout k' u' hc'
    rw [hc] at hc'
    cases hc'
    exact hout
  induction prog generalizing tx out with
  | done r => trivial
  | query next ih => exact ⟨trivial, fun d now => ih _ (h.2 d now)⟩
  | stmt act next ih => exact ⟨trivial, fun d now => ih _ (h.2 d now)⟩
  | rollback next ih => exact ⟨trivial, ih h.2⟩
  | commit next ih => exact ⟨hok h.1, ih h.2⟩
  | emit hint next ih => exact ⟨hok h.1, ih h.2⟩

theorem tells_route (env : Env) (c : Call) : (route env c).Tells (callSpec c) Tx.empty [] := by
  cases hc : c.guard? with
  | none =>
    refine Prog.tells_trivial (fun out k u hc' => ?_) (fun _ => trivial) (fun _ _ => trivial) _ _ _
    rw [hc] at hc'
    cases hc'
  | some g =>
    refine tells_callSpec (k := g.1) (u := g.2) hc ?_
    exact publishesFor_route hc [] fun _ hmem => absurd hmem List.not_mem_nil

/-- In every run, a hint of a call behind the guard names the house as the
    route of the call does. -/
theorem hint_named {env : Env} {log : List (ℕ × Output Writes LockKey Note Hint)} {s : HomiState}
    (hlog : Logged (homi env) log s) {p : ℕ} {pr : Proc Db Writes LockKey Note Hint Reply Call}
    (hp : s.procs[p]? = some pr) {k : JsString} {u : Uuid} (hk : pr.call.guard? = some (k, u))
    {hint : Hint} (hhint : (p, .hint hint) ∈ log) : hint.houseId = k := by
  have htells := hlog.tells (S := callSpec)
    (fun c k u _ hint hmem => absurd hmem List.not_mem_nil) (fun c _ _ => tells_route env c)
    fun _ _ _ => trivial
  have hout : .hint hint ∈ outputOf p log :=
    List.mem_map.mpr ⟨_, List.mem_filter.mpr ⟨hhint, by simp⟩, rfl⟩
  exact (htells.1 p pr hp).1 k u hk hint hout

/-- In every run: a hint of a call behind the guard is for the house of its
    route, and it reaches the sockets of that house exactly when the route
    spells the id in lower case, however the sockets spelled theirs. -/
theorem hint_reaches_sockets (env : Env) (bus : Bus)
    (log : List (ℕ × Output Writes LockKey Note Hint)) (s : HomiState)
    (hlog : Logged (homi env) log s) (p : ℕ) (pr : Proc Db Writes LockKey Note Hint Reply Call)
    (hp : s.procs[p]? = some pr) (k : JsString) (u : Uuid) (hk : pr.call.guard? = some (k, u))
    (hint : Hint) (hhint : (p, .hint hint) ∈ log) (raw key : JsString)
    (hkey : upgradeHouseId raw = some key) (hhouse : toUuid raw = toUuid k) :
    toUuid hint.houseId = toUuid raw ∧ (hears bus key hint = true ↔ toUuid k = k) := by
  have hname : hint.houseId = k := hint_named hlog hp hk hhint
  obtain ⟨_, rfl⟩ := upgradeHouseId_eq hkey
  refine ⟨by rw [hname, hhouse], ?_⟩
  rw [hears_iff, hname, hhouse]
  exact eq_comm

/-- The id of the first house of a run that starts with ten accounts, as a
    client spells it in upper case. -/
def shoutedHouse : JsString := js "0A000000-0000-4000-8000-000000000000"

/-- Ten users sign up, the first one opens a house and adds a roommate
    through a route that spells the house `houseId`. -/
def spelledSession (houseId : JsString) : List (Action Call) :=
  serial 1000 0 ((List.range 10).map (fun n => (.signUp (JsString.decimal n) (js "Ann"), 2)) ++ [
    (.createHouse ann ⟨js "House", js "UTC", js "USD"⟩, 6),
    (.createPlaceholder houseId ann (js "Pat"), 8)])

/-- The process `p` serves a route to `houseId` and published the hint. -/
def published (houseId : JsString) (p : ℕ) (hint : Hint)
    (run : List (ℕ × Output Writes LockKey Note Hint) × HomiState) : Bool :=
  (run.2.procs[p]?.any fun pr => pr.call.guard? = some (houseId, ann)) &&
  run.1.any fun x => x.1 = p && match x.2 with
    | .hint sent => sent = hint
    | .commit _ => false

theorem of_published {houseId : JsString} {p : ℕ} {hint : Hint}
    {log : List (ℕ × Output Writes LockKey Note Hint)} {s : HomiState}
    (h : published houseId p hint (log, s) = true) :
    (p, .hint hint) ∈ log ∧
      ∃ pr, s.procs[p]? = some pr ∧ pr.call.guard? = some (houseId, ann) := by
  obtain ⟨hproc, hlog⟩ := Bool.and_eq_true_iff.mp h
  obtain ⟨pr, hp, hcall⟩ := (Option.any_eq_true _ _).mp hproc
  obtain ⟨⟨q, x⟩, hmem, hx⟩ := List.any_eq_true.mp hlog
  obtain ⟨hq, hsent⟩ := Bool.and_eq_true_iff.mp hx
  cases x with
  | commit tx => cases hsent
  | hint sent =>
    obtain rfl : sent = hint := of_decide_eq_true hsent
    obtain rfl : q = p := of_decide_eq_true hq
    exact ⟨hmem, pr, hp, of_decide_eq_true hcall⟩

theorem hint_reaches_sockets_lower :
    hears .redis (sampleUuid 10)
      ⟨sampleUuid 10, .memberPlaceholderAdded, .member, sampleUuid 11⟩ = true := by
  obtain ⟨log, s, hlog, hq⟩ := Logged.exists_of_drive (homi sampleEnv)
    (spelledSession (sampleUuid 10))
    (published (sampleUuid 10) 11
      ⟨sampleUuid 10, .memberPlaceholderAdded, .member, sampleUuid 11⟩) (by decide +kernel)
  obtain ⟨hmem, pr, hp, hk⟩ := of_published hq
  exact (hint_reaches_sockets sampleEnv .redis log s hlog 11 pr hp (sampleUuid 10) ann hk _ hmem
    shoutedHouse (sampleUuid 10) (by decide) (by decide)).2.mpr (by decide)

/-- A route that shouts its house id: no socket of the house hears the hint. -/
theorem shouted_hint_is_lost :
    ∃ log, ∃ s : HomiState, Logged (homi sampleEnv) log s ∧
      ∃ (p : ℕ) (pr : Proc Db Writes LockKey Note Hint Reply Call) (hint : Hint),
        s.procs[p]? = some pr ∧ pr.call.guard? = some (shoutedHouse, ann) ∧
        (p, .hint hint) ∈ log ∧
        ∀ bus raw key, upgradeHouseId raw = some key → toUuid raw = toUuid shoutedHouse →
          hears bus key hint = false := by
  obtain ⟨log, s, hlog, hq⟩ := Logged.exists_of_drive (homi sampleEnv)
    (spelledSession shoutedHouse)
    (published shoutedHouse 11
      ⟨shoutedHouse, .memberPlaceholderAdded, .member, sampleUuid 11⟩) (by decide +kernel)
  obtain ⟨hmem, pr, hp, hk⟩ := of_published hq
  refine ⟨log, s, hlog, 11, pr, _, hp, hk, hmem, fun bus raw key hkey hhouse => ?_⟩
  obtain ⟨_, rfl⟩ := upgradeHouseId_eq hkey
  -- the hint is for the shouted id, the sockets listen under the lower one
  have hne : ¬ hears bus (toUuid raw)
      ⟨shoutedHouse, .memberPlaceholderAdded, .member, sampleUuid 11⟩ = true := by
    rw [hears_iff, hhouse]
    decide
  exact Bool.eq_false_iff.mpr hne

end Homi
