import Homi.Verification.Members

/-! # Runs under the ledger protocol

  All calls keep to the ledger protocol. So its rules hold in every run;
  two of them only in runs that meet a condition on the commits.
-/

namespace Homi

open ReadCommitted Protocol

variable {env : Env} {merged unread : Prop} {c : Call}

/-! ## Section 1: All calls -/

/-- A transaction whose body needs a fact about the database to start with. -/
theorem LedgerBody.transact {α : Type} {A : Db → Prop}
    {fn : Millis → DbTxn (α × List ActivityInput)} {next : Except Err α → DbProg}
    {B : α × List ActivityInput → DbTx → Db → Prop}
    (h : ∀ startedAt, LedgerBody env merged unread c A (fn startedAt) B)
    (hA : ∀ d d', Persist d d' → A d → A d') {seen d : Db} (hd : A d)
    (hnext : ∀ r, Always (ledgerProtocol env merged unread) c (next r)) :
    (ledgerProtocol env merged unread).Safe c (Homi.transact fn next) seen Tx.empty d :=
  (LedgerBody.begin hA h).safe hd (always_logged hnext)

theorem ledger_keeps (hc : c.isAccept = false) (hu : ∀ u input, c ≠ .createHouse u input) :
    KeepsAll (ledgerProtocol env merged unread) env c := by
  have h0 := Writes.quiet_nothing
  have hquiet : ∀ e : ActivityEvent, Writes.Quiet { activityEvents := [e] } :=
    fun _ => ⟨rfl, rfl, rfl, rfl, rfl, rfl⟩
  have hstore : ∀ (id : KeyId) (hash : JsString) (p : Writes → Prop),
      (∀ es, p { idempotencyKeys := es }) → ∀ r, (store id hash r).Only p :=
    fun _ _ _ hp _ => only_store hp
  have hbegin : ∀ {α : Type} {fn : Millis → DbTxn α} {B : α → DbTx → Db → Prop},
      (∀ startedAt, LedgerBody env merged unread c (fun _ => True) (fn startedAt) B) →
      Keeps (ledgerProtocol env merged unread) c (begin >>= fn) :=
    fun h => (LedgerBody.begin (fun _ _ _ hA => hA) h).keeps
  cases c with
  | signUp email name => exact (signUp_body hc).keeps
  | createHouse u input => exact absurd rfl (hu u input)
  | createPlaceholder h u name => exact hbegin fun _ => createPlaceholder_body hc
  | setDisplayName h u name => exact hbegin fun _ => setDisplayName_body hc
  | setRooms h u rooms => exact hbegin fun _ => setRooms_body hc
  | createInvite h u placeholderId => exact fun _ => (createInvite_body hc).keeps
  | acceptInvite token u => cases hc
  | createExpense h u key input => exact hbegin fun _ => createExpense_body hc (hstore _ _)
  | editExpense e u key input => exact hbegin fun _ => editExpense_body hc (hstore _ _)
  | recordPayment h u key input =>
    exact hbegin fun _ => LedgerBody.of_quiet hc _ (only_recordPaymentTx h0
      (fun _ => ⟨rfl, rfl, rfl, rfl, rfl, rfl⟩) (fun e _ => hquiet e)
      (hstore _ _ _ fun _ => ⟨rfl, rfl, rfl, rfl, rfl, rfl⟩))
  | disputePayment p u =>
    exact hbegin fun _ => LedgerBody.of_quiet hc _ (only_disputePaymentTx h0
      (fun _ => ⟨rfl, rfl, rfl, rfl, rfl, rfl⟩) fun e _ => hquiet e)
  | resolvePayment p u =>
    exact hbegin fun _ => LedgerBody.of_quiet hc _ (only_resolvePaymentTx h0
      (fun _ => ⟨rfl, rfl, rfl, rfl, rfl, rfl⟩) fun e _ => hquiet e)
  | createBill h u key input =>
    exact hbegin fun _ => LedgerBody.of_quiet hc _ (only_createBillTx h0
      (fun _ => ⟨rfl, rfl, rfl, rfl, rfl, rfl⟩) (fun e _ => hquiet e)
      (hstore _ _ _ fun _ => ⟨rfl, rfl, rfl, rfl, rfl, rfl⟩))
  | setActive h b u active =>
    exact hbegin fun _ => LedgerBody.of_quiet hc _ (only_setActiveTx h0
      (fun _ => ⟨rfl, rfl, rfl, rfl, rfl, rfl⟩) fun e _ => hquiet e)
  | postDueBills now =>
    refine ⟨fun _ _ _ => (postOne_body hc).keeps, fun _ _ _ => (LedgerBody.of_quiet hc _
      (only_advanceBill fun _ => ⟨rfl, rfl, rfl, rfl, rfl, rfl⟩)).keeps, fun _ _ =>
      (LedgerBody.of_quiet hc _ (only_pauseTx (p := Writes.Quiet) (fun e _ => hquiet e)
        fun _ => ⟨rfl, rfl, rfl, rfl, rfl, rfl⟩)).keeps⟩

/-- The two calls that are not safe for everybody: their user has an account. -/
theorem ledger_start {c : Call} {d : Db} (hadm : admits d c = true) :
    (ledgerProtocol env merged unread).Safe c (route env c) d Tx.empty d := by
  have haccount : ∀ u d d', Persist d d' → hasAccount d u = true → hasAccount d' u = true :=
    fun _ _ _ hp hA => hasAccount_rely hA hp
  cases c with
  | acceptInvite token u =>
    have hd : hasAccount d u = true := by simpa [admits, Call.user?] using hadm
    rw [route, acceptInvite]
    refine LedgerBody.transact (fun _ => acceptInvite_body) (haccount u) hd fun r => ?_
    cases r <;> exact always_done fun _ => trivial
  | createHouse u input =>
    have hd : hasAccount d u = true := by simpa [admits, Call.user?] using hadm
    rw [route, parseBody]
    split
    · rw [createHouse]
      refine LedgerBody.transact (fun _ => createHouse_body rfl) (haccount u) hd fun r => ?_
      cases r <;> exact always_done fun _ => trivial
    · trivial
  | _ =>
    exact always_route (fun _ _ => trivial) (ledger_keeps rfl fun _ _ heq => by cases heq) _ _

/-! ## Section 2: The protocol holds -/

/-- What the assumptions of the protocol say about a commit and another open
    transaction. -/
structure LedgerApart (merged unread : Prop) (c : HomiCommit) (tx : DbTx) : Prop where
  merged : merged → ∀ u e, Folding tx u e → ¬ GivesTo c u e
  unread : unread → ∀ e, Note.snapshot e ∈ tx.notes → SameExpense e c.before c.after

theorem ledger_lawful :
    (ledgerProtocol env merged unread).Lawful (homi env) (fun _ => True)
      (LedgerApart merged unread) where
  rely_refl := LedgerRely.refl
  rely_trans := fun _ _ _ _ h h' => h.trans h'
  rely_tick := fun tx n d _ => LedgerRely.tick tx n d
  inv_tick := fun n d h => ⟨h.1.tick n, fun hm => h.2 hm⟩
  inv_init := ⟨ledgerBase_empty env, fun _ => balanced_empty⟩
  inv_commit := fun c _ hi hg _ => ⟨hg.base, fun hm => hg.balanced hm (hi.2 hm)⟩
  rely_commit := fun c tx _ _ hg hheld' hheld hc hap =>
    LedgerRely.commit hg.step hc hheld hheld' hap.merged hap.unread
  apart_empty := by
    intro c
    refine ⟨?_, fun _ e he => by cases he⟩
    rintro _ u e ⟨es, hlast, _⟩
    cases hlast
  start := fun c d _ hadm => ledger_start hadm
  killed := fun _ _ _ _ => trivial

/-- Nobody commits a re-identification that gives a claimer a split of an
    expense while a claim of the same claimer is between the snapshot of its
    fold, which saw the placeholder's split there, and that of its delete. -/
def FoldsApart (s : HomiState) (a : Action Call) : Prop :=
  ∀ c, Commits s a c → ∀ q qr, q ≠ c.pid → s.procs[q]? = some qr →
    ∀ u e, Folding qr.tx u e → ¬ GivesTo c u e

/-- Nobody commits a change to an expense or its splits while another open
    transaction has read the expense for a revision. -/
def ReadsApart (s : HomiState) (a : Action Call) : Prop :=
  ∀ c, Commits s a c → ∀ q qr, q ≠ c.pid → s.procs[q]? = some qr →
    ∀ e, Note.snapshot e ∈ qr.tx.notes → SameExpense e c.before c.after

theorem ledger_holds {ok : HomiState → Action Call → Prop} {s : HomiState}
    (hrun : Run (homi env) ok s) (hm : merged → ∀ s a, ok s a → FoldsApart s a)
    (hr : unread → ∀ s a, ok s a → ReadsApart s a) :
    (ledgerProtocol env merged unread).Holds s :=
  Protocol.sound ledger_lawful
    { allows := fun _ _ _ _ _ _ => trivial
      stops := fun _ _ _ _ _ => trivial
      apart := fun s a c q qr ha hcommit hq hp =>
        ⟨fun h => hm h s a ha c hcommit q qr hq hp, fun h => hr h s a ha c hcommit q qr hq hp⟩
      known := fun _ _ _ _ => trivial } hrun

/-- In every run, with no assumption about it. -/
theorem ledger_reachable {s : HomiState} (h : HomiReachable env s) :
    (ledgerProtocol env False False).Holds s := ledger_holds h False.elim False.elim

/-! ## Section 3: Some sessions -/

/-- The first identifiers of `sampleEnv` go to two users and a house. -/
def ann : Uuid := sampleUuid 0
def cleo : Uuid := sampleUuid 1
def theHouse : Uuid := sampleUuid 2

/-- Two users sign up, and the first one opens a house. -/
def opening : List (Call × ℕ) := [
  (.signUp (js "ann@homi.app") (js "Ann"), 2),
  (.signUp (js "cleo@homi.app") (js "Cleo"), 2),
  (.createHouse ann ⟨js "House", js "UTC", js "USD"⟩, 6)]

def dinner (amountCents : ℤ) (participants : List Uuid) : CreateExpenseInput where
  description := js "dinner"
  amountCents := amountCents
  paidBy := ann
  mode := .equal
  participants := participants

/-- A dinner with a placeholder, whom `cleo` claims. -/
def claimSession : List (Action Call) := serial 1000 0 (opening ++ [
  (.createPlaceholder theHouse ann (js "Pat"), 8),
  (.createInvite theHouse ann (some (sampleUuid 3)), 5),
  (.createExpense theHouse ann (sampleUuid 200) (dinner 1000 [ann, sampleUuid 3]), 12),
  (.acceptInvite (js "token-4") cleo, 20)])

/-- `cleo` is a member. She claims two guests of a dinner at once: the claim
    of the second one has run its fold when that of the first commits. -/
def racingClaims : List (Action Call) := serial 1000 0 (opening ++ [
  (.createInvite theHouse ann none, 4),
  (.acceptInvite (js "token-3") cleo, 8),
  (.createPlaceholder theHouse ann (js "Pat"), 8),
  (.createPlaceholder theHouse ann (js "Sam"), 8),
  (.createInvite theHouse ann (some (sampleUuid 4)), 5),
  (.createInvite theHouse ann (some (sampleUuid 5)), 5),
  (.createExpense theHouse ann (sampleUuid 200)
    (dinner 900 [ann, sampleUuid 4, sampleUuid 5]), 12),
  (.acceptInvite (js "token-7") cleo, 6),
  (.acceptInvite (js "token-6") cleo, 17)]) ++ List.replicate 11 (.run 10 1000)

/-- While a process steps, no other one has noted what it read. -/
def quiet (s : HomiState) : Action Call → Bool
  | .run p _ => s.procs.zipIdx.all fun x => x.2 == p || x.1.tx.notes.isEmpty
  | _ => true

theorem quiet_notes {s : HomiState} {a : Action Call} (h : quiet s a = true) {c : HomiCommit}
    (hc : Commits s a c) {q : ℕ} {qr : Proc Db Writes LockKey Note Hint Reply Call}
    (hq : q ≠ c.pid) (hp : s.procs[q]? = some qr) : qr.tx.notes = [] := by
  obtain ⟨now, pr, next, rfl, _⟩ := hc
  have hmem : (qr, q) ∈ s.procs.zipIdx := List.mem_zipIdx_iff_getElem?.mpr hp
  have hquiet := List.all_eq_true.mp h (qr, q) hmem
  simpa [hq] using hquiet

theorem quiet_foldsApart (s : HomiState) (a : Action Call) (h : quiet s a = true) :
    FoldsApart s a := by
  rintro c hc q qr hq hp u e ⟨es, hlast, _⟩
  rw [quiet_notes h hc hq hp] at hlast
  cases hlast

/-- The commit is an accept that claims the placeholder `k`, a house and a user. -/
def Claims (c : HomiCommit) (k : Uuid × Uuid) : Prop :=
  c.call.isAccept = true ∧ ∃ m, (k, some m) ∈ c.tx.writes.houseMembers ∧ m.claimedBy ≠ none

/-- A claim is for good. -/
theorem claimed_rely {tx : DbTx} {d d' : Db} {k : Uuid × Uuid} {m : HouseMember}
    (hr : LedgerRely merged unread tx d d') (hm : d.houseMembers.lookup k = some m)
    (hne : m.claimedBy ≠ none) :
    ∃ m', d'.houseMembers.lookup k = some m' ∧ m'.claimedBy ≠ none := by
  obtain ⟨m', hm', _, hc, _⟩ := hr.members k m hm
  obtain ⟨u, hu⟩ := Option.ne_none_iff_exists'.mp hne
  exact ⟨m', hm', by rw [hc u hu]; simp⟩

/-- After a claim the placeholder is claimed at every later commit. -/
theorem claimed_later {s : HomiState} (hs : (ledgerProtocol env merged unread).Holds s) {i j : ℕ}
    {c c' : HomiCommit} (hi : s.wal[i]? = some c) (hj : s.wal[j]? = some c') (hij : i < j)
    {k : Uuid × Uuid} (hc : Claims c k) :
    ∃ m, c'.before.houseMembers.lookup k = some m ∧ m.claimedBy ≠ none := by
  obtain ⟨haccept, m, hmem, hne⟩ := hc
  obtain ⟨_, m', hm', hne'⟩ := (hs.commits c (List.mem_of_getElem? hi)).2.claims haccept k m hmem hne
  obtain ⟨hi', hgi⟩ := List.getElem?_eq_some_iff.mp hi
  obtain ⟨hj', hgj⟩ := List.getElem?_eq_some_iff.mp hj
  have hrely := List.pairwise_iff_getElem.mp hs.order i j hi' hj' hij
  rw [hgi, hgj] at hrely
  exact claimed_rely hrely hm' hne'

/-- Whatever runs beside it, a claim leaves no split behind, happens once,
    closes the membership, and ends the invites of the placeholder. -/
theorem claims_leave_no_residue (env : Env) (s : HomiState) (h : HomiReachable env s) :
    (∀ rid split, s.db.split rid = some split → ∀ k m,
      s.db.houseMembers.lookup (k, split.userId) = some m → m.claimedBy = none) ∧
    (∀ (i j : ℕ) (c c' : HomiCommit) k, s.wal[i]? = some c → s.wal[j]? = some c' → Claims c k →
      Claims c' k → i = j) ∧
    (∀ k m, s.db.houseMembers.lookup k = some m → m.isPlaceholder = true →
      (m.claimedBy.isSome ↔ m.leftAt.isSome)) ∧
    (∀ (i j : ℕ) (c c' : HomiCommit) k p, s.wal[i]? = some c → s.wal[j]? = some c' → i < j →
      Claims c (k, p) → ∀ id (invite : Invite), c'.after.invites.lookup id = some invite → c'.before.invites.lookup id = none →
        invite.placeholderUserId ≠ some p) := by
  have hs := ledger_reachable h
  refine ⟨hs.inv.1.bookings.holder, ?_, fun k m => hs.inv.1.people.left k.1 k.2 m, ?_⟩
  · have hlt : ∀ (i j : ℕ) (c c' : HomiCommit) k, s.wal[i]? = some c → s.wal[j]? = some c' → Claims c k →
        Claims c' k → ¬ i < j := by
      intro i j c c' k hi hj hc hc' hij
      obtain ⟨m, hm, hne⟩ := claimed_later hs hi hj hij hc
      obtain ⟨haccept, m', hmem, hne'⟩ := hc'
      obtain ⟨⟨m₀, hm₀, hnone⟩, _⟩ :=
        (hs.commits c' (List.mem_of_getElem? hj)).2.claims haccept k m' hmem hne'
      rw [hm] at hm₀
      cases hm₀
      exact hne hnone
    intro i j c c' k hi hj hc hc'
    rcases lt_trichotomy i j with hij | hij | hij
    · exact absurd hij (hlt i j c c' k hi hj hc hc')
    · exact hij
    · exact absurd hij (hlt j i c' c k hj hi hc' hc)
  · intro i j c c' k p hi hj hij hc id invite hnew hold hp
    obtain ⟨m, hm, hne⟩ := claimed_later hs hi hj hij hc
    obtain ⟨hinv, hguar⟩ := hs.commits c' (List.mem_of_getElem? hj)
    have hlook : c'.after.invites.lookup id =
        (Table.lastEdit c'.tx.writes.invites id).getD (c'.before.invites.lookup id) :=
      Table.lookup_patch _ _ _
    cases hedit : Table.lastEdit c'.tx.writes.invites id with
    | none => rw [hnew, hedit, hold] at hlook; cases hlook
    | some o =>
      rw [hnew, hedit] at hlook
      obtain rfl : some invite = o := hlook
      obtain ⟨m', hm', hnone⟩ := hguar.invites id invite (Table.mem_of_lastEdit hedit) hold p hp
      have hpl := hinv.1.people.claimed k p m hm (Option.isSome_iff_ne_none.mpr hne)
      obtain hk := hinv.1.people.home k invite.houseId p m m' hm hm' hpl
      rw [hk, hm] at hm'
      cases hm'
      exact hne hnone

theorem claims_leave_no_residue_dinner : ∃ s : HomiState,
    (∃ m, s.db.houseMembers.lookup (theHouse, sampleUuid 3) = some m ∧ m.claimedBy = some cleo) ∧
    ∀ rid split, s.db.split rid = some split → split.userId ≠ sampleUuid 3 := by
  obtain ⟨s, hrun, hs⟩ := Run.exists_of_drive (homi sampleEnv) claimSession
    (fun s => (s.db.houseMembers.lookup (theHouse, sampleUuid 3)).any
      fun m => m.claimedBy = some cleo) (by decide +kernel)
  obtain ⟨m, hm, hc⟩ := (Option.any_eq_true _ _).mp hs
  have hc := of_decide_eq_true hc
  refine ⟨s, ⟨m, hm, hc⟩, fun rid split hsplit hu => ?_⟩
  have hnone := (claims_leave_no_residue sampleEnv s hrun).1 rid split hsplit theHouse m (hu ▸ hm)
  rw [hc] at hnone
  cases hnone

/-! ## Section 5: The splits of an expense sum to its amount -/

/-- What invariant 2 says of a database. -/
def SplitsSum (d : Db) : Prop :=
  ∀ e row, d.expenses.lookup e = some row → d.splitSum e = row.amountCents ∧
    (∀ rid split, d.split rid = some split → split.expenseId = e → 0 ≤ split.amountCents) ∧
    ∃ rid split, d.split rid = some split ∧ split.expenseId = e

theorem LedgerBase.splitsSum {d : Db} (hb : LedgerBase env d) (hbal : Balanced d) : SplitsSum d := by
  intro e row hrow
  refine ⟨hbal e row hrow, fun rid split hs _ => hb.bookings.nonneg rid split hs, ?_⟩
  have hpos : d.splitSum e ≠ 0 := by
    rw [hbal e row hrow]
    exact (hb.bookings.amount e row hrow).ne'
  have hne : d.splitsOf e ≠ [] := by
    intro hnil
    exact hpos (by rw [Db.splitSum, hnil]; rfl)
  obtain ⟨⟨rid, split⟩, hmem⟩ := List.exists_mem_of_ne_nil _ hne
  exact ⟨rid, split, Db.mem_splitsOf.mp hmem⟩

/-- As long as folds stay apart, the splits sum to the amount in every
    committed state. -/
theorem splits_sum_of_folds_apart (env : Env) (s : HomiState) (h : Run (homi env) FoldsApart s) :
    SplitsSum s.db := by
  have hs : (ledgerProtocol env True False).Holds s := ledger_holds h (fun _ _ _ ha => ha) False.elim
  exact hs.inv.1.splitsSum (hs.inv.2 trivial)

theorem splits_sum_of_folds_apart_dinner :
    ∃ s : HomiState, s.wal.length = 7 ∧ SplitsSum s.db := by
  obtain ⟨s, hrun, hs⟩ := Run.exists_of_driveIf (homi sampleEnv) quiet_foldsApart
    claimSession (fun s => s.wal.length = 7) (by decide +kernel)
  exact ⟨s, of_decide_eq_true hs, splits_sum_of_folds_apart sampleEnv s hrun⟩

/-- The sweep of the second claim deletes a share that its fold did not see. -/
theorem racing_claims_lose_a_share : ¬ ∀ s, HomiReachable sampleEnv s → SplitsSum s.db := by
  intro h
  obtain ⟨s, hrun, hs⟩ := Run.exists_of_drive (homi sampleEnv) racingClaims
    (fun s => (s.db.expenses.lookup (sampleUuid 8)).any (fun e => e.amountCents = 900) &&
      s.db.splitSum (sampleUuid 8) = 600) (by decide +kernel)
  obtain ⟨hrow, hsum⟩ := Bool.and_eq_true_iff.mp hs
  obtain ⟨row, hlook, hamount⟩ := (Option.any_eq_true _ _).mp hrow
  have hsplits := (h s hrun (sampleUuid 8) row hlook).1
  rw [of_decide_eq_true hsum, of_decide_eq_true hamount] at hsplits
  cases hsplits

/-! ## Section 6: Revisions -/

section revisions

variable {a b d d' : Db} {e u u' : Uuid}

theorem becomes_total (d : Db) (u : Uuid) : ∃ u', Becomes d u u' := by
  by_cases h : ∃ k m, d.houseMembers.lookup (k, u) = some m ∧ m.claimedBy ≠ none
  · obtain ⟨k, m, hm, hne⟩ := h
    obtain ⟨c, hc⟩ := Option.ne_none_iff_exists'.mp hne
    exact ⟨c, .claimed k c m hm hc⟩
  · refine ⟨u, .same fun k m hm => ?_⟩
    by_contra hne
    exact h ⟨k, m, hm, hne⟩

theorem becomes_tick {n : ℕ} : Becomes (tick n d) u u' ↔ Becomes d u u' := by
  constructor <;> intro h
  · cases h with
    | claimed k _ m hm hc => exact .claimed k _ m hm hc
    | same h => exact .same h
  · cases h with
    | claimed k _ m hm hc => exact .claimed k _ m hm hc
    | same h => exact .same h

theorem SameUpTo.tick (h : SameUpTo e a b) (n : ℕ) : SameUpTo e a (tick n b) := by
  refine ⟨h.row, fun rid u' amount => ?_⟩
  simp only [becomes_tick]
  exact h.splits rid u' amount

/-- Who claimed a placeholder is nobody's placeholder. -/
theorem Becomes.of_claimer (hp : People env d) {k v c : Uuid} {m : HouseMember}
    (hm : d.houseMembers.lookup (k, v) = some m) (hc : m.claimedBy = some c) : Becomes d c c := by
  obtain ⟨r, hr, hne⟩ := hp.claimer k v m c hm hc
  exact .same fun k' m' hm' =>
    (hp.member_of_account (hasAccount_iff.mpr ⟨r, hr, hne⟩) hm').2

theorem SameUpTo.trans (h : SameUpTo e a b) (h' : SameUpTo e b d) (hp : People env d)
    (hstep : ∀ k, MemberStep (b.houseMembers.lookup k) (d.houseMembers.lookup k)) :
    SameUpTo e a d := by
  have hlater : ∀ {k v c m}, b.houseMembers.lookup (k, v) = some m → m.claimedBy = some c →
      ∃ m', d.houseMembers.lookup (k, v) = some m' ∧ m'.claimedBy = some c := by
    intro k v c m hm hc
    obtain ⟨m', hm', _, hkeep, _⟩ := hstep (k, v) m hm
    exact ⟨m', hm', hkeep c hc⟩
  refine ⟨h'.row.trans h.row, fun rid u' amount => ?_⟩
  rw [h'.splits]
  constructor
  · rintro ⟨v, hv, hbec'⟩
    obtain ⟨u, hu, hbec⟩ := (h.splits rid v amount).mp hv
    refine ⟨u, hu, ?_⟩
    cases hbec with
    | same _ => exact hbec'
    | claimed k _ m hm hc =>
      obtain ⟨m', hm', hc'⟩ := hlater hm hc
      have hsame := Becomes.of_claimer hp hm' hc'
      cases hbec' with
      | same _ => exact .claimed k _ m' hm' hc'
      | claimed k' _ m'' hm'' hc'' =>
        have hnone := (hp.member_of_account
          (hasAccount_iff.mpr (hp.claimer k u m' v hm' hc')) hm'').2
        rw [hnone] at hc''
        cases hc''
  · rintro ⟨u, hu, hbec⟩
    obtain ⟨v, hv⟩ := becomes_total b u
    refine ⟨v, (h.splits rid v amount).mpr ⟨u, hu, hv⟩, ?_⟩
    cases hv with
    | same _ => exact hbec
    | claimed k _ m hm hc =>
      obtain ⟨m', hm', hc'⟩ := hlater hm hc
      rw [hbec.eq hp hm' hc']
      exact Becomes.of_claimer hp hm' hc'

end revisions

/-- A user with a split in `d` that the revision does not have. -/
theorem Truthful.hasSplit {d : Db} {r : Revision} {u : Uuid} (h : Truthful d r)
    (hs : d.hasSplit r.expenseId u = true) : r.previous.splits.lookup u ≠ none := by
  obtain ⟨_, _, _, hsplits⟩ := h
  obtain ⟨⟨rid, split⟩, hmem, hu⟩ := List.any_eq_true.mp hs
  obtain ⟨hsplit, he⟩ := Db.mem_splitsOf.mp hmem
  obtain rfl : split.userId = u := of_decide_eq_true hu
  have hlook := (hsplits split.userId split.amountCents).mpr ⟨rid, by rw [hsplit, ← he]⟩
  simp [hlook]

theorem SameExpense.hasSplit {d d' : Db} {e u : Uuid} (h : SameExpense e d d')
    (hs : d.hasSplit e u = true) : d'.hasSplit e u = true := by
  obtain ⟨⟨rid, split⟩, hmem, hu⟩ := List.any_eq_true.mp hs
  obtain ⟨hsplit, he⟩ := Db.mem_splitsOf.mp hmem
  exact List.any_eq_true.mpr
    ⟨(rid, split), Db.mem_splitsOf.mpr ⟨(h.splits rid split he).mpr hsplit, he⟩, hu⟩

end Homi
