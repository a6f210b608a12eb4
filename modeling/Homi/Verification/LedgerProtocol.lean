import Homi.Verification.Footprint
import Homi.Verification.LedgerRules

/-! # The ledger protocol

  `ledgerProtocol` puts the rules of the ledger into the form that the
  interference rules ask for, with the guarantee that every commit gives.
  The last sections hold what is the same for all calls: the guards of the
  routes, and commits that leave the ledger alone.
-/

namespace Homi

open ReadCommitted

/-! ## Section 1: The guarantee -/

/-- The revision holds the expense and its splits as they are in `d`. -/
def Truthful (d : Db) (r : Revision) : Prop :=
  ∃ row, d.expenses.lookup r.expenseId = some row ∧
    r.previous = { row.previous [] with splits := r.previous.splits } ∧
    ∀ u a, r.previous.splits.lookup u = some a ↔ ∃ rid, d.split rid = some ⟨r.expenseId, u, a⟩

/-- Two splits of the expense became one. -/
def FoldedIn (d d' : Db) (e : Uuid) : Prop :=
  ∃ rid rid' mine theirs, d.split rid = some mine ∧ d.split rid' = some theirs ∧
    mine.expenseId = e ∧ theirs.expenseId = e ∧ mine.userId ≠ theirs.userId ∧
    d'.split rid = some { mine with amountCents := mine.amountCents + theirs.amountCents } ∧
    d'.split rid' = none

def Call.isAccept : Call → Bool
  | .acceptInvite _ _ => true
  | _ => false

/-- What the commit of an accept says about an expense that it folds. -/
structure FoldsSaid (tx : DbTx) (d : Db) (e : Uuid) : Prop where
  revised : (∃ r ∈ tx.writes.expenseRevisions, r.expenseId = e) ↔ FoldedIn d (tx.commit d) e
  edited : (∃ ev ∈ tx.writes.activityEvents, ev.type = .expenseEdited ∧ ev.entityId = e) ↔
    FoldedIn d (tx.commit d) e

/-- Who `u` is in `d`: a claimed placeholder is its claimer. -/
inductive Becomes (d : Db) (u : Uuid) : Uuid → Prop where
  | claimed (h c : Uuid) (m : HouseMember) (hm : d.houseMembers.lookup (h, u) = some m)
      (hc : m.claimedBy = some c) : Becomes d u c
  | same (h : ∀ k m, d.houseMembers.lookup (k, u) = some m → m.claimedBy = none) : Becomes d u u

/-- The expense and its splits are the same in both, up to claims that were
    made in between. -/
structure SameUpTo (e : Uuid) (d d' : Db) : Prop where
  row : d'.expenses.lookup e = d.expenses.lookup e
  splits : ∀ rid u' a, d'.split rid = some ⟨e, u', a⟩ ↔
    ∃ u, d.split rid = some ⟨e, u, a⟩ ∧ Becomes d' u u'

/-- The guarantee of a commit of `tx` by the call `c` onto `d`. -/
structure LedgerGuar (env : Env) (merged unread : Prop) (c : Call) (tx : DbTx) (d : Db) : Prop where
  step : LedgerStep tx d (tx.commit d)
  base : LedgerBase env (tx.commit d)
  balanced : merged → Balanced d → Balanced (tx.commit d)
  invites : ∀ i invite, (i, some invite) ∈ tx.writes.invites → d.invites.lookup i = none →
    ∀ p, invite.placeholderUserId = some p →
      ∃ m, d.houseMembers.lookup (invite.houseId, p) = some m ∧ m.claimedBy = none
  truthful : unread → ∀ r ∈ tx.writes.expenseRevisions, Truthful d r
  folds : unread → c.isAccept = true → ∀ e, FoldsSaid tx d e
  claims : c.isAccept = true → ∀ k m, (k, some m) ∈ tx.writes.houseMembers → m.claimedBy ≠ none →
    (∃ m₀, d.houseMembers.lookup k = some m₀ ∧ m₀.claimedBy = none) ∧
      ∃ m', (tx.commit d).houseMembers.lookup k = some m' ∧ m'.claimedBy ≠ none
  kept : unread → ∀ e, d.expenses.lookup e ≠ none →
    (∀ r ∈ tx.writes.expenseRevisions, r.expenseId ≠ e) → SameUpTo e d (tx.commit d)

/-! ## Section 2: Commits beside the splits -/

section people

variable {env : Env} {tx : DbTx} {d d' : Db}

theorem LedgerStep.of_people (hu : ∀ u, UserStep (d.users.lookup u) (d'.users.lookup u))
    (hm : ∀ k, MemberStep (d.houseMembers.lookup k) (d'.houseMembers.lookup k))
    (ha : ArriveActive d d') (he : d'.expenses = d.expenses)
    (hs : d'.expenseSplits = d.expenseSplits) : LedgerStep tx d d' := by
  have hsplit : ∀ rid, d'.split rid = d.split rid := by
    intro rid
    simp only [Db.split, hs]
  exact {
    users := hu
    members := hm
    arrivals := ha
    expenses := fun e => by rw [he]; exact ExpenseStep.refl _
    rows := fun rid => by rw [hs]; exact RowStep.refl _
    opened := fun rid s h hn => by rw [hsplit, hn] at h; cases h
    given := fun rid s h hn => by rw [hsplit] at h; exact absurd h hn
    taken := fun rid s h hn => by rw [hsplit] at hn; exact absurd h hn
    slots := fun rid s h hn => by rw [hsplit] at h; exact absurd rfl (hn s h) }

/-- New rows of `house_members` carry no claim. -/
def NoNewClaim (d d' : Db) : Prop :=
  ∀ k m', d'.houseMembers.lookup k = some m' → m'.claimedBy = none ∨
    ∃ m, d.houseMembers.lookup k = some m ∧ m.claimedBy = m'.claimedBy

theorem Bookings.of_people (h : Bookings env d) (he : d'.expenses = d.expenses)
    (hs : d'.expenseSplits = d.expenseSplits) (hf : d'.fresh = d.fresh)
    (hm : NoNewClaim d d') : Bookings env d' := by
  have hsplit : ∀ rid, d'.split rid = d.split rid := by
    intro rid
    simp only [Db.split, hs]
  refine ⟨?_, ?_, ?_, ?_, ?_, ?_, ?_⟩
  · rw [he, hf]; exact h.ids
  · rw [he]; exact h.amount
  · rw [hs, hf]; exact h.rids
  · simp only [hsplit, he]; exact h.expense
  · simp only [hsplit]; exact h.nonneg
  · simp only [hsplit]; exact h.slot
  · intro rid s hrid k m' hm'
    rw [hsplit] at hrid
    rcases hm _ _ hm' with hn | ⟨m, hm0, heq⟩
    · exact hn
    · rw [← heq]
      exact h.holder rid s hrid k m hm0

theorem Balanced.of_same (h : Balanced d) (he : d'.expenses = d.expenses)
    (hs : d'.expenseSplits = d.expenseSplits) : Balanced d' := by
  intro e r hr
  rw [he] at hr
  rw [← h e r hr]
  simp only [Db.splitSum, Db.splitsOf, Db.splitRows, hs]

/-- The part of a membership that the ledger looks at stays. -/
def MemberKept (old new : Option HouseMember) : Prop :=
  (old = none → new = none) ∧ ∀ m, old = some m → ∃ m', new = some m' ∧
    m'.isPlaceholder = m.isPlaceholder ∧ m'.claimedBy = m.claimedBy ∧ m'.leftAt = m.leftAt

theorem MemberKept.refl (o : Option HouseMember) : MemberKept o o :=
  ⟨id, fun m h => ⟨m, h, rfl, rfl, rfl⟩⟩

theorem MemberKept.trans {a b c : Option HouseMember} (h : MemberKept a b) (h' : MemberKept b c) :
    MemberKept a c := by
  refine ⟨fun ha => h'.1 (h.1 ha), ?_⟩
  intro m hm
  obtain ⟨m', hm', hp, hc, hl⟩ := h.2 m hm
  obtain ⟨m'', hm'', hp', hc', hl'⟩ := h'.2 m' hm'
  exact ⟨m'', hm'', hp'.trans hp, hc'.trans hc, hl'.trans hl⟩

theorem MemberKept.step {o o' : Option HouseMember} (h : MemberKept o o') : MemberStep o o' := by
  intro m hm
  obtain ⟨m', hm', hp, hc, hl⟩ := h.2 m hm
  exact ⟨m', hm', hp, fun x hx => by rw [hc]; exact hx, fun _ hn => by rw [hl]; exact hn⟩

/-- The old row of a kept one. -/
theorem MemberKept.old {o : Option HouseMember} {m' : HouseMember} (h : MemberKept o (some m')) :
    ∃ m, o = some m ∧ m'.isPlaceholder = m.isPlaceholder ∧ m'.claimedBy = m.claimedBy ∧
      m'.leftAt = m.leftAt := by
  cases o with
  | none => cases h.1 rfl
  | some m =>
    obtain ⟨m'', hm'', hp, hc, hl⟩ := h.2 m rfl
    cases hm''
    exact ⟨m, rfl, hp, hc, hl⟩

theorem People.of_kept (h : People env d) (hu : d'.users = d.users) (hf : d'.fresh = d.fresh)
    (hm : ∀ k, MemberKept (d.houseMembers.lookup k) (d'.houseMembers.lookup k)) : People env d' := by
  have hold : ∀ k m', d'.houseMembers.lookup k = some m' → ∃ m, d.houseMembers.lookup k = some m ∧
      m'.isPlaceholder = m.isPlaceholder ∧ m'.claimedBy = m.claimedBy ∧ m'.leftAt = m.leftAt := by
    intro k m' hm'
    have hk := hm k
    rw [hm'] at hk
    exact hk.old
  refine ⟨?_, ?_, ?_, ?_, ?_, ?_⟩
  · rw [hu, hf]; exact h.ids
  · intro k u m' hm'
    obtain ⟨m, hm0, hp, _, _⟩ := hold _ _ hm'
    rw [hu, hp]
    exact h.user k u m hm0
  · intro k k' u m₁ m₂ h₁ h₂ hpl
    obtain ⟨n₁, hn₁, hp, _, _⟩ := hold _ _ h₁
    obtain ⟨n₂, hn₂, _, _, _⟩ := hold _ _ h₂
    exact h.home k k' u n₁ n₂ hn₁ hn₂ (hp ▸ hpl)
  · intro k u m' hm' hpl
    obtain ⟨m, hm0, hp, hc, hl⟩ := hold _ _ hm'
    rw [hc, hl]
    exact h.left k u m hm0 (hp ▸ hpl)
  · intro k u m' hm' hcl
    obtain ⟨m, hm0, hp, hc, _⟩ := hold _ _ hm'
    rw [hp]
    exact h.claimed k u m hm0 (hc ▸ hcl)
  · intro k u m' c hm' hcl
    obtain ⟨m, hm0, _, hc, _⟩ := hold _ _ hm'
    rw [hu]
    exact h.claimer k u m c hm0 (hc ▸ hcl)

/-- A placeholder is claimed by one user only. -/
theorem Becomes.eq {h u c u' : Uuid} {m : HouseMember} (hp : People env d)
    (hm : d.houseMembers.lookup (h, u) = some m) (hc : m.claimedBy = some c)
    (hbec : Becomes d u u') : u' = c := by
  cases hbec with
  | same hfree =>
    rw [hfree h m hm] at hc
    cases hc
  | claimed k _ m' hm' hc' =>
    have hpl := hp.claimed h u m hm (by simp [hc])
    obtain rfl := hp.home h k u m m' hm hm' hpl
    rw [hm] at hm'
    cases hm'
    rw [hc] at hc'
    exact (Option.some.inj hc').symm

/-- Splits that stay as they are belong to nobody who was claimed. -/
theorem SameUpTo.of_same {e : Uuid} (hrow : d'.expenses.lookup e = d.expenses.lookup e)
    (hsplit : ∀ rid u a, d'.split rid = some ⟨e, u, a⟩ ↔ d.split rid = some ⟨e, u, a⟩)
    (hk : Bookings env d') : SameUpTo e d d' := by
  have hfree : ∀ rid u a, d.split rid = some ⟨e, u, a⟩ →
      ∀ k m, d'.houseMembers.lookup (k, u) = some m → m.claimedBy = none :=
    fun rid u a hs => hk.holder rid _ ((hsplit rid u a).mpr hs)
  refine ⟨hrow, fun rid u' a => ⟨fun hs => ?_, ?_⟩⟩
  · have hold := (hsplit rid u' a).mp hs
    exact ⟨u', hold, .same (hfree rid u' a hold)⟩
  · rintro ⟨u, hs, hbec⟩
    cases hbec with
    | same _ => exact (hsplit rid _ a).mpr hs
    | claimed k c m hm hc => rw [hfree rid u a hs k m hm] at hc; cases hc

/-- The guarantee of a call that writes no expense, split or revision and
    is no accept. -/
theorem LedgerGuar.of_people {merged unread : Prop} {c : Call} (hc : c.isAccept = false)
    (hb : LedgerBase env d) (he : tx.writes.expenses = []) (hs : tx.writes.expenseSplits = [])
    (hr : tx.writes.expenseRevisions = [])
    (hu : ∀ u, UserStep (d.users.lookup u) ((tx.commit d).users.lookup u))
    (hm : ∀ k, MemberStep (d.houseMembers.lookup k) ((tx.commit d).houseMembers.lookup k))
    (ha : ArriveActive d (tx.commit d)) (hn : NoNewClaim d (tx.commit d)) (hp : People env (tx.commit d))
    (hi : ∀ i invite, (i, some invite) ∈ tx.writes.invites → d.invites.lookup i = none →
      ∀ p, invite.placeholderUserId = some p →
        ∃ m, d.houseMembers.lookup (invite.houseId, p) = some m ∧ m.claimedBy = none) :
    LedgerGuar env merged unread c tx d := by
  have hse : (tx.commit d).expenses = d.expenses := by simp [Writes.apply, he]
  have hss : (tx.commit d).expenseSplits = d.expenseSplits := by simp [Writes.apply, hs]
  exact {
    step := LedgerStep.of_people hu hm ha hse hss
    base := ⟨hp, hb.bookings.of_people hse hss rfl hn⟩
    balanced := fun _ h => h.of_same hse hss
    invites := hi
    truthful := fun _ r hr' => by rw [hr] at hr'; cases hr'
    folds := fun _ ha => by rw [hc] at ha; cases ha
    claims := fun ha => by rw [hc] at ha; cases ha
    kept := fun _ e _ _ => SameUpTo.of_same (by rw [hse]) (fun rid u a => by simp only [Db.split, hss])
      (hb.bookings.of_people hse hss rfl hn) }

/-- Writes that leave users, memberships, invites and the ledger alone. -/
structure Writes.Quiet (w : Writes) : Prop where
  users : w.users = []
  houseMembers : w.houseMembers = []
  invites : w.invites = []
  expenses : w.expenses = []
  expenseSplits : w.expenseSplits = []
  expenseRevisions : w.expenseRevisions = []

theorem Writes.quiet_nothing : Writes.Quiet {} := ⟨rfl, rfl, rfl, rfl, rfl, rfl⟩

theorem Writes.Quiet.append {w w' : Writes} (h : w.Quiet) (h' : w'.Quiet) :
    (w.append w').Quiet where
  users := by simp [Writes.append, h.users, h'.users]
  houseMembers := by simp [Writes.append, h.houseMembers, h'.houseMembers]
  invites := by simp [Writes.append, h.invites, h'.invites]
  expenses := by simp [Writes.append, h.expenses, h'.expenses]
  expenseSplits := by simp [Writes.append, h.expenseSplits, h'.expenseSplits]
  expenseRevisions := by simp [Writes.append, h.expenseRevisions, h'.expenseRevisions]

/-- The guarantee of a call that only updates memberships, and in them
    nothing that the ledger looks at. -/
theorem LedgerGuar.of_kept {merged unread : Prop} {c : Call} (hc : c.isAccept = false)
    (hb : LedgerBase env d) (hu : tx.writes.users = []) (hi : tx.writes.invites = [])
    (he : tx.writes.expenses = []) (hs : tx.writes.expenseSplits = [])
    (hr : tx.writes.expenseRevisions = [])
    (hm : d.houseMembers.Respects MemberKept tx.writes.houseMembers) :
    LedgerGuar env merged unread c tx d := by
  have hkept := hm.patch MemberKept.refl
  have husers : (tx.commit d).users = d.users := by simp [Writes.apply, hu]
  refine LedgerGuar.of_people hc hb he hs hr ?_ ?_ ?_ ?_ ?_ ?_
  · rw [husers]; exact fun u => UserStep.refl _
  · exact fun k => (hkept k).step
  · intro k m hnone hm'
    rw [show (tx.commit d).houseMembers.lookup k = none from (hkept k).1 hnone] at hm'
    cases hm'
  · intro k m' hm'
    have hk := hkept k
    rw [show (d.houseMembers.patch tx.writes.houseMembers).lookup k = some m' from hm'] at hk
    obtain ⟨m, hm0, _, hcl, _⟩ := hk.old
    exact Or.inr ⟨m, hm0, hcl.symm⟩
  · exact hb.people.of_kept husers rfl hkept
  · intro i invite hmem
    rw [hi] at hmem
    cases hmem

theorem LedgerGuar.of_quiet {merged unread : Prop} {c : Call} (hc : c.isAccept = false)
    (hb : LedgerBase env d) (hq : tx.writes.Quiet) : LedgerGuar env merged unread c tx d :=
  LedgerGuar.of_kept hc hb hq.users hq.invites hq.expenses hq.expenseSplits hq.expenseRevisions
    (hq.houseMembers ▸ Table.respects_nil _ _)

end people

/-! ## Section 3: The protocol -/

/-- The protocol of the ledger. `merged` and `unread` say what the runs at
    hand are assumed to do. -/
def ledgerProtocol (env : Env) (merged unread : Prop) : DbProtocol where
  inv d := LedgerBase env d ∧ (merged → Balanced d)
  rely tx d d' := LedgerRely merged unread tx d d'
  guar c _ tx d := LedgerGuar env merged unread c tx d
  post _ _ _ := True
  allows _ _ _ _ _ := True
  stops _ _ := True

section protocol

variable {env : Env} {merged unread : Prop} {α : Type}

/-- The body `m` of a transaction of `c`, started where `A` holds, ends in
    the guarantee. -/
structure LedgerBody (env : Env) (merged unread : Prop) (c : Call) (A : Db → Prop)
    (m : DbTxn α) (B : α → DbTx → Db → Prop) : Prop where
  triple : (ledgerProtocol env merged unread).Triple (fun tx d => tx = Tx.empty ∧ A d) m B
  stable : ∀ a, (ledgerProtocol env merged unread).Stable (B a)
  guar : ∀ a tx d, B a tx d → LedgerBase env d → LedgerGuar env merged unread c tx d

/-- A transaction with such a body is safe if what comes after it is. -/
theorem LedgerBody.safe {c : Call} {A : Db → Prop} {m : DbTxn α} {B : α → DbTx → Db → Prop}
    (h : LedgerBody env merged unread c A m B) {k : Except Err α → DbProg} {seen d : Db} (hA : A d)
    (hk : ∀ r, Always (ledgerProtocol env merged unread) c (k r)) :
    (ledgerProtocol env merged unread).Safe c (m.transact k) seen Tx.empty d :=
  Protocol.safe_of_triple h.triple ⟨rfl, hA⟩ h.stable (fun a tx d hB hi => h.guar a tx d hB hi.1)
    (fun a _ _ _ _ => hk (.ok a) _ _) fun e d => hk (.error e) _ d

theorem LedgerBody.keeps {c : Call} {m : DbTxn α} {B : α → DbTx → Db → Prop}
    (h : LedgerBody env merged unread c (fun _ => True) m B) :
    Keeps (ledgerProtocol env merged unread) c m := fun _ hk _ _ => h.safe trivial hk

/-- `BEGIN` before the body. -/
theorem LedgerBody.begin {c : Call} {A : Db → Prop} {fn : Millis → DbTxn α}
    {B : α → DbTx → Db → Prop} (hA : ∀ d d', Persist d d' → A d → A d')
    (h : ∀ startedAt, LedgerBody env merged unread c A (fn startedAt) B) :
    LedgerBody env merged unread c A (do fn (← begin)) B where
  triple := Protocol.triple_bind (triple_begin (Protocol.Stable.and (Protocol.stable_const _)
    fun _ d d' hr _ hd => hA d d' hr.toPersist hd)) fun startedAt => (h startedAt).triple
  stable := (h 0).stable
  guar := (h 0).guar

theorem LedgerBody.of_quiet {c : Call} (hc : c.isAccept = false) (A : Db → Prop) {m : DbTxn α}
    (hm : m.Only Writes.Quiet) :
    LedgerBody env merged unread c A m fun _ tx _ => tx.writes.Quiet where
  triple := Protocol.triple_weaken
    (Protocol.triple_only (fun w w' hw hw' => Writes.Quiet.append hw hw') hm)
    (fun _ _ h => by rw [h.1]; exact Writes.quiet_nothing) fun _ _ _ h => h
  stable := fun _ => Protocol.stable_const _
  guar := fun _ _ _ h hb => LedgerGuar.of_quiet hc hb h

end protocol

end Homi
