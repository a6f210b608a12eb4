import Homi.Verification.Claims

/-! # Accepting an invite under the ledger protocol

  The rest of `acceptInvite`: the memberships that it writes, the
  revisions and events of a claim, and the guarantee of its commit.
-/

namespace Homi

open ReadCommitted Protocol

variable {env : Env} {merged unread : Prop} {α : Type}

/-! ## Section 1: Memberships -/

/-- The row of somebody who joins. -/
structure JoinRow (m : HouseMember) : Prop where
  real : m.isPlaceholder = false
  unclaimed : m.claimedBy = none
  active : m.leftAt = none

/-- The row of a placeholder that `c` has claimed. -/
structure ClaimRow (c : Uuid) (m : HouseMember) : Prop where
  placeholder : m.isPlaceholder = true
  claimed : m.claimedBy = some c
  left : m.leftAt.isSome

/-- What an accept of `c` writes besides splits and revisions: its own
    membership, and the row of the placeholder `bound` that it claims. -/
structure Joined (h c : Uuid) (bound : Option Uuid) (tx : DbTx) (d : Db) : Prop where
  account : hasAccount d c = true
  expenses : tx.writes.expenses = []
  users : ∀ u o, (u, o) ∈ tx.writes.users → ∃ r r', d.users.lookup u = some r ∧ o = some r' ∧
    r'.email = r.email
  invites : ∀ i o, (i, o) ∈ tx.writes.invites → d.invites.lookup i ≠ none
  members : ∀ k o, (k, o) ∈ tx.writes.houseMembers →
    (k = (h, c) ∧ ∃ m, o = some m ∧ JoinRow m) ∨
    ∃ p m, bound = some p ∧ k = (h, p) ∧ o = some m ∧ ClaimRow c m
  locked : ∀ p, bound = some p → Locked h p tx d
  closed : ∀ p, bound = some p → ∃ m, ((h, p), some m) ∈ tx.writes.houseMembers ∧ ClaimRow c m

/-- Writes beside users, memberships, invites and expenses. -/
structure Writes.Beside (w : Writes) : Prop where
  users : w.users = []
  houseMembers : w.houseMembers = []
  invites : w.invites = []
  expenses : w.expenses = []

section members

variable {h c p : Uuid} {bound : Option Uuid} {tx : DbTx} {d d' : Db} {now : ℕ}
  {set : Millis → HouseMember → HouseMember}

theorem Joined.rely (hA : Joined h c bound tx d) (hr : LedgerRely merged unread tx d d') :
    Joined h c bound tx d' where
  account := hasAccount_rely hA.account hr.toPersist
  expenses := hA.expenses
  users := by
    intro u o hmem
    have hsame : d'.users.lookup u = d.users.lookup u :=
      hr.frame (.user u) (Or.inl (Writes.mem_written.mpr (List.mem_map_of_mem hmem)))
    rw [hsame]
    exact hA.users u o hmem
  invites := by
    intro i o hmem
    have hsame : d'.invites.lookup i = d.invites.lookup i :=
      hr.frame (.invite i) (Or.inl (Writes.mem_written.mpr (List.mem_map_of_mem hmem)))
    rw [hsame]
    exact hA.invites i o hmem
  members := hA.members
  locked := fun p hp => (hA.locked p hp).rely hr
  closed := hA.closed

/-- One more statement, whose writes are those of an accept too. -/
theorem Joined.extend (hA : Joined h c bound tx d) (e : Effect Writes LockKey Note)
    (hx : e.writes.expenses = [])
    (hu : ∀ u o, (u, o) ∈ e.writes.users → ∃ r r', d.users.lookup u = some r ∧ o = some r' ∧
      r'.email = r.email)
    (hi : ∀ i o, (i, o) ∈ e.writes.invites → d.invites.lookup i ≠ none)
    (hm : ∀ k o, (k, o) ∈ e.writes.houseMembers → k = (h, c) ∧ ∃ m, o = some m ∧ JoinRow m) :
    Joined h c bound (tx.add e) (tick e.ids d) where
  account := hA.account
  expenses := by simp [Writes.append, hA.expenses, hx]
  users := fun u o hmem => (List.mem_append.mp hmem).elim (hA.users u o) (hu u o)
  invites := fun i o hmem => (List.mem_append.mp hmem).elim (hA.invites i o) (hi i o)
  members := fun k o hmem => (List.mem_append.mp hmem).elim (hA.members k o)
    fun hmem => Or.inl (hm k o hmem)
  locked := fun p hp => (hA.locked p hp).add e
  closed := by
    intro p hp
    obtain ⟨m, hmem, hrow⟩ := hA.closed p hp
    exact ⟨m, List.mem_append_left _ hmem, hrow⟩

theorem Joined.add (hA : Joined h c bound tx d) (e : Effect Writes LockKey Note)
    (hq : e.writes.Beside) : Joined h c bound (tx.add e) (tick e.ids d) :=
  hA.extend e hq.expenses (fun _ _ hmem => by rw [hq.users] at hmem; cases hmem)
    (fun _ _ hmem => by rw [hq.invites] at hmem; cases hmem)
    fun _ _ hmem => by rw [hq.houseMembers] at hmem; cases hmem

theorem passive_joined :
    (ledgerProtocol env merged unread).Passive Writes.Beside (Joined h c bound) where
  stable := fun _ _ _ hr _ hA => hA.rely hr
  step := fun _ _ e hq hA => hA.add e hq

/-- What an accept sees of a membership of its user. -/
theorem Joined.view_member (hA : Joined h c none tx d) (hp : People env d) {m : HouseMember}
    (hm : (tx.view d now).db.houseMembers.lookup (h, c) = some m) :
    m.isPlaceholder = false ∧ m.claimedBy = none := by
  have hlook : (tx.view d now).db.houseMembers.lookup (h, c) =
      (Table.lastEdit tx.writes.houseMembers (h, c)).getD (d.houseMembers.lookup (h, c)) :=
    Table.lookup_patch _ _ _
  rw [hlook] at hm
  cases hedit : Table.lastEdit tx.writes.houseMembers (h, c) with
  | none =>
    rw [hedit] at hm
    exact hp.member_of_account hA.account hm
  | some o =>
    rw [hedit] at hm
    rcases hA.members _ o (Table.mem_of_lastEdit hedit) with ⟨_, m', rfl, hrow⟩ | ⟨_, _, hnone, _⟩
    · cases hm
      exact ⟨hrow.real, hrow.unclaimed⟩
    · cases hnone

/-- Before the claim the accept sees the other memberships as they are. -/
theorem Joined.view_other (hA : Joined h c none tx d) {k : Uuid × Uuid} (hk : k ≠ (h, c)) :
    (tx.view d now).db.houseMembers.lookup k = d.houseMembers.lookup k := by
  refine Table.lookup_patch_of_notMem ?_
  intro hmem
  obtain ⟨⟨k', o⟩, hedit, rfl⟩ := List.mem_map.mp hmem
  rcases hA.members k' o hedit with ⟨heq, _⟩ | ⟨_, _, hnone, _⟩
  · exact hk heq
  · cases hnone

/-- A statement that writes one row of somebody who joins. -/
theorem Joined.add_row (hA : Joined h c bound tx d) (e : Effect Writes LockKey Note)
    {m : HouseMember} (hw : e.writes = { houseMembers := [((h, c), some m)] }) (hm : JoinRow m) :
    Joined h c bound (tx.add e) (tick e.ids d) := by
  refine hA.extend e (by rw [hw]) ?_ ?_ ?_
  · intro u o hmem
    rw [hw] at hmem
    cases hmem
  · intro i o hmem
    rw [hw] at hmem
    cases hmem
  · intro k o hmem
    rw [hw] at hmem
    obtain ⟨rfl, rfl⟩ := Prod.mk.inj (List.mem_singleton.mp hmem)
    exact ⟨rfl, m, rfl, hm⟩

theorem Writes.beside_nothing : Writes.Beside {} := ⟨rfl, rfl, rfl, rfl⟩

theorem triple_joinHouse {roomId : Option Uuid} {startedAt : Millis} :
    (ledgerProtocol env merged unread).Triple (Joined h c none) (joinHouse h c roomId startedAt)
      fun _ => Joined h c none := by
  refine triple_exec passive_joined.stable ?_
  intro tx d now inserted hA hi hres
  split
  · exact hA.add _ Writes.beside_nothing
  · exact hA.add_row _ rfl ⟨rfl, rfl, rfl⟩

/-- An update that leaves an active row of a real member. -/
theorem triple_moveMember {roomId : Option Uuid} {matching : HouseMember → Bool}
    (hset : ∀ now m, matching m = true → m.isPlaceholder = false → m.claimedBy = none →
      JoinRow (set now m)) :
    (ledgerProtocol env merged unread).Triple (Joined h c none)
      (moveMember h c roomId matching set) fun _ => Joined h c none := by
  refine triple_exec passive_joined.stable ?_
  intro tx d now _ hA hi _
  split
  · next m hm =>
    obtain ⟨hm, hmatch⟩ := Option.filter_eq_some_iff.mp hm
    obtain ⟨hreal, hunclaimed⟩ := hA.view_member hi.1.people hm
    exact hA.add_row _ rfl (hset _ m hmatch hreal hunclaimed)
  · exact hA.add _ Writes.beside_nothing

theorem triple_becomeMember {invite : Invite} {existing : Option HouseMember}
    {roomId : Option Uuid} {startedAt : Millis} :
    (ledgerProtocol env merged unread).Triple (Joined invite.houseId c none)
      (becomeMember invite c existing roomId startedAt) fun _ => Joined invite.houseId c none := by
  unfold becomeMember
  split
  · refine triple_bind triple_joinHouse fun inserted => ?_
    split <;> exact triple_pure fun _ _ hA => hA
  · split
    · exact triple_pure fun _ _ hA => hA
    · refine triple_bind (triple_moveMember ?_) fun _ => triple_pure fun _ _ hA => hA
      exact fun now m _ hreal hunclaimed => ⟨hreal, hunclaimed, rfl⟩

theorem triple_inheritRoom {roomId : Option Uuid} :
    (ledgerProtocol env merged unread).Triple (Joined h c none) (inheritRoom h c roomId)
      fun _ => Joined h c none := by
  unfold inheritRoom
  split
  · refine triple_moveMember ?_
    intro now m hmatch hreal hunclaimed
    have hactive : m.leftAt = none := by
      rw [Bool.and_eq_true] at hmatch
      simpa using hmatch.2
    exact ⟨hreal, hunclaimed, hactive⟩
  · exact triple_pure fun _ _ hA => hA

/-- The placeholder's membership, when the claim closes it. -/
theorem triple_claimMember (hset : ∀ now m, m.isPlaceholder = true → ClaimRow c (set now m)) :
    (ledgerProtocol env merged unread).Triple
      (fun tx d => Joined h c none tx d ∧ Locked h p tx d) (updateMember h p (fun _ => true) set)
      fun _ => Joined h c (some p) := by
  refine triple_exec (passive_joined.stable.and (passive_locked fun _ => True).stable) ?_
  rintro tx d now _ ⟨hA, hL⟩ hi _
  have hne : ((h, p) : Uuid × Uuid) ≠ (h, c) := by
    intro heq
    exact hL.ne hi.1.people hA.account (Prod.mk.inj heq).2.symm
  obtain ⟨m, hm, hpl, _, _⟩ := hL.unclaimed
  have hview : (tx.view d now).db.houseMembers.lookup (h, p) = some m := (hA.view_other hne).trans hm
  refine ⟨hA.account, ?_, ?_, ?_, ?_, ?_, ?_⟩
  · simp [Writes.append, hA.expenses]
  · intro u o hmem
    simp only [Tx.add_writes, Writes.append_eq, Writes.append, List.append_nil] at hmem
    exact hA.users u o hmem
  · intro i o hmem
    simp only [Tx.add_writes, Writes.append_eq, Writes.append, List.append_nil] at hmem
    exact hA.invites i o hmem
  · intro k o hmem
    simp only [Tx.add_writes, Writes.append_eq, Writes.append, hview, if_pos, List.mem_append,
      List.mem_singleton] at hmem
    rcases hmem with hmem | hmem
    · rcases hA.members k o hmem with hjoin | ⟨_, _, hnone, _⟩
      · exact Or.inl hjoin
      · cases hnone
    · obtain ⟨rfl, rfl⟩ := Prod.mk.inj hmem
      exact Or.inr ⟨p, _, rfl, rfl, rfl, hset _ m hpl⟩
  · rintro _ ⟨⟩
    exact hL.add _
  · rintro _ ⟨⟩
    refine ⟨set (tx.view d now).now m, List.mem_append_right _ ?_, hset _ m hpl⟩
    simp [hview]

theorem triple_softDeleteUser {u : Uuid} :
    (ledgerProtocol env merged unread).Triple (Joined h c bound) (softDeleteUser u)
      fun _ => Joined h c bound := by
  refine triple_exec passive_joined.stable ?_
  intro tx d now _ hA hi _
  have hview : ∀ r', (tx.view d now).db.users.lookup u = some r' →
      ∃ r, d.users.lookup u = some r ∧ r'.email = r.email := by
    intro r' hr'
    have hlook : (tx.view d now).db.users.lookup u =
        (Table.lastEdit tx.writes.users u).getD (d.users.lookup u) := Table.lookup_patch _ _ _
    rw [hlook] at hr'
    cases hedit : Table.lastEdit tx.writes.users u with
    | none =>
      rw [hedit] at hr'
      exact ⟨r', hr', rfl⟩
    | some o =>
      rw [hedit] at hr'
      obtain ⟨r, r₁, hr, rfl, hemail⟩ := hA.users u o (Table.mem_of_lastEdit hedit)
      cases hr'
      exact ⟨r, hr, hemail⟩
  refine hA.extend _ rfl ?_ (fun _ _ hmem => (by cases hmem)) fun _ _ hmem => (by cases hmem)
  intro v o hmem
  dsimp only at hmem
  split at hmem
  · next user huser =>
    obtain ⟨rfl, rfl⟩ := Prod.mk.inj (List.mem_singleton.mp hmem)
    obtain ⟨r, hr, hemail⟩ := hview user huser
    exact ⟨r, _, hr, rfl, hemail⟩
  · cases hmem

/-- The memberships and the user row of a claim. -/
theorem triple_claimMembers :
    (ledgerProtocol env merged unread).Triple
      (fun tx d => Joined h c none tx d ∧ Locked h p tx d) (claimHistory h p c)
      fun _ => Joined h c (some p) := by
  have hkeep : (ledgerProtocol env merged unread).Passive Writes.Beside
      fun tx d => Joined h c none tx d ∧ Locked h p tx d := passive_joined.and (passive_locked _)
  have h0 := Writes.beside_nothing
  have hs : ∀ es, Writes.Beside { expenseSplits := es } := fun _ => ⟨rfl, rfl, rfl, rfl⟩
  refine triple_bind (triple_passive hkeep (only_selectFolded h0)) fun folded =>
    triple_bind (triple_passive hkeep (only_reviseFolded h0 (fun _ => ⟨rfl, rfl, rfl, rfl⟩)
      fun _ _ => ⟨rfl, rfl, rfl, rfl⟩)) fun events =>
    triple_bind (triple_passive hkeep (only_foldSplits h0 hs)) fun _ =>
    triple_bind (triple_passive hkeep (only_sweepSplits h0 hs)) fun _ =>
    triple_bind (triple_passive hkeep (only_reidentifySplits h0 hs)) fun _ =>
    triple_bind (triple_claimMember fun now m hpl => ⟨hpl, rfl, rfl⟩) fun _ =>
    triple_bind triple_softDeleteUser fun _ => triple_pure fun _ _ hA => hA

/-- The invite that the accept has locked. -/
structure InviteHeld (id : Uuid) (tx : DbTx) (d : Db) : Prop where
  owns : tx.Owns (.invite id)
  row : d.invites.lookup id ≠ none

theorem passive_inviteHeld (q : Writes → Prop) {id : Uuid} :
    (ledgerProtocol env merged unread).Passive q (InviteHeld id) where
  stable := by
    intro tx d d' hr _ hA
    have hsame : d'.invites.lookup id = d.invites.lookup id := hr.frame _ hA.owns.holds
    exact ⟨hA.owns, by rw [hsame]; exact hA.row⟩
  step := fun _ _ _ _ hA => ⟨owns_add _ _ hA.owns, hA.row⟩

theorem triple_consumeUse {id : Uuid} :
    (ledgerProtocol env merged unread).Triple
      (fun tx d => Joined h c bound tx d ∧ InviteHeld id tx d) (consumeUse id)
      fun _ => Joined h c bound := by
  refine triple_exec (passive_joined.stable.and (passive_inviteHeld fun _ => True).stable) ?_
  rintro tx d now _ ⟨hA, hI⟩ hi _
  refine hA.extend _ rfl (fun _ _ hmem => (by cases hmem)) ?_ fun _ _ hmem => (by cases hmem)
  intro i o hmem
  dsimp only at hmem
  split at hmem
  · obtain ⟨rfl, _⟩ := Prod.mk.inj (List.mem_singleton.mp hmem)
    exact hI.row
  · cases hmem

end members

/-! ## Section 2: Revisions of a claim -/

/-- No revision and no event of an edit. -/
structure Writes.Unrevised (w : Writes) : Prop where
  revisions : w.expenseRevisions = []
  events : ∀ ev ∈ w.activityEvents, ev.type ≠ .expenseEdited

theorem Writes.unrevised_nothing : Writes.Unrevised {} :=
  ⟨rfl, fun _ h => (by cases h)⟩

theorem Writes.Unrevised.append {w w' : Writes} (h : w.Unrevised) (h' : w'.Unrevised) :
    (w.append w').Unrevised where
  revisions := by simp [Writes.append, h.revisions, h'.revisions]
  events := by
    intro ev hev
    rcases List.mem_append.mp hev with hev | hev
    · exact h.events ev hev
    · exact h'.events ev hev

/-- Before the revisions are written. -/
structure Unrevised (h p c : Uuid) (tx : DbTx) (d : Db) : Prop where
  claiming : Claiming h p c tx d
  expenses : tx.writes.expenses = []
  writes : tx.writes.Unrevised

/-- What the first query of the claim returned. -/
structure FoldedSeen (unread : Prop) (p c : Uuid) (folded : List (Uuid × Expense)) (d : Db) :
    Prop where
  canonical : ∀ e row, (e, row) ∈ folded → toUuid e = e
  both : unread → ∀ e, e ∈ folded.map Prod.fst ↔ BothSplit p c d e
  rows : unread → ∀ e row, (e, row) ∈ folded → d.expenses.lookup e = some row

/-- The revisions and the events of the claim are those of the expenses to fold. -/
structure RevisedFolds (unread : Prop) (h p c : Uuid) (tx : DbTx) (d : Db) : Prop where
  locked : Locked h p tx d
  noted : Noted p tx d
  truthful : unread → ∀ r ∈ tx.writes.expenseRevisions, Truthful d r
  revised : unread → ∀ e, (∃ r ∈ tx.writes.expenseRevisions, r.expenseId = e) ↔ BothSplit p c d e
  edited : unread → ∀ e, (∃ ev ∈ tx.writes.activityEvents, ev.type = .expenseEdited ∧
    ev.entityId = e) ↔ BothSplit p c d e

section revisions

variable {h p c e : Uuid} {tx : DbTx} {d d' : Db} {folded : List (Uuid × Expense)}

/-- Nobody touches the expenses to fold. -/
theorem BothSplit.same (hA : BothSplit p c d e) (hN : Noted p tx d)
    (hr : LedgerRely merged unread tx d d') (hun : unread) : SameExpense e d d' := by
  obtain ⟨rid, rid', mine, theirs, hpair, he⟩ := hA
  exact he ▸ hN.same hr hun hpair.theirsRow hpair.placeholder

theorem bothSplit_iff (hL : Locked h p tx d) (hN : Noted p tx d)
    (hr : LedgerRely merged unread tx d d') (hun : unread) (e : Uuid) :
    BothSplit p c d' e ↔ BothSplit p c d e := by
  constructor
  · rintro ⟨rid, rid', mine, theirs, hpair, he⟩
    have htheirs := hL.row hr hpair.theirsRow hpair.placeholder
    exact ⟨rid, rid', mine, theirs,
      hpair.of_same (hN.same hr hun htheirs hpair.placeholder), he⟩
  · intro hboth
    have hsame := hboth.same hN hr hun
    obtain ⟨rid, rid', mine, theirs, hpair, he⟩ := hboth
    refine ⟨rid, rid', mine, theirs, { hpair with mineRow := ?_, theirsRow := ?_ }, he⟩
    · exact (hsame.splits rid mine (hpair.expense.symm.trans he)).mpr hpair.mineRow
    · exact (hsame.splits rid' theirs he).mpr hpair.theirsRow

theorem bothSplit_tick {n : ℕ} : BothSplit p c (tick n d) e ↔ BothSplit p c d e := by
  constructor
  · rintro ⟨rid, rid', mine, theirs, hpair, he⟩
    exact ⟨rid, rid', mine, theirs, foldPair_tick.mp hpair, he⟩
  · rintro ⟨rid, rid', mine, theirs, hpair, he⟩
    exact ⟨rid, rid', mine, theirs, foldPair_tick.mpr hpair, he⟩

theorem FoldedSeen.rely (hA : FoldedSeen unread p c folded d) (hL : Locked h p tx d)
    (hN : Noted p tx d) (hr : LedgerRely merged unread tx d d') :
    FoldedSeen unread p c folded d' where
  canonical := hA.canonical
  both := by
    intro hun e
    rw [bothSplit_iff hL hN hr hun, hA.both hun]
  rows := by
    intro hun e row hmem
    have hboth := (hA.both hun e).mp (List.mem_map_of_mem (f := Prod.fst) hmem)
    exact (hboth.same hN hr hun).row.trans (hA.rows hun e row hmem)

theorem Unrevised.add (hA : Unrevised h p c tx d) (e' : Effect Writes LockKey Note)
    (hq : e'.writes = {}) : Unrevised h p c (tx.add e') (tick e'.ids d) := by
  have hw : (tx.add e').writes = tx.writes := by
    rw [Tx.add_writes, hq]
    exact LawfulStore.append_nothing (D := Db) _
  exact ⟨hA.claiming.add e' (by rw [hq]), hw ▸ hA.expenses, hw ▸ hA.writes⟩

theorem passive_unrevised :
    (ledgerProtocol env merged unread).Passive (fun w => w = {}) (Unrevised h p c) where
  stable := fun tx d d' hr hi hA =>
    ⟨passive_claiming.stable tx d d' hr hi hA.claiming, hA.expenses, hA.writes⟩
  step := fun _ _ e' hq hA => hA.add e' hq

theorem triple_foldedSeen :
    (ledgerProtocol env merged unread).Triple (Unrevised h p c) (selectFolded p c)
      fun folded tx d => (Unrevised h p c tx d ∧ Noted p tx d) ∧ FoldedSeen unread p c folded d := by
  refine triple_exec passive_unrevised.stable ?_
  intro tx d now folded hA hi hres
  cases hres
  have hview : ∀ rid, (tx.view d now).db.split rid = d.split rid := view_split hA.claiming.rows
  have hboth : ∀ e, ((tx.view d now).db.hasSplit e p && (tx.view d now).db.hasSplit e c) = true ↔
      BothSplit p c d e := by
    intro e
    rw [Bool.and_eq_true, hasSplit_iff, hasSplit_iff]
    simp only [hview]
    constructor
    · rintro ⟨⟨rid', theirs, htheirs, he, hp⟩, ⟨rid, mine, hmine, he', hc⟩⟩
      exact ⟨rid, rid', mine, theirs, ⟨hmine, htheirs, he.trans he'.symm, hc, hp⟩, he⟩
    · rintro ⟨rid, rid', mine, theirs, hpair, he⟩
      exact ⟨⟨rid', theirs, hpair.theirsRow, he, hpair.placeholder⟩,
        ⟨rid, mine, hpair.mineRow, hpair.expense.symm.trans he, hpair.claimer⟩⟩
  have hmem : ∀ e row, (e, row) ∈ (tx.view d now).db.expenses.rows.filter (fun r =>
      (tx.view d now).db.hasSplit r.1 p && (tx.view d now).db.hasSplit r.1 c) ↔
      d.expenses.lookup e = some row ∧ BothSplit p c d e := by
    intro e row
    rw [List.mem_filter, Table.mem_rows, view_expenses hA.expenses, hboth]
  refine ⟨⟨hA.add _ rfl, ?_⟩, ?_, ?_, ?_⟩
  · intro rid s hs hu
    refine List.mem_append_right _ (List.mem_map.mpr ⟨(rid, s), ?_, rfl⟩)
    rw [mem_splitsOfUser, hview]
    exact ⟨hs, hu⟩
  · intro e row hrow
    obtain ⟨n, _, rfl⟩ := hi.1.bookings.ids e row ((hmem e row).mp hrow).1
    exact env.toUuid_uuid n
  · intro _ e
    rw [bothSplit_tick]
    constructor
    · intro he
      obtain ⟨⟨_, row⟩, hrow, rfl⟩ := List.mem_map.mp he
      exact ((hmem _ row).mp hrow).2
    · intro he
      obtain ⟨_, rid', _, theirs, hpair, rfl⟩ := id he
      obtain ⟨row, hrow⟩ := hi.1.bookings.expense rid' theirs hpair.theirsRow
      exact List.mem_map.mpr ⟨(theirs.expenseId, row), (hmem _ row).mpr ⟨hrow, he⟩, rfl⟩
  · exact fun _ e row hrow => ((hmem e row).mp hrow).1

theorem RevisedFolds.rely (hA : RevisedFolds unread h p c tx d)
    (hr : LedgerRely merged unread tx d d') : RevisedFolds unread h p c tx d' where
  locked := hA.locked.rely hr
  noted := hA.noted.rely hA.locked hr
  truthful := by
    intro hun r hmem
    have hboth := (hA.revised hun r.expenseId).mp ⟨r, hmem, rfl⟩
    exact (hA.truthful hun r hmem).rely (hboth.same hA.noted hr hun)
  revised := by
    intro hun e
    rw [hA.revised hun, bothSplit_iff hA.locked hA.noted hr hun]
  edited := by
    intro hun e
    rw [hA.edited hun, bothSplit_iff hA.locked hA.noted hr hun]

theorem RevisedFolds.add (hA : RevisedFolds unread h p c tx d) (e' : Effect Writes LockKey Note)
    (hq : e'.writes.Unrevised) : RevisedFolds unread h p c (tx.add e') (tick e'.ids d) := by
  have hrev : (tx.add e').writes.expenseRevisions = tx.writes.expenseRevisions := by
    simp [Writes.append, hq.revisions]
  refine ⟨hA.locked.add e', fun rid s hs hu => List.mem_append_left _ (hA.noted rid s hs hu), ?_, ?_,
    ?_⟩
  · rw [hrev]
    exact hA.truthful
  · intro hun e
    rw [hrev, bothSplit_tick]
    exact hA.revised hun e
  · intro hun e
    rw [bothSplit_tick, ← hA.edited hun e]
    constructor
    · rintro ⟨ev, hev, htype, hid⟩
      rcases List.mem_append.mp hev with hev | hev
      · exact ⟨ev, hev, htype, hid⟩
      · exact absurd htype (hq.events ev hev)
    · rintro ⟨ev, hev, hrest⟩
      exact ⟨ev, List.mem_append_left _ hev, hrest⟩

theorem passive_revisedFolds :
    (ledgerProtocol env merged unread).Passive Writes.Unrevised (RevisedFolds unread h p c) where
  stable := fun _ _ _ hr _ hA => hA.rely hr
  step := fun _ _ e' hq hA => hA.add e' hq

/-- The revisions are written and the events are not. -/
structure HalfRevised (unread : Prop) (h p c : Uuid) (folded : List (Uuid × Expense)) (tx : DbTx)
    (d : Db) : Prop where
  locked : Locked h p tx d
  noted : Noted p tx d
  seen : FoldedSeen unread p c folded d
  truthful : unread → ∀ r ∈ tx.writes.expenseRevisions, Truthful d r
  revised : tx.writes.expenseRevisions.map Revision.expenseId = folded.map Prod.fst

theorem HalfRevised.both (hA : HalfRevised unread h p c folded tx d) (hun : unread) (e : Uuid) :
    (∃ r ∈ tx.writes.expenseRevisions, r.expenseId = e) ↔ BothSplit p c d e := by
  rw [← hA.seen.both hun, ← hA.revised, List.mem_map]

theorem passive_halfRevised :
    (ledgerProtocol env merged unread).Passive (fun w => w.expenseRevisions = [])
      (HalfRevised unread h p c folded) where
  stable := by
    intro tx d d' hr hi hA
    refine ⟨hA.locked.rely hr, hA.noted.rely hA.locked hr, hA.seen.rely hA.locked hA.noted hr, ?_,
      hA.revised⟩
    intro hun r hmem
    have hboth := (hA.both hun r.expenseId).mp ⟨r, hmem, rfl⟩
    exact (hA.truthful hun r hmem).rely (hboth.same hA.noted hr hun)
  step := by
    intro tx d e' hq hA
    have hrev : (tx.add e').writes.expenseRevisions = tx.writes.expenseRevisions := by
      simp [Writes.append, hq]
    refine ⟨hA.locked.add e', fun rid s hs hu => List.mem_append_left _ (hA.noted rid s hs hu),
      ⟨hA.seen.canonical, ?_, hA.seen.rows⟩, ?_, by rw [hrev]; exact hA.revised⟩
    · intro hun e
      rw [bothSplit_tick]
      exact hA.seen.both hun e
    · rw [hrev]
      exact hA.truthful

/-- Logging appends the rows of the events. -/
theorem triple_logAll {A : DbTx → Db → Prop}
    (hA : (ledgerProtocol env merged unread).Passive (fun w => w.expenseRevisions = []) A)
    (events : List ActivityInput) (es : List ActivityEvent) :
    (ledgerProtocol env merged unread).Triple
      (fun tx d => A tx d ∧ tx.writes.activityEvents = es) (logAll events)
      fun _ tx d => A tx d ∧ tx.writes.activityEvents = es ++ events.map ActivityInput.row := by
  induction events generalizing es with
  | nil => exact triple_pure fun tx d h => by simpa using h
  | cons event events ih =>
    refine triple_bind (B := fun _ tx d => A tx d ∧ tx.writes.activityEvents = es ++ [event.row]) ?_
      fun _ => triple_bind (ih _) fun _ => triple_pure fun tx d h => by simpa using h
    refine triple_exec (hA.stable.and (stable_const _)) ?_
    rintro tx d now _ ⟨h, hes⟩ _ _
    exact ⟨hA.step tx d _ rfl h, by simp [Writes.append, hes]⟩

theorem SameExpense.perm (hs : SameExpense e d d') : (d'.splitsOf e).Perm (d.splitsOf e) := by
  refine (List.perm_ext_iff_of_nodup (d'.nodup_splitsOf e) (d.nodup_splitsOf e)).mpr ?_
  rintro ⟨rid, s⟩
  rw [Db.mem_splitsOf, Db.mem_splitsOf]
  constructor
  · exact fun h => ⟨(hs.splits rid s h.2).mp h.1, h.2⟩
  · exact fun h => ⟨(hs.splits rid s h.2).mpr h.1, h.2⟩

/-- The splits that the claim reads for its revisions. -/
def SplitsSeen (folded : List (Uuid × Expense)) (foldedSplits : List Split) (d : Db) : Prop :=
  ∀ e row, (e, row) ∈ folded →
    (foldedSplits.filter fun s => s.expenseId = e).Perm ((d.splitsOf e).map Prod.snd)

theorem triple_foldedSplits :
    (ledgerProtocol env merged unread).Triple
      (fun tx d => (Unrevised h p c tx d ∧ Noted p tx d) ∧ FoldedSeen unread p c folded d)
      (.select fun v => (v.db.splitRows.map Prod.snd).filter fun s =>
        s.expenseId ∈ folded.map Prod.fst : DbTxn (List Split))
      fun rows tx d => ((Unrevised h p c tx d ∧ Noted p tx d) ∧ FoldedSeen unread p c folded d) ∧
        (unread → SplitsSeen folded rows d) := by
  refine triple_select ?_ ?_
  · rintro tx d d' hr hi ⟨⟨hA, hN⟩, hF⟩
    exact ⟨⟨passive_unrevised.stable tx d d' hr hi hA, hN.rely hA.claiming.locked hr⟩,
      hF.rely hA.claiming.locked hN hr⟩
  · rintro tx d now ⟨⟨hA, hN⟩, hF⟩ hi
    refine ⟨⟨⟨hA, hN⟩, hF⟩, fun _ e row hmem => ?_⟩
    have hrows : (tx.view d now).db.splitRows = d.splitRows := by
      rw [Db.splitRows, Db.splitRows, view_expenseSplits hA.claiming.rows]
    have hin : e ∈ folded.map Prod.fst := List.mem_map_of_mem (f := Prod.fst) hmem
    rw [hrows, List.filter_filter, Db.splitsOf, List.filter_map]
    refine List.Perm.of_eq (congrArg _ (List.filter_congr fun r _ => ?_))
    by_cases he : r.2.expenseId = e
    · simp [he, hin]
    · simp [he]

theorem triple_insertFoldRevisions {foldedSplits : List Split} :
    (ledgerProtocol env merged unread).Triple
      (fun tx d => ((Unrevised h p c tx d ∧ Noted p tx d) ∧ FoldedSeen unread p c folded d) ∧
        (unread → SplitsSeen folded foldedSplits d))
      (insertRevisions (folded.map (foldRevision c foldedSplits)))
      fun _ tx d => HalfRevised unread h p c folded tx d ∧
        ∀ ev ∈ tx.writes.activityEvents, ev.type ≠ .expenseEdited := by
  refine triple_exec ?_ ?_
  · rintro tx d d' hr hi ⟨⟨⟨hA, hN⟩, hF⟩, hS⟩
    refine ⟨⟨⟨passive_unrevised.stable tx d d' hr hi hA, hN.rely hA.claiming.locked hr⟩,
      hF.rely hA.claiming.locked hN hr⟩, fun hun e row hmem => ?_⟩
    have hboth := (hF.both hun e).mp (List.mem_map_of_mem (f := Prod.fst) hmem)
    exact (hS hun e row hmem).trans ((hboth.same hN hr hun).perm.map Prod.snd).symm
  · rintro tx d now _ ⟨⟨⟨hA, hN⟩, hF⟩, hS⟩ hi _
    let revisions := folded.map (foldRevision c foldedSplits)
    have hrev : (tx.writes.append { expenseRevisions := revisions }).expenseRevisions = revisions := by
      simp [Writes.append, hA.writes.revisions]
    refine ⟨⟨hA.claiming.locked.add _,
      fun rid s hs hu => List.mem_append_left _ (hN rid s hs hu), ⟨hF.canonical, ?_, hF.rows⟩, ?_, ?_⟩,
      ?_⟩
    · intro hun e
      rw [bothSplit_tick]
      exact hF.both hun e
    · intro hun r hr
      rw [Tx.add_writes, Writes.append_eq, hrev] at hr
      obtain ⟨⟨e, row⟩, hmem, rfl⟩ := List.mem_map.mp hr
      exact truthful_of_rows hi.1.bookings (hF.rows hun e row hmem) (hS hun e row hmem)
    · rw [Tx.add_writes, Writes.append_eq, hrev, List.map_map]
      rfl
    · intro ev hev
      simp only [Tx.add_writes, Writes.append_eq, Writes.append, List.append_nil] at hev
      exact hA.writes.events ev hev

theorem triple_reviseFolded {k : Uuid} :
    (ledgerProtocol env merged unread).Triple
      (fun tx d => (Unrevised h p c tx d ∧ Noted p tx d) ∧ FoldedSeen unread p c folded d)
      (reviseFolded k c folded) fun _ => RevisedFolds unread h p c := by
  unfold reviseFolded
  split
  · next hnil =>
    -- nothing was folded, and nothing is written
    refine triple_pure ?_
    rintro tx d ⟨⟨hA, hN⟩, hF⟩
    have hnone : unread → ∀ e, ¬ BothSplit p c d e := by
      intro hun e hboth
      have hmem := (hF.both hun e).mpr hboth
      rw [hnil] at hmem
      cases hmem
    refine ⟨hA.claiming.locked, hN, ?_, ?_, ?_⟩
    · intro _ r hr
      rw [hA.writes.revisions] at hr
      cases hr
    · intro hun e
      refine iff_of_false ?_ (hnone hun e)
      rintro ⟨r, hr, _⟩
      rw [hA.writes.revisions] at hr
      cases hr
    · intro hun e
      refine iff_of_false ?_ (hnone hun e)
      rintro ⟨ev, hev, htype, _⟩
      exact hA.writes.events ev hev htype
  · refine triple_bind triple_foldedSplits fun rows => triple_bind triple_insertFoldRevisions fun _ => ?_
    -- a revision for each, and then an event for each
    rintro tx d ⟨hA, hes⟩
    refine wp_mono ?_ (triple_logAll passive_halfRevised _ _ tx d ⟨hA, rfl⟩)
    rintro r tx' d' hQ a rfl
    obtain ⟨hA', hevents⟩ := hQ a rfl
    refine ⟨hA'.locked, hA'.noted, hA'.truthful, fun hun e => hA'.both hun e, fun hun e => ?_⟩
    rw [← hA'.seen.both hun, hevents]
    constructor
    · rintro ⟨ev, hev, htype, rfl⟩
      rcases List.mem_append.mp hev with hev | hev
      · exact absurd htype (hes ev hev)
      · obtain ⟨input, hinput, rfl⟩ := List.mem_map.mp hev
        obtain ⟨⟨e, row⟩, hmem, rfl⟩ := List.mem_map.mp hinput
        show toUuid e ∈ folded.map Prod.fst
        rw [hA'.seen.canonical e row hmem]
        exact List.mem_map_of_mem (f := Prod.fst) hmem
    · intro hmem
      obtain ⟨⟨e', row⟩, hfold, rfl⟩ := List.mem_map.mp hmem
      exact ⟨_, List.mem_append_right _ (List.mem_map.mpr ⟨_, List.mem_map.mpr ⟨_, hfold, rfl⟩, rfl⟩), rfl,
        hA'.seen.canonical e' row hfold⟩

/-- The revisions and events of a claim. -/
theorem triple_claimRevisions {k : Uuid} :
    (ledgerProtocol env merged unread).Triple (Unrevised h p c) (claimHistory k p c)
      fun _ => RevisedFolds unread h p c := by
  have h0 := Writes.unrevised_nothing
  have hs : ∀ es, Writes.Unrevised { expenseSplits := es } := fun _ => ⟨rfl, fun _ h => (by cases h)⟩
  refine triple_bind triple_foldedSeen fun folded => triple_bind triple_reviseFolded fun events =>
    triple_bind (triple_passive passive_revisedFolds (only_foldSplits h0 hs)) fun _ =>
    triple_bind (triple_passive passive_revisedFolds (only_sweepSplits h0 hs)) fun _ =>
    triple_bind (triple_passive passive_revisedFolds (only_reidentifySplits h0 hs)) fun _ =>
    triple_bind (triple_passive passive_revisedFolds (only_updateMember
      fun _ => ⟨rfl, fun _ h => (by cases h)⟩)) fun _ =>
    triple_bind (triple_passive passive_revisedFolds (only_softDeleteUser
      fun _ => ⟨rfl, fun _ h => (by cases h)⟩)) fun _ => triple_pure fun _ _ hA => hA

end revisions

/-! ## Section 3: The whole accept -/

/-- The writes of an accept before it claims anything. -/
structure Entering (h c : Uuid) (tx : DbTx) (d : Db) : Prop where
  joined : Joined h c none tx d
  rows : tx.writes.expenseSplits = []
  writes : tx.writes.Unrevised

/-- The writes of an accept that has claimed `p`. -/
structure Claimed (merged unread : Prop) (h p c : Uuid) (tx : DbTx) (d : Db) : Prop where
  joined : Joined h c (some p) tx d
  rows : Reidentified merged unread h p c tx d
  revisions : RevisedFolds unread h p c tx d

/-- The end of an accept. -/
def Accepting (merged unread : Prop) (c : Uuid) (tx : DbTx) (d : Db) : Prop :=
  ∃ h, Entering h c tx d ∨ ∃ p, Claimed merged unread h p c tx d

/-- Writes beside everything that an accept looks after. -/
structure Writes.Apart (w : Writes) : Prop where
  beside : w.Beside
  rows : w.expenseSplits = []
  unrevised : w.Unrevised

theorem Writes.apart_nothing : Writes.Apart {} :=
  ⟨Writes.beside_nothing, rfl, Writes.unrevised_nothing⟩

section accept

variable {h c p id : Uuid} {bound : Option Uuid} {tx : DbTx} {d : Db} {invite : Invite}

/-- Splits, revisions and events of edits are not touched. -/
structure Writes.Aside (w : Writes) : Prop where
  rows : w.expenseSplits = []
  unrevised : w.Unrevised

theorem Entering.add (hA : Entering h c tx d) (e : Effect Writes LockKey Note)
    (hq : e.writes.Apart) : Entering h c (tx.add e) (tick e.ids d) where
  joined := hA.joined.add e hq.beside
  rows := by simp [Writes.append, hA.rows, hq.rows]
  writes := hA.writes.append hq.unrevised

theorem passive_entering :
    (ledgerProtocol env merged unread).Passive Writes.Apart (Entering h c) where
  stable := fun _ _ _ hr _ hA => ⟨hA.joined.rely hr, hA.rows, hA.writes⟩
  step := fun _ _ e hq hA => hA.add e hq

theorem Claimed.add (hA : Claimed merged unread h p c tx d) (e : Effect Writes LockKey Note)
    (hq : e.writes.Apart) : Claimed merged unread h p c (tx.add e) (tick e.ids d) where
  joined := hA.joined.add e hq.beside
  rows := hA.rows.add e hq.rows
  revisions := hA.revisions.add e hq.unrevised

theorem passive_claimed :
    (ledgerProtocol env merged unread).Passive Writes.Apart (Claimed merged unread h p c) where
  stable := fun _ _ _ hr _ hA => ⟨hA.joined.rely hr, hA.rows.rely hr, hA.revisions.rely hr⟩
  step := fun _ _ e hq hA => hA.add e hq

/-- The writes of an accept that `Joined` does not speak about. -/
theorem passive_aside :
    (ledgerProtocol env merged unread).Passive Writes.Aside
      fun tx _ => tx.writes.expenseSplits = [] ∧ tx.writes.Unrevised :=
  passive_writes (p := fun w : Writes => w.expenseSplits = [] ∧ w.Unrevised) fun w w' hw hq =>
    ⟨by simp [Writes.append, hw.1, hq.rows], hw.2.append hq.unrevised⟩

/-- A statement of an accept beside splits and revisions. -/
theorem triple_entering {α : Type} {m : DbTxn α}
    (hm : (ledgerProtocol env merged unread).Triple (Joined h c none) m fun _ => Joined h c none)
    (hw : m.Only Writes.Aside) :
    (ledgerProtocol env merged unread).Triple (Entering h c) m fun _ => Entering h c :=
  triple_weaken (triple_and hm (triple_passive passive_aside hw))
    (fun _ _ hA => ⟨hA.joined, hA.rows, hA.writes⟩) fun _ _ _ hB => ⟨hB.1, hB.2.1, hB.2.2⟩

theorem triple_lockInvite {token : JsString} :
    (ledgerProtocol env merged unread).Triple (fun tx d => tx = Tx.empty ∧ hasAccount d c = true)
      (lockInvite env token) fun r tx d => Entering r.2.houseId c tx d ∧ InviteHeld r.1 tx d := by
  refine triple_exec (Stable.and (stable_const _) (passive_account fun _ => True).stable) ?_
  rintro tx d now ⟨id, invite⟩ ⟨rfl, hA⟩ hi hres
  have hview : ((Tx.empty : DbTx).view d now).db = d := LawfulStore.apply_nothing d
  dsimp only at hres ⊢
  rw [hview] at hres ⊢
  generalize hfound : List.find? _ d.invites.rows = found at hres ⊢
  cases found with
  | none => cases hres
  | some found =>
    dsimp only at hres ⊢
    split at hres
    · cases hres
      refine ⟨⟨⟨hA, rfl, ?_, ?_, ?_, fun _ h => (by cases h), fun _ h => (by cases h)⟩, rfl,
        Writes.unrevised_nothing⟩, ?_, ?_⟩
      · exact fun _ _ h => (by cases h)
      · exact fun _ _ h => (by cases h)
      · exact fun _ _ h => (by cases h)
      · exact owns_of_lock _ _ (by simp)
      · have hrow := Table.mem_rows.mp (List.mem_of_find?_eq_some hfound)
        exact fun hnone => by rw [show d.invites.lookup found.1 = none from hnone] at hrow; cases hrow
    · cases hres

/-- The placeholder of the invite is locked from here on. -/
theorem triple_lockBound :
    (ledgerProtocol env merged unread).Triple
      (fun tx d => Entering invite.houseId c tx d ∧ InviteHeld id tx d) (lockBound invite)
      fun _ tx d => (Entering invite.houseId c tx d ∧ InviteHeld id tx d) ∧
        ∀ p, invite.placeholderUserId = some p → Locked invite.houseId p tx d := by
  have hkeep : (ledgerProtocol env merged unread).Passive Writes.Apart
      fun tx d => Entering invite.houseId c tx d ∧ InviteHeld id tx d :=
    passive_entering.and (passive_inviteHeld _)
  unfold lockBound
  split
  · next p hbound =>
    refine triple_exec_passive hkeep (fun _ => Writes.apart_nothing) ?_
    rintro tx d now roomId ⟨hA, hI⟩ hi hres p' hp'
    obtain rfl : p = p' := Option.some.inj (hbound.symm.trans hp')
    by_cases hpc : (invite.houseId, p) = (invite.houseId, c)
    · -- The user's own row is no placeholder, and the lock is refused.
      obtain rfl := (Prod.mk.inj hpc).2
      exfalso
      cases hm : (tx.view d now).db.houseMembers.lookup (invite.houseId, p) with
      | none => simp [hm] at hres
      | some m => simp [hm, Option.filter, (hA.joined.view_member hi.1.people hm).1] at hres
    · have hview := @Joined.view_other invite.houseId c tx d now hA.joined _ hpc
      dsimp only at hres
      rw [hview] at hres
      cases hm : d.houseMembers.lookup (invite.houseId, p) with
      | none => simp [hm] at hres
      | some m =>
        by_cases hpl : m.isPlaceholder = true
        · simp only [hm, Option.filter, hpl, if_pos] at hres
          split at hres
          · next hfree =>
            refine ⟨owns_of_lock _ _ ?_, m, hm, hpl, hfree⟩
            simp [hview, hm, Option.filter, hpl]
          · cases hres
        · simp [hm, Option.filter, hpl] at hres
  · next hnone =>
    refine triple_pure fun tx d hA => ⟨hA, fun p hp => ?_⟩
    rw [hnone] at hp
    cases hp

theorem triple_claimPlaceholder {roomId : Option Uuid} :
    (ledgerProtocol env merged unread).Triple
      (fun tx d => Entering invite.houseId c tx d ∧ Locked invite.houseId p tx d)
      (claimPlaceholder invite c p roomId)
      fun _ => Claimed merged unread invite.houseId p c := by
  have h0 : Writes.Aside {} := ⟨rfl, Writes.unrevised_nothing⟩
  have hroom : (inheritRoom invite.houseId c roomId).Only Writes.Aside :=
    only_inheritRoom h0 fun _ => ⟨rfl, rfl, fun _ h => (by cases h)⟩
  refine triple_bind (triple_and (triple_entering triple_inheritRoom hroom)
    (triple_passive (passive_locked Writes.Aside) hroom)) fun _ => ?_
  refine triple_bind (B := fun _ => Claimed merged unread invite.houseId p c) ?_ fun events =>
    triple_bind (triple_passive passive_claimed (Txn.only_exec fun _ =>
      ⟨⟨rfl, rfl, rfl, rfl⟩, rfl, rfl, ?_⟩)) fun _ => triple_pure fun _ _ hA => hA
  · refine triple_weaken (triple_and triple_claimMembers
      (triple_and triple_claimRows triple_claimRevisions)) ?_ fun _ _ _ hB => ⟨hB.1, hB.2.1, hB.2.2⟩
    rintro tx d ⟨hA, hL⟩
    have hclaiming : Claiming invite.houseId p c tx d := ⟨hL, hA.joined.account, hA.rows⟩
    exact ⟨⟨hA.joined, hL⟩, hclaiming, hclaiming, hA.joined.expenses, hA.writes⟩
  · intro ev hev
    rw [List.mem_singleton.mp hev]
    exact fun h => (by cases h)

theorem triple_consume :
    (ledgerProtocol env merged unread).Triple
      (fun tx d => Accepting merged unread c tx d ∧ InviteHeld id tx d) (consumeUse id)
      fun _ => Accepting merged unread c := by
  have hw : (consumeUse id).Only Writes.Aside :=
    only_consumeUse fun _ => ⟨rfl, rfl, fun _ h => (by cases h)⟩
  rintro tx d ⟨⟨h, hA | ⟨p, hA⟩⟩, hI⟩
  · have ht : (ledgerProtocol env merged unread).Triple
        (fun tx d => Entering h c tx d ∧ InviteHeld id tx d) (consumeUse id) fun _ => Entering h c :=
      triple_weaken (triple_and triple_consumeUse (triple_passive passive_aside hw))
        (fun _ _ hA => ⟨⟨hA.1.joined, hA.2⟩, hA.1.rows, hA.1.writes⟩)
        fun _ _ _ hB => ⟨hB.1, hB.2.1, hB.2.2⟩
    exact wp_mono (fun _ _ _ hB a ha => ⟨h, Or.inl (hB a ha)⟩) (ht tx d ⟨hA, hI⟩)
  · have hkeep : (ledgerProtocol env merged unread).Passive Writes.Aside
        fun tx d => Reidentified merged unread h p c tx d ∧ RevisedFolds unread h p c tx d :=
      (passive_reidentified.mono fun _ hq => hq.rows).and
        (passive_revisedFolds.mono fun _ hq => hq.unrevised)
    have ht : (ledgerProtocol env merged unread).Triple
        (fun tx d => Claimed merged unread h p c tx d ∧ InviteHeld id tx d) (consumeUse id)
        fun _ => Claimed merged unread h p c :=
      triple_weaken (triple_and triple_consumeUse (triple_passive hkeep hw))
        (fun _ _ hA => ⟨⟨hA.1.joined, hA.2⟩, hA.1.rows, hA.1.revisions⟩)
        fun _ _ _ hB => ⟨hB.1, hB.2.1, hB.2.2⟩
    exact wp_mono (fun _ _ _ hB a ha => ⟨h, Or.inr ⟨p, hB a ha⟩⟩) (ht tx d ⟨hA, hI⟩)

theorem passive_accepting :
    (ledgerProtocol env merged unread).Passive Writes.Apart (Accepting merged unread c) where
  stable := by
    rintro tx d d' hr hi ⟨h, hA | ⟨p, hA⟩⟩
    · exact ⟨h, Or.inl (passive_entering.stable tx d d' hr hi hA)⟩
    · exact ⟨h, Or.inr ⟨p, passive_claimed.stable tx d d' hr hi hA⟩⟩
  step := by
    rintro tx d e hq ⟨h, hA | ⟨p, hA⟩⟩
    · exact ⟨h, Or.inl (hA.add e hq)⟩
    · exact ⟨h, Or.inr ⟨p, hA.add e hq⟩⟩

theorem triple_finishAccept {roomId : Option Uuid} {already : Bool} :
    (ledgerProtocol env merged unread).Triple
      (fun tx d => (Entering invite.houseId c tx d ∧ InviteHeld id tx d) ∧
        ∀ p, invite.placeholderUserId = some p → Locked invite.houseId p tx d)
      (finishAccept id invite c roomId already) fun _ => Accepting merged unread c := by
  refine triple_bind (B := fun _ tx d => Accepting merged unread c tx d ∧ InviteHeld id tx d) ?_
    fun claimed => triple_bind triple_consume fun _ => triple_bind
      (triple_passive passive_accepting ?_) fun _ => triple_pure fun _ _ hA => hA
  · unfold claimBound
    split
    · next p hbound =>
      refine triple_weaken (triple_and triple_claimPlaceholder
        (triple_passive (passive_inviteHeld fun _ => True) ?_)) (fun _ _ hA => ?_) fun _ _ _ hB =>
        ⟨⟨invite.houseId, Or.inr ⟨p, hB.1⟩⟩, hB.2⟩
      · exact Txn.only_bind (only_inheritRoom trivial fun _ => trivial) fun _ =>
          Txn.only_bind (only_claimHistory trivial (fun _ => trivial) (fun _ => trivial)
            (fun _ _ => trivial) (fun _ => trivial) fun _ => trivial) fun _ =>
          Txn.only_bind (only_log trivial) fun _ => trivial
      · exact ⟨⟨hA.1.1, hA.2 p hbound⟩, hA.1.2⟩
    · exact triple_pure fun _ _ hA => ⟨⟨invite.houseId, Or.inl hA.1.1⟩, hA.1.2⟩
  · unfold logJoined
    split
    · trivial
    · refine Txn.only_bind (Txn.only_exec fun _ => ⟨⟨rfl, rfl, rfl, rfl⟩, rfl, rfl, ?_⟩) fun _ =>
        Txn.only_bind trivial fun _ => trivial
      intro ev hev
      rw [List.mem_singleton.mp hev]
      exact fun h => (by cases h)

theorem triple_acceptInvite {token : JsString} {startedAt : Millis} :
    (ledgerProtocol env merged unread).Triple (fun tx d => tx = Tx.empty ∧ hasAccount d c = true)
      (acceptInviteTx env token c startedAt) fun _ => Accepting merged unread c := by
  refine triple_bind triple_lockInvite fun r => ?_
  obtain ⟨id, invite⟩ := r
  have hkeep : (ledgerProtocol env merged unread).Passive Writes.Apart
      fun tx d => Entering invite.houseId c tx d ∧ InviteHeld id tx d :=
    passive_entering.and (passive_inviteHeld _)
  have hdone : ∀ tx d, Entering invite.houseId c tx d → Accepting merged unread c tx d :=
    fun _ _ hA => ⟨_, Or.inl hA⟩
  have hlocked : (ledgerProtocol env merged unread).Passive (fun _ => True) fun tx d =>
      InviteHeld id tx d ∧ ∀ p, invite.placeholderUserId = some p → Locked invite.houseId p tx d :=
    (passive_inviteHeld _).and (Passive.all fun _ => Passive.all fun _ => passive_locked _)
  refine triple_bind (triple_passive hkeep (only_selectExisting Writes.apart_nothing)) fun existing => ?_
  dsimp only
  split
  · exact triple_pure fun tx d hA => hdone tx d hA.1
  · refine triple_bind triple_lockBound fun roomId => triple_bind (triple_weaken
      (triple_and (triple_entering triple_becomeMember (only_becomeMember ⟨rfl, rfl, fun _ h => (by cases h)⟩
        fun _ => ⟨rfl, rfl, fun _ h => (by cases h)⟩))
        (triple_passive hlocked (only_becomeMember trivial fun _ => trivial)))
      (fun _ _ hA => ⟨hA.1.1, hA.1.2, hA.2⟩) fun _ _ _ hB => hB) fun member => ?_
    split
    · exact triple_pure fun tx d hA => hdone tx d hA.1
    · exact triple_weaken triple_finishAccept (fun _ _ hA => ⟨⟨hA.1, hA.2.1⟩, hA.2.2⟩)
        fun _ _ _ hB => hB

end accept

/-! ## Section 4: The commit -/

section commit

variable {h c p : Uuid} {bound : Option Uuid} {tx : DbTx} {d : Db}

/-- A membership after the commit of an accept. -/
inductive MemberAfter (h c : Uuid) (bound : Option Uuid) (d : Db) (k : Uuid × Uuid)
    (m : HouseMember) : Prop where
  | kept (hold : d.houseMembers.lookup k = some m)
  | joined (hk : k = (h, c)) (hrow : JoinRow m)
  | claimed (p : Uuid) (hbound : bound = some p) (hk : k = (h, p)) (hrow : ClaimRow c m)

theorem Joined.lookup (hA : Joined h c bound tx d) (k : Uuid × Uuid) :
    (tx.commit d).houseMembers.lookup k = d.houseMembers.lookup k ∨
      ∃ m, (tx.commit d).houseMembers.lookup k = some m ∧ MemberAfter h c bound d k m := by
  have hlook : (tx.commit d).houseMembers.lookup k =
      (Table.lastEdit tx.writes.houseMembers k).getD (d.houseMembers.lookup k) :=
    Table.lookup_patch _ _ _
  cases hedit : Table.lastEdit tx.writes.houseMembers k with
  | none =>
    rw [hedit] at hlook
    exact Or.inl hlook
  | some o =>
    rw [hedit] at hlook
    rcases hA.members k o (Table.mem_of_lastEdit hedit) with ⟨hk, m, rfl, hrow⟩ | ⟨p, m, hb, hk, rfl, hrow⟩
    · exact Or.inr ⟨m, hlook, .joined hk hrow⟩
    · exact Or.inr ⟨m, hlook, .claimed p hb hk hrow⟩

theorem Joined.memberAfter (hA : Joined h c bound tx d) {k : Uuid × Uuid} {m : HouseMember}
    (hm : (tx.commit d).houseMembers.lookup k = some m) : MemberAfter h c bound d k m := by
  rcases hA.lookup k with hsame | ⟨m', hm', hafter⟩
  · exact .kept (hsame.symm.trans hm)
  · rw [hm] at hm'
    cases hm'
    exact hafter

theorem Joined.userStep (hA : Joined h c bound tx d) (u : Uuid) :
    UserStep (d.users.lookup u) ((tx.commit d).users.lookup u) := by
  have hlook : (tx.commit d).users.lookup u =
      (Table.lastEdit tx.writes.users u).getD (d.users.lookup u) := Table.lookup_patch _ _ _
  cases hedit : Table.lastEdit tx.writes.users u with
  | none =>
    rw [hedit] at hlook
    rw [hlook]
    exact UserStep.refl _
  | some o =>
    rw [hedit] at hlook
    obtain ⟨r, r', hr, rfl, hemail⟩ := hA.users u o (Table.mem_of_lastEdit hedit)
    rw [hlook, hr]
    rintro _ ⟨⟩
    exact ⟨r', rfl, hemail⟩

theorem Joined.memberStep (hA : Joined h c bound tx d) (hp : People env d) (k : Uuid × Uuid) :
    MemberStep (d.houseMembers.lookup k) ((tx.commit d).houseMembers.lookup k) := by
  rcases hA.lookup k with hsame | ⟨m', hm', hafter⟩
  · rw [hsame]
    exact MemberStep.refl _
  · intro m hm
    refine ⟨m', hm', ?_⟩
    cases hafter with
    | kept hold =>
      rw [hm] at hold
      cases hold
      exact ⟨rfl, fun _ hc => hc, fun _ hl => hl⟩
    | joined hk hrow =>
      subst hk
      obtain ⟨hreal, hunclaimed⟩ := hp.member_of_account hA.account hm
      exact ⟨hrow.real.trans hreal.symm, fun x hx => (by rw [hunclaimed] at hx; cases hx),
        fun _ _ => hrow.active⟩
    | claimed p hb hk hrow =>
      subst hk
      obtain ⟨m₀, hm₀, hpl, hunclaimed, _⟩ := (hA.locked p hb).unclaimed
      rw [hm] at hm₀
      cases hm₀
      exact ⟨hrow.placeholder.trans hpl.symm, fun x hx => (by rw [hunclaimed] at hx; cases hx),
        fun hreal => (by rw [hpl] at hreal; cases hreal)⟩

/-- A placeholder's membership after the commit was one before. -/
theorem Joined.arriveActive (hA : Joined h c bound tx d) : ArriveActive d (tx.commit d) := by
  intro k m hnone hm hreal
  cases hA.memberAfter hm with
  | kept hold => rw [hnone] at hold; cases hold
  | joined _ hrow => exact hrow.active
  | claimed _ _ _ hrow => rw [hrow.placeholder] at hreal; cases hreal

theorem MemberAfter.placeholder (hA : Joined h c bound tx d) {k : Uuid × Uuid} {m : HouseMember}
    (hm : MemberAfter h c bound d k m) (hpl : m.isPlaceholder = true) :
    ∃ m₀, d.houseMembers.lookup k = some m₀ ∧ m₀.isPlaceholder = true := by
  cases hm with
  | kept hold => exact ⟨m, hold, hpl⟩
  | joined _ hrow => rw [hrow.real] at hpl; cases hpl
  | claimed p hb hk hrow =>
    subst hk
    obtain ⟨m₀, hm₀, hpl₀, _⟩ := (hA.locked p hb).unclaimed
    exact ⟨m₀, hm₀, hpl₀⟩

theorem Joined.people (hA : Joined h c bound tx d) (hp : People env d) :
    People env (tx.commit d) := by
  refine ⟨?_, ?_, ?_, ?_, ?_, ?_⟩
  · intro u r hr
    -- no user is new, so the ids are those from before
    have hold : d.users.lookup u ≠ none := by
      intro hnone
      have hlook : (tx.commit d).users.lookup u =
          (Table.lastEdit tx.writes.users u).getD (d.users.lookup u) := Table.lookup_patch _ _ _
      rw [hr, hnone] at hlook
      cases hedit : Table.lastEdit tx.writes.users u with
      | none => rw [hedit] at hlook; cases hlook
      | some o =>
        obtain ⟨r₀, _, hr₀, _⟩ := hA.users u o (Table.mem_of_lastEdit hedit)
        rw [hnone] at hr₀
        cases hr₀
    obtain ⟨r₀, hr₀⟩ := Option.ne_none_iff_exists'.mp hold
    exact hp.ids u r₀ hr₀
  · intro k u m hm
    -- placeholders have no email, all others have one
    have hold : ∃ r₀, d.users.lookup u = some r₀ ∧ (m.isPlaceholder = true ↔ r₀.email = none) := by
      cases hA.memberAfter hm with
      | kept hold => exact hp.user k u m hold
      | joined hk hrow =>
        obtain rfl := (Prod.mk.inj hk).2
        obtain ⟨r₀, hr₀, hne⟩ := hasAccount_iff.mp hA.account
        exact ⟨r₀, hr₀, iff_of_false (by simp [hrow.real]) hne⟩
      | claimed p hb hk hrow =>
        obtain ⟨rfl, rfl⟩ := Prod.mk.inj hk
        obtain ⟨m₀, hm₀, hpl, _⟩ := (hA.locked u hb).unclaimed
        obtain ⟨r₀, hr₀, hiff⟩ := hp.user _ _ _ hm₀
        exact ⟨r₀, hr₀, by simpa [hrow.placeholder, hpl] using hiff⟩
    obtain ⟨r₀, hr₀, hiff⟩ := hold
    obtain ⟨r, hr, hemail⟩ := hA.userStep u r₀ hr₀
    exact ⟨r, hr, by rw [hemail]; exact hiff⟩
  · intro k k' u m m' hm hm' hpl
    -- a placeholder has one home
    obtain ⟨m₀, hm₀, hpl₀⟩ := (hA.memberAfter hm).placeholder hA hpl
    cases hA.memberAfter hm' with
    | kept hold => exact hp.home k k' u m₀ m' hm₀ hold hpl₀
    | joined hk _ =>
      obtain rfl := (Prod.mk.inj hk).2
      rw [(hp.member_of_account hA.account hm₀).1] at hpl₀
      cases hpl₀
    | claimed p hb hk _ =>
      obtain ⟨rfl, rfl⟩ := Prod.mk.inj hk
      obtain ⟨m₁, hm₁, _⟩ := (hA.locked u hb).unclaimed
      exact hp.home k k' u m₀ m₁ hm₀ hm₁ hpl₀
  · -- only a claim makes a placeholder leave
    intro k u m hm hpl
    cases hA.memberAfter hm with
    | kept hold => exact hp.left k u m hold hpl
    | joined _ hrow => rw [hrow.real] at hpl; cases hpl
    | claimed _ _ _ hrow => simp [hrow.claimed, hrow.left]
  · -- only placeholders are claimed
    intro k u m hm hcl
    cases hA.memberAfter hm with
    | kept hold => exact hp.claimed k u m hold hcl
    | joined _ hrow => rw [hrow.unclaimed] at hcl; cases hcl
    | claimed _ _ _ hrow => exact hrow.placeholder
  · intro k u m x hm hcl
    -- and by an account
    have hold : ∃ r₀, d.users.lookup x = some r₀ ∧ r₀.email ≠ none := by
      cases hA.memberAfter hm with
      | kept hold => exact hp.claimer k u m x hold hcl
      | joined _ hrow => rw [hrow.unclaimed] at hcl; cases hcl
      | claimed _ _ _ hrow =>
        rw [hrow.claimed] at hcl
        cases hcl
        exact hasAccount_iff.mp hA.account
    obtain ⟨r₀, hr₀, hne⟩ := hold
    obtain ⟨r, hr, hemail⟩ := hA.userStep x r₀ hr₀
    exact ⟨r, hr, by rw [hemail]; exact hne⟩

/-- The row of a placeholder after the claim. -/
theorem Joined.claimed (hA : Joined h c bound tx d) (hp : People env d) (hb : bound = some p) :
    ∃ m, (tx.commit d).houseMembers.lookup (h, p) = some m ∧ ClaimRow c m := by
  obtain ⟨m, hmem, hrow⟩ := hA.closed p hb
  have hlook : (tx.commit d).houseMembers.lookup (h, p) =
      (Table.lastEdit tx.writes.houseMembers (h, p)).getD (d.houseMembers.lookup (h, p)) :=
    Table.lookup_patch _ _ _
  cases hedit : Table.lastEdit tx.writes.houseMembers (h, p) with
  | none => exact absurd (List.mem_map_of_mem (f := Prod.fst) hmem) (Table.lastEdit_eq_none.mp hedit)
  | some o =>
    rw [hedit] at hlook
    rcases hA.members _ o (Table.mem_of_lastEdit hedit) with ⟨hk, _⟩ | ⟨_, m', _, _, rfl, hrow'⟩
    · exact absurd (Prod.mk.inj hk).2.symm ((hA.locked p hb).ne hp hA.account)
    · exact ⟨m', hlook, hrow'⟩

/-- An accept claims whom nobody has claimed. -/
theorem Joined.claims (hA : Joined h c bound tx d) (hp : People env d) {k : Uuid × Uuid}
    {m : HouseMember} (hm : (k, some m) ∈ tx.writes.houseMembers) (hne : m.claimedBy ≠ none) :
    (∃ m₀, d.houseMembers.lookup k = some m₀ ∧ m₀.claimedBy = none) ∧
      ∃ m', (tx.commit d).houseMembers.lookup k = some m' ∧ m'.claimedBy ≠ none := by
  rcases hA.members k _ hm with ⟨_, m', heq, hrow⟩ | ⟨p, m', hb, rfl, heq, hrow⟩
  · cases heq
    exact absurd hrow.unclaimed hne
  · obtain ⟨m₀, hm₀, hpl, hunclaimed, _⟩ := (hA.locked p hb).unclaimed
    obtain ⟨m₁, hm₁, hrow₁⟩ := hA.claimed hp hb
    exact ⟨⟨m₀, hm₀, hunclaimed⟩, m₁, hm₁, by rw [hrow₁.claimed]; simp⟩

theorem Entering.guar (hA : Entering h c tx d) (hb : LedgerBase env d) {call : Call} :
    LedgerGuar env merged unread call tx d := by
  have he : (tx.commit d).expenses = d.expenses := by simp [Writes.apply, hA.joined.expenses]
  have hs : (tx.commit d).expenseSplits = d.expenseSplits := by simp [Writes.apply, hA.rows]
  have hnone : ∀ e, ¬ FoldedIn d (tx.commit d) e := by
    rintro e ⟨_, rid', _, theirs, _, htheirs, _, _, _, _, hgone⟩
    rw [Db.split, hs, ← Db.split, htheirs] at hgone
    cases hgone
  have hnew : NoNewClaim d (tx.commit d) := by
    intro k m hm
    cases hA.joined.memberAfter hm with
    | kept hold => exact Or.inr ⟨m, hold, rfl⟩
    | joined _ hrow => exact Or.inl hrow.unclaimed
    | claimed _ hbound => cases hbound
  exact {
    step := LedgerStep.of_people hA.joined.userStep (hA.joined.memberStep hb.people)
      hA.joined.arriveActive he hs
    base := ⟨hA.joined.people hb.people, hb.bookings.of_people he hs rfl hnew⟩
    balanced := fun _ hbal => hbal.of_same he hs
    invites := fun i invite hmem hn => absurd hn (hA.joined.invites i _ hmem)
    truthful := fun _ r hr => by rw [hA.writes.revisions] at hr; cases hr
    folds := by
      intro _ _ e
      refine ⟨iff_of_false ?_ (hnone e), iff_of_false ?_ (hnone e)⟩
      · rintro ⟨r, hr, _⟩
        rw [hA.writes.revisions] at hr
        cases hr
      · rintro ⟨ev, hev, htype, _⟩
        exact hA.writes.events ev hev htype
    claims := fun _ _ _ hm hne => hA.joined.claims hb.people hm hne
    kept := fun _ e _ _ => SameUpTo.of_same (by rw [he]) (fun rid u a => by simp only [Db.split, hs])
      (hb.bookings.of_people he hs rfl hnew) }

/-- Outside of a fold the claim only re-identifies. -/
theorem Claimed.sameUpTo (hA : Claimed merged unread h p c tx d) (hb : LedgerBase env d)
    (hk : Bookings env (tx.commit d)) (hun : unread) {e : Uuid} (hnot : ¬ BothSplit p c d e) :
    SameUpTo e d (tx.commit d) := by
  refine ⟨by simp [Writes.apply, hA.joined.expenses], fun rid u' a => ?_⟩
  cases hA.rows.row rid with
  | kept hedit hnew =>
    rw [hnew]
    -- the user of a split that is kept is nobody who was claimed
    have hfree : ∀ u, d.split rid = some ⟨e, u, a⟩ →
        ∀ k m, (tx.commit d).houseMembers.lookup (k, u) = some m → m.claimedBy = none :=
      fun u hs => hk.holder rid _ (hnew.trans hs)
    constructor
    · exact fun hs => ⟨u', hs, .same (hfree u' hs)⟩
    · rintro ⟨u, hs, hbec⟩
      cases hbec with
      | same _ => exact hs
      | claimed k _ m hm hc => rw [hfree u hs k m hm] at hc; cases hc
  | folded rid' mine theirs hpair hlook =>
    -- a pair in this expense would make it a fold
    have hne : mine.expenseId ≠ e :=
      fun he => hnot ⟨rid, rid', mine, theirs, hpair, hpair.expense.trans he⟩
    rw [Db.split_eq_some, hlook, hpair.mineRow]
    constructor
    · intro hs
      cases hs
      exact absurd rfl hne
    · rintro ⟨u, hs, _⟩
      cases hs
      exact absurd rfl hne
  | swept theirs hold hp hedit hlook =>
    have hne : theirs.expenseId ≠ e := by
      intro he
      obtain ⟨rid₀, mine, hpair, _⟩ := hA.rows.paid (Or.inr hun) rid theirs hedit hold
      exact hnot ⟨rid₀, rid, mine, theirs, hpair, he⟩
    rw [Db.split_eq_some, hlook, hold]
    constructor
    · intro hs
      cases hs
    · rintro ⟨u, hs, _⟩
      cases hs
      exact absurd rfl hne
  | renamed s hren hlook =>
    -- the placeholder has become the claimer
    obtain ⟨m, hm, hrow⟩ := hA.joined.claimed hb.people rfl
    rw [Db.split_eq_some, hlook, hren.split]
    constructor
    · intro hs
      cases hs
      exact ⟨s.userId, rfl, by rw [hren.user]; exact .claimed h c m hm hrow.claimed⟩
    · rintro ⟨u, hs, hbec⟩
      obtain rfl := Option.some.inj hs
      obtain rfl : u = p := hren.user
      rw [hbec.eq (hA.joined.people hb.people) hm hrow.claimed]

theorem Claimed.guar (hA : Claimed merged unread h p c tx d) (hb : LedgerBase env d) {call : Call} :
    LedgerGuar env merged unread call tx d := by
  have hcp := hA.rows.locked.ne hb.people hA.joined.account
  have hmember : ∀ k u m, (tx.commit d).houseMembers.lookup (k, u) = some m →
      m.claimedBy = none ∨ d.houseMembers.lookup (k, u) = some m ∨ u = p := by
    intro k u m hm
    cases hA.joined.memberAfter hm with
    | kept hold => exact Or.inr (Or.inl hold)
    | joined _ hrow => exact Or.inl hrow.unclaimed
    | claimed p' hbound hk _ =>
      obtain rfl := Option.some.inj hbound
      exact Or.inr (Or.inr (Prod.mk.inj hk).2)
  exact {
    step := hA.rows.step hb.people hA.joined.userStep (hA.joined.memberStep hb.people)
      hA.joined.arriveActive hA.joined.expenses
    base := ⟨hA.joined.people hb.people,
      hA.rows.bookings hb.people hb.bookings hA.joined.expenses hmember⟩
    balanced := by
      intro hm hbal e r hr
      have he : (tx.commit d).expenses = d.expenses := by simp [Writes.apply, hA.joined.expenses]
      rw [he] at hr
      rw [hA.rows.splitSum hb.people hb.bookings hm e]
      exact hbal e r hr
    invites := fun i invite hmem hn => absurd hn (hA.joined.invites i _ hmem)
    truthful := hA.revisions.truthful
    folds := by
      intro hun _ e
      have hiff := hA.rows.foldedIn_iff hcp hb.bookings hun e
      exact ⟨(hA.revisions.revised hun e).trans hiff.symm, (hA.revisions.edited hun e).trans hiff.symm⟩
    claims := fun _ _ _ hm hne => hA.joined.claims hb.people hm hne
    kept := by
      intro hun e _ hnone
      refine hA.sameUpTo hb (hA.rows.bookings hb.people hb.bookings hA.joined.expenses hmember) hun ?_
      rintro hboth
      obtain ⟨r, hr, he⟩ := (hA.revisions.revised hun e).mpr hboth
      exact hnone r hr he }

theorem acceptInvite_body {call : Call} {token : JsString} {startedAt : Millis} :
    LedgerBody env merged unread call (fun d => hasAccount d c = true)
      (acceptInviteTx env token c startedAt) fun _ => Accepting merged unread c where
  triple := triple_acceptInvite
  stable := fun _ => passive_accepting.stable
  guar := by
    rintro a tx d ⟨h, hA | ⟨p, hA⟩⟩ hb
    · exact hA.guar hb
    · exact hA.guar hb

end commit

end Homi
