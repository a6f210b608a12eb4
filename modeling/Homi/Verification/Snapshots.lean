import Homi.Api.Snapshot
import Homi.Framework.Alone
import Homi.Verification.Books
import Homi.Verification.Isolation

/-! # Snapshots

  What `getSnapshot` depends on: the rows of the house, the names of its
  members and its events. The order in which the database has its rows does
  not matter, since the balances are computed and everything else is sorted.
-/

namespace Homi

variable {d d' : Db} {h e u : Uuid} {houseId : JsString} {stamps : Stamps} {now : Millis}

/-- Two databases have the same of all that the snapshot of `h` reads. -/
structure ShownSame (h : Uuid) (d d' : Db) : Prop where
  house : d'.houses.lookup h = d.houses.lookup h
  houseMembers : ∀ u, d'.houseMembers.lookup (h, u) = d.houseMembers.lookup (h, u)
  names : ∀ u, Dwells h d u →
    (d'.users.lookup u).map User.name = (d.users.lookup u).map User.name
  expenses : Table.SameOf Expense.houseId h d.expenses d'.expenses
  expenseSplits : ∀ rid s, d'.split rid = some s ∧ Belongs h d' s.expenseId ↔
    d.split rid = some s ∧ Belongs h d s.expenseId
  payments : Table.SameOf Payment.houseId h d.payments d'.payments
  events : houseEvents d' h = houseEvents d h

/-! ## Section 1: Balances -/

/-- The splits record of an expense, row by row. -/
theorem lookup_shares_iff (hd : d.Slots) {a : ℤ} : (d.shares e).lookup u = some a ↔
    ∃ rid s, (rid, s) ∈ d.splitsOf e ∧ s.userId = u ∧ s.amountCents = a := by
  constructor
  · intro ha
    by_cases hu : u ∈ d.splitUsers e
    · obtain ⟨⟨rid, s⟩, hs, rfl⟩ := List.mem_map.mp hu
      obtain ⟨hrow, rfl⟩ := Db.mem_splitsOf.mp hs
      rw [lookup_shares hd hu, amountOf_split hd hrow] at ha
      exact ⟨rid, s, hs, rfl, Option.some.inj ha⟩
    · rw [lookup_shares_none hd hu] at ha
      cases ha
  · intro hs
    obtain ⟨rid, s, hs, rfl, rfl⟩ := hs
    obtain ⟨hrow, rfl⟩ := Db.mem_splitsOf.mp hs
    rw [lookup_shares hd (List.mem_map.mpr ⟨(rid, s), hs, rfl⟩), amountOf_split hd hrow]

theorem shares_congr (hd : d.Slots) (hd' : d'.Slots)
    (h : ∀ r, r ∈ d'.splitsOf e ↔ r ∈ d.splitsOf e) :
    (d'.shares e).entries.Perm (d.shares e).entries := by
  refine List.lookup_ext (d'.shares e).nodupKeys (d.shares e).nodupKeys fun u a => ?_
  show (d'.shares e).lookup u = some a ↔ (d.shares e).lookup u = some a
  rw [lookup_shares_iff hd, lookup_shares_iff hd']
  simp only [h]

/-- A row of the join is that of a member of the house. -/
theorem key_of_selectMember {r : (Uuid × Uuid) × HouseMember} {m : SnapshotMember}
    (hm : selectMember d h r = some m) : r.1 = (h, m.userId) := by
  unfold selectMember at hm
  split at hm
  · next hr =>
    obtain ⟨user, -, rfl⟩ := Option.map_eq_some_iff.mp hm
    exact Prod.ext hr.1 rfl
  · cases hm

theorem nodup_selectMember (d : Db) (h : Uuid) :
    ((d.houseMembers.rows.filterMap (selectMember d h)).map SnapshotMember.userId).Nodup := by
  rw [List.Nodup, List.pairwise_map, List.pairwise_filterMap]
  refine (List.pairwise_map.mp d.houseMembers.nodup_keys_rows).imp fun hne m hm m' hm' heq => hne ?_
  rw [key_of_selectMember hm, key_of_selectMember hm', heq]

namespace ShownSame

theorem belongs (hs : ShownSame h d d') : Belongs h d' e ↔ Belongs h d e := by
  constructor
  · intro hb
    obtain ⟨row, hrow, hown⟩ := hb
    exact ⟨row, (hs.expenses e row hown).mp hrow, hown⟩
  · intro hb
    obtain ⟨row, hrow, hown⟩ := hb
    exact ⟨row, (hs.expenses e row hown).mpr hrow, hown⟩

theorem splitsOf (hs : ShownSame h d d') (he : Belongs h d e) (r : Rid × Split) :
    r ∈ d'.splitsOf e ↔ r ∈ d.splitsOf e := by
  obtain ⟨rid, s⟩ := r
  rw [Db.mem_splitsOf, Db.mem_splitsOf]
  constructor
  · intro hr
    obtain ⟨hr, rfl⟩ := hr
    exact ⟨((hs.expenseSplits rid s).mp ⟨hr, hs.belongs.mpr he⟩).1, rfl⟩
  · intro hr
    obtain ⟨hr, rfl⟩ := hr
    exact ⟨((hs.expenseSplits rid s).mpr ⟨hr, he⟩).1, rfl⟩

/-- The expenses that the balances read. -/
theorem expenseRows (hs : ShownSame h d d') (hd : d.Slots) (hd' : d'.Slots) :
    ∃ es, (expenseRows d' h).Perm es ∧ List.Forall₂ (fun x y : ExpenseRow =>
      x.paidBy = y.paidBy ∧ x.splits.entries.Perm y.splits.entries) es (Homi.expenseRows d h) := by
  have hof : ∀ D : Db, Homi.expenseRows D h =
      (D.expenses.rows.filter fun r => r.2.houseId = h).filterMap (D.expenseRow h) := by
    intro D
    rw [expenseRows_eq, List.filterMap_filter]
    refine List.filterMap_congr fun r _ => ?_
    by_cases hr : r.2.houseId = h
    · rw [if_pos (decide_eq_true hr)]
    · rw [if_neg (by simpa using hr), Db.expenseRow, if_neg fun hx => hr hx.1]
  refine ⟨(d.expenses.rows.filter fun r => r.2.houseId = h).filterMap (d'.expenseRow h), ?_, ?_⟩
  · rw [hof d']
    exact hs.expenses.rows.filterMap _
  · rw [hof d]
    -- row by row, the splits of the expense are the same
    have hrows : ∀ r ∈ d.expenses.rows.filter fun r => r.2.houseId = h, Belongs h d r.1 := by
      intro r hr
      obtain ⟨hr, hown⟩ := List.mem_filter.mp hr
      exact ⟨r.2, Table.mem_rows.mp hr, of_decide_eq_true hown⟩
    generalize d.expenses.rows.filter (fun r => r.2.houseId = h) = rows at hrows ⊢
    induction rows with
    | nil => exact .nil
    | cons r rows ih =>
      have hsplits := hs.splitsOf (hrows r List.mem_cons_self)
      have hnil : d'.splitsOf r.1 = [] ↔ d.splitsOf r.1 = [] := by
        simp only [List.eq_nil_iff_forall_not_mem, hsplits]
      have hrest := ih fun r' hr' => hrows r' (List.mem_cons_of_mem _ hr')
      by_cases hlive : r.2.houseId = h ∧ r.2.deletedAt = none ∧ d.splitsOf r.1 ≠ []
      · rw [List.filterMap_cons_some (by rw [Db.expenseRow, if_pos ⟨hlive.1, hlive.2.1, fun hx => hlive.2.2 (hnil.mp hx)⟩]),
          List.filterMap_cons_some (by rw [Db.expenseRow, if_pos hlive])]
        exact .cons ⟨rfl, shares_congr hd hd' hsplits⟩ hrest
      · rw [List.filterMap_cons_none (by rw [Db.expenseRow, if_neg fun hx => hlive ⟨hx.1, hx.2.1, fun hy => hx.2.2 (hnil.mpr hy)⟩]),
          List.filterMap_cons_none (by rw [Db.expenseRow, if_neg hlive])]
        exact hrest

theorem paymentRows (hs : ShownSame h d d') : (paymentRows d' h).Perm (Homi.paymentRows d h) :=
  hs.payments.rows.map _

theorem getBalances (hs : ShownSame (toUuid houseId) d d') (hd : d.Slots) (hd' : d'.Slots) :
    getBalances d' houseId = Homi.getBalances d houseId :=
  computeBalances_congr ⟨hs.expenseRows hd hd', hs.paymentRows⟩

/-! ## Section 2: Members, action items and the feed -/

theorem member (hs : ShownSame h d d') {r : (Uuid × Uuid) × HouseMember} (hr : r ∈ d'.houseMembers.rows) :
    selectMember d' h r = selectMember d h r := by
  unfold selectMember
  by_cases hk : r.1.1 = h ∧ r.2.leftAt = none
  · rw [if_pos hk, if_pos hk]
    have hrow : d'.houseMembers.lookup (h, r.1.2) = some r.2 := by
      rw [← hk.1]
      exact Table.mem_rows.mp hr
    rw [hs.houseMembers] at hrow
    have hname := hs.names r.1.2 ⟨r.2, hrow⟩
    cases hu : d.users.lookup r.1.2 with
    | none =>
      rw [hu, Option.map_none, Option.map_eq_none_iff] at hname
      rw [hname]
    | some user =>
      rw [hu, Option.map_some, Option.map_eq_some_iff] at hname
      obtain ⟨user', hu', hsame⟩ := hname
      rw [hu', Option.map_some, Option.map_some, hsame]
  · rw [if_neg hk, if_neg hk]

theorem selectMembers (hs : ShownSame h d d') : selectMembers stamps d' h = Homi.selectMembers stamps d h := by
  have hfilter : ∀ D : Db, D.houseMembers.rows.filterMap (selectMember d h) =
      (D.houseMembers.rows.filter fun r => r.1.1 = h).filterMap (selectMember d h) := by
    intro D
    rw [List.filterMap_filter]
    refine List.filterMap_congr fun r _ => ?_
    by_cases hk : r.1.1 = h
    · rw [if_pos (decide_eq_true hk)]
    · rw [if_neg (by simpa using hk), selectMember, if_neg fun hx => hk hx.1]
  have hrows : (d'.houseMembers.rows.filter fun r => r.1.1 = h).Perm
      (d.houseMembers.rows.filter fun r => r.1.1 = h) := by
    have hnodup : ∀ D : Db, D.houseMembers.rows.Nodup := fun D => D.houseMembers.nodup_keys_rows.of_map
    refine (List.perm_ext_iff_of_nodup ((hnodup d').filter _) ((hnodup d).filter _)).mpr fun r => ?_
    obtain ⟨⟨k, u⟩, m⟩ := r
    rw [List.mem_filter, List.mem_filter, Table.mem_rows, Table.mem_rows]
    refine and_congr_left fun hk => ?_
    have hk : k = h := of_decide_eq_true hk
    rw [hk, hs.houseMembers]
  have hmember : d'.houseMembers.rows.filterMap (selectMember d' h) =
      d'.houseMembers.rows.filterMap (selectMember d h) := List.filterMap_congr fun r hr => hs.member hr
  apply Keyset.newest_congr
  · rw [hmember, hfilter d', hfilter d]
    exact hrows.filterMap _
  · -- the keys have the ids of the users
    have hdistinct := nodup_selectMember d' h
    rw [List.Nodup, List.pairwise_map] at hdistinct ⊢
    exact hdistinct.imp fun hne heq => hne (congrArg (fun k => (ofLex (OrderDual.ofDual k)).2) heq)

theorem disputablePayments (hs : ShownSame (toUuid houseId) d d') (micros : Uuid → ℕ) :
    disputablePayments micros d' houseId u now = Homi.disputablePayments micros d houseId u now := by
  have hinside : ∀ D : Db, (D.payments.rows.filter fun r => r.2.houseId = toUuid houseId).filter (fun r =>
      r.2.houseId = toUuid houseId ∧ r.2.toUser = u ∧ r.2.status = .recorded ∧
        now * 1000 < r.2.createdAt * 1000 + micros r.1 + DISPUTE_WINDOW_MS * 1000) =
      D.payments.rows.filter fun r => r.2.houseId = toUuid houseId ∧ r.2.toUser = u ∧
        r.2.status = .recorded ∧ now * 1000 < r.2.createdAt * 1000 + micros r.1 + DISPUTE_WINDOW_MS * 1000 := by
    intro D
    rw [List.filter_filter]
    refine List.filter_congr fun r _ => ?_
    by_cases hr : r.2.houseId = toUuid houseId <;> simp [hr]
  apply Keyset.newest_congr
  · dsimp only
    rw [← hinside d', ← hinside d]
    exact hs.payments.rows.filter _
  · -- the keys have the ids of the payments
    have hdistinct : (d'.payments.rows.map Prod.fst).Nodup := d'.payments.nodup_keys_rows
    rw [List.Nodup, List.pairwise_map] at hdistinct ⊢
    exact (hdistinct.imp fun hne heq => hne (congrArg (fun k => (ofLex k).2) heq)).filter _

theorem actionItems (hs : ShownSame (toUuid houseId) d d') (hd : d.Slots) (hd' : d'.Slots)
    (micros : Uuid → ℕ) : actionItems micros d' houseId u now = Homi.actionItems micros d houseId u now := by
  unfold Homi.actionItems Homi.debts confirmations
  rw [hs.getBalances hd hd', hs.disputablePayments]

theorem getSnapshot (hs : ShownSame (toUuid houseId) d d') (hd : d.Slots) (hd' : d'.Slots) :
    getSnapshot stamps d' houseId u now = Homi.getSnapshot stamps d houseId u now := by
  unfold Homi.getSnapshot selectFeed
  rw [hs.house, hs.selectMembers, hs.getBalances hd hd', hs.actionItems hd hd', hs.events]

/-- The route answers the same, and lets in the same users. -/
theorem snapshotRoute (hs : ShownSame (toUuid houseId) d d') (hd : d.Slots) (hd' : d'.Slots) :
    ((snapshotRoute stamps houseId u).alone now d' {}).1 =
      ((Homi.snapshotRoute stamps houseId u).alone now d {}).1 := by
  have hmember : activeMember d' (toUuid houseId) u = activeMember d (toUuid houseId) u := by
    unfold activeMember
    rw [hs.houseMembers]
  unfold Homi.snapshotRoute
  by_cases hre : UUID_RE houseId
  · rw [if_pos hre]
    simp only [ReadCommitted.Prog.alone, seen_nothing, hmember]
    -- the guard reads the membership, and only then the snapshot is read
    by_cases hactive : (activeMember d (toUuid houseId) u).isSome
    · simp only [if_pos hactive, ReadCommitted.Prog.alone, seen_nothing, hs.getSnapshot hd hd']
    · simp only [if_neg hactive, ReadCommitted.Prog.alone]
  · simp only [if_neg hre, ReadCommitted.Prog.alone]

end ShownSame

end Homi
