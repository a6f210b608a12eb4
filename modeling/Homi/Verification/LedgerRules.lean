import Homi.Verification.Statements

/-! # Rules of the ledger

  The protocol between the writers of memberships, expenses and splits.

  * `LedgerBase` and `Balanced`: what every committed database satisfies.
  * `LedgerStep`: what a commit may do to the rows, given what the
    committing transaction holds locks on.
  * `LedgerRely`: what a transaction can rely on while it is open. It is
    the same list of facts seen from the other side: what a commit needs a
    lock for does not happen while somebody else holds that lock.
-/

namespace Homi

open ReadCommitted

/-! ## Section 1: Steps of single rows -/

/-- A user keeps the email address. -/
def UserStep (old new : Option User) : Prop :=
  ∀ r, old = some r → ∃ r', new = some r' ∧ r'.email = r.email

/-- A membership stays one, a claim is for good, and only placeholders leave. -/
def MemberStep (old new : Option HouseMember) : Prop :=
  ∀ m, old = some m → ∃ m', new = some m' ∧ m'.isPlaceholder = m.isPlaceholder ∧
    (∀ c, m.claimedBy = some c → m'.claimedBy = some c) ∧
    (m.isPlaceholder = false → m.leftAt = none → m'.leftAt = none)

/-- An expense stays in its house, its period and its place in the ledger. -/
def ExpenseStep (old new : Option Expense) : Prop :=
  ∀ r, old = some r → ∃ r', new = some r' ∧ r'.houseId = r.houseId ∧
    r'.templateId = r.templateId ∧ r'.period = r.period ∧ r'.createdAt = r.createdAt ∧
    r'.deletedAt = r.deletedAt

/-- A deleted split stays deleted, and a split stays with its expense. -/
def RowStep (old new : Option (Option Split)) : Prop :=
  (old = some none → new = some none) ∧
    ∀ s, old = some (some s) → new = some none ∨
      ∃ s', new = some (some s') ∧ s'.expenseId = s.expenseId

theorem UserStep.refl (o : Option User) : UserStep o o := fun r h => ⟨r, h, rfl⟩

theorem UserStep.trans {a b c : Option User} (h : UserStep a b) (h' : UserStep b c) :
    UserStep a c := by
  intro r hr
  obtain ⟨r', hr', he⟩ := h r hr
  obtain ⟨r'', hr'', he'⟩ := h' r' hr'
  exact ⟨r'', hr'', he'.trans he⟩

theorem MemberStep.refl (o : Option HouseMember) : MemberStep o o :=
  fun m h => ⟨m, h, rfl, fun _ hc => hc, fun _ hl => hl⟩

theorem MemberStep.trans {a b c : Option HouseMember} (h : MemberStep a b)
    (h' : MemberStep b c) : MemberStep a c := by
  intro m hm
  obtain ⟨m', hm', hp, hc, hl⟩ := h m hm
  obtain ⟨m'', hm'', hp', hc', hl'⟩ := h' m' hm'
  exact ⟨m'', hm'', hp'.trans hp, fun x hx => hc' x (hc x hx),
    fun hf hn => hl' (hp.trans hf) (hl hf hn)⟩

theorem ExpenseStep.refl (o : Option Expense) : ExpenseStep o o :=
  fun r h => ⟨r, h, rfl, rfl, rfl, rfl, rfl⟩

theorem ExpenseStep.trans {a b c : Option Expense} (h : ExpenseStep a b)
    (h' : ExpenseStep b c) : ExpenseStep a c := by
  intro r hr
  obtain ⟨r', hr', hh, ht, hp, hc, hd⟩ := h r hr
  obtain ⟨r'', hr'', hh', ht', hp', hc', hd'⟩ := h' r' hr'
  exact ⟨r'', hr'', hh'.trans hh, ht'.trans ht, hp'.trans hp, hc'.trans hc, hd'.trans hd⟩

theorem RowStep.refl (o : Option (Option Split)) : RowStep o o :=
  ⟨id, fun s h => Or.inr ⟨s, h, rfl⟩⟩

theorem RowStep.trans {a b c : Option (Option Split)} (h : RowStep a b) (h' : RowStep b c) :
    RowStep a c := by
  refine ⟨fun ha => h'.1 (h.1 ha), ?_⟩
  intro s hs
  rcases h.2 s hs with hb | ⟨s', hb, he⟩
  · exact Or.inl (h'.1 hb)
  · rcases h'.2 s' hb with hc | ⟨s'', hc, he'⟩
    · exact Or.inl hc
    · exact Or.inr ⟨s'', hc, he'.trans he⟩

theorem RowStep.delete (s : Split) : RowStep (some (some s)) (some none) :=
  ⟨fun _ => rfl, fun _ _ => Or.inl rfl⟩

theorem RowStep.update {s s' : Split} (he : s'.expenseId = s.expenseId) :
    RowStep (some (some s)) (some (some s')) := by
  refine ⟨fun h => (by cases h), ?_⟩
  rintro _ ⟨⟩
  exact Or.inr ⟨s', rfl, he⟩

/-- What `Db.split` reads. -/
theorem Db.split_eq_some {d : Db} {rid : Rid} {s : Split} :
    d.split rid = some s ↔ d.expenseSplits.lookup rid = some (some s) := by
  rw [Db.split]
  cases d.expenseSplits.lookup rid <;> simp

/-- The live rows after a step of their slot. -/
theorem RowStep.split {d d' : Db} {rid : Rid} {s s' : Split}
    (h : RowStep (d.expenseSplits.lookup rid) (d'.expenseSplits.lookup rid))
    (hs : d.split rid = some s) (hs' : d'.split rid = some s') : s'.expenseId = s.expenseId := by
  rw [Db.split_eq_some] at hs hs'
  rcases h.2 s hs with hn | ⟨s'', hn, he⟩
  · rw [hn] at hs'; cases hs'
  · rw [hn] at hs'
    cases hs'
    exact he

/-! ## Section 2: Steps of the ledger -/

/-- The user of a membership row that is a placeholder. -/
def Db.IsPlaceholder (d : Db) (houseId userId : Uuid) : Prop :=
  ∃ m, d.houseMembers.lookup (houseId, userId) = some m ∧ m.isPlaceholder = true

/-- All live splits of the expense are deleted between `d` and `d'`. -/
def Cleared (d d' : Db) (expenseId : Uuid) : Prop :=
  ∀ rid s, d.split rid = some s → s.expenseId = expenseId →
    d'.expenseSplits.lookup rid = some none

/-- The expense and its live splits are the same in both. -/
structure SameExpense (e : Uuid) (d d' : Db) : Prop where
  row : d'.expenses.lookup e = d.expenses.lookup e
  splits : ∀ rid s, s.expenseId = e → (d'.split rid = some s ↔ d.split rid = some s)

/-- A user who was no member of a house and is one now is an active one. -/
def ArriveActive (d d' : Db) : Prop :=
  ∀ k m, d.houseMembers.lookup k = none → d'.houseMembers.lookup k = some m →
    m.isPlaceholder = false → m.leftAt = none

/-- What happens to the rows in any case. -/
structure Persist (d d' : Db) : Prop where
  users : ∀ u, UserStep (d.users.lookup u) (d'.users.lookup u)
  members : ∀ k, MemberStep (d.houseMembers.lookup k) (d'.houseMembers.lookup k)
  arrivals : ArriveActive d d'
  expenses : ∀ e, ExpenseStep (d.expenses.lookup e) (d'.expenses.lookup e)
  rows : ∀ rid, RowStep (d.expenseSplits.lookup rid) (d'.expenseSplits.lookup rid)

/-- A commit of `tx`.

    * `opened`: a new split row needs its expense, and comes with a delete of
      all splits that the expense had.
    * `given`: a split changes to the name of a placeholder only under a
      lock on the membership.
    * `taken`: a split of a placeholder changes in a claim of that
      placeholder, or in an edit that deletes all splits of the expense.
    * `slots`: a split changes to a name only with the slot in the index. -/
structure LedgerStep (tx : DbTx) (d d' : Db) : Prop extends Persist d d' where
  opened : ∀ rid s, d'.split rid = some s → d.split rid = none →
    tx.Owns (.expense s.expenseId) ∧ Cleared d d' s.expenseId
  given : ∀ rid s, d'.split rid = some s → d.split rid ≠ some s → ∀ h,
    d.IsPlaceholder h s.userId → tx.Holds (.member h s.userId)
  taken : ∀ rid s, d.split rid = some s → d'.split rid ≠ some s → ∀ h,
    d.IsPlaceholder h s.userId → tx.Owns (.member h s.userId) ∨ Cleared d d' s.expenseId
  slots : ∀ rid s, d'.split rid = some s → (∀ s₀, d.split rid = some s₀ → s₀.userId ≠ s.userId) →
    tx.Owns (.splitSlot s.expenseId s.userId)

/-- `tx` is a claim of `u` between the snapshot of its fold, where the
    placeholder had a split in `e`, and that of its delete. -/
def Folding (tx : DbTx) (u e : Uuid) : Prop :=
  ∃ es, tx.notes.getLast? = some (.folding u es) ∧ e ∈ es

/-- What an open transaction relies on. `merged` and `unread` are
    assumptions about the run:

    * `merged`: nobody commits a re-identification that gives a claimer a
      split of an expense while a claim of the same claimer is `Folding` it.
    * `unread`: nobody commits a change to an expense that `tx` has read
      for a revision. -/
structure LedgerRely (merged unread : Prop) (tx : DbTx) (d d' : Db) : Prop extends Persist d d' where
  frame : Frame tx d d'
  fresh : d.fresh ≤ d'.fresh
  opened : ∀ rid s, d'.split rid = some s → d.split rid = none → ¬ tx.Holds (.expense s.expenseId)
  given : ∀ rid s, d'.split rid = some s → d.split rid ≠ some s → ∀ h,
    d.IsPlaceholder h s.userId → ¬ tx.Owns (.member h s.userId)
  taken : ∀ rid s, d.split rid = some s → d'.split rid ≠ some s → ∀ h,
    d.IsPlaceholder h s.userId → tx.Holds (.member h s.userId) → Cleared d d' s.expenseId
  slots : ∀ rid s, d'.split rid = some s → (∀ s₀, d.split rid = some s₀ → s₀.userId ≠ s.userId) →
    ¬ tx.Holds (.splitSlot s.expenseId s.userId)
  gained : merged → ∀ rid s, d'.split rid = some s → Folding tx s.userId s.expenseId →
    (∃ s₀, d.split rid = some s₀ ∧ s₀.userId = s.userId) ∨ Cleared d d' s.expenseId
  untouched : unread → ∀ e, Note.snapshot e ∈ tx.notes → SameExpense e d d'

/-- The commit makes a split of somebody else in `e` one of `u`. -/
def GivesTo (c : HomiCommit) (u e : Uuid) : Prop :=
  ∃ rid s s', c.before.split rid = some s ∧ c.after.split rid = some s' ∧
    s'.expenseId = e ∧ s'.userId = u ∧ s.userId ≠ u

theorem Persist.refl (d : Db) : Persist d d where
  users _ := UserStep.refl _
  members _ := MemberStep.refl _
  arrivals _ _ h h' _ := by rw [h] at h'; cases h'
  expenses _ := ExpenseStep.refl _
  rows _ := RowStep.refl _

theorem Persist.trans {a b c : Db} (h : Persist a b) (h' : Persist b c) : Persist a c where
  users u := (h.users u).trans (h'.users u)
  members k := (h.members k).trans (h'.members k)
  arrivals k m hnone hm hreal := by
    cases hb : b.houseMembers.lookup k with
    | none => exact h'.arrivals k m hb hm hreal
    | some m₀ =>
      -- the row came in the first step, and the second one keeps it active
      obtain ⟨m', hm', hsame, _, hstay⟩ := h'.members k m₀ hb
      rw [hm] at hm'
      cases hm'
      have hreal₀ := hsame.symm.trans hreal
      exact hstay hreal₀ (h.arrivals k m₀ hnone hb hreal₀)
  expenses e := (h.expenses e).trans (h'.expenses e)
  rows rid := (h.rows rid).trans (h'.rows rid)

theorem Persist.isPlaceholder {d d' : Db} (h : Persist d d') {k u : Uuid}
    (hp : d.IsPlaceholder k u) : d'.IsPlaceholder k u := by
  obtain ⟨m, hm, hpl⟩ := hp
  obtain ⟨m', hm', hpl', _⟩ := h.members _ m hm
  exact ⟨m', hm', hpl'.trans hpl⟩

theorem SameExpense.refl (e : Uuid) (d : Db) : SameExpense e d d := ⟨rfl, fun _ _ _ => Iff.rfl⟩

theorem SameExpense.trans {e : Uuid} {a b c : Db} (h : SameExpense e a b)
    (h' : SameExpense e b c) : SameExpense e a c :=
  ⟨h'.row.trans h.row, fun rid s he => (h'.splits rid s he).trans (h.splits rid s he)⟩

/-- Splits that a first step deletes stay deleted in a second one. -/
theorem Cleared.then {a b c : Db} {e : Uuid} (h : Cleared a b e) (h' : Persist b c) :
    Cleared a c e := fun rid s hs he => (h'.rows rid).1 (h rid s hs he)

/-- Splits that survive a first step are deleted by a second one. -/
theorem Cleared.after {a b c : Db} {e : Uuid} (h : Persist a b) (h' : Cleared b c e)
    (hbc : Persist b c) : Cleared a c e := by
  intro rid s hs he
  rcases (h.rows rid).2 s (Db.split_eq_some.mp hs) with hn | ⟨s', hn, he'⟩
  · exact (hbc.rows rid).1 hn
  · exact h' rid s' (Db.split_eq_some.mpr hn) (he'.trans he)

namespace LedgerRely

variable {merged unread : Prop} {tx : DbTx} {a b c d : Db}

theorem refl (tx : DbTx) (d : Db) : LedgerRely merged unread tx d d where
  toPersist := Persist.refl d
  frame := Frame.refl tx d
  fresh := le_refl _
  opened := fun rid s h h' => by rw [h] at h'; cases h'
  given := fun rid s h h' => absurd h h'
  taken := fun rid s h h' => absurd h h'
  slots := fun rid s h h' => absurd rfl (h' s h)
  gained := fun _ rid s h _ => Or.inl ⟨s, h, rfl⟩
  untouched := fun _ e _ => SameExpense.refl e d

theorem trans (h : LedgerRely merged unread tx a b) (h' : LedgerRely merged unread tx b c) :
    LedgerRely merged unread tx a c where
  toPersist := h.toPersist.trans h'.toPersist
  frame := h.frame.trans h'.frame
  fresh := h.fresh.trans h'.fresh
  opened := by
    intro rid s hc ha
    cases hb : b.split rid with
    | none => exact h'.opened rid s hc hb
    | some s' =>
      rw [(h'.rows rid).split hb hc]
      exact h.opened rid s' hb ha
  given := by
    intro rid s hc ha k hk
    by_cases hb : b.split rid = some s
    · exact h.given rid s hb ha k hk
    · exact h'.given rid s hc hb k (h.toPersist.isPlaceholder hk)
  taken := by
    intro rid s ha hc k hk htx
    by_cases hb : b.split rid = some s
    · exact Cleared.after h.toPersist
        (h'.taken rid s hb hc k (h.toPersist.isPlaceholder hk) htx) h'.toPersist
    · exact (h.taken rid s ha hb k hk htx).then h'.toPersist
  slots := by
    intro rid s hc ha
    by_cases hb : ∃ s', b.split rid = some s' ∧ s'.userId = s.userId
    · obtain ⟨s', hb, hu⟩ := hb
      rw [(h'.rows rid).split hb hc, ← hu]
      exact h.slots rid s' hb fun s₀ hs₀ => by rw [hu]; exact ha s₀ hs₀
    · exact h'.slots rid s hc fun s' hs' hu => hb ⟨s', hs', hu⟩
  gained := by
    intro hm rid s hc hf
    rcases h'.gained hm rid s hc hf with ⟨s', hb, hu⟩ | hcleared
    · have he := (h'.rows rid).split hb hc
      rcases h.gained hm rid s' hb (by rw [hu, ← he]; exact hf) with ⟨s₀, ha, hu₀⟩ | hcleared
      · exact Or.inl ⟨s₀, ha, hu₀.trans hu⟩
      · exact Or.inr (he ▸ hcleared.then h'.toPersist)
    · exact Or.inr (Cleared.after h.toPersist hcleared h'.toPersist)
  untouched := fun hu e he => (h.untouched hu e he).trans (h'.untouched hu e he)

theorem tick (tx : DbTx) (n : ℕ) (d : Db) :
    LedgerRely merged unread tx d (ReadCommitted.tick n d) := by
  have h : LedgerRely merged unread tx d d := refl tx d
  exact {
    toPersist := ⟨h.users, h.members, h.arrivals, h.expenses, h.rows⟩
    frame := Frame.tick tx n d
    fresh := Nat.le_add_right _ _
    opened := h.opened
    given := h.given
    taken := h.taken
    slots := h.slots
    gained := h.gained
    untouched := fun _ _ _ => ⟨rfl, fun _ _ _ => Iff.rfl⟩ }

/-- What a commit does to the others, from what it does. -/
theorem commit {c : HomiCommit} {tx : DbTx} (hstep : LedgerStep c.tx c.before c.after)
    (hc : Compatible tx.locks c.tx.locks)
    (hheld : ∀ k ∈ written tx.writes, (k, Mode.exclusive) ∈ tx.locks)
    (hheld' : ∀ k ∈ written c.tx.writes, (k, Mode.exclusive) ∈ c.tx.locks)
    (hmerged : merged → ∀ u e, Folding tx u e → ¬ GivesTo c u e)
    (hunread : unread → ∀ e, Note.snapshot e ∈ tx.notes → SameExpense e c.before c.after) :
    LedgerRely merged unread tx c.before c.after := by
  have hown : ∀ k, c.tx.Owns k → ¬ tx.Holds k :=
    fun k hk => not_holds_of_owns hc hheld hheld' hk
  have hhold : ∀ k, c.tx.Holds k → ¬ tx.Owns k :=
    fun k hk hk' => not_holds_of_owns hc.symm hheld' hheld hk' hk
  exact {
    toPersist := hstep.toPersist
    frame := Frame.commit hc hheld hheld'
    fresh := le_refl _
    opened := fun rid s hs hn => hown _ (hstep.opened rid s hs hn).1
    given := fun rid s hs hn k hp => hhold _ (hstep.given rid s hs hn k hp)
    taken := by
      intro rid s hs hn k hp htx
      rcases hstep.taken rid s hs hn k hp with h | h
      · exact absurd htx (hown _ h)
      · exact h
    slots := fun rid s hs hn => hown _ (hstep.slots rid s hs hn)
    gained := by
      intro hm rid s hs hf
      cases hn : c.before.split rid with
      | none => exact Or.inr (hstep.opened rid s hs hn).2
      | some s₀ =>
        by_cases hu : s₀.userId = s.userId
        · exact Or.inl ⟨s₀, rfl, hu⟩
        · exact absurd ⟨rid, s₀, s, hn, hs, rfl, rfl, hu⟩ (hmerged hm _ _ hf)
    untouched := hunread }

end LedgerRely

/-! ## Section 3: Invariants -/

/-- Users and memberships. -/
structure People (env : Env) (d : Db) : Prop where
  ids : ∀ u r, d.users.lookup u = some r → ∃ n < d.fresh, u = env.uuid n
  user : ∀ h u m, d.houseMembers.lookup (h, u) = some m →
    ∃ r, d.users.lookup u = some r ∧ (m.isPlaceholder = true ↔ r.email = none)
  home : ∀ h h' u m m', d.houseMembers.lookup (h, u) = some m →
    d.houseMembers.lookup (h', u) = some m' → m.isPlaceholder = true → h' = h
  left : ∀ h u m, d.houseMembers.lookup (h, u) = some m → m.isPlaceholder = true →
    (m.claimedBy.isSome ↔ m.leftAt.isSome)
  claimed : ∀ h u m, d.houseMembers.lookup (h, u) = some m → m.claimedBy.isSome →
    m.isPlaceholder = true
  claimer : ∀ h u m c, d.houseMembers.lookup (h, u) = some m → m.claimedBy = some c →
    ∃ r, d.users.lookup c = some r ∧ r.email ≠ none

/-- Expenses and their splits. `holder` is H11: nothing is left in the name
    of a claimed placeholder. -/
structure Bookings (env : Env) (d : Db) : Prop where
  ids : ∀ e r, d.expenses.lookup e = some r → ∃ n < d.fresh, e = env.uuid n
  amount : ∀ e r, d.expenses.lookup e = some r → 0 < r.amountCents
  rids : ∀ rid row, d.expenseSplits.lookup rid = some row → rid < d.fresh
  expense : ∀ rid s, d.split rid = some s → ∃ r, d.expenses.lookup s.expenseId = some r
  nonneg : ∀ rid s, d.split rid = some s → 0 ≤ s.amountCents
  slot : ∀ rid rid' s s', d.split rid = some s → d.split rid' = some s' →
    s.expenseId = s'.expenseId → s.userId = s'.userId → rid = rid'
  holder : ∀ rid s, d.split rid = some s → ∀ h m,
    d.houseMembers.lookup (h, s.userId) = some m → m.claimedBy = none

structure LedgerBase (env : Env) (d : Db) : Prop where
  people : People env d
  bookings : Bookings env d

/-- The sum of the splits of an expense. -/
def Db.splitSum (d : Db) (e : Uuid) : ℤ := ((d.splitsOf e).map fun r => r.2.amountCents).sum

/-- The splits of every expense sum to its amount. -/
def Balanced (d : Db) : Prop :=
  ∀ e r, d.expenses.lookup e = some r → d.splitSum e = r.amountCents

theorem Db.nodup_splitsOf (d : Db) (e : Uuid) : (d.splitsOf e).Nodup := by
  have hrows : d.expenseSplits.rows.Nodup := d.expenseSplits.nodup_keys_rows.of_map
  refine (hrows.filterMap ?_).filter _
  rintro ⟨rid, row⟩ ⟨rid', row'⟩ ⟨_, s⟩ h h'
  obtain ⟨s₁, hrow, heq⟩ := Option.map_eq_some_iff.mp h
  obtain ⟨s₂, hrow', heq'⟩ := Option.map_eq_some_iff.mp h'
  obtain ⟨rfl, rfl⟩ := Prod.mk.inj heq
  obtain ⟨rfl, rfl⟩ := Prod.mk.inj heq'
  exact Prod.ext rfl (hrow.trans hrow'.symm)

/-- The sum over any list of the splits of an expense. -/
theorem Db.splitSum_eq {d : Db} {e : Uuid} {l : List (Rid × Split)} (hnd : l.Nodup)
    (h : ∀ rid s, (rid, s) ∈ l ↔ d.split rid = some s ∧ s.expenseId = e) :
    d.splitSum e = (l.map fun r => r.2.amountCents).sum := by
  have hperm : (d.splitsOf e).Perm l := by
    refine (List.perm_ext_iff_of_nodup (d.nodup_splitsOf e) hnd).mpr ?_
    rintro ⟨rid, s⟩
    rw [Db.mem_splitsOf, h]
  exact (hperm.map _).sum_eq

theorem Db.splitSum_congr {d d' : Db} {e : Uuid}
    (h : ∀ rid s, s.expenseId = e → (d'.split rid = some s ↔ d.split rid = some s)) :
    d'.splitSum e = d.splitSum e := by
  refine Db.splitSum_eq (d.nodup_splitsOf e) ?_
  intro rid s
  rw [Db.mem_splitsOf]
  constructor
  · exact fun hs => ⟨(h rid s hs.2).mpr hs.1, hs.2⟩
  · exact fun hs => ⟨(h rid s hs.2).mp hs.1, hs.2⟩

/-- The amount in a slot of `expense_splits`. -/
def Db.cents (d : Db) (rid : Rid) : ℤ := (d.split rid).elim 0 Split.amountCents

/-- The sum over any set of slots that has all splits of the expense and no others. -/
theorem Db.splitSum_eq_sum {d : Db} {e : Uuid} {S : Finset Rid}
    (hall : ∀ rid s, d.split rid = some s → s.expenseId = e → rid ∈ S)
    (honly : ∀ rid ∈ S, ∀ s, d.split rid = some s → s.expenseId = e) :
    d.splitSum e = ∑ rid ∈ S, d.cents rid := by
  have hnd : ((d.splitsOf e).map Prod.fst).Nodup := by
    refine List.Nodup.map_on ?_ (d.nodup_splitsOf e)
    rintro ⟨rid, s⟩ hs ⟨_, s'⟩ hs' rfl
    rw [Db.mem_splitsOf] at hs hs'
    rw [hs.1] at hs'
    exact Prod.ext rfl (Option.some.inj hs'.1)
  have hcents : (d.splitsOf e).map (fun r => r.2.amountCents) =
      ((d.splitsOf e).map Prod.fst).map d.cents := by
    rw [List.map_map]
    refine List.map_congr_left ?_
    rintro ⟨rid, s⟩ hs
    simp [Db.cents, (Db.mem_splitsOf.mp hs).1]
  rw [Db.splitSum, hcents, ← List.sum_toFinset _ hnd]
  refine Finset.sum_subset ?_ ?_
  · intro rid hrid
    obtain ⟨⟨_, s⟩, hs, rfl⟩ := List.mem_map.mp (List.mem_toFinset.mp hrid)
    obtain ⟨hs, he⟩ := Db.mem_splitsOf.mp hs
    exact hall _ s hs he
  · intro rid hrid hnot
    cases hs : d.split rid with
    | none => simp [Db.cents, hs]
    | some s =>
      refine absurd (List.mem_toFinset.mpr (List.mem_map.mpr ⟨(rid, s), ?_, rfl⟩)) hnot
      exact Db.mem_splitsOf.mpr ⟨hs, honly rid hrid s hs⟩

theorem People.tick {env : Env} {d : Db} (h : People env d) (n : ℕ) :
    People env (ReadCommitted.tick n d) where
  ids := fun u r hr => by
    obtain ⟨k, hk, hu⟩ := h.ids u r hr
    exact ⟨k, Nat.lt_of_lt_of_le hk (Nat.le_add_right _ _), hu⟩
  user := h.user
  home := h.home
  left := h.left
  claimed := h.claimed
  claimer := h.claimer

theorem Bookings.tick {env : Env} {d : Db} (h : Bookings env d) (n : ℕ) :
    Bookings env (ReadCommitted.tick n d) where
  ids := fun e r hr => by
    obtain ⟨k, hk, he⟩ := h.ids e r hr
    exact ⟨k, Nat.lt_of_lt_of_le hk (Nat.le_add_right _ _), he⟩
  amount := h.amount
  rids := fun rid row hr => Nat.lt_of_lt_of_le (h.rids rid row hr) (Nat.le_add_right _ _)
  expense := h.expense
  nonneg := h.nonneg
  slot := h.slot
  holder := h.holder

theorem LedgerBase.tick {env : Env} {d : Db} (h : LedgerBase env d) (n : ℕ) :
    LedgerBase env (ReadCommitted.tick n d) := ⟨h.people.tick n, h.bookings.tick n⟩

theorem ledgerBase_empty (env : Env) : LedgerBase env Db.empty := by
  refine ⟨⟨?_, ?_, ?_, ?_, ?_, ?_⟩, ⟨?_, ?_, ?_, ?_, ?_, ?_, ?_⟩⟩ <;>
    simp [Db.empty, Db.split]

theorem balanced_empty : Balanced Db.empty := by
  intro e r h
  simp [Db.empty] at h

end Homi
