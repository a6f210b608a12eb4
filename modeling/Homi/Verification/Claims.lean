import Homi.Verification.Edits

/-! # Claims under the ledger protocol

  What `claimHistory` does to `expense_splits`. The claim takes no lock on
  the expenses. What carries it is the lock on the placeholder's
  membership: nobody else books a split in the name of the placeholder,
  and one that somebody else changes goes together with all splits of its
  expense.

  * `FoldEdit`: what the fold and the delete write, related to the rows
    as they are in the committed database.
  * `Sweeping`: the claim between its fold and its re-identification.
  * `Reidentified`: the claim after it.
-/

namespace Homi

open ReadCommitted Protocol

variable {env : Env} {merged unread : Prop} {α : Type}

/-! ## Section 1: The placeholder's rows -/

/-- `tx` holds the membership of an unclaimed placeholder for itself. -/
structure Locked (h p : Uuid) (tx : DbTx) (d : Db) : Prop where
  owns : tx.Owns (.member h p)
  unclaimed : ∃ m, d.houseMembers.lookup (h, p) = some m ∧ m.isPlaceholder = true ∧
    m.claimedBy = none ∧ m.leftAt = none

section locked

variable {h p c e : Uuid} {tx : DbTx} {d d' : Db} {rid : Rid} {s : Split}

theorem Locked.isPlaceholder (hA : Locked h p tx d) : d.IsPlaceholder h p := by
  obtain ⟨m, hm, hp, _⟩ := hA.unclaimed
  exact ⟨m, hm, hp⟩

theorem Locked.rely (hA : Locked h p tx d) (hr : LedgerRely merged unread tx d d') : Locked h p tx d' := by
  have hsame : d'.houseMembers.lookup (h, p) = d.houseMembers.lookup (h, p) :=
    hr.frame _ hA.owns.holds
  exact ⟨hA.owns, by rw [hsame]; exact hA.unclaimed⟩

theorem Locked.add (hA : Locked h p tx d) (e : Effect Writes LockKey Note) :
    Locked h p (tx.add e) (tick e.ids d) := ⟨owns_add _ _ hA.owns, hA.unclaimed⟩

theorem passive_locked (q : Writes → Prop) :
    (ledgerProtocol env merged unread).Passive q (Locked h p) where
  stable := fun _ _ _ hr _ hA => hA.rely hr
  step := fun _ _ e _ hA => hA.add e

/-- Nobody else books a split in the name of a locked placeholder. -/
theorem Locked.row (hA : Locked h p tx d) (hr : LedgerRely merged unread tx d d')
    (hs : d'.split rid = some s) (hu : s.userId = p) : d.split rid = some s := by
  by_contra hne
  exact hr.given rid s hs hne h (hu ▸ hA.isPlaceholder) (hu ▸ hA.owns)

/-- A split of a locked placeholder stays as long as some other split of
    its expense does. -/
theorem Locked.kept (hA : Locked h p tx d) (hr : LedgerRely merged unread tx d d')
    (hs : d.split rid = some s) (hu : s.userId = p) {rid₀ : Rid} {s₀ : Split}
    (hs₀ : d.split rid₀ = some s₀) (he : s₀.expenseId = s.expenseId)
    (hlive : d'.expenseSplits.lookup rid₀ ≠ some none) : d'.split rid = some s := by
  by_contra hne
  exact hlive (hr.taken rid s hs hne h (hu ▸ hA.isPlaceholder) (hu ▸ hA.owns.holds) rid₀ s₀ hs₀ he)

theorem hasAccount_iff : hasAccount d c = true ↔ ∃ r, d.users.lookup c = some r ∧ r.email ≠ none := by
  rw [hasAccount]
  cases hr : d.users.lookup c <;> simp [Option.isSome_iff_ne_none]

theorem hasAccount_rely (hA : hasAccount d c = true) (hr : Persist d d') :
    hasAccount d' c = true := by
  obtain ⟨r, hrow, hne⟩ := hasAccount_iff.mp hA
  obtain ⟨r', hrow', hemail⟩ := hr.users c r hrow
  exact hasAccount_iff.mpr ⟨r', hrow', by rw [hemail]; exact hne⟩

theorem passive_account (q : Writes → Prop) :
    (ledgerProtocol env merged unread).Passive q fun _ d => hasAccount d c = true where
  stable := fun _ _ _ hr _ hA => hasAccount_rely hA hr.toPersist
  step := fun _ _ _ _ hA => hA

/-- A user with an account is a placeholder nowhere. -/
theorem People.member_of_account (hp : People env d) (hA : hasAccount d c = true) {k : Uuid}
    {m : HouseMember} (hm : d.houseMembers.lookup (k, c) = some m) :
    m.isPlaceholder = false ∧ m.claimedBy = none := by
  obtain ⟨r, hr, hiff⟩ := hp.user k c m hm
  have hpl : m.isPlaceholder = false := by
    rw [← Bool.not_eq_true, hiff]
    intro hnone
    simp [hasAccount, hr, hnone] at hA
  refine ⟨hpl, ?_⟩
  by_contra hne
  have htrue := hp.claimed k c m hm (Option.isSome_iff_ne_none.mpr hne)
  rw [hpl] at htrue
  cases htrue

theorem Locked.ne (hL : Locked h p tx d) (hp : People env d) (hA : hasAccount d c = true) :
    c ≠ p := by
  rintro rfl
  obtain ⟨m, hm, htrue, _⟩ := hL.unclaimed
  rw [(hp.member_of_account hA hm).1] at htrue
  cases htrue

end locked

/-! ## Section 2: Stages of a claim -/

/-- Two splits that the fold makes one. -/
structure FoldPair (p c : Uuid) (d : Db) (rid rid' : Rid) (mine theirs : Split) : Prop where
  mineRow : d.split rid = some mine
  theirsRow : d.split rid' = some theirs
  expense : theirs.expenseId = mine.expenseId
  claimer : mine.userId = c
  placeholder : theirs.userId = p

/-- What the fold and the delete write to a row. -/
inductive FoldEdit (p c : Uuid) (d : Db) (rid : Rid) : Option Split → Prop where
  | fold (rid' : Rid) (mine theirs : Split) (hpair : FoldPair p c d rid rid' mine theirs) :
      FoldEdit p c d rid (some { mine with amountCents := mine.amountCents + theirs.amountCents })
  | sweep (theirs : Split) (htheirs : d.split rid = some theirs) (hp : theirs.userId = p) :
      FoldEdit p c d rid none

/-- The last edit of a split by `tx`. -/
def splitEdit (tx : DbTx) (rid : Rid) : Option (Option (Option Split)) :=
  Table.lastEdit tx.writes.expenseSplits rid

/-- Every expense of the placeholder is noted. -/
def Noted (p : Uuid) (tx : DbTx) (d : Db) : Prop :=
  ∀ rid s, d.split rid = some s → s.userId = p → Note.snapshot s.expenseId ∈ tx.notes

/-- What is true of the claim from its fold on.

    * `complete`: when nobody touches the expenses, the fold finds
      everything there is to fold.
    * `paid`: what the delete removed, the fold had added to another split. -/
structure Folded (merged unread : Prop) (h p c : Uuid) (tx : DbTx) (d : Db) : Prop where
  locked : Locked h p tx d
  account : hasAccount d c = true
  noted : Noted p tx d
  complete : unread → ∀ rid rid' mine theirs, FoldPair p c d rid rid' mine theirs →
    splitEdit tx rid ≠ none
  paid : merged ∨ unread → ∀ rid' theirs, splitEdit tx rid' = some (some none) →
    d.split rid' = some theirs → ∃ rid mine, FoldPair p c d rid rid' mine theirs ∧
      splitEdit tx rid ≠ none

/-- The claim between its fold and its re-identification. -/
structure Sweeping (merged unread : Prop) (h p c : Uuid) (tx : DbTx) (d : Db) : Prop
    extends Folded merged unread h p c tx d where
  edits : ∀ rid o, splitEdit tx rid = some o → ∃ row, o = some row ∧ FoldEdit p c d rid row

/-- The snapshot of the fold saw every expense of the placeholder. -/
def FoldSeen (p c : Uuid) (tx : DbTx) (d : Db) : Prop :=
  ∃ es, tx.notes.getLast? = some (.folding c es) ∧
    ∀ rid s, d.split rid = some s → s.userId = p → s.expenseId ∈ es

/-- The claim between its fold and its delete. -/
structure Matching (merged unread : Prop) (h p c : Uuid) (tx : DbTx) (d : Db) : Prop
    extends Sweeping merged unread h p c tx d where
  seen : FoldSeen p c tx d
  matched : merged → ∀ rid rid' mine theirs, FoldPair p c d rid rid' mine theirs →
    splitEdit tx rid ≠ none

/-- A row that the re-identification gave to the claimer, who has no other
    split in the expense. -/
structure Renamed (p c : Uuid) (tx : DbTx) (d : Db) (rid : Rid) (s : Split) : Prop where
  split : d.split rid = some s
  user : s.userId = p
  slot : tx.Owns (.splitSlot s.expenseId c)
  alone : ∀ rid' s', d.split rid' = some s' → s'.expenseId = s.expenseId → s'.userId ≠ c

/-- The claim after its re-identification. -/
structure Reidentified (merged unread : Prop) (h p c : Uuid) (tx : DbTx) (d : Db) : Prop
    extends Folded merged unread h p c tx d where
  edits : ∀ rid o, splitEdit tx rid = some o → (∃ row, o = some row ∧ FoldEdit p c d rid row) ∨
    ∃ s, o = some (some { s with userId := c }) ∧ Renamed p c tx d rid s
  done : ∀ rid s, d.split rid = some s → s.userId = p → splitEdit tx rid ≠ none

section stages

variable {h p c e : Uuid} {tx : DbTx} {d d' : Db} {rid : Rid}

theorem owns_of_edit (hne : splitEdit tx rid ≠ none) : tx.Owns (.split rid) := by
  refine Or.inl (Writes.mem_written.mpr ?_)
  show rid ∈ tx.writes.expenseSplits.map Prod.fst
  by_contra hnot
  exact hne (Table.lastEdit_eq_none.mpr hnot)

theorem edit_add_of_nil (tx : DbTx) {e' : Effect Writes LockKey Note}
    (hs : e'.writes.expenseSplits = []) : splitEdit (tx.add e') rid = splitEdit tx rid := by
  simp [splitEdit, Writes.append, hs]

theorem Noted.rely (hA : Noted p tx d) (hL : Locked h p tx d) (hr : LedgerRely merged unread tx d d') :
    Noted p tx d' := fun rid s hs hu => hA rid s (hL.row hr hs hu) hu

/-- Nobody touches the expense of a noted split. -/
theorem Noted.same (hA : Noted p tx d) (hr : LedgerRely merged unread tx d d') (hun : unread) {s : Split}
    (hs : d.split rid = some s) (hu : s.userId = p) : SameExpense s.expenseId d d' :=
  hr.untouched hun _ (hA rid s hs hu)

theorem FoldEdit.rely {row : Option Split} (hA : FoldEdit p c d rid row) (hL : Locked h p tx d)
    (hown : tx.Owns (.split rid)) (hr : LedgerRely merged unread tx d d') : FoldEdit p c d' rid row := by
  have hsame := hr.split_eq hown.holds
  cases hA with
  | fold rid' mine theirs hpair =>
    have hmine := hsame.trans hpair.mineRow
    refine .fold rid' mine theirs { hpair with mineRow := hmine, theirsRow := ?_ }
    refine hL.kept hr hpair.theirsRow hpair.placeholder hpair.mineRow hpair.expense.symm ?_
    rw [Db.split_eq_some.mp hmine]
    exact fun hdead => by cases hdead
  | sweep theirs htheirs hp => exact .sweep theirs (hsame.trans htheirs) hp

theorem foldPair_tick {n : ℕ} {rid' : Rid} {mine theirs : Split} :
    FoldPair p c (tick n d) rid rid' mine theirs ↔ FoldPair p c d rid rid' mine theirs :=
  ⟨fun h => ⟨h.1, h.2, h.3, h.4, h.5⟩, fun h => ⟨h.1, h.2, h.3, h.4, h.5⟩⟩

/-- A pair whose rows are both still there was there before, when nobody
    touched its expense. -/
theorem FoldPair.of_same {rid' : Rid} {mine theirs : Split}
    (hA : FoldPair p c d' rid rid' mine theirs) (hs : SameExpense theirs.expenseId d d') :
    FoldPair p c d rid rid' mine theirs :=
  ⟨(hs.splits rid mine hA.expense.symm).mp hA.mineRow, (hs.splits rid' theirs rfl).mp hA.theirsRow,
    hA.expense, hA.claimer, hA.placeholder⟩

theorem Folded.rely (hA : Folded merged unread h p c tx d) (hr : LedgerRely merged unread tx d d') :
    Folded merged unread h p c tx d' where
  locked := hA.locked.rely hr
  account := hasAccount_rely hA.account hr.toPersist
  noted := hA.noted.rely hA.locked hr
  complete := by
    intro hun rid rid' mine theirs hpair
    have htheirs := hA.locked.row hr hpair.theirsRow hpair.placeholder
    exact hA.complete hun rid rid' mine theirs
      (hpair.of_same (hA.noted.same hr hun htheirs hpair.placeholder))
  paid := by
    intro hor rid' theirs hedit hs
    have hsame := fun {rid} (hne : splitEdit tx rid ≠ none) => hr.split_eq (owns_of_edit hne).holds
    have hswept : d'.split rid' = d.split rid' := hsame (by rw [hedit]; simp)
    rw [hswept] at hs
    obtain ⟨rid, mine, hpair, hne⟩ := hA.paid hor rid' theirs hedit hs
    exact ⟨rid, mine, { hpair with mineRow := (hsame hne).trans hpair.mineRow, theirsRow := hswept.trans hs },
      hne⟩

theorem Folded.add (hA : Folded merged unread h p c tx d) (e' : Effect Writes LockKey Note)
    (hs : e'.writes.expenseSplits = []) : Folded merged unread h p c (tx.add e') (tick e'.ids d) where
  locked := hA.locked.add e'
  account := hA.account
  noted := fun rid s hrid hu => List.mem_append_left _ (hA.noted rid s hrid hu)
  complete := by
    intro hun rid rid' mine theirs hpair
    rw [edit_add_of_nil tx hs]
    exact hA.complete hun rid rid' mine theirs (foldPair_tick.mp hpair)
  paid := by
    intro hor rid' theirs hedit hs'
    rw [edit_add_of_nil tx hs] at hedit
    obtain ⟨rid, mine, hpair, hne⟩ := hA.paid hor rid' theirs hedit hs'
    exact ⟨rid, mine, foldPair_tick.mpr hpair, by rw [edit_add_of_nil tx hs]; exact hne⟩

theorem Sweeping.rely (hA : Sweeping merged unread h p c tx d) (hr : LedgerRely merged unread tx d d') :
    Sweeping merged unread h p c tx d' where
  toFolded := hA.toFolded.rely hr
  edits := by
    intro rid o ho
    obtain ⟨row, hrow, hedit⟩ := hA.edits rid o ho
    exact ⟨row, hrow, hedit.rely hA.locked (owns_of_edit (by rw [ho]; simp)) hr⟩

theorem Renamed.rely {s : Split} (hA : Renamed p c tx d rid s) (hown : tx.Owns (.split rid))
    (hr : LedgerRely merged unread tx d d') : Renamed p c tx d' rid s where
  split := (hr.split_eq hown.holds).trans hA.split
  user := hA.user
  slot := hA.slot
  alone := by
    intro rid' s' hs' he hc
    refine hr.slots rid' s' hs' ?_ (by rw [he, hc]; exact hA.slot.holds)
    intro s₀ hs₀ hu
    exact hA.alone rid' s₀ hs₀ (((hr.rows rid').split hs₀ hs').symm.trans he) (hu.trans hc)

theorem Reidentified.rely (hA : Reidentified merged unread h p c tx d) (hr : LedgerRely merged unread tx d d') :
    Reidentified merged unread h p c tx d' where
  toFolded := hA.toFolded.rely hr
  edits := by
    intro rid o ho
    have hown : tx.Owns (.split rid) := owns_of_edit (by rw [ho]; simp)
    rcases hA.edits rid o ho with ⟨row, hrow, hedit⟩ | ⟨s, hs, hrenamed⟩
    · exact Or.inl ⟨row, hrow, hedit.rely hA.locked hown hr⟩
    · exact Or.inr ⟨s, hs, hrenamed.rely hown hr⟩
  done := fun rid s hs hu => hA.done rid s (hA.locked.row hr hs hu) hu

theorem FoldSeen.rely (hA : FoldSeen p c tx d) (hL : Locked h p tx d)
    (hr : LedgerRely merged unread tx d d') : FoldSeen p c tx d' := by
  obtain ⟨es, hlast, hall⟩ := hA
  exact ⟨es, hlast, fun rid s hs hu => hall rid s (hL.row hr hs hu) hu⟩

/-- While a claim is folding, its claimer gets no new split to fold. -/
theorem FoldSeen.pair (hA : FoldSeen p c tx d) (hL : Locked h p tx d)
    (hr : LedgerRely merged unread tx d d') (hm : merged) {rid' : Rid} {mine theirs : Split}
    (hpair : FoldPair p c d' rid rid' mine theirs) :
    ∃ mine₀, FoldPair p c d rid rid' mine₀ theirs := by
  obtain ⟨es, hlast, hall⟩ := hA
  have htheirs := hL.row hr hpair.theirsRow hpair.placeholder
  have hfolding : Folding tx mine.userId mine.expenseId :=
    ⟨es, by rw [hpair.claimer]; exact hlast, hpair.expense ▸ hall rid' theirs htheirs hpair.placeholder⟩
  rcases hr.gained hm rid mine hpair.mineRow hfolding with ⟨s₀, hs₀, hu⟩ | hcleared
  · exact ⟨s₀, hs₀, htheirs, hpair.expense.trans ((hr.rows rid).split hs₀ hpair.mineRow),
      hu.trans hpair.claimer, hpair.placeholder⟩
  · have hdead := hcleared rid' theirs htheirs hpair.expense
    rw [Db.split_eq_some.mp hpair.theirsRow] at hdead
    cases hdead

theorem Matching.rely (hA : Matching merged unread h p c tx d)
    (hr : LedgerRely merged unread tx d d') : Matching merged unread h p c tx d' where
  toSweeping := hA.toSweeping.rely hr
  seen := hA.seen.rely hA.locked hr
  matched := by
    intro hm rid rid' mine theirs hpair
    obtain ⟨mine₀, hpair₀⟩ := hA.seen.pair hA.locked hr hm hpair
    exact hA.matched hm rid rid' mine₀ theirs hpair₀

end stages

/-! ## Section 3: The statements -/

/-- The claim before its fold. -/
structure Claiming (h p c : Uuid) (tx : DbTx) (d : Db) : Prop where
  locked : Locked h p tx d
  account : hasAccount d c = true
  rows : tx.writes.expenseSplits = []

section statements

variable {h p c : Uuid} {tx : DbTx} {d d' : Db} {rid : Rid} {s : Split} {now : ℕ}

theorem Claiming.add (hA : Claiming h p c tx d) (e : Effect Writes LockKey Note)
    (hs : e.writes.expenseSplits = []) : Claiming h p c (tx.add e) (tick e.ids d) :=
  ⟨hA.locked.add e, hA.account, by simp [Writes.append, hA.rows, hs]⟩

theorem passive_claiming :
    (ledgerProtocol env merged unread).Passive (fun w => w.expenseSplits = []) (Claiming h p c) where
  stable := fun _ _ _ hr _ hA => ⟨hA.locked.rely hr, hasAccount_rely hA.account hr.toPersist, hA.rows⟩
  step := fun _ _ e hq hA => hA.add e hq

theorem passive_claiming_noted :
    (ledgerProtocol env merged unread).Passive (fun w => w.expenseSplits = [])
      fun tx d => Claiming h p c tx d ∧ Noted p tx d where
  stable := fun tx d d' hr hi hA =>
    ⟨passive_claiming.stable tx d d' hr hi hA.1, hA.2.rely hA.1.locked hr⟩
  step := fun _ _ e hq hA =>
    ⟨hA.1.add e hq, fun rid s hs hu => List.mem_append_left _ (hA.2 rid s hs hu)⟩

theorem mem_splitsOfUser {u : Uuid} : (rid, s) ∈ d.splitsOfUser u ↔ d.split rid = some s ∧ s.userId = u := by
  simp [Db.splitsOfUser]

theorem hasSplit_iff {e u : Uuid} : d.hasSplit e u = true ↔
    ∃ rid s, d.split rid = some s ∧ s.expenseId = e ∧ s.userId = u := by
  simp only [Db.hasSplit, List.any_eq_true, decide_eq_true_eq, Prod.exists, Db.mem_splitsOf]
  constructor
  · rintro ⟨rid, s, ⟨hs, he⟩, hu⟩
    exact ⟨rid, s, hs, he, hu⟩
  · rintro ⟨rid, s, hs, he, hu⟩
    exact ⟨rid, s, ⟨hs, he⟩, hu⟩

theorem triple_selectFolded :
    (ledgerProtocol env merged unread).Triple (Claiming h p c) (selectFolded p c)
      fun _ tx d => Claiming h p c tx d ∧ Noted p tx d := by
  refine triple_exec_passive passive_claiming (fun _ => rfl) ?_
  rintro tx d now folded hA hi _ rid s hs hu
  refine List.mem_append_right _ (List.mem_map.mpr ⟨(rid, s), ?_, rfl⟩)
  rw [mem_splitsOfUser, view_split hA.rows]
  exact ⟨hs, hu⟩

/-! ### The fold -/

/-- What is known of the pairs between the snapshot of the fold and its
    update. A row that is still there is still a row of the same expense,
    and the placeholder's is there too. -/
structure FoundPairs (merged unread : Prop) (p c : Uuid) (pairs : List (Rid × Split)) (tx : DbTx)
    (d : Db) : Prop where
  seen : FoldSeen p c tx d
  pair : ∀ rid theirs, (rid, theirs) ∈ pairs → theirs.userId = p ∧
    ∃ row, d.expenseSplits.lookup rid = some row ∧ ∀ mine, row = some mine →
      theirs.expenseId = mine.expenseId ∧ ∃ rid', d.split rid' = some theirs
  all : merged ∨ unread → ∀ rid rid' mine theirs, FoldPair p c d rid rid' mine theirs →
    (rid, theirs) ∈ pairs

theorem mem_foldPairs {theirs : Split} : (rid, theirs) ∈ d.foldPairs p c ↔
    ∃ rid' mine, FoldPair p c d rid rid' mine theirs := by
  simp only [Db.foldPairs, List.mem_flatMap, List.mem_map, List.mem_filter, decide_eq_true_eq]
  constructor
  · rintro ⟨⟨_, mine⟩, hmine, ⟨rid', _⟩, ⟨htheirs, he⟩, heq⟩
    obtain ⟨rfl, rfl⟩ := Prod.mk.inj heq
    rw [mem_splitsOfUser] at hmine htheirs
    exact ⟨rid', mine, hmine.1, htheirs.1, he, hmine.2, htheirs.2⟩
  · rintro ⟨rid', mine, hpair⟩
    exact ⟨(rid, mine), mem_splitsOfUser.mpr ⟨hpair.mineRow, hpair.claimer⟩, (rid', theirs),
      ⟨mem_splitsOfUser.mpr ⟨hpair.theirsRow, hpair.placeholder⟩, hpair.expense⟩, rfl⟩

theorem FoundPairs.rely {pairs : List (Rid × Split)} (hA : FoundPairs merged unread p c pairs tx d)
    (hL : Locked h p tx d) (hN : Noted p tx d) (hr : LedgerRely merged unread tx d d') :
    FoundPairs merged unread p c pairs tx d' where
  seen := hA.seen.rely hL hr
  pair := by
    intro rid theirs hmem
    obtain ⟨hp, row, hrow, hlive⟩ := hA.pair rid theirs hmem
    refine ⟨hp, ?_⟩
    cases row with
    | none => exact ⟨none, (hr.rows rid).1 hrow, fun mine hmine => by cases hmine⟩
    | some mine =>
      obtain ⟨he, rid', htheirs⟩ := hlive mine rfl
      rcases (hr.rows rid).2 mine hrow with hdead | ⟨mine', hmine', hkeep⟩
      · exact ⟨none, hdead, fun mine hmine => by cases hmine⟩
      · refine ⟨some mine', hmine', ?_⟩
        rintro _ ⟨⟩
        refine ⟨he.trans hkeep.symm, rid',
          hL.kept hr htheirs hp (Db.split_eq_some.mpr hrow) he.symm ?_⟩
        rw [hmine']
        exact fun hdead => by cases hdead
  all := by
    rintro (hm | hun) rid rid' mine theirs hpair
    · obtain ⟨mine₀, hpair₀⟩ := hA.seen.pair hL hr hm hpair
      exact hA.all (Or.inl hm) rid rid' mine₀ theirs hpair₀
    · have htheirs := hL.row hr hpair.theirsRow hpair.placeholder
      exact hA.all (Or.inr hun) rid rid' mine theirs
        (hpair.of_same (hN.same hr hun htheirs hpair.placeholder))

/-- The rows that the fold updates, with what it adds to them. -/
def foldMatches (c : Uuid) (pairs : List (Rid × Split)) (d : Db) : List (Rid × Split × Split) :=
  pairs.filterMap fun (rid, theirs) =>
    ((d.split rid).filter fun mine => mine.userId = c).map fun mine => (rid, mine, theirs)

def foldEdits (c : Uuid) (pairs : List (Rid × Split)) (d : Db) : Edits Rid (Option Split) :=
  (foldMatches c pairs d).map fun (rid, mine, theirs) =>
    (rid, some (some { mine with amountCents := mine.amountCents + theirs.amountCents }))

theorem mem_foldMatches {pairs : List (Rid × Split)} {mine theirs : Split} :
    (rid, mine, theirs) ∈ foldMatches c pairs d ↔
      (rid, theirs) ∈ pairs ∧ d.split rid = some mine ∧ mine.userId = c := by
  simp only [foldMatches, List.mem_filterMap, Option.map_eq_some_iff, Option.filter_eq_some_iff,
    decide_eq_true_eq]
  constructor
  · rintro ⟨⟨_, _⟩, hmem, _, ⟨hsplit, hc⟩, heq⟩
    simp only [Prod.mk.injEq] at heq
    obtain ⟨rfl, rfl, rfl⟩ := heq
    exact ⟨hmem, hsplit, hc⟩
  · rintro ⟨hmem, hsplit, hc⟩
    exact ⟨(rid, theirs), hmem, mine, ⟨hsplit, hc⟩, rfl⟩

/-- The update of the fold. -/
theorem matching_of_fold {pairs : List (Rid × Split)} (hA : Claiming h p c tx d)
    (hN : Noted p tx d) (hF : FoundPairs merged unread p c pairs tx d) (now : ℕ) :
    Matching merged unread h p c
      (tx.add { writes := { expenseSplits := foldEdits c pairs (tx.view d now).db } }) d := by
  have hview : ∀ rid, (tx.view d now).db.split rid = d.split rid := view_split hA.rows
  have hedit : ∀ rid, splitEdit
      (tx.add { writes := { expenseSplits := foldEdits c pairs (tx.view d now).db } }) rid =
      Table.lastEdit (foldEdits c pairs (tx.view d now).db) rid := by
    intro rid
    simp [splitEdit, Writes.append, hA.rows]
  have hmem : ∀ {rid mine theirs}, (rid, mine, theirs) ∈ foldMatches c pairs (tx.view d now).db ↔
      (rid, theirs) ∈ pairs ∧ d.split rid = some mine ∧ mine.userId = c := by
    intro rid mine theirs
    rw [mem_foldMatches, hview]
  -- an edit of the fold belongs to a pair
  have hsome : ∀ rid o, Table.lastEdit (foldEdits c pairs (tx.view d now).db) rid = some o →
      ∃ rid' mine theirs, FoldPair p c d rid rid' mine theirs ∧
        o = some (some { mine with amountCents := mine.amountCents + theirs.amountCents }) := by
    intro rid o ho
    obtain ⟨⟨_, mine, theirs⟩, hmatch, heq⟩ := List.mem_map.mp (Table.mem_of_lastEdit ho)
    obtain ⟨rfl, rfl⟩ := Prod.mk.inj heq
    obtain ⟨hpairs, hmine, hc⟩ := hmem.mp hmatch
    obtain ⟨hp, row, hrow, hlive⟩ := hF.pair _ _ hpairs
    rw [Db.split_eq_some.mp hmine] at hrow
    cases hrow
    obtain ⟨he, rid', htheirs⟩ := hlive mine rfl
    exact ⟨rid', mine, theirs, ⟨hmine, htheirs, he, hc, hp⟩, rfl⟩
  -- and every pair has one
  have hall : merged ∨ unread → ∀ rid rid' mine theirs, FoldPair p c d rid rid' mine theirs →
      Table.lastEdit (foldEdits c pairs (tx.view d now).db) rid ≠ none := by
    intro hor rid rid' mine theirs hpair hnone
    refine Table.lastEdit_eq_none.mp hnone (List.mem_map.mpr ⟨_, List.mem_map.mpr
      ⟨(rid, mine, theirs), hmem.mpr ⟨hF.all hor rid rid' mine theirs hpair, hpair.mineRow,
        hpair.claimer⟩, rfl⟩, rfl⟩)
  refine ⟨⟨⟨hA.locked.add _, hA.account, ?_, ?_, ?_⟩, ?_⟩, ?_, ?_⟩
  · exact fun rid s hs hu => List.mem_append_left _ (hN rid s hs hu)
  · intro hun rid rid' mine theirs hpair
    rw [hedit]
    exact hall (Or.inr hun) rid rid' mine theirs hpair
  · intro _ rid' theirs hnone
    rw [hedit] at hnone
    obtain ⟨_, _, _, _, heq⟩ := hsome rid' _ hnone
    cases heq
  · intro rid o ho
    rw [hedit] at ho
    obtain ⟨rid', mine, theirs, hpair, rfl⟩ := hsome rid o ho
    exact ⟨_, rfl, .fold rid' mine theirs hpair⟩
  · obtain ⟨es, hlast, hes⟩ := hF.seen
    exact ⟨es, by simpa using hlast, hes⟩
  · intro hm rid rid' mine theirs hpair
    rw [hedit]
    exact hall (Or.inl hm) rid rid' mine theirs hpair

theorem triple_foldSplits :
    (ledgerProtocol env merged unread).Triple
      (fun tx d => Claiming h p c tx d ∧ Noted p tx d) (foldSplits p c)
      fun _ => Matching merged unread h p c := by
  refine triple_bind (B := fun pairs tx d => (Claiming h p c tx d ∧ Noted p tx d) ∧
    FoundPairs merged unread p c pairs tx d) ?_ fun pairs => triple_exec ?_ ?_
  · refine triple_exec_passive passive_claiming_noted (fun _ => rfl) ?_
    rintro tx d now pairs ⟨hA, hN⟩ hi hres
    cases hres
    have hview : ∀ rid, (tx.view d now).db.split rid = d.split rid := view_split hA.rows
    have hpair : ∀ {rid rid' mine theirs},
        FoldPair p c (tx.view d now).db rid rid' mine theirs ↔ FoldPair p c d rid rid' mine theirs := by
      intro rid rid' mine theirs
      constructor
      · exact fun hp => { hp with mineRow := (hview _).symm.trans hp.1, theirsRow := (hview _).symm.trans hp.2 }
      · exact fun hp => { hp with mineRow := (hview _).trans hp.1, theirsRow := (hview _).trans hp.2 }
    refine ⟨⟨_, List.getLast?_concat, ?_⟩, ?_, ?_⟩
    · intro rid s hs hu
      refine List.mem_map.mpr ⟨(rid, s), ?_, rfl⟩
      rw [mem_splitsOfUser, hview]
      exact ⟨hs, hu⟩
    · intro rid theirs hmem
      obtain ⟨rid', mine, hp⟩ := mem_foldPairs.mp hmem
      rw [hpair] at hp
      refine ⟨hp.placeholder, some mine, Db.split_eq_some.mp hp.mineRow, ?_⟩
      rintro _ ⟨⟩
      exact ⟨hp.expense, rid', hp.theirsRow⟩
    · intro _ rid rid' mine theirs hp
      exact mem_foldPairs.mpr ⟨rid', mine, hpair.mpr (foldPair_tick.mp hp)⟩
  · rintro tx d d' hr hi ⟨hA, hF⟩
    exact ⟨passive_claiming_noted.stable tx d d' hr hi hA, hF.rely hA.1.locked hA.2 hr⟩
  · rintro tx d now _ ⟨⟨hA, hN⟩, hF⟩ hi _
    exact matching_of_fold hA hN hF now

/-! ### The delete -/

/-- What a transaction sees of a split. -/
theorem view_split_edit : (tx.view d now).db.split rid =
    ((splitEdit tx rid).getD (d.expenseSplits.lookup rid)).join := by
  rw [Db.split]
  exact congrArg Option.join (Table.lookup_patch _ _ _)

theorem view_split_of_none (h : splitEdit tx rid = none) :
    (tx.view d now).db.split rid = d.split rid := by
  rw [view_split_edit, h]
  rfl

/-- The placeholder's splits that the claim has not written yet are those
    that it sees. -/
theorem Sweeping.view_placeholder (hA : Sweeping merged unread h p c tx d) (hne : c ≠ p)
    (hs : (tx.view d now).db.split rid = some s) (hu : s.userId = p) :
    splitEdit tx rid = none ∧ d.split rid = some s := by
  cases hedit : splitEdit tx rid with
  | none => exact ⟨rfl, view_split_of_none hedit ▸ hs⟩
  | some o =>
    obtain ⟨row, rfl, hrow⟩ := hA.edits rid o hedit
    rw [view_split_edit, hedit] at hs
    cases hrow with
    | fold rid' mine theirs hpair =>
      cases hs
      exact absurd (hpair.claimer.symm.trans hu) hne
    | sweep theirs htheirs hp => cases hs

/-- The claim sees a split of the claimer where there is one. -/
theorem Sweeping.view_claimer (hA : Sweeping merged unread h p c tx d) (hne : c ≠ p) {e : Uuid} :
    (∃ s, (tx.view d now).db.split rid = some s ∧ s.expenseId = e ∧ s.userId = c) ↔
      ∃ s, d.split rid = some s ∧ s.expenseId = e ∧ s.userId = c := by
  cases hedit : splitEdit tx rid with
  | none => rw [view_split_of_none hedit]
  | some o =>
    obtain ⟨row, rfl, hrow⟩ := hA.edits rid o hedit
    rw [view_split_edit, hedit]
    cases hrow with
    | fold rid' mine theirs hpair =>
      rw [hpair.mineRow]
      simp
    | sweep theirs htheirs hp =>
      rw [htheirs]
      constructor
      · rintro ⟨s, hs, _⟩
        cases hs
      · rintro ⟨s, hs, _, hu⟩
        cases hs
        exact absurd (hu.symm.trans hp) hne

theorem Sweeping.ne (hA : Sweeping merged unread h p c tx d) (hi : LedgerBase env d) : c ≠ p :=
  hA.locked.ne hi.people hA.account

/-- What is known of the rows to delete between the snapshot of the delete
    and the delete itself. -/
structure FoundSwept (merged unread : Prop) (p c : Uuid) (found : List (Rid × Split)) (tx : DbTx)
    (d : Db) : Prop where
  row : ∀ rid theirs, (rid, theirs) ∈ found → ∀ s, d.split rid = some s → s.userId = p → s = theirs
  paid : merged ∨ unread → ∀ rid' theirs, (rid', theirs) ∈ found → ∃ rid mine,
    d.split rid = some mine ∧ theirs.expenseId = mine.expenseId ∧ mine.userId = c ∧
      splitEdit tx rid ≠ none

theorem FoundSwept.rely {found : List (Rid × Split)} (hA : FoundSwept merged unread p c found tx d)
    (hL : Locked h p tx d) (hr : LedgerRely merged unread tx d d') :
    FoundSwept merged unread p c found tx d' where
  row := fun rid theirs hmem s hs hu => hA.row rid theirs hmem s (hL.row hr hs hu) hu
  paid := by
    intro hor rid' theirs hmem
    obtain ⟨rid, mine, hmine, he, hc, hne⟩ := hA.paid hor rid' theirs hmem
    exact ⟨rid, mine, (hr.split_eq (owns_of_edit hne).holds).trans hmine, he, hc, hne⟩

theorem FoldEdit.tick {n : ℕ} {row : Option Split} (hA : FoldEdit p c d rid row) :
    FoldEdit p c (tick n d) rid row := by
  cases hA with
  | fold rid' mine theirs hpair => exact .fold rid' mine theirs (foldPair_tick.mpr hpair)
  | sweep theirs htheirs hp => exact .sweep theirs htheirs hp

theorem FoundSwept.add {found : List (Rid × Split)} (hA : FoundSwept merged unread p c found tx d)
    (e' : Effect Writes LockKey Note) (hs : e'.writes.expenseSplits = []) :
    FoundSwept merged unread p c found (tx.add e') (tick e'.ids d) where
  row := hA.row
  paid := by
    simp only [edit_add_of_nil tx hs]
    exact hA.paid

theorem Sweeping.add (hA : Sweeping merged unread h p c tx d) (e' : Effect Writes LockKey Note)
    (hs : e'.writes.expenseSplits = []) :
    Sweeping merged unread h p c (tx.add e') (tick e'.ids d) where
  toFolded := hA.toFolded.add e' hs
  edits := by
    intro rid o ho
    rw [edit_add_of_nil tx hs] at ho
    obtain ⟨row, rfl, hrow⟩ := hA.edits rid o ho
    exact ⟨row, rfl, hrow.tick⟩

/-- The snapshot of the delete. -/
theorem foundSwept_of_select (hA : Matching merged unread h p c tx d) (hne : c ≠ p) (now : ℕ) :
    FoundSwept merged unread p c (((tx.view d now).db.splitsOfUser p).filter fun theirs =>
      (tx.view d now).db.hasSplit theirs.2.expenseId c) tx d where
  row := by
    intro rid theirs hmem s hs hu
    obtain ⟨hview, hp⟩ := mem_splitsOfUser.mp (List.mem_filter.mp hmem).1
    have hrow := (hA.toSweeping.view_placeholder hne hview hp).2
    rw [hs] at hrow
    exact Option.some.inj hrow
  paid := by
    intro hor rid' theirs hmem
    obtain ⟨hfound, hboth⟩ := List.mem_filter.mp hmem
    obtain ⟨hview, hp⟩ := mem_splitsOfUser.mp hfound
    have htheirs := (hA.toSweeping.view_placeholder hne hview hp).2
    obtain ⟨rid, s, hs, he, hc⟩ := hasSplit_iff.mp hboth
    obtain ⟨mine, hmine, he', hc'⟩ := (hA.toSweeping.view_claimer hne).mp ⟨s, hs, he, hc⟩
    have hpair : FoldPair p c d rid rid' mine theirs := ⟨hmine, htheirs, he'.symm, hc', hp⟩
    refine ⟨rid, mine, hmine, he'.symm, hc', ?_⟩
    rcases hor with hm | hun
    · exact hA.matched hm rid rid' mine theirs hpair
    · exact hA.complete hun rid rid' mine theirs hpair

def sweepEdits (p : Uuid) (found : List (Rid × Split)) (d : Db) : Edits Rid (Option Split) :=
  (found.filter fun (rid, _) => (d.split rid).any fun theirs => theirs.userId = p).map fun r =>
    (r.1, some none)

/-- The delete. -/
theorem sweeping_of_delete {found : List (Rid × Split)} (hA : Sweeping merged unread h p c tx d)
    (hF : FoundSwept merged unread p c found tx d) (hne : c ≠ p) (now : ℕ) :
    Sweeping merged unread h p c (tx.add { writes := { expenseSplits := sweepEdits p found (tx.view d now).db } }) d := by
  have hedit : ∀ rid o, splitEdit (tx.add { writes := { expenseSplits := sweepEdits p found (tx.view d now).db } }) rid = some o →
      splitEdit tx rid = some o ∨ (o = some none ∧ ∃ theirs, (rid, theirs) ∈ found ∧
        d.split rid = some theirs ∧ theirs.userId = p) := by
    intro rid o ho
    simp only [splitEdit, Tx.add_writes, Writes.append_eq, Writes.append, Table.lastEdit_append,
      Option.or_eq_some_iff] at ho
    rcases ho with ho | ⟨_, ho⟩
    · obtain ⟨⟨_, theirs⟩, hmem, heq⟩ := List.mem_map.mp (Table.mem_of_lastEdit ho)
      obtain ⟨rfl, rfl⟩ := Prod.mk.inj heq
      obtain ⟨hfound, hlive⟩ := List.mem_filter.mp hmem
      obtain ⟨s, hs, hu⟩ := (Option.any_eq_true _ _).mp hlive
      have hu' : s.userId = p := by simpa using hu
      have hrow := (hA.view_placeholder hne hs hu').2
      have hsame := hF.row _ theirs hfound s hrow hu'
      subst hsame
      exact Or.inr ⟨rfl, s, hfound, hrow, hu'⟩
    · exact Or.inl ho
  have hkeep : ∀ rid, splitEdit tx rid ≠ none → splitEdit (tx.add { writes := { expenseSplits := sweepEdits p found (tx.view d now).db } }) rid ≠ none := by
    intro rid hrid
    simp only [splitEdit, Tx.add_writes, Writes.append_eq, Writes.append, Table.lastEdit_append, ne_eq,
      Option.or_eq_none_iff, not_and]
    exact fun _ => hrid
  refine ⟨⟨hA.locked.add _, hA.account, ?_, ?_, ?_⟩, ?_⟩
  · exact fun rid s hs hu => List.mem_append_left _ (hA.noted rid s hs hu)
  · exact fun hun rid rid' mine theirs hpair => hkeep rid (hA.complete hun rid rid' mine theirs hpair)
  · intro hor rid' theirs ho hs
    rcases hedit rid' _ ho with hold | ⟨_, theirs', hfound, hs', hp⟩
    · obtain ⟨rid, mine, hpair, hedited⟩ := hA.paid hor rid' theirs hold hs
      exact ⟨rid, mine, hpair, hkeep rid hedited⟩
    · rw [hs] at hs'
      cases hs'
      obtain ⟨rid, mine, hmine, he, hc, hedited⟩ := hF.paid hor rid' theirs hfound
      exact ⟨rid, mine, ⟨hmine, hs, he, hc, hp⟩, hkeep rid hedited⟩
  · intro rid o ho
    rcases hedit rid o ho with hold | ⟨rfl, theirs, _, hs, hp⟩
    · exact hA.edits rid o hold
    · exact ⟨none, rfl, .sweep theirs hs hp⟩

theorem triple_sweepSplits :
    (ledgerProtocol env merged unread).Triple (Matching merged unread h p c) (sweepSplits p c)
      fun _ => Sweeping merged unread h p c := by
  refine triple_bind (B := fun found tx d =>
    Sweeping merged unread h p c tx d ∧ FoundSwept merged unread p c found tx d) ?_
    fun found => triple_exec ?_ ?_
  · refine triple_exec (fun tx d d' hr _ hA => hA.rely hr) ?_
    rintro tx d now found hA hi hres
    cases hres
    have hF := foundSwept_of_select hA (hA.toSweeping.ne hi.1) now
    exact ⟨hA.toSweeping.add _ rfl, hF.add _ rfl⟩
  · rintro tx d d' hr hi ⟨hA, hF⟩
    exact ⟨hA.rely hr, hF.rely hA.locked hr⟩
  · rintro tx d now _ ⟨hA, hF⟩ hi _
    exact sweeping_of_delete hA hF (hA.ne hi.1) now

/-! ### The re-identification -/

/-- The rows that the re-identification writes. -/
def renameMatches (p c : Uuid) (found : List (Rid × Split)) (d : Db) : List (Rid × Split) :=
  found.filterMap fun (rid, _) =>
    ((d.split rid).filter fun s => s.userId = p).map fun s => (rid, { s with userId := c })

theorem mem_renameMatches {found : List (Rid × Split)} {s' : Split} :
    (rid, s') ∈ renameMatches p c found d ↔ rid ∈ found.map Prod.fst ∧
      ∃ s, d.split rid = some s ∧ s.userId = p ∧ s' = { s with userId := c } := by
  simp only [renameMatches, List.mem_filterMap, Option.map_eq_some_iff, Option.filter_eq_some_iff,
    decide_eq_true_eq]
  constructor
  · rintro ⟨⟨_, s₀⟩, hmem, s, ⟨hsplit, hu⟩, heq⟩
    obtain ⟨rfl, rfl⟩ := Prod.mk.inj heq
    exact ⟨List.mem_map_of_mem hmem, s, hsplit, hu, rfl⟩
  · rintro ⟨hmem, s, hsplit, hu, rfl⟩
    obtain ⟨⟨rid', s₀⟩, hfound, rfl⟩ := List.mem_map.mp hmem
    exact ⟨(rid', s₀), hfound, s, ⟨hsplit, hu⟩, rfl⟩

/-- The statement as it is added to the transaction. -/
def renameEffect (p c : Uuid) (found : List (Rid × Split)) (d : Db) :
    Effect Writes LockKey Note where
  locks := (renameMatches p c found d).map fun r => (.splitSlot r.2.expenseId c, .exclusive)
  writes := { expenseSplits := (renameMatches p c found d).map fun r => (r.1, some (some r.2)) }

theorem reidentified_of_rename {found : List (Rid × Split)}
    (hA : Sweeping merged unread h p c tx d) (hne : c ≠ p) (now : ℕ)
    (hall : ∀ rid s, d.split rid = some s → s.userId = p → splitEdit tx rid = none →
      rid ∈ found.map Prod.fst)
    (hfree : ∀ r ∈ renameMatches p c found (tx.view d now).db,
      splitTaken (tx.view d now).db r.2 = false) :
    Reidentified merged unread h p c (tx.add (renameEffect p c found (tx.view d now).db)) d := by
  -- the rename adds edits to those of the fold and of the delete
  have hkeep : ∀ rid, splitEdit tx rid ≠ none →
      splitEdit (tx.add (renameEffect p c found (tx.view d now).db)) rid ≠ none := by
    intro rid hrid
    simp only [splitEdit, Tx.add_writes, Writes.append_eq, Writes.append, Table.lastEdit_append, ne_eq,
      Option.or_eq_none_iff, not_and]
    exact fun _ => hrid
  have hedit : ∀ rid o, splitEdit (tx.add (renameEffect p c found (tx.view d now).db)) rid = some o →
      splitEdit tx rid = some o ∨ ∃ s', o = some (some s') ∧
        (rid, s') ∈ renameMatches p c found (tx.view d now).db := by
    intro rid o ho
    simp only [splitEdit, Tx.add_writes, Writes.append_eq, Writes.append, Table.lastEdit_append,
      Option.or_eq_some_iff] at ho
    rcases ho with ho | ⟨_, ho⟩
    · obtain ⟨⟨_, s'⟩, hmem, heq⟩ := List.mem_map.mp (Table.mem_of_lastEdit ho)
      obtain ⟨rfl, rfl⟩ := Prod.mk.inj heq
      exact Or.inr ⟨s', rfl, hmem⟩
    · exact Or.inl ho
  refine ⟨⟨hA.locked.add _, hA.account, ?_, ?_, ?_⟩, ?_, ?_⟩
  · -- what was noted stays noted
    exact fun rid s hs hu => List.mem_append_left _ (hA.noted rid s hs hu)
  · exact fun hun rid rid' mine theirs hpair => hkeep rid (hA.complete hun rid rid' mine theirs hpair)
  · -- a rename deletes nothing
    intro hor rid' theirs ho hs
    rcases hedit rid' _ ho with hold | ⟨_, heq, _⟩
    · obtain ⟨rid, mine, hpair, hedited⟩ := hA.paid hor rid' theirs hold hs
      exact ⟨rid, mine, hpair, hkeep rid hedited⟩
    · cases heq
  · intro rid o ho
    rcases hedit rid o ho with hold | ⟨s', rfl, hmem⟩
    · exact Or.inl (hA.edits rid o hold)
    · -- a renamed row: the claimer has none in its expense
      obtain ⟨_, s, hview, hu, rfl⟩ := mem_renameMatches.mp hmem
      refine Or.inr ⟨s, rfl, (hA.view_placeholder hne hview hu).2, hu, ?_, ?_⟩
      · exact owns_of_lock _ _ (List.mem_map.mpr ⟨_, hmem, rfl⟩)
      · intro rid₁ s₁ hs₁ he hc
        obtain ⟨s₂, hs₂, he₂, hc₂⟩ := (hA.view_claimer hne).mpr ⟨s₁, hs₁, he, hc⟩
        have htaken : splitTaken (tx.view d now).db { s with userId := c } = true :=
          List.any_eq_true.mpr ⟨(rid₁, s₂), Db.mem_splitRows.mpr hs₂, by simp [he₂, hc₂]⟩
        rw [hfree _ hmem] at htaken
        cases htaken
  · intro rid s hs hu
    -- every row of the placeholder is edited by now
    by_cases hold : splitEdit tx rid = none
    · have hmem : (rid, { s with userId := c }) ∈ renameMatches p c found (tx.view d now).db :=
        mem_renameMatches.mpr ⟨hall rid s hs hu hold, s, (view_split_of_none hold).trans hs, hu, rfl⟩
      simp only [splitEdit, Tx.add_writes, Writes.append_eq, Writes.append, Table.lastEdit_append, ne_eq,
        Option.or_eq_none_iff, not_and]
      intro hnone
      exact absurd (List.mem_map.mpr ⟨_, List.mem_map.mpr ⟨_, hmem, rfl⟩, rfl⟩)
        (Table.lastEdit_eq_none.mp hnone)
    · exact hkeep rid hold

theorem triple_reidentifySplits :
    (ledgerProtocol env merged unread).Triple (Sweeping merged unread h p c) (reidentifySplits p c)
      fun _ => Reidentified merged unread h p c := by
  refine triple_bind (B := fun found tx d => Sweeping merged unread h p c tx d ∧
    ∀ rid s, d.split rid = some s → s.userId = p → splitEdit tx rid = none →
      rid ∈ found.map Prod.fst) ?_ fun found => triple_exec ?_ ?_
  · refine triple_select (fun tx d d' hr _ hA => hA.rely hr) ?_
    rintro tx d now hA hi
    refine ⟨hA, fun rid s hs hu hnone => List.mem_map.mpr ⟨(rid, s), ?_, rfl⟩⟩
    rw [mem_splitsOfUser, view_split_of_none hnone]
    exact ⟨hs, hu⟩
  · rintro tx d d' hr hi ⟨hA, hall⟩
    exact ⟨hA.rely hr, fun rid s hs hu => hall rid s (hA.locked.row hr hs hu) hu⟩
  · rintro tx d now _ ⟨hA, hall⟩ hi hres
    refine reidentified_of_rename hA (hA.ne hi.1) now hall ?_
    intro r hr
    by_contra htaken
    have hany : ((renameMatches p c found (tx.view d now).db).any fun r =>
        splitTaken (tx.view d now).db r.2) = true :=
      List.any_eq_true.mpr ⟨r, hr, by simpa using htaken⟩
    change (if ((renameMatches p c found (tx.view d now).db).any fun r =>
      splitTaken (tx.view d now).db r.2) = true then Except.error Err.uniqueViolation
      else Except.ok ()) = _ at hres
    rw [if_pos hany] at hres
    cases hres

theorem Reidentified.add (hA : Reidentified merged unread h p c tx d)
    (e : Effect Writes LockKey Note) (hq : e.writes.expenseSplits = []) :
    Reidentified merged unread h p c (tx.add e) (tick e.ids d) := by
  refine ⟨hA.toFolded.add e hq, ?_, ?_⟩
  · intro rid o ho
    rw [edit_add_of_nil tx hq] at ho
    rcases hA.edits rid o ho with ⟨row, rfl, hrow⟩ | ⟨s, rfl, hs⟩
    · exact Or.inl ⟨row, rfl, hrow.tick⟩
    · exact Or.inr ⟨s, rfl, hs.split, hs.user, owns_add _ _ hs.slot, hs.alone⟩
  · intro rid s hs hu
    rw [edit_add_of_nil tx hq]
    exact hA.done rid s hs hu

theorem passive_reidentified :
    (ledgerProtocol env merged unread).Passive (fun w => w.expenseSplits = [])
      (Reidentified merged unread h p c) where
  stable := fun _ _ _ hr _ hA => hA.rely hr
  step := fun _ _ e hq hA => hA.add e hq

/-- The rows of a claim, from the lock on. -/
theorem triple_claimRows {houseId : Uuid} :
    (ledgerProtocol env merged unread).Triple (Claiming h p c) (claimHistory houseId p c)
      fun _ => Reidentified merged unread h p c := by
  refine triple_bind triple_selectFolded fun folded =>
    triple_bind (triple_passive passive_claiming_noted
      (only_reviseFolded (p := fun w => w.expenseSplits = []) rfl (fun _ => rfl) fun _ _ => rfl)) fun events =>
    triple_bind triple_foldSplits fun _ => triple_bind triple_sweepSplits fun _ =>
    triple_bind triple_reidentifySplits fun _ =>
    triple_bind (triple_passive passive_reidentified (only_updateMember fun _ => rfl)) fun _ =>
    triple_bind (triple_passive passive_reidentified (only_softDeleteUser fun _ => rfl)) fun _ =>
    triple_pure fun _ _ hA => hA

end statements

/-! ## Section 4: The commit -/

/-- What the commit of a claim does to one slot of `expense_splits`. -/
inductive ClaimedRow (p c : Uuid) (tx : DbTx) (d : Db) (rid : Rid) : Prop where
  | kept (hedit : splitEdit tx rid = none) (hnew : (tx.commit d).split rid = d.split rid)
      (hlook : (tx.commit d).expenseSplits.lookup rid = d.expenseSplits.lookup rid)
  | folded (rid' : Rid) (mine theirs : Split) (hpair : FoldPair p c d rid rid' mine theirs)
      (hlook : (tx.commit d).expenseSplits.lookup rid =
        some (some { mine with amountCents := mine.amountCents + theirs.amountCents }))
  | swept (theirs : Split) (hold : d.split rid = some theirs) (hp : theirs.userId = p)
      (hedit : splitEdit tx rid = some (some none))
      (hlook : (tx.commit d).expenseSplits.lookup rid = some none)
  | renamed (s : Split) (hs : Renamed p c tx d rid s)
      (hlook : (tx.commit d).expenseSplits.lookup rid = some (some { s with userId := c }))

section commit

variable {h p c : Uuid} {tx : DbTx} {d : Db} {rid : Rid} {s : Split}

theorem Reidentified.row (hA : Reidentified merged unread h p c tx d) (rid : Rid) :
    ClaimedRow p c tx d rid := by
  have hlook : (tx.commit d).expenseSplits.lookup rid =
      (splitEdit tx rid).getD (d.expenseSplits.lookup rid) := Table.lookup_patch _ _ _
  cases hedit : splitEdit tx rid with
  | none =>
    rw [hedit] at hlook
    refine .kept hedit ?_ hlook
    rw [Db.split, Db.split, hlook]
    rfl
  | some o =>
    rw [hedit] at hlook
    rcases hA.edits rid o hedit with ⟨row, rfl, hrow⟩ | ⟨s, rfl, hs⟩
    · cases hrow with
      | fold rid' mine theirs hpair => exact .folded rid' mine theirs hpair hlook
      | sweep theirs htheirs hp => exact .swept theirs htheirs hp hedit hlook
    · exact .renamed s hs hlook

/-- A split after the commit was one of the same expense before. -/
theorem ClaimedRow.old (hr : ClaimedRow p c tx d rid) (hs : (tx.commit d).split rid = some s) :
    ∃ s₀, d.split rid = some s₀ ∧ s₀.expenseId = s.expenseId ∧
      (s₀.userId = s.userId ∨ (s.userId = c ∧ Renamed p c tx d rid s₀)) := by
  cases hr with
  | kept _ hnew => exact ⟨s, hnew.symm.trans hs, rfl, Or.inl rfl⟩
  | folded rid' mine theirs hpair hlook =>
    rw [Db.split_eq_some, hlook] at hs
    cases hs
    exact ⟨mine, hpair.mineRow, rfl, Or.inl rfl⟩
  | swept theirs _ _ _ hlook =>
    rw [Db.split_eq_some, hlook] at hs
    cases hs
  | renamed s₀ hs₀ hlook =>
    rw [Db.split_eq_some, hlook] at hs
    cases hs
    exact ⟨s₀, hs₀.split, rfl, Or.inr ⟨rfl, hs₀⟩⟩

/-- A split that the commit changes was the placeholder's or is the claimer's. -/
theorem ClaimedRow.changed (hr : ClaimedRow p c tx d rid) (hs : d.split rid = some s)
    (hne : (tx.commit d).split rid ≠ some s) : s.userId = c ∨ s.userId = p := by
  cases hr with
  | kept _ hnew => exact absurd (hnew.trans hs) hne
  | folded rid' mine theirs hpair =>
    have hmine := hpair.mineRow
    rw [hs] at hmine
    cases hmine
    exact Or.inl hpair.claimer
  | swept theirs hold hp =>
    rw [hs] at hold
    cases hold
    exact Or.inr hp
  | renamed s₀ hs₀ =>
    have hold := hs₀.split
    rw [hs] at hold
    cases hold
    exact Or.inr hs₀.user

theorem ClaimedRow.step (hr : ClaimedRow p c tx d rid) :
    RowStep (d.expenseSplits.lookup rid) ((tx.commit d).expenseSplits.lookup rid) := by
  cases hr with
  | kept _ _ hlook => rw [hlook]; exact RowStep.refl _
  | folded rid' mine theirs hpair hlook =>
    rw [hlook, Db.split_eq_some.mp hpair.mineRow]
    exact RowStep.update rfl
  | swept theirs hold _ _ hlook =>
    rw [hlook, Db.split_eq_some.mp hold]
    exact RowStep.delete theirs
  | renamed s₀ hs₀ hlook =>
    rw [hlook, Db.split_eq_some.mp hs₀.split]
    exact RowStep.update rfl

/-- The claimer is nobody's placeholder. -/
theorem Folded.not_isPlaceholder (hA : Folded merged unread h p c tx d) (hp : People env d) (k : Uuid) :
    ¬ d.IsPlaceholder k c := by
  rintro ⟨m, hm, htrue⟩
  rw [(hp.member_of_account hA.account hm).1] at htrue
  cases htrue

theorem Reidentified.step (hA : Reidentified merged unread h p c tx d) (hp : People env d)
    (hu : ∀ u, UserStep (d.users.lookup u) ((tx.commit d).users.lookup u))
    (hm : ∀ k, MemberStep (d.houseMembers.lookup k) ((tx.commit d).houseMembers.lookup k))
    (ha : ArriveActive d (tx.commit d)) (he : tx.writes.expenses = []) :
    LedgerStep tx d (tx.commit d) where
  users := hu
  members := hm
  arrivals := ha
  expenses := by
    have hsame : (tx.commit d).expenses = d.expenses := by simp [Writes.apply, he]
    rw [hsame]
    exact fun e => ExpenseStep.refl _
  rows := fun rid => (hA.row rid).step
  opened := by
    intro rid s hs hn
    obtain ⟨s₀, hs₀, _⟩ := (hA.row rid).old hs
    rw [hn] at hs₀
    cases hs₀
  given := by
    intro rid s hs hn k hk
    -- who is given a split is the claimer, who has an account
    have huser : s.userId = c := by
      cases hA.row rid with
      | kept _ hnew => exact absurd (hnew.symm.trans hs) hn
      | folded rid' mine theirs hpair hlook =>
        rw [Db.split_eq_some, hlook] at hs
        cases hs
        exact hpair.claimer
      | swept theirs _ _ _ hlook =>
        rw [Db.split_eq_some, hlook] at hs
        cases hs
      | renamed s₀ hs₀ hlook =>
        rw [Db.split_eq_some, hlook] at hs
        cases hs
        rfl
    exact absurd (huser ▸ hk) (hA.not_isPlaceholder hp k)
  taken := by
    intro rid s hs hn k hk
    -- who loses one is the placeholder, which is locked
    rcases (hA.row rid).changed hs hn with hc | hplace
    · exact absurd (hc ▸ hk) (hA.not_isPlaceholder hp k)
    · obtain ⟨m, hm, htrue⟩ := hplace ▸ hk
      obtain ⟨m₀, hm₀, _⟩ := hA.locked.unclaimed
      have hhouse := hp.home k h p m m₀ hm hm₀ htrue
      rw [hplace, ← hhouse]
      exact Or.inl hA.locked.owns
  slots := by
    intro rid s hs hn
    obtain ⟨s₀, hs₀, he, hu | ⟨hc, hrenamed⟩⟩ := (hA.row rid).old hs
    · exact absurd hu (hn s₀ hs₀)
    · rw [← he, hc]
      exact hrenamed.slot

/-- `hmember` says whose membership the commit leaves claimed. -/
theorem Reidentified.bookings (hA : Reidentified merged unread h p c tx d) (hp : People env d)
    (hk : Bookings env d) (he : tx.writes.expenses = [])
    (hmember : ∀ k u m, (tx.commit d).houseMembers.lookup (k, u) = some m →
      m.claimedBy = none ∨ d.houseMembers.lookup (k, u) = some m ∨ u = p) :
    Bookings env (tx.commit d) := by
  have hsame : (tx.commit d).expenses = d.expenses := by simp [Writes.apply, he]
  refine ⟨?_, ?_, ?_, ?_, ?_, ?_, ?_⟩
  · -- the expenses are not touched
    rw [hsame]; exact hk.ids
  · rw [hsame]; exact hk.amount
  · -- no new rows
    intro rid row hrow
    cases hA.row rid with
    | kept _ _ hlook => exact hk.rids rid row (hlook ▸ hrow)
    | folded rid' mine theirs hpair => exact hk.rids rid _ (Db.split_eq_some.mp hpair.mineRow)
    | swept theirs hold => exact hk.rids rid _ (Db.split_eq_some.mp hold)
    | renamed s₀ hs₀ => exact hk.rids rid _ (Db.split_eq_some.mp hs₀.split)
  · intro rid s hs
    -- each split stays with its expense
    obtain ⟨s₀, hs₀, heq, _⟩ := (hA.row rid).old hs
    rw [hsame, ← heq]
    exact hk.expense rid s₀ hs₀
  · intro rid s hs
    -- a fold adds what is not negative
    cases hA.row rid with
    | kept _ hnew => exact hk.nonneg rid s (hnew.symm.trans hs)
    | folded rid' mine theirs hpair hlook =>
      rw [Db.split_eq_some, hlook] at hs
      cases hs
      exact add_nonneg (hk.nonneg rid mine hpair.mineRow) (hk.nonneg rid' theirs hpair.theirsRow)
    | swept theirs _ _ _ hlook =>
      rw [Db.split_eq_some, hlook] at hs
      cases hs
    | renamed s₀ hs₀ hlook =>
      rw [Db.split_eq_some, hlook] at hs
      cases hs
      exact hk.nonneg rid s₀ hs₀.split
  · intro rid rid' s s' hs hs' hexp huser
    -- one split for each user: a row is renamed only where the claimer has none
    obtain ⟨s₀, hs₀, he₀, hu⟩ := (hA.row rid).old hs
    obtain ⟨s₀', hs₀', he₀', hu'⟩ := (hA.row rid').old hs'
    have hexp₀ : s₀.expenseId = s₀'.expenseId := he₀.trans (hexp.trans he₀'.symm)
    rcases hu with hu | ⟨hc, hren⟩ <;> rcases hu' with hu' | ⟨hc', hren'⟩
    · exact hk.slot rid rid' s₀ s₀' hs₀ hs₀' hexp₀ (hu.trans (huser.trans hu'.symm))
    · exact absurd (hu.trans (huser.trans hc')) (hren'.alone rid s₀ hs₀ hexp₀)
    · exact absurd (hu'.trans (huser.symm.trans hc)) (hren.alone rid' s₀' hs₀' hexp₀.symm)
    · exact hk.slot rid rid' s₀ s₀' hs₀ hs₀' hexp₀ (hren.user.trans hren'.user.symm)
  · intro rid s hs k m hm
    -- no split is left with the placeholder
    obtain ⟨s₀, hs₀, _, hu⟩ := (hA.row rid).old hs
    have hne : s.userId ≠ p := by
      intro hplace
      have hcp := hA.locked.ne hp hA.account
      rcases hu with hu | ⟨hc, _⟩
      · -- its rows have all been edited
        have hedited := hA.done rid s₀ hs₀ (hu.trans hplace)
        cases hA.row rid with
        | kept hedit => exact hedited hedit
        | folded rid' mine theirs hpair =>
          have hmine := hpair.mineRow
          rw [hs₀] at hmine
          cases hmine
          exact hcp (hpair.claimer.symm.trans (hu.trans hplace))
        | swept theirs _ _ _ hlook =>
          rw [Db.split_eq_some, hlook] at hs
          cases hs
        | renamed s₁ hs₁ hlook =>
          rw [Db.split_eq_some, hlook] at hs
          cases hs
          exact hcp hplace
      · exact hcp (hc.symm.trans hplace)
    rcases hmember k s.userId m hm with hnone | hold | hplace
    · exact hnone
    · rcases hu with hu | ⟨hc, _⟩
      · exact hk.holder rid s₀ hs₀ k m (hu ▸ hold)
      · exact (hp.member_of_account (hc ▸ hA.account) hold).2
    · exact absurd hplace hne

/-- Where both have a split, the placeholder's is deleted. -/
theorem Reidentified.sweeps (hA : Reidentified merged unread h p c tx d) (hcp : c ≠ p) {rid' : Rid}
    {mine theirs : Split} (hpair : FoldPair p c d rid rid' mine theirs) :
    splitEdit tx rid' = some (some none) ∧ (tx.commit d).split rid' = none := by
  cases hA.row rid' with
  | kept hedit => exact absurd hedit (hA.done rid' theirs hpair.theirsRow hpair.placeholder)
  | folded rid₁ mine₁ theirs₁ hpair₁ =>
    have hsame := Option.some.inj (hpair₁.mineRow.symm.trans hpair.theirsRow)
    exact absurd (hpair₁.claimer.symm.trans (hsame ▸ hpair.placeholder)) hcp
  | swept theirs₁ _ _ hedit hlook =>
    refine ⟨hedit, ?_⟩
    rw [Db.split, hlook]
    rfl
  | renamed s₁ hs₁ =>
    have hsame := Option.some.inj (hs₁.split.symm.trans hpair.theirsRow)
    subst hsame
    exact absurd hpair.claimer (hs₁.alone rid mine hpair.mineRow hpair.expense.symm)

/-- A row of the claimer that is edited has the amount of both. -/
theorem Reidentified.folds (hA : Reidentified merged unread h p c tx d) (hcp : c ≠ p)
    (hk : Bookings env d) {rid' : Rid} {mine theirs : Split}
    (hpair : FoldPair p c d rid rid' mine theirs) (hne : splitEdit tx rid ≠ none) :
    (tx.commit d).split rid =
      some { mine with amountCents := mine.amountCents + theirs.amountCents } := by
  cases hA.row rid with
  | kept hedit => exact absurd hedit hne
  | folded rid₁ mine₁ theirs₁ hpair₁ hlook =>
    have hmine : mine₁ = mine := Option.some.inj (hpair₁.mineRow.symm.trans hpair.mineRow)
    subst hmine
    have hrid := hk.slot rid₁ rid' theirs₁ theirs hpair₁.theirsRow hpair.theirsRow
      (hpair₁.expense.trans hpair.expense.symm) (hpair₁.placeholder.trans hpair.placeholder.symm)
    subst hrid
    have htheirs : theirs₁ = theirs := Option.some.inj (hpair₁.theirsRow.symm.trans hpair.theirsRow)
    subst htheirs
    exact Db.split_eq_some.mpr hlook
  | swept theirs₁ hold hplace =>
    have hsame := Option.some.inj (hold.symm.trans hpair.mineRow)
    exact absurd (hpair.claimer.symm.trans (hsame ▸ hplace)) hcp
  | renamed s₁ hs₁ =>
    have hsame := Option.some.inj (hs₁.split.symm.trans hpair.mineRow)
    exact absurd (hpair.claimer.symm.trans (hsame ▸ hs₁.user)) hcp

/-- Outside of a fold a slot keeps its amount. -/
theorem ClaimedRow.cents (hr : ClaimedRow p c tx d rid)
    (hfold : ∀ rid' mine theirs, ¬ FoldPair p c d rid rid' mine theirs)
    (hsweep : ∀ theirs, d.split rid = some theirs → theirs.userId = p →
      splitEdit tx rid ≠ some (some none)) : (tx.commit d).cents rid = d.cents rid := by
  cases hr with
  | kept _ hnew => rw [Db.cents, Db.cents, hnew]
  | folded rid' mine theirs hpair => exact absurd hpair (hfold rid' mine theirs)
  | swept theirs hold hp hedit => exact absurd hedit (hsweep theirs hold hp)
  | renamed s hs hlook =>
    rw [Db.cents, Db.cents, Db.split_eq_some.mpr hlook, hs.split]
    rfl

/-- The claim keeps the sum of every expense: what the delete takes away,
    the fold has added. -/
theorem Reidentified.splitSum (hA : Reidentified merged unread h p c tx d) (hp : People env d)
    (hk : Bookings env d) (hm : merged) (e : Uuid) : (tx.commit d).splitSum e = d.splitSum e := by
  have hcp := hA.locked.ne hp hA.account
  -- both sums run over the rows that the expense had before
  let S : Finset Rid := ((d.splitsOf e).map Prod.fst).toFinset
  have hmem : ∀ rid, rid ∈ S ↔ ∃ s, d.split rid = some s ∧ s.expenseId = e := by
    intro rid
    rw [List.mem_toFinset, List.mem_map]
    constructor
    · rintro ⟨⟨_, s⟩, hs, rfl⟩
      exact ⟨s, Db.mem_splitsOf.mp hs⟩
    · rintro ⟨s, hs⟩
      exact ⟨(rid, s), Db.mem_splitsOf.mpr hs, rfl⟩
  rw [Db.splitSum_eq_sum (d := d) (S := S), Db.splitSum_eq_sum (d := tx.commit d) (S := S)]
  rotate_left
  · intro rid s hs he
    obtain ⟨s₀, hs₀, he₀, _⟩ := (hA.row rid).old hs
    exact (hmem rid).mpr ⟨s₀, hs₀, he₀.trans he⟩
  · intro rid hrid s hs
    obtain ⟨s₀, hs₀, he₀⟩ := (hmem rid).mp hrid
    exact ((hA.row rid).step.split hs₀ hs).trans he₀
  · exact fun rid s hs he => (hmem rid).mpr ⟨s, hs, he⟩
  · intro rid hrid s hs
    obtain ⟨s₀, hs₀, he₀⟩ := (hmem rid).mp hrid
    rw [hs] at hs₀
    cases hs₀
    exact he₀
  -- the rows of one pair change, or none
  by_cases hswept : ∃ rid' theirs, d.split rid' = some theirs ∧ theirs.expenseId = e ∧
      theirs.userId = p ∧ splitEdit tx rid' = some (some none)
  · obtain ⟨rid', theirs, htheirs, he, hplace, hedit⟩ := hswept
    obtain ⟨rid, mine, hpair, hne⟩ := hA.paid (Or.inl hm) rid' theirs hedit htheirs
    have hnew := hA.folds hcp hk hpair hne
    have hgone := (hA.sweeps hcp hpair).2
    have hrid : rid ∈ S := (hmem rid).mpr ⟨mine, hpair.mineRow, hpair.expense.symm.trans he⟩
    have hdiff : rid' ≠ rid := by
      rintro rfl
      have hsame := Option.some.inj (hpair.mineRow.symm.trans hpair.theirsRow)
      exact hcp (hpair.claimer.symm.trans (hsame ▸ hpair.placeholder))
    have hrid' : rid' ∈ S.erase rid :=
      Finset.mem_erase.mpr ⟨hdiff, (hmem rid').mpr ⟨theirs, htheirs, he⟩⟩
    -- every other row keeps its cents
    have hrest : ∑ x ∈ (S.erase rid).erase rid', (tx.commit d).cents x =
        ∑ x ∈ (S.erase rid).erase rid', d.cents x := by
      refine Finset.sum_congr rfl fun x hx => ?_
      obtain ⟨hx', hx⟩ := Finset.mem_erase.mp hx
      obtain ⟨hx'', hx⟩ := Finset.mem_erase.mp hx
      obtain ⟨s, hs, hse⟩ := (hmem x).mp hx
      refine (hA.row x).cents ?_ ?_
      · intro rid₁ mine₁ theirs₁ hpair₁
        have hsame : mine₁ = s := Option.some.inj (hpair₁.mineRow.symm.trans hs)
        subst hsame
        exact hx'' (hk.slot x rid mine₁ mine hs hpair.mineRow (hse.trans (he.symm.trans hpair.expense))
          (hpair₁.claimer.trans hpair.claimer.symm))
      · intro theirs₁ htheirs₁ hplace₁ _
        have hsame : theirs₁ = s := Option.some.inj (htheirs₁.symm.trans hs)
        subst hsame
        exact hx' (hk.slot x rid' theirs₁ theirs hs htheirs (hse.trans he.symm)
          (hplace₁.trans hplace.symm))
    rw [← Finset.add_sum_erase _ _ hrid, ← Finset.add_sum_erase _ _ hrid',
      ← Finset.add_sum_erase _ _ hrid, ← Finset.add_sum_erase _ d.cents hrid', hrest]
    simp only [Db.cents, hnew, hgone, hpair.mineRow, htheirs, Option.elim]
    ring
  · -- no row of the placeholder is deleted, so no row has grown
    refine Finset.sum_congr rfl fun x hx => ?_
    obtain ⟨s, hs, hse⟩ := (hmem x).mp hx
    refine (hA.row x).cents ?_ ?_
    · intro rid' mine theirs hpair
      have hsame : mine = s := Option.some.inj (hpair.mineRow.symm.trans hs)
      subst hsame
      exact hswept ⟨rid', theirs, hpair.theirsRow, hpair.expense.trans hse, hpair.placeholder,
        (hA.sweeps hcp hpair).1⟩
    · intro theirs htheirs hplace hedit
      rw [hs] at htheirs
      cases htheirs
      exact hswept ⟨x, s, hs, hse, hplace, hedit⟩

/-- Both have a split in the expense. -/
def BothSplit (p c : Uuid) (d : Db) (e : Uuid) : Prop :=
  ∃ rid rid' mine theirs, FoldPair p c d rid rid' mine theirs ∧ theirs.expenseId = e

/-- When nobody touches the expenses, what the commit folds is what there
    was to fold. -/
theorem Reidentified.foldedIn_iff (hA : Reidentified merged unread h p c tx d) (hcp : c ≠ p)
    (hk : Bookings env d) (hun : unread) (e : Uuid) :
    FoldedIn d (tx.commit d) e ↔ BothSplit p c d e := by
  constructor
  · rintro ⟨rid, rid', mine, theirs, _, htheirs, _, he, _, _, hgone⟩
    cases hA.row rid' with
    | kept _ hnew =>
      rw [hnew, htheirs] at hgone
      cases hgone
    | folded rid₁ mine₁ theirs₁ _ hlook =>
      rw [Db.split, hlook] at hgone
      cases hgone
    | swept theirs₁ hold hp hedit =>
      obtain ⟨rid₀, mine₀, hpair, _⟩ := hA.paid (Or.inr hun) rid' theirs₁ hedit hold
      have hsame := Option.some.inj (hold.symm.trans htheirs)
      exact ⟨rid₀, rid', mine₀, theirs₁, hpair, hsame ▸ he⟩
    | renamed s₁ _ hlook =>
      rw [Db.split, hlook] at hgone
      cases hgone
  · rintro ⟨rid, rid', mine, theirs, hpair, he⟩
    refine ⟨rid, rid', mine, theirs, hpair.mineRow, hpair.theirsRow, hpair.expense.symm.trans he, he, ?_,
      hA.folds hcp hk hpair (hA.complete hun rid rid' mine theirs hpair), (hA.sweeps hcp hpair).2⟩
    rw [hpair.claimer, hpair.placeholder]
    exact hcp

end commit

end Homi
