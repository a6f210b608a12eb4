import Homi.Framework.Debts
import Homi.Verification.Accepts
import Homi.Verification.Claimants
import Homi.Verification.Housing

/-! # The book of a house

  `Db.book` reads the ledger of a house as a book of debts: its payers
  advanced the shares of their expenses, and its payments went against what
  was owed. `getBalances` shows this book (`Shows`), and what a commit does
  to the rows is an entry in it.
-/

namespace Homi

open ReadCommitted
open Debts (Book debt spread)

variable {env : Env} {d d' : Db} {h e p c u : Uuid}

/-! ## Section 1: The book -/

/-- Everybody's share of the expense. -/
noncomputable def Db.sharesOf (d : Db) (e : Uuid) : Uuid →₀ ℤ :=
  Finsupp.onFinset (d.splitUsers e).toFinset (d.amountOf e) fun u hu => by
    rw [List.mem_toFinset, mem_splitUsers]
    by_contra hno
    exact hu (amountOf_none (Bool.eq_false_iff.mpr hno))

/-- What the expense adds to the book of the house. -/
noncomputable def Expense.entered (row : Expense) (h : Uuid) (shares : Uuid →₀ ℤ) : Book Uuid ℤ :=
  if row.houseId = h ∧ row.deletedAt = none then spread row.paidBy shares else 0

/-- What the payment adds. -/
noncomputable def Payment.entered (p : Payment) (h : Uuid) : Book Uuid ℤ :=
  if p.houseId = h ∧ p.status ≠ .disputed then debt p.toUser p.fromUser p.amountCents else 0

noncomputable def Db.expenseBook (d : Db) (h : Uuid) : Book Uuid ℤ :=
  Table.sumRows d.expenses fun e row => row.entered h (d.sharesOf e)

noncomputable def Db.paymentBook (d : Db) (h : Uuid) : Book Uuid ℤ :=
  Table.sumRows d.payments fun _ p => p.entered h

/-- Who owes whom in the house. -/
noncomputable def Db.book (d : Db) (h : Uuid) : Book Uuid ℤ := d.expenseBook h + d.paymentBook h

theorem book_empty (h : Uuid) : Db.empty.book h = 0 := by
  simp [Db.book, Db.expenseBook, Db.paymentBook, Table.sumRows, Db.empty, Table.rows_empty]

@[simp] theorem sharesOf_apply (d : Db) (e u : Uuid) : d.sharesOf e u = d.amountOf e u := rfl

/-- The shares of an amount. -/
structure Shares (amountCents : ℤ) (shares : Uuid →₀ ℤ) : Prop where
  nonneg : ∀ u, 0 ≤ shares u
  total : Debts.total shares = amountCents

theorem Bookings.slots (hk : Bookings env d) : d.Slots := hk.slot

theorem total_sharesOf (hD : d.Slots) (e : Uuid) : Debts.total (d.sharesOf e) = d.splitSum e := by
  rw [← total_shares hD, shares_eq hD, Table.total_of_lookup (nodup_splitUsers hD e)
    (v := d.amountOf e)]
  · show (d.sharesOf e).sum (fun _ a => a) = _
    rw [Db.sharesOf, Finsupp.onFinset_sum _ fun _ => rfl, List.sum_toFinset _ (nodup_splitUsers hD e)]
  · intro k
    rw [Table.lookup_foldl_insert]
    rfl

theorem shares_of_row (hb : LedgerBase env d) (hbal : Balanced d) {row : Expense}
    (hrow : d.expenses.lookup e = some row) : Shares row.amountCents (d.sharesOf e) where
  nonneg u := by
    rw [sharesOf_apply, Db.amountOf]
    cases hfind : (d.splitsOf e).find? fun r => r.2.userId = u with
    | none => exact le_refl _
    | some r => exact hb.bookings.nonneg r.1 r.2 (Db.mem_splitsOf.mp (List.mem_of_find?_eq_some hfind)).1
  total := (total_sharesOf hb.bookings.slots e).trans (hbal e row hrow)

/-! ## Section 2: What the balances show -/

/-- The balances are those of the book: for each pair that is not even, who
    owes whom, and for everybody the net. -/
structure Shows (b : Balances) (book : Book Uuid ℤ) : Prop where
  nodup : b.pairwise.Nodup
  pairwise : ∀ o, o ∈ b.pairwise ↔
    0 < o.amountCents ∧ o.amountCents = Debts.owes o.fromUser o.toUser book
  net : ∀ u, b.netFor u = Debts.net book u

section shows

theorem sum_filterMap {α β : Type} {M : Type} [AddCommGroup M] (l : List α) (g : α → Option β) (f : β → M) :
    ((l.filterMap g).map f).sum = (l.map fun a => (g a).elim 0 f).sum := by
  induction l with
  | nil => rfl
  | cons a l ih =>
    rw [List.filterMap_cons, List.map_cons, List.sum_cons, ← ih]
    cases g a with
    | none => exact (zero_add _).symm
    | some b => rw [List.map_cons, List.sum_cons]; rfl

theorem sum_map_sub {α : Type} (l : List α) (f g : α → ℤ) :
    (l.map fun a => f a - g a).sum = (l.map f).sum - (l.map g).sum := by
  simpa using Multiset.sum_map_sub (m := (l : Multiset α)) (f := f) (g := g)

/-- The row of the expense in the join, if it has one. -/
def Db.expenseRow (d : Db) (h : Uuid) (r : Uuid × Expense) : Option ExpenseRow :=
  if r.2.houseId = h ∧ r.2.deletedAt = none ∧ d.splitsOf r.1 ≠ [] then
    some ⟨r.2.paidBy, d.shares r.1⟩
  else none

theorem expenseRows_eq (d : Db) (h : Uuid) : expenseRows d h = d.expenses.rows.filterMap (d.expenseRow h) := rfl

theorem amountOf_nil (hnil : d.splitsOf e = []) (u : Uuid) : d.amountOf e u = 0 := by
  simp [Db.amountOf, hnil]

/-- An additive reading of the book is the sum of the readings of the rows. -/
theorem expenseBook_read {M : Type} [AddCommGroup M] (φ : Book Uuid ℤ →+ M) {f : ExpenseRow → M}
    (h : Uuid) (hf : ∀ payer e, φ (spread payer (d.sharesOf e)) = f ⟨payer, d.shares e⟩) :
    φ (d.expenseBook h) = ((expenseRows d h).map f).sum := by
  rw [expenseRows_eq, sum_filterMap, Db.expenseBook, Table.sumRows, map_list_sum, List.map_map]
  refine congrArg List.sum (List.map_congr_left fun r _ => ?_)
  show φ (r.2.entered h (d.sharesOf r.1)) = _
  unfold Expense.entered Db.expenseRow
  by_cases hlive : r.2.houseId = h ∧ r.2.deletedAt = none
  · rw [if_pos hlive]
    by_cases hnil : d.splitsOf r.1 = []
    · rw [if_neg (fun hx => hx.2.2 hnil)]
      have hzero : d.sharesOf r.1 = 0 := Finsupp.ext fun u => amountOf_nil hnil u
      rw [hzero, map_zero, map_zero]
      rfl
    · rw [if_pos ⟨hlive.1, hlive.2, hnil⟩]
      exact hf _ _
  · rw [if_neg hlive, if_neg (fun hx => hlive ⟨hx.1, hx.2.1⟩), map_zero]
    rfl

theorem paymentBook_read {M : Type} [AddCommGroup M] (φ : Book Uuid ℤ →+ M) {f : PaymentRow → M} (h : Uuid)
    (hcounted : ∀ p, p.status ≠ .disputed → φ (debt p.toUser p.fromUser p.amountCents) = f p)
    (hdisputed : ∀ p, p.status = .disputed → f p = 0) :
    φ (d.paymentBook h) = ((paymentRows d h).map f).sum := by
  rw [paymentRows, ← List.filterMap_eq_filter, List.map_map, sum_filterMap, Db.paymentBook,
    Table.sumRows, map_list_sum, List.map_map]
  refine congrArg List.sum (List.map_congr_left fun r _ => ?_)
  show φ (r.2.entered h) = (Option.guard (fun r : Uuid × Payment => decide (r.2.houseId = h)) r).elim 0 _
  unfold Payment.entered
  by_cases hh : r.2.houseId = h
  · rw [show Option.guard (fun r : Uuid × Payment => decide (r.2.houseId = h)) r = some r by
      simp [Option.guard, hh]]
    show _ = f r.2.toRow
    by_cases hs : r.2.status = .disputed
    · rw [if_neg fun hx => hx.2 hs, map_zero, hdisputed r.2.toRow hs]
    · rw [if_pos ⟨hh, hs⟩]
      exact hcounted r.2.toRow hs
  · rw [if_neg fun hx => hh hx.1, map_zero, show Option.guard (fun r : Uuid × Payment =>
      decide (r.2.houseId = h)) r = none by simp [Option.guard, hh]]
    rfl

theorem owes_book (hD : d.Slots) (h u v : Uuid) :
    Debts.owes u v (d.book h) = owes (expenseRows d h) (paymentRows d h) u v := by
  have hexpenses : Debts.owes u v (d.expenseBook h) = ((expenseRows d h).map fun e =>
      (if e.paidBy = v then (e.splits.lookup u).getD 0 else 0) -
        if e.paidBy = u then (e.splits.lookup v).getD 0 else 0).sum := by
    apply expenseBook_read
    intro payer e
    rw [Debts.owes_spread, sharesOf_apply, sharesOf_apply, ← shareOf_shares hD payer e u,
      ← shareOf_shares hD payer e v]
    congr 1 <;> exact if_congr eq_comm rfl rfl
  have hpayments : Debts.owes u v (d.paymentBook h) = ((paymentRows d h).map fun p =>
      (if p.status ≠ .disputed ∧ p.fromUser = v ∧ p.toUser = u then p.amountCents else 0) -
        if p.status ≠ .disputed ∧ p.fromUser = u ∧ p.toUser = v then p.amountCents else 0).sum := by
    apply paymentBook_read
    · intro p hp
      rw [Debts.owes_debt]
      congr 1
      · exact if_congr ⟨fun hx => ⟨hp, hx.2.symm, hx.1.symm⟩, fun hx => ⟨hx.2.2.symm, hx.2.1.symm⟩⟩ rfl rfl
      · exact if_congr ⟨fun hx => ⟨hp, hx.1.symm, hx.2.symm⟩, fun hx => ⟨hx.2.1.symm, hx.2.2.symm⟩⟩ rfl rfl
    · intro p hp
      simp [hp]
  rw [Db.book, map_add, hexpenses, hpayments, sum_map_sub, sum_map_sub]
  simp only [owes, gross, sharesOwed, paymentsSent]
  ring

theorem net_book (hD : d.Slots) (h u : Uuid) : Debts.net (d.book h) u =
    ((expenseRows d h).map (ExpenseRow.toNet u)).sum + ((paymentRows d h).map (PaymentRow.toNet u)).sum := by
  let φ : Book Uuid ℤ →+ ℤ := (Finsupp.applyAddHom u).comp Debts.net
  have hexpenses : φ (d.expenseBook h) = ((expenseRows d h).map (ExpenseRow.toNet u)).sum := by
    apply expenseBook_read
    intro payer e
    show Debts.net (spread payer (d.sharesOf e)) u = _
    rw [Debts.net_spread, Finsupp.sub_apply, Finsupp.single_apply, total_sharesOf hD, sharesOf_apply,
      ExpenseRow.toNet, shareOf_shares hD, total_shares hD]
  have hpayments : φ (d.paymentBook h) = ((paymentRows d h).map (PaymentRow.toNet u)).sum := by
    apply paymentBook_read
    · intro p hp
      show Debts.net (debt p.toUser p.fromUser p.amountCents) u = _
      rw [Debts.net_debt, Finsupp.sub_apply, Finsupp.single_apply, Finsupp.single_apply, PaymentRow.toNet,
        PaymentRow.debts, if_neg hp]
      simp [Debt.toNet]
    · intro p hp
      rw [PaymentRow.toNet, PaymentRow.debts, if_pos hp]
      rfl
  rw [Db.book, map_add, Finsupp.add_apply]
  exact congrArg₂ _ hexpenses hpayments

/-- The balances of clean rows show the book. -/
theorem shows_book (hD : d.Slots) (hids : CleanIds (expenseRows d h) (paymentRows d h)) :
    Shows (computeBalances (expenseRows d h) (paymentRows d h)) (d.book h) where
  nodup := nodup_shown hids
  pairwise o := by
    have hshown := mem_shown (d := o) hids
    rw [shown] at hshown
    rw [hshown, owes_book hD]
    constructor
    · rintro ⟨_, hpos, hamount⟩
      exact ⟨hpos, hamount⟩
    · rintro ⟨hpos, hamount⟩
      refine ⟨fun heq => ?_, hpos, hamount⟩
      rw [heq, owes_self] at hamount
      exact hpos.ne' hamount
  net u := by rw [netFor_computeBalances hids, net_book hD]

end shows

/-! ## Section 3: What changes the book -/

section changes

variable {k : Uuid}

theorem amountOf_congr (hD : d.Slots) (hD' : d'.Slots) (hs : SameExpense e d d') (u : Uuid) :
    d'.amountOf e u = d.amountOf e u := by
  by_cases hu : d.hasSplit e u = true
  · obtain ⟨rid, s, hsplit, rfl, rfl⟩ := hasSplit_iff.mp hu
    rw [amountOf_split hD hsplit, amountOf_split hD' ((hs.splits rid s rfl).mpr hsplit)]
  · have hu' : d'.hasSplit e u = false := by
      rw [Bool.eq_false_iff]
      intro hu'
      obtain ⟨rid, s, hsplit, he, rfl⟩ := hasSplit_iff.mp hu'
      exact hu (hasSplit_iff.mpr ⟨rid, s, (hs.splits rid s he).mp hsplit, he, rfl⟩)
    rw [amountOf_none (Bool.eq_false_iff.mpr hu), amountOf_none hu']

theorem sharesOf_congr (hD : d.Slots) (hD' : d'.Slots) (hs : SameExpense e d d') :
    d'.sharesOf e = d.sharesOf e := Finsupp.ext fun u => amountOf_congr hD hD' hs u

/-- What the expense adds to the book as it stands. -/
noncomputable def Db.expensePart (d : Db) (k e : Uuid) : Book Uuid ℤ :=
  Table.part d.expenses (fun e row => row.entered k (d.sharesOf e)) e

theorem expensePart_of_row {row : Expense} (hrow : d.expenses.lookup e = some row) (k : Uuid) :
    d.expensePart k e = row.entered k (d.sharesOf e) := by
  rw [Db.expensePart, Table.part, hrow]
  rfl

theorem expensePart_none (hrow : d.expenses.lookup e = none) (k : Uuid) : d.expensePart k e = 0 := by
  rw [Db.expensePart, Table.part, hrow]
  rfl

theorem expensePart_congr (hD : d.Slots) (hD' : d'.Slots) (hs : SameExpense e d d') (k : Uuid) :
    d'.expensePart k e = d.expensePart k e := by
  simp only [Db.expensePart, Table.part, hs.row, sharesOf_congr hD hD' hs]

/-- One expense changes. -/
theorem expenseBook_change (hD : d.Slots) (hD' : d'.Slots) (hs : ∀ e', e' ≠ e → SameExpense e' d d') (k : Uuid) :
    d'.expenseBook k = d.expenseBook k - d.expensePart k e + d'.expensePart k e :=
  Table.sumRows_change e fun e' hne => expensePart_congr hD hD' (hs e' hne) k

/-- The expenses are the same. -/
theorem expenseBook_same (hx : d'.expenses = d.expenses) (hs : d'.expenseSplits = d.expenseSplits) (k : Uuid) :
    d'.expenseBook k = d.expenseBook k := by
  have hshares : d'.sharesOf = d.sharesOf := by
    funext e
    refine Finsupp.ext fun u => ?_
    simp only [sharesOf_apply, Db.amountOf, Db.splitsOf, Db.splitRows, hs]
  rw [Db.expenseBook, Db.expenseBook, hx, hshares]

theorem paymentBook_same (hp : d'.payments = d.payments) (k : Uuid) : d'.paymentBook k = d.paymentBook k := by
  rw [Db.paymentBook, Db.paymentBook, hp]

noncomputable def Db.paymentPart (d : Db) (k p : Uuid) : Book Uuid ℤ :=
  Table.part d.payments (fun _ r => r.entered k) p

/-- One payment changes. -/
theorem paymentBook_change (hp : ∀ q, q ≠ p → d'.payments.lookup q = d.payments.lookup q) (k : Uuid) :
    d'.paymentBook k = d.paymentBook k - d.paymentPart k p + d'.paymentPart k p :=
  Table.sumRows_change p fun q hne => by rw [Table.part, Table.part, hp q hne]

end changes

/-! ## Section 4: Claims -/

section claims

variable {tx : DbTx} {k : Uuid}

/-- A fold that is due is done. -/
theorem Reidentified.folded (hA : Reidentified True False h p c tx d) (hp : People env d) (hk : Bookings env d)
    {rid rid' : Rid} {mine theirs : Split} (hpair : FoldPair p c d rid rid' mine theirs) :
    splitEdit tx rid ≠ none := by
  obtain ⟨hswept, _⟩ := hA.sweeps (hA.locked.ne hp hA.account) hpair
  obtain ⟨rid₁, mine₁, hpair₁, hne⟩ := hA.paid (Or.inl trivial) rid' theirs hswept hpair.theirsRow
  have hrid : rid₁ = rid := hk.slot rid₁ rid mine₁ mine hpair₁.mineRow hpair.mineRow
    (hpair₁.expense.symm.trans hpair.expense) (hpair₁.claimer.trans hpair.claimer.symm)
  rwa [hrid] at hne

/-- A claim whose fold saw what its delete takes does what it would do alone. -/
theorem Reidentified.takenOver (hA : Reidentified True False h p c tx d) (hp : People env d)
    (hk : Bookings env d) : TakenOver p c d (tx.commit d) := by
  have hcp := hA.locked.ne hp hA.account
  have htaken : ∀ s s', TakenFrom p c d s s' → claimedSplit p c d s = some s' :=
    fun s s' => (claimedSplit_iff (Ne.symm hcp)).mpr
  intro rid
  cases hA.row rid with
  | kept hedit hnew _ =>
    rw [hnew]
    cases hrow : d.split rid with
    | none => rfl
    | some s =>
      have hplace : s.userId ≠ p := fun hu => hA.done rid s hrow hu hedit
      refine (htaken s s ?_).symm
      by_cases hc : s.userId = c
      · -- the placeholder has no split there, or this row would have grown
        have hnone : d.amountOf s.expenseId p = 0 := by
          refine amountOf_none (Bool.eq_false_iff.mpr fun hhas => ?_)
          obtain ⟨rid', theirs, htheirs, he, hu⟩ := hasSplit_iff.mp hhas
          exact hA.folded hp hk ⟨hrow, htheirs, he, hc, hu⟩ hedit
        exact .claimer hc (by rw [hnone, add_zero])
      · exact .other hplace hc rfl
  | folded rid' mine theirs hpair hlook =>
    rw [Db.split_eq_some.mpr hlook, hpair.mineRow]
    refine (htaken mine _ (.claimer hpair.claimer ?_)).symm
    rw [← amountOf_split hk.slots hpair.theirsRow, hpair.expense, hpair.placeholder]
  | swept theirs hold hplace hedit hlook =>
    obtain ⟨rid', mine, hpair, _⟩ := hA.paid (Or.inl trivial) rid theirs hedit hold
    have hhas : d.hasSplit theirs.expenseId c = true :=
      hasSplit_iff.mpr ⟨rid', mine, hpair.mineRow, hpair.expense.symm, hpair.claimer⟩
    have hgone : (tx.commit d).split rid = none := by
      rw [Db.split, hlook]
      rfl
    rw [hgone, hold, Option.bind_some, claimedSplit, sweptSplit, if_pos ⟨hplace, hhas⟩]
    rfl
  | renamed s hs hlook =>
    rw [Db.split_eq_some.mpr hlook, hs.split]
    refine (htaken s _ (.placeholder hs.user (Bool.eq_false_iff.mpr fun hhas => ?_) rfl)).symm
    obtain ⟨rid', s', hs', he, hu⟩ := hasSplit_iff.mp hhas
    exact hs.alone rid' s' hs' he hu

/-- Who takes the place of whom. -/
def claiming (p c : Uuid) : Uuid → Uuid := Function.update id p c

theorem TakenOver.sharesOf (hT : TakenOver p c d d') (hD : d.Slots) (hpc : p ≠ c) (e : Uuid) :
    d'.sharesOf e = (d.sharesOf e).mapDomain (claiming p c) := by
  refine Finsupp.ext fun u => ?_
  rw [claiming, Debts.mapDomain_update hpc]
  simp only [sharesOf_apply]
  by_cases hp : u = p
  · rw [if_pos hp, hp]
    exact amountOf_none (hT.gone hpc)
  · rw [if_neg hp]
    by_cases hc : u = c
    · rw [if_pos hc, hc]
      exact hT.amountOf_claimer hD hpc
    · rw [if_neg hc]
      exact hT.amountOf_other hD hpc hp hc

theorem claiming_of_ne (hu : u ≠ p) : claiming p c u = u := by
  rw [claiming, Function.update_of_ne hu]
  rfl

/-- The book of the house of the claim: its debts with the claimer in the
    place of the placeholder, who paid for nothing. -/
theorem TakenOver.expenseBook (hT : TakenOver p c d d') (hD : d.Slots) (hpc : p ≠ c)
    (hx : d'.expenses = d.expenses) (hpayer : ∀ e row, d.expenses.lookup e = some row → row.paidBy ≠ p) (k : Uuid) :
    d'.expenseBook k = Debts.rename (claiming p c) (d.expenseBook k) := by
  refine Table.sumRows_map _ fun e => ?_
  simp only [Table.part, hx]
  cases hrow : d.expenses.lookup e with
  | none => exact (map_zero _).symm
  | some row =>
    show row.entered k (d'.sharesOf e) = Debts.rename (claiming p c) (row.entered k (d.sharesOf e))
    unfold Expense.entered
    split
    · rw [Debts.rename_spread, claiming_of_ne (hpayer e row hrow), hT.sharesOf hD hpc]
    · exact (map_zero _).symm

theorem paymentBook_claimed (hparty : ∀ q r, d.payments.lookup q = some r → r.fromUser ≠ p ∧ r.toUser ≠ p)
    (k : Uuid) : d.paymentBook k = Debts.rename (claiming p c) (d.paymentBook k) := by
  refine Table.sumRows_map _ fun q => ?_
  unfold Table.part
  cases hrow : d.payments.lookup q with
  | none => exact (map_zero _).symm
  | some r =>
    obtain ⟨hfrom, hto⟩ := hparty q r hrow
    show r.entered k = Debts.rename (claiming p c) (r.entered k)
    unfold Payment.entered
    split
    · rw [Debts.rename_debt, claiming_of_ne hfrom, claiming_of_ne hto]
    · exact (map_zero _).symm

/-- The book of another house, where the placeholder has no split. -/
theorem TakenOver.expenseBook_other (hT : TakenOver p c d d') (hD : d.Slots) (hpc : p ≠ c)
    (hx : d'.expenses = d.expenses) {k : Uuid}
    (hno : ∀ e row, d.expenses.lookup e = some row → row.houseId = k → d.hasSplit e p = false) :
    d'.expenseBook k = d.expenseBook k := by
  have hpart : ∀ e, d'.expensePart k e = AddMonoidHom.id (Book Uuid ℤ) (d.expensePart k e) := by
    intro e
    cases hrow : d.expenses.lookup e with
    | none => rw [expensePart_none (hx ▸ hrow), expensePart_none hrow, map_zero]
    | some row =>
      rw [expensePart_of_row (hx ▸ hrow), expensePart_of_row hrow, AddMonoidHom.id_apply]
      unfold Expense.entered
      split
      · next hlive =>
        have hzero : d.sharesOf e p = 0 := amountOf_none (hno e row hrow hlive.1)
        rw [hT.sharesOf hD hpc, claiming, Debts.mapDomain_update_of_zero hpc hzero]
      · rfl
  exact Table.sumRows_map (AddMonoidHom.id (Book Uuid ℤ)) hpart

end claims

/-! ## Section 5: Entries -/

/-- The books of all houses. -/
noncomputable def Db.books (d : Db) : Uuid → Book Uuid ℤ := fun h => d.book h

/-- From one database to the other the line is entered. -/
def Lined (d d' : Db) (line : Option (Uuid × Debts.Entry Uuid ℤ)) : Prop :=
  d'.books = Debts.postLine d.books line

section entries

variable {tx : DbTx} {k : Uuid} {row old : Expense} {splits : Splits JsString} {dead : List Rid}
  {new : List (Rid × Split)}

/-- Other expenses stay as they are. -/
theorem Rebooking.same (hb : Rebooking env h e row splits dead new tx d) (hnd : (new.map Prod.fst).Nodup)
    (hnew : new.map Prod.snd = splitRowsFor e splits) {e' : Uuid} (hne : e' ≠ e) :
    SameExpense e' d (tx.commit d) where
  row := by rw [hb.commit_expense, if_neg (Ne.symm hne)]
  splits rid s hs := by
    rw [hb.split_iff hnd]
    constructor
    · rintro (hmem | ⟨hold, _⟩)
      · exact absurd (hs.symm.trans (hb.newSplit hnew hmem).expense) hne
      · exact hold
    · exact fun hold => Or.inr ⟨hold, hs ▸ hne⟩

theorem lined_none (hx : d'.expenses = d.expenses) (hs : d'.expenseSplits = d.expenseSplits)
    (hp : d'.payments = d.payments) : Lined d d' none := by
  funext k
  show d'.book k = d.book k
  rw [Db.book, Db.book, expenseBook_same hx hs, paymentBook_same hp]

theorem lined_of {entry : Debts.Entry Uuid ℤ} (hother : ∀ k, k ≠ h → d'.book k = d.book k)
    (hown : d'.book h = entry.post (d.book h)) : Lined d d' (some (h, entry)) := by
  funext k
  show d'.book k = Function.update d.books h (entry.post (d.book h)) k
  by_cases hk : k = h
  · rw [hk, Function.update_self, hown]
  · rw [Function.update_of_ne hk]
    exact hother k hk

/-- One expense and its splits change, and nothing else. -/
structure OneExpense (e : Uuid) (d d' : Db) : Prop where
  slots : d.Slots
  slots' : d'.Slots
  same : ∀ e', e' ≠ e → SameExpense e' d d'
  payments : d'.payments = d.payments

theorem OneExpense.book (hone : OneExpense e d d') (k : Uuid) :
    d'.book k = d.book k - d.expensePart k e + d'.expensePart k e := by
  rw [Db.book, Db.book, expenseBook_change hone.slots hone.slots' hone.same k, paymentBook_same hone.payments]
  abel

theorem entered_other {shares : Uuid →₀ ℤ} (hk : k ≠ row.houseId) : row.entered k shares = 0 :=
  if_neg fun hx => hk hx.1.symm

theorem entered_own {shares : Uuid →₀ ℤ} (hlive : row.deletedAt = none) :
    row.entered row.houseId shares = spread row.paidBy shares := if_pos ⟨rfl, hlive⟩

theorem lined_spend (hone : OneExpense e d d') (hold : d.expenses.lookup e = none)
    (hrow : d'.expenses.lookup e = some row) (hlive : row.deletedAt = none) :
    Lined d d' (some (row.houseId, .spend row.paidBy (d'.sharesOf e))) := by
  refine lined_of (fun k hk => ?_) ?_
  · rw [hone.book, expensePart_none hold, expensePart_of_row hrow, entered_other hk, sub_zero, add_zero]
  · rw [hone.book, expensePart_none hold, expensePart_of_row hrow, entered_own hlive, sub_zero]
    rfl

theorem lined_correct (hone : OneExpense e d d') (hold : d.expenses.lookup e = some old)
    (hrow : d'.expenses.lookup e = some row) (hhouse : row.houseId = old.houseId) (hlive : old.deletedAt = none)
    (hlive' : row.deletedAt = none) :
    Lined d d' (some (old.houseId, .correct old.paidBy (d.sharesOf e) row.paidBy (d'.sharesOf e))) := by
  refine lined_of (fun k hk => ?_) ?_
  · rw [hone.book, expensePart_of_row hold, expensePart_of_row hrow, entered_other hk,
      entered_other (hhouse ▸ hk), sub_zero, add_zero]
  · rw [hone.book, expensePart_of_row hold, expensePart_of_row hrow, entered_own hlive, ← hhouse,
      entered_own hlive']
    rfl

/-- One payment changes, and nothing else. -/
structure OnePayment (p : Uuid) (d d' : Db) : Prop where
  expenses : d'.expenses = d.expenses
  expenseSplits : d'.expenseSplits = d.expenseSplits
  same : ∀ q, q ≠ p → d'.payments.lookup q = d.payments.lookup q

theorem OnePayment.book (hone : OnePayment p d d') (k : Uuid) :
    d'.book k = d.book k - d.paymentPart k p + d'.paymentPart k p := by
  rw [Db.book, Db.book, expenseBook_same hone.expenses hone.expenseSplits, paymentBook_change hone.same]
  abel

theorem paymentPart_of_row {r : Payment} (hr : d.payments.lookup p = some r) (k : Uuid) :
    d.paymentPart k p = r.entered k := by
  rw [Db.paymentPart, Table.part, hr]
  rfl

theorem paymentPart_none (hr : d.payments.lookup p = none) (k : Uuid) : d.paymentPart k p = 0 := by
  rw [Db.paymentPart, Table.part, hr]
  rfl

theorem payment_other {r : Payment} (hk : k ≠ r.houseId) : r.entered k = 0 := if_neg fun hx => hk hx.1.symm

theorem payment_own {r : Payment} (hr : r.status ≠ .disputed) :
    r.entered r.houseId = debt r.toUser r.fromUser r.amountCents := if_pos ⟨rfl, hr⟩

theorem payment_disputed {r : Payment} (hr : r.status = .disputed) : r.entered k = 0 := if_neg fun hx => hx.2 hr

variable {r r' : Payment}

/-- A payment starts to count. -/
theorem lined_pay (hone : OnePayment p d d')
    (hold : d.payments.lookup p = none ∨ ∃ r, d.payments.lookup p = some r ∧ r.status = .disputed)
    (hrow : d'.payments.lookup p = some r') (hr' : r'.status ≠ .disputed) :
    Lined d d' (some (r'.houseId, .pay r'.fromUser r'.toUser r'.amountCents)) := by
  have hzero : ∀ k, d.paymentPart k p = 0 := by
    intro k
    rcases hold with hnone | ⟨r, hr, hst⟩
    · exact paymentPart_none hnone k
    · rw [paymentPart_of_row hr, payment_disputed hst]
  refine lined_of (fun k hk => ?_) ?_
  · rw [hone.book, hzero, paymentPart_of_row hrow, payment_other hk, sub_zero, add_zero]
  · rw [hone.book, hzero, paymentPart_of_row hrow, payment_own hr', sub_zero]
    rfl

/-- A payment no longer counts. -/
theorem lined_takeBack (hone : OnePayment p d d') (hold : d.payments.lookup p = some r)
    (hr : r.status ≠ .disputed) (hrow : d'.payments.lookup p = some r') (hr' : r'.status = .disputed) :
    Lined d d' (some (r.houseId, .takeBack r.fromUser r.toUser r.amountCents)) := by
  refine lined_of (fun k hk => ?_) ?_
  · rw [hone.book, paymentPart_of_row hold, paymentPart_of_row hrow, payment_other hk,
      payment_disputed hr', sub_zero, add_zero]
  · rw [hone.book, paymentPart_of_row hold, paymentPart_of_row hrow, payment_own hr,
      payment_disputed hr', add_zero]
    rfl

/-- The placeholder of a claim moved no money, and has splits in its house
    only. -/
structure OnlyOwes (h p : Uuid) (d : Db) : Prop where
  payer : ∀ e row, d.expenses.lookup e = some row → row.paidBy ≠ p
  party : ∀ q r, d.payments.lookup q = some r → r.fromUser ≠ p ∧ r.toUser ≠ p
  home : ∀ e row, d.expenses.lookup e = some row → row.houseId ≠ h → d.hasSplit e p = false

theorem lined_become (hT : TakenOver p c d d') (hD : d.Slots) (hpc : p ≠ c) (hx : d'.expenses = d.expenses)
    (hp : d'.payments = d.payments) (howes : OnlyOwes h p d) : Lined d d' (some (h, .become p c)) := by
  refine lined_of (fun k hk => ?_) ?_
  · rw [Db.book, Db.book, paymentBook_same hp, hT.expenseBook_other hD hpc hx]
    exact fun e row hrow hhouse => howes.home e row hrow (hhouse ▸ hk)
  · show d'.book h = Debts.rename (claiming p c) (d.book h)
    rw [Db.book, Db.book, map_add, paymentBook_same hp, hT.expenseBook hD hpc hx howes.payer,
      ← paymentBook_claimed howes.party]

end entries

end Homi
