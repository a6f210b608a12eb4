import Homi.Domain.Split
import Homi.Framework.JsString

/-! # Balances

  `packages/domain/src/money/balances.ts`: the one function that turns
  expenses and payments into who owes whom.

  The code keeps one signed number for each pair of users, under the key
  `"a|b"` with `a < b`, sorts the entries as strings and expands them into
  debts. Section 2 says what a balance is in accounting terms, and the
  sections after it lead from the pair map to that definition.
-/

/-! ## Section 1: The code -/

structure ExpenseRow where
  paidBy : JsString
  splits : Splits JsString

inductive PaymentStatus where
  | recorded
  | disputed
  | resolved
deriving DecidableEq, Repr

structure PaymentRow where
  fromUser : JsString
  toUser : JsString
  amountCents : ℤ
  status : PaymentStatus

/-- One entry of `pairwise`: `fromUser` owes `toUser`. -/
structure OwedPair where
  fromUser : JsString
  toUser : JsString
  amountCents : ℤ
deriving DecidableEq, Repr

structure Balances where
  net : Record JsString ℤ
  pairwise : List OwedPair

/-- `'|'`. -/
def bar : CodeUnit := 124

/-- `','`. -/
def comma : CodeUnit := 44

def addDebt (pair : Record JsString ℤ) (debtor creditor : JsString) (cents : ℤ) :
    Record JsString ℤ :=
  if debtor = creditor ∨ cents = 0 then pair
  else
    let (a, b) := if debtor < creditor then (debtor, creditor) else (creditor, debtor)
    let signed := if debtor = b then cents else -cents
    pair.credit (a ++ bar :: b) signed

def addExpense (pair : Record JsString ℤ) (e : ExpenseRow) : Record JsString ℤ :=
  e.splits.rows.foldl (fun pair (userId, cents) => addDebt pair userId e.paidBy cents) pair

def addPayment (pair : Record JsString ℤ) (p : PaymentRow) : Record JsString ℤ :=
  if p.status = .disputed then pair
  else addDebt pair p.toUser p.fromUser p.amountCents

/-- `String([key, value])`, by which `sort()` orders the entries. -/
def entryText (entry : JsString × ℤ) : JsString := entry.1 ++ comma :: JsString.decimal entry.2

/-- One round of the last loop. -/
def expand (balances : Balances) : JsString × ℤ → Balances
  | (key, value) =>
      if value = 0 then balances
      else
        let parts := JsString.split bar key
        let (a, b) := (parts.getD 0 [], parts.getD 1 [])
        let (fromUser, toUser, amountCents) := if 0 < value then (b, a, value) else (a, b, -value)
        { net := (balances.net.credit fromUser (-amountCents)).credit toUser amountCents
          pairwise := balances.pairwise ++ [⟨fromUser, toUser, amountCents⟩] }

def computeBalances (expenses : List ExpenseRow) (payments : List PaymentRow) : Balances :=
  let pair := payments.foldl addPayment (expenses.foldl addExpense ∅)
  (pair.rows.insertionSort fun e e' => entryText e ≤ entryText e').foldl expand ⟨∅, []⟩

/-! ## Section 2: The accounting definition -/

/-- The shares of `u` in expenses that `v` paid. -/
def sharesOwed (expenses : List ExpenseRow) (u v : JsString) : ℤ :=
  (expenses.map fun e => if e.paidBy = v then (e.splits.lookup u).getD 0 else 0).sum

/-- The payments from `u` to `v` that are not disputed. -/
def paymentsSent (payments : List PaymentRow) (u v : JsString) : ℤ :=
  (payments.map fun p =>
    if p.status ≠ .disputed ∧ p.fromUser = u ∧ p.toUser = v then p.amountCents else 0).sum

/-- All that flows from `u` to `v` on paper: shares `u` owes `v` and
    payments that `v` made to `u`. -/
def gross (expenses : List ExpenseRow) (payments : List PaymentRow) (u v : JsString) : ℤ :=
  sharesOwed expenses u v + paymentsSent payments v u

/-- What `u` owes `v` once both directions are set off. -/
def owes (expenses : List ExpenseRow) (payments : List PaymentRow) (u v : JsString) : ℤ :=
  gross expenses payments u v - gross expenses payments v u

/-- An expense with the total that is booked for it. -/
structure Booked where
  row : ExpenseRow
  amountCents : ℤ

/-- What the house owes `u`: totals paid less own shares, plus payments
    sent less payments received. -/
def netOf (expenses : List Booked) (payments : List PaymentRow) (u : JsString) : ℤ :=
  (expenses.map fun e => if e.row.paidBy = u then e.amountCents else 0).sum
    - (expenses.map fun e => (e.row.splits.lookup u).getD 0).sum
    + (payments.map fun p =>
        if p.status ≠ .disputed ∧ p.fromUser = u then p.amountCents else 0).sum
    - (payments.map fun p =>
        if p.status ≠ .disputed ∧ p.toUser = u then p.amountCents else 0).sum

/-- No user id has a `'|'`. -/
structure CleanIds (expenses : List ExpenseRow) (payments : List PaymentRow) : Prop where
  paidBy : ∀ e ∈ expenses, bar ∉ e.paidBy
  splits : ∀ e ∈ expenses, ∀ u ∈ e.splits, bar ∉ u
  fromUser : ∀ p ∈ payments, bar ∉ p.fromUser
  toUser : ∀ p ∈ payments, bar ∉ p.toUser

/-- The same rows in another order, with the keys of each splits record in
    another order. -/
structure SameRows (expenses expenses' : List ExpenseRow) (payments payments' : List PaymentRow) :
    Prop where
  expenses : ∃ es, expenses.Perm es ∧
    List.Forall₂ (fun e e' => e.paidBy = e'.paidBy ∧ e.splits.entries.Perm e'.splits.entries)
      es expenses'
  payments : payments.Perm payments'

/-! ## Section 3: The pair map -/

/-- One call of `addDebt`. -/
structure Debt where
  debtor : JsString
  creditor : JsString
  cents : ℤ

/-- The calls that `computeBalances` makes for an expense. -/
def ExpenseRow.debts (e : ExpenseRow) : List Debt := e.splits.rows.map fun r => ⟨r.1, e.paidBy, r.2⟩

/-- The calls that `computeBalances` makes for a payment. -/
def PaymentRow.debts (p : PaymentRow) : List Debt :=
  if p.status = .disputed then [] else [⟨p.toUser, p.fromUser, p.amountCents⟩]

def debtsOf (expenses : List ExpenseRow) (payments : List PaymentRow) : List Debt :=
  expenses.flatMap ExpenseRow.debts ++ payments.flatMap PaymentRow.debts

/-- `addDebt` drops debts of nothing and debts to oneself. -/
def Debt.Counts (o : Debt) : Prop := o.debtor ≠ o.creditor ∧ o.cents ≠ 0

instance (o : Debt) : Decidable o.Counts :=
  inferInstanceAs (Decidable (o.debtor ≠ o.creditor ∧ o.cents ≠ 0))

/-- The key of a pair, smaller id first. -/
def pairKey (u v : JsString) : JsString := if u < v then u ++ bar :: v else v ++ bar :: u

/-- What a debt adds under its key: the second id of the pair owes the first. -/
def Debt.signed (o : Debt) : ℤ := if o.debtor < o.creditor then -o.cents else o.cents

/-- One call of `addDebt` on a pair map. -/
def Debt.post (pair : Record JsString ℤ) (o : Debt) : Record JsString ℤ :=
  addDebt pair o.debtor o.creditor o.cents

theorem Debt.post_eq (pair : Record JsString ℤ) (o : Debt) :
    o.post pair = if o.Counts then pair.credit (pairKey o.debtor o.creditor) o.signed else pair := by
  unfold Debt.post addDebt Debt.Counts pairKey Debt.signed
  by_cases hsame : o.debtor = o.creditor
  · simp [hsame]
  by_cases hzero : o.cents = 0
  · simp [hzero]
  by_cases hlt : o.debtor < o.creditor
  · simp [hlt, hsame, hzero]
  · simp [hlt, hsame, hzero]

theorem pairs_eq (expenses : List ExpenseRow) (payments : List PaymentRow) :
    payments.foldl addPayment (expenses.foldl addExpense ∅) =
      (debtsOf expenses payments).foldl Debt.post ∅ := by
  have hexpense : ∀ pair e, addExpense pair e = e.debts.foldl Debt.post pair := by
    intro pair e
    simp only [addExpense, ExpenseRow.debts, List.foldl_map]
    rfl
  have hpayment : ∀ pair p, addPayment pair p = p.debts.foldl Debt.post pair := by
    intro pair p
    unfold addPayment PaymentRow.debts
    split <;> rfl
  have hexpenses : ∀ pair, expenses.foldl addExpense pair =
      (expenses.flatMap ExpenseRow.debts).foldl Debt.post pair := by
    intro pair
    rw [List.foldl_flatMap]
    congr 1
    funext pair e
    exact hexpense pair e
  have hpayments : ∀ pair, payments.foldl addPayment pair =
      (payments.flatMap PaymentRow.debts).foldl Debt.post pair := by
    intro pair
    rw [List.foldl_flatMap]
    congr 1
    funext pair p
    exact hpayment pair p
  rw [debtsOf, List.foldl_append, hexpenses, hpayments]

/-- The debts that touch the key `k`. -/
def touching (L : List Debt) (k : JsString) : List Debt :=
  L.filter fun o => decide (o.Counts ∧ pairKey o.debtor o.creditor = k)

theorem lookup_post (L : List Debt) (pair : Record JsString ℤ) (k : JsString) :
    (L.foldl Debt.post pair).lookup k =
      if touching L k = [] then pair.lookup k
      else some ((pair.lookup k).getD 0 + ((touching L k).map Debt.signed).sum) := by
  induction L generalizing pair with
  | nil => rfl
  | cons o L ih =>
    rw [List.foldl_cons, ih, Debt.post_eq]
    by_cases ho : o.Counts
    · by_cases hk : pairKey o.debtor o.creditor = k
      · subst hk
        have hcons : touching (o :: L) (pairKey o.debtor o.creditor) =
            o :: touching L (pairKey o.debtor o.creditor) := by simp [touching, ho]
        rw [hcons, if_pos ho, if_neg (List.cons_ne_nil _ _)]
        split
        · next hnil => simp [Record.credit, hnil]
        · simp [Record.credit, add_assoc]
      · have hcons : touching (o :: L) k = touching L k := by simp [touching, hk]
        rw [hcons, if_pos ho, Record.credit, AList.lookup_insert_ne (Ne.symm hk)]
    · have hcons : touching (o :: L) k = touching L k := by simp [touching, ho]
      rw [hcons, if_neg ho]

/-- The pair map of a list of debts. -/
def pairsOf (L : List Debt) : Record JsString ℤ := L.foldl Debt.post ∅

theorem lookup_pairsOf (L : List Debt) (k : JsString) :
    (pairsOf L).lookup k =
      if touching L k = [] then none else some ((touching L k).map Debt.signed).sum := by
  rw [pairsOf, lookup_post]
  simp

/-! ## Section 4: One pair -/

/-- What the debts of a list move from `u` to `v`. -/
def flow (L : List Debt) (u v : JsString) : ℤ :=
  (L.map fun o => if o.debtor = u ∧ o.creditor = v then o.cents else 0).sum

/-- No id of a list of debts has a `'|'`. -/
def CleanDebts (L : List Debt) : Prop := ∀ o ∈ L, bar ∉ o.debtor ∧ bar ∉ o.creditor

theorem pairKey_of_lt {u v : JsString} (h : u < v) : pairKey u v = u ++ bar :: v := if_pos h

theorem pairKey_comm {u v : JsString} (h : u ≠ v) : pairKey u v = pairKey v u := by
  unfold pairKey
  rcases lt_or_gt_of_ne h with hlt | hgt
  · rw [if_pos hlt, if_neg (not_lt_of_gt hlt)]
  · rw [if_neg (not_lt_of_gt hgt), if_pos hgt]

theorem split_key {u v : JsString} (hu : bar ∉ u) (hv : bar ∉ v) :
    JsString.split bar (u ++ bar :: v) = [u, v] := by
  rw [JsString.split_append hu, JsString.split_of_notMem hv]

theorem key_inj {u v u' v' : JsString} (hu : bar ∉ u) (hv : bar ∉ v) (hu' : bar ∉ u')
    (hv' : bar ∉ v') (h : u ++ bar :: v = u' ++ bar :: v') : u = u' ∧ v = v' := by
  have hsplit := congrArg (JsString.split bar) h
  rw [split_key hu hv, split_key hu' hv'] at hsplit
  simpa using hsplit

/-- Two ids with the key of `u < v` are `u` and `v`. -/
theorem pairKey_eq {x y u v : JsString} (hx : bar ∉ x) (hy : bar ∉ y) (hu : bar ∉ u)
    (hv : bar ∉ v) (hlt : u < v) (h : pairKey x y = u ++ bar :: v) :
    (x = u ∧ y = v ∧ x < y) ∨ (x = v ∧ y = u ∧ ¬ x < y) := by
  unfold pairKey at h
  split at h
  · next hxy =>
    obtain ⟨rfl, rfl⟩ := key_inj hx hy hu hv h
    exact Or.inl ⟨rfl, rfl, hxy⟩
  · next hxy =>
    obtain ⟨rfl, rfl⟩ := key_inj hy hx hu hv h
    exact Or.inr ⟨rfl, rfl, hxy⟩

/-- The number kept for a pair is what the second id owes the first. -/
theorem touching_sum {L : List Debt} (hL : CleanDebts L) {u v : JsString} (hu : bar ∉ u)
    (hv : bar ∉ v) (hlt : u < v) :
    ((touching L (u ++ bar :: v)).map Debt.signed).sum = flow L v u - flow L u v := by
  induction L with
  | nil => rfl
  | cons o L ih =>
    have ih := ih fun o' ho' => hL o' (List.mem_cons_of_mem _ ho')
    obtain ⟨hd, hc⟩ := hL o (List.mem_cons_self ..)
    have hne := hlt.ne
    have hflow : ∀ x y, flow (o :: L) x y =
        (if o.debtor = x ∧ o.creditor = y then o.cents else 0) + flow L x y := fun _ _ => rfl
    by_cases ho : o.Counts ∧ pairKey o.debtor o.creditor = u ++ bar :: v
    · have hcons : touching (o :: L) (u ++ bar :: v) = o :: touching L (u ++ bar :: v) := by
        simp [touching, ho]
      rw [hcons, List.map_cons, List.sum_cons, ih, hflow, hflow]
      rcases pairKey_eq hd hc hu hv hlt ho.2 with ⟨hdu, hcv, hord⟩ | ⟨hdv, hcu, hord⟩
      · have hsigned : o.signed = -o.cents := if_pos hord
        rw [hsigned, if_neg (fun h => hne (hdu.symm.trans h.1)), if_pos ⟨hdu, hcv⟩]
        omega
      · have hsigned : o.signed = o.cents := if_neg hord
        rw [hsigned, if_pos ⟨hdv, hcu⟩, if_neg (fun h => hne (h.1.symm.trans hdv))]
        omega
    · have hcons : touching (o :: L) (u ++ bar :: v) = touching L (u ++ bar :: v) := by
        simp only [touching, List.filter_cons, ho, decide_false, Bool.false_eq_true, if_false]
      have hnone : ∀ x y, x ≠ y → pairKey x y = u ++ bar :: v →
          (if o.debtor = x ∧ o.creditor = y then o.cents else 0) = 0 := by
        intro x y hxy hkey
        split
        · next hboth =>
          obtain ⟨rfl, rfl⟩ := hboth
          by_contra hcents
          exact ho ⟨⟨hxy, hcents⟩, hkey⟩
        · rfl
      have hkey := pairKey_of_lt hlt
      rw [hcons, ih, hflow, hflow, hnone v u hne.symm (by rw [pairKey_comm hne.symm, hkey]),
        hnone u v hne hkey]
      omega

theorem exists_of_flow {L : List Debt} {u v : JsString} (h : flow L u v ≠ 0) :
    ∃ o ∈ L, o.debtor = u ∧ o.creditor = v := by
  by_contra hno
  refine h (List.sum_eq_zero ?_)
  intro x hx
  obtain ⟨o, ho, rfl⟩ := List.mem_map.mp hx
  exact if_neg fun hboth => hno ⟨o, ho, hboth⟩

/-- The entries of the pair map. -/
theorem mem_pairsOf {L : List Debt} (hL : CleanDebts L) {k : JsString} {x : ℤ}
    (h : (k, x) ∈ (pairsOf L).rows) :
    ∃ u v, u < v ∧ bar ∉ u ∧ bar ∉ v ∧ k = u ++ bar :: v ∧ x = flow L v u - flow L u v := by
  rw [Table.mem_rows, lookup_pairsOf] at h
  split at h
  · cases h
  · next hne =>
    obtain ⟨o, ho⟩ := List.exists_mem_of_ne_nil _ hne
    obtain ⟨hmem, hdec⟩ := List.mem_filter.mp ho
    obtain ⟨⟨hdc, _⟩, hkey⟩ := of_decide_eq_true hdec
    obtain ⟨hd, hc⟩ := hL o hmem
    rcases lt_or_gt_of_ne hdc with hlt | hgt
    · rw [pairKey_of_lt hlt] at hkey
      subst hkey
      refine ⟨_, _, hlt, hd, hc, rfl, ?_⟩
      rw [touching_sum hL hd hc hlt] at h
      exact (Option.some.inj h).symm
    · rw [pairKey_comm hdc, pairKey_of_lt hgt] at hkey
      subst hkey
      refine ⟨_, _, hgt, hc, hd, rfl, ?_⟩
      rw [touching_sum hL hc hd hgt] at h
      exact (Option.some.inj h).symm

theorem pairsOf_of_flow {L : List Debt} (hL : CleanDebts L) {u v : JsString} (hu : bar ∉ u)
    (hv : bar ∉ v) (hlt : u < v) (h : flow L v u - flow L u v ≠ 0) :
    (u ++ bar :: v, flow L v u - flow L u v) ∈ (pairsOf L).rows := by
  rw [Table.mem_rows, lookup_pairsOf]
  have hsum := touching_sum hL hu hv hlt
  split
  · next hnil =>
    rw [hnil] at hsum
    exact absurd hsum.symm h
  · rw [hsum]

/-! ## Section 5: From pairs to debts -/

/-- The debt an entry expands to. -/
def owedPair (entry : JsString × ℤ) : Option OwedPair :=
  let parts := JsString.split bar entry.1
  if entry.2 = 0 then none
  else if 0 < entry.2 then some ⟨parts.getD 1 [], parts.getD 0 [], entry.2⟩
  else some ⟨parts.getD 0 [], parts.getD 1 [], -entry.2⟩

/-- The two assignments to `net` for one debt. -/
def OwedPair.book (net : Record JsString ℤ) (d : OwedPair) : Record JsString ℤ :=
  (net.credit d.fromUser (-d.amountCents)).credit d.toUser d.amountCents

/-- What a debt adds to the net of `u`. -/
def OwedPair.toNet (u : JsString) (d : OwedPair) : ℤ :=
  (if d.toUser = u then d.amountCents else 0) - (if d.fromUser = u then d.amountCents else 0)

theorem expand_eq (balances : Balances) (entry : JsString × ℤ) :
    expand balances entry = match owedPair entry with
      | none => balances
      | some d => ⟨d.book balances.net, balances.pairwise ++ [d]⟩ := by
  obtain ⟨key, value⟩ := entry
  unfold expand owedPair
  by_cases hzero : value = 0
  · simp [hzero]
  · by_cases hpos : 0 < value
    · simp [hzero, hpos, OwedPair.book]
    · simp [hzero, hpos, OwedPair.book]

theorem foldl_expand (entries : List (JsString × ℤ)) (balances : Balances) :
    entries.foldl expand balances =
      ⟨(entries.filterMap owedPair).foldl OwedPair.book balances.net,
        balances.pairwise ++ entries.filterMap owedPair⟩ := by
  induction entries generalizing balances with
  | nil => simp
  | cons entry entries ih =>
    rw [List.foldl_cons, ih, expand_eq]
    cases h : owedPair entry with
    | none => simp [h]
    | some d => simp [h]

/-- The entries of a pair map in the order of their texts. -/
def sortedEntries (pairs : Record JsString ℤ) : List (JsString × ℤ) :=
  pairs.rows.insertionSort fun e e' => entryText e ≤ entryText e'

/-- The debts of a pair map. -/
def owedPairs (pairs : Record JsString ℤ) : List OwedPair :=
  (sortedEntries pairs).filterMap owedPair

theorem computeBalances_eq (expenses : List ExpenseRow) (payments : List PaymentRow) :
    computeBalances expenses payments =
      ⟨(owedPairs (pairsOf (debtsOf expenses payments))).foldl OwedPair.book ∅,
        owedPairs (pairsOf (debtsOf expenses payments))⟩ := by
  show (sortedEntries (payments.foldl addPayment (expenses.foldl addExpense ∅))).foldl expand
    ⟨∅, []⟩ = _
  rw [foldl_expand, pairs_eq]
  rfl

theorem mem_owedPairs {pairs : Record JsString ℤ} {d : OwedPair} :
    d ∈ owedPairs pairs ↔ ∃ entry ∈ pairs.rows, owedPair entry = some d := by
  have hperm := List.perm_insertionSort (fun e e' => entryText e ≤ entryText e') pairs.rows
  rw [owedPairs, List.mem_filterMap]
  constructor
  · rintro ⟨entry, hmem, h⟩
    exact ⟨entry, hperm.subset hmem, h⟩
  · rintro ⟨entry, hmem, h⟩
    exact ⟨entry, hperm.symm.subset hmem, h⟩

/-- Every debt of a clean pair map is what one side owes the other. -/
theorem mem_owedPairs_iff {L : List Debt} (hL : CleanDebts L) {d : OwedPair} :
    d ∈ owedPairs (pairsOf L) ↔ d.fromUser ≠ d.toUser ∧ 0 < d.amountCents ∧
      d.amountCents = flow L d.fromUser d.toUser - flow L d.toUser d.fromUser := by
  rw [mem_owedPairs]
  constructor
  · rintro ⟨⟨k, x⟩, hmem, hd⟩
    obtain ⟨u, v, hlt, hu, hv, rfl, rfl⟩ := mem_pairsOf hL hmem
    unfold owedPair at hd
    simp only [split_key hu hv, List.getD_cons_zero, List.getD_cons_succ] at hd
    split at hd
    · cases hd
    · split at hd
      · next hpos => cases hd; exact ⟨hlt.ne', hpos, rfl⟩
      · next hne hpos =>
        cases hd
        refine ⟨hlt.ne, ?_, ?_⟩
        · show 0 < -(flow L v u - flow L u v)
          omega
        · show -(flow L v u - flow L u v) = flow L u v - flow L v u
          omega
  · rintro ⟨hne, hpos, hd⟩
    have hids : bar ∉ d.fromUser ∧ bar ∉ d.toUser := by
      by_cases hfl : flow L d.fromUser d.toUser = 0
      · obtain ⟨o, ho, h1, h2⟩ :=
          exists_of_flow (by omega : flow L d.toUser d.fromUser ≠ 0)
        rw [← h1, ← h2]
        exact (hL o ho).symm
      · obtain ⟨o, ho, h1, h2⟩ := exists_of_flow hfl
        rw [← h1, ← h2]
        exact hL o ho
    obtain ⟨hf, ht⟩ := hids
    rcases lt_or_gt_of_ne hne with hlt | hgt
    · have hneg : flow L d.toUser d.fromUser - flow L d.fromUser d.toUser = -d.amountCents := by
        omega
      refine ⟨_, pairsOf_of_flow hL hf ht hlt (by omega), ?_⟩
      simp only [owedPair, split_key hf ht, List.getD_cons_zero, List.getD_cons_succ, hneg]
      rw [if_neg (by omega), if_neg (by omega), neg_neg]
    · refine ⟨_, pairsOf_of_flow hL ht hf hgt (by omega), ?_⟩
      simp only [owedPair, split_key ht hf, List.getD_cons_zero, List.getD_cons_succ, ← hd]
      rw [if_neg (by omega), if_pos hpos]

/-- The key of the entry a debt comes from. -/
theorem pairKey_of_owedPair {L : List Debt} (hL : CleanDebts L) {entry : JsString × ℤ}
    (hmem : entry ∈ (pairsOf L).rows) {d : OwedPair} (hd : owedPair entry = some d) :
    pairKey d.fromUser d.toUser = entry.1 := by
  obtain ⟨k, x⟩ := entry
  obtain ⟨u, v, hlt, hu, hv, rfl, rfl⟩ := mem_pairsOf hL hmem
  unfold owedPair at hd
  simp only [split_key hu hv, List.getD_cons_zero, List.getD_cons_succ] at hd
  split at hd
  · cases hd
  · split at hd
    · cases hd; rw [pairKey_comm hlt.ne', pairKey_of_lt hlt]
    · cases hd; rw [pairKey_of_lt hlt]

/-- There is at most one debt for each unordered pair. -/
theorem owedPairs_distinct {L : List Debt} (hL : CleanDebts L) :
    (owedPairs (pairsOf L)).Pairwise fun d d' =>
      pairKey d.fromUser d.toUser ≠ pairKey d'.fromUser d'.toUser := by
  have hperm := List.perm_insertionSort (fun e e' => entryText e ≤ entryText e') (pairsOf L).rows
  have hnd : ((sortedEntries (pairsOf L)).map Prod.fst).Nodup :=
    ((hperm.map Prod.fst).nodup_iff).mpr (Table.nodup_keys_rows _)
  rw [owedPairs, List.pairwise_filterMap]
  refine (List.pairwise_map.mp hnd).imp_of_mem ?_
  intro entry entry' hmem hmem' hne d hd d' hd' hkey
  rw [pairKey_of_owedPair hL (hperm.subset hmem) hd,
    pairKey_of_owedPair hL (hperm.subset hmem') hd'] at hkey
  exact hne hkey

/-! ## Section 6: Nets -/

theorem lookup_credit (r : Record JsString ℤ) (u v : JsString) (cents : ℤ) :
    ((r.credit u cents).lookup v).getD 0 = (r.lookup v).getD 0 + if u = v then cents else 0 := by
  unfold Record.credit
  by_cases h : u = v
  · subst h; simp
  · simp [AList.lookup_insert_ne (Ne.symm h), h]

theorem total_credit (r : Record JsString ℤ) (c : JsString → ℤ) (u : JsString) (cents : ℤ) :
    Table.total (r.credit u cents) (fun k x => x * c k) =
      Table.total r (fun k x => x * c k) + cents * c u := by
  have hshare : Table.share r (fun k x => x * c k) u = (r.lookup u).getD 0 * c u := by
    unfold Table.share
    cases r.lookup u <;> simp
  rw [Record.credit, Table.total_insert, hshare]
  ring

/-- The net of `u` is the signed sum of the debts of `u`. -/
theorem lookup_book (D : List OwedPair) (net : Record JsString ℤ) (u : JsString) :
    ((D.foldl OwedPair.book net).lookup u).getD 0 =
      (net.lookup u).getD 0 + (D.map (OwedPair.toNet u)).sum := by
  induction D generalizing net with
  | nil => simp
  | cons d D ih =>
    rw [List.foldl_cons, ih, OwedPair.book, lookup_credit, lookup_credit, List.map_cons,
      List.sum_cons, OwedPair.toNet]
    by_cases hf : d.fromUser = u <;> by_cases ht : d.toUser = u <;> simp [hf, ht] <;> ring

/-- Nets sum to zero: each debt is booked on both sides. -/
theorem total_book (D : List OwedPair) (net : Record JsString ℤ) :
    Table.total (D.foldl OwedPair.book net) (fun _ x => x) = Table.total net (fun _ x => x) := by
  induction D generalizing net with
  | nil => rfl
  | cons d D ih =>
    have h1 := total_credit net (fun _ => 1) d.fromUser (-d.amountCents)
    have h2 := total_credit (net.credit d.fromUser (-d.amountCents)) (fun _ => 1) d.toUser
      d.amountCents
    simp only [mul_one] at h1 h2
    rw [List.foldl_cons, ih, OwedPair.book, h2, h1]
    ring

/-- How an entry under the key `k` counts for `u`. -/
def sideOf (u k : JsString) : ℤ :=
  (if (JsString.split bar k).getD 0 [] = u then 1 else 0)
    - (if (JsString.split bar k).getD 1 [] = u then 1 else 0)

theorem toNet_of_entry (u : JsString) (entry : JsString × ℤ) :
    (owedPair entry).elim 0 (OwedPair.toNet u) = entry.2 * sideOf u entry.1 := by
  unfold owedPair sideOf
  by_cases hzero : entry.2 = 0
  · simp [hzero]
  · by_cases hpos : 0 < entry.2
    · simp only [hzero, hpos, if_false, if_true, Option.elim_some, OwedPair.toNet]
      split <;> split <;> ring
    · simp only [hzero, hpos, if_false, Option.elim_some, OwedPair.toNet]
      split <;> split <;> ring

theorem sum_filterMap_toNet (u : JsString) (entries : List (JsString × ℤ)) :
    ((entries.filterMap owedPair).map (OwedPair.toNet u)).sum =
      (entries.map fun entry => entry.2 * sideOf u entry.1).sum := by
  induction entries with
  | nil => rfl
  | cons entry entries ih =>
    rw [List.map_cons, List.sum_cons, ← toNet_of_entry, ← ih]
    cases h : owedPair entry <;> simp [h]

/-- The debts of `u` add up to what the pair map keeps for `u`. -/
theorem sum_owedPairs (u : JsString) (pairs : Record JsString ℤ) :
    ((owedPairs pairs).map (OwedPair.toNet u)).sum =
      Table.total pairs fun k x => x * sideOf u k := by
  have hperm := List.perm_insertionSort (fun e e' => entryText e ≤ entryText e') pairs.rows
  rw [owedPairs, sum_filterMap_toNet, Table.total]
  exact (hperm.map _).sum_eq

/-- What a debt adds to the net of `u`. -/
def Debt.toNet (u : JsString) (o : Debt) : ℤ :=
  (if o.creditor = u then o.cents else 0) - (if o.debtor = u then o.cents else 0)

theorem total_post {pair : Record JsString ℤ} {o : Debt} (hd : bar ∉ o.debtor)
    (hc : bar ∉ o.creditor) (u : JsString) :
    Table.total (o.post pair) (fun k x => x * sideOf u k) =
      Table.total pair (fun k x => x * sideOf u k) + o.toNet u := by
  rw [Debt.post_eq]
  by_cases ho : o.Counts
  · rw [if_pos ho, total_credit]
    congr 1
    unfold pairKey Debt.signed sideOf Debt.toNet
    by_cases hlt : o.debtor < o.creditor
    · simp only [hlt, if_true, split_key hd hc, List.getD_cons_zero, List.getD_cons_succ]
      split <;> split <;> ring
    · simp only [hlt, if_false, split_key hc hd, List.getD_cons_zero, List.getD_cons_succ]
      split <;> split <;> ring
  · rw [if_neg ho]
    have hzero : o.toNet u = 0 := by
      unfold Debt.Counts at ho
      unfold Debt.toNet
      by_cases hsame : o.debtor = o.creditor
      · rw [hsame]; omega
      · have hcents : o.cents = 0 := by
          by_contra h
          exact ho ⟨hsame, h⟩
        simp [hcents]
    rw [hzero, add_zero]

theorem total_pairsOf {L : List Debt} (hL : CleanDebts L) (u : JsString) :
    Table.total (pairsOf L) (fun k x => x * sideOf u k) = (L.map (Debt.toNet u)).sum := by
  have hgen : ∀ pair, Table.total (L.foldl Debt.post pair) (fun k x => x * sideOf u k) =
      Table.total pair (fun k x => x * sideOf u k) + (L.map (Debt.toNet u)).sum := by
    induction L with
    | nil => intro pair; simp
    | cons o L ih =>
      intro pair
      obtain ⟨hd, hc⟩ := hL o (List.mem_cons_self ..)
      rw [List.foldl_cons, ih fun o' ho' => hL o' (List.mem_cons_of_mem _ ho'),
        total_post hd hc, List.map_cons, List.sum_cons]
      ring
  rw [pairsOf, hgen]
  simp [Table.total]

/-! ## Section 7: From rows to debts -/

theorem sum_flatMap {α β : Type} (l : List α) (f : α → List β) (g : β → ℤ) :
    ((l.flatMap f).map g).sum = (l.map fun a => ((f a).map g).sum).sum := by
  induction l with
  | nil => rfl
  | cons a l ih => simp [ih]

theorem sum_expense_flow (e : ExpenseRow) (u v : JsString) :
    (e.debts.map fun o => if o.debtor = u ∧ o.creditor = v then o.cents else 0).sum =
      if e.paidBy = v then (e.splits.lookup u).getD 0 else 0 := by
  have hrow : ∀ x : Option ℤ, x.elim 0 id = x.getD 0 := by
    intro x; cases x <;> rfl
  unfold ExpenseRow.debts
  rw [List.map_map]
  by_cases hv : e.paidBy = v
  · rw [if_pos hv, ← hrow, ← Table.total_single e.splits id u]
    simp [Table.total, Function.comp_def, hv]
  · rw [if_neg hv]
    simp [Function.comp_def, hv]

theorem flow_debtsOf (expenses : List ExpenseRow) (payments : List PaymentRow) (u v : JsString) :
    flow (debtsOf expenses payments) u v = gross expenses payments u v := by
  unfold flow debtsOf gross sharesOwed paymentsSent
  rw [List.map_append, List.sum_append, sum_flatMap, sum_flatMap]
  congr 1
  · exact congrArg List.sum (List.map_congr_left fun e _ => sum_expense_flow e u v)
  · refine congrArg List.sum (List.map_congr_left fun p _ => ?_)
    unfold PaymentRow.debts
    by_cases hd : p.status = .disputed
    · simp [hd]
    · simp [hd, and_comm]

/-- An expense books its total for the payer and each share against its user. -/
theorem sum_expense_net (e : ExpenseRow) (u : JsString) :
    (e.debts.map (Debt.toNet u)).sum =
      (if e.paidBy = u then e.splits.total (fun _ c => c) else 0) -
        (e.splits.lookup u).getD 0 := by
  have hrow : ∀ x : Option ℤ, x.elim 0 id = x.getD 0 := by
    intro x; cases x <;> rfl
  have hshare : (e.debts.map fun o => if o.debtor = u then o.cents else 0).sum =
      (e.splits.lookup u).getD 0 := by
    rw [← hrow, ← Table.total_single e.splits id u, ExpenseRow.debts, List.map_map]
    rfl
  have hpaid : (e.debts.map fun o => if o.creditor = u then o.cents else 0).sum =
      if e.paidBy = u then e.splits.total (fun _ c => c) else 0 := by
    unfold ExpenseRow.debts
    by_cases hu : e.paidBy = u
    · simp [hu, Table.total, Function.comp_def]
    · simp [hu, Function.comp_def]
  rw [← hshare, ← hpaid]
  unfold Debt.toNet
  induction e.debts with
  | nil => rfl
  | cons o L ih =>
    simp only [List.map_cons, List.sum_cons, ih]
    ring

theorem sum_debtsOf_net (expenses : List Booked) (payments : List PaymentRow)
    (htotal : ∀ e ∈ expenses, e.row.splits.total (fun _ c => c) = e.amountCents) (u : JsString) :
    ((debtsOf (expenses.map Booked.row) payments).map (Debt.toNet u)).sum =
      netOf expenses payments u := by
  unfold debtsOf netOf
  rw [List.map_append, List.sum_append, sum_flatMap, sum_flatMap, List.map_map]
  have hexpenses : (expenses.map ((fun e => (e.debts.map (Debt.toNet u)).sum) ∘ Booked.row)).sum =
      (expenses.map fun e => if e.row.paidBy = u then e.amountCents else 0).sum -
        (expenses.map fun e => (e.row.splits.lookup u).getD 0).sum := by
    clear * - htotal
    induction expenses with
    | nil => rfl
    | cons e expenses ih =>
      have ih := ih fun e' he' => htotal e' (List.mem_cons_of_mem _ he')
      rw [List.map_cons, List.sum_cons, ih, Function.comp_apply, sum_expense_net,
        htotal e (List.mem_cons_self ..)]
      simp only [List.map_cons, List.sum_cons]
      ring
  have hpayments : (payments.map fun p => (p.debts.map (Debt.toNet u)).sum).sum =
      (payments.map fun p =>
        if p.status ≠ .disputed ∧ p.fromUser = u then p.amountCents else 0).sum -
      (payments.map fun p =>
        if p.status ≠ .disputed ∧ p.toUser = u then p.amountCents else 0).sum := by
    clear * -
    induction payments with
    | nil => rfl
    | cons p payments ih =>
      have hone : (p.debts.map (Debt.toNet u)).sum =
          (if p.status ≠ .disputed ∧ p.fromUser = u then p.amountCents else 0) -
            (if p.status ≠ .disputed ∧ p.toUser = u then p.amountCents else 0) := by
        unfold PaymentRow.debts Debt.toNet
        by_cases hd : p.status = .disputed <;> simp [hd]
      simp only [List.map_cons, List.sum_cons, ih, hone]
      ring
  rw [hexpenses, hpayments]
  ring

theorem cleanDebts_of_cleanIds {expenses : List ExpenseRow} {payments : List PaymentRow}
    (h : CleanIds expenses payments) : CleanDebts (debtsOf expenses payments) := by
  intro o ho
  rcases List.mem_append.mp ho with hmem | hmem
  · obtain ⟨e, he, hoe⟩ := List.mem_flatMap.mp hmem
    obtain ⟨⟨u, c⟩, hr, rfl⟩ := List.mem_map.mp hoe
    have hu : u ∈ e.splits := AList.lookup_isSome.mp (by simp [Table.mem_rows.mp hr])
    exact ⟨h.splits e he u hu, h.paidBy e he⟩
  · obtain ⟨p, hp, hop⟩ := List.mem_flatMap.mp hmem
    unfold PaymentRow.debts at hop
    split at hop
    · cases hop
    · obtain rfl := List.mem_singleton.mp hop
      exact ⟨h.toUser p hp, h.fromUser p hp⟩

/-! ## Section 8: Orders -/

theorem debtsOf_perm {expenses expenses' : List ExpenseRow} {payments payments' : List PaymentRow}
    (h : SameRows expenses expenses' payments payments') :
    (debtsOf expenses payments).Perm (debtsOf expenses' payments') := by
  obtain ⟨es, hperm, hkeys⟩ := h.expenses
  refine List.Perm.append ((hperm.flatMap_right _).trans ?_) (h.payments.flatMap_right _)
  clear hperm h
  induction hkeys with
  | nil => exact List.Perm.refl _
  | @cons e e' es es' he _ ih =>
    obtain ⟨hpaid, hsplits⟩ := he
    rw [List.flatMap_cons, List.flatMap_cons]
    refine List.Perm.append ?_ ih
    unfold ExpenseRow.debts
    rw [hpaid]
    exact (hsplits.map _).map _

/-- Two texts of entries are equal only under one key. -/
theorem key_of_entryText {e e' : JsString × ℤ} (h : entryText e = entryText e') : e.1 = e'.1 := by
  have hcomma : ∀ n, comma ∉ (JsString.decimal n).reverse := by
    intro n hmem
    exact JsString.comma_notMem_decimal n comma (by decide) (List.mem_reverse.mp hmem)
  have hrev := congrArg (fun s => JsString.split comma s.reverse) h
  simp only [entryText, List.reverse_append, List.reverse_cons, List.append_assoc,
    List.singleton_append, JsString.split_append (hcomma _)] at hrev
  have htail := List.tail_eq_of_cons_eq hrev
  have hhead := List.head_eq_of_cons_eq hrev
  have hdec : JsString.decimal e.2 = JsString.decimal e'.2 := List.reverse_injective hhead
  unfold entryText at h
  rw [hdec] at h
  exact List.append_cancel_right h

/-- Sorting forgets the order of the pair map. -/
theorem sortedEntries_congr {pairs pairs' : Record JsString ℤ}
    (h : pairs.entries.Perm pairs'.entries) : sortedEntries pairs = sortedEntries pairs' := by
  have hrows : pairs.rows.Perm pairs'.rows := h.map _
  refine List.Perm.eq_of_pairwise ?_ (List.pairwise_insertionSort _ _)
    (List.pairwise_insertionSort _ _) ?_
  · intro e e' he he' hle hle'
    have hkey := key_of_entryText (le_antisymm hle hle')
    have hmem : e ∈ pairs.rows := (List.perm_insertionSort _ _).subset he
    have hmem' : e' ∈ pairs.rows :=
      hrows.symm.subset ((List.perm_insertionSort _ _).subset he')
    obtain ⟨k, x⟩ := e
    obtain ⟨k', x'⟩ := e'
    cases hkey
    rw [Table.mem_rows] at hmem hmem'
    rw [hmem] at hmem'
    cases hmem'
    rfl
  · exact (List.perm_insertionSort _ _).trans
      (hrows.trans (List.perm_insertionSort _ _).symm)

theorem pairsOf_congr {L L' : List Debt} (h : L.Perm L') :
    (pairsOf L).entries.Perm (pairsOf L').entries := by
  have hlookup : ∀ k, (pairsOf L).lookup k = (pairsOf L').lookup k := by
    intro k
    have htouch : (touching L k).Perm (touching L' k) := h.filter _
    rw [lookup_pairsOf, lookup_pairsOf, (htouch.map Debt.signed).sum_eq]
    by_cases hnil : touching L k = []
    · have hnil' : touching L' k = [] := by
        rw [hnil] at htouch
        exact List.nil_perm.mp htouch
      rw [if_pos hnil, if_pos hnil']
    · have hnil' : touching L' k ≠ [] := by
        intro hnil'
        rw [hnil'] at htouch
        exact hnil (List.perm_nil.mp htouch)
      rw [if_neg hnil, if_neg hnil']
  refine List.lookup_ext (pairsOf L).nodupKeys (pairsOf L').nodupKeys ?_
  intro k x
  show x ∈ (pairsOf L).lookup k ↔ x ∈ (pairsOf L').lookup k
  rw [hlookup]

theorem computeBalances_congr {expenses expenses' : List ExpenseRow}
    {payments payments' : List PaymentRow} (h : SameRows expenses expenses' payments payments') :
    computeBalances expenses payments = computeBalances expenses' payments' := by
  have hsorted := sortedEntries_congr (pairsOf_congr (debtsOf_perm h))
  rw [computeBalances_eq, computeBalances_eq, owedPairs, owedPairs, hsorted]

/-! ## Section 9: One payment more or less -/

/-- The net of a user in terms of the pair map. -/
theorem net_eq_total (expenses : List ExpenseRow) (payments : List PaymentRow) (u : JsString) :
    ((computeBalances expenses payments).net.lookup u).getD 0 =
      Table.total (pairsOf (debtsOf expenses payments)) fun k x => x * sideOf u k := by
  rw [computeBalances_eq, lookup_book, sum_owedPairs]
  simp

theorem total_pairsOf_concat {L L' : List Debt} {o : Debt} (h : L'.Perm (L ++ [o]))
    (hd : bar ∉ o.debtor) (hc : bar ∉ o.creditor) (u : JsString) :
    Table.total (pairsOf L') (fun k x => x * sideOf u k) =
      Table.total (pairsOf L) (fun k x => x * sideOf u k) + o.toNet u := by
  have hlast : pairsOf (L ++ [o]) = o.post (pairsOf L) := by simp [pairsOf]
  have hperm : (pairsOf L').rows.Perm (pairsOf (L ++ [o])).rows := (pairsOf_congr h).map _
  rw [← total_post hd hc, ← hlast]
  exact (hperm.map _).sum_eq

/-- A payment that is not disputed counts like a recorded one. -/
theorem computeBalances_of_counted (expenses : List ExpenseRow) (payments : List PaymentRow)
    {p : PaymentRow} (h : p.status ≠ .disputed) :
    computeBalances expenses (p :: payments) =
      computeBalances expenses ({ p with status := .recorded } :: payments) := by
  have hdebts : p.debts = ({ p with status := .recorded } : PaymentRow).debts := by
    simp [PaymentRow.debts, h]
  rw [computeBalances_eq, computeBalances_eq, debtsOf, debtsOf, List.flatMap_cons, List.flatMap_cons,
    hdebts]

/-- A disputed payment does not count: the net of its sender would be higher
    by its amount. -/
theorem computeBalances_of_disputed (expenses : List ExpenseRow) (payments : List PaymentRow)
    {p : PaymentRow} (h : p.status = .disputed) (hne : p.fromUser ≠ p.toUser)
    (hcents : p.amountCents ≠ 0) (hfrom : bar ∉ p.fromUser) (hto : bar ∉ p.toUser) :
    computeBalances expenses (p :: payments) ≠
      computeBalances expenses ({ p with status := .recorded } :: payments) := by
  intro heq
  have hnet := congrArg (fun b : Balances => (b.net.lookup p.fromUser).getD 0) heq
  let o : Debt := ⟨p.toUser, p.fromUser, p.amountCents⟩
  have hdebts : (debtsOf expenses ({ p with status := .recorded } :: payments)).Perm
      (debtsOf expenses (p :: payments) ++ [o]) := by
    simp only [debtsOf, List.flatMap_cons, PaymentRow.debts, h, if_true, List.nil_append,
      List.append_assoc]
    exact List.Perm.append_left _ List.perm_append_comm
  have hmore : o.toNet p.fromUser = p.amountCents := by simp [o, Debt.toNet, hne.symm]
  have htotal := total_pairsOf_concat hdebts hto hfrom p.fromUser
  rw [hmore] at htotal
  rw [net_eq_total, net_eq_total, htotal] at hnet
  omega

/-! ## Section 10: The result -/

/-- `computeBalances` is the accounting definition: nets, debts between
    two users, and nothing that depends on the order of the rows. -/
theorem computeBalances_meets_accounts (expenses : List Booked) (payments : List PaymentRow)
    (htotal : ∀ e ∈ expenses, e.row.splits.total (fun _ c => c) = e.amountCents)
    (hids : CleanIds (expenses.map Booked.row) payments) :
    let out := computeBalances (expenses.map Booked.row) payments
    (∀ u, (out.net.lookup u).getD 0 = netOf expenses payments u) ∧
    out.net.total (fun _ x => x) = 0 ∧
    (out.pairwise.Pairwise fun d d' =>
      ¬ (d.fromUser = d'.fromUser ∧ d.toUser = d'.toUser) ∧
        ¬ (d.fromUser = d'.toUser ∧ d.toUser = d'.fromUser)) ∧
    (∀ d, d ∈ out.pairwise ↔ d.fromUser ≠ d.toUser ∧ 0 < d.amountCents ∧
      d.amountCents = owes (expenses.map Booked.row) payments d.fromUser d.toUser) ∧
    (∀ u, (out.net.lookup u).getD 0 =
      (out.pairwise.map fun d => if d.toUser = u then d.amountCents else 0).sum -
        (out.pairwise.map fun d => if d.fromUser = u then d.amountCents else 0).sum) ∧
    (∀ expenses' payments',
      SameRows (expenses.map Booked.row) expenses' payments payments' →
      computeBalances expenses' payments' = out) := by
  intro out
  have hout : out = _ := computeBalances_eq (expenses.map Booked.row) payments
  have hclean := cleanDebts_of_cleanIds hids
  have hnet : ∀ u, (out.net.lookup u).getD 0 = (out.pairwise.map (OwedPair.toNet u)).sum := by
    intro u
    rw [hout, lookup_book]
    simp
  refine ⟨?_, ?_, ?_, ?_, ?_, ?_⟩
  · intro u
    -- nets are what was paid minus what is owed
    rw [hnet, hout, sum_owedPairs, total_pairsOf hclean, sum_debtsOf_net _ _ htotal]
  · -- and sum to zero
    rw [hout, total_book]
    rfl
  · rw [hout]
    -- one entry for each pair of users, in one direction
    refine (owedPairs_distinct hclean).imp_of_mem ?_
    intro d d' hd _ hne
    have hdd := ((mem_owedPairs_iff hclean).mp hd).1
    refine ⟨?_, ?_⟩
    · rintro ⟨h1, h2⟩
      rw [h1, h2] at hne
      exact hne rfl
    · rintro ⟨h1, h2⟩
      rw [pairKey_comm hdd, h1, h2] at hne
      exact hne rfl
  · intro d
    -- the entry is the signed debt of the pair
    rw [hout, mem_owedPairs_iff hclean, flow_debtsOf, flow_debtsOf]
    exact Iff.rfl
  · intro u
    rw [hnet]
    -- the net of a user is the sum of its entries
    unfold OwedPair.toNet
    induction out.pairwise with
    | nil => rfl
    | cons d D ih =>
      simp only [List.map_cons, List.sum_cons, ih]
      ring
  · intro expenses' payments' hsame
    -- the order of the rows does not matter
    exact (computeBalances_congr hsame).symm

/-- Ann paid a dinner for two and Bo sent her a first payment. -/
def dinnerBill : Booked where
  row := ⟨js "ann", Record.fill [js "ann", js "bo"] fun _ => 500⟩
  amountCents := 1000

def firstPayment : PaymentRow := ⟨js "bo", js "ann", 200, .recorded⟩

theorem computeBalances_meets_accounts_dinner :
    (computeBalances [dinnerBill.row] [firstPayment]).pairwise = [⟨js "bo", js "ann", 300⟩] ∧
    ((computeBalances [dinnerBill.row] [firstPayment]).net.lookup (js "ann")).getD 0 =
      netOf [dinnerBill] [firstPayment] (js "ann") := by
  obtain ⟨hnet, _⟩ := computeBalances_meets_accounts [dinnerBill] [firstPayment]
    (by decide) ⟨by decide, by decide, by decide, by decide⟩
  exact ⟨by decide, hnet (js "ann")⟩
