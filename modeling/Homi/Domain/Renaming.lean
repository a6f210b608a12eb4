import Homi.Domain.SettleUp

/-! # One user for another

  What becomes of balances when the shares of one user are booked for
  another one: the second user takes over the net and the debts of the
  first, and nothing else changes.

  * `MovesShare`: an expense before and after.
  * `Renames`: the balances before and after.
-/

/-! ## Section 1: Before and after -/

/-- The share of `u` in an expense. -/
def ExpenseRow.shareOf (e : ExpenseRow) (u : JsString) : ℤ := (e.splits.lookup u).getD 0

/-- The share of `p` is booked for `c`. -/
structure MovesShare (p c : JsString) (e e' : ExpenseRow) : Prop where
  paidBy : e'.paidBy = e.paidBy
  gone : p ∉ e'.splits
  claimer : e'.shareOf c = e.shareOf c + e.shareOf p
  others : ∀ u, u ≠ p → u ≠ c → e'.splits.lookup u = e.splits.lookup u

/-- The net of `u`, zero where there is no entry. -/
def Balances.netFor (b : Balances) (u : JsString) : ℤ := (b.net.lookup u).getD 0

/-- What `u` owes `v`, negative where `v` owes `u`. -/
def Balances.debt (b : Balances) (u v : JsString) : ℤ :=
  (b.pairwise.map fun d =>
    (if d.fromUser = u ∧ d.toUser = v then d.amountCents else 0) -
      (if d.fromUser = v ∧ d.toUser = u then d.amountCents else 0)).sum

/-- `b'` is the image of `b` when `p` becomes `c`.

    * `claimer`, `nets`: `c` takes over the net of `p`, everyone else's stays.
    * `gone`: `p` appears nowhere.
    * `debts`, `others`: so it is with the debts between two users. -/
structure Renames (p c : JsString) (b b' : Balances) : Prop where
  claimer : b'.netFor c = b.netFor c + b.netFor p
  nets : ∀ u, u ≠ p → u ≠ c → b'.netFor u = b.netFor u
  gone : p ∉ b'.net ∧ ∀ d ∈ b'.pairwise, d.fromUser ≠ p ∧ d.toUser ≠ p
  debts : ∀ u, u ≠ p → u ≠ c → b'.debt u c = b.debt u c + b.debt u p
  others : ∀ u v, u ≠ p → u ≠ c → v ≠ p → v ≠ c → b'.debt u v = b.debt u v

variable {expenses expenses' : List ExpenseRow} {payments : List PaymentRow} {e e' : ExpenseRow}
  {p c u v : JsString}

/-! ## Section 2: Balances of the rows -/

theorem owes_self (expenses : List ExpenseRow) (payments : List PaymentRow) (u : JsString) :
    owes expenses payments u u = 0 := sub_self _

/-- The signed debt is what one owes the other on paper. -/
theorem debt_computeBalances (hids : CleanIds expenses payments) (u v : JsString) :
    (computeBalances expenses payments).debt u v = owes expenses payments u v := by
  by_cases huv : u = v
  · -- nobody owes oneself
    subst huv
    rw [owes_self]
    refine List.sum_eq_zero ?_
    intro x hx
    obtain ⟨d, _, rfl⟩ := List.mem_map.mp hx
    exact sub_self _
  have hnd : (computeBalances expenses payments).pairwise.Nodup := nodup_shown hids
  have hshown : ∀ d, d ∈ (computeBalances expenses payments).pairwise ↔ d.fromUser ≠ d.toUser ∧
      0 < d.amountCents ∧ d.amountCents = owes expenses payments d.fromUser d.toUser :=
    fun d => mem_shown hids
  have hswap := owes_swap expenses payments u v
  -- one entry counts, whichever way it is
  have hone : ∀ d ∈ (computeBalances expenses payments).pairwise,
      (d.fromUser = u ∧ d.toUser = v) ∨ (d.fromUser = v ∧ d.toUser = u) →
      (computeBalances expenses payments).debt u v =
        (if d.fromUser = u ∧ d.toUser = v then d.amountCents else 0) -
          (if d.fromUser = v ∧ d.toUser = u then d.amountCents else 0) := by
    intro d hd hpair
    rw [Balances.debt, ← List.sum_toFinset _ hnd]
    refine Finset.sum_eq_single d ?_ fun hno => absurd (List.mem_toFinset.mpr hd) hno
    intro d' hd' hne
    have hd' := List.mem_toFinset.mp hd'
    have hfar : ∀ x y, (d.fromUser = x ∧ d.toUser = y) ∨ (d.fromUser = y ∧ d.toUser = x) →
        ¬ (d'.fromUser = x ∧ d'.toUser = y) := by
      rintro x y (⟨rfl, rfl⟩ | ⟨rfl, rfl⟩) hsame
      · exact hne (shown_unique hids hd' hd hsame.1 hsame.2)
      · exact shown_oneWay hids hd' hd hsame
    rw [if_neg (hfar u v hpair), if_neg (hfar v u hpair.symm), sub_zero]
  rcases lt_trichotomy (owes expenses payments u v) 0 with hneg | hzero | hpos
  · -- `v` owes `u`
    have hmem : ⟨v, u, owes expenses payments v u⟩ ∈ (computeBalances expenses payments).pairwise :=
      (hshown _).mpr ⟨Ne.symm huv, by rw [hswap]; exact neg_pos.mpr hneg, rfl⟩
    rw [hone _ hmem (Or.inr ⟨rfl, rfl⟩), if_neg (fun h => huv h.1.symm), if_pos ⟨rfl, rfl⟩, hswap, zero_sub,
      neg_neg]
  · rw [hzero]
    -- there is no entry of the two
    refine List.sum_eq_zero ?_
    intro x hx
    obtain ⟨d, hd, rfl⟩ := List.mem_map.mp hx
    obtain ⟨_, hpos, hamount⟩ := (hshown d).mp hd
    rw [if_neg, if_neg, sub_zero]
    · rintro ⟨rfl, rfl⟩
      omega
    · rintro ⟨rfl, rfl⟩
      omega
  · have hmem : ⟨u, v, owes expenses payments u v⟩ ∈ (computeBalances expenses payments).pairwise :=
      (hshown _).mpr ⟨huv, hpos, rfl⟩
    rw [hone _ hmem (Or.inl ⟨rfl, rfl⟩), if_pos ⟨rfl, rfl⟩, if_neg (fun h => huv h.1), sub_zero]

/-- What an expense adds to the net of `u`. -/
def ExpenseRow.toNet (u : JsString) (e : ExpenseRow) : ℤ :=
  (if e.paidBy = u then e.splits.total (fun _ c => c) else 0) - e.shareOf u

/-- What a payment adds to the net of `u`. -/
def PaymentRow.toNet (u : JsString) (p : PaymentRow) : ℤ := (p.debts.map (Debt.toNet u)).sum

theorem netFor_computeBalances (hids : CleanIds expenses payments) (u : JsString) :
    (computeBalances expenses payments).netFor u =
      (expenses.map (ExpenseRow.toNet u)).sum + (payments.map (PaymentRow.toNet u)).sum := by
  rw [Balances.netFor, net_eq_total, total_pairsOf (cleanDebts_of_cleanIds hids), debtsOf,
    List.map_append, List.sum_append, sum_flatMap, sum_flatMap]
  congr 1
  exact congrArg List.sum (List.map_congr_left fun e _ => sum_expense_net e u)

/-- Who has a net is a party of some debt. -/
theorem mem_book {D : List OwedPair} {net : Record JsString ℤ} :
    u ∈ D.foldl OwedPair.book net ↔ u ∈ net ∨ ∃ d ∈ D, u = d.fromUser ∨ u = d.toUser := by
  induction D generalizing net with
  | nil => simp
  | cons d D ih =>
    rw [List.foldl_cons, ih, OwedPair.book, Record.credit, Record.credit, AList.mem_insert, AList.mem_insert]
    simp only [List.exists_mem_cons_iff]
    by_cases hto : u = d.toUser
    · simp [hto]
    · simp [hto, or_assoc, or_left_comm]

/-- Who owes nothing and is owed nothing has no net. -/
theorem notMem_net (h : ∀ d ∈ (computeBalances expenses payments).pairwise, d.fromUser ≠ u ∧ d.toUser ≠ u) :
    u ∉ (computeBalances expenses payments).net := by
  rw [computeBalances_eq] at h ⊢
  rw [mem_book]
  rintro (hmem | ⟨d, hd, hfrom | hto⟩)
  · exact absurd hmem (AList.notMem_empty u)
  · exact (h d hd).1 hfrom.symm
  · exact (h d hd).2 hto.symm

/-! ## Section 3: One expense -/

theorem MovesShare.shareOf (h : MovesShare p c e e') (hp : u ≠ p) (hc : u ≠ c) :
    e'.shareOf u = e.shareOf u := by
  rw [ExpenseRow.shareOf, h.others u hp hc, ExpenseRow.shareOf]

theorem MovesShare.shareOf_gone (h : MovesShare p c e e') : e'.shareOf p = 0 := by
  rw [ExpenseRow.shareOf, AList.lookup_eq_none.mpr h.gone]
  rfl

/-- The expense keeps its total. -/
theorem MovesShare.total (h : MovesShare p c e e') (hpc : p ≠ c) :
    e'.splits.total (fun _ c => c) = e.splits.total (fun _ c => c) := by
  have hshare : ∀ (e : ExpenseRow) u, Table.share e.splits (fun _ c => c) u = e.shareOf u := by
    intro e u
    unfold Table.share ExpenseRow.shareOf
    cases e.splits.lookup u <;> rfl
  let S : Finset JsString := insert p (insert c (Table.keySet e.splits ∪ Table.keySet e'.splits))
  have hold : ∀ k x, e.splits.lookup k = some x → k ∈ S := by
    intro k x hk
    exact Finset.mem_insert_of_mem (Finset.mem_insert_of_mem
      (Finset.mem_union_left _ (Table.mem_keySet hk)))
  have hnew : ∀ k x, e'.splits.lookup k = some x → k ∈ S := by
    intro k x hk
    exact Finset.mem_insert_of_mem (Finset.mem_insert_of_mem
      (Finset.mem_union_right _ (Table.mem_keySet hk)))
  have hp : p ∈ S := Finset.mem_insert_self ..
  have hc : c ∈ S.erase p :=
    Finset.mem_erase.mpr ⟨hpc.symm, Finset.mem_insert_of_mem (Finset.mem_insert_self ..)⟩
  -- beside the two every share is the same
  have hrest : ∑ u ∈ (S.erase p).erase c, e'.shareOf u = ∑ u ∈ (S.erase p).erase c, e.shareOf u := by
    refine Finset.sum_congr rfl ?_
    intro u hu
    obtain ⟨huc, hu⟩ := Finset.mem_erase.mp hu
    exact h.shareOf (Finset.mem_erase.mp hu).1 huc
  rw [Table.total_eq_sum _ _ hold, Table.total_eq_sum _ _ hnew]
  simp only [hshare]
  rw [← Finset.add_sum_erase _ _ hp, ← Finset.add_sum_erase _ _ hc, ← Finset.add_sum_erase _ e.shareOf hp,
    ← Finset.add_sum_erase _ e.shareOf hc, hrest, h.shareOf_gone, h.claimer]
  ring

theorem MovesShare.toNet (h : MovesShare p c e e') (hpc : p ≠ c) (hp : u ≠ p) (hc : u ≠ c) :
    e'.toNet u = e.toNet u := by
  rw [ExpenseRow.toNet, h.paidBy, h.total hpc, h.shareOf hp hc, ExpenseRow.toNet]

theorem MovesShare.toNet_claimer (h : MovesShare p c e e') (hpc : p ≠ c) (hpaid : e.paidBy ≠ p) :
    e'.toNet c = e.toNet c + e.toNet p := by
  rw [ExpenseRow.toNet, ExpenseRow.toNet, ExpenseRow.toNet, h.paidBy, h.total hpc, h.claimer, if_neg hpaid]
  ring

/-! ## Section 4: All rows -/

/-- `p` is neither payer nor a party of a payment. -/
structure OnlyShares (expenses : List ExpenseRow) (payments : List PaymentRow) (p : JsString) : Prop where
  paidBy : ∀ e ∈ expenses, e.paidBy ≠ p
  payments : ∀ x ∈ payments, x.fromUser ≠ p ∧ x.toUser ≠ p

theorem cleanIds_of_moves (hmoves : List.Forall₂ (MovesShare p c) expenses expenses')
    (hids : CleanIds expenses payments) (hc : bar ∉ c) : CleanIds expenses' payments := by
  have hold : ∀ e' ∈ expenses', ∃ e ∈ expenses, MovesShare p c e e' := by
    intro e' he'
    induction hmoves with
    | nil => cases he'
    | cons hmove _ ih =>
      rcases List.mem_cons.mp he' with rfl | he'
      · exact ⟨_, List.mem_cons_self .., hmove⟩
      · obtain ⟨e, he, hmove⟩ := ih ⟨fun e he => hids.paidBy e (List.mem_cons_of_mem _ he),
          fun e he => hids.splits e (List.mem_cons_of_mem _ he), hids.fromUser, hids.toUser⟩ he'
        exact ⟨e, List.mem_cons_of_mem _ he, hmove⟩
  refine ⟨?_, ?_, hids.fromUser, hids.toUser⟩
  · intro e' he'
    obtain ⟨e, he, hmove⟩ := hold e' he'
    rw [hmove.paidBy]
    exact hids.paidBy e he
  · intro e' he' u hu
    obtain ⟨e, he, hmove⟩ := hold e' he'
    by_cases huc : u = c
    · rw [huc]
      exact hc
    · have hup : u ≠ p := fun heq => hmove.gone (heq ▸ hu)
      -- the split was there before
      refine hids.splits e he u (AList.lookup_isSome.mp ?_)
      rw [← hmove.others u hup huc]
      exact AList.lookup_isSome.mpr hu

/-- Sums over the expenses, expense by expense. -/
theorem sum_of_moves {f g : ExpenseRow → ℤ} (hmoves : List.Forall₂ (MovesShare p c) expenses expenses')
    (h : ∀ e ∈ expenses, ∀ e', MovesShare p c e e' → f e' = g e) :
    (expenses'.map f).sum = (expenses.map g).sum := by
  induction hmoves with
  | nil => rfl
  | cons hmove _ ih =>
    rw [List.map_cons, List.map_cons, List.sum_cons, List.sum_cons, h _ (List.mem_cons_self ..) _ hmove,
      ih fun e he => h e (List.mem_cons_of_mem _ he)]

theorem sharesOwed_moved (hmoves : List.Forall₂ (MovesShare p c) expenses expenses') (hp : u ≠ p) (hc : u ≠ c)
    (v : JsString) : sharesOwed expenses' u v = sharesOwed expenses u v := by
  refine sum_of_moves hmoves ?_
  intro e _ e' hmove
  have hshare := hmove.shareOf hp hc
  unfold ExpenseRow.shareOf at hshare
  rw [hmove.paidBy, hshare]

theorem sharesOwed_claimer (hmoves : List.Forall₂ (MovesShare p c) expenses expenses') (v : JsString) :
    sharesOwed expenses' c v = sharesOwed expenses c v + sharesOwed expenses p v := by
  unfold sharesOwed
  rw [← List.sum_map_add]
  refine sum_of_moves hmoves ?_
  intro e _ e' hmove
  have hshare := hmove.claimer
  unfold ExpenseRow.shareOf at hshare
  rw [hmove.paidBy, hshare]
  split
  · rfl
  · rfl

theorem sharesOwed_gone (hmoves : List.Forall₂ (MovesShare p c) expenses expenses') (v : JsString) :
    sharesOwed expenses' p v = 0 := by
  refine List.sum_eq_zero ?_
  intro x hx
  obtain ⟨e', he', rfl⟩ := List.mem_map.mp hx
  have hgone : p ∉ e'.splits := by
    clear hx
    induction hmoves with
    | nil => cases he'
    | cons hmove _ ih =>
      rcases List.mem_cons.mp he' with rfl | he'
      · exact hmove.gone
      · exact ih he'
  rw [AList.lookup_eq_none.mpr hgone]
  split
  · rfl
  · rfl

theorem sharesOwed_unpaid (h : OnlyShares expenses payments p) (u : JsString) :
    sharesOwed expenses u p = 0 := by
  refine List.sum_eq_zero ?_
  intro x hx
  obtain ⟨e, he, rfl⟩ := List.mem_map.mp hx
  exact if_neg (h.paidBy e he)

theorem paymentsSent_none (h : OnlyShares expenses payments p) (u : JsString) :
    paymentsSent payments u p = 0 ∧ paymentsSent payments p u = 0 := by
  constructor
  · refine List.sum_eq_zero ?_
    intro x hx
    obtain ⟨y, hy, rfl⟩ := List.mem_map.mp hx
    exact if_neg fun hall => (h.payments y hy).2 hall.2.2
  · refine List.sum_eq_zero ?_
    intro x hx
    obtain ⟨y, hy, rfl⟩ := List.mem_map.mp hx
    exact if_neg fun hall => (h.payments y hy).1 hall.2.1

theorem toNet_payment_none (h : OnlyShares expenses payments p) :
    (payments.map (PaymentRow.toNet p)).sum = 0 := by
  refine List.sum_eq_zero ?_
  intro x hx
  obtain ⟨y, hy, rfl⟩ := List.mem_map.mp hx
  obtain ⟨hfrom, hto⟩ := h.payments y hy
  unfold PaymentRow.toNet PaymentRow.debts
  by_cases hd : y.status = .disputed
  · simp [hd]
  · simp [hd, Debt.toNet, hfrom, hto]

/-! ## Section 5: The result -/

/-- A user who has shares only can be renamed. -/
theorem renames_of_moves (hmoves : List.Forall₂ (MovesShare p c) expenses expenses') (hpc : p ≠ c)
    (hp : OnlyShares expenses payments p) (hids : CleanIds expenses payments) (hc : bar ∉ c) :
    Renames p c (computeBalances expenses payments) (computeBalances expenses' payments) := by
  have hids' := cleanIds_of_moves hmoves hids hc
  have hp' : OnlyShares expenses' payments p := by
    refine ⟨?_, hp.payments⟩
    clear hids hids'
    have hpaid := hp.paidBy
    clear hp
    induction hmoves with
    | nil => exact fun e he => by cases he
    | cons hmove _ ih =>
      intro e he
      rcases List.mem_cons.mp he with rfl | he
      · rw [hmove.paidBy]
        exact hpaid _ (List.mem_cons_self ..)
      · exact ih (fun e he => hpaid e (List.mem_cons_of_mem _ he)) e he
  have hgone : ∀ u, owes expenses' payments u p = 0 ∧ owes expenses' payments p u = 0 := by
    intro u
    have howed : owes expenses' payments u p = 0 := by
      unfold owes gross
      rw [sharesOwed_unpaid hp', sharesOwed_gone hmoves, (paymentsSent_none hp u).1, (paymentsSent_none hp u).2]
      rfl
    exact ⟨howed, by rw [owes_swap, howed, neg_zero]⟩
  have hpairs : ∀ d ∈ (computeBalances expenses' payments).pairwise, d.fromUser ≠ p ∧ d.toUser ≠ p := by
    intro d hd
    obtain ⟨_, hpos, hamount⟩ := (mem_shown hids').mp hd
    constructor
    · intro hfrom
      rw [hfrom, (hgone _).2] at hamount
      omega
    · intro hto
      rw [hto, (hgone _).1] at hamount
      omega
  refine ⟨?_, ?_, ⟨notMem_net hpairs, hpairs⟩, ?_, ?_⟩
  · -- the payments stay with their parties
    rw [netFor_computeBalances hids', netFor_computeBalances hids, netFor_computeBalances hids,
      toNet_payment_none hp, sum_of_moves hmoves (f := ExpenseRow.toNet c)
        (g := fun e => e.toNet c + e.toNet p) fun e he e' hmove =>
        hmove.toNet_claimer hpc (hp.paidBy e he), List.sum_map_add]
    ring
  · intro u hup huc
    rw [netFor_computeBalances hids', netFor_computeBalances hids,
      sum_of_moves hmoves fun e _ e' hmove => hmove.toNet hpc hup huc]
  · intro u hup huc
    rw [debt_computeBalances hids', debt_computeBalances hids, debt_computeBalances hids]
    unfold owes gross
    rw [sharesOwed_moved hmoves hup huc, sharesOwed_claimer hmoves, sharesOwed_unpaid hp,
      (paymentsSent_none hp u).1, (paymentsSent_none hp u).2]
    ring
  · intro u v hup huc hvp hvc
    rw [debt_computeBalances hids', debt_computeBalances hids]
    unfold owes gross
    rw [sharesOwed_moved hmoves hup huc, sharesOwed_moved hmoves hvp hvc]
