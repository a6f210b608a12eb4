import Homi.Domain.Balances

/-! # Settling up

  What payments do to the debts that `computeBalances` shows. A payment
  goes into the same pair map as the expenses, with its receiver as the
  debtor. So paying what is shown for a pair takes the pair away, paying
  less leaves the rest, and paying more turns it round.
-/

variable {expenses : List ExpenseRow} {payments payments' : List PaymentRow} {chosen : List OwedPair}
  {d e : OwedPair} {u v : JsString} {cents : ℤ}

/-- A payment for a debt. -/
def OwedPair.payment (d : OwedPair) (cents : ℤ) : PaymentRow :=
  ⟨d.fromUser, d.toUser, cents, .recorded⟩

/-- What a payment leaves of a debt. -/
def OwedPair.afterPayment (d : OwedPair) (cents : ℤ) : List OwedPair :=
  if cents < d.amountCents then [⟨d.fromUser, d.toUser, d.amountCents - cents⟩]
  else if cents = d.amountCents then []
  else [⟨d.toUser, d.fromUser, cents - d.amountCents⟩]

/-- The debts that the house is shown. -/
def shown (expenses : List ExpenseRow) (payments : List PaymentRow) : List OwedPair :=
  (computeBalances expenses payments).pairwise

/-! ## Section 1: What is shown -/

theorem mem_shown (hids : CleanIds expenses payments) :
    d ∈ shown expenses payments ↔ d.fromUser ≠ d.toUser ∧ 0 < d.amountCents ∧
      d.amountCents = owes expenses payments d.fromUser d.toUser := by
  rw [shown, computeBalances_eq, mem_owedPairs_iff (cleanDebts_of_cleanIds hids), flow_debtsOf,
    flow_debtsOf]
  exact Iff.rfl

theorem nodup_shown (hids : CleanIds expenses payments) : (shown expenses payments).Nodup := by
  rw [shown, computeBalances_eq]
  refine (owedPairs_distinct (cleanDebts_of_cleanIds hids)).imp ?_
  intro d d' hne heq
  exact hne (by rw [heq])

theorem owes_swap (expenses : List ExpenseRow) (payments : List PaymentRow) (u v : JsString) :
    owes expenses payments v u = -owes expenses payments u v := by
  unfold owes
  omega

/-- Two debts of the same pair are the same. -/
theorem shown_unique (hids : CleanIds expenses payments) (hd : d ∈ shown expenses payments)
    (he : e ∈ shown expenses payments) (hfrom : d.fromUser = e.fromUser) (hto : d.toUser = e.toUser) :
    d = e := by
  obtain ⟨-, -, hd⟩ := (mem_shown hids).mp hd
  obtain ⟨-, -, he⟩ := (mem_shown hids).mp he
  obtain ⟨f, t, a⟩ := d
  obtain ⟨f', t', a'⟩ := e
  dsimp only at hfrom hto hd he
  subst hfrom hto
  rw [hd, he]

/-- No pair is shown both ways. -/
theorem shown_oneWay (hids : CleanIds expenses payments) (hd : d ∈ shown expenses payments)
    (he : e ∈ shown expenses payments) : ¬ (d.fromUser = e.toUser ∧ d.toUser = e.fromUser) := by
  rintro ⟨hfrom, hto⟩
  obtain ⟨-, hpos, hd⟩ := (mem_shown hids).mp hd
  obtain ⟨-, hpos', he⟩ := (mem_shown hids).mp he
  rw [hfrom, hto, owes_swap] at hd
  omega

/-- Every id that is shown is one of the rows. -/
theorem clean_shown (hids : CleanIds expenses payments) (hd : d ∈ shown expenses payments) :
    bar ∉ d.fromUser ∧ bar ∉ d.toUser := by
  have hclean := cleanDebts_of_cleanIds hids
  rw [shown, computeBalances_eq, mem_owedPairs_iff hclean] at hd
  obtain ⟨-, hpos, hd⟩ := hd
  by_cases hflow : flow (debtsOf expenses payments) d.fromUser d.toUser = 0
  · obtain ⟨o, ho, hto, hfrom⟩ :=
      exists_of_flow (by omega : flow (debtsOf expenses payments) d.toUser d.fromUser ≠ 0)
    rw [← hfrom, ← hto]
    exact (hclean o ho).symm
  · obtain ⟨o, ho, hfrom, hto⟩ := exists_of_flow hflow
    rw [← hfrom, ← hto]
    exact hclean o ho

/-! ## Section 2: What payments change -/

theorem paymentsSent_append (payments extra : List PaymentRow) (u v : JsString) :
    paymentsSent (payments ++ extra) u v = paymentsSent payments u v + paymentsSent extra u v := by
  simp [paymentsSent]

theorem owes_more {extra : List PaymentRow} (h : payments'.Perm (payments ++ extra)) :
    owes expenses payments' u v =
      owes expenses payments u v - paymentsSent extra u v + paymentsSent extra v u := by
  have hsent : ∀ x y, paymentsSent payments' x y = paymentsSent payments x y + paymentsSent extra x y := by
    intro x y
    rw [← paymentsSent_append]
    exact (h.map _).sum_eq
  unfold owes gross
  rw [hsent, hsent]
  omega

theorem cleanIds_more {extra : List PaymentRow} (hids : CleanIds expenses payments)
    (hextra : ∀ p ∈ extra, bar ∉ p.fromUser ∧ bar ∉ p.toUser)
    (h : payments'.Perm (payments ++ extra)) : CleanIds expenses payments' := by
  refine ⟨hids.paidBy, hids.splits, ?_, ?_⟩
  · intro p hp
    rcases List.mem_append.mp (h.mem_iff.mp hp) with hp | hp
    · exact hids.fromUser p hp
    · exact (hextra p hp).1
  · intro p hp
    rcases List.mem_append.mp (h.mem_iff.mp hp) with hp | hp
    · exact hids.toUser p hp
    · exact (hextra p hp).2

/-- The payments for some of the debts. -/
def settle (chosen : List OwedPair) : List PaymentRow := chosen.map fun d => d.payment d.amountCents

/-- What is sent from `u` to `v` to settle some of the debts. -/
theorem sent_settle (hids : CleanIds expenses payments) (hsub : chosen ⊆ shown expenses payments)
    (hnd : chosen.Nodup) (hd : d ∈ shown expenses payments) :
    paymentsSent (settle chosen) d.fromUser d.toUser = if d ∈ chosen then d.amountCents else 0 := by
  induction chosen with
  | nil => rfl
  | cons first rest ih =>
    obtain ⟨hfirst, hrest⟩ := List.nodup_cons.mp hnd
    have hshown := hsub (List.mem_cons_self ..)
    have ih := ih (fun e he => hsub (List.mem_cons_of_mem _ he)) hrest
    have hcons : paymentsSent (settle (first :: rest)) d.fromUser d.toUser =
        (if first.fromUser = d.fromUser ∧ first.toUser = d.toUser then first.amountCents else 0) +
          paymentsSent (settle rest) d.fromUser d.toUser := by
      simp [paymentsSent, settle, OwedPair.payment]
    rw [hcons, ih]
    -- a pair is shown once, so no other payment is between the two
    by_cases hsame : first = d
    · subst hsame
      rw [if_pos ⟨rfl, rfl⟩, if_neg hfirst, if_pos (List.mem_cons_self ..), add_zero]
    · have hother : ¬ (first.fromUser = d.fromUser ∧ first.toUser = d.toUser) :=
        fun h => hsame (shown_unique hids hshown hd h.1 h.2)
      have hmem : d ∈ first :: rest ↔ d ∈ rest := by simp [Ne.symm hsame]
      rw [if_neg hother, zero_add]
      simp only [hmem]

/-- Nothing is sent between two users without a debt. -/
theorem sent_settle_none (h : ∀ d ∈ chosen, ¬ (d.fromUser = u ∧ d.toUser = v)) :
    paymentsSent (settle chosen) u v = 0 := by
  refine List.sum_eq_zero ?_
  intro x hx
  obtain ⟨p, hp, rfl⟩ := List.mem_map.mp hx
  obtain ⟨d, hd, rfl⟩ := List.mem_map.mp hp
  exact if_neg fun hboth => h d hd hboth.2

/-- Some of the debts is between `u` and `v`. -/
def Settles (chosen : List OwedPair) (u v : JsString) : Prop :=
  ∃ d ∈ chosen, (d.fromUser = u ∧ d.toUser = v) ∨ (d.fromUser = v ∧ d.toUser = u)

theorem owes_settled (hids : CleanIds expenses payments) (hsub : chosen ⊆ shown expenses payments)
    (hnd : chosen.Nodup) (h : payments'.Perm (payments ++ settle chosen)) (hs : Settles chosen u v) :
    owes expenses payments' u v = 0 := by
  rw [owes_more h]
  obtain ⟨d, hd, ⟨rfl, rfl⟩ | ⟨rfl, rfl⟩⟩ := hs
  · -- paid by the debtor
    have hback : paymentsSent (settle chosen) d.toUser d.fromUser = 0 :=
      sent_settle_none fun e he hboth => shown_oneWay hids (hsub he) (hsub hd) hboth
    obtain ⟨-, -, hamount⟩ := (mem_shown hids).mp (hsub hd)
    rw [hback, sent_settle hids hsub hnd (hsub hd), if_pos hd, hamount]
    omega
  · -- the same from the creditor's side
    have hback : paymentsSent (settle chosen) d.toUser d.fromUser = 0 :=
      sent_settle_none fun e he hboth => shown_oneWay hids (hsub he) (hsub hd) hboth
    obtain ⟨-, -, hamount⟩ := (mem_shown hids).mp (hsub hd)
    rw [hback, sent_settle hids hsub hnd (hsub hd), if_pos hd, hamount, owes_swap]
    omega

theorem owes_kept (h : payments'.Perm (payments ++ settle chosen)) (hs : ¬ Settles chosen u v) :
    owes expenses payments' u v = owes expenses payments u v := by
  have hsent : paymentsSent (settle chosen) u v = 0 :=
    sent_settle_none fun d hd hboth => hs ⟨d, hd, Or.inl hboth⟩
  have hback : paymentsSent (settle chosen) v u = 0 :=
    sent_settle_none fun d hd hboth => hs ⟨d, hd, Or.inr hboth⟩
  rw [owes_more h, hsent, hback]
  omega

theorem cleanIds_settled (hids : CleanIds expenses payments) (hsub : chosen ⊆ shown expenses payments)
    (h : payments'.Perm (payments ++ settle chosen)) : CleanIds expenses payments' := by
  refine cleanIds_more hids ?_ h
  intro p hp
  obtain ⟨d, hd, rfl⟩ := List.mem_map.mp hp
  exact clean_shown hids (hsub hd)

/-- The debts that are settled go, the others stay. -/
theorem mem_shown_settled (hids : CleanIds expenses payments)
    (hsub : chosen ⊆ shown expenses payments) (hnd : chosen.Nodup)
    (h : payments'.Perm (payments ++ settle chosen)) :
    e ∈ shown expenses payments' ↔ e ∈ shown expenses payments ∧ e ∉ chosen := by
  rw [mem_shown (cleanIds_settled hids hsub h)]
  by_cases hs : Settles chosen e.fromUser e.toUser
  · rw [owes_settled hids hsub hnd h hs]
    constructor
    · rintro ⟨-, hpos, hzero⟩
      omega
    · rintro ⟨he, hout⟩
      exfalso
      obtain ⟨d, hd, ⟨hfrom, hto⟩ | ⟨hfrom, hto⟩⟩ := hs
      · rw [← shown_unique hids (hsub hd) he hfrom hto] at hout
        exact hout hd
      · exact shown_oneWay hids (hsub hd) he ⟨hfrom, hto⟩
  · rw [owes_kept h hs, mem_shown hids]
    constructor
    · intro he
      exact ⟨he, fun hmem => hs ⟨e, hmem, Or.inl ⟨rfl, rfl⟩⟩⟩
    · exact fun he => he.1

/-! ## Section 3: One payment -/

theorem sent_payment (d : OwedPair) (cents : ℤ) (u v : JsString) :
    paymentsSent [d.payment cents] u v = if d.fromUser = u ∧ d.toUser = v then cents else 0 := by
  simp [paymentsSent, OwedPair.payment]

theorem mem_afterPayment :
    e ∈ d.afterPayment cents ↔
      (cents < d.amountCents ∧ e = ⟨d.fromUser, d.toUser, d.amountCents - cents⟩) ∨
        (d.amountCents < cents ∧ e = ⟨d.toUser, d.fromUser, cents - d.amountCents⟩) := by
  unfold OwedPair.afterPayment
  by_cases hless : cents < d.amountCents
  · have hnot : ¬ d.amountCents < cents := by omega
    simp [hless, hnot]
  · by_cases hsame : cents = d.amountCents
    · simp [hsame]
    · have hmore : d.amountCents < cents := by omega
      simp [hless, hsame, hmore]

theorem nodup_afterPayment (d : OwedPair) (cents : ℤ) : (d.afterPayment cents).Nodup := by
  unfold OwedPair.afterPayment
  by_cases hless : cents < d.amountCents
  · simp [hless]
  · by_cases hsame : cents = d.amountCents
    · simp [hsame]
    · simp [hless, hsame]

/-- A payment changes the debt it is for and no other. -/
theorem mem_shown_paid (hids : CleanIds expenses payments) (hd : d ∈ shown expenses payments)
    (h : payments'.Perm (payments ++ [d.payment cents])) :
    e ∈ shown expenses payments' ↔ (e ∈ shown expenses payments ∧ e ≠ d) ∨ e ∈ d.afterPayment cents := by
  have hids' : CleanIds expenses payments' := by
    refine cleanIds_more hids ?_ h
    intro p hp
    rw [List.mem_singleton.mp hp]
    exact clean_shown hids hd
  obtain ⟨hne, hpos, hamount⟩ := (mem_shown hids).mp hd
  rw [mem_shown hids', owes_more h, sent_payment, sent_payment, mem_afterPayment]
  obtain ⟨f, t, a⟩ := e
  dsimp only
  by_cases hsame : d.fromUser = f ∧ d.toUser = t
  · obtain ⟨rfl, rfl⟩ := hsame
    have hother : ¬ (d.fromUser = d.toUser ∧ d.toUser = d.fromUser) := fun heq => hne heq.1
    have hstale : ¬ ((⟨d.fromUser, d.toUser, a⟩ : OwedPair) ∈ shown expenses payments ∧
        (⟨d.fromUser, d.toUser, a⟩ : OwedPair) ≠ d) :=
      fun hboth => hboth.2 (shown_unique hids hboth.1 hd rfl rfl)
    rw [if_pos ⟨rfl, rfl⟩, if_neg hother, ← hamount]
    simp only [hstale, false_or, OwedPair.mk.injEq, true_and, hne, false_and, and_false, or_false, ne_eq,
      not_false_eq_true]
    omega
  · by_cases hback : d.fromUser = t ∧ d.toUser = f
    · obtain ⟨rfl, rfl⟩ := hback
      have hstale : ¬ ((⟨d.toUser, d.fromUser, a⟩ : OwedPair) ∈ shown expenses payments ∧
          (⟨d.toUser, d.fromUser, a⟩ : OwedPair) ≠ d) :=
        fun hboth => shown_oneWay hids hboth.1 hd ⟨rfl, rfl⟩
      rw [if_neg hsame, if_pos ⟨rfl, rfl⟩, owes_swap, ← hamount]
      simp only [hstale, false_or, OwedPair.mk.injEq, true_and, hne, Ne.symm hne, false_and, and_false,
        ne_eq, not_false_eq_true]
      omega
    · -- a debt between others
      have hkept : ∀ x, (⟨f, t, a⟩ : OwedPair) ≠ ⟨d.fromUser, d.toUser, x⟩ ∧
          (⟨f, t, a⟩ : OwedPair) ≠ ⟨d.toUser, d.fromUser, x⟩ := by
        intro x
        refine ⟨fun heq => hsame ?_, fun heq => hback ?_⟩
        · cases heq
          exact ⟨rfl, rfl⟩
        · cases heq
          exact ⟨rfl, rfl⟩
      rw [if_neg hsame, if_neg hback, mem_shown hids]
      simp only [(hkept _).1, (hkept _).2, and_false, or_false, ne_eq, not_false_eq_true, and_true,
        sub_zero, add_zero]

/-! ## Section 4: Settling what is shown -/

/-- What payments for the debts that are shown do.

    * `everything`: one payment for each, in any order, leaves nobody owing
      anything.
    * `subset`: payments for some of them take these away, and only these.
    * `part`: any payment for a debt lowers it, settles it or turns it
      round, and leaves the others as they are. -/
structure Settling (expenses : List ExpenseRow) (payments : List PaymentRow) : Prop where
  everything : ∀ payments', payments'.Perm (payments ++ settle (shown expenses payments)) →
    computeBalances expenses payments' = ⟨∅, []⟩
  subset : ∀ chosen, chosen ⊆ shown expenses payments → chosen.Nodup →
    ∀ payments', payments'.Perm (payments ++ settle chosen) →
      (shown expenses payments').Perm ((shown expenses payments).filter (· ∉ chosen))
  part : ∀ d ∈ shown expenses payments, ∀ cents payments',
    payments'.Perm (payments ++ [d.payment cents]) →
      (shown expenses payments').Perm ((shown expenses payments).erase d ++ d.afterPayment cents)

/-- Nobody owes anything, so no net is kept. -/
theorem computeBalances_of_settled (h : shown expenses payments = []) :
    computeBalances expenses payments = ⟨∅, []⟩ := by
  have hpairs : owedPairs (pairsOf (debtsOf expenses payments)) = [] := by
    rw [shown, computeBalances_eq] at h
    exact h
  rw [computeBalances_eq, hpairs]
  rfl

theorem settling (expenses : List ExpenseRow) (payments : List PaymentRow)
    (hids : CleanIds expenses payments) : Settling expenses payments where
  everything := by
    intro payments' h
    apply computeBalances_of_settled
    rw [List.eq_nil_iff_forall_not_mem]
    intro e he
    have hboth := (mem_shown_settled hids (fun _ hd => hd) (nodup_shown hids) h).mp he
    exact hboth.2 hboth.1
  subset := by
    intro chosen hsub hnd payments' h
    refine (List.perm_ext_iff_of_nodup (nodup_shown (cleanIds_settled hids hsub h))
      ((nodup_shown hids).filter _)).mpr ?_
    intro e
    rw [mem_shown_settled hids hsub hnd h, List.mem_filter, decide_eq_true_eq]
  part := by
    intro d hd cents payments' h
    have hids' : CleanIds expenses payments' := by
      refine cleanIds_more hids ?_ h
      intro p hp
      rw [List.mem_singleton.mp hp]
      exact clean_shown hids hd
    have hnodup : ((shown expenses payments).erase d ++ d.afterPayment cents).Nodup := by
      refine List.Nodup.append ((nodup_shown hids).erase d) (nodup_afterPayment d cents) ?_
      -- what is left of the debt is new
      intro e he hafter
      obtain ⟨hne, he⟩ := (nodup_shown hids).mem_erase_iff.mp he
      rcases mem_afterPayment.mp hafter with ⟨-, rfl⟩ | ⟨-, rfl⟩
      · exact hne (shown_unique hids he hd rfl rfl)
      · exact shown_oneWay hids he hd ⟨rfl, rfl⟩
    refine (List.perm_ext_iff_of_nodup (nodup_shown hids') hnodup).mpr ?_
    intro e
    rw [mem_shown_paid hids hd h, List.mem_append, (nodup_shown hids).mem_erase_iff, and_comm]

/-- Bo pays Ann what he is shown to owe for the dinner. -/
theorem settling_dinner :
    computeBalances [dinnerBill.row] [⟨js "bo", js "ann", 300, .recorded⟩, firstPayment] = ⟨∅, []⟩ := by
  have hshown : shown [dinnerBill.row] [firstPayment] = [⟨js "bo", js "ann", 300⟩] := by decide
  refine (settling [dinnerBill.row] [firstPayment] ⟨by decide, by decide, by decide, by decide⟩).everything
    _ ?_
  rw [hshown]
  exact List.Perm.swap _ _ []
