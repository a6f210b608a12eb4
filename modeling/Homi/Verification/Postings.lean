import Homi.Verification.LedgerProtocol

/-! # Postings under the ledger protocol

  The posting core: the members that it locks, the splits that it
  computes, and the commit of an expense together with all its splits. An
  expense that is created, one that the worker posts and one that is
  edited end in the same assertion, `Rebooked`, and `Rebooked.guar` is the
  one proof that such a commit keeps the guarantee.
-/

namespace Homi

open ReadCommitted Protocol

variable {env : Env} {merged unread : Prop}

/-! ## Section 1: Assertions -/

/-- An assertion on writes that a write to other tables does not break. -/
theorem passive_quiet_writes {p : Writes → Prop}
    (h : ∀ w w', p w → Writes.Quiet w' → p (w.append w')) :
    (ledgerProtocol env merged unread).Passive Writes.Quiet fun tx _ => p tx.writes :=
  passive_writes h

theorem passive_quiet :
    (ledgerProtocol env merged unread).Passive Writes.Quiet fun tx _ => tx.writes.Quiet :=
  passive_quiet_writes fun _ _ h h' => h.append h'

/-- `u` is an active member of `h`, and `tx` holds the membership. -/
structure Held (h u : Uuid) (tx : DbTx) (d : Db) : Prop where
  canonical : toUuid u = u
  holds : tx.Holds (.member h u)
  active : ∃ m, d.houseMembers.lookup (h, u) = some m ∧ m.leftAt = none

theorem Held.add {h u : Uuid} {tx : DbTx} {d : Db} (hA : Held h u tx d)
    (e : Effect Writes LockKey Note) : Held h u (tx.add e) (tick e.ids d) :=
  ⟨hA.canonical, holds_add tx e hA.holds, hA.active⟩

theorem passive_held (h u : Uuid) :
    (ledgerProtocol env merged unread).Passive Writes.Quiet (Held h u) where
  stable := by
    intro tx d d' hr _ hA
    have hsame : d'.houseMembers.lookup (h, u) = d.houseMembers.lookup (h, u) :=
      hr.frame _ hA.holds
    exact ⟨hA.canonical, hA.holds, by rw [hsame]; exact hA.active⟩
  step := fun _ _ e _ hA => hA.add e

/-- Splits of `amountCents` over active members of `h` that `tx` holds. -/
structure Resolved (h : Uuid) (amountCents : ℤ) (splits : Splits JsString) (tx : DbTx) (d : Db) :
    Prop where
  held : ∀ u a, splits.lookup u = some a → Held h u tx d
  nonneg : ∀ u a, splits.lookup u = some a → 0 ≤ a
  sum : splits.total (fun _ cents => cents) = amountCents

theorem Resolved.add {h : Uuid} {amountCents : ℤ} {splits : Splits JsString} {tx : DbTx} {d : Db}
    (hA : Resolved h amountCents splits tx d) (e : Effect Writes LockKey Note) :
    Resolved h amountCents splits (tx.add e) (tick e.ids d) :=
  ⟨fun u a hu => (hA.held u a hu).add e, hA.nonneg, hA.sum⟩

theorem passive_resolved (h : Uuid) (amountCents : ℤ) (splits : Splits JsString) :
    (ledgerProtocol env merged unread).Passive Writes.Quiet (Resolved h amountCents splits) where
  stable := fun tx d d' hr hi hA =>
    ⟨fun u a hu => (passive_held h u).stable tx d d' hr hi (hA.held u a hu), hA.nonneg, hA.sum⟩
  step := fun _ _ e _ hA => hA.add e

/-! ## Section 2: Members and splits -/

theorem view_houseMembers {tx : DbTx} {d : Db} {now : ℕ} (h : tx.writes.houseMembers = []) :
    (tx.view d now).db.houseMembers = d.houseMembers := by
  show d.houseMembers.patch tx.writes.houseMembers = d.houseMembers
  rw [h, Table.patch_nil]

theorem view_expenses {tx : DbTx} {d : Db} {now : ℕ} (h : tx.writes.expenses = []) :
    (tx.view d now).db.expenses = d.expenses := by
  show d.expenses.patch tx.writes.expenses = d.expenses
  rw [h, Table.patch_nil]

theorem view_expenseSplits {tx : DbTx} {d : Db} {now : ℕ} (h : tx.writes.expenseSplits = []) :
    (tx.view d now).db.expenseSplits = d.expenseSplits := by
  show d.expenseSplits.patch tx.writes.expenseSplits = d.expenseSplits
  rw [h, Table.patch_nil]

theorem activeMember_eq_some {d : Db} {h u : Uuid} {a : ActiveMember}
    (ha : activeMember d h u = some a) :
    a.userId = u ∧ ∃ m, d.houseMembers.lookup (h, u) = some m ∧ m.leftAt = none := by
  unfold activeMember at ha
  split at ha
  · next m hm =>
    split at ha
    · next hl =>
      cases ha
      exact ⟨rfl, m, hm, hl⟩
    · cases ha
  · cases ha

/-- The id of a member is spelled as the database spells it. -/
theorem People.canonical {d : Db} (h : People env d) {k u : Uuid} {m : HouseMember}
    (hm : d.houseMembers.lookup (k, u) = some m) : toUuid u = u := by
  obtain ⟨r, hr, _⟩ := h.user k u m hm
  obtain ⟨n, _, rfl⟩ := h.ids u r hr
  exact env.toUuid_uuid n

section members

variable {A : DbTx → Db → Prop}

theorem triple_lockActiveMembers {houseId : JsString} {ids : Option (List JsString)}
    (hA : (ledgerProtocol env merged unread).Passive Writes.Quiet A)
    (hq : ∀ tx d, A tx d → tx.writes.houseMembers = []) :
    (ledgerProtocol env merged unread).Triple A (lockActiveMembers houseId ids)
      fun ms tx d => A tx d ∧ ∀ m ∈ ms, Held (toUuid houseId) m.userId tx d := by
  refine triple_bind (triple_passive hA (Txn.only_select Writes.quiet_nothing)) fun found => ?_
  refine triple_exec_passive hA (fun _ => Writes.quiet_nothing) ?_
  intro tx d now ms hAd hi hres m hm
  cases hres
  obtain ⟨f, hf, hact⟩ := List.mem_filterMap.mp hm
  obtain ⟨hid, row, hrow, hleft⟩ := activeMember_eq_some hact
  rw [view_houseMembers (hq tx d hAd)] at hrow
  rw [hid]
  refine ⟨hi.1.people.canonical hrow, ?_, row, hrow, hleft⟩
  exact holds_of_lock tx _ (List.mem_map.mpr ⟨f, hf, rfl⟩)

theorem byId_eq_some {members : List ActiveMember} {id : JsString} {m : ActiveMember}
    (h : byId members id = some m) : m ∈ members ∧ m.userId = id := by
  have hid := List.find?_some h
  exact ⟨List.mem_of_find?_eq_some h, by simpa using hid⟩

/-- Reading a record does not depend on how keys are compared. -/
theorem lookup_inst {V : Type} (i j : DecidableEq JsString) (r : Record JsString V) (id : JsString) :
    @AList.lookup _ _ i id r = @AList.lookup _ _ j id r := by
  rw [Subsingleton.elim i j]

/-- What `resolveSplits` returns. Members that are given to it have to be
    held already. -/
theorem triple_resolveSplits {houseId : JsString} {input : ResolveSplitsInput}
    {pre : Option (List ActiveMember)}
    (hA : (ledgerProtocol env merged unread).Passive Writes.Quiet A)
    (hq : ∀ tx d, A tx d → tx.writes.houseMembers = [])
    (hpre : ∀ ms, pre = some ms → ∀ tx d, A tx d → ∀ m ∈ ms, Held (toUuid houseId) m.userId tx d) :
    (ledgerProtocol env merged unread).Triple A (resolveSplits houseId input pre)
      fun splits tx d => A tx d ∧ Resolved (toUuid houseId) input.amountCents splits tx d := by
  have hmembers : (ledgerProtocol env merged unread).Triple A
      (postingMembers houseId input.mode (input.participants ++ [input.paidBy]).eraseDups pre)
      fun ms tx d => A tx d ∧ ∀ m ∈ ms, Held (toUuid houseId) m.userId tx d := by
    unfold postingMembers
    cases pre with
    | some ms => exact triple_pure fun tx d hAd => ⟨hAd, hpre ms rfl tx d hAd⟩
    | none => exact triple_lockActiveMembers hA hq
  refine triple_bind hmembers fun ms => ?_
  have hheld : (ledgerProtocol env merged unread).Passive Writes.Quiet
      fun tx d => A tx d ∧ ∀ m ∈ ms, Held (toUuid houseId) m.userId tx d :=
    hA.and (Passive.all fun m => Passive.all fun _ => passive_held _ _)
  split
  · exact triple_throw _
  · next hinvolved =>
    split
    · exact triple_throw _
    · refine triple_bind (triple_passive hheld (only_postingWeights Writes.quiet_nothing))
        fun weightsBp => ?_
      refine triple_liftSplit fun splits hok tx d hAd => ⟨hAd.1, ?_⟩
      obtain ⟨_, total, htotal, hrule⟩ := computeSplits_rule hok
      cases htotal
      refine ⟨?_, fun u a hu => hrule.nonneg u a ((lookup_inst _ _ _ _).trans hu), hrule.sum⟩
      intro u a hu
      have hpart : u ∈ input.participants :=
        (hrule.keys u).mp (AList.lookup_isSome.mp (by rw [hu]; rfl))
      have hfound : ∃ m, byId ms u = some m := by
        by_contra hnone
        refine hinvolved (List.any_eq_true.mpr ⟨u, ?_, ?_⟩)
        · rw [List.mem_eraseDups]
          exact List.mem_append_left _ hpart
        · simpa [Option.eq_none_iff_forall_ne_some] using hnone
      obtain ⟨m, hm⟩ := hfound
      obtain ⟨hmem, rfl⟩ := byId_eq_some hm
      exact hAd.2 m hmem

end members

/-! ## Section 3: Booking an expense -/

/-- `tx` writes the expense `e` as `row`, and has `splits` for it. -/
structure Booking (env : Env) (h e : Uuid) (row : Expense) (splits : Splits JsString) (tx : DbTx)
    (d : Db) : Prop where
  users : tx.writes.users = []
  houseMembers : tx.writes.houseMembers = []
  invites : tx.writes.invites = []
  expenses : tx.writes.expenses = [(e, some row)]
  id : ∃ n < d.fresh, e = env.uuid n
  pos : 0 < row.amountCents
  old : d.expenses.lookup e = none ∨ ∃ old, d.expenses.lookup e = some old ∧
    row.houseId = old.houseId ∧ row.templateId = old.templateId ∧ row.period = old.period ∧
      row.createdAt = old.createdAt ∧ row.deletedAt = old.deletedAt
  resolved : Resolved h row.amountCents splits tx d

/-- It also deletes the splits `dead` of the expense, which are all it has,
    and inserts the splits `new`. -/
structure Rebooking (env : Env) (h e : Uuid) (row : Expense) (splits : Splits JsString)
    (dead : List Rid) (new : List (Rid × Split)) (tx : DbTx) (d : Db) : Prop
    extends Booking env h e row splits tx d where
  rows : tx.writes.expenseSplits =
    (dead.map fun rid => (rid, some none)) ++ new.map fun r => (r.1, some (some r.2))
  gone : ∀ rid ∈ dead, ∃ s, d.split rid = some s ∧ s.expenseId = e
  all : ∀ rid s, d.split rid = some s → s.expenseId = e → rid ∈ dead
  free : ∀ r ∈ new, r.1 < d.fresh ∧ d.expenseSplits.lookup r.1 = none
  slots : ∀ r ∈ new, tx.Owns (.splitSlot e r.2.userId)

/-- The new splits are those of `splits`. -/
def Rebooked (env : Env) (h e : Uuid) (row : Expense) (splits : Splits JsString) (tx : DbTx)
    (d : Db) : Prop :=
  ∃ dead new, Rebooking env h e row splits dead new tx d ∧
    new.map Prod.snd = splitRowsFor e splits ∧ (new.map Prod.fst).Nodup ∧
    (new.map fun r => r.2.userId).Nodup

section rebooking

variable {h e : Uuid} {row : Expense} {splits : Splits JsString} {dead : List Rid}
  {new : List (Rid × Split)} {tx : DbTx} {d : Db}

theorem Booking.owns_expense (hb : Booking env h e row splits tx d) : tx.Owns (.expense e) :=
  Or.inl (Writes.mem_written.mpr (by rw [hb.expenses]; simp))

theorem Rebooking.owns_row (hb : Rebooking env h e row splits dead new tx d) {rid : Rid}
    (hrid : rid ∈ dead ∨ rid ∈ new.map Prod.fst) : tx.Owns (.split rid) := by
  refine Or.inl (Writes.mem_written.mpr ?_)
  show rid ∈ tx.writes.expenseSplits.map Prod.fst
  rw [hb.rows]
  simpa [Function.comp_def] using hrid

/-- No split of the expense appears while `tx` owns it. -/
theorem LedgerRely.no_new_split {d' : Db} (hr : LedgerRely merged unread tx d d')
    (hown : tx.Holds (.expense e)) {rid : Rid} {s : Split} (hs : d'.split rid = some s)
    (he : s.expenseId = e) : ∃ s₀, d.split rid = some s₀ ∧ s₀.expenseId = e := by
  cases h0 : d.split rid with
  | none => exact absurd (he ▸ hown) (hr.opened rid s hs h0)
  | some s₀ => exact ⟨s₀, rfl, by rw [← he]; exact ((hr.rows rid).split h0 hs).symm⟩

theorem LedgerRely.split_eq {d' : Db} (hr : LedgerRely merged unread tx d d') {rid : Rid}
    (hown : tx.Holds (.split rid)) : d'.split rid = d.split rid := by
  have hlook : d'.expenseSplits.lookup rid = d.expenseSplits.lookup rid := hr.frame _ hown
  rw [Db.split, Db.split, hlook]

theorem Booking.rely {d' : Db} (hb : Booking env h e row splits tx d)
    (hr : LedgerRely merged unread tx d d') (hi : (ledgerProtocol env merged unread).inv d') :
    Booking env h e row splits tx d' := by
  have hexp : d'.expenses.lookup e = d.expenses.lookup e := hr.frame _ hb.owns_expense.holds
  obtain ⟨n, hn, hid⟩ := hb.id
  exact ⟨hb.users, hb.houseMembers, hb.invites, hb.expenses, ⟨n, lt_of_lt_of_le hn hr.fresh, hid⟩,
    hb.pos, by rw [hexp]; exact hb.old, (passive_resolved _ _ _).stable tx d d' hr hi hb.resolved⟩

theorem Booking.add (hb : Booking env h e row splits tx d) (e' : Effect Writes LockKey Note)
    (hu : e'.writes.users = []) (hm : e'.writes.houseMembers = []) (hi : e'.writes.invites = [])
    (hx : e'.writes.expenses = []) : Booking env h e row splits (tx.add e') (tick e'.ids d) := by
  obtain ⟨n, hn, hid⟩ := hb.id
  refine ⟨?_, ?_, ?_, ?_, ⟨n, lt_of_lt_of_le hn (Nat.le_add_right _ _), hid⟩, hb.pos, hb.old,
    hb.resolved.add e'⟩
  · simp [Writes.append, hb.users, hu]
  · simp [Writes.append, hb.houseMembers, hm]
  · simp [Writes.append, hb.invites, hi]
  · simp [Writes.append, hb.expenses, hx]

theorem Rebooking.add (hb : Rebooking env h e row splits dead new tx d)
    (e' : Effect Writes LockKey Note) (hq : e'.writes.Quiet) :
    Rebooking env h e row splits dead new (tx.add e') (tick e'.ids d) := by
  refine ⟨hb.toBooking.add e' hq.users hq.houseMembers hq.invites hq.expenses, ?_, hb.gone, hb.all,
    ?_, fun r hr => owns_add _ _ (hb.slots r hr)⟩
  · simp [Writes.append, hb.rows, hq.expenseSplits]
  · intro r hmem
    obtain ⟨hlt, hnone⟩ := hb.free r hmem
    exact ⟨lt_of_lt_of_le hlt (Nat.le_add_right _ _), hnone⟩

theorem passive_rebooking :
    (ledgerProtocol env merged unread).Passive Writes.Quiet
      (Rebooking env h e row splits dead new) where
  stable := by
    intro tx d d' hr hi hb
    refine ⟨hb.toBooking.rely hr hi, hb.rows, ?_, ?_, ?_, hb.slots⟩
    · intro rid hrid
      rw [hr.split_eq (hb.owns_row (Or.inl hrid)).holds]
      exact hb.gone rid hrid
    · intro rid s hs he
      obtain ⟨s₀, hs₀, he₀⟩ := hr.no_new_split hb.owns_expense.holds hs he
      exact hb.all rid s₀ hs₀ he₀
    · intro r hmem
      obtain ⟨hlt, hnone⟩ := hb.free r hmem
      have hown := hb.owns_row (Or.inr (List.mem_map_of_mem hmem))
      have hlook : d'.expenseSplits.lookup r.1 = d.expenseSplits.lookup r.1 := hr.frame _ hown.holds
      exact ⟨lt_of_lt_of_le hlt hr.fresh, by rw [hlook, hnone]⟩
  step := fun _ _ e' hq hb => hb.add e' hq

theorem passive_rebooked :
    (ledgerProtocol env merged unread).Passive Writes.Quiet (Rebooked env h e row splits) where
  stable := by
    rintro tx d d' hr hi ⟨dead, new, hb, hrest⟩
    exact ⟨dead, new, passive_rebooking.stable tx d d' hr hi hb, hrest⟩
  step := fun _ _ e' hq ⟨dead, new, hb, hrest⟩ => ⟨dead, new, hb.add e' hq, hrest⟩

/-- `insertSplits`, when the old splits of the expense are gone. -/
theorem triple_insertSplits :
    (ledgerProtocol env merged unread).Triple
      (fun tx d => ∃ dead, Rebooking env h e row splits dead [] tx d) (insertSplits e splits)
      fun _ tx d => Rebooked env h e row splits tx d := by
  refine triple_exec ?_ ?_
  · rintro tx d d' hr hi ⟨dead, hb⟩
    exact ⟨dead, passive_rebooking.stable tx d d' hr hi hb⟩
  rintro tx d now _ ⟨dead, hb⟩ hi hres
  -- the insert has passed its checks, so no user comes twice
  have hnodup : ((splitRowsFor e splits).map Split.userId).Nodup := by
    split at hres
    · cases hres
    split at hres
    · cases hres
    split at hres
    · cases hres
    · next hbad => exact not_not.mp fun h => hbad (Or.inl h)
  let new : List (Rid × Split) :=
    (splitRowsFor e splits).zipIdx.map fun s => (d.fresh + s.2, s.1)
  have hsnd : new.map Prod.snd = splitRowsFor e splits := by
    simp [new, Function.comp_def]
  have hfst : new.map Prod.fst = (List.range' 0 (splitRowsFor e splits).length).map (d.fresh + ·) := by
    rw [← List.zipIdx_map_snd 0 (splitRowsFor e splits), List.map_map, List.map_map]
    rfl
  refine ⟨dead, new, ?_, hsnd, ?_, ?_⟩
  · -- the new rows have fresh ids
    have hmem : ∀ r ∈ new, ∃ i < (splitRowsFor e splits).length, r.1 = d.fresh + i := by
      intro r hr
      have hr' := List.mem_map_of_mem (f := Prod.fst) hr
      rw [hfst] at hr'
      obtain ⟨i, hi', heq⟩ := List.mem_map.mp hr'
      rw [List.mem_range'_1] at hi'
      exact ⟨i, by omega, heq.symm⟩
    refine ⟨hb.toBooking.add _ rfl rfl rfl rfl, ?_, hb.gone, hb.all, ?_, ?_⟩
    · have hrows := hb.rows
      simp only [List.map_nil, List.append_nil] at hrows
      simp only [Tx.add_writes, Writes.append_eq, Writes.append, hrows, new, List.map_map]
      rfl
    · intro r hr
      obtain ⟨i, hlt, heq⟩ := hmem r hr
      rw [heq]
      refine ⟨Nat.add_lt_add_left hlt _, ?_⟩
      by_contra hsome
      obtain ⟨o, ho⟩ := Option.ne_none_iff_exists'.mp hsome
      exact absurd (hi.1.bookings.rids _ o ho) (not_lt.mpr (Nat.le_add_right _ _))
    · intro r hr
      -- and their slots are locked
      refine owns_of_lock _ _ (List.mem_map.mpr ⟨r.2, ?_, rfl⟩)
      rw [← hsnd]
      exact List.mem_map_of_mem hr
  · rw [hfst]
    exact List.Nodup.map (add_right_injective d.fresh) List.nodup_range'
  · have huser : (new.map fun r => r.2.userId) = (new.map Prod.snd).map Split.userId := by simp
    rw [huser, hsnd]
    exact hnodup

/-- The id of an expense that the transaction is about to insert. -/
theorem passive_freeExpense {id : Uuid} :
    (ledgerProtocol env merged unread).Passive (fun _ => True)
      fun tx d => tx.Owns (.expense id) ∧ d.expenses.lookup id = none where
  stable := by
    rintro tx d d' hr _ ⟨hown, hnone⟩
    have hsame : d'.expenses.lookup id = d.expenses.lookup id := hr.frame _ hown.holds
    exact ⟨hown, hsame.trans hnone⟩
  step := fun _ _ e _ hA => ⟨owns_add _ e hA.1, hA.2⟩

/-- The first statement of `insertExpense`. -/
def insertExpenseRow (env : Env) (startedAt : Millis) (spec : ExpenseSpec) : DbTxn Uuid :=
  .exec (fun v =>
      { locks := match spec.templateId, spec.period with
          | some t, some p => [(.period t p, .exclusive)]
          | _, _ => []
        writes := { expenses := [(env.uuid v.db.fresh, some (spec.row startedAt))] }
        ids := 1 })
    fun v =>
      if (spec.row startedAt).amountCents ≤ 0 then .error .checkViolation
      else match spec.templateId, spec.period with
        | some t, some p =>
            if (postedFor v.db t p).isSome then .error .uniqueViolation
            else .ok (env.uuid v.db.fresh)
        | _, _ => .ok (env.uuid v.db.fresh)

theorem insertExpense_eq (startedAt : Millis) (spec : ExpenseSpec) (splits : Splits JsString) :
    insertExpense env startedAt spec splits = (do
      let id ← insertExpenseRow env startedAt spec
      insertSplits id splits
      return (id, spec.row startedAt)) := rfl

/-- The row is new, and no split of its id is there. -/
theorem triple_insertExpenseRow {startedAt : Millis} {spec : ExpenseSpec} :
    (ledgerProtocol env merged unread).Triple
      (fun tx d => tx.writes.Quiet ∧ Resolved h spec.amountCents splits tx d)
      (insertExpenseRow env startedAt spec) fun id tx d =>
        (∃ dead, Rebooking env h id (spec.row startedAt) splits dead [] tx d) ∧
          tx.Owns (.expense id) ∧ d.expenses.lookup id = none := by
  refine triple_exec (passive_quiet.stable.and (passive_resolved _ _ _).stable) ?_
  rintro tx d now id ⟨hq, hA⟩ hi hres
  -- the checks have passed, and the id is the fresh one
  have hid : id = env.uuid d.fresh ∧ 0 < spec.amountCents := by
    split at hres
    · cases hres
    · next hpos =>
      refine ⟨?_, not_le.mp hpos⟩
      split at hres
      · split at hres
        · cases hres
        · cases hres; rfl
      · cases hres; rfl
  -- which no expense has
  have hnone : d.expenses.lookup id = none := by
    by_contra hsome
    obtain ⟨r, hr⟩ := Option.ne_none_iff_exists'.mp hsome
    obtain ⟨n, hn, heq⟩ := hi.1.bookings.ids id r hr
    rw [hid.1] at heq
    exact absurd (env.uuid_inj heq) (by omega)
  refine ⟨⟨[], ⟨?_, ?_, ?_, ?_, ⟨d.fresh, Nat.lt_succ_self _, hid.1⟩, hid.2, Or.inl hnone, hA.add _⟩,
    ?_, ?_, ?_, ?_, ?_⟩, owns_of_write _ _ ?_, hnone⟩
  · simp [Writes.append, hq.users]
  · simp [Writes.append, hq.houseMembers]
  · simp [Writes.append, hq.invites]
  · rw [hid.1]
    simp [Writes.append, hq.expenses]
    rfl
  · simp [Writes.append, hq.expenseSplits]
  · intro rid hrid
    cases hrid
  · intro rid s hs he
    obtain ⟨r, hr⟩ := hi.1.bookings.expense rid s hs
    rw [he, hnone] at hr
    cases hr
  · intro r hr
    cases hr
  · intro r hr
    cases hr
  · rw [hid.1]
    simp [Writes.mem_written]
    rfl

/-- The insert of a new expense. -/
theorem triple_insertExpense {startedAt : Millis} {spec : ExpenseSpec} :
    (ledgerProtocol env merged unread).Triple
      (fun tx d => tx.writes.Quiet ∧ Resolved h spec.amountCents splits tx d)
      (insertExpense env startedAt spec splits)
      fun r tx d => r.2 = spec.row startedAt ∧ Rebooked env h r.1 r.2 splits tx d ∧
        d.expenses.lookup r.1 = none := by
  rw [insertExpense_eq]
  exact triple_bind triple_insertExpenseRow fun id =>
    triple_bind (triple_and triple_insertSplits (triple_passive passive_freeExpense
      (only_insertSplits fun _ => trivial))) fun _ => triple_pure fun _ _ hb => ⟨rfl, hb.1, hb.2.2⟩

/-! ### The commit -/

/-- Where the rows of `expense_splits` stand after the commit. -/
theorem Rebooking.lookup (hb : Rebooking env h e row splits dead new tx d)
    (hnd : (new.map Prod.fst).Nodup) (rid : Rid) :
    (∀ s, (rid, s) ∈ new → (tx.commit d).expenseSplits.lookup rid = some (some s)) ∧
    (rid ∈ dead → (tx.commit d).expenseSplits.lookup rid = some none) ∧
    (rid ∉ dead → rid ∉ new.map Prod.fst →
      (tx.commit d).expenseSplits.lookup rid = d.expenseSplits.lookup rid) := by
  have hlook : (tx.commit d).expenseSplits.lookup rid =
      (Table.lastEdit ((dead.map fun rid => (rid, some none)) ++
        new.map fun r => (r.1, some (some r.2))) rid).getD (d.expenseSplits.lookup rid) := by
    rw [← hb.rows]
    exact Table.lookup_patch _ _ _
  have hfst : (new.map fun r => (r.1, some (some r.2))).map Prod.fst = new.map Prod.fst := by
    simp [Function.comp_def]
  have hdead : (dead.map fun rid => (rid, (some none : Option (Option Split)))).map Prod.fst = dead := by
    simp [Function.comp_def]
  rw [hlook, Table.lastEdit_append]
  refine ⟨?_, ?_, ?_⟩
  · intro s hs
    have hlast := Table.lastEdit_of_mem (o := some (some s)) (hfst ▸ hnd)
      (List.mem_map.mpr ⟨(rid, s), hs, rfl⟩)
    rw [hlast]
    rfl
  · intro hrid
    have hnew : Table.lastEdit (new.map fun r => (r.1, some (some r.2))) rid = none := by
      rw [Table.lastEdit_eq_none, hfst]
      intro hmem
      obtain ⟨r, hr, rfl⟩ := List.mem_map.mp hmem
      obtain ⟨s, hs, _⟩ := hb.gone _ hrid
      rw [Db.split_eq_some, (hb.free r hr).2] at hs
      cases hs
    rw [hnew]
    cases hlast : Table.lastEdit (dead.map fun rid => (rid, (some none : Option (Option Split)))) rid with
    | none =>
      rw [Table.lastEdit_eq_none, hdead] at hlast
      exact absurd hrid hlast
    | some o =>
      obtain ⟨_, _, heq⟩ := List.mem_map.mp (Table.mem_of_lastEdit hlast)
      cases heq
      rfl
  · intro hnotdead hnotnew
    rw [← hfst, ← Table.lastEdit_eq_none] at hnotnew
    rw [← hdead, ← Table.lastEdit_eq_none] at hnotdead
    rw [hnotnew, hnotdead]
    rfl

/-- The live splits after the commit. -/
theorem Rebooking.split_iff (hb : Rebooking env h e row splits dead new tx d)
    (hnd : (new.map Prod.fst).Nodup) (rid : Rid) (s : Split) :
    (tx.commit d).split rid = some s ↔
      (rid, s) ∈ new ∨ (d.split rid = some s ∧ s.expenseId ≠ e) := by
  obtain ⟨h₁, h₂, h₃⟩ := hb.lookup hnd rid
  rw [Db.split_eq_some, Db.split_eq_some]
  by_cases hmem : rid ∈ new.map Prod.fst
  · obtain ⟨⟨_, s'⟩, hr, rfl⟩ := List.mem_map.mp hmem
    have hnone := (hb.free _ hr).2
    rw [h₁ s' hr]
    constructor
    · rintro ⟨⟩
      exact Or.inl hr
    · rintro (hs | ⟨hs, _⟩)
      · rw [← h₁ s hs, h₁ s' hr]
      · simp [hnone] at hs
  · have hno : (rid, s) ∉ new := fun hs => hmem (List.mem_map_of_mem hs)
    by_cases hrid : rid ∈ dead
    · obtain ⟨s', hs', he'⟩ := hb.gone rid hrid
      rw [Db.split_eq_some] at hs'
      rw [h₂ hrid, hs']
      constructor
      · rintro ⟨⟩
      · rintro (hs | ⟨⟨⟩, hne⟩)
        · exact absurd hs hno
        · exact absurd he' hne
    · rw [h₃ hrid hmem]
      constructor
      · intro hs
        refine Or.inr ⟨hs, ?_⟩
        intro he
        exact hrid (hb.all rid s (Db.split_eq_some.mpr hs) he)
      · rintro (hs | ⟨hs, _⟩)
        · exact absurd hs hno
        · exact hs

theorem mem_splitRowsFor {s : Split} (hs : s ∈ splitRowsFor e splits) :
    ∃ u, splits.lookup u = some s.amountCents ∧ s.expenseId = e ∧ s.userId = toUuid u := by
  obtain ⟨⟨u, a⟩, hmem, rfl⟩ := List.mem_map.mp hs
  exact ⟨u, Table.mem_rows.mp hmem, rfl, rfl⟩

/-- What is known of a new split. -/
structure NewSplit (h e : Uuid) (tx : DbTx) (d : Db) (s : Split) : Prop where
  expense : s.expenseId = e
  nonneg : 0 ≤ s.amountCents
  held : Held h s.userId tx d

theorem Rebooking.newSplit (hb : Rebooking env h e row splits dead new tx d)
    (hnew : new.map Prod.snd = splitRowsFor e splits) {rid : Rid} {s : Split}
    (hs : (rid, s) ∈ new) : NewSplit h e tx d s := by
  have hmem : s ∈ splitRowsFor e splits := by
    rw [← hnew]
    exact List.mem_map_of_mem (f := Prod.snd) hs
  obtain ⟨u, hu, he, huser⟩ := mem_splitRowsFor hmem
  have hheld := hb.resolved.held u _ hu
  rw [hheld.canonical] at huser
  exact ⟨he, hb.resolved.nonneg u _ hu, huser ▸ hheld⟩

/-- A member of `h` that has not left is no claimed placeholder anywhere. -/
theorem Held.unclaimed (hp : People env d) {u : Uuid} (hA : Held h u tx d) {k : Uuid}
    {m : HouseMember} (hm : d.houseMembers.lookup (k, u) = some m) : m.claimedBy = none := by
  by_contra hne
  obtain ⟨m₀, hm₀, hleft⟩ := hA.active
  have hsome : m.claimedBy.isSome := Option.isSome_iff_ne_none.mpr hne
  have hpl := hp.claimed k u m hm hsome
  have hk : h = k := hp.home k h u m m₀ hm hm₀ hpl
  rw [hk, hm] at hm₀
  cases hm₀
  have hl := (hp.left k u m hm hpl).mp hsome
  rw [hleft] at hl
  cases hl

/-- A placeholder that is a member of `h` is one there. -/
theorem Held.holds_of_placeholder (hp : People env d) {u : Uuid} (hA : Held h u tx d) {k : Uuid}
    (hpl : d.IsPlaceholder k u) : tx.Holds (.member k u) := by
  obtain ⟨m, hm, htrue⟩ := hpl
  obtain ⟨m₀, hm₀, _⟩ := hA.active
  rw [← hp.home k h u m m₀ hm hm₀ htrue]
  exact hA.holds

theorem Rebooking.commit_members (hb : Rebooking env h e row splits dead new tx d) :
    (tx.commit d).users = d.users ∧ (tx.commit d).houseMembers = d.houseMembers := by
  simp [Writes.apply, hb.users, hb.houseMembers]

theorem Rebooking.commit_expense (hb : Rebooking env h e row splits dead new tx d) (e' : Uuid) :
    (tx.commit d).expenses.lookup e' = if e = e' then some row else d.expenses.lookup e' := by
  show (d.expenses.patch tx.writes.expenses).lookup e' = _
  rw [hb.expenses, Table.lookup_patch_singleton]

theorem Rebooking.step (hb : Rebooking env h e row splits dead new tx d)
    (hnd : (new.map Prod.fst).Nodup) (hnew : new.map Prod.snd = splitRowsFor e splits)
    (hp : People env d) : LedgerStep tx d (tx.commit d) := by
  have hsplit := fun {rid s} => hb.split_iff hnd rid s
  have hcleared : Cleared d (tx.commit d) e := fun rid s hs he =>
    (hb.lookup hnd rid).2.1 (hb.all rid s hs he)
  refine { users := ?_, members := ?_, arrivals := ?_, expenses := ?_, rows := ?_, opened := ?_, given := ?_,
           taken := ?_, slots := ?_ }
  · -- users and members are not touched
    rw [hb.commit_members.1]
    exact fun u => UserStep.refl _
  · rw [hb.commit_members.2]
    exact fun k => MemberStep.refl _
  · intro k m hnone hm
    rw [hb.commit_members.2, hnone] at hm
    cases hm
  · -- an expense is new, or keeps what an edit may not change
    intro e'
    rw [hb.commit_expense]
    split
    · next heq =>
      subst heq
      rcases hb.old with hnone | ⟨old, hold, hkept⟩
      · rw [hnone]
        intro r hr
        cases hr
      · rw [hold]
        rintro r ⟨⟩
        exact ⟨row, rfl, hkept⟩
    · exact ExpenseStep.refl _
  · intro rid
    -- physical rows: fresh, deleted, or as before
    obtain ⟨h₁, h₂, h₃⟩ := hb.lookup hnd rid
    by_cases hmem : rid ∈ new.map Prod.fst
    · obtain ⟨⟨_, s⟩, hr, rfl⟩ := List.mem_map.mp hmem
      rw [(hb.free _ hr).2]
      exact ⟨fun hx => (by cases hx), fun s hx => (by cases hx)⟩
    by_cases hrid : rid ∈ dead
    · rw [h₂ hrid]
      exact ⟨fun _ => rfl, fun s _ => Or.inl rfl⟩
    · rw [h₃ hrid hmem]
      exact RowStep.refl _
  · intro rid s hs hn
    -- who opens a split owns the expense
    rcases hsplit.mp hs with hmem | ⟨hold, _⟩
    · rw [(hb.newSplit hnew hmem).expense]
      exact ⟨hb.owns_expense, hcleared⟩
    · rw [hn] at hold
      cases hold
  · -- and holds the placeholder whom it is for
    intro rid s hs hn k hk
    rcases hsplit.mp hs with hmem | ⟨hold, _⟩
    · exact (hb.newSplit hnew hmem).held.holds_of_placeholder hp hk
    · exact absurd hold hn
  · intro rid s hs hn k hk
    -- a split that goes is one of this expense
    by_cases he : s.expenseId = e
    · rw [he]
      exact Or.inr hcleared
    · exact absurd (hsplit.mpr (Or.inr ⟨hs, he⟩)) hn
  · intro rid s hs hn
    -- and each new one has its slot locked
    rcases hsplit.mp hs with hmem | ⟨hold, _⟩
    · rw [(hb.newSplit hnew hmem).expense]
      exact hb.slots _ hmem
    · exact absurd rfl (hn s hold)

theorem Rebooking.bookings (hb : Rebooking env h e row splits dead new tx d)
    (hnd : (new.map Prod.fst).Nodup) (hnew : new.map Prod.snd = splitRowsFor e splits)
    (husers : (new.map fun r => r.2.userId).Nodup) (hp : People env d) (hk : Bookings env d) :
    Bookings env (tx.commit d) := by
  have hsplit := fun {rid s} => hb.split_iff hnd rid s
  refine ⟨?_, ?_, ?_, ?_, ?_, ?_, ?_⟩
  · intro e' r hr
    -- ids are drawn
    rw [hb.commit_expense] at hr
    split at hr
    · next heq => exact heq ▸ hb.id
    · exact hk.ids e' r hr
  · intro e' r hr
    rw [hb.commit_expense] at hr
    split at hr
    · -- amounts are positive
      cases hr
      exact hb.pos
    · exact hk.amount e' r hr
  · intro rid o ho
    -- physical rows: fresh, deleted, or as before
    obtain ⟨h₁, h₂, h₃⟩ := hb.lookup hnd rid
    show rid < d.fresh
    by_cases hmem : rid ∈ new.map Prod.fst
    · obtain ⟨r, hr, rfl⟩ := List.mem_map.mp hmem
      exact (hb.free r hr).1
    by_cases hrid : rid ∈ dead
    · obtain ⟨s, hs, _⟩ := hb.gone rid hrid
      exact hk.rids rid _ (Db.split_eq_some.mp hs)
    · rw [h₃ hrid hmem] at ho
      exact hk.rids rid o ho
  · intro rid s hs
    rw [hb.commit_expense]
    rcases hsplit.mp hs with hmem | ⟨hold, hne⟩
    · exact ⟨row, if_pos (hb.newSplit hnew hmem).expense.symm⟩
    · rw [if_neg (Ne.symm hne)]
      exact hk.expense rid s hold
  · intro rid s hs
    rcases hsplit.mp hs with hmem | ⟨hold, _⟩
    · exact (hb.newSplit hnew hmem).nonneg
    · exact hk.nonneg rid s hold
  · intro rid rid' s s' hs hs' he hu
    -- one split for each user: the new rows replace the old ones of the expense
    rcases hsplit.mp hs with hmem | ⟨hold, hne⟩ <;> rcases hsplit.mp hs' with hmem' | ⟨hold', hne'⟩
    · exact congrArg Prod.fst (List.inj_on_of_nodup_map husers hmem hmem' hu)
    · exact absurd (he.symm.trans (hb.newSplit hnew hmem).expense) hne'
    · exact absurd (he.trans (hb.newSplit hnew hmem').expense) hne
    · exact hk.slot rid rid' s s' hold hold' he hu
  · intro rid s hs k m hm
    -- nobody who gets a split has been claimed
    rw [hb.commit_members.2] at hm
    rcases hsplit.mp hs with hmem | ⟨hold, _⟩
    · exact (hb.newSplit hnew hmem).held.unclaimed hp hm
    · exact hk.holder rid s hold k m hm

theorem Rebooking.balanced (hb : Rebooking env h e row splits dead new tx d)
    (hnd : (new.map Prod.fst).Nodup) (hnew : new.map Prod.snd = splitRowsFor e splits)
    (hbal : Balanced d) : Balanced (tx.commit d) := by
  have hsplit := fun {rid s} => hb.split_iff hnd rid s
  intro e' r hr
  rw [hb.commit_expense] at hr
  split at hr
  · next heq =>
    subst heq
    cases hr
    rw [Db.splitSum_eq (l := new) hnd.of_map, ← hb.resolved.sum]
    · have hcents : (new.map fun r => r.2.amountCents) = splits.rows.map fun r => r.2 := by
        rw [← Function.comp_def Split.amountCents Prod.snd, ← List.map_map, hnew, splitRowsFor,
          List.map_map]
        rfl
      rw [hcents]
      rfl
    · intro rid s
      rw [hsplit]
      constructor
      · exact fun hs => ⟨Or.inl hs, (hb.newSplit hnew hs).expense⟩
      · rintro ⟨hs | ⟨_, hne⟩, he⟩
        · exact hs
        · exact absurd he hne
  · next hne =>
    rw [← hbal e' r hr]
    refine Db.splitSum_congr fun rid s he => ?_
    rw [hsplit]
    constructor
    · rintro (hs | ⟨hold, _⟩)
      · exact absurd ((hb.newSplit hnew hs).expense.symm.trans he) hne
      · exact hold
    · exact fun hs => Or.inr ⟨hs, fun h => hne (h.symm.trans he)⟩

/-- The guarantee of a commit that books an expense. What it says about
    revisions depends on the call. -/
theorem Rebooked.guar (hb : Rebooked env h e row splits tx d) {c : Call}
    (hc : c.isAccept = false) (hbase : LedgerBase env d)
    (hrev : unread → ∀ r ∈ tx.writes.expenseRevisions, Truthful d r)
    (hsaid : d.expenses.lookup e = none ∨ ∃ r ∈ tx.writes.expenseRevisions, r.expenseId = e) :
    LedgerGuar env merged unread c tx d := by
  obtain ⟨dead, new, hb, hnew, hnd, husers⟩ := hb
  have hmem := hb.commit_members
  have hbookings := hb.bookings hnd hnew husers hbase.people hbase.bookings
  exact {
    step := hb.step hnd hnew hbase.people
    base := {
      people := hbase.people.of_kept hmem.1 rfl fun k => by rw [hmem.2]; exact MemberKept.refl _
      bookings := hbookings }
    balanced := fun _ hbal => hb.balanced hnd hnew hbal
    invites := fun i invite hi => by rw [hb.invites] at hi; cases hi
    truthful := hrev
    folds := fun _ ha => by rw [hc] at ha; cases ha
    claims := fun ha => by rw [hc] at ha; cases ha
    kept := by
      intro _ e' hold hnone
      have hne : e ≠ e' := by
        rintro rfl
        rcases hsaid with hfree | ⟨r, hr, he⟩
        · exact hold hfree
        · exact hnone r hr he
      refine SameUpTo.of_same ?_ (fun rid u a => ?_) hbookings
      · rw [hb.commit_expense, if_neg hne]
      · rw [hb.split_iff hnd]
        constructor
        · rintro (hs | ⟨hs, _⟩)
          · exact absurd (hb.newSplit hnew hs).expense.symm hne
          · exact hs
        · exact fun hs => Or.inr ⟨hs, Ne.symm hne⟩ }

end rebooking

/-! ## Section 4: Creating and posting -/

/-- `tx` books the expense `e`. -/
def Books (env : Env) (e : Uuid) (tx : DbTx) (d : Db) : Prop :=
  ∃ h row splits, Rebooked env h e row splits tx d

/-- `tx` books a new expense. -/
def BooksNew (env : Env) (tx : DbTx) (d : Db) : Prop :=
  ∃ e, Books env e tx d ∧ d.expenses.lookup e = none

section books

variable {e : Uuid}

theorem passive_books :
    (ledgerProtocol env merged unread).Passive Writes.Quiet (Books env e) where
  stable := by
    rintro tx d d' hr hi ⟨h, row, splits, hb⟩
    exact ⟨h, row, splits, passive_rebooked.stable tx d d' hr hi hb⟩
  step := by
    rintro tx d e' hq ⟨h, row, splits, dead, new, hb, hrest⟩
    exact ⟨h, row, splits, dead, new, hb.add e' hq, hrest⟩

theorem passive_booksNew :
    (ledgerProtocol env merged unread).Passive Writes.Quiet (BooksNew env) where
  stable := by
    rintro tx d d' hr hi ⟨e, hb, hnone⟩
    obtain ⟨h, row, splits, dead, new, hrow, _⟩ := id hb
    have hsame : d'.expenses.lookup e = d.expenses.lookup e := hr.frame _ hrow.owns_expense.holds
    exact ⟨e, passive_books.stable tx d d' hr hi hb, hsame.trans hnone⟩
  step := by
    rintro tx d e' hq ⟨e, ⟨h, row, splits, dead, new, hb, hrest⟩, hnone⟩
    exact ⟨e, ⟨h, row, splits, dead, new, hb.add e' hq, hrest⟩, hnone⟩

end books

theorem triple_insertExpense_books {h : Uuid} {splits : Splits JsString} {startedAt : Millis}
    {amountCents : ℤ} {spec : ExpenseSpec} (hcents : spec.amountCents = amountCents) :
    (ledgerProtocol env merged unread).Triple
      (fun tx d => tx.writes.Quiet ∧ Resolved h amountCents splits tx d)
      (insertExpense env startedAt spec splits) fun _ => BooksNew env :=
  triple_weaken triple_insertExpense (fun _ _ hA => hcents ▸ hA)
    fun _ _ _ hB => ⟨_, ⟨_, _, _, hB.2.1⟩, hB.2.2⟩

/-- The end of a transaction that books an expense and writes no revision. -/
def PostedExpense (env : Env) (tx : DbTx) (d : Db) : Prop :=
  BooksNew env tx d ∧ tx.writes.expenseRevisions = []

section posting

variable {α : Type} {c : Call} {m : DbTxn α}

/-- A body that books an expense and writes no revision. -/
theorem LedgerBody.of_posted (hc : c.isAccept = false) (A : Db → Prop)
    (h : (ledgerProtocol env merged unread).Triple (fun tx d => tx = Tx.empty ∧ A d) m
      fun _ => BooksNew env)
    (hm : m.Only fun w => w.expenseRevisions = []) :
    LedgerBody env merged unread c A m fun _ => PostedExpense env where
  triple := by
    have hrev : (ledgerProtocol env merged unread).Triple
        (fun tx _ => tx.writes.expenseRevisions = []) m
        fun _ tx _ => tx.writes.expenseRevisions = [] :=
      triple_only (fun w w' hw hw' => by simp [Writes.append, hw, hw']) hm
    refine triple_weaken (triple_and h hrev) ?_ fun _ _ _ hB => hB
    rintro tx d ⟨rfl, hA⟩
    exact ⟨⟨rfl, hA⟩, rfl⟩
  stable := by
    rintro a tx d d' hr hi ⟨hb, hrev⟩
    exact ⟨passive_booksNew.stable tx d d' hr hi hb, hrev⟩
  guar := by
    rintro a tx d ⟨⟨e, ⟨k, row, splits, hb⟩, hnone⟩, hrev⟩ hbase
    exact hb.guar hc hbase (fun _ r hr => by rw [hrev] at hr; cases hr) (Or.inl hnone)

theorem triple_resolveSplitsOr400 {A : DbTx → Db → Prop} {houseId : JsString}
    {input : ResolveSplitsInput}
    (hA : (ledgerProtocol env merged unread).Passive Writes.Quiet A)
    (hq : ∀ tx d, A tx d → tx.writes.houseMembers = []) :
    (ledgerProtocol env merged unread).Triple A (resolveSplitsOr400 houseId input)
      fun splits tx d => A tx d ∧ Resolved (toUuid houseId) input.amountCents splits tx d :=
  triple_mapError (triple_resolveSplits hA hq fun _ h => by cases h)

theorem createExpense_body (hc : c.isAccept = false) {store : StoredResponse → DbTxn Unit}
    (hstore : ∀ p : Writes → Prop, (∀ es, p { idempotencyKeys := es }) → ∀ r, (store r).Only p)
    {h : JsString} {u : Uuid} {input : CreateExpenseInput} {startedAt : Millis} :
    LedgerBody env merged unread c (fun _ => True) (createExpenseTx env h u input store startedAt)
      fun _ => PostedExpense env := by
  refine LedgerBody.of_posted hc _ ?_ (only_createExpenseTx
    (p := fun w => w.expenseRevisions = []) rfl (fun _ => rfl) (fun _ => rfl)
    (fun _ _ => rfl) (hstore _ fun _ => rfl))
  refine triple_weaken (A := fun tx _ => tx.writes.Quiet) ?_
    (fun _ _ hA => by rw [hA.1]; exact Writes.quiet_nothing) fun _ _ _ hB => hB
  refine triple_bind (triple_passive passive_quiet (only_selectHouse Writes.quiet_nothing))
    fun house => triple_bind (triple_passive passive_quiet only_reject) fun _ =>
    triple_bind (triple_resolveSplitsOr400 passive_quiet fun _ _ hq => hq.houseMembers) fun splits =>
    triple_bind (triple_insertExpense_books rfl) fun r => ?_
  refine triple_bind (triple_passive passive_booksNew (only_log ⟨rfl, rfl, rfl, rfl, rfl, rfl⟩))
    fun event => triple_bind (triple_passive passive_booksNew
      (hstore _ (fun _ => ⟨rfl, rfl, rfl, rfl, rfl, rfl⟩) _)) fun _ => triple_pure fun _ _ hB => hB

theorem postOne_body (hc : c.isAccept = false) {bill : DueBill} {period nextRun : JsString} :
    LedgerBody env merged unread c (fun _ => True) (postOneTx env bill period nextRun)
      fun _ => PostedExpense env := by
  refine LedgerBody.of_posted hc _ ?_ (only_postOneTx
    (p := fun w => w.expenseRevisions = []) rfl (fun _ => rfl) (fun _ => rfl)
    (fun _ _ => rfl) fun _ => rfl)
  refine triple_weaken (A := fun tx _ => tx.writes.Quiet) ?_
    (fun _ _ hA => by rw [hA.1]; exact Writes.quiet_nothing) fun _ _ _ hB => hB
  refine triple_bind (triple_passive passive_quiet (only_begin Writes.quiet_nothing))
    fun startedAt => triple_bind (triple_lockActiveMembers passive_quiet fun _ _ hq => hq.houseMembers)
    fun members => ?_
  have hheld : (ledgerProtocol env merged unread).Passive Writes.Quiet fun tx d =>
      tx.writes.Quiet ∧ ∀ m ∈ members, Held (toUuid bill.template.houseId) m.userId tx d :=
    passive_quiet.and (Passive.all fun m => Passive.all fun _ => passive_held _ _)
  refine triple_bind (triple_passive hheld only_reject) fun _ =>
    triple_bind (triple_passive hheld only_reject) fun _ =>
    triple_bind (triple_resolveSplits hheld (fun _ _ hA => hA.1.houseMembers) ?_) fun splits =>
    triple_bind (triple_weaken (triple_insertExpense_books rfl) (fun _ _ hA => ⟨hA.1.1, hA.2⟩)
      fun _ _ _ hB => hB) fun r => ?_
  · rintro ms ⟨⟩ tx d hA
    exact hA.2
  refine triple_bind (triple_passive passive_booksNew
      (only_insertEvent ⟨rfl, rfl, rfl, rfl, rfl, rfl⟩)) fun _ =>
    triple_bind (triple_passive passive_booksNew (only_advanceBill fun _ => ⟨rfl, rfl, rfl, rfl, rfl, rfl⟩))
      fun _ => triple_pure fun _ _ hB => hB

end posting

end Homi
