import Homi.Verification.Postings

/-! # Edits under the ledger protocol

  `editExpense` locks the expense, writes the revision, and replaces the
  splits. The lock keeps new splits out and the row as it was read. It
  does not keep the old splits as they were read, so that the revision is
  truthful only where nobody commits a change to an expense that an open
  transaction has read for a revision (`unread`).
-/

namespace Homi

open ReadCommitted Protocol

variable {env : Env} {merged unread : Prop} {α : Type}

/-! ## Section 1: Assertions of an edit -/

/-- What an edit holds before it writes: the lock on the expense, which is
    still as the edit read it. -/
structure Editing (e : Uuid) (expense : Expense) (tx : DbTx) (d : Db) : Prop where
  users : tx.writes.users = []
  houseMembers : tx.writes.houseMembers = []
  invites : tx.writes.invites = []
  expenses : tx.writes.expenses = []
  expenseSplits : tx.writes.expenseSplits = []
  owns : tx.Owns (.expense e)
  row : d.expenses.lookup e = some expense

/-- Every revision so far is truthful, and is one of `e`. -/
structure Revised (unread : Prop) (e : Uuid) (tx : DbTx) (d : Db) : Prop where
  noted : .snapshot e ∈ tx.notes
  revisions : ∀ r ∈ tx.writes.expenseRevisions, r.expenseId = e ∧ (unread → Truthful d r)

section editing

variable {e : Uuid} {expense row : Expense} {h : Uuid} {splits : Splits JsString} {tx : DbTx}
  {d d' : Db} {c : Call}

theorem Editing.add (hA : Editing e expense tx d) (e' : Effect Writes LockKey Note)
    (hu : e'.writes.users = []) (hm : e'.writes.houseMembers = []) (hi : e'.writes.invites = [])
    (hx : e'.writes.expenses = []) (hs : e'.writes.expenseSplits = []) :
    Editing e expense (tx.add e') (tick e'.ids d) := by
  refine ⟨?_, ?_, ?_, ?_, ?_, owns_add _ _ hA.owns, hA.row⟩
  · simp [Writes.append, hA.users, hu]
  · simp [Writes.append, hA.houseMembers, hm]
  · simp [Writes.append, hA.invites, hi]
  · simp [Writes.append, hA.expenses, hx]
  · simp [Writes.append, hA.expenseSplits, hs]

theorem Editing.rely (hA : Editing e expense tx d) (hr : LedgerRely merged unread tx d d') :
    Editing e expense tx d' := by
  have hexp : d'.expenses.lookup e = d.expenses.lookup e := hr.frame _ hA.owns.holds
  exact { hA with row := by rw [hexp]; exact hA.row }

theorem passive_editing :
    (ledgerProtocol env merged unread).Passive Writes.Quiet (Editing e expense) where
  stable := fun _ _ _ hr _ hA => hA.rely hr
  step := fun _ _ e' hq hA =>
    hA.add e' hq.users hq.houseMembers hq.invites hq.expenses hq.expenseSplits

/-- A revision stays truthful while the expense does not change. -/
theorem Truthful.rely {r : Revision} (hT : Truthful d r) (hs : SameExpense r.expenseId d d') :
    Truthful d' r := by
  obtain ⟨old, hold, hprev, hsplits⟩ := hT
  refine ⟨old, hs.row.trans hold, hprev, ?_⟩
  intro u a
  rw [hsplits]
  constructor
  · exact fun ⟨rid, hrid⟩ => ⟨rid, (hs.splits rid _ rfl).mpr hrid⟩
  · exact fun ⟨rid, hrid⟩ => ⟨rid, (hs.splits rid _ rfl).mp hrid⟩

theorem passive_revised :
    (ledgerProtocol env merged unread).Passive (fun w => w.expenseRevisions = [])
      (Revised unread e) where
  stable := by
    intro tx d d' hr hi hA
    refine ⟨hA.noted, fun r hmem => ?_⟩
    obtain ⟨he, hT⟩ := hA.revisions r hmem
    exact ⟨he, fun hun => (hT hun).rely (he ▸ hr.untouched hun e hA.noted)⟩
  step := by
    intro tx d e' hq hA
    refine ⟨List.mem_append_left _ hA.noted, fun r hmem => ?_⟩
    have hw : (tx.add e').writes.expenseRevisions = tx.writes.expenseRevisions := by
      simp [Writes.append, hq]
    rw [hw] at hmem
    exact hA.revisions r hmem

/-- A revision that is written stays written. -/
theorem passive_said :
    (ledgerProtocol env merged unread).Passive (fun _ => True)
      fun tx _ => ∃ r ∈ tx.writes.expenseRevisions, r.expenseId = e :=
  passive_writes (p := fun w : Writes => ∃ r ∈ w.expenseRevisions, r.expenseId = e)
    fun _ _ ⟨r, hr, he⟩ _ => ⟨r, List.mem_append_left _ hr, he⟩

/-! ## Section 2: The revision -/

/-- The splits that a list of rows shows, as a record. -/
theorem lookup_previousSplits {l : List Split} (hnd : (l.map Split.userId).Nodup) (u : Uuid) (a : ℤ) :
    (l.foldl (fun r s => r.insert s.userId s.amountCents) (∅ : Splits Uuid)).lookup u = some a ↔
      ∃ s ∈ l, s.userId = u ∧ s.amountCents = a := by
  induction l using List.reverseRecOn with
  | nil => simp
  | append_singleton l s ih =>
    rw [List.map_append, List.nodup_append] at hnd
    obtain ⟨hl, _, hdisj⟩ := hnd
    rw [List.foldl_append, List.foldl_cons, List.foldl_nil]
    by_cases hu : u = s.userId
    · subst hu
      rw [AList.lookup_insert]
      constructor
      · rintro ⟨⟩
        exact ⟨s, by simp, rfl, rfl⟩
      · rintro ⟨s', hs', hu', rfl⟩
        rcases List.mem_append.mp hs' with hs' | hs'
        · exact absurd hu' (hdisj _ (List.mem_map_of_mem hs') _ (by simp))
        · rw [List.mem_singleton.mp hs']
    · rw [AList.lookup_insert_ne hu, ih hl]
      constructor
      · rintro ⟨s', hs', hrest⟩
        exact ⟨s', List.mem_append_left _ hs', hrest⟩
      · rintro ⟨s', hs', hu', ha⟩
        rcases List.mem_append.mp hs' with hs' | hs'
        · exact ⟨s', hs', hu', ha⟩
        · rw [List.mem_singleton.mp hs'] at hu'
          exact absurd hu'.symm hu

/-- No user has two splits in an expense. -/
theorem Bookings.nodup_users (hk : Bookings env d) (e : Uuid) :
    ((d.splitsOf e).map fun r => r.2.userId).Nodup := by
  refine List.Nodup.map_on ?_ (d.nodup_splitsOf e)
  rintro ⟨rid, s⟩ hs ⟨rid', s'⟩ hs' hu
  rw [Db.mem_splitsOf] at hs hs'
  have hrid := hk.slot rid rid' s s' hs.1 hs'.1 (hs.2.trans hs'.2.symm) hu
  subst hrid
  rw [hs.1] at hs'
  exact Prod.ext rfl (Option.some.inj hs'.1)

/-- A revision of the expense as `d` has it. -/
theorem truthful_of_rows (hk : Bookings env d) {expense : Expense} {u : Uuid} {l : List Split}
    (hrow : d.expenses.lookup e = some expense) (hl : l.Perm ((d.splitsOf e).map Prod.snd)) :
    Truthful d ⟨e, u, expense.previous l⟩ := by
  refine ⟨expense, hrow, rfl, ?_⟩
  have hnd : (l.map Split.userId).Nodup := by
    refine (hl.map _).nodup_iff.mpr ?_
    rw [List.map_map]
    exact hk.nodup_users e
  intro v a
  refine (lookup_previousSplits hnd v a).trans ?_
  constructor
  · rintro ⟨s, hs, rfl, rfl⟩
    obtain ⟨⟨rid, s'⟩, hmem, rfl⟩ := List.mem_map.mp (hl.mem_iff.mp hs)
    obtain ⟨hsplit, rfl⟩ := Db.mem_splitsOf.mp hmem
    exact ⟨rid, hsplit⟩
  · rintro ⟨rid, hrid⟩
    exact ⟨_, hl.mem_iff.mpr (List.mem_map_of_mem (f := Prod.snd) (Db.mem_splitsOf.mpr ⟨hrid, rfl⟩)),
      rfl, rfl⟩

/-! ## Section 3: The statements -/

/-- `rows` are the splits of the expense. -/
structure Shown (e : Uuid) (rows : List (Rid × Split)) (d : Db) : Prop where
  nodup : rows.Nodup
  mem : ∀ rid s, (rid, s) ∈ rows ↔ d.split rid = some s ∧ s.expenseId = e

theorem Shown.perm {rows : List (Rid × Split)} (hA : Shown e rows d) : rows.Perm (d.splitsOf e) := by
  refine (List.perm_ext_iff_of_nodup hA.nodup (d.nodup_splitsOf e)).mpr ?_
  rintro ⟨rid, s⟩
  rw [hA.mem, Db.mem_splitsOf]

theorem Shown.same {rows : List (Rid × Split)} (hA : Shown e rows d) (hs : SameExpense e d d') :
    Shown e rows d' := by
  refine ⟨hA.nodup, fun rid s => ?_⟩
  rw [hA.mem]
  constructor
  · exact fun hrow => ⟨(hs.splits rid s hrow.2).mpr hrow.1, hrow.2⟩
  · exact fun hrow => ⟨(hs.splits rid s hrow.2).mp hrow.1, hrow.2⟩

theorem triple_lockExpense :
    (ledgerProtocol env merged unread).Triple (fun tx _ => tx = Tx.empty) (lockExpense e)
      fun expense tx d => Editing e expense tx d ∧ Revised unread e tx d := by
  refine triple_exec (stable_const _) ?_
  rintro tx d now expense rfl _ hres
  have hrow : d.expenses.lookup e = some expense := by
    have hrow : ((Tx.empty : DbTx).view d now).db.expenses.lookup e = d.expenses.lookup e := rfl
    rw [hrow] at hres
    cases hfound : d.expenses.lookup e with
    | none =>
      rw [hfound] at hres
      cases hres
    | some found =>
      rw [hfound] at hres
      dsimp only at hres
      split at hres
      · cases hres; rfl
      · cases hres
  refine ⟨⟨rfl, rfl, rfl, rfl, rfl, owns_of_lock _ _ ?_, hrow⟩, ?_, ?_⟩
  · have hsome : ((Tx.empty : DbTx).view d now).db.expenses.lookup e = some expense := hrow
    simp [hsome]
  · exact List.mem_append_right _ (by simp)
  · intro r hr
    cases hr

theorem view_split {now : ℕ} (h : tx.writes.expenseSplits = []) (rid : Rid) :
    (tx.view d now).db.split rid = d.split rid := by
  rw [Db.split, Db.split, view_expenseSplits h]

/-- The old splits, as the revision needs them. -/
theorem triple_previousSplits :
    (ledgerProtocol env merged unread).Triple
      (fun tx d => Editing e expense tx d ∧ Revised unread e tx d)
      (.select fun v => v.db.splitsOf e : DbTxn (List (Rid × Split))) fun rows tx d =>
        (Editing e expense tx d ∧ Revised unread e tx d) ∧ (unread → Shown e rows d) := by
  refine triple_select (passive_editing.stable.and passive_revised.stable) ?_
  rintro tx d now hA hi
  refine ⟨hA, fun _ => ⟨Db.nodup_splitsOf _ _, fun rid s => ?_⟩⟩
  rw [Db.mem_splitsOf, view_split hA.1.expenseSplits]

theorem triple_insertRevision {userId : Uuid} {rows : List (Rid × Split)} :
    (ledgerProtocol env merged unread).Triple
      (fun tx d => (Editing e expense tx d ∧ Revised unread e tx d) ∧ (unread → Shown e rows d))
      (insertRevisions [⟨e, userId, expense.previous (rows.map Prod.snd)⟩]) fun _ tx d =>
        Editing e expense tx d ∧ Revised unread e tx d ∧
          ∃ r ∈ tx.writes.expenseRevisions, r.expenseId = e := by
  refine triple_exec ?_ ?_
  · rintro tx d d' hr hi ⟨⟨hE, hR⟩, hS⟩
    exact ⟨⟨hE.rely hr, passive_revised.stable tx d d' hr hi hR⟩,
      fun hun => (hS hun).same (hr.untouched hun e hR.noted)⟩
  rintro tx d now _ ⟨⟨hE, hR⟩, hS⟩ hi hres
  refine ⟨hE.add _ rfl rfl rfl rfl rfl, ⟨List.mem_append_left _ hR.noted, fun r hr => ?_⟩,
    _, List.mem_append_right _ (List.mem_singleton_self _), rfl⟩
  rcases List.mem_append.mp hr with hr | hr
  · exact hR.revisions r hr
  · rw [List.mem_singleton.mp hr]
    exact ⟨rfl, fun hun =>
      truthful_of_rows hi.1.bookings hE.row ((hS hun).perm.map Prod.snd)⟩

theorem triple_updateExpense {input : EditExpenseInput} :
    (ledgerProtocol env merged unread).Triple
      (fun tx d => Editing e expense tx d ∧ Resolved h input.amountCents splits tx d)
      (updateExpense e input) fun _ tx d =>
        Booking env h e (expense.edited input) splits tx d ∧ tx.writes.expenseSplits = [] := by
  refine triple_exec (passive_editing.stable.and (passive_resolved _ _ _).stable) ?_
  rintro tx d now updated ⟨hE, hA⟩ hi hres
  have hrow : (tx.view d now).db.expenses.lookup e = some expense := by
    rw [view_expenses hE.expenses]
    exact hE.row
  have hpos : 0 < input.amountCents := by
    simp only [hrow] at hres
    split at hres
    · cases hres
    · next hpos => exact not_le.mp hpos
  obtain ⟨n, hn, hid⟩ := hi.1.bookings.ids e expense hE.row
  refine ⟨⟨?_, ?_, ?_, ?_, ⟨n, hn, hid⟩, hpos, Or.inr ⟨expense, hE.row, rfl, rfl, rfl, rfl, rfl⟩, hA.add _⟩, ?_⟩
  · simp [Writes.append, hE.users]
  · simp [Writes.append, hE.houseMembers]
  · simp [Writes.append, hE.invites]
  · simp [Writes.append, hE.expenses, hrow]
  · simp [Writes.append, hE.expenseSplits]

theorem filterMap_split (d : Db) (found : List (Rid × Split)) :
    (found.filterMap fun r => (d.split r.1).map fun _ => (r.1, (some none : Option (Option Split)))) =
      ((found.map Prod.fst).filter fun rid => (d.split rid).isSome).map fun rid => (rid, some none) := by
  induction found with
  | nil => rfl
  | cons r found ih =>
    rw [List.filterMap_cons, List.map_cons, List.filter_cons]
    cases hs : d.split r.1 <;> simp [ih]

/-- The delete finds every split of the expense: none appears while the
    expense is locked. -/
theorem triple_deleteSplitsOf :
    (ledgerProtocol env merged unread).Triple
      (fun tx d => Booking env h e row splits tx d ∧ tx.writes.expenseSplits = [])
      (deleteSplitsOf e) fun _ tx d => ∃ dead, Rebooking env h e row splits dead [] tx d := by
  let Found (found : List (Rid × Split)) (d : Db) : Prop :=
    (∀ rid s, d.split rid = some s → s.expenseId = e → rid ∈ found.map Prod.fst) ∧
    ∀ rid ∈ found.map Prod.fst, ∃ o, d.expenseSplits.lookup rid = some o ∧
      ∀ s, o = some s → s.expenseId = e
  refine triple_bind (B := fun found tx d =>
    (Booking env h e row splits tx d ∧ tx.writes.expenseSplits = []) ∧ Found found d) ?_
    fun found => triple_exec ?_ ?_
  · refine triple_select ?_ ?_
    · rintro tx d d' hr hi ⟨hb, hnone⟩
      exact ⟨hb.rely hr hi, hnone⟩
    · -- the select, which sees one snapshot
      rintro tx d now ⟨hb, hnone⟩ _
      refine ⟨⟨hb, hnone⟩, ?_, ?_⟩
      · intro rid s hs he
        refine List.mem_map_of_mem (f := Prod.fst) (a := (rid, s)) ?_
        rw [Db.mem_splitsOf, view_split hnone]
        exact ⟨hs, he⟩
      · intro rid hmem
        obtain ⟨⟨_, s⟩, hs, rfl⟩ := List.mem_map.mp hmem
        rw [Db.mem_splitsOf, view_split hnone, Db.split_eq_some] at hs
        exact ⟨some s, hs.1, fun s' hs' => Option.some.inj hs' ▸ hs.2⟩
  · -- the wait for the rows: some may go, none may come
    rintro tx d d' hr hi ⟨⟨hb, hnone⟩, hall, hfound⟩
    refine ⟨⟨hb.rely hr hi, hnone⟩, ?_, ?_⟩
    · intro rid s hs he
      obtain ⟨s₀, hs₀, he₀⟩ := hr.no_new_split hb.owns_expense.holds hs he
      exact hall rid s₀ hs₀ he₀
    · intro rid hmem
      obtain ⟨o, ho, he⟩ := hfound rid hmem
      cases o with
      | none => exact ⟨none, (hr.rows rid).1 ho, fun s hs => by cases hs⟩
      | some s =>
        rcases (hr.rows rid).2 s ho with hdead | ⟨s', hs', heq⟩
        · exact ⟨none, hdead, fun s hs => by cases hs⟩
        · exact ⟨some s', hs', fun s'' hs'' => Option.some.inj hs'' ▸ heq.trans (he s rfl)⟩
  · -- the delete, of those that are still there
    rintro tx d now _ ⟨⟨hb, hnone⟩, hall, hfound⟩ _ _
    refine ⟨(found.map Prod.fst).filter fun rid => (d.split rid).isSome,
      hb.add _ rfl rfl rfl rfl, ?_, ?_, ?_, ?_, ?_⟩
    · simp only [Tx.add_writes, Writes.append_eq, Writes.append, hnone, List.nil_append, List.map_nil,
        List.append_nil, view_split hnone]
      exact filterMap_split d found
    · intro rid hmem
      obtain ⟨hmem, hsome⟩ := List.mem_filter.mp hmem
      obtain ⟨s, hs⟩ := Option.isSome_iff_exists.mp hsome
      obtain ⟨o, ho, he⟩ := hfound rid hmem
      rw [Db.split_eq_some, ho] at hs
      exact ⟨s, Db.split_eq_some.mpr (ho.trans hs), he s (Option.some.inj hs)⟩
    · intro rid s hs he
      exact List.mem_filter.mpr ⟨hall rid s hs he, by simp [show d.split rid = some s from hs]⟩
    · intro r hr
      cases hr
    · intro r hr
      cases hr

/-- The end of an edit. -/
def EditedExpense (env : Env) (unread : Prop) (e : Uuid) (tx : DbTx) (d : Db) : Prop :=
  Books env e tx d ∧ Revised unread e tx d ∧ ∃ r ∈ tx.writes.expenseRevisions, r.expenseId = e

theorem editExpense_body (hc : c.isAccept = false) {store : StoredResponse → DbTxn Unit}
    (hstore : ∀ p : Writes → Prop, (∀ es, p { idempotencyKeys := es }) → ∀ r, (store r).Only p)
    {expenseId : JsString} {u : Uuid} {input : EditExpenseInput} {startedAt : Millis} :
    LedgerBody env merged unread c (fun _ => True) (editExpenseTx expenseId u input store startedAt)
      fun _ => EditedExpense env unread (toUuid expenseId) where
  triple := by
    refine triple_weaken ?_ (fun _ _ hA => hA.1) fun _ _ _ hB => hB
    refine triple_bind triple_lockExpense fun expense => ?_
    have hkeep : (ledgerProtocol env merged unread).Passive Writes.Quiet fun tx d =>
        Editing (toUuid expenseId) expense tx d ∧ Revised unread (toUuid expenseId) tx d :=
      passive_editing.and (passive_revised.mono fun _ hq => hq.expenseRevisions)
    refine triple_bind (triple_passive hkeep (Txn.only_select Writes.quiet_nothing)) fun editor =>
      triple_bind (triple_passive hkeep only_reject) fun _ =>
      triple_bind triple_previousSplits fun rows => triple_bind triple_insertRevision fun _ => ?_
    refine triple_and ?_ (triple_and (triple_passive passive_revised ?_)
      (triple_passive passive_said ?_))
    · refine triple_bind (triple_resolveSplitsOr400 passive_editing fun _ _ hA => hA.houseMembers)
        fun splits => triple_bind triple_updateExpense fun updated =>
        triple_bind triple_deleteSplitsOf fun _ =>
        triple_bind (triple_weaken triple_insertSplits (fun _ _ hA => hA)
          fun _ _ _ hB => show Books env _ _ _ from ⟨_, _, _, hB⟩) fun _ => ?_
      exact triple_bind (triple_passive passive_books
          (only_log ⟨rfl, rfl, rfl, rfl, rfl, rfl⟩)) fun event =>
        triple_bind (triple_passive passive_books
          (hstore _ (fun _ => ⟨rfl, rfl, rfl, rfl, rfl, rfl⟩) _)) fun _ => triple_pure fun _ _ hB => hB
    · have h0 : (fun w : Writes => w.expenseRevisions = []) {} := rfl
      exact Txn.only_bind (only_resolveSplitsOr400 h0) fun _ =>
        Txn.only_bind (only_updateExpense fun _ => rfl) fun _ =>
        Txn.only_bind (only_deleteSplitsOf h0 fun _ => rfl) fun _ =>
        Txn.only_bind (only_insertSplits fun _ => rfl) fun _ =>
        Txn.only_bind (only_log rfl) fun _ =>
        Txn.only_bind (hstore _ (fun _ => rfl) _) fun _ => trivial
    · exact Txn.only_bind (only_resolveSplitsOr400 trivial) fun _ =>
        Txn.only_bind (only_updateExpense fun _ => trivial) fun _ =>
        Txn.only_bind (only_deleteSplitsOf trivial fun _ => trivial) fun _ =>
        Txn.only_bind (only_insertSplits fun _ => trivial) fun _ =>
        Txn.only_bind (only_log trivial) fun _ =>
        Txn.only_bind (hstore _ (fun _ => trivial) _) fun _ => trivial
  stable := fun _ => passive_books.stable.and (passive_revised.stable.and passive_said.stable)
  guar := by
    rintro a tx d ⟨⟨k, row, splits, hb⟩, hrev, hsaid⟩ hbase
    exact hb.guar hc hbase (fun hun r hr => (hrev.revisions r hr).2 hun) (Or.inr hsaid)

end editing

end Homi
