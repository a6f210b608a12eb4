import Homi.Verification.Previews
import Homi.Verification.Prompts
import Homi.Verification.Templates

/-! # One run of the worker

  What `postDueBills` does to each bill template when nobody else is
  there. The run reads members, rooms and the template before every
  period, and none of these changes under it: so either all periods of a
  template resolve to the same splits, or the first one fails and pauses
  it.
-/

namespace Homi

open ReadCommitted Calendar

variable {env : Env} {d d' : Db} {now clock : Millis} {bill : DueBill} {t : BillTemplate}
  {period advanced dueISO : JsString} {splits : Splits JsString}

/-! ## Section 1: What a posting resolves to -/

def billInput (t : BillTemplate) (members : List ActiveMember) : ResolveSplitsInput where
  amountCents := t.amountCents
  paidBy := t.ownerId
  mode := t.splitMode
  participants := billParticipants t.splitMode members
  exactCents := none
  weightsBp := none

/-- The splits of the template, from the members and rooms in `d`. -/
def billSplits (d : Db) (t : BillTemplate) : Except Err (Splits JsString) :=
  let members := activeMembers d (toUuid t.houseId) none
  if ¬ members.any fun m => m.userId = t.ownerId then .error (.posting .ownerLeft)
  else if billParticipants t.splitMode members = [] then .error (.posting .nobodyActive)
  else splitsOver d t.houseId (billInput t members) members

/-- The expense of one period. -/
def billSpec (bill : DueBill) (period : JsString) : ExpenseSpec where
  houseId := bill.template.houseId
  description := bill.template.description
  amountCents := bill.template.amountCents
  currency := bill.currency
  paidBy := bill.template.ownerId
  templateId := some bill.id
  period := some period
  createdBy := bill.template.ownerId

def postedEvent (bill : DueBill) (expenseId : Uuid) (period : JsString) : ActivityInput where
  houseId := bill.template.houseId
  actorId := bill.template.ownerId
  type := .billPosted
  entityType := .expense
  entityId := expenseId
  payload := .posted bill.id period bill.template.amountCents

/-- The rest of a posting, once its splits are resolved. -/
def bookBill (env : Env) (startedAt : Millis) (bill : DueBill) (period advanced : JsString)
    (splits : Splits JsString) : DbTxn Uuid := do
  let (id, _) ← insertExpense env startedAt (billSpec bill period) splits
  insertEvent (postedEvent bill id period)
  advanceBill bill.id advanced fun _ => true
  return id

/-- `resolveSplits` over the members that the posting has locked. -/
theorem reads_resolveBill (t : BillTemplate) (members : List ActiveMember) :
    (resolveSplits t.houseId (billInput t members) (some members)).Reads fun v =>
      splitsOver v.db t.houseId (billInput t members) members := by
  let ms : Db → List ActiveMember := fun _ => members
  show (resolveSplits t.houseId (billInput t members) (some members)).Reads fun v =>
    splitsOver v.db t.houseId (billInput t members) (ms v.db)
  exact reads_resolveSplits_over _ _ (Txn.reads_pure _)

theorem postOneTx_alone : (postOneTx env bill period advanced).alone clock d {} =
    match billSplits d bill.template with
    | .error err => (.error err, d, {})
    | .ok splits => (bookBill env clock bill period advanced splits).alone clock d {} := by
  have hseen : (seen ({} : Writes) d clock).db = d := congrArg View.db (seen_nothing d clock)
  unfold postOneTx billSplits
  rw [reads_begin.alone_bind_ok (a := clock) rfl]
  dsimp only
  rw [(reads_lockActiveMembers none).alone_bind_ok (a := activeMembers d (toUuid bill.template.houseId) none)
    (by rw [hseen]; rfl)]
  generalize activeMembers d (toUuid bill.template.houseId) none = members
  by_cases howner : ¬ members.any fun m => m.userId = bill.template.ownerId
  · rw [reads_reject.alone_bind_error (if_pos howner), if_pos howner]
  rw [reads_reject.alone_bind_ok (a := ()) (if_neg howner), if_neg howner]
  by_cases hnobody : billParticipants bill.template.splitMode members = []
  · rw [reads_reject.alone_bind_error (if_pos hnobody), if_pos hnobody]
  rw [reads_reject.alone_bind_ok (a := ()) (if_neg hnobody), if_neg hnobody]
  have hresolve := reads_resolveBill bill.template members
  cases hsplits : splitsOver d bill.template.houseId (billInput bill.template members) members with
  | error err => exact hresolve.alone_bind_error (by rw [hseen]; exact hsplits)
  | ok splits => exact hresolve.alone_bind_ok (by rw [hseen]; exact hsplits)

/-! ### Splits that can be stored -/

/-- Splits that the checks of `expense_splits` let through. -/
structure Storable (splits : Splits JsString) : Prop where
  canonical : ∀ u a, splits.lookup u = some a → toUuid u = u
  nonneg : ∀ u a, splits.lookup u = some a → 0 ≤ a
  nonempty : splits.rows ≠ []

theorem storable_of_billSplits (hp : People env d) (hpos : 0 < t.amountCents)
    (h : billSplits d t = .ok splits) : Storable splits := by
  unfold billSplits splitsOver at h
  dsimp only at h
  split at h
  · cases h
  split at h
  · cases h
  split at h
  · cases h
  split at h
  · cases h
  -- what `computeSplits` returns for the weights it is given
  cases hweights : weightsAt d t.houseId (billInput t (activeMembers d (toUuid t.houseId) none))
      (activeMembers d (toUuid t.houseId) none) with
  | error err =>
    rw [hweights] at h
    cases h
  | ok weightsBp =>
    rw [hweights] at h
    simp only [Except.bind] at h
    cases hcompute : computeSplits
        ((billInput t (activeMembers d (toUuid t.houseId) none)).toSplit weightsBp) with
    | error err =>
      rw [hcompute] at h
      cases h
    | ok computed =>
      rw [hcompute] at h
      cases h
      obtain ⟨_, total, htotal, hrule⟩ := computeSplits_rule hcompute
      cases htotal
      refine ⟨fun u a hu => ?_, fun u a hu => hrule.nonneg u a ((lookup_inst _ _ _ _).trans hu), fun hnil => ?_⟩
      · -- a participant is a member
        have hmem : u ∈ billParticipants t.splitMode (activeMembers d (toUuid t.houseId) none) :=
          (hrule.keys u).mp (AList.lookup_isSome.mp (by rw [hu]; rfl))
        obtain ⟨m, hm, rfl⟩ := List.mem_map.mp hmem
        have hactive : m ∈ activeMembers d (toUuid t.houseId) none := by
          split at hm
          · exact (List.mem_filter.mp hm).1
          · exact hm
        obtain ⟨_, row, hrow, _⟩ := activeMember_eq_some (mem_activeMembers.mp hactive).1
        exact hp.canonical hrow
      · -- an empty split would sum to nothing
        have hsum := hrule.sum
        rw [Table.total, hnil, List.map_nil, List.sum_nil] at hsum
        have hzero : (0 : ℤ) = t.amountCents := hsum
        omega

/-! ## Section 2: Booking one period -/

/-- What the run needs of the database before every period. -/
structure Ready (env : Env) (d : Db) : Prop where
  expenseIds : ∀ e row, d.expenses.lookup e = some row → ∃ n < d.fresh, e = env.uuid n
  rids : ∀ rid row, d.expenseSplits.lookup rid = some row → rid < d.fresh
  splits : ∀ rid s, d.split rid = some s → ∃ row, d.expenses.lookup s.expenseId = some row

theorem Ready.tick (h : Ready env d) (n : ℕ) : Ready env (tick n d) where
  expenseIds e row hrow := by
    obtain ⟨m, hm, hid⟩ := h.expenseIds e row hrow
    exact ⟨m, lt_of_lt_of_le hm (Nat.le_add_right _ _), hid⟩
  rids rid row hrow := lt_of_lt_of_le (h.rids rid row hrow) (Nat.le_add_right _ _)
  splits := h.splits

/-- The id of a new expense is not in use. -/
theorem Ready.free (h : Ready env d) : d.expenses.lookup (env.uuid d.fresh) = none := by
  rw [Option.eq_none_iff_forall_ne_some]
  intro row hrow
  obtain ⟨n, hn, hid⟩ := h.expenseIds _ row hrow
  exact absurd (env.uuid_inj hid) hn.ne'

/-- The rows of `expense_splits` for a new expense. -/
def newSplits (env : Env) (d : Db) (splits : Splits JsString) : Edits Rid (Option Split) :=
  (splitRowsFor (env.uuid d.fresh) splits).zipIdx.map fun (s, i) => (d.fresh + 1 + i, some (some s))

/-- What the posting of one period writes. -/
def bookWrites (env : Env) (startedAt : Millis) (bill : DueBill) (t : BillTemplate)
    (period advanced : JsString) (splits : Splits JsString) (d : Db) : Writes where
  expenses := [(env.uuid d.fresh, some ((billSpec bill period).row startedAt))]
  expenseSplits := newSplits env d splits
  billTemplates := [(bill.id, some { t with nextRun := advanced })]
  activityEvents := [(postedEvent bill (env.uuid d.fresh) period).row]

/-- The database after the posting. -/
def booked (env : Env) (startedAt : Millis) (bill : DueBill) (t : BillTemplate)
    (period advanced : JsString) (splits : Splits JsString) (d : Db) : Db :=
  (bookWrites env startedAt bill t period advanced splits d).apply
    (tick (1 + (splitRowsFor (env.uuid d.fresh) splits).length) d)

/-- No check stops the insert of the splits of a new expense. -/
theorem insertSplits_alone (hready : Ready env d) (hs : Storable splits) {row : Expense} :
    (insertSplits (env.uuid d.fresh) splits).alone clock (tick 1 d)
        { expenses := [(env.uuid d.fresh, some row)] } =
      (.ok (), tick (1 + (splitRowsFor (env.uuid d.fresh) splits).length) d,
        { expenses := [(env.uuid d.fresh, some row)], expenseSplits := newSplits env d splits }) := by
  have hspelled : (splitRowsFor (env.uuid d.fresh) splits).map Split.userId = splits.rows.map Prod.fst := by
    rw [splitRowsFor, List.map_map]
    exact List.map_congr_left fun r hr => hs.canonical r.1 r.2 (Table.mem_rows.mp hr)
  have hempty : ¬ splitRowsFor (env.uuid d.fresh) splits = [] :=
    fun hnil => hs.nonempty (List.map_eq_nil_iff.mp hnil)
  have hnonneg : ¬ (splitRowsFor (env.uuid d.fresh) splits).any (fun s => s.amountCents < 0) = true := by
    rw [List.any_eq_true]
    rintro ⟨s, hmem, hneg⟩
    obtain ⟨r, hr, rfl⟩ := List.mem_map.mp hmem
    exact absurd (hs.nonneg r.1 r.2 (Table.mem_rows.mp hr)) (not_le.mpr (of_decide_eq_true hneg))
  -- no split of a new expense is there yet
  have htaken : ∀ d', d'.expenseSplits = d.expenseSplits →
      ¬ (splitRowsFor (env.uuid d.fresh) splits).any (splitTaken d') = true := by
    intro d' hsame
    rw [List.any_eq_true]
    rintro ⟨s, hmem, htaken⟩
    obtain ⟨r, _, rfl⟩ := List.mem_map.mp hmem
    obtain ⟨⟨rid, s'⟩, hrow, heq⟩ := List.any_eq_true.mp htaken
    rw [Db.mem_splitRows, Db.split, hsame] at hrow
    obtain ⟨row', hrow'⟩ := hready.splits rid s' hrow
    rw [(of_decide_eq_true heq).1, hready.free] at hrow'
    cases hrow'
  have hnodup : ((splitRowsFor (env.uuid d.fresh) splits).map Split.userId).Nodup := by
    rw [hspelled]
    exact splits.nodup_keys_rows
  unfold insertSplits
  rw [Txn.alone_exec, if_neg hempty, if_neg hnonneg,
    if_neg fun hbad => hbad.elim (fun hno => hno hnodup) (htaken _ rfl)]
  refine Prod.ext rfl (Prod.ext ?_ ?_)
  · show tick _ (tick 1 d) = _
    simp [tick, Nat.add_assoc]
  · rfl

theorem insertExpenseRow_alone (hpos : 0 < bill.template.amountCents) :
    (insertExpenseRow env clock (billSpec bill period)).alone clock d {} =
      (if (postedFor d bill.id period).isSome then .error .uniqueViolation else .ok (env.uuid d.fresh),
        tick 1 d, { expenses := [(env.uuid d.fresh, some ((billSpec bill period).row clock))] }) := by
  have hseen : (seen ({} : Writes) d clock).db = d := congrArg View.db (seen_nothing d clock)
  have hamount : ¬ ((billSpec bill period).row clock).amountCents ≤ 0 := not_le.mpr hpos
  unfold insertExpenseRow
  rw [Txn.alone_exec, if_neg hamount, hseen]
  rfl

theorem advanceBill_alone {b : Uuid} {matching : BillTemplate → Bool} {w : Writes}
    (hw : w.billTemplates = []) (ht : d.billTemplates.lookup b = some t) (hmatch : matching t = true) :
    (advanceBill b advanced matching).alone clock d w =
      (.ok (), d, WriteSet.append w { billTemplates := [(b, some { t with nextRun := advanced })] }) := by
  have hrow : (seen w d clock).db.billTemplates.lookup b = some t := by
    show (d.billTemplates.patch w.billTemplates).lookup b = some t
    rw [hw]
    exact ht
  unfold advanceBill
  rw [Txn.alone_exec, hrow, Option.filter_some, if_pos hmatch]
  rfl

/-- A period that is posted already. -/
theorem bookBill_taken (hpos : 0 < bill.template.amountCents)
    (htaken : (postedFor d bill.id period).isSome) :
    ∃ w, (bookBill env clock bill period advanced splits).alone clock d {} =
      (.error .uniqueViolation, tick 1 d, w) := by
  unfold bookBill
  rw [Txn.alone_bind, insertExpense_eq, Txn.alone_bind, insertExpenseRow_alone hpos, if_pos htaken]
  exact ⟨_, rfl⟩

/-- A period that is not. -/
theorem bookBill_free (hready : Ready env d) (hs : Storable splits)
    (hpos : 0 < bill.template.amountCents) (ht : d.billTemplates.lookup bill.id = some t)
    (hfree : ¬ (postedFor d bill.id period).isSome) :
    (bookBill env clock bill period advanced splits).alone clock d {} =
      (.ok (env.uuid d.fresh), tick (1 + (splitRowsFor (env.uuid d.fresh) splits).length) d,
        bookWrites env clock bill t period advanced splits d) := by
  unfold bookBill
  rw [Txn.alone_bind, insertExpense_eq, Txn.alone_bind, insertExpenseRow_alone hpos, if_neg hfree]
  dsimp only
  rw [Txn.alone_bind, insertSplits_alone hready hs]
  dsimp only [Txn.alone_pure]
  rw [Txn.alone_bind, insertEvent, Txn.alone_exec]
  dsimp only
  have hrow : (tick (1 + (splitRowsFor (env.uuid d.fresh) splits).length) d).billTemplates.lookup
      bill.id = some t := ht
  rw [LawfulStore.tick_zero, Txn.alone_bind, advanceBill_alone rfl hrow rfl]
  simp [bookWrites, Writes.append]

/-! ## Section 3: What one template sees of the others -/

/-- The event is about the template `b`. -/
def ActivityEvent.ofBill (b : Uuid) (ev : ActivityEvent) : Bool :=
  match ev.type, ev.payload with
  | .billPosted, .posted templateId _ _ => templateId = b
  | .billCreated, _ | .billPaused, _ | .billResumed, _ => ev.entityId = b
  | _, _ => false

/-- The period of the template is posted. -/
def HasPeriod (d : Db) (b : Uuid) (period : JsString) : Prop := (postedFor d b period).isSome = true

instance (d : Db) (b : Uuid) (period : JsString) : Decidable (HasPeriod d b period) :=
  inferInstanceAs (Decidable (_ = true))

theorem hasPeriod_iff {b : Uuid} : HasPeriod d b period ↔
    ∃ e row, d.expenses.lookup e = some row ∧ row.templateId = some b ∧ row.period = some period := by
  unfold HasPeriod postedFor
  rw [List.find?_isSome]
  constructor
  · rintro ⟨⟨e, row⟩, hmem, hrow⟩
    exact ⟨e, row, Table.mem_rows.mp hmem, of_decide_eq_true hrow⟩
  · rintro ⟨e, row, hmem, hrow⟩
    exact ⟨(e, row), Table.mem_rows.mpr hmem, decide_eq_true hrow⟩

/-- Nothing is lost, and houses, rooms and people are as they were. -/
structure Adds (d d' : Db) : Prop where
  houses : d'.houses = d.houses
  rooms : d'.rooms = d.rooms
  houseMembers : d'.houseMembers = d.houseMembers
  expenses : ∀ e row, d.expenses.lookup e = some row → d'.expenses.lookup e = some row
  rows : ∀ rid s, d.split rid = some s → d'.split rid = some s

theorem Adds.refl (d : Db) : Adds d d := ⟨rfl, rfl, rfl, fun _ _ h => h, fun _ _ h => h⟩

theorem Adds.trans {a b c : Db} (h : Adds a b) (h' : Adds b c) : Adds a c where
  houses := h'.houses.trans h.houses
  rooms := h'.rooms.trans h.rooms
  houseMembers := h'.houseMembers.trans h.houseMembers
  expenses e row hrow := h'.expenses e row (h.expenses e row hrow)
  rows rid s hs := h'.rows rid s (h.rows rid s hs)

/-- An expense that comes is new in its predecessor too. -/
theorem Adds.fresh {e : Uuid} (h : Adds d d') (hnone : d'.expenses.lookup e = none) :
    d.expenses.lookup e = none := by
  rw [Option.eq_none_iff_forall_ne_some]
  intro row hrow
  rw [h.expenses e row hrow] at hnone
  cases hnone

/-- The expenses of the template `b` and their splits are the same in both. -/
structure SameBooks (b : Uuid) (d d' : Db) : Prop where
  expenses : ∀ e row, row.templateId = some b →
    (d'.expenses.lookup e = some row ↔ d.expenses.lookup e = some row)
  splits : ∀ rid s row, d.expenses.lookup s.expenseId = some row → row.templateId = some b →
    (d'.split rid = some s ↔ d.split rid = some s)

theorem SameBooks.trans {b : Uuid} {x y z : Db} (h : SameBooks b x y) (h' : SameBooks b y z) :
    SameBooks b x z where
  expenses e row hb := (h'.expenses e row hb).trans (h.expenses e row hb)
  splits rid s row hrow hb :=
    (h'.splits rid s row ((h.expenses _ row hb).mpr hrow) hb).trans (h.splits rid s row hrow hb)

theorem SameBooks.hasPeriod {b : Uuid} (h : SameBooks b d d') :
    HasPeriod d' b period ↔ HasPeriod d b period := by
  rw [hasPeriod_iff, hasPeriod_iff]
  constructor
  · rintro ⟨e, row, hrow, hb, hp⟩
    exact ⟨e, row, (h.expenses e row hb).mp hrow, hb, hp⟩
  · rintro ⟨e, row, hrow, hb, hp⟩
    exact ⟨e, row, (h.expenses e row hb).mpr hrow, hb, hp⟩

/-- So are its row and its events. -/
structure Untouched (b : Uuid) (d d' : Db) : Prop extends SameBooks b d d' where
  template : d'.billTemplates.lookup b = d.billTemplates.lookup b
  events : d'.activityEvents.filter (ActivityEvent.ofBill b) =
    d.activityEvents.filter (ActivityEvent.ofBill b)

theorem Untouched.refl (b : Uuid) (d : Db) : Untouched b d d :=
  ⟨⟨fun _ _ _ => Iff.rfl, fun _ _ _ _ _ => Iff.rfl⟩, rfl, rfl⟩

theorem Untouched.trans {b : Uuid} {x y z : Db} (h : Untouched b x y) (h' : Untouched b y z) :
    Untouched b x z where
  toSameBooks := h.toSameBooks.trans h'.toSameBooks
  template := h'.template.trans h.template
  events := h'.events.trans h.events

/-- What changes concerns the template `k`. -/
structure Concerns (env : Env) (k : Uuid) (d d' : Db) : Prop extends Adds d d' where
  templates : ∀ b, b ≠ k → d'.billTemplates.lookup b = d.billTemplates.lookup b
  newExpenses : ∀ e row, d'.expenses.lookup e = some row → d.expenses.lookup e = some row ∨
    (d.expenses.lookup e = none ∧ row.templateId = some k)
  newSplits : ∀ rid s, d'.split rid = some s → d.split rid = some s ∨
    d.expenses.lookup s.expenseId = none
  logged : ∃ es, d'.activityEvents = d.activityEvents ++ es ∧
    ∀ ev ∈ es, ∀ b, b ≠ k → ev.ofBill b = false
  ready : Ready env d → Ready env d'

section concerns

variable {k b : Uuid}

theorem Concerns.refl (k : Uuid) (d : Db) : Concerns env k d d where
  toAdds := .refl d
  templates _ _ := rfl
  newExpenses _ _ h := Or.inl h
  newSplits _ _ h := Or.inl h
  logged := ⟨[], (List.append_nil _).symm, fun _ h => by cases h⟩
  ready h := h

theorem Concerns.trans {x y z : Db} (h : Concerns env k x y) (h' : Concerns env k y z) :
    Concerns env k x z where
  toAdds := h.toAdds.trans h'.toAdds
  templates b hb := (h'.templates b hb).trans (h.templates b hb)
  newExpenses e row hrow := by
    rcases h'.newExpenses e row hrow with hold | ⟨hnone, hk⟩
    · exact h.newExpenses e row hold
    · exact Or.inr ⟨h.toAdds.fresh hnone, hk⟩
  newSplits rid s hs := by
    rcases h'.newSplits rid s hs with hold | hnone
    · exact h.newSplits rid s hold
    · exact Or.inr (h.toAdds.fresh hnone)
  logged := by
    obtain ⟨es, hes, habout⟩ := h.logged
    obtain ⟨es', hes', habout'⟩ := h'.logged
    refine ⟨es ++ es', by rw [hes', hes, List.append_assoc], fun ev hev => ?_⟩
    rcases List.mem_append.mp hev with hev | hev
    · exact habout ev hev
    · exact habout' ev hev
  ready hr := h'.ready (h.ready hr)

/-- Another template sees nothing of it. -/
theorem Concerns.untouched (h : Concerns env k d d') (hb : b ≠ k) : Untouched b d d' where
  template := h.templates b hb
  expenses e row hrow := by
    refine ⟨fun hnew => ?_, h.expenses e row⟩
    rcases h.newExpenses e row hnew with hold | ⟨_, hk⟩
    · exact hold
    · rw [hk] at hrow
      exact absurd (Option.some.inj hrow).symm hb
  splits rid s row hrow _ := by
    refine ⟨fun hnew => ?_, h.rows rid s⟩
    rcases h.newSplits rid s hnew with hold | hnone
    · exact hold
    · rw [hrow] at hnone
      cases hnone
  events := by
    obtain ⟨es, hes, habout⟩ := h.logged
    have hnone : es.filter (ActivityEvent.ofBill b) = [] :=
      List.filter_eq_nil_iff.mpr fun ev hev hof => by
        rw [habout ev hev b hb] at hof
        cases hof
    rw [hes, List.filter_append, hnone, List.append_nil]

end concerns

/-! ## Section 4: The steps of one template -/

/-- An update of one template, after some ids were drawn. -/
def updated (n : ℕ) (b : Uuid) (t : BillTemplate) (events : List ActivityEvent) (d : Db) : Db :=
  Writes.apply { billTemplates := [(b, some t)], activityEvents := events } (tick n d)

theorem updated_concerns {n : ℕ} {b : Uuid} {events : List ActivityEvent}
    (habout : ∀ ev ∈ events, ∀ b', b' ≠ b → ev.ofBill b' = false) :
    Concerns env b d (updated n b t events d) where
  houses := rfl
  rooms := rfl
  houseMembers := rfl
  expenses _ _ h := h
  rows _ _ h := h
  templates b' hb' := by
    show (d.billTemplates.patch [(b, some t)]).lookup b' = _
    rw [Table.lookup_patch_singleton, if_neg (Ne.symm hb')]
  newExpenses _ _ h := Or.inl h
  newSplits _ _ h := Or.inl h
  logged := ⟨events, rfl, habout⟩
  ready h := ⟨(h.tick n).expenseIds, (h.tick n).rids, (h.tick n).splits⟩

theorem updated_template {n : ℕ} {b : Uuid} {events : List ActivityEvent} :
    (updated n b t events d).billTemplates.lookup b = some t := by
  show (d.billTemplates.patch [(b, some t)]).lookup b = some t
  rw [Table.lookup_patch_singleton, if_pos rfl]

section booked

/-- The new splits of the expense. -/
theorem mem_splitRowsFor_iff (hs : Storable splits) {e : Uuid} {s : Split} :
    s ∈ splitRowsFor e splits ↔ s.expenseId = e ∧ splits.lookup s.userId = some s.amountCents := by
  unfold splitRowsFor
  rw [List.mem_map]
  constructor
  · rintro ⟨⟨u, a⟩, hrow, rfl⟩
    have hlook := Table.mem_rows.mp hrow
    refine ⟨rfl, ?_⟩
    dsimp only
    rw [show toUuid u = u from hs.canonical u a hlook]
    exact hlook
  · rintro ⟨rfl, hlook⟩
    refine ⟨(s.userId, s.amountCents), Table.mem_rows.mpr hlook, ?_⟩
    dsimp only
    rw [show toUuid s.userId = s.userId from hs.canonical _ _ hlook]

theorem nodup_newSplits : ((newSplits env d splits).map Prod.fst).Nodup := by
  unfold newSplits
  rw [List.map_map]
  have hidx : ((splitRowsFor (env.uuid d.fresh) splits).zipIdx.map Prod.snd).Nodup := by
    rw [List.zipIdx_map_snd]
    exact List.nodup_range'
  have hmap := hidx.map (f := fun i => d.fresh + 1 + i) fun i j h => by
    dsimp only at h
    omega
  rw [List.map_map] at hmap
  exact hmap

theorem mem_newSplits {rid : Rid} {o : Option (Option Split)} (h : (rid, o) ∈ newSplits env d splits) :
    d.fresh < rid ∧ rid < d.fresh + (1 + (splitRowsFor (env.uuid d.fresh) splits).length) ∧
      ∃ s ∈ splitRowsFor (env.uuid d.fresh) splits, o = some (some s) := by
  obtain ⟨⟨s, i⟩, hmem, heq⟩ := List.mem_map.mp h
  obtain ⟨rfl, rfl⟩ := Prod.mk.inj heq
  have hget : (splitRowsFor (env.uuid d.fresh) splits)[i]? = some s :=
    List.mem_zipIdx_iff_getElem?.mp hmem
  have hlt := (List.getElem?_eq_some_iff.mp hget).1
  have hlow : d.fresh < d.fresh + 1 + i := by omega
  have hhigh : d.fresh + 1 + i < d.fresh + (1 + (splitRowsFor (env.uuid d.fresh) splits).length) := by
    omega
  exact ⟨hlow, hhigh, s, List.mem_of_getElem? hget, rfl⟩

theorem exists_newSplit {s : Split} (h : s ∈ splitRowsFor (env.uuid d.fresh) splits) :
    ∃ rid, (rid, some (some s)) ∈ newSplits env d splits := by
  obtain ⟨i, hi⟩ := List.getElem?_of_mem h
  refine ⟨d.fresh + 1 + i, List.mem_map.mpr ⟨(s, i), ?_, rfl⟩⟩
  exact List.mem_zipIdx_iff_getElem?.mpr hi

/-- The rows of `expense_splits` after the posting. -/
theorem booked_split (hready : Ready env d) {rid : Rid} {s : Split} :
    (booked env clock bill t period advanced splits d).split rid = some s ↔
      d.split rid = some s ∨ (rid, some (some s)) ∈ newSplits env d splits := by
  rw [Db.split_eq_some, Db.split_eq_some]
  show (d.expenseSplits.patch (newSplits env d splits)).lookup rid = _ ↔ _
  rw [Table.lookup_patch]
  cases hedit : Table.lastEdit (newSplits env d splits) rid with
  | none =>
    have hno : rid ∉ (newSplits env d splits).map Prod.fst := Table.lastEdit_eq_none.mp hedit
    constructor
    · exact Or.inl
    · intro h
      rcases h with hold | hnew
      · exact hold
      · exact absurd (List.mem_map.mpr ⟨_, hnew, rfl⟩) hno
  | some o =>
    have hmem := Table.mem_of_lastEdit hedit
    have hnone : ∀ row, d.expenseSplits.lookup rid ≠ some row := by
      intro row hrow
      have hlt : rid < d.fresh := hready.rids rid row hrow
      exact absurd (mem_newSplits hmem).1 (Nat.not_lt.mpr hlt.le)
    constructor
    · intro h
      cases h
      exact Or.inr hmem
    · intro h
      rcases h with hold | hnew
      · exact absurd hold (hnone _)
      · rw [Table.lastEdit_of_mem nodup_newSplits hnew] at hedit
        exact (Option.some.inj hedit).symm

theorem booked_expense {e : Uuid} :
    (booked env clock bill t period advanced splits d).expenses.lookup e =
      if e = env.uuid d.fresh then some ((billSpec bill period).row clock) else d.expenses.lookup e := by
  show (d.expenses.patch [(env.uuid d.fresh, some _)]).lookup e = _
  rw [Table.lookup_patch_singleton]
  by_cases he : e = env.uuid d.fresh
  · rw [if_pos he, if_pos he.symm]
  · rw [if_neg he, if_neg (Ne.symm he)]

theorem booked_concerns (hready : Ready env d) (hs : Storable splits) :
    Concerns env bill.id d (booked env clock bill t period advanced splits d) where
  houses := rfl
  rooms := rfl
  houseMembers := rfl
  expenses e row hrow := by
    rw [booked_expense, if_neg fun he => ?_]
    · exact hrow
    · rw [he, hready.free] at hrow
      cases hrow
  rows rid s h := (booked_split hready).mpr (Or.inl h)
  templates b hb := by
    show (d.billTemplates.patch [(bill.id, some _)]).lookup b = _
    rw [Table.lookup_patch_singleton, if_neg (Ne.symm hb)]
  newExpenses e row hrow := by
    rw [booked_expense] at hrow
    by_cases he : e = env.uuid d.fresh
    · rw [if_pos he] at hrow
      cases hrow
      exact Or.inr ⟨he ▸ hready.free, rfl⟩
    · rw [if_neg he] at hrow
      exact Or.inl hrow
  newSplits rid s h := by
    -- a new split is for the new expense
    rcases (booked_split hready).mp h with hold | hnew
    · exact Or.inl hold
    · obtain ⟨_, _, s', hmem, heq⟩ := mem_newSplits hnew
      cases heq
      rw [((mem_splitRowsFor_iff hs).mp hmem).1]
      exact Or.inr hready.free
  logged := by
    refine ⟨[(postedEvent bill (env.uuid d.fresh) period).row], rfl, fun ev hev b hb => ?_⟩
    rw [List.mem_singleton.mp hev]
    exact decide_eq_false (Ne.symm hb)
  ready _ := by
    -- the ids that come next are still free
    refine ⟨fun e row hrow => ?_, fun rid row hrow => ?_, fun rid s h => ?_⟩
    · rw [booked_expense] at hrow
      by_cases he : e = env.uuid d.fresh
      · exact ⟨d.fresh, Nat.lt_add_of_pos_right (by omega), he⟩
      · rw [if_neg he] at hrow
        exact (hready.tick _).expenseIds e row hrow
    · rcases lookup_patch_cases hrow with hold | hnew
      · exact (hready.tick _).rids rid row hold
      · exact (mem_newSplits hnew).2.1
    · rcases (booked_split hready).mp h with hold | hnew
      · obtain ⟨row, hrow⟩ := hready.splits rid s hold
        refine ⟨row, ?_⟩
        rw [booked_expense, if_neg fun he => ?_]
        · exact hrow
        · rw [he, hready.free] at hrow
          cases hrow
      · obtain ⟨_, _, s', hmem, heq⟩ := mem_newSplits hnew
        cases heq
        refine ⟨(billSpec bill period).row clock, ?_⟩
        rw [booked_expense, if_pos ((mem_splitRowsFor_iff hs).mp hmem).1]

end booked

/-! ## Section 5: The periods of one template -/

/-- A handled period, with the expense if this run posted it. -/
abbrev Handled : Type := JsString × Option Uuid

/-- The work on one template: the periods `hs` were handled, and those that
    were not posted yet are posted now. -/
structure Worked (env : Env) (clock : Millis) (bill : DueBill) (splits : Splits JsString) (d d' : Db)
    (hs : List Handled) : Prop extends Concerns env bill.id d d' where
  posted : ∀ p e, (p, some e) ∈ hs → d.expenses.lookup e = none ∧
    d'.expenses.lookup e = some ((billSpec bill p).row clock) ∧
    ∀ u a, (∃ rid, d'.split rid = some ⟨e, u, a⟩) ↔ splits.lookup u = some a
  only : ∀ e row, d'.expenses.lookup e = some row →
    d.expenses.lookup e = some row ∨ ∃ p, (p, some e) ∈ hs
  events : d'.activityEvents = d.activityEvents ++
    hs.filterMap fun h => h.2.map fun e => (postedEvent bill e h.1).row
  already : ∀ p o, (p, o) ∈ hs → (o = none ↔ HasPeriod d bill.id p)

section worked

theorem Worked.nil : Worked env clock bill splits d d [] where
  toConcerns := .refl _ d
  posted _ _ h := by cases h
  only _ _ h := Or.inl h
  events := (List.append_nil _).symm
  already _ _ h := by cases h

/-- Other periods are posted where they were. -/
theorem Worked.hasPeriod {hs : List Handled} (h : Worked env clock bill splits d d' hs)
    (hp : period ∉ hs.map Prod.fst) : HasPeriod d' bill.id period ↔ HasPeriod d bill.id period := by
  rw [hasPeriod_iff, hasPeriod_iff]
  constructor
  · rintro ⟨e, row, hrow, hb, hperiod⟩
    rcases h.only e row hrow with hold | ⟨p, hmem⟩
    · exact ⟨e, row, hold, hb, hperiod⟩
    · rw [(h.posted p e hmem).2.1] at hrow
      cases hrow
      cases hperiod
      exact absurd (List.mem_map.mpr ⟨_, hmem, rfl⟩) hp
  · rintro ⟨e, row, hrow, hb, hperiod⟩
    exact ⟨e, row, h.expenses e row hrow, hb, hperiod⟩

theorem Worked.append {x y z : Db} {hs hs' : List Handled} (h : Worked env clock bill splits x y hs)
    (h' : Worked env clock bill splits y z hs')
    (hnew : ∀ p ∈ hs'.map Prod.fst, p ∉ hs.map Prod.fst) :
    Worked env clock bill splits x z (hs ++ hs') where
  toConcerns := h.toConcerns.trans h'.toConcerns
  posted p e hmem := by
    rcases List.mem_append.mp hmem with hmem | hmem
    · obtain ⟨hnone, hrow, hsplits⟩ := h.posted p e hmem
      refine ⟨hnone, h'.expenses e _ hrow, fun u a => ?_⟩
      rw [← hsplits u a]
      constructor
      · -- the later periods add no split to an expense that is there
        rintro ⟨rid, hs⟩
        rcases h'.newSplits rid _ hs with hold | hnone'
        · exact ⟨rid, hold⟩
        · rw [hrow] at hnone'
          cases hnone'
      · rintro ⟨rid, hs⟩
        exact ⟨rid, h'.rows rid _ hs⟩
    · obtain ⟨hnone, hrest⟩ := h'.posted p e hmem
      exact ⟨h.toAdds.fresh hnone, hrest⟩
  only e row hrow := by
    rcases h'.only e row hrow with hold | ⟨p, hmem⟩
    · rcases h.only e row hold with hold | ⟨p, hmem⟩
      · exact Or.inl hold
      · exact Or.inr ⟨p, List.mem_append_left _ hmem⟩
    · exact Or.inr ⟨p, List.mem_append_right _ hmem⟩
  events := by rw [h'.events, h.events, List.filterMap_append, List.append_assoc]
  already p o hmem := by
    rcases List.mem_append.mp hmem with hmem | hmem
    · exact h.already p o hmem
    · rw [h'.already p o hmem, h.hasPeriod (hnew p (List.mem_map.mpr ⟨_, hmem, rfl⟩))]

theorem worked_booked (hready : Ready env d) (hs : Storable splits)
    (hfree : ¬ HasPeriod d bill.id period) :
    Worked env clock bill splits d (booked env clock bill t period advanced splits d)
      [(period, some (env.uuid d.fresh))] where
  toConcerns := booked_concerns hready hs
  posted p e hmem := by
    obtain ⟨rfl, he⟩ := Prod.mk.inj (List.mem_singleton.mp hmem)
    cases he
    refine ⟨hready.free, by rw [booked_expense, if_pos rfl], fun u a => ?_⟩
    constructor
    · rintro ⟨rid, hsplit⟩
      rcases (booked_split hready).mp hsplit with hold | hnew
      · obtain ⟨row, hrow⟩ := hready.splits rid _ hold
        rw [hready.free] at hrow
        cases hrow
      · obtain ⟨_, _, s', hmem', heq⟩ := mem_newSplits hnew
        cases heq
        exact ((mem_splitRowsFor_iff hs).mp hmem').2
    · intro hu
      obtain ⟨rid, hnew⟩ := exists_newSplit (d := d) (s := ⟨env.uuid d.fresh, u, a⟩)
        ((mem_splitRowsFor_iff hs).mpr ⟨rfl, hu⟩)
      exact ⟨rid, (booked_split hready).mpr (Or.inr hnew)⟩
  only e row hrow := by
    rw [booked_expense] at hrow
    by_cases he : e = env.uuid d.fresh
    · rw [he]
      exact Or.inr ⟨period, List.mem_singleton_self _⟩
    · rw [if_neg he] at hrow
      exact Or.inl hrow
  events := rfl
  already p o hmem := by
    obtain ⟨rfl, rfl⟩ := Prod.mk.inj (List.mem_singleton.mp hmem)
    exact ⟨fun h => (by cases h), fun h => absurd h hfree⟩

theorem worked_updated {n : ℕ} (htaken : HasPeriod d bill.id period) :
    Worked env clock bill splits d (updated n bill.id t [] d) [(period, none)] where
  toConcerns := updated_concerns fun _ h => by cases h
  posted p e hmem := by cases (Prod.mk.inj (List.mem_singleton.mp hmem)).2
  only _ _ h := Or.inl h
  events := rfl
  already p o hmem := by
    obtain ⟨rfl, rfl⟩ := Prod.mk.inj (List.mem_singleton.mp hmem)
    exact ⟨fun _ => htaken, fun _ => rfl⟩

end worked

/-- The active members of the house and its rooms decide what a bill
    resolves to. -/
structure SameHouse (houseId : Uuid) (d d' : Db) : Prop where
  members : activeMembers d' houseId none = activeMembers d houseId none
  rooms : d'.rooms.rows.filter (fun r => r.2.houseId = houseId) =
    d.rooms.rows.filter fun r => r.2.houseId = houseId

theorem SameHouse.billSplits {t : BillTemplate} (h : SameHouse (toUuid t.houseId) d d') :
    billSplits d' t = billSplits d t := by
  have hrooms : ∀ participants members,
      roomsAt d' t.houseId participants members = roomsAt d t.houseId participants members := by
    intro participants members
    have hsplit : ∀ d₀ : Db, roomsAt d₀ t.houseId participants members =
        (d₀.rooms.rows.filter fun r => r.2.houseId = toUuid t.houseId).filter fun r =>
          r.1 ∈ (participants.filterMap fun id => (byId members id).bind ActiveMember.roomId).eraseDups := by
      intro d₀
      rw [List.filter_filter]
      exact List.filter_congr fun r _ => by
        simp only [Bool.decide_and, Bool.and_comm]
    rw [hsplit, hsplit, h.rooms]
  unfold Homi.billSplits splitsOver weightsAt roomWeightsAt
  simp only [h.members, hrooms]

theorem billSplits_congr {t : BillTemplate} (hm : d'.houseMembers = d.houseMembers)
    (hr : d'.rooms = d.rooms) : billSplits d' t = billSplits d t := by
  have hactive : ∀ h u, activeMember d' h u = activeMember d h u := by
    intro h u
    unfold activeMember
    rw [hm]
  have hsame : SameHouse (toUuid t.houseId) d d' := by
    refine ⟨?_, by rw [hr]⟩
    unfold activeMembers
    simp only [hm, hactive]
  exact hsame.billSplits

/-! ### The due dates of a run -/

/-- The due dates from `start` on, `start` included. -/
def dueFrom (cadence : Cadence) (cadenceDay start : JsString) : ℕ → Except ScheduleError JsString
  | 0 => .ok start
  | k + 1 => do nextDueDate cadence cadenceDay (← dueFrom cadence cadenceDay start k)

theorem dueFrom_next {cadence : Cadence} {cadenceDay start : JsString}
    (h : nextDueDate cadence cadenceDay start = .ok advanced) (k : ℕ) :
    dueFrom cadence cadenceDay start (k + 1) = dueFrom cadence cadenceDay advanced k := by
  induction k with
  | zero => exact h
  | succ k ih =>
    rw [dueFrom, ih]
    rfl

/-- A run over `n` periods at most handles `periods`, and it stops at `last`. -/
structure Catches (cadence : Cadence) (cadenceDay today start : JsString) (n : ℕ)
    (periods : List JsString) (last : JsString) : Prop where
  bound : periods.length ≤ n
  reached : dueFrom cadence cadenceDay start periods.length = .ok last
  stop : today < last ∨ periods.length = n
  due : ∀ i p, periods[i]? = some p → ∃ iso, dueFrom cadence cadenceDay start i = .ok iso ∧
    ¬ today < iso ∧ periodKey cadence iso = .ok p

section catches

variable {cadence : Cadence} {cadenceDay today start last last' : JsString} {n : ℕ}
  {periods periods' : List JsString}

/-- The dates decide when a run stops. -/
theorem Catches.length_le (h : Catches cadence cadenceDay today start n periods last)
    (h' : Catches cadence cadenceDay today start n periods' last') :
    periods.length ≤ periods'.length := by
  by_contra hlt
  rw [not_le] at hlt
  have hget : periods[periods'.length]? = some periods[periods'.length] := List.getElem?_eq_getElem hlt
  obtain ⟨iso, hiso, hdue, _⟩ := h.due _ _ hget
  have hsame : iso = last' := Except.ok.inj (hiso.symm.trans h'.reached)
  rw [hsame] at hdue
  rcases h'.stop with hstop | hstop
  · exact hdue hstop
  · have hbound := h.bound
    omega

theorem Catches.unique (h : Catches cadence cadenceDay today start n periods last)
    (h' : Catches cadence cadenceDay today start n periods' last') :
    periods = periods' ∧ last = last' := by
  have hlen : periods.length = periods'.length := le_antisymm (h.length_le h') (h'.length_le h)
  refine ⟨List.ext_getElem? fun i => ?_, ?_⟩
  · by_cases hi : i < periods.length
    · have hget : periods[i]? = some periods[i] := List.getElem?_eq_getElem hi
      have hget' : periods'[i]? = some periods'[i] := List.getElem?_eq_getElem (hlen ▸ hi)
      obtain ⟨iso, hiso, _, hp⟩ := h.due i _ hget
      obtain ⟨iso', hiso', _, hp'⟩ := h'.due i _ hget'
      cases hiso.symm.trans hiso'
      rw [hget, hget', Except.ok.inj (hp.symm.trans hp')]
    · rw [List.getElem?_eq_none (not_lt.mp hi), List.getElem?_eq_none (hlen ▸ not_lt.mp hi)]
  · have hlast := h.reached
    rw [hlen, h'.reached] at hlast
    exact (Except.ok.inj hlast).symm

theorem Catches.nil (h : today < start ∨ n = 0) :
    Catches cadence cadenceDay today start n [] start where
  bound := Nat.zero_le n
  reached := rfl
  stop := h.imp_right Eq.symm
  due i p hp := by cases hp

theorem Catches.cons (hdue : ¬ today < start) (hp : periodKey cadence start = .ok period)
    (hnext : nextDueDate cadence cadenceDay start = .ok advanced)
    (h : Catches cadence cadenceDay today advanced n periods last) :
    Catches cadence cadenceDay today start (n + 1) (period :: periods) last where
  bound := Nat.succ_le_succ h.bound
  reached := (dueFrom_next hnext _).trans h.reached
  stop := h.stop.imp_right fun hlen => congrArg (· + 1) hlen
  due i p hget := by
    cases i with
    | zero =>
      cases hget
      exact ⟨start, rfl, hdue, hp⟩
    | succ i =>
      rw [dueFrom_next hnext]
      exact h.due i p hget

end catches

/-! ### The loop -/

section loop

variable {next : Except Err (Uuid × JsString) → DbProg}

theorem postOne_alone (hkey : periodKey bill.template.cadence dueISO = .ok period) (hready : Ready env d)
    (hs : Storable splits) (hpos : 0 < bill.template.amountCents)
    (ht : d.billTemplates.lookup bill.id = some t) (hsplits : billSplits d bill.template = .ok splits) :
    (postOne env bill dueISO advanced next).alone clock d {} =
      if HasPeriod d bill.id period then (next (.error .uniqueViolation)).alone clock (tick 1 d) {}
      else (next (.ok (env.uuid d.fresh, period))).alone clock
        (booked env clock bill t period advanced splits d) {} := by
  unfold postOne
  rw [hkey]
  dsimp only
  rw [Prog.alone_transact, postOneTx_alone, hsplits]
  dsimp only
  by_cases htaken : HasPeriod d bill.id period
  · obtain ⟨w, hw⟩ := @bookBill_taken env d clock bill period advanced splits hpos htaken
    rw [if_pos htaken, hw]
    rfl
  · rw [if_neg htaken, bookBill_free hready hs hpos ht htaken]
    rfl

/-- A period that fails leaves the database as it was. -/
theorem postOne_fails {err : Err} (hkey : periodKey bill.template.cadence dueISO = .ok period)
    (hsplits : billSplits d bill.template = .error err) :
    (postOne env bill dueISO advanced next).alone clock d {} =
      (next (.error err)).alone clock d {} := by
  unfold postOne
  rw [hkey]
  dsimp only
  rw [Prog.alone_transact, postOneTx_alone, hsplits]
  rfl

/-- The template moves on from a period that is posted already. -/
theorem advance_alone {n : ℕ} {k : Except Err Unit → DbProg}
    (ht : d.billTemplates.lookup bill.id = some t) (hrow : t.nextRun = dueISO) :
    ((advanceBill bill.id advanced fun t => t.nextRun = dueISO).transact k).alone clock (tick n d) {} =
      (k (.ok ())).alone clock (updated n bill.id { t with nextRun := advanced } [] d) {} := by
  have ht' : (tick n d).billTemplates.lookup bill.id = some t := ht
  rw [Prog.alone_transact, advanceBill_alone rfl ht' (decide_eq_true hrow)]
  rfl

end loop

/-- A report that goes on with another one. -/
def PostDueBillsResult.add (result more : PostDueBillsResult) : PostDueBillsResult where
  posted := result.posted ++ more.posted
  alreadyPosted := result.alreadyPosted ++ more.alreadyPosted
  paused := result.paused ++ more.paused

/-- What a template has in the report when `hs` was handled. -/
def reportOf (b : Uuid) (hs : List Handled) : PostDueBillsResult where
  posted := hs.filterMap fun h => h.2.map fun e => ⟨b, e, h.1⟩
  alreadyPosted := hs.filterMap fun h => if h.2 = none then some (b, h.1) else none

section report

variable {b : Uuid} {result : PostDueBillsResult}

@[simp] theorem PostDueBillsResult.add_empty : result.add {} = result := by
  simp [PostDueBillsResult.add]

@[simp] theorem PostDueBillsResult.empty_add : ({} : PostDueBillsResult).add result = result := rfl

theorem PostDueBillsResult.add_assoc {more rest : PostDueBillsResult} :
    (result.add more).add rest = result.add (more.add rest) := by
  simp [PostDueBillsResult.add]

theorem reportOf_cons {h : Handled} {hs : List Handled} :
    result.add (reportOf b (h :: hs)) = (result.add (reportOf b [h])).add (reportOf b hs) := by
  rw [← List.singleton_append]
  simp only [PostDueBillsResult.add, reportOf, List.filterMap_append, List.append_assoc,
    List.append_nil]

end report

/-- The loop over the periods of a template, from its due date `m` on: it
    handled `hs`, and the template stands at `last`. -/
structure Looped (env : Env) (clock : Millis) (bill : DueBill) (splits : Splits JsString)
    (today : JsString) (n : ℕ) (t : BillTemplate) (m : ℤ) (d d' : Db) (hs : List Handled)
    (last : JsString) : Prop where
  worked : Worked env clock bill splits d d' hs
  catches : Catches bill.template.cadence bill.template.cadenceDay today (isoOf m) n (hs.map Prod.fst) last
  template : d'.billTemplates.lookup bill.id = some { t with nextRun := last }
  nodup : (hs.map Prod.fst).Nodup
  ahead : ∀ p ∈ hs.map Prod.fst, ∃ a, m ≤ a ∧ Readable a ∧
    IsDue bill.template.cadence bill.template.cadenceDay a ∧
    periodKey bill.template.cadence (isoOf a) = .ok p

section looped

variable {today last : JsString} {n : ℕ} {m m' a₀ : ℤ} {hs : List Handled}

theorem Looped.nil (h : today < isoOf m ∨ n = 0)
    (ht : d.billTemplates.lookup bill.id = some { t with nextRun := isoOf m }) :
    Looped env clock bill splits today n t m d d [] (isoOf m) :=
  ⟨.nil, .nil h, ht, List.nodup_nil, fun _ hp => by cases hp⟩

/-- One more period in front. -/
theorem Looped.cons {d₁ : Db} {o : Option Uuid} (hm : Readable m)
    (hdue : IsDue bill.template.cadence bill.template.cadenceDay m) (hlater : m < m')
    (htoday : ¬ today < isoOf m) (hkey : periodKey bill.template.cadence (isoOf m) = .ok period)
    (hnext : nextDueDate bill.template.cadence bill.template.cadenceDay (isoOf m) = .ok (isoOf m'))
    (hstep : Worked env clock bill splits d d₁ [(period, o)])
    (h : Looped env clock bill splits today n t m' d₁ d' hs last) :
    Looped env clock bill splits today (n + 1) t m d d' ((period, o) :: hs) last := by
  -- the later dates name other periods
  have hnew : period ∉ hs.map Prod.fst := by
    intro hmem
    obtain ⟨a, ha, hread, hdue', hkey'⟩ := h.ahead period hmem
    have hsame := periodKey_inj hm hread hdue hdue' hkey hkey'
    omega
  refine ⟨hstep.append h.worked ?_, h.catches.cons htoday hkey hnext, h.template,
    List.nodup_cons.mpr ⟨hnew, h.nodup⟩, ?_⟩
  · intro p hp hmem
    rw [List.mem_singleton.mp hmem] at hp
    exact hnew hp
  · intro p hp
    rcases List.mem_cons.mp hp with rfl | hp
    · exact ⟨m, le_refl m, hm, hdue, hkey⟩
    · obtain ⟨a, ha, hrest⟩ := h.ahead p hp
      exact ⟨a, hlater.le.trans ha, hrest⟩

/-- The loop, where the bill resolves to splits. -/
theorem postPeriods_alone {next : PostDueBillsResult → DbProg}
    (hv : validateSchedule bill.template.cadence bill.template.cadenceDay = .ok ())
    (hpos : 0 < bill.template.amountCents) (hs : Storable splits) (ha₀ : Readable a₀)
    (hlast : a₀ ≤ dayNumber ⟨9999, 1, 1⟩) {result : PostDueBillsResult} (hm : Readable m)
    (hdue : IsDue bill.template.cadence bill.template.cadenceDay m) (hready : Ready env d)
    (ht : d.billTemplates.lookup bill.id = some { t with nextRun := isoOf m })
    (hsplits : billSplits d bill.template = .ok splits) :
    ∃ hs d' last, (postPeriods env bill (isoOf a₀) n (isoOf m) result next).alone clock d {} =
        (next (result.add (reportOf bill.id hs))).alone clock d' {} ∧
      Looped env clock bill splits (isoOf a₀) n t m d d' hs last := by
  induction n generalizing d m result with
  | zero =>
    refine ⟨[], d, isoOf m, ?_, .nil (Or.inr rfl) ht⟩
    show _ = (next (result.add {})).alone clock d {}
    rw [PostDueBillsResult.add_empty]
    rfl
  | succ n ih =>
    rw [postPeriods]
    by_cases htoday : isoOf a₀ < isoOf m
    · refine ⟨[], d, isoOf m, ?_, .nil (Or.inl htoday) ht⟩
      rw [if_pos htoday]
      show _ = (next (result.add {})).alone clock d {}
      rw [PostDueBillsResult.add_empty]
    rw [if_neg htoday]
    -- the next due date, and the period of this one
    -- it is not after today, so there is a next date to go on to
    have hle : m ≤ a₀ := by
      rw [isoOf_lt ha₀ hm] at htoday
      omega
    obtain ⟨m', hnextDue⟩ := exists_nextDue hv m
    have hm' := nextDue_readable hv hm.1 (hle.trans hlast) hnextDue
    have hnext := nextDueDate_eq hv hm hnextDue fun _ => hm'
    obtain ⟨period, hkey⟩ : ∃ period, periodKey bill.template.cadence (isoOf m) = .ok period :=
      ⟨_, periodKey_isoOf _ hm⟩
    rw [hnext]
    dsimp only
    rw [postOne_alone hkey hready hs hpos ht hsplits]
    by_cases htaken : HasPeriod d bill.id period
    · -- the period is posted already, and the template moves on
      rw [if_pos htaken]
      dsimp only
      rw [if_pos (show isUniqueViolation Err.uniqueViolation = true from rfl), advance_alone ht rfl]
      dsimp only
      rw [hkey]
      have hstep : Worked env clock bill splits d
          (updated 1 bill.id { t with nextRun := isoOf m' } [] d) [(period, none)] := worked_updated htaken
      have hsplits' := (billSplits_congr hstep.houseMembers hstep.rooms).trans hsplits
      obtain ⟨rest, d', last, heq, hloop⟩ := @ih _ m' (result.add (reportOf bill.id [(period, none)]))
        hm' hnextDue.due (hstep.ready hready) updated_template hsplits'
      refine ⟨(period, none) :: rest, d', last, ?_,
        hloop.cons hm hdue hnextDue.later htoday hkey hnext hstep⟩
      rw [reportOf_cons, ← heq]
      simp [PostDueBillsResult.add, reportOf]
    · -- the run posts it
      rw [if_neg htaken]
      dsimp only
      have hstep : Worked env clock bill splits d (booked env clock bill { t with nextRun := isoOf m }
          period (isoOf m') splits d) [(period, some (env.uuid d.fresh))] := worked_booked hready hs htaken
      have hsplits' := (billSplits_congr hstep.houseMembers hstep.rooms).trans hsplits
      have ht' : (booked env clock bill { t with nextRun := isoOf m } period (isoOf m') splits
          d).billTemplates.lookup bill.id = some { t with nextRun := isoOf m' } := by
        show (d.billTemplates.patch [(bill.id, some _)]).lookup bill.id = _
        rw [Table.lookup_patch_singleton, if_pos rfl]
      obtain ⟨rest, d', last, heq, hloop⟩ := @ih _ m'
        (result.add (reportOf bill.id [(period, some (env.uuid d.fresh))])) hm' hnextDue.due
        (hstep.ready hready) ht' hsplits'
      refine ⟨(period, some (env.uuid d.fresh)) :: rest, d', last, ?_,
        hloop.cons hm hdue hnextDue.later htoday hkey hnext hstep⟩
      rw [reportOf_cons, ← heq]
      simp [PostDueBillsResult.add, reportOf]

end looped

/-! ## Section 6: Pausing -/

def pausedEvent (bill : DueBill) (reason : JsString) : ActivityInput where
  houseId := bill.template.houseId
  actorId := bill.template.ownerId
  type := .billPaused
  entityType := .bill
  entityId := bill.id
  payload := .reason reason

/-- The database after the template is paused. -/
def pausedDb (bill : DueBill) (reason : JsString) (t : BillTemplate) (d : Db) : Db :=
  updated 0 bill.id { t with active := false } [(pausedEvent bill reason).row] d

theorem pause_alone {reason : JsString} {next : DbProg}
    (ht : d.billTemplates.lookup bill.id = some t) (hactive : t.active = true) :
    (pause bill reason next).alone clock d {} = next.alone clock (pausedDb bill reason t d) {} := by
  have hrow : (seen ({} : Writes) d clock).db.billTemplates.lookup bill.id = some t := by
    rw [show (seen ({} : Writes) d clock).db = d from congrArg View.db (seen_nothing d clock)]
    exact ht
  unfold pause pauseTx
  rw [Prog.alone_transact, Txn.alone_bind, Txn.alone_exec, hrow, Option.any_some, hactive,
    Option.filter_some, if_pos hactive]
  dsimp only
  rw [if_pos rfl, Txn.alone_bind, insertEvent, Txn.alone_exec]
  simp only [Txn.alone_pure, LawfulStore.tick_zero]
  rfl

/-- What stops a bill at its splits pauses it. -/
theorem pausesBill_of_billSplits {err : Err} (h : billSplits d t = .error err) :
    pausesBill err = true := by
  unfold billSplits at h
  dsimp only at h
  split at h
  · cases h
    rfl
  split at h
  · cases h
    rfl
  -- an error of `resolveSplits` is a posting problem or a split error
  have hrun := reads_resolveBill t (activeMembers d (toUuid t.houseId) none) 0 d {}
  dsimp only at hrun
  rw [show (seen ({} : Writes) d 0).db = d from congrArg View.db (seen_nothing d 0), h] at hrun
  have hdomain : err.Domain := throws_resolveSplits.alone (congrArg Prod.fst hrun)
  cases err with
  | posting problem => rfl
  | split error => rfl
  | _ => cases hdomain

theorem Err.pauses_not_unique {err : Err} (h : pausesBill err = true) : isUniqueViolation err = false := by
  cases err with
  | posting problem => rfl
  | schedule error => rfl
  | split error => rfl
  | _ => cases h

/-- The loop, where the bill does not resolve: its first period pauses it. -/
theorem postPeriods_pauses {n : ℕ} {today : JsString} {result : PostDueBillsResult}
    {next : PostDueBillsResult → DbProg} {err : Err} (htoday : ¬ today < dueISO)
    (hkey : periodKey bill.template.cadence dueISO = .ok period)
    (hnext : nextDueDate bill.template.cadence bill.template.cadenceDay dueISO = .ok advanced)
    (ht : d.billTemplates.lookup bill.id = some t) (hactive : t.active = true)
    (hsplits : billSplits d bill.template = .error err) :
    (postPeriods env bill today (n + 1) dueISO result next).alone clock d {} =
      (next (result.add { paused := [(bill.id, err.message)] })).alone clock
        (pausedDb bill err.message t d) {} := by
  have hpauses := pausesBill_of_billSplits hsplits
  rw [postPeriods, if_neg htoday, hnext]
  dsimp only
  rw [postOne_fails hkey hsplits]
  dsimp only
  rw [Err.pauses_not_unique hpauses, if_neg Bool.false_ne_true, if_pos hpauses,
    pause_alone ht hactive]
  simp [PostDueBillsResult.add]

end Homi
