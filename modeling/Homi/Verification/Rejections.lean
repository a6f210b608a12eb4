import Homi.Domain.DueDates
import Homi.Framework.Throws
import Homi.Verification.Keys
import Homi.Verification.Households

/-! # Rejected mutations are client errors

  The five mutations of the ledger end in a success or in an exception
  with a 4xx status, except in two places. `createBill` and the resume of a
  bill compute a date in the timezone of the house, which nobody checked
  when the house was created, and no handler catches the `ScheduleError`.
  And `recordPayment` compares its two users as texts, so that a payer who
  spells the own id in capitals runs into the check of the table.

  What a transaction throws is proved statement by statement, from what
  the ledger protocol says of the database there.
-/

namespace Homi

open ReadCommitted Protocol

variable {env : Env} {c : Call}

/-! ## Section 1: Statuses -/

/-- The status of the response to a request that fails with `err`. What is
    no `HttpException` is a 500. -/
def Err.status : Err → ℕ
  | .badRequest _ => 400
  | .forbidden _ => 403
  | .notFound _ => 404
  | .conflict _ => 409
  | .posting _ | .split _ | .schedule _ | .uniqueViolation | .checkViolation
  | .foreignKeyViolation | .internal _ => 500

/-- The error is the client's. -/
def Err.Rejects (err : Err) : Prop := 400 ≤ err.status ∧ err.status < 500

instance (err : Err) : Decidable err.Rejects :=
  inferInstanceAs (Decidable (400 ≤ err.status ∧ err.status < 500))

theorem rejects_badRequest (message : JsString) : (Err.badRequest message).Rejects := by
  simp [Err.Rejects, Err.status]

theorem rejects_forbidden (message : JsString) : (Err.forbidden message).Rejects := by
  simp [Err.Rejects, Err.status]

theorem rejects_notFound (message : JsString) : (Err.notFound message).Rejects := by
  simp [Err.Rejects, Err.status]

theorem rejects_conflict (message : JsString) : (Err.conflict message).Rejects := by
  simp [Err.Rejects, Err.status]

/-- The five mutations of the ledger. -/
def Call.mutatesLedger : Call → Bool
  | .createExpense _ _ _ _ | .editExpense _ _ _ _ | .recordPayment _ _ _ _ | .createBill _ _ _ _
  | .setActive _ _ _ _ => true
  | _ => false

/-- Calls that write bill templates. -/
def Call.writesBills : Call → Bool
  | .createBill _ _ _ _ | .setActive _ _ _ _ | .postDueBills _ => true
  | _ => false

/-! ## Section 2: Schedules and dates -/

/-- The schedule of the template is valid. -/
def BillTemplate.Scheduled (t : BillTemplate) : Prop :=
  validateSchedule t.cadence t.cadenceDay = .ok ()

/-- Every template of the database has a valid schedule. -/
def SchedulesValid (d : Db) : Prop := ∀ b t, d.billTemplates.lookup b = some t → t.Scheduled

/-- Every template that is written has one. -/
def Writes.Scheduled (w : Writes) : Prop := ∀ b t, (b, some t) ∈ w.billTemplates → t.Scheduled

/-- Today has a date in the timezone, and the bill falls due from then on
    in a year of four digits. -/
structure Dated (env : Env) (timezone : JsString) (cadence : Cadence) (cadenceDay : JsString)
    (now : Millis) (n : ℤ) : Prop where
  today : env.formatDate timezone now = .ok (isoOf n)
  readable : Readable n
  yesterday : Readable (n - 1)
  due : cadence = .monthly → ∀ n', NextDue cadence cadenceDay (n - 1) n' → Readable n'

def Datable (env : Env) (timezone : JsString) (cadence : Cadence) (cadenceDay : JsString)
    (now : Millis) : Prop := ∃ n, Dated env timezone cadence cadenceDay now n

/-- The first due date can be computed. -/
theorem firstDue_ok {timezone : JsString} {cadence : Cadence} {cadenceDay : JsString} {now : Millis}
    (hv : validateSchedule cadence cadenceDay = .ok ())
    (h : Datable env timezone cadence cadenceDay now) :
    ∃ iso, firstDue env timezone cadence cadenceDay now = .ok iso := by
  obtain ⟨n, hn⟩ := h
  obtain ⟨n', hnext⟩ := exists_nextDue hv (n - 1)
  refine ⟨isoOf n', ?_⟩
  have htoday : todayInTimezone env timezone now = .ok (isoOf n) := by
    rw [todayInTimezone, hn.today]
  have hyesterday : isoAddDays (isoOf n) (-1) = .ok (isoOf (n - 1)) :=
    isoAddDays_isoOf hn.readable (-1)
  have hdue := nextDueDate_eq hv hn.yesterday hnext fun hm => hn.due hm n' hnext
  simp only [firstDue, htoday, hyesterday, bind, Except.bind]
  exact hdue

/-- The clock says a time at which the bill of the call can be dated. -/
def ClockFits (env : Env) (c : Call) (d : Db) (now : Millis) : Prop :=
  match c with
  | .createBill h _ _ input => ∀ house, d.houses.lookup (toUuid h) = some house →
      Datable env house.timezone input.cadence input.cadenceDay now
  | .setActive h b _ _ => ∀ house t, d.houses.lookup (toUuid h) = some house →
      d.billTemplates.lookup (toUuid b) = some t →
      Datable env house.timezone t.cadence t.cadenceDay now
  | _ => True

/-- The recipient is not the payer in another spelling. -/
def Call.PaysOthers : Call → Prop
  | .recordPayment _ u _ input => toUuid input.toUser ≠ u
  | _ => True

/-- What a statement of the call needs: where it reads the clock, a date,
    and where it inserts a payment, a recipient who is not the payer. -/
def StmtFits (env : Env) (c : Call) : StmtCond Db Writes LockKey Note := fun act tx d now =>
  (.clock now ∈ (act (tx.view d now)).notes → ClockFits env c d now) ∧
  ((act (tx.view d now)).writes.payments ≠ [] → c.PaysOthers)

/-! ## Section 3: The protocol -/

/-- What is known of a commit here. -/
structure Sound (env : Env) (c : HomiCommit) : Prop where
  known : Known env c
  keys : KeysStay c.before c.after
  houses : HousesKept c.before c.after

/-- What others do meanwhile. -/
structure RejectsRely (tx : DbTx) (d d' : Db) : Prop where
  ledger : LedgerRely False False tx d d'
  keys : KeysStay d d'
  houses : HousesKept d d'

def rejectsProtocol (env : Env) : DbProtocol where
  inv d := LedgerBase env d ∧ SchedulesValid d
  rely := RejectsRely
  guar c _ tx _ := c.writesBills = true → tx.writes.Scheduled
  post c r _ := c.mutatesLedger = true → ∀ err, r = .failure err → err.Rejects
  allows c prog tx d now := ∀ act next, prog = .stmt act next → StmtFits env c act tx d now
  stops _ _ := True

section transfer

variable {α : Type} {A : DbTx → Db → Prop} {B : α → DbTx → Db → Prop} {m : DbTxn α}

/-- What the ledger protocol proves holds here. -/
theorem triple_of_ledger (h : (ledgerProtocol env False False).Triple A m B) :
    (rejectsProtocol env).Triple A m B :=
  triple_transfer (fun _ _ _ hr => RejectsRely.ledger hr) (fun _ hi => And.intro hi.1 False.elim) h

theorem passive_of_ledger {q : Writes → Prop} (h : (ledgerProtocol env False False).Passive q A) :
    (rejectsProtocol env).Passive q A :=
  ⟨fun tx d d' hr hi hA => h.stable tx d d' (RejectsRely.ledger hr) ⟨hi.1, False.elim⟩ hA, h.step⟩

theorem passive_keyless_rejects :
    (rejectsProtocol env).Passive Writes.Keyless fun tx _ => tx.writes.Keyless :=
  passive_writes fun w w' h h' => by
    show w.idempotencyKeys ++ w'.idempotencyKeys = []
    rw [show w.idempotencyKeys = [] from h, show w'.idempotencyKeys = [] from h']
    rfl

end transfer

/-! ## Section 4: What the helpers throw -/

section throws

open Txn

theorem throws_reject {bad : Prop} [Decidable bad] {err : Err} (h : err.Rejects) :
    (reject bad err).Throws Err.Rejects := by
  unfold reject
  split
  · exact h
  · trivial

theorem throws_selectHouse {h : JsString} {missing : Err} (hm : missing.Rejects) :
    (selectHouse h missing).Throws Err.Rejects := by
  refine throws_exec fun v e he => ?_
  split at he
  · cases he
  · cases he
    exact hm

/-- The errors of the posting core. -/
def Err.Domain : Err → Prop
  | .posting _ | .split _ => True
  | _ => False

theorem throws_liftSplit {α : Type} {r : Except (SplitError JsString) α} :
    (liftSplit r).Throws Err.Domain := by
  cases r with
  | ok a => trivial
  | error err => trivial

theorem throws_lockActiveMembers {h : JsString} {ids : Option (List JsString)} :
    (lockActiveMembers h ids).Throws Err.Domain :=
  throws_bind throws_select fun _ => throws_exec fun _ _ he => by cases he

theorem throws_deriveRoomWeights {h : JsString} {ids : List JsString} {ms : List ActiveMember} :
    (deriveRoomWeights h ids ms).Throws Err.Domain := by
  refine throws_bind ?_ fun rooms => throws_bind throws_liftSplit fun shares =>
    throws_ofExcept fun e he => ?_
  · unfold selectRooms
    split
    · trivial
    · exact throws_select
  · rw [enterWeights_error he]
    trivial

theorem throws_resolveSplits {h : JsString} {input : ResolveSplitsInput}
    {preloadedMembers : Option (List ActiveMember)} :
    (resolveSplits h input preloadedMembers).Throws Err.Domain := by
  have hmembers : ∀ involved,
      (postingMembers h input.mode involved preloadedMembers).Throws Err.Domain := by
    intro involved
    cases preloadedMembers with
    | none => exact throws_lockActiveMembers
    | some members => trivial
  unfold resolveSplits
  refine throws_bind (hmembers _) fun members => ?_
  split
  · trivial
  · split
    · trivial
    · refine throws_bind ?_ fun _ => throws_liftSplit
      unfold postingWeights
      split
      · split
        · trivial
        · exact throws_bind throws_deriveRoomWeights fun _ => trivial
      · trivial

theorem rejects_throwPostingProblem {err : Err} (h : err.Domain) :
    (throwPostingProblemAs400 err).Rejects := by
  cases err with
  | posting problem => exact rejects_badRequest _
  | split err => exact rejects_badRequest _
  | _ => exact h.elim

theorem throws_resolveSplitsOr400 {h : JsString} {input : ResolveSplitsInput} :
    (resolveSplitsOr400 h input).Throws Err.Rejects :=
  throws_mapError (fun _ => rejects_throwPostingProblem) throws_resolveSplits

theorem throws_actingMember {h u : JsString} {who : Acting} :
    ((lockActingMember h u who).mapError throwPostingProblemAs400).Throws Err.Rejects := by
  refine throws_mapError (p := Err.Domain) (fun _ => rejects_throwPostingProblem)
    (throws_exec fun v e he => ?_)
  split at he
  · cases he
    trivial
  · split at he
    · cases he
      trivial
    · cases he

theorem throws_lockExpense {e : Uuid} : (lockExpense e).Throws Err.Rejects := by
  refine throws_exec fun v err he => ?_
  split at he
  · split at he
    · cases he
    · cases he
      exact rejects_notFound _
  · cases he
    exact rejects_notFound _

theorem throws_lockBill {h b : JsString} : (lockBill h b).Throws Err.Rejects := by
  refine throws_exec fun v err he => ?_
  split at he
  · cases he
  · cases he
    exact rejects_notFound _

end throws

/-! ## Section 5: Statements that the database checks -/

section statements

variable {h e : Uuid} {row : Expense} {splits : Splits JsString} {dead : List Rid} {tx : DbTx}
  {d : Db}

/-- A positive amount has somebody to pay it. -/
theorem Booking.rows_ne_nil (hb : Booking env h e row splits tx d) : splitRowsFor e splits ≠ [] := by
  intro hnil
  have hrows : splits.rows = [] := List.map_eq_nil_iff.mp hnil
  have hsum := hb.resolved.sum
  rw [Table.total, hrows, List.map_nil, List.sum_nil] at hsum
  exact absurd hb.pos (by rw [← hsum]; exact lt_irrefl 0)

/-- The users of the splits are distinct ids of members, spelled alike. -/
theorem Booking.nodup_splitRows (hb : Booking env h e row splits tx d) :
    ((splitRowsFor e splits).map Split.userId).Nodup := by
  have hspelled : (splitRowsFor e splits).map Split.userId = splits.rows.map Prod.fst := by
    rw [splitRowsFor, List.map_map]
    refine List.map_congr_left fun r hr => ?_
    exact (hb.resolved.held r.1 r.2 (Table.mem_rows.mp hr)).canonical
  rw [hspelled]
  exact splits.nodup_keys_rows

/-- The old splits of the expense are gone from the view of the transaction. -/
theorem Rebooking.not_taken (hb : Rebooking env h e row splits dead [] tx d) {now : Millis} {s : Split}
    (hs : s.expenseId = e) : splitTaken (tx.view d now).db s = false := by
  rw [splitTaken, List.any_eq_false]
  rintro ⟨rid, s'⟩ hmem
  rw [Db.mem_splitRows] at hmem
  have hold := (hb.split_iff List.nodup_nil rid s').mp hmem
  rcases hold with hnew | ⟨_, hne⟩
  · cases hnew
  · simp only [hs, decide_eq_true_eq, not_and]
    exact fun heq => absurd heq hne

/-- No check of the table stops the insert of the splits. -/
theorem tripleOr_insertSplits {ok : StmtCond Db Writes LockKey Note} {E : Err → Db → Prop} :
    (rejectsProtocol env).TripleOr ok
      (fun tx d => tx.writes.Keyless ∧ ∃ dead, Rebooking env h e row splits dead [] tx d)
      (insertSplits e splits)
      (fun _ tx d => tx.writes.Keyless ∧ Rebooked env h e row splits tx d) E := by
  refine tripleOr_exec_of ?_ (triple_and (triple_passive passive_keyless_rejects
    (only_insertSplits fun _ => rfl)) (triple_of_ledger triple_insertSplits)) ?_
  · rintro tx d d' hr hi ⟨hk, dead, hb⟩
    exact ⟨hk, dead, (passive_of_ledger passive_rebooking).stable tx d d' hr hi hb⟩
  rintro tx d now err ⟨_, dead, hb⟩ _ hres
  have hnonneg : ¬ (splitRowsFor e splits).any (fun s => s.amountCents < 0) = true := by
    rw [List.any_eq_true]
    rintro ⟨s, hs, hneg⟩
    obtain ⟨u, hu, _, _⟩ := mem_splitRowsFor hs
    exact absurd (hb.resolved.nonneg u _ hu) (not_le.mpr (of_decide_eq_true hneg))
  have htaken : ¬ (splitRowsFor e splits).any (splitTaken (tx.view d now).db) = true := by
    rw [List.any_eq_true]
    rintro ⟨s, hs, htaken⟩
    obtain ⟨_, _, he, _⟩ := mem_splitRowsFor hs
    rw [hb.not_taken he] at htaken
    cases htaken
  rw [if_neg hb.toBooking.rows_ne_nil, if_neg hnonneg,
    if_neg (fun hbad => hbad.elim (fun hnd => hnd hb.toBooking.nodup_splitRows) htaken)] at hres
  cases hres

theorem Editing.view_row {expense : Expense} (hE : Editing e expense tx d) {now : Millis} :
    (tx.view d now).db.expenses.lookup e = some expense := by
  rw [view_expenses hE.expenses]
  exact hE.row

end statements

/-! ## Section 6: Expenses

    `Keyless` goes along everywhere: the key is stored last, and its insert
    fails only where the key has a row. -/

/-- What a keyed transaction throws: a rejection, or the violation of a key
    that is in the database. -/
def Thrown (id : KeyId) (err : Err) (d : Db) : Prop :=
  err.Rejects ∨ (err = .uniqueViolation ∧ (d.keyRow id).isSome)

/-- Rejections may be thrown. -/
def Lenient (E : Err → Db → Prop) : Prop := ∀ err d, err.Rejects → E err d

theorem lenient_thrown (id : KeyId) : Lenient (Thrown id) := fun _ _ h => Or.inl h

theorem lenient_rejects : Lenient fun err _ => err.Rejects := fun _ _ h => h

section bodies

variable {ok : StmtCond Db Writes LockKey Note} {E : Err → Db → Prop} {α : Type}
  {A : DbTx → Db → Prop} {B : α → DbTx → Db → Prop} {m : DbTxn α} {id : KeyId} {hash : JsString}
  {startedAt : Millis} {u : Uuid}

/-- A part that the ledger protocol speaks of, whose errors are rejections. -/
theorem tripleOr_part (h : (ledgerProtocol env False False).Triple A m B)
    (hm : m.Only Writes.Keyless) (ht : m.Throws Err.Rejects) (hE : Lenient E) :
    (rejectsProtocol env).TripleOr ok (fun tx d => tx.writes.Keyless ∧ A tx d) m
      (fun a tx d => tx.writes.Keyless ∧ B a tx d) E :=
  tripleOr_of_throws (triple_and (triple_passive passive_keyless_rejects hm) (triple_of_ledger h)) ht
    hE

/-- A part about whose writes only `p` matters. -/
theorem tripleOr_aside {p q : Writes → Prop} (hp : ∀ w w', p w → q w' → p (w.append w'))
    (hq : m.Only q) (hm : m.Only Writes.Keyless) (ht : m.Throws Err.Rejects) (hE : Lenient E) :
    (rejectsProtocol env).TripleOr ok (fun tx _ => tx.writes.Keyless ∧ p tx.writes) m
      (fun _ tx _ => tx.writes.Keyless ∧ p tx.writes) E :=
  tripleOr_part (triple_passive (passive_writes hp) hq) hm ht hE

/-- The end of a keyed transaction. -/
theorem tripleOr_last {p : Writes → Prop} (hp : ∀ w es, p w → p (w.append { idempotencyKeys := es }))
    {response : StoredResponse} {logged : List ActivityInput} :
    (rejectsProtocol env).TripleOr ok (fun tx _ => tx.writes.Keyless ∧ p tx.writes)
      (do store id hash response; return (response, logged)) (fun _ tx _ => p tx.writes)
      (Thrown id) := by
  refine tripleOr_bind (B := fun _ tx _ => p tx.writes) (tripleOr_exec (stable_const _) ?_ ?_)
    fun _ => tripleOr_pure fun _ _ hA => hA
  · exact fun tx d now a hA _ _ _ => hp _ _ hA.2
  · rintro tx d now err ⟨hkeyless, _⟩ _ _ hres
    have hsame : (tx.view d now).db.idempotencyKeys.lookup id = d.keyRow id := by
      show (d.idempotencyKeys.patch tx.writes.idempotencyKeys).lookup id = _
      rw [show tx.writes.idempotencyKeys = [] from hkeyless]
      rfl
    rw [hsame] at hres
    split at hres
    · next hsome =>
      cases hres
      exact Or.inr ⟨rfl, hsome⟩
    · cases hres

/-- The log entry and the key, after a part that left nothing to prove. -/
theorem tripleOr_logged {p : Writes → Prop} (hp : ∀ w w', p w → w'.billTemplates = [] → p (w.append w'))
    {event : ActivityInput} {response : StoredResponse} :
    (rejectsProtocol env).TripleOr ok (fun tx _ => tx.writes.Keyless ∧ p tx.writes)
      (do let event ← log event; store id hash response; return (response, [event]))
      (fun _ tx _ => p tx.writes) (Thrown id) :=
  tripleOr_bind (tripleOr_aside hp (only_log rfl) (only_log rfl)
    (Txn.throws_exec fun _ _ he => by cases he) (lenient_thrown id)) fun _ =>
    tripleOr_last fun w es hw => hp w _ hw rfl

theorem tripleOr_insertExpense {h : Uuid} {amountCents : ℤ} {spec : ExpenseSpec}
    {splits : Splits JsString} (hcents : spec.amountCents = amountCents) (hpos : 0 < amountCents)
    (htemplate : spec.templateId = none) (hE : Lenient E) :
    (rejectsProtocol env).TripleOr ok
      (fun tx d => tx.writes.Keyless ∧ tx.writes.Quiet ∧ Resolved h amountCents splits tx d)
      (insertExpense env startedAt spec splits) (fun _ tx _ => tx.writes.Keyless ∧ True) E := by
  have hrow : (insertExpenseRow env startedAt spec).Throws Err.Rejects := by
    have hnot : ¬ (spec.row startedAt).amountCents ≤ 0 := not_le.mpr (hcents.symm ▸ hpos : 0 < spec.amountCents)
    refine Txn.throws_exec fun v err he => ?_
    rw [if_neg hnot] at he
    simp only [htemplate] at he
    cases he
  rw [insertExpense_eq, ← hcents]
  refine tripleOr_bind (tripleOr_part triple_insertExpenseRow (Txn.only_exec fun _ => rfl) hrow hE)
    fun id => tripleOr_bind (tripleOr_weaken tripleOr_insertSplits
      (fun _ _ hA => ⟨hA.1, hA.2.1⟩) fun _ _ _ hB => hB) fun _ => tripleOr_pure fun _ _ hA => ⟨hA.1, trivial⟩

theorem createExpense_throws {h : JsString} {input : CreateExpenseInput} (hpos : 0 < input.amountCents) :
    (rejectsProtocol env).TripleOr ok (fun tx _ => tx = Tx.empty)
      (createExpenseTx env h u input (store id hash) startedAt) (fun _ _ _ => True) (Thrown id) := by
  have hE := lenient_thrown id
  refine tripleOr_weaken (A := fun tx _ => tx.writes.Keyless ∧ tx.writes.Quiet) ?_
    (fun _ _ hA => by rw [hA]; exact ⟨rfl, Writes.quiet_nothing⟩) fun _ _ _ hB => hB
  refine tripleOr_bind (tripleOr_part (triple_passive passive_quiet
    (only_selectHouse Writes.quiet_nothing)) (only_selectHouse keyless_nothing)
    (throws_selectHouse (rejects_badRequest _)) hE) fun house => ?_
  refine tripleOr_bind (tripleOr_part (triple_passive passive_quiet only_reject) only_reject
    (throws_reject (rejects_badRequest _)) hE) fun _ => ?_
  refine tripleOr_bind (tripleOr_part (triple_resolveSplitsOr400 passive_quiet
    fun _ _ hq => hq.houseMembers) (only_resolveSplitsOr400 keyless_nothing)
    throws_resolveSplitsOr400 hE) fun splits => ?_
  refine tripleOr_bind (tripleOr_insertExpense rfl hpos rfl hE) fun r => ?_
  exact tripleOr_logged (p := fun _ => True) fun _ _ _ _ => trivial

/-- The row that the edit has locked is there. -/
theorem tripleOr_updateExpense {h e : Uuid} {expense : Expense} {splits : Splits JsString}
    {input : EditExpenseInput} (hpos : 0 < input.amountCents) :
    (rejectsProtocol env).TripleOr ok
      (fun tx d => tx.writes.Keyless ∧ Editing e expense tx d ∧ Resolved h input.amountCents splits tx d)
      (updateExpense e input) (fun _ tx d => tx.writes.Keyless ∧
        Booking env h e (expense.edited input) splits tx d ∧ tx.writes.expenseSplits = []) E := by
  refine tripleOr_exec_of ?_ (triple_and (triple_passive passive_keyless_rejects
    (only_updateExpense fun _ => rfl)) (triple_of_ledger triple_updateExpense)) ?_
  · exact passive_keyless_rejects.stable.and ((passive_of_ledger passive_editing).stable.and
      (passive_of_ledger (passive_resolved _ _ _)).stable)
  · rintro tx d now err ⟨_, hedit, _⟩ _ hres
    rw [hedit.view_row] at hres
    dsimp only at hres
    rw [if_neg (not_le.mpr hpos)] at hres
    cases hres

theorem editExpense_throws {expenseId : JsString} {input : EditExpenseInput}
    (hpos : 0 < input.amountCents) :
    (rejectsProtocol env).TripleOr ok (fun tx _ => tx = Tx.empty)
      (editExpenseTx expenseId u input (store id hash) startedAt) (fun _ _ _ => True) (Thrown id) := by
  have hE := lenient_thrown id
  refine tripleOr_weaken (A := fun tx _ => tx.writes.Keyless ∧ tx = Tx.empty) ?_
    (fun _ _ hA => ⟨by rw [hA]; rfl, hA⟩) fun _ _ _ hB => hB
  refine tripleOr_bind (tripleOr_part triple_lockExpense (only_lockExpense keyless_nothing)
    throws_lockExpense hE) fun expense => ?_
  have hkeep : (ledgerProtocol env False False).Passive Writes.Quiet fun tx d =>
      Editing (toUuid expenseId) expense tx d ∧ Revised False (toUuid expenseId) tx d :=
    passive_editing.and (passive_revised.mono fun _ hq => hq.expenseRevisions)
  refine tripleOr_bind (tripleOr_part (triple_passive hkeep (Txn.only_select Writes.quiet_nothing))
    (Txn.only_select keyless_nothing) Txn.throws_select hE) fun editor => ?_
  refine tripleOr_bind (tripleOr_part (triple_passive hkeep only_reject) only_reject
    (throws_reject (rejects_notFound _)) hE) fun _ => ?_
  refine tripleOr_bind (tripleOr_part triple_previousSplits (Txn.only_select keyless_nothing)
    Txn.throws_select hE) fun rows => ?_
  refine tripleOr_bind (tripleOr_part triple_insertRevision (only_insertRevisions fun _ => rfl)
    (Txn.throws_exec fun _ _ he => by cases he) hE) fun _ => ?_
  refine tripleOr_weaken (A := fun tx d => tx.writes.Keyless ∧ Editing (toUuid expenseId) expense tx d)
    ?_ (fun _ _ hA => ⟨hA.1, hA.2.1⟩) fun _ _ _ hB => hB
  refine tripleOr_bind (tripleOr_part (triple_resolveSplitsOr400 passive_editing
    fun _ _ hA => hA.houseMembers) (only_resolveSplitsOr400 keyless_nothing)
    throws_resolveSplitsOr400 hE) fun splits => ?_
  refine tripleOr_bind (tripleOr_updateExpense hpos) fun updated => ?_
  refine tripleOr_bind (tripleOr_part triple_deleteSplitsOf
    (only_deleteSplitsOf keyless_nothing fun _ => rfl) (Txn.throws_bind Txn.throws_select fun _ =>
      Txn.throws_exec fun _ _ he => by cases he) hE) fun _ => ?_
  refine tripleOr_bind tripleOr_insertSplits fun _ => ?_
  exact tripleOr_weaken (tripleOr_logged (p := fun _ => True) fun _ _ _ _ => trivial)
    (fun _ _ hA => ⟨hA.1, trivial⟩) fun _ _ _ hB => hB

/-! ## Section 7: Payments and bills -/

/-- The one check that a request can fail: the recipient is the payer. -/
theorem tripleOr_insertPayment {h key : JsString} {input : RecordPaymentInput} {p : Payment}
    (hpos : 0 < p.amountCents) (hfrom : p.fromUser = u) (hto : p.toUser = toUuid input.toUser) :
    (rejectsProtocol env).TripleOr (StmtFits env (.recordPayment h u key input))
      (fun tx _ => tx.writes.Keyless ∧ True) (insertPayment env p)
      (fun _ tx _ => tx.writes.Keyless ∧ True) E := by
  refine tripleOr_exec (stable_const _) ?_ ?_
  · rintro tx d now a ⟨hkeyless, _⟩ _ _ _
    refine ⟨?_, trivial⟩
    show tx.writes.idempotencyKeys ++ [] = []
    rw [show tx.writes.idempotencyKeys = [] from hkeyless]
    rfl
  · rintro tx d now err _ _ hok hres
    have hothers : toUuid input.toUser ≠ u := hok.2 (List.cons_ne_nil _ _)
    have hchecks : ¬ (p.amountCents ≤ 0 ∨ p.fromUser = p.toUser) := by
      rintro (hle | heq)
      · exact absurd hpos (not_lt.mpr hle)
      · rw [hfrom, hto] at heq
        exact hothers heq.symm
    rw [if_neg hchecks] at hres
    cases hres

theorem recordPayment_throws {h key : JsString} {input : RecordPaymentInput}
    (hpos : 0 < input.amountCents) :
    (rejectsProtocol env).TripleOr (StmtFits env (.recordPayment h u key input))
      (fun tx _ => tx = Tx.empty) (recordPaymentTx env h u input (store id hash) startedAt)
      (fun _ _ _ => True) (Thrown id) := by
  have hE := lenient_thrown id
  have htrue : ∀ w w' : Writes, True → True → True := fun _ _ _ _ => trivial
  refine tripleOr_weaken (A := fun tx _ => tx.writes.Keyless ∧ True) ?_
    (fun _ _ hA => ⟨by rw [hA]; rfl, trivial⟩) fun _ _ _ hB => hB
  refine tripleOr_bind (tripleOr_aside htrue (Txn.only_true _) (only_selectHouse keyless_nothing)
    (throws_selectHouse (rejects_badRequest _)) hE) fun house => ?_
  refine tripleOr_bind (tripleOr_aside htrue (Txn.only_true _) only_reject
    (throws_reject (rejects_badRequest _)) hE) fun _ => ?_
  refine tripleOr_bind (tripleOr_aside htrue (Txn.only_true _)
    (Txn.only_mapError (only_lockActingMember keyless_nothing)) throws_actingMember hE) fun _ => ?_
  refine tripleOr_bind (tripleOr_insertPayment hpos rfl rfl) fun pid => ?_
  exact tripleOr_logged (p := fun _ => True) fun _ _ _ _ => trivial

end bodies

/-! ### Dates -/

section dates

variable {E : Err → Db → Prop} {A : DbTx → Db → Prop} {id : KeyId} {hash : JsString}
  {startedAt : Millis} {u : Uuid} {h b : JsString} {house : House} {bill : BillTemplate}

/-- The transaction has written nothing yet. -/
def Writes.Blank (w : Writes) : Prop := w = {}

theorem view_blank {tx : DbTx} (hw : tx.writes.Blank) (d : Db) (now : Millis) :
    (tx.view d now).db = d := by
  show Store.apply tx.writes d = d
  rw [show tx.writes = {} from hw]
  exact LawfulStore.apply_nothing d

theorem passive_blank :
    (rejectsProtocol env).Passive Writes.Blank fun tx _ => tx.writes.Blank :=
  passive_writes fun w w' h h' => by
    rw [show w = {} from h, show w' = {} from h']
    rfl

/-- The rows of houses do not change. -/
theorem passive_houseRow {k : Uuid} :
    (rejectsProtocol env).Passive Writes.Blank fun _ d => d.houses.lookup k = some house :=
  ⟨fun _ _ _ hr _ hA => RejectsRely.houses hr _ _ hA, fun _ _ _ _ hA => hA⟩

/-- The bill is as the transaction locked it. -/
def BillLocked (k : Uuid) (bill : BillTemplate) (tx : DbTx) (d : Db) : Prop :=
  tx.Holds (.template k) ∧ d.billTemplates.lookup k = some bill

theorem passive_billLocked {k : Uuid} : (rejectsProtocol env).Passive Writes.Blank (BillLocked k bill) where
  stable := by
    rintro tx d d' hr _ ⟨hheld, hrow⟩
    have hsame : d'.billTemplates.lookup k = d.billTemplates.lookup k :=
      (RejectsRely.ledger hr).frame _ hheld
    exact ⟨hheld, hsame.trans hrow⟩
  step := fun tx _ e _ hA => ⟨holds_add tx e hA.1, hA.2⟩

theorem triple_selectHouse (hA : (rejectsProtocol env).Passive Writes.Blank A)
    (hw : ∀ tx d, A tx d → tx.writes.Blank) {missing : Err} :
    (rejectsProtocol env).Triple A (selectHouse h missing)
      fun house tx d => A tx d ∧ d.houses.lookup (toUuid h) = some house := by
  refine triple_exec_passive hA (fun _ => rfl) fun tx d now found hAd _ hres => ?_
  rw [view_blank (hw tx d hAd)] at hres
  split at hres
  · next house hhouse =>
    cases hres
    exact hhouse
  · cases hres

/-- Where the clock is read the bill can be dated. -/
theorem tripleOr_clock {X : Millis → Prop} (hA : (rejectsProtocol env).Passive Writes.Blank A)
    (hfit : ∀ tx d now, A tx d → ClockFits env c d now → X now) :
    (rejectsProtocol env).TripleOr (StmtFits env c) A clock
      (fun now tx d => A tx d ∧ X now) E := by
  refine tripleOr_exec hA.stable ?_ fun _ _ _ _ _ _ _ hres => (by cases hres)
  intro tx d now a hAd _ hok hres
  cases hres
  exact ⟨hA.step tx d _ rfl hAd, hfit tx d now hAd (hok.1 (List.mem_singleton_self _))⟩

theorem tripleOr_dated {ok : StmtCond Db Writes LockKey Note} {timezone : JsString} {cadence : Cadence}
    {cadenceDay : JsString} {now : Millis} (hv : validateSchedule cadence cadenceDay = .ok ()) :
    (rejectsProtocol env).TripleOr ok
      (fun tx d => A tx d ∧ Datable env timezone cadence cadenceDay now)
      (liftSchedule (firstDue env timezone cadence cadenceDay now)) (fun _ tx d => A tx d) E := by
  rintro tx d ⟨hAd, hdatable⟩
  obtain ⟨iso, hiso⟩ := firstDue_ok hv hdatable
  rw [hiso]
  exact hAd

/-- The date at which a bill starts, or at which it goes on. -/
theorem createBill_throws {key : JsString} {input : CreateBillInput} (hpos : 0 < input.amountCents)
    (hv : validateSchedule input.cadence input.cadenceDay = .ok ()) :
    (rejectsProtocol env).TripleOr (StmtFits env (.createBill h u key input))
      (fun tx _ => tx = Tx.empty) (createBillTx env h u input (store id hash) startedAt)
      (fun _ tx _ => tx.writes.Scheduled) (Thrown id) := by
  have hE := lenient_thrown id
  refine tripleOr_weaken (A := fun tx _ => tx.writes.Blank) ?_
    (fun _ _ hA => by rw [hA]; rfl) fun _ _ _ hB => hB
  refine tripleOr_bind (tripleOr_of_throws (triple_selectHouse passive_blank fun _ _ hA => hA)
    (throws_selectHouse (rejects_badRequest _)) hE) fun house => ?_
  have hkeep := (@passive_blank env).and (@passive_houseRow env house (toUuid h))
  refine tripleOr_bind (tripleOr_of_throws (triple_passive hkeep
    (Txn.only_mapError (only_lockActingMember (p := Writes.Blank) rfl))) throws_actingMember hE) fun _ => ?_
  refine tripleOr_bind (tripleOr_clock (X := Datable env house.timezone input.cadence input.cadenceDay)
    hkeep fun tx d now hA hfit => hfit house hA.2) fun now => ?_
  refine tripleOr_bind (tripleOr_dated hv) fun nextRun => ?_
  refine tripleOr_bind (B := fun _ tx _ => tx.writes.Keyless ∧ tx.writes.Scheduled)
    (tripleOr_exec hkeep.stable ?_ ?_) fun _ => tripleOr_logged ?_
  · rintro tx d now _ ⟨hblank, _⟩ _ _ _
    rw [Tx.add_writes, show tx.writes = {} from hblank]
    refine ⟨rfl, fun b t hmem => ?_⟩
    obtain ⟨_, hrow⟩ := Prod.mk.inj (List.mem_singleton.mp hmem)
    cases hrow
    exact hv
  · intro tx d now err _ _ _ hres
    rw [if_neg (not_le.mpr hpos)] at hres
    cases hres
  · intro w w' hw hnone b t hmem
    rw [show (w.append w').billTemplates = w.billTemplates ++ w'.billTemplates from rfl, hnone,
      List.append_nil] at hmem
    exact hw b t hmem

/-- The bill that the transaction has locked, with its valid schedule. -/
theorem triple_lockBill :
    (rejectsProtocol env).Triple (fun tx _ => tx.writes.Blank) (lockBill h b) fun bill tx d =>
      tx.writes.Blank ∧ BillLocked (toUuid b) bill tx d ∧ bill.Scheduled := by
  refine triple_exec_passive passive_blank (fun _ => rfl) fun tx d now found hblank hi hres => ?_
  rw [view_blank hblank] at hres
  dsimp only at hres
  split at hres
  · next bill hbill =>
    cases hres
    have hrow := Option.eq_some_of_filter_eq_some hbill
    refine ⟨⟨@holds_of_lock tx _ _ .exclusive ?_, hrow⟩, hi.2 _ _ hrow⟩
    simp only [view_blank hblank, hbill, Option.isSome_some, if_pos, List.mem_singleton]
  · cases hres

/-- The next run of a bill that goes on. -/
theorem tripleOr_resumedNextRun {active : Bool} (hv : bill.Scheduled) (hE : Lenient E) :
    (rejectsProtocol env).TripleOr (StmtFits env (.setActive h b u active))
      (fun tx d => tx.writes.Blank ∧ BillLocked (toUuid b) bill tx d)
      (resumedNextRun env h bill active) (fun _ tx _ => tx.writes.Blank) E := by
  have hkeep := (@passive_blank env).and (@passive_billLocked env bill (toUuid b))
  unfold resumedNextRun
  split
  · refine tripleOr_bind (tripleOr_of_throws (triple_selectHouse hkeep fun _ _ hA => hA.1)
      (throws_selectHouse (rejects_notFound _)) hE) fun house => ?_
    have hhouse := hkeep.and (@passive_houseRow env house (toUuid h))
    refine tripleOr_bind (tripleOr_clock
      (X := Datable env house.timezone bill.cadence bill.cadenceDay) hhouse
      fun tx d now hA hfit => hfit house bill hA.2 hA.1.2.2) fun now => ?_
    exact tripleOr_weaken (tripleOr_dated hv) (fun _ _ hA => hA) fun _ _ _ hB => hB.1.1
  · exact tripleOr_pure fun _ _ hA => hA.1

theorem setActive_throws {active : Bool} :
    (rejectsProtocol env).TripleOr (StmtFits env (.setActive h b u active))
      (fun tx _ => tx = Tx.empty) (setActiveTx env h b u active startedAt)
      (fun _ tx _ => tx.writes.Scheduled) fun err _ => err.Rejects := by
  have hE := lenient_rejects
  refine tripleOr_weaken (A := fun tx _ => tx.writes.Blank) ?_
    (fun _ _ hA => by rw [hA]; rfl) fun _ _ _ hB => hB
  refine tripleOr_bind (tripleOr_of_throws triple_lockBill throws_lockBill hE) fun bill => ?_
  have hkeep := (@passive_blank env).and
    ((@passive_billLocked env bill (toUuid b)).and (passive_const _ bill.Scheduled))
  refine tripleOr_bind (tripleOr_of_throws (triple_passive hkeep
    (Txn.only_select (p := Writes.Blank) rfl)) Txn.throws_select hE) fun role => ?_
  refine tripleOr_bind (tripleOr_of_throws (triple_passive hkeep only_reject)
    (throws_reject (rejects_forbidden _)) hE) fun _ => ?_
  split
  · refine tripleOr_pure fun tx d hA b t hmem => ?_
    rw [show tx.writes = {} from hA.1] at hmem
    cases hmem
  · intro tx d hA
    have hv : bill.Scheduled := hA.2.2
    refine tripleOr_bind (tripleOr_resumedNextRun hv hE) (fun nextRun => ?_) tx d ⟨hA.1, hA.2.1⟩
    refine tripleOr_bind (B := fun _ tx _ => tx.writes.Keyless ∧ tx.writes.Scheduled)
      (tripleOr_exec passive_blank.stable ?_ fun _ _ _ _ _ _ _ hres => (by cases hres))
      fun updated => tripleOr_bind (tripleOr_aside (q := fun w => w.billTemplates = []) ?_
        (only_log rfl) (only_log rfl) (Txn.throws_exec fun _ _ he => by cases he) hE)
        fun _ => tripleOr_pure fun _ _ hA => hA.2
    · intro tx d now _ hblank _ _ _
      rw [Tx.add_writes, show tx.writes = {} from hblank]
      refine ⟨rfl, fun b t hmem => ?_⟩
      obtain ⟨_, hrow⟩ := Prod.mk.inj (List.mem_singleton.mp hmem)
      cases hrow
      exact hv
    · intro w w' hw hnone b t hmem
      rw [show (w.append w').billTemplates = w.billTemplates ++ w'.billTemplates from rfl, hnone,
        List.append_nil] at hmem
      exact hw b t hmem

end dates

/-! ### The worker -/

section worker

variable {α β : Type}

/-- From valid schedules the transaction writes valid ones. -/
def KeepsSchedules (env : Env) (m : DbTxn α) : Prop :=
  (rejectsProtocol env).Triple (fun tx _ => tx.writes.Scheduled) m fun _ tx _ => tx.writes.Scheduled

theorem scheduled_nothing : Writes.Scheduled {} := fun _ _ h => by cases h

theorem KeepsSchedules.aside {m : DbTxn α} {k : α → DbTxn β}
    (hm : m.Only fun w => w.billTemplates = []) (hk : ∀ a, KeepsSchedules env (k a)) :
    KeepsSchedules env (m >>= k) := by
  refine triple_bind (triple_passive (passive_writes fun w w' hw hnone b t hmem => ?_) hm) hk
  rw [show (WriteSet.append w w').billTemplates = w.billTemplates ++ w'.billTemplates from rfl, hnone,
    List.append_nil] at hmem
  exact hw b t hmem

/-- A template that the transaction sees. -/
theorem Writes.Scheduled.view {tx : DbTx} {d : Db} {now : Millis} (hw : tx.writes.Scheduled)
    (hd : SchedulesValid d) {k : Uuid} {t : BillTemplate}
    (ht : (tx.view d now).db.billTemplates.lookup k = some t) : t.Scheduled := by
  rcases lookup_patch_cases ht with hold | hnew
  · exact hd k t hold
  · exact hw k t hnew

/-- An update of a template that leaves its schedule alone. -/
theorem keepsSchedules_update {act : View Db → Effect Writes LockKey Note}
    {res : View Db → Except Err α}
    (hact : ∀ v b t, (b, some t) ∈ (act v).writes.billTemplates → ∃ t₀,
      v.db.billTemplates.lookup b = some t₀ ∧ t.cadence = t₀.cadence ∧ t.cadenceDay = t₀.cadenceDay) :
    KeepsSchedules env (.exec act res) := by
  refine triple_exec (stable_const _) fun tx d now a hw hi _ b t hmem => ?_
  rcases List.mem_append.mp hmem with hold | hnew
  · exact hw b t hold
  · obtain ⟨t₀, hrow, hcadence, hday⟩ := hact _ b t hnew
    have hvalid : t₀.Scheduled := hw.view hi.2 hrow
    rw [BillTemplate.Scheduled, hcadence, hday]
    exact hvalid

theorem advanceBill_keeps {k : Uuid} {nextRun : JsString} {matching : BillTemplate → Bool} :
    KeepsSchedules env (advanceBill k nextRun matching) := by
  refine keepsSchedules_update fun v b t hmem => ?_
  dsimp only at hmem
  split at hmem
  · next t₀ ht₀ =>
    obtain ⟨rfl, hrow⟩ := Prod.mk.inj (List.mem_singleton.mp hmem)
    cases hrow
    exact ⟨t₀, Option.eq_some_of_filter_eq_some ht₀, rfl, rfl⟩
  · cases hmem

theorem pauseTx_keeps {bill : DueBill} {reason : JsString} : KeepsSchedules env (pauseTx bill reason) := by
  refine triple_bind (keepsSchedules_update fun v b t hmem => ?_) fun updated => ?_
  · dsimp only at hmem
    split at hmem
    · next t₀ ht₀ =>
      obtain ⟨rfl, hrow⟩ := Prod.mk.inj (List.mem_singleton.mp hmem)
      cases hrow
      exact ⟨t₀, Option.eq_some_of_filter_eq_some ht₀, rfl, rfl⟩
    · cases hmem
  · split
    · exact KeepsSchedules.aside (only_insertEvent rfl) fun _ => triple_pure fun _ _ hA => hA
    · exact triple_pure fun _ _ hA => hA

theorem postOneTx_keeps {bill : DueBill} {period nextRun : JsString} :
    KeepsSchedules env (postOneTx env bill period nextRun) := by
  have h0 : (fun w : Writes => w.billTemplates = []) {} := rfl
  refine KeepsSchedules.aside (only_begin h0) fun startedAt =>
    KeepsSchedules.aside (only_lockActiveMembers h0) fun members => KeepsSchedules.aside only_reject fun _ =>
    KeepsSchedules.aside only_reject fun _ => KeepsSchedules.aside (only_resolveSplits h0) fun splits =>
    KeepsSchedules.aside (only_insertExpense (fun _ => rfl) fun _ => rfl) fun r => ?_
  exact KeepsSchedules.aside (only_insertEvent rfl) fun _ => triple_bind advanceBill_keeps fun _ =>
    triple_pure fun _ _ hA => hA

theorem KeepsSchedules.keeps {m : DbTxn α} (h : KeepsSchedules env m) :
    Keeps (rejectsProtocol env) c m := by
  intro k hk seen d
  exact safe_of_triple h scheduled_nothing (fun _ => stable_const _) (fun _ _ _ hB _ _ => hB)
    (fun a _ _ _ _ => hk (.ok a) _ _) fun e d => hk (.error e) _ d

end worker

/-! ## Section 8: Calls -/

section calls

variable {id : KeyId} {hash : JsString} {next : DbProg} {h u key : JsString}

theorem always_success {outcome : Outcome} :
    Always (rejectsProtocol env) c (.done (.success outcome)) :=
  always_done fun _ _ err herr => by cases herr

theorem always_rejected {err : Err} (he : err.Rejects) :
    Always (rejectsProtocol env) c (.done (.failure err)) :=
  always_done fun _ _ err' herr => by cases herr; exact he

/-! The guards refuse with a status of their own. -/

theorem guard_rejects (hnext : Always (rejectsProtocol env) c next) :
    Always (rejectsProtocol env) c (houseMemberGuard h u next) := by
  unfold houseMemberGuard
  split
  · refine always_query fun v => ?_
    split
    · exact hnext
    · exact always_rejected (rejects_forbidden _)
  · exact always_rejected (rejects_forbidden _)

theorem pipe_rejects {name value : JsString} (hnext : Always (rejectsProtocol env) c next) :
    Always (rejectsProtocol env) c (uuidPipe name value next) := by
  unfold uuidPipe
  split
  · exact hnext
  · exact always_rejected (rejects_badRequest _)

theorem key_rejects (hnext : Always (rejectsProtocol env) c next) :
    Always (rejectsProtocol env) c (idempotencyKey key next) := by
  unfold idempotencyKey
  split
  · exact hnext
  · exact always_rejected (rejects_badRequest _)

theorem body_rejects {ok : Bool} (hnext : ok = true → Always (rejectsProtocol env) c next) :
    Always (rejectsProtocol env) c (parseBody ok next) := by
  unfold parseBody
  split
  · next hok => exact hnext hok
  · exact always_rejected (rejects_badRequest _)

theorem stored_rejects {d : Db} {conflict : Err}
    (hfound : findStoredResponse d id hash = .error conflict) : conflict.Rejects := by
  unfold findStoredResponse at hfound
  split at hfound
  · cases hfound
  · split at hfound
    · cases hfound
      exact rejects_conflict _
    · cases hfound

/-- A lookup does not miss a key that is there. -/
theorem stored_isSome {d : Db} (hrow : (d.keyRow id).isSome) :
    findStoredResponse d id hash ≠ .ok none := by
  obtain ⟨row, hrow⟩ := Option.isSome_iff_exists.mp hrow
  unfold findStoredResponse
  rw [show d.idempotencyKeys.lookup id = some row from hrow]
  dsimp only
  split <;> exact fun hno => by cases hno

theorem stmtFits_of_allows (act : View Db → Effect Writes LockKey Note) (next : View Db → DbProg)
    (tx : DbTx) (d : Db) (now : Millis)
    (hallow : (rejectsProtocol env).allows c (.stmt act next) tx d now) :
    StmtFits env c act tx d now := hallow act next rfl

/-- A transaction that publishes what it logs. -/
theorem safe_logged {α : Type} {fn : Millis → DbTxn (α × List ActivityInput)}
    {next : Except Err α → DbProg} {E : Err → Db → Prop}
    (hfn : ∀ startedAt, (rejectsProtocol env).TripleOr (StmtFits env c) (fun tx _ => tx = Tx.empty)
      (fn startedAt) (fun _ tx _ => c.writesBills = true → tx.writes.Scheduled) E)
    (hok : ∀ a, Always (rejectsProtocol env) c (next (.ok a)))
    (herr : ∀ err seen d, E err d → (rejectsProtocol env).Safe c (next (.error err)) seen Tx.empty d) :
    Always (rejectsProtocol env) c (transact fn next) := by
  intro seen d
  refine safe_of_tripleOr (fun act next tx d now => stmtFits_of_allows act next tx d now)
    (tripleOr_bind (tripleOr_of_throws (q := fun _ => False) (triple_begin (stable_const _))
      Txn.throws_select fun _ _ hno => hno.elim) hfn) rfl ?_ ?_
  · rintro ⟨a, logged⟩ tx d hB d' _ _
    exact ⟨hB, fun _ => always_emitAll (hok a) _ _⟩
  · exact fun err d hE => herr err seen d hE

/-- `withIdempotency`: a key that is taken is found by the second lookup. -/
theorem keyed_rejects {fn : (StoredResponse → DbTxn Unit) → Millis →
      DbTxn (StoredResponse × List ActivityInput)}
    (hfn : ∀ startedAt, (rejectsProtocol env).TripleOr (StmtFits env c) (fun tx _ => tx = Tx.empty)
      (fn (store id hash) startedAt) (fun _ tx _ => c.writesBills = true → tx.writes.Scheduled)
      (Thrown id)) :
    Always (rejectsProtocol env) c
      (withIdempotency id hash fun store next => transact (fn store) next) := by
  intro seen d d' now _ _ _
  dsimp only
  rw [view_empty]
  split
  · exact always_success _ _
  · next conflict hfound => exact always_rejected (stored_rejects hfound) _ _
  refine safe_logged hfn (fun _ => always_success) ?_ d' d'
  rintro err seen d (hrejects | ⟨rfl, hrow⟩)
  · have hno : isUniqueViolation err = false := by
      cases err with
      | uniqueViolation => exact absurd hrejects (by decide)
      | _ => rfl
    simp only [hno]
    exact always_rejected hrejects _ _
  · intro d' now hr _ _
    dsimp only
    rw [view_empty]
    -- rows of keys stay
    have hrow' : (d'.keyRow id).isSome := by
      obtain ⟨row, hrow⟩ := Option.isSome_iff_exists.mp hrow
      rw [RejectsRely.keys hr id row hrow]
      rfl
    split
    · exact always_success _ _
    · next hfound => exact absurd hfound (stored_isSome hrow')
    · next conflict hfound => exact always_rejected (stored_rejects hfound) _ _

theorem amount_pos {input : EditExpenseInput} (hbody : editExpenseSchema input = true) :
    0 < input.amountCents := by
  simp only [editExpenseSchema, amountSchema, Bool.and_eq_true, decide_eq_true_eq] at hbody
  exact hbody.1.1.1.1.1.1.2.1

/-- Each of the five mutations is rejected or succeeds, where its
    statements meet the condition. -/
theorem mutation_rejects (hc : c.mutatesLedger = true) :
    Always (rejectsProtocol env) c (route env c) := by
  cases c <;> cases hc
  case createExpense h u key input =>
    refine guard_rejects (key_rejects (body_rejects fun hbody => keyed_rejects fun startedAt => ?_))
    have hpos : 0 < input.amountCents := amount_pos (Bool.and_eq_true_iff.mp hbody).2
    exact tripleOr_weaken (createExpense_throws hpos) (fun _ _ hA => hA) fun _ _ _ _ hno => by cases hno
  case editExpense e u key input =>
    refine pipe_rejects (key_rejects (body_rejects fun hbody => keyed_rejects fun startedAt => ?_))
    exact tripleOr_weaken (editExpense_throws (amount_pos hbody)) (fun _ _ hA => hA)
      fun _ _ _ _ hno => by cases hno
  case recordPayment h u key input =>
    refine guard_rejects (key_rejects (body_rejects fun hbody => ?_))
    have hpos : 0 < input.amountCents := by
      simp only [recordPaymentSchema, amountSchema, Bool.and_eq_true, decide_eq_true_eq] at hbody
      exact hbody.1.1.2.1
    unfold recordPayment
    split
    · exact always_rejected (rejects_badRequest _)
    · exact keyed_rejects fun startedAt => tripleOr_weaken (recordPayment_throws hpos)
        (fun _ _ hA => hA) fun _ _ _ _ hno => by cases hno
  case createBill h u key input =>
    refine guard_rejects (key_rejects (body_rejects fun hbody => ?_))
    have hpos : 0 < input.amountCents := by
      simp only [createBillSchema, amountSchema, Bool.and_eq_true, decide_eq_true_eq] at hbody
      exact hbody.1.1.1.2.1
    unfold createBill
    split
    · exact always_rejected (rejects_badRequest _)
    · next hv =>
      exact keyed_rejects fun startedAt => tripleOr_weaken (createBill_throws hpos hv)
        (fun _ _ hA => hA) fun _ _ _ hB _ => hB
  case setActive h b u active =>
    refine guard_rejects (pipe_rejects (safe_logged (E := fun err _ => err.Rejects) (fun startedAt =>
      tripleOr_weaken setActive_throws (fun _ _ hA => hA) fun _ _ _ hB _ => hB)
      (fun _ => always_success) fun err seen d hrejects => always_rejected hrejects _ _))

theorem rejects_safe (c : Call) : Always (rejectsProtocol env) c (route env c) := by
  by_cases hm : c.mutatesLedger = true
  · exact mutation_rejects hm
  have hpost : ∀ r d, (rejectsProtocol env).post c r d := fun _ _ hno => absurd hno hm
  by_cases hb : c.writesBills = true
  · -- the worker
    cases c <;> first | cases hb; done | exact absurd rfl hm | skip
    refine always_route hpost ⟨fun _ _ _ => postOneTx_keeps.keeps, fun _ _ _ => advanceBill_keeps.keeps,
      fun _ _ => pauseTx_keeps.keeps⟩
  · exact fun seen d => safe_trivial (fun _ _ _ hno => absurd hno hb) hpost _ _ _ _

theorem rejects_lawful :
    (rejectsProtocol env).Lawful (homi env) (Sound env) fun _ _ => True where
  rely_refl tx d := ⟨LedgerRely.refl tx d, fun _ _ h => h, fun _ _ h => h⟩
  rely_trans _ _ _ _ h h' := ⟨h.ledger.trans h'.ledger, fun id row hrow => h'.keys id row (h.keys id row hrow),
    fun k r hr => h'.houses k r (h.houses k r hr)⟩
  rely_tick tx n d _ := ⟨LedgerRely.tick tx n d, fun _ _ h => h, fun _ _ h => h⟩
  inv_tick n _ h := ⟨h.1.tick n, h.2⟩
  inv_init := ⟨ledgerBase_empty env, fun _ _ h => (by cases h)⟩
  inv_commit cm hk hi hg _ := by
    refine ⟨hk.known.after, fun b t ht => ?_⟩
    rcases lookup_patch_cases ht with hold | hnew
    · exact hi.2 b t hold
    by_cases hw : cm.call.writesBills = true
    · exact hg hw b t hnew
    · have hspares : cm.tx.writes.Spares .billTemplates := by
        refine hk.known.within.tables _ ?_
        cases hc : cm.call <;> simp_all [Call.writesBills, Call.tables]
      rw [show cm.tx.writes.billTemplates = [] from hspares] at hnew
      cases hnew
  rely_commit _ _ hk _ _ hheld' hheld hc _ :=
    ⟨LedgerRely.commit hk.known.step hc hheld hheld' False.elim False.elim, hk.keys, hk.houses⟩
  apart_empty _ := trivial
  start c d _ _ := rejects_safe c d d
  killed _ _ _ _ _ err herr := by cases herr

end calls

/-! ## Section 9: Runs -/

theorem sound_reachable {s : HomiState} (h : HomiReachable env s) : ∀ c ∈ s.wal, Sound env c := by
  intro c hc
  have hknown := known_reachable h c hc
  have hkeys : (keysProtocol env).Holds s :=
    holds_of_known keys_lawful (fun _ _ _ _ _ => trivial) (fun _ _ => trivial) h
  exact ⟨hknown, keysStay_commit hknown (hkeys.commits c hc).2, (founded_reachable h c hc).2⟩

/-- No request of the five mutations ends in an error of the server. -/
def RejectsCleanly (s : HomiState) : Prop :=
  ∀ (p : ℕ) (pr : Proc Db Writes LockKey Note Hint Reply Call), s.procs[p]? = some pr →
    pr.call.mutatesLedger = true → ∀ err, pr.prog = .done (.failure err) → err.Rejects

/-- Bills are weekly, in houses that keep UTC, on the first day; nobody
    pays the own id. -/
def dated (s : HomiState) : Action Call → Bool
  | .run p now => s.procs[p]?.all fun pr => match pr.call with
      | .createBill h _ _ input => now = 1000 && input.cadence = .weekly &&
          (s.db.houses.lookup (toUuid h)).all fun house => house.timezone = js "UTC"
      | .setActive _ _ _ _ => false
      | .recordPayment _ u _ input => toUuid input.toUser ≠ u
      | _ => true
  | _ => true

/-- A bill that is due every Monday. -/
def mondays : CreateBillInput where
  description := js "cleaning"
  amountCents := 4000
  splitMode := .equal
  cadence := .weekly
  cadenceDay := js "monday"

/-- `ann` schedules a bill, and then uses its key for a second one. -/
def billSession : List (Action Call) := serial 1000 0 (opening ++ [
  (.createBill theHouse ann (sampleUuid 200) mondays, 11),
  (.createBill theHouse ann (sampleUuid 200) { mondays with amountCents := 1 }, 2)])

/-- The call of the process has failed with such an error. -/
def failedWith (s : HomiState) (p : ℕ) (q : Err → Bool) : Bool :=
  s.procs[p]?.any fun pr => match pr.prog with
    | .done (.failure err) => pr.call.mutatesLedger && q err
    | _ => false

theorem not_rejectsCleanly {s : HomiState} {p : ℕ} {q : Err → Bool} (hq : ∀ err, q err = true → ¬ err.Rejects)
    (h : failedWith s p q = true) : ¬ RejectsCleanly s := by
  intro hclean
  obtain ⟨pr, hp, hfailed⟩ := (Option.any_eq_true _ _).mp h
  split at hfailed
  · next err hprog =>
    obtain ⟨hc, herr⟩ := Bool.and_eq_true_iff.mp hfailed
    exact hq err herr (hclean p pr hp hc err hprog)
  · cases hfailed

/-- The user `0a…` pays the user `0A…`. -/
def capitals : List (Action Call) := serial 1000 0 (
  (List.range 11).map (fun n => (.signUp (hexUnit n :: js "@homi.app") (js "Ann"), 2)) ++ [
  (.createHouse (sampleUuid 10) ⟨js "House", js "UTC", js "USD"⟩, 6),
  (.recordPayment (sampleUuid 11) (sampleUuid 10) (sampleUuid 200)
    { toUser := js "0A000000-0000-4000-8000-000000000000", amountCents := 500 }, 6)])

/-- The check of the table is a 500 as well. -/
theorem capitals_payment_crashes : ∃ s : HomiState, HomiReachable sampleEnv s ∧
    ¬ RejectsCleanly s ∧ failedWith s 12 (fun err => err = .checkViolation) = true := by
  obtain ⟨s, hrun, hs⟩ := Run.exists_of_drive (homi sampleEnv) capitals
    (fun s => failedWith s 12 fun err => err = .checkViolation) (by decide +kernel)
  refine ⟨s, hrun, not_rejectsCleanly (fun err herr hrejects => ?_) hs, hs⟩
  rw [of_decide_eq_true herr] at hrejects
  exact absurd hrejects (by decide)

end Homi
