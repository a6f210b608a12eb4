import Homi.Verification.Books
import Homi.Verification.Isolation
import Homi.Verification.LedgerRuns
import Homi.Verification.Payments
import Homi.Verification.Templates

/-! # The ledger refines a journal

  Every commit enters one line in the books of the houses, and the line is
  the one its call asks for: an expense of that amount and payer, a payment
  between those two, a claim of that placeholder. So the books of any
  reachable database are those that replaying the lines leads to, and
  `getBalances` shows them.

  A claim enters its line only if no other claim gives its claimer a split
  between the fold and the delete, which is the condition `FoldsApart` that
  the splits need in order to sum to the amounts.
-/

namespace Homi

open ReadCommitted Protocol

variable {env : Env} {c : Call} {d d' : Db} {tx : DbTx} {α : Type}

/-! ## Section 1: The protocol -/

/-- Whose row it is, and over how much. -/
structure Expense.Is (row : Expense) (h payer : Uuid) (amountCents : ℤ) : Prop where
  houseId : row.houseId = h
  paidBy : row.paidBy = payer
  amountCents : row.amountCents = amountCents
  live : row.deletedAt = none

structure Payment.Is (r : Payment) (h sender recipient : Uuid) (amountCents : ℤ) : Prop where
  houseId : r.houseId = h
  fromUser : r.fromUser = sender
  toUser : r.toUser = recipient
  amountCents : r.amountCents = amountCents
  recorded : r.status = .recorded

/-- The expenses written are such rows. -/
def Writes.Rows (q : Expense → Prop) (w : Writes) : Prop :=
  ∀ e o, (e, o) ∈ w.expenses → ∃ row, o = some row ∧ q row

/-- The expense is there to be edited. -/
def Editable (e : Uuid) (d : Db) : Prop := ∃ row, d.expenses.lookup e = some row ∧ row.deletedAt = none

/-- What a commit of the call enters. -/
def BooksGuar (env : Env) : Call → DbTx → Db → Prop
  | .createExpense h _ _ input, tx, d => BooksNew env tx d ∧
      tx.writes.Rows fun row => row.Is (toUuid h) (toUuid input.paidBy) input.amountCents
  | .editExpense e _ _ input, tx, d => Books env (toUuid e) tx d ∧ Editable (toUuid e) d ∧
      tx.writes.Rows fun row => row.paidBy = toUuid input.paidBy ∧ row.amountCents = input.amountCents
  | .recordPayment h u _ input, tx, _ => ∃ p r, tx.writes.payments = [(p, some r)] ∧
      r.Is (toUuid h) u (toUuid input.toUser) input.amountCents
  | .acceptInvite _ u, tx, d => Accepting True False u tx d
  | .postDueBills _, tx, d => (tx.writes.expenses = [] ∧ tx.writes.expenseSplits = []) ∨
      (BooksNew env tx d ∧ ∃ b t, d.billTemplates.lookup b = some t ∧
        tx.writes.Rows fun row => row.Is (toUuid t.houseId) (toUuid t.ownerId) t.amountCents)
  | _, _, _ => True

/-- What others do meanwhile. -/
structure BooksRely (tx : DbTx) (d d' : Db) : Prop where
  ledger : LedgerRely True False tx d d'
  templates : TemplatesRely tx d d'

def booksProtocol (env : Env) : DbProtocol where
  inv d := (ledgerProtocol env True False).inv d ∧ (templatesProtocol env).inv d
  rely := BooksRely
  guar c _ tx d := BooksGuar env c tx d
  post _ _ _ := True
  allows _ _ _ _ _ := True
  stops _ _ := True

section transfer

variable {A : DbTx → Db → Prop} {m : DbTxn α} {B : α → DbTx → Db → Prop} {p : Writes → Prop}

theorem books_of_ledger (h : (ledgerProtocol env True False).Triple A m B) :
    (booksProtocol env).Triple A m B := by
  have hrely : ∀ tx d d', (booksProtocol env).rely tx d d' → (ledgerProtocol env True False).rely tx d d' :=
    fun _ _ _ hr => BooksRely.ledger hr
  exact triple_transfer hrely (fun _ hi => hi.1) h

theorem stable_of_ledger {A : DbTx → Db → Prop} (h : (ledgerProtocol env True False).Stable A) :
    (booksProtocol env).Stable A := fun tx d d' hr hi hA => h tx d d' (BooksRely.ledger hr) hi.1 hA

theorem books_of_templates (h : (templatesProtocol env).Triple A m B) :
    (booksProtocol env).Triple A m B := by
  have hrely : ∀ tx d d', (booksProtocol env).rely tx d d' → (templatesProtocol env).rely tx d d' :=
    fun _ _ _ hr => BooksRely.templates hr
  exact triple_transfer hrely (fun _ hi => hi.2) h

theorem stable_of_templates {A : DbTx → Db → Prop} (h : (templatesProtocol env).Stable A) :
    (booksProtocol env).Stable A := fun tx d d' hr hi hA => h tx d d' (BooksRely.templates hr) hi.2 hA

theorem passive_editable (q : Writes → Prop) (e : Uuid) :
    (booksProtocol env).Passive q fun _ d => Editable e d where
  stable tx d d' hr _ hA := by
    obtain ⟨row, hrow, hlive⟩ := hA
    obtain ⟨row', hrow', _, _, _, _, hdel⟩ := (BooksRely.ledger hr).expenses e row hrow
    exact ⟨row', hrow', hdel.trans hlive⟩
  step _ _ _ _ hA := hA

theorem rows_nothing {q : Expense → Prop} {w : Writes} (h : w.expenses = []) : w.Rows q := by
  intro e o hmem
  rw [h] at hmem
  cases hmem

theorem rows_append {q : Expense → Prop} (w w' : Writes) (h : w.Rows q) (h' : w'.Rows q) :
    (WriteSet.append w w' : Writes).Rows q := fun e o hmem => (List.mem_append.mp hmem).elim (h e o) (h' e o)

/-- A transaction that keeps to the ledger protocol and writes such rows. -/
theorem keeps_books {q : Expense → Prop} {fn : Millis → DbTxn α} {F : Db → Prop}
    (hbody : ∀ startedAt, (ledgerProtocol env True False).Triple (fun tx _ => tx = Tx.empty) (fn startedAt) B)
    (hstable : ∀ a, (ledgerProtocol env True False).Stable (B a))
    (hrows : ∀ startedAt, (fn startedAt).Only (Writes.Rows q))
    (hF : ∀ startedAt, (booksProtocol env).Triple (fun tx _ => tx = Tx.empty) (fn startedAt) fun _ _ d => F d)
    (hFs : (booksProtocol env).Stable fun _ d => F d)
    (hguar : ∀ a tx d, B a tx d → tx.writes.Rows q → F d → BooksGuar env c tx d) :
    Keeps (booksProtocol env) c (begin >>= fn) := by
  intro k hk seen d
  refine safe_of_triple (A := fun tx _ => tx = Tx.empty)
    (B := fun a tx d => (B a tx d ∧ tx.writes.Rows q) ∧ F d) ?_ rfl
    (fun a => ((stable_of_ledger (hstable a)).and (stable_const _)).and hFs)
    (fun a tx d hB _ => hguar a tx d hB.1.1 hB.1.2 hB.2)
    (fun a _ _ _ _ => hk (.ok a) _ _) fun e d => hk (.error e) _ d
  refine triple_bind (triple_begin (stable_const _)) fun startedAt => ?_
  refine triple_weaken (triple_and (triple_and (books_of_ledger (hbody startedAt))
    (triple_only rows_append (hrows startedAt))) (hF startedAt)) ?_ fun _ _ _ hB => hB
  rintro tx d rfl
  exact ⟨⟨rfl, rows_nothing rfl⟩, rfl⟩

end transfer

/-! ## Section 2: Transactions -/

section transactions

variable {h k : JsString} {u : Uuid} {id : KeyId} {hash : JsString} {startedAt : Millis} {q : Expense → Prop}

theorem only_insertExpense_rows {spec : ExpenseSpec} {splits : Splits JsString} (hq : q (spec.row startedAt)) :
    (insertExpense env startedAt spec splits).Only (Writes.Rows q) := by
  refine Txn.only_bind (Txn.only_exec fun v e o hmem => ?_) fun _ =>
    Txn.only_bind (only_insertSplits fun _ => rows_nothing rfl) fun _ => trivial
  cases List.mem_singleton.mp hmem
  exact ⟨_, rfl, hq⟩

theorem createExpense_rows {input : CreateExpenseInput} :
    (createExpenseTx env h u input (store id hash) startedAt).Only
      (Writes.Rows fun row => row.Is (toUuid h) (toUuid input.paidBy) input.amountCents) := by
  have h0 : ∀ {w : Writes}, w.expenses = [] →
      w.Rows fun row => row.Is (toUuid h) (toUuid input.paidBy) input.amountCents := rows_nothing
  refine Txn.only_bind (only_selectHouse (h0 rfl)) fun _ => Txn.only_bind only_reject fun _ =>
    Txn.only_bind (only_resolveSplitsOr400 (h0 rfl)) fun _ =>
    Txn.only_bind (only_insertExpense_rows ⟨rfl, rfl, rfl, rfl⟩) fun _ => ?_
  exact Txn.only_bind (only_log (h0 rfl)) fun _ => Txn.only_bind (only_store fun _ => h0 rfl) fun _ => trivial

theorem updateExpense_rows {e : Uuid} {input : EditExpenseInput} :
    (updateExpense e input).Only
      (Writes.Rows fun row => row.paidBy = toUuid input.paidBy ∧ row.amountCents = input.amountCents) := by
  refine Txn.only_exec fun v e' o hmem => ?_
  dsimp only at hmem
  split at hmem
  · cases List.mem_singleton.mp hmem
    exact ⟨_, rfl, rfl, rfl⟩
  · cases hmem

theorem editExpense_rows {input : EditExpenseInput} :
    (editExpenseTx k u input (store id hash) startedAt).Only
      (Writes.Rows fun row => row.paidBy = toUuid input.paidBy ∧ row.amountCents = input.amountCents) := by
  have h0 : ∀ {w : Writes}, w.expenses = [] →
      w.Rows fun row => row.paidBy = toUuid input.paidBy ∧ row.amountCents = input.amountCents := rows_nothing
  refine Txn.only_bind (only_lockExpense (h0 rfl)) fun _ => Txn.only_bind (Txn.only_select (h0 rfl)) fun _ =>
    Txn.only_bind only_reject fun _ => Txn.only_bind (Txn.only_select (h0 rfl)) fun _ =>
    Txn.only_bind (only_insertRevisions fun _ => h0 rfl) fun _ =>
    Txn.only_bind (only_resolveSplitsOr400 (h0 rfl)) fun _ => Txn.only_bind updateExpense_rows fun _ => ?_
  exact Txn.only_bind (only_deleteSplitsOf (h0 rfl) fun _ => h0 rfl) fun _ =>
    Txn.only_bind (only_insertSplits fun _ => h0 rfl) fun _ => Txn.only_bind (only_log (h0 rfl)) fun _ =>
    Txn.only_bind (only_store fun _ => h0 rfl) fun _ => trivial

theorem postOne_rows {bill : DueBill} {period nextRun : JsString} :
    (postOneTx env bill period nextRun).Only (Writes.Rows fun row =>
      row.Is (toUuid bill.template.houseId) (toUuid bill.template.ownerId) bill.template.amountCents) := by
  have h0 : ∀ {w : Writes}, w.expenses = [] → w.Rows fun row =>
      row.Is (toUuid bill.template.houseId) (toUuid bill.template.ownerId) bill.template.amountCents := rows_nothing
  refine Txn.only_bind (only_begin (h0 rfl)) fun _ => Txn.only_bind (only_lockActiveMembers (h0 rfl)) fun _ =>
    Txn.only_bind only_reject fun _ => Txn.only_bind only_reject fun _ =>
    Txn.only_bind (only_resolveSplits (h0 rfl)) fun _ =>
    Txn.only_bind (only_insertExpense_rows ⟨rfl, rfl, rfl, rfl⟩) fun _ => ?_
  exact Txn.only_bind (only_insertEvent (h0 rfl)) fun _ =>
    Txn.only_bind (only_advanceBill fun _ => h0 rfl) fun _ => trivial

theorem triple_any {A : DbTx → Db → Prop} {m : DbTxn α} :
    (booksProtocol env).Triple A m fun _ _ _ => True :=
  triple_weaken (triple_passive (passive_const (fun _ => True) True) (Txn.only_true m))
    (fun _ _ _ => trivial) fun _ _ _ _ => trivial

theorem createExpense_keeps {key : JsString} {input : CreateExpenseInput} :
    Keeps (booksProtocol env) (.createExpense h u key input)
      (begin >>= createExpenseTx env h u input (store id hash)) := by
  have hbody : ∀ startedAt, LedgerBody env True False (.createExpense h u key input) (fun _ => True)
      (createExpenseTx env h u input (store id hash) startedAt) fun _ => PostedExpense env :=
    fun _ => createExpense_body rfl fun _ hp _ => only_store hp
  refine keeps_books (F := fun _ => True) (fun startedAt => triple_weaken (hbody startedAt).triple
    (fun _ _ hA => ⟨hA, trivial⟩) fun _ _ _ hB => hB) (hbody 0).stable (fun _ => createExpense_rows)
    (fun _ => triple_any) (stable_const _) ?_
  intro _ tx d hB hrows _
  exact ⟨hB.1, hrows⟩

theorem lockExpense_editable {e : Uuid} :
    (booksProtocol env).Triple (fun tx _ => tx = Tx.empty) (lockExpense e) fun _ _ d => Editable e d := by
  refine triple_exec (stable_const _) fun tx d now expense hA _ hres => ?_
  rw [hA, show ((Tx.empty : DbTx).view d now).db.expenses.lookup e = d.expenses.lookup e from rfl] at hres
  cases hrow : d.expenses.lookup e with
  | none =>
    rw [hrow] at hres
    cases hres
  | some row =>
    simp only [hrow] at hres
    split at hres
    · next hlive => exact ⟨row, hrow, hlive⟩
    · cases hres

theorem editExpense_keeps {key : JsString} {input : EditExpenseInput} :
    Keeps (booksProtocol env) (.editExpense k u key input)
      (begin >>= editExpenseTx k u input (store id hash)) := by
  have hbody : ∀ startedAt, LedgerBody env True False (.editExpense k u key input) (fun _ => True)
      (editExpenseTx k u input (store id hash) startedAt) fun _ => EditedExpense env False (toUuid k) :=
    fun _ => editExpense_body rfl fun _ hp _ => only_store hp
  refine keeps_books (F := Editable (toUuid k)) (fun startedAt => triple_weaken (hbody startedAt).triple
    (fun _ _ hA => ⟨hA, trivial⟩) fun _ _ _ hB => hB) (hbody 0).stable (fun _ => editExpense_rows)
    (fun _ => ?_) (passive_editable (fun _ => True) _).stable ?_
  · exact triple_bind lockExpense_editable fun _ =>
      triple_passive (passive_editable (fun _ => True) _) (Txn.only_true _)
  · intro _ tx d hB hrows hF
    exact ⟨hB.1, hF, hrows⟩

theorem recordPayment_books {input : RecordPaymentInput} {key : JsString} :
    Keeps (booksProtocol env) (.recordPayment h u key input)
      (begin >>= recordPaymentTx env h u input (store id hash)) := by
  let One (tx : DbTx) : Prop := ∃ p r, tx.writes.payments = [(p, some r)] ∧
    r.Is (toUuid h) u (toUuid input.toUser) input.amountCents
  have hnone : (booksProtocol env).Passive (fun w => w.payments = [])
      fun tx _ => tx.writes.payments = [] :=
    passive_writes (p := fun w : Writes => w.payments = []) (q := fun w => w.payments = [])
      fun w w' hw hw' => by simp [Writes.append, hw, hw']
  have hone : (booksProtocol env).Passive (fun w => w.payments = []) fun tx _ => One tx := by
    refine ⟨stable_const _, fun tx d e he hA => ?_⟩
    obtain ⟨p, r, hp, hr⟩ := hA
    exact ⟨p, r, by simp [Writes.append, hp, he], hr⟩
  intro next hk seen d
  refine safe_of_triple (A := fun tx _ => tx.writes.payments = []) (B := fun _ tx _ => One tx)
    ?_ rfl (fun _ => hone.stable) (fun _ _ _ hA _ => hA)
    (fun a _ _ _ _ => hk (.ok a) _ _) fun e d => hk (.error e) _ d
  have h0 : ({} : Writes).payments = [] := rfl
  refine triple_bind (triple_passive hnone (only_begin h0)) fun startedAt =>
    triple_bind (triple_passive hnone (only_selectHouse h0)) fun house =>
    triple_bind (triple_passive hnone only_reject) fun _ => triple_bind (triple_passive hnone
      (Txn.only_mapError (only_lockActingMember h0))) fun _ => ?_
  refine triple_bind (B := fun _ tx _ => One tx) ?_ fun _ =>
    triple_bind (triple_passive hone (only_log rfl)) fun _ =>
    triple_bind (triple_passive hone (only_store fun _ => rfl)) fun _ => triple_pure fun _ _ hA => hA
  refine triple_exec hnone.stable fun tx d now p hA _ _ => ?_
  have hwrites : ∀ e : Effect Writes LockKey Note, (tx.add e).writes.payments = e.writes.payments := by
    intro e
    show tx.writes.payments ++ e.writes.payments = e.writes.payments
    rw [hA, List.nil_append]
  exact ⟨env.uuid d.fresh, _, hwrites _, ⟨rfl, rfl, rfl, rfl, rfl⟩⟩

end transactions

/-! ## Section 3: Runs -/

/-- The worker keeps to the protocol from where the templates of its scan
    are. -/
def BilledBooks (env : Env) (bills : List DueBill) (prog : DbProg) : Prop :=
  ∀ now seen d, (∀ bill ∈ bills, Scheduled bill d) →
    (booksProtocol env).Safe (.postDueBills now) prog seen Tx.empty d

section runs

variable {bill : DueBill} {bills : List DueBill}

theorem billedBooks_bare (hbill : bill ∈ bills) {A : DbTx → Db → Prop} {m : DbTxn α}
    (hm : EntersBills env (Scheduled bill) m) (hA : (booksProtocol env).Triple (fun tx _ => tx = Tx.empty) m fun _ => A)
    (hAs : (booksProtocol env).Stable A)
    (hguar : ∀ now tx d, A tx d → Scheduled bill d → BooksGuar env (.postDueBills now) tx d) :
    PassesBare (BilledBooks env bills) m := by
  intro next hnext now seen d hb
  have hscan : (booksProtocol env).Passive (fun _ => True) fun _ d => ∀ bill ∈ bills, Scheduled bill d := by
    refine ⟨fun tx d d' hr _ h bill hmem => ?_, fun _ _ _ _ h => h⟩
    exact (h bill hmem).kept (TemplatesRely.kept (BooksRely.templates hr))
  refine safe_of_triple_fact (A := fun tx d => tx = Tx.empty ∧ ∀ bill ∈ bills, Scheduled bill d)
    (B := fun _ tx d => (Entered env tx d ∧ A tx d) ∧ ∀ bill ∈ bills, Scheduled bill d) hscan ?_
    ⟨rfl, hb⟩ hb (fun _ => ((stable_of_templates passive_entered.stable).and hAs).and hscan.stable)
    (fun _ tx d hB _ => hguar now tx d hB.1.2 (hB.2 bill hbill)) (fun a tx d hB hF _ => ?_)
    fun e d hF => hnext _ now _ _ hF
  · refine triple_weaken (triple_and (triple_and (books_of_templates hm) hA)
      (triple_passive hscan (Txn.only_true m))) ?_ fun _ _ _ hB => hB
    rintro tx d ⟨rfl, hb⟩
    exact ⟨⟨⟨entered_empty, hb bill hbill⟩, rfl⟩, hb⟩
  · exact hnext _ now _ _ fun b hb => (hF b hb).kept hB.1.1.kept

/-- Writes that leave the ledger alone. -/
def Writes.Unbooked (w : Writes) : Prop := w.expenses = [] ∧ w.expenseSplits = []

theorem triple_unbooked {m : DbTxn α} (hm : m.Only Writes.Unbooked) :
    (booksProtocol env).Triple (fun tx _ => tx = Tx.empty) m fun _ tx _ => tx.writes.Unbooked := by
  have happend : ∀ w w' : Writes, w.Unbooked → w'.Unbooked → (WriteSet.append w w' : Writes).Unbooked := by
    intro w w' hw hw'
    exact ⟨by simp [Writes.append, hw.1, hw'.1], by simp [Writes.append, hw.2, hw'.2]⟩
  refine triple_weaken (triple_only happend hm) ?_ fun _ _ _ hB => hB
  rintro tx d rfl
  exact ⟨rfl, rfl⟩

/-- The rows of a posting are those of its template. -/
theorem postOne_guar {q : Expense → Prop} {now : Millis} (hnew : BooksNew env tx d) (hrows : tx.writes.Rows q)
    (hq : ∀ row, q row → row.Is (toUuid bill.template.houseId) (toUuid bill.template.ownerId) bill.template.amountCents)
    (hs : Scheduled bill d) : BooksGuar env (.postDueBills now) tx d := by
  obtain ⟨t, ht, hf⟩ := hs
  refine Or.inr ⟨hnew, bill.id, t, ht, fun e o hmem => ?_⟩
  obtain ⟨row, ho, hrow⟩ := hrows e o hmem
  rw [hf]
  exact ⟨row, ho, hq row hrow⟩

theorem postDueBills_books (now : Millis) :
    Always (booksProtocol env) (.postDueBills now) (postDueBills env now) := by
  intro seen d
  unfold postDueBills
  split
  · trivial
  · next latest _ =>
    intro d' now' hr hi _
    have hscan : ∀ bill ∈ dueBills d' latest, Scheduled bill d' := by
      intro bill hbill
      exact ⟨bill.template, scanned_template hbill, .refl _⟩
    have hquiet : ∀ bill ∈ dueBills d' latest, ∀ {α : Type} {m : DbTxn α}, EntersBills env (Scheduled bill) m →
        m.Only Writes.Unbooked → PassesBare (BilledBooks env (dueBills d' latest)) m :=
      fun bill hbill _ m hm honly => billedBooks_bare hbill hm (triple_unbooked honly) (stable_const _)
        fun _ _ _ hA _ => Or.inl hA
    have hrun : BilledBooks env (dueBills d' latest) (postBills env now (dueBills d' latest) {}) := by
      refine passes_postBills (fun _ _ _ _ _ => trivial) fun bill hbill => ?_
      refine dueRules_of_keeps (fun _ _ _ _ _ => trivial) ?_ ?_ ?_ ?_
      · intro hint next hnext now seen d hb d' hr _
        exact hnext now _ _ fun b hmem => (hb b hmem).kept (TemplatesRely.kept (BooksRely.templates hr))
      · intro dueISO advanced hdue period
        have hbody : LedgerBody env True False (.postDueBills now) (fun _ => True)
            (postOneTx env bill period advanced) fun _ => PostedExpense env := postOne_body rfl
        refine billedBooks_bare hbill (postOneTx_enters hdue) ?_
          ((stable_of_ledger (hbody.stable (env.uuid 0))).and (stable_const _))
          fun _ _ _ hA hs => postOne_guar hA.1.1 hA.2 (fun _ hq => hq) hs
        refine triple_weaken (triple_and (books_of_ledger hbody.triple)
          (triple_only rows_append postOne_rows)) ?_ fun _ _ _ hB => hB
        rintro tx d rfl
        exact ⟨⟨rfl, trivial⟩, rows_nothing rfl⟩
      · exact fun dueISO advanced hdue => hquiet bill hbill
          (triple_weaken (advanceBill_enters hdue) (fun _ _ hA => hA) fun _ _ _ hB => hB.1)
          (only_advanceBill fun _ => ⟨rfl, rfl⟩)
      · exact fun reason => hquiet bill hbill pauseTx_enters
          (only_pauseTx (p := Writes.Unbooked) (fun _ _ => ⟨rfl, rfl⟩) fun _ => ⟨rfl, rfl⟩)
    exact hrun now _ _ hscan

/-- A transaction whose end is what the call enters. -/
theorem books_transact {A : Db → Prop} {fn : Millis → DbTxn (α × List ActivityInput)}
    {next : Except Err α → DbProg} {B : α × List ActivityInput → DbTx → Db → Prop}
    (h : LedgerBody env True False c A (do fn (← begin)) B) {seen d : Db} (hd : A d)
    (hguar : ∀ a tx d, B a tx d → BooksGuar env c tx d) (hnext : ∀ r, Always (booksProtocol env) c (next r)) :
    (booksProtocol env).Safe c (Homi.transact fn next) seen Tx.empty d :=
  safe_of_triple (books_of_ledger h.triple) ⟨rfl, hd⟩ (fun a => stable_of_ledger (h.stable a))
    (fun a tx d hB _ => hguar a tx d hB) (fun a _ _ _ _ => always_logged hnext (.ok a) _ _)
    fun e d => always_logged hnext (.error e) _ d

theorem books_safe (c : Call) (d : Db) (hadm : admits d c = true) :
    (booksProtocol env).Safe c (route env c) d Tx.empty d := by
  cases c with
  | createExpense h u key input =>
    exact always_route (fun _ _ => trivial)
      (show KeepsAll (booksProtocol env) env (.createExpense h u key input) from createExpense_keeps) _ _
  | editExpense k u key input =>
    exact always_route (fun _ _ => trivial)
      (show KeepsAll (booksProtocol env) env (.editExpense k u key input) from editExpense_keeps) _ _
  | recordPayment h u key input =>
    exact always_route (fun _ _ => trivial)
      (show KeepsAll (booksProtocol env) env (.recordPayment h u key input) from recordPayment_books) _ _
  | acceptInvite token u =>
    have hd : hasAccount d u = true := by simpa [admits, Call.user?] using hadm
    have hbody : LedgerBody env True False (.acceptInvite token u) (fun d => hasAccount d u = true)
        (do acceptInviteTx env token u (← begin)) fun _ => Accepting True False u :=
      .begin (fun _ _ hp hA => hasAccount_rely hA hp) fun _ => acceptInvite_body
    rw [route, acceptInvite]
    refine books_transact hbody hd (fun _ _ _ hA => hA) fun r => ?_
    cases r <;> exact always_done fun _ => trivial
  | postDueBills now => exact postDueBills_books now _ _
  | _ => exact safe_trivial (fun _ _ _ => trivial) (fun _ _ => trivial) _ _ _ _

/-- What the other protocols have shown of a commit. -/
structure KnownBooks (env : Env) (c : HomiCommit) : Prop where
  ledger : LedgerGuar env True False c.call c.tx c.before
  templates : c.call.writesBills = true → Entered env c.tx c.before
  sound : Sound env c

theorem books_lawful :
    (booksProtocol env).Lawful (homi env) (KnownBooks env) (LedgerApart True False) where
  rely_refl tx d := ⟨.refl tx d, (@templates_lawful env).rely_refl tx d⟩
  rely_trans tx x y z h h' := ⟨h.ledger.trans h'.ledger,
    (@templates_lawful env).rely_trans tx x y z h.templates h'.templates⟩
  rely_tick tx n d hi := ⟨.tick tx n d, (@templates_lawful env).rely_tick tx n d hi.2⟩
  inv_tick n d hi := ⟨ledger_lawful.inv_tick n d hi.1, templates_lawful.inv_tick n d hi.2⟩
  inv_init := ⟨ledger_lawful.inv_init, templates_lawful.inv_init⟩
  inv_commit c hk hi _ hheld := ⟨ledger_lawful.inv_commit c trivial hi.1 hk.ledger hheld,
    templates_lawful.inv_commit c hk.sound hi.2 hk.templates hheld⟩
  rely_commit c tx hk hi _ hheld' hheld hcompat hap :=
    ⟨ledger_lawful.rely_commit c tx trivial hi.1 hk.ledger hheld' hheld hcompat hap,
      templates_lawful.rely_commit c tx hk.sound hi.2 hk.templates hheld' hheld hcompat trivial⟩
  apart_empty c := (@ledger_lawful env True False).apart_empty c
  start c d _ hadm := books_safe c d hadm
  killed _ _ _ _ := trivial

theorem books_hold {s : HomiState} (h : Run (homi env) FoldsApart s) : (booksProtocol env).Holds s :=
  Protocol.sound books_lawful
    { allows := fun _ _ _ _ _ _ => trivial
      stops := fun _ _ _ _ _ => trivial
      apart := fun s a c q qr ha hcommit hq hp => ⟨fun _ => ha c hcommit q qr hq hp, False.elim⟩
      known := fun s hs c hc => by
        have hledger : (ledgerProtocol env True False).Holds s :=
          ledger_holds hs (fun _ _ _ ha => ha) False.elim
        have hreach : HomiReachable env s := Run.mono (fun _ _ _ => trivial) hs
        exact ⟨(hledger.commits c hc).2, ((templates_hold hreach).commits c hc).2, sound_reachable hreach c hc⟩ } h

end runs

/-! ## Section 4: The line of a commit -/

/-- Calls that enter a line with every commit. -/
def Call.enters : Call → Bool
  | .createExpense _ _ _ _ | .editExpense _ _ _ _ | .recordPayment _ _ _ _ | .disputePayment _ _
  | .resolvePayment _ _ => true
  | _ => false

/-- The line of a commit is the one that its call asks for.

    * `aside`: the commit leaves expenses, splits and payments alone.
    * `created`, `posted`: the payer of an expense, or of a bill, advanced
      shares of its amount.
    * `edited`: the payer of the expense as it was takes back shares of the
      amount as it was, and the new one advances shares of the new one.
    * `paid`, `disputed`, `resolved`: a payment counts, unless it is in
      dispute.
    * `claimed`: who accepts the invite of a placeholder takes its place. -/
inductive Records (c : HomiCommit) : Option (Uuid × Debts.Entry Uuid ℤ) → Prop where
  | aside (hcall : c.call.enters = false) (hexpenses : c.tx.writes.expenses = [])
      (hsplits : c.tx.writes.expenseSplits = []) (hpayments : c.tx.writes.payments = []) : Records c none
  | created (h : JsString) (u : Uuid) (key : JsString) (input : CreateExpenseInput) (shares : Uuid →₀ ℤ)
      (hcall : c.call = .createExpense h u key input) (hshares : Shares input.amountCents shares) :
      Records c (some (toUuid h, .spend (toUuid input.paidBy) shares))
  | posted (now : Millis) (b : Uuid) (t : BillTemplate) (shares : Uuid →₀ ℤ)
      (hcall : c.call = .postDueBills now) (ht : c.before.billTemplates.lookup b = some t)
      (hshares : Shares t.amountCents shares) :
      Records c (some (toUuid t.houseId, .spend (toUuid t.ownerId) shares))
  | edited (id : JsString) (u : Uuid) (key : JsString) (input : EditExpenseInput) (old : Expense)
      (shares shares' : Uuid →₀ ℤ) (hcall : c.call = .editExpense id u key input)
      (hold : c.before.expenses.lookup (toUuid id) = some old)
      (hshares : Shares old.amountCents shares) (hshares' : Shares input.amountCents shares') :
      Records c (some (old.houseId, .correct old.paidBy shares (toUuid input.paidBy) shares'))
  | paid (h : JsString) (u : Uuid) (key : JsString) (input : RecordPaymentInput)
      (hcall : c.call = .recordPayment h u key input) :
      Records c (some (toUuid h, .pay u (toUuid input.toUser) input.amountCents))
  | disputed (id : JsString) (u : Uuid) (r : Payment) (hcall : c.call = .disputePayment id u)
      (hr : c.before.payments.lookup (toUuid id) = some r) (hu : r.toUser = u) :
      Records c (some (r.houseId, .takeBack r.fromUser u r.amountCents))
  | resolved (id : JsString) (u : Uuid) (r : Payment) (hcall : c.call = .resolvePayment id u)
      (hr : c.before.payments.lookup (toUuid id) = some r) (hu : r.toUser = u) :
      Records c (some (r.houseId, .pay r.fromUser u r.amountCents))
  | claimed (token : JsString) (h p u : Uuid) (m m' : HouseMember) (hcall : c.call = .acceptInvite token u)
      (hm : c.before.houseMembers.lookup (h, p) = some m) (hunclaimed : m.claimedBy = none)
      (hm' : c.after.houseMembers.lookup (h, p) = some m') (hclaimed : m'.claimedBy = some u) :
      Records c (some (h, .become p u))

/-- All that is known of a commit. -/
structure Accounted (env : Env) (c : HomiCommit) : Prop where
  known : Known env c
  balanced : Balanced c.before
  balanced' : Balanced c.after
  guar : BooksGuar env c.call c.tx c.before
  payments : PaymentsGuar env c.call c.tx c.before
  parties : Parties env c.before
  housing : Housing env c.before

section commits

variable {c : HomiCommit} {e p u h : Uuid} {row : Expense}

theorem Accounted.spares (hc : Accounted env c) {t : TableName} (ht : t ∉ c.call.tables) : c.tx.writes.Spares t :=
  hc.known.within.tables t ht

theorem Accounted.payments_same (hc : Accounted env c) (ht : TableName.payments ∉ c.call.tables) :
    c.after.payments = c.before.payments := by
  show c.before.payments.patch c.tx.writes.payments = _
  rw [show c.tx.writes.payments = [] from hc.spares ht, Table.patch_nil]

/-- A commit that books an expense changes this expense. -/
theorem Accounted.oneExpense (hc : Accounted env c) (ht : TableName.payments ∉ c.call.tables)
    (hbooks : Books env e c.tx c.before) :
    OneExpense e c.before c.after ∧ ∃ row, c.tx.writes.expenses = [(e, some row)] ∧
      c.after.expenses.lookup e = some row ∧ (c.before.expenses.lookup e = none ∨
        ∃ old, c.before.expenses.lookup e = some old ∧ row.houseId = old.houseId ∧ row.deletedAt = old.deletedAt) := by
  obtain ⟨k, row, splits, dead, new, hb, hnew, hnd, _⟩ := hbooks
  refine ⟨⟨hc.known.before.bookings.slots, hc.known.after.bookings.slots,
    fun _ hne => hb.same hnd hnew hne, hc.payments_same ht⟩, row, hb.expenses, ?_, ?_⟩
  · exact (hb.commit_expense e).trans (if_pos rfl)
  · exact hb.old.imp_right fun ⟨old, hold, hhouse, _, _, _, hdel⟩ => ⟨old, hold, hhouse, hdel⟩

theorem Writes.Rows.of_one {q : Expense → Prop} {w : Writes} (hrows : w.Rows q)
    (hw : w.expenses = [(e, some row)]) : q row := by
  obtain ⟨row', heq, hq⟩ := hrows e (some row) (hw ▸ List.mem_singleton_self _)
  cases heq
  exact hq

theorem Accounted.shares (hc : Accounted env c) (hrow : c.after.expenses.lookup e = some row) :
    Shares row.amountCents (c.after.sharesOf e) := shares_of_row hc.known.after hc.balanced' hrow

/-- A commit that books a new expense. -/
theorem Accounted.spends (hc : Accounted env c) (ht : TableName.payments ∉ c.call.tables)
    (hnew : BooksNew env c.tx c.before) {payer : Uuid} {amountCents : ℤ}
    (hrows : c.tx.writes.Rows fun row => row.Is h payer amountCents) :
    ∃ shares, Shares amountCents shares ∧ Lined c.before c.after (some (h, .spend payer shares)) := by
  obtain ⟨e, hbooks, hnone⟩ := hnew
  obtain ⟨hone, row, hw, hrow, _⟩ := hc.oneExpense ht hbooks
  obtain ⟨hhouse, hpayer, hamount, hlive⟩ := hrows.of_one hw
  refine ⟨c.after.sharesOf e, hamount ▸ hc.shares hrow, ?_⟩
  rw [← hhouse, ← hpayer]
  exact lined_spend hone hnone hrow hlive

theorem Accounted.corrects (hc : Accounted env c) (ht : TableName.payments ∉ c.call.tables)
    (hbooks : Books env e c.tx c.before) (heditable : Editable e c.before) {payer : Uuid} {amountCents : ℤ}
    (hrows : c.tx.writes.Rows fun row => row.paidBy = payer ∧ row.amountCents = amountCents) :
    ∃ old shares shares', c.before.expenses.lookup e = some old ∧ Shares old.amountCents shares ∧
      Shares amountCents shares' ∧
      Lined c.before c.after (some (old.houseId, .correct old.paidBy shares payer shares')) := by
  obtain ⟨hone, row, hw, hrow, hold⟩ := hc.oneExpense ht hbooks
  obtain ⟨hpayer, hamount⟩ := hrows.of_one hw
  obtain ⟨old, hlook, hlive⟩ := heditable
  rcases hold with hnone | ⟨old', hold', hhouse, hdel⟩
  · rw [hlook] at hnone
    cases hnone
  · rw [hlook] at hold'
    cases hold'
    refine ⟨old, c.before.sharesOf e, c.after.sharesOf e, hlook,
      shares_of_row hc.known.before hc.balanced hlook, hamount ▸ hc.shares hrow, ?_⟩
    rw [← hpayer]
    exact lined_correct hone hlook hrow hhouse hlive (hdel.trans hlive)

/-- A commit that writes one payment changes this payment. -/
theorem Accounted.onePayment (hc : Accounted env c) (hx : TableName.expenses ∉ c.call.tables)
    (hs : TableName.expenseSplits ∉ c.call.tables) {r : Payment} (hw : c.tx.writes.payments = [(p, some r)]) :
    OnePayment p c.before c.after ∧ c.after.payments.lookup p = some r := by
  have hlook : ∀ q, c.after.payments.lookup q = if p = q then some r else c.before.payments.lookup q := by
    intro q
    show (c.before.payments.patch c.tx.writes.payments).lookup q = _
    rw [hw, Table.lookup_patch_singleton]
  refine ⟨⟨?_, ?_, fun q hne => (hlook q).trans (if_neg (Ne.symm hne))⟩, (hlook p).trans (if_pos rfl)⟩
  · show c.before.expenses.patch c.tx.writes.expenses = _
    rw [show c.tx.writes.expenses = [] from hc.spares hx, Table.patch_nil]
  · show c.before.expenseSplits.patch c.tx.writes.expenseSplits = _
    rw [show c.tx.writes.expenseSplits = [] from hc.spares hs, Table.patch_nil]

theorem lined_aside (hx : c.tx.writes.expenses = []) (hs : c.tx.writes.expenseSplits = [])
    (hp : c.tx.writes.payments = []) : Lined c.before c.after none := by
  refine lined_none ?_ ?_ ?_
  · show c.before.expenses.patch c.tx.writes.expenses = _
    rw [hx, Table.patch_nil]
  · show c.before.expenseSplits.patch c.tx.writes.expenseSplits = _
    rw [hs, Table.patch_nil]
  · show c.before.payments.patch c.tx.writes.payments = _
    rw [hp, Table.patch_nil]

/-- A placeholder has no account, so that it never paid, and is a member of
    one house only. -/
theorem onlyOwes_of_guest {d : Db} (hp : People env d) (hparties : Parties env d) (hd : Housing env d)
    {m : HouseMember} (hm : d.houseMembers.lookup (h, p) = some m) (hpl : m.isPlaceholder = true) :
    OnlyOwes h p d := by
  have hno : ¬ Acts none d p := by
    rintro (ha | hn)
    · rw [(hp.member_of_account ha hm).1] at hpl
      cases hpl
    · cases hn
  refine ⟨fun e row hrow heq => ?_, fun q r hr => ⟨fun heq => ?_, fun heq => ?_⟩, fun e row hrow hne => ?_⟩
  · exact hno (heq ▸ (hparties.expenses e row hrow).1)
  · exact hno (heq ▸ (hparties.payments q r hr).fromUser)
  · exact hno (heq ▸ (hparties.payments q r hr).toUser)
  · rw [Bool.eq_false_iff]
    intro hhas
    obtain ⟨rid, s, hs, rfl, rfl⟩ := hasSplit_iff.mp hhas
    obtain ⟨k, ⟨row', hrow', rfl⟩, m', hm'⟩ := hd.splits rid s hs
    rw [hrow] at hrow'
    cases hrow'
    exact hne (hp.home h _ _ m m' hm hm' hpl)

/-- The line of a claim. -/
theorem Accounted.claims (hc : Accounted env c) {token : JsString} (hcall : c.call = .acceptInvite token u)
    (hA : Claimed True False h p u c.tx c.before) :
    Records c (some (h, .become p u)) ∧ Lined c.before c.after (some (h, .become p u)) := by
  have hb := hc.known.before
  obtain ⟨m, hm, hpl, hfree, _⟩ := (hA.joined.locked p rfl).unclaimed
  have hne : p ≠ u := Ne.symm ((hA.joined.locked p rfl).ne hb.people hA.joined.account)
  constructor
  · obtain ⟨m', hm', hrow⟩ := hA.joined.claimed hb.people rfl
    exact .claimed token h p u m m' hcall hm hfree hm' hrow.claimed
  · refine lined_become (hA.rows.takenOver hb.people hb.bookings) hb.bookings.slots hne ?_ ?_
      (onlyOwes_of_guest hb.people hc.parties hc.housing hm hpl)
    · show c.before.expenses.patch c.tx.writes.expenses = _
      rw [hA.joined.expenses, Table.patch_nil]
    · exact hc.payments_same (by simp [hcall, Call.tables])

/-- What a commit does to the books is the line that it records. -/
theorem Accounted.records (hc : Accounted env c) :
    ∃ line, Records c line ∧ Lined c.before c.after line := by
  have haside : c.call.enters = false → c.tx.writes.expenses = [] → c.tx.writes.expenseSplits = [] →
      TableName.payments ∉ c.call.tables → ∃ line, Records c line ∧ Lined c.before c.after line :=
    fun hcall hx hs hp => ⟨none, .aside hcall hx hs (hc.spares hp), lined_aside hx hs (hc.spares hp)⟩
  have hguar := hc.guar
  have hpayments := hc.payments
  cases hcall : c.call with
  | createExpense h u key input =>
    rw [hcall] at hguar
    obtain ⟨shares, hshares, hline⟩ := hc.spends (by simp [hcall, Call.tables]) hguar.1 hguar.2
    exact ⟨_, .created h u key input shares hcall hshares, hline⟩
  | editExpense id u key input =>
    rw [hcall] at hguar
    obtain ⟨old, shares, shares', hold, hshares, hshares', hline⟩ :=
      hc.corrects (by simp [hcall, Call.tables]) hguar.1 hguar.2.1 hguar.2.2
    exact ⟨_, .edited id u key input old shares shares' hcall hold hshares hshares', hline⟩
  | recordPayment h u key input =>
    rw [hcall] at hguar hpayments
    obtain ⟨p, r, hw, hhouse, hfrom, hto, hamount, hrecorded⟩ := hguar
    obtain ⟨hone, hrow⟩ := hc.onePayment (by simp [hcall, Call.tables]) (by simp [hcall, Call.tables]) hw
    refine ⟨_, .paid h u key input hcall, ?_⟩
    rw [← hhouse, ← hfrom, ← hto, ← hamount]
    exact lined_pay hone (Or.inl (hpayments.free p _ (hw ▸ List.mem_singleton_self _)).1) hrow (by simp [hrecorded])
  | disputePayment id u =>
    rw [hcall] at hpayments
    obtain ⟨r, now, hr, hrecorded, _, hwrites⟩ := hpayments
    have hw : c.tx.writes.payments = [(toUuid id, some (r.dispute now))] := by
      rw [hwrites]
      rfl
    obtain ⟨hone, hrow⟩ := hc.onePayment (by simp [hcall, Call.tables]) (by simp [hcall, Call.tables]) hw
    refine ⟨_, .disputed id u r hcall hr.row hr.recipient, ?_⟩
    rw [← hr.recipient]
    exact lined_takeBack hone hr.row (by simp [hrecorded]) hrow rfl
  | resolvePayment id u =>
    rw [hcall] at hpayments
    obtain ⟨r, now, hr, hdisputed, hwrites⟩ := hpayments
    have hw : c.tx.writes.payments = [(toUuid id, some (r.resolve now))] := by
      rw [hwrites]
      rfl
    obtain ⟨hone, hrow⟩ := hc.onePayment (by simp [hcall, Call.tables]) (by simp [hcall, Call.tables]) hw
    refine ⟨_, .resolved id u r hcall hr.row hr.recipient, ?_⟩
    rw [← hr.recipient]
    have hcounts : (r.resolve now).status ≠ .disputed := by simp [Payment.resolve]
    have hline := lined_pay hone (Or.inr ⟨r, hr.row, hdisputed⟩) hrow hcounts
    exact hline
  | acceptInvite token u =>
    rw [hcall] at hguar
    obtain ⟨h, hA | ⟨p, hA⟩⟩ := hguar
    · exact haside (by rw [hcall]; rfl) hA.joined.expenses hA.rows (by simp [hcall, Call.tables])
    · obtain ⟨hrecords, hline⟩ := hc.claims hcall hA
      exact ⟨_, hrecords, hline⟩
  | postDueBills now =>
    rw [hcall] at hguar
    rcases hguar with hunbooked | ⟨hnew, b, t, ht, hrows⟩
    · exact haside (by rw [hcall]; rfl) hunbooked.1 hunbooked.2 (by simp [hcall, Call.tables])
    · obtain ⟨shares, hshares, hline⟩ := hc.spends (by simp [hcall, Call.tables]) hnew hrows
      exact ⟨_, .posted now b t shares hcall ht hshares, hline⟩
  | _ =>
    have hnone : ∀ t ∈ [TableName.expenses, .expenseSplits, .payments], t ∉ c.call.tables := by
      simp [hcall, Call.tables]
    exact haside (by rw [hcall]; rfl) (hc.spares (hnone .expenses (by decide)))
      (hc.spares (hnone .expenseSplits (by decide))) (hnone .payments (by decide))

end commits

/-! ## Section 5: The result -/

/-- The ledger of a run is a book: its commits record the lines of a journal,
    replaying the journal leads to the books of its houses, and the balances
    of a house show its book. -/
structure KeepsBooks (s : HomiState) : Prop where
  journal : ∃ lines, List.Forall₂ Records s.wal lines ∧ s.db.books = Debts.replay lines
  shown : ∀ houseId, Shows (getBalances s.db houseId) (s.db.book (toUuid houseId))

theorem accounted_run {s : HomiState} (h : Run (homi env) FoldsApart s) : ∀ c ∈ s.wal, Accounted env c := by
  intro c hc
  have hreach : HomiReachable env s := Run.mono (fun _ _ _ => trivial) h
  have hledger : (ledgerProtocol env True False).Holds s := ledger_holds h (fun _ _ _ ha => ha) False.elim
  obtain ⟨hinv, hguar⟩ := hledger.commits c hc
  exact {
    known := known_reachable hreach c hc
    balanced := hinv.2 trivial
    balanced' := hguar.balanced trivial (hinv.2 trivial)
    guar := ((books_hold h).commits c hc).2
    payments := ((payments_reachable hreach).commits c hc).2
    parties := ((parties_reachable hreach).commits c hc).1.2
    housing := ((homes_hold hreach).commits c hc).1.2.1 }

/-- The ids that the balances join into keys do not have the separator. -/
theorem cleanIds_reachable {s : HomiState} (hs : HomiReachable env s) (h : Uuid) :
    CleanIds (expenseRows s.db h) (paymentRows s.db h) := by
  obtain ⟨hbase, hparties⟩ := (parties_reachable hs).inv
  have huser : ∀ u row, s.db.users.lookup u = some row → bar ∉ u := by
    intro u row hrow
    obtain ⟨n, _, rfl⟩ := hbase.people.ids u row hrow
    exact env.bar_notMem_uuid n
  have hacts : ∀ u, Acts none s.db u → bar ∉ u := by
    rintro u (hu | hu)
    · obtain ⟨row, hrow, _⟩ := hasAccount_iff.mp hu
      exact huser u row hrow
    · cases hu
  have hexpense : ∀ e ∈ expenseRows s.db h, ∃ id row, s.db.expenses.lookup id = some row ∧
      e = ⟨row.paidBy, s.db.shares id⟩ := by
    intro e he
    rw [expenseRows_eq] at he
    obtain ⟨⟨id, row⟩, hmem, heq⟩ := List.mem_filterMap.mp he
    unfold Db.expenseRow at heq
    split at heq
    · exact ⟨id, row, Table.mem_rows.mp hmem, (Option.some.inj heq).symm⟩
    · cases heq
  have hpayment : ∀ r ∈ paymentRows s.db h, ∃ id p, s.db.payments.lookup id = some p ∧ r = p.toRow := by
    intro r hr
    obtain ⟨⟨id, p⟩, hmem, rfl⟩ := List.mem_map.mp hr
    exact ⟨id, p, Table.mem_rows.mp (List.mem_filter.mp hmem).1, rfl⟩
  refine ⟨fun e he => ?_, fun e he u hu => ?_, fun r hr => ?_, fun r hr => ?_⟩
  · obtain ⟨id, row, hrow, rfl⟩ := hexpense e he
    exact hacts _ (hparties.expenses id row hrow).1
  · obtain ⟨id, row, hrow, rfl⟩ := hexpense e he
    -- who has a split is a member, and so a user
    have hmem : u ∈ s.db.splitUsers id := by
      by_contra hno
      exact AList.lookup_eq_none.mp (lookup_shares_none hbase.bookings.slots hno) hu
    obtain ⟨rid, split, hsplit, _, rfl⟩ := hasSplit_iff.mp (mem_splitUsers.mp hmem)
    obtain ⟨k, _, m, hm⟩ := (housing_reachable hs).splits rid split hsplit
    obtain ⟨user, huserRow, _⟩ := hbase.people.user k _ m hm
    exact huser _ user huserRow
  · obtain ⟨id, p, hp, rfl⟩ := hpayment r hr
    exact hacts _ (hparties.payments id p hp).fromUser
  · obtain ⟨id, p, hp, rfl⟩ := hpayment r hr
    exact hacts _ (hparties.payments id p hp).toUser

/-- While folds stay apart, what was recorded is what is owed. -/
theorem ledger_refines_journal (env : Env) (s : HomiState) (h : Run (homi env) FoldsApart s) : KeepsBooks s where
  journal := by
    have hstep : ∀ c ∈ s.wal, ∃ line, Records c line ∧ c.after.books = Debts.postLine c.before.books line :=
      fun c hc => (accounted_run h c hc).records
    have htick : ∀ n d, Db.books (tick n d) = d.books := fun _ _ => rfl
    obtain ⟨lines, hrecords, hbooks⟩ := Run.refines htick h hstep
    refine ⟨lines, hrecords, hbooks.trans (congrArg (fun books => lines.foldl Debts.postLine books) ?_)⟩
    funext h
    exact book_empty h
  shown houseId := by
    have hreach : HomiReachable env s := Run.mono (fun _ _ _ => trivial) h
    have hledger := ledger_reachable hreach
    exact shows_book hledger.inv.1.bookings.slots (cleanIds_reachable hreach _)

/-- `cleo` claims the guest of a dinner, and owes `ann` her half. -/
theorem ledger_refines_journal_dinner : ∃ s : HomiState,
    (getBalances s.db theHouse).pairwise = [⟨cleo, ann, 500⟩] ∧ KeepsBooks s := by
  obtain ⟨s, hrun, hs⟩ := Run.exists_of_driveIf (homi sampleEnv) quiet_foldsApart claimSession
    (fun s => (getBalances s.db theHouse).pairwise = [⟨cleo, ann, 500⟩]) (by decide +kernel)
  exact ⟨s, of_decide_eq_true hs, ledger_refines_journal sampleEnv s hrun⟩

end Homi
