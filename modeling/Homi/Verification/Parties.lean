import Homi.Verification.Commits

/-! # Who moves money

  A payer, a payment's sender or recipient and a bill's owner have an
  account, and so are no placeholder; and money moves in the currency of
  its house. The accounts and the houses only grow, so that what was
  checked in a transaction still holds when it commits.
-/

namespace Homi

open ReadCommitted Protocol

variable {env : Env} {c : Call} {me : Option Uuid}

/-! ## Section 1: Good rows -/

/-- The user has an account, or is the one who asks. -/
def Acts (me : Option Uuid) (d : Db) (u : Uuid) : Prop := hasAccount d u = true ∨ me = some u

def InCurrency (d : Db) (h : Uuid) (currency : JsString) : Prop :=
  ∃ house, d.houses.lookup h = some house ∧ house.currency = currency

def GoodExpense (me : Option Uuid) (d : Db) (r : Expense) : Prop :=
  Acts me d r.paidBy ∧ InCurrency d r.houseId r.currency

structure GoodPayment (me : Option Uuid) (d : Db) (r : Payment) : Prop where
  fromUser : Acts me d r.fromUser
  toUser : Acts me d r.toUser
  ne : r.fromUser ≠ r.toUser
  positive : 0 < r.amountCents
  currency : InCurrency d r.houseId r.currency

def GoodBill (me : Option Uuid) (d : Db) (r : BillTemplate) : Prop := Acts me d r.ownerId

/-- All rows that are written are good. -/
structure Fair (me : Option Uuid) (w : Writes) (d : Db) : Prop where
  expenses : ∀ e r, (e, some r) ∈ w.expenses → GoodExpense me d r
  payments : ∀ p r, (p, some r) ∈ w.payments → GoodPayment me d r
  bills : ∀ b r, (b, some r) ∈ w.billTemplates → GoodBill me d r

/-- All rows are good; a house has a drawn id. -/
structure Parties (env : Env) (d : Db) : Prop where
  expenses : ∀ e r, d.expenses.lookup e = some r → GoodExpense none d r
  payments : ∀ p r, d.payments.lookup p = some r → GoodPayment none d r
  bills : ∀ b r, d.billTemplates.lookup b = some r → GoodBill none d r
  houses : ∀ h r, d.houses.lookup h = some r → ∃ n < d.fresh, h = env.uuid n

/-- Houses stay as they are. -/
def HousesKept (d d' : Db) : Prop := ∀ h r, d.houses.lookup h = some r → d'.houses.lookup h = some r

section rows

variable {d d' : Db}

theorem Acts.persist {u : Uuid} (h : Acts me d u) (hp : Persist d d') : Acts me d' u :=
  h.imp_left fun h => hasAccount_rely h hp

theorem Acts.of_none {u : Uuid} (h : Acts none d u) : Acts me d u := by
  rcases h with h | h
  · exact Or.inl h
  · cases h

/-- The one who asks has an account. -/
theorem Acts.settled {u : Uuid} (h : Acts c.user? d u) (hc : c.HasAccount d) : Acts none d u := by
  rcases h with h | h
  · exact Or.inl h
  · exact Or.inl (hc u h)

theorem InCurrency.kept {h : Uuid} {currency : JsString} (hA : InCurrency d h currency)
    (hk : HousesKept d d') : InCurrency d' h currency := by
  obtain ⟨house, hhouse, hc⟩ := hA
  exact ⟨house, hk h house hhouse, hc⟩

theorem GoodExpense.keep {r : Expense} (h : GoodExpense me d r) (hp : Persist d d')
    (hk : HousesKept d d') : GoodExpense me d' r := ⟨h.1.persist hp, h.2.kept hk⟩

theorem GoodPayment.keep {r : Payment} (h : GoodPayment me d r) (hp : Persist d d')
    (hk : HousesKept d d') : GoodPayment me d' r :=
  ⟨h.fromUser.persist hp, h.toUser.persist hp, h.ne, h.positive, h.currency.kept hk⟩

theorem Fair.keep {w : Writes} (h : Fair me w d) (hp : Persist d d') (hk : HousesKept d d') :
    Fair me w d' where
  expenses e r hr := (h.expenses e r hr).keep hp hk
  payments p r hr := (h.payments p r hr).keep hp hk
  bills b r hr := (h.bills b r hr).persist hp

theorem Fair.append {w w' : Writes} (h : Fair me w d) (h' : Fair me w' d) :
    Fair me (w.append w') d where
  expenses e r hr := (List.mem_append.mp hr).elim (h.expenses e r) (h'.expenses e r)
  payments p r hr := (List.mem_append.mp hr).elim (h.payments p r) (h'.payments p r)
  bills b r hr := (List.mem_append.mp hr).elim (h.bills b r) (h'.bills b r)

theorem Fair.of_spares {w : Writes} (he : w.expenses = []) (hp : w.payments = [])
    (hb : w.billTemplates = []) : Fair me w d where
  expenses e r hr := by rw [he] at hr; cases hr
  payments p r hr := by rw [hp] at hr; cases hr
  bills b r hr := by rw [hb] at hr; cases hr

end rows

/-! ## Section 2: The protocol -/

/-- Calls that write houses, expenses, payments or bills. -/
def Call.movesMoney : Call → Bool
  | .createHouse _ _ | .createExpense _ _ _ _ | .editExpense _ _ _ _ | .recordPayment _ _ _ _
  | .disputePayment _ _ | .resolvePayment _ _ | .createBill _ _ _ _ | .setActive _ _ _ _
  | .postDueBills _ => true
  | _ => false

/-- What others do meanwhile. -/
structure PartiesRely (tx : DbTx) (d d' : Db) : Prop where
  persist : Persist d d'
  houses : HousesKept d d'
  frame : Frame tx d d'
  fresh : d.fresh ≤ d'.fresh

/-- New houses get new ids, and the other rows are good. -/
structure PartiesGuar (env : Env) (c : Call) (tx : DbTx) (d : Db) : Prop where
  fair : Fair c.user? tx.writes d
  houses : ∀ h o, (h, o) ∈ tx.writes.houses →
    d.houses.lookup h = none ∧ ∃ n < d.fresh, h = env.uuid n

def partiesProtocol (env : Env) : DbProtocol where
  inv d := LedgerBase env d ∧ Parties env d
  rely := PartiesRely
  guar c _ tx d := c.movesMoney = true → PartiesGuar env c tx d
  post _ _ _ := True
  allows _ _ _ _ _ := True
  stops _ _ := True

theorem Known.partiesGuar {c : HomiCommit} (h : Known env c)
    (hg : c.call.movesMoney = true → PartiesGuar env c.call c.tx c.before) :
    PartiesGuar env c.call c.tx c.before := by
  by_cases hm : c.call.movesMoney = true
  · exact hg hm
  · have hspares : ∀ t ∈ [TableName.expenses, .payments, .billTemplates, .houses],
        c.tx.writes.Spares t := by
      intro t ht
      refine h.within.tables t ?_
      cases hc : c.call <;> simp_all [Call.movesMoney, Call.tables] <;>
        rcases ht with rfl | rfl | rfl | rfl <;> decide
    refine ⟨Fair.of_spares (hspares .expenses (by decide)) (hspares .payments (by decide))
      (hspares .billTemplates (by decide)), fun k o hmem => ?_⟩
    rw [show c.tx.writes.houses = [] from hspares .houses (by decide)] at hmem
    cases hmem

theorem PartiesGuar.housesKept {tx : DbTx} {d : Db} (h : PartiesGuar env c tx d) :
    HousesKept d (tx.commit d) := by
  intro k r hr
  show (d.houses.patch tx.writes.houses).lookup k = some r
  rw [Table.lookup_patch]
  cases hedit : Table.lastEdit tx.writes.houses k with
  | none => exact hr
  | some o =>
    have hnone := (h.houses k o (Table.mem_of_lastEdit hedit)).1
    rw [hr] at hnone
    cases hnone

/-- A row after the commit is an old one or a written one. -/
theorem lookup_patch_cases {K V : Type} [DecidableEq K] {T : Table K V} {es : Edits K V} {k : K}
    {v : V} (h : (T.patch es).lookup k = some v) : T.lookup k = some v ∨ (k, some v) ∈ es := by
  rw [Table.lookup_patch] at h
  cases hedit : Table.lastEdit es k with
  | none => rw [hedit] at h; exact Or.inl h
  | some o =>
    rw [hedit] at h
    cases (show o = some v from h)
    exact Or.inr (Table.mem_of_lastEdit hedit)

theorem Parties.commit {c : HomiCommit} (hp : Parties env c.before) (hk : Known env c)
    (hg : PartiesGuar env c.call c.tx c.before) : Parties env c.after := by
  have hpersist := hk.step.toPersist
  have hhouses : HousesKept c.before c.after := hg.housesKept
  refine ⟨fun e r hr => ?_, fun p r hr => ?_, fun b r hr => ?_, fun h r hr => ?_⟩
  · rcases lookup_patch_cases hr with hold | hnew
    · exact (hp.expenses e r hold).keep hpersist hhouses
    · have hgood := hg.fair.expenses e r hnew
      exact GoodExpense.keep ⟨hgood.1.settled hk.account, hgood.2⟩ hpersist hhouses
  · rcases lookup_patch_cases hr with hold | hnew
    · exact (hp.payments p r hold).keep hpersist hhouses
    · have hgood := hg.fair.payments p r hnew
      exact GoodPayment.keep ⟨hgood.fromUser.settled hk.account, hgood.toUser.settled hk.account,
        hgood.ne, hgood.positive, hgood.currency⟩ hpersist hhouses
  · rcases lookup_patch_cases hr with hold | hnew
    · exact (hp.bills b r hold).persist hpersist
    · exact (Acts.settled (hg.fair.bills b r hnew) hk.account).persist hpersist
  · rcases lookup_patch_cases hr with hold | hnew
    · exact hp.houses h r hold
    · exact (hg.houses h _ hnew).2

theorem PartiesRely.trans {tx : DbTx} {a b d : Db} (h : PartiesRely tx a b) (h' : PartiesRely tx b d) :
    PartiesRely tx a d :=
  ⟨h.persist.trans h'.persist, fun k r hr => h'.houses k r (h.houses k r hr), h.frame.trans h'.frame,
    h.fresh.trans h'.fresh⟩

/-! ## Section 3: Statements -/

/-- The writes so far are good, and there are none to users, houses or
    memberships. -/
structure Paying (me : Option Uuid) (tx : DbTx) (d : Db) : Prop where
  users : tx.writes.users = []
  houses : tx.writes.houses = []
  houseMembers : tx.writes.houseMembers = []
  fair : Fair me tx.writes d

/-- Writes to other tables. -/
structure Writes.Moneyless (w : Writes) : Prop where
  users : w.users = []
  houses : w.houses = []
  houseMembers : w.houseMembers = []
  expenses : w.expenses = []
  payments : w.payments = []
  billTemplates : w.billTemplates = []

theorem moneyless_nothing : Writes.Moneyless {} := ⟨rfl, rfl, rfl, rfl, rfl, rfl⟩

section statements

variable {tx : DbTx} {d : Db} {now : ℕ} {A : DbTx → Db → Prop} {α : Type}

theorem Paying.add (hA : Paying me tx d) {e : Effect Writes LockKey Note} (hu : e.writes.users = [])
    (hh : e.writes.houses = []) (hm : e.writes.houseMembers = []) (hf : Fair me e.writes d) :
    Paying me (tx.add e) (tick e.ids d) where
  users := by simp [Writes.append, hA.users, hu]
  houses := by simp [Writes.append, hA.houses, hh]
  houseMembers := by simp [Writes.append, hA.houseMembers, hm]
  fair :=
    have h := hA.fair.append hf
    ⟨h.expenses, fun p r hr => ⟨(h.payments p r hr).fromUser, (h.payments p r hr).toUser,
      (h.payments p r hr).ne, (h.payments p r hr).positive, (h.payments p r hr).currency⟩, h.bills⟩

theorem passive_paying : (partiesProtocol env).Passive Writes.Moneyless (Paying me) where
  stable _ _ _ hr _ hA :=
    ⟨hA.users, hA.houses, hA.houseMembers, hA.fair.keep hr.persist hr.houses⟩
  step _ _ _ hq hA := hA.add hq.users hq.houses hq.houseMembers
    (Fair.of_spares hq.expenses hq.payments hq.billTemplates)

theorem stable_paying : (partiesProtocol env).Stable (Paying me) := passive_paying.stable

/-- A fact about users and houses that stays. -/
theorem passive_fact {q : Writes → Prop} {F : Db → Prop}
    (hF : ∀ d d', Persist d d' → HousesKept d d' → F d → F d') :
    (partiesProtocol env).Passive q fun _ d => F d where
  stable _ d d' hr _ h := hF d d' hr.persist hr.houses h
  step _ d e _ h := hF d (tick e.ids d) (LedgerRely.tick Tx.empty _ _ : LedgerRely False False _ _ _).toPersist
    (fun _ _ h => h) h

theorem passive_hasAccount (u : Uuid) :
    (partiesProtocol env).Passive Writes.Moneyless fun _ d => hasAccount d u = true :=
  passive_fact fun _ _ hp _ h => hasAccount_rely h hp

theorem Paying.view_people (hA : Paying me tx d) (hp : People env d) :
    People env (tx.view d now).db := by
  have hsame : (tx.view d now).db.houseMembers = d.houseMembers := view_houseMembers hA.houseMembers
  have husers : (tx.view d now).db.users = d.users := by
    show d.users.patch tx.writes.users = d.users
    rw [hA.users, Table.patch_nil]
  exact ⟨by rw [husers]; exact hp.ids, by rw [hsame, husers]; exact hp.user, by rw [hsame]; exact hp.home,
    by rw [hsame]; exact hp.left, by rw [hsame]; exact hp.claimed, by rw [hsame, husers]; exact hp.claimer⟩

theorem Paying.view_account (hA : Paying me tx d) {u : Uuid} :
    hasAccount (tx.view d now).db u = hasAccount d u := by
  have husers : (tx.view d now).db.users = d.users := by
    show d.users.patch tx.writes.users = d.users
    rw [hA.users, Table.patch_nil]
  simp only [hasAccount, husers]

/-- A member that is no placeholder has an account. -/
theorem People.account_of_active {h u : Uuid} {a : ActiveMember} (hp : People env d)
    (ha : activeMember d h u = some a) (hreal : a.isPlaceholder = false) :
    a.userId = u ∧ toUuid u = u ∧ hasAccount d u = true := by
  unfold activeMember at ha
  split at ha
  · next m hm =>
    split at ha
    · cases ha
      obtain ⟨r, hr, hiff⟩ := hp.user h u m hm
      refine ⟨rfl, hp.canonical hm, hasAccount_iff.mpr ⟨r, hr, fun hnone => ?_⟩⟩
      rw [hiff.mpr hnone] at hreal
      cases hreal
    · cases ha
  · cases ha

/-- The members among `ms` that are no placeholders have accounts. -/
def Real (ms : List ActiveMember) (d : Db) : Prop :=
  ∀ m ∈ ms, m.isPlaceholder = false → toUuid m.userId = m.userId ∧ hasAccount d m.userId = true

theorem Real.persist {ms : List ActiveMember} {d' : Db} (h : Real ms d) (hp : Persist d d') :
    Real ms d' := fun m hm hreal => ⟨(h m hm hreal).1, hasAccount_rely (h m hm hreal).2 hp⟩

theorem passive_real (ms : List ActiveMember) :
    (partiesProtocol env).Passive Writes.Moneyless fun _ d => Real ms d :=
  passive_fact fun _ _ hp _ h => h.persist hp

theorem triple_lockActiveMembers_real {houseId : JsString} {ids : Option (List JsString)} :
    (partiesProtocol env).Triple (Paying me) (lockActiveMembers houseId ids)
      fun ms tx d => Paying me tx d ∧ Real ms d := by
  refine triple_bind (triple_passive passive_paying (Txn.only_select moneyless_nothing)) fun found => ?_
  refine triple_exec_passive passive_paying (fun _ => moneyless_nothing) ?_
  intro tx d now ms hA hi hres m hm hreal
  cases hres
  obtain ⟨f, _, hact⟩ := List.mem_filterMap.mp hm
  obtain ⟨hid, hcanon, haccount⟩ := (hA.view_people hi.1.people).account_of_active hact hreal
  rw [hA.view_account] at haccount
  rw [hid]
  exact ⟨hcanon, haccount⟩

theorem triple_lockActingMember_real {houseId userId : JsString} {who : Acting} :
    (partiesProtocol env).Triple (Paying me) (lockActingMember houseId userId who)
      fun _ tx d => Paying me tx d ∧ hasAccount d (toUuid userId) = true := by
  refine triple_exec_passive passive_paying (fun _ => moneyless_nothing) ?_
  intro tx d now a hA hi hres
  split at hres
  · cases hres
  · next member hact =>
    split at hres
    · cases hres
    · next hreal =>
      obtain ⟨_, _, haccount⟩ := (hA.view_people hi.1.people).account_of_active hact (by simpa using hreal)
      rwa [hA.view_account] at haccount

theorem triple_selectHouse_kept {houseId : JsString} {missing : Err} :
    (partiesProtocol env).Triple (Paying me) (selectHouse houseId missing)
      fun house tx d => Paying me tx d ∧ d.houses.lookup (toUuid houseId) = some house := by
  refine triple_exec_passive passive_paying (fun _ => moneyless_nothing) ?_
  intro tx d now house hA hi hres
  have hview : (tx.view d now).db.houses = d.houses := by
    show d.houses.patch tx.writes.houses = d.houses
    rw [hA.houses, Table.patch_nil]
  rw [hview] at hres
  split at hres
  · next h hlook => cases hres; exact hlook
  · cases hres

/-- The payer of a posting has an account. Members that are given to it
    have to be real already. -/
theorem triple_resolveSplits_payer {houseId : JsString} {input : ResolveSplitsInput}
    {pre : Option (List ActiveMember)} {F : Db → Prop}
    (hF : ∀ d d', Persist d d' → HousesKept d d' → F d → F d')
    (hpre : ∀ ms, pre = some ms → ∀ d, F d → Real ms d) :
    (partiesProtocol env).Triple (fun tx d => Paying me tx d ∧ F d) (resolveSplits houseId input pre)
      fun _ tx d => (Paying me tx d ∧ F d) ∧ hasAccount d (toUuid input.paidBy) = true := by
  have hpay : (partiesProtocol env).Passive Writes.Moneyless fun tx d => Paying me tx d ∧ F d :=
    passive_paying.and (passive_fact hF)
  have hmembers : (partiesProtocol env).Triple (fun tx d => Paying me tx d ∧ F d)
      (postingMembers houseId input.mode (input.participants ++ [input.paidBy]).eraseDups pre)
      fun ms tx d => (Paying me tx d ∧ F d) ∧ Real ms d := by
    unfold postingMembers
    cases pre with
    | some ms => exact triple_pure fun tx d hA => ⟨hA, hpre ms rfl d hA.2⟩
    | none =>
      refine triple_weaken (triple_and triple_lockActiveMembers_real
        (triple_passive (passive_fact hF) (only_lockActiveMembers moneyless_nothing)))
        (fun _ _ hA => ⟨hA.1, hA.2⟩) fun _ _ _ hB => ⟨⟨hB.1.1, hB.2⟩, hB.1.2⟩
  refine triple_bind hmembers fun ms => ?_
  split
  · exact triple_throw _
  · next hinvolved =>
    split
    · exact triple_throw _
    · next hplaceholder =>
      have hpayer : ∀ d, Real ms d → hasAccount d (toUuid input.paidBy) = true := by
        intro d hreal
        have hfound : ∃ m, byId ms input.paidBy = some m := by
          by_contra hnone
          refine hinvolved (List.any_eq_true.mpr ⟨input.paidBy, ?_, ?_⟩)
          · rw [List.mem_eraseDups]
            exact List.mem_append_right _ (List.mem_singleton_self _)
          · simpa [Option.eq_none_iff_forall_ne_some] using hnone
        obtain ⟨m, hm⟩ := hfound
        obtain ⟨hmem, hid⟩ := byId_eq_some hm
        have hnot : m.isPlaceholder = false := by simpa [hm] using hplaceholder
        obtain ⟨hcanon, haccount⟩ := hreal m hmem hnot
        rw [← hid, hcanon]
        exact haccount
      have hkeep : (partiesProtocol env).Passive Writes.Moneyless
          fun tx d => (Paying me tx d ∧ F d) ∧ Real ms d := hpay.and (passive_real ms)
      refine triple_bind (triple_passive hkeep (only_postingWeights moneyless_nothing)) fun _ => ?_
      exact triple_liftSplit fun _ _ _ d hA => ⟨hA.1, hpayer d hA.2⟩

/-- The insert of an expense whose row is good. -/
theorem triple_insertExpense_good {startedAt : Millis} {spec : ExpenseSpec}
    {splits : Splits JsString} {F : Db → Prop}
    (hF : ∀ d d', Persist d d' → HousesKept d d' → F d → F d')
    (hgood : ∀ d, F d → GoodExpense me d (spec.row startedAt)) :
    (partiesProtocol env).Triple (fun tx d => Paying me tx d ∧ F d)
      (insertExpense env startedAt spec splits) fun _ => Paying me := by
  have hpay : (partiesProtocol env).Passive Writes.Moneyless fun tx d => Paying me tx d ∧ F d :=
    passive_paying.and (passive_fact hF)
  refine triple_bind (B := fun _ => Paying me) ?_ fun id =>
    triple_bind (triple_passive passive_paying (only_insertSplits fun _ =>
      ⟨rfl, rfl, rfl, rfl, rfl, rfl⟩)) fun _ => triple_pure fun _ _ hA => hA
  refine triple_exec hpay.stable fun tx d now id hA _ _ => hA.1.add rfl rfl rfl ?_
  refine ⟨fun e r hr => ?_, fun p r hr => (by cases hr), fun b r hr => (by cases hr)⟩
  obtain ⟨_, hrow⟩ := Prod.mk.inj (List.mem_singleton.mp hr)
  cases hrow
  exact hgood d hA.2

/-- Rows that a transaction sees are good. -/
theorem Paying.view_expense (hA : Paying me tx d) (hi : Parties env d) {e : Uuid} {r : Expense}
    (hr : (tx.view d now).db.expenses.lookup e = some r) : GoodExpense me d r := by
  rcases lookup_patch_cases hr with hold | hnew
  · exact ⟨(hi.expenses e r hold).1.of_none, (hi.expenses e r hold).2⟩
  · exact hA.fair.expenses e r hnew

theorem Paying.view_payment (hA : Paying me tx d) (hi : Parties env d) {p : Uuid} {r : Payment}
    (hr : (tx.view d now).db.payments.lookup p = some r) : GoodPayment me d r := by
  rcases lookup_patch_cases hr with hold | hnew
  · have h := hi.payments p r hold
    exact ⟨h.fromUser.of_none, h.toUser.of_none, h.ne, h.positive, h.currency⟩
  · exact hA.fair.payments p r hnew

theorem Paying.view_bill (hA : Paying me tx d) (hi : Parties env d) {b : Uuid} {r : BillTemplate}
    (hr : (tx.view d now).db.billTemplates.lookup b = some r) : GoodBill me d r := by
  rcases lookup_patch_cases hr with hold | hnew
  · exact Acts.of_none (hi.bills b r hold)
  · exact hA.fair.bills b r hnew

end statements

/-! ## Section 4: Transactions -/

section transactions

variable {α : Type}

theorem paying_empty (me : Option Uuid) (d : Db) : Paying me Tx.empty d :=
  ⟨rfl, rfl, rfl, Fair.of_spares rfl rfl rfl⟩

theorem Paying.guar {tx : DbTx} {d : Db} (hA : Paying c.user? tx d) : PartiesGuar env c tx d where
  fair := hA.fair
  houses k o hmem := by rw [hA.houses] at hmem; cases hmem

/-- A transaction that only writes good rows. -/
def PaysFair (env : Env) (me : Option Uuid) (m : DbTxn α) : Prop :=
  (partiesProtocol env).Triple (Paying me) m fun _ => Paying me

theorem PaysFair.keeps {m : DbTxn α} (hm : PaysFair env c.user? m) :
    Keeps (partiesProtocol env) c m := fun _ hk _ d =>
  safe_of_triple hm (paying_empty _ d) (fun _ => stable_paying) (fun _ _ _ hA _ _ => hA.guar)
    (fun a _ _ _ _ => hk (.ok a) _ _) fun e d => hk (.error e) _ d

theorem PaysFair.begin {fn : Millis → DbTxn α} (h : ∀ startedAt, PaysFair env me (fn startedAt)) :
    PaysFair env me (begin >>= fn) :=
  triple_bind (triple_passive passive_paying (only_begin moneyless_nothing)) h

/-- A helper that writes elsewhere, and what follows it. -/
theorem PaysFair.aside {β : Type} {m : DbTxn β} {k : β → DbTxn α} (hm : m.Only Writes.Moneyless)
    (hk : ∀ b, PaysFair env me (k b)) : PaysFair env me (m >>= k) :=
  triple_bind (triple_passive passive_paying hm) hk

theorem PaysFair.only {m : DbTxn α} (hm : m.Only Writes.Moneyless) : PaysFair env me m :=
  triple_passive passive_paying hm

theorem moneyless_event (e : ActivityEvent) : Writes.Moneyless { activityEvents := [e] } :=
  ⟨rfl, rfl, rfl, rfl, rfl, rfl⟩

theorem only_store_moneyless {id : KeyId} {hash : JsString} {r : StoredResponse} :
    (store id hash r).Only Writes.Moneyless := only_store fun _ => ⟨rfl, rfl, rfl, rfl, rfl, rfl⟩

variable {startedAt : Millis}

theorem createExpense_pays {h : JsString} {u : Uuid} {input : CreateExpenseInput} {id : KeyId}
    {hash : JsString} :
    PaysFair env me (createExpenseTx env h u input (store id hash) startedAt) := by
  refine triple_bind triple_selectHouse_kept fun house => ?_
  refine triple_bind (triple_reject _) fun _ => ?_
  refine triple_bind (B := fun _ tx d => (Paying me tx d ∧ d.houses.lookup (toUuid h) = some house ∧
      input.currency.getD house.currency = house.currency) ∧
      hasAccount d (toUuid input.paidBy) = true) ?_ fun splits => ?_
  · refine triple_weaken (triple_mapError (triple_resolveSplits_payer (F := fun d => d.houses.lookup (toUuid h) = some house ∧
        input.currency.getD house.currency = house.currency)
      (fun d d' _ hk hF => ⟨hk _ _ hF.1, hF.2⟩) fun _ hnone => (by cases hnone)))
      (fun tx d hA => ⟨hA.1.1, hA.1.2, ?_⟩) fun _ _ _ hB => hB
    have hsame := hA.2
    cases hcur : input.currency with
    | none => rfl
    | some currency => simpa [hcur] using hsame
  · refine triple_bind (triple_weaken (triple_insertExpense_good
      (F := fun d => (d.houses.lookup (toUuid h) = some house ∧
        input.currency.getD house.currency = house.currency) ∧
        hasAccount d (toUuid input.paidBy) = true)
      (fun d d' hp hk hF => ⟨⟨hk _ _ hF.1.1, hF.1.2⟩, hasAccount_rely hF.2 hp⟩)
      fun d hF => ⟨Or.inl hF.2, house, hF.1.1, hF.1.2.symm⟩)
      (fun _ _ hA => ⟨hA.1.1, hA.1.2, hA.2⟩) fun _ _ _ hB => hB) fun r => ?_
    exact PaysFair.aside (only_log (moneyless_event _)) fun _ => PaysFair.aside only_store_moneyless fun _ =>
      triple_pure fun _ _ hA => hA

theorem editExpense_pays {e : JsString} {u : Uuid} {input : EditExpenseInput} {id : KeyId}
    {hash : JsString} : PaysFair env me (editExpenseTx e u input (store id hash) startedAt) := by
  refine PaysFair.aside (only_lockExpense moneyless_nothing) fun expense =>
    PaysFair.aside (Txn.only_select moneyless_nothing) fun _ => PaysFair.aside only_reject fun _ =>
    PaysFair.aside (Txn.only_select moneyless_nothing) fun _ =>
    PaysFair.aside (only_insertRevisions fun _ => ⟨rfl, rfl, rfl, rfl, rfl, rfl⟩) fun _ => ?_
  refine triple_bind (B := fun _ tx d => Paying me tx d ∧ hasAccount d (toUuid input.paidBy) = true)
    ?_ fun splits => triple_bind (B := fun _ => Paying me) ?_ fun updated => ?_
  · exact triple_weaken (triple_mapError (triple_resolveSplits_payer (F := fun _ => True) (fun _ _ _ _ _ => trivial)
      fun _ hnone => (by cases hnone))) (fun _ _ hA => ⟨hA, trivial⟩) fun _ _ _ hB => ⟨hB.1.1, hB.2⟩
  · refine triple_exec (passive_paying.and (passive_hasAccount _)).stable
      fun tx d now r hA hi _ => hA.1.add rfl rfl rfl ?_
    refine ⟨fun e' row hrow => ?_, fun p r hr => (by cases hr), fun b r hr => (by cases hr)⟩
    dsimp only at hrow
    split at hrow
    · next old hold =>
      obtain ⟨_, hrow⟩ := Prod.mk.inj (List.mem_singleton.mp hrow)
      cases hrow
      have hgood := hA.1.view_expense hi.2 hold
      exact ⟨Or.inl hA.2, hgood.2⟩
    · cases hrow
  · exact PaysFair.aside (only_deleteSplitsOf moneyless_nothing fun _ => ⟨rfl, rfl, rfl, rfl, rfl, rfl⟩)
      fun _ => PaysFair.aside (only_insertSplits fun _ => ⟨rfl, rfl, rfl, rfl, rfl, rfl⟩) fun _ =>
      PaysFair.aside (only_log (moneyless_event _)) fun _ => PaysFair.aside only_store_moneyless fun _ =>
      triple_pure fun _ _ hA => hA

theorem recordPayment_pays {h : JsString} {u : Uuid} {input : RecordPaymentInput} {id : KeyId}
    {hash : JsString} :
    PaysFair env (some u) (recordPaymentTx env h u input (store id hash) startedAt) := by
  refine triple_bind triple_selectHouse_kept fun house => ?_
  refine triple_bind (triple_reject _) fun _ => ?_
  refine triple_bind (B := fun _ tx d => (Paying (some u) tx d ∧ hasAccount d (toUuid input.toUser) = true) ∧
      d.houses.lookup (toUuid h) = some house ∧
      input.currency.getD house.currency = house.currency) ?_ fun _ => ?_
  · refine triple_weaken (triple_and (triple_mapError triple_lockActingMember_real)
      (triple_passive (passive_fact (F := fun d => d.houses.lookup (toUuid h) = some house ∧
        input.currency.getD house.currency = house.currency) fun d d' _ hk hF => ⟨hk _ _ hF.1, hF.2⟩)
        (Txn.only_mapError (only_lockActingMember moneyless_nothing))))
      (fun tx d hA => ⟨hA.1.1, hA.1.2, ?_⟩) fun _ _ _ hB => hB
    have hsame := hA.2
    cases hcur : input.currency with
    | none => rfl
    | some currency => simpa [hcur] using hsame
  · refine triple_bind (B := fun _ => Paying (some u)) ?_ fun id =>
      PaysFair.aside (only_log (moneyless_event _)) fun _ => PaysFair.aside only_store_moneyless fun _ =>
      triple_pure fun _ _ hA => hA
    have hstable : (partiesProtocol env).Stable fun tx d =>
        (Paying (some u) tx d ∧ hasAccount d (toUuid input.toUser) = true) ∧
        d.houses.lookup (toUuid h) = some house ∧
        input.currency.getD house.currency = house.currency :=
      ((passive_paying.and (passive_hasAccount _)).and (passive_fact
        fun d d' _ hk hF => ⟨hk _ _ hF.1, hF.2⟩)).stable
    refine triple_exec hstable fun tx d now p hA hi hres => hA.1.1.add rfl rfl rfl ?_
    dsimp only at hres
    split at hres
    · cases hres
    · next hcheck =>
      refine ⟨fun e row hrow => (by cases hrow), fun p' row hrow => ?_, fun b r hr => (by cases hr)⟩
      obtain ⟨_, hrow⟩ := Prod.mk.inj (List.mem_singleton.mp hrow)
      cases hrow
      simp only [not_or, not_le] at hcheck
      exact ⟨Or.inr rfl, Or.inl hA.1.2, hcheck.2, hcheck.1, house, hA.2.1, hA.2.2.symm⟩

/-- An update that leaves the parties of a payment alone. -/
theorem updatePayment_pays {id : Uuid} {status : PaymentStatus} {closed : Err}
    {set : Millis → Payment → Payment}
    (hset : ∀ now p d, GoodPayment me d p → GoodPayment me d (set now p)) :
    PaysFair env me (updatePayment id status closed set) := by
  refine triple_exec stable_paying fun tx d now r hA hi _ => hA.add rfl rfl rfl ?_
  refine ⟨fun e row hrow => (by cases hrow), fun p row hrow => ?_, fun b r hr => (by cases hr)⟩
  dsimp only at hrow
  split at hrow
  · next old hold =>
    split at hrow
    · obtain ⟨_, hrow⟩ := Prod.mk.inj (List.mem_singleton.mp hrow)
      cases hrow
      exact hset now old d (hA.view_payment hi.2 hold)
    · cases hrow
  · cases hrow

theorem disputePayment_pays {id : JsString} {u : Uuid} :
    PaysFair env me (disputePaymentTx id u startedAt) :=
  PaysFair.aside (only_paymentForRecipient moneyless_nothing) fun _ => PaysFair.aside only_reject fun _ =>
    PaysFair.aside (only_clock moneyless_nothing) fun _ => PaysFair.aside only_reject fun _ =>
      triple_bind (updatePayment_pays fun _ _ _ h => ⟨h.fromUser, h.toUser, h.ne, h.positive, h.currency⟩)
        fun _ => PaysFair.aside (only_log (moneyless_event _)) fun _ => triple_pure fun _ _ hA => hA

theorem resolvePayment_pays {id : JsString} {u : Uuid} :
    PaysFair env me (resolvePaymentTx id u startedAt) :=
  PaysFair.aside (only_paymentForRecipient moneyless_nothing) fun _ => PaysFair.aside only_reject fun _ =>
    triple_bind (updatePayment_pays fun _ _ _ h => ⟨h.fromUser, h.toUser, h.ne, h.positive, h.currency⟩)
      fun _ => PaysFair.aside (only_log (moneyless_event _)) fun _ => triple_pure fun _ _ hA => hA

/-- A write of bills whose owners are good. -/
theorem triple_bills_good {act : View Db → Effect Writes LockKey Note} {res : View Db → Except Err α}
    {F : Db → Prop} (hF : ∀ d d', Persist d d' → HousesKept d d' → F d → F d')
    (hact : ∀ v, ∃ es, (act v).writes = { billTemplates := es })
    (hgood : ∀ tx d now, Paying me tx d → Parties env d → F d →
      ∀ b r, (b, some r) ∈ (act (tx.view d now)).writes.billTemplates → GoodBill me d r) :
    (partiesProtocol env).Triple (fun tx d => Paying me tx d ∧ F d) (.exec act res)
      fun _ => Paying me := by
  refine triple_exec (passive_paying.and (passive_fact hF)).stable fun tx d now a hA hi _ => ?_
  obtain ⟨es, hes⟩ := hact (tx.view d now)
  refine hA.1.add (by rw [hes]) (by rw [hes]) (by rw [hes]) ⟨?_, ?_, hgood tx d now hA.1 hi.2 hA.2⟩
  · rw [hes]; intro e r hr; cases hr
  · rw [hes]; intro p r hr; cases hr

theorem createBill_pays {h : JsString} {u : Uuid} {input : CreateBillInput} {id : KeyId}
    {hash : JsString} : PaysFair env me (createBillTx env h u input (store id hash) startedAt) := by
  refine PaysFair.aside (only_selectHouse moneyless_nothing) fun house => ?_
  refine triple_bind (triple_mapError triple_lockActingMember_real) fun _ => ?_
  refine triple_bind (triple_passive (passive_paying.and (passive_hasAccount _))
    (only_clock moneyless_nothing)) fun now => ?_
  refine triple_bind (triple_passive (passive_paying.and (passive_hasAccount _)) only_liftSchedule)
    fun nextRun => ?_
  refine triple_bind (triple_bills_good (F := fun d => hasAccount d (toUuid (input.ownerId.getD u)) = true)
    (fun _ _ hp _ h => hasAccount_rely h hp) (fun v => ⟨_, rfl⟩) fun tx d now _ _ hF b r hr => ?_)
    fun id => PaysFair.aside (only_log (moneyless_event _)) fun _ => PaysFair.aside only_store_moneyless fun _ =>
      triple_pure fun _ _ hA => hA
  obtain ⟨_, hrow⟩ := Prod.mk.inj (List.mem_singleton.mp hr)
  cases hrow
  exact Or.inl hF

theorem setActive_pays {h b : JsString} {u : Uuid} {active : Bool} :
    PaysFair env me (setActiveTx env h b u active startedAt) := by
  have hbill : ∀ bill : BillTemplate, ∀ d d', Persist d d' → HousesKept d d' → GoodBill me d bill →
      GoodBill me d' bill := fun _ _ _ hp _ h => h.persist hp
  refine triple_bind (B := fun bill tx d => Paying me tx d ∧ GoodBill me d bill) ?_ fun bill => ?_
  · refine triple_exec_passive passive_paying (fun _ => moneyless_nothing) fun tx d now bill hA hi hres => ?_
    dsimp only at hres
    split at hres
    · next found hfound =>
      cases hres
      exact Acts.persist (hA.view_bill hi.2 (Option.eq_some_of_filter_eq_some hfound)) (Persist.refl d)
    · cases hres
  · have hkeep : (partiesProtocol env).Passive Writes.Moneyless
        fun tx d => Paying me tx d ∧ GoodBill me d bill := passive_paying.and (passive_fact (hbill bill))
    refine triple_bind (triple_passive hkeep (Txn.only_select moneyless_nothing)) fun _ => ?_
    refine triple_bind (triple_passive hkeep only_reject) fun _ => ?_
    split
    · exact triple_pure fun _ _ hA => hA.1
    · refine triple_bind (triple_passive hkeep (only_resumedNextRun moneyless_nothing)) fun _ => ?_
      refine triple_bind (triple_bills_good (hbill bill) (fun v => ⟨_, rfl⟩) fun tx d now _ _ hF b r hr => ?_)
        fun _ => PaysFair.aside (only_log (moneyless_event _)) fun _ => triple_pure fun _ _ hA => hA
      obtain ⟨_, hrow⟩ := Prod.mk.inj (List.mem_singleton.mp hr)
      cases hrow
      exact hF

theorem advanceBill_pays {id : Uuid} {nextRun : JsString} {matching : BillTemplate → Bool} :
    PaysFair env me (advanceBill id nextRun matching) := by
  refine triple_weaken (triple_bills_good (F := fun _ => True) (fun _ _ _ _ _ => trivial)
    (fun v => ⟨_, rfl⟩) fun tx d now hA hi _ b r hr => ?_) (fun _ _ hA => ⟨hA, trivial⟩) fun _ _ _ hB => hB
  dsimp only at hr
  split at hr
  · next t ht =>
    obtain ⟨_, hrow⟩ := Prod.mk.inj (List.mem_singleton.mp hr)
    cases hrow
    exact (hA.view_bill hi (Option.eq_some_of_filter_eq_some ht) : GoodBill me d t)
  · cases hr

theorem pauseTx_pays {bill : DueBill} {reason : JsString} : PaysFair env me (pauseTx bill reason) := by
  refine triple_bind (triple_weaken (triple_bills_good (F := fun _ => True) (fun _ _ _ _ _ => trivial)
    (fun v => ⟨_, rfl⟩) fun tx d now hA hi _ b r hr => ?_) (fun _ _ hA => ⟨hA, trivial⟩) fun _ _ _ hB => hB)
    fun updated => ?_
  · dsimp only at hr
    split at hr
    · next t ht =>
      obtain ⟨_, hrow⟩ := Prod.mk.inj (List.mem_singleton.mp hr)
      cases hrow
      exact (hA.view_bill hi (Option.eq_some_of_filter_eq_some ht) : GoodBill me d t)
    · cases hr
  · split
    · exact PaysFair.aside (only_insertEvent (moneyless_event _)) fun _ => triple_pure fun _ _ hA => hA
    · exact triple_pure fun _ _ hA => hA

/-! ### The worker

    A run carries the houses and currencies of its scan along. -/

/-- The bill of a scan has the currency of its house. -/
structure Billed (bill : DueBill) (d : Db) : Prop where
  canonical : toUuid bill.template.houseId = bill.template.houseId
  currency : InCurrency d bill.template.houseId bill.currency

theorem Billed.kept {bill : DueBill} {d d' : Db} (h : Billed bill d) (hk : HousesKept d d') :
    Billed bill d' := ⟨h.canonical, h.currency.kept hk⟩

theorem billed_of_due {d : Db} {latest : JsString} (hi : Parties env d) :
    ∀ bill ∈ dueBills d latest, Billed bill d := by
  intro bill hmem
  rw [dueBills, List.mem_insertionSort] at hmem
  obtain ⟨⟨id, template⟩, _, hrow⟩ := List.mem_filterMap.mp hmem
  dsimp only at hrow
  split at hrow
  · obtain ⟨house, hhouse, rfl⟩ := Option.map_eq_some_iff.mp hrow
    obtain ⟨n, _, hid⟩ := hi.houses _ house hhouse
    exact ⟨by rw [hid]; exact env.toUuid_uuid n, house, hhouse, rfl⟩
  · cases hrow

theorem postOne_pays {bill : DueBill} {period nextRun : JsString} :
    (partiesProtocol env).Triple (fun tx d => Paying me tx d ∧ Billed bill d)
      (postOneTx env bill period nextRun) fun _ => Paying me := by
  have hbilled : ∀ d d', Persist d d' → HousesKept d d' → Billed bill d → Billed bill d' :=
    fun _ _ _ hk h => h.kept hk
  have hkeep : (partiesProtocol env).Passive Writes.Moneyless
      fun tx d => Paying me tx d ∧ Billed bill d := passive_paying.and (passive_fact hbilled)
  refine triple_bind (triple_passive hkeep (only_begin moneyless_nothing)) fun startedAt => ?_
  refine triple_bind (B := fun ms tx d => Paying me tx d ∧ Real ms d ∧ Billed bill d) ?_ fun ms => ?_
  · exact triple_weaken (triple_and triple_lockActiveMembers_real
      (triple_passive (passive_fact hbilled) (only_lockActiveMembers moneyless_nothing)))
      (fun _ _ hA => hA) fun _ _ _ hB => ⟨hB.1.1, hB.1.2, hB.2⟩
  have hfact : ∀ d d', Persist d d' → HousesKept d d' → Real ms d ∧ Billed bill d →
      Real ms d' ∧ Billed bill d' := fun _ _ hp hk h => ⟨h.1.persist hp, h.2.kept hk⟩
  have hkeep' : (partiesProtocol env).Passive Writes.Moneyless
      fun tx d => Paying me tx d ∧ Real ms d ∧ Billed bill d := passive_paying.and (passive_fact hfact)
  refine triple_bind (triple_passive hkeep' only_reject) fun _ => ?_
  refine triple_bind (triple_passive hkeep' only_reject) fun _ => ?_
  refine triple_bind (triple_resolveSplits_payer hfact fun ms' hms' d hF => ?_) fun splits => ?_
  · cases hms'
    exact hF.1
  refine triple_bind (triple_weaken (triple_insertExpense_good
    (F := fun d => Billed bill d ∧ hasAccount d (toUuid bill.template.ownerId) = true)
    (fun d d' hp hk hF => ⟨hF.1.kept hk, hasAccount_rely hF.2 hp⟩) fun d hF => ⟨Or.inl hF.2, ?_⟩)
    (fun _ _ hA => ⟨hA.1.1, hA.1.2.2, hA.2⟩) fun _ _ _ hB => hB) fun r => ?_
  · obtain ⟨hcanon, hcurrency⟩ := hF.1
    rw [ExpenseSpec.row, hcanon]
    exact hcurrency
  · exact PaysFair.aside (only_insertEvent (moneyless_event _)) fun _ =>
      triple_bind advanceBill_pays fun _ => triple_pure fun _ _ hA => hA

/-- From where all bills of the scan have the currency of their houses, the
    program keeps to the protocol. -/
def BilledSafe (env : Env) (bills : List DueBill) (prog : DbProg) : Prop :=
  ∀ now seen d, (∀ bill ∈ bills, Billed bill d) →
    (partiesProtocol env).Safe (.postDueBills now) prog seen Tx.empty d

theorem billedSafe_closed {bills : List DueBill} : Closed (BilledSafe env bills) where
  done _ _ _ _ _ := trivial
  query _ h now _ _ hb _ _ hr _ _ := h _ now _ _ fun bill hmem => (hb bill hmem).kept hr.houses

theorem billedSafe_bare {bills : List DueBill} {bill : DueBill} (hbill : bill ∈ bills)
    {m : DbTxn α}
    (hm : (partiesProtocol env).Triple (fun tx d => Paying none tx d ∧ Billed bill d) m
      fun _ => Paying none) : PassesBare (BilledSafe env bills) m := by
  intro next hnext now seen d hb
  refine safe_of_triple_fact (F := fun d => ∀ bill ∈ bills, Billed bill d)
    (passive_fact fun _ _ _ hk h b hb => (h b hb).kept hk) hm ⟨paying_empty _ d, hb bill hbill⟩ hb
    (fun _ => stable_paying) (fun _ tx d hA _ _ => Paying.guar hA) (fun a tx d hA hF _ => ?_)
    fun e d hF => hnext _ now _ _ hF
  have hguar : PartiesGuar env (.postDueBills now) tx d := Paying.guar hA
  exact hnext _ now _ _ fun b hb => (hF b hb).kept hguar.housesKept

theorem postDueBills_safe (now : Millis) :
    Always (partiesProtocol env) (.postDueBills now) (postDueBills env now) := by
  intro seen d
  unfold postDueBills
  split
  · trivial
  · next latest _ =>
    intro d' now' hr hi _
    have hplain : ∀ {bill : DueBill} {β : Type} {m : DbTxn β}, bill ∈ dueBills d' latest →
        PaysFair env none m → PassesBare (BilledSafe env (dueBills d' latest)) m := fun hbill hm =>
      billedSafe_bare hbill (triple_weaken hm (fun _ _ hA => hA.1) fun _ _ _ hB => hB)
    have hrun : BilledSafe env (dueBills d' latest) (postBills env now (dueBills d' latest) {}) :=
      passes_postBills billedSafe_closed.done fun bill hbill => (billRules_of_keeps billedSafe_closed.done
        (fun _ _ hnext now _ _ hb _ hr _ => hnext now _ _ fun b hmem => (hb b hmem).kept hr.houses)
        (fun _ _ => billedSafe_bare hbill postOne_pays) (fun _ _ => hplain hbill advanceBill_pays)
        fun _ => hplain hbill pauseTx_pays).due
    exact hrun now _ _ (billed_of_due hi.2)

/-! ### New houses -/

/-- Writes that change no house and move no money. -/
structure Writes.Homebound (w : Writes) : Prop where
  houses : w.houses = []
  expenses : w.expenses = []
  payments : w.payments = []
  billTemplates : w.billTemplates = []

theorem passive_guar : (partiesProtocol env).Passive Writes.Homebound (PartiesGuar env c) where
  stable tx d d' hr _ hA := by
    refine ⟨hA.fair.keep hr.persist hr.houses, fun h o hmem => ?_⟩
    obtain ⟨hnone, n, hn, hid⟩ := hA.houses h o hmem
    have hwritten : LockKey.house h ∈ tx.writes.written :=
      Writes.mem_written.mpr (List.mem_map.mpr ⟨(h, o), hmem, rfl⟩)
    have hsame : d'.houses.lookup h = d.houses.lookup h := hr.frame _ (Or.inl hwritten)
    exact ⟨by rw [hsame, hnone], n, lt_of_lt_of_le hn hr.fresh, hid⟩
  step tx d e hq hA := by
    have hfair := hA.fair.append (Fair.of_spares (w := e.writes) hq.expenses hq.payments hq.billTemplates)
    refine ⟨hfair.keep (LedgerRely.tick Tx.empty e.ids d : LedgerRely False False _ _ _).toPersist
      fun _ _ h => h, fun h o hmem => ?_⟩
    have hmem' : (h, o) ∈ tx.writes.houses := by simpa [Writes.append, hq.houses] using hmem
    obtain ⟨hnone, n, hn, hid⟩ := hA.houses h o hmem'
    exact ⟨hnone, n, lt_of_lt_of_le hn (Nat.le_add_right _ _), hid⟩

theorem createHouse_founds {u : Uuid} {input : CreateHouseInput} :
    Keeps (partiesProtocol env) c (begin >>= createHouseTx env u input) := by
  intro k hk seen d
  refine safe_of_triple (A := fun tx _ => tx = Tx.empty) (B := fun _ => PartiesGuar env c)
    ?_ rfl (fun _ => passive_guar.stable) (fun _ _ _ hA _ _ => hA)
    (fun a _ _ _ _ => hk (.ok a) _ _) fun e d => hk (.error e) _ d
  refine triple_bind (triple_begin (stable_const _)) fun startedAt => ?_
  refine triple_bind (B := fun _ => PartiesGuar env c) ?_ fun id => ?_
  · refine triple_exec (stable_const _) fun tx d now id htx hi _ => ?_
    subst htx
    refine ⟨Fair.of_spares rfl rfl rfl, fun h o hmem => ?_⟩
    obtain ⟨rfl, _⟩ := Prod.mk.inj (List.mem_singleton.mp hmem)
    refine ⟨?_, d.fresh, Nat.lt_succ_self _, rfl⟩
    cases hold : d.houses.lookup (env.uuid d.fresh) with
    | none => exact hold
    | some r =>
      obtain ⟨n, hn, hid⟩ := hi.2.houses _ r hold
      exact absurd (env.uuid_inj hid) (by omega)
  · refine triple_bind (triple_passive passive_guar (Txn.only_exec fun _ => ⟨rfl, rfl, rfl, rfl⟩))
      fun _ => triple_bind (triple_passive passive_guar (only_log ⟨rfl, rfl, rfl, rfl⟩)) fun _ =>
      triple_pure fun _ _ hA => hA

end transactions

/-! ## Section 5: Runs -/

theorem parties_safe (c : Call) (d : Db) :
    (partiesProtocol env).Safe c (route env c) d Tx.empty d := by
  have hroute : ∀ {c : Call}, KeepsAll (partiesProtocol env) env c →
      (partiesProtocol env).Safe c (route env c) d Tx.empty d :=
    fun h => always_route (fun _ _ => trivial) h _ _
  cases c with
  | createHouse u input => exact hroute createHouse_founds
  | createExpense h u key input => exact hroute (PaysFair.begin fun _ => createExpense_pays).keeps
  | editExpense e u key input => exact hroute (PaysFair.begin fun _ => editExpense_pays).keeps
  | recordPayment h u key input => exact hroute (PaysFair.begin fun _ => recordPayment_pays).keeps
  | disputePayment p u => exact hroute (PaysFair.begin fun _ => disputePayment_pays).keeps
  | resolvePayment p u => exact hroute (PaysFair.begin fun _ => resolvePayment_pays).keeps
  | createBill h u key input => exact hroute (PaysFair.begin fun _ => createBill_pays).keeps
  | setActive h b u active => exact hroute (PaysFair.begin fun _ => setActive_pays).keeps
  | postDueBills now => exact postDueBills_safe now _ _
  | _ =>
    refine safe_trivial (fun _ _ _ hm => ?_) (fun _ _ => trivial) _ _ _ _
    cases hm

theorem parties_lawful :
    (partiesProtocol env).Lawful (homi env) (Known env) fun _ _ => True where
  rely_refl tx d := ⟨Persist.refl d, fun _ _ h => h, Frame.refl tx d, le_refl _⟩
  rely_trans _ _ _ _ h h' := h.trans h'
  rely_tick tx n d _ := ⟨(LedgerRely.tick tx n d : LedgerRely False False _ _ _).toPersist,
    fun _ _ h => h, Frame.tick tx n d, Nat.le_add_right _ _⟩
  inv_tick n d h := ⟨h.1.tick n, by
    have hp : Persist d (tick n d) := (LedgerRely.tick Tx.empty n d : LedgerRely False False _ _ _).toPersist
    refine ⟨fun e r hr => (h.2.expenses e r hr).keep hp fun _ _ h => h,
      fun p r hr => (h.2.payments p r hr).keep hp fun _ _ h => h,
      fun b r hr => (h.2.bills b r hr).persist hp, fun k r hr => ?_⟩
    obtain ⟨m, hm, hid⟩ := h.2.houses k r hr
    exact ⟨m, lt_of_lt_of_le hm (Nat.le_add_right _ _), hid⟩⟩
  inv_init := ⟨ledgerBase_empty env, fun _ _ h => (by cases h), fun _ _ h => (by cases h),
    fun _ _ h => (by cases h), fun _ _ h => (by cases h)⟩
  inv_commit c hk hi hg _ := ⟨hk.after, hi.2.commit hk (hk.partiesGuar hg)⟩
  rely_commit c tx hk _ hg hheld' hheld hc _ :=
    ⟨hk.step.toPersist, (hk.partiesGuar hg).housesKept, Frame.commit hc hheld hheld', le_refl _⟩
  apart_empty _ := trivial
  start c d _ _ := parties_safe c d
  killed _ _ _ _ := trivial

theorem parties_reachable {s : HomiState} (h : HomiReachable env s) : (partiesProtocol env).Holds s :=
  holds_of_known parties_lawful (fun _ _ _ _ _ => trivial) (fun _ _ => trivial) h

/-- `u` is a placeholder member in `d`. -/
def IsGuest (d : Db) (u : Uuid) : Prop :=
  ∃ h m, d.houseMembers.lookup (h, u) = some m ∧ m.isPlaceholder = true

/-- The fact holds now or held before or after some commit. -/
def Ever (s : HomiState) (q : Db → Prop) : Prop := q s.db ∨ ∃ c ∈ s.wal, q c.before ∨ q c.after

theorem IsGuest.persist {d d' : Db} {u : Uuid} (h : IsGuest d u) (hp : Persist d d') : IsGuest d' u := by
  obtain ⟨k, m, hm, hguest⟩ := h
  obtain ⟨m', hm', hsame, _⟩ := hp.members (k, u) m hm
  exact ⟨k, m', hm', by rw [hsame, hguest]⟩

/-- Whoever was a placeholder is still one. -/
theorem isGuest_of_ever {s : HomiState} (h : HomiReachable env s) {u : Uuid}
    (hu : Ever s fun d => IsGuest d u) : IsGuest s.db u := by
  rcases hu with hu | ⟨c, hc, hu⟩
  · exact hu
  · refine IsGuest.persist ?_ ((ledger_reachable h).past c hc).toPersist
    exact hu.elim (fun hu => hu.persist (ledger_persist (ledgerBase_empty env) h hc)) id

/-- A placeholder acts in nobody's name. -/
theorem IsGuest.not_acts {d : Db} {u : Uuid} (hu : IsGuest d u) (hp : People env d) :
    ¬ Acts none d u := by
  rintro (h | h)
  · obtain ⟨k, m, hm, hguest⟩ := hu
    rw [(hp.member_of_account h hm).1] at hguest
    cases hguest
  · cases h

/-- What holds in every state of every run. -/
structure MoneyHasOwners (s : HomiState) : Prop where
  payers : ∀ e r, s.db.expenses.lookup e = some r → ¬ Ever s fun d => IsGuest d r.paidBy
  senders : ∀ p r, s.db.payments.lookup p = some r → ¬ Ever s fun d => IsGuest d r.fromUser
  recipients : ∀ p r, s.db.payments.lookup p = some r → ¬ Ever s fun d => IsGuest d r.toUser
  owners : ∀ b r, s.db.billTemplates.lookup b = some r → ¬ Ever s fun d => IsGuest d r.ownerId
  expenses : ∀ e r, s.db.expenses.lookup e = some r → InCurrency s.db r.houseId r.currency
  payments : ∀ p r, s.db.payments.lookup p = some r → InCurrency s.db r.houseId r.currency

/-- No placeholder, present or past, is a payer, a party of a payment or the
    owner of a bill, and all money is in the currency of its house. -/
theorem placeholders_move_no_money (env : Env) (s : HomiState) (h : HomiReachable env s) :
    MoneyHasOwners s := by
  obtain ⟨hbase, hparties⟩ := (parties_reachable h).inv
  have hguest : ∀ u, Acts none s.db u → ¬ Ever s fun d => IsGuest d u := fun u hu hever =>
    (isGuest_of_ever h hever).not_acts hbase.people hu
  exact {
    payers := fun e r hr => hguest _ (hparties.expenses e r hr).1
    senders := fun p r hr => hguest _ (hparties.payments p r hr).fromUser
    recipients := fun p r hr => hguest _ (hparties.payments p r hr).toUser
    owners := fun b r hr => hguest _ (hparties.bills b r hr)
    expenses := fun e r hr => (hparties.expenses e r hr).2
    payments := fun p r hr => (hparties.payments p r hr).currency }

theorem placeholders_move_no_money_dinner :
    ∃ s : HomiState, s.wal.length = 7 ∧ MoneyHasOwners s := by
  obtain ⟨s, hrun, hs⟩ := Run.exists_of_drive (homi sampleEnv) claimSession
    (fun s => s.wal.length = 7) (by decide +kernel)
  exact ⟨s, of_decide_eq_true hs, placeholders_move_no_money sampleEnv s hrun⟩

end Homi
