import Homi.Verification.Configurations

/-! # Bill templates

  What a committed database says of a bill template: its house is there,
  its amount is positive, and its next run is one of its due dates. The
  worker computes the date that it advances to from the schedule in its
  scan, so this rests on the fact that the schedule of a template never
  changes.
-/

namespace Homi

open ReadCommitted Protocol

variable {env : Env} {c : Call} {d d' : Db} {tx : DbTx} {b : Uuid} {t t' : BillTemplate}

/-! ## Section 1: Rows -/

/-- `nextDueDate` returns the date. -/
def FallsDue (cadence : Cadence) (cadenceDay iso : JsString) : Prop :=
  ∃ afterISO, nextDueDate cadence cadenceDay afterISO = .ok iso

structure Standing (d : Db) (t : BillTemplate) : Prop where
  house : ∃ house, d.houses.lookup t.houseId = some house
  amount : 0 < t.amountCents
  due : FallsDue t.cadence t.cadenceDay t.nextRun

/-- Only the next run and the switch of a template change. -/
def BillTemplate.Follows (t t₀ : BillTemplate) : Prop :=
  t = { t₀ with nextRun := t.nextRun, active := t.active }

theorem BillTemplate.Follows.refl (t : BillTemplate) : t.Follows t := rfl

theorem BillTemplate.Follows.trans {t t₁ t₂ : BillTemplate} (h : t.Follows t₁) (h' : t₁.Follows t₂) :
    t.Follows t₂ := by
  unfold BillTemplate.Follows at *
  rw [h, h']

theorem BillTemplate.Follows.update (t : BillTemplate) (nextRun : JsString) (active : Bool) :
    BillTemplate.Follows { t with nextRun := nextRun, active := active } t := rfl

theorem BillTemplate.Follows.schedule {t t₀ : BillTemplate} (h : t.Follows t₀) :
    t.cadence = t₀.cadence ∧ t.cadenceDay = t₀.cadenceDay := by
  rw [h]
  exact ⟨rfl, rfl⟩

/-- The templates of the database. -/
structure Templates (env : Env) (d : Db) : Prop where
  ids : ∀ b t, d.billTemplates.lookup b = some t → ∃ n < d.fresh, b = env.uuid n
  standing : ∀ b t, d.billTemplates.lookup b = some t → Standing d t

/-- Templates stay, and keep their schedules. -/
def TemplatesKept (d d' : Db) : Prop :=
  ∀ b t, d.billTemplates.lookup b = some t → ∃ t', d'.billTemplates.lookup b = some t' ∧ t'.Follows t

/-- `t` is a new row, or an update of the one that the database has. -/
structure BillEntry (env : Env) (b : Uuid) (t : BillTemplate) (d : Db) : Prop where
  standing : Standing d t
  row : (d.billTemplates.lookup b = none ∧ ∃ n < d.fresh, b = env.uuid n) ∨
    ∃ t₀, d.billTemplates.lookup b = some t₀ ∧ t.Follows t₀

/-- Every template that the transaction writes is such an entry. -/
def Entered (env : Env) (tx : DbTx) (d : Db) : Prop :=
  ∀ b o, (b, o) ∈ tx.writes.billTemplates → ∃ t, o = some t ∧ BillEntry env b t d

section rows

theorem Standing.kept (h : Standing d t) (hk : HousesKept d d') : Standing d' t := by
  obtain ⟨house, hhouse⟩ := h.house
  exact ⟨⟨house, hk _ _ hhouse⟩, h.amount, h.due⟩

/-- A template that is switched, or that is moved to a due date. -/
theorem Standing.follow (h : Standing d t) (hf : t'.Follows t)
    (hdue : FallsDue t.cadence t.cadenceDay t'.nextRun) : Standing d t' := by
  unfold BillTemplate.Follows at hf
  rw [hf]
  exact ⟨h.house, h.amount, hdue⟩

theorem BillEntry.follow (h : BillEntry env b t d) (hf : t'.Follows t)
    (hdue : FallsDue t.cadence t.cadenceDay t'.nextRun) : BillEntry env b t' d where
  standing := h.standing.follow hf hdue
  row := h.row.imp_right fun ⟨t₀, hrow, hold⟩ => ⟨t₀, hrow, hf.trans hold⟩

theorem Templates.entry (h : Templates env d) (ht : d.billTemplates.lookup b = some t) :
    BillEntry env b t d := ⟨h.standing b t ht, Or.inr ⟨t, ht, .refl t⟩⟩

theorem entered_empty : Entered env Tx.empty d := fun _ _ h => by cases h

theorem Entered.append (h : Entered env tx d) {e : Effect Writes LockKey Note}
    (he : ∀ b o, (b, o) ∈ e.writes.billTemplates → ∃ t, o = some t ∧ BillEntry env b t d) :
    Entered env (tx.add e) (tick e.ids d) := by
  intro b o hmem
  obtain ⟨t, ho, hentry⟩ : ∃ t, o = some t ∧ BillEntry env b t d := by
    rcases List.mem_append.mp hmem with hold | hnew
    · exact h b o hold
    · exact he b o hnew
  refine ⟨t, ho, hentry.standing.kept fun _ _ hrow => hrow, hentry.row.imp_left ?_⟩
  rintro ⟨hnone, n, hn, hid⟩
  exact ⟨hnone, n, lt_of_lt_of_le hn (Nat.le_add_right _ _), hid⟩

/-- A template that the transaction sees. -/
theorem Entered.view (h : Entered env tx d) (hd : Templates env d) {now : Millis}
    (ht : (tx.view d now).db.billTemplates.lookup b = some t) : BillEntry env b t d := by
  rcases lookup_patch_cases ht with hold | hnew
  · exact hd.entry hold
  · obtain ⟨_, heq, hentry⟩ := h b _ hnew
    cases heq
    exact hentry

theorem Entered.kept (h : Entered env tx d) : TemplatesKept d (tx.commit d) := by
  intro b t ht
  show ∃ t', (d.billTemplates.patch tx.writes.billTemplates).lookup b = some t' ∧ t'.Follows t
  rw [Table.lookup_patch]
  cases hedit : Table.lastEdit tx.writes.billTemplates b with
  | none => exact ⟨t, ht, .refl t⟩
  | some o =>
    obtain ⟨t', rfl, hentry⟩ := h b o (Table.mem_of_lastEdit hedit)
    refine ⟨t', rfl, ?_⟩
    rcases hentry.row with ⟨hnone, _⟩ | ⟨t₀, hrow, hf⟩
    · rw [ht] at hnone
      cases hnone
    · rw [ht] at hrow
      cases hrow
      exact hf

theorem Templates.commit (hd : Templates env d) (h : Entered env tx d)
    (hk : HousesKept d (tx.commit d)) : Templates env (tx.commit d) where
  ids b t ht := by
    rcases lookup_patch_cases ht with hold | hnew
    · exact hd.ids b t hold
    · obtain ⟨t', _, hentry⟩ := h b _ hnew
      rcases hentry.row with ⟨_, hid⟩ | ⟨t₀, hrow, _⟩
      · exact hid
      · exact hd.ids b t₀ hrow
  standing b t ht := by
    rcases lookup_patch_cases ht with hold | hnew
    · exact (hd.standing b t hold).kept hk
    · obtain ⟨t', heq, hentry⟩ := h b _ hnew
      cases heq
      exact hentry.standing.kept hk

end rows

/-! ## Section 2: The protocol -/

/-- What others do meanwhile. -/
structure TemplatesRely (tx : DbTx) (d d' : Db) : Prop extends RejectsRely tx d d' where
  kept : TemplatesKept d d'

def templatesProtocol (env : Env) : DbProtocol where
  inv d := LedgerBase env d ∧ Templates env d
  rely := TemplatesRely
  guar c _ tx d := c.writesBills = true → Entered env tx d
  post _ _ _ := True
  allows _ _ _ _ _ := True
  stops _ _ := True

/-- A commit writes entries, whatever call it is of. -/
theorem Known.entered {c : HomiCommit} (h : Known env c)
    (hg : c.call.writesBills = true → Entered env c.tx c.before) : Entered env c.tx c.before := by
  by_cases hw : c.call.writesBills = true
  · exact hg hw
  · have hspares : c.tx.writes.Spares .billTemplates := by
      refine h.within.tables _ ?_
      cases hc : c.call <;> simp_all [Call.writesBills, Call.tables]
    intro b o hmem
    rw [show c.tx.writes.billTemplates = [] from hspares] at hmem
    cases hmem

section rules

variable {α β : Type} {A : DbTx → Db → Prop}

/-- A fact about the rows of houses and templates that nobody breaks. -/
theorem passive_row {q : Writes → Prop} {F : Db → Prop}
    (hF : ∀ d d', HousesKept d d' → TemplatesKept d d' → F d → F d')
    (htick : ∀ n d, F d → F (tick n d)) : (templatesProtocol env).Passive q fun _ d => F d where
  stable _ d d' hr _ h := hF d d' (RejectsRely.houses hr.toRejectsRely) (TemplatesRely.kept hr) h
  step _ d e _ h := htick e.ids d h

/-- Writes to other tables do not matter. -/
theorem passive_entered :
    (templatesProtocol env).Passive (fun w => w.billTemplates = []) (Entered env) where
  stable := by
    intro tx d d' hr _ h b o hmem
    obtain ⟨t, ho, hentry⟩ := h b o hmem
    -- the row that is written stays as it is
    have hown : tx.Owns (.template b) :=
      Or.inl (Writes.mem_written.mpr (List.mem_map.mpr ⟨(b, o), hmem, rfl⟩))
    have hrow : d'.billTemplates.lookup b = d.billTemplates.lookup b :=
      (RejectsRely.ledger hr.toRejectsRely).frame _ hown.holds
    refine ⟨t, ho, hentry.standing.kept (RejectsRely.houses hr.toRejectsRely), ?_⟩
    rw [hrow]
    refine hentry.row.imp_left fun ⟨hnone, n, hn, hid⟩ => ⟨hnone, n, ?_, hid⟩
    exact lt_of_lt_of_le hn (RejectsRely.ledger hr.toRejectsRely).fresh
  step := by
    intro tx d e hnone h
    apply h.append
    intro b o hmem
    rw [show e.writes.billTemplates = [] from hnone] at hmem
    cases hmem

/-- The transaction writes entries, from a fact that nobody breaks. -/
def EntersBills (env : Env) (F : Db → Prop) (m : DbTxn α) : Prop :=
  (templatesProtocol env).Triple (fun tx d => Entered env tx d ∧ F d) m fun _ tx d => Entered env tx d

variable {F : Db → Prop}

theorem EntersBills.aside (hF : (templatesProtocol env).Passive (fun w => w.billTemplates = []) fun _ d => F d)
    {m : DbTxn α} {k : α → DbTxn β} (hm : m.Only fun w => w.billTemplates = [])
    (hk : ∀ a, EntersBills env F (k a)) : EntersBills env F (m >>= k) :=
  triple_bind (triple_passive (passive_entered.and hF) hm) hk

theorem enters_pure {a : α} : EntersBills env F (pure a : DbTxn α) := triple_pure fun _ _ hA => hA.1

/-- An update of templates that the statement sees. -/
theorem enters_update
    (hF : (templatesProtocol env).Passive (fun w => w.billTemplates = []) fun _ d => F d)
    {act : View Db → Effect Writes LockKey Note} {res : View Db → Except Err α}
    (hact : ∀ v b o, (b, o) ∈ (act v).writes.billTemplates → ∃ t t₀, o = some t ∧
      v.db.billTemplates.lookup b = some t₀ ∧ t.Follows t₀ ∧
      ∀ d, F d → BillEntry env b t₀ d → FallsDue t₀.cadence t₀.cadenceDay t.nextRun) :
    (templatesProtocol env).Triple (fun tx d => Entered env tx d ∧ F d) (.exec act res)
      fun _ tx d => Entered env tx d ∧ F d := by
  have hkeep := (@passive_entered env).and hF
  refine triple_exec hkeep.stable fun tx d now a hA hi _ => ⟨hA.1.append ?_, ?_⟩
  · intro b o hmem
    obtain ⟨t, t₀, ho, hrow, hf, hdue⟩ := hact _ b o hmem
    have hentry := hA.1.view hi.2 hrow
    exact ⟨t, ho, hentry.follow hf (hdue d hA.2 hentry)⟩
  · exact hF.step tx d { writes := {}, ids := (act (tx.view d now)).ids } rfl hA.2

end rules

/-! ## Section 3: The worker -/

section worker

/-- The template of the scan is there, with its schedule. -/
def Scheduled (bill : DueBill) (d : Db) : Prop :=
  ∃ t, d.billTemplates.lookup bill.id = some t ∧ t.Follows bill.template

theorem Scheduled.kept {bill : DueBill} (h : Scheduled bill d) (hk : TemplatesKept d d') :
    Scheduled bill d' := by
  obtain ⟨t, ht, hf⟩ := h
  obtain ⟨t', ht', hf'⟩ := hk _ _ ht
  exact ⟨t', ht', hf'.trans hf⟩

theorem passive_scheduled {q : Writes → Prop} (bill : DueBill) :
    (templatesProtocol env).Passive q fun _ d => Scheduled bill d :=
  passive_row (fun _ _ _ hk h => h.kept hk) fun _ _ h => h

/-- The entry for a template that is there follows its row. -/
theorem BillEntry.schedule {bill : DueBill} (h : BillEntry env bill.id t d) (hs : Scheduled bill d) :
    t.cadence = bill.template.cadence ∧ t.cadenceDay = bill.template.cadenceDay := by
  obtain ⟨t₀, ht₀, hf⟩ := hs
  rcases h.row with ⟨hnone, _⟩ | ⟨t₁, ht₁, hf₁⟩
  · rw [ht₀] at hnone
    cases hnone
  · rw [ht₀] at ht₁
    cases ht₁
    exact (hf₁.trans hf).schedule

variable {bill : DueBill} {dueISO advanced : JsString}

theorem advanceBill_enters {matching : BillTemplate → Bool}
    (hdue : nextDueDate bill.template.cadence bill.template.cadenceDay dueISO = .ok advanced) :
    (templatesProtocol env).Triple (fun tx d => Entered env tx d ∧ Scheduled bill d)
      (advanceBill bill.id advanced matching) fun _ tx d => Entered env tx d ∧ Scheduled bill d := by
  refine enters_update (passive_scheduled bill) fun v b o hmem => ?_
  dsimp only at hmem
  split at hmem
  · next t₀ ht₀ =>
    obtain ⟨rfl, rfl⟩ := Prod.mk.inj (List.mem_singleton.mp hmem)
    refine ⟨_, t₀, rfl, Option.eq_some_of_filter_eq_some ht₀, .update t₀ advanced t₀.active, ?_⟩
    intro d hs hentry
    -- the schedule of the row is that of the scan
    obtain ⟨hcadence, hday⟩ := hentry.schedule hs
    rw [hcadence, hday]
    exact ⟨dueISO, hdue⟩
  · cases hmem

theorem pauseTx_enters {reason : JsString} :
    EntersBills env (Scheduled bill) (pauseTx bill reason) := by
  refine triple_bind (enters_update (passive_scheduled bill) fun v b o hmem => ?_) fun updated => ?_
  · dsimp only at hmem
    split at hmem
    · next t₀ ht₀ =>
      obtain ⟨rfl, rfl⟩ := Prod.mk.inj (List.mem_singleton.mp hmem)
      refine ⟨_, t₀, rfl, Option.eq_some_of_filter_eq_some ht₀, .update t₀ t₀.nextRun false, ?_⟩
      intro d _ hentry
      exact hentry.standing.due
    · cases hmem
  · split
    · exact EntersBills.aside (passive_scheduled bill) (only_insertEvent rfl) fun _ => enters_pure
    · exact enters_pure

theorem postOneTx_enters {period : JsString}
    (hdue : nextDueDate bill.template.cadence bill.template.cadenceDay dueISO = .ok advanced) :
    EntersBills env (Scheduled bill) (postOneTx env bill period advanced) := by
  have h0 : (fun w : Writes => w.billTemplates = []) {} := rfl
  have hF := @passive_scheduled env (fun w => w.billTemplates = []) bill
  refine EntersBills.aside hF (only_begin h0) fun startedAt =>
    EntersBills.aside hF (only_lockActiveMembers h0) fun members => EntersBills.aside hF only_reject fun _ =>
    EntersBills.aside hF only_reject fun _ => EntersBills.aside hF (only_resolveSplits h0) fun splits =>
    EntersBills.aside hF (only_insertExpense (fun _ => rfl) fun _ => rfl) fun r => ?_
  exact EntersBills.aside hF (only_insertEvent rfl) fun _ =>
    triple_bind (advanceBill_enters hdue) fun _ => enters_pure

/-- From where all templates of the scan are there, the program keeps to
    the protocol. -/
def ScanSafe (env : Env) (bills : List DueBill) (prog : DbProg) : Prop :=
  ∀ now seen d, (∀ bill ∈ bills, Scheduled bill d) →
    (templatesProtocol env).Safe (.postDueBills now) prog seen Tx.empty d

theorem scanSafe_bare {bills : List DueBill} (hbill : bill ∈ bills) {α : Type} {m : DbTxn α}
    (hm : EntersBills env (Scheduled bill) m) : PassesBare (ScanSafe env bills) m := by
  intro next hnext now seen d hb
  refine safe_of_triple_fact (F := fun d => ∀ bill ∈ bills, Scheduled bill d)
    (passive_row (fun _ _ _ hk h b hb => (h b hb).kept hk) fun _ _ h => h) hm
    ⟨entered_empty, hb bill hbill⟩ hb (fun _ => passive_entered.stable) (fun _ tx d hA _ _ => hA)
    (fun a tx d hA hF _ => ?_) fun e d hF => hnext _ now _ _ hF
  exact hnext _ now _ _ fun b hb => (hF b hb).kept (Entered.kept hA)

theorem postDueBills_enters (now : Millis) :
    Always (templatesProtocol env) (.postDueBills now) (postDueBills env now) := by
  intro seen d
  unfold postDueBills
  split
  · trivial
  · next latest _ =>
    intro d' now' hr hi _
    have hscan : ∀ bill ∈ dueBills d' latest, Scheduled bill d' := by
      intro bill hbill
      exact ⟨bill.template, scanned_template hbill, .refl _⟩
    have hrun : ScanSafe env (dueBills d' latest) (postBills env now (dueBills d' latest) {}) := by
      refine passes_postBills (fun _ _ _ _ _ => trivial) fun bill hbill => ?_
      refine dueRules_of_keeps (fun _ _ _ _ _ => trivial) ?_ ?_ ?_ ?_
      · intro hint next hnext now seen d hb d' hr _
        exact hnext now _ _ fun b hmem => (hb b hmem).kept hr.kept
      · exact fun dueISO advanced hdue period => scanSafe_bare hbill (postOneTx_enters hdue)
      · exact fun dueISO advanced hdue => scanSafe_bare hbill
          (triple_weaken (advanceBill_enters hdue) (fun _ _ hA => hA) fun _ _ _ hB => hB.1)
      · exact fun reason => scanSafe_bare hbill pauseTx_enters
    exact hrun now _ _ hscan

end worker

/-! ## Section 4: Bills that are created or switched -/

section bills

variable {α : Type} {A : DbTx → Db → Prop} {m : DbTxn α} {B : α → DbTx → Db → Prop} {h k : JsString}
  {u : Uuid} {id : KeyId} {hash : JsString} {house : House} {startedAt : Millis}

theorem Templates.schedules (h : Templates env d) : SchedulesValid d := by
  intro b t ht
  obtain ⟨afterISO, hdue⟩ := (h.standing b t ht).due
  rw [BillTemplate.Scheduled]
  -- the code validates the schedule first
  unfold nextDueDate at hdue
  cases hv : validateSchedule t.cadence t.cadenceDay with
  | ok _ => rfl
  | error err =>
    rw [hv] at hdue
    cases hdue

theorem triple_of_rejects (h : (rejectsProtocol env).Triple A m B) :
    (templatesProtocol env).Triple A m B :=
  triple_transfer (fun _ _ _ hr => TemplatesRely.toRejectsRely hr)
    (fun _ hi => And.intro hi.1 (Templates.schedules hi.2)) h

theorem passive_of_rejects {q : Writes → Prop} (h : (rejectsProtocol env).Passive q A) :
    (templatesProtocol env).Passive q A :=
  ⟨fun tx d d' hr hi hA =>
    h.stable tx d d' (TemplatesRely.toRejectsRely hr) ⟨hi.1, hi.2.schedules⟩ hA, h.step⟩

/-- What `firstDue` returns is a due date. -/
theorem firstDue_fallsDue {timezone : JsString} {cadence : Cadence} {cadenceDay iso : JsString}
    {now : Millis} (h : firstDue env timezone cadence cadenceDay now = .ok iso) :
    FallsDue cadence cadenceDay iso := by
  unfold firstDue at h
  cases htoday : todayInTimezone env timezone now with
  | error err =>
    rw [htoday] at h
    cases h
  | ok today =>
    rw [htoday] at h
    cases hday : isoAddDays today (-1) with
    | error err =>
      simp only [bind, Except.bind, hday] at h
      cases h
    | ok yesterday =>
      simp only [bind, Except.bind, hday] at h
      exact ⟨yesterday, h⟩

/-- A transaction that has written nothing yet enters one row. -/
theorem entered_one (hblank : tx.writes.Blank) {e : Effect Writes LockKey Note}
    (he : e.writes.billTemplates = [(b, some t)]) (ht : BillEntry env b t (tick e.ids d)) :
    Entered env (tx.add e) (tick e.ids d) := by
  intro b' o hmem
  rw [Tx.add_writes, show tx.writes = {} from hblank] at hmem
  have hone : (b', o) ∈ [(b, some t)] := by
    rw [← he]
    exact hmem
  cases List.mem_singleton.mp hone
  exact ⟨t, rfl, ht⟩

theorem createBill_enters {input : CreateBillInput} :
    (templatesProtocol env).Triple (fun tx _ => tx.writes.Blank)
      (createBillTx env h u input (store id hash) startedAt) fun _ => Entered env := by
  have hblank := passive_of_rejects (@passive_blank env)
  refine triple_bind (triple_of_rejects (triple_selectHouse passive_blank fun _ _ hA => hA)) fun house => ?_
  have hkeep := hblank.and (passive_of_rejects (@passive_houseRow env house (toUuid h)))
  refine triple_bind (triple_passive hkeep
    (Txn.only_mapError (only_lockActingMember (p := Writes.Blank) rfl))) fun _ => ?_
  refine triple_bind (triple_clock hkeep rfl) fun now => ?_
  refine triple_bind (B := fun nextRun tx d => (tx.writes.Blank ∧ d.houses.lookup (toUuid h) = some house) ∧
    FallsDue input.cadence input.cadenceDay nextRun) ?_ fun nextRun => ?_
  · exact triple_liftSchedule fun nextRun hdue tx d hA => ⟨hA.1, firstDue_fallsDue hdue⟩
  have hdated := hkeep.and (@passive_const _ _ _ _ _ _ _ _ _ (templatesProtocol env) Writes.Blank
    (FallsDue input.cadence input.cadenceDay nextRun))
  refine triple_bind (B := fun _ => Entered env) ?_ fun bill => ?_
  · refine triple_exec hdated.stable fun tx d now id hA hi hres => ?_
    obtain ⟨⟨hnothing, hhouse⟩, hdue⟩ := hA
    dsimp only at hres
    split at hres
    · cases hres
    · next hpos =>
      have hview := view_blank hnothing d now
      refine entered_one hnothing rfl ⟨⟨⟨house, hhouse⟩, not_le.mp hpos, hdue⟩, Or.inl ⟨?_, ?_⟩⟩
      · -- nobody has the new id
        rw [hview, Option.eq_none_iff_forall_ne_some]
        intro t ht
        obtain ⟨n, hn, hid⟩ := hi.2.ids _ t ht
        exact absurd (env.uuid_inj hid) hn.ne'
      · rw [hview]
        exact ⟨d.fresh, Nat.lt_succ_self _, rfl⟩
  · refine triple_bind (triple_passive passive_entered (only_log rfl)) fun event => ?_
    refine triple_bind (triple_passive passive_entered ?_) fun _ => triple_pure fun _ _ hA => hA
    exact Txn.only_exec fun _ => rfl

/-- The next run of a bill that is switched is a due date. -/
theorem triple_resumedNextRun {bill : BillTemplate} {active : Bool} :
    (templatesProtocol env).Triple (fun tx d => tx.writes.Blank ∧ BillLocked b bill tx d)
      (resumedNextRun env h bill active) fun nextRun tx d =>
        (tx.writes.Blank ∧ BillLocked b bill tx d) ∧
          (nextRun = bill.nextRun ∨ FallsDue bill.cadence bill.cadenceDay nextRun) := by
  have hkeep := passive_of_rejects ((@passive_blank env).and (@passive_billLocked env bill b))
  unfold resumedNextRun
  by_cases hactive : active = true
  · rw [if_pos hactive]
    refine triple_bind (triple_passive hkeep (only_selectHouse (p := Writes.Blank) rfl)) fun house => ?_
    refine triple_bind (triple_clock hkeep rfl) fun now => ?_
    exact triple_liftSchedule fun nextRun hdue tx d hA => ⟨hA.1, Or.inr (firstDue_fallsDue hdue)⟩
  · rw [if_neg hactive]
    exact triple_pure fun tx d hA => ⟨hA, Or.inl rfl⟩

theorem setActive_enters {active : Bool} :
    (templatesProtocol env).Triple (fun tx _ => tx.writes.Blank)
      (setActiveTx env h k u active startedAt) fun _ => Entered env := by
  refine triple_bind (triple_of_rejects triple_lockBill) fun bill => ?_
  have hkeep := passive_of_rejects ((@passive_blank env).and (@passive_billLocked env bill (toUuid k)))
  refine triple_bind (B := fun _ tx d => tx.writes.Blank ∧ BillLocked (toUuid k) bill tx d) ?_ fun role => ?_
  · exact triple_weaken (triple_passive hkeep (Txn.only_select (p := Writes.Blank) rfl))
      (fun _ _ hA => ⟨hA.1, hA.2.1⟩) fun _ _ _ hB => hB
  refine triple_bind (triple_passive hkeep only_reject) fun _ => ?_
  -- the row is locked, so it stays what it was found to be
  by_cases hsame : bill.active = active
  · rw [if_pos hsame]
    refine triple_pure fun tx d hA b o hmem => ?_
    rw [show tx.writes = {} from hA.1] at hmem
    cases hmem
  rw [if_neg hsame]
  refine triple_bind triple_resumedNextRun fun nextRun => ?_
  have hdated := hkeep.and (@passive_const _ _ _ _ _ _ _ _ _ (templatesProtocol env) Writes.Blank
    (nextRun = bill.nextRun ∨ FallsDue bill.cadence bill.cadenceDay nextRun))
  refine triple_bind (B := fun _ => Entered env) ?_ fun updated => ?_
  · refine triple_exec hdated.stable fun tx d now a hA hi _ => ?_
    obtain ⟨⟨hnothing, _, hrow⟩, hdue⟩ := hA
    have hentry : BillEntry env (toUuid k) { bill with active := active, nextRun := nextRun } d := by
      refine (hi.2.entry hrow).follow (.update bill nextRun active) ?_
      -- the next run is the old one, or a due date from today on
      rcases hdue with hold | hnew
      · rw [hold]
        exact (hi.2.standing _ _ hrow).due
      · exact hnew
    exact entered_one hnothing rfl ⟨hentry.standing.kept fun _ _ hrow => hrow, hentry.row⟩
  · exact triple_bind (triple_passive passive_entered (only_log rfl)) fun event =>
      triple_pure fun _ _ hA => hA

/-- A transaction of a call, from its triple. -/
theorem keeps_of_entered {fn : Millis → DbTxn α}
    (h : ∀ startedAt, (templatesProtocol env).Triple (fun tx _ => tx.writes.Blank) (fn startedAt)
      fun _ => Entered env) : Keeps (templatesProtocol env) c (begin >>= fn) := by
  intro next hnext seen d
  have hbody : (templatesProtocol env).Triple (fun tx _ => tx.writes.Blank) (begin >>= fn)
      fun _ => Entered env := by
    refine triple_bind (triple_begin ?_) h
    exact (passive_of_rejects (@passive_blank env)).stable
  exact safe_of_triple hbody rfl (fun _ => passive_entered.stable) (fun _ tx d hA _ _ => hA)
    (fun a _ _ _ _ => hnext (.ok a) _ _) fun e d => hnext (.error e) _ d

end bills

/-! ## Section 5: Runs -/

theorem templates_safe (c : Call) : Always (templatesProtocol env) c (route env c) := by
  have hpost : ∀ r d, (templatesProtocol env).post c r d := fun _ _ => trivial
  by_cases hw : c.writesBills = true
  · cases c with
    | createBill h u key input => exact always_route hpost (keeps_of_entered fun _ => createBill_enters)
    | setActive h b u active => exact always_route hpost (keeps_of_entered fun _ => setActive_enters)
    | postDueBills now => exact postDueBills_enters now
    | _ => cases hw
  · exact fun seen d => safe_trivial (fun _ _ _ hno => absurd hno hw) hpost _ _ _ _

theorem TemplatesKept.refl (d : Db) : TemplatesKept d d := fun _ t ht => ⟨t, ht, .refl t⟩

theorem TemplatesKept.trans {a b c : Db} (h : TemplatesKept a b) (h' : TemplatesKept b c) :
    TemplatesKept a c := by
  intro k t ht
  obtain ⟨t', ht', hf⟩ := h k t ht
  obtain ⟨t'', ht'', hf'⟩ := h' k t' ht'
  exact ⟨t'', ht'', hf'.trans hf⟩

theorem templates_lawful :
    (templatesProtocol env).Lawful (homi env) (Sound env) fun _ _ => True where
  rely_refl tx d := ⟨(@rejects_lawful env).rely_refl tx d, .refl d⟩
  rely_trans tx x y z h h' := ⟨(@rejects_lawful env).rely_trans tx x y z h.toRejectsRely h'.toRejectsRely,
    h.kept.trans h'.kept⟩
  rely_tick tx n d hi := ⟨(@rejects_lawful env).rely_tick tx n d ⟨hi.1, hi.2.schedules⟩, .refl d⟩
  inv_tick n d hi := by
    refine ⟨hi.1.tick n, fun b t ht => ?_, fun b t ht => ?_⟩
    · obtain ⟨m, hm, hid⟩ := hi.2.ids b t ht
      exact ⟨m, lt_of_lt_of_le hm (Nat.le_add_right _ _), hid⟩
    · exact (hi.2.standing b t ht).kept fun _ _ hrow => hrow
  inv_init := ⟨ledgerBase_empty env, fun _ _ h => (by cases h), fun _ _ h => (by cases h)⟩
  inv_commit cm hk hi hg _ := ⟨hk.known.after, hi.2.commit (hk.known.entered hg) hk.houses⟩
  rely_commit cm tx hk hi hg hheld' hheld hcompat _ := by
    have hentered := hk.known.entered hg
    refine ⟨⟨?_, hk.keys, hk.houses⟩, hentered.kept⟩
    exact LedgerRely.commit hk.known.step hcompat hheld hheld' False.elim False.elim
  apart_empty _ := trivial
  start c d _ _ := templates_safe c d d
  killed _ _ _ _ := trivial

theorem templates_hold {s : HomiState} (h : HomiReachable env s) : (templatesProtocol env).Holds s :=
  Protocol.sound templates_lawful
    { allows := fun _ _ _ _ _ _ => trivial
      stops := fun _ _ _ _ _ => trivial
      apart := fun _ _ _ _ _ _ _ _ _ => trivial
      known := fun _ hs => sound_reachable hs } h

/-- In every reachable database the templates are in order. -/
theorem templates_reachable {s : HomiState} (h : HomiReachable env s) : Templates env s.db :=
  (templates_hold h).inv.2

end Homi
