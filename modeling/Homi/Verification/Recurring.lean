import Homi.Verification.Tiles

/-! # Recurring bills

  Every call keeps to the protocol of the tiles: the API never touches a
  posting, and a worker keeps a day for the template that is never ahead of
  its next run.
-/

namespace Homi

open ReadCommitted Protocol Calendar

variable {env : Env} {c : Call} {d d' : Db} {tx : DbTx} {b : Uuid} {t t' : BillTemplate}
  {first n n' m : ℤ} {period : JsString} {α : Type}

/-! ## Section 1: The API -/

section calls

variable {A : DbTx → Db → Prop} {p : DbTxn α} {B : α → DbTx → Db → Prop} {h : JsString} {u : Uuid}
  {id : KeyId} {hash : JsString} {startedAt : Millis}

theorem tiling_of_templates (hp : (templatesProtocol env).Triple A p B) :
    (tilingProtocol env b).Triple A p B :=
  triple_transfer (P := templatesProtocol env) (fun _ _ _ hr => TilingRely.toTemplatesRely hr)
    (fun _ hi => hi.1.1) hp

/-- An edit that somebody else makes meanwhile does not matter. -/
theorem passive_unbilled : (templatesProtocol env).Passive (fun w => w.expenses = []) Unbilled where
  stable := by
    intro tx d d' hr _ h e o hmem
    obtain ⟨row, ho, hrow⟩ := h e o hmem
    refine ⟨row, ho, hrow.imp_right fun hthere => ?_⟩
    obtain ⟨old, hold⟩ := Option.ne_none_iff_exists'.mp hthere
    obtain ⟨new, hnew, -⟩ := (TemplatesRely.toRejectsRely hr).ledger.expenses e old hold
    rw [hnew]
    nofun
  step := by
    intro tx d e hnone h e' o hmem
    apply h e' o
    rw [Tx.add_writes, Writes.append_eq] at hmem
    simpa [Writes.append, show e.writes.expenses = [] from hnone] using hmem

theorem unbilled_blank (h : tx.writes.Blank) : Unbilled tx d := by
  intro e o hmem
  rw [show tx.writes = {} from h] at hmem
  cases hmem

/-- An expense that is created carries no template. -/
theorem createExpense_unbilled {input : CreateExpenseInput} :
    (templatesProtocol env).Triple (fun tx _ => tx.writes.Blank)
      (createExpenseTx env h u input (store id hash) startedAt) fun _ => Unbilled := by
  have hkeep := @passive_unbilled env
  have h0 : (fun w : Writes => w.expenses = []) {} := rfl
  refine triple_weaken (A := Unbilled) ?_ (fun _ _ hA => unbilled_blank hA) fun _ _ _ hB => hB
  refine triple_bind (triple_passive hkeep (only_selectHouse h0)) fun house => ?_
  refine triple_bind (triple_passive hkeep only_reject) fun _ => ?_
  refine triple_bind (triple_passive hkeep (only_resolveSplitsOr400 h0)) fun splits => ?_
  refine triple_bind (B := fun _ => Unbilled) ?_ fun r => ?_
  · refine triple_bind (B := fun _ => Unbilled) ?_ fun _ => ?_
    · refine triple_exec hkeep.stable fun tx d now _ hA _ _ e o hmem => ?_
      rcases List.mem_append.mp hmem with hold | hnew
      · exact hA e o hold
      · obtain ⟨rfl, rfl⟩ := Prod.mk.inj (List.mem_singleton.mp hnew)
        exact ⟨_, rfl, Or.inl rfl⟩
    · exact triple_bind (triple_passive hkeep (only_insertSplits fun _ => rfl)) fun _ =>
        triple_pure fun _ _ hA => hA
  · exact triple_bind (triple_passive hkeep (only_log rfl)) fun _ =>
      triple_bind (triple_passive hkeep (only_store fun _ => rfl)) fun _ => triple_pure fun _ _ hA => hA

/-- An edit writes an expense that is there. -/
theorem editExpense_unbilled {expenseId : JsString} {input : EditExpenseInput} :
    (templatesProtocol env).Triple (fun tx _ => tx.writes.Blank)
      (editExpenseTx expenseId u input (store id hash) startedAt) fun _ => Unbilled := by
  have hkeep := @passive_unbilled env
  have h0 : (fun w : Writes => w.expenses = []) {} := rfl
  -- up to the update, the only writes are revisions
  have hquiet : (templatesProtocol env).Passive (fun w => w.expenses = []) fun tx _ => tx.writes.expenses = [] :=
    passive_writes fun (w w' : Writes) (hw : w.expenses = []) (hw' : w'.expenses = []) => by
      show w.expenses ++ w'.expenses = []
      rw [hw, hw']
      rfl
  refine triple_weaken (A := fun tx _ => tx.writes.expenses = []) ?_ ?_ fun _ _ _ hB => hB
  · refine triple_bind (triple_passive hquiet (only_lockExpense h0)) fun expense => ?_
    refine triple_bind (triple_passive hquiet (Txn.only_select h0)) fun editor => ?_
    refine triple_bind (triple_passive hquiet only_reject) fun _ => ?_
    refine triple_bind (triple_passive hquiet (Txn.only_select h0)) fun rows => ?_
    refine triple_bind (triple_passive hquiet (only_insertRevisions fun _ => rfl)) fun _ => ?_
    refine triple_bind (triple_passive hquiet (only_resolveSplitsOr400 h0)) fun splits => ?_
    refine triple_bind (B := fun _ => Unbilled) ?_ fun updated => ?_
    · refine triple_exec hquiet.stable fun tx d now _ hA _ _ e o hmem => ?_
      rw [Tx.add_writes, Writes.append_eq] at hmem
      simp only [Writes.append, show tx.writes.expenses = [] from hA, List.nil_append] at hmem
      split at hmem
      · next expense hrow =>
        obtain ⟨rfl, rfl⟩ := Prod.mk.inj (List.mem_singleton.mp hmem)
        refine ⟨_, rfl, Or.inr ?_⟩
        rw [view_expenses hA] at hrow
        show d.expenses.lookup (toUuid expenseId) ≠ none
        rw [hrow]
        nofun
      · cases hmem
    refine triple_bind (triple_passive hkeep (only_deleteSplitsOf h0 fun _ => rfl)) fun _ => ?_
    refine triple_bind (triple_passive hkeep (only_insertSplits fun _ => rfl)) fun _ => ?_
    exact triple_bind (triple_passive hkeep (only_log rfl)) fun _ =>
      triple_bind (triple_passive hkeep (only_store fun _ => rfl)) fun _ => triple_pure fun _ _ hA => hA
  · intro tx d hA
    rw [show tx.writes = {} from hA]

theorem passive_opens : (templatesProtocol env).Passive (fun w => w.billTemplates = []) Opens where
  stable := by
    intro tx d d' hr _ h k o hmem
    obtain ⟨hnone, ht⟩ := h k o hmem
    -- nobody else writes a row that the transaction writes
    have hown : tx.Owns (.template k) :=
      Or.inl (Writes.mem_written.mpr (List.mem_map.mpr ⟨(k, o), hmem, rfl⟩))
    have hrow : d'.billTemplates.lookup k = d.billTemplates.lookup k :=
      (TemplatesRely.toRejectsRely hr).ledger.frame _ hown.holds
    exact ⟨hrow.trans hnone, ht⟩
  step := by
    intro tx d e hnone h k o hmem
    apply h k o
    rw [Tx.add_writes, Writes.append_eq] at hmem
    simpa [Writes.append, show e.writes.billTemplates = [] from hnone] using hmem

theorem createBill_opens {input : CreateBillInput} :
    (templatesProtocol env).Triple (fun tx _ => tx.writes.Blank)
      (createBillTx env h u input (store id hash) startedAt) fun _ => Opens := by
  have hblank := passive_of_rejects (@passive_blank env)
  have h0 : Writes.Blank {} := rfl
  refine triple_bind (triple_passive hblank (only_selectHouse h0)) fun house => ?_
  refine triple_bind (triple_passive hblank (Txn.only_mapError (only_lockActingMember h0))) fun _ => ?_
  refine triple_bind (triple_passive hblank (only_clock h0)) fun now => ?_
  refine triple_bind (triple_passive hblank only_liftSchedule) fun nextRun => ?_
  refine triple_bind (B := fun _ => Opens) ?_ fun bill => ?_
  · refine triple_exec hblank.stable fun tx d now _ hA hi _ k o hmem => ?_
    rw [Tx.add_writes, show tx.writes = {} from hA] at hmem
    obtain ⟨rfl, rfl⟩ := Prod.mk.inj (List.mem_singleton.mp hmem)
    rw [view_blank hA]
    refine ⟨?_, _, rfl, rfl⟩
    -- nobody has the new id
    show d.billTemplates.lookup (env.uuid d.fresh) = none
    rw [Option.eq_none_iff_forall_ne_some]
    intro t ht
    obtain ⟨k, hk, hid⟩ := hi.2.ids _ t ht
    exact absurd (env.uuid_inj hid) hk.ne'
  · refine triple_bind (triple_passive passive_opens (only_log rfl)) fun event => ?_
    exact triple_bind (triple_passive passive_opens (only_store fun _ => rfl)) fun _ =>
      triple_pure fun _ _ hA => hA

/-- A transaction of a call, from its triple. -/
theorem keeps_tiling {fn : Millis → DbTxn α} {B : DbTx → Db → Prop}
    (h : ∀ startedAt, (templatesProtocol env).Triple (fun tx _ => tx.writes.Blank) (fn startedAt) fun _ => B)
    (hB : (templatesProtocol env).Stable B) (hguar : ∀ tx d, B tx d → TilingGuar env b c tx d) :
    Keeps (tilingProtocol env b) c (begin >>= fn) := by
  intro next hnext seen d
  have hbody : (templatesProtocol env).Triple (fun tx _ => tx.writes.Blank) (begin >>= fn) fun _ => B := by
    refine triple_bind (triple_begin ?_) h
    exact (passive_of_rejects (@passive_blank env)).stable
  refine safe_of_triple (tiling_of_templates hbody) rfl ?_ (fun _ tx d hA _ => hguar tx d hA)
    (fun a _ _ _ _ => hnext (.ok a) _ _) fun e d => hnext (.error e) _ d
  exact fun _ tx d d' hr hi hA => hB tx d d' (TilingRely.toTemplatesRely hr) hi.1.1 hA

end calls

/-! ## Section 2: The day of the worker -/

section days

variable {bill : DueBill} {scan : List DueBill}

/-- The next run of the template moves on, and houses stay. -/
structure Onward (b : Uuid) (d d' : Db) : Prop where
  tiles : ∀ t first n, Tiled d b t first n → ∃ t' n', Tiled d' b t' first n' ∧ n ≤ n' ∧ t'.Follows t
  houses : HousesKept d d'

/-- The worker is about to post the day `m`, which is not ahead of the next
    run. -/
structure Lags (b : Uuid) (bill : DueBill) (m : ℤ) (d : Db) : Prop where
  tile : ∃ t first n, Tiled d b t first n ∧ t.Follows bill.template ∧ first ≤ m ∧ m ≤ n
  due : bill.template.DueOn m
  house : ∃ house, d.houses.lookup bill.template.houseId = some house ∧ house.timezone = bill.timezone

/-- What the rows of a scan say of the template. -/
def Scans (b : Uuid) (scan : List DueBill) (d : Db) : Prop :=
  ∀ bill ∈ scan, bill.id = b → ∃ m, bill.template.nextRun = isoOf m ∧ Lags b bill m d

theorem Stays.onward (h : Stays b d d') (hk : HousesKept d d') : Onward b d d' where
  tiles t _ n htiled := ⟨t, n, htiled.stays h, le_refl n, .refl t⟩
  houses := hk

theorem Stays.tick (k : ℕ) : Stays b d (tick k d) where
  template := rfl
  back _ row' h := ⟨row', h, rfl⟩
  kept _ row h := ⟨row, h, rfl⟩

theorem Lags.onward (h : Lags b bill m d) (ho : Onward b d d') : Lags b bill m d' where
  tile := by
    obtain ⟨t, first, n, htiled, hf, hfirst, hle⟩ := h.tile
    obtain ⟨t', n', htiled', hn, hf'⟩ := ho.tiles t first n htiled
    exact ⟨t', first, n', htiled', hf'.trans hf, hfirst, hle.trans hn⟩
  due := h.due
  house := by
    obtain ⟨house, hrow, hzone⟩ := h.house
    exact ⟨house, ho.houses _ _ hrow, hzone⟩

theorem Scans.onward (h : Scans b scan d) (ho : Onward b d d') : Scans b scan d' := by
  intro bill hmem hb
  obtain ⟨m, hm, hlags⟩ := h bill hmem hb
  exact ⟨m, hm, hlags.onward ho⟩

theorem TilingRely.step (h : TilingRely b tx d d') : Onward b d d' where
  tiles := h.onward
  houses := (TemplatesRely.toRejectsRely h.toTemplatesRely).houses

/-- A fact that moves on with the template. -/
theorem passive_onward {q : Writes → Prop} {F : Db → Prop} (hF : ∀ d d', Onward b d d' → F d → F d') :
    (tilingProtocol env b).Passive q fun _ d => F d where
  stable _ d d' hr _ h := hF d d' (TilingRely.step hr) h
  step _ d e _ h := hF d _ ((Stays.tick e.ids).onward fun _ _ hrow => hrow) h

theorem passive_lags {q : Writes → Prop} : (tilingProtocol env b).Passive q fun _ d => Lags b bill m d :=
  passive_onward fun _ _ ho h => h.onward ho

/-- A posted period is one before the next run, and so is the next one not
    ahead of it. -/
theorem Lags.next (h : Lags b bill m d) (hm : Readable m)
    (hkey : periodKey bill.template.cadence (isoOf m) = .ok period) (hposted : HasPeriod d b period)
    (hnext : NextDue bill.template.cadence bill.template.cadenceDay m n') : Lags b bill n' d where
  tile := by
    obtain ⟨t, first, n, htiled, hf, hfirst, -⟩ := h.tile
    obtain ⟨hcadence, hday⟩ := hf.schedule
    have hdue : t.DueOn m := by
      rw [BillTemplate.DueOn, hcadence, hday]
      exact h.due
    have hlt : m < n := htiled.lt_of_posted hm hdue (by rw [hcadence]; exact hkey) hposted
    refine ⟨t, first, n, htiled, hf, hfirst.trans hnext.later.le, ?_⟩
    -- the next run is a due date after `m`, and `n'` is the first one
    by_contra hnot
    apply hnext.first n hlt (not_le.mp hnot)
    have hn := htiled.nextDue
    rw [BillTemplate.DueOn, hcadence, hday] at hn
    exact hn
  due := hnext.due
  house := h.house

/-- A day whose period is not posted is the next run. -/
theorem Lags.current (h : Lags b bill m d) (hkey : periodKey bill.template.cadence (isoOf m) = .ok period)
    (hnot : ¬ HasPeriod d b period) : ∃ t first, Tiled d b t first m ∧ t.Follows bill.template := by
  obtain ⟨t, first, n, htiled, hf, hfirst, hle⟩ := h.tile
  obtain ⟨hcadence, hday⟩ := hf.schedule
  have hdue : t.DueOn m := by
    rw [BillTemplate.DueOn, hcadence, hday]
    exact h.due
  rcases hle.lt_or_eq with hlt | rfl
  · exact absurd (htiled.behind hdue hfirst hlt (by rw [hcadence]; exact hkey)) hnot
  · exact ⟨t, first, htiled, hf⟩

end days

/-! ## Section 3: Other bills -/

section others

variable {bill : DueBill} {advanced : JsString}

theorem tiling_of_switches {A : DbTx → Db → Prop} {p : DbTxn α} {B : α → DbTx → Db → Prop}
    (hp : (switchesProtocol env).Triple A p B) : (tilingProtocol env b).Triple A p B :=
  triple_transfer (P := switchesProtocol env) (fun _ _ _ hr => TilingRely.toTemplatesRely hr) (fun _ hi => hi.1) hp

/-- The transaction has nothing to do with the template. -/
structure Elsewhere (b : Uuid) (tx : DbTx) (d : Db) : Prop where
  template : ∀ o, (b, o) ∉ tx.writes.billTemplates
  expenses : ∀ e o, (e, o) ∈ tx.writes.expenses →
    d.expenses.lookup e = none ∧ ∃ row, o = some row ∧ row.templateId ≠ some b
  houses : tx.writes.houses = []

theorem Elsewhere.avoids (h : Elsewhere b tx d) : Avoids b tx d where
  template := h.template
  expenses e o hmem := by
    obtain ⟨-, row, ho, hne⟩ := h.expenses e o hmem
    exact ⟨row, ho, fun hb => absurd hb hne⟩

theorem housesKept_of_none (h : tx.writes.houses = []) : HousesKept d (tx.commit d) := by
  intro k house hrow
  show (d.houses.patch tx.writes.houses).lookup k = _
  rw [h]
  exact hrow

theorem Elsewhere.onward (h : Elsewhere b tx d) : Onward b d (tx.commit d) := by
  refine Stays.onward ⟨?_, ?_, ?_⟩ (housesKept_of_none h.houses)
  · apply Table.lookup_patch_of_notMem
    intro hmem
    obtain ⟨⟨_, o⟩, ho, rfl⟩ := List.mem_map.mp hmem
    exact h.template o ho
  · intro e row' hrow'
    rcases lookup_patch_cases hrow'.1 with hold | hnew
    · exact ⟨row', ⟨hold, hrow'.2⟩, rfl⟩
    · obtain ⟨-, _, heq, hne⟩ := h.expenses e _ hnew
      cases heq
      exact absurd hrow'.2 hne
  · intro e row hrow
    refine ⟨row, ⟨?_, hrow.2⟩, rfl⟩
    rw [← hrow.1]
    apply Table.lookup_patch_of_notMem
    intro hmem
    obtain ⟨⟨_, o⟩, ho, rfl⟩ := List.mem_map.mp hmem
    have hnone := (h.expenses _ o ho).1
    rw [hrow.1] at hnone
    cases hnone

theorem elsewhere_blank (h : tx.writes.Blank) : Elsewhere b tx d := by
  constructor
  all_goals rw [show tx.writes = {} from h]
  · exact fun _ => List.not_mem_nil
  · exact fun _ _ hmem => absurd hmem List.not_mem_nil

/-- The effect writes neither templates nor expenses nor houses. -/
def Writes.Unbilling (w : Writes) : Prop := w.billTemplates = [] ∧ w.expenses = [] ∧ w.houses = []

theorem Elsewhere.add (h : Elsewhere b tx d) {e : Effect Writes LockKey Note}
    (htemplate : ∀ o, (b, o) ∉ e.writes.billTemplates)
    (hexpenses : ∀ e' o, (e', o) ∈ e.writes.expenses →
      d.expenses.lookup e' = none ∧ ∃ row, o = some row ∧ row.templateId ≠ some b)
    (hhouses : e.writes.houses = []) : Elsewhere b (tx.add e) (tick e.ids d) where
  template o hmem := (List.mem_append.mp hmem).elim (h.template o) (htemplate o)
  expenses e' o hmem := (List.mem_append.mp hmem).elim (h.expenses e' o) (hexpenses e' o)
  houses := by
    show tx.writes.houses ++ e.writes.houses = []
    rw [h.houses, hhouses]
    rfl

theorem passive_elsewhere : (templatesProtocol env).Passive Writes.Unbilling (Elsewhere b) where
  stable := by
    intro tx d d' hr _ h
    refine ⟨h.template, ?_, h.houses⟩
    intro e o hmem
    obtain ⟨hnone, hrow⟩ := h.expenses e o hmem
    have hown : tx.Owns (.expense e) :=
      Or.inl (Writes.mem_written.mpr (List.mem_map.mpr ⟨(e, o), hmem, rfl⟩))
    have hsame : d'.expenses.lookup e = d.expenses.lookup e :=
      (TemplatesRely.toRejectsRely hr).ledger.frame _ hown.holds
    exact ⟨hsame.trans hnone, hrow⟩
  step := by
    rintro tx d e ⟨htemplates, hexpenses, hhouses⟩ h
    refine h.add ?_ ?_ hhouses
    · rw [htemplates]
      exact fun _ => List.not_mem_nil
    · rw [hexpenses]
      exact fun _ _ hmem => absurd hmem List.not_mem_nil

/-- A posting of another bill. -/
theorem postOneTx_elsewhere (hb : bill.id ≠ b) :
    (templatesProtocol env).Triple (Elsewhere b) (postOneTx env bill period advanced) fun _ => Elsewhere b := by
  have hkeep := @passive_elsewhere env b
  have h0 : Writes.Unbilling {} := ⟨rfl, rfl, rfl⟩
  refine triple_bind (triple_passive hkeep (only_begin h0)) fun startedAt => ?_
  refine triple_bind (triple_passive hkeep (only_lockActiveMembers h0)) fun members => ?_
  refine triple_bind (triple_passive hkeep only_reject) fun _ => ?_
  refine triple_bind (triple_passive hkeep only_reject) fun _ => ?_
  refine triple_bind (triple_passive hkeep (only_resolveSplits h0)) fun splits => ?_
  refine triple_bind (B := fun _ => Elsewhere b) ?_ fun r => ?_
  · refine triple_bind (B := fun _ => Elsewhere b) ?_ fun id => ?_
    · refine triple_exec hkeep.stable fun tx d now id h hi _ => h.add (fun _ => List.not_mem_nil) ?_ rfl
      intro e o hmem
      obtain ⟨rfl, rfl⟩ := Prod.mk.inj (List.mem_singleton.mp hmem)
      refine ⟨?_, _, rfl, fun heq => hb (Option.some.inj heq)⟩
      -- nobody has the new id
      show d.expenses.lookup (env.uuid d.fresh) = none
      rw [Option.eq_none_iff_forall_ne_some]
      intro row hrow
      obtain ⟨n, hn, hid⟩ := hi.1.bookings.ids _ row hrow
      exact absurd (env.uuid_inj hid) hn.ne'
    · exact triple_bind (triple_passive hkeep (only_insertSplits fun _ => ⟨rfl, rfl, rfl⟩)) fun _ =>
        triple_pure fun _ _ hA => hA
  refine triple_bind (triple_passive hkeep (only_insertEvent ⟨rfl, rfl, rfl⟩)) fun _ => ?_
  refine triple_bind (B := fun _ => Elsewhere b) ?_ fun _ => triple_pure fun _ _ hA => hA
  refine triple_exec hkeep.stable fun tx d now a h _ _ => h.add ?_ (fun _ _ hmem => by cases hmem) rfl
  intro o hmem
  dsimp only at hmem
  split at hmem
  · exact hb (Prod.mk.inj (List.mem_singleton.mp hmem)).1.symm
  · cases hmem

theorem elsewhere_one {t : BillTemplate} {events : List ActivityEvent} (hb : bill.id ≠ b)
    (h : tx.writes = { billTemplates := [(bill.id, some t)], activityEvents := events }) : Elsewhere b tx d := by
  constructor
  all_goals rw [h]
  · exact fun o hmem => hb (Prod.mk.inj (List.mem_singleton.mp hmem)).1.symm
  · exact fun _ _ hmem => absurd hmem List.not_mem_nil

theorem advanceBill_elsewhere {matching : BillTemplate → Bool} (hb : bill.id ≠ b) :
    (switchesProtocol env).Triple (fun tx _ => tx.writes.Blank) (advanceBill bill.id advanced matching)
      fun _ => Elsewhere b := by
  refine triple_weaken advanceBill_advances (fun _ _ hA => hA) fun _ tx d hB => ?_
  rcases hB with hnothing | ⟨t, -, hwrites⟩
  · exact elsewhere_blank hnothing
  · exact elsewhere_one hb hwrites

/-- The transaction does not touch the template, or switches it off. -/
def Pausing (b : Uuid) (tx : DbTx) (d : Db) : Prop :=
  Elsewhere b tx d ∨ ∃ t, tx.writes.billTemplates = [(b, some t)] ∧ t.active = false

theorem pauseTx_pausing {reason : JsString} :
    (switchesProtocol env).Triple (fun tx _ => tx.writes.Blank) (pauseTx bill reason) fun _ => Pausing b := by
  refine triple_weaken (pauseTx_pauses bill reason) (fun _ _ hA => hA) fun updated tx d hB => ?_
  cases updated with
  | false => exact Or.inl (elsewhere_blank hB)
  | true =>
    obtain ⟨t, ev, hwrites, hoff, -⟩ := Turns.writes hB
    by_cases hb : bill.id = b
    · refine Or.inr ⟨t, ?_, hoff⟩
      rw [hwrites, ← hb]
    · exact Or.inl (elsewhere_one hb hwrites)

end others

/-! ## Section 4: The bill itself -/

section own

variable {bill : DueBill} {ok : StmtCond Db Writes LockKey Note} {e : Uuid} {row : Expense}
  {splits : Splits JsString} {startedAt : Millis}

/-- The transaction has inserted the posting of the next run. -/
structure InSlot (b : Uuid) (bill : DueBill) (m : ℤ) (period : JsString) (tx : DbTx) (d : Db) : Prop where
  tile : ∃ t first, Tiled d b t first m ∧ t.Follows bill.template
  lock : (LockKey.period b period, Mode.exclusive) ∈ tx.locks
  expense : ∃ e row, tx.writes.expenses = [(e, some row)] ∧ d.expenses.lookup e = none ∧
    row.templateId = some b ∧ row.period = some period

/-- What a posting throws, when its period is taken. -/
def Taken (b : Uuid) (period : JsString) (err : Err) (d : Db) : Prop :=
  err = .uniqueViolation → HasPeriod d b period

theorem taken_of_domain {err : Err} (h : err.Domain) : Taken b period err d := by
  rintro rfl
  exact h.elim

/-- The entry of the index keeps the next run where it is. -/
theorem passive_inSlot (hm : Readable m) (hkey : periodKey bill.template.cadence (isoOf m) = .ok period) :
    (tilingProtocol env b).Passive (fun w => w.expenses = []) (InSlot b bill m period) where
  stable := by
    intro tx d d' hr _ h
    obtain ⟨t, first, htiled, hf⟩ := h.tile
    refine ⟨⟨t, first, ?_, hf⟩, h.lock, ?_⟩
    · have hkey' : periodKey t.cadence (isoOf m) = .ok period := by
        rw [hf.schedule.1]
        exact hkey
      have hrow := TilingRely.slot hr t first m period htiled hm hkey' h.lock
      obtain ⟨t', n', htiled', -, -⟩ := TilingRely.onward hr t first m htiled
      have hsame := htiled'.row
      rw [hrow] at hsame
      cases hsame
      have hn : n' = m := isoOf_eq hm (htiled'.nextRun.symm.trans htiled.nextRun)
      rw [hn] at htiled'
      exact htiled'
    · obtain ⟨e, row, hwrites, hnone, hrow⟩ := h.expense
      have hown : tx.Owns (.expense e) := by
        refine Or.inl (Writes.mem_written.mpr (List.mem_map.mpr ⟨(e, some row), ?_, rfl⟩))
        rw [hwrites]
        exact List.mem_singleton_self _
      have hsame : d'.expenses.lookup e = d.expenses.lookup e :=
        (TemplatesRely.toRejectsRely hr.toTemplatesRely).ledger.frame _ hown.holds
      exact ⟨e, row, hwrites, hsame.trans hnone, hrow⟩
  step := by
    intro tx d ef hnone h
    obtain ⟨t, first, htiled, hf⟩ := h.tile
    obtain ⟨e, row, hwrites, hfree, hrow⟩ := h.expense
    refine ⟨⟨t, first, htiled.stays (.tick _), hf⟩, List.mem_append_left _ h.lock, e, row, ?_, hfree, hrow⟩
    rw [Tx.add_writes, Writes.append_eq]
    simp [Writes.append, hwrites, show ef.writes.expenses = [] from hnone]

theorem tiling_of_ledger {A : DbTx → Db → Prop} {p : DbTxn α} {B : α → DbTx → Db → Prop}
    (hp : (ledgerProtocol env False False).Triple A p B) : (tilingProtocol env b).Triple A p B :=
  tiling_of_templates (triple_of_rejects (triple_of_ledger hp))

theorem passive_blank_tiling : (tilingProtocol env b).Passive Writes.Blank fun tx _ => tx.writes.Blank :=
  ⟨stable_const _, (@passive_blank env).step⟩

/-- A part of the posting before its first write. -/
theorem tripleOr_before {A : DbTx → Db → Prop} {p : DbTxn α} {B : α → DbTx → Db → Prop}
    (hp : (ledgerProtocol env False False).Triple A p B) (hblank : p.Only Writes.Blank) (ht : p.Throws Err.Domain) :
    (tilingProtocol env b).TripleOr ok (fun tx d => (tx.writes.Blank ∧ A tx d) ∧ Lags b bill m d) p
      (fun a tx d => (tx.writes.Blank ∧ B a tx d) ∧ Lags b bill m d)
      fun err d => Taken b period err d ∧ Lags b bill m d :=
  tripleOr_fact passive_lags (tripleOr_of_throws (triple_and (triple_passive passive_blank_tiling hblank)
    (tiling_of_ledger hp)) ht fun _ _ he => taken_of_domain he)

/-- The insert takes the slot of the next run. -/
theorem insertRow_inSlot (hb : bill.id = b) (hkey : periodKey bill.template.cadence (isoOf m) = .ok period) :
    (tilingProtocol env b).Triple (fun tx d => tx.writes.Blank ∧ Lags b bill m d)
      (insertExpenseRow env startedAt (billSpec bill period))
      fun _ tx d => (tx.writes.Keyless ∧ tx.writes.billTemplates = []) ∧ InSlot b bill m period tx d := by
  refine triple_exec (passive_blank_tiling.and passive_lags).stable fun tx d now id hA hi hres => ?_
  obtain ⟨hblank, hlags⟩ := hA
  rw [view_blank hblank] at hres ⊢
  -- the checks have passed, so the period is not posted
  have hfree : ¬ HasPeriod d b period := by
    intro hposted
    rw [HasPeriod, ← hb] at hposted
    by_cases hamount : ((billSpec bill period).row startedAt).amountCents ≤ 0
    · rw [if_pos hamount] at hres
      cases hres
    · rw [if_neg hamount] at hres
      dsimp only [billSpec] at hres
      rw [if_pos hposted] at hres
      cases hres
  obtain ⟨t, first, htiled, hf⟩ := hlags.current hkey hfree
  rw [Tx.add_writes, show tx.writes = {} from hblank]
  refine ⟨⟨rfl, rfl⟩, ⟨t, first, htiled.stays (.tick _), hf⟩, ?_, ?_⟩
  · apply List.mem_append_right
    apply List.mem_append_left
    dsimp only [billSpec]
    rw [hb]
    exact List.mem_singleton_self _
  · refine ⟨env.uuid d.fresh, (billSpec bill period).row startedAt, ?_, ?_, congrArg some hb, rfl⟩
    · rw [Tx.add_writes, show tx.writes = {} from hblank]
      rfl
    -- nobody has the new id
    show d.expenses.lookup (env.uuid d.fresh) = none
    rw [Option.eq_none_iff_forall_ne_some]
    intro row hrow
    obtain ⟨k, hk, hid⟩ := hi.1.1.1.bookings.ids _ row hrow
    exact absurd (env.uuid_inj hid) hk.ne'

/-- Or it finds the period posted. -/
theorem insertRow_tiles (hb : bill.id = b) (hkey : periodKey bill.template.cadence (isoOf m) = .ok period) :
    (tilingProtocol env b).TripleOr ok
      (fun tx d => (tx.writes.Blank ∧ Resolved h bill.template.amountCents splits tx d) ∧ Lags b bill m d)
      (insertExpenseRow env startedAt (billSpec bill period))
      (fun id tx d => (tx.writes.Keyless ∧ ∃ dead,
          Rebooking env h id ((billSpec bill period).row startedAt) splits dead [] tx d) ∧
        tx.writes.billTemplates = [] ∧ InSlot b bill m period tx d)
      (Taken b period) := by
  have hstable : (tilingProtocol env b).Stable fun tx d =>
      (tx.writes.Blank ∧ Resolved h bill.template.amountCents splits tx d) ∧ Lags b bill m d := by
    refine (passive_blank_tiling.stable.and ?_).and (passive_lags (q := Writes.Blank)).stable
    intro tx d d' hr hi hA
    exact (passive_of_rejects (passive_of_ledger (passive_resolved _ _ _))).stable tx d d'
      (TilingRely.toTemplatesRely hr) hi.1.1 hA
  have hbook := triple_and (tiling_of_ledger (b := b)
    (@triple_insertExpenseRow env False False h splits startedAt (billSpec bill period)))
    (@insertRow_inSlot env b m period bill startedAt hb hkey)
  refine tripleOr_exec_of hstable (triple_weaken hbook ?_ ?_) ?_
  · rintro tx d ⟨⟨hblank, hresolved⟩, hlags⟩
    refine ⟨⟨?_, hresolved⟩, hblank, hlags⟩
    rw [show tx.writes = {} from hblank]
    exact Writes.quiet_nothing
  · exact fun id tx d hB => ⟨⟨hB.2.1.1, hB.1.1⟩, hB.2.1.2, hB.2.2⟩
  · rintro tx d now err ⟨⟨hblank, -⟩, -⟩ - hres rfl
    rw [view_blank hblank] at hres
    by_cases hamount : ((billSpec bill period).row startedAt).amountCents ≤ 0
    · rw [if_pos hamount] at hres
      cases hres
    · rw [if_neg hamount] at hres
      dsimp only [billSpec] at hres
      by_cases hposted : (postedFor d bill.id period).isSome = true
      · rw [hb] at hposted
        exact hposted
      · rw [if_neg hposted] at hres
        cases hres

/-- The template stands with the next run that the transaction gives it. -/
def Advances (b : Uuid) (advanced : JsString) (tx : DbTx) (d : Db) : Prop :=
  ∃ t, d.billTemplates.lookup b = some t ∧
    tx.writes.billTemplates = [(b, some { t with nextRun := advanced })]

theorem stable_advances {advanced : JsString} : (tilingProtocol env b).Stable (Advances b advanced) := by
  rintro tx d d' hr - ⟨t, hrow, hwrites⟩
  exact ⟨t, (TemplatesRely.one (TilingRely.toTemplatesRely hr) hwrites).trans hrow, hwrites⟩

/-- The last statement of a posting. -/
theorem advanceBill_tiles {advanced : JsString} (hb : bill.id = b) (hm : Readable m)
    (hkey : periodKey bill.template.cadence (isoOf m) = .ok period) :
    (tilingProtocol env b).Triple (fun tx d => tx.writes.billTemplates = [] ∧ InSlot b bill m period tx d)
      (advanceBill bill.id advanced fun _ => true)
      fun _ tx d => InSlot b bill m period tx d ∧ Advances b advanced tx d := by
  have hkeep := @passive_inSlot env b m period bill hm hkey
  refine triple_exec ((stable_const _).and hkeep.stable) fun tx d now a hA _ _ => ?_
  obtain ⟨hnone, hslot⟩ := hA
  refine ⟨hkeep.step _ _ _ rfl hslot, ?_⟩
  obtain ⟨t, first, htiled, -⟩ := hslot.tile
  have hrow : (tx.view d now).db.billTemplates.lookup bill.id = some t := by
    show (d.billTemplates.patch tx.writes.billTemplates).lookup bill.id = _
    rw [hnone, hb]
    exact htiled.row
  refine ⟨t, htiled.row, ?_⟩
  rw [Tx.add_writes, Writes.append_eq, hrow]
  simp only [Writes.append, hnone, hb, List.nil_append]
  rfl

/-- The rest of the posting does not matter until then. -/
theorem passive_waits (hm : Readable m) (hkey : periodKey bill.template.cadence (isoOf m) = .ok period) :
    (tilingProtocol env b).Passive Writes.Unbilling
      fun tx d => tx.writes.billTemplates = [] ∧ InSlot b bill m period tx d := by
  have hslot := @passive_inSlot env b m period bill hm hkey
  refine ⟨(stable_const _).and hslot.stable, ?_⟩
  rintro tx d e ⟨htemplates, hexpenses, -⟩ ⟨hnone, h⟩
  refine ⟨?_, hslot.step tx d e hexpenses h⟩
  show tx.writes.billTemplates ++ e.writes.billTemplates = []
  rw [hnone, htemplates]
  rfl

/-- The writes of a posting. From the insert on, the next run is the day of
    the worker. -/
theorem bookBill_tiles {advanced : JsString} (hb : bill.id = b) (hm : Readable m)
    (hkey : periodKey bill.template.cadence (isoOf m) = .ok period) :
    (tilingProtocol env b).TripleOr ok
      (fun tx d => (tx.writes.Blank ∧ Resolved h bill.template.amountCents splits tx d) ∧ Lags b bill m d)
      (bookBill env startedAt bill period advanced splits)
      (fun _ tx d => InSlot b bill m period tx d ∧ Advances b advanced tx d) (Taken b period) := by
  have hwaits := @passive_waits env b m period bill hm hkey
  refine tripleOr_bind (B := fun _ tx d => tx.writes.billTemplates = [] ∧ InSlot b bill m period tx d) ?_ fun r => ?_
  · rw [insertExpense_eq]
    refine tripleOr_bind (insertRow_tiles hb hkey) fun id => ?_
    have hinsert : (tilingProtocol env b).TripleOr ok
        (fun tx d => tx.writes.Keyless ∧ ∃ dead,
          Rebooking env h id ((billSpec bill period).row startedAt) splits dead [] tx d)
        (insertSplits id splits)
        (fun _ tx d => tx.writes.Keyless ∧ Rebooked env h id ((billSpec bill period).row startedAt) splits tx d)
        (Taken b period) :=
      tripleOr_transfer (P := rejectsProtocol env)
        (fun _ _ _ hr => TemplatesRely.toRejectsRely (TilingRely.toTemplatesRely hr))
        (fun _ hi => ⟨hi.1.1.1, hi.1.1.2.schedules⟩) tripleOr_insertSplits
    have hslot := triple_passive hwaits (@only_insertSplits Writes.Unbilling (fun _ => ⟨rfl, rfl, rfl⟩) id splits)
    exact tripleOr_bind (tripleOr_and hinsert hslot) fun _ => tripleOr_pure fun _ _ hA => hA.2
  · have hlast : (tilingProtocol env b).Triple
        (fun tx d => tx.writes.billTemplates = [] ∧ InSlot b bill m period tx d)
        (do
          insertEvent (postedEvent bill r.1 period)
          advanceBill bill.id advanced fun _ => true
          return r.1)
        fun _ tx d => InSlot b bill m period tx d ∧ Advances b advanced tx d :=
      triple_bind (triple_passive hwaits (only_insertEvent ⟨rfl, rfl, rfl⟩)) fun _ =>
        triple_bind (advanceBill_tiles hb hm hkey) fun _ => triple_pure fun _ _ hA => hA
    refine tripleOr_of_throws (q := Err.Domain) hlast ?_ fun _ _ he => taken_of_domain he
    exact Txn.throws_bind (Txn.throws_exec fun _ _ he => by cases he) fun _ =>
      Txn.throws_bind (Txn.throws_exec fun _ _ he => by cases he) fun _ => trivial

/-- A posting takes the period of the next run and moves it on, or finds
    the period of its day posted. -/
theorem postOneTx_tiles {advanced : JsString} (hb : bill.id = b) (hm : Readable m)
    (hkey : periodKey bill.template.cadence (isoOf m) = .ok period) :
    (tilingProtocol env b).TripleOr ok (fun tx d => tx.writes.Blank ∧ Lags b bill m d)
      (postOneTx env bill period advanced)
      (fun _ tx d => (InSlot b bill m period tx d ∧ Advances b advanced tx d) ∧ Lags b bill m d)
      fun err d => Taken b period err d ∧ Lags b bill m d := by
  have hquiet := @passive_quiet env False False
  have h0 : Writes.Blank {} := rfl
  refine tripleOr_bind (B := fun _ tx d => (tx.writes.Blank ∧ tx.writes.Quiet) ∧ Lags b bill m d)
    (tripleOr_weaken (tripleOr_before (triple_passive hquiet (only_begin Writes.quiet_nothing)) (only_begin h0)
      Txn.throws_select) ?_ fun _ _ _ hB => hB) fun startedAt => ?_
  · rintro tx d ⟨hblank, hlags⟩
    refine ⟨⟨hblank, ?_⟩, hlags⟩
    rw [show tx.writes = {} from hblank]
    exact Writes.quiet_nothing
  refine tripleOr_bind (tripleOr_before (triple_lockActiveMembers hquiet fun _ _ hq => hq.houseMembers)
    (only_lockActiveMembers h0) throws_lockActiveMembers) fun members => ?_
  have hheld : (ledgerProtocol env False False).Passive Writes.Quiet fun tx d =>
      tx.writes.Quiet ∧ ∀ m ∈ members, Held (toUuid bill.template.houseId) m.userId tx d :=
    hquiet.and (Passive.all fun m => Passive.all fun _ => passive_held _ _)
  have hreject : ∀ {bad : Prop} [Decidable bad] {problem : PostingProblem},
      (reject bad (.posting problem)).Throws Err.Domain := by
    intro bad _ problem
    unfold reject
    split <;> trivial
  refine tripleOr_bind (tripleOr_before (triple_passive hheld only_reject) only_reject hreject) fun _ => ?_
  refine tripleOr_bind (tripleOr_before (triple_passive hheld only_reject) only_reject hreject) fun _ => ?_
  refine tripleOr_bind (tripleOr_before (triple_resolveSplits hheld (fun _ _ hA => hA.1.houseMembers) ?_)
    (only_resolveSplits h0) throws_resolveSplits) fun splits => ?_
  · rintro ms ⟨⟩ tx d hA
    exact hA.2
  exact tripleOr_weaken (tripleOr_fact passive_lags (bookBill_tiles hb hm hkey))
    (fun _ _ hA => ⟨⟨⟨hA.1.1, hA.1.2.2⟩, hA.2⟩, hA.2⟩) fun _ _ _ hB => hB

end own

/-! ## Section 5: The worker -/

section worker

variable {bill : DueBill} {scan : List DueBill} {now : Millis} {today dueISO advanced : JsString}
  {F : Db → Prop} {next : DbProg}

/-- The program keeps to the protocol from where `F` holds. -/
def SafeFrom (env : Env) (b : Uuid) (now : Millis) (F : Db → Prop) (prog : DbProg) : Prop :=
  ∀ seen d, F d → (tilingProtocol env b).Safe (.postDueBills now) prog seen Tx.empty d

/-- The template is the next run that was inserted, moved on by one. -/
theorem InSlot.posts (hslot : InSlot b bill m period tx d) (hadvances : Advances b (isoOf n') tx d)
    (hlags : Lags b bill m d) (hm : Readable m) (hkey : periodKey bill.template.cadence (isoOf m) = .ok period)
    (hnext : NextDue bill.template.cadence bill.template.cadenceDay m n')
    (htoday : todayInTimezone env bill.timezone now = .ok today) (hreached : ¬ today < isoOf m) :
    Posts env b now tx d := by
  obtain ⟨t, first, htiled, hf⟩ := hslot.tile
  obtain ⟨e, row, hexpenses, hnone, hb, hperiod⟩ := hslot.expense
  obtain ⟨t', hrow, htemplates⟩ := hadvances
  obtain ⟨house, hhouse, hzone⟩ := hlags.house
  obtain ⟨hcadence, hday⟩ := hf.schedule
  rw [htiled.row] at hrow
  cases hrow
  have hhouse' : t.houseId = bill.template.houseId := by rw [hf]
  refine ⟨t, first, m, n', period, e, row, htiled, hm, ?_, ?_, htemplates, hexpenses, hnone, hb, hperiod,
    hslot.lock, house, today, ?_, ?_, hreached⟩
  · rw [hcadence]
    exact hkey
  · rw [hcadence, hday]
    exact hnext
  · rw [hhouse']
    exact hhouse
  · rw [hzone]
    exact htoday

theorem Posts.onward (h : Posts env b now tx d) (hk : HousesKept d (tx.commit d)) : Onward b d (tx.commit d) where
  tiles t first n htiled := by
    obtain ⟨t', first', m, m', period, htiled', hp, -⟩ := h.step
    obtain ⟨rfl, rfl⟩ := htiled'.unique htiled hp.readable
    exact ⟨_, m', htiled.post hp, hp.next.later.le, .update t (isoOf m') t.active⟩
  houses := hk

/-- The day that follows is the next run from then on. -/
theorem Posts.lags (h : Posts env b now tx d) (hslot : InSlot b bill m period tx d)
    (hlags : Lags b bill m d) (hnext : NextDue bill.template.cadence bill.template.cadenceDay m n')
    (hk : HousesKept d (tx.commit d)) : Lags b bill n' (tx.commit d) where
  tile := by
    obtain ⟨t, first, htiled, hf⟩ := hslot.tile
    obtain ⟨t', first', n, n'', period', htiled', hp, -⟩ := h.step
    obtain ⟨rfl, rfl⟩ := htiled'.unique htiled hp.readable
    obtain ⟨hcadence, hday⟩ := hf.schedule
    have hsame : n'' = n' := by
      have hp' := hp.next
      rw [hcadence, hday] at hp'
      exact hp'.unique hnext
    rw [← hsame]
    have hf' := (BillTemplate.Follows.update t (isoOf n'') t.active).trans hf
    exact ⟨_, first, n'', htiled.post hp, hf', htiled.le.trans hp.next.later.le, le_refl _⟩
  due := hnext.due
  house := by
    obtain ⟨house, hrow, hzone⟩ := hlags.house
    exact ⟨house, hk _ _ hrow, hzone⟩

theorem stable_pausing : (tilingProtocol env b).Stable (Pausing b) := by
  intro tx d d' hr hi h
  refine h.imp_left fun h => ?_
  exact passive_elsewhere.stable tx d d' (TilingRely.toTemplatesRely hr) hi.1.1 h

theorem Pausing.step (h : Pausing b tx d) : BillStep env b now tx d := by
  rcases h with h | ⟨t, hwrites, hoff⟩
  · exact .avoids h.avoids
  · refine .pauses t ?_ hoff
    rw [hwrites]
    exact List.mem_singleton_self _

/-- A template that is switched off is no concern of the protocol. -/
theorem Pausing.onward (h : Pausing b tx d) (hi : (tilingProtocol env b).inv (tx.commit d)) :
    Onward b d (tx.commit d) := by
  rcases h with h | ⟨t, hwrites, hoff⟩
  · exact h.onward
  · have hrow : (tx.commit d).billTemplates.lookup b = some t := by
      show (d.billTemplates.patch tx.writes.billTemplates).lookup b = _
      rw [hwrites, Table.lookup_patch_singleton, if_pos rfl]
    obtain ⟨first, n, htiled⟩ := hi.2.tiled t hrow
    rw [htiled.active] at hoff
    cases hoff

section rules

variable (hF : ∀ d d', Onward b d d' → F d → F d')
include hF

theorem safeFrom_emit {hint : Hint} (h : SafeFrom env b now F next) : SafeFrom env b now F (.emit hint next) :=
  fun seen d hd d' hr _ => h seen d' (hF d d' (TilingRely.step hr) hd)

/-- A transaction that neither posts nor advances the template. -/
theorem safeFrom_bare {p : DbTxn α}
    (hp : (tilingProtocol env b).Triple (fun tx d => tx.writes.Blank ∧ F d) p fun _ => Pausing b) :
    PassesBare (SafeFrom env b now F) p := by
  intro next hnext seen d hd
  refine safe_of_triple_fact (passive_onward hF) hp ⟨rfl, hd⟩ hd (fun _ => stable_pausing)
    (fun _ tx d hA _ => Pausing.step hA) (fun a tx d hA hd hi => ?_) fun err d hd => hnext _ seen d hd
  exact hnext _ seen _ (hF _ _ (Pausing.onward hA hi) hd)

theorem safeFrom_pause {reason : JsString} (h : SafeFrom env b now F next) :
    SafeFrom env b now F (pause bill reason next) := by
  refine passes_pause (fun _ _ _ _ => trivial) (fun _ _ hG => safeFrom_emit hF hG) (safeFrom_bare hF ?_) h
  exact triple_weaken (tiling_of_switches pauseTx_pausing) (fun _ _ hA => hA.1) fun _ _ _ hB => hB

/-- The turn of another bill. -/
theorem dueRules_elsewhere (hb : bill.id ≠ b) : DueRules (SafeFrom env b now F) env bill := by
  have helse : ∀ {p : DbTxn Unit}, (switchesProtocol env).Triple (fun tx _ => tx.writes.Blank) p (fun _ => Elsewhere b) →
      PassesBare (SafeFrom env b now F) p := fun hp => safeFrom_bare hF
    (triple_weaken (tiling_of_switches hp) (fun _ _ hA => hA.1) fun _ _ _ hB => Or.inl hB)
  refine dueRules_of_keeps (fun _ _ _ _ => trivial) (fun _ _ hG => safeFrom_emit hF hG) ?_ ?_ ?_
  · exact fun dueISO advanced _ period => safeFrom_bare hF (triple_weaken (tiling_of_templates (postOneTx_elsewhere hb))
      (fun _ _ hA => elsewhere_blank hA.1) fun _ _ _ hB => Or.inl hB)
  · exact fun dueISO advanced _ => helse (advanceBill_elsewhere hb)
  · exact fun reason => safeFrom_bare hF
      (triple_weaken (tiling_of_switches pauseTx_pausing) (fun _ _ hA => hA.1) fun _ _ _ hB => hB)

end rules

theorem houses_append (w w' : Writes) (h : w.houses = []) (h' : w'.houses = []) :
    (WriteSet.append w w').houses = [] := by
  show w.houses ++ w'.houses = []
  rw [h, h']
  rfl

/-- A worker that finds its period posted is behind, and moves nothing. -/
theorem advanceBill_behind (hb : bill.id = b) (hm : Readable m) (hlt : m < n') :
    (tilingProtocol env b).Triple (fun tx d => tx.writes.Blank ∧ Lags b bill n' d)
      (advanceBill bill.id advanced fun t => t.nextRun = isoOf m) fun _ => Pausing b := by
  refine triple_exec (passive_blank_tiling.and passive_lags).stable fun tx d now a hA _ _ => ?_
  obtain ⟨hblank, hlags⟩ := hA
  obtain ⟨t, first, n, htiled, -, -, hle⟩ := hlags.tile
  rw [view_blank hblank, hb, htiled.row, Option.filter_some, if_neg]
  · refine Or.inl (elsewhere_blank ?_)
    rw [Tx.add_writes, show tx.writes = {} from hblank]
    rfl
  · -- the next run is a later day
    simp only [decide_eq_true_eq, htiled.nextRun]
    intro heq
    have hsame := isoOf_eq hm heq
    omega

/-- The turn of the bill itself, from a day that is not ahead of its next
    run. The induction is on the periods that are left. -/
theorem postPeriods_tiles (hb : bill.id = b) (htoday : todayInTimezone env bill.timezone now = .ok today)
    (hF : ∀ d d', Onward b d d' → F d → F d') {next : PostDueBillsResult → DbProg}
    (hnext : ∀ result, SafeFrom env b now F (next result)) (k : ℕ) (m : ℤ) (result : PostDueBillsResult) :
    SafeFrom env b now (fun d => F d ∧ Lags b bill m d) (postPeriods env bill today k (isoOf m) result next) := by
  induction k generalizing m result with
  | zero => exact fun seen d hd => hnext result seen d hd.1
  | succ k ih =>
    unfold postPeriods
    by_cases hreached : today < isoOf m
    · rw [if_pos hreached]
      exact fun seen d hd => hnext result seen d hd.1
    rw [if_neg hreached]
    cases hadvanced : nextDueDate bill.template.cadence bill.template.cadenceDay (isoOf m) with
    | error err => exact fun seen d hd => trivial
    | ok advanced =>
      obtain ⟨m₀, n', hm, hiso, rfl, hdue⟩ := nextDueDate_ok hadvanced
      obtain rfl := isoOf_eq hm hiso
      have hpause : ∀ err, SafeFrom env b now (fun d => F d ∧ Lags b bill m d) (pause bill (Err.message err)
          (next { result with paused := result.paused ++ [(bill.id, Err.message err)] })) := by
        intro err
        refine safeFrom_pause (fun d d' ho hd => ⟨hF d d' ho hd.1, hd.2.onward ho⟩) ?_
        exact fun seen d hd => hnext _ seen d hd.1
      dsimp only
      unfold postOne
      cases hkey : periodKey bill.template.cadence (isoOf m) with
      | error err => exact hpause (.schedule err)
      | ok period =>
        intro seen d hd
        have h0 : (fun w : Writes => w.houses = []) {} := rfl
        have honly : (postOneTx env bill period (isoOf n')).Only fun w => w.houses = [] :=
          only_postOneTx h0 (fun _ => rfl) (fun _ => rfl) (fun _ _ => rfl) fun _ => rfl
        refine safe_of_tripleOr (fun _ _ _ _ _ _ => trivial)
          (tripleOr_fact (passive_onward hF) (tripleOr_and
            (show (tilingProtocol env b).TripleOr (fun _ _ _ _ => True) _ _ _ _ from postOneTx_tiles hb hm hkey)
            (triple_only houses_append honly)))
          ⟨⟨⟨rfl, hd.2⟩, rfl⟩, hd.1⟩ ?_ ?_
        · -- posted: the next run is the day that follows
          rintro id tx d ⟨⟨⟨⟨hslot, hadvances⟩, hlags⟩, hhouses⟩, hd⟩ d' hr hi
          have ho := TilingRely.step hr
          have hslot := (passive_inSlot hm hkey).stable tx d d' hr hi hslot
          have hlags := hlags.onward ho
          have hposts := hslot.posts (stable_advances tx d d' hr hi hadvances) hlags hm hkey hdue htoday hreached
          have hk : HousesKept d' (DbTx.commit tx d') := housesKept_of_none hhouses
          refine ⟨.posts hposts, fun _ => ?_⟩
          refine safeFrom_emit (fun d d' ho hd => ⟨hF d d' ho hd.1, hd.2.onward ho⟩) (ih n' _) seen _ ⟨?_, ?_⟩
          · exact hF _ _ (hposts.onward hk) (hF _ _ ho hd)
          · exact hposts.lags hslot hlags hdue hk
        · rintro err d ⟨⟨htaken, hlags⟩, hd⟩
          dsimp only
          by_cases hunique : isUniqueViolation err = true
          · -- posted before: the day that follows is not ahead either
            rw [if_pos hunique]
            have herr : err = .uniqueViolation := by
              cases err <;> first | rfl | cases hunique
            have hlags := hlags.next hm hkey (htaken herr) hdue
            have hboth : ∀ d d', Onward b d d' → F d ∧ Lags b bill n' d → F d' ∧ Lags b bill n' d' :=
              fun d d' ho hd => ⟨hF d d' ho hd.1, hd.2.onward ho⟩
            refine safeFrom_bare hboth (triple_weaken (advanceBill_behind hb hm hdue.later)
              (fun _ _ hA => ⟨hA.1, hA.2.2⟩) fun _ _ _ hB => hB) _ (fun r => ?_) seen d ⟨hd, hlags⟩
            cases r with
            | error err => exact fun _ _ _ => trivial
            | ok _ => exact ih n' _
          · rw [if_neg hunique]
            split
            · exact hpause err seen d ⟨hd, hlags⟩
            · trivial

/-- A run of the worker, from a scan that is not ahead of the template. -/
theorem postBills_tiles {bills : List DueBill} (hbills : ∀ bill ∈ bills, bill ∈ scan) (result : PostDueBillsResult) :
    SafeFrom env b now (Scans b scan) (postBills env now bills result) := by
  have hF : ∀ d d', Onward b d d' → Scans b scan d → Scans b scan d' := fun _ _ ho h => h.onward ho
  induction bills generalizing result with
  | nil => exact fun _ _ _ => trivial
  | cons bill bills ih =>
    have hrest := fun result => ih (fun bill hmem => hbills bill (List.mem_cons_of_mem _ hmem)) result
    unfold postBills
    cases htoday : todayInTimezone env bill.timezone now with
    | error err => exact safeFrom_pause hF (hrest _)
    | ok today =>
      by_cases hb : bill.id = b
      · intro seen d hd
        obtain ⟨m, hm, hlags⟩ := hd bill (hbills bill (List.mem_cons_self ..)) hb
        dsimp only
        rw [hm]
        exact postPeriods_tiles hb htoday hF hrest _ m result seen d ⟨hd, hlags⟩
      · exact passes_postPeriods (fun _ _ _ _ => trivial) (dueRules_elsewhere hF hb) hrest

theorem postDueBills_tiles : Always (tilingProtocol env b) (.postDueBills now) (postDueBills env now) := by
  intro seen d
  unfold postDueBills
  split
  · trivial
  · next latest _ =>
    intro d' now' hr hi _
    refine postBills_tiles (fun _ hmem => hmem) {} _ d' fun bill hmem hb => ?_
    obtain ⟨⟨hrow, house, hhouse, hzone, -⟩, -⟩ := mem_dueBills.mp hmem
    rw [hb] at hrow
    obtain ⟨first, n, htiled⟩ := hi.2.tiled _ hrow
    exact ⟨n, htiled.nextRun, ⟨_, first, n, htiled, .refl _, htiled.le, le_refl n⟩, htiled.nextDue, house, hhouse,
      hzone.symm⟩

end worker

/-! ## Section 6: Runs -/

section runs

variable {s : HomiState} {cm : HomiCommit}

theorem tiling_safe (c : Call) : Always (tilingProtocol env b) c (route env c) := by
  have hpost : ∀ r d, (tilingProtocol env b).post c r d := fun _ _ => trivial
  cases c with
  | createExpense h u key input =>
    exact always_route hpost
      (keeps_tiling (fun _ => createExpense_unbilled) passive_unbilled.stable fun _ _ hB => hB)
  | editExpense e u key input =>
    exact always_route hpost
      (keeps_tiling (fun _ => editExpense_unbilled) passive_unbilled.stable fun _ _ hB => hB)
  | createBill h u key input =>
    exact always_route hpost (keeps_tiling (fun _ => createBill_opens) passive_opens.stable fun _ _ hB => hB)
  | postDueBills now => exact postDueBills_tiles
  | _ => exact fun seen d => safe_trivial (fun _ _ _ => trivial) hpost _ _ _ _

theorem Tiles.tick (h : Tiles b d) (k : ℕ) : Tiles b (tick k d) where
  unborn := h.unborn
  tiled t ht := by
    obtain ⟨first, n, htiled⟩ := h.tiled t ht
    exact ⟨first, n, htiled.stays (.tick k)⟩

theorem tiling_lawful : (tilingProtocol env b).Lawful (homi env) (KeptOn env b) fun _ _ => True where
  rely_refl tx d := .refl ((@switches_lawful env).rely_refl tx d)
  rely_trans tx x y z h h' :=
    h.trans h' ((@switches_lawful env).rely_trans tx x y z h.toTemplatesRely h'.toTemplatesRely)
  rely_tick tx k d hi :=
    { toTemplatesRely := (@switches_lawful env).rely_tick tx k d hi.1
      onward := (Stays.onward (Stays.tick k) fun _ _ hrow => hrow).tiles
      slot := fun _ _ _ _ h _ _ _ => h.row }
  inv_tick k d hi := ⟨(@switches_lawful env).inv_tick k d hi.1, hi.2.tick k⟩
  inv_init := by
    refine ⟨(@switches_lawful env).inv_init, ?_, ?_⟩
    · rintro - e row ⟨hrow, -⟩
      cases hrow
    · intro t ht
      cases ht
  inv_commit cm hk hi hg hheld :=
    ⟨(@switches_lawful env).inv_commit cm hk.toSwitching hi.1 hk.turns hheld, (hk.tileStep hi hg).inv hi.2⟩
  rely_commit cm tx hk hi hg hheld' hheld hcompat hapart :=
    { toTemplatesRely :=
        (@switches_lawful env).rely_commit cm tx hk.toSwitching hi.1 hk.turns hheld' hheld hcompat hapart
      onward := fun _ _ _ htiled => (hk.tileStep hi hg).onward htiled
      slot := fun _ _ _ _ htiled _ hkey hlock => (hk.tileStep hi hg).slot hcompat htiled hkey hlock }
  apart_empty _ := trivial
  start c d _ _ := tiling_safe c d d
  killed _ _ _ _ := trivial

/-- No commit writes the template switched off. -/
def KeepsOn (b : Uuid) (s : HomiState) (a : Action Call) : Prop :=
  ∀ cm, Commits s a cm → ∀ t, (b, some t) ∈ cm.tx.writes.billTemplates → t.active = true

theorem keptOn_run (h : Run (homi env) (KeepsOn b) s) : ∀ cm ∈ s.wal, KeptOn env b cm := by
  intro cm hcm
  have hs : HomiReachable env s := h.mono fun _ _ _ => trivial
  exact
    { toSound := sound_reachable hs cm hcm
      entered := ((templates_hold hs).commits cm hcm).2
      turns := ((switches_hold hs).commits cm hcm).2
      on := Run.commits (fun _ _ _ hok hc => hok _ hc) h cm hcm }

theorem tiling_holds (h : Run (homi env) (KeepsOn b) s) : (tilingProtocol env b).Holds s :=
  Protocol.sound tiling_lawful
    { allows := fun _ _ _ _ _ _ => trivial
      stops := fun _ _ _ _ _ => trivial
      apart := fun _ _ _ _ _ _ _ _ _ => trivial
      known := fun _ hs => keptOn_run hs } h

/-- The commit posts the next run of the template, which has come in the
    timezone of the house. -/
def PostsDue (env : Env) (b : Uuid) (cm : HomiCommit) (row : Expense) : Prop :=
  ∃ now t first n n' house today, cm.call = .postDueBills now ∧ Tiled cm.before b t first n ∧
    Tiled cm.after b { t with nextRun := isoOf n' } first n' ∧ NextDue t.cadence t.cadenceDay n n' ∧
    (∃ period, periodKey t.cadence (isoOf n) = .ok period ∧ row.period = some period) ∧
    cm.before.houses.lookup t.houseId = some house ∧ todayInTimezone env house.timezone now = .ok today ∧
    ¬ today < isoOf n

/-- The postings of a template that no commit switches off.

    * `tiles`: they are those of the due dates from the first one on that
      are before the next run, one for each.
    * `posts`: every one is made by a worker, for the next run, when that
      day has come.
    * `onward`: from commit to commit the next run never moves back. -/
structure Recurs (env : Env) (b : Uuid) (s : HomiState) : Prop where
  tiles : ∀ cm ∈ s.wal, cm.before.billTemplates.lookup b = none → ∀ t₀, cm.after.billTemplates.lookup b = some t₀ →
    ∃ first n t, t₀.nextRun = isoOf first ∧ Tiled s.db b t first n ∧ t.Follows t₀
  posts : ∀ cm ∈ s.wal, ∀ e row, IsPosting cm.after b e row → cm.before.expenses.lookup e = none →
    PostsDue env b cm row
  onward : s.wal.Pairwise fun cm cm' => ∀ t first n, Tiled cm.after b t first n →
    ∃ t' n', Tiled cm'.before b t' first n' ∧ n ≤ n'

theorem tileStep_run (h : Run (homi env) (KeepsOn b) s) : ∀ cm ∈ s.wal, TileStep env b cm := by
  intro cm hcm
  obtain ⟨hi, hg⟩ := (tiling_holds h).commits cm hcm
  exact (keptOn_run h cm hcm).tileStep hi hg

theorem Posts.due {now : Millis} {e : Uuid} {row : Expense} (h : Posts env b now cm.tx cm.before)
    (hcall : cm.call = .postDueBills now) (hposting : IsPosting cm.after b e row)
    (hnone : cm.before.expenses.lookup e = none) : PostsDue env b cm row := by
  obtain ⟨t, first, n, n', period, e', row', htiled, hread, hkey, hnext, htemplates, hexpenses, -, -, hperiod, -,
    house, today, hhouse, htoday, hcome⟩ := h.tile
  obtain ⟨t', first', m, m', period', htiled', hp, -⟩ := h.step
  obtain ⟨rfl, rfl⟩ := htiled'.unique htiled hp.readable
  have hsame : m' = n' := hp.next.unique hnext
  rw [hsame] at hp
  refine ⟨now, t, first, n, n', house, today, hcall, htiled, htiled.post hp, hnext, ⟨period, hkey, ?_⟩, hhouse, htoday,
    hcome⟩
  -- the row is the one that the commit writes
  rcases lookup_patch_cases hposting.1 with hold | hnew
  · rw [hnone] at hold
    cases hold
  · rw [show cm.tx.writes.expenses = [(e', some row')] from hexpenses] at hnew
    obtain ⟨rfl, heq⟩ := Prod.mk.inj (List.mem_singleton.mp hnew)
    cases heq
    exact hperiod

/-- Recurring bills are posted without a gap and without a double, whatever
    the workers do. -/
theorem recurring_bills (env : Env) (b : Uuid) (s : HomiState) (h : Run (homi env) (KeepsOn b) s) :
    Recurs env b s where
  tiles cm hcm hnone t₀ ht₀ := by
    cases tileStep_run h cm hcm with
    | stays hstays =>
      rw [hstays.template, hnone] at ht₀
      cases ht₀
    | opens t first _ hopen =>
      rw [hopen.row] at ht₀
      cases ht₀
      obtain ⟨t', n, htiled, -, hf⟩ := TilingRely.onward ((tiling_holds h).past cm hcm) t₀ first first hopen
      exact ⟨first, n, t', hopen.nextRun, htiled, hf⟩
    | posts now hcall hposts =>
      obtain ⟨t, first, n, n', period, htiled, -⟩ := hposts.step
      rw [htiled.row] at hnone
      cases hnone
  posts cm hcm e row hposting hnone := by
    cases tileStep_run h cm hcm with
    | stays hstays =>
      obtain ⟨old, hold, -⟩ := hstays.back e row hposting
      cases hnone.symm.trans hold.1
    | opens t first _ hopen =>
      -- a template that has just been created has no postings
      obtain ⟨period, hperiod⟩ := hopen.dated e row hposting
      obtain ⟨a, hfirst, ha, -⟩ :=
        (hopen.posted period).mp (hasPeriod_iff.mpr ⟨e, row, hposting.1, hposting.2, hperiod⟩)
      omega
    | posts now hcall hposts => exact hposts.due hcall hposting hnone
  onward := by
    refine (tiling_holds h).order.imp fun hr t first n htiled => ?_
    obtain ⟨t', n', htiled', hle, -⟩ := TilingRely.onward hr t first n htiled
    exact ⟨t', n', htiled', hle⟩

/-- The transaction of the process leaves the template on. -/
def leavesOn (b : Uuid) (s : HomiState) : Action Call → Bool
  | .run p _ => s.procs[p]?.all fun pr => pr.tx.writes.billTemplates.all fun w =>
      w.1 ≠ b || w.2.all BillTemplate.active
  | _ => true

theorem keepsOn_of_leavesOn (s : HomiState) (a : Action Call) (h : leavesOn b s a = true) : KeepsOn b s a := by
  rintro cm ⟨now, pr, next, rfl, hp, -, heq⟩ t hmem
  have hall : s.procs[cm.pid]?.all _ = true := h
  rw [hp, Option.all_some, List.all_eq_true] at hall
  rw [heq] at hmem
  have hrow := hall _ hmem
  simpa using hrow

/-- Two workers scan the bill thirty days later. The first posts two of the
    four Mondays, the second finds these and posts the others, and the first
    finds those. -/
def twoWorkers : List (Action Call) :=
  serial 1000 0 (opening ++ [(.createBill theHouse ann (sampleUuid 200) mondays, 11)]) ++
    [.start (.postDueBills (30 * 86400000)), .start (.postDueBills (30 * 86400000))] ++
    [.run 4 1000, .run 5 1000] ++ List.replicate 18 (.run 4 1000) ++ List.replicate 30 (.run 5 1000) ++
    List.replicate 12 (.run 4 1000)

theorem recurring_bills_twoWorkers : ∃ s : HomiState, s.db.expenses.rows.length = 4 ∧
    succeeded s 4 = true ∧ succeeded s 5 = true ∧ Recurs sampleEnv (sampleUuid 3) s := by
  obtain ⟨s, hrun, hs⟩ := Run.exists_of_driveIf (homi sampleEnv) (keepsOn_of_leavesOn (b := sampleUuid 3)) twoWorkers
    (fun s => s.db.expenses.rows.length = 4 && (succeeded s 4 && succeeded s 5)) (by decide +kernel)
  obtain ⟨hfour, hdone⟩ := Bool.and_eq_true_iff.mp hs
  obtain ⟨hfirst, hsecond⟩ := Bool.and_eq_true_iff.mp hdone
  exact ⟨s, of_decide_eq_true hfour, hfirst, hsecond, recurring_bills sampleEnv (sampleUuid 3) s hrun⟩

end runs

end Homi
