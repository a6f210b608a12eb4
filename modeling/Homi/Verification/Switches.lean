import Homi.Verification.Templates

/-! # Pauses and resumes

  The events of a bill template tell whether it is active. Both writers of
  the switch look at the row that they update: `setActive` under a lock on
  it, the worker in the condition of its `UPDATE`. So whoever turns the
  switch finds it the other way, and logs one event for the turn.

  The rows of the worker's scan may be stale. It does not matter: neither a
  posting nor an advance writes `active`, and a pause asks the database.
-/

namespace Homi

open ReadCommitted Protocol

/-! ## Section 1: A switch and its log -/

section switch

variable {E : Type} {turnOff turnOn : E} {log : List E} {on : Bool}

/-- A switch that starts on, after the turns in `log`. -/
inductive Switched (turnOff turnOn : E) : List E → Bool → Prop where
  | start : Switched turnOff turnOn [] true
  | off {log : List E} (h : Switched turnOff turnOn log true) : Switched turnOff turnOn (log ++ [turnOff]) false
  | on {log : List E} (h : Switched turnOff turnOn log false) : Switched turnOff turnOn (log ++ [turnOn]) true

theorem Switched.turn (h : Switched turnOff turnOn log (!on)) :
    Switched turnOff turnOn (log ++ [if on then turnOn else turnOff]) on := by
  cases on with
  | true => exact .on h
  | false => exact .off h

theorem Switched.length (h : Switched turnOff turnOn log on) : log.length % 2 = if on then 0 else 1 := by
  induction h with
  | start => rfl
  | off h ih =>
    rw [List.length_append, List.length_singleton]
    simp only [if_true] at ih
    simp only [Bool.false_eq_true, if_false]
    omega
  | on h ih =>
    rw [List.length_append, List.length_singleton]
    simp only [Bool.false_eq_true, if_false] at ih
    simp only [if_true]
    omega

/-- The turns alternate, and the first is off. -/
theorem Switched.alternates (h : Switched turnOff turnOn log on) :
    ∀ i e, log[i]? = some e → e = if i % 2 = 0 then turnOff else turnOn := by
  -- a turn at the end has the parity of what came before
  have hnext : ∀ {log : List E} {e' : E}, (∀ i e, log[i]? = some e → e = if i % 2 = 0 then turnOff else turnOn) →
      e' = (if log.length % 2 = 0 then turnOff else turnOn) →
      ∀ i e, (log ++ [e'])[i]? = some e → e = if i % 2 = 0 then turnOff else turnOn := by
    intro log e' hlog he' i e hi
    by_cases hlt : i < log.length
    · rw [List.getElem?_append_left hlt] at hi
      exact hlog i e hi
    · rw [List.getElem?_append_right (not_lt.mp hlt)] at hi
      cases hafter : i - log.length with
      | zero =>
        rw [hafter] at hi
        cases hi
        obtain rfl : i = log.length := by omega
        exact he'
      | succ k =>
        rw [hafter] at hi
        cases hi
  induction h with
  | start =>
    intro i e hi
    cases hi
  | off h ih =>
    apply hnext ih
    rw [if_pos]
    exact h.length
  | on h ih =>
    apply hnext ih
    rw [if_neg]
    have hlength := h.length
    simp only [Bool.false_eq_true, if_false] at hlength
    omega

/-- The switch is off after a turn off, and only then. -/
theorem Switched.last (h : Switched turnOff turnOn log on) (hne : turnOff ≠ turnOn) :
    on = false ↔ log.getLast? = some turnOff := by
  cases h with
  | start => simp
  | off h => simp
  | on h => simp [hne.symm]

end switch

/-! ## Section 2: Templates and their events -/

/-- The pauses and resumes of a template among `events`. -/
def turns (events : List ActivityEvent) (b : Uuid) : List EventType :=
  (events.filter fun e => (e.type = .billPaused ∨ e.type = .billResumed) ∧ e.entityId = b).map ActivityEvent.type

/-- Whether the template is active. One that is not there yet will be. -/
def switchOf (d : Db) (b : Uuid) : Bool := (d.billTemplates.lookup b).elim true BillTemplate.active

/-- The events of every template tell its switch. -/
def Switches (d : Db) : Prop :=
  ∀ b, Switched .billPaused .billResumed (turns d.activityEvents b) (switchOf d b)

/-- The event of a turn to `active`. -/
def turnEvent (active : Bool) : EventType := if active then .billResumed else .billPaused

/-- No turn is logged, and no switch is written. -/
structure Steady (tx : DbTx) (d : Db) : Prop where
  entries : ∀ b o, (b, o) ∈ tx.writes.billTemplates → o.elim true BillTemplate.active = switchOf d b
  events : ∀ e ∈ tx.writes.activityEvents, e.type ≠ .billPaused ∧ e.type ≠ .billResumed

/-- One switch is turned to `active`, and nothing else is written but the
    event. -/
structure Turns (b : Uuid) (active : Bool) (tx : DbTx) (d : Db) : Prop where
  row : ∃ t, d.billTemplates.lookup b = some t ∧ t.active = !active
  writes : ∃ t e, tx.writes = { billTemplates := [(b, some t)], activityEvents := [e] } ∧ t.active = active ∧
    e.type = turnEvent active ∧ e.entityId = b

section rows

variable {d : Db} {tx : DbTx} {b : Uuid} {active : Bool} {events events' : List ActivityEvent}

theorem turns_append : turns (events ++ events') b = turns events b ++ turns events' b := by
  simp [turns]

theorem turns_none (h : ∀ e ∈ events, e.type ≠ .billPaused ∧ e.type ≠ .billResumed) : turns events b = [] := by
  unfold turns
  rw [List.filter_eq_nil_iff.mpr, List.map_nil]
  intro e he
  simp [h e he]

theorem turns_other (h : ∀ e ∈ events, e.entityId ≠ b) : turns events b = [] := by
  unfold turns
  rw [List.filter_eq_nil_iff.mpr, List.map_nil]
  intro e he
  simp [h e he]

theorem turns_turn {e : ActivityEvent} (htype : e.type = turnEvent active) (hid : e.entityId = b) :
    turns [e] b = [turnEvent active] := by
  have hturn : e.type = .billPaused ∨ e.type = .billResumed := by
    rw [htype]
    cases active with
    | true => exact Or.inr rfl
    | false => exact Or.inl rfl
  rw [turns, List.filter_cons_of_pos (by simpa [hid] using hturn), List.filter_nil, List.map_singleton, htype]

/-- What a transaction makes of a switch. -/
theorem switchOf_apply : switchOf (tx.commit d) b =
    ((Table.lastEdit tx.writes.billTemplates b).getD (d.billTemplates.lookup b)).elim true BillTemplate.active := by
  show ((d.billTemplates.patch tx.writes.billTemplates).lookup b).elim true BillTemplate.active = _
  rw [Table.lookup_patch]

theorem Steady.kept (h : Steady tx d) : switchOf (tx.commit d) b = switchOf d b := by
  rw [switchOf_apply]
  cases hedit : Table.lastEdit tx.writes.billTemplates b with
  | none => rfl
  | some o => exact h.entries b o (Table.mem_of_lastEdit hedit)

theorem Steady.commit (h : Steady tx d) (hd : Switches d) : Switches (tx.commit d) := by
  intro b
  have hevents : turns (tx.commit d).activityEvents b = turns d.activityEvents b := by
    show turns (d.activityEvents ++ tx.writes.activityEvents) b = _
    rw [turns_append, turns_none h.events, List.append_nil]
  rw [hevents, h.kept]
  exact hd b

/-- The template is turned, all others are left alone. -/
theorem Turns.commit (h : Turns b active tx d) (hd : Switches d) : Switches (tx.commit d) := by
  obtain ⟨t₀, hrow, hbefore⟩ := h.row
  obtain ⟨t, e, hwrites, hafter, htype, hid⟩ := h.writes
  intro b'
  have hevents : turns (tx.commit d).activityEvents b' = turns d.activityEvents b' ++ turns [e] b' := by
    show turns (d.activityEvents ++ tx.writes.activityEvents) b' = _
    rw [turns_append, hwrites]
  -- the switch of this template is the new one
  have hon : switchOf (tx.commit d) b' = if b' = b then active else switchOf d b' := by
    rw [switchOf_apply, hwrites]
    by_cases hb : b' = b
    · subst hb
      rw [if_pos rfl]
      simp [Table.lastEdit, hafter]
    · rw [if_neg hb]
      simp [Table.lastEdit, Ne.symm hb, switchOf]
  rw [hevents, hon]
  by_cases hb : b' = b
  · subst hb
    have hold : Switched .billPaused .billResumed (turns d.activityEvents b') (!active) := by
      have hsame : switchOf d b' = !active := by
        rw [switchOf, hrow]
        exact hbefore
      rw [← hsame]
      exact hd b'
    rw [if_pos rfl, turns_turn htype hid]
    exact hold.turn
  · have hother : turns [e] b' = [] := by
      apply turns_other
      intro e' he'
      rw [List.mem_singleton.mp he', hid]
      exact Ne.symm hb
    rw [if_neg hb, hother, List.append_nil]
    exact hd b'

end rows

/-! ## Section 3: The protocol -/

/-- What a commit of the worker does. Only the last of the four turns a
    switch; a pause that finds its template paused is one of the first. -/
inductive WorkerCommit (tx : DbTx) (d : Db) : Prop where
  | nothing (h : tx.writes = {})
  | advance (b : Uuid) (t : BillTemplate) (nextRun : JsString) (hrow : d.billTemplates.lookup b = some t)
      (h : tx.writes = { billTemplates := [(b, some { t with nextRun := nextRun })] })
  | post (hposted : tx.writes.expenses ≠ []) (h : Steady tx d)
  | pause (b : Uuid) (h : Turns b false tx d)

def SwitchGuar : Call → DbTx → Db → Prop
  | .setActive _ k _ active, tx, d =>
      (tx.writes = {} ∧ switchOf d (toUuid k) = active) ∨ Turns (toUuid k) active tx d
  | .postDueBills _, tx, d => WorkerCommit tx d
  | _, tx, d => Steady tx d

def switchesProtocol (env : Env) : DbProtocol where
  inv d := (templatesProtocol env).inv d ∧ Switches d
  rely := TemplatesRely
  guar c _ tx d := c.writesBills = true → SwitchGuar c tx d
  post _ _ _ := True
  allows _ _ _ _ _ := True
  stops _ _ := True

section guarantees

variable {env : Env} {c : Call} {d : Db} {tx : DbTx} {b : Uuid}

theorem steady_nothing (h : tx.writes = {}) : Steady tx d where
  entries b o hmem := by
    rw [h] at hmem
    cases hmem
  events e he := by
    rw [h] at he
    cases he

/-- A commit is steady, or turns one switch. -/
theorem SwitchGuar.cases (h : SwitchGuar c tx d) : Steady tx d ∨ ∃ b active, Turns b active tx d := by
  cases c with
  | setActive k b u active =>
    rcases h with ⟨hnothing, -⟩ | hturn
    · exact Or.inl (steady_nothing hnothing)
    · exact Or.inr ⟨_, _, hturn⟩
  | postDueBills now =>
    cases h with
    | nothing h => exact Or.inl (steady_nothing h)
    | advance b t nextRun hrow h =>
      -- the next run moves, the switch does not
      refine Or.inl ⟨?_, ?_⟩
      · intro b' o hmem
        rw [h] at hmem
        obtain ⟨rfl, rfl⟩ := Prod.mk.inj (List.mem_singleton.mp hmem)
        rw [switchOf, hrow]
        rfl
      · intro e he
        rw [h] at he
        cases he
    | post _ h => exact Or.inl h
    | pause b h => exact Or.inr ⟨_, _, h⟩
  | _ => exact Or.inl h

theorem not_turn_of_events (hw : c.writesBills ≠ true) :
    EventType.billPaused ∉ c.events ∧ EventType.billResumed ∉ c.events := by
  cases c with
  | createBill h u key input => exact absurd rfl hw
  | setActive h b u active => exact absurd rfl hw
  | postDueBills now => exact absurd rfl hw
  | _ => simp [Call.events, acceptEvents]

/-- The calls that write no templates log no turns either. -/
theorem Known.steady {cm : HomiCommit} (h : Known env cm) (hw : cm.call.writesBills ≠ true) :
    Steady cm.tx cm.before := by
  refine ⟨?_, ?_⟩
  · intro b o hmem
    have hspares : cm.tx.writes.Spares .billTemplates := by
      refine h.within.tables _ ?_
      cases hc : cm.call <;> simp_all [Call.writesBills, Call.tables]
    rw [show cm.tx.writes.billTemplates = [] from hspares] at hmem
    cases hmem
  · intro e he
    obtain ⟨hpaused, hresumed⟩ := not_turn_of_events hw
    have htype := h.within.events e he
    constructor
    · intro heq
      exact hpaused (heq ▸ htype)
    · intro heq
      exact hresumed (heq ▸ htype)

end guarantees

/-! ## Section 4: Transactions -/

section transactions

variable {env : Env} {c : Call} {d d' : Db} {tx : DbTx} {b : Uuid} {o : Option BillTemplate}

/-- The effect does not touch templates, and logs no turn. -/
def Writes.Calm (w : Writes) : Prop :=
  w.billTemplates = [] ∧ ∀ e ∈ w.activityEvents, e.type ≠ .billPaused ∧ e.type ≠ .billResumed

theorem calm_nothing : Writes.Calm {} := ⟨rfl, fun e he => by cases he⟩

theorem calm_event {event : ActivityInput} (h : event.type ≠ .billPaused ∧ event.type ≠ .billResumed) :
    Writes.Calm { activityEvents := [event.row] } := by
  refine ⟨rfl, ?_⟩
  intro e he
  rw [List.mem_singleton.mp he]
  exact h

/-- Nobody else touches a template that the transaction writes. -/
theorem TemplatesRely.row (h : TemplatesRely tx d d') (hmem : (b, o) ∈ tx.writes.billTemplates) :
    d'.billTemplates.lookup b = d.billTemplates.lookup b := by
  have hown : tx.Owns (.template b) :=
    Or.inl (Writes.mem_written.mpr (List.mem_map.mpr ⟨(b, o), hmem, rfl⟩))
  exact h.toRejectsRely.ledger.frame _ hown.holds

theorem TemplatesRely.one (h : TemplatesRely tx d d') (hwrites : tx.writes.billTemplates = [(b, o)]) :
    d'.billTemplates.lookup b = d.billTemplates.lookup b := by
  apply h.row (o := o)
  rw [hwrites]
  exact List.mem_cons_self ..

theorem Steady.add (h : Steady tx d) {e : Effect Writes LockKey Note}
    (hentries : ∀ b o, (b, o) ∈ e.writes.billTemplates → o.elim true BillTemplate.active = switchOf d b)
    (hevents : ∀ ev ∈ e.writes.activityEvents, ev.type ≠ .billPaused ∧ ev.type ≠ .billResumed) :
    Steady (tx.add e) (tick e.ids d) where
  entries b o hmem := by
    rcases List.mem_append.mp hmem with hold | hnew
    · exact h.entries b o hold
    · exact hentries b o hnew
  events e' he := by
    rcases List.mem_append.mp he with hold | hnew
    · exact h.events e' hold
    · exact hevents e' hnew

theorem passive_steady : (switchesProtocol env).Passive Writes.Calm Steady where
  stable := by
    intro tx d d' hr _ h
    refine ⟨?_, h.events⟩
    intro b o hmem
    rw [switchOf, TemplatesRely.row hr hmem]
    exact h.entries b o hmem
  step := by
    intro tx d e hcalm h
    apply h.add
    · intro b o hmem
      rw [hcalm.1] at hmem
      cases hmem
    · exact hcalm.2

theorem passive_posted : (switchesProtocol env).Passive (fun _ => True) fun tx _ => tx.writes.expenses ≠ [] := by
  refine ⟨fun _ _ _ _ _ h => h, ?_⟩
  intro tx d e _ h
  exact List.append_ne_nil_of_left_ne_nil h _

theorem passive_of_templates {q : Writes → Prop} {A : DbTx → Db → Prop} (h : (templatesProtocol env).Passive q A) :
    (switchesProtocol env).Passive q A :=
  ⟨fun tx d d' hr hi hA => h.stable tx d d' hr hi.1 hA, h.step⟩

theorem triple_of_templates {α : Type} {A : DbTx → Db → Prop} {m : DbTxn α} {B : α → DbTx → Db → Prop}
    (h : (templatesProtocol env).Triple A m B) : (switchesProtocol env).Triple A m B :=
  triple_transfer (P := templatesProtocol env) (fun _ _ _ hr => hr) (fun _ hi => hi.1) h

/-- A posting moves its template on, whether that is active or not. -/
theorem advanceBill_steady {nextRun : JsString} {matching : BillTemplate → Bool} :
    (switchesProtocol env).Triple Steady (advanceBill b nextRun matching) fun _ => Steady := by
  refine triple_exec passive_steady.stable fun tx d now a h _ _ => h.add ?_ fun e he => (by cases he)
  intro b' o hmem
  dsimp only at hmem
  split at hmem
  · next t ht =>
    obtain ⟨rfl, rfl⟩ := Prod.mk.inj (List.mem_singleton.mp hmem)
    have hrow := Option.eq_some_of_filter_eq_some ht
    -- the row that the statement sees has the switch of the database
    have hsame : switchOf (DbTx.commit tx d) b' = switchOf d b' := h.kept
    rw [← hsame, switchOf, show (DbTx.commit tx d).billTemplates.lookup b' = some t from hrow]
    rfl
  · cases hmem

theorem postOneTx_posts {bill : DueBill} {period nextRun : JsString} :
    (switchesProtocol env).Triple Steady (postOneTx env bill period nextRun)
      fun _ tx d => Steady tx d ∧ tx.writes.expenses ≠ [] := by
  have hq := @passive_steady env
  refine triple_bind (triple_passive hq (only_begin calm_nothing)) fun startedAt => ?_
  refine triple_bind (triple_passive hq (only_lockActiveMembers calm_nothing)) fun members => ?_
  refine triple_bind (triple_passive hq only_reject) fun _ => ?_
  refine triple_bind (triple_passive hq only_reject) fun _ => ?_
  refine triple_bind (triple_passive hq (only_resolveSplits calm_nothing)) fun splits => ?_
  have hboth := hq.and (passive_posted.mono fun w (_ : w.Calm) => trivial)
  refine triple_bind (B := fun _ tx d => Steady tx d ∧ tx.writes.expenses ≠ []) ?_ fun r => ?_
  · refine triple_bind (B := fun _ tx d => Steady tx d ∧ tx.writes.expenses ≠ []) ?_ fun id => ?_
    · refine triple_exec hq.stable fun tx d now id h _ _ => ⟨?_, ?_⟩
      · exact h.add (fun b o hmem => by cases hmem) fun e he => by cases he
      · exact List.append_ne_nil_of_right_ne_nil _ (List.cons_ne_nil _ _)
    · exact triple_bind (triple_passive hboth (only_insertSplits fun _ => ⟨rfl, fun e he => by cases he⟩))
        fun _ => triple_pure fun _ _ hA => hA
  · refine triple_bind (triple_passive hboth (only_insertEvent (calm_event ⟨nofun, nofun⟩))) fun _ => ?_
    have hposted := triple_passive (@passive_posted env)
      (Txn.only_true (advanceBill bill.id nextRun fun _ => true))
    exact triple_bind (triple_and advanceBill_steady hposted) fun _ => triple_pure fun _ _ hA => hA

/-- The row is written, and its event is logged. -/
theorem turns_of_event {t t' : BillTemplate} {active : Bool} {event : ActivityInput}
    (hrow : d.billTemplates.lookup b = some t) (hbefore : t.active = !active)
    (hwrites : tx.writes = { billTemplates := [(b, some t')] }) (hafter : t'.active = active)
    (htype : event.type = turnEvent active) (hid : toUuid event.entityId = b) :
    Turns b active (tx.add { writes := { activityEvents := [event.row] } }) d := by
  refine ⟨⟨t, hrow, hbefore⟩, t', event.row, ?_, hafter, htype, hid⟩
  rw [Tx.add_writes, hwrites]
  rfl

/-- An advance past a period that was posted before. -/
theorem advanceBill_advances {nextRun : JsString} {matching : BillTemplate → Bool} :
    (switchesProtocol env).Triple (fun tx _ => tx.writes.Blank) (advanceBill b nextRun matching)
      fun _ tx d => tx.writes = {} ∨ ∃ t, d.billTemplates.lookup b = some t ∧
        tx.writes = { billTemplates := [(b, some { t with nextRun := nextRun })] } := by
  refine triple_exec (stable_const _) fun tx d now a hblank _ _ => ?_
  rw [Tx.add_writes, show tx.writes = {} from hblank, view_blank hblank]
  dsimp only
  cases ht : (d.billTemplates.lookup b).filter matching with
  | none => exact Or.inl rfl
  | some t => exact Or.inr ⟨t, Option.eq_some_of_filter_eq_some ht, rfl⟩

/-- The `UPDATE` of a pause finds an active template, or nothing at all is
    done. -/
theorem pauseTx_pauses (bill : DueBill) (reason : JsString) :
    (switchesProtocol env).Triple (fun tx _ => tx.writes = {}) (pauseTx bill reason)
      fun updated tx d => if updated then Turns bill.id false tx d else tx.writes = {} := by
  refine triple_bind (B := fun updated tx d => if updated then
    ∃ t, d.billTemplates.lookup bill.id = some t ∧ t.active = true ∧
      tx.writes = { billTemplates := [(bill.id, some { t with active := false })] }
    else tx.writes = {}) ?_ fun updated => ?_
  · refine triple_exec (stable_const _) fun tx d now updated hblank _ hres => ?_
    rw [Tx.add_writes, show tx.writes = {} from hblank]
    rw [view_blank hblank] at hres ⊢
    cases hres
    dsimp only
    cases hrow : d.billTemplates.lookup bill.id with
    | none => rfl
    | some t =>
      by_cases hactive : t.active = true
      · simp only [Option.any_some, hactive, if_true, Option.filter_some]
        exact ⟨t, rfl, hactive, rfl⟩
      · rw [Bool.not_eq_true] at hactive
        simp only [Option.any_some, hactive, Bool.false_eq_true, if_false, Option.filter_some]
        rfl
  · cases updated with
    | false => exact triple_pure fun tx d hA => hA
    | true =>
      refine triple_bind (B := fun _ => Turns bill.id false) ?_ fun _ => triple_pure fun _ _ hA => hA
      refine triple_exec ?_ fun tx d now a hA hi _ => ?_
      · rintro tx d d' hr _ ⟨t, hrow, hactive, hwrites⟩
        have hsame : d'.billTemplates.lookup bill.id = d.billTemplates.lookup bill.id :=
          TemplatesRely.one hr (by rw [hwrites])
        exact ⟨t, hsame.trans hrow, hactive, hwrites⟩
      · obtain ⟨t, hrow, hactive, hwrites⟩ := hA
        -- the ids of templates are canonical
        obtain ⟨n, -, hid⟩ := hi.1.2.ids _ _ hrow
        have hcanonical : toUuid bill.id = bill.id := by
          rw [hid]
          exact env.toUuid_uuid n
        exact turns_of_event hrow hactive hwrites rfl rfl hcanonical

variable {h k : JsString} {u : Uuid} {id : KeyId} {hash : JsString} {startedAt : Millis}

theorem createBillTx_steady {input : CreateBillInput} :
    (switchesProtocol env).Triple (fun tx _ => tx.writes.Blank)
      (createBillTx env h u input (store id hash) startedAt) fun _ => Steady := by
  have hblank := passive_of_templates (passive_of_rejects (@passive_blank env))
  refine triple_bind (triple_passive hblank (only_selectHouse (p := Writes.Blank) rfl)) fun house => ?_
  refine triple_bind (triple_passive hblank
    (Txn.only_mapError (only_lockActingMember (p := Writes.Blank) rfl))) fun _ => ?_
  refine triple_bind (triple_passive hblank (only_clock (p := Writes.Blank) rfl)) fun now => ?_
  refine triple_bind (triple_passive hblank only_liftSchedule) fun nextRun => ?_
  refine triple_bind (B := fun _ => Steady) ?_ fun bill => ?_
  · refine triple_exec hblank.stable fun tx d now a hnothing hi _ => ?_
    refine (steady_nothing hnothing).add ?_ fun e he => by cases he
    intro b o hmem
    obtain ⟨rfl, rfl⟩ := Prod.mk.inj (List.mem_singleton.mp hmem)
    -- nobody has the new id
    rw [view_blank hnothing, switchOf]
    cases hrow : d.billTemplates.lookup (env.uuid d.fresh) with
    | none => rfl
    | some t =>
      obtain ⟨n, hn, hid⟩ := hi.1.2.ids _ _ hrow
      exact absurd (env.uuid_inj hid) hn.ne'
  · refine triple_bind (triple_passive passive_steady (only_log (calm_event ⟨nofun, nofun⟩))) fun event => ?_
    refine triple_bind (triple_passive passive_steady ?_) fun _ => triple_pure fun _ _ hA => hA
    exact only_store fun _ => ⟨rfl, fun e he => by cases he⟩

/-- The row that `setActive` locks has the other switch, or nothing at all
    is done. -/
theorem setActiveTx_turns {active : Bool} :
    (switchesProtocol env).Triple (fun tx _ => tx.writes.Blank) (setActiveTx env h k u active startedAt)
      fun _ tx d => (tx.writes = {} ∧ ∃ t, BillLocked (toUuid k) t tx d ∧ t.active = active) ∨
        Turns (toUuid k) active tx d := by
  refine triple_bind (triple_of_templates (triple_of_rejects triple_lockBill)) fun bill => ?_
  have hkeep := passive_of_templates
    (passive_of_rejects ((@passive_blank env).and (@passive_billLocked env bill (toUuid k))))
  refine triple_bind (B := fun _ tx d => tx.writes.Blank ∧ BillLocked (toUuid k) bill tx d) ?_ fun role => ?_
  · exact triple_weaken (triple_passive hkeep (Txn.only_select (p := Writes.Blank) rfl))
      (fun _ _ hA => ⟨hA.1, hA.2.1⟩) fun _ _ _ hB => hB
  refine triple_bind (triple_passive hkeep only_reject) fun _ => ?_
  -- the row is locked, so it stays what it was found to be
  by_cases hsame : bill.active = active
  · rw [if_pos hsame]
    exact triple_pure fun tx d hA => Or.inl ⟨hA.1, bill, hA.2, hsame⟩
  rw [if_neg hsame]
  refine triple_bind (triple_passive hkeep (only_resumedNextRun (p := Writes.Blank) rfl)) fun nextRun => ?_
  refine triple_bind (B := fun _ tx d => d.billTemplates.lookup (toUuid k) = some bill ∧
    tx.writes = { billTemplates := [(toUuid k, some { bill with active := active, nextRun := nextRun })] })
    ?_ fun updated => ?_
  · refine triple_exec hkeep.stable fun tx d now a hA _ _ => ⟨hA.2.2, ?_⟩
    rw [Tx.add_writes, show tx.writes = {} from hA.1]
    rfl
  refine triple_bind (B := fun _ => Turns (toUuid k) active) ?_ fun event =>
    triple_pure fun _ _ hA => Or.inr hA
  refine triple_exec ?_ fun tx d now a hA _ _ => ?_
  · rintro tx d d' hr _ ⟨hrow, hwrites⟩
    have hsame : d'.billTemplates.lookup (toUuid k) = d.billTemplates.lookup (toUuid k) :=
      TemplatesRely.one hr (by rw [hwrites])
    exact ⟨hsame.trans hrow, hwrites⟩
  · obtain ⟨hrow, hwrites⟩ := hA
    -- the switch was the other one
    have hother : bill.active = !active := by
      cases hb : bill.active <;> cases active <;> simp_all
    refine turns_of_event hrow hother hwrites rfl ?_ rfl
    cases active <;> rfl

end transactions

/-! ## Section 5: Runs -/

section runs

variable {env : Env} {c : Call} {d : Db} {tx : DbTx} {b : Uuid} {α : Type} {s : HomiState}

theorem stable_turns {active : Bool} : (switchesProtocol env).Stable (Turns b active) := by
  intro tx d d' hr _ h
  obtain ⟨t, e, hwrites, -⟩ := h.writes
  refine ⟨?_, h.writes⟩
  have hsame : d'.billTemplates.lookup b = d.billTemplates.lookup b :=
    TemplatesRely.one hr (by rw [hwrites])
  rw [hsame]
  exact h.row

/-- A transaction of a call, from its triple. -/
theorem keeps_switches {m : DbTxn α} {B : α → DbTx → Db → Prop}
    (h : (switchesProtocol env).Triple (fun tx _ => tx.writes.Blank) m B)
    (hB : ∀ a, (switchesProtocol env).Stable (B a)) (hguar : ∀ a tx d, B a tx d → SwitchGuar c tx d) :
    Keeps (switchesProtocol env) c m := by
  intro next hnext seen d
  exact safe_of_triple h rfl hB (fun a tx d hA _ _ => hguar a tx d hA)
    (fun a _ _ _ _ => hnext (.ok a) _ _) fun e d => hnext (.error e) _ d

theorem triple_blank_begin {fn : Millis → DbTxn α} {B : DbTx → Db → Prop}
    (h : ∀ startedAt, (switchesProtocol env).Triple (fun tx _ => tx.writes.Blank) (fn startedAt) fun _ => B) :
    (switchesProtocol env).Triple (fun tx _ => tx.writes.Blank) (begin >>= fn) fun _ => B :=
  triple_bind (triple_begin (stable_const _)) h

theorem switches_keepsAll (hw : c.writesBills = true) : KeepsAll (switchesProtocol env) env c := by
  cases c with
  | createBill h u key input =>
    exact keeps_switches (triple_blank_begin fun _ => createBillTx_steady) (fun _ => passive_steady.stable)
      fun _ _ _ hB => hB
  | setActive h k u active =>
    refine keeps_switches (triple_blank_begin fun _ => setActiveTx_turns) ?_ ?_
    · intro _ tx d d' hr hi hB
      -- the row is locked: set to the same value, or turned
      rcases hB with ⟨hnothing, t, hlocked, hsame⟩ | hturn
      · have hkeep := passive_of_templates (passive_of_rejects (@passive_billLocked env t (toUuid k)))
        exact Or.inl ⟨hnothing, t, hkeep.stable tx d d' hr hi hlocked, hsame⟩
      · exact Or.inr (stable_turns tx d d' hr hi hturn)
    · intro _ tx d hB
      refine hB.imp_left ?_
      rintro ⟨hnothing, t, hlocked, hsame⟩
      refine ⟨hnothing, ?_⟩
      rw [switchOf, hlocked.2]
      exact hsame
  | postDueBills now =>
    refine ⟨?_, ?_, ?_⟩
    · -- a posting moves the template on
      intro bill period nextRun
      refine keeps_switches (triple_weaken postOneTx_posts (fun _ _ hA => steady_nothing hA) fun _ _ _ hB => hB)
        (fun _ => passive_steady.stable.and (stable_const _)) fun _ _ _ hB => .post hB.2 hB.1
    · -- a period that was taken does so too
      intro id nextRun matching
      refine keeps_switches advanceBill_advances ?_ ?_
      · intro _ tx d d' hr _ hB
        refine hB.imp_right ?_
        rintro ⟨t, hrow, hwrites⟩
        refine ⟨t, ?_, hwrites⟩
        rw [TemplatesRely.one hr (by rw [hwrites])]
        exact hrow
      · intro _ tx d hB
        rcases hB with hnothing | ⟨t, hrow, hwrites⟩
        · exact .nothing hnothing
        · exact .advance id t nextRun hrow hwrites
    · -- a pause turns the switch, unless it was off
      intro bill reason
      refine keeps_switches (pauseTx_pauses bill reason) ?_ ?_
      · intro updated tx d d' hr hi hB
        cases updated with
        | true => exact stable_turns tx d d' hr hi hB
        | false => exact hB
      · intro updated tx d hB
        cases updated with
        | true => exact .pause bill.id hB
        | false => exact .nothing hB
  | _ => cases hw

theorem switches_safe (c : Call) : Always (switchesProtocol env) c (route env c) := by
  have hpost : ∀ r d, (switchesProtocol env).post c r d := fun _ _ => trivial
  by_cases hw : c.writesBills = true
  · exact always_route hpost (switches_keepsAll hw)
  · exact fun seen d => safe_trivial (fun _ _ _ hno => absurd hno hw) hpost _ _ _ _

/-- What is known of every commit, with what it does to templates. -/
structure Switching (env : Env) (cm : HomiCommit) : Prop extends Sound env cm where
  entered : cm.call.writesBills = true → Entered env cm.tx cm.before

theorem switches_lawful :
    (switchesProtocol env).Lawful (homi env) (Switching env) fun _ _ => True where
  rely_refl := (@templates_lawful env).rely_refl
  rely_trans := (@templates_lawful env).rely_trans
  rely_tick tx n d hi := (@templates_lawful env).rely_tick tx n d hi.1
  inv_tick n d hi := ⟨(@templates_lawful env).inv_tick n d hi.1, hi.2⟩
  inv_init := by
    refine ⟨(@templates_lawful env).inv_init, ?_⟩
    intro b
    exact .start
  inv_commit cm hk hi hg hheld := by
    refine ⟨(@templates_lawful env).inv_commit cm hk.toSound hi.1 hk.entered hheld, ?_⟩
    by_cases hw : cm.call.writesBills = true
    · rcases (hg hw).cases with hsteady | ⟨b, active, hturn⟩
      · exact hsteady.commit hi.2
      · exact hturn.commit hi.2
    · exact (hk.known.steady hw).commit hi.2
  rely_commit cm tx hk hi hg hheld' hheld hcompat hapart :=
    (@templates_lawful env).rely_commit cm tx hk.toSound hi.1 hk.entered hheld' hheld hcompat hapart
  apart_empty _ := trivial
  start c d _ _ := switches_safe c d d
  killed _ _ _ _ := trivial

theorem switches_hold (h : HomiReachable env s) : (switchesProtocol env).Holds s :=
  Protocol.sound switches_lawful
    { allows := fun _ _ _ _ _ _ => trivial
      stops := fun _ _ _ _ _ => trivial
      apart := fun _ _ _ _ _ _ _ _ _ => trivial
      known := fun _ hs cm hcm =>
        ⟨sound_reachable hs cm hcm, ((templates_hold hs).commits cm hcm).2⟩ } h

/-- The events of the database are those of the commits, in their order. -/
theorem events_of_commits (h : HomiReachable env s) :
    s.db.activityEvents = s.wal.flatMap fun cm => cm.tx.writes.activityEvents := by
  induction h with
  | init => rfl
  | step a _ _ hstep ih =>
    cases moves_of_step hstep with
    | commit p now pr next hp hprog =>
      show _ ++ pr.tx.writes.activityEvents = _
      rw [ih, List.flatMap_append, List.flatMap_singleton]
    | _ => exact ih

end runs

/-- What the events of pauses and resumes tell, in every state of every run.

    * `order`: the events of a template are in the order of the commits.
    * `calls`: a call that finds the switch as it asks for commits nothing.
    * `pause`: whatever happens meanwhile, a pause whose `UPDATE` finds no
      active template has written nothing when it commits.
    * `worker`: a commit of the worker turns a switch that is on, or none. -/
structure PauseEvents (env : Env) (s : HomiState) : Prop where
  order : ∀ b, turns s.db.activityEvents b = s.wal.flatMap fun cm => turns cm.tx.writes.activityEvents b
  alternate : ∀ b t, s.db.billTemplates.lookup b = some t → ∀ i e,
    (turns s.db.activityEvents b)[i]? = some e → e = if i % 2 = 0 then .billPaused else .billResumed
  active : ∀ b t, s.db.billTemplates.lookup b = some t →
    (t.active = false ↔ (turns s.db.activityEvents b).getLast? = some .billPaused)
  calls : ∀ cm ∈ s.wal, ∀ h k u active t, cm.call = .setActive h k u active →
    cm.before.billTemplates.lookup (toUuid k) = some t → t.active = active → cm.tx.writes = {}
  pause : ∀ bill reason, (switchesProtocol env).Triple (fun tx _ => tx.writes = {}) (pauseTx bill reason)
    fun updated tx d => if updated then Turns bill.id false tx d else tx.writes = {}
  worker : ∀ cm ∈ s.wal, ∀ now, cm.call = .postDueBills now → WorkerCommit cm.tx cm.before

/-- Pauses and resumes alternate, whoever turns the switch. -/
theorem pause_events (env : Env) (s : HomiState) (hs : HomiReachable env s) : PauseEvents env s := by
  have hholds := switches_hold hs
  refine ⟨?_, ?_, ?_, ?_, pauseTx_pauses, ?_⟩
  · intro b
    -- events are what the commits have logged
    rw [events_of_commits hs]
    induction s.wal with
    | nil => rfl
    | cons cm wal ih => rw [List.flatMap_cons, List.flatMap_cons, turns_append, ih]
  · intro b t _
    exact (hholds.inv.2 b).alternates
  · intro b t hrow
    -- the row has the switch of the last event
    have hlast := (hholds.inv.2 b).last (nofun)
    rw [switchOf, hrow] at hlast
    exact hlast
  · intro cm hcm h k u active t hcall hrow hsame
    -- set to what it was, nothing is written
    have hguar := (hholds.commits cm hcm).2
    rw [hcall] at hguar
    rcases hguar rfl with ⟨hnothing, -⟩ | hturn
    · exact hnothing
    · obtain ⟨t', hrow', hother⟩ := hturn.row
      rw [hrow] at hrow'
      cases hrow'
      rw [hsame] at hother
      cases active <;> cases hother
  · intro cm hcm now hcall
    have hguar := (hholds.commits cm hcm).2
    rw [hcall] at hguar
    exact hguar rfl

/-- The worker scans a bill that cannot be split. `ann` pauses it before the
    worker does, and resumes it later. -/
def pausedTwice : List (Action Call) :=
  serial 1000 0 (opening ++ [(.createBill theHouse ann (sampleUuid 200) { mondays with splitMode := .room_weighted }, 11)]) ++
    [.start (.postDueBills (30 * 86400000)), .start (.setActive theHouse (sampleUuid 3) ann false)] ++
    List.replicate 3 (.run 4 1000) ++ List.replicate 8 (.run 5 1000) ++ List.replicate 3 (.run 4 1000) ++
    serial 1000 6 [(.setActive theHouse (sampleUuid 3) ann true, 10)]

theorem pause_events_pausedTwice : ∃ s : HomiState,
    turns s.db.activityEvents (sampleUuid 3) = [.billPaused, .billResumed] ∧ PauseEvents sampleEnv s := by
  obtain ⟨s, hrun, hs⟩ := Run.exists_of_drive (homi sampleEnv) pausedTwice
    (fun s => turns s.db.activityEvents (sampleUuid 3) = [.billPaused, .billResumed]) (by decide +kernel)
  exact ⟨s, of_decide_eq_true hs, pause_events sampleEnv s hrun⟩

end Homi
