import Homi.Verification.DueBills
import Homi.Verification.Switches

/-! # Tiles of a recurring bill

  A template that nobody switches off is posted once for every due date
  from its first one on, in order and without a gap, whatever the workers
  do: any number of them, each with the templates of an old scan, each
  stopped at any point.

  `Tiled` is the invariant. It ties the posted periods to the next run of
  the template, and the unique index ties every worker to it: a worker that
  lags behind finds its period taken, and the one that does not holds the
  entry of the index until its commit moves the next run.
-/

namespace Homi

open ReadCommitted Protocol Calendar

variable {env : Env} {d d' : Db} {tx : DbTx} {b e e' : Uuid} {t t' : BillTemplate}
  {row row' : Expense} {first n n' m : ℤ} {period : JsString}

/-! ## Section 1: Postings -/

/-- The expense is a posting of the template. -/
def IsPosting (d : Db) (b e : Uuid) (row : Expense) : Prop :=
  d.expenses.lookup e = some row ∧ row.templateId = some b

/-- The day is a due date of the template. -/
def BillTemplate.DueOn (t : BillTemplate) (a : ℤ) : Prop := IsDue t.cadence t.cadenceDay a

/-- The periods of the due dates from `first` on are posted, up to but not
    including the next run, and no other ones. -/
structure Tiled (d : Db) (b : Uuid) (t : BillTemplate) (first n : ℤ) : Prop where
  row : d.billTemplates.lookup b = some t
  active : t.active = true
  nextRun : t.nextRun = isoOf n
  firstDue : t.DueOn first
  nextDue : t.DueOn n
  le : first ≤ n
  readable : ∀ a, first ≤ a → a < n → t.DueOn a → Readable a
  posted : ∀ period, HasPeriod d b period ↔
    ∃ a, first ≤ a ∧ a < n ∧ t.DueOn a ∧ periodKey t.cadence (isoOf a) = .ok period
  dated : ∀ e row, IsPosting d b e row → ∃ period, row.period = some period
  once : ∀ e e' row row', IsPosting d b e row → IsPosting d b e' row' → row.period = row'.period → e = e'

/-- The template and the periods of its postings are the same in both. -/
structure Stays (b : Uuid) (d d' : Db) : Prop where
  template : d'.billTemplates.lookup b = d.billTemplates.lookup b
  back : ∀ e row', IsPosting d' b e row' → ∃ row, IsPosting d b e row ∧ row.period = row'.period
  kept : ∀ e row, IsPosting d b e row → ∃ row', IsPosting d' b e row' ∧ row'.period = row.period

theorem Stays.hasPeriod (h : Stays b d d') : HasPeriod d' b period ↔ HasPeriod d b period := by
  rw [hasPeriod_iff, hasPeriod_iff]
  constructor
  · rintro ⟨e, row', hrow', hb, hp⟩
    obtain ⟨row, hrow, hsame⟩ := h.back e row' ⟨hrow', hb⟩
    exact ⟨e, row, hrow.1, hrow.2, hsame.trans hp⟩
  · rintro ⟨e, row, hrow, hb, hp⟩
    obtain ⟨row', hrow', hsame⟩ := h.kept e row ⟨hrow, hb⟩
    exact ⟨e, row', hrow'.1, hrow'.2, hsame.trans hp⟩

theorem Tiled.stays (h : Tiled d b t first n) (hs : Stays b d d') : Tiled d' b t first n where
  row := hs.template.trans h.row
  active := h.active
  nextRun := h.nextRun
  firstDue := h.firstDue
  nextDue := h.nextDue
  le := h.le
  readable := h.readable
  posted period := hs.hasPeriod.trans (h.posted period)
  dated e row' hrow' := by
    obtain ⟨row, hrow, hsame⟩ := hs.back e row' hrow'
    rw [← hsame]
    exact h.dated e row hrow
  once e e' row row' hrow hrow' heq := by
    obtain ⟨old, hold, hsame⟩ := hs.back e row hrow
    obtain ⟨old', hold', hsame'⟩ := hs.back e' row' hrow'
    exact h.once e e' old old' hold hold' (hsame.trans (heq.trans hsame'.symm))

/-- The text of a readable day is that of no other day. -/
theorem isoOf_eq (hm : Readable m) (h : isoOf n = isoOf m) : n = m :=
  isoOf_inj (readable_of_text hm h) hm h

/-- The next run has one day, where the code can read it. -/
theorem Tiled.unique {first' : ℤ} (h : Tiled d b t first n) (h' : Tiled d b t' first' n')
    (hn : Readable n) : t' = t ∧ n' = n := by
  have hrow := h'.row
  rw [h.row] at hrow
  cases hrow
  refine ⟨rfl, isoOf_eq hn ?_⟩
  rw [← h.nextRun, h'.nextRun]

/-- A worker that lags behind finds its period posted. -/
theorem Tiled.behind (h : Tiled d b t first n) (hdue : t.DueOn m) (hfirst : first ≤ m)
    (hlt : m < n) (hp : periodKey t.cadence (isoOf m) = .ok period) : HasPeriod d b period :=
  (h.posted period).mpr ⟨m, hfirst, hlt, hdue, hp⟩

/-- And no other one does. -/
theorem Tiled.lt_of_posted (h : Tiled d b t first n) (hm : Readable m) (hdue : t.DueOn m)
    (hp : periodKey t.cadence (isoOf m) = .ok period) (hposted : HasPeriod d b period) : m < n := by
  obtain ⟨a, hfirst, ha, hdue', hp'⟩ := (h.posted period).mp hposted
  have hread := h.readable a hfirst ha hdue'
  rw [periodKey_inj hm hread hdue hdue' hp hp']
  exact ha

/-- `d'` is `d` with one more posting, for the period of the next run. -/
structure PostsNext (b : Uuid) (t : BillTemplate) (n n' : ℤ) (period : JsString) (d d' : Db) : Prop where
  readable : Readable n
  key : periodKey t.cadence (isoOf n) = .ok period
  next : NextDue t.cadence t.cadenceDay n n'
  template : d'.billTemplates.lookup b = some { t with nextRun := isoOf n' }
  added : ∃ e row, IsPosting d' b e row ∧ row.period = some period ∧
    ∀ e' row', IsPosting d' b e' row' → (e' = e ∧ row' = row) ∨ IsPosting d b e' row'
  kept : ∀ e row, IsPosting d b e row → IsPosting d' b e row

/-- One posting moves the next run by one due date. -/
theorem Tiled.post (h : Tiled d b t first n) (hp : PostsNext b t n n' period d d') :
    Tiled d' b { t with nextRun := isoOf n' } first n' := by
  obtain ⟨e, row, hrow, hperiod, hadded⟩ := hp.added
  have hlater := hp.next.later
  -- the period is a new one
  have hnew : ¬ HasPeriod d b period := by
    intro hposted
    exact absurd (h.lt_of_posted hp.readable h.nextDue hp.key hposted) (lt_irrefl n)
  refine ⟨hp.template, h.active, rfl, h.firstDue, hp.next.due, ?_, ?_, ?_, ?_, ?_⟩
  · have hle := h.le
    omega
  · intro a hfirst ha hdue
    rcases lt_trichotomy a n with hlt | rfl | hgt
    · exact h.readable a hfirst hlt hdue
    · exact hp.readable
    · exact absurd hdue (hp.next.first a hgt ha)
  · intro q
    rw [hasPeriod_iff]
    constructor
    · rintro ⟨e', row', hrow', hb, hq⟩
      rcases hadded e' row' ⟨hrow', hb⟩ with ⟨rfl, rfl⟩ | hold
      · rw [hperiod] at hq
        cases hq
        exact ⟨n, h.le, hlater, h.nextDue, hp.key⟩
      · obtain ⟨a, hfirst, ha, hdue, hkey⟩ := (h.posted q).mp (hasPeriod_iff.mpr ⟨e', row', hold.1, hold.2, hq⟩)
        exact ⟨a, hfirst, ha.trans hlater, hdue, hkey⟩
    · rintro ⟨a, hfirst, ha, hdue, hkey⟩
      rcases lt_trichotomy a n with hlt | rfl | hgt
      · obtain ⟨e', row', hrow', hb, hq⟩ := hasPeriod_iff.mp ((h.posted q).mpr ⟨a, hfirst, hlt, hdue, hkey⟩)
        have hkept := hp.kept e' row' ⟨hrow', hb⟩
        exact ⟨e', row', hkept.1, hkept.2, hq⟩
      · have hsame : period = q := Except.ok.inj (hp.key.symm.trans hkey)
        exact ⟨e, row, hrow.1, hrow.2, hperiod.trans (congrArg some hsame)⟩
      · exact absurd hdue (hp.next.first a hgt ha)
  · intro e' row' hrow'
    rcases hadded e' row' hrow' with ⟨rfl, rfl⟩ | hold
    · exact ⟨period, hperiod⟩
    · exact h.dated e' row' hold
  · intro e₁ e₂ r₁ r₂ h₁ h₂ heq
    -- an old posting has an old period
    have hold : ∀ e' row', IsPosting d b e' row' → row'.period ≠ some period := by
      intro e' row' hrow' hq
      exact hnew (hasPeriod_iff.mpr ⟨e', row', hrow'.1, hrow'.2, hq⟩)
    rcases hadded e₁ r₁ h₁ with ⟨rfl, rfl⟩ | h₁
    · rcases hadded e₂ r₂ h₂ with ⟨rfl, rfl⟩ | h₂
      · rfl
      · exact absurd (heq.symm.trans hperiod) (hold e₂ r₂ h₂)
    · rcases hadded e₂ r₂ h₂ with ⟨rfl, rfl⟩ | h₂
      · exact absurd (heq.trans hperiod) (hold e₁ r₁ h₁)
      · exact h.once e₁ e₂ r₁ r₂ h₁ h₂ heq

/-! ## Section 2: The protocol -/

/-- Every posting in the database belongs to a tile. -/
structure Tiles (b : Uuid) (d : Db) : Prop where
  unborn : d.billTemplates.lookup b = none → ∀ e row, ¬ IsPosting d b e row
  tiled : ∀ t, d.billTemplates.lookup b = some t → ∃ first n, Tiled d b t first n

/-- The transaction writes neither the template nor a new posting of it. -/
structure Avoids (b : Uuid) (tx : DbTx) (d : Db) : Prop where
  template : ∀ o, (b, o) ∉ tx.writes.billTemplates
  expenses : ∀ e o, (e, o) ∈ tx.writes.expenses → ∃ row, o = some row ∧
    (row.templateId = some b → d.expenses.lookup e ≠ none)

/-- The transaction posts the period of the next run, which is not in the
    future of the house. -/
structure Posts (env : Env) (b : Uuid) (now : Millis) (tx : DbTx) (d : Db) : Prop where
  tile : ∃ t first n n' period e row, Tiled d b t first n ∧ Readable n ∧
    periodKey t.cadence (isoOf n) = .ok period ∧ NextDue t.cadence t.cadenceDay n n' ∧
    tx.writes.billTemplates = [(b, some { t with nextRun := isoOf n' })] ∧
    tx.writes.expenses = [(e, some row)] ∧ d.expenses.lookup e = none ∧
    row.templateId = some b ∧ row.period = some period ∧
    (LockKey.period b period, Mode.exclusive) ∈ tx.locks ∧
    ∃ house today, d.houses.lookup t.houseId = some house ∧
      todayInTimezone env house.timezone now = .ok today ∧ ¬ today < isoOf n

/-- What a commit of the worker does to the template. -/
inductive BillStep (env : Env) (b : Uuid) (now : Millis) (tx : DbTx) (d : Db) : Prop where
  | avoids (h : Avoids b tx d)
  | posts (h : Posts env b now tx d)
  | pauses (t : BillTemplate) (hmem : (b, some t) ∈ tx.writes.billTemplates) (hoff : t.active = false)

/-- Every expense that the transaction writes is no posting, or an edit. -/
def Unbilled (tx : DbTx) (d : Db) : Prop :=
  ∀ e o, (e, o) ∈ tx.writes.expenses → ∃ row, o = some row ∧
    (row.templateId = none ∨ d.expenses.lookup e ≠ none)

/-- Every template that the transaction writes is a new one. -/
def Opens (tx : DbTx) (d : Db) : Prop :=
  ∀ k o, (k, o) ∈ tx.writes.billTemplates → d.billTemplates.lookup k = none ∧ ∃ t, o = some t ∧ t.active = true

def TilingGuar (env : Env) (b : Uuid) : Call → DbTx → Db → Prop
  | .createExpense _ _ _ _, tx, d => Unbilled tx d
  | .editExpense _ _ _ _, tx, d => Unbilled tx d
  | .createBill _ _ _ _, tx, d => Opens tx d
  | .postDueBills now, tx, d => BillStep env b now tx d
  | _, _, _ => True

/-- What others do meanwhile: the next run moves on, but not while `tx` has
    the entry of its period in the unique index. -/
structure TilingRely (b : Uuid) (tx : DbTx) (d d' : Db) : Prop extends TemplatesRely tx d d' where
  onward : ∀ t first n, Tiled d b t first n →
    ∃ t' n', Tiled d' b t' first n' ∧ n ≤ n' ∧ t'.Follows t
  slot : ∀ t first n period, Tiled d b t first n → Readable n →
    periodKey t.cadence (isoOf n) = .ok period → (LockKey.period b period, Mode.exclusive) ∈ tx.locks →
    d'.billTemplates.lookup b = some t

def tilingProtocol (env : Env) (b : Uuid) : DbProtocol where
  inv d := (switchesProtocol env).inv d ∧ Tiles b d
  rely := TilingRely b
  guar c _ tx d := TilingGuar env b c tx d
  post _ _ _ := True
  allows _ _ _ _ _ := True
  stops _ _ := True

/-- What is known of a commit that does not switch the template off. -/
structure KeptOn (env : Env) (b : Uuid) (cm : HomiCommit) : Prop extends Switching env cm where
  turns : cm.call.writesBills = true → SwitchGuar cm.call cm.tx cm.before
  on : ∀ t, (b, some t) ∈ cm.tx.writes.billTemplates → t.active = true

section commits

variable {cm : HomiCommit}

theorem Avoids.stays (h : Avoids b tx d) (hstep : Persist d (tx.commit d)) : Stays b d (tx.commit d) where
  template := by
    apply Table.lookup_patch_of_notMem
    intro hmem
    obtain ⟨⟨_, o⟩, ho, rfl⟩ := List.mem_map.mp hmem
    exact h.template o ho
  back e row' hrow' := by
    rcases lookup_patch_cases hrow'.1 with hold | hnew
    · exact ⟨row', ⟨hold, hrow'.2⟩, rfl⟩
    · -- the row that is written was there before, with its template and its period
      obtain ⟨_, heq, hthere⟩ := h.expenses e _ hnew
      cases heq
      obtain ⟨row, hrow⟩ := Option.ne_none_iff_exists'.mp (hthere hrow'.2)
      obtain ⟨row'', hrow'', -, htemplate, hperiod, -⟩ := hstep.expenses e row hrow
      rw [hrow'.1] at hrow''
      cases hrow''
      exact ⟨row, ⟨hrow, htemplate ▸ hrow'.2⟩, hperiod.symm⟩
  kept e row hrow := by
    obtain ⟨row', hrow', -, htemplate, hperiod, -⟩ := hstep.expenses e row hrow.1
    exact ⟨row', ⟨hrow', htemplate.trans hrow.2⟩, hperiod⟩

/-- A commit without a posting of the template, that does not write it. -/
theorem Unbilled.stays (h : Unbilled tx d) (hstep : Persist d (tx.commit d))
    (htemplate : ∀ o, (b, o) ∉ tx.writes.billTemplates) : Stays b d (tx.commit d) := by
  refine Avoids.stays ⟨htemplate, ?_⟩ hstep
  intro e o hmem
  obtain ⟨row, ho, hrow⟩ := h e o hmem
  refine ⟨row, ho, fun hb => hrow.resolve_left ?_⟩
  rw [hb]
  nofun

theorem unbilled_of_spares (h : tx.writes.Spares .expenses) : Unbilled tx d := by
  intro e o hmem
  rw [show tx.writes.expenses = [] from h] at hmem
  cases hmem

theorem Posts.step {now : Millis} (h : Posts env b now tx d) : ∃ t first n n' period,
    Tiled d b t first n ∧ PostsNext b t n n' period d (tx.commit d) ∧
      (LockKey.period b period, Mode.exclusive) ∈ tx.locks := by
  obtain ⟨t, first, n, n', period, e, row, htiled, hread, hkey, hnext, htemplates, hexpenses, hnone, hb,
    hperiod, hlock, -⟩ := h.tile
  have hsame : (tx.commit d).expenses.lookup e = some row := by
    show (d.expenses.patch tx.writes.expenses).lookup e = _
    rw [hexpenses, Table.lookup_patch_singleton, if_pos rfl]
  have hother : ∀ k, k ≠ e → (tx.commit d).expenses.lookup k = d.expenses.lookup k := by
    intro k hk
    show (d.expenses.patch tx.writes.expenses).lookup k = _
    rw [hexpenses, Table.lookup_patch_singleton, if_neg (Ne.symm hk)]
  refine ⟨t, first, n, n', period, htiled, ⟨hread, hkey, hnext, ?_, ⟨e, row, ⟨hsame, hb⟩, hperiod, ?_⟩, ?_⟩,
    hlock⟩
  · show (d.billTemplates.patch tx.writes.billTemplates).lookup b = _
    rw [htemplates, Table.lookup_patch_singleton, if_pos rfl]
  · intro e' row' hrow'
    by_cases heq : e' = e
    · have hrow := hrow'.1
      rw [heq, hsame] at hrow
      cases hrow
      exact Or.inl ⟨heq, rfl⟩
    · exact Or.inr ⟨(hother e' heq).symm.trans hrow'.1, hrow'.2⟩
  · intro e' row' hrow'
    have hne : e' ≠ e := by
      rintro rfl
      cases hnone.symm.trans hrow'.1
    exact ⟨(hother e' hne).trans hrow'.1, hrow'.2⟩

/-- What a commit does to the template. -/
inductive TileStep (env : Env) (b : Uuid) (cm : HomiCommit) : Prop where
  | stays (h : Stays b cm.before cm.after)
  | opens (t : BillTemplate) (first : ℤ) (hnone : cm.before.billTemplates.lookup b = none)
      (h : Tiled cm.after b t first first)
  | posts (now : Millis) (hcall : cm.call = .postDueBills now) (h : Posts env b now cm.tx cm.before)

theorem KeptOn.tileStep (hk : KeptOn env b cm) (hi : (tilingProtocol env b).inv cm.before)
    (hg : TilingGuar env b cm.call cm.tx cm.before) : TileStep env b cm := by
  have hpersist : Persist cm.before cm.after := hk.known.step.toPersist
  -- a commit that writes no templates and no postings
  have haside : cm.call.writesBills ≠ true → Unbilled cm.tx cm.before → TileStep env b cm := by
    intro hw hunbilled
    have hspares : cm.tx.writes.Spares .billTemplates := by
      refine hk.known.within.tables _ ?_
      cases hc : cm.call <;> simp_all [Call.writesBills, Call.tables]
    refine .stays (hunbilled.stays hpersist ?_)
    intro o hmem
    rw [show cm.tx.writes.billTemplates = [] from hspares] at hmem
    cases hmem
  have hspared : TableName.expenses ∉ cm.call.tables → Unbilled cm.tx cm.before :=
    fun h => unbilled_of_spares (hk.known.within.tables _ h)
  cases hcall : cm.call with
  | createExpense h u key input =>
    rw [hcall] at hg
    exact haside (by simp [hcall, Call.writesBills]) hg
  | editExpense e u key input =>
    rw [hcall] at hg
    exact haside (by simp [hcall, Call.writesBills]) hg
  | createBill h u key input =>
    rw [hcall] at hg
    have hunbilled := hspared (by simp [hcall, Call.tables])
    have hentered := hk.entered (by simp [hcall, Call.writesBills])
    cases hlast : Table.lastEdit cm.tx.writes.billTemplates b with
    | none =>
      refine .stays (hunbilled.stays hpersist ?_)
      intro o hmem
      exact Table.lastEdit_eq_none.mp hlast (List.mem_map.mpr ⟨(b, o), hmem, rfl⟩)
    | some o =>
      have hmem := Table.mem_of_lastEdit hlast
      obtain ⟨hnone, t, rfl, hactive⟩ := hg b o hmem
      obtain ⟨_, heq, hentry⟩ := hentered b _ hmem
      cases heq
      obtain ⟨first, hrun, -, hdue⟩ := hentry.standing.due.day
      -- the template is new, and nothing is posted for it yet
      have hempty : ∀ e row, ¬ IsPosting cm.after b e row := by
        intro e row hrow
        rcases lookup_patch_cases hrow.1 with hold | hnew
        · exact hi.2.unborn hnone e row ⟨hold, hrow.2⟩
        · rw [show cm.tx.writes.expenses = [] from
            hk.known.within.tables .expenses (by simp [hcall, Call.tables])] at hnew
          cases hnew
      refine .opens t first hnone ⟨?_, hactive, hrun, hdue, hdue, le_refl _, ?_, ?_, ?_, ?_⟩
      · show (cm.before.billTemplates.patch cm.tx.writes.billTemplates).lookup b = _
        rw [Table.lookup_patch, hlast]
        rfl
      · intro a hfirst ha
        omega
      · intro period
        rw [hasPeriod_iff]
        constructor
        · rintro ⟨e, row, hrow, hb, -⟩
          exact absurd ⟨hrow, hb⟩ (hempty e row)
        · rintro ⟨a, hfirst, ha, -⟩
          omega
      · exact fun e row hrow => absurd hrow (hempty e row)
      · exact fun e e' row row' hrow => absurd hrow (hempty e row)
  | setActive h k u active =>
    have hunbilled := hspared (by simp [hcall, Call.tables])
    have hturn := hk.turns (by simp [hcall, Call.writesBills])
    rw [hcall] at hturn
    rcases hturn with ⟨hnothing, -⟩ | hturn
    · refine .stays (hunbilled.stays hpersist ?_)
      intro o hmem
      rw [hnothing] at hmem
      cases hmem
    · obtain ⟨t, ev, hwrites, hactive, -⟩ := hturn.writes
      refine .stays (hunbilled.stays hpersist ?_)
      intro o hmem
      rw [hwrites] at hmem
      obtain ⟨rfl, rfl⟩ := Prod.mk.inj (List.mem_singleton.mp hmem)
      -- the template is on, so it could only be switched off
      obtain ⟨t₀, hrow, hother⟩ := hturn.row
      obtain ⟨first, n, htiled⟩ := hi.2.tiled t₀ hrow
      have hon := hk.on t (by rw [hwrites]; exact List.mem_singleton_self _)
      rw [htiled.active, ← hactive, hon] at hother
      cases hother
  | postDueBills now =>
    rw [hcall] at hg
    cases hg with
    | avoids h => exact .stays (h.stays hpersist)
    | posts h => exact .posts now hcall h
    | pauses t hmem hoff =>
      rw [hk.on t hmem] at hoff
      cases hoff
  | _ => exact haside (by simp [hcall, Call.writesBills]) (hspared (by simp [hcall, Call.tables]))

/-- A commit keeps the tiles. -/
theorem TileStep.inv (h : TileStep env b cm) (hi : Tiles b cm.before) : Tiles b cm.after := by
  cases h with
  | stays h =>
    refine ⟨fun hnone e row' hrow' => ?_, fun t ht => ?_⟩
    · obtain ⟨row, hrow, -⟩ := h.back e row' hrow'
      exact hi.unborn (h.template.symm.trans hnone) e row hrow
    · obtain ⟨first, n, htiled⟩ := hi.tiled t (h.template.symm.trans ht)
      exact ⟨first, n, htiled.stays h⟩
  | opens t first hnone h =>
    refine ⟨fun hnone => ?_, fun t' ht' => ?_⟩
    · rw [h.row] at hnone
      cases hnone
    · rw [h.row] at ht'
      cases ht'
      exact ⟨first, first, h⟩
  | posts now hcall h =>
    obtain ⟨t, first, n, n', period, htiled, hp, -⟩ := h.step
    have hpost : Tiled cm.after b { t with nextRun := isoOf n' } first n' := htiled.post hp
    refine ⟨fun hnone => ?_, fun t' ht' => ?_⟩
    · rw [hpost.row] at hnone
      cases hnone
    · rw [hpost.row] at ht'
      cases ht'
      exact ⟨first, n', hpost⟩

/-- A commit moves the next run on. -/
theorem TileStep.onward (h : TileStep env b cm) (htiled : Tiled cm.before b t first n) :
    ∃ t' n', Tiled cm.after b t' first n' ∧ n ≤ n' ∧ t'.Follows t := by
  cases h with
  | stays h => exact ⟨t, n, htiled.stays h, le_refl n, .refl t⟩
  | opens t' first' hnone h =>
    rw [htiled.row] at hnone
    cases hnone
  | posts now hcall h =>
    obtain ⟨t', first', m, m', period, htiled', hp, -⟩ := h.step
    -- the next run that is posted is that of the tile
    obtain ⟨rfl, rfl⟩ := htiled'.unique htiled hp.readable
    exact ⟨_, m', htiled.post hp, hp.next.later.le, .update t (isoOf m') t.active⟩

/-- And nobody moves it whose period another transaction holds. -/
theorem TileStep.slot (h : TileStep env b cm) (hcompat : Compatible tx.locks cm.tx.locks)
    (htiled : Tiled cm.before b t first n)
    (hkey : periodKey t.cadence (isoOf n) = .ok period)
    (hlock : (LockKey.period b period, Mode.exclusive) ∈ tx.locks) :
    cm.after.billTemplates.lookup b = some t := by
  cases h with
  | stays h => exact h.template.trans htiled.row
  | opens t' first' hnone h =>
    rw [htiled.row] at hnone
    cases hnone
  | posts now hcall h =>
    obtain ⟨t', first', m, m', period', htiled', hp, hlock'⟩ := h.step
    obtain ⟨rfl, rfl⟩ := htiled'.unique htiled hp.readable
    have hsame : period' = period := Except.ok.inj (hp.key.symm.trans hkey)
    rw [hsame] at hlock'
    exact absurd hlock (hcompat.symm.not_mem_of_exclusive hlock' .exclusive)

end commits

theorem TilingRely.refl (hr : TemplatesRely tx d d) : TilingRely b tx d d where
  toTemplatesRely := hr
  onward t _ n h := ⟨t, n, h, le_refl n, .refl t⟩
  slot _ _ _ _ h _ _ _ := h.row

theorem TilingRely.trans {x y z : Db} (h : TilingRely b tx x y) (h' : TilingRely b tx y z)
    (hr : TemplatesRely tx x z) : TilingRely b tx x z where
  toTemplatesRely := hr
  onward t first n htiled := by
    obtain ⟨t', n', htiled', hle, hf⟩ := h.onward t first n htiled
    obtain ⟨t'', n'', htiled'', hle', hf'⟩ := h'.onward t' first n' htiled'
    exact ⟨t'', n'', htiled'', hle.trans hle', hf'.trans hf⟩
  slot t first n period htiled hn hkey hlock := by
    have hrow := h.slot t first n period htiled hn hkey hlock
    obtain ⟨t', n', htiled', -, -⟩ := h.onward t first n htiled
    -- the row is the same, so the next run is
    have hsame := htiled'.row
    rw [hrow] at hsame
    cases hsame
    have hn' : n' = n := isoOf_eq hn (htiled'.nextRun.symm.trans htiled.nextRun)
    rw [hn'] at htiled'
    exact h'.slot t first n period htiled' hn hkey hlock

end Homi
