import Homi.Verification.WorkerRuns

/-! # One run over all bill templates

  What `postDueBills` owes each template, and that a run in which nobody
  else takes a step pays it: a template that is due catches up or is
  paused, every other one stays as it was. What a template is owed depends
  on its own row, house, members, rooms and posted periods only, so
  neither the other templates nor the order of the scan matter.
-/

namespace Homi

open ReadCommitted Calendar

variable {env : Env} {d d' : Db} {now clock : Millis} {bill : DueBill} {splits : Splits JsString}
  {reason last today : JsString} {report : PostDueBillsResult}

/-! ## Section 1: What a template is owed -/

/-- The day of `now`, in UTC. -/
def utcDayOf (now : Millis) : ℤ := (now : ℤ) / 86400000

/-- The last date that it can be anywhere. -/
def latestPossibleToday (now : Millis) : JsString := isoOf (utcDayOf now + 1)

/-- The template is active and its next run has come. Where the timezone
    has no date, the scan alone decides. -/
def DueBill.Due (env : Env) (now : Millis) (bill : DueBill) : Prop :=
  bill.template.active = true ∧ dateLe bill.template.nextRun
    (match todayInTimezone env bill.timezone now with
      | .ok today => today
      | .error _ => latestPossibleToday now)

/-- What a run does to one template. -/
inductive BillOutcome where
  | untouched
  | paused (reason : JsString)
  | caughtUp (splits : Splits JsString) (posted alreadyPosted : List JsString) (nextRun : JsString)

/-- The outcome that a run owes the template, from what `d` says of it. -/
inductive Owed (env : Env) (now : Millis) (d : Db) (bill : DueBill) : BillOutcome → Prop
  | untouched (hdue : ¬ bill.Due env now) : Owed env now d bill .untouched
  | noDate {err : ScheduleError} (hdue : bill.Due env now)
      (htoday : todayInTimezone env bill.timezone now = .error err) :
      Owed env now d bill (.paused (js "Error: " ++ err.message))
  | noSplits {today : JsString} {err : Err} (hdue : bill.Due env now)
      (htoday : todayInTimezone env bill.timezone now = .ok today)
      (hsplits : billSplits d bill.template = .error err) (hpauses : pausesBill err = true) :
      Owed env now d bill (.paused err.message)
  | caughtUp {today last : JsString} {splits : Splits JsString} {periods : List JsString}
      (hdue : bill.Due env now) (htoday : todayInTimezone env bill.timezone now = .ok today)
      (hsplits : billSplits d bill.template = .ok splits)
      (hcatches : Catches bill.template.cadence bill.template.cadenceDay today
        bill.template.nextRun MAX_CATCHUP_PER_RUN periods last) :
      Owed env now d bill (.caughtUp splits (periods.filter fun p => ¬ HasPeriod d bill.id p)
        (periods.filter fun p => HasPeriod d bill.id p) last)

/-- Both databases say the same of what the template depends on. -/
structure Agrees (bill : DueBill) (d d' : Db) : Prop where
  splits : billSplits d' bill.template = billSplits d bill.template
  periods : ∀ p, HasPeriod d' bill.id p ↔ HasPeriod d bill.id p

theorem Owed.congr {o : BillOutcome} (h : Owed env now d bill o) (ha : Agrees bill d d') :
    Owed env now d' bill o := by
  cases h with
  | untouched hdue => exact .untouched hdue
  | noDate hdue htoday => exact .noDate hdue htoday
  | noSplits hdue htoday hsplits hpauses =>
    exact .noSplits hdue htoday (ha.splits.trans hsplits) hpauses
  | caughtUp hdue htoday hsplits hcatches =>
    have howed := Owed.caughtUp hdue htoday (ha.splits.trans hsplits) hcatches
    simp only [ha.periods] at howed
    exact howed

/-- A template is owed one outcome. -/
theorem Owed.unique {o o' : BillOutcome} (h : Owed env now d bill o) (h' : Owed env now d bill o') :
    o = o' := by
  cases h with
  | untouched hdue =>
    cases h' with
    | untouched => rfl
    | _ hdue' => exact absurd hdue' hdue
  | noDate hdue htoday =>
    cases h' with
    | untouched hdue' => exact absurd hdue hdue'
    | noDate _ htoday' =>
      cases htoday.symm.trans htoday'
      rfl
    | noSplits _ htoday' => cases htoday.symm.trans htoday'
    | caughtUp _ htoday' => cases htoday.symm.trans htoday'
  | noSplits hdue htoday hsplits =>
    cases h' with
    | untouched hdue' => exact absurd hdue hdue'
    | noDate _ htoday' => cases htoday.symm.trans htoday'
    | noSplits _ _ hsplits' =>
      cases hsplits.symm.trans hsplits'
      rfl
    | caughtUp _ _ hsplits' => cases hsplits.symm.trans hsplits'
  | caughtUp hdue htoday hsplits hcatches =>
    cases h' with
    | untouched hdue' => exact absurd hdue hdue'
    | noDate _ htoday' => cases htoday.symm.trans htoday'
    | noSplits _ _ hsplits' => cases hsplits.symm.trans hsplits'
    | caughtUp _ htoday' hsplits' hcatches' =>
      cases htoday.symm.trans htoday'
      cases hsplits.symm.trans hsplits'
      obtain ⟨rfl, rfl⟩ := hcatches.unique hcatches'
      rfl

/-! ## Section 2: What a run shows -/

/-- The part of the report that names the template. -/
def PostDueBillsResult.of (result : PostDueBillsResult) (b : Uuid) : PostDueBillsResult where
  posted := result.posted.filter fun r => r.templateId = b
  alreadyPosted := result.alreadyPosted.filter fun r => r.1 = b
  paused := result.paused.filter fun r => r.1 = b

/-- The periods in `posted` are booked, those in `alreadyPosted` were, and
    the template has moved on to `last`. -/
structure CaughtUp (clock : Millis) (bill : DueBill) (splits : Splits JsString)
    (posted alreadyPosted : List JsString) (last : JsString) (d d' : Db)
    (report : PostDueBillsResult) : Prop where
  once : (posted ++ alreadyPosted).Nodup
  template : d'.billTemplates.lookup bill.id = some { bill.template with nextRun := last }
  reported : report.posted.map Posted.period = posted
  reportedAlready : report.alreadyPosted = alreadyPosted.map fun p => (bill.id, p)
  notPaused : report.paused = []
  booked : ∀ r ∈ report.posted, r.templateId = bill.id ∧ d.expenses.lookup r.expenseId = none ∧
    d'.expenses.lookup r.expenseId = some ((billSpec bill r.period).row clock) ∧
    ∀ u a, (∃ rid, d'.split rid = some ⟨r.expenseId, u, a⟩) ↔ splits.lookup u = some a
  only : ∀ e row, row.templateId = some bill.id → d'.expenses.lookup e = some row →
    d.expenses.lookup e = some row ∨ ∃ r ∈ report.posted, r.expenseId = e
  kept : ∀ e row, row.templateId = some bill.id → d.expenses.lookup e = some row →
    d'.expenses.lookup e = some row
  splits : ∀ rid s row, d.expenses.lookup s.expenseId = some row → row.templateId = some bill.id →
    (d'.split rid = some s ↔ d.split rid = some s)
  events : d'.activityEvents.filter (ActivityEvent.ofBill bill.id) =
    d.activityEvents.filter (ActivityEvent.ofBill bill.id) ++
      report.posted.map fun r => (postedEvent bill r.expenseId r.period).row

/-- The template is switched off, with one event and nothing else. -/
structure Paused (bill : DueBill) (reason : JsString) (d d' : Db) (report : PostDueBillsResult) : Prop
    extends SameBooks bill.id d d' where
  template : d'.billTemplates.lookup bill.id = some { bill.template with active := false }
  reported : report = { paused := [(bill.id, reason)] }
  events : d'.activityEvents.filter (ActivityEvent.ofBill bill.id) =
    d.activityEvents.filter (ActivityEvent.ofBill bill.id) ++ [(pausedEvent bill reason).row]

/-- Between `d` and `d'` the template had this outcome. -/
def BillOutcome.Shown (clock : Millis) (bill : DueBill) (d d' : Db) (report : PostDueBillsResult) :
    BillOutcome → Prop
  | .untouched => Untouched bill.id d d' ∧ report = {}
  | .paused reason => Paused bill reason d d' report
  | .caughtUp splits posted alreadyPosted last =>
      CaughtUp clock bill splits posted alreadyPosted last d d' report

section shown

variable {x y z : Db} {posted alreadyPosted : List JsString} {o : BillOutcome}

/-- Before its turn the run left the template alone. -/
theorem CaughtUp.before (h : CaughtUp clock bill splits posted alreadyPosted last y z report)
    (hu : Untouched bill.id x y) (ha : Adds x y) :
    CaughtUp clock bill splits posted alreadyPosted last x z report where
  once := h.once
  template := h.template
  reported := h.reported
  reportedAlready := h.reportedAlready
  notPaused := h.notPaused
  booked r hr := by
    obtain ⟨hid, hnone, hrest⟩ := h.booked r hr
    exact ⟨hid, ha.fresh hnone, hrest⟩
  only e row hb hrow := by
    rcases h.only e row hb hrow with hold | hnew
    · exact Or.inl ((hu.expenses e row hb).mp hold)
    · exact Or.inr hnew
  kept e row hb hrow := h.kept e row hb ((hu.expenses e row hb).mpr hrow)
  splits rid s row hrow hb :=
    (h.splits rid s row ((hu.expenses _ row hb).mpr hrow) hb).trans (hu.splits rid s row hrow hb)
  events := by rw [h.events, hu.events]

/-- After its turn the run leaves the template alone. -/
theorem CaughtUp.after (h : CaughtUp clock bill splits posted alreadyPosted last x y report)
    (hu : Untouched bill.id y z) (ha : Adds y z) :
    CaughtUp clock bill splits posted alreadyPosted last x z report where
  once := h.once
  template := hu.template.trans h.template
  reported := h.reported
  reportedAlready := h.reportedAlready
  notPaused := h.notPaused
  booked r hr := by
    obtain ⟨hid, hnone, hrow, hsplits⟩ := h.booked r hr
    refine ⟨hid, hnone, ha.expenses _ _ hrow, fun u a => ?_⟩
    rw [← hsplits u a]
    -- the expense is of this template, so its splits stay
    exact exists_congr fun rid => hu.splits rid ⟨r.expenseId, u, a⟩ _ hrow rfl
  only e row hb hrow := h.only e row hb ((hu.expenses e row hb).mp hrow)
  kept e row hb hrow := (hu.expenses e row hb).mpr (h.kept e row hb hrow)
  splits rid s row hrow hb :=
    (hu.splits rid s row (h.kept _ row hb hrow) hb).trans (h.splits rid s row hrow hb)
  events := by rw [hu.events, h.events]

theorem BillOutcome.Shown.before (h : o.Shown clock bill y z report) (hu : Untouched bill.id x y)
    (ha : Adds x y) : o.Shown clock bill x z report := by
  cases o with
  | untouched => exact ⟨hu.trans h.1, h.2⟩
  | paused reason => exact ⟨hu.toSameBooks.trans h.toSameBooks, h.template, h.reported,
      by rw [h.events, hu.events]⟩
  | caughtUp => exact CaughtUp.before h hu ha

theorem BillOutcome.Shown.after (h : o.Shown clock bill x y report) (hu : Untouched bill.id y z)
    (ha : Adds y z) : o.Shown clock bill x z report := by
  cases o with
  | untouched => exact ⟨h.1.trans hu, h.2⟩
  | paused reason => exact ⟨h.toSameBooks.trans hu.toSameBooks, hu.template.trans h.template,
      h.reported, by rw [hu.events, h.events]⟩
  | caughtUp => exact CaughtUp.after h hu ha

end shown

/-! ## Section 3: The report of one template -/

/-- Every entry of the report names the template. -/
structure PostDueBillsResult.About (b : Uuid) (report : PostDueBillsResult) : Prop where
  posted : ∀ r ∈ report.posted, r.templateId = b
  alreadyPosted : ∀ r ∈ report.alreadyPosted, r.1 = b
  paused : ∀ r ∈ report.paused, r.1 = b

section reports

variable {b b' : Uuid} {hs : List Handled}

theorem PostDueBillsResult.of_add (result more : PostDueBillsResult) (b : Uuid) :
    (result.add more).of b = (result.of b).add (more.of b) := by
  simp [PostDueBillsResult.of, PostDueBillsResult.add]

theorem PostDueBillsResult.About.of_self (h : report.About b) : report.of b = report := by
  have hposted := List.filter_eq_self.mpr fun r hr => decide_eq_true (h.posted r hr)
  have halready := List.filter_eq_self.mpr fun r hr => decide_eq_true (h.alreadyPosted r hr)
  have hpaused := List.filter_eq_self.mpr fun r hr => decide_eq_true (h.paused r hr)
  rw [PostDueBillsResult.of, hposted, halready, hpaused]

theorem PostDueBillsResult.About.of_other (h : report.About b) (hb : b' ≠ b) : report.of b' = {} := by
  have hother : ∀ {α : Type} {f : α → Uuid} {l : List α}, (∀ r ∈ l, f r = b) →
      l.filter (fun r => f r = b') = [] := by
    intro α f l hl
    rw [List.filter_eq_nil_iff]
    intro r hr hof
    exact hb ((of_decide_eq_true hof).symm.trans (hl r hr))
  rw [PostDueBillsResult.of, hother h.posted, hother h.alreadyPosted, hother h.paused]

theorem about_empty : ({} : PostDueBillsResult).About b where
  posted r hr := by cases hr
  alreadyPosted r hr := by cases hr
  paused r hr := by cases hr

theorem reportOf_about : (reportOf b hs).About b where
  posted r hr := by
    obtain ⟨h, _, heq⟩ := List.mem_filterMap.mp hr
    obtain ⟨e, _, rfl⟩ := Option.map_eq_some_iff.mp heq
    rfl
  alreadyPosted r hr := by
    obtain ⟨h, _, heq⟩ := List.mem_filterMap.mp hr
    split at heq
    · cases heq
      rfl
    · cases heq
  paused r hr := by cases hr

/-- A posting in the report, as the run handled it. -/
theorem mem_reportOf_posted {r : Posted} : r ∈ (reportOf b hs).posted ↔
    r.templateId = b ∧ (r.period, some r.expenseId) ∈ hs := by
  unfold reportOf
  rw [List.mem_filterMap]
  constructor
  · rintro ⟨⟨p, o⟩, hmem, heq⟩
    obtain ⟨e, rfl, rfl⟩ := Option.map_eq_some_iff.mp heq
    exact ⟨rfl, hmem⟩
  · rintro ⟨rfl, hmem⟩
    exact ⟨_, hmem, rfl⟩

/-- The periods of a report, by what was posted before. -/
theorem reportOf_periods {P : JsString → Prop} [DecidablePred P]
    (h : ∀ p o, (p, o) ∈ hs → (o = none ↔ P p)) :
    (reportOf b hs).posted.map Posted.period = ((hs.map Prod.fst).filter fun p => ¬ P p) ∧
      (reportOf b hs).alreadyPosted = ((hs.map Prod.fst).filter fun p => P p).map fun p => (b, p) := by
  induction hs with
  | nil => exact ⟨rfl, rfl⟩
  | cons first rest ih =>
    obtain ⟨p, o⟩ := first
    obtain ⟨hposted, halready⟩ := ih fun p o hmem => h p o (List.mem_cons_of_mem _ hmem)
    have hfirst := h p o (List.mem_cons_self ..)
    unfold reportOf at hposted halready ⊢
    cases o with
    | none =>
      have hp : P p := hfirst.mp rfl
      simp only [List.filterMap_cons, List.map_cons, Option.map_none, if_true]
      rw [List.filter_cons_of_neg (by simpa using hp), List.filter_cons_of_pos (by simpa using hp),
        List.map_cons]
      exact ⟨hposted, congrArg _ halready⟩
    | some e =>
      have hp : ¬ P p := fun hp => by cases hfirst.mpr hp
      simp only [List.filterMap_cons, List.map_cons, Option.map_some, reduceCtorEq, if_false]
      rw [List.filter_cons_of_pos (by simpa using hp), List.filter_cons_of_neg (by simpa using hp)]
      exact ⟨congrArg _ hposted, halready⟩

end reports

/-! ## Section 4: The turn of one template -/

/-- The database before the turn of the template. -/
structure Turn (env : Env) (now : Millis) (d : Db) (bill : DueBill) : Prop where
  id : toUuid bill.id = bill.id
  row : d.billTemplates.lookup bill.id = some bill.template
  active : bill.template.active = true
  scanned : dateLe bill.template.nextRun (latestPossibleToday now)
  amount : 0 < bill.template.amountCents
  due : FallsDue bill.template.cadence bill.template.cadenceDay bill.template.nextRun
  storable : ∀ splits, billSplits d bill.template = .ok splits → Storable splits

/-- House-local dates: the UTC date plus one day at most. -/
def LocalDates (env : Env) (now : Millis) : Prop :=
  ∀ timezone today, env.formatDate timezone now = .ok today →
    ∃ a, Readable a ∧ a ≤ utcDayOf now + 1 ∧ today = isoOf a

/-- `now` is before year 9999. -/
def Before9999 (now : Millis) : Prop := (dateOf (utcDayOf now)).y < 9999

instance : Decidable (Before9999 now) := inferInstanceAs (Decidable (_ < _))

theorem FallsDue.valid {cadence : Cadence} {cadenceDay iso : JsString} (h : FallsDue cadence cadenceDay iso) :
    validateSchedule cadence cadenceDay = .ok () := by
  obtain ⟨afterISO, hdue⟩ := h
  unfold nextDueDate at hdue
  cases hv : validateSchedule cadence cadenceDay with
  | ok _ => rfl
  | error err =>
    rw [hv] at hdue
    cases hdue

/-- The day of a due date. -/
theorem FallsDue.day {cadence : Cadence} {cadenceDay iso : JsString} (h : FallsDue cadence cadenceDay iso) :
    ∃ m, iso = isoOf m ∧ 100 ≤ (dateOf m).y ∧ IsDue cadence cadenceDay m := by
  obtain ⟨afterISO, hdue⟩ := h
  obtain ⟨n, m, hn, _, hiso, hnext⟩ := nextDueDate_ok hdue
  exact ⟨m, hiso, hn.1.trans (year_mono hnext.later.le), hnext.due⟩

section days

variable {a m : ℤ}

theorem utcDayOf_lt (hnow : Before9999 now) : utcDayOf now < dayNumber ⟨9999, 1, 1⟩ := by
  have hlt := dayNumber_lt (dateOf_real (utcDayOf now)) (by decide : (⟨9999, 1, 1⟩ : Date).Real)
    (Or.inl hnow)
  rw [dayNumber_dateOf] at hlt
  exact hlt

/-- Today and tomorrow have years of four digits. -/
theorem readable_today (hnow : Before9999 now) (hlow : utcDayOf now ≤ a) (hhigh : a ≤ utcDayOf now + 1) :
    Readable a := by
  have hepoch : (0 : ℤ) ≤ utcDayOf now := Int.ediv_nonneg (Int.natCast_nonneg _) (by decide)
  have hbefore := utcDayOf_lt hnow
  have hyear : (dateOf 0).y ≤ (dateOf a).y := year_mono (by omega)
  have hyear' : (dateOf a).y ≤ (dateOf (dayNumber ⟨9999, 1, 1⟩)).y := year_mono (by omega)
  rw [dateOf_dayNumber (by decide)] at hyear'
  have h1970 : (dateOf 0).y = 1970 := by decide
  exact ⟨by omega, hyear'⟩

theorem latest_readable (hnow : Before9999 now) : Readable (utcDayOf now + 1) :=
  readable_today hnow (by omega) le_rfl

/-- Dates with years of four digits compare as their texts. -/
theorem dateLe_isoOf (ha : Readable a) (hm : 100 ≤ (dateOf m).y) :
    dateLe (isoOf m) (isoOf a) ↔ Readable m ∧ ¬ isoOf a < isoOf m := by
  unfold dateLe
  rw [length_isoOf ha]
  constructor
  · intro h
    have hread : Readable m := readable_of_length hm (by omega)
    rw [length_isoOf hread] at h
    exact ⟨hread, not_lt.mpr (h.resolve_left (lt_irrefl _)).2⟩
  · rintro ⟨hread, hle⟩
    exact Or.inr ⟨length_isoOf hread, not_lt.mp hle⟩

end days

section turn

variable {n : ℕ} {m : ℤ} {hs : List Handled}

/-- A loop over periods, as the report and the database show it. -/
theorem Looped.caughtUp (h : Looped env clock bill splits today n bill.template m d d' hs last) :
    CaughtUp clock bill splits ((hs.map Prod.fst).filter fun p => ¬ HasPeriod d bill.id p)
      ((hs.map Prod.fst).filter fun p => HasPeriod d bill.id p) last d d' (reportOf bill.id hs) where
  once := by
    have hperm := List.filter_append_perm (fun p => decide (¬ HasPeriod d bill.id p)) (hs.map Prod.fst)
    simp only [decide_not, Bool.not_not] at hperm ⊢
    exact hperm.nodup_iff.mpr h.nodup
  template := h.template
  reported := (reportOf_periods h.worked.already).1
  reportedAlready := (reportOf_periods h.worked.already).2
  notPaused := rfl
  booked r hr := by
    obtain ⟨hid, hmem⟩ := mem_reportOf_posted.mp hr
    exact ⟨hid, h.worked.posted _ _ hmem⟩
  only e row _ hrow := by
    rcases h.worked.only e row hrow with hold | ⟨p, hmem⟩
    · exact Or.inl hold
    · exact Or.inr ⟨⟨bill.id, e, p⟩, mem_reportOf_posted.mpr ⟨rfl, hmem⟩, rfl⟩
  kept e row _ hrow := h.worked.expenses e row hrow
  splits rid s row hrow _ := by
    refine ⟨fun hnew => ?_, h.worked.rows rid s⟩
    rcases h.worked.newSplits rid s hnew with hold | hnone
    · exact hold
    · rw [hrow] at hnone
      cases hnone
  events := by
    rw [h.worked.events, List.filter_append, List.append_cancel_left_eq, reportOf, List.map_filterMap]
    have hall : ∀ ev ∈ hs.filterMap (fun h => h.2.map fun e => (postedEvent bill e h.1).row),
        ActivityEvent.ofBill bill.id ev = true := by
      intro ev hev
      obtain ⟨h, _, heq⟩ := List.mem_filterMap.mp hev
      obtain ⟨e, _, rfl⟩ := Option.map_eq_some_iff.mp heq
      exact decide_eq_true rfl
    rw [List.filter_eq_self.mpr hall]
    simp only [Option.map_map, Function.comp_def]

theorem ofBill_paused (hid : toUuid bill.id = bill.id) (b : Uuid) :
    ActivityEvent.ofBill b (pausedEvent bill reason).row = decide (bill.id = b) := by
  show decide (toUuid bill.id = b) = _
  rw [hid]

theorem pausedDb_concerns (hid : toUuid bill.id = bill.id) :
    Concerns env bill.id d (pausedDb bill reason bill.template d) := by
  refine updated_concerns fun ev hev b hb => ?_
  rw [List.mem_singleton.mp hev, ofBill_paused hid]
  exact decide_eq_false (Ne.symm hb)

theorem paused_pausedDb (hid : toUuid bill.id = bill.id) :
    Paused bill reason d (pausedDb bill reason bill.template d) { paused := [(bill.id, reason)] } where
  expenses _ _ _ := Iff.rfl
  splits _ _ _ _ _ := Iff.rfl
  template := updated_template
  reported := rfl
  events := by
    show (d.activityEvents ++ [_]).filter _ = _
    rw [List.filter_append, List.filter_singleton, ofBill_paused hid, decide_eq_true rfl]
    rfl

/-- The template is due, by its day and the day of today. -/
theorem Turn.due_iff (ht : Turn env now d bill) {a : ℤ} (ha : Readable a)
    (htoday : todayInTimezone env bill.timezone now = .ok (isoOf a))
    (hm : bill.template.nextRun = isoOf m) (hm100 : 100 ≤ (dateOf m).y) :
    bill.Due env now ↔ Readable m ∧ ¬ isoOf a < isoOf m := by
  unfold DueBill.Due
  rw [htoday, hm]
  dsimp only
  rw [dateLe_isoOf ha hm100]
  exact ⟨fun h => h.2, fun h => ⟨ht.active, h⟩⟩

/-- What one turn leads to. -/
structure TurnEnds (env : Env) (now clock : Millis) (bill : DueBill) (d d' : Db)
    (report : PostDueBillsResult) : Prop where
  concerns : Concerns env bill.id d d'
  about : report.About bill.id
  outcome : ∃ o, Owed env now d bill o ∧ o.Shown clock bill d d' report

theorem turn_paused (ht : Turn env now d bill) (howed : Owed env now d bill (.paused reason)) :
    TurnEnds env now clock bill d (pausedDb bill reason bill.template d)
      { paused := [(bill.id, reason)] } where
  concerns := pausedDb_concerns ht.id
  about := ⟨fun _ h => (by cases h), fun _ h => (by cases h), fun r h => (by rw [List.mem_singleton.mp h])⟩
  outcome := ⟨_, howed, paused_pausedDb ht.id⟩

/-- The turn of a template whose house has a date. -/
theorem turn_dated (hnow : Before9999 now) (hlocal : LocalDates env now) (hready : Ready env d)
    (ht : Turn env now d bill) (htoday : todayInTimezone env bill.timezone now = .ok today)
    {result : PostDueBillsResult} {next : PostDueBillsResult → DbProg} :
    ∃ report d', (postPeriods env bill today MAX_CATCHUP_PER_RUN bill.template.nextRun result
        next).alone clock d {} = (next (result.add report)).alone clock d' {} ∧
      TurnEnds env now clock bill d d' report := by
  obtain ⟨a, ha, hle, rfl⟩ : ∃ a, Readable a ∧ a ≤ utcDayOf now + 1 ∧ today = isoOf a := by
    apply hlocal bill.timezone
    unfold todayInTimezone at htoday
    split at htoday
    · next hformat => rw [hformat, Except.ok.inj htoday]
    · cases htoday
  obtain ⟨m, hm, hm100, hdue⟩ := ht.due.day
  have hiff := ht.due_iff ha htoday hm hm100
  by_cases hcome : bill.Due env now
  · -- the next run is due today or before
    obtain ⟨hread, hnot⟩ := hiff.mp hcome
    have hlast : a ≤ dayNumber ⟨9999, 1, 1⟩ := hle.trans (utcDayOf_lt hnow)
    have hma : m ≤ a := by
      rw [isoOf_lt ha hread] at hnot
      omega
    cases hsplits : billSplits d bill.template with
    | error err =>
      -- the first period fails
      obtain ⟨m', hnext⟩ := exists_nextDue ht.due.valid m
      have hm' := nextDue_readable ht.due.valid hm100 (hma.trans hlast) hnext
      rw [hm]
      refine ⟨_, _, postPeriods_pauses hnot (periodKey_isoOf _ hread)
        (nextDueDate_eq ht.due.valid hread hnext fun _ => hm') ht.row ht.active hsplits, ?_⟩
      exact turn_paused ht (.noSplits hcome htoday hsplits (pausesBill_of_billSplits hsplits))
    | ok splits =>
      have hrow : d.billTemplates.lookup bill.id = some { bill.template with nextRun := isoOf m } := by
        rw [ht.row, ← hm]
      obtain ⟨hs, d', last, heq, hloop⟩ := @postPeriods_alone env d clock bill bill.template splits
        MAX_CATCHUP_PER_RUN m a next ht.due.valid ht.amount (ht.storable splits hsplits) ha hlast
        result hread hdue hready hrow hsplits
      rw [hm]
      refine ⟨reportOf bill.id hs, d', heq, hloop.worked.toConcerns, reportOf_about, ?_⟩
      refine ⟨_, .caughtUp hcome htoday hsplits ?_, hloop.caughtUp⟩
      rw [hm]
      exact hloop.catches
  · -- the next run is later, and the loop stops at once
    have hlater : isoOf a < bill.template.nextRun := by
      by_contra hnot
      rw [hm] at hnot
      have hlatest := ht.scanned
      rw [hm] at hlatest
      exact hcome (hiff.mpr ⟨((dateLe_isoOf (latest_readable hnow) hm100).mp hlatest).1, hnot⟩)
    refine ⟨{}, d, ?_, .refl _ d, about_empty, .untouched, .untouched hcome, .refl _ d, rfl⟩
    rw [PostDueBillsResult.add_empty]
    show (if isoOf a < bill.template.nextRun then next result else _).alone clock d {} = _
    rw [if_pos hlater]

theorem turn_alone (hnow : Before9999 now) (hlocal : LocalDates env now) (hready : Ready env d)
    (ht : Turn env now d bill) {bills : List DueBill} {result : PostDueBillsResult} :
    ∃ report d', (postBills env now (bill :: bills) result).alone clock d {} =
        (postBills env now bills (result.add report)).alone clock d' {} ∧
      TurnEnds env now clock bill d d' report := by
  rw [postBills]
  cases htoday : todayInTimezone env bill.timezone now with
  | error err =>
    refine ⟨_, _, ?_, turn_paused ht (.noDate ⟨ht.active, ?_⟩ htoday)⟩
    · dsimp only
      rw [pause_alone ht.row ht.active]
      simp [PostDueBillsResult.add]
    · rw [htoday]
      exact ht.scanned
  | ok today => exact turn_dated hnow hlocal hready ht htoday

end turn

/-! ## Section 5: The run -/

section run

variable {b : Uuid} {latest : JsString}

/-- Another template's turn does not change whose turn comes next. -/
theorem Turn.kept {other : DueBill} (ht : Turn env now d other) (hc : Concerns env bill.id d d')
    (hne : other.id ≠ bill.id) : Turn env now d' other where
  id := ht.id
  row := (hc.templates other.id hne).trans ht.row
  active := ht.active
  scanned := ht.scanned
  amount := ht.amount
  due := ht.due
  storable splits h := ht.storable splits ((billSplits_congr hc.houseMembers hc.rooms).symm.trans h)

/-- Nor what it is owed. -/
theorem Concerns.agrees {other : DueBill} (hc : Concerns env bill.id d d') (hne : other.id ≠ bill.id) :
    Agrees other d d' where
  splits := billSplits_congr hc.houseMembers hc.rooms
  periods _ := (hc.untouched hne).hasPeriod

/-- What a run over `bills` leads to, template by template. -/
structure RunEnds (env : Env) (now clock : Millis) (bills : List DueBill) (d d' : Db)
    (report : PostDueBillsResult) : Prop where
  adds : Adds d d'
  due : ∀ bill ∈ bills, ∃ o, Owed env now d bill o ∧ o.Shown clock bill d d' (report.of bill.id)
  others : ∀ b, b ∉ bills.map DueBill.id → Untouched b d d' ∧ report.of b = {}

theorem RunEnds.cons {d₁ : Db} {bills : List DueBill} {more : PostDueBillsResult}
    (hnew : bill.id ∉ bills.map DueBill.id) (hturn : TurnEnds env now clock bill d d₁ report)
    (hrun : RunEnds env now clock bills d₁ d' more) :
    RunEnds env now clock (bill :: bills) d d' (report.add more) where
  adds := hturn.concerns.toAdds.trans hrun.adds
  due other hmem := by
    rcases List.mem_cons.mp hmem with rfl | hmem
    · -- its own turn, and then the turns of others
      obtain ⟨o, howed, hshown⟩ := hturn.outcome
      obtain ⟨huntouched, hnone⟩ := hrun.others other.id hnew
      rw [PostDueBillsResult.of_add, hturn.about.of_self, hnone, PostDueBillsResult.add_empty]
      exact ⟨o, howed, hshown.after huntouched hrun.adds⟩
    · -- the turn of another one, and then its own
      have hne : other.id ≠ bill.id := fun heq => hnew (heq ▸ List.mem_map_of_mem hmem)
      obtain ⟨o, howed, hshown⟩ := hrun.due other hmem
      have hback : Agrees other d₁ d := by
        have hagrees := hturn.concerns.agrees hne
        exact ⟨hagrees.splits.symm, fun p => (hagrees.periods p).symm⟩
      rw [PostDueBillsResult.of_add, hturn.about.of_other hne, PostDueBillsResult.empty_add]
      exact ⟨o, howed.congr hback,
        hshown.before (hturn.concerns.untouched hne) hturn.concerns.toAdds⟩
  others b hb := by
    rw [List.map_cons, List.mem_cons, not_or] at hb
    obtain ⟨huntouched, hnone⟩ := hrun.others b hb.2
    refine ⟨(hturn.concerns.untouched hb.1).trans huntouched, ?_⟩
    rw [PostDueBillsResult.of_add, hturn.about.of_other hb.1, hnone]
    rfl

/-- The run over the templates of the scan, one turn after the other. -/
theorem postBills_alone (hnow : Before9999 now) (hlocal : LocalDates env now) {bills : List DueBill}
    (hnodup : (bills.map DueBill.id).Nodup) (hready : Ready env d)
    (hturns : ∀ bill ∈ bills, Turn env now d bill) {result : PostDueBillsResult} :
    ∃ report d', (postBills env now bills result).alone clock d {} =
        (.success (.run (result.add report)), d') ∧ RunEnds env now clock bills d d' report := by
  induction bills generalizing d result with
  | nil =>
    refine ⟨{}, d, ?_, .refl d, fun _ h => (by cases h), fun b _ => ⟨.refl b d, rfl⟩⟩
    rw [PostDueBillsResult.add_empty]
    rfl
  | cons bill bills ih =>
    rw [List.map_cons, List.nodup_cons] at hnodup
    obtain ⟨report, d₁, heq, hturn⟩ := @turn_alone env d now clock bill hnow hlocal hready
      (hturns bill (List.mem_cons_self ..)) bills result
    have hrest : ∀ other ∈ bills, Turn env now d₁ other := by
      intro other hmem
      refine (hturns other (List.mem_cons_of_mem _ hmem)).kept hturn.concerns fun hsame => ?_
      exact hnodup.1 (hsame ▸ List.mem_map_of_mem hmem)
    obtain ⟨more, d', heq', hrun⟩ := @ih d₁ hnodup.2 (hturn.concerns.ready hready) hrest
      (result.add report)
    refine ⟨report.add more, d', ?_, hrun.cons hnodup.1 hturn⟩
    rw [heq, heq', PostDueBillsResult.add_assoc]

end run

/-! ### The scan -/

/-- The template with the columns of its house that the scan joins. -/
structure ScanRow (d : Db) (bill : DueBill) : Prop where
  template : d.billTemplates.lookup bill.id = some bill.template
  house : ∃ house, d.houses.lookup bill.template.houseId = some house ∧
    bill.timezone = house.timezone ∧ bill.currency = house.currency

theorem mem_dueBills {latest : JsString} : bill ∈ dueBills d latest ↔
    ScanRow d bill ∧ bill.template.active = true ∧ dateLe bill.template.nextRun latest := by
  rw [dueBills, List.mem_insertionSort, List.mem_filterMap]
  constructor
  · rintro ⟨⟨id, template⟩, hrow, hbill⟩
    dsimp only at hbill
    split at hbill
    · next hscan =>
      obtain ⟨house, hhouse, rfl⟩ := Option.map_eq_some_iff.mp hbill
      exact ⟨⟨Table.mem_rows.mp hrow, house, hhouse, rfl, rfl⟩, hscan⟩
    · cases hbill
  · rintro ⟨⟨htemplate, house, hhouse, htimezone, hcurrency⟩, hscan⟩
    refine ⟨(bill.id, bill.template), Table.mem_rows.mpr htemplate, ?_⟩
    dsimp only
    rw [if_pos hscan, hhouse, Option.map_some, ← htimezone, ← hcurrency]

/-- Keys that a filter keeps are in the list, in its order. -/
theorem map_filterMap_sublist {α β γ : Type} {f : α → Option β} {g : β → γ} {h : α → γ}
    (hkey : ∀ x y, f x = some y → g y = h x) (l : List α) :
    ((l.filterMap f).map g).Sublist (l.map h) := by
  induction l with
  | nil => exact List.Sublist.slnil
  | cons x rest ih =>
    rw [List.filterMap_cons, List.map_cons]
    cases hx : f x with
    | none => exact ih.cons _
    | some y =>
      dsimp only
      rw [List.map_cons, hkey x y hx]
      exact ih.cons_cons _

/-- The scan has each template once. -/
theorem nodup_dueBills (d : Db) (latest : JsString) : ((dueBills d latest).map DueBill.id).Nodup := by
  unfold dueBills
  rw [((List.perm_insertionSort _ _).map DueBill.id).nodup_iff]
  refine d.billTemplates.nodup_keys_rows.sublist (map_filterMap_sublist (fun row bill hbill => ?_) _)
  dsimp only at hbill
  split at hbill
  · obtain ⟨house, _, rfl⟩ := Option.map_eq_some_iff.mp hbill
    rfl
  · cases hbill

/-- What is due is in the scan, whatever the timezone of its house. -/
theorem DueBill.Due.scanned (h : bill.Due env now) (hnow : Before9999 now) (hlocal : LocalDates env now)
    (hdue : FallsDue bill.template.cadence bill.template.cadenceDay bill.template.nextRun) :
    dateLe bill.template.nextRun (latestPossibleToday now) := by
  obtain ⟨m, hm, hm100, _⟩ := hdue.day
  obtain ⟨_, hle⟩ := h
  have hlatest := latest_readable hnow
  rw [hm] at hle ⊢
  split at hle
  · next today htoday =>
    obtain ⟨a, ha, hbound, rfl⟩ := hlocal bill.timezone today (by
      unfold todayInTimezone at htoday
      split at htoday
      · next hformat => rw [hformat, Except.ok.inj htoday]
      · cases htoday)
    obtain ⟨hread, hnot⟩ := (dateLe_isoOf ha hm100).mp hle
    rw [isoOf_lt ha hread] at hnot
    refine (dateLe_isoOf hlatest hm100).mpr ⟨hread, ?_⟩
    rw [isoOf_lt hlatest hread]
    omega
  · exact hle

/-! ### Reachable databases -/

/-- Every template of a reachable database has the outcome that it is owed,
    whatever the order of the scan. -/
theorem scan_settles {s : HomiState} (hs : HomiReachable env s) (hnow : Before9999 now)
    (hlocal : LocalDates env now) {bills : List DueBill}
    (horder : bills.Perm (dueBills s.db (latestPossibleToday now))) :
    ∃ result d', (postBills env now bills {}).alone clock s.db {} = (.success (.run result), d') ∧
      ∀ b t, s.db.billTemplates.lookup b = some t → ∃ bill o, bill.id = b ∧ bill.template = t ∧
        ScanRow s.db bill ∧ Owed env now s.db bill o ∧ o.Shown clock bill s.db d' (result.of b) := by
  have htemplates := templates_reachable hs
  have hbase : LedgerBase env s.db := (ledger_reachable hs).inv.1
  have hready : Ready env s.db := ⟨hbase.bookings.ids, hbase.bookings.rids, hbase.bookings.expense⟩
  have hmem : ∀ bill, bill ∈ bills ↔ ScanRow s.db bill ∧ bill.template.active = true ∧
      dateLe bill.template.nextRun (latestPossibleToday now) :=
    fun bill => horder.mem_iff.trans mem_dueBills
  have hnodup : (bills.map DueBill.id).Nodup :=
    (horder.map DueBill.id).nodup_iff.mpr (nodup_dueBills _ _)
  have hturns : ∀ bill ∈ bills, Turn env now s.db bill := by
    intro bill hbill
    obtain ⟨hrow, hactive, hscanned⟩ := (hmem bill).mp hbill
    have hstanding := htemplates.standing _ _ hrow.template
    obtain ⟨n, _, hid⟩ := htemplates.ids _ _ hrow.template
    exact ⟨hid ▸ env.toUuid_uuid n, hrow.template, hactive, hscanned, hstanding.amount,
      hstanding.due, fun splits h => storable_of_billSplits hbase.people hstanding.amount h⟩
  obtain ⟨report, d', heq, hrun⟩ := @postBills_alone env s.db now clock hnow hlocal bills hnodup
    hready hturns {}
  refine ⟨report, d', heq, fun b t ht => ?_⟩
  have hstanding := htemplates.standing b t ht
  obtain ⟨house, hhouse⟩ := hstanding.house
  have hrow : ScanRow s.db ⟨b, t, house.timezone, house.currency⟩ := ⟨ht, house, hhouse, rfl, rfl⟩
  by_cases hbill : (⟨b, t, house.timezone, house.currency⟩ : DueBill) ∈ bills
  · obtain ⟨o, howed, hshown⟩ := hrun.due _ hbill
    exact ⟨_, o, rfl, rfl, hrow, howed, hshown⟩
  · -- what is not scanned is not due
    have hnot : b ∉ bills.map DueBill.id := by
      intro hb
      obtain ⟨other, hother, rfl⟩ := List.mem_map.mp hb
      obtain ⟨⟨ht', house', hhouse', htimezone, hcurrency⟩, _⟩ := (hmem other).mp hother
      obtain ⟨id, template, timezone, currency⟩ := other
      cases ht'.symm.trans ht
      cases hhouse'.symm.trans hhouse
      cases htimezone
      cases hcurrency
      exact hbill hother
    refine ⟨_, .untouched, rfl, rfl, hrow, .untouched fun hdue => hbill ?_, hrun.others b hnot⟩
    exact (hmem _).mpr ⟨hrow, hdue.1, hdue.scanned hnow hlocal hstanding.due⟩

/-- Both databases have the same members and rooms of the house, and the
    same periods of the template. -/
structure Alike (bill : DueBill) (d d' : Db) : Prop
    extends SameHouse (toUuid bill.template.houseId) d d' where
  periods : ∀ p, HasPeriod d' bill.id p ↔ HasPeriod d bill.id p

/-- The worker's runs from `s`, template by template.

    * `scan`: a run takes the templates in the order of the scan.
    * `settles`: in any order, each template has the outcome that it is owed.
    * `alike`: no other template has a say in that outcome.
    * `runs`: the system has the run wherever no process holds a lock. -/
structure WorkerSettles (env : Env) (now clock : Millis) (s : HomiState) : Prop where
  scan : (postDueBills env now).alone clock s.db {} =
    (postBills env now (dueBills s.db (latestPossibleToday now)) {}).alone clock s.db {}
  settles : ∀ bills : List DueBill, bills.Perm (dueBills s.db (latestPossibleToday now)) →
    ∃ result d', (postBills env now bills {}).alone clock s.db {} = (.success (.run result), d') ∧
      ∀ b t, s.db.billTemplates.lookup b = some t → ∃ bill o, bill.id = b ∧ bill.template = t ∧
        ScanRow s.db bill ∧ Owed env now s.db bill o ∧ o.Shown clock bill s.db d' (result.of b)
  alike : ∀ bill o, ScanRow s.db bill → Owed env now s.db bill o → ∀ d o', ScanRow d bill →
    Alike bill s.db d → Owed env now d bill o' → o' = o
  runs : (∀ (p : ℕ) pr, s.procs[p]? = some pr → pr.tx.locks = []) → ∃ s₁ s',
    step (homi env) s (.start (.postDueBills now)) = some s₁ ∧ Steps (homi env) s₁ s' ∧
      s'.db = ((postDueBills env now).alone clock s.db {}).2 ∧
      ∃ pr, s'.procs[s.procs.length]? = some pr ∧
        pr.prog = .done ((postDueBills env now).alone clock s.db {}).1

/-- One run of the worker settles every template, in any order of the scan. -/
theorem worker_run_settles (env : Env) (s : HomiState) (hs : HomiReachable env s) (now clock : Millis)
    (hnow : Before9999 now) (hlocal : LocalDates env now) : WorkerSettles env now clock s where
  scan := by
    have hadd : isoAddDays (utcDate now) 1 = .ok (latestPossibleToday now) :=
      isoAddDays_isoOf (readable_today hnow le_rfl (by omega)) 1
    unfold postDueBills
    rw [hadd]
    show (postBills env now (dueBills (seen {} s.db clock).db _) {}).alone clock s.db {} = _
    rw [show (seen ({} : Writes) s.db clock).db = s.db from congrArg View.db (seen_nothing s.db clock)]
  settles bills horder := scan_settles hs hnow hlocal horder
  alike bill o _ howed d o' _ halike howed' :=
    howed'.unique (howed.congr ⟨halike.billSplits, halike.periods⟩)
  runs hidle := Prog.alone_call clock rfl hidle

/-- The only timezone of `sampleEnv` is UTC. -/
theorem localDates_sampleEnv (hnow : Before9999 now) : LocalDates sampleEnv now := by
  intro timezone today htoday
  have hutc : today = utcDate now := by
    change (if timezone = js "UTC" then Except.ok (utcDate now) else _) = _ at htoday
    split at htoday
    · exact (Except.ok.inj htoday).symm
    · cases htoday
  exact ⟨utcDayOf now, readable_today hnow le_rfl (by omega), by omega, hutc⟩

/-- `ann` schedules a bill for every Monday. -/
def scheduled : List (Action Call) :=
  serial 1000 0 (opening ++ [(.createBill theHouse ann (sampleUuid 200) mondays, 11)])

/-- Thirty days later the worker posts the Mondays since. -/
theorem worker_run_settles_mondays : ∃ s : HomiState, succeeded s 3 = true ∧
    WorkerSettles sampleEnv (30 * 86400000) 5 s := by
  obtain ⟨s, hrun, hs⟩ := Run.exists_of_drive (homi sampleEnv) scheduled
    (fun s => succeeded s 3) (by decide +kernel)
  have hnow : Before9999 (30 * 86400000) := by decide
  exact ⟨s, hs, worker_run_settles sampleEnv s hrun _ 5 hnow (localDates_sampleEnv hnow)⟩

end Homi
