import Homi.Domain.Schedule
import Mathlib.Data.Int.LeastGreatest

/-! # Due dates tile the calendar

  The due dates that a schedule steps through from a start date are all
  its due dates after the start: one in every month, or one every seven
  days. So their periods differ, and going on from any later day comes
  back to the same dates.
-/

open Calendar

variable {cadence : Cadence} {cadenceDay start s : JsString} {n n' a b : ℤ} {c : Date} {i j k : ℕ}

/-- The due dates from `start` on, one after the other. -/
def nthDue (cadence : Cadence) (cadenceDay start : JsString) : ℕ → Except ScheduleError JsString
  | 0 => nextDueDate cadence cadenceDay start
  | k + 1 => do nextDueDate cadence cadenceDay (← nthDue cadence cadenceDay start k)

/-! ## Section 1: Readable days -/

theorem year_mono (h : n ≤ n') : (dateOf n).y ≤ (dateOf n').y := by
  rcases lt_or_eq_of_le h with h | rfl
  · rw [← dayNumber_dateOf n, ← dayNumber_dateOf n',
      dayNumber_lt_iff (dateOf_real n) (dateOf_real n')] at h
    unfold Date.Before at h
    omega
  · exact le_refl _

theorem Readable.between (h : Readable n) (h' : Readable n') (ha : n ≤ a) (ha' : a ≤ n') :
    Readable a := ⟨h.1.trans (year_mono ha), (year_mono ha').trans h'.2⟩

theorem four_le_length_decimal {m : ℕ} (h : 1000 ≤ m) : 4 ≤ (JsString.decimal m).length := by
  induction m using Nat.strong_induction_on with
  | _ m ih =>
    by_cases hsmall : m < 10000
    · rw [decimal_four h hsmall]
      rfl
    · have hsnoc := decimal_snoc (by omega : 0 < m / 10) (by omega : m % 10 < 10)
      have hrest := ih (m / 10) (by omega) (by omega)
      rw [show 10 * (m / 10) + m % 10 = m by omega] at hsnoc
      rw [hsnoc, List.length_append]
      omega

/-- A year of five digits prints too long. -/
theorem readable_of_length (h : 100 ≤ (dateOf a).y) (hlen : (isoOf a).length ≤ 10) : Readable a := by
  refine ⟨h, ?_⟩
  by_contra hlong
  rw [not_le] at hlong
  obtain ⟨y, hy⟩ := Int.eq_ofNat_of_zero_le (by omega : 0 ≤ (dateOf a).y)
  have hyear : 5 ≤ (padStart 4 (dateOf a).y).length := by
    have hsnoc := decimal_snoc (by omega : 0 < y / 10) (by omega : y % 10 < 10)
    have hfour := four_le_length_decimal (by omega : 1000 ≤ y / 10)
    rw [show 10 * (y / 10) + y % 10 = y by omega] at hsnoc
    rw [hy, padStart, hsnoc]
    simp only [List.length_append, List.length_replicate, List.length_singleton]
    omega
  have hpad : ∀ x : ℤ, 2 ≤ (padStart 2 x).length := by
    intro x
    simp only [padStart, List.length_append, List.length_replicate]
    omega
  have hmonth := hpad (dateOf a).m
  have hday := hpad (dateOf a).d
  simp only [isoOf, toISO, List.length_append, List.length_cons] at hlen
  omega

theorem length_isoOf (h : Readable a) : (isoOf a).length = 10 := by
  rw [isoOf, toISO_eq h.1 h.2 (dateOf_real a)]
  rfl

theorem readable_of_parse (h : 100 ≤ (dateOf a).y) (hp : parseISO (isoOf a) = .ok c) : Readable a := by
  obtain ⟨hread, hiso, _⟩ := parseISO_ok hp
  apply readable_of_length h
  rw [hiso, length_isoOf hread]

theorem parse_iff_isoOf : parseISO s = .ok c ↔ ∃ n, Readable n ∧ s = isoOf n ∧ c = dateOf n := by
  constructor
  · intro h
    obtain ⟨hread, hiso, hreal⟩ := parseISO_ok h
    exact ⟨dayNumber c, hread, hiso, (dateOf_dayNumber hreal).symm⟩
  · rintro ⟨n, hn, rfl, rfl⟩
    exact parseISO_isoOf hn

theorem isoAddDays_isoOf (h : Readable n) (days : ℤ) : isoAddDays (isoOf n) days = .ok (isoOf (n + days)) := by
  unfold isoAddDays
  rw [parseISO_isoOf h]
  simp only [bind, Except.bind, pure, Except.pure]
  rw [utcDay_eq h.1 (dateOf_real n), dayNumber_dateOf]
  rfl

/-! ## Section 2: The next one -/

theorem NextDue.unique (h : NextDue cadence cadenceDay n a) (h' : NextDue cadence cadenceDay n b) :
    a = b := by
  rcases lt_trichotomy a b with hlt | heq | hlt
  · exact absurd h.due (h'.first a h.later hlt)
  · exact heq
  · exact absurd h'.due (h.first b h'.later hlt)

theorem weekday_target (hv : validateSchedule .weekly cadenceDay = .ok ()) :
    (WEEKDAYS.idxOf cadenceDay : ℤ) < 7 := by
  unfold validateSchedule at hv
  dsimp only at hv
  split at hv
  · next hmem =>
    have hlt := List.idxOf_lt_length_of_mem hmem
    rw [show WEEKDAYS.length = 7 from rfl] at hlt
    omega
  · cases hv

/-- A weekly schedule always has a next due date. -/
theorem nextDueDate_weekly (hv : validateSchedule .weekly cadenceDay = .ok ()) (hn : Readable n) :
    ∃ iso, nextDueDate .weekly cadenceDay (isoOf n) = .ok iso := by
  cases hres : nextDueDate .weekly cadenceDay (isoOf n) with
  | ok iso => exact ⟨iso, rfl⟩
  | error e =>
    exfalso
    unfold nextDueDate at hres
    simp only [hv, parseISO_isoOf hn, bind, Except.bind] at hres
    split at hres
    · cases hres
    · next hnone =>
      rw [List.findSome?_eq_none_iff] at hnone
      have hlt := weekday_target hv
      -- one of seven days has the weekday
      have hmem : ((WEEKDAYS.idxOf cadenceDay : ℤ) - weekday (n + 1)) % 7 < 7 := by omega
      have hstep := hnone (((WEEKDAYS.idxOf cadenceDay : ℤ) - weekday (n + 1)) % 7).toNat
        (List.mem_range.mpr (by omega))
      rw [utcDay_eq hn.1 (dateOf_real n), dayNumber_dateOf] at hstep
      split at hstep
      · cases hstep
      · next hday =>
        refine hday ?_
        unfold weekday at *
        omega

/-- A monthly schedule has a next due date where the calendar has one. -/
theorem nextDueDate_monthly (hv : validateSchedule .monthly cadenceDay = .ok ()) (hn : Readable n)
    (h : NextDue .monthly cadenceDay n n') (hn' : Readable n') :
    ∃ iso, nextDueDate .monthly cadenceDay (isoOf n) = .ok iso := by
  cases hres : nextDueDate .monthly cadenceDay (isoOf n) with
  | ok iso => exact ⟨iso, rfl⟩
  | error e =>
    exfalso
    unfold nextDueDate at hres
    simp only [hv, parseISO_isoOf hn, bind, Except.bind] at hres
    split at hres
    · cases hres
    · next hnone =>
      rw [List.findSome?_eq_none_iff] at hnone
      obtain ⟨⟨h1, h12⟩, hd1, hdl⟩ := dateOf_real n
      have hdue : ∀ {y m : ℤ}, 1 ≤ m → m ≤ 12 → Date.Real ⟨y, m, dueDay cadenceDay y m⟩ :=
        fun h1 h12 => ⟨⟨h1, h12⟩, dueDay_bounds hv h1 h12⟩
      have hlater := h.later
      rw [← dayNumber_dateOf n, ← dayNumber_dateOf n',
        dayNumber_lt_iff (dateOf_real n) (dateOf_real n')] at hlater
      have hday : (dateOf n').d = dueDay cadenceDay (dateOf n').y (dateOf n').m := h.due
      -- a month whose due date is later is found
      have hmiss : ∀ offset < 3, ∀ y m : ℤ,
          (dateOf n).y + ((dateOf n).m - 1 + ((offset : ℕ) : ℤ)) / 12 = y →
          ((dateOf n).m - 1 + ((offset : ℕ) : ℤ)) % 12 + 1 = m → 100 ≤ y → y ≤ 9999 →
          ¬ (dateOf n).Before ⟨y, m, dueDay cadenceDay y m⟩ := by
        intro offset hoff y m hy hm h100 h9999 hbefore
        have hstep := hnone offset (List.mem_range.mpr hoff)
        rw [hy, hm, monthlyDue_eq h100 (by omega) (by omega)] at hstep
        have hlt : isoOf n < toISO y m (dueDay cadenceDay y m) :=
          (toISO_lt (dateOf n) ⟨y, m, _⟩ hn.1 hn.2 (dateOf_real n) h100 h9999
            (hdue (by omega) (by omega))).mpr hbefore
        rw [if_pos hlt] at hstep
        cases hstep
      obtain ⟨hlo, hhi⟩ := hn
      obtain ⟨hlo', hhi'⟩ := hn'
      have hthis := hmiss 0 (by omega) (dateOf n).y (dateOf n).m (by omega) (by omega) hlo hhi
      obtain ⟨⟨h1', h12'⟩, -, -⟩ := dateOf_real n'
      by_cases hsame : (dateOf n').y = (dateOf n).y ∧ (dateOf n').m = (dateOf n).m
      · refine hthis ?_
        rw [hsame.1, hsame.2] at hday
        unfold Date.Before at hlater ⊢
        dsimp only
        omega
      · refine hmiss 1 (by omega) ((dateOf n).y + (dateOf n).m / 12) ((dateOf n).m % 12 + 1)
          (by omega) (by omega) (by omega) ?_ ?_
        · unfold Date.Before at hlater
          omega
        · unfold Date.Before
          dsimp only
          omega

/-- `nextDueDate` finds the next due date. -/
theorem nextDueDate_eq (hv : validateSchedule cadence cadenceDay = .ok ()) (hn : Readable n)
    (h : NextDue cadence cadenceDay n n') (hn' : cadence = .monthly → Readable n') :
    nextDueDate cadence cadenceDay (isoOf n) = .ok (isoOf n') := by
  obtain ⟨iso, hiso⟩ : ∃ iso, nextDueDate cadence cadenceDay (isoOf n) = .ok iso := by
    cases cadence with
    | weekly => exact nextDueDate_weekly hv hn
    | monthly => exact nextDueDate_monthly hv hn h (hn' rfl)
  obtain ⟨m, m', hm, heq, rfl, hnext⟩ := nextDueDate_ok hiso
  obtain rfl := isoOf_inj hn hm heq
  rw [hiso, h.unique hnext]

/-- The step that `nextDueDate` makes between dates that can be read. -/
theorem nextDueDate_step (h : nextDueDate cadence cadenceDay start = .ok (isoOf n'))
    (hn' : Readable n') : ∃ m, Readable m ∧ start = isoOf m ∧ NextDue cadence cadenceDay m n' := by
  obtain ⟨m, a, hm, hstart, hiso, hnext⟩ := nextDueDate_ok h
  have hyear : 100 ≤ (dateOf a).y := hm.1.trans (year_mono hnext.later.le)
  have ha : Readable a := readable_of_parse hyear (hiso ▸ parseISO_isoOf hn')
  obtain rfl := isoOf_inj hn' ha hiso
  exact ⟨m, hm, hstart, hnext⟩

/-! ## Section 3: The sequence -/

theorem nthDue_succ {t : JsString} (h : nthDue cadence cadenceDay start (k + 1) = .ok t) :
    ∃ s, nthDue cadence cadenceDay start k = .ok s ∧ nextDueDate cadence cadenceDay s = .ok t := by
  rw [nthDue] at h
  cases hk : nthDue cadence cadenceDay start k with
  | error e => rw [hk] at h; cases h
  | ok s => rw [hk] at h; exact ⟨s, rfl, h⟩

/-- The `k`th due date `a` comes after `n`, and what comes between are the
    ones before it. -/
structure Reached (cadence : Cadence) (cadenceDay : JsString) (n : ℤ) (k : ℕ) (a : ℤ) : Prop where
  due : IsDue cadence cadenceDay a
  later : n < a
  before : ∀ j < k, ∃ b, Readable b ∧ nthDue cadence cadenceDay (isoOf n) j = .ok (isoOf b) ∧ b < a
  between : ∀ b, n < b → b < a → IsDue cadence cadenceDay b →
    ∃ j < k, nthDue cadence cadenceDay (isoOf n) j = .ok (isoOf b)

theorem reached_of_nthDue (hn : Readable n) (ha : Readable a)
    (h : nthDue cadence cadenceDay (isoOf n) k = .ok (isoOf a)) : Reached cadence cadenceDay n k a := by
  induction k generalizing a with
  | zero =>
    obtain ⟨m, hm, heq, hnext⟩ := nextDueDate_step h ha
    obtain rfl := isoOf_inj hn hm heq
    exact ⟨hnext.due, hnext.later, fun j hj => absurd hj (Nat.not_lt_zero j),
      fun b hb hba hdue => absurd hdue (hnext.first b hb hba)⟩
  | succ k ih =>
    obtain ⟨s, hs, hstep⟩ := nthDue_succ h
    obtain ⟨m, hm, rfl, hnext⟩ := nextDueDate_step hstep ha
    have hold := ih hm hs
    refine ⟨hnext.due, hold.later.trans hnext.later, fun j hj => ?_, fun b hb hba hdue => ?_⟩
    · rcases Nat.lt_succ_iff_lt_or_eq.mp hj with hj | rfl
      · obtain ⟨b, hb, hj', hbm⟩ := hold.before j hj
        exact ⟨b, hb, hj', hbm.trans hnext.later⟩
      · exact ⟨m, hm, hs, hnext.later⟩
    · -- a due date before, at or after the one before the last
      rcases lt_trichotomy b m with hbm | rfl | hmb
      · obtain ⟨j, hj, hjb⟩ := hold.between b hb hbm hdue
        exact ⟨j, hj.trans (Nat.lt_succ_self k), hjb⟩
      · exact ⟨k, Nat.lt_succ_self k, hs⟩
      · exact absurd hdue (hnext.first b hmb hba)

/-- Every due date after the start is reached. -/
theorem exists_nthDue (hv : validateSchedule cadence cadenceDay = .ok ()) (hn : Readable n)
    (ha : Readable a) (hdue : IsDue cadence cadenceDay a) (hlater : n < a) :
    ∃ k, nthDue cadence cadenceDay (isoOf n) k = .ok (isoOf a) := by
  obtain ⟨gap, hgap⟩ := Int.eq_ofNat_of_zero_le (by omega : 0 ≤ a - n)
  induction gap using Nat.strong_induction_on generalizing a with
  | _ gap ih =>
    by_cases hbetween : ∃ b, n < b ∧ b < a ∧ IsDue cadence cadenceDay b
    · -- the last one before `a`, and then the step to `a`
      obtain ⟨b, ⟨hb, hba, hbdue⟩, hlast⟩ := Int.exists_greatest_of_bdd
        (P := fun b => n < b ∧ b < a ∧ IsDue cadence cadenceDay b) ⟨a, fun b hb => hb.2.1.le⟩ hbetween
      have hbread := hn.between ha hb.le hba.le
      obtain ⟨g, hg⟩ := Int.eq_ofNat_of_zero_le (by omega : 0 ≤ b - n)
      obtain ⟨k, hk⟩ := ih g (by omega) hbread hbdue hb hg
      have hnext : NextDue cadence cadenceDay b a :=
        ⟨hdue, hba, fun x hx hxa hxdue => absurd (hlast x ⟨hb.trans hx, hxa, hxdue⟩) (not_le.mpr hx)⟩
      refine ⟨k + 1, ?_⟩
      rw [nthDue, hk]
      exact nextDueDate_eq hv hbread hnext fun _ => ha
    · refine ⟨0, nextDueDate_eq hv hn ⟨hdue, hlater, fun b hb hba hbdue => ?_⟩ fun _ => ha⟩
      exact hbetween ⟨b, hb, hba, hbdue⟩

theorem nthDue_inj (hn : Readable n) (ha : Readable a)
    (hi : nthDue cadence cadenceDay (isoOf n) i = .ok (isoOf a))
    (hj : nthDue cadence cadenceDay (isoOf n) j = .ok (isoOf a)) : i = j := by
  have hlt : ∀ {i j}, nthDue cadence cadenceDay (isoOf n) i = .ok (isoOf a) →
      nthDue cadence cadenceDay (isoOf n) j = .ok (isoOf a) → ¬ i < j := by
    intro i j hi hj hij
    obtain ⟨b, hb, hb', hba⟩ := (reached_of_nthDue hn ha hj).before i hij
    rw [hi] at hb'
    exact absurd (isoOf_inj ha hb (Except.ok.inj hb')) hba.ne'
  rcases lt_trichotomy i j with h | h | h
  · exact absurd h (hlt hi hj)
  · exact h
  · exact absurd h (hlt hj hi)

/-! ## Section 4: Tiles -/

theorem nextDue_week (hdue : IsDue .weekly cadenceDay n) : NextDue .weekly cadenceDay n (n + 7) := by
  have hdue : weekday n = WEEKDAYS.idxOf cadenceDay := hdue
  have hother : ∀ k, IsDue .weekly cadenceDay k ↔ weekday k = WEEKDAYS.idxOf cadenceDay :=
    fun k => Iff.rfl
  unfold weekday at *
  refine ⟨?_, by omega, fun k hk hk' h => ?_⟩
  · rw [hother]
    omega
  · rw [hother] at h
    omega

/-- The due dates from `start` on tile the calendar.

    * `months`: each month from the first one's on has exactly one.
    * `weeks`: each is followed by the one seven days later.
    * `named`, `periods`: each names a period, and no two name the same.
    * `resumes`: starting again from the day before a later `today` gives
      the first one from `today` on. -/
structure Tiles (cadence : Cadence) (cadenceDay start : JsString) : Prop where
  months : cadence = .monthly → ∀ s₁ c₁, nthDue cadence cadenceDay start 0 = .ok s₁ →
    parseISO s₁ = .ok c₁ → ∀ y m, 1 ≤ m → m ≤ 12 → y ≤ 9999 →
    (c₁.y < y ∨ c₁.y = y ∧ c₁.m ≤ m) →
    ∃! k, ∃ s c, nthDue cadence cadenceDay start k = .ok s ∧ parseISO s = .ok c ∧ c.y = y ∧ c.m = m
  weeks : cadence = .weekly → ∀ k s c, nthDue cadence cadenceDay start k = .ok s →
    parseISO s = .ok c → nthDue cadence cadenceDay start (k + 1) = .ok (isoOf (dayNumber c + 7))
  named : ∀ k s c, nthDue cadence cadenceDay start k = .ok s → parseISO s = .ok c →
    ∃ period, periodKey cadence s = .ok period
  periods : ∀ i j s s' period, nthDue cadence cadenceDay start i = .ok s →
    nthDue cadence cadenceDay start j = .ok s' → periodKey cadence s = .ok period →
    periodKey cadence s' = .ok period → i = j
  resumes : ∀ today t, parseISO today = .ok t → start < today →
    ∃ yesterday, isoAddDays today (-1) = .ok yesterday ∧ ∀ s c, parseISO s = .ok c →
      (nextDueDate cadence cadenceDay yesterday = .ok s ↔
        ∃ k, nthDue cadence cadenceDay start k = .ok s ∧ today ≤ s ∧
          ∀ j < k, ∀ s', nthDue cadence cadenceDay start j = .ok s' → s' < today)

theorem months_tile (hv : validateSchedule .monthly cadenceDay = .ok ()) (hn : Readable n)
    (ha : Readable a) (hfirst : nthDue .monthly cadenceDay (isoOf n) 0 = .ok (isoOf a)) {y m : ℤ}
    (h1 : 1 ≤ m) (h12 : m ≤ 12) (hy : y ≤ 9999)
    (hfrom : (dateOf a).y < y ∨ (dateOf a).y = y ∧ (dateOf a).m ≤ m) :
    ∃! k, ∃ s c, nthDue .monthly cadenceDay (isoOf n) k = .ok s ∧ parseISO s = .ok c ∧
      c.y = y ∧ c.m = m := by
  have hreal : Date.Real ⟨y, m, dueDay cadenceDay y m⟩ := ⟨⟨h1, h12⟩, dueDay_bounds hv h1 h12⟩
  have hback := dateOf_dayNumber hreal
  have hreached := reached_of_nthDue hn ha hfirst
  have hday : (dateOf a).d = dueDay cadenceDay (dateOf a).y (dateOf a).m := hreached.due
  -- the due date of the month
  obtain ⟨due, hdue⟩ : ∃ due, due = dayNumber ⟨y, m, dueDay cadenceDay y m⟩ := ⟨_, rfl⟩
  rw [← hdue] at hback
  have hle : a ≤ due := by
    rcases (dateOf a).before_trichotomy ⟨y, m, dueDay cadenceDay y m⟩ with hb | hb | hb
    · rw [← dayNumber_dateOf a, hdue]
      exact (dayNumber_lt (dateOf_real a) hreal hb).le
    · rw [← dayNumber_dateOf a, hb, hdue]
    · exfalso
      unfold Date.Before at hb
      dsimp only at hb
      obtain ⟨hy', hm'⟩ : (dateOf a).y = y ∧ (dateOf a).m = m := by omega
      rw [hy', hm'] at hday
      omega
  have hdread : Readable due := by
    obtain ⟨hlo, hhi⟩ := ha
    unfold Readable
    rw [hback]
    dsimp only
    omega
  have hisdue : IsDue .monthly cadenceDay due := by
    show (dateOf due).d = _
    rw [hback]
  obtain ⟨k, hk⟩ := exists_nthDue hv hn hdread hisdue (lt_of_lt_of_le hreached.later hle)
  refine ⟨k, ⟨isoOf due, dateOf due, hk, parseISO_isoOf hdread, by rw [hback], by rw [hback]⟩, ?_⟩
  rintro j ⟨s, c, hj, hp, hcy, hcm⟩
  obtain ⟨b, hb, rfl, rfl⟩ := parse_iff_isoOf.mp hp
  have hbdue : (dateOf b).d = dueDay cadenceDay (dateOf b).y (dateOf b).m :=
    (reached_of_nthDue hn hb hj).due
  obtain rfl : b = due := by
    rw [← dayNumber_dateOf b, hdue]
    refine congrArg dayNumber ?_
    rw [hcy, hcm] at hbdue
    cases hbd : dateOf b
    simp_all
  exact nthDue_inj hn hb hj hk

theorem resume_tiles (hv : validateSchedule cadence cadenceDay = .ok ()) (hn : Readable n)
    (hn' : Readable n') (hlt : n < n') (ha : Readable a) :
    nextDueDate cadence cadenceDay (isoOf (n' - 1)) = .ok (isoOf a) ↔
      ∃ k, nthDue cadence cadenceDay (isoOf n) k = .ok (isoOf a) ∧ isoOf n' ≤ isoOf a ∧
        ∀ j < k, ∀ s, nthDue cadence cadenceDay (isoOf n) j = .ok s → s < isoOf n' := by
  have hyesterday : Readable (n' - 1) := hn.between hn' (by omega) (by omega)
  have hle : ∀ {b}, Readable b → (isoOf n' ≤ isoOf b ↔ n' ≤ b) := fun hb => by
    rw [← not_lt, isoOf_lt hb hn', not_lt]
  constructor
  · intro h
    obtain ⟨m, hm, heq, hnext⟩ := nextDueDate_step h ha
    obtain rfl := isoOf_inj hyesterday hm heq
    have hlater := hnext.later
    -- the date that a resume finds is reached from the start
    obtain ⟨k, hk⟩ := exists_nthDue hv hn ha hnext.due (by omega)
    refine ⟨k, hk, (hle ha).mpr (by omega), fun j hj s hs => ?_⟩
    obtain ⟨b, hb, hjb, hba⟩ := (reached_of_nthDue hn ha hk).before j hj
    obtain rfl : s = isoOf b := Except.ok.inj (hs.symm.trans hjb)
    rw [isoOf_lt hb hn']
    by_contra hge
    exact hnext.first b (by omega) hba (reached_of_nthDue hn hb hjb).due
  · rintro ⟨k, hk, htoday, hfirst⟩
    -- the first one that is reached from today on is the next one
    have hreached := reached_of_nthDue hn ha hk
    have hge := (hle ha).mp htoday
    refine nextDueDate_eq hv hyesterday ⟨hreached.due, by omega, fun b hb hba hbdue => ?_⟩ fun _ => ha
    obtain ⟨j, hj, hjb⟩ := hreached.between b (by omega) hba hbdue
    have hbefore := hfirst j hj _ hjb
    rw [isoOf_lt (hn.between ha (by omega) hba.le) hn'] at hbefore
    omega

/-- The due dates of every valid schedule tile the calendar from every start
    date on. -/
theorem due_dates_tile (cadence : Cadence) (cadenceDay start : JsString) (c : Date)
    (hv : validateSchedule cadence cadenceDay = .ok ()) (hs : parseISO start = .ok c) :
    Tiles cadence cadenceDay start := by
  obtain ⟨n, hn, rfl, -⟩ := parse_iff_isoOf.mp hs
  refine ⟨?_, ?_, ?_, ?_, ?_⟩
  · -- one due date in every month
    rintro rfl s₁ c₁ hfirst hp y m h1 h12 hy hfrom
    obtain ⟨a, ha, rfl, rfl⟩ := parse_iff_isoOf.mp hp
    exact months_tile hv hn ha hfirst h1 h12 hy hfrom
  · -- and one every seven days
    rintro rfl k s c hk hp
    obtain ⟨a, ha, rfl, rfl⟩ := parse_iff_isoOf.mp hp
    rw [nthDue, hk, dayNumber_dateOf]
    exact nextDueDate_eq hv ha (nextDue_week (reached_of_nthDue hn ha hk).due) fun h => by cases h
  · intro k s c _ hp
    obtain ⟨a, ha, rfl, rfl⟩ := parse_iff_isoOf.mp hp
    exact ⟨_, periodKey_isoOf cadence ha⟩
  · -- two due dates name two periods
    intro i j s s' period hi hj hp hp'
    obtain ⟨a, ha, rfl⟩ := periodKey_ok hp
    obtain ⟨b, hb, rfl⟩ := periodKey_ok hp'
    obtain rfl := periodKey_inj ha hb (reached_of_nthDue hn ha hi).due (reached_of_nthDue hn hb hj).due
      hp hp'
    exact nthDue_inj hn ha hi hj
  · -- going on from a later day
    intro today t ht hlt
    obtain ⟨n', hn', rfl, -⟩ := parse_iff_isoOf.mp ht
    refine ⟨isoOf (n' - 1), isoAddDays_isoOf hn' (-1), fun s c hp => ?_⟩
    obtain ⟨a, ha, rfl, -⟩ := parse_iff_isoOf.mp hp
    exact resume_tiles hv hn hn' ((isoOf_lt hn hn').mp hlt) ha

/-- The last day of each month, from the middle of January on. -/
theorem due_dates_tile_last : Tiles .monthly (js "last") (js "2026-01-15") :=
  due_dates_tile _ _ _ ⟨2026, 1, 15⟩ (by decide +kernel) (by decide +kernel)

/-! ## Section 5: The least due date -/

/-- `next` is the first date after `after` that is due. -/
structure LeastDue (cadence : Cadence) (cadenceDay : JsString) (after next : Date) : Prop where
  real : next.Real
  due : IsDue cadence cadenceDay (dayNumber next)
  later : after.Before next
  least : ∀ c : Date, c.Real → IsDue cadence cadenceDay (dayNumber c) → after.Before c → ¬ c.Before next

/-- `s` is the text `YYYY-MM-DD` of the date `c`, of year 0100 or later. -/
structure IsoDate (s : JsString) (c : Date) : Prop where
  real : c.Real
  year : 100 ≤ c.y ∧ c.y ≤ 9999
  text : s = toISO c.y c.m c.d

theorem IsoDate.isoOf_eq (h : IsoDate s c) : s = isoOf (dayNumber c) := by
  rw [isoOf, dateOf_dayNumber h.real]
  exact h.text

theorem IsoDate.readable (h : IsoDate s c) : Readable (dayNumber c) := by
  rw [Readable, dateOf_dayNumber h.real]
  exact h.year

theorem parse_iff_isoDate : (∃ c, parseISO s = .ok c) ↔ ∃ c, IsoDate s c := by
  constructor
  · rintro ⟨c, h⟩
    obtain ⟨n, hn, rfl, rfl⟩ := parse_iff_isoOf.mp h
    exact ⟨dateOf n, dateOf_real n, hn, rfl⟩
  · rintro ⟨c, h⟩
    exact ⟨_, parse_iff_isoOf.mpr ⟨dayNumber c, h.readable, h.isoOf_eq, rfl⟩⟩

theorem LeastDue.nextDue {after due : Date} (h : LeastDue cadence cadenceDay after due)
    (ha : after.Real) : NextDue cadence cadenceDay (dayNumber after) (dayNumber due) where
  due := h.due
  later := dayNumber_lt ha h.real h.later
  first := by
    intro k hak hkd hdue
    have hbefore : after.Before (dateOf k) :=
      (dayNumber_lt_iff ha (dateOf_real k)).mp (by rw [dayNumber_dateOf]; exact hak)
    refine h.least (dateOf k) (dateOf_real k) (by rw [dayNumber_dateOf]; exact hdue) hbefore ?_
    exact (dayNumber_lt_iff (dateOf_real k) h.real).mp (by rw [dayNumber_dateOf]; exact hkd)

theorem NextDue.leastDue {after : Date} (ha : after.Real)
    (h : NextDue cadence cadenceDay (dayNumber after) n) :
    LeastDue cadence cadenceDay after (dateOf n) where
  real := dateOf_real n
  due := by rw [dayNumber_dateOf]; exact h.due
  later := (dayNumber_lt_iff ha (dateOf_real n)).mp (by rw [dayNumber_dateOf]; exact h.later)
  least := by
    intro c hc hdue hac hcn
    have hlt := dayNumber_lt hc (dateOf_real n) hcn
    rw [dayNumber_dateOf] at hlt
    exact h.first _ (dayNumber_lt ha hc hac) hlt hdue

/-- The due date of the month after that of `n`. -/
theorem next_month (hv : validateSchedule .monthly cadenceDay = .ok ()) (n : ℤ) :
    ∃ due : Date, IsDue .monthly cadenceDay (dayNumber due) ∧ due.Real ∧ n < dayNumber due ∧
      due.y = if (dateOf n).m = 12 then (dateOf n).y + 1 else (dateOf n).y := by
  have hreal := dateOf_real n
  have hmonth := hreal.month
  let y := if (dateOf n).m = 12 then (dateOf n).y + 1 else (dateOf n).y
  let m := if (dateOf n).m = 12 then 1 else (dateOf n).m + 1
  have hm : 1 ≤ m ∧ m ≤ 12 := by
    simp only [m]
    split <;> omega
  have hbounds := dueDay_bounds hv (y := y) hm.1 hm.2
  let due : Date := ⟨y, m, dueDay cadenceDay y m⟩
  have hdue : due.Real := ⟨hm, hbounds⟩
  refine ⟨due, ?_, hdue, ?_, rfl⟩
  · show (dateOf (dayNumber due)).d = _
    rw [dateOf_dayNumber hdue]
  · have hbefore : (dateOf n).Before due := by
      simp only [Date.Before, due, y, m]
      split <;> omega
    have hlt := dayNumber_lt hreal hdue hbefore
    rwa [dayNumber_dateOf] at hlt

/-- Every month and every week has a due date. -/
theorem exists_isDue (hv : validateSchedule cadence cadenceDay = .ok ()) (n : ℤ) :
    ∃ k, n < k ∧ IsDue cadence cadenceDay k := by
  cases cadence with
  | monthly =>
    obtain ⟨due, hdue, _, hlater, _⟩ := next_month hv n
    exact ⟨dayNumber due, hlater, hdue⟩
  | weekly =>
    have htarget := weekday_target hv
    refine ⟨n + 1 + (WEEKDAYS.idxOf cadenceDay - (n + 5)) % 7, by omega, ?_⟩
    show weekday _ = _
    unfold weekday
    omega

theorem exists_nextDue (hv : validateSchedule cadence cadenceDay = .ok ()) (n : ℤ) :
    ∃ n', NextDue cadence cadenceDay n n' := by
  obtain ⟨k, hk⟩ := exists_isDue hv n
  obtain ⟨n', ⟨hlater, hdue⟩, hleast⟩ := Int.exists_least_of_bdd
    (P := fun k => n < k ∧ IsDue cadence cadenceDay k) ⟨n, fun z hz => hz.1.le⟩ ⟨k, hk⟩
  refine ⟨n', hdue, hlater, fun j hnj hj hjdue => ?_⟩
  exact absurd (hleast j ⟨hnj, hjdue⟩) (not_le.mpr hj)

/-- A bill that is due by the first day of 9999 falls due again in that
    year at the latest. -/
theorem nextDue_readable (hv : validateSchedule cadence cadenceDay = .ok ()) (hn : 100 ≤ (dateOf n).y)
    (hlast : n ≤ dayNumber ⟨9999, 1, 1⟩) (h : NextDue cadence cadenceDay n n') : Readable n' := by
  refine ⟨hn.trans (year_mono h.later.le), ?_⟩
  cases cadence with
  | weekly =>
    -- a week has all weekdays
    have hweek : n' ≤ n + 7 := by
      by_contra hlate
      have htarget := weekday_target hv
      refine h.first (n + 1 + (WEEKDAYS.idxOf cadenceDay - (n + 5)) % 7) (by omega) (by omega) ?_
      show weekday _ = _
      unfold weekday
      omega
    have hdays : dayNumber ⟨9999, 1, 1⟩ + 7 = dayNumber ⟨9999, 1, 8⟩ := by decide +kernel
    have hmono := year_mono (hweek.trans (by omega : n + 7 ≤ dayNumber ⟨9999, 1, 8⟩))
    rwa [dateOf_dayNumber (by decide +kernel)] at hmono
  | monthly =>
    obtain ⟨due, hdue, hreal, hlater, hyear⟩ := next_month hv n
    have hle : n' ≤ dayNumber due := by
      by_contra hlate
      exact h.first _ hlater (not_le.mp hlate) hdue
    have hmono := year_mono hle
    rw [dateOf_dayNumber hreal] at hmono
    -- `n` is in 9998 or earlier, or on the first day of 9999
    have hbound := year_mono hlast
    rw [dateOf_dayNumber (by decide +kernel)] at hbound
    change (dateOf n).y ≤ 9999 at hbound
    by_cases hsame : (dateOf n).y = 9999
    · have hjan : (dateOf n).m = 1 := by
        by_contra hne
        have hmonth := (dateOf_real n).month
        have hbefore : Date.Before ⟨9999, 1, 1⟩ (dateOf n) := Or.inr ⟨hsame.symm, Or.inl (by dsimp only; omega)⟩
        have hlt := dayNumber_lt (by decide +kernel) (dateOf_real n) hbefore
        rw [dayNumber_dateOf] at hlt
        omega
      rw [hyear, if_neg (by omega)] at hmono
      exact hmono.trans hbound
    · rw [hyear] at hmono
      split at hmono
      · omega
      · exact hmono.trans hbound

/-- What `nextDueDate` returns and when it throws.

    * `next`: for a valid schedule and the text of a date there is a least
      due date after it, which is returned if it has four digits.
    * `schedule`, `text`: everything else is a `ScheduleError`. -/
structure NextDueSpec (cadence : Cadence) (cadenceDay afterISO : JsString) : Prop where
  next : ∀ after : Date, IsoDate afterISO after → validateSchedule cadence cadenceDay = .ok () →
    (∃ due, LeastDue cadence cadenceDay after due) ∧
      ∀ due, LeastDue cadence cadenceDay after due → due.y ≤ 9999 →
        nextDueDate cadence cadenceDay afterISO = .ok (toISO due.y due.m due.d)
  schedule : validateSchedule cadence cadenceDay ≠ .ok () →
    ∃ err, nextDueDate cadence cadenceDay afterISO = .error err
  text : (¬ ∃ after, IsoDate afterISO after) →
    ∃ err, nextDueDate cadence cadenceDay afterISO = .error err

theorem nextDueDate_least (cadence : Cadence) (cadenceDay afterISO : JsString) :
    NextDueSpec cadence cadenceDay afterISO where
  next := by
    intro after ha hv
    refine ⟨?_, fun due hdue hyear => ?_⟩
    · obtain ⟨n, hn⟩ := exists_nextDue hv (dayNumber after)
      exact ⟨dateOf n, hn.leastDue ha.real⟩
    · have hnext := hdue.nextDue ha.real
      have hread : Readable (dayNumber due) := by
        have hmono := year_mono hnext.later.le
        rw [dateOf_dayNumber ha.real, dateOf_dayNumber hdue.real] at hmono
        rw [Readable, dateOf_dayNumber hdue.real]
        exact ⟨ha.year.1.trans hmono, hyear⟩
      have heq := nextDueDate_eq hv ha.readable hnext fun _ => hread
      rw [← ha.isoOf_eq, isoOf, dateOf_dayNumber hdue.real] at heq
      exact heq
  schedule := by
    intro hv
    cases hres : validateSchedule cadence cadenceDay with
    | ok _ => exact absurd hres hv
    | error err => exact ⟨err, by rw [nextDueDate, hres]; rfl⟩
  text := by
    intro hnone
    cases hv : validateSchedule cadence cadenceDay with
    | error err => exact ⟨err, by rw [nextDueDate, hv]; rfl⟩
    | ok _ =>
      cases hp : parseISO afterISO with
      | ok c => exact absurd (parse_iff_isoDate.mp ⟨c, hp⟩) hnone
      | error err => exact ⟨err, by rw [nextDueDate, hv, hp]; rfl⟩

/-! ## Section 6: Day arithmetic -/

theorem parse_eq_isoDate : parseISO s = .ok c ↔ IsoDate s c := by
  rw [parse_iff_isoOf]
  constructor
  · rintro ⟨n, hn, rfl, rfl⟩
    exact ⟨dateOf_real n, hn, rfl⟩
  · intro h
    exact ⟨dayNumber c, h.readable, h.isoOf_eq, (dateOf_dayNumber h.real).symm⟩

theorem isoDate_isoOf (h : Readable n) : IsoDate (isoOf n) (dateOf n) := ⟨dateOf_real n, h, rfl⟩

/-- Day arithmetic on the texts of dates counts days.

    * `shift`: `isoAddDays` moves a date by that many days, as long as the
      result has a year of 0100 to 9999.
    * `zero`, `add`: two moves are one, and no days is no move.
    * `later`: the earlier text is the earlier day.
    * `parse`: `parseISO` reads the texts of those dates, and nothing else. -/
structure DayArithmetic : Prop where
  shift : ∀ a c, IsoDate a c → ∀ j, Readable (dayNumber c + j) →
    ∃ b c', isoAddDays a j = .ok b ∧ IsoDate b c' ∧ dayNumber c' = dayNumber c + j
  zero : ∀ a c, IsoDate a c → isoAddDays a 0 = .ok a
  add : ∀ a c, IsoDate a c → ∀ j b c', isoAddDays a j = .ok b → IsoDate b c' →
    ∀ k, isoAddDays b k = isoAddDays a (j + k)
  later : ∀ a b c c', IsoDate a c → IsoDate b c' → (a < b ↔ ∃ n > 0, isoAddDays a n = .ok b)
  parse : ∀ s c, parseISO s = .ok c ↔ IsoDate s c

/-- A year before 0100 prints with two zeros. -/
theorem padStart_early {y : ℤ} (h0 : 0 ≤ y) (h : y < 100) :
    padStart 4 y = [digit 0, digit 0, digit (y / 10), digit y] := by
  obtain ⟨k, rfl⟩ := Int.eq_ofNat_of_zero_le h0
  unfold padStart
  by_cases hk : k < 10
  · have hdiv : (k : ℤ) / 10 = 0 := by omega
    rw [decimal_digit hk, hdiv]
    rfl
  · rw [decimal_two (by omega) (by omega)]
    rfl

/-- A negative year prints with its sign. -/
theorem padStart_negative {y : ℤ} (h : y < 0) :
    ∃ zeros ≤ 3, ∃ rest, padStart 4 y = List.replicate zeros 48 ++ dash :: rest := by
  cases y with
  | ofNat k => exact absurd h (by simp)
  | negSucc k =>
    let digits := ofChars (Nat.toDigits 10 (k + 1))
    have hsign : JsString.decimal (Int.negSucc k) = dash :: digits := rfl
    refine ⟨4 - (dash :: digits).length, ?_, digits, ?_⟩
    · rw [List.length_cons]
      omega
    · unfold padStart
      rw [hsign]

/-- Only the readable days have the texts that can be read. -/
theorem readable_of_text (hb : Readable b) (h : isoOf a = isoOf b) : Readable a := by
  by_cases hyear : 100 ≤ (dateOf a).y
  · refine readable_of_parse (c := dateOf b) hyear ?_
    rw [h]
    exact parseISO_isoOf hb
  · exfalso
    unfold isoOf at h
    rw [toISO_eq hb.1 hb.2 (dateOf_real b)] at h
    unfold toISO at h
    obtain ⟨hlo, hhi⟩ := hb
    by_cases hneg : (dateOf a).y < 0
    · -- the sign stands where the other text has a digit
      obtain ⟨zeros, hzeros, rest, hpad⟩ := padStart_negative hneg
      rw [hpad] at h
      have hdash := dash_ne_digit
      interval_cases zeros <;> simp_all
    · rw [padStart_early (by omega) (by omega)] at h
      simp only [List.cons_append, List.nil_append, List.cons.injEq, digit_inj] at h
      omega

/-- The day that `isoAddDays` comes to. -/
theorem isoAddDays_readable (hn : Readable n) (hb : Readable b) {days : ℤ} :
    isoAddDays (isoOf n) days = .ok (isoOf b) ↔ b = n + days := by
  rw [isoAddDays_isoOf hn]
  constructor
  · intro h
    have htext : isoOf (n + days) = isoOf b := Except.ok.inj h
    exact (isoOf_inj (readable_of_text hb htext) hb htext).symm
  · intro h
    rw [h]

theorem day_arithmetic : DayArithmetic where
  shift := by
    intro a c ha j hj
    refine ⟨isoOf (dayNumber c + j), dateOf (dayNumber c + j), ?_, isoDate_isoOf hj, ?_⟩
    · rw [ha.isoOf_eq, isoAddDays_isoOf ha.readable]
    · exact dayNumber_dateOf _
  zero := by
    intro a c ha
    rw [ha.isoOf_eq, isoAddDays_isoOf ha.readable, add_zero]
  add := by
    intro a c ha j b c' hb hc' k
    rw [ha.isoOf_eq, hc'.isoOf_eq] at hb
    have hday := (isoAddDays_readable ha.readable hc'.readable).mp hb
    rw [ha.isoOf_eq, hc'.isoOf_eq, isoAddDays_isoOf ha.readable, isoAddDays_isoOf hc'.readable,
      hday, add_assoc]
  later := by
    intro a b c c' ha hb
    rw [ha.isoOf_eq, hb.isoOf_eq, isoOf_lt ha.readable hb.readable]
    constructor
    · intro hlt
      refine ⟨dayNumber c' - dayNumber c, by omega, ?_⟩
      exact (isoAddDays_readable ha.readable hb.readable).mpr (by omega)
    · rintro ⟨n, hn, h⟩
      have hday := (isoAddDays_readable ha.readable hb.readable).mp h
      omega
  parse := fun s c => parse_eq_isoDate
