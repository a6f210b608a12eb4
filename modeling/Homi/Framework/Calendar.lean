import Mathlib.Tactic.IntervalCases
import Mathlib.Tactic.Ring
import Mathlib.Algebra.Order.Ring.Int

/-! # Calendar days

  The day arithmetic of `Date.UTC` and of the `getUTC` methods: a day is
  the number of days since 1970-01-01, and the proleptic Gregorian
  calendar maps days to dates and back.

  * `dayNumber` / `dateOf`: date to day and day to date, inverse to each
    other on real dates.
  * `dayNumber_lt_iff`: later dates are later days.
  * `utcDay`: what `Date.UTC(y, monthIndex, d)` means for arguments out
    of range.
-/

namespace Calendar

/-! ## Section 1: Years and months -/

def isLeap (y : ℤ) : Bool := y % 4 = 0 && (y % 100 ≠ 0 || y % 400 = 0)

/-- The day number of January 1st. -/
def dayFromYear (y : ℤ) : ℤ :=
  365 * (y - 1970) + (y - 1969) / 4 - (y - 1901) / 100 + (y - 1601) / 400

theorem dayFromYear_succ (y : ℤ) :
    dayFromYear (y + 1) = dayFromYear y + if isLeap y then 366 else 365 := by
  unfold dayFromYear isLeap
  by_cases h4 : y % 4 = 0 <;> by_cases h100 : y % 100 = 0 <;> by_cases h400 : y % 400 = 0 <;>
    simp [h4, h100, h400] <;> omega

theorem dayFromYear_mono {y y' : ℤ} (h : y ≤ y') : dayFromYear y ≤ dayFromYear y' := by
  unfold dayFromYear
  omega

/-- Days before the first of each month, in a year that is no leap year. -/
def monthTable : List ℤ := [0, 31, 59, 90, 120, 151, 181, 212, 243, 273, 304, 334, 365]

/-- The day within the year of the first of the month `m`; 13 is the next January. -/
def monthStart (y m : ℤ) : ℤ :=
  monthTable.getD (m - 1).toNat 0 + if 3 ≤ m ∧ isLeap y = true then 1 else 0

def monthLength (y m : ℤ) : ℤ := monthStart y (m + 1) - monthStart y m

theorem monthStart_one (y : ℤ) : monthStart y 1 = 0 := by simp [monthStart, monthTable]

theorem monthStart_thirteen (y : ℤ) :
    monthStart y 13 = if isLeap y then 366 else 365 := by
  cases h : isLeap y <;> simp [monthStart, monthTable, h]

theorem monthLength_bounds {y m : ℤ} (h1 : 1 ≤ m) (h12 : m ≤ 12) :
    28 ≤ monthLength y m ∧ monthLength y m ≤ 31 := by
  unfold monthLength monthStart
  cases isLeap y <;> interval_cases m <;> decide

theorem monthStart_mono {y m m' : ℤ} (h1 : 1 ≤ m) (h : m ≤ m') (h13 : m' ≤ 13) :
    monthStart y m ≤ monthStart y m' := by
  induction m', h using Int.leInduction with
  | base => exact le_refl _
  | succ k hk ih =>
    have hlen := (monthLength_bounds (y := y) (by omega : 1 ≤ k) (by omega : k ≤ 12)).1
    have := ih (by omega)
    unfold monthLength at hlen
    omega

/-! ## Section 2: Dates -/

structure Date where
  y : ℤ
  m : ℤ
  d : ℤ
deriving DecidableEq, Repr

/-- A date of the calendar. -/
structure Date.Real (c : Date) : Prop where
  month : 1 ≤ c.m ∧ c.m ≤ 12
  day : 1 ≤ c.d ∧ c.d ≤ monthLength c.y c.m

instance (c : Date) : Decidable c.Real :=
  decidable_of_iff ((1 ≤ c.m ∧ c.m ≤ 12) ∧ (1 ≤ c.d ∧ c.d ≤ monthLength c.y c.m))
    ⟨fun h => ⟨h.1, h.2⟩, fun h => ⟨h.month, h.day⟩⟩

/-- Earlier by year, then month, then day. -/
def Date.Before (c c' : Date) : Prop :=
  c.y < c'.y ∨ (c.y = c'.y ∧ (c.m < c'.m ∨ (c.m = c'.m ∧ c.d < c'.d)))

theorem Date.before_trichotomy (c c' : Date) : c.Before c' ∨ c = c' ∨ c'.Before c := by
  obtain ⟨y, m, d⟩ := c
  obtain ⟨y', m', d'⟩ := c'
  unfold Date.Before
  simp only [Date.mk.injEq]
  omega

def dayNumber (c : Date) : ℤ := dayFromYear c.y + monthStart c.y c.m + (c.d - 1)

theorem dayNumber_bounds {c : Date} (h : c.Real) :
    dayFromYear c.y ≤ dayNumber c ∧ dayNumber c < dayFromYear (c.y + 1) := by
  obtain ⟨⟨h1, h12⟩, hd1, hdl⟩ := h
  have hlow := monthStart_mono (y := c.y) (le_refl 1) h1 (by omega)
  have hhigh := monthStart_mono (y := c.y) (by omega : 1 ≤ c.m + 1) (by omega : c.m + 1 ≤ 13)
    (le_refl 13)
  rw [monthStart_one] at hlow
  rw [monthStart_thirteen] at hhigh
  rw [dayFromYear_succ]
  unfold monthLength at hdl
  unfold dayNumber
  constructor <;> omega

theorem dayNumber_lt {c c' : Date} (h : c.Real) (h' : c'.Real) (hlt : c.Before c') :
    dayNumber c < dayNumber c' := by
  have hb := dayNumber_bounds h
  have hb' := dayNumber_bounds h'
  obtain ⟨⟨h1, h12⟩, hd1, hdl⟩ := h
  obtain ⟨⟨h1', h12'⟩, hd1', hdl'⟩ := h'
  rcases hlt with hy | ⟨hy, hm | ⟨hm, hd⟩⟩
  · have := dayFromYear_mono (by omega : c.y + 1 ≤ c'.y)
    omega
  · have hmono := monthStart_mono (y := c.y) (by omega : 1 ≤ c.m + 1) (by omega : c.m + 1 ≤ c'.m)
      (by omega)
    unfold monthLength at hdl
    unfold dayNumber
    rw [← hy]
    omega
  · unfold dayNumber
    rw [← hy, ← hm]
    omega

theorem dayNumber_lt_iff {c c' : Date} (h : c.Real) (h' : c'.Real) :
    dayNumber c < dayNumber c' ↔ c.Before c' := by
  refine ⟨?_, dayNumber_lt h h'⟩
  intro hlt
  rcases c.before_trichotomy c' with hb | rfl | hb
  · exact hb
  · omega
  · have := dayNumber_lt h' h hb
    omega

theorem dayNumber_inj {c c' : Date} (h : c.Real) (h' : c'.Real)
    (heq : dayNumber c = dayNumber c') : c = c' := by
  rcases c.before_trichotomy c' with hb | hc | hb
  · have := dayNumber_lt h h' hb
    omega
  · exact hc
  · have := dayNumber_lt h' h hb
    omega

/-! ## Section 3: Days to dates -/

/-- The year of a day: an estimate from the mean length of a year, off by
    at most one. -/
def yearOf (n : ℤ) : ℤ :=
  let y := 1970 + 400 * n / 146097
  if n < dayFromYear y then y - 1
  else if dayFromYear (y + 1) ≤ n then y + 1
  else y

theorem yearOf_spec (n : ℤ) :
    dayFromYear (yearOf n) ≤ n ∧ n < dayFromYear (yearOf n + 1) := by
  unfold yearOf
  dsimp only
  split
  · next h =>
    refine ⟨?_, by simpa using h⟩
    unfold dayFromYear at *
    omega
  · split
    · next h =>
      refine ⟨h, ?_⟩
      unfold dayFromYear at *
      omega
    · next h h' => exact ⟨not_lt.mp h, not_le.mp h'⟩

/-- The last month up to `k + 1` that starts by the day `r` of the year. -/
def monthOf (y r : ℤ) : ℕ → ℤ
  | 0 => 1
  | k + 1 => if monthStart y (k + 2) ≤ r then k + 2 else monthOf y r k

theorem monthOf_spec {y r : ℤ} (h0 : 0 ≤ r) (k : ℕ) :
    1 ≤ monthOf y r k ∧ monthOf y r k ≤ k + 1 ∧ monthStart y (monthOf y r k) ≤ r ∧
      (monthOf y r k = k + 1 ∨ r < monthStart y (monthOf y r k + 1)) := by
  induction k with
  | zero => simp [monthOf, monthStart_one, h0]
  | succ k ih =>
    unfold monthOf
    split
    · next h =>
      push_cast
      exact ⟨by omega, by omega, h, Or.inl (by omega)⟩
    · next h =>
      obtain ⟨h1, hk, hs, hnext⟩ := ih
      push_cast
      refine ⟨h1, by omega, hs, Or.inr ?_⟩
      rcases hnext with hlast | hlt
      · rw [hlast, show (k : ℤ) + 1 + 1 = k + 2 by ring]
        exact not_le.mp h
      · exact hlt

/-- The date of a day. -/
def dateOf (n : ℤ) : Date :=
  let y := yearOf n
  let r := n - dayFromYear y
  let m := monthOf y r 11
  ⟨y, m, r - monthStart y m + 1⟩

theorem dateOf_real (n : ℤ) : (dateOf n).Real := by
  obtain ⟨hlo, hhi⟩ := yearOf_spec n
  rw [dayFromYear_succ, ← monthStart_thirteen] at hhi
  have hmonth :=
    monthOf_spec (y := yearOf n) (by omega : 0 ≤ n - dayFromYear (yearOf n)) 11
  unfold dateOf
  dsimp only
  generalize monthOf (yearOf n) (n - dayFromYear (yearOf n)) 11 = m at hmonth ⊢
  norm_num at hmonth
  obtain ⟨h1, h12, hs, hnext⟩ := hmonth
  refine ⟨⟨h1, h12⟩, by dsimp only; omega, ?_⟩
  unfold monthLength
  rcases hnext with rfl | hlt
  · norm_num
    omega
  · dsimp only
    omega

theorem dayNumber_dateOf (n : ℤ) : dayNumber (dateOf n) = n := by
  unfold dayNumber dateOf
  dsimp only
  omega

theorem dateOf_dayNumber {c : Date} (h : c.Real) : dateOf (dayNumber c) = c :=
  dayNumber_inj (dateOf_real _) h (dayNumber_dateOf _)

/-- 1970-01-01 was a Thursday; Sunday is 0. -/
def weekday (n : ℤ) : ℤ := (n + 4) % 7

/-! ## Section 4: `Date.UTC` -/

/-- The day of `Date.UTC(y, monthIndex, d)`: years 0 to 99 mean 1900 to
    1999, and months and days out of range carry over. -/
def utcDay (y monthIndex d : ℤ) : ℤ :=
  let y := if 0 ≤ y ∧ y ≤ 99 then 1900 + y else y
  dayNumber ⟨y + monthIndex / 12, monthIndex % 12 + 1, d⟩

theorem utcDay_eq {c : Date} (hy : 100 ≤ c.y) (h : c.Real) :
    utcDay c.y (c.m - 1) c.d = dayNumber c := by
  obtain ⟨h1, h12⟩ := h.month
  unfold utcDay
  rw [if_neg (by omega)]
  have hdiv : (c.m - 1) / 12 = 0 := by omega
  have hmod : (c.m - 1) % 12 + 1 = c.m := by omega
  simp only [hdiv, hmod, add_zero]

/-- Day 0 of the month after `m` is the last day of `m`. -/
theorem dateOf_utcDay_zero {y m : ℤ} (hy : 100 ≤ y) (h1 : 1 ≤ m) (h12 : m ≤ 12) :
    (dateOf (utcDay y m 0)).d = monthLength y m := by
  have hlen := monthLength_bounds (y := y) h1 h12
  have hlast : Date.Real ⟨y, m, monthLength y m⟩ :=
    ⟨⟨h1, h12⟩, (by omega : 1 ≤ monthLength y m), le_refl _⟩
  have hday : utcDay y m 0 = dayNumber ⟨y, m, monthLength y m⟩ := by
    unfold utcDay
    rw [if_neg (by omega)]
    unfold dayNumber monthLength
    dsimp only
    by_cases hm : m = 12
    · subst hm
      norm_num [monthStart_one]
      rw [dayFromYear_succ, ← monthStart_thirteen]
      omega
    · have hdiv : m / 12 = 0 := by omega
      have hmod : m % 12 = m := by omega
      rw [hdiv, hmod, add_zero]
      omega
  rw [hday, dateOf_dayNumber hlast]

end Calendar
