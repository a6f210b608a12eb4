import Homi.Framework.Calendar
import Homi.Framework.JsString

/-! # Bill schedules

  `packages/domain/src/bills/schedule.ts`: due dates of a template and the
  periods they name. Dates are strings `YYYY-MM-DD` throughout, compared
  as strings, and turned into days for arithmetic.

  Section 3 says which days are due dates, and the last sections prove
  that `nextDueDate` steps through exactly these, in order.
-/

open Calendar

/-! ## Section 1: Texts -/

inductive Cadence where
  | monthly
  | weekly
deriving DecidableEq, Repr

/-- `ScheduleError`, one constructor for each `throw`. -/
inductive ScheduleError where
  | notISO (iso : JsString)
  | notReal (iso : JsString)
  | monthlyDay (cadenceDay : JsString)
  | weeklyDay (cadenceDay : JsString)
  | noMonthlyDate
  | noWeekday
  | timezone (timezone reason : JsString)
deriving DecidableEq, Repr

/-- `err.message`. -/
def ScheduleError.message : ScheduleError → JsString
  | .notISO iso => js "not an ISO date: " ++ iso
  | .notReal iso => js "not a real calendar date: " ++ iso
  | .monthlyDay day => js "monthly cadenceDay must be '1'..'31' or 'last', got '" ++ day ++ js "'"
  | .weeklyDay day =>
      js "weekly cadenceDay must be a lowercase weekday name, got '" ++ day ++ js "'"
  | .noMonthlyDate => js "unreachable: no monthly due date within three months"
  | .noWeekday => js "unreachable: no weekday within seven days"
  | .timezone tz reason => js "cannot compute dates in timezone '" ++ tz ++ js "': " ++ reason

def dash : CodeUnit := 45

/-- The code unit of a decimal digit. -/
def digit (n : ℤ) : CodeUnit := Fin.ofNat 65536 (48 + (n % 10).toNat)

/-- `\d`. -/
def isDigit (c : CodeUnit) : Bool := 48 ≤ c && c ≤ 57

/-- `Number(s)` of a string of digits. -/
def numberOf (s : JsString) : ℤ := s.foldl (fun (n : ℤ) (c : CodeUnit) => 10 * n + (c.val - 48)) 0

/-- `String(n).padStart(width, '0')`. -/
def padStart (width : ℕ) (n : ℤ) : JsString :=
  let s := JsString.decimal n
  List.replicate (width - s.length) 48 ++ s

/-- `/^\d{4}-\d{2}-\d{2}$/`. -/
def isoDateRe : JsString → Bool
  | [y₁, y₂, y₃, y₄, s₁, m₁, m₂, s₂, d₁, d₂] =>
      [y₁, y₂, y₃, y₄, m₁, m₂, d₁, d₂].all isDigit && s₁ = dash && s₂ = dash
  | _ => false

def WEEKDAYS : List JsString :=
  [js "sunday", js "monday", js "tuesday", js "wednesday", js "thursday", js "friday",
    js "saturday"]

/-! ## Section 2: The code -/

def parseISO (iso : JsString) : Except ScheduleError Date :=
  if isoDateRe iso then
    let parts := (JsString.split dash iso).map numberOf
    let (y, m, d) := (parts.getD 0 0, parts.getD 1 0, parts.getD 2 0)
    let roundTrip := dateOf (utcDay y (m - 1) d)
    if roundTrip.y ≠ y ∨ roundTrip.m - 1 ≠ m - 1 ∨ roundTrip.d ≠ d then .error (.notReal iso)
    else .ok ⟨y, m, d⟩
  else .error (.notISO iso)

def toISO (y m d : ℤ) : JsString :=
  padStart 4 y ++ dash :: (padStart 2 m ++ dash :: padStart 2 d)

def daysInMonth (y m : ℤ) : ℤ := (dateOf (utcDay y m 0)).d

/-- The day that `Number(cadenceDay)` is, when it is one of 1 to 31 and
    prints as `cadenceDay`. -/
def monthDay (cadenceDay : JsString) : Option ℤ :=
  ((List.range 31).map fun (n : ℕ) => (n : ℤ) + 1).find? fun day => JsString.decimal day = cadenceDay

def validateSchedule (cadence : Cadence) (cadenceDay : JsString) : Except ScheduleError Unit :=
  match cadence with
  | .monthly =>
      if cadenceDay = js "last" then .ok ()
      else if (monthDay cadenceDay).isSome then .ok ()
      else .error (.monthlyDay cadenceDay)
  | .weekly => if cadenceDay ∈ WEEKDAYS then .ok () else .error (.weeklyDay cadenceDay)

/-- The due date of a month. -/
def monthlyDue (cadenceDay : JsString) (y m : ℤ) : JsString :=
  let dim := daysInMonth y m
  toISO y m (if cadenceDay = js "last" then dim else min ((monthDay cadenceDay).getD 0) dim)

def nextDueDate (cadence : Cadence) (cadenceDay afterISO : JsString) :
    Except ScheduleError JsString := do
  validateSchedule cadence cadenceDay
  let after ← parseISO afterISO
  match cadence with
  | .monthly =>
      let found := (List.range 3).findSome? fun (offset : ℕ) =>
        let monthIndex := after.m - 1 + (offset : ℤ)
        let iso := monthlyDue cadenceDay (after.y + monthIndex / 12) (monthIndex % 12 + 1)
        if afterISO < iso then some iso else none
      match found with
      | some iso => .ok iso
      | none => .error .noMonthlyDate
  | .weekly =>
      let target : ℤ := WEEKDAYS.idxOf cadenceDay
      let base := utcDay after.y (after.m - 1) after.d
      let found := (List.range 7).findSome? fun (step : ℕ) =>
        let candidate := base + ((step : ℤ) + 1)
        if weekday candidate = target then
          some (toISO (dateOf candidate).y (dateOf candidate).m (dateOf candidate).d)
        else none
      match found with
      | some iso => .ok iso
      | none => .error .noWeekday

def periodKey (cadence : Cadence) (dueISO : JsString) : Except ScheduleError JsString := do
  let _ ← parseISO dueISO
  return match cadence with
    | .monthly => dueISO.take 7
    | .weekly => dueISO

def isoAddDays (iso : JsString) (days : ℤ) : Except ScheduleError JsString := do
  let date ← parseISO iso
  let shifted := dateOf (utcDay date.y (date.m - 1) date.d + days)
  return toISO shifted.y shifted.m shifted.d

/-! ## Section 3: Due dates -/

/-- The text of a day. -/
def isoOf (n : ℤ) : JsString := toISO (dateOf n).y (dateOf n).m (dateOf n).d

/-- The days whose text the code can read back. -/
def Readable (n : ℤ) : Prop := 100 ≤ (dateOf n).y ∧ (dateOf n).y ≤ 9999

/-- The day of the month on which a monthly bill is due. -/
def dueDay (cadenceDay : JsString) (y m : ℤ) : ℤ :=
  if cadenceDay = js "last" then monthLength y m
  else min ((monthDay cadenceDay).getD 0) (monthLength y m)

/-- The due dates of a schedule. -/
def IsDue (cadence : Cadence) (cadenceDay : JsString) (n : ℤ) : Prop :=
  match cadence with
  | .monthly => (dateOf n).d = dueDay cadenceDay (dateOf n).y (dateOf n).m
  | .weekly => weekday n = WEEKDAYS.idxOf cadenceDay

/-- `n'` is the first due date after `n`. -/
structure NextDue (cadence : Cadence) (cadenceDay : JsString) (n n' : ℤ) : Prop where
  due : IsDue cadence cadenceDay n'
  later : n < n'
  first : ∀ k, n < k → k < n' → ¬ IsDue cadence cadenceDay k

/-! ## Section 4: Texts of dates -/

theorem decimal_of_nat (n : ℕ) : JsString.decimal n = ofChars (Nat.toDigits 10 n) := rfl

theorem ofChars_append (cs ds : List Char) : ofChars (cs ++ ds) = ofChars cs ++ ofChars ds :=
  List.flatMap_append

theorem decimal_digit {n : ℕ} (h : n < 10) : JsString.decimal n = [digit n] := by
  interval_cases n <;> decide

theorem decimal_snoc {n d : ℕ} (hn : 0 < n) (hd : d < 10) :
    JsString.decimal ((10 * n + d : ℕ) : ℤ) = JsString.decimal n ++ [digit d] := by
  rw [decimal_of_nat, decimal_of_nat, ← decimal_digit hd, decimal_of_nat,
    ← Nat.toDigits_append_toDigits (by decide) hn hd, ofChars_append]

theorem digit_mod (n : ℤ) : digit (n % 10) = digit n := by
  unfold digit
  rw [Int.emod_emod_of_dvd n (dvd_refl 10)]

theorem decimal_two {n : ℕ} (h : 10 ≤ n) (h' : n < 100) :
    JsString.decimal n = [digit (n / 10), digit n] := by
  have hsplit : n = 10 * (n / 10) + n % 10 := by omega
  have hsnoc := decimal_snoc (by omega : 0 < n / 10) (by omega : n % 10 < 10)
  rw [← hsplit, decimal_digit (by omega : n / 10 < 10)] at hsnoc
  rw [hsnoc]
  push_cast
  rw [digit_mod]
  rfl

theorem decimal_three {n : ℕ} (h : 100 ≤ n) (h' : n < 1000) :
    JsString.decimal n = [digit (n / 100), digit (n / 10), digit n] := by
  have hsplit : n = 10 * (n / 10) + n % 10 := by omega
  have hsnoc := decimal_snoc (by omega : 0 < n / 10) (by omega : n % 10 < 10)
  rw [← hsplit, decimal_two (by omega : 10 ≤ n / 10) (by omega)] at hsnoc
  have hdiv : ((n / 10 : ℕ) : ℤ) / 10 = (n : ℤ) / 100 := by omega
  rw [hsnoc, hdiv]
  push_cast
  rw [digit_mod]
  rfl

theorem decimal_four {n : ℕ} (h : 1000 ≤ n) (h' : n < 10000) :
    JsString.decimal n = [digit (n / 1000), digit (n / 100), digit (n / 10), digit n] := by
  have hsplit : n = 10 * (n / 10) + n % 10 := by omega
  have hsnoc := decimal_snoc (by omega : 0 < n / 10) (by omega : n % 10 < 10)
  rw [← hsplit, decimal_three (by omega : 100 ≤ n / 10) (by omega)] at hsnoc
  have hdiv : ((n / 10 : ℕ) : ℤ) / 10 = (n : ℤ) / 100 := by omega
  have hdiv' : ((n / 10 : ℕ) : ℤ) / 100 = (n : ℤ) / 1000 := by omega
  rw [hsnoc, hdiv, hdiv']
  push_cast
  rw [digit_mod]
  rfl

theorem padStart_two {n : ℤ} (h0 : 0 ≤ n) (h : n < 100) :
    padStart 2 n = [digit (n / 10), digit n] := by
  obtain ⟨k, rfl⟩ := Int.eq_ofNat_of_zero_le h0
  unfold padStart
  by_cases hk : k < 10
  · rw [decimal_digit hk]
    have hdiv : (k : ℤ) / 10 = 0 := by omega
    rw [hdiv]
    rfl
  · rw [decimal_two (by omega) (by omega)]
    rfl

theorem padStart_four {n : ℤ} (h0 : 100 ≤ n) (h : n < 10000) :
    padStart 4 n = [digit (n / 1000), digit (n / 100), digit (n / 10), digit n] := by
  obtain ⟨k, rfl⟩ := Int.eq_ofNat_of_zero_le (by omega : 0 ≤ n)
  unfold padStart
  by_cases hk : k < 1000
  · rw [decimal_three (by omega) hk]
    have hdiv : (k : ℤ) / 1000 = 0 := by omega
    rw [hdiv]
    rfl
  · rw [decimal_four (by omega) (by omega)]
    rfl

theorem digit_val (n : ℤ) : ((digit n : CodeUnit) : ℕ) = 48 + (n % 10).toNat := by
  unfold digit
  have := Int.emod_lt_of_pos n (by decide : (0 : ℤ) < 10)
  simp only [Fin.val_ofNat]
  omega

theorem digit_lt {a b : ℤ} : digit a < digit b ↔ a % 10 < b % 10 := by
  rw [Fin.lt_def, digit_val, digit_val]
  omega

theorem digit_inj {a b : ℤ} : digit a = digit b ↔ a % 10 = b % 10 := by
  rw [Fin.ext_iff, digit_val, digit_val]
  omega

theorem isDigit_digit (n : ℤ) : isDigit (digit n) = true := by
  unfold isDigit
  simp only [Bool.and_eq_true, decide_eq_true_eq, Fin.le_def, digit_val]
  have h48 : ((48 : CodeUnit) : ℕ) = 48 := rfl
  have h57 : ((57 : CodeUnit) : ℕ) = 57 := rfl
  omega

theorem dash_ne_digit (n : ℤ) : dash ≠ digit n := by
  intro h
  have := congrArg Fin.val h
  rw [digit_val] at this
  have hdash : ((dash : CodeUnit) : ℕ) = 45 := rfl
  omega

/-- The text of a date with a year of four digits. -/
theorem toISO_eq {c : Date} (h100 : 100 ≤ c.y) (h9999 : c.y ≤ 9999) (h : c.Real) :
    toISO c.y c.m c.d =
      [digit (c.y / 1000), digit (c.y / 100), digit (c.y / 10), digit c.y] ++ dash ::
        ([digit (c.m / 10), digit c.m] ++ dash :: [digit (c.d / 10), digit c.d]) := by
  obtain ⟨⟨h1, h12⟩, hd1, hdl⟩ := h
  have hlen := (monthLength_bounds (y := c.y) h1 h12).2
  unfold toISO
  rw [padStart_four h100 (by omega), padStart_two (by omega) (by omega),
    padStart_two (by omega) (by omega)]

/-- The four digits of a number. -/
theorem four_digits {y : ℤ} (h0 : 0 ≤ y) (h : y < 10000) :
    y = 1000 * (y / 1000 % 10) + 100 * (y / 100 % 10) + 10 * (y / 10 % 10) + y % 10 ∧
      (0 ≤ y / 1000 % 10 ∧ y / 1000 % 10 ≤ 9) ∧ (0 ≤ y / 100 % 10 ∧ y / 100 % 10 ≤ 9) ∧
      (0 ≤ y / 10 % 10 ∧ y / 10 % 10 ≤ 9) ∧ (0 ≤ y % 10 ∧ y % 10 ≤ 9) := by
  omega

theorem four_digits_lt {y y' : ℤ} (h0 : 0 ≤ y) (h : y < 10000) (h0' : 0 ≤ y') (h' : y' < 10000)
    (s s' : JsString) :
    [digit (y / 1000), digit (y / 100), digit (y / 10), digit y] ++ s <
        [digit (y' / 1000), digit (y' / 100), digit (y' / 10), digit y'] ++ s' ↔
      y < y' ∨ (y = y' ∧ s < s') := by
  simp only [List.cons_append, List.nil_append, List.cons_lt_cons_iff, digit_lt, digit_inj]
  obtain ⟨hy, ha, hb, hc, hd⟩ := four_digits h0 h
  obtain ⟨hy', ha', hb', hc', hd'⟩ := four_digits h0' h'
  generalize y / 1000 % 10 = a, y / 100 % 10 = b, y / 10 % 10 = c, y % 10 = d at *
  generalize y' / 1000 % 10 = a', y' / 100 % 10 = b', y' / 10 % 10 = c', y' % 10 = d' at *
  by_cases hs : s < s' <;> simp only [hs, and_true, and_false, or_false] <;> omega

theorem two_digits_lt {n n' : ℤ} (h0 : 0 ≤ n) (h : n < 100) (h0' : 0 ≤ n') (h' : n' < 100)
    (s s' : JsString) :
    [digit (n / 10), digit n] ++ s < [digit (n' / 10), digit n'] ++ s' ↔
      n < n' ∨ (n = n' ∧ s < s') := by
  simp only [List.cons_append, List.nil_append, List.cons_lt_cons_iff, digit_lt, digit_inj]
  by_cases hs : s < s' <;> simp only [hs, and_true, and_false, or_false] <;> omega

/-- Texts of dates compare as the dates do. -/
theorem toISO_lt (c c' : Date) (h100 : 100 ≤ c.y) (h9999 : c.y ≤ 9999) (h : c.Real)
    (h100' : 100 ≤ c'.y) (h9999' : c'.y ≤ 9999) (h' : c'.Real) :
    toISO c.y c.m c.d < toISO c'.y c'.m c'.d ↔ c.Before c' := by
  rw [toISO_eq h100 h9999 h, toISO_eq h100' h9999' h']
  obtain ⟨⟨h1, h12⟩, hd1, hdl⟩ := h
  obtain ⟨⟨h1', h12'⟩, hd1', hdl'⟩ := h'
  have hlen := (monthLength_bounds (y := c.y) h1 h12).2
  have hlen' := (monthLength_bounds (y := c'.y) h1' h12').2
  have hday : [digit (c.d / 10), digit c.d] ++ ([] : JsString) <
      [digit (c'.d / 10), digit c'.d] ++ [] ↔ c.d < c'.d ∨ (c.d = c'.d ∧ ([] : JsString) < []) :=
    two_digits_lt (by omega) (by omega) (by omega) (by omega) [] []
  simp only [List.append_nil, lt_self_iff_false, and_false, or_false] at hday
  have hcons : ∀ s s' : JsString, dash :: s < dash :: s' ↔ s < s' := by
    intro s s'
    rw [List.cons_lt_cons_iff]
    simp
  rw [four_digits_lt (by omega) (by omega) (by omega) (by omega), hcons,
    two_digits_lt (by omega) (by omega) (by omega) (by omega), hcons, hday]
  rfl

theorem isoOf_lt {n n' : ℤ} (h : Readable n) (h' : Readable n') :
    isoOf n < isoOf n' ↔ n < n' := by
  unfold isoOf
  rw [toISO_lt _ _ h.1 h.2 (dateOf_real n) h'.1 h'.2 (dateOf_real n'),
    ← dayNumber_lt_iff (dateOf_real n) (dateOf_real n'), dayNumber_dateOf, dayNumber_dateOf]

theorem isoOf_inj {n n' : ℤ} (h : Readable n) (h' : Readable n') (heq : isoOf n = isoOf n') :
    n = n' := by
  have hlt := isoOf_lt h h'
  have hgt := isoOf_lt h' h
  rw [heq] at hlt hgt
  simp only [lt_self_iff_false, false_iff] at hlt hgt
  omega

/-! ## Section 5: Reading dates -/

theorem numberOf_two (a b : ℤ) : numberOf [digit a, digit b] = 10 * (a % 10) + b % 10 := by
  simp only [numberOf, List.foldl_cons, List.foldl_nil, digit_val]
  omega

theorem numberOf_four (a b c d : ℤ) : numberOf [digit a, digit b, digit c, digit d] =
    1000 * (a % 10) + 100 * (b % 10) + 10 * (c % 10) + d % 10 := by
  simp only [numberOf, List.foldl_cons, List.foldl_nil, digit_val]
  omega

/-- The parts of a text that has the shape of a date. -/
theorem split_iso (a b c d e f g h : ℤ) :
    JsString.split dash ([digit a, digit b, digit c, digit d] ++ dash ::
      ([digit e, digit f] ++ dash :: [digit g, digit h])) =
      [[digit a, digit b, digit c, digit d], [digit e, digit f], [digit g, digit h]] := by
  rw [JsString.split_append (by simp [dash_ne_digit]), JsString.split_append (by simp [dash_ne_digit]),
    JsString.split_of_notMem (by simp [dash_ne_digit])]

theorem isoDateRe_iso (a b c d e f g h : ℤ) :
    isoDateRe ([digit a, digit b, digit c, digit d] ++ dash ::
      ([digit e, digit f] ++ dash :: [digit g, digit h])) = true := by
  simp [isoDateRe, isDigit_digit]

/-- Reading a text of the right shape. -/
theorem parseISO_digits (a b c d e f g h : ℤ) :
    parseISO ([digit a, digit b, digit c, digit d] ++ dash ::
      ([digit e, digit f] ++ dash :: [digit g, digit h])) =
      let y := 1000 * (a % 10) + 100 * (b % 10) + 10 * (c % 10) + d % 10
      let m := 10 * (e % 10) + f % 10
      let dd := 10 * (g % 10) + h % 10
      if dateOf (utcDay y (m - 1) dd) = ⟨y, m, dd⟩ then .ok ⟨y, m, dd⟩
      else .error (.notReal ([digit a, digit b, digit c, digit d] ++ dash ::
        ([digit e, digit f] ++ dash :: [digit g, digit h]))) := by
  unfold parseISO
  rw [if_pos (isoDateRe_iso a b c d e f g h), split_iso]
  simp only [List.map_cons, List.map_nil, List.getD_cons_zero, List.getD_cons_succ,
    numberOf_four, numberOf_two]
  generalize 1000 * (a % 10) + 100 * (b % 10) + 10 * (c % 10) + d % 10 = y
  generalize 10 * (e % 10) + f % 10 = m
  generalize 10 * (g % 10) + h % 10 = dd
  by_cases hrt : dateOf (utcDay y (m - 1) dd) = ⟨y, m, dd⟩
  · rw [if_pos hrt, if_neg (by rw [hrt]; simp)]
  · rw [if_neg hrt, if_pos]
    by_contra hno
    push Not at hno
    obtain ⟨hy, hm, hd⟩ := hno
    generalize dateOf (utcDay y (m - 1) dd) = roundTrip at hrt hy hm hd
    obtain ⟨y', m', d'⟩ := roundTrip
    dsimp only at hy hm hd
    refine hrt ?_
    rw [hy, hd, show m' = m by omega]

theorem parseISO_toISO {c : Date} (h100 : 100 ≤ c.y) (h9999 : c.y ≤ 9999) (h : c.Real) :
    parseISO (toISO c.y c.m c.d) = .ok c := by
  have hday := utcDay_eq h100 h
  rw [toISO_eq h100 h9999 h, parseISO_digits]
  obtain ⟨⟨h1, h12⟩, hd1, hdl⟩ := id h
  have hlen := (monthLength_bounds (y := c.y) h1 h12).2
  have hy : 1000 * (c.y / 1000 % 10) + 100 * (c.y / 100 % 10) + 10 * (c.y / 10 % 10) + c.y % 10
      = c.y := by omega
  have hm : 10 * (c.m / 10 % 10) + c.m % 10 = c.m := by omega
  have hd : 10 * (c.d / 10 % 10) + c.d % 10 = c.d := by omega
  dsimp only
  rw [hy, hm, hd, hday, dateOf_dayNumber h, if_pos rfl]

theorem parseISO_isoOf {n : ℤ} (h : Readable n) : parseISO (isoOf n) = .ok (dateOf n) :=
  parseISO_toISO h.1 h.2 (dateOf_real n)

theorem digit_of_isDigit {c : CodeUnit} (h : isDigit c = true) : ∃ n : ℤ, c = digit n := by
  refine ⟨(c : ℕ) - 48, ?_⟩
  unfold isDigit at h
  simp only [Bool.and_eq_true, decide_eq_true_eq, Fin.le_def] at h
  have h48 : ((48 : CodeUnit) : ℕ) = 48 := rfl
  have h57 : ((57 : CodeUnit) : ℕ) = 57 := rfl
  rw [Fin.ext_iff, digit_val]
  omega

/-- The years 0 to 99 never survive the round trip through `Date.UTC`. -/
theorem hundred_le_of_roundTrip {y m d : ℤ} (h0 : 0 ≤ y)
    (h : dateOf (utcDay y (m - 1) d) = ⟨y, m, d⟩) : 100 ≤ y := by
  have hreal := dateOf_real (utcDay y (m - 1) d)
  rw [h] at hreal
  obtain ⟨⟨h1, h12⟩, -, -⟩ := hreal
  dsimp only at h1 h12
  by_contra hlt
  have hnum := dayNumber_dateOf (utcDay y (m - 1) d)
  rw [h] at hnum
  unfold utcDay at hnum
  rw [if_pos (by omega)] at hnum
  have hdiv : (m - 1) / 12 = 0 := by omega
  have hmod : (m - 1) % 12 + 1 = m := by omega
  rw [hdiv, hmod] at hnum
  unfold dayNumber at hnum
  dsimp only at hnum
  have hlow := monthStart_mono (y := 1900 + y + 0) (le_refl 1) h1 (by omega)
  have hhigh := monthStart_mono (y := y) h1 (by omega : m ≤ 13) (le_refl 13)
  rw [monthStart_one] at hlow
  rw [monthStart_thirteen] at hhigh
  have hyear : dayFromYear y + 365 * 1900 ≤ dayFromYear (1900 + y + 0) := by
    unfold dayFromYear
    omega
  split at hhigh <;> omega

theorem parseISO_ok {s : JsString} {c : Date} (h : parseISO s = .ok c) :
    Readable (dayNumber c) ∧ s = isoOf (dayNumber c) ∧ c.Real := by
  have hre : isoDateRe s = true := by
    by_contra hno
    rw [parseISO, if_neg hno] at h
    cases h
  have hshape : ∃ a b c d e f g k : ℤ, s = [digit a, digit b, digit c, digit d] ++ dash ::
      ([digit e, digit f] ++ dash :: [digit g, digit k]) := by
    unfold isoDateRe at hre
    split at hre
    · next y₁ y₂ y₃ y₄ s₁ m₁ m₂ s₂ d₁ d₂ =>
      simp only [List.all_cons, List.all_nil, Bool.and_true, Bool.and_eq_true,
        decide_eq_true_eq] at hre
      obtain ⟨⟨⟨hy₁, hy₂, hy₃, hy₄, hm₁, hm₂, hd₁, hd₂⟩, rfl⟩, rfl⟩ := hre
      obtain ⟨a, rfl⟩ := digit_of_isDigit hy₁
      obtain ⟨b, rfl⟩ := digit_of_isDigit hy₂
      obtain ⟨c', rfl⟩ := digit_of_isDigit hy₃
      obtain ⟨d, rfl⟩ := digit_of_isDigit hy₄
      obtain ⟨e, rfl⟩ := digit_of_isDigit hm₁
      obtain ⟨f, rfl⟩ := digit_of_isDigit hm₂
      obtain ⟨g, rfl⟩ := digit_of_isDigit hd₁
      obtain ⟨k, rfl⟩ := digit_of_isDigit hd₂
      exact ⟨a, b, c', d, e, f, g, k, rfl⟩
    · cases hre
  obtain ⟨a, b, c', d, e, f, g, k, rfl⟩ := hshape
  rw [parseISO_digits] at h
  dsimp only at h
  split at h
  · next hrt =>
    cases h
    have hreal := dateOf_real (utcDay
      (1000 * (a % 10) + 100 * (b % 10) + 10 * (c' % 10) + d % 10)
      (10 * (e % 10) + f % 10 - 1) (10 * (g % 10) + k % 10))
    rw [hrt] at hreal
    have h100 := hundred_le_of_roundTrip (by omega) hrt
    have hback := dateOf_dayNumber hreal
    refine ⟨?_, ?_, hreal⟩
    · unfold Readable
      rw [hback]
      exact ⟨h100, by dsimp only; omega⟩
    · unfold isoOf
      rw [hback, toISO_eq h100 (by dsimp only; omega) hreal]
      dsimp only
      simp only [List.cons_append, List.nil_append, List.cons.injEq, digit_inj, and_true, true_and]
      refine ⟨?_, ?_, ?_, ?_, ?_, ?_, ?_, ?_⟩ <;> omega
  · cases h

/-! ## Section 6: The next due date -/

theorem findSome?_range {α : Type} {f : ℕ → Option α} {k : ℕ} {a : α}
    (h : (List.range k).findSome? f = some a) :
    ∃ i, i < k ∧ f i = some a ∧ ∀ j, j < i → f j = none := by
  induction k with
  | zero => simp at h
  | succ k ih =>
    rw [List.range_succ, List.findSome?_append] at h
    cases hk : (List.range k).findSome? f with
    | some b =>
      rw [hk] at h
      cases h
      obtain ⟨i, hi, hfi, hbefore⟩ := ih hk
      exact ⟨i, by omega, hfi, hbefore⟩
    | none =>
      rw [hk] at h
      refine ⟨k, by omega, by simpa using h, ?_⟩
      intro j hj
      exact List.findSome?_eq_none_iff.mp hk j (List.mem_range.mpr hj)

theorem monthDay_bounds {cadenceDay : JsString} {day : ℤ} (h : monthDay cadenceDay = some day) :
    1 ≤ day ∧ day ≤ 31 := by
  obtain ⟨n, hn, rfl⟩ := List.mem_map.mp (List.mem_of_find?_eq_some h)
  have := List.mem_range.mp hn
  omega

theorem dueDay_bounds {cadenceDay : JsString}
    (hv : validateSchedule .monthly cadenceDay = .ok ()) {y m : ℤ} (h1 : 1 ≤ m) (h12 : m ≤ 12) :
    1 ≤ dueDay cadenceDay y m ∧ dueDay cadenceDay y m ≤ monthLength y m := by
  have hlen := monthLength_bounds (y := y) h1 h12
  unfold dueDay
  split
  · omega
  · next hlast =>
    unfold validateSchedule at hv
    simp only [hlast, if_false] at hv
    split at hv
    · next hday =>
      obtain ⟨day, hday⟩ := Option.isSome_iff_exists.mp hday
      have := monthDay_bounds hday
      rw [hday, Option.getD_some]
      omega
    · cases hv

theorem monthlyDue_eq {cadenceDay : JsString} {y m : ℤ} (hy : 100 ≤ y) (h1 : 1 ≤ m)
    (h12 : m ≤ 12) : monthlyDue cadenceDay y m = toISO y m (dueDay cadenceDay y m) := by
  unfold monthlyDue daysInMonth dueDay
  rw [dateOf_utcDay_zero hy h1 h12]

/-- A year of five digits compares below the dates of 9999. -/
theorem not_lt_tenThousand {c : Date} (hy : c.y = 9999) (h : c.Real) (m d : ℤ) :
    ¬ toISO c.y c.m c.d < toISO 10000 m d := by
  rw [toISO_eq (by omega) (by omega) h, hy]
  have hten : padStart 4 10000 = [49, 48, 48, 48, 48] := by decide
  unfold toISO
  rw [hten]
  simp only [List.cons_append, List.cons_lt_cons_iff]
  have h9 : ¬ digit (9999 / 1000) < 49 := by decide
  have h9' : digit (9999 / 1000) ≠ 49 := by decide
  rintro (hlt | ⟨heq, _⟩)
  · exact h9 hlt
  · exact h9' heq

/-- A due date of a month is the next one when `after` is before it in the
    same month, or past the due date of the month before. -/
theorem nextDue_monthly {cadenceDay : JsString} {n : ℤ} {due : Date} (hreal : due.Real)
    (hday : due.d = dueDay cadenceDay due.y due.m) (hlater : (dateOf n).Before due)
    (hbefore : ∀ c : Date, c.Real → (dateOf n).Before c → c.Before due →
      (c.y = due.y ∧ c.m = due.m) ∨
        (c.y = (dateOf n).y ∧ c.m = (dateOf n).m ∧
          dueDay cadenceDay c.y c.m ≤ (dateOf n).d)) :
    NextDue .monthly cadenceDay n (dayNumber due) where
  due := by
    show (dateOf (dayNumber due)).d = _
    rw [dateOf_dayNumber hreal]
    exact hday
  later := by
    rw [← dayNumber_dateOf n]
    exact dayNumber_lt (dateOf_real n) hreal hlater
  first := by
    intro k hnk hkd hdue
    have hdue : (dateOf k).d = dueDay cadenceDay (dateOf k).y (dateOf k).m := hdue
    rw [← dayNumber_dateOf n, ← dayNumber_dateOf k,
      dayNumber_lt_iff (dateOf_real n) (dateOf_real k)] at hnk
    rw [← dayNumber_dateOf k, dayNumber_lt_iff (dateOf_real k) hreal] at hkd
    rcases hbefore _ (dateOf_real k) hnk hkd with ⟨hy, hm⟩ | ⟨hy, hm, hle⟩
    · rw [hy, hm, ← hday] at hdue
      unfold Date.Before at hkd
      omega
    · rw [← hdue] at hle
      unfold Date.Before at hnk
      omega

/-- The due date of the month of `after` when it is still to come. -/
theorem nextDue_sameMonth {cadenceDay : JsString} {after : Date} (hafter : after.Real)
    (hthis : Date.Real ⟨after.y, after.m, dueDay cadenceDay after.y after.m⟩)
    (hlater : after.Before ⟨after.y, after.m, dueDay cadenceDay after.y after.m⟩) :
    NextDue .monthly cadenceDay (dayNumber after)
      (dayNumber ⟨after.y, after.m, dueDay cadenceDay after.y after.m⟩) := by
  have hback : dateOf (dayNumber after) = after := dateOf_dayNumber hafter
  apply nextDue_monthly hthis rfl
  · rw [hback]
    exact hlater
  · -- every date between the two is in their month
    intro c _ hac hcd
    rw [hback] at hac
    unfold Date.Before at hac hcd
    dsimp only at hcd ⊢
    omega

/-- The due date of the month after that of `after`, once its own has passed. -/
theorem nextDue_nextMonth {cadenceDay : JsString} {after : Date} {y m : ℤ} (hafter : after.Real)
    (hy : y = after.y + after.m / 12) (hm : m = after.m % 12 + 1)
    (hpassed : dueDay cadenceDay after.y after.m ≤ after.d)
    (hnext : Date.Real ⟨y, m, dueDay cadenceDay y m⟩) :
    after.Before ⟨y, m, dueDay cadenceDay y m⟩ ∧
      NextDue .monthly cadenceDay (dayNumber after) (dayNumber ⟨y, m, dueDay cadenceDay y m⟩) := by
  have hback : dateOf (dayNumber after) = after := dateOf_dayNumber hafter
  obtain ⟨⟨h1, h12⟩, _, _⟩ := id hafter
  have hlater : after.Before ⟨y, m, dueDay cadenceDay y m⟩ := by
    unfold Date.Before
    dsimp only
    omega
  refine ⟨hlater, nextDue_monthly hnext rfl (by rw [hback]; exact hlater) ?_⟩
  intro c hc hac hcd
  obtain ⟨⟨hc1, hc12⟩, -, -⟩ := hc
  rw [hback] at hac ⊢
  unfold Date.Before at hac hcd
  dsimp only at hcd ⊢
  -- a date between the two is in one of the two months
  by_cases hsame : c.y = y ∧ c.m = m
  · exact Or.inl hsame
  · have hcy : c.y = after.y := by omega
    have hcm : c.m = after.m := by omega
    rw [hcy, hcm]
    exact Or.inr ⟨rfl, rfl, hpassed⟩

theorem lt_toISO_iff {after c : Date} (hread : 100 ≤ after.y ∧ after.y ≤ 9999) (hafter : after.Real)
    (hc : 100 ≤ c.y ∧ c.y ≤ 9999) (hreal : c.Real) :
    toISO after.y after.m after.d < toISO c.y c.m c.d ↔ after.Before c :=
  toISO_lt after c hread.1 hread.2 hafter hc.1 hc.2 hreal

/-- The loop over the months finds the next due date: it is in the month of
    `after` or in the month that follows. -/
theorem monthLoop_ok {cadenceDay : JsString} {after : Date} {iso : JsString}
    (hv : validateSchedule .monthly cadenceDay = .ok ()) (hread : 100 ≤ after.y ∧ after.y ≤ 9999)
    (hreal : after.Real)
    (h : (List.range 3).findSome? (fun (i : ℕ) =>
      let due := monthlyDue cadenceDay (after.y + (after.m - 1 + (i : ℤ)) / 12)
        ((after.m - 1 + (i : ℤ)) % 12 + 1)
      if toISO after.y after.m after.d < due then some due else none) = some iso) :
    ∃ n', iso = isoOf n' ∧ NextDue .monthly cadenceDay (dayNumber after) n' := by
  obtain ⟨⟨h1, h12⟩, hd1, hdl⟩ := id hreal
  obtain ⟨i, hi, hfi, hbefore⟩ := findSome?_range h
  dsimp only at hfi hbefore
  have hzero : (after.m - 1 + ((0 : ℕ) : ℤ)) / 12 = 0 ∧
      (after.m - 1 + ((0 : ℕ) : ℤ)) % 12 + 1 = after.m := by omega
  have hthis : Date.Real ⟨after.y, after.m, dueDay cadenceDay after.y after.m⟩ :=
    ⟨⟨h1, h12⟩, dueDay_bounds hv h1 h12⟩
  have hlt_iff := lt_toISO_iff (c := ⟨after.y, after.m, dueDay cadenceDay after.y after.m⟩)
    hread hreal hread hthis
  by_cases hi0 : i = 0
  · -- the due date of the month of `after` is still to come
    subst hi0
    rw [hzero.1, hzero.2, add_zero, monthlyDue_eq hread.1 h1 h12] at hfi
    split at hfi
    · next hlt =>
      cases hfi
      have hlater := hlt_iff.mp hlt
      refine ⟨_, ?_, nextDue_sameMonth hreal hthis hlater⟩
      unfold isoOf
      rw [dateOf_dayNumber hthis]
    · cases hfi
  · -- it has passed, and the next month has one
    have hpassed := hbefore 0 (by omega)
    rw [hzero.1, hzero.2, add_zero, monthlyDue_eq hread.1 h1 h12] at hpassed
    split at hpassed
    · cases hpassed
    next hle =>
    have hdle : dueDay cadenceDay after.y after.m ≤ after.d := by
      have hnot : ¬ after.Before ⟨after.y, after.m, dueDay cadenceDay after.y after.m⟩ :=
        mt hlt_iff.mpr hle
      unfold Date.Before at hnot
      dsimp only at hnot
      omega
    obtain ⟨y, m, hym⟩ : ∃ y m : ℤ, (y, m) = (after.y + after.m / 12, after.m % 12 + 1) :=
      ⟨_, _, rfl⟩
    obtain ⟨hy, hm⟩ := Prod.mk.inj hym
    have hone : after.y + (after.m - 1 + ((1 : ℕ) : ℤ)) / 12 = y ∧
        (after.m - 1 + ((1 : ℕ) : ℤ)) % 12 + 1 = m := by omega
    have hm1 : 1 ≤ m := by omega
    have hm12 : m ≤ 12 := by omega
    have hnext : Date.Real ⟨y, m, dueDay cadenceDay y m⟩ := ⟨⟨hm1, hm12⟩, dueDay_bounds hv hm1 hm12⟩
    obtain ⟨hlater, hdue⟩ := nextDue_nextMonth hreal hy hm hdle hnext
    by_cases hy4 : y ≤ 9999
    · have hlt : toISO after.y after.m after.d < monthlyDue cadenceDay y m := by
        rw [monthlyDue_eq (by omega) hm1 hm12]
        exact (lt_toISO_iff (c := ⟨y, m, _⟩) hread hreal ⟨by dsimp only; omega, hy4⟩ hnext).mpr hlater
      have hi1 : i = 1 := by
        by_contra hne
        have hnone := hbefore 1 (by omega)
        rw [hone.1, hone.2, if_pos hlt] at hnone
        cases hnone
      subst hi1
      rw [hone.1, hone.2, if_pos hlt, monthlyDue_eq (by omega) hm1 hm12] at hfi
      cases hfi
      refine ⟨_, ?_, hdue⟩
      unfold isoOf
      rw [dateOf_dayNumber hnext]
    · -- past December 9999 no text compares above `afterISO`
      exfalso
      have hten : after.y = 9999 ∧ after.m = 12 := by omega
      have hi' : i = 1 ∨ i = 2 := by omega
      have hy' : after.y + (after.m - 1 + (i : ℤ)) / 12 = 10000 := by
        rcases hi' with rfl | rfl <;> omega
      rw [hy'] at hfi
      unfold monthlyDue at hfi
      rw [if_neg (not_lt_tenThousand hten.1 hreal _ _)] at hfi
      cases hfi

/-- `nextDueDate` returns the next due date. -/
theorem nextDueDate_ok {cadence : Cadence} {cadenceDay afterISO iso : JsString}
    (h : nextDueDate cadence cadenceDay afterISO = .ok iso) :
    ∃ n n', Readable n ∧ afterISO = isoOf n ∧ iso = isoOf n' ∧
      NextDue cadence cadenceDay n n' := by
  unfold nextDueDate at h
  cases hv : validateSchedule cadence cadenceDay with
  | error e => simp [hv, bind, Except.bind] at h
  | ok u =>
  cases hp : parseISO afterISO with
  | error e => simp [hv, hp, bind, Except.bind] at h
  | ok after =>
  obtain ⟨hread, hiso, hreal⟩ := parseISO_ok hp
  simp only [hv, hp, bind, Except.bind] at h
  have hback : dateOf (dayNumber after) = after := dateOf_dayNumber hreal
  have hrange : 100 ≤ after.y ∧ after.y ≤ 9999 := by
    unfold Readable at hread
    rwa [hback] at hread
  refine ⟨dayNumber after, ?_⟩
  cases cadence with
  | weekly =>
    simp only at h
    split at h
    · next iso' hfound =>
      cases h
      obtain ⟨i, hi, hfi, hbefore⟩ := findSome?_range hfound
      rw [utcDay_eq hrange.1 hreal] at hfi hbefore
      split at hfi
      · next hwd =>
        cases hfi
        refine ⟨dayNumber after + ((i : ℤ) + 1), hread, hiso, rfl, hwd, by omega, ?_⟩
        -- the loop has passed every day before that one
        intro k hk hk' hdue
        have hnone := hbefore (k - dayNumber after - 1).toNat (by omega)
        have hk0 : dayNumber after + (((k - dayNumber after - 1).toNat : ℤ) + 1) = k := by omega
        rw [hk0, if_pos (show weekday k = _ from hdue)] at hnone
        cases hnone
      · cases hfi
    · cases h
  | monthly =>
    have hafter : afterISO = toISO after.y after.m after.d := by
      rw [hiso]
      unfold isoOf
      rw [hback]
    simp only [hafter] at h
    split at h
    · next iso' hfound =>
      cases h
      obtain ⟨n', hn', hdue⟩ := monthLoop_ok hv hrange hreal hfound
      exact ⟨n', hread, hiso, hn', hdue⟩
    · cases h

/-! ## Section 7: Periods -/

theorem periodKey_isoOf (cadence : Cadence) {n : ℤ} (h : Readable n) :
    periodKey cadence (isoOf n) = .ok (match cadence with
      | .monthly => (isoOf n).take 7
      | .weekly => isoOf n) := by
  unfold periodKey
  rw [parseISO_isoOf h]
  rfl

theorem periodKey_ok {cadence : Cadence} {dueISO period : JsString}
    (h : periodKey cadence dueISO = .ok period) : ∃ n, Readable n ∧ dueISO = isoOf n := by
  cases hp : parseISO dueISO with
  | error e => simp [periodKey, hp, bind, Except.bind] at h
  | ok c => exact ⟨dayNumber c, (parseISO_ok hp).1, (parseISO_ok hp).2.1⟩

/-- The first seven characters name the month. -/
theorem month_of_take {n n' : ℤ} (h : Readable n) (h' : Readable n')
    (heq : (isoOf n).take 7 = (isoOf n').take 7) :
    (dateOf n).y = (dateOf n').y ∧ (dateOf n).m = (dateOf n').m := by
  unfold isoOf at heq
  rw [toISO_eq h.1 h.2 (dateOf_real n), toISO_eq h'.1 h'.2 (dateOf_real n')] at heq
  simp only [List.cons_append, List.nil_append, List.take_succ_cons, List.take_zero,
    List.cons.injEq, digit_inj, and_true, true_and] at heq
  obtain ⟨⟨h1, h12⟩, -, -⟩ := dateOf_real n
  obtain ⟨⟨h1', h12'⟩, -, -⟩ := dateOf_real n'
  obtain ⟨hlo, hhi⟩ := h
  obtain ⟨hlo', hhi'⟩ := h'
  omega

/-- Two due dates of a schedule that name one period are one due date. -/
theorem periodKey_inj {cadence : Cadence} {cadenceDay period : JsString} {n n' : ℤ}
    (h : Readable n) (h' : Readable n') (hdue : IsDue cadence cadenceDay n)
    (hdue' : IsDue cadence cadenceDay n') (hp : periodKey cadence (isoOf n) = .ok period)
    (hp' : periodKey cadence (isoOf n') = .ok period) : n = n' := by
  rw [periodKey_isoOf cadence h] at hp
  rw [periodKey_isoOf cadence h', ← hp] at hp'
  cases cadence with
  | weekly => exact isoOf_inj h h' (Except.ok.inj hp').symm
  | monthly =>
    obtain ⟨hy, hm⟩ := month_of_take h h' (Except.ok.inj hp').symm
    have hday : (dateOf n).d = dueDay cadenceDay (dateOf n).y (dateOf n).m := hdue
    have hday' : (dateOf n').d = dueDay cadenceDay (dateOf n').y (dateOf n').m := hdue'
    rw [hy, hm, ← hday'] at hday
    rw [← dayNumber_dateOf n, ← dayNumber_dateOf n']
    unfold dayNumber
    rw [hy, hm, hday]
