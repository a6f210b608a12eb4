import Homi.Domain.Schedule

/-! # Points in time as texts

  `date.toISOString()` and the part of `Date.parse` that reads it back. A
  point in time is a number of milliseconds since 1970.
-/

open Calendar

/-! ## Section 1: The code -/

/-- The latest point in time that a `Date` can hold. -/
def MAX_TIME : ℤ := 8640000000000000

def MS_PER_DAY : ℤ := 86400000

/-- Years past 9999 have a sign and six digits. -/
def yearText (y : ℤ) : JsString :=
  if 0 ≤ y ∧ y ≤ 9999 then padStart 4 y
  else if y < 0 then 45 :: padStart 6 (-y)
  else 43 :: padStart 6 y

/-- The time of a day, to the millisecond, and the `Z`. -/
def clockText (ms : ℤ) : JsString :=
  84 :: (padStart 2 (ms / 3600000) ++ 58 :: (padStart 2 (ms / 60000 % 60) ++
    58 :: (padStart 2 (ms / 1000 % 60) ++ 46 :: (padStart 3 (ms % 1000) ++ [90]))))

/-- `new Date(t).toISOString()`. -/
def toISOString (t : ℤ) : JsString :=
  let date := dateOf (t / MS_PER_DAY)
  yearText date.y ++ dash :: (padStart 2 date.m ++ dash :: (padStart 2 date.d ++
    clockText (t % MS_PER_DAY)))

/-- A year of so many digits, and the rest. -/
def readYear (sign : ℤ) (width : ℕ) (s : JsString) : Option (ℤ × JsString) :=
  if width ≤ s.length ∧ (s.take width).all isDigit then
    some (sign * numberOf (s.take width), s.drop width)
  else none

/-- The year in front of a text, and the rest. -/
def takeYear : JsString → Option (ℤ × JsString)
  | 43 :: rest => readYear 1 6 rest
  | 45 :: rest => readYear (-1) 6 rest
  | s => readYear 1 4 s

/-- `-MM-DDTHH:mm:ss.sssZ` after the year. -/
def instantOf (y : ℤ) : JsString → Option ℤ
  | [45, m₁, m₂, 45, d₁, d₂, 84, h₁, h₂, 58, n₁, n₂, 58, s₁, s₂, 46, f₁, f₂, f₃, 90] =>
      let date : Date := ⟨y, numberOf [m₁, m₂], numberOf [d₁, d₂]⟩
      let h := numberOf [h₁, h₂]
      let n := numberOf [n₁, n₂]
      let s := numberOf [s₁, s₂]
      if [m₁, m₂, d₁, d₂, h₁, h₂, n₁, n₂, s₁, s₂, f₁, f₂, f₃].all isDigit ∧ date.Real ∧
          h < 24 ∧ n < 60 ∧ s < 60 then
        some (dayNumber date * MS_PER_DAY + h * 3600000 + n * 60000 + s * 1000 +
          numberOf [f₁, f₂, f₃])
      else none
  | _ => none

/-- `Date.parse(s)`, `none` for `NaN`. Texts of other forms are up to the engine. -/
def dateParse (parseOther : JsString → Option ℤ) (s : JsString) : Option ℤ :=
  match (takeYear s).bind fun (y, rest) => instantOf y rest with
  | some t => if -MAX_TIME ≤ t ∧ t ≤ MAX_TIME then some t else none
  | none => parseOther s

/-! ## Section 2: Round trip -/

/-- The last `w` digits of a number. -/
def digitsOf : ℕ → ℤ → JsString
  | 0, _ => []
  | w + 1, n => digitsOf w (n / 10) ++ [digit n]

theorem length_digitsOf (w : ℕ) (n : ℤ) : (digitsOf w n).length = w := by
  induction w generalizing n with
  | zero => rfl
  | succ w ih => rw [digitsOf, List.length_append, ih]; rfl

theorem all_digitsOf (w : ℕ) (n : ℤ) : (digitsOf w n).all isDigit = true := by
  induction w generalizing n with
  | zero => rfl
  | succ w ih => rw [digitsOf, List.all_append, ih, List.all_cons, isDigit_digit]; rfl

theorem digitsOf_zero (w : ℕ) : digitsOf w 0 = List.replicate w 48 := by
  induction w with
  | zero => rfl
  | succ w ih =>
    rw [digitsOf, Int.zero_ediv, ih, List.replicate_succ']
    rfl

theorem numberOf_snoc (s : JsString) (c : CodeUnit) :
    numberOf (s ++ [c]) = 10 * numberOf s + (c.val - 48) := by
  rw [numberOf, List.foldl_append]
  rfl

theorem numberOf_digitsOf (w : ℕ) {n : ℤ} (h0 : 0 ≤ n) (h : n < 10 ^ w) :
    numberOf (digitsOf w n) = n := by
  induction w generalizing n with
  | zero =>
    have hn : n = 0 := by rw [pow_zero] at h; omega
    rw [hn]
    rfl
  | succ w ih =>
    rw [pow_succ] at h
    rw [digitsOf, numberOf_snoc, ih (by omega) (by omega), digit_val]
    have hlt := Int.emod_lt_of_pos n (by decide : (0 : ℤ) < 10)
    push_cast
    omega

/-- `padStart` of a number that has no more digits. -/
theorem padStart_eq (w : ℕ) {n : ℤ} (h0 : 0 ≤ n) (h : n < 10 ^ (w + 1)) :
    padStart (w + 1) n = digitsOf (w + 1) n := by
  obtain ⟨k, rfl⟩ := Int.eq_ofNat_of_zero_le h0
  have hgen : ∀ w k : ℕ, k < 10 ^ (w + 1) → (JsString.decimal (k : ℤ)).length ≤ w + 1 ∧
      padStart (w + 1) k = digitsOf (w + 1) k := by
    intro w
    induction w with
    | zero =>
      intro k hk
      have hk' : k < 10 := by simpa using hk
      unfold padStart
      rw [decimal_digit hk']
      exact ⟨le_refl _, rfl⟩
    | succ w ih =>
      intro k hk
      by_cases hk' : k < 10
      · have hdiv : (k : ℤ) / 10 = 0 := by omega
        unfold padStart
        rw [decimal_digit hk', digitsOf, hdiv, digitsOf_zero]
        exact ⟨by simp, rfl⟩
      · have hsplit : k = 10 * (k / 10) + k % 10 := by omega
        have hsnoc := decimal_snoc (by omega : 0 < k / 10) (by omega : k % 10 < 10)
        rw [← hsplit] at hsnoc
        have hmod : digit ((k % 10 : ℕ) : ℤ) = digit k := by
          push_cast
          exact digit_mod k
        rw [hmod] at hsnoc
        obtain ⟨hlen, hpad⟩ := ih (k / 10) (by rw [pow_succ] at hk; omega)
        have hdiv : ((k / 10 : ℕ) : ℤ) = (k : ℤ) / 10 := by omega
        refine ⟨by rw [hsnoc, List.length_append, List.length_singleton]; omega, ?_⟩
        rw [digitsOf, ← hdiv, ← hpad]
        unfold padStart
        dsimp only
        rw [hsnoc, List.length_append, List.length_singleton, ← List.append_assoc,
          Nat.add_sub_add_right]
  exact (hgen w k (by exact_mod_cast h)).2

theorem digit_ne_sign (n : ℤ) : digit n ≠ 43 ∧ digit n ≠ 45 := by
  refine ⟨?_, ?_⟩ <;> intro heq <;> have h := isDigit_digit n <;> rw [heq] at h <;>
    exact absurd h (by decide)

/-- Reading back as many digits as were printed. -/
theorem readYear_digitsOf {w : ℕ} {y : ℤ} (h0 : 0 ≤ y) (h : y < 10 ^ w) (rest : JsString) :
    readYear 1 w (digitsOf w y ++ rest) = some (y, rest) := by
  have hlen := length_digitsOf w y
  have htake : (digitsOf w y ++ rest).take w = digitsOf w y := List.take_left' hlen
  rw [readYear, if_pos, htake, numberOf_digitsOf w h0 h, one_mul, List.drop_left' hlen]
  refine ⟨by rw [List.length_append, hlen]; omega, ?_⟩
  rw [htake]
  exact all_digitsOf w y

theorem takeYear_yearText {y : ℤ} (h0 : 0 ≤ y) (h : y < 1000000) (rest : JsString) :
    takeYear (yearText y ++ rest) = some (y, rest) := by
  by_cases hy : y ≤ 9999
  · rw [yearText, if_pos ⟨h0, hy⟩, padStart_eq 3 h0 (by norm_num; omega)]
    unfold takeYear
    split
    · next heq => exact absurd (List.cons.inj heq).1 (digit_ne_sign _).1
    · next heq => exact absurd (List.cons.inj heq).1 (digit_ne_sign _).2
    · exact readYear_digitsOf h0 (by norm_num; omega) rest
  · rw [yearText, if_neg (by omega), if_neg (by omega), padStart_eq 5 h0 (by norm_num; omega)]
    exact readYear_digitsOf h0 (by norm_num; omega) rest

theorem instantOf_text {date : Date} (hreal : date.Real) {ms : ℤ} (h0 : 0 ≤ ms) (h : ms < MS_PER_DAY) :
    instantOf date.y (dash :: (padStart 2 date.m ++ dash :: (padStart 2 date.d ++ clockText ms))) =
      some (dayNumber date * MS_PER_DAY + ms) := by
  obtain ⟨⟨hm1, hm12⟩, hd1, hdlen⟩ := hreal
  have hd31 := (monthLength_bounds (y := date.y) hm1 hm12).2
  unfold MS_PER_DAY at h
  -- two digits read back
  have htwo : ∀ n : ℤ, 0 ≤ n → n < 100 → numberOf [digit (n / 10), digit n] = n := by
    intro n hn0 hn
    rw [numberOf_two]
    omega
  have hthree : ∀ n : ℤ, 0 ≤ n → n < 1000 →
      padStart 3 n = [digit (n / 10 / 10), digit (n / 10), digit n] ∧
      numberOf [digit (n / 10 / 10), digit (n / 10), digit n] = n := by
    intro n hn0 hn
    exact ⟨padStart_eq 2 hn0 (by norm_num; omega), numberOf_digitsOf 3 hn0 (by norm_num; omega)⟩
  obtain ⟨hf, hfn⟩ := hthree (ms % 1000) (by omega) (by omega)
  rw [clockText, padStart_two (by omega) (by omega), padStart_two (by omega) (by omega),
    padStart_two (by omega) (by omega : ms / 3600000 < 100), padStart_two (by omega) (by omega),
    padStart_two (by omega) (by omega), hf]
  show (if _ ∧ _ ∧ _ ∧ _ ∧ _ then _ else none) = _
  rw [htwo date.m (by omega) (by omega), htwo date.d (by omega) (by omega),
    htwo (ms / 3600000) (by omega) (by omega), htwo (ms / 60000 % 60) (by omega) (by omega),
    htwo (ms / 1000 % 60) (by omega) (by omega), hfn, if_pos]
  · have hhour : ms / 60000 / 60 = ms / 3600000 := Int.ediv_ediv_of_nonneg (by decide)
    have hminute : ms / 1000 / 60 = ms / 60000 := Int.ediv_ediv_of_nonneg (by decide)
    show some (dayNumber date * MS_PER_DAY + _ + _ + _ + _) = _
    congr 1
    omega
  · refine ⟨by simp only [List.all_cons, List.all_nil, isDigit_digit, Bool.and_true],
      ⟨⟨hm1, hm12⟩, hd1, hdlen⟩, by omega, by omega, by omega⟩

theorem year_bounds {n : ℤ} (h0 : 0 ≤ n) (h : n ≤ 100000000) :
    0 ≤ (dateOf n).y ∧ (dateOf n).y < 1000000 := by
  obtain ⟨hlo, hhi⟩ := yearOf_spec n
  show 0 ≤ yearOf n ∧ yearOf n < 1000000
  unfold dayFromYear at hlo hhi
  constructor <;> omega

/-- A `Date` from 1970 on reads back. -/
theorem dateParse_toISOString (parseOther : JsString → Option ℤ) {t : ℤ} (h0 : 0 ≤ t) (h : t ≤ MAX_TIME) :
    dateParse parseOther (toISOString t) = some t := by
  have hday : 0 ≤ t / MS_PER_DAY ∧ t / MS_PER_DAY ≤ 100000000 := by
    unfold MS_PER_DAY MAX_TIME at *
    omega
  have hms : 0 ≤ t % MS_PER_DAY ∧ t % MS_PER_DAY < MS_PER_DAY := by
    unfold MS_PER_DAY
    omega
  obtain ⟨hy0, hy⟩ := year_bounds hday.1 hday.2
  have hread : (takeYear (toISOString t)).bind (fun x => instantOf x.1 x.2) = some t := by
    rw [toISOString, takeYear_yearText hy0 hy]
    show instantOf (dateOf (t / MS_PER_DAY)).y _ = some t
    rw [instantOf_text (dateOf_real _) hms.1 hms.2, dayNumber_dateOf]
    unfold MS_PER_DAY
    congr 1
    omega
  unfold dateParse
  rw [hread]
  exact if_pos ⟨by unfold MAX_TIME; omega, h⟩
