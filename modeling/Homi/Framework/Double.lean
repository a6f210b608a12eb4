import Mathlib.Algebra.Group.Nat.Defs
import Mathlib.Data.Nat.Log

/-! # Doubles of natural numbers

  The double that is nearest to a natural number: 53 bits, ties to the even
  one, and no number at all from 2^1024 on. What matters later is that the
  numbers below 2^53 are exact, and that no other comes out below 2^53.

  Quotients are rounded in the same way. Rounded up to a whole number, the
  quotient of a number below 2^53 is never too small.
-/

namespace Double

variable {n v : ℕ}

/-- `n` over `unit`, rounded to the nearest, ties to even. -/
def roundDiv (n unit : ℕ) : ℕ :=
  if 2 * (n % unit) < unit ∨ (2 * (n % unit) = unit ∧ n / unit % 2 = 0) then n / unit
  else n / unit + 1

/-- The double nearest to `n`, unless that is infinity. -/
def nearest (n : ℕ) : Option ℕ :=
  if n < 2 ^ 53 then some n
  else
    -- the distance of two doubles near `n`
    let unit := 2 ^ (Nat.log 2 n - 52)
    let v := roundDiv n unit * unit
    if v < 2 ^ 1024 then some v else none

theorem nearest_exact (h : n < 2 ^ 53) : nearest n = some n := if_pos h

theorem div_le_roundDiv (n unit : ℕ) : n / unit ≤ roundDiv n unit := by
  unfold roundDiv
  split <;> omega

/-- 53 bits from the first one on reach 2^53 already. -/
theorem le_leading (h : 2 ^ 53 ≤ n) :
    2 ^ 53 ≤ n / 2 ^ (Nat.log 2 n - 52) * 2 ^ (Nat.log 2 n - 52) := by
  have hlog : 53 ≤ Nat.log 2 n := Nat.le_log_of_pow_le (by decide) h
  have hpow : 2 ^ 52 * 2 ^ (Nat.log 2 n - 52) = 2 ^ Nat.log 2 n := by
    rw [← Nat.pow_add]
    congr 1
    omega
  -- `n` has at least 53 bits, so the quotient has exactly 53
  have hquot : 2 ^ 52 ≤ n / 2 ^ (Nat.log 2 n - 52) := by
    rw [Nat.le_div_iff_mul_le (Nat.two_pow_pos _), hpow]
    exact Nat.pow_log_le_self 2 (by omega)
  calc 2 ^ 53 ≤ 2 ^ Nat.log 2 n := Nat.pow_le_pow_right (by decide) hlog
    _ = 2 ^ 52 * 2 ^ (Nat.log 2 n - 52) := hpow.symm
    _ ≤ n / 2 ^ (Nat.log 2 n - 52) * 2 ^ (Nat.log 2 n - 52) := Nat.mul_le_mul_right _ hquot

theorem nearest_large (h : 2 ^ 53 ≤ n) (hv : nearest n = some v) : 2 ^ 53 ≤ v := by
  unfold nearest at hv
  rw [if_neg (not_lt.mpr h)] at hv
  dsimp only at hv
  split at hv
  · cases hv
    exact (le_leading h).trans (Nat.mul_le_mul_right _ (div_le_roundDiv _ _))
  · cases hv

/-! ## Quotients -/

/-- The double nearest to `n / d`, rounded up to a whole number. A quotient
    from 1 on and below 2^53 has `bits` binary places. -/
def ceilQuotient (n d : ℕ) : ℕ :=
  if n < d then min n 1
  else if n / d < 2 ^ 53 then
    let bits := 52 - Nat.log 2 (n / d)
    (roundDiv (n * 2 ^ bits) d + (2 ^ bits - 1)) / 2 ^ bits
  else
    let unit := 2 ^ (Nat.log 2 (n / d) - 52)
    roundDiv n (d * unit) * unit

variable {d : ℕ}

theorem div_le_ceilQuotient (hd : 0 < d) (h : n / d < 2 ^ 53) : n / d ≤ ceilQuotient n d := by
  unfold ceilQuotient
  by_cases hsmall : n < d
  · rw [Nat.div_eq_of_lt hsmall]
    exact Nat.zero_le _
  rw [if_neg hsmall, if_pos h]
  dsimp only
  rw [Nat.le_div_iff_mul_le (Nat.two_pow_pos _)]
  have hscaled : n / d * 2 ^ (52 - Nat.log 2 (n / d)) ≤ n * 2 ^ (52 - Nat.log 2 (n / d)) / d := by
    rw [Nat.le_div_iff_mul_le hd, Nat.mul_right_comm]
    exact Nat.mul_le_mul_right _ (Nat.div_mul_le_self n d)
  exact (hscaled.trans (div_le_roundDiv _ _)).trans (Nat.le_add_right _ _)

theorem large_le_ceilQuotient (h : 2 ^ 53 ≤ n / d) : 2 ^ 53 ≤ ceilQuotient n d := by
  unfold ceilQuotient
  have hbig : ¬ n < d := by
    intro hsmall
    rw [Nat.div_eq_of_lt hsmall] at h
    omega
  rw [if_neg hbig, if_neg (not_lt.mpr h)]
  dsimp only
  refine (le_leading h).trans (Nat.mul_le_mul_right _ ?_)
  rw [Nat.div_div_eq_div_mul]
  exact div_le_roundDiv _ _

/-- What is over half of a unit is rounded up. -/
theorem lt_roundDiv {a : ℕ} (h : a ≤ n / d) (hmore : d < 2 * (n - d * a)) : a < roundDiv n d := by
  by_cases hlt : a < n / d
  · exact hlt.trans_le (div_le_roundDiv n d)
  · obtain rfl : a = n / d := le_antisymm h (not_lt.mp hlt)
    have hmod : n % d = n - d * (n / d) := by
      have := Nat.div_add_mod n d
      omega
    unfold roundDiv
    rw [if_neg (by omega)]
    exact Nat.lt_succ_self _

/-- A quotient that is not whole does not become whole by going down: the
    doubles near it are closer than `1 / d`. -/
theorem le_mul_ceilQuotient (hd : 0 < d) (h : n < 2 ^ 53) : n ≤ d * ceilQuotient n d := by
  have hdiv := Nat.div_add_mod n d
  have hq : n / d < 2 ^ 53 := (Nat.div_le_self n d).trans_lt h
  by_cases hwhole : n % d = 0
  · calc n = d * (n / d) := by omega
      _ ≤ d * ceilQuotient n d := Nat.mul_le_mul_left d (div_le_ceilQuotient hd hq)
  have hceil : n / d + 1 ≤ ceilQuotient n d := by
    unfold ceilQuotient
    by_cases hsmall : n < d
    · rw [if_pos hsmall, Nat.div_eq_of_lt hsmall]
      rw [Nat.mod_eq_of_lt hsmall] at hwhole
      omega
    rw [if_neg hsmall, if_pos hq]
    dsimp only
    have hpos : 0 < n / d := Nat.div_pos (not_lt.mp hsmall) hd
    have hlog : Nat.log 2 (n / d) ≤ 52 := Nat.lt_succ_iff.mp (Nat.log_lt_of_lt_pow hpos.ne' hq)
    have hlow : 2 ^ Nat.log 2 (n / d) ≤ n / d := Nat.pow_log_le_self 2 hpos.ne'
    generalize Nat.log 2 (n / d) = log at hlog hlow
    -- the distance of the doubles near the quotient is `1 / unit`
    generalize hunit : 2 ^ (52 - log) = unit
    have hfine : d < 2 * unit := by
      have hpow : 2 ^ log * (2 * unit) = 2 ^ 53 := by
        rw [← hunit, ← Nat.pow_succ', ← Nat.pow_add]
        congr 1
        omega
      have hproduct : 2 ^ log * d < 2 ^ log * (2 * unit) := by
        calc 2 ^ log * d ≤ n / d * d := Nat.mul_le_mul_right d hlow
          _ ≤ n := Nat.div_mul_le_self n d
          _ < 2 ^ log * (2 * unit) := by rw [hpow]; exact h
      exact Nat.lt_of_mul_lt_mul_left hproduct
    have hround : n / d * unit < roundDiv (n * unit) d := by
      apply lt_roundDiv
      · rw [Nat.le_div_iff_mul_le hd, Nat.mul_right_comm]
        exact Nat.mul_le_mul_right _ (Nat.div_mul_le_self n d)
      · have hrest : n * unit - d * (n / d * unit) = n % d * unit := by
          rw [← Nat.mul_assoc, ← Nat.sub_mul]
          congr 1
          omega
        have hone : 1 * unit ≤ n % d * unit := Nat.mul_le_mul_right unit (Nat.pos_of_ne_zero hwhole)
        omega
    rw [Nat.le_div_iff_mul_le (hunit ▸ Nat.two_pow_pos _), Nat.add_mul]
    omega
  calc n ≤ d * (n / d + 1) := by
        have hlt := Nat.mod_lt n hd
        rw [Nat.mul_add]
        omega
    _ ≤ d * ceilQuotient n d := Nat.mul_le_mul_left d hceil

end Double
