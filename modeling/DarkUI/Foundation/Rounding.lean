import Mathlib.Data.Rat.Floor
import Mathlib.Tactic.Linarith
import Mathlib.Tactic.FieldSimp

/-! # Rounding towards zero

Integer division and the conversion of a fraction both drop what is behind the point.
-/

namespace DarkUI.Rounding

/-- The conversion of a fraction to an integer. -/
def truncate (q : ℚ) : Int := q.num.tdiv q.den

/-- The quotient rounded up, for a positive divisor. -/
def ceilDiv (a b : Int) : Int := (a + b - 1).tdiv b

theorem truncate_of_nonneg {q : ℚ} (hq : 0 ≤ q) : truncate q = ⌊q⌋ := by
  rw [Rat.floor_def', truncate]
  exact Int.tdiv_eq_ediv_of_nonneg (Rat.num_nonneg.mpr hq)

theorem le_truncate_iff {q : ℚ} (hq : 0 ≤ q) (k : Int) : k ≤ truncate q ↔ (k : ℚ) ≤ q := by
  rw [truncate_of_nonneg hq]
  exact Int.le_floor

theorem truncate_lt_iff {q : ℚ} (hq : 0 ≤ q) (k : Int) : truncate q < k ↔ q < k := by
  rw [truncate_of_nonneg hq]
  exact Int.floor_lt

/-- A quotient of integers drops as much as their division does. -/
theorem truncate_div {a b : Int} (ha : 0 ≤ a) (hb : 0 ≤ b) :
    truncate ((a : ℚ) / b) = a / b := by
  have hq : (0 : ℚ) ≤ a / b := by positivity
  rw [truncate_of_nonneg hq]
  obtain ⟨n, rfl⟩ := Int.eq_ofNat_of_zero_le hb
  exact Rat.floor_intCast_div_natCast a n

theorem ceilDiv_le_iff {a b : Int} (ha : 0 ≤ a) (hb : 0 < b) (k : Int) :
    ceilDiv a b ≤ k ↔ a ≤ k * b := by
  rw [ceilDiv, Int.tdiv_eq_ediv_of_nonneg (by omega)]
  constructor
  · intro h
    have hlt : a + b - 1 < (k + 1) * b := (Int.ediv_lt_iff_lt_mul hb).mp (by omega)
    linarith
  · intro h
    have hlt : a + b - 1 < (k + 1) * b := by linarith
    have := (Int.ediv_lt_iff_lt_mul hb).mpr hlt
    omega

theorem ceilDiv_pos {a b : Int} (ha : 0 < a) (hb : 0 < b) : 0 < ceilDiv a b := by
  by_contra h
  have := (ceilDiv_le_iff (le_of_lt ha) hb 0).mp (by omega)
  omega

theorem half_mul_two_le {a : Int} (ha : 0 ≤ a) : a.tdiv 2 * 2 ≤ a := by
  rw [Int.tdiv_eq_ediv_of_nonneg ha]
  omega

/-- A span is inside another one that it is centred in just when it is no longer. -/
theorem centred_iff (inner outer : Int) :
    0 ≤ (outer - inner).tdiv 2 ∧ (outer - inner).tdiv 2 + inner ≤ outer ↔ inner ≤ outer := by
  constructor
  · rintro ⟨hstart, hend⟩
    omega
  · intro h
    have hhalf := half_mul_two_le (a := outer - inner) (by omega)
    exact ⟨Int.tdiv_nonneg (by omega) (by norm_num), by omega⟩

/-- A span divided by a ratio of two lengths. -/
theorem truncate_div_ratio {span part whole : Int} (hspan : 0 ≤ span) (hpart : 0 ≤ part)
    (hwhole : 0 ≤ whole) : truncate (span / ((part : ℚ) / whole)) = span * whole / part := by
  rw [div_div_eq_mul_div, ← Int.cast_mul]
  exact truncate_div (mul_nonneg hspan hwhole) hpart

end DarkUI.Rounding
