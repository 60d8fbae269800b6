import Mathlib.Algebra.Order.Ring.Int
import Mathlib.Tactic.Linarith
import Mathlib.Tactic.Ring

/-! # Sampling with a fixed-point step

The pixels of a picture are sampled at equal distances. The distance has sixteen bits behind the
point, and positions are added up in signed integers of 32 bits.
-/

namespace DarkUI.FixedPoint

/-- What a signed integer of 32 bits can be. -/
def IsInt (n : Int) : Prop := -2147483648 ≤ n ∧ n < 2147483648

instance (n : Int) : Decidable (IsInt n) := inferInstanceAs (Decidable (_ ∧ _))

/-- A result that overflows is undefined. -/
def checked (n : Int) : Option Int := if IsInt n then some n else none

/-- The distance at which `drawn` samples are taken of `extent` pixels. -/
def step (extent drawn : Int) : Int := (extent * 65536).tdiv drawn

/-- The position of the sample after `k` others. -/
def position (offset step k : Int) : Int := offset * 65536 + k * step

/-- The samples of `extent` pixels from `offset` on are positions in a row of `size` pixels, and
no position overflows. -/
def Sampled (offset extent drawn size : Int) : Prop :=
  ∀ k, 0 ≤ k → k < drawn → IsInt (position offset (step extent drawn) (k + 1)) ∧
    0 ≤ position offset (step extent drawn) k / 65536 ∧
      position offset (step extent drawn) k / 65536 < size

variable {offset extent drawn size : Int}

theorem position_div (offset step k : Int) :
    position offset step k / 65536 = offset + k * step / 65536 := by
  rw [position, Int.add_comm, Int.add_mul_ediv_right _ _ (by norm_num), Int.add_comm]

theorem step_nonneg (hextent : 0 ≤ extent) (hdrawn : 0 < drawn) : 0 ≤ step extent drawn :=
  Int.tdiv_nonneg (by omega) (by omega)

/-- All steps together are no longer than the extent. -/
theorem drawn_mul_step_le (hextent : 0 ≤ extent) (hdrawn : 0 < drawn) :
    drawn * step extent drawn ≤ extent * 65536 := by
  rw [step, Int.tdiv_eq_ediv_of_nonneg (by omega)]
  exact Int.mul_ediv_self_le (by omega)

/-- The samples are pixels of the extent. -/
theorem sample_lt (hextent : 0 < extent) {k : Int} (hk : 0 ≤ k) (hlt : k < drawn) :
    k * step extent drawn / 65536 < extent := by
  have hdrawn : 0 < drawn := by omega
  rw [Int.ediv_lt_iff_lt_mul (by norm_num)]
  have htotal := drawn_mul_step_le (le_of_lt hextent) hdrawn
  rcases (step_nonneg (le_of_lt hextent) hdrawn).eq_or_lt with hzero | hpos
  · rw [← hzero]
    omega
  · exact lt_of_lt_of_le (mul_lt_mul_of_pos_right hlt hpos) htotal

/-- Positions grow, so none overflows if the last one does not. -/
theorem isInt_position (hoffset : 0 ≤ offset) (hextent : 0 ≤ extent) (hdrawn : 0 < drawn)
    (hlast : position offset (step extent drawn) drawn < 2147483648) {k : Int} (hk : 0 ≤ k)
    (hle : k ≤ drawn) : IsInt (position offset (step extent drawn) k) := by
  have hstep := step_nonneg hextent hdrawn
  have hpos := mul_nonneg hk hstep
  have hmono := mul_le_mul_of_nonneg_right hle hstep
  -- the step is not negative, so no position is above the last one
  unfold position at *
  exact ⟨by omega, by omega⟩

/-- Where the offset and the extent are not negative, the last sample decides. -/
theorem sampled_iff (hoffset : 0 ≤ offset) (hextent : 0 ≤ extent) (hdrawn : 0 < drawn) :
    Sampled offset extent drawn size ↔
      position offset (step extent drawn) drawn < 2147483648 ∧
        offset + (drawn - 1) * step extent drawn / 65536 < size := by
  have hstep := step_nonneg hextent hdrawn
  constructor
  · intro h
    obtain ⟨hint, -, hlast⟩ := h (drawn - 1) (by omega) (by omega)
    rw [position_div] at hlast
    rw [sub_add_cancel] at hint
    exact ⟨hint.2, hlast⟩
  · rintro ⟨hint, hlast⟩ k hk hlt
    -- no sample is behind the last one
    have hpast : k * step extent drawn ≤ (drawn - 1) * step extent drawn :=
      mul_le_mul_of_nonneg_right (by omega) hstep
    have hsample := Int.ediv_le_ediv (show (0 : Int) < 65536 by norm_num) hpast
    have hsamplepos : 0 ≤ k * step extent drawn / 65536 :=
      Int.ediv_nonneg (mul_nonneg hk hstep) (by norm_num)
    rw [position_div]
    exact ⟨isInt_position hoffset hextent hdrawn hint (by omega) (by omega), by omega, by omega⟩

/-- The last position is no further than the end of the extent. -/
theorem position_lt (hextent : 0 ≤ extent) (hdrawn : 0 < drawn) (hend : offset + extent < 32768) :
    position offset (step extent drawn) drawn < 2147483648 := by
  have htotal := drawn_mul_step_le hextent hdrawn
  unfold position
  omega

/-- What is left of a row when the same is taken from both of its ends, even where that is less
than nothing. -/
theorem sampled_margins_iff (hoffset : 0 ≤ offset) (hint : offset < 32768) (hdrawn : 0 < drawn) :
    Sampled offset (size - offset * 2) drawn size ↔
      position offset (step (size - offset * 2) drawn) drawn < 2147483648 ∧ offset < size := by
  rcases lt_or_ge 0 (size - offset * 2) with hextent | hextent
  · rw [sampled_iff hoffset (le_of_lt hextent) hdrawn]
    have hlast := sample_lt hextent (show 0 ≤ drawn - 1 by omega) (sub_one_lt drawn)
    exact and_congr_right fun _ => iff_of_true (by omega) (by omega)
  · -- the steps lead back from the offset, and no further than to the first pixel
    obtain ⟨back, hback⟩ : ∃ back, back = step (offset * 2 - size) drawn := ⟨_, rfl⟩
    have hstep : step (size - offset * 2) drawn = -back := by
      rw [hback, step, step, ← Int.neg_tdiv]
      congr 1
      ring
    have hbackpos : 0 ≤ back := hback ▸ step_nonneg (by omega) hdrawn
    have htotal : drawn * back ≤ (offset * 2 - size) * 65536 :=
      hback ▸ drawn_mul_step_le (by omega) hdrawn
    have hsteps (k : Int) (hk : 0 ≤ k) (hle : k ≤ drawn) :
        0 ≤ k * back ∧ k * back ≤ (offset * 2 - size) * 65536 :=
      ⟨mul_nonneg hk hbackpos, (mul_le_mul_of_nonneg_right hle hbackpos).trans htotal⟩
    have hposition (k : Int) : position offset (-back) k = offset * 65536 - k * back := by
      rw [position]
      ring
    unfold Sampled
    simp only [hstep, hposition]
    constructor
    · intro h
      have hfirst := (h 0 le_rfl hdrawn).2.2
      have hlast := hsteps drawn (le_of_lt hdrawn) le_rfl
      exact ⟨by omega, by omega⟩
    · rintro ⟨-, hlt⟩ k hk hkdrawn
      have hthis := hsteps k hk (le_of_lt hkdrawn)
      have hnext := hsteps (k + 1) (by omega) (by omega)
      refine ⟨⟨?_, ?_⟩, ?_, ?_⟩ <;> omega

end DarkUI.FixedPoint
