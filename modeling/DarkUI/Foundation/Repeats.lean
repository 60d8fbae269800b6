import Mathlib.Tactic.Ring

/-! # Repeats

Strokes that are due at a first time and then once in every period. Whoever looks at least once in
every period, and makes no more than one stroke each time, is never behind.
-/

namespace Repeats

variable {first period now next n : ℕ}

/-- When the stroke after the first `n` is due. -/
def dueAt (first period n : ℕ) : ℕ := first + period * n

/-- How many strokes are due by now. -/
def count (first period now : ℕ) : ℕ :=
  if now < first then 0 else (now - first) / period + 1

theorem dueAt_succ : dueAt first period (n + 1) = dueAt first period n + period := by
  unfold dueAt
  ring

theorem lt_count_iff (hperiod : 0 < period) :
    n < count first period now ↔ dueAt first period n ≤ now := by
  unfold count dueAt
  split
  next hnow =>
    constructor
    · intro h
      exact absurd h (Nat.not_lt_zero n)
    · intro h
      exact absurd (Nat.le_trans (Nat.le_add_right _ _) h) (Nat.not_le.mpr hnow)
  next hnow =>
    rw [Nat.lt_succ_iff, Nat.le_div_iff_mul_le hperiod, Nat.mul_comm]
    omega

theorem count_mono (first : ℕ) (hperiod : 0 < period) (hnext : now ≤ next) :
    count first period now ≤ count first period next := by
  by_contra h
  have hdue := (lt_count_iff hperiod).mp (Nat.not_le.mp h)
  exact Nat.lt_irrefl _ ((lt_count_iff hperiod).mpr (Nat.le_trans hdue hnext))

/-- No more than one stroke falls due within a period. -/
theorem count_within (first : ℕ) (hperiod : 0 < period) (hnext : next ≤ now + period) :
    count first period next ≤ count first period now + 1 := by
  by_contra h
  have hdue := (lt_count_iff hperiod).mp (Nat.not_le.mp h)
  rw [dueAt_succ] at hdue
  have hlast : dueAt first period (count first period now) ≤ now :=
    Nat.le_of_add_le_add_right (Nat.le_trans hdue hnext)
  exact Nat.lt_irrefl _ ((lt_count_iff hperiod).mpr hlast)

/-- A stroke if one is due makes good what fell due since. -/
theorem count_next (first : ℕ) (hperiod : 0 < period) (hnow : now ≤ next)
    (hnext : next ≤ now + period) :
    (if count first period now < count first period next then count first period now + 1
      else count first period now) = count first period next := by
  have hmono := count_mono first hperiod hnow
  have hwithin := count_within first hperiod hnext
  split <;> omega

end Repeats
