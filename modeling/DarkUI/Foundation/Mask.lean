import Mathlib.Logic.Basic

/-! # Bit masks

Sets of small indices kept in a machine word: what setting, clearing and keeping one bit do to
the others.
-/

namespace Mask

variable {w : Nat}

/-- The mask with one bit set. -/
def bit (w i : Nat) : BitVec w := 1#w <<< i

theorem getLsbD_bit {i j : Nat} (hi : i < w) : (bit w i).getLsbD j = decide (i = j) := by
  rw [bit, ← BitVec.twoPow_eq, BitVec.getLsbD_twoPow]
  simp [hi]

theorem getLsbD_set {i j : Nat} (m : BitVec w) (hi : i < w) :
    (m ||| bit w i).getLsbD j = (m.getLsbD j || decide (i = j)) := by
  rw [BitVec.getLsbD_or, getLsbD_bit hi]

theorem getLsbD_clear {i j : Nat} (m : BitVec w) (hi : i < w) :
    (m &&& ~~~bit w i).getLsbD j = (m.getLsbD j && !decide (i = j)) := by
  rw [BitVec.getLsbD_and, BitVec.getLsbD_not, getLsbD_bit hi]
  by_cases hj : j < w
  · simp [hj]
  · simp [BitVec.getLsbD_of_ge m j (by omega)]

theorem getLsbD_keep {i j : Nat} (m : BitVec w) (hi : i < w) :
    (m &&& bit w i).getLsbD j = (m.getLsbD j && decide (i = j)) := by
  rw [BitVec.getLsbD_and, getLsbD_bit hi]

/-- Testing one bit by a conjunction with its mask. -/
theorem and_bit_eq_zero {i : Nat} (m : BitVec w) (hi : i < w) :
    m &&& bit w i = 0#w ↔ m.getLsbD i = false := by
  constructor
  · intro h
    have hbit := congrArg (fun x => x.getLsbD i) h
    simpa [getLsbD_keep m hi] using hbit
  · intro h
    apply BitVec.eq_of_getLsbD_eq
    intro j _
    rw [getLsbD_keep m hi, BitVec.getLsbD_zero]
    by_cases hij : i = j
    · simp [← hij, h]
    · simp [hij]

end Mask
