import DarkUI.Foundation.Text
import Mathlib.Tactic.NormNum
import Mathlib.Data.Int.Basic

/-! # Printed integers -/

namespace Text

/-- `%d`. -/
def decimal : Int → CString
  | .ofNat n => Nat.toDigits 10 n
  | .negSucc n => '-' :: Nat.toDigits 10 (n + 1)

theorem length_toDigits_le {n k : Nat} (hk : 0 < k) (h : n < 10 ^ k) :
    (Nat.toDigits 10 n).length ≤ k :=
  (Nat.length_toDigits_le_iff (by omega) hk).mpr h

/-- A 32-bit integer prints in eleven characters. -/
theorem length_decimal_le (n : Int32) : (decimal n.toInt).length ≤ 11 := by
  have hlow := n.le_toInt
  have hhigh := n.toInt_lt
  generalize n.toInt = value at hlow hhigh
  cases value with
  | ofNat k =>
      have hk : k < 10 ^ 11 := by
        simp only [Int.ofNat_eq_natCast] at hhigh
        omega
      exact length_toDigits_le (by omega) hk
  | negSucc k =>
      have hk : k + 1 < 10 ^ 10 := by
        simp only [Int.negSucc_eq] at hlow
        omega
      have hlength := length_toDigits_le (by omega) hk
      simp only [decimal, List.length_cons]
      omega

/-- The last character of a printed integer is a digit. -/
theorem getLast_decimal (n : Int) : ∃ c, (decimal n).getLast? = some c ∧ c.isDigit := by
  have hlast (k : Nat) : ∃ c, (Nat.toDigits 10 k).getLast? = some c ∧ c.isDigit := by
    have hne : Nat.toDigits 10 k ≠ [] := Nat.toDigits_ne_nil
    exact ⟨_, List.getLast?_eq_some_getLast hne,
      Nat.isDigit_of_mem_toDigits (by omega) (by omega) (List.getLast_mem hne)⟩
  cases n with
  | ofNat k => exact hlast k
  | negSucc k =>
      obtain ⟨c, hc, hdigit⟩ := hlast (k + 1)
      refine ⟨c, ?_, hdigit⟩
      simp [decimal, List.getLast?_cons, hc]

end Text
