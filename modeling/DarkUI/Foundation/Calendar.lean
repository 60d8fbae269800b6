import Mathlib.Algebra.Order.Ring.Int

/-! # The Gregorian calendar

The days that exist, with years and months counted as usual.
-/

namespace Calendar

/-- Every fourth year is a leap year, but of the centuries only every fourth. -/
def IsLeap (year : Int) : Prop := 4 ∣ year ∧ (100 ∣ year → 400 ∣ year)

instance (year : Int) : Decidable (IsLeap year) := inferInstanceAs (Decidable (_ ∧ _))

/-- The days of a month. -/
def days (year month : Int) : Int :=
  if month = 2 then if IsLeap year then 29 else 28
  else if month ∈ [4, 6, 9, 11] then 30 else 31

/-- A day that exists. -/
structure IsDay (year month day : Int) : Prop where
  one_le_month : 1 ≤ month
  month_le : month ≤ 12
  one_le_day : 1 ≤ day
  day_le : day ≤ days year month

/-- A time of day, without leap seconds. -/
structure IsTime (hour minute second : Int) : Prop where
  hour_nonneg : 0 ≤ hour
  hour_le : hour ≤ 23
  minute_nonneg : 0 ≤ minute
  minute_le : minute ≤ 59
  second_nonneg : 0 ≤ second
  second_le : second ≤ 59

variable (year month : Int)

theorem le_days : 28 ≤ days year month := by
  unfold days
  split_ifs <;> decide

theorem days_le : days year month ≤ 31 := by
  unfold days
  split_ifs <;> decide

/-- The rule as it is usually programmed. -/
theorem isLeap_iff : IsLeap year ↔ 4 ∣ year ∧ ¬ 100 ∣ year ∨ 400 ∣ year := by
  constructor
  · rintro ⟨hfour, hcentury⟩
    by_cases h : 100 ∣ year
    · exact .inr (hcentury h)
    · exact .inl ⟨hfour, h⟩
  · rintro (⟨hfour, hnot⟩ | h)
    · exact ⟨hfour, fun hcentury => absurd hcentury hnot⟩
    · exact ⟨dvd_trans (by decide) h, fun _ => h⟩

end Calendar
