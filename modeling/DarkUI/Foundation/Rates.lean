import Mathlib.Algebra.Order.Ring.Int
import Mathlib.Data.List.Basic
import Mathlib.Logic.Function.Basic
import Mathlib.Tactic.Linarith

/-! # Two rates kept in step

Items arrive at one rate and are passed on at another. A remainder says how far the output is
ahead of the input: an item is passed on while it is small, and taken once it is large. Passing
on and taking may both happen in one step, or only one of them, so an item is repeated or
skipped as often as the rates ask for.
-/

namespace Rates

variable {α : Type*} {rateIn rateOut written taken diff : Int} {times : Nat → Nat}
variable {items more : List α} {item : α}

/-- The remainder once an item is passed on, if it is small enough for that. -/
def raised (rateIn rateOut diff : Int) : Int := if diff < rateOut then diff + rateIn else diff

/-- The remainder once an item is taken, if it is large enough for that. -/
def lowered (rateOut diff : Int) : Int := if rateOut ≤ diff then diff - rateOut else diff

/-- The remainder is what the output is ahead by, and less than either step makes up for. -/
structure InStep (rateIn rateOut written taken diff : Int) : Prop where
  balance : written * rateIn = taken * rateOut + diff
  nonneg : 0 ≤ diff
  lt : diff < max rateIn rateOut

theorem inStep_start (hin : 0 < rateIn) : InStep rateIn rateOut 0 0 0 :=
  ⟨by rw [Int.zero_mul, Int.zero_mul, Int.zero_add], Int.le_refl 0, lt_max_of_lt_left hin⟩

/-- A step passes an item on or not, then takes it or not. -/
theorem InStep.step (h : InStep rateIn rateOut written taken diff) (hin : 0 < rateIn)
    (hout : 0 < rateOut) :
    InStep rateIn rateOut (written + if diff < rateOut then 1 else 0)
      (taken + if rateOut ≤ raised rateIn rateOut diff then 1 else 0)
      (lowered rateOut (raised rateIn rateOut diff)) := by
  obtain ⟨hbalance, hnonneg, hlt⟩ := h
  unfold raised lowered
  by_cases hsmall : diff < rateOut
  · simp only [if_pos hsmall]
    by_cases hlarge : rateOut ≤ diff + rateIn
    · simp only [if_pos hlarge]
      exact ⟨by linarith, by omega, by omega⟩
    · simp only [if_neg hlarge]
      exact ⟨by linarith, by omega, by omega⟩
  · have hlarge : rateOut ≤ diff := Int.not_lt.mp hsmall
    simp only [if_neg hsmall, if_pos hlarge]
    exact ⟨by linarith, by omega, by omega⟩

/-- The output is never a whole step ahead of the input, nor behind it. -/
theorem InStep.near (h : InStep rateIn rateOut written taken diff) :
    |written * rateIn - taken * rateOut| < max rateIn rateOut := by
  have hdiff : written * rateIn - taken * rateOut = diff := by
    rw [h.balance, Int.add_comm, Int.add_sub_cancel]
  rw [hdiff, abs_of_nonneg h.nonneg]
  exact h.lt

/-- The remainder is counted in steps of the greatest number that divides both rates. -/
theorem InStep.gcd_dvd (h : InStep rateIn rateOut written taken diff) :
    (Int.gcd rateIn rateOut : Int) ∣ diff := by
  have hdiff : diff = written * rateIn - taken * rateOut := by
    rw [h.balance, Int.add_comm, Int.add_sub_cancel]
  rw [hdiff]
  exact Int.dvd_sub ((Int.gcd_dvd_left rateIn rateOut).mul_left written)
    ((Int.gcd_dvd_right rateIn rateOut).mul_left taken)

/-- Where an item is passed on the remainder stays a step below the sum of the rates. -/
theorem InStep.add_le (h : InStep rateIn rateOut written taken diff) (hsmall : diff < rateOut) :
    diff + rateIn ≤ rateIn + rateOut - Int.gcd rateIn rateOut := by
  have hstep : (Int.gcd rateIn rateOut : Int) ∣ rateOut - diff :=
    Int.dvd_sub (Int.gcd_dvd_right rateIn rateOut) h.gcd_dvd
  have hle : (Int.gcd rateIn rateOut : Int) ≤ rateOut - diff :=
    Int.le_of_dvd (by omega) hstep
  omega

/-- Where nothing is taken an item was passed on, and the remainder has come closer to taking. -/
theorem raised_of_not_taken (h : ¬rateOut ≤ raised rateIn rateOut diff) :
    diff < rateOut ∧ raised rateIn rateOut diff = diff + rateIn := by
  unfold raised at h ⊢
  split at h
  next hsmall => exact ⟨hsmall, if_pos hsmall⟩
  next hsmall => exact absurd (Int.not_lt.mp hsmall) h

/-- The items in order, each as often as it was passed on. -/
def repeated (times : Nat → Nat) (items : List α) : List α :=
  (items.mapIdx fun i item => List.replicate (times i) item).flatten

theorem repeated_append : repeated times (items ++ more) =
    repeated times items ++ repeated (fun i => times (i + items.length)) more := by
  simp [repeated, List.mapIdx_append]

theorem repeated_cons : repeated times (item :: items) =
    List.replicate (times 0) item ++ repeated (fun i => times (i + 1)) items := by
  simp [repeated, List.mapIdx_cons]

theorem repeated_congr {times' : Nat → Nat} (h : ∀ i < items.length, times i = times' i) :
    repeated times items = repeated times' items := by
  unfold repeated
  congr 1
  refine List.ext_getElem (by simp) fun i hi _ => ?_
  rw [List.length_mapIdx] at hi
  rw [List.getElem_mapIdx, List.getElem_mapIdx, h i hi]

/-- Items that have not been passed on do not show. -/
theorem repeated_zero (h : ∀ i, times i = 0) : repeated times items = [] := by
  rw [repeated, List.flatten_eq_nil_iff]
  intro copies hcopies
  obtain ⟨i, hi, rfl⟩ := List.mem_mapIdx.mp hcopies
  rw [h i, List.replicate_zero]

theorem repeated_unseen (h : ∀ i, items.length ≤ i → times i = 0) :
    repeated times (items ++ more) = repeated times items := by
  rw [repeated_append, repeated_zero fun i => h _ (Nat.le_add_left _ _), List.append_nil]

/-- Passing an item on once more adds it at the end, if none behind it was passed on. -/
theorem repeated_again {before behind : List α} (h : ∀ i, before.length < i → times i = 0) :
    repeated (Function.update times before.length (times before.length + 1))
        (before ++ item :: behind) =
      repeated times (before ++ item :: behind) ++ [item] := by
  have hbefore : repeated (Function.update times before.length (times before.length + 1)) before =
      repeated times before := by
    refine repeated_congr fun i hi => ?_
    rw [Function.update_of_ne (Nat.ne_of_lt hi)]
  -- Of the items behind there is nothing to see, with either count.
  have hbehind : ∀ times' : Nat → Nat, (∀ i, before.length < i → times' i = 0) →
      repeated (fun i => times' (i + 1 + before.length)) behind = [] := by
    intro times' h'
    exact repeated_zero fun i => h' _ (by omega)
  have hafter : ∀ i, before.length < i →
      Function.update times before.length (times before.length + 1) i = 0 := by
    intro i hi
    rw [Function.update_of_ne (Nat.ne_of_gt hi), h i hi]
  rw [repeated_append, repeated_append, hbefore, repeated_cons, repeated_cons,
    hbehind times h, hbehind _ hafter, Nat.zero_add, Function.update_self,
    List.replicate_succ', List.append_nil, List.append_nil, List.append_assoc]

end Rates
