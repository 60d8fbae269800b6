import Mathlib.Data.List.Basic
import Mathlib.Tactic.SplitIfs

/-! # Rings

The slots of a circular buffer from its first occupied one up to the one written next, and what
its contents become when either end moves.
-/

namespace Ring

variable {α : Type*} {n first last i : Nat}

/-- The slot after `i`. -/
def next (n i : Nat) : Nat := if i + 1 ≥ n then 0 else i + 1

/-- The slot before `i`. -/
def previous (n i : Nat) : Nat := if i = 0 then n - 1 else i - 1

/-- The slot `k` places after `first`. -/
def slot (n first k : Nat) : Nat := if first + k < n then first + k else first + k - n

def count (n first last : Nat) : Nat :=
  if first ≤ last then last - first else last + n - first

/-- The slots from `first` up to, but not including, `last`. -/
def slots (n first last : Nat) : List Nat := (List.range (count n first last)).map (slot n first)

theorem next_lt (h : i < n) : next n i < n := by
  unfold next
  split_ifs <;> omega

theorem previous_next (h : i < n) : previous n (next n i) = i := by
  unfold next
  split
  · rw [previous, if_pos rfl]
    omega
  · rw [previous, if_neg (by omega), Nat.add_sub_cancel]

theorem eq_previous_iff (hi : i < n) (hfirst : first < n) :
    i = previous n first ↔ next n i = first := by
  unfold previous next
  split_ifs <;> omega

theorem previous_eq_emod (h : i < n) : (previous n i : Int) = ((i : Int) - 1) % n := by
  unfold previous
  split
  next hzero =>
    subst hzero
    rw [← Int.add_emod_right, Int.emod_eq_of_lt (by omega) (by omega)]
    omega
  next =>
    rw [Int.emod_eq_of_lt (by omega) (by omega)]
    omega

theorem slots_self (n i : Nat) : slots n i i = [] := by
  simp [slots, count]

theorem last_not_mem_slots (hfirst : first < n) : last ∉ slots n first last := by
  simp only [slots, List.mem_map, List.mem_range, not_exists, not_and]
  intro k hk
  unfold count at hk
  unfold slot
  split_ifs at hk ⊢ <;> omega

theorem count_next_last (hfirst : first < n) (hlast : last < n) (h : next n last ≠ first) :
    count n first (next n last) = count n first last + 1 := by
  unfold count next at *
  split_ifs at * <;> omega

theorem slot_count (hfirst : first < n) (hlast : last < n) :
    slot n first (count n first last) = last := by
  unfold count slot
  split_ifs <;> omega

/-- Writing at the far end adds a slot there. -/
theorem slots_next_last (hfirst : first < n) (hlast : last < n) (h : next n last ≠ first) :
    slots n first (next n last) = slots n first last ++ [last] := by
  rw [slots, count_next_last hfirst hlast h, List.range_succ, List.map_append, List.map_singleton,
    slot_count hfirst hlast, slots]

theorem count_of_ne (hfirst : first < n) (hlast : last < n) (h : first ≠ last) :
    count n first last = count n (next n first) last + 1 := by
  unfold count next
  split_ifs <;> omega

theorem slot_succ (hfirst : first < n) (hlast : last < n) (hi : i < count n (next n first) last) :
    slot n first (i + 1) = slot n (next n first) i := by
  unfold count next at hi
  unfold slot next
  split_ifs at hi ⊢ <;> omega

/-- Reading at the near end takes its slot away. -/
theorem slots_of_ne (hfirst : first < n) (hlast : last < n) (h : first ≠ last) :
    slots n first last = first :: slots n (next n first) last := by
  rw [slots, count_of_ne hfirst hlast h, List.range_succ_eq_map, List.map_cons, List.map_map]
  have hhead : slot n first 0 = first := by
    simp [slot, hfirst]
  rw [hhead, slots]
  congr 1
  refine List.map_congr_left fun k hk => ?_
  exact slot_succ hfirst hlast (List.mem_range.mp hk)

/-- What the slots in use hold, from the first one on. -/
def contents (buffer : List α) (n first last : Nat) : List α :=
  (slots n first last).filterMap fun i => buffer[i]?

theorem contents_self (buffer : List α) (n i : Nat) : contents buffer n i i = [] := by
  simp [contents, slots_self]

theorem contents_set {buffer : List α} {value : α} (hfirst : first < n) :
    contents (buffer.set last value) n first last = contents buffer n first last := by
  refine List.filterMap_congr fun i hi => ?_
  have hne : last ≠ i := by
    rintro rfl
    exact last_not_mem_slots hfirst hi
  rw [List.getElem?_set_ne hne]

/-- A value written to the slot before the gap comes last. -/
theorem contents_push {buffer : List α} {value : α} (hlength : buffer.length = n)
    (hfirst : first < n) (hlast : last < n) (h : next n last ≠ first) :
    contents (buffer.set last value) n first (next n last) =
      contents buffer n first last ++ [value] := by
  have hkept := @contents_set _ n first last buffer value hfirst
  rw [contents] at hkept
  rw [contents, slots_next_last hfirst hlast h, List.filterMap_append, hkept]
  simp [contents, List.getElem?_set_self (hlength ▸ hlast)]

/-- A value read from the first slot in use came first. -/
theorem contents_pop {buffer : List α} {value : α} (hfirst : first < n) (hlast : last < n)
    (h : first ≠ last) (hvalue : buffer[first]? = some value) :
    contents buffer n first last = value :: contents buffer n (next n first) last := by
  rw [contents, slots_of_ne hfirst hlast h, List.filterMap_cons, hvalue]
  rfl

end Ring
