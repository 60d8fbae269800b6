import Mathlib.Algebra.GroupWithZero.Nat
import Mathlib.Data.List.Basic

/-! # Newest-value mailboxes

A slot with a flag between one writer and one reader. A value put before the last one is
taken replaces it, and the flag says whether the slot holds a value not taken yet.
-/

/-- The slot keeps its value after it was taken; only the flag is cleared. -/
structure Mailbox (α : Type*) where
  slot : Option α
  full : Bool
  filled : full = true → slot.isSome = true

namespace Mailbox

variable {α : Type*} {m : Mailbox α} {puts : List α} {x : α}

def put (_ : Mailbox α) (x : α) : Mailbox α := ⟨some x, true, fun _ => rfl⟩

/-- The mailbox after its reader took the value. -/
def emptied (m : Mailbox α) : Mailbox α := ⟨m.slot, false, fun h => absurd h Bool.false_ne_true⟩

@[simp] theorem put_slot : (m.put x).slot = some x := rfl

@[simp] theorem put_full : (m.put x).full = true := rfl

@[simp] theorem emptied_slot : m.emptied.slot = m.slot := rfl

@[simp] theorem emptied_full : m.emptied.full = false := rfl

theorem exists_slot_of_full (h : m.full = true) : ∃ x, m.slot = some x :=
  Option.isSome_iff_exists.mp (m.filled h)

/-- Values in the order in which they were taken, each with how often it was taken again. -/
def taken (kept : List (α × Nat)) : List α := kept.flatMap fun pair =>
  List.replicate (pair.2 + 1) pair.1

/-- How often values were taken again. -/
def repeats (kept : List (α × Nat)) : Nat := (kept.map Prod.snd).sum

@[simp] theorem taken_concat {kept : List (α × Nat)} {n : Nat} :
    taken (kept ++ [(x, n)]) = taken kept ++ List.replicate (n + 1) x := by
  simp [taken]

@[simp] theorem repeats_concat {kept : List (α × Nat)} {n : Nat} :
    repeats (kept ++ [(x, n)]) = repeats kept + n := by
  simp [repeats]

variable {kept : List (α × Nat)} {refills : Nat}

/-- The mailbox stands between the values put and those taken, each in its turn. Either the value
in the slot was not taken yet, or it was the last one taken, and the mailbox is full only because
it was put again. -/
structure Tracks (m : Mailbox α) (puts : List α) (refills : Nat) (kept : List (α × Nat)) :
    Prop where
  newest : m.slot = puts.getLast?
  turn : (kept.map Prod.fst).Sublist puts.dropLast ∧ repeats kept ≤ refills ∨
    ∃ before x n, kept = before ++ [(x, n)] ∧ m.slot = some x ∧
      (kept.map Prod.fst).Sublist puts ∧ repeats kept + (if m.full then 1 else 0) ≤ refills

theorem Tracks.sublist (h : m.Tracks puts refills kept) : (kept.map Prod.fst).Sublist puts := by
  rcases h.turn with ⟨hfresh, -⟩ | ⟨before, x, n, -, -, hseen, -⟩
  · exact hfresh.trans (List.dropLast_sublist puts)
  · exact hseen

theorem Tracks.repeats_le (h : m.Tracks puts refills kept) : repeats kept ≤ refills := by
  rcases h.turn with ⟨-, hle⟩ | ⟨before, x, n, -, -, -, hle⟩
  · exact hle
  · omega

theorem Tracks.put (h : m.Tracks puts refills kept) (x : α) :
    (m.put x).Tracks (puts ++ [x]) refills kept where
  newest := by simp
  turn := by
    rw [List.dropLast_concat]
    exact .inl ⟨h.sublist, h.repeats_le⟩

/-- The value in the slot is put again. -/
theorem Tracks.refill (h : m.Tracks puts refills kept) (hslot : m.slot = some x) :
    (m.put x).Tracks puts (refills + 1) kept where
  newest := hslot.symm.trans h.newest
  turn := by
    rcases h.turn with ⟨hfresh, hle⟩ | ⟨before, last, n, hkept, hlast, hseen, hle⟩
    · exact .inl ⟨hfresh, Nat.le_succ_of_le hle⟩
    · rw [hslot, Option.some.injEq] at hlast
      subst hlast
      exact .inr ⟨before, x, n, hkept, rfl, hseen, by rw [put_full, if_pos rfl]; omega⟩

/-- Where nothing was put there is nothing to put again. -/
theorem Tracks.more (h : m.Tracks puts refills kept) : m.Tracks puts (refills + 1) kept where
  newest := h.newest
  turn := h.turn.imp (fun ⟨hfresh, hle⟩ => ⟨hfresh, Nat.le_succ_of_le hle⟩)
    fun ⟨before, x, n, hkept, hslot, hseen, hle⟩ =>
      ⟨before, x, n, hkept, hslot, hseen, Nat.le_succ_of_le hle⟩

/-- Taking the value in the slot, for the first time or again. -/
theorem Tracks.take (h : m.Tracks puts refills kept) (hready : m.full = true) :
    ∃ kept', m.emptied.Tracks puts refills kept' ∧ taken kept' = taken kept ++ m.slot.toList := by
  obtain ⟨x, hx⟩ := exists_slot_of_full hready
  have hputs : puts.dropLast ++ [x] = puts :=
    List.dropLast_append_getLast? x (h.newest.symm.trans hx)
  rw [hx, Option.toList_some]
  rcases h.turn with ⟨hfresh, hle⟩ | ⟨before, last, n, rfl, hlast, hseen, hle⟩
  · refine ⟨kept ++ [(x, 0)], ⟨h.newest, .inr ⟨kept, x, 0, rfl, hx, ?_, ?_⟩⟩, taken_concat⟩
    · rw [List.map_append, ← hputs]
      exact hfresh.append (List.Sublist.refl [x])
    · simpa using hle
  · rw [hx, Option.some.injEq] at hlast
    subst hlast
    rw [hready, if_pos rfl, repeats_concat] at hle
    refine ⟨before ++ [(x, n + 1)], ⟨h.newest, .inr ⟨before, x, n + 1, rfl, hx, ?_, ?_⟩⟩, ?_⟩
    · simpa using hseen
    · rw [repeats_concat, emptied_full, if_neg Bool.false_ne_true]
      omega
    · rw [taken_concat, taken_concat, List.append_assoc, ← List.replicate_succ']

theorem put_emptied (hslot : m.slot = some x) : (m.put x).emptied = m.emptied := by
  cases m
  cases hslot
  rfl

/-- An empty mailbox that never held a value stays as it is. -/
theorem emptied_of_slot_none (hslot : m.slot = none) : m.emptied = m := by
  have hempty : m.full = false := by
    rw [Bool.eq_false_iff]
    intro hfull
    obtain ⟨x, hx⟩ := exists_slot_of_full hfull
    rw [hslot] at hx
    cases hx
  cases m
  cases hempty
  rfl

/-- Taking the value in the slot once more than it was put. -/
theorem Tracks.takeAgain (h : m.Tracks puts refills kept) :
    ∃ kept', m.emptied.Tracks puts (refills + 1) kept' ∧
      taken kept' = taken kept ++ m.slot.toList := by
  cases hslot : m.slot with
  | none =>
      refine ⟨kept, ?_, (List.append_nil _).symm⟩
      rw [emptied_of_slot_none hslot]
      exact h.more
  | some x =>
      obtain ⟨kept', htracks, htaken⟩ := (h.refill hslot).take rfl
      rw [put_emptied hslot] at htracks
      exact ⟨kept', htracks, htaken⟩

end Mailbox
