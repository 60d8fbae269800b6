import DarkUI.Foundation.Text

/-! # Strings in character arrays

What C's string functions do to an array of a fixed size, where an access outside the array is
undefined.
-/

namespace Cells

open Text

/-- The string in an array, if it ends there. -/
def read (a : List Char) : Option CString :=
  if '\x00' ∈ a then some (untilNul a) else none

/-- The character at an index. -/
def load (a : List Char) (i : Nat) : Option Char := a[i]?

/-- A character stored at an index. -/
def store (a : List Char) (i : Nat) (c : Char) : Option (List Char) :=
  if i < a.length then some (a.set i c) else none

/-- `strcpy` -/
def strcpy (a : List Char) (s : CString) : Option (List Char) :=
  if s.length < a.length then some (s ++ '\x00' :: a.drop (s.length + 1)) else none

/-- The array has the string with its end, and whatever is behind it. -/
structure Holds (size : Nat) (a : List Char) (s : CString) : Prop where
  length_eq : a.length = size
  nul_not_mem : '\x00' ∉ s
  ends : ∃ rest, a = s ++ '\x00' :: rest

variable {size i : Nat} {a : List Char} {s before after : CString} {c : Char}

theorem Holds.lt (h : Holds size a s) : s.length < size := by
  obtain ⟨rest, rfl⟩ := h.ends
  have hlength := h.length_eq
  rw [List.length_append, List.length_cons] at hlength
  omega

theorem Holds.read (h : Holds size a s) : read a = some s := by
  obtain ⟨rest, rfl⟩ := h.ends
  rw [Cells.read, if_pos (by simp), untilNul_append_nul h.nul_not_mem]

theorem Holds.load (h : Holds size a s) (hi : i < s.length) : load a i = some s[i] := by
  obtain ⟨rest, rfl⟩ := h.ends
  rw [Cells.load, List.getElem?_append_left hi, List.getElem?_eq_getElem hi]

/-- A string that fits is copied. -/
theorem exists_strcpy (hnul : '\x00' ∉ s) (hlt : s.length < a.length) :
    ∃ b, strcpy a s = some b ∧ Holds a.length b s := by
  refine ⟨_, if_pos hlt, ?_, hnul, _, rfl⟩
  rw [List.length_append, List.length_cons, List.length_drop]
  omega

/-- A string is cut by an end stored inside it. -/
theorem Holds.cut (h : Holds size a (before ++ after)) :
    ∃ b, store a before.length '\x00' = some b ∧ Holds size b before := by
  have hlt := h.lt
  obtain ⟨rest, rfl⟩ := h.ends
  have hlength := h.length_eq
  rw [List.length_append] at hlt
  refine ⟨_, if_pos (by omega), (List.length_set ..).trans hlength,
    fun hmem => h.nul_not_mem (List.mem_append_left _ hmem), ?_⟩
  rw [List.append_assoc, List.set_append_right _ _ (le_refl _), Nat.sub_self]
  cases after with
  | nil => exact ⟨rest, rfl⟩
  | cons x xs => exact ⟨xs ++ '\x00' :: rest, rfl⟩

end Cells
