import DarkUI.Common.Utils
import Mathlib.Logic.Function.Iterate

/-! # The folders above a path

Every slash of a path ends the path of a folder above it, so the folders above are told apart by
how many slashes they have.
-/

namespace DarkUI

open Text

def slashes (path : CString) : Nat := path.count '/'

/-- The folder above with so many slashes, or the path itself. -/
def ancestor (path : CString) (n : Nat) : CString := parentPath^[slashes path - n] path

/-- A path below the root of the card. -/
def UnderCard (path : CString) : Prop := ∃ rel, path = sdcardPath ++ '/' :: rel

instance (path : CString) : Decidable (UnderCard path) :=
  decidable_of_iff (sdcardPath ++ ['/'] <+: path)
    ⟨fun ⟨rel, h⟩ => ⟨rel, by rw [← h]; simp⟩, fun ⟨rel, h⟩ => ⟨rel, by rw [h]; simp⟩⟩

variable {path parent name : CString} {n : Nat}

theorem slashes_append_cons (h : '/' ∉ name) :
    slashes (parent ++ '/' :: name) = slashes parent + 1 := by
  simp [slashes, List.count_eq_zero_of_not_mem h]

theorem parentPath_append_cons (h : '/' ∉ name) : parentPath (parent ++ '/' :: name) = parent := by
  have hsplit : splitLast '/' (parent ++ '/' :: name) = some (parent, name) :=
    splitLast_eq_some.mpr ⟨rfl, h⟩
  simp [parentPath, hsplit]

theorem slashes_of_parentPath (h : parentPath path ≠ path) :
    slashes path = slashes (parentPath path) + 1 := by
  unfold parentPath at h ⊢
  split
  next parent name hsplit =>
    obtain ⟨rfl, hname⟩ := splitLast_eq_some.mp hsplit
    exact slashes_append_cons hname
  next hsplit =>
    rw [hsplit] at h
    exact absurd rfl h

@[simp] theorem ancestor_self : ancestor path (slashes path) = path := by
  simp [ancestor]

theorem ancestor_append_cons (hname : '/' ∉ name) (h : n ≤ slashes parent) :
    ancestor (parent ++ '/' :: name) n = ancestor parent n := by
  have hsteps : slashes parent + 1 - n = slashes parent - n + 1 := by omega
  rw [ancestor, slashes_append_cons hname, hsteps, Function.iterate_succ_apply,
    parentPath_append_cons hname, ancestor]

theorem UnderCard.ne (h : UnderCard path) : path ≠ sdcardPath := by
  obtain ⟨rel, rfl⟩ := h
  intro heq
  have := congrArg List.length heq
  simp at this

theorem UnderCard.append (h : UnderCard path) (rest : CString) : UnderCard (path ++ rest) := by
  obtain ⟨rel, rfl⟩ := h
  exact ⟨rel ++ rest, by simp⟩

theorem UnderCard.lt_slashes (h : UnderCard path) : slashes sdcardPath < slashes path := by
  obtain ⟨rel, rfl⟩ := h
  simp only [slashes, List.count_append, List.count_cons_self]
  omega

/-- Below the root of the card there is the root, or another folder below it. -/
theorem UnderCard.cases (h : UnderCard path) : ∃ parent name, path = parent ++ '/' :: name ∧
    '/' ∉ name ∧ (parent = sdcardPath ∨ UnderCard parent) := by
  obtain ⟨rel, rfl⟩ := h
  cases hsplit : splitLast '/' rel with
  | none => exact ⟨sdcardPath, rel, rfl, splitLast_eq_none.mp hsplit, Or.inl rfl⟩
  | some split =>
      obtain ⟨hrel, hname⟩ := splitLast_eq_some.mp hsplit
      subst hrel
      exact ⟨sdcardPath ++ '/' :: split.1, split.2, by simp, hname, Or.inr ⟨split.1, rfl⟩⟩

end DarkUI
