import Mathlib.Data.List.Nodup
import Mathlib.Data.List.Perm.Basic

/-! # A folder that folds its names

A file system that ignores case finds a file by any spelling of its name and keeps the
spelling it was created with. No two files of a folder have names that fold to the same.
-/

universe u v w

/-- The files of a folder in the order in which they are listed. -/
structure Folder {ν : Type u} {κ : Type v} (fold : ν → κ) (β : Type w) where
  entries : List (ν × β)
  distinct : (entries.map fun entry => fold entry.1).Nodup

namespace Folder

variable {ν : Type u} {κ : Type v} {β : Type w} {fold : ν → κ}

/-- The names as they are spelled. -/
def names (dir : Folder fold β) : List ν := dir.entries.map Prod.fst

theorem eq_of_mem {dir : Folder fold β} {first second : ν × β} (hfirst : first ∈ dir.entries)
    (hsecond : second ∈ dir.entries) (h : fold first.1 = fold second.1) : first = second :=
  List.inj_on_of_nodup_map dir.distinct hfirst hsecond h

variable [DecidableEq κ]

/-- The file found under a name, with its own spelling. -/
def file (dir : Folder fold β) (name : ν) : Option (ν × β) :=
  dir.entries.find? fun entry => fold entry.1 = fold name

def read (dir : Folder fold β) (name : ν) : Option β := (dir.file name).map Prod.snd

/-- The spelling a file keeps, or gets when it is created. -/
def spelling (dir : Folder fold β) (name : ν) : ν := ((dir.file name).map Prod.fst).getD name

variable {dir : Folder fold β} {name other : ν} {content : β} {entry : ν × β}

theorem file_eq_some (h : dir.file name = some entry) :
    entry ∈ dir.entries ∧ fold entry.1 = fold name :=
  ⟨List.mem_of_find?_eq_some h, by simpa using List.find?_some h⟩

theorem file_of_mem (h : entry ∈ dir.entries) (hname : fold entry.1 = fold name) :
    dir.file name = some entry := by
  cases hfile : dir.file name with
  | none =>
      have hnot := List.find?_eq_none.mp hfile entry h
      simp [hname] at hnot
  | some found =>
      obtain ⟨hmem, hfound⟩ := file_eq_some hfile
      rw [eq_of_mem hmem h (hfound.trans hname.symm)]

theorem file_eq_none : dir.file name = none ↔ ∀ entry ∈ dir.entries, fold entry.1 ≠ fold name := by
  simp [file]

theorem fold_spelling : fold (dir.spelling name) = fold name := by
  unfold spelling
  cases hfile : dir.file name with
  | none => rfl
  | some entry => exact (file_eq_some hfile).2

/-- Removes the file found under a name. -/
def remove (dir : Folder fold β) (name : ν) : Folder fold β where
  entries := dir.entries.filter fun entry => fold entry.1 ≠ fold name
  distinct := dir.distinct.sublist (List.filter_sublist.map _)

/-- Puts new content into the file found under a name, or creates it as the last one. -/
def write (dir : Folder fold β) (name : ν) (content : β) : Folder fold β where
  entries :=
    if (dir.file name).isSome then
      dir.entries.map fun entry => if fold entry.1 = fold name then (entry.1, content) else entry
    else dir.entries ++ [(name, content)]
  distinct := by
    split
    next =>
      have hsame : (fun entry : ν × β =>
          fold (if fold entry.1 = fold name then (entry.1, content) else entry).1) =
            fun entry => fold entry.1 := by
        funext entry
        split <;> rfl
      rw [List.map_map]
      exact (congrArg (fun f => (dir.entries.map f).Nodup) hsame).mpr dir.distinct
    next hnone =>
      have hnew := file_eq_none.mp (Option.not_isSome_iff_eq_none.mp hnone)
      rw [List.map_append, List.nodup_append]
      refine ⟨dir.distinct, by simp, ?_⟩
      intro first hfirst second hsecond
      obtain ⟨entry, hentry, rfl⟩ := List.mem_map.mp hfirst
      obtain rfl := List.mem_singleton.mp hsecond
      exact hnew entry hentry

theorem entries_write (dir : Folder fold β) (name : ν) (content : β) :
    (dir.write name content).entries =
      if (dir.file name).isSome then
        dir.entries.map fun entry => if fold entry.1 = fold name then (entry.1, content) else entry
      else dir.entries ++ [(name, content)] := rfl

/-- Moves the content of one file into another, which keeps its spelling. -/
def rename (dir : Folder fold β) (source target : ν) : Folder fold β :=
  match dir.read source with
  | none => dir
  | some content => (dir.remove source).write target content

theorem names_write (dir : Folder fold β) (name : ν) (content : β) :
    (dir.write name content).names =
      if (dir.file name).isSome then dir.names else dir.names ++ [name] := by
  unfold names
  rw [entries_write]
  by_cases hfile : (dir.file name).isSome
  · simp only [if_pos hfile, List.map_map]
    congr 1
    funext entry
    simp only [Function.comp_apply]
    split <;> rfl
  · simp [if_neg hfile]

/-- A write changes one file. -/
theorem mem_write : entry ∈ (dir.write name content).entries ↔
    entry = (dir.spelling name, content) ∨ entry ∈ dir.entries ∧ fold entry.1 ≠ fold name := by
  rw [entries_write, spelling]
  cases hfile : dir.file name with
  | none =>
      have hnew := file_eq_none.mp hfile
      simp only [Option.isSome_none, Bool.false_eq_true, if_false, List.mem_append,
        List.mem_singleton, Option.map_none, Option.getD_none]
      constructor
      · rintro (hold | rfl)
        · exact Or.inr ⟨hold, hnew entry hold⟩
        · exact Or.inl rfl
      · rintro (rfl | hold)
        · exact Or.inr rfl
        · exact Or.inl hold.1
  | some found =>
      obtain ⟨hmem, hfound⟩ := file_eq_some hfile
      simp only [Option.isSome_some, if_true, List.mem_map, Option.map_some, Option.getD_some]
      constructor
      · rintro ⟨old, hold, rfl⟩
        split
        next hname =>
          rw [eq_of_mem hold hmem (hname.trans hfound.symm)]
          exact Or.inl rfl
        next hname => exact Or.inr ⟨hold, hname⟩
      · rintro (rfl | ⟨hold, hname⟩)
        · exact ⟨found, hmem, by rw [if_pos hfound]⟩
        · exact ⟨entry, hold, by rw [if_neg hname]⟩

theorem read_write_self (dir : Folder fold β) (name : ν) (content : β) :
    (dir.write name content).read name = some content := by
  rw [read, file_of_mem (mem_write.mpr (Or.inl rfl)) fold_spelling]
  rfl

theorem mem_remove : entry ∈ (dir.remove name).entries ↔
    entry ∈ dir.entries ∧ fold entry.1 ≠ fold name := by
  simp [remove]

theorem names_remove (dir : Folder fold β) (name : ν) :
    (dir.remove name).names = dir.names.filter fun other => fold other ≠ fold name := by
  rw [names, names, remove, List.filter_map]
  rfl

theorem file_remove_of_ne (h : fold other ≠ fold name) :
    (dir.remove name).file other = dir.file other := by
  cases hfile : dir.file other with
  | none =>
      rw [file_eq_none] at hfile ⊢
      exact fun entry hentry => hfile entry (mem_remove.mp hentry).1
  | some entry =>
      obtain ⟨hmem, hname⟩ := file_eq_some hfile
      exact file_of_mem (mem_remove.mpr ⟨hmem, hname ▸ h⟩) hname

theorem remove_write_self (dir : Folder fold β) (name : ν) (content : β) :
    (dir.write name content).remove name = dir.remove name := by
  simp only [remove, mk.injEq]
  rw [entries_write]
  split
  next =>
    rw [List.filter_map]
    have hkept : ((fun entry : ν × β => decide (fold entry.1 ≠ fold name)) ∘ fun entry =>
        if fold entry.1 = fold name then (entry.1, content) else entry) =
          fun entry => decide (fold entry.1 ≠ fold name) := by
      funext entry
      simp only [Function.comp_apply]
      split
      next hname => simp [hname]
      next => rfl
    rw [hkept, List.map_congr_left (g := id), List.map_id]
    intro entry hentry
    rw [if_neg (by simpa using (List.mem_filter.mp hentry).2)]
    rfl
  next => simp

/-- Written to a file of another name that is then renamed, a file is replaced. -/
theorem rename_write (dir : Folder fold β) (tmp target : ν) (content : β) :
    (dir.write tmp content).rename tmp target = (dir.remove tmp).write target content := by
  rw [rename, read_write_self]
  simp only [remove_write_self]

end Folder
