import Mathlib.Data.List.Basic
import Mathlib.Logic.Function.Basic

/-! # A disk that can lose power

Files with their names, where a write reaches the disk for sure only once it is synced, and
changes of names reach it in order but not at once.
-/

/-- Names and the files they stand for. -/
structure Disk (κ α : Type*) where
  data : Nat → List α
  synced : Nat → Bool
  /-- No file from here on is in use. -/
  fresh : Nat
  names : κ → Option Nat
  /-- What the names were since they were last synced. -/
  older : List (κ → Option Nat)

namespace Disk

variable {κ α : Type*} {disk : Disk κ α} {path : κ} {file other : Nat}

/-- The names a power cut can leave, the current ones first. -/
def history (disk : Disk κ α) : List (κ → Option Nat) := disk.names :: disk.older

/-- What is read under a name. -/
def content (disk : Disk κ α) (path : κ) : Option (List α) := (disk.names path).map disk.data

/-- `write` at the start of an open file. -/
def write (disk : Disk κ α) (file : Nat) (bytes : List α) : Disk κ α :=
  { disk with
    data := Function.update disk.data file (bytes ++ (disk.data file).drop bytes.length)
    synced := Function.update disk.synced file false }

def fsync (disk : Disk κ α) (file : Nat) : Disk κ α :=
  { disk with synced := Function.update disk.synced file true }

def sync (disk : Disk κ α) : Disk κ α :=
  { disk with synced := fun _ => true, older := [] }

/-- What a power cut leaves: some of the names there were, and in the files that were not synced
whatever was lost in them. -/
def powerCut (disk : Disk κ α) (kept : Nat) (lost : Nat → List α) : Disk κ α where
  data file := if disk.synced file then disk.data file else lost file
  synced _ := true
  fresh := disk.fresh
  names := (disk.history[kept]?).getD disk.names
  older := []

/-- The file has or had the name, and can be found under it after a power cut. -/
def Published (disk : Disk κ α) (path : κ) (file : Nat) : Prop :=
  ∃ names ∈ disk.history, names path = some file

/-- Files in use come before the fresh ones. -/
def Bounded (disk : Disk κ α) : Prop :=
  ∀ names ∈ disk.history, ∀ path file, names path = some file → file < disk.fresh

theorem published_of_names (h : disk.names path = some file) : disk.Published path file :=
  ⟨disk.names, List.mem_cons_self, h⟩

theorem mem_history_powerCut {kept : Nat} {lost : Nat → List α} {names : κ → Option Nat}
    (h : names ∈ (disk.powerCut kept lost).history) : names ∈ disk.history := by
  have hnames : names = (disk.history[kept]?).getD disk.names := List.mem_singleton.mp h
  rw [hnames]
  cases hkept : disk.history[kept]? with
  | none => exact List.mem_cons_self
  | some older => exact List.mem_of_getElem? hkept

theorem mem_history_sync {names : κ → Option Nat} (h : names ∈ disk.sync.history) :
    names ∈ disk.history := by
  simp only [history, sync, List.mem_singleton] at h
  exact h ▸ List.mem_cons_self

theorem write_frame {bytes : List α} (h : other ≠ file) :
    (disk.write file bytes).data other = disk.data other ∧
      (disk.write file bytes).synced other = disk.synced other :=
  ⟨Function.update_of_ne h _ _, Function.update_of_ne h _ _⟩

theorem fsync_synced (h : disk.synced other = true) :
    (disk.fsync file).synced other = true := by
  unfold fsync
  by_cases hfile : other = file
  · simp [hfile]
  · simp [Function.update_of_ne hfile, h]

section Names

variable [DecidableEq κ]

/-- `open` with `O_CREAT|O_TRUNC`: the disk, and the file that was opened. -/
def openTrunc (disk : Disk κ α) (path : κ) : Disk κ α × Nat :=
  match disk.names path with
  | some file =>
      ({ disk with
          data := Function.update disk.data file []
          synced := Function.update disk.synced file false }, file)
  | none =>
      ({ data := Function.update disk.data disk.fresh []
         synced := Function.update disk.synced disk.fresh false
         fresh := disk.fresh + 1
         names := Function.update disk.names path (some disk.fresh)
         older := disk.history }, disk.fresh)

def rename (disk : Disk κ α) (source target : κ) : Disk κ α :=
  match disk.names source with
  | some file =>
      { disk with
        names := Function.update (Function.update disk.names target (some file)) source none
        older := disk.history }
  | none => disk

theorem mem_history_openTrunc {names : κ → Option Nat}
    (h : names ∈ (disk.openTrunc path).1.history) :
    names ∈ disk.history ∨
      disk.names path = none ∧ names = Function.update disk.names path (some disk.fresh) := by
  unfold openTrunc at h
  split at h
  next => exact Or.inl h
  next hnone =>
    rcases List.mem_cons.mp h with rfl | h
    · exact Or.inr ⟨hnone, rfl⟩
    · exact Or.inl h

theorem mem_history_rename {source target : κ} {names : κ → Option Nat}
    (h : names ∈ (disk.rename source target).history) :
    names ∈ disk.history ∨ ∃ file, disk.names source = some file ∧
      names = Function.update (Function.update disk.names target (some file)) source none := by
  unfold rename at h
  split at h
  next file hfile =>
    rcases List.mem_cons.mp h with rfl | h
    · exact Or.inr ⟨file, hfile, rfl⟩
    · exact Or.inl h
  next => exact Or.inl h

theorem openTrunc_fresh : disk.fresh ≤ (disk.openTrunc path).1.fresh := by
  unfold openTrunc
  split
  · exact Nat.le_refl _
  · exact Nat.le_succ _

theorem openTrunc_names : (disk.openTrunc path).1.names path = some (disk.openTrunc path).2 := by
  unfold openTrunc
  split
  next file hfile => exact hfile
  next => simp

theorem openTrunc_data : (disk.openTrunc path).1.data (disk.openTrunc path).2 = [] := by
  unfold openTrunc
  split <;> exact Function.update_self _ _ _

/-- Opening a file to write it anew touches no other. -/
theorem openTrunc_frame (h : other ≠ (disk.openTrunc path).2) :
    (disk.openTrunc path).1.data other = disk.data other ∧
      (disk.openTrunc path).1.synced other = disk.synced other := by
  unfold openTrunc at h ⊢
  split at h <;> exact ⟨Function.update_of_ne h _ _, Function.update_of_ne h _ _⟩

theorem rename_frame {source target : κ} : (disk.rename source target).data = disk.data ∧
    (disk.rename source target).synced = disk.synced ∧
    (disk.rename source target).fresh = disk.fresh := by
  unfold rename
  split <;> exact ⟨rfl, rfl, rfl⟩

theorem openTrunc_bounded (h : disk.Bounded) : (disk.openTrunc path).1.Bounded ∧
    (disk.openTrunc path).2 < (disk.openTrunc path).1.fresh := by
  constructor
  · intro names hmem other file hfile
    rcases mem_history_openTrunc hmem with hold | ⟨hnone, rfl⟩
    · exact Nat.lt_of_lt_of_le (h names hold other file hfile) openTrunc_fresh
    · simp only [openTrunc, hnone]
      by_cases hother : other = path
      · subst hother
        simp only [Function.update_self, Option.some.injEq] at hfile
        omega
      · rw [Function.update_of_ne hother] at hfile
        have := h disk.names List.mem_cons_self other file hfile
        omega
  · unfold openTrunc
    split
    next file hfile => exact h disk.names List.mem_cons_self path file hfile
    next => exact Nat.lt_succ_self _

/-- Opening a file by one name publishes nothing under another. -/
theorem published_of_openTrunc {name : κ} (hname : name ≠ path)
    (h : (disk.openTrunc path).1.Published name file) : disk.Published name file := by
  obtain ⟨names, hmem, hfile⟩ := h
  rcases mem_history_openTrunc hmem with hold | ⟨-, rfl⟩
  · exact ⟨names, hold, hfile⟩
  · rw [Function.update_of_ne hname] at hfile
    exact published_of_names hfile

theorem rename_bounded {source target : κ} (h : disk.Bounded) :
    (disk.rename source target).Bounded := by
  intro names hmem path file hfile
  rw [rename_frame.2.2]
  rcases mem_history_rename hmem with hold | ⟨moved, hmoved, rfl⟩
  · exact h names hold path file hfile
  · simp only [Function.update_apply] at hfile
    split at hfile
    · cases hfile
    · split at hfile
      · cases hfile
        exact h disk.names List.mem_cons_self source file hmoved
      · exact h disk.names List.mem_cons_self path file hfile

/-- A renaming publishes the file that was renamed and no other. -/
theorem published_of_rename {source target : κ} (hne : target ≠ source)
    (h : (disk.rename source target).Published target file) :
    disk.Published target file ∨ disk.names source = some file := by
  obtain ⟨names, hmem, hfile⟩ := h
  rcases mem_history_rename hmem with hold | ⟨moved, hmoved, rfl⟩
  · exact Or.inl ⟨names, hold, hfile⟩
  · rw [Function.update_of_ne hne, Function.update_self] at hfile
    exact Or.inr (hmoved.trans hfile)

end Names

end Disk
