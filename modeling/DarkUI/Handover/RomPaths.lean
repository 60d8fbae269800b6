import DarkUI.Minui.Launcher

/-! # Paths under Roms

The tag of an emulator is read off the folder of its console, so every path that the
programs build from a path in that folder keeps the tag. The `.m3u` of a disc is found
from the disc's folder alone.
-/

namespace DarkUI.Handover

open Text Minui Minui.Launcher

/-- A folder that a path is in still shows when the path is cut after its last slash. -/
theorem prefix_basePath {folder path : CString} (h : folder ++ ['/'] <+: path) :
    folder ++ ['/'] <+: basePath path := by
  unfold basePath
  split
  next before after hsplit =>
    obtain ⟨rfl, hafter⟩ := splitLast_eq_some.mp hsplit
    have hpath : folder ++ ['/'] <+: (before ++ ['/']) ++ after := by simpa using h
    rcases List.prefix_or_prefix_of_prefix hpath (List.prefix_append _ _) with hle | ⟨rest, hrest⟩
    · exact hle
    · have hfolder : (before ++ ['/']) ++ rest <+: (before ++ ['/']) ++ after := hrest ▸ hpath
      rw [List.prefix_append_right_inj] at hfolder
      rcases List.eq_nil_or_concat rest with rfl | ⟨init, last, rfl⟩
      · exact ⟨[], by simpa using hrest.symm⟩
      · have hlast : last = '/' := by
          rw [List.concat_eq_append, ← List.append_assoc] at hrest
          exact List.singleton_inj.mp (List.append_inj_right' hrest rfl)
        exact absurd (hfolder.subset (by simp [hlast])) hafter
  next hsplit => exact absurd (h.subset (by simp)) (splitLast_eq_none.mp hsplit)

def romsRoot : CString := romsPath ++ ['/']

/-- A path below the folder of all games. -/
def UnderRoms (path : CString) : Prop := romsRoot <+: path

namespace UnderRoms

variable {path other : CString}

theorem exists_eq (h : UnderRoms path) : ∃ rest, path = romsPath ++ '/' :: rest := by
  obtain ⟨rest, rfl⟩ := h
  exact ⟨rest, by simp [romsRoot]⟩

/-- The tag depends on the console folder only. -/
theorem getEmuName_console {folder rest : CString} (h : '/' ∉ folder) :
    getEmuName (romsRoot ++ folder ++ '/' :: rest) = getEmuName (romsRoot ++ folder) := by
  have hdrop (tail : CString) :
      (romsRoot ++ tail).drop (romsPath.length + 1) = tail := by simp [romsRoot]
  have hfolder : folder.takeWhile (· != '/') = folder := by
    rw [List.takeWhile_eq_self_iff]
    intro c hc
    have hne : c ≠ '/' := fun heq => h (heq ▸ hc)
    simpa using hne
  have hcut : (folder ++ '/' :: rest).takeWhile (· != '/') = folder := by
    rw [List.takeWhile_append_of_pos (by simpa using List.takeWhile_eq_self_iff.mp hfolder)]
    simp
  have hprefix (tail : CString) : DarkUI.prefixMatch romsPath (romsRoot ++ tail) := by
    simp [DarkUI.prefixMatch, romsRoot]
  simp only [getEmuName, List.append_assoc, hprefix, hdrop, hfolder, hcut, if_true]

theorem slash_mem (h : UnderRoms path) : '/' ∈ path :=
  h.subset (by decide)

theorem prefixMatch (h : UnderRoms path) : prefixMatch romsPath path := by
  obtain ⟨rest, rfl⟩ := h.exists_eq
  simp [DarkUI.prefixMatch]

/-- The tag of a path under Roms is read off one folder name. -/
theorem slash_not_mem_getEmuName (h : UnderRoms path) : '/' ∉ getEmuName path := by
  have hfolder : '/' ∉ (path.drop (romsPath.length + 1)).takeWhile (· != '/') := by
    intro hmem
    simpa using List.mem_takeWhile_imp hmem
  simp only [getEmuName, h.prefixMatch, if_true]
  split
  next stem tag hsplit =>
    intro hmem
    have htag := (List.takeWhile_sublist _).subset hmem
    rw [(splitLast_eq_some.mp hsplit).1] at hfolder
    exact hfolder (by simp [htag])
  next => exact hfolder

/-- The folder of a path under Roms, with its slash, is under Roms. -/
theorem basePath (h : UnderRoms path) : UnderRoms (basePath path) := prefix_basePath h

theorem append (h : UnderRoms path) (rest : CString) : UnderRoms (path ++ rest) :=
  h.trans (List.prefix_append _ _)

theorem bounded (h : UnderRoms path) : UnderRoms (bounded maxPath path) := by
  obtain ⟨rest, rfl⟩ := h
  have hroot : romsRoot.length ≤ maxPath - 1 := by decide
  unfold UnderRoms Text.bounded
  rw [List.take_append, List.take_of_length_le hroot]
  exact List.prefix_append _ _

theorem m3uPath (h : UnderRoms path) : UnderRoms (m3uPath path) :=
  (h.basePath.append _).append _

theorem cuePath (h : UnderRoms path) : UnderRoms (cuePath path) := by
  refine UnderRoms.bounded ?_
  simp only [List.append_assoc]
  exact h.append _

theorem withExtension (h : UnderRoms path) (extension : CString) :
    UnderRoms (withExtension extension path) := by
  unfold Minui.withExtension
  split
  next stem after hsplit =>
    have hstem := prefix_of_append_cons ((splitLast_eq_some.mp hsplit).1 ▸ h) (by decide)
    exact UnderRoms.append hstem _
  next => exact h

theorem discPath (h : UnderRoms path) (line : CString) : UnderRoms (discPath path line) :=
  (h.basePath.append line).bounded

theorem getFirstDisc {fs : FileSystem} (hpath : UnderRoms path) (hother : UnderRoms other) :
    UnderRoms (getFirstDisc fs path other).2 := by
  unfold Minui.getFirstDisc
  split
  next => exact hother
  next line _ _ => exact hpath.discPath line

theorem launchedRom (fs : FileSystem) (h : UnderRoms path) :
    UnderRoms (launchedRom fs path) := by
  unfold Launcher.launchedRom
  split
  next => exact h.m3uPath.getFirstDisc h
  next => exact h

end UnderRoms

/-- A path below a folder of a console. -/
def InConsole (path : CString) : Prop :=
  ∃ folder rest, '/' ∉ folder ∧ path = romsRoot ++ folder ++ '/' :: rest

theorem InConsole.underRoms {path : CString} (h : InConsole path) : UnderRoms path := by
  obtain ⟨folder, rest, -, rfl⟩ := h
  simp [UnderRoms]

/-- What lies in the folder of a game has the tag of the game. -/
theorem InConsole.getEmuName_beside {path : CString} (h : InConsole path) (name : CString) :
    getEmuName (basePath path ++ name) = getEmuName path := by
  obtain ⟨folder, rest, hfolder, rfl⟩ := h
  obtain ⟨below, hbelow⟩ : romsRoot ++ folder ++ ['/'] <+:
      basePath (romsRoot ++ folder ++ '/' :: rest) := prefix_basePath (by simp)
  have hpath : basePath (romsRoot ++ folder ++ '/' :: rest) ++ name =
      romsRoot ++ folder ++ '/' :: (below ++ name) := by
    rw [← hbelow]
    simp
  rw [hpath, UnderRoms.getEmuName_console hfolder, UnderRoms.getEmuName_console hfolder]

/-! ## Files of one folder -/

section Beside

variable {path name : CString} (hpath : '/' ∈ path) (hname : '/' ∉ name)
include hpath hname

theorem splitLast_beside :
    splitLast '/' (basePath path ++ name) = some (parentPath path, name) := by
  obtain ⟨before, after, hsplit⟩ : ∃ before after, splitLast '/' path = some (before, after) := by
    cases hsplit : splitLast '/' path with
    | none => exact absurd hpath (splitLast_eq_none.mp hsplit)
    | some pair => exact ⟨pair.1, pair.2, rfl⟩
  rw [splitLast_eq_some]
  simp [basePath, parentPath, hsplit, hname]

theorem basePath_beside : basePath (basePath path ++ name) = basePath path := by
  have hsplit := splitLast_beside hpath hname
  cases hown : splitLast '/' path with
  | none => exact absurd hpath (splitLast_eq_none.mp hown)
  | some pair =>
      rw [basePath, hsplit]
      simp [basePath, parentPath, hown]

/-- Files of one folder have the same `.m3u`. -/
theorem m3uPath_beside : m3uPath (basePath path ++ name) = m3uPath path := by
  have hparent : parentPath (basePath path ++ name) = parentPath path := by
    rw [parentPath, splitLast_beside hpath hname]
  rw [m3uPath, basePath_beside hpath hname, hparent, m3uPath]

end Beside

theorem basePath_m3uPath {path : CString} (h : '/' ∈ path) :
    basePath (m3uPath path) = basePath path := by
  have hname : '/' ∉ baseName (parentPath path) ++ ".m3u".toList := by
    rw [List.mem_append, not_or]
    exact ⟨slash_not_mem_baseName _, by decide⟩
  rw [m3uPath, List.append_assoc, basePath_beside h hname]

end DarkUI.Handover
