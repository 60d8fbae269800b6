import DarkUI.Common.FileSystem
import DarkUI.Foundation.Decimal

/-! # The open game

The emulator front end knows a game by its file, or by the `.m3u` in the file's folder
that is named after the folder. Everything it keeps about the game is named so.
-/

namespace DarkUI.Minarch

open Text

/-- `m3uPath` is set for a game on discs only. -/
structure Game where
  path : CString
  name : CString
  m3uPath : Option CString
  deriving DecidableEq

/-- The `.m3u` that `Game_open` looks for. -/
def Game.m3uOf (path : CString) : CString :=
  let dir := parentPath path
  dir ++ '/' :: baseName dir ++ ".m3u".toList

/-- `Game_open`. A game whose file cannot be loaded keeps its path and its own name. -/
def Game.open (fs : FileSystem) (path : CString) (loaded : Bool) : Game :=
  if loaded && fs.exists (m3uOf path) then ⟨path, baseName (m3uOf path), some (m3uOf path)⟩
  else ⟨path, baseName path, none⟩

theorem open_path (fs : FileSystem) (path : CString) (loaded : Bool) :
    (Game.open fs path loaded).path = path := by
  unfold Game.open
  split <;> rfl

/-- A game on discs is named after its `.m3u`. -/
theorem name_of_m3uPath {fs : FileSystem} {path : CString} {loaded : Bool}
    (h : (Game.open fs path loaded).m3uPath.isSome) :
    (Game.open fs path loaded).name = baseName (parentPath path) ++ ".m3u".toList := by
  unfold Game.open at h ⊢
  split
  next hexists =>
    have hname : '/' ∉ baseName (parentPath path) ++ ".m3u".toList := by
      rw [List.mem_append, not_or]
      exact ⟨slash_not_mem_baseName _, by decide⟩
    have hsplit : splitLast '/' (Game.m3uOf path) =
        some (parentPath path, baseName (parentPath path) ++ ".m3u".toList) :=
      splitLast_eq_some.mpr ⟨by simp [Game.m3uOf], hname⟩
    simp [baseName, hsplit]
  next hnot => simp [hnot] at h

namespace Menu

/-- Up to nine discs. -/
def maxDiscs : Nat := 9

/-- The lines of the `.m3u` that name an existing disc. -/
def discLines (fs : FileSystem) (m3u : CString) : List CString :=
  (((fs.file m3u).elim [] nonEmptyLines).filter fun line => fs.exists (basePath m3u ++ line)).take
    maxDiscs

/-- `menu.disc_paths`. -/
def discPaths (fs : FileSystem) (m3u : CString) : List CString :=
  (discLines fs m3u).map (basePath m3u ++ ·)

/-- `menu.minui_dir`. -/
def minuiDir (gamePath : CString) : CString :=
  sharedUserdataPath ++ "/.minui/".toList ++ getEmuName gamePath

/-- `menu.slot_path`: the file that records the slot last used. -/
def slotPath (game : Game) : CString := minuiDir game.path ++ '/' :: game.name ++ ".txt".toList

/-- `menu.txt_path`: the file that records the disc of a slot. -/
def txtPath (dir : CString) (game : Game) (slot : Int) : CString :=
  dir ++ '/' :: game.name ++ '.' :: decimal slot ++ ".txt".toList

/-- What is recorded of a disc: its path below the folder of the `.m3u`. -/
def discText (base disc : CString) : CString := disc.drop base.length

end Menu
end DarkUI.Minarch
