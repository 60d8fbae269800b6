import DarkUI.Common.FileSystem
import DarkUI.Minarch.Game
import DarkUI.Minarch.SaveFiles

/-! # Going to sleep with a game

Before the device sleeps or goes off, the save files of the running game are written, its
state goes to a slot of its own, and the game's path is left for the launcher. None of
the four writes looks at how the others turned out.
-/

namespace DarkUI.Minarch

open Text Stdio

/-- A game that runs, by its path on the card. -/
structure Running where
  core : Core
  game : Game
  onCard : sdcardPath <+: game.path
  fits : game.path.length < maxPath
  nul_not_mem : '\x00' ∉ game.path
  named : game.name.length < 256

namespace Running

/-- `Game_open` for a core, if the card can have such a file. -/
def open? (core : Core) (fs : FileSystem) (path : CString) (loaded : Bool) : Option Running :=
  let game := Game.open fs path loaded
  if h : sdcardPath <+: game.path ∧ game.path.length < maxPath ∧ '\x00' ∉ game.path ∧
      game.name.length < 256 then
    some ⟨core, game, h.1, h.2.1, h.2.2.1, h.2.2.2⟩
  else none

variable (run : Running)

def fileName : FileName := ⟨run.game.name, run.named⟩

/-- The slot that only quicksaves use. -/
def quicksavePath : CString := State.getPath run.core run.fileName autoResumeSlot

/-- The path as it is left for the launcher. -/
def marker : CString := run.game.path.drop sdcardPath.length

end Running

/-- How the writes before sleep turn out. -/
structure SleepIo where
  /-- How many of the four writes are begun before the power is lost. -/
  reached : Nat
  sram : Memory
  sramIo : ReplaceOutcome
  rtc : Memory
  rtcIo : ReplaceOutcome
  serializer : Serializer
  calloc : Bool
  stateIo : ReplaceOutcome
  /-- How many bytes of the marker reach the card, if the file can be opened. -/
  marker : Option Nat

variable (run : Running) (io : SleepIo)

/-- `SRAM_write`, `RTC_write` and `State_autosave`. -/
def saveFiles (files : Files CString Byte) : Files CString Byte :=
  let files :=
    if 0 < io.reached then Sram.write run.core run.fileName io.sram io.sramIo files else files
  let files :=
    if 1 < io.reached then Rtc.write run.core run.fileName io.rtc io.rtcIo files else files
  if 2 < io.reached then
    (State.write run.quicksavePath io.serializer io.calloc io.stateIo files).2
  else files

/-- How much of the marker is written, if it is written at all. -/
def SleepIo.marks : Option Nat := if 3 < io.reached then io.marker else none

/-- `Menu_beforeSleep`. -/
def Menu.beforeSleep (fs : FileSystem) : FileSystem :=
  let fs := { fs with file := saveFiles run io fs.file }
  match io.marks with
  | none => fs
  | some n => fs.putFile autoResumePath (run.marker.take n)

/-- `Menu_afterSleep`, if the file can be removed. -/
def Menu.afterSleep (unlinked : Bool) (fs : FileSystem) : FileSystem :=
  if unlinked then fs.unlink autoResumePath else fs

end DarkUI.Minarch
