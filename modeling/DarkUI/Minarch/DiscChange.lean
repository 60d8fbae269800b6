import DarkUI.Minarch.Discs
import DarkUI.Minarch.Extract

/-! # Changing discs, call by call

What opening a game leaves behind when any of its calls fails, and what the core and the
launcher are told of a disc that is changed to. The game that was open is closed first, and
nothing undoes that.
-/

namespace DarkUI.Minarch

open Text

/-- `struct Game`. No extracted file is an empty `tmpPath`, and no memory is no `data`. -/
structure OpenGame where
  game : Game
  tmpPath : CString
  data : Option Zip.Bytes
  size : Nat
  isOpen : Bool
  deriving DecidableEq

/-- What the core says of the files it opens. -/
structure Loader where
  extensions : List CString
  needFullpath : Bool

/-- How the calls of `Game_open` turn out: what became of an archive, whether the file can be
opened, what it holds, whether there is memory for it, and how much of it is read. -/
structure Opening where
  extraction : Zip.Extraction
  fopen : Bool
  file : Zip.Bytes
  malloc : Bool
  fread : Nat

namespace OpenGame

/-- A game of which only the path is known. -/
def named (path : CString) : OpenGame where
  game := ⟨path, baseName path, none⟩
  tmpPath := []
  data := none
  size := 0
  isOpen := false

/-- Whether an archive is extracted: not where the core opens archives itself. -/
def extracts (loader : Loader) (path : CString) : Bool :=
  suffixMatch ".zip".toList path && !loader.extensions.contains "zip".toList

/-- The first part of `Game_open`. An error is a return from it. -/
def unpack (loader : Loader) (o : Opening) (g : OpenGame) : Except OpenGame OpenGame :=
  if extracts loader g.game.path then
    match o.extraction with
    | .none => .ok g
    | .failed => .error g
    | .kept tmpPath _ _ => .ok { g with tmpPath }
  else .ok g

/-- The second part: the file is read, unless the core does that itself. -/
def load (loader : Loader) (o : Opening) (g : OpenGame) : Except OpenGame OpenGame :=
  if loader.needFullpath then .ok g
  else if !o.fopen then .error g
  else if !o.malloc then .error { g with size := o.file.length }
  else .ok { g with size := o.file.length, data := some (o.file.take o.fread) }

/-- The last part: a game in a folder with an `.m3u` is named after that. -/
def findM3u (fs : FileSystem) (g : OpenGame) : OpenGame :=
  let m3u := Game.m3uOf g.game.path
  let game : Game := if fs.exists m3u then ⟨g.game.path, baseName m3u, some m3u⟩ else g.game
  { g with game, isOpen := true }

/-- `Game_open`, with everything it leaves behind. -/
def openPath (loader : Loader) (fs : FileSystem) (path : CString) (o : Opening) : OpenGame :=
  match unpack loader o (named path) with
  | .error g => g
  | .ok g =>
      match load loader o g with
      | .error g => g
      | .ok g => findM3u fs g

/-- `Game_close`, which removes an extracted file. -/
def close (g : OpenGame) (fs : FileSystem) : FileSystem :=
  if g.tmpPath = [] then fs else fs.unlink g.tmpPath

end OpenGame

/-- `struct retro_game_info`, as far as `Game_changeDisc` fills it. -/
structure GameInfo where
  path : CString
  data : Option Zip.Bytes
  size : Nat
  deriving DecidableEq

/-- The globals that a change of discs is about. `images` are those that the core was given
through `replace_image_index`. -/
structure DiscState where
  fs : FileSystem
  loader : Loader
  replacesImage : Bool
  opened : OpenGame
  images : List GameInfo
  changeDisc : Option CString

/-- `Game_changeDisc` -/
def DiscState.changeTo (s : DiscState) (path : CString) (o : Opening) : DiscState :=
  if exactMatch s.opened.game.path path || !s.fs.exists path then s
  else
    let fs := s.opened.close s.fs
    let opened := OpenGame.openPath s.loader fs path o
    if !s.replacesImage then { s with fs, opened }
    else
      { s with
        fs, opened
        images := s.images ++ [⟨opened.game.path, opened.data, opened.size⟩]
        changeDisc := some path }

/-- The files that are named after a game. -/
inductive NamedFile
  | sram
  | rtc
  | state (slot : Int)
  | config (device : Device) (tag : Option CString)

/-- `SRAM_getPath`, `RTC_getPath`, `State_getPath` and `Config_getPath` for the game. -/
def NamedFile.path (core : Core) (name : CString) : NamedFile → CString
  | .sram => core.savesDir ++ '/' :: name ++ ".sav".toList
  | .rtc => core.savesDir ++ '/' :: name ++ ".rtc".toList
  | .state slot => State.pathOf core name slot
  | .config device tag =>
      sdcardPath ++ "/.userdata/".toList ++ device.platform ++ '/' :: core.tag.1 ++
        '-' :: core.name.1 ++ '/' :: name ++ tag.elim [] (fun tag => bounded 64 ('-' :: tag)) ++
        ".cfg".toList

end DarkUI.Minarch
