import DarkUI.Minui.Directory

/-! # Opening things

The launcher's globals, and what opening an entry does to them: it pushes a
directory, or it writes the command that the launch script runs next and quits.
-/

namespace DarkUI.Minui

open Text

/-- What arrays and fields hold that are read before they are written. -/
structure Uninit where
  slot : CString
  disc : CString
  start : Int
  «end» : Int

structure Launcher where
  store : Store
  /-- The stack is never empty: `top` is the directory on the screen. -/
  top : Directory
  below : List Directory
  simpleMode : Bool
  quit : Bool
  canResume : Bool
  shouldResume : Bool
  slotPath : CString
  recentAlias : Option CString
  restoreDepth : Int
  restoreRelative : Int
  restoreSelected : Int
  restoreStart : Int
  restoreEnd : Int
  showVersion : Bool
  dirty : Bool
  hadHdmi : Option Bool

namespace Launcher

def fs (l : Launcher) : FileSystem := l.store.fs

/-- `stack->count`. -/
def depth (l : Launcher) : Int := l.below.length + 1

/-- Write a note in `/tmp`. -/
def note (write : Tmp → Tmp) (l : Launcher) : Launcher :=
  { l with store := { l.store with tmp := write l.store.tmp } }

def queueNext (cmd : CString) (l : Launcher) : Launcher :=
  { l.note ({ · with next := some cmd }) with quit := true }

end Launcher

/-! ## Commands -/

/-- The loop of `escapeSingleQuotes` with `di` bytes already written. -/
def escapeFrom (dstSize di : Nat) : CString → CString
  | [] => []
  | c :: src =>
      let needed := if c = '\'' then 4 else 1
      if di + needed ≥ dstSize then []
      else (if c = '\'' then "'\\''".toList else [c]) ++ escapeFrom dstSize (di + needed) src

def escapeSingleQuotes (dstSize : Nat) (src : CString) : CString := escapeFrom dstSize 0 src

/-- The command that runs an emulator on a ROM. -/
def romCommand (emuPath romPath : CString) : CString :=
  bounded (maxPath * 4 + 16)
    ('\'' :: escapeSingleQuotes (maxPath * 2) emuPath ++ "' '".toList ++
      escapeSingleQuotes (maxPath * 2) romPath ++ ['\''])

def pakCommand (path : CString) : CString :=
  bounded (maxPath * 2 + 16)
    ('\'' :: escapeSingleQuotes (maxPath * 2) path ++ "/launch.sh'".toList)

variable (host : Host) (uninit : Uninit)

def getEmuPath (fs : FileSystem) (emuName : CString) : CString :=
  let path := sdcardPath ++ "/Emus/".toList ++ host.device.platform ++ '/' :: emuName ++
    ".pak/launch.sh".toList
  if fs.exists path then path
  else host.device.paksPath ++ "/Emus/".toList ++ emuName ++ ".pak/launch.sh".toList

/-! ## Resuming -/

/-- The path with what follows its last dot replaced. -/
def withExtension (extension path : CString) : CString :=
  match splitLast '.' path with
  | some (stem, _) => stem ++ '.' :: extension
  | none => path

/-- The file that records the slot of a game, by the file the game is known under. -/
def slotFile (path : CString) : CString :=
  bounded maxPath (sharedUserdataPath ++ "/.minui/".toList ++ getEmuName path ++
    '/' :: baseName path ++ ".txt".toList)

/-- The `.m3u` of a disc's folder stands for the disc. -/
def resumeRom (fs : FileSystem) (path : CString) : CString :=
  if !suffixMatch ".m3u".toList path && hasM3u fs path then m3uPath path else path

/-- Where `readyResumePath` looks for a slot, unless it returns early. -/
def resumeSlotFile (fs : FileSystem) (romPath : CString) (type : EntryType) : Option CString :=
  if !prefixMatch romsPath romPath then none
  else if type = .dir then
    if hasCue fs romPath then some (slotFile (resumeRom fs (cuePath romPath)))
    else
      let m3u := withExtension "m3u".toList (cuePath romPath)
      if fs.exists m3u then some (slotFile (resumeRom fs m3u)) else none
  else some (slotFile (resumeRom fs romPath))

def readyResume (entry : Entry) (l : Launcher) : Launcher :=
  match resumeSlotFile l.fs entry.path entry.type with
  | none => { l with canResume := false }
  | some path => { l with slotPath := path, canResume := l.fs.exists path }

/-- Resuming at boot, before there is a menu. -/
def autoResume (fs : FileSystem) (tmp : Tmp) : FileSystem × Tmp :=
  match fs.getFile autoResumePath maxPath with
  | none => (fs, tmp)
  | some path =>
      let fs := fs.unlink autoResumePath
      let romPath := sdPath path
      if !fs.exists romPath then (fs, tmp)
      else
        let emuPath := getEmuPath host fs (getEmuName romPath)
        if !fs.exists emuPath then (fs, tmp)
        else
          (fs, { tmp with
            resumeSlot := some (decimal autoResumeSlot)
            next := some (romCommand emuPath romPath) })

/-! ## Opening -/

namespace Launcher

/-- The recently played list always comes back to its first entry. -/
def saveLast (path : CString) (l : Launcher) : Launcher :=
  let path := if exactMatch l.top.path fauxRecentPath then fauxRecentPath else path
  l.note ({ · with last := some path })

def addRecent (path : CString) (aliasName : Option CString) (l : Launcher) : Launcher :=
  { l with store := Minui.addRecent host path aliasName l.store }

def openPak (path : CString) (l : Launcher) : Launcher :=
  let l := if prefixMatch romsPath path then l.addRecent host path none else l
  (l.saveLast path).queueNext (pakCommand path)

/-- The per-slot file that names the disc a state was saved on. -/
def slotDiscFile (emuName m3u slot : CString) : CString :=
  bounded maxPath (sharedUserdataPath ++ "/.minui/".toList ++ emuName ++ '/' :: baseName m3u ++
    '.' :: slot ++ ".txt".toList)

/-- A recorded disc is absolute, or relative to the folder of the `.m3u`. -/
def recordedDisc (m3u disc : CString) : CString :=
  if disc.head? = some '/' then disc else basePath m3u ++ disc

/-- The slot that is resumed. A slot file that cannot be read leaves the array as it
was. -/
def resumedSlot (l : Launcher) : CString := (l.fs.getFile l.slotPath 16).getD uninit.slot

/-- The disc that is resumed, for a game with an `.m3u`. -/
def resumedDisc (fs : FileSystem) (emuName m3u slot romPath : CString) : CString :=
  let path := slotDiscFile emuName m3u slot
  if fs.exists path then recordedDisc m3u ((fs.getFile path maxPath).getD uninit.disc) else romPath

/-- The disc of a launch that does not resume. -/
def launchedRom (fs : FileSystem) (path : CString) : CString :=
  if hasM3u fs path && suffixMatch ".m3u".toList path then (getFirstDisc fs (m3uPath path) path).2
  else path

/-- The slot handed to the emulator, and the ROM to launch. -/
def prepareSlot (path : CString) (l : Launcher) : CString × Launcher :=
  let romPath := launchedRom l.fs path
  let hasM3u := hasM3u l.fs path
  if l.shouldResume then
    let slot := l.resumedSlot uninit
    let l := { l.note ({ · with resumeSlot := some slot }) with shouldResume := false }
    if hasM3u then
      (resumedDisc uninit l.fs (getEmuName romPath) (m3uPath path) slot romPath, l)
    else (romPath, l)
  else (romPath, l.note ({ · with resumeSlot := some (decimal 8) }))

def openRom (path : CString) (last : Option CString) (l : Launcher) : Launcher :=
  let recentPath := if hasM3u l.fs path then m3uPath path else path
  let emuName := getEmuName (launchedRom l.fs path)
  let (romPath, l) := l.prepareSlot uninit path
  let emuPath := getEmuPath host l.fs emuName
  if !l.fs.exists emuPath then l
  else
    let l := l.addRecent host recentPath l.recentAlias
    (l.saveLast (last.getD romPath)).queueNext (romCommand emuPath romPath)

/-- The window a directory opens with: the one remembered when it was closed, if this
is the same place in the same directory, else the first rows. An end of 0 stands for
the first rows too. -/
def restoredWindow (l : Launcher) : Window :=
  if 0 < l.top.total ∧ l.restoreDepth = l.depth ∧ l.top.selected = l.restoreRelative then
    ⟨l.restoreSelected, l.restoreStart, l.restoreEnd⟩
  else ⟨0, 0, 0⟩

def withEnd (window : Window) (total : Int) : Window :=
  { window with
    «end» := if window.end ≠ 0 then window.end
      else (Window.top total host.device.rows).end }

/-- `openDirectory` without auto-launch: push a directory with the window that is due. -/
def push (path : CString) (l : Launcher) : Launcher :=
  let (directory, store) := Directory.new host l.simpleMode path l.restoredWindow l.store
  let directory := { directory with window := withEnd host directory.window directory.total }
  { l with store := store, top := directory, below := l.top :: l.below }

/-- The ROM that opening a folder launches: its `.cue`, or the first disc of its
`.m3u` if that disc exists. -/
def autoLaunch (fs : FileSystem) (path : CString) : Option CString :=
  if hasCue fs path then some (cuePath path)
  else
    let m3u := withExtension "m3u".toList (cuePath path)
    if fs.exists m3u then
      let (found, disc) := getFirstDisc fs m3u []
      if found then some disc else none
    else none

/-- `openDirectory` with auto-launch. -/
def openDirectory (path : CString) (l : Launcher) : Launcher :=
  match autoLaunch l.fs path with
  | some romPath => l.openRom host uninit romPath (some path)
  | none => l.push host path

/-- Close the top directory and remember its window. Closing the root is undefined. -/
def closeDirectory (l : Launcher) : Option Launcher :=
  match l.below with
  | [] => none
  | parent :: below =>
      some
        { l with
          restoreSelected := l.top.selected
          restoreStart := l.top.window.start
          restoreEnd := l.top.window.end
          top := parent
          below := below
          restoreDepth := below.length + 1
          restoreRelative := parent.selected }

/-- `Entry_open`. A game opened from a collection is remembered under the collection. -/
def openEntry (entry : Entry) (l : Launcher) : Launcher :=
  let l := { l with recentAlias := some entry.name }
  match entry.type with
  | .rom =>
      let last := bounded maxPath (l.top.path ++ '/' :: baseName entry.path)
      l.openRom host uninit entry.path
        (if prefixMatch collectionsPath l.top.path then some last else none)
  | .pak => l.openPak host entry.path
  | .dir => l.openDirectory host uninit entry.path

end Launcher
end DarkUI.Minui
