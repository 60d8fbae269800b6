import DarkUI.Minui.Launcher

/-! # The menu

Restoring the last position, the buttons, drawing, and one turn of the main loop.
Fetching an entry outside its array leaves the turn undefined.
-/

namespace DarkUI.Minui

open Text

inductive Button
  | up
  | down
  | left
  | right
  | a
  | b
  | x
  | y
  | l1
  | r1
  deriving DecidableEq, Repr

structure Pad where
  justPressed : Button → Bool
  justRepeated : Button → Bool
  isPressed : Button → Bool
  justReleased : Button → Bool

/-- What one turn of the main loop takes from outside. -/
structure Frame where
  pad : Pad
  tappedMenu : Bool
  /-- `PWR_ignoreSettingInput` while a setting is shown. -/
  ignoreSettingInput : Button → Bool
  /-- `PWR_update` or a network change asks for a redraw. -/
  redraw : Bool
  confirm : Bool
  unlinkOk : Bool
  hasHdmi : Bool
  uninit : Uninit

/-- A frame in which nothing happens. -/
def Frame.idle : Frame where
  pad := ⟨fun _ => false, fun _ => false, fun _ => false, fun _ => false⟩
  tappedMenu := false
  ignoreSettingInput _ := false
  redraw := false
  confirm := false
  unlinkOk := true
  hasHdmi := false
  uninit := ⟨[], [], 0, 0⟩

/-- A button goes down; a question that follows is answered with yes. -/
def Frame.press (button : Button) : Frame :=
  { Frame.idle with
    pad := ⟨(· == button), (· == button), (· == button), fun _ => false⟩
    confirm := true }

/-- A button is let go. -/
def Frame.release (button : Button) : Frame :=
  { Frame.idle with pad := { Frame.idle.pad with justReleased := (· == button) } }

variable (host : Host) (frame : Frame)

/-! ## Moving the selection -/

section Moves

variable (total rows : Int) (w : Window)

def moveUp (justPressed : Bool) : Window :=
  if w.selected = 0 ∧ !justPressed then w
  else
    let selected := w.selected - 1
    if selected < 0 then Window.bottom total rows (total - 1)
    else if selected < w.start then ⟨selected, w.start - 1, w.end - 1⟩
    else { w with selected := selected }

def moveDown (justPressed : Bool) : Window :=
  if w.selected = total - 1 ∧ !justPressed then w
  else
    let selected := w.selected + 1
    if selected ≥ total then Window.top total rows
    else if selected ≥ w.end then ⟨selected, w.start + 1, w.end + 1⟩
    else { w with selected := selected }

def moveLeft : Window :=
  let selected := w.selected - rows
  if selected < 0 then Window.top total rows
  else if selected < w.start then
    let start := if w.start - rows < 0 then 0 else w.start - rows
    ⟨selected, start, start + rows⟩
  else { w with selected := selected }

def moveRight : Window :=
  let selected := w.selected + rows
  if selected ≥ total then Window.bottom total rows (total - 1)
  else if selected ≥ w.end then
    let stop := if w.end + rows > total then total else w.end + rows
    ⟨selected, stop - rows, stop⟩
  else { w with selected := selected }

/-- The jump to a letter scrolls only where the list is longer than the screen. -/
def jumpTo (selected : Int) : Window :=
  if total > rows then
    let stop := if selected + rows > total then total else selected + rows
    ⟨selected, stop - rows, stop⟩
  else { w with selected := selected }

/-- Up or down, then left or right. -/
def navigate (pad : Pad) : Window :=
  let w :=
    if pad.justRepeated .up then moveUp total rows w (pad.justPressed .up)
    else if pad.justRepeated .down then moveDown total rows w (pad.justPressed .down)
    else w
  if pad.justRepeated .left then moveLeft total rows w
  else if pad.justRepeated .right then moveRight total rows w
  else w

end Moves

def previousAlpha (directory : Directory) (w : Window) : Option Window := do
  let entry ← directory.item w.selected
  let i : Int := entry.alpha - 1
  if i ≥ 0 then
    let selected ← directory.alphaItem i
    return jumpTo directory.total host.device.rows w selected
  return w

def nextAlpha (directory : Directory) (w : Window) : Option Window := do
  let entry ← directory.item w.selected
  let i : Int := entry.alpha + 1
  if i < directory.alphas.length then
    let selected ← directory.alphaItem i
    return jumpTo directory.total host.device.rows w selected
  return w

/-- A shoulder button jumps unless the other one is held or a setting takes it. -/
def Frame.shoulder (button other : Button) : Bool :=
  frame.pad.justRepeated button && !frame.pad.isPressed other && !frame.ignoreSettingInput button

def alphaJump (directory : Directory) (w : Window) : Option Window :=
  if frame.shoulder .l1 .r1 then previousAlpha host directory w
  else if frame.shoulder .r1 .l1 then nextAlpha host directory w
  else some w

namespace Launcher

/-! ## Restoring the last position -/

/-- The selection that `loadLast` makes, scrolled into view from above. -/
def selectRow (i : Int) (l : Launcher) : Launcher :=
  let w := l.top.window
  let rows := host.device.rows
  let window : Window :=
    if i ≥ w.end then
      if i + rows > l.top.total then ⟨i, l.top.total - rows, l.top.total⟩ else ⟨i, i, i + rows⟩
    else { w with selected := i }
  { l with top := { l.top with window := window } }

/-- The contents of other folders that launch something are not shown again. -/
def showsContents (entry : Entry) : Bool :=
  exactMatch entry.path fauxRecentPath ||
    (!exactMatch entry.path collectionsPath && prefixMatch collectionsPath entry.path)

/-- Whether an entry is the one that a component of the last path names. -/
def matchesLast (fullPath path : CString) (entry : Entry) : Bool :=
  let collated :=
    if suffixMatch [')'] path && isConsoleDir path then collatedPath path else []
  exactMatch entry.path path ||
    (collated ≠ [] && prefixMatch collated entry.path) ||
    (prefixMatch collectionsPath fullPath && suffixMatch ('/' :: baseName fullPath) entry.path)

/-- The loop over the entries of the top directory, for one component of the path. -/
def scanLast (isMatch : Entry → Bool) (final : Bool) : List (Entry × Nat) → Launcher → Launcher
  | [], l => l
  | (entry, i) :: rest, l =>
      if isMatch entry then
        let l := l.selectRow host i
        if final && !showsContents entry then l
        else if entry.type = .dir then l.push host entry.path
        else scanLast isMatch final rest l
      else scanLast isMatch final rest l

/-- One component of the last path. Roms is the root as far as restoring goes. -/
def reopenStep (fullPath path : CString) (final : Bool) (l : Launcher) : Launcher :=
  if exactMatch path romsPath then l
  else scanLast host (matchesLast fullPath path) final l.top.entries.zipIdx l

def reopenLast (fullPath : CString) : List CString → Launcher → Launcher
  | [], l => l
  | path :: rest, l => reopenLast fullPath rest (l.reopenStep host fullPath path rest.isEmpty)

/-- The path and its parents below the card's root, shortest first. A path that is not
below the root has no last slash in the end. -/
def lastPaths : Nat → CString → List CString → Option (List CString)
  | 0, _, _ => none
  | fuel + 1, path, paths =>
      if exactMatch path sdcardPath then some paths
      else
        match splitLast '/' path with
        | some (parent, _) => lastPaths fuel parent (path :: paths)
        | none => none

def loadLast (l : Launcher) : Option Launcher :=
  match l.store.tmp.last.map (fileText maxPath) with
  | none => some l
  | some fullPath =>
      (lastPaths (fullPath.length + 1) fullPath []).map fun paths =>
        l.reopenLast host fullPath paths

/-- The globals and the root directory, before the last position is restored. -/
def start (fs : FileSystem) (tmp : Tmp) : Launcher :=
  let simpleMode := fs.exists simpleModePath
  let (directory, store) := Directory.new host simpleMode sdcardPath ⟨0, 0, 0⟩ ⟨fs, tmp, []⟩
  { store := store
    top := { directory with window := withEnd host directory.window directory.total }
    below := []
    simpleMode := simpleMode
    quit := false
    canResume := false
    shouldResume := false
    slotPath := []
    recentAlias := none
    restoreDepth := -1
    restoreRelative := -1
    restoreSelected := 0
    restoreStart := 0
    restoreEnd := 0
    showVersion := false
    dirty := true
    hadHdmi := none }

/-- `Menu_init`. -/
def init (fs : FileSystem) (tmp : Tmp) : Option Launcher := (start host fs tmp).loadLast host

/-! ## Buttons -/

/-- A file in the collections folder, by its path. -/
def isCollectionFile (entry : Entry) : Bool :=
  prefixMatch collectionsPath entry.path && suffixMatch ".txt".toList entry.path

def selectedEntry (l : Launcher) : Option Entry := l.top.item l.top.selected

/-- The window of the list rebuilt after a deletion. -/
def rebuiltWindow (total selected : Int) : Window :=
  let rows := host.device.rows
  let selected := if selected ≥ total then total - 1 else selected
  let stop := (Window.top total rows).end
  if selected ≥ stop then ⟨selected, selected + 1 - rows, selected + 1⟩ else ⟨selected, 0, stop⟩

/-- The part of `Menu_deleteSelectedCollection` after a successful `unlink`. -/
def rebuild (path : CString) (l : Launcher) : Option Launcher :=
  let store := { l.store with fs := l.fs.unlink path }
  let window : Window := ⟨l.top.selected, frame.uninit.start, frame.uninit.end⟩
  let (directory, store) := Directory.new host l.simpleMode l.top.path window store
  let l : Launcher := { l with store := store, top := directory }
  if l.top.total = 0 then
    if l.depth > 1 then l.closeDirectory
    else some { l with top := { l.top with window := ⟨0, 0, 0⟩ } }
  else
    some { l with
      top := { l.top with window := rebuiltWindow host l.top.total l.top.selected } }

/-- `Menu_deleteSelectedCollection`: whether something changed, and the new state. -/
def deleteSelectedCollection (l : Launcher) : Option (Bool × Launcher) :=
  if l.top.total = 0 then some (false, l)
  else do
    let entry ← l.selectedEntry
    if !isCollectionFile entry then return (false, l)
    if !frame.confirm then return (true, l)
    if !frame.unlinkOk then return (false, l)
    let rebuilt ← l.rebuild host frame entry.path
    return (true, rebuilt)

/-- `readyResume` of the selected entry, in a directory that has any. -/
def readySelected (l : Launcher) : Option Launcher :=
  if 0 < l.top.total then (l.selectedEntry).map (readyResume · l) else some l

/-- RESUME was released on an entry that can be resumed. -/
def resumes (l : Launcher) : Bool :=
  0 < l.top.total && l.canResume && frame.pad.justReleased .x

def resume (l : Launcher) : Option Launcher := do
  let entry ← l.selectedEntry
  return { Launcher.openEntry host frame.uninit entry { l with shouldResume := true } with
    dirty := true }

def openSelected (l : Launcher) : Option Launcher := do
  let entry ← l.selectedEntry
  let l := { l.openEntry host frame.uninit entry with dirty := true }
  l.readySelected

/-- Whether Y deletes: the selected entry is looked at only when it was pressed. -/
def deletes (l : Launcher) : Option Bool :=
  if frame.pad.justPressed .y && 1 < l.depth && 0 < l.top.total then
    l.selectedEntry.map isCollectionFile
  else some false

def delete (l : Launcher) : Option Launcher := do
  let (changed, l) ← l.deleteSelectedCollection host frame
  return { l with dirty := l.dirty || changed }

def goBack (l : Launcher) : Option Launcher := do
  let l ← l.closeDirectory
  readySelected { l with dirty := true }

/-- RESUME, A, Y and B, in this order. -/
def act (l : Launcher) : Option Launcher :=
  if l.resumes frame then l.resume host frame
  else if 0 < l.top.total && frame.pad.justPressed .a then l.openSelected host frame
  else do
    if ← l.deletes frame then l.delete host frame
    else if frame.pad.justPressed .b && 1 < l.depth then l.goBack
    else return l

/-- The moves of one frame, and what they select. -/
def move (l : Launcher) : Option Launcher := do
  let total := l.top.total
  let moved :=
    if !frame.tappedMenu && 0 < total then
      navigate total host.device.rows l.top.window frame.pad
    else l.top.window
  let window ← alphaJump host frame l.top moved
  return { l with
    showVersion := frame.tappedMenu
    dirty := l.dirty || frame.tappedMenu || window.selected ≠ l.top.selected
    top := { l.top with window := window } }

/-- The moves, and whether what they select can be resumed. -/
def settle (l : Launcher) : Option Launcher := do
  let l ← l.move host frame
  if l.dirty then l.readySelected else return l

/-- `Menu_handleInput`. -/
def handleInput (l : Launcher) : Option Launcher :=
  if l.showVersion then
    some (if frame.pad.justPressed .b || frame.tappedMenu then
      { l with showVersion := false, dirty := true } else l)
  else do
    let l ← l.settle host frame
    l.act host frame

/-! ## Drawing and the main loop -/

/-- The entries that `Menu_draw` shows, after the one it takes the thumbnail of. -/
def draw (l : Launcher) : Option (List Entry) :=
  if l.showVersion || l.top.total = 0 then some []
  else do
    let _ ← l.selectedEntry
    let w := l.top.window
    (List.range (w.end - w.start).toNat).mapM fun row : Nat => l.top.item (w.start + row)

/-- A dirty frame is drawn, and clean afterwards. -/
def drawDirty (l : Launcher) : Option Launcher :=
  if l.dirty then l.draw.map fun _ => { l with dirty := false } else some l

/-- A change of the HDMI cable restarts the launcher at the selected entry. -/
def handleHdmi (l : Launcher) : Option Launcher :=
  if l.hadHdmi.any (· ≠ frame.hasHdmi) then do
    let entry ← l.selectedEntry
    return { l.saveLast entry.path with hadHdmi := some frame.hasHdmi, quit := true }
  else some { l with hadHdmi := some frame.hasHdmi }

/-- One turn of the main loop. -/
def turn (l : Launcher) : Option Launcher := do
  let l ← Launcher.handleInput host frame { l with dirty := l.dirty || frame.redraw }
  let l ← l.drawDirty
  l.handleHdmi frame

end Launcher
end DarkUI.Minui
