import DarkUI.Minarch.Game
import DarkUI.Minarch.SaveFiles

/-! # Games on several discs

The in-game menu, as far as it concerns discs and slots. Continue is also a picker
that moves `menu.disc`; saving records the disc of the picker for the slot, and
loading changes to the disc recorded for it. An access outside the list of discs
leaves the step undefined. Writing the notes of the disc and of the slot cannot fail.
-/

namespace DarkUI.Minarch

open Text

inductive Item
  | cont
  | save
  | load
  | opts
  | coll
  | quit
  deriving DecidableEq, Repr

namespace Item

def next : Item → Item
  | cont => save
  | save => load
  | load => opts
  | opts => coll
  | coll => quit
  | quit => cont

def prev : Item → Item
  | cont => quit
  | save => cont
  | load => save
  | opts => load
  | coll => opts
  | quit => coll

end Item

/-- The buttons the menu looks at. `back` is B, or MENU where that does not wake. -/
structure MenuPad where
  up : Bool
  down : Bool
  left : Bool
  right : Bool
  back : Bool
  a : Bool
  deriving DecidableEq

/-- What saving and loading take from outside. -/
structure StateIo where
  /-- The image that `State_write` put in place, if it succeeded. -/
  written : Option CString
  /-- Whether `Game_open` could load the disc it was given. -/
  loaded : Bool
  /-- What the array for the disc's name held before it was read. -/
  held : CString

/-- The locals of `Menu_loop`. -/
structure MenuLoop where
  selected : Item
  romDisc : Int
  deriving DecidableEq

/-- The globals of the front end while a game runs; the menu may be open. -/
structure Session where
  fs : FileSystem
  core : Core
  /-- Whether the core has `replace_image_index`. -/
  replacesImage : Bool
  simpleMode : Bool
  game : Game
  changeDisc : Option CString
  minuiDir : CString
  slotPath : CString
  base : CString
  discs : List CString
  disc : Int
  slot : Int
  loop : Option MenuLoop

namespace Menu

/-- `MENU_SLOT_COUNT`. -/
def slotCount : Int := 8

/-- The last of the discs that is the given one, counted from `i`, or what was found before. -/
def matchDisc (path : CString) : Int → Int → List CString → Int
  | _, found, [] => found
  | i, found, disc :: rest => matchDisc path (i + 1) (if disc = path then i else found) rest

/-- A recorded disc is absolute, or relative to the folder of the `.m3u`. -/
def slotDiscPath (base name : CString) : CString :=
  if name.head? = some '/' then name else base ++ name

/-- Saving, loading and the menu each start with the slot used last. -/
def initSlot (fs : FileSystem) (slotPath : CString) (slot : Int) : Int :=
  let slot := if fs.exists slotPath then fs.getInt slotPath else slot
  if slot = 8 then 0 else slot

end Menu

namespace Session

variable (s : Session)

def total : Int := s.discs.length

/-- `menu.disc_paths[i]`, undefined outside the list. -/
def discAt (i : Int) : Option CString := if 0 ≤ i then s.discs[i.toNat]? else none

/-- `menu.disc_paths[menu.disc]`. -/
def pickedDisc : Option CString := s.discAt s.disc

def statePath : CString := State.pathOf s.core s.game.name s.slot
def txtPath : CString := Menu.txtPath s.minuiDir s.game s.slot
def saveExists : Bool := s.fs.exists s.statePath

/-- `Menu_init` and `Menu_initState` for a game that was opened. -/
def start (fs : FileSystem) (core : Core) (replacesImage simpleMode : Bool) (path : CString) :
    Session :=
  let game := Game.open fs path true
  let discs := game.m3uPath.elim [] (Menu.discPaths fs)
  { fs, core, replacesImage, simpleMode, game
    changeDisc := none
    minuiDir := Menu.minuiDir path
    slotPath := Menu.slotPath game
    base := game.m3uPath.elim [] basePath
    discs
    disc := Menu.matchDisc path 0 (-1) discs
    slot := Menu.initSlot fs (Menu.slotPath game) 0
    loop := none }

/-- `Game_changeDisc`. -/
def changeTo (path : CString) (loaded : Bool) : Session :=
  if s.game.path = path ∨ !s.fs.exists path then s
  else
    let s : Session := { s with game := Game.open s.fs path loaded }
    if s.replacesImage then { s with changeDisc := some path } else s

/-! ## Saving and loading -/

/-- The disc of the picker is recorded below the folder of the `.m3u`. -/
def recordDisc : Option Session :=
  if s.total = 0 then some s
  else s.pickedDisc.map fun disc =>
    { s with fs := s.fs.putFile s.txtPath (Menu.discText s.base disc) }

def recordSlot : Session := { s with fs := s.fs.putFile s.slotPath (decimal s.slot) }

/-- `Menu_saveState`. -/
def saveState (io : StateIo) : Option Session :=
  match io.written with
  | none => some s
  | some image =>
      ({ s with fs := s.fs.putFile s.statePath image } : Session).recordDisc.map recordSlot

/-- The disc recorded for the slot. A file that cannot be read leaves the array as it was. -/
def recordedDisc (io : StateIo) : CString :=
  Menu.slotDiscPath s.base ((s.fs.getFile s.txtPath maxPath).getD io.held)

/-- A disc other than that of the picker is changed to. -/
def switchDisc (io : StateIo) : Option Session :=
  if s.total = 0 then some s
  else s.pickedDisc.map fun disc =>
    if s.recordedDisc io = disc then s else s.changeTo (s.recordedDisc io) io.loaded

/-- `Menu_loadState`. -/
def loadState (io : StateIo) : Option Session :=
  if s.saveExists then (s.switchDisc io).map recordSlot else some s

/-! ## The menu -/

def openMenu : Session :=
  { s with
    slot := Menu.initSlot s.fs s.slotPath s.slot
    loop := some ⟨.cont, if s.total = 0 then -1 else s.disc⟩ }

def closeMenu : Session := { s with loop := none }

/-- LEFT and RIGHT move the picker on Continue and the slot on Save and Load. -/
def pick (loop : MenuLoop) (disc slot : Int) : Session :=
  if 1 < s.total ∧ loop.selected = .cont then { s with disc }
  else if loop.selected = .save ∨ loop.selected = .load then { s with slot }
  else s

def left (loop : MenuLoop) : Session :=
  s.pick loop (if s.disc - 1 < 0 then s.disc - 1 + s.total else s.disc - 1)
    (if s.slot - 1 < 0 then s.slot - 1 + Menu.slotCount else s.slot - 1)

def right (loop : MenuLoop) : Session :=
  s.pick loop (if s.disc + 1 = s.total then s.disc + 1 - s.total else s.disc + 1)
    (if s.slot + 1 ≥ Menu.slotCount then s.slot + 1 - Menu.slotCount else s.slot + 1)

/-- The directions, of which one counts in a turn. -/
def move (pad : MenuPad) (loop : MenuLoop) : MenuLoop × Session :=
  if pad.up then ({ loop with selected := loop.selected.prev }, s)
  else if pad.down then ({ loop with selected := loop.selected.next }, s)
  else if pad.left then (loop, s.left loop)
  else if pad.right then (loop, s.right loop)
  else (loop, s)

/-- A on the selected item. -/
def act (loop : MenuLoop) (io : StateIo) : Option Session :=
  match loop.selected with
  | .cont =>
      if s.total ≠ 0 ∧ loop.romDisc ≠ s.disc then
        s.pickedDisc.map fun disc => (s.changeTo disc io.loaded).closeMenu
      else some s.closeMenu
  | .save => (s.saveState io).map closeMenu
  | .load => (s.loadState io).map closeMenu
  | .opts => some (if s.simpleMode then s.closeMenu else s)
  | .coll => some s
  | .quit => some s.closeMenu

/-- One turn of `Menu_loop`. -/
def turn (pad : MenuPad) (io : StateIo) (loop : MenuLoop) : Option Session :=
  let (loop, s) := s.move pad loop
  let s : Session := { s with loop := some loop }
  if pad.back then some s.closeMenu
  else if pad.a then s.act loop io
  else some s

end Session

/-- MENU opens the menu, which then takes the buttons; shortcuts work while it is closed. -/
inductive SessionInput
  | menu
  | buttons (pad : MenuPad) (io : StateIo)
  | saveShortcut (io : StateIo)
  | loadShortcut (io : StateIo)

/-- A step of the game or of its menu. An input that comes at the wrong time does nothing. -/
def Session.step (s : Session) (input : SessionInput) : Option Session :=
  match input, s.loop with
  | .menu, none => some s.openMenu
  | .buttons pad io, some loop => s.turn pad io loop
  | .saveShortcut io, none => s.saveState io
  | .loadShortcut io, none => s.loadState io
  | _, _ => some s

end DarkUI.Minarch
