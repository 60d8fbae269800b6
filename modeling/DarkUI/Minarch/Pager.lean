import DarkUI.Foundation.Window
import DarkUI.Minarch.Options
import Mathlib.Logic.Function.Basic

/-! # The options pager

One loop shows every list of the in-game menu, a page of its items at a time. A pass of the loop
reads the pad, moves the selection, calls back with it, and draws what is in the window. The
items lie in an array, and an index that is not one of theirs reads what lies around it.
-/

namespace DarkUI.Minarch.Menu

open Text Options

inductive MenuType
  | list
  | var
  | fixed
  | input
  deriving DecidableEq, Repr

inductive CallbackResult
  | nop
  | exit
  | nextItem
  deriving DecidableEq, Repr

/-- The `values` of an item: none, the table of all buttons, or labels of its own. -/
inductive ItemValues
  | none
  | buttonLabels
  | labels (labels : List CString)
  deriving DecidableEq

/-- An item with the callbacks it has, its value apart. -/
structure MenuItem where
  values : ItemValues
  onConfirm : Bool
  onChange : Bool
  submenu : Bool
  deriving DecidableEq

structure MenuList where
  type : MenuType
  items : List MenuItem
  onConfirm : Bool
  onChange : Bool

namespace MenuList

def count (list : MenuList) : Int := list.items.length

/-- The item that is read at an index, with what lies around the items. -/
def item (list : MenuList) (stray : Int → MenuItem) (i : Int) : MenuItem :=
  if i < 0 then stray i else (list.items[i.toNat]?).getD (stray i)

end MenuList

/-- What a callback returns, and the values it leaves the items with. -/
structure Reply where
  result : CallbackResult
  values : Int → Int

/-- What one pass finds: buttons that repeat or have just been pressed, the callbacks' replies,
and what the power management asks for. -/
structure Frame where
  up : Bool
  down : Bool
  left : Bool
  right : Bool
  b : Bool
  a : Bool
  x : Bool
  awaited : Reply
  changed : Reply
  confirmed : Reply
  cleared : Reply
  redraw : Bool
  menuReleased : Bool

/-- A pass in which nothing happens. -/
def Frame.idle : Frame where
  up := false
  down := false
  left := false
  right := false
  b := false
  a := false
  x := false
  awaited := ⟨.nop, fun _ => 0⟩
  changed := ⟨.nop, fun _ => 0⟩
  confirmed := ⟨.nop, fun _ => 0⟩
  cleared := ⟨.nop, fun _ => 0⟩
  redraw := false
  menuReleased := false

/-- A use of an index: an item read or written, or the argument of a callback. -/
inductive Touch
  | item (i : Int)
  | callback (i : Int)
  deriving DecidableEq, Repr

def Touch.index : Touch → Int
  | .item i => i
  | .callback i => i

/-- The locals of `Menu_options`, the values of the items, and every index used so far. -/
structure Pager where
  window : Window
  values : Int → Int
  awaitInput : Bool
  deferMenu : Bool
  dirty : Bool
  measured : Bool
  showOptions : Bool
  touched : List Touch

def selectNext (count visibleRows : Int) (w : Window) : Window :=
  let selected := w.selected + 1
  if count ≤ selected then ⟨0, 0, visibleRows⟩
  else if w.end ≤ selected then ⟨selected, w.start + 1, w.end + 1⟩
  else { w with selected := selected }

def selectPrev (count maxVisibleOptions : Int) (w : Window) : Window :=
  let selected := w.selected - 1
  if selected < 0 then ⟨count - 1, max 0 (count - maxVisibleOptions), count⟩
  else if selected < w.start then ⟨selected, w.start - 1, w.end - 1⟩
  else { w with selected := selected }

namespace Pager

variable (list : MenuList) (maxVisibleOptions : Int) (stray : Int → MenuItem)

def opened (values : Int → Int) (measured : Bool) : Pager where
  window := .top list.count maxVisibleOptions
  values := values
  awaitInput := false
  deferMenu := false
  dirty := true
  measured := measured
  showOptions := true
  touched := []

/-- The page from the top is as long as the one the list was opened with. -/
def next (p : Pager) : Pager :=
  { p with
    window := selectNext list.count (Window.top list.count maxVisibleOptions).end p.window
    dirty := true }

def prev (p : Pager) : Pager :=
  { p with window := selectPrev list.count maxVisibleOptions p.window, dirty := true }

/-- `&items[selected]` -/
def item (p : Pager) : MenuItem := list.item stray p.window.selected

def touch (p : Pager) : Pager :=
  { p with touched := p.touched ++ [.item p.window.selected] }

def setValue (value : Int) (p : Pager) : Pager :=
  { p with values := Function.update p.values p.window.selected value }

/-- A callback with the list and the selection. -/
def call (reply : Reply) (p : Pager) : Pager :=
  { p with
    values := reply.values
    touched := p.touched ++ [.callback p.window.selected] }

/-- The item's `on_change`, or the list's. -/
def change (reply : Reply) (p : Pager) : Pager :=
  if (p.item list stray).onChange || list.onChange then p.call reply else p

/-- A button that was awaited is bound, and the next item selected. -/
def awaited (frame : Frame) (p : Pager) : Pager :=
  if p.awaitInput then
    { (p.call frame.awaited).next list maxVisibleOptions with
      awaitInput := false
      deferMenu := true }
  else p

/-- One value back, or the last label. -/
def leftValue (labels : List CString) (value : Int) : Int :=
  if 0 < value then value - 1 else labels.length - 1

/-- The next value, if there is a label for it. -/
def rightValue (labels : List CString) (value : Int) : Int :=
  if value + 1 < labels.length then value + 1 else 0

/-- The value of an item that is no binding. -/
def turned (frame : Frame) (p : Pager) : Pager :=
  match (p.item list stray).values with
  | .none | .buttonLabels => p
  | .labels labels =>
      let value := p.values p.window.selected
      if frame.left then
        { (p.setValue (leftValue labels value)).change list stray frame.changed with dirty := true }
      else if frame.right then
        { (p.setValue (rightValue labels value)).change list stray frame.changed with
          dirty := true }
      else p

def moved (frame : Frame) (p : Pager) : Pager :=
  if frame.up then p.prev list maxVisibleOptions
  else if frame.down then p.next list maxVisibleOptions
  else p.touch.turned list stray frame

/-- What becomes of a callback's result. -/
def settle (result : CallbackResult) (p : Pager) : Pager :=
  match result with
  | .exit => { p with showOptions := false }
  | .nextItem => p.next list maxVisibleOptions
  | .nop => { p with dirty := true }

/-- The item's `on_confirm`, its submenu or the list's `on_confirm`, which waits for the next pass
where a button is bound. -/
def confirm (reply : Reply) (p : Pager) : Pager :=
  let item := p.item list stray
  if item.onConfirm then (p.call reply).settle list maxVisibleOptions reply.result
  else if item.submenu then p.settle list maxVisibleOptions .nop
  else if list.onConfirm then
    if item.values = .buttonLabels then
      { p with awaitInput := true }.settle list maxVisibleOptions .nop
    else (p.call reply).settle list maxVisibleOptions reply.result
  else p.settle list maxVisibleOptions .nop

def pressed (frame : Frame) (p : Pager) : Pager :=
  if frame.b then { p with showOptions := false }
  else if frame.a then p.touch.confirm list maxVisibleOptions stray frame.confirmed
  else if list.type = .input && frame.x then
    ((p.touch.setValue 0).change list stray frame.cleared).next list maxVisibleOptions
  else p

/-- `PWR_update`, unless the menu button is still down from a binding. -/
def powered (frame : Frame) (p : Pager) : Pager :=
  { p with
    dirty := p.dirty || (!p.deferMenu && frame.redraw)
    deferMenu := p.deferMenu && !frame.menuReleased }

/-- The items from one index up to another. -/
def span (start stop : Int) : List Touch :=
  (List.range (stop - start).toNat).map fun i : Nat => .item (start + i)

/-- The items in the window, and every item where the widest is not known. -/
def drawn (p : Pager) : Pager :=
  if p.dirty then
    let measuring := list.type ≠ .fixed && !p.measured
    { p with
      dirty := false
      measured := p.measured || measuring
      touched := p.touched ++ (if measuring then span 0 list.count else []) ++
        span p.window.start p.window.end }
  else p

/-- A pass of the loop. -/
def step (frame : Frame) (p : Pager) : Pager :=
  ((((p.awaited list maxVisibleOptions frame).moved list maxVisibleOptions stray frame).pressed
    list maxVisibleOptions stray frame).powered frame).drawn list

/-- `Menu_options` over what its passes find. -/
def run : List Frame → Pager → Pager
  | [], p => p
  | frame :: frames, p =>
      if p.showOptions then run frames (p.step list maxVisibleOptions stray frame) else p

end Pager

/-- The menu of options that `OptionList_buildMenu` makes. -/
def optionMenu (type : MenuType) (onConfirm : Bool) (rows : List MenuRow) : MenuList where
  type := type
  items := rows.map fun row => ⟨.labels row.values, false, false, false⟩
  onConfirm := onConfirm
  onChange := true

/-- The list that `OptionFrontend_openMenu` pages through. -/
def frontendMenu (frontend : List Item) (menu : Option (List MenuRow)) : MenuList :=
  optionMenu .var false (buildMenu frontend menu)

/-- The list that `OptionEmulator_openMenu` pages through, if it has an item. -/
def emulatorMenu (core : List Item) (menu : Option (List MenuRow)) : Option MenuList :=
  let list := optionMenu .fixed true (buildMenu core menu)
  if list.items = [] then none else some list

end DarkUI.Minarch.Menu
