import DarkUI.Foundation.Calendar
import DarkUI.Foundation.FixedPoint
import DarkUI.Input.Pad

/-! # The clock

What one frame of the loop in `clock.c` does to the date, the cursor and the flags, and what is
passed to `PLAT_setDateTime` when the loop has ended.
-/

namespace DarkUI.Clock

open FixedPoint

/-- `CURSOR_*` -/
inductive Cursor
  | year | month | day | hour | minute | second | ampm
  deriving DecidableEq, Repr

namespace Cursor

def index (cursor : Cursor) : Int := cursor.ctorIdx

/-- The value of `select_cursor`, if one of the cases has it. -/
def ofIndex (n : Int) : Option Cursor :=
  [year, month, day, hour, minute, second, ampm].find? fun cursor => cursor.index = n

end Cursor

/-- What `localtime` returns: a date and a time of day, which may be in a leap second. -/
structure Tm where
  sec : Int
  min : Int
  hour : Int
  mday : Int
  mon : Int
  year : Int
  isDay : Calendar.IsDay (year + 1900) (mon + 1) mday
  isHour : 0 ≤ hour ∧ hour ≤ 23
  isMinute : 0 ≤ min ∧ min ≤ 59
  isSecond : 0 ≤ sec ∧ sec ≤ 60
  inRange : 1970 ≤ year + 1900 ∧ year + 1900 ≤ 2100

/-- The date that is shown. -/
structure Selected where
  day : Int
  month : Int
  /-- Unsigned, unlike the others. -/
  year : Int
  hour : Int
  minute : Int
  seconds : Int
  deriving DecidableEq

/-- The variables of `main`. -/
structure State where
  selected : Selected
  quit : Bool
  saveChanges : Bool
  selectCursor : Int
  show24hour : Bool
  optionCount : Int
  dirty : Bool
  deriving DecidableEq

/-- What a frame reads: the pad, and whether `PWR_update` or a change of the network asks for the
screen to be drawn. -/
structure Frame where
  pad : Pad
  redraw : Bool

/-- A signed number as an unsigned one. -/
def unsigned (n : Int) : Int := n % 4294967296

/-- An unsigned number as a signed one. -/
def signed (n : Int) : Int := n.bmod 4294967296

/-- The variables before the loop. -/
def start (tm : Tm) (show24hour : Bool) : State where
  selected :=
    { day := tm.mday
      month := tm.mon + 1
      year := unsigned (tm.year + 1900)
      hour := tm.hour
      minute := tm.min
      seconds := tm.sec }
  quit := false
  saveChanges := false
  selectCursor := 0
  show24hour := show24hour
  optionCount := 7
  dirty := true

namespace Selected

variable (s : Selected)

/-- `february_days` -/
def februaryDays : Int :=
  if s.year % 4 = 0 ∧ s.year % 100 ≠ 0 ∨ s.year % 400 = 0 then 29 else 28

/-- A number that leaves its range by less than the range is long. -/
def wrapped (n low high length : Int) : Int :=
  if n > high then n - length else if n < low then n + length else n

def validateMonth : Selected := { s with month := wrapped s.month 1 12 12 }

def validateYear : Selected :=
  { s with year := if s.year > 2100 then 2100 else if s.year < 1970 then 1970 else s.year }

/-- In February the day is compared and added up as an unsigned number. -/
def validateDay (februaryDays : Int) : Selected :=
  { s with
    day :=
      if s.month = 2 then
        if unsigned s.day > februaryDays then
          signed (unsigned (unsigned s.day - februaryDays))
        else if s.day < 1 then signed (unsigned (unsigned s.day + februaryDays))
        else s.day
      else if s.month = 4 ∨ s.month = 6 ∨ s.month = 9 ∨ s.month = 11 then
        wrapped s.day 1 30 30
      else wrapped s.day 1 31 31 }

def validateTime : Selected :=
  { s with
    hour := wrapped s.hour 0 23 24
    minute := wrapped s.minute 0 59 60
    seconds := wrapped s.seconds 0 59 60 }

/-- `validate`. How long February is comes from the year before it is corrected. -/
def validate : Selected :=
  (s.validateMonth.validateYear.validateDay s.februaryDays).validateTime

/-- The cases of `BTN_UP` with a step of 1, and those of `BTN_DOWN` with -1. -/
def edit (step : Int) : Option Cursor → Option Selected
  | some .year => some { s with year := unsigned (s.year + step) }
  | some .month => (checked (s.month + step)).map fun n => { s with month := n }
  | some .day => (checked (s.day + step)).map fun n => { s with day := n }
  | some .hour => (checked (s.hour + step)).map fun n => { s with hour := n }
  | some .minute => (checked (s.minute + step)).map fun n => { s with minute := n }
  | some .second => (checked (s.seconds + step)).map fun n => { s with seconds := n }
  | some .ampm => (checked (s.hour + 12 * step)).map fun n => { s with hour := n }
  | none => some s

end Selected

namespace Frame

variable (frame : Frame)

/-- `PAD_justRepeated` of a direction, which the stick has too. -/
def justRepeated (dpad analog : ButtonId) : Bool :=
  has frame.pad.justRepeated dpad || has frame.pad.justRepeated analog

/-- The branch that is taken in the chain of buttons. -/
def branch : Option ButtonId :=
  if frame.justRepeated .dpadUp .analogUp then some .dpadUp
  else if frame.justRepeated .dpadDown .analogDown then some .dpadDown
  else if frame.justRepeated .dpadLeft .analogLeft then some .dpadLeft
  else if frame.justRepeated .dpadRight .analogRight then some .dpadRight
  else if has frame.pad.justPressed .a then some .a
  else if has frame.pad.justPressed .b then some .b
  else if has frame.pad.justPressed .select then some .select
  else none

end Frame

namespace State

variable (c : State)

/-- `option_count` as SELECT sets it. -/
def visibleCount (show24hour : Bool) : Int :=
  (if show24hour then Cursor.second.index else Cursor.ampm.index) + 1

/-- `BTN_UP` and `BTN_DOWN` -/
def edit (step : Int) : Option State :=
  (c.selected.edit step (Cursor.ofIndex c.selectCursor)).map fun selected =>
    { c with selected := selected, dirty := true }

/-- `BTN_LEFT` -/
def moveLeft : State :=
  let cursor := c.selectCursor - 1
  { c with
    dirty := true
    selectCursor := if cursor < 0 then cursor + c.optionCount else cursor }

/-- `BTN_RIGHT` -/
def moveRight : State :=
  let cursor := c.selectCursor + 1
  { c with
    dirty := true
    selectCursor := if cursor ≥ c.optionCount then cursor - c.optionCount else cursor }

/-- `BTN_SELECT`, but for the file that keeps the choice. -/
def switchMode : State :=
  let count := visibleCount !c.show24hour
  { c with
    dirty := true
    show24hour := !c.show24hour
    optionCount := count
    selectCursor := if c.selectCursor ≥ count then c.selectCursor - count else c.selectCursor }

/-- The chain of buttons. -/
def handle : Option ButtonId → Option State
  | some .dpadUp => c.edit 1
  | some .dpadDown => c.edit (-1)
  | some .dpadLeft => some c.moveLeft
  | some .dpadRight => some c.moveRight
  | some .a => some { c with saveChanges := true, quit := true }
  | some .b => some { c with quit := true }
  | some .select => some c.switchMode
  | _ => some c

/-- The screen is drawn, after `validate`, only when something asks for it. -/
def draw (redraw : Bool) : State :=
  if c.dirty || redraw then { c with selected := c.selected.validate, dirty := false } else c

/-- One frame of the loop. A sum that overflows is undefined. -/
def frame (frame : Frame) : Option State :=
  (c.handle frame.branch).map fun c => c.draw frame.redraw

/-- The loop over the given frames, of which it reads no more once it quits. -/
def loop : List Frame → State → Option State
  | [], c => some c
  | frame :: rest, c => if c.quit then some c else (c.frame frame).bind (loop rest)

/-- The arguments of `PLAT_setDateTime`, when it is called. -/
def dateTime : Option Selected :=
  if c.quit && c.saveChanges then some { c.selected with year := signed c.selected.year } else none

end State

end DarkUI.Clock
