import DarkUI.Common.Utils
import DarkUI.Input.Pad

/-! # Polling evdev

The event loop of the rg35xxplus, which reads the kernel's input devices itself.
-/

namespace DarkUI

open Text

/-- `strcasestr(haystack, needle) != NULL` -/
def containsString (haystack needle : CString) : Bool :=
  (find (lower needle) (lower haystack)).isSome

namespace Evdev

inductive GamepadType
  | unknown | rgp01 | xbox
  deriving DecidableEq, Repr

structure Lid where
  hasLid : Bool
  isOpen : Int

/-- The statics of `platform.c` that polling reads, with the pad. -/
structure State where
  pad : Pad
  /-- `inputs[i]>=0` -/
  event0Open : Bool
  event1Open : Bool
  padOpen : Bool
  padType : GamepadType
  lastCheck : BitVec 32
  lid : Lid

/-- What `checkForGamepad` finds: the clock, the device node, its name and whether it opens. -/
structure Probe where
  now : BitVec 32
  connected : Bool
  padName : CString
  opens : Bool

def gamepadType (padName : CString) : GamepadType :=
  if containsString padName "Anbernic".toList then .rgp01
  else if containsString padName "Microsoft".toList then .xbox
  else .unknown

def checkForGamepad (s : State) (probe : Probe) : State :=
  if s.lastCheck = 0 ∨ probe.now - s.lastCheck > 2000 then
    let checked : State := { s with lastCheck := probe.now }
    if !checked.padOpen && probe.connected then
      { checked with padType := gamepadType probe.padName, padOpen := probe.opens }
    else if checked.padOpen && !probe.connected then
      { checked with padOpen := false, padType := .unknown }
    else checked
  else s

/-- `EV_KEY` is 1 and `EV_ABS` is 3. -/
structure Event where
  type : Nat
  code : Nat
  value : Int
  deriving DecidableEq, Repr

/-- The device's own buttons, `RAW_*`. -/
def rawButtons : List (Nat × ButtonId) :=
  [(103, .dpadUp), (108, .dpadDown), (105, .dpadLeft), (106, .dpadRight), (304, .a), (305, .b),
    (307, .x), (306, .y), (311, .start), (312, .select), (310, .menu), (313, .menu), (316, .menu),
    (308, .l1), (314, .l2), (313, .l3), (309, .r1), (315, .r2), (316, .r3), (115, .plus),
    (114, .minus), (116, .power)]

/-- The buttons of an RG P01, `RGP01_*`. -/
def rgp01Buttons : List (Nat × ButtonId) :=
  [(305, .a), (304, .b), (308, .x), (307, .y), (315, .start), (314, .select), (316, .menu),
    (317, .menu), (318, .menu), (310, .l1), (312, .l2), (317, .l3), (311, .r1), (313, .r2),
    (318, .r3)]

/-- The buttons of an X-box pad, `XBOX_*`. -/
def xboxButtons : List (Nat × ButtonId) :=
  [(305, .a), (304, .b), (308, .x), (307, .y), (315, .start), (314, .select), (316, .menu),
    (317, .menu), (318, .menu), (310, .l1), (317, .l3), (311, .r1), (318, .r3)]

def keyTable (gamepad : Bool) (padType : GamepadType) : List (Nat × ButtonId) :=
  if gamepad then
    match padType with
    | .rgp01 => rgp01Buttons
    | .xbox => xboxButtons
    | .unknown => []
  else rawButtons

def keyAction (gamepad : Bool) (padType : GamepadType) (code : Nat) (value : Int) : PadAction :=
  if value > 1 then .ignore -- ignore repeats
  else
    match (keyTable gamepad padType).lookup code with
    | some id => .button id (decide (value ≠ 0))
    | none => .ignore

def rgp01Axis (code : Nat) (value : Int) : PadAction :=
  let scaled := ((value - 128) * 32767).tdiv 128
  if code = 0 then .stick .lx scaled
  else if code = 1 then .stick .ly scaled
  else if code = 2 then .stick .rx scaled
  else if code = 5 then .stick .ry scaled
  else .ignore

def xboxAxis (code : Nat) (value : Int) : PadAction :=
  if code = 0 then .stick .lx value
  else if code = 1 then .stick .ly value
  else if code = 3 then .stick .rx value
  else if code = 4 then .stick .ry value
  else if code = 2 then .button .l2 (decide (value > 0))
  else if code = 5 then .button .r2 (decide (value > 0))
  else .ignore

def rawAxis (code : Nat) (value : Int) : PadAction :=
  let scaled := (value * 32767).tdiv 4096
  if code = 2 then .stick .lx scaled
  else if code = 3 then .stick .ly scaled
  else if code = 4 then .stick .rx scaled
  else if code = 5 then .stick .ry scaled
  else .ignore

def absAction (gamepad : Bool) (padType : GamepadType) (code : Nat) (value : Int) : PadAction :=
  -- RAW_HATY and RAW_HATX, on any device
  if code = 17 ∨ code = 16 then
    if value > 1 then .ignore -- ignore repeats
    else if code = 17 then
      .hats ⟨some (decide (value = -1)), some (decide (value = 1)), none, none⟩
    else .hats ⟨none, none, some (decide (value = -1)), some (decide (value = 1))⟩
  else if gamepad then
    match padType with
    | .rgp01 => rgp01Axis code value
    | .xbox => xboxAxis code value
    | .unknown => .ignore
  else rawAxis code value

/-- What the event loop makes of an event of the gamepad or of the device itself. -/
def action (padType : GamepadType) (gamepad : Bool) (event : Event) : PadAction :=
  if event.type = 1 then keyAction gamepad padType event.code event.value
  else if event.type = 3 then absAction gamepad padType event.code event.value
  else .ignore

/-- What a poll reads: the clock, the gamepad's state, the three queues and the lid's switch. -/
structure Poll where
  tick : BitVec 32
  probe : Probe
  event0 : List Event
  event1 : List Event
  event3 : List Event
  hallkey : Int

/-- The events of the open devices, in the order they are read in. -/
def actions (s : State) (poll : Poll) : List PadAction :=
  (if s.event0Open then poll.event0.map (action s.padType false) else []) ++
    (if s.event1Open then poll.event1.map (action s.padType false) else []) ++
    (if s.padOpen then poll.event3.map (action s.padType true) else [])

/-- `PLAT_lidChanged`, with whether the lid moved. -/
def lidChanged (lid : Lid) (hallkey : Int) : Lid × Bool :=
  if lid.hasLid && decide (hallkey ≠ lid.isOpen) then ({ lid with isOpen := hallkey }, true)
  else (lid, false)

/-- `PLAT_pollInput` -/
def pollInput (s : State) (poll : Poll) : State :=
  let checked := checkForGamepad s poll.probe
  let polled := s.pad.during poll.tick (actions checked poll)
  let lid := lidChanged s.lid poll.hallkey
  { checked with pad := polled.setLid lid.2, lid := lid.1 }

/-- What the program does with its pad. -/
inductive Input
  | poll (poll : Poll)
  | reset

def step (s : State) : Input → Option State
  | .poll poll => some (pollInput s poll)
  | .reset => some { s with pad := s.pad.reset }

/-- `PLAT_initInput` and `PLAT_initLid`: which devices open, and whether there is a lid. -/
def start (event0Open event1Open hasLid : Bool) (probe : Probe) : State :=
  checkForGamepad
    { pad := Pad.initial, event0Open := event0Open, event1Open := event1Open, padOpen := false,
      padType := .unknown, lastCheck := 0, lid := ⟨hasLid, 1⟩ } probe

end Evdev

end DarkUI
