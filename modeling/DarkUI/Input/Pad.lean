import DarkUI.Foundation.Mask
import Mathlib.Logic.Function.Basic

/-! # The pad

The button masks that both input back ends keep, what one input event does to them, and what
every poll starts with.
-/

namespace DarkUI

/-- `BTN_ID_*`, in the order of the enumeration. -/
inductive ButtonId
  | dpadUp | dpadDown | dpadLeft | dpadRight
  | a | b | x | y
  | start | select
  | l1 | r1 | l2 | r2 | l3 | r3
  | menu | plus | minus | power | poweroff
  | analogUp | analogDown | analogLeft | analogRight
  deriving DecidableEq, Repr

namespace ButtonId

def index (id : ButtonId) : Nat := id.ctorIdx

def all : List ButtonId :=
  [dpadUp, dpadDown, dpadLeft, dpadRight, a, b, x, y, start, select, l1, r1, l2, r2, l3, r3,
    menu, plus, minus, power, poweroff, analogUp, analogDown, analogLeft, analogRight]

theorem index_lt (id : ButtonId) : id.index < 32 := by
  cases id <;> decide

theorem all_index (id : ButtonId) : all[id.index]? = some id := by
  cases id <;> rfl

theorem index_inj {i j : ButtonId} : i.index = j.index ↔ i = j := by
  constructor
  · intro h
    have hall := all_index j
    rw [← h, all_index i] at hall
    exact Option.some.inj hall
  · rintro rfl
    rfl

/-- `BTN_*`, the button's mask. -/
def btn (id : ButtonId) : BitVec 32 := Mask.bit 32 id.index

/-- The four directions of the left stick. -/
def isAnalog : ButtonId → Bool
  | analogUp | analogDown | analogLeft | analogRight => true
  | _ => false

end ButtonId

/-- Whether a button is in a mask. -/
def has (mask : BitVec 32) (id : ButtonId) : Bool := mask.getLsbD id.index

section Masks

variable (mask : BitVec 32) (i j : ButtonId)

@[simp] theorem has_none : has 0#32 j = false := by
  simp [has]

@[simp] theorem has_set : has (mask ||| i.btn) j = (has mask j || decide (i = j)) := by
  simp only [has, ButtonId.btn, Mask.getLsbD_set mask i.index_lt, ButtonId.index_inj]

@[simp] theorem has_clear : has (mask &&& ~~~i.btn) j = (has mask j && !decide (i = j)) := by
  simp only [has, ButtonId.btn, Mask.getLsbD_clear mask i.index_lt, ButtonId.index_inj]

@[simp] theorem has_keep : has (mask &&& i.btn) j = (has mask j && decide (i = j)) := by
  simp only [has, ButtonId.btn, Mask.getLsbD_keep mask i.index_lt, ButtonId.index_inj]

@[simp] theorem and_btn_eq_none : mask &&& i.btn = 0#32 ↔ has mask i = false :=
  Mask.and_bit_eq_zero mask i.index_lt

end Masks

structure PadAxis where
  x : Int
  y : Int

/-- `PAD_Context`. -/
structure Pad where
  isPressed : BitVec 32
  justPressed : BitVec 32
  justReleased : BitVec 32
  justRepeated : BitVec 32
  repeatAt : ButtonId → BitVec 32
  laxis : PadAxis
  raxis : PadAxis

/-- `PAD_REPEAT_DELAY` -/
def repeatDelay : BitVec 32 := 300

/-- `PAD_REPEAT_INTERVAL` -/
def repeatInterval : BitVec 32 := 100

/-- `AXIS_DEADZONE` -/
def axisDeadzone : Int := 0x4000

namespace Pad

/-- The pad a program starts with: a global, so all zeros. -/
def initial : Pad := ⟨0, 0, 0, 0, fun _ => 0, ⟨0, 0⟩, ⟨0, 0⟩⟩

/-- The three lines each event branch has for a button that goes up. -/
def release (pad : Pad) (id : ButtonId) : Pad :=
  { pad with
    isPressed := pad.isPressed &&& ~~~id.btn
    justRepeated := pad.justRepeated &&& ~~~id.btn
    justReleased := pad.justReleased ||| id.btn }

/-- The four lines each event branch has for a button that goes down. -/
def press (pad : Pad) (id : ButtonId) (repeatAt : BitVec 32) : Pad :=
  { pad with
    justPressed := pad.justPressed ||| id.btn
    justRepeated := pad.justRepeated ||| id.btn
    isPressed := pad.isPressed ||| id.btn
    repeatAt := Function.update pad.repeatAt id repeatAt }

/-- The three lines of `PAD_setAnalog` for a direction that is let go in the dead zone. -/
def recentre (pad : Pad) (id : ButtonId) : Pad :=
  { pad with
    isPressed := pad.isPressed &&& ~~~id.btn
    justRepeated := pad.justRepeated &&& id.btn
    justReleased := pad.justReleased ||| id.btn }

/-- One side of `PAD_setAnalog`: the stick is past the dead zone towards `id`. -/
def pushAnalog (pad : Pad) (id opposite : ButtonId) (repeatAt : BitVec 32) : Pad :=
  if pad.isPressed &&& id.btn = 0#32 then
    let pushed := pad.press id repeatAt
    if pushed.isPressed &&& opposite.btn ≠ 0#32 then pushed.release opposite else pushed
  else pad

/-- The last branch of `PAD_setAnalog`, for one of the two directions. -/
def recentreIfPressed (pad : Pad) (id : ButtonId) : Pad :=
  if pad.isPressed &&& id.btn ≠ 0#32 then pad.recentre id else pad

def setAnalog (pad : Pad) (negId posId : ButtonId) (value : Int) (repeatAt : BitVec 32) : Pad :=
  if value > axisDeadzone then pad.pushAnalog posId negId repeatAt
  else if value < -axisDeadzone then pad.pushAnalog negId posId repeatAt
  else (pad.recentreIfPressed negId).recentreIfPressed posId

/-- `PAD_reset`, which leaves the repeat times and the sticks. -/
def reset (pad : Pad) : Pad :=
  { pad with justPressed := 0, isPressed := 0, justReleased := 0, justRepeated := 0 }

/-- One turn of the loop over `repeat_at`. -/
def repeatButton (tick : BitVec 32) (pad : Pad) (id : ButtonId) : Pad :=
  if pad.isPressed &&& id.btn ≠ 0#32 ∧ pad.repeatAt id ≤ tick then
    { pad with
      justRepeated := pad.justRepeated ||| id.btn
      repeatAt := Function.update pad.repeatAt id (pad.repeatAt id + repeatInterval) }
  else pad

/-- What a poll does before it looks at any event. -/
def startPoll (pad : Pad) (tick : BitVec 32) : Pad :=
  let cleared : Pad := { pad with justPressed := 0, justReleased := 0, justRepeated := 0 }
  ButtonId.all.foldl (repeatButton tick) cleared

/-- What is done at the end of the event loop with the button an event was about. -/
def setButton (pad : Pad) (id : ButtonId) (pressed : Bool) (tick : BitVec 32) : Pad :=
  if !pressed then pad.release id
  else if pad.isPressed &&& id.btn = 0#32 then pad.press id (tick + repeatDelay)
  else pad

end Pad

/-- The axes of the two sticks. -/
inductive StickAxis
  | lx | ly | rx | ry
  deriving DecidableEq, Repr

/-- The directions `PAD_setAnalog` is called with for an axis; the right stick has none. -/
def StickAxis.directions : StickAxis → Option (ButtonId × ButtonId)
  | lx => some (.analogLeft, .analogRight)
  | ly => some (.analogUp, .analogDown)
  | rx | ry => none

/-- `hats[4]`: up, down, left and right, with `none` for no change. -/
structure Hats where
  up : Option Bool
  down : Option Bool
  left : Option Bool
  right : Option Bool
  deriving DecidableEq, Repr

/-- The four turns of the loop over `hats`. -/
def Hats.turns (hats : Hats) : List (ButtonId × Option Bool) :=
  [(.dpadUp, hats.up), (.dpadDown, hats.down), (.dpadLeft, hats.left), (.dpadRight, hats.right)]

/-- What an event asks of the pad, once its code has been looked up. -/
inductive PadAction
  | ignore
  | button (id : ButtonId) (pressed : Bool)
  /-- An axis that stands for a button and cannot release it unless it is pressed. -/
  | trigger (id : ButtonId) (pressed : Bool)
  | hats (hats : Hats)
  | stick (axis : StickAxis) (value : Int)
  deriving DecidableEq, Repr

namespace Pad

def setHat (tick : BitVec 32) (pad : Pad) (hat : ButtonId × Option Bool) : Pad :=
  match hat.2 with
  | none => pad
  | some pressed => pad.setButton hat.1 pressed tick

def setHats (pad : Pad) (hats : Hats) (tick : BitVec 32) : Pad :=
  hats.turns.foldl (setHat tick) pad

def setStick (pad : Pad) (axis : StickAxis) (value : Int) : Pad :=
  match axis with
  | .lx => { pad with laxis := { pad.laxis with x := value } }
  | .ly => { pad with laxis := { pad.laxis with y := value } }
  | .rx => { pad with raxis := { pad.raxis with x := value } }
  | .ry => { pad with raxis := { pad.raxis with y := value } }

/-- One turn of the event loop. -/
def act (tick : BitVec 32) (pad : Pad) : PadAction → Pad
  | .ignore => pad
  | .button id pressed => pad.setButton id pressed tick
  | .trigger id pressed =>
      -- you can't release a button that wasn't pressed
      if !pressed && decide (pad.isPressed &&& id.btn = 0#32) then pad
      else pad.setButton id pressed tick
  | .hats hats => pad.setHats hats tick
  | .stick axis value =>
      let moved := pad.setStick axis value
      match axis.directions with
      | some (neg, pos) => moved.setAnalog neg pos value (tick + repeatDelay)
      | none => moved

/-- The pad while a poll is under way, after some of its events. -/
def during (pad : Pad) (tick : BitVec 32) (actions : List PadAction) : Pad :=
  actions.foldl (act tick) (pad.startPoll tick)

/-- `just_released |= BTN_SLEEP`, at the end of a poll that sees the lid move. -/
def setLid (pad : Pad) (lidChanged : Bool) : Pad :=
  if lidChanged then
    -- `BTN_SLEEP` is `BTN_POWER` on both devices
    { pad with justReleased := pad.justReleased ||| ButtonId.power.btn }
  else pad

end Pad

end DarkUI
