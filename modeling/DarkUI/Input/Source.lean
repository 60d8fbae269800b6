import DarkUI.Input.Evdev
import DarkUI.Input.Sdl

/-! # Where the pad comes from -/

namespace DarkUI

/-- A back end: the state the pad is part of, and what `PAD_poll` and `PAD_reset` do to it. -/
structure PadSource where
  State : Type
  Poll : Type
  poll : State → Poll → State
  reset : State → State
  pad : State → Pad

def Sdl.source (codes : Codes) : PadSource where
  State := Pad
  Poll := Sdl.Poll
  poll := pollInput codes
  reset := Pad.reset
  pad := id

def Evdev.source : PadSource where
  State := Evdev.State
  Poll := Evdev.Poll
  poll := pollInput
  reset s := { s with pad := s.pad.reset }
  pad := State.pad

end DarkUI
