import DarkUI.Input.Pad

/-! # Polling SDL

The event loop that `pad.c` provides for platforms without one of their own.
-/

namespace DarkUI.Sdl

/-- `CODE_NA`, `JOY_NA` and `AXIS_NA`: no event carries it. -/
def na : Int := -1

/-- `CODE_*` of a platform. -/
structure KeyCodes where
  up : Int
  down : Int
  left : Int
  right : Int
  select : Int
  start : Int
  a : Int
  b : Int
  x : Int
  y : Int
  l1 : Int
  r1 : Int
  l2 : Int
  r2 : Int
  l3 : Int
  r3 : Int
  menu : Int
  menuAlt : Int := na
  power : Int
  poweroff : Int := na
  plus : Int
  minus : Int

/-- `JOY_*` of a platform. -/
structure JoyCodes where
  up : Int
  down : Int
  left : Int
  right : Int
  select : Int
  start : Int
  a : Int
  b : Int
  x : Int
  y : Int
  l1 : Int
  r1 : Int
  l2 : Int
  r2 : Int
  l3 : Int
  r3 : Int
  menu : Int
  menuAlt : Int := na
  menuAlt2 : Int := na
  power : Int
  plus : Int
  minus : Int

/-- `AXIS_*` of a platform; neither device defines one. -/
structure AxisCodes where
  l2 : Int := na
  r2 : Int := na
  lx : Int := na
  ly : Int := na
  rx : Int := na
  ry : Int := na

structure Codes where
  key : KeyCodes
  joy : JoyCodes
  axis : AxisCodes

inductive Event
  | key (scancode : Nat) (down : Bool)
  | joyButton (button : Nat) (down : Bool)
  | joyHat (value : Nat)
  | joyAxis (axis : Nat) (value : Int)
  | other
  deriving DecidableEq, Repr

/-- The chain of comparisons for a key, in its order. -/
def keyButtons (codes : KeyCodes) : List (Int × ButtonId) :=
  [(codes.up, .dpadUp), (codes.down, .dpadDown), (codes.left, .dpadLeft),
    (codes.right, .dpadRight), (codes.a, .a), (codes.b, .b), (codes.x, .x), (codes.y, .y),
    (codes.start, .start), (codes.select, .select), (codes.menu, .menu), (codes.menuAlt, .menu),
    (codes.l1, .l1), (codes.l2, .l2), (codes.l3, .l3), (codes.r1, .r1), (codes.r2, .r2),
    (codes.r3, .r3), (codes.plus, .plus), (codes.minus, .minus), (codes.power, .power),
    (codes.poweroff, .poweroff)]

/-- The chain of comparisons for a joystick button, in its order. -/
def joyButtons (codes : JoyCodes) : List (Int × ButtonId) :=
  [(codes.up, .dpadUp), (codes.down, .dpadDown), (codes.left, .dpadLeft),
    (codes.right, .dpadRight), (codes.a, .a), (codes.b, .b), (codes.x, .x), (codes.y, .y),
    (codes.start, .start), (codes.select, .select), (codes.menu, .menu), (codes.menuAlt, .menu),
    (codes.menuAlt2, .menu), (codes.l1, .l1), (codes.l2, .l2), (codes.l3, .l3), (codes.r1, .r1),
    (codes.r2, .r2), (codes.r3, .r3), (codes.plus, .plus), (codes.minus, .minus),
    (codes.power, .power)]

/-- `btn`, `id` and `pressed` of an event about a single button. -/
def buttonAction (table : List (Int × ButtonId)) (code : Int) (pressed : Bool) : PadAction :=
  match table.lookup code with
  | some id => .button id pressed
  | none => .ignore

/-- The `switch` over `SDL_HAT_*`. -/
def hatAction (hat : Nat) : PadAction :=
  match hat with
  | 1 => .hats ⟨some true, some false, some false, some false⟩ -- SDL_HAT_UP
  | 4 => .hats ⟨some false, some true, some false, some false⟩ -- SDL_HAT_DOWN
  | 8 => .hats ⟨some false, some false, some true, some false⟩ -- SDL_HAT_LEFT
  | 2 => .hats ⟨some false, some false, some false, some true⟩ -- SDL_HAT_RIGHT
  | 9 => .hats ⟨some true, some false, some true, some false⟩ -- SDL_HAT_LEFTUP
  | 12 => .hats ⟨some false, some true, some true, some false⟩ -- SDL_HAT_LEFTDOWN
  | 3 => .hats ⟨some true, some false, some false, some true⟩ -- SDL_HAT_RIGHTUP
  | 6 => .hats ⟨some false, some true, some false, some true⟩ -- SDL_HAT_RIGHTDOWN
  | 0 => .hats ⟨some false, some false, some false, some false⟩ -- SDL_HAT_CENTERED
  | _ => .hats ⟨none, none, none, none⟩

def axisAction (codes : AxisCodes) (axis : Int) (val : Int) : PadAction :=
  if axis = codes.l2 then .trigger .l2 (decide (val > 0))
  else if axis = codes.r2 then .trigger .r2 (decide (val > 0))
  else if axis = codes.lx then .stick .lx val
  else if axis = codes.ly then .stick .ly val
  else if axis = codes.rx then .stick .rx val
  else if axis = codes.ry then .stick .ry val
  else .ignore

/-- What the event loop makes of an event. Key and button codes are cut to eight bits. -/
def action (codes : Codes) : Event → PadAction
  | .key scancode down => buttonAction (keyButtons codes.key) (scancode % 256 : Nat) down
  | .joyButton button down => buttonAction (joyButtons codes.joy) (button % 256 : Nat) down
  | .joyHat value => hatAction value
  | .joyAxis axis value => axisAction codes.axis axis value
  | .other => .ignore

/-- What a poll reads: the clock and the queue. -/
structure Poll where
  tick : BitVec 32
  events : List Event

/-- `PLAT_pollInput`; `PLAT_lidChanged` is the fallback, which sees no lid. -/
def pollInput (codes : Codes) (pad : Pad) (poll : Poll) : Pad :=
  (pad.during poll.tick (poll.events.map (action codes))).setLid false

/-- What the program does with its pad. -/
inductive Input
  | poll (poll : Poll)
  | reset

def step (codes : Codes) (pad : Pad) : Input → Option Pad
  | .poll poll => some (pollInput codes pad poll)
  | .reset => some pad.reset

end DarkUI.Sdl
