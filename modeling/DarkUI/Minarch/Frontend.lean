import DarkUI.Input.Pad

/-! # Polling the pad during a game

The callback in which the front end handles its shortcuts, the POWER button and the MENU button,
and the flags by which the core is moved to a thread of its own and back.
-/

namespace DarkUI.Minarch

/-- The flags of threaded video, with the value of the Prioritize Audio option. -/
structure Threading where
  threadVideo : Bool
  wasThreaded : Bool
  toggleThread : Bool
  fastForward : Bool
  option : Bool
  deriving DecidableEq, Repr

namespace Threading

/-- The flags at startup, before any configuration is read. -/
def initial : Threading := ⟨false, false, false, false, false⟩

def setFastForward (s : Threading) (enable : Bool) : Threading :=
  let requested : Threading :=
    if !s.fastForward && enable && s.threadVideo then
      -- entered fast forward with threaded core
      { s with wasThreaded := true, toggleThread := true }
    else if s.fastForward && !enable && !s.threadVideo && s.wasThreaded then
      -- exited fast forward with previously threaded core
      { s with wasThreaded := false, toggleThread := true }
    else s
  { requested with fastForward := enable }

/-- What the callback does when POWER goes down. -/
def powerPressed (s : Threading) : Threading :=
  if s.threadVideo then { s with wasThreaded := true, toggleThread := true } else s

/-- What the callback does when POWER goes up. -/
def powerReleased (s : Threading) : Threading :=
  if !s.threadVideo && s.wasThreaded then { s with wasThreaded := false, toggleThread := true }
  else s

/-- `Config_syncFrontend` for `FE_OPT_THREAD`. -/
def syncOption (s : Threading) (value : Bool) : Threading :=
  let oldValue := s.threadVideo || s.wasThreaded
  { s with toggleThread := oldValue != value, option := value }

/-- What an iteration of the main loop does about a pending toggle. -/
def handleToggle (s : Threading) : Threading :=
  if s.toggleThread then
    let taken : Threading := { s with toggleThread := false }
    -- revert to pre-fast_forward state before toggling
    let reverted : Threading :=
      if taken.wasThreaded && !taken.threadVideo then
        { taken with wasThreaded := false, threadVideo := !taken.threadVideo }
      else taken
    { reverted with threadVideo := !reverted.threadVideo }
  else s

end Threading

/-- What polling reads of a `ButtonMapping`, with `none` for `BTN_ID_NONE`. -/
structure Binding where
  retro : Nat
  localId : Option ButtonId
  mod : Bool
  deriving DecidableEq, Repr

/-- `SHORTCUT_*`, in the order of the enumeration. -/
inductive Shortcut
  | saveState | loadState | resetGame | saveQuit | cycleScale | cycleEffect | toggleFf | holdFf
  deriving DecidableEq, Repr

def Shortcut.all : List Shortcut :=
  [saveState, loadState, resetGame, saveQuit, cycleScale, cycleEffect, toggleFf, holdFf]

/-- What a shortcut has the rest of the program do. -/
inductive Call
  | saveState | loadState | resetCore
  deriving DecidableEq, Repr

/-- `EFFECT_COUNT` -/
def effectCount : Nat := 3

/-- The state of the front end that the callback reads and writes. -/
structure Frontend where
  threading : Threading
  toggledFfOn : Bool
  ignoreMenu : Bool
  showMenu : Bool
  shouldRunCore : Bool
  quit : Bool
  screenScaling : Nat
  screenEffect : Nat
  scalingCount : Nat
  gamepadType : Nat
  shortcuts : Shortcut → Binding
  controls : List Binding
  buttons : BitVec 32
  calls : List Call

namespace Frontend

/-- The front end when the main loop starts, with what the configuration binds. -/
def start (shortcuts : Shortcut → Binding) (controls : List Binding)
    (scalingCount : Nat) : Frontend where
  threading := Threading.initial
  toggledFfOn := false
  ignoreMenu := false
  showMenu := false
  shouldRunCore := true
  quit := false
  screenScaling := 1
  screenEffect := 0
  scalingCount := scalingCount
  gamepadType := 0
  shortcuts := shortcuts
  controls := controls
  buttons := 0
  calls := []

def ignoreMenuIf (s : Frontend) (mod : Bool) : Frontend :=
  if mod then { s with ignoreMenu := true } else s

/-- The `switch` over the shortcuts other than fast forward. -/
def perform (s : Frontend) : Shortcut → Frontend
  | .saveState => { s with calls := s.calls ++ [.saveState] }
  | .loadState => { s with calls := s.calls ++ [.loadState] }
  | .resetGame => { s with calls := s.calls ++ [.resetCore] }
  | .saveQuit => { s with calls := s.calls ++ [.saveState], quit := true }
  | .cycleScale =>
      let next := s.screenScaling + 1
      { s with screenScaling := if next ≥ s.scalingCount then next - s.scalingCount else next }
  | .cycleEffect =>
      let next := s.screenEffect + 1
      { s with screenEffect := if next ≥ effectCount then next - effectCount else next }
  | .toggleFf | .holdFf => s

/-- The binding applies: no modifier, or MENU is held. -/
def active (mapping : Binding) (pad : Pad) : Bool :=
  !mapping.mod || has pad.isPressed .menu

/-- One turn of the loop over the shortcuts, and whether it ends the loop. -/
def shortcut (pad : Pad) (s : Frontend) (which : Shortcut) : Frontend × Bool :=
  let mapping := s.shortcuts which
  match mapping.localId with
  | none => (s, false) -- not bound
  | some id =>
      if active mapping pad then
        match which with
        | .toggleFf =>
            if has pad.justPressed id then
              let enable := !s.threading.fastForward
              let toggled : Frontend :=
                { s with threading := s.threading.setFastForward enable, toggledFfOn := enable }
              (toggled.ignoreMenuIf mapping.mod, true)
            else if has pad.justReleased id then (s.ignoreMenuIf mapping.mod, true)
            else (s, false)
        | .holdFf =>
            -- don't allow turn off fast_forward with a release of the hold button
            -- if it was initially turned on with the toggle button
            if has pad.justPressed id || (!s.toggledFfOn && has pad.justReleased id) then
              let held : Frontend :=
                { s with threading := s.threading.setFastForward (has pad.isPressed id) }
              (held.ignoreMenuIf mapping.mod, false)
            else (s, false)
        | other =>
            if has pad.justPressed id then ((s.perform other).ignoreMenuIf mapping.mod, false)
            else (s, false)
      else (s, false)

def runShortcuts (pad : Pad) : List Shortcut → Frontend → Frontend
  | [], s => s
  | which :: rest, s =>
      match shortcut pad s which with
      | (next, true) => next
      | (next, false) => runShortcuts pad rest next

/-- What the callback does about MENU before the shortcuts. -/
def menuPressed (pad : Pad) (s : Frontend) : Frontend :=
  let seen : Frontend := if has pad.justPressed .menu then { s with ignoreMenu := false } else s
  if has pad.isPressed .menu && (has pad.isPressed .plus || has pad.isPressed .minus) then
    { seen with ignoreMenu := true }
  else seen

def powerEdge (pad : Pad) (s : Frontend) : Frontend :=
  if has pad.justPressed .power then { s with threading := s.threading.powerPressed }
  else if has pad.justReleased .power then { s with threading := s.threading.powerReleased }
  else s

/-- What the callback does about MENU after the shortcuts. -/
def menuReleased (pad : Pad) (s : Frontend) : Frontend :=
  if !s.ignoreMenu && has pad.justReleased .menu then
    { s with
      showMenu := true
      shouldRunCore := if s.threading.threadVideo then false else s.shouldRunCore }
  else s

/-- Whether a control is pressed; a digital pad's directions include the stick's. -/
def controlPressed (s : Frontend) (pad : Pad) (id : ButtonId) : Bool :=
  has pad.isPressed id ||
    (decide (s.gamepadType = 0) &&
      match id with
      | .dpadUp => has pad.isPressed .analogUp
      | .dpadDown => has pad.isPressed .analogDown
      | .dpadLeft => has pad.isPressed .analogLeft
      | .dpadRight => has pad.isPressed .analogRight
      | _ => false)

def readControl (pad : Pad) (s : Frontend) (mapping : Binding) : Frontend :=
  match mapping.localId with
  | none => s
  | some id =>
      if s.controlPressed pad id && active mapping pad then
        let pressed : Frontend := { s with buttons := s.buttons ||| Mask.bit 32 mapping.retro }
        pressed.ignoreMenuIf mapping.mod
      else s

def readControls (pad : Pad) (s : Frontend) : Frontend :=
  let cleared : Frontend := { s with buttons := 0 }
  s.controls.foldl (readControl pad) cleared

/-- `input_poll_callback`, from the pad that `PAD_poll` and `PWR_update` leave. -/
def inputPollCallback (s : Frontend) (pad : Pad) : Frontend :=
  readControls pad
    (menuReleased pad (runShortcuts pad Shortcut.all (powerEdge pad (menuPressed pad s))))

end Frontend

end DarkUI.Minarch
