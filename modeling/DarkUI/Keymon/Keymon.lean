import DarkUI.Keymon.Settings

/-! # Keymon

The main loop of keymon on the RG35XX Plus, one call into `libmsettings` at a time, so that the
thread that watches HDMI and other programs may come between any two calls.
-/

namespace DarkUI.Keymon

/-- `input_event`, with the value as the loop takes it. -/
structure Event where
  type : Nat
  code : Nat
  value : BitVec 32

def evKey : Nat := 1

/-- `CODE_MENU` and `CODE_MENU2` -/
def codesMenu : List Nat := [310, 312]

def codePlus : Nat := 115

def codeMinus : Nat := 114

/-- `REPEAT` -/
def repeated : BitVec 32 := 2

/-- `BRIGHTNESS_MAX` -/
def brightnessMax : BitVec 32 := 10

/-- `BRIGHTNESS_MIN` -/
def brightnessMin : BitVec 32 := 0

/-- `VOLUME_MAX` -/
def volumeMax : BitVec 32 := 20

/-- `VOLUME_MIN` -/
def volumeMin : BitVec 32 := 0

/-- The three variables for `up`, and those for `down`. -/
structure Key where
  pressed : BitVec 32
  justPressed : BitVec 32
  repeatAt : BitVec 32

namespace Key

variable (key : Key)

def released : Key := ⟨0, 0, 0⟩

/-- The case of the key in the `switch`. -/
def event (now value : BitVec 32) : Key where
  pressed := value
  justPressed := value
  repeatAt := if value ≠ 0 then now + 300 else key.repeatAt

/-- Whether the key changes a setting now. -/
def due (now : BitVec 32) : Bool :=
  key.justPressed ≠ 0 || (key.pressed ≠ 0 && decide (now ≥ key.repeatAt))

/-- What is left of a key that was due. -/
def served : Key :=
  if key.justPressed ≠ 0 then { key with justPressed := 0 }
  else { key with repeatAt := key.repeatAt + 100 }

end Key

/-- Where the loop is: at its top, before it reads a setting, or before it sets what it has
computed from the value `val` it read. With MENU the setting is the brightness. -/
inductive Phase
  | poll
  | up
  | upSet (menu : Bool) (val : BitVec 32)
  | down
  | downSet (menu : Bool) (val : BitVec 32)

/-- The variables of `main`. -/
structure Loop where
  menuPressed : BitVec 32
  up : Key
  down : Key
  thenAt : BitVec 32
  now : BitVec 32
  phase : Phase

namespace Loop

variable (l : Loop)

def start (now : BitVec 32) : Loop := ⟨0, .released, .released, now, now, .poll⟩

/-- The `switch` on a key event. Other events are left out. -/
def event (l : Loop) (ev : Event) : Loop :=
  if ev.type ≠ evKey ∨ ev.value > repeated then l
  else if ev.code ∈ codesMenu then { l with menuPressed := ev.value }
  else if ev.code = codePlus then { l with up := l.up.event l.now ev.value }
  else if ev.code = codeMinus then { l with down := l.down.event l.now ev.value }
  else l

/-- The top of the loop. Input that arrived during a sleep is dropped with all that was held. -/
def poll (now : BitVec 32) (events : List Event) : Loop :=
  let l := { l with now := now, phase := .up }
  if now - l.thenAt > 1000 then { l with menuPressed := 0, up := .released, down := .released }
  else events.foldl event l

/-- The setting that is to change. -/
def setting (menu : Bool) (s : Shared) : BitVec 32 :=
  if menu then s.settings.getBrightness else s.settings.getVolume

def set (menu : Bool) (s : Shared) (val : BitVec 32) : Shared :=
  if menu then s.setBrightness val else s.setVolume val

/-- The next part of the loop, with at most one call. -/
def next (now : BitVec 32) (events : List Event) (s : Shared) : Loop × Shared :=
  match l.phase with
  | .poll => (l.poll now events, s)
  | .up =>
      let menu : Bool := l.menuPressed ≠ 0
      if l.up.due l.now then ({ l with phase := .upSet menu (setting menu s) }, s)
      else ({ l with phase := .down }, s)
  | .upSet menu val =>
      ({ l with phase := .down, up := l.up.served },
        if val < (if menu then brightnessMax else volumeMax) then set menu s (val + 1) else s)
  | .down =>
      let menu : Bool := l.menuPressed ≠ 0
      if l.down.due l.now then ({ l with phase := .downSet menu (setting menu s) }, s)
      else ({ l with phase := .poll, thenAt := l.now }, s)
  | .downSet menu val =>
      ({ l with phase := .poll, down := l.down.served, thenAt := l.now },
        if val > (if menu then brightnessMin else volumeMin) then set menu s (val - 1) else s)

end Loop

/-- Keymon and what it shares. -/
structure Machine where
  loop : Loop
  shared : Shared

/-- What may happen next: keymon goes on, with what it reads if it is at the top of its loop, HDMI
or the jack changes, or another program starts. -/
inductive Action
  | keymon (now : BitVec 32) (events : List Event)
  | hdmi (value : BitVec 32)
  | jack (value : BitVec 32)
  | client (jack hdmi : BitVec 32)

namespace Machine

/-- After `InitSettings`, with what was found of the file, the jack and HDMI. -/
def start (file : Option (List (BitVec 8))) (jack hdmi now : BitVec 32) : Machine :=
  ⟨.start now, .host file jack hdmi⟩

def step (m : Machine) : Action → Machine
  | .keymon now events =>
      let (loop, shared) := m.loop.next now events m.shared
      ⟨loop, shared⟩
  | .hdmi value => { m with shared := m.shared.setHDMI value }
  | .jack value => { m with shared := m.shared.setJack value }
  | .client jack hdmi => { m with shared := m.shared.client jack hdmi }

def run (actions : List Action) (m : Machine) : Machine := actions.foldl step m

end Machine

end DarkUI.Keymon
