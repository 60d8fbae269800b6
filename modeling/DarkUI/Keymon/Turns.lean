import DarkUI.Foundation.Repeats
import DarkUI.Keymon.Keymon
import Mathlib.Logic.Function.Basic

/-! # Turns of the loop

Whole turns of keymon's loop, with the other changes of the settings between them, and what they
are for: two keys that turn three dials, once when they are pressed and again and again while they
are held.
-/

namespace DarkUI.Keymon

/-- The keys that change a setting. -/
inductive Direction
  | up
  | down
  deriving DecidableEq, Repr

namespace Direction

def code : Direction → Nat
  | up => codePlus
  | down => codeMinus

/-- What is set instead of `val`, if anything is. -/
def moved (menu : Bool) (val : BitVec 32) : Direction → Option (BitVec 32)
  | up => if val < (if menu then brightnessMax else volumeMax) then some (val + 1) else none
  | down => if val > (if menu then brightnessMin else volumeMin) then some (val - 1) else none

end Direction

/-- The settings after a key was due. -/
def Shared.moved (s : Shared) (menu : Bool) (d : Direction) : Shared :=
  match d.moved menu (Loop.setting menu s) with
  | some val => Loop.set menu s val
  | none => s

namespace Loop

variable (l : Loop)

def key : Direction → Key
  | .up => l.up
  | .down => l.down

def withKey (key : Key) : Direction → Loop
  | .up => { l with up := key }
  | .down => { l with down := key }

end Loop

namespace Machine

variable (m : Machine)

/-- The loop from where it is to its end, in at most `fuel` parts. -/
def finish : Nat → Machine → Machine
  | 0, m => m
  | fuel + 1, m =>
      match m.loop.phase with
      | .poll => m
      | _ => finish fuel (m.step (.keymon 0 []))

/-- A turn of the loop, with nothing between its calls. -/
def turn (now : BitVec 32) (events : List Event) : Machine :=
  (m.step (.keymon now events)).finish 4

/-- The part of the loop about one key. -/
def serve (d : Direction) : Machine :=
  if (m.loop.key d).due m.loop.now then
    ⟨m.loop.withKey (m.loop.key d).served d, m.shared.moved (m.loop.menuPressed ≠ 0) d⟩
  else m

end Machine

/-- What happens to the settings from one turn of the loop to the next. -/
inductive Happening
  | turn (now : BitVec 32) (events : List Event)
  | hdmi (value : BitVec 32)
  | jack (value : BitVec 32)
  | client (jack hdmi : BitVec 32)

namespace Machine

def happen (m : Machine) : Happening → Machine
  | .turn now events => m.turn now events
  | .hdmi value => m.step (.hdmi value)
  | .jack value => m.step (.jack value)
  | .client jack hdmi => m.step (.client jack hdmi)

def live (happenings : List Happening) (m : Machine) : Machine := happenings.foldl happen m

end Machine

/-- A dial from 0 to `top`. -/
abbrev Dial (top : Nat) : Type := Fin (top + 1)

/-- A dial is turned as far as its end. -/
def Direction.stroke {top : Nat} (dial : Dial top) : Direction → Dial top
  | up => ⟨min top (dial + 1), by omega⟩
  | down => ⟨dial - 1, by omega⟩

structure Dials where
  speaker : Dial 20
  headphones : Dial 20
  brightness : Dial 10
  deriving DecidableEq, Repr

namespace Dials

/-- The dial that is heard or seen is turned. -/
def stroke (dials : Dials) (menu jack : Bool) (d : Direction) : Dials :=
  if menu then { dials with brightness := d.stroke dials.brightness }
  else if jack then { dials with headphones := d.stroke dials.headphones }
  else { dials with speaker := d.stroke dials.speaker }

end Dials

/-- A key that is held, since when, and how many strokes it has made. -/
structure Hold where
  since : Nat
  made : Nat
  deriving DecidableEq, Repr

/-- A key makes a stroke when it is pressed and, after 300 ms, another every 100 ms. -/
def strokes (since now : Nat) : Nat := Repeats.count (since + 300) 100 now + 1

/-- The keys and the dials, as one knows them who holds the device. -/
structure Player where
  menu : Bool
  hold : Direction → Option Hold
  last : Nat
  jack : Bool
  hdmi : Bool
  dials : Dials

namespace Player

/-- With settings that are on their scales, before anything was pressed. -/
def start (s : Settings) (jack hdmi now : BitVec 32) : Player where
  menu := false
  hold := fun _ => none
  last := now.toNat
  jack := jack ≠ 0
  hdmi := hdmi ≠ 0
  dials := ⟨.ofNat _ s.speaker.toNat, .ofNat _ s.headphones.toNat, .ofNat _ s.brightness.toNat⟩

variable (p : Player)

def press (d : Direction) (now : Nat) (value : BitVec 32) : Player :=
  { p with hold := Function.update p.hold d (if value ≠ 0 then some ⟨now, 0⟩ else none) }

def event (now : Nat) (p : Player) (ev : Event) : Player :=
  if ev.type ≠ evKey ∨ ev.value > repeated then p
  else if ev.code ∈ codesMenu then { p with menu := ev.value ≠ 0 }
  else if ev.code = codePlus then p.press .up now ev.value
  else if ev.code = codeMinus then p.press .down now ev.value
  else p

/-- After a second without a turn, or when the clock was set back, all is released. -/
def poll (now : Nat) (events : List Event) : Player :=
  if p.last + 1000 < now ∨ now < p.last then { p with menu := false, hold := fun _ => none }
  else events.foldl (event now) p

/-- A stroke of a key that has made fewer than are due. HDMI holds the dials. -/
def serve (now : Nat) (d : Direction) : Player :=
  match p.hold d with
  | none => p
  | some hold =>
      if hold.made < strokes hold.since now then
        { p with
          hold := Function.update p.hold d (some { hold with made := hold.made + 1 })
          dials := if p.hdmi then p.dials else p.dials.stroke p.menu p.jack d }
      else p

def turn (now : Nat) (events : List Event) : Player :=
  { ((p.poll now events).serve now .up).serve now .down with last := now }

def happen (p : Player) : Happening → Player
  | .turn now events => p.turn now.toNat events
  | .hdmi value => { p with hdmi := value ≠ 0 }
  | .jack value => { p with jack := value ≠ 0 }
  | .client jack hdmi => { p with jack := jack ≠ 0, hdmi := hdmi ≠ 0 }

def live (happenings : List Happening) (p : Player) : Player := happenings.foldl happen p

end Player

end DarkUI.Keymon
