import DarkUI.Minui.Launcher
import DarkUI.Minarch.Quicksave

/-! # Sleeping, going off and starting again

The device alternates between the launcher and one running game. Every start of the
launcher looks for the path that a game left before it slept.
-/

namespace DarkUI.Handover

open Text Stdio Minui Minarch

/-- What the device is doing. A game is suspended from `Menu_beforeSleep` on, asleep or
about to quit after the HDMI cable was plugged or pulled. -/
inductive Power
  | off
  | launcher
  | playing (run : Running)
  | suspended (run : Running) (io : SleepIo)

/-- The card, and what was running when the power last went off, with the state that was
serialized for that power-off. -/
structure Machine where
  fs : FileSystem
  power : Power
  lastOff : Option (Running × Option (List Byte))

/-- `unlinked` tells whether removing the marker takes effect. -/
inductive Event
  | boot (unlinked : Bool)
  | launch (core : Core) (path : CString)
  | changeDisc (path : CString) (loaded : Bool)
  | write (path : CString) (content : Option CString)
  | suspend (io : SleepIo)
  | wake (unlinked : Bool)
  | quit (unlinked : Bool)
  | powerOff

namespace Machine

variable (host : Host) (m : Machine)

/-- A device that is off, with the card in it. -/
def fresh (fs : FileSystem) : Machine := ⟨fs, .off, none⟩

/-- What `autoResume` leaves in `/tmp` when the launcher starts. -/
def queued : Tmp := (autoResume host m.fs Tmp.empty).2

def startLauncher (unlinked : Bool) : Machine :=
  { m with
    fs := if unlinked then (autoResume host m.fs Tmp.empty).1 else m.fs
    power := .launcher }

/-- A step of the device. What the programs write besides the marker is left open, and so is
what the launcher runs next. An event that comes at the wrong time does nothing. -/
def step (event : Event) : Option Machine :=
  match event, m.power with
  | .boot unlinked, .off => some (m.startLauncher host unlinked)
  | .launch core path, .launcher =>
      some { m with
        power := ((Running.open? core m.fs path true).map Power.playing).getD .launcher }
  | .changeDisc path loaded, .playing run =>
      some { m with
        power := ((Running.open? run.core m.fs path loaded).map Power.playing).getD (.playing run) }
  | .write path content, .launcher | .write path content, .playing _ =>
      if path = autoResumePath then some m
      else some { m with fs := { m.fs with file := Function.update m.fs.file path content } }
  | .suspend io, .playing run =>
      some { m with fs := Menu.beforeSleep run io m.fs, power := .suspended run io }
  | .wake unlinked, .suspended run _ =>
      some { m with fs := Menu.afterSleep unlinked m.fs, power := .playing run }
  | .quit unlinked, .playing _ | .quit unlinked, .suspended _ _ =>
      some (m.startLauncher host unlinked)
  | .powerOff, .launcher => some { m with power := .off, lastOff := none }
  | .powerOff, .playing run => some { m with power := .off, lastOff := some (run, none) }
  | .powerOff, .suspended run io =>
      some { m with power := .off, lastOff := some (run, io.serializer.image) }
  | _, _ => some m

end Machine
end DarkUI.Handover
