import DarkUI.Foundation.FixedPoint

/-! # The settings of the RG35XX Plus

The settings that all programs share, with the calls of `libmsettings` that change them, what these
send to the hardware and what they save.
-/

namespace DarkUI.Keymon

open FixedPoint

/-- `Settings` -/
structure Settings where
  version : BitVec 32
  brightness : BitVec 32
  headphones : BitVec 32
  speaker : BitVec 32
  unused0 : BitVec 32
  unused1 : BitVec 32
  jack : BitVec 32
  hdmi : BitVec 32
  deriving DecidableEq, Repr

/-- `SETTINGS_VERSION` -/
def settingsVersion : BitVec 32 := 2

/-- `DefaultSettings` -/
def defaultSettings : Settings where
  version := settingsVersion
  brightness := 2
  headphones := 4
  speaker := 8
  unused0 := 0
  unused1 := 0
  jack := 0
  hdmi := 0

/-- The bytes of an `int`, the lowest first. -/
def bytesOf (n : BitVec 32) : List (BitVec 8) :=
  [n.extractLsb' 0 8, n.extractLsb' 8 8, n.extractLsb' 16 8, n.extractLsb' 24 8]

def intsOf : List (BitVec 8) → List (BitVec 32)
  | b0 :: b1 :: b2 :: b3 :: rest => (b3 ++ b2 ++ b1 ++ b0) :: intsOf rest
  | _ => []

namespace Settings

variable (s : Settings)

/-- What is saved. -/
def image : List (BitVec 8) :=
  [s.version, s.brightness, s.headphones, s.speaker, s.unused0, s.unused1, s.jack, s.hdmi].flatMap
    bytesOf

/-- What a `read` of the whole size leaves in memory. -/
def ofImage (content : List (BitVec 8)) : Option Settings :=
  match intsOf content with
  | version :: brightness :: headphones :: speaker :: unused0 :: unused1 :: jack :: hdmi :: _ =>
      some ⟨version, brightness, headphones, speaker, unused0, unused1, jack, hdmi⟩
  | _ => none

/-- `InitSettingsCore`, which reads the file into the memory it creates, unless there is none or
the read is short, and then the check of the version. -/
def load (file : Option (List (BitVec 8))) : Settings :=
  let s := (file.bind ofImage).getD defaultSettings
  if s.version ≠ settingsVersion then defaultSettings else s

/-- `GetBrightness` -/
def getBrightness : BitVec 32 := s.brightness

/-- `GetVolume` -/
def getVolume : BitVec 32 := if s.jack ≠ 0 then s.headphones else s.speaker

end Settings

/-- The table of `SetBrightness`, which leaves `raw` undefined for other values. -/
def rawBrightness (value : BitVec 32) : Option Int :=
  [4, 6, 10, 16, 32, 48, 64, 96, 128, 192, 255][value.toNat]?

/-- The product that `SetVolume` sends, which is undefined if it overflows. -/
def rawVolume (value : BitVec 32) : Option Int := checked (value.toInt * 5)

/-- What is sent to the hardware. -/
inductive Sent
  | brightness (raw : Option Int)
  | volume (raw : Option Int)
  deriving DecidableEq, Repr

/-- The shared settings, with everything that was sent, beside the settings that the call left, and
everything that was saved. -/
structure Shared where
  settings : Settings
  sent : List (Sent × Settings)
  saved : List (List (BitVec 8))

namespace Shared

variable (s : Shared)

/-- What all setters end with, but for the hardware: new settings, which are saved. -/
def store (settings : Settings) (sent : Sent) : Shared where
  settings := settings
  sent := s.sent ++ [(sent, settings)]
  saved := s.saved ++ [settings.image]

/-- `SetBrightness` -/
def setBrightness (value : BitVec 32) : Shared :=
  if s.settings.hdmi ≠ 0 then s
  else s.store { s.settings with brightness := value } (.brightness (rawBrightness value))

/-- `SetVolume` -/
def setVolume (value : BitVec 32) : Shared :=
  if s.settings.hdmi ≠ 0 then s
  else if s.settings.jack ≠ 0 then
    s.store { s.settings with headphones := value } (.volume (rawVolume value))
  else s.store { s.settings with speaker := value } (.volume (rawVolume value))

/-- `SetJack` -/
def setJack (value : BitVec 32) : Shared :=
  let settings := { s.settings with jack := value }
  { s with settings := settings }.setVolume settings.getVolume

/-- `SetHDMI`, which turns the volume up as long as it lasts and does not save. -/
def setHDMI (value : BitVec 32) : Shared :=
  let settings := { s.settings with hdmi := value }
  if value ≠ 0 then
    { s with settings := settings, sent := s.sent ++ [(.volume (some 100), settings)] }
  else { s with settings := settings }.setVolume settings.getVolume

/-- `InitSettings` of a program that finds the memory there. -/
def client (jack hdmi : BitVec 32) : Shared :=
  let s := (s.setJack jack).setHDMI hdmi
  s.setBrightness s.settings.getBrightness

/-- `InitSettings` of keymon, which creates the memory. -/
def host (file : Option (List (BitVec 8))) (jack hdmi : BitVec 32) : Shared :=
  client ⟨.load file, [], []⟩ jack hdmi

end Shared

end DarkUI.Keymon
