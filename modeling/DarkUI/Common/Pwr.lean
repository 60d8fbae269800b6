import DarkUI.Input.Pad

/-! # Power

One call of `PWR_update`: when it powers off, when it sleeps, and when the brightness or the volume
is shown. On both devices the brightness is held with MENU and the volume with nothing.
-/

namespace DarkUI

/-- `SLEEP_DELAY` -/
def sleepDelay : BitVec 32 := 30000

/-- `CHARGE_DELAY` -/
def chargeDelay : BitVec 32 := 1000

/-- `SETTING_DELAY` -/
def settingDelay : BitVec 32 := 500

/-- `MOD_DELAY` -/
def modDelay : BitVec 32 := 250

/-- What `PWR_update` keeps between calls. -/
structure Pwr where
  /-- Only a device without a power button ever clears this. -/
  canSleep : Bool
  lastInputAt : BitVec 32
  checkedChargeAt : BitVec 32
  settingShownAt : BitVec 32
  powerPressedAt : BitVec 32
  modUnpressedAt : BitVec 32
  wasMuted : Option (BitVec 32)
  wasCharging : Option Bool

/-- What one call reads from outside: the clock, also when a sleep ends, and the hardware. -/
structure PwrReads where
  now : BitVec 32
  wokenAt : BitVec 32
  isCharging : Bool
  canAutosleep : Bool
  hdmi : Bool
  requestedSleep : Bool
  muted : BitVec 32

/-- `PWR_preventAutosleep` -/
def PwrReads.preventAutosleep (reads : PwrReads) : Bool :=
  reads.isCharging || !reads.canAutosleep || reads.hdmi

/-- What one call leaves, and whether it called `PWR_powerOff` and `PWR_fauxSleep`. -/
structure PwrUpdate where
  pwr : Pwr
  pad : Pad
  dirty : Bool
  showSetting : Nat
  powersOff : Bool
  slept : Bool

namespace Pwr

/-- After `PWR_init`. -/
def initial : Pwr := ⟨true, 0, 0, 0, 0, 0, none, none⟩

variable (reads : PwrReads) (pad : Pad) (s : Pwr)

/-- The first lines, which fill in what is not known yet and take note of input. -/
def noteInput : Pwr :=
  let s := { s with
    wasMuted := some (s.wasMuted.getD reads.muted)
    wasCharging := some (s.wasCharging.getD reads.isCharging) }
  if s.wasCharging = some true ∨ pad.isPressed ≠ 0 ∨ s.lastInputAt = 0 then
    { s with lastInputAt := reads.now }
  else s

/-- A change of the charger is looked for once a second. -/
def checkCharge (dirty : Bool) : Bool × Pwr :=
  if dirty ∨ reads.now - s.checkedChargeAt ≥ chargeDelay then
    (dirty || s.wasCharging != some reads.isCharging,
      { s with wasCharging := some reads.isCharging, checkedChargeAt := reads.now })
  else (dirty, s)

/-- The test of `power_pressed_at`. -/
def holdDue (now : BitVec 32) : Bool :=
  s.powerPressedAt != 0 && decide (now - s.powerPressedAt ≥ 1000)

def notePower : Pwr :=
  if has pad.justPressed .power then { s with powerPressedAt := reads.now } else s

def keepAwake : Pwr :=
  if reads.now - s.lastInputAt ≥ sleepDelay ∧ reads.preventAutosleep then
    { s with lastInputAt := reads.now }
  else s

/-- `BTN_SLEEP` is `BTN_POWER`. -/
def sleeps : Bool :=
  reads.requestedSleep || decide (reads.now - s.lastInputAt ≥ sleepDelay) ||
    (s.canSleep && has pad.justReleased .power)

/-- What the statics are set to when a sleep ends. -/
def wake : Pwr := { s with lastInputAt := reads.wokenAt, powerPressedAt := 0 }

/-- The setting that is shown: 1 is the brightness and 2 the volume. -/
def updateSetting (now muted : BitVec 32) (dirty : Bool) (showSetting : Nat) :
    Bool × Nat × Pwr :=
  let menu := has pad.isPressed .menu
  let hides := showSetting ≠ 0 && decide (now - s.settingShownAt ≥ settingDelay) && !menu
  let showSetting := if hides then 0 else showSetting
  let s := if showSetting = 0 && !menu then { s with modUnpressedAt := now } else s
  let shows := (menu && decide (now - s.modUnpressedAt ≥ modDelay)) ||
    has pad.justRepeated .plus || has pad.justRepeated .minus
  let s := if shows then { s with settingShownAt := now } else s
  let showSetting := if shows then (if menu then 1 else 2) else showSetting
  let mutes := s.wasMuted != some muted
  let s := if mutes then { s with wasMuted := some muted, settingShownAt := now } else s
  let showSetting := if mutes then 2 else showSetting
  (dirty || hides || decide (showSetting ≠ 0), showSetting, s)

/-- `PWR_update` -/
def update (dirty : Bool) (showSetting : Nat) : PwrUpdate :=
  let (dirty, s) := (s.noteInput reads pad).checkCharge reads dirty
  let powersOff := has pad.justReleased .poweroff || s.holdDue reads.now
  let s := (s.notePower reads pad).keepAwake reads
  let slept := s.sleeps reads pad
  let s := if slept then s.wake reads else s
  -- a sleep starts and ends with `PAD_reset`
  let pad := if slept then pad.reset else pad
  let now := if slept then reads.wokenAt else reads.now
  let (dirty, showSetting, s) :=
    s.updateSetting pad now reads.muted (dirty || slept) showSetting
  ⟨s, pad, dirty, showSetting, powersOff, slept⟩

end Pwr

end DarkUI
