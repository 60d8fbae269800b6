import DarkUI.Boot.Update
import Mathlib.Data.List.AList

/-! # Updating an RG35XX

`boot.sh` and the `install.sh` it runs, one command at a time. The commands not listed here
neither end the scripts nor touch the files that are installed.
-/

namespace DarkUI.Boot

/-- A file of `/misc`, or of a directory in it. -/
structure MiscPath where
  directory : Option String
  name : String
  deriving DecidableEq, Repr

namespace Rg35xx

/-- The files `install.sh` copies to `/misc`. -/
def installed : List String := ["dmenu.bin", "ramdisk.img", "boot_logo.bmp.gz"]

/-- The next command of the scripts. -/
inductive Stage
  | off
  | unzip
  | test
  | dmenu
  | ramdisk
  | bootLogo
  | charging
  | touch
  | reboot
  | rm
  | launch
  deriving DecidableEq, Repr

structure Console (α : Type*) where
  zip : Option (Release installed α)
  /-- The files in `$SYSTEM_PATH/dat`. -/
  dat : String → Option α
  misc : AList fun _ : MiscPath => α
  /-- `$FLAG_PATH` exists. -/
  flag : Bool
  stage : Stage
  /-- `unzip` succeeded in this boot. -/
  unzipped : Bool
  /-- `boot_logo.bmp.gz` was written since the zip appeared. -/
  logoWritten : Bool

inductive BootInput (α : Type*)
  | insertZip (release : Release installed α)
  | power
  | unzip (outcome : Unzip α)
  | test
  | cp (outcome : Cp α)
  | touch (succeeds : Bool)
  /-- `sync && reboot`, and its status unless the console goes down. -/
  | reboot (status : Option Bool)
  | rm (succeeds : Bool)
  | powerCut

variable {α σ : Type*} [DecidableEq σ]

/-- The loop of `was_updated` over `/misc/* /misc/*/*`. -/
def anyUpdated (md5sum : α → σ) (dat : String → Option α) :
    List (Sigma fun _ : MiscPath => α) → Bool
  | [] => false
  | ⟨path, a⟩ :: rest =>
      if path.name = "boot_logo.bmp.gz" then anyUpdated md5sum dat rest
      else if path.name = "charging.png" then anyUpdated md5sum dat rest
      else match dat path.name with
        | none => anyUpdated md5sum dat rest
        | some b => if md5sum a ≠ md5sum b then true else anyUpdated md5sum dat rest

def wasUpdated (md5sum : α → σ) (dat : String → Option α)
    (misc : AList fun _ : MiscPath => α) : Bool :=
  if (misc.lookup ⟨none, "charging.png"⟩).isNone then true
  else anyUpdated md5sum dat misc.entries

namespace Console

/-- `/misc/<name>` now has this content. -/
def write (s : Console α) (name : String) (content : α) : Console α :=
  { s with
    misc := s.misc.insert ⟨none, name⟩ content
    logoWritten := s.logoWritten || name == "boot_logo.bmp.gz" }

/-- `cp $SYSTEM_PATH/dat/<name> /misc`. -/
def cp (s : Console α) (name : String) : Cp α → Option (Console α)
  | .copied => (s.dat name).map (s.write name)
  | .failed (some left) => some (s.write name left)
  | .failed none => some s

def setStage (s : Console α) (stage : Stage) : Console α := { s with stage }

/-- One of the copies that have to succeed for the install to go on. -/
def cpThen (s : Console α) (name : String) (outcome : Cp α) (next : Stage) :
    Option (Console α) :=
  (s.cp name outcome).map (·.setStage (if outcome.succeeds then next else .launch))

def step (md5sum : α → σ) (s : Console α) : BootInput α → Option (Console α)
  | .insertZip release =>
      match s.stage with
      | .off => some { s with zip := some release, logoWritten := false }
      | _ => none
  | .power =>
      match s.stage with
      | .off =>
          some { s with
            unzipped := false
            stage := if s.zip.isSome then .unzip else .launch }
      | _ => none
  | .unzip outcome =>
      match s.stage, s.zip with
      | .unzip, some release =>
          some { s with
            dat := release.unzip s.dat outcome
            unzipped := outcome.succeeds
            stage := if outcome.succeeds then .test else .launch }
      | _, _ => none
  | .test =>
      match s.stage with
      | .test =>
          some (s.setStage (if !s.flag || wasUpdated md5sum s.dat s.misc then .dmenu else .rm))
      | _ => none
  | .cp outcome =>
      match s.stage with
      | .dmenu => s.cpThen "dmenu.bin" outcome .ramdisk
      | .ramdisk => s.cpThen "ramdisk.img" outcome .bootLogo
      | .bootLogo =>
          s.cpThen "boot_logo.bmp.gz" outcome
            (if (s.misc.lookup ⟨none, "charging.png"⟩).isNone then .charging else .touch)
      | .charging => (s.cp "charging.png" outcome).map (·.setStage .touch)
      | _ => none
  | .touch succeeds =>
      match s.stage with
      | .touch => some ({ s with flag := s.flag || succeeds }.setStage .reboot)
      | _ => none
  | .reboot status =>
      match s.stage with
      | .reboot =>
          some (s.setStage (match status with
            | none => .off
            | some status => if status then .rm else .launch))
      | _ => none
  | .rm succeeds =>
      match s.stage with
      | .rm => some ({ s with zip := if succeeds then none else s.zip }.setStage .launch)
      | _ => none
  | .powerCut => some (s.setStage .off)

/-- A console that was never installed on. -/
def start (dat : String → Option α) (misc : AList fun _ : MiscPath => α) : Console α where
  zip := none
  dat := dat
  misc := misc
  flag := false
  stage := .off
  unzipped := false
  logoWritten := false

end Console

end Rg35xx

end DarkUI.Boot
