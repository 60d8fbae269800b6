import DarkUI.Boot.Update

/-! # Updating an RG35XXPLUS

`boot.sh` and the `install.sh` it runs, one command at a time. The boot logo and the log are left
out: neither decides what becomes of the archive.
-/

namespace DarkUI.Boot.Rg35xxplus

/-- The file `install.sh` copies to `$TF1_PATH`. -/
def installed : List String := ["dmenu.bin"]

/-- The next command of the scripts. -/
inductive Stage
  | off
  | unzip
  | dmenu
  | cube
  | rm
  | launch
  deriving DecidableEq, Repr

structure Console (α : Type*) where
  zip : Option (Release installed α)
  /-- The files in `$SYSTEM_PATH/dat`. -/
  dat : String → Option α
  /-- `$TF1_PATH/dmenu.bin`. -/
  dmenu : Option α
  /-- `$CUBE_PATH` is a directory. -/
  cube : Bool
  /-- `$SRC_PATH`, its configs, is a directory. -/
  cubeUserdata : Bool
  stage : Stage
  /-- `unzip` succeeded in this boot. -/
  unzipped : Bool

inductive BootInput (α : Type*)
  | insertZip (release : Release installed α)
  | power
  | unzip (outcome : Unzip α)
  | cp (outcome : Cp α)
  /-- The directories of the old cube system are removed, with what is left of them, and the
  status of `reboot` unless the console goes down. -/
  | cube (cubeLeft userdataLeft : Bool) (status : Option Bool)
  | rm (succeeds : Bool)
  | powerCut

namespace Console

variable {α : Type*}

def setStage (s : Console α) (stage : Stage) : Console α := { s with stage }

/-- `cp $SYSTEM_PATH/dat/dmenu.bin $TF1_PATH`. -/
def cp (s : Console α) : Cp α → Option (Console α)
  | .copied => (s.dat "dmenu.bin").map fun content => { s with dmenu := some content }
  | .failed (some left) => some { s with dmenu := some left }
  | .failed none => some s

def step (s : Console α) : BootInput α → Option (Console α)
  | .insertZip release =>
      match s.stage with
      | .off => some { s with zip := some release }
      | _ => none
  | .power =>
      match s.stage with
      | .off =>
          some { s with
            unzipped := false
            stage := if s.zip.isSome then .unzip else .launch }
      | _ => none
  | .unzip outcome =>
      match s.stage, s.zip with
      | .unzip, some release =>
          some { s with
            dat := release.unzip s.dat outcome
            unzipped := outcome.succeeds
            stage := if outcome.succeeds then .dmenu else .launch }
      | _, _ => none
  | .cp outcome =>
      match s.stage with
      | .dmenu => (s.cp outcome).map (·.setStage (if outcome.succeeds then .cube else .launch))
      | _ => none
  | .cube cubeLeft userdataLeft status =>
      match s.stage with
      | .cube =>
          if !s.cube then some (s.setStage .rm)
          else if !s.cubeUserdata then some ({ s with cube := cubeLeft }.setStage .rm)
          else
            some ({ s with cube := cubeLeft, cubeUserdata := userdataLeft }.setStage
              (match status with
                | none => .off
                | some status => if status then .rm else .launch))
      | _ => none
  | .rm succeeds =>
      match s.stage with
      | .rm => some ({ s with zip := if succeeds then none else s.zip }.setStage .launch)
      | _ => none
  | .powerCut => some (s.setStage .off)

/-- A console without an archive. -/
def start (dat : String → Option α) (dmenu : Option α) (cube cubeUserdata : Bool) :
    Console α where
  zip := none
  dat := dat
  dmenu := dmenu
  cube := cube
  cubeUserdata := cubeUserdata
  stage := .off
  unzipped := false

end Console

end DarkUI.Boot.Rg35xxplus
