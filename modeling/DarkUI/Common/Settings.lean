import DarkUI.Foundation.Disk

/-! # Saving the settings

The processes that share the settings file, each at one of the system calls by which
`SaveSettingsCore` replaces it.
-/

namespace DarkUI

/-- The files of `SaveSettingsCore`: `SettingsPath`, and the one with `.tmp` added. -/
inductive SettingsFile
  | settings | tmp
  deriving DecidableEq, Repr

/-- The settings in memory, of the size they are saved with. -/
structure SettingsImage (size : Nat) where
  bytes : List UInt8
  length_eq : bytes.length = size
  deriving DecidableEq

/-- Where a process is in `SaveSettingsCore`, with its `fd` and whether its `n` is the size. -/
inductive Saving
  | idle
  | opened (fd : Nat)
  | written (fd : Nat) (full : Bool)
  | synced (fd : Nat) (full : Bool)
  | closed (full : Bool)
  | done
  deriving DecidableEq, Repr

/-- The next system call of a process, with what it is given and how it ends. -/
inductive SaveCall (size : Nat)
  | open (succeeds : Bool)
  | write (image : SettingsImage size) (n : Nat)
  | fsync
  | close
  | rename
  | sync
  deriving DecidableEq

/-- The disk, the processes, and every image passed to `write`. -/
structure Saves (ι : Type*) (size : Nat) where
  disk : Disk SettingsFile UInt8
  saving : ι → Saving
  images : List (SettingsImage size)

inductive SaveInput (ι : Type*) (size : Nat)
  | call (process : ι) (call : SaveCall size)
  | powerCut (kept : Nat) (lost : Nat → List UInt8)

namespace Saves

variable {ι : Type*} [DecidableEq ι] {size : Nat}

def setSaving (s : Saves ι size) (process : ι) (saving : Saving) : Saves ι size :=
  { s with saving := Function.update s.saving process saving }

/-- One system call of `SaveSettingsCore`, if it is the one the process comes to. -/
def call (s : Saves ι size) (process : ι) : SaveCall size → Option (Saves ι size)
  | .open succeeds =>
      match s.saving process with
      | .idle =>
          if succeeds then
            let opened := s.disk.openTrunc .tmp
            some ({ s with disk := opened.1 }.setSaving process (.opened opened.2))
          else some s
      | _ => none
  | .write image n =>
      match s.saving process with
      | .opened fd =>
          let written := image.bytes.take n
          some
            ({ s with
                disk := s.disk.write fd written
                images := image :: s.images }.setSaving process
              (.written fd (decide (written.length = size))))
      | _ => none
  | .fsync =>
      match s.saving process with
      | .written fd full =>
          some ({ s with disk := s.disk.fsync fd }.setSaving process (.synced fd full))
      | _ => none
  | .close =>
      match s.saving process with
      | .synced _ full => some (s.setSaving process (.closed full))
      | _ => none
  | .rename =>
      match s.saving process with
      | .closed true =>
          some ({ s with disk := s.disk.rename .tmp .settings }.setSaving process .done)
      | _ => none
  | .sync =>
      match s.saving process with
      | .closed false | .done =>
          some ({ s with disk := s.disk.sync }.setSaving process .idle)
      | _ => none

def step (s : Saves ι size) : SaveInput ι size → Option (Saves ι size)
  | .call process call => s.call process call
  | .powerCut kept lost =>
      some { s with disk := s.disk.powerCut kept lost, saving := fun _ => .idle }

/-- The settings file as it was before any process saves, and no other file in use. -/
def start (previous : Option (List UInt8)) : Saves ι size where
  disk :=
    { data := fun _ => previous.getD []
      synced := fun _ => true
      fresh := 1
      names := fun
        | .settings => previous.map fun _ => 0
        | .tmp => none
      older := [] }
  saving := fun _ => .idle
  images := []

end Saves

end DarkUI
