import DarkUI.Common.Settings
import DarkUI.Foundation.Run

/-! # Sharing the settings

The processes that share the settings in memory, each at one of the system calls by which
`InitSettingsCore` finds or makes the object they are kept in.
-/

namespace DarkUI

open Run

/-- Where a process is: outside, in `InitSettingsCore` as a client or as the host, and between
that and `QuitSettingsCore`. -/
inductive Sharing
  | out
  /-- The object is there already. -/
  | refused
  /-- Before a turn of the loop that polls its size. -/
  | polling (object : Nat) (i : Nat)
  | ready (object : Nat)
  | created (object : Nat)
  | truncated (object : Nat)
  | mapped (object : Nat)
  /-- The file is not there, or it was not read whole. -/
  | unread (object : Nat)
  | attached (object : Nat) (isHost : Bool)
  | aborted
  deriving DecidableEq, Repr

/-- The next thing a process does, with how its calls end. -/
inductive ShareCall
  | create (fails : Bool)
  | shmOpen (fails : Bool)
  | fstat (fails : Bool)
  | ftruncate (fails : Bool)
  | mmap (fails : Bool)
  /-- `open` and `read` of the settings file, which may return less than was asked for. -/
  | read (content : Option (List UInt8))
  | memcpy
  /-- A byte of the settings is changed. -/
  | store (i : Nat) (value : UInt8)
  | quit
  | kill
  deriving DecidableEq

/-- What `SHM_KEY` names, the objects by their numbers, and the processes. -/
structure Shares (ι : Type*) (size : Nat) where
  name : Option Nat
  objects : Nat → List UInt8
  fresh : Nat
  sharing : ι → Sharing

namespace Shares

variable {ι : Type*} [DecidableEq ι] {size : Nat}

def move (s : Shares ι size) (process : ι) (sharing : Sharing) : Shares ι size :=
  { s with sharing := Function.update s.sharing process sharing }

def fill (s : Shares ι size) (object : Nat) (bytes : List UInt8) : Shares ι size :=
  { s with objects := Function.update s.objects object bytes }

/-- A new object, which is named and empty. -/
def make (s : Shares ι size) : Shares ι size :=
  { s with
    name := some s.fresh
    objects := Function.update s.objects s.fresh []
    fresh := s.fresh + 1 }

def unlink (s : Shares ι size) : Shares ι size := { s with name := none }

/-- What a process does next, if it is the call it comes to. -/
def call (defaults : SettingsImage size) (s : Shares ι size) (process : ι) :
    ShareCall → Option (Shares ι size)
  | .create fails =>
      match s.sharing process with
      | .out =>
          if fails then some (s.move process .aborted)
          else
            match s.name with
            | some _ => some (s.move process .refused)
            | none => some (s.make.move process (.created s.fresh))
      | _ => none
  | .shmOpen fails =>
      match s.sharing process with
      | .refused =>
          match if fails then none else s.name with
          | none => some (s.move process .aborted)
          | some object => some (s.move process (.polling object 0))
      | _ => none
  | .fstat fails =>
      match s.sharing process with
      | .polling object i =>
          if fails = false ∧ (s.objects object).length ≥ size then
            some (s.move process (.ready object))
          else if i + 1 < 200 then some (s.move process (.polling object (i + 1)))
          else some (s.move process .aborted)
      | _ => none
  | .ftruncate fails =>
      match s.sharing process with
      | .created object =>
          if fails then some (s.unlink.move process .aborted)
          else
            let bytes := s.objects object
            some
              ((s.fill object (bytes.take size ++ List.replicate (size - bytes.length) 0)).move
                process (.truncated object))
      | _ => none
  | .mmap fails =>
      match s.sharing process with
      | .truncated object =>
          if fails then some (s.unlink.move process .aborted)
          else some (s.move process (.mapped object))
      | .ready object =>
          if fails then some (s.move process .aborted)
          else some (s.move process (.attached object false))
      | _ => none
  | .read content =>
      match s.sharing process with
      | .mapped object =>
          match content with
          | none => some (s.move process (.unread object))
          | some content =>
              let bytes := content.take size
              let filled := s.fill object (bytes ++ (s.objects object).drop bytes.length)
              if bytes.length < size then some (filled.move process (.unread object))
              else some (filled.move process (.attached object true))
      | _ => none
  | .memcpy =>
      match s.sharing process with
      | .unread object =>
          some ((s.fill object defaults.bytes).move process (.attached object true))
      | _ => none
  | .store i value =>
      match s.sharing process with
      | .attached object _ => some (s.fill object ((s.objects object).set i value))
      | _ => none
  | .quit =>
      match s.sharing process with
      | .attached _ isHost => some ((if isHost then s.unlink else s).move process .out)
      | _ => none
  | .kill => some (s.move process .aborted)

/-- No process has started, and there is no object. -/
def start : Shares ι size := ⟨none, fun _ => [], 0, fun _ => .out⟩

/-- The states that any order of calls leads to, as long as each is allowed. -/
def Runs (defaults : SettingsImage size) (allowed : Shares ι size → ι × ShareCall → Prop) :
    Shares ι size → Prop :=
  Reaches (fun s input => s.call defaults input.1 input.2) allowed start

end Shares

end DarkUI
