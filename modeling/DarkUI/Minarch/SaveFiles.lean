import DarkUI.Common.Utils
import DarkUI.Foundation.Decimal
import DarkUI.Foundation.Stdio

/-! # Save files and collection files written by the emulator front end

SRAM, RTC and save states are written to a `.tmp` file that is then renamed over
the target; so is a collection from which a game is removed. Each I/O step takes
its outcome from the environment.
-/

namespace DarkUI.Minarch

open Text Stdio

/-- A file's bytes are the characters of its text. -/
abbrev Byte := Char

/-- The libretro core, by the tag of its pak and the name of its library. -/
structure Core where
  tag : Buffer 8
  name : Buffer 128

namespace Core

variable (core : Core)

def savesDir : CString := sdcardPath ++ "/Saves/".toList ++ core.tag.1
def statesDir : CString := sharedUserdataPath ++ '/' :: core.tag.1 ++ '-' :: core.name.1

end Core

/-- A name the card's file system can hold. -/
abbrev FileName := Buffer 256

/-- A memory region of the core: its size, and its bytes if the core exposes them. -/
structure Memory where
  size : Nat
  data : Option (List Byte)
  length_data : ∀ bytes ∈ data, bytes.length = size

/-- The temporary name next to a file. -/
def tmpName (filename : CString) : CString := bounded maxPath (filename ++ ".tmp".toList)

theorem tmpName_ne {filename : CString} (h : filename.length + 1 < maxPath) :
    tmpName filename ≠ filename := by
  intro heq
  have hlength := congrArg List.length heq
  simp only [tmpName, bounded, List.length_take, List.length_append, maxPath] at h hlength
  rw [show ".tmp".toList.length = 4 by decide] at hlength
  omega

/-- How the steps that replace a file turn out. -/
structure ReplaceOutcome where
  fopen : Bool
  fwrite : WriteOutcome
  fclose : CloseOutcome
  rename : Bool
  deriving DecidableEq

/-- The body that `SRAM_write` and `RTC_write` share. -/
def memoryWrite (memory : Memory) (filename : CString) (io : ReplaceOutcome)
    (files : Files CString Byte) : Files CString Byte :=
  if memory.size = 0 then files
  else if !io.fopen then files
  else
    match memory.data with
    | none => (files.put (tmpName filename) []).remove (tmpName filename)
    | some bytes =>
        let (written, stream) := Stream.opened.fwrite bytes io.fwrite
        let closed := files.put (tmpName filename) (stream.fclose io.fclose)
        if written = memory.size then
          if io.rename then closed.rename (tmpName filename) filename else closed
        else closed.remove (tmpName filename)

namespace Sram

def getPath (core : Core) (gameName : FileName) : CString :=
  core.savesDir ++ '/' :: gameName.1 ++ ".sav".toList

def write (core : Core) (gameName : FileName) (memory : Memory) :=
  memoryWrite memory (getPath core gameName)

end Sram

namespace Rtc

def getPath (core : Core) (gameName : FileName) : CString :=
  core.savesDir ++ '/' :: gameName.1 ++ ".rtc".toList

def write (core : Core) (gameName : FileName) (memory : Memory) :=
  memoryWrite memory (getPath core gameName)

end Rtc

/-- What the core serializes: nothing when it fails. -/
structure Serializer where
  size : Nat
  image : Option (List Byte)
  length_image : ∀ bytes ∈ image, bytes.length = size

namespace State

/-- `State_getPath`, for any name of a game. -/
def pathOf (core : Core) (gameName : CString) (stateSlot : Int) : CString :=
  core.statesDir ++ '/' :: gameName ++ ".st".toList ++ decimal stateSlot

def getPath (core : Core) (gameName : FileName) (stateSlot : Int) : CString :=
  pathOf core gameName.1 stateSlot

/-- `State_write`: the success flag and the files it leaves. -/
def write (filename : CString) (serializer : Serializer) (calloc : Bool) (io : ReplaceOutcome)
    (files : Files CString Byte) : Bool × Files CString Byte :=
  if serializer.size = 0 then (false, files)
  else if !calloc then (false, files)
  -- from here on the error path removes the temporary file, opened or not
  else if !io.fopen then (false, files.remove (tmpName filename))
  else
    match serializer.image with
    | none => (false, (files.put (tmpName filename) []).remove (tmpName filename))
    | some bytes =>
        let (written, stream) := Stream.opened.fwrite bytes io.fwrite
        let closed := files.put (tmpName filename) (stream.fclose io.fclose)
        if written ≠ serializer.size then (false, closed.remove (tmpName filename))
        else if !io.rename then (false, closed.remove (tmpName filename))
        else (true, closed.rename (tmpName filename) filename)

end State
end DarkUI.Minarch
