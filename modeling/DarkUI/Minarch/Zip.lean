import DarkUI.Common.Utils
import Mathlib.Algebra.Group.Nat.Defs

/-! # Looking for a game in an archive

Local headers are read one after another, each entry being passed over by its compressed
size, until one is named like a game that the core can open. Reading past the end of the
file gives nothing, and a seek to before its start fails and moves nothing. The `long` of
`fseek` has 32 bits.
-/

namespace DarkUI.Minarch.Zip

open Text

abbrev Bytes := List UInt8

/-- `ZIP_HEADER_SIZE` -/
def headerSize : Nat := 30

def byteAt (bytes : Bytes) (i : Nat) : Nat := (bytes[i]?).elim 0 UInt8.toNat

/-- `ZIP_LE_READ16` -/
def read16 (bytes : Bytes) (i : Nat) : Nat := byteAt bytes i + 2 ^ 8 * byteAt bytes (i + 1)

/-- `ZIP_LE_READ32` -/
def read32 (bytes : Bytes) (i : Nat) : Nat := read16 bytes i + 2 ^ 16 * read16 bytes (i + 2)

/-- A `uint32_t` passed as a `long`. -/
def toLong (n : Nat) : Int := (BitVec.ofNat 32 n).toInt

/-- `fseek` from the current position. -/
def seekCur (position : Nat) (offset : Int) : Nat :=
  if 0 ≤ position + offset then (position + offset).toNat else position

/-- What `fread` finds from a position on. -/
def readAt (content : Bytes) (position size : Nat) : Bytes := (content.drop position).take size

/-- The bytes of a name as C reads them. -/
def nameOf (bytes : Bytes) : CString := untilNul (bytes.map fun b => Char.ofNat b.toNat)

/-- Whether the name ends in one of the extensions, each put together with its dot in an
array of 8 characters until one matches. -/
def isSupported : List CString → CString → Option Bool
  | [], _ => some false
  | ext :: rest, name =>
      if 7 ≤ ext.length then none
      else if suffixMatch ('.' :: ext) name then some true
      else isSupported rest name

/-- What is taken from the header of an entry, and where its data starts. -/
structure Entry where
  name : CString
  method : Nat
  compressedSize : Nat
  data : Nat
  deriving DecidableEq

/-- The entry whose header is at a position, unless the header or the name is cut short, the
name is too long or the sizes follow the data. -/
def entryAt (content : Bytes) (position : Nat) : Option Entry :=
  let header := readAt content position headerSize
  let len := read16 header 26
  let filename := readAt content (position + headerSize) len
  if header.length ≠ headerSize then none
  else if byteAt header 6 &&& 8 ≠ 0 then none
  else if maxPath ≤ len then none
  else if filename.length ≠ len then none
  else some
    { name := nameOf filename
      method := read16 header 8
      compressedSize := read32 header 18
      data := position + headerSize + len + read16 header 28 }

/-- Where the next header is read after an entry. -/
def Entry.next (entry : Entry) : Nat :=
  if entry.compressedSize = 0 then entry.data
  else seekCur entry.data (toLong entry.compressedSize)

/-- One iteration of the loop over the headers. -/
inductive Visit
  | leave
  | found (entry : Entry)
  | overrun
  | skip (position : Nat)
  deriving DecidableEq

def visit (content : Bytes) (extensions : List CString) (position : Nat) : Visit :=
  match entryAt content position with
  | none => .leave
  | some entry =>
      match isSupported extensions entry.name with
      | none => .overrun
      | some true => .found entry
      | some false => .skip entry.next

/-- The loop from a position on, with an entry if one is found. It gives nothing while
iterations are left to do, and when an array is overrun. -/
def scan (content : Bytes) (extensions : List CString) : Nat → Nat → Option (Option Entry)
  | 0, _ => none
  | n + 1, position =>
      match visit content extensions position with
      | .leave => some none
      | .found entry => some (some entry)
      | .overrun => none
      | .skip next => scan content extensions n next

end DarkUI.Minarch.Zip
