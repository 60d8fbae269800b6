import DarkUI.Common.Utils

/-! # The files the programs see

The card keeps the games, the collections and what is remembered about them. A few
files in `/tmp` pass notes between the launcher, the emulators and the launch script.
-/

namespace DarkUI

open Text

/-- What `readdir` returns of an item: its name, and whether its `d_type` is `DT_DIR`. -/
structure Dirent where
  name : CString
  isDir : Bool
  deriving DecidableEq, Repr

/-- What `getFile` leaves in an array of the given size. -/
def fileText (size : Nat) (content : CString) : CString := untilNul (content.take (size - 1))

/-- A short text comes back as it was written. -/
theorem fileText_of_fits {size : Nat} {content : CString} (hlength : content.length < size)
    (hnul : '\x00' ∉ content) : fileText size content = content := by
  rw [fileText, List.take_of_length_le (by omega), untilNul_eq_self hnul]

/-- The base that `%i` reads from the front of a number, and the digits after it. -/
def scanBase : CString → Nat × CString
  | '0' :: 'x' :: digits => (16, digits)
  | '0' :: 'X' :: digits => (16, digits)
  | '0' :: digits => (8, digits)
  | digits => (10, digits)

/-- The value of a digit, if it is one in the base. -/
def digitValue (base : Nat) (c : Char) : Option Nat :=
  let value :=
    if c.isDigit then some (c.toNat - '0'.toNat)
    else if c.isAlpha then some (c.toLower.toNat - 'a'.toNat + 10)
    else none
  value.filter (· < base)

def scanDigits (base acc : Nat) : CString → Nat
  | [] => acc
  | c :: rest =>
      match digitValue base c with
      | some value => scanDigits base (acc * base + value) rest
      | none => acc

/-- The number that `fscanf` with `%i` finds, and 0 if it finds none. -/
def scanInt (content : CString) : Int :=
  match content.dropWhile isSpace with
  | '-' :: rest => -((scanDigits (scanBase rest).1 0 (scanBase rest).2 : Nat) : Int)
  | '+' :: rest => (scanDigits (scanBase rest).1 0 (scanBase rest).2 : Nat)
  | rest => (scanDigits (scanBase rest).1 0 (scanBase rest).2 : Nat)

/-- The readable files of the card by path, and the directories with their items in the order
`readdir` finds them. -/
structure FileSystem where
  file : CString → Option CString
  dir : CString → Option (List Dirent)

namespace FileSystem

/-- A card with the listed files and directories. -/
def ofLists (files : List (CString × CString)) (dirs : List (CString × List Dirent)) :
    FileSystem where
  file path := files.lookup path
  dir path := dirs.lookup path

variable (fs : FileSystem)

def «exists» (path : CString) : Bool := (fs.file path).isSome || (fs.dir path).isSome

/-- `opendir`, which takes a path with a slash after it too. -/
def opendir (path : CString) : Option (List Dirent) :=
  match path.getLast? with
  | some '/' => fs.dir path.dropLast
  | _ => fs.dir path

/-- `getFile` into an array of the given size, if the file can be opened. -/
def getFile (path : CString) (size : Nat) : Option CString := (fs.file path).map (fileText size)

def getInt (path : CString) : Int := (fs.file path).elim 0 scanInt

def putFile (path contents : CString) : FileSystem :=
  { fs with file := Function.update fs.file path (some contents) }

/-- `unlink` of a file. -/
def unlink (path : CString) : FileSystem where
  file := Function.update fs.file path none
  dir parent := (fs.dir parent).map fun items =>
    if parent = parentPath path then items.filter (·.name ≠ baseName path) else items

variable {fs} {path other contents : CString}

@[simp] theorem putFile_dir : (fs.putFile path contents).dir = fs.dir := rfl

@[simp] theorem putFile_self : (fs.putFile path contents).file path = some contents := by
  simp [putFile]

theorem putFile_of_ne (h : other ≠ path) :
    (fs.putFile path contents).file other = fs.file other := by
  simp [putFile, h]

end FileSystem

/-- The notes in `/tmp`: `last.txt`, `change_disc.txt`, `resume_slot.txt` and `next`. The
launch script removes the last one before it starts the launcher. -/
structure Tmp where
  last : Option CString
  changeDisc : Option CString
  resumeSlot : Option CString
  next : Option CString

def Tmp.empty : Tmp := ⟨none, none, none, none⟩

end DarkUI
