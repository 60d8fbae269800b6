import DarkUI.Common.Utils
import DarkUI.Foundation.Cells

/-! # The display name in its buffers

`getDisplayName` as it works on the characters of `work_name` and `out_name`. A read or a write
outside an array is undefined, and so is a loop that does not end.
-/

namespace DarkUI.DisplayName

open Text Cells

/-- The `if` on the platform, which cuts the path at its last slash. -/
def hidePlatform (device : Device) (work : List Char) : Option (List Char) := do
  let path ← read work
  if suffixMatch ('/' :: device.platform) path then
    let (parent, _) ← splitLast '/' path
    store work parent.length '\x00'
  else some work

/-- What follows the last slash, if there is one, is copied to `out_name`. -/
def extractName (work out : List Char) : Option (List Char) := do
  let path ← read work
  match splitLast '/' path with
  | some (_, name) => strcpy out name
  | none => some out

/-- The loop that removes extensions, in at most the given number of rounds. -/
def removeExtensions : Nat → List Char → Option (List Char)
  | 0, _ => none
  | rounds + 1, out => do
      let name ← read out
      match splitLast '.' name with
      | some (stem, extension) =>
          if 2 < extension.length + 1 ∧ extension.length + 1 ≤ 5 then
            removeExtensions rounds (← store out stem.length '\x00')
          else some out
      | none => some out

/-- The loop that removes parentheses, in at most the given number of rounds. -/
def removeParens : Nat → List Char → Option (List Char)
  | 0, _ => none
  | rounds + 1, out => do
      let name ← read out
      match lastParen name with
      | some stem =>
          if stem = [] then some out
          else removeParens rounds (← store out stem.length '\x00')
      | none => some out

/-- Back over white space from the last character. The position is the one behind `tmp`, which for
an empty name is in front of the array. -/
def skipSpace (out : List Char) : Nat → Option Nat
  | 0 => some 0
  | position + 1 =>
      if position = 0 then some 1
      else do
        let c ← load out position
        if isSpace c then skipSpace out position else some (position + 1)

/-- `getDisplayName`, with what is in its arrays at first. -/
def run (device : Device) (inName : CString) (workName outName : List Char) :
    Option (List Char) := do
  let work ← strcpy workName inName
  let out ← strcpy outName inName
  let work ← hidePlatform device work
  let out ← extractName work out
  let out ← removeExtensions (out.length + 1) out
  let work ← strcpy work (← read out)
  let out ← removeParens (out.length + 1) out
  let name ← read out
  let out ← if name = [] then strcpy out (← read work) else some out
  let position ← skipSpace out (← read out).length
  store out position '\x00'

end DarkUI.DisplayName
