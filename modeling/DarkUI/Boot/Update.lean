import Mathlib.Data.List.Basic

/-! # The update archive

What `unzip` and `cp` can leave behind, for the boot scripts of both platforms.
-/

namespace DarkUI.Boot

/-- What `MinUI.zip` has for `.system/<platform>/dat`, with the files that are to be installed
from there. -/
structure Release (needed : List String) (α : Type*) where
  files : String → Option α
  complete : ∀ name ∈ needed, (files name).isSome

/-- How `unzip -o` ends, and what it leaves of the files of the archive when it fails. -/
inductive Unzip (α : Type*)
  | extracted
  | failed (left : String → Option α)

/-- How `cp` ends, and what it leaves in the file when it fails, unless it leaves it alone. -/
inductive Cp (α : Type*)
  | copied
  | failed (left : Option α)

variable {needed : List String} {α : Type*}

def Unzip.succeeds : Unzip α → Bool
  | .extracted => true
  | .failed _ => false

def Cp.succeeds : Cp α → Bool
  | .copied => true
  | .failed _ => false

/-- The `dat` directory after `unzip -o`. -/
def Release.unzip (release : Release needed α) (dat : String → Option α) :
    Unzip α → String → Option α
  | .extracted => fun name => (release.files name).or (dat name)
  | .failed left => fun name => if (release.files name).isSome then left name else dat name

theorem Release.unzip_extracted {release : Release needed α} {dat : String → Option α}
    {name : String} {content : α} (h : release.files name = some content) :
    release.unzip dat .extracted name = some content := by
  simp [unzip, h]

/-- A failed extraction is made up for by one that succeeds. -/
theorem Release.unzip_again {release : Release needed α} {dat : String → Option α}
    (outcome : Unzip α) :
    release.unzip (release.unzip dat outcome) .extracted = release.unzip dat .extracted := by
  funext name
  cases outcome with
  | extracted => cases hname : release.files name <;> simp [unzip, hname]
  | failed left => cases hname : release.files name <;> simp [unzip, hname]

end DarkUI.Boot
