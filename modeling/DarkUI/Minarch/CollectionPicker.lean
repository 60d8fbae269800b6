import DarkUI.Foundation.Folder
import DarkUI.Minarch.Collections
import Mathlib.Data.Char
import Mathlib.Data.List.Lex
import Mathlib.Data.List.Sort

/-! # The picker's rows and what is done with them

The rows are read from the folder of collections when the picker is opened. Each toggles
the game in the collection of its name; a name that is typed joins or creates one.
-/

namespace DarkUI.Minarch.Menu

open Text

/-- The folder of collections on a file system that ignores case. -/
abbrev Collections := Folder lower CString

def txtName (name : CString) : CString := name ++ ".txt".toList

/-- The row that is always there. -/
def favoritesName : CString := "Favorites".toList

def maxCollections : Nat := 128

/-- The files the picker makes a row of. -/
def listed (fileName : CString) : Bool :=
  !(fileName.head? == some '.') && suffixMatch ".txt".toList fileName

/-- A file's name in an array of 128 characters, without the last four of what fits. -/
def collectionBase (fileName : CString) : CString :=
  let base := fileName.take 127
  base.take (base.length - 4)

/-- The names read from the folder, without the row that comes first. -/
def collectionNames (fileNames : List CString) : List CString :=
  (((fileNames.filter listed).map collectionBase).filter (· ≠ favoritesName)).take maxCollections

namespace Collections

variable (dir : Collections)

/-- The rows of `Menu_collections` that toggle a collection. -/
def items : List CString :=
  favoritesName :: (collectionNames dir.names).insertionSort fun first second => first ≤ second

/-- `Menu_inCollection`. -/
def inCollection (name rel : CString) : Bool :=
  match dir.read (txtName name) with
  | none => false
  | some content => (readLines content).any (exactMatch · rel)

/-- Printing the game at the end of a file that is created if it is not there. -/
def add (name rel : CString) : Collections :=
  dir.write (txtName name) ((dir.read (txtName name)).getD [] ++ addedChunk rel)

/-- `Menu_toggleCollection`, if the file it writes can be opened. -/
def toggle (name rel : CString) (fopen : Bool) : Collections :=
  if !fopen then dir
  else if dir.inCollection name rel then
    match dir.read (txtName name) with
    | none => dir
    | some content =>
        let tmp := txtName name ++ ".tmp".toList
        (dir.write tmp (keptChunks content rel).flatten).rename tmp (txtName name)
  else dir.add name rel

end Collections

def keyboard : CString := "ABCDEFGHIJKLMNOPQRSTUVWXYZ0123456789 -_".toList

/-- A name as the keyboard returns it, its letters in any case. -/
abbrev Typed := {name : CollectionName // ∀ c ∈ name.1, c.toUpper ∈ keyboard}

/-- The collection that `Menu_newCollection` joins or creates. -/
def newTarget (typed : CString) : Option CString :=
  let name := typed.rdropWhile (· == ' ')
  if name = [] then none
  else some (if lower name = lower favoritesName then favoritesName else name)

/-- The picker opened for a game. -/
structure Picker where
  dir : Collections
  game : CardPath
  items : List CString

inductive PickerAction
  | openOn (game : CardPath)
  | toggle (row : Nat) (fopen : Bool)
  | newCollection (typed : Typed) (fopen : Bool)

namespace Picker

def opened (dir : Collections) (game : CardPath) : Picker := ⟨dir, game, dir.items⟩

/-- A collection that is typed has the rows read anew. -/
def step (s : Picker) : PickerAction → Option Picker
  | .openOn game => some (opened s.dir game)
  | .toggle row fopen =>
      s.items[row]?.map fun name => { s with dir := s.dir.toggle name s.game.rel fopen }
  | .newCollection typed fopen =>
      match newTarget typed.1.1 with
      | none => some s
      | some name => some (if fopen then opened (s.dir.add name s.game.rel) s.game else s)

end Picker
end DarkUI.Minarch.Menu
