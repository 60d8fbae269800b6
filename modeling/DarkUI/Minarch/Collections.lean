import DarkUI.Minarch.SaveFiles

/-! # The collections picker

A collection is a text file with one card path a line.
-/

namespace DarkUI.Minarch.Menu

open Text Stdio

/-- A collection's name, as the picker and the keyboard can hold it. -/
abbrev CollectionName := Buffer 128

def collectionPath (name : CollectionName) : CString :=
  bounded maxPath (collectionsPath ++ '/' :: name.1 ++ ".txt".toList)

/-- `Menu_inCollection`. -/
def inCollection (files : Files CString Char) (name : CollectionName) (rel : CString) : Bool :=
  match files (collectionPath name) with
  | none => false
  | some content => (readLines content).any (exactMatch · rel)

/-- The lines the removal writes back. -/
def keptLines (content rel : CString) : List CString :=
  (readLines content).filter fun line => line ≠ [] ∧ ¬ exactMatch line rel

/-- What the removal prints: each kept line and a newline. -/
def keptChunks (content rel : CString) : List CString := (keptLines content rel).map (· ++ ['\n'])

/-- What is printed when a game is added. -/
def addedChunk (rel : CString) : CString := rel ++ ['\n']

/-- How the steps of the removal turn out. -/
structure RemoveOutcome where
  fopen : Bool
  fprintf : Nat → WriteOutcome
  fclose : CloseOutcome
  rename : Bool

/-- The removal branch of `Menu_toggleCollection`. -/
def removeFromCollection (name : CollectionName) (rel : CString) (io : RemoveOutcome)
    (files : Files CString Char) : Files CString Char :=
  let path := collectionPath name
  if !inCollection files name rel then files
  else
    match files path with
    | none => files
    | some content =>
        if !io.fopen then files
        else
          let stream := Stream.opened.writeAll (keptChunks content rel) io.fprintf
          let closed := files.put (tmpName path) (stream.fclose io.fclose)
          if io.rename then closed.rename (tmpName path) path else closed

/-- How the steps of an addition turn out. -/
structure AddOutcome where
  fopen : Bool
  fprintf : WriteOutcome
  fclose : CloseOutcome

/-- Printing at the end of a collection, which is there from then on. -/
def addToCollection (name : CollectionName) (rel : CString) (io : AddOutcome)
    (files : Files CString Char) : Files CString Char :=
  let path := collectionPath name
  if !io.fopen then files
  else
    let stream : Stream Char := ⟨(files path).getD [], []⟩
    files.put path ((stream.fwrite (addedChunk rel) io.fprintf).2.fclose io.fclose)

structure ToggleOutcome where
  remove : RemoveOutcome
  add : AddOutcome

/-- `Menu_toggleCollection`. -/
def toggleCollection (name : CollectionName) (rel : CString) (io : ToggleOutcome)
    (files : Files CString Char) : Files CString Char :=
  if inCollection files name rel then removeFromCollection name rel io.remove files
  else addToCollection name rel io.add files

/-- The lines of a collection that `getCollection` looks at. -/
def collectionLines (files : Files CString Char) (name : CollectionName) : List CString :=
  (files (collectionPath name)).elim [] nonEmptyLines

end DarkUI.Minarch.Menu
