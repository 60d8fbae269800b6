import DarkUI.Foundation.Decimal
import DarkUI.Foundation.Neighbours
import DarkUI.Common.FileSystem
import Mathlib.Data.List.Sort

/-! # What the launcher lists

Each kind of directory has a function of its own that collects its entries: the
root, the recents, a collection, the discs of a game, and a folder on the card.
-/

namespace DarkUI.Minui

open Text

inductive EntryType
  | dir
  | pak
  | rom
  deriving DecidableEq, Repr

/-- `alpha` is an index into the alphas of the directory that lists the entry. -/
structure Entry where
  path : CString
  name : CString
  unique : Option CString
  type : EntryType
  alpha : Nat
  deriving DecidableEq, Repr

/-- `qsort` with `EntryArray_sortEntry`. Entries that compare equal may come out in
either order. -/
structure EntrySort where
  sort : List Entry → List Entry
  perm : ∀ entries, (sort entries).Perm entries
  sorted : ∀ entries, (sort entries).Pairwise fun a b => caseLe a.name b.name

/-- A sort that leaves entries that compare equal in their order. -/
def EntrySort.stable : EntrySort where
  sort := List.insertionSort fun a b => caseLe a.name b.name
  perm entries := List.perm_insertionSort _ entries
  sorted entries :=
    have : Std.Total fun a b : Entry => (caseLe a.name b.name : Prop) :=
      ⟨fun a b => by simpa using caseLe_total a.name b.name⟩
    have : IsTrans Entry fun a b => caseLe a.name b.name := ⟨fun _ _ _ => caseLe_trans⟩
    List.pairwise_insertionSort _ entries

/-- The device, and the sorting of the C library on it. -/
structure Host where
  device : Device
  qsort : EntrySort

variable (host : Host) (fs : FileSystem)

def Entry.new (path : CString) (type : EntryType) : Entry :=
  ⟨path, getDisplayName host.device path, none, type, 0⟩

/-- A path below the card's root, printed into an array of `MAX_PATH`. -/
def sdPath (rel : CString) : CString := bounded maxPath (sdcardPath ++ rel)

/-- A path as the recents keep it, without the card's root. -/
def withoutSdcard (path : CString) : CString := path.drop sdcardPath.length

def hasEmu (emuName : CString) : Bool :=
  fs.exists (bounded maxPath
    (host.device.paksPath ++ "/Emus/".toList ++ emuName ++ ".pak/launch.sh".toList)) ||
  fs.exists (bounded maxPath
    (sdcardPath ++ "/Emus/".toList ++ host.device.platform ++ '/' :: emuName ++
      ".pak/launch.sh".toList))

/-- The `.cue` file that `hasCue` looks for. -/
def cuePath (dirPath : CString) : CString :=
  bounded maxPath (dirPath ++ '/' :: baseName dirPath ++ ".cue".toList)

def hasCue (dirPath : CString) : Bool := fs.exists (cuePath dirPath)

/-- The `.m3u` file that `hasM3u` looks for: in the folder of the ROM, and named
after that folder. -/
def m3uPath (romPath : CString) : CString :=
  basePath romPath ++ baseName (parentPath romPath) ++ ".m3u".toList

def hasM3u (romPath : CString) : Bool := fs.exists (m3uPath romPath)

/-! ## Recents -/

/-- A recently played game, by its path without the card's root. -/
structure Recent where
  path : CString
  «alias» : Option CString
  available : Bool
  deriving DecidableEq, Repr

def Recent.new (path : CString) (aliasName : Option CString) : Recent :=
  ⟨path, aliasName, hasEmu host fs (getEmuName (sdPath path))⟩

def maxRecents : Nat := 24

/-- The files, and the list of recents kept in memory. -/
structure Store where
  fs : FileSystem
  tmp : Tmp
  recents : List Recent

def Recent.line (recent : Recent) : CString :=
  recent.path ++ (recent.alias.elim [] ('\t' :: ·)) ++ ['\n']

def saveRecents (store : Store) : Store :=
  { store with fs := store.fs.putFile recentPath (store.recents.map Recent.line).flatten }

def addRecent (path : CString) (aliasName : Option CString) (store : Store) : Store :=
  let rel := withoutSdcard path
  let recents :=
    match store.recents.find? (exactMatch ·.path rel) with
    | none =>
        Recent.new host store.fs rel aliasName :: store.recents.take (maxRecents - 1)
    | some recent => recent :: store.recents.eraseP (exactMatch ·.path rel)
  saveRecents { store with recents := recents }

/-- What the loop over the recents file has so far. -/
structure RecentsScan where
  recents : List Recent
  parentPaths : List CString
  has : Bool

/-- One line of the recents file. A disc of a game that already has one is skipped. -/
def RecentsScan.line (scan : RecentsScan) (line : CString) : RecentsScan :=
  let (path, aliasName) :=
    match splitFirst '\t' line with
    | some (path, aliasName) => (path, some aliasName)
    | none => (line, none)
  if fs.exists (sdPath path) && scan.recents.length < maxRecents then
    let m3u := hasM3u fs (sdPath path)
    if m3u && scan.parentPaths.any (prefixMatch · (basePath path)) then scan
    else
      let recent := Recent.new host fs path aliasName
      { recents := scan.recents ++ [recent]
        parentPaths := if m3u then scan.parentPaths ++ [basePath path] else scan.parentPaths
        has := scan.has || recent.available }
  else scan

/-- The disc that a running game was changed to, if it still exists. -/
def changedDisc (store : Store) : Option CString :=
  ((store.tmp.changeDisc.map (fileText maxPath)).filter store.fs.exists).map withoutSdcard

def hasRecents (store : Store) : Bool × Store :=
  let start : RecentsScan :=
    match changedDisc store with
    | some disc =>
        let recent := Recent.new host store.fs disc none
        ⟨store.recents ++ [recent], [basePath disc], recent.available⟩
    | none => ⟨store.recents, [], false⟩
  let lines := (store.fs.file recentPath).elim [] nonEmptyLines
  let scan := lines.foldl (RecentsScan.line host store.fs) start
  (scan.has,
    saveRecents ⟨store.fs, { store.tmp with changeDisc := none }, scan.recents⟩)

def recentEntry (recent : Recent) : Entry :=
  let path := sdPath recent.path
  let entry := Entry.new host path (if suffixMatch ".pak".toList path then .pak else .rom)
  { entry with name := recent.alias.getD entry.name }

def getRecents (recents : List Recent) : List Entry :=
  (recents.filter (·.available)).map (recentEntry host)

/-! ## Names from a map -/

/-- Not really a hash: the first of equal keys counts. -/
abbrev Hash := List (CString × CString)

def Hash.get (map : Hash) (key : CString) : Option CString :=
  (map.find? (exactMatch ·.1 key)).map Prod.snd

/-- The lines of a `map.txt` that have a tab. -/
def readMap (content : CString) : Hash := (nonEmptyLines content).filterMap (splitFirst '\t')

/-- The name the map has for an entry's file. -/
def Hash.alias (map : Hash) (entry : Entry) : Option CString := map.get (baseName entry.path)

def Hash.rename (map : Hash) (entry : Entry) : Entry :=
  { entry with name := (map.alias entry).getD entry.name }

/-! ## The root -/

/-- `readdir` over a directory, without the hidden items. -/
def visibleItems (path : CString) : List Dirent :=
  ((fs.opendir path).getD []).filter fun item => !hide item.name

def hasCollections : Bool := fs.exists collectionsPath && visibleItems fs collectionsPath ≠ []

/-- A folder under Roms. -/
def consolePath (item : Dirent) : CString := romsPath ++ '/' :: item.name

def hasRoms (dirName : CString) : Bool :=
  hasEmu host fs (getEmuName dirName) &&
    visibleItems fs (bounded maxPath (romsPath ++ '/' :: dirName ++ ['/'])) ≠ []

/-- The loop that keeps the first of neighbours with one display name. -/
def dropRepeats (emus : List Entry) : List Entry := Neighbours.dedup Entry.name none emus

/-- The console folders the root shows, before any renaming. -/
def consoles : List Entry :=
  let emus := (visibleItems fs romsPath).filter (hasRoms host fs ·.name)
  dropRepeats (host.qsort.sort (emus.map fun item => Entry.new host (consolePath item) .dir))

/-- Hidden names are not supported here. -/
def renameConsoles (entries : List Entry) : List Entry :=
  match fs.file (romsPath ++ "/map.txt".toList) with
  | none => entries
  | some content =>
      let map := readMap content
      let renamed := entries.map map.rename
      if entries.any fun entry => (map.alias entry).isSome then host.qsort.sort renamed
      else renamed

/-- Every item of the collections folder, shown as a folder. -/
def collectionEntries : List Entry :=
  host.qsort.sort ((visibleItems fs collectionsPath).map fun item =>
    Entry.new host (collectionsPath ++ '/' :: item.name) .dir)

def getRoot (simpleMode : Bool) (store : Store) : List Entry × Store :=
  let (has, store) := hasRecents host store
  let fs := store.fs
  let recents := if has then [Entry.new host fauxRecentPath .dir] else []
  let entries := renameConsoles host fs (consoles host fs)
  let collections :=
    if hasCollections fs ∧ entries ≠ [] then [Entry.new host collectionsPath .dir] else []
  -- with no visible system the collections are promoted to the root
  let entries :=
    if hasCollections fs ∧ entries = [] then collectionEntries host fs else entries
  let tools :=
    if fs.exists host.device.toolsPath && !simpleMode then
      [Entry.new host host.device.toolsPath .dir]
    else []
  (recents ++ collections ++ entries ++ tools, store)

/-! ## Collections, discs and folders -/

def collectionEntry (line : CString) : Option Entry :=
  let path := sdPath line
  if fs.exists path && !hide (baseName path) && hasEmu host fs (getEmuName path) then
    some (Entry.new host path (if suffixMatch ".pak".toList path then .pak else .rom))
  else none

def getCollection (path : CString) : List Entry :=
  ((fs.file path).elim [] nonEmptyLines).filterMap (collectionEntry host fs)

/-- The disc that a line of an `.m3u` names. -/
def discPath (m3u line : CString) : CString := bounded maxPath (basePath m3u ++ line)

def getDiscs (path : CString) : List Entry :=
  let lines := (fs.file path).elim [] nonEmptyLines
  let discs := (lines.map (discPath path)).filter fs.exists
  discs.mapIdx fun i disc =>
    { Entry.new host disc .rom with name := "Disc ".toList ++ decimal (i + 1) }

/-- Only the first line counts; without one the array keeps what it held. -/
def getFirstDisc (m3u held : CString) : Bool × CString :=
  match (fs.file m3u).elim [] nonEmptyLines with
  | [] => (false, held)
  | line :: _ => (fs.exists (discPath m3u line), discPath m3u line)

def addedEntry (path : CString) (item : Dirent) : Entry :=
  let full := path ++ '/' :: item.name
  let type :=
    if item.isDir then if suffixMatch ".pak".toList item.name then .pak else .dir
    else if prefixMatch collectionsPath full then .dir
    else .rom
  Entry.new host full type

def addEntries (path : CString) : List Entry :=
  (visibleItems fs path).map (addedEntry host path)

def isConsoleDir (path : CString) : Bool := exactMatch (parentPath path) romsPath

/-- The path up to and including its last opening parenthesis. -/
def collatedPath (path : CString) : CString :=
  match splitLast '(' path with
  | some (stem, _) => stem ++ ['(']
  | none => path

/-- The folders under Roms that are listed together with a console folder. -/
def collatedFolders (path : CString) : List CString :=
  let folders := (visibleItems fs romsPath).filter (·.isDir)
  (folders.map consolePath).filter (prefixMatch (collatedPath path))

def getEntries (path : CString) : List Entry :=
  host.qsort.sort
    (if isConsoleDir path then (collatedFolders fs path).flatMap (addEntries host fs)
    else addEntries host fs path)

end DarkUI.Minui
