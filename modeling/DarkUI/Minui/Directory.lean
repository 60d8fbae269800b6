import DarkUI.Foundation.Window
import DarkUI.Minui.Entries

/-! # Open directories

An open directory keeps its entries in memory, with their names from `map.txt`, an
alphabetical index, and the window of rows on the screen.
-/

namespace DarkUI.Minui

open Text

variable (host : Host)

def intArrayMax : Nat := 27

/-- `IntArray_push`, which drops what does not fit. -/
def pushAlpha (alphas : List Nat) (i : Nat) : List Nat :=
  if alphas.length < intArrayMax then alphas ++ [i] else alphas

def getIndexChar (str : CString) : Nat :=
  match str with
  | [] => 0
  | c :: _ =>
      let c := c.toLower
      if 'a' ≤ c ∧ c ≤ 'z' then c.toNat - 'a'.toNat + 1 else 0

def getUniqueName (entry : Entry) : CString :=
  bounded maxPath (entry.name ++ " (".toList ++ getEmuName entry.path ++ [')'])

/-- The labels that tell two neighbours of one name apart. -/
def uniqueNames (prior entry : Entry) : CString × CString :=
  if exactMatch (baseName prior.path) (baseName entry.path) then
    (getUniqueName prior, getUniqueName entry)
  else (baseName prior.path, baseName entry.path)

def markUniqueFrom (prior : Entry) : List Entry → List Entry
  | [] => [prior]
  | entry :: rest =>
      if exactMatch prior.name entry.name then
        { prior with unique := some (uniqueNames prior entry).1 } ::
          markUniqueFrom { entry with unique := some (uniqueNames prior entry).2 } rest
      else prior :: markUniqueFrom entry rest

def markUnique : List Entry → List Entry
  | [] => []
  | entry :: rest => markUniqueFrom entry rest

/-- The part of the indexing loop that starts a new run at each change of the index
character. -/
def indexAlphas (alpha : Option Nat) (index : Nat) (alphas : List Nat) (i : Nat) :
    List Entry → List Entry × List Nat
  | [] => ([], alphas)
  | entry :: rest =>
      let a := getIndexChar entry.name
      let changed := alpha ≠ some a
      let index' := if changed then alphas.length else index
      let alphas' := if changed then pushAlpha alphas i else alphas
      let indexed := indexAlphas (some a) index' alphas' (i + 1) rest
      ({ entry with alpha := index' } :: indexed.1, indexed.2)

/-- The names from the map; a hidden one hides its entry. -/
def applyMap (map : Hash) (entries : List Entry) : List Entry :=
  let renamed := entries.map map.rename
  let resort := entries.any fun entry => (map.alias entry).isSome
  let filter := entries.any fun entry => (map.alias entry).any hide
  let filtered := if filter then renamed.filter fun entry => !hide entry.name else renamed
  if resort then host.qsort.sort filtered else filtered

/-- The map a directory takes its names from; all collections share one. -/
def mapPath (path : CString) : CString :=
  bounded maxPath
    ((if prefixMatch collectionsPath path then collectionsPath else path) ++ "/map.txt".toList)

/-- `Directory_index`: the entries as they are shown, and the alphas. -/
def indexEntries (fs : FileSystem) (path : CString) (entries : List Entry) :
    List Entry × List Nat :=
  let skipIndex := exactMatch fauxRecentPath path || prefixMatch collectionsPath path
  let mapped := (fs.file (mapPath path)).elim entries fun content =>
    applyMap host (readMap content) entries
  let marked := markUnique mapped
  if skipIndex then (marked, []) else indexAlphas none 0 [] 0 marked

structure Directory where
  path : CString
  name : CString
  entries : List Entry
  alphas : List Nat
  window : Window
  deriving DecidableEq

namespace Directory

def selected (directory : Directory) : Int := directory.window.selected

def total (directory : Directory) : Int := directory.entries.length

/-- `entries->items[i]`, undefined outside the array. -/
def item (directory : Directory) (i : Int) : Option Entry :=
  if 0 ≤ i then directory.entries[i.toNat]? else none

/-- `alphas->items[i]`, undefined outside the array. -/
def alphaItem (directory : Directory) (i : Int) : Option Int :=
  if 0 ≤ i then directory.alphas[i.toNat]?.map Int.ofNat else none

/-- The entries of a path other than the root, by the kind of directory it names. -/
def listing (fs : FileSystem) (recents : List Recent) (path : CString) : List Entry :=
  if exactMatch path fauxRecentPath then getRecents host recents
  else if !exactMatch path collectionsPath && prefixMatch collectionsPath path &&
      suffixMatch ".txt".toList path then
    getCollection host fs path
  else if suffixMatch ".m3u".toList path then getDiscs host fs path
  else getEntries host fs path

def load (simpleMode : Bool) (path : CString) (store : Store) : List Entry × Store :=
  if exactMatch path sdcardPath then getRoot host simpleMode store
  else (listing host store.fs store.recents path, store)

/-- `Directory_new` sets only the selection; the caller sets the rest of the window. -/
def new (simpleMode : Bool) (path : CString) (window : Window) (store : Store) :
    Directory × Store :=
  let (entries, store) := load host simpleMode path store
  let (entries, alphas) := indexEntries host store.fs path entries
  (⟨path, getDisplayName host.device path, entries, alphas, window⟩, store)

end Directory

/-! ## The alphabetical index stays inside its arrays -/

/-- Every alpha is the position of an entry, and every entry's index is at most one
past the alphas. -/
structure Indexed (entries : List Entry) (alphas : List Nat) : Prop where
  alpha_le : ∀ entry ∈ entries, entry.alpha ≤ alphas.length
  alphas_lt : ∀ i ∈ alphas, i < entries.length

theorem length_pushAlpha_le (alphas : List Nat) (i : Nat) :
    alphas.length ≤ (pushAlpha alphas i).length := by
  unfold pushAlpha
  split <;> simp

theorem mem_pushAlpha {alphas : List Nat} {i j : Nat} (h : j ∈ pushAlpha alphas i) :
    j ∈ alphas ∨ j = i := by
  unfold pushAlpha at h
  split at h
  next => simpa using h
  next => exact .inl h

theorem length_indexAlphas (alpha : Option Nat) (index : Nat) (alphas : List Nat) (i : Nat)
    (entries : List Entry) :
    (indexAlphas alpha index alphas i entries).1.length = entries.length := by
  induction entries generalizing alpha index alphas i with
  | nil => rfl
  | cons entry rest ih => simp [indexAlphas, ih]

theorem length_alphas_le (alpha : Option Nat) (index : Nat) (alphas : List Nat) (i : Nat)
    (entries : List Entry) :
    alphas.length ≤ (indexAlphas alpha index alphas i entries).2.length := by
  induction entries generalizing alpha index alphas i with
  | nil => exact le_refl _
  | cons entry rest ih =>
      refine le_trans ?_ (ih _ _ _ _)
      split
      next => exact length_pushAlpha_le alphas i
      next => exact le_refl _

theorem alpha_le_of_mem_indexAlphas {alpha : Option Nat} {index i : Nat} {alphas : List Nat}
    {entries : List Entry} (hindex : index ≤ alphas.length) :
    ∀ entry ∈ (indexAlphas alpha index alphas i entries).1,
      entry.alpha ≤ (indexAlphas alpha index alphas i entries).2.length := by
  induction entries generalizing alpha index alphas i with
  | nil => simp [indexAlphas]
  | cons entry rest ih =>
      set a := getIndexChar entry.name with ha
      set index' := if alpha ≠ some a then alphas.length else index with hindex'
      set alphas' := if alpha ≠ some a then pushAlpha alphas i else alphas with halphas'
      have hstep : index' ≤ alphas'.length := by
        rw [hindex', halphas']
        split
        next => exact length_pushAlpha_le alphas i
        next => exact hindex
      have htail := length_alphas_le (some a) index' alphas' (i + 1) rest
      have hresult : indexAlphas alpha index alphas i (entry :: rest) =
          ({ entry with alpha := index' } ::
            (indexAlphas (some a) index' alphas' (i + 1) rest).1,
            (indexAlphas (some a) index' alphas' (i + 1) rest).2) := rfl
      rw [hresult]
      intro other hother
      rcases List.mem_cons.mp hother with rfl | hother
      · exact le_trans hstep htail
      · exact ih hstep other hother

theorem alphas_lt_of_mem_indexAlphas {alpha : Option Nat} {index i : Nat} {alphas : List Nat}
    {entries : List Entry} (halphas : ∀ j ∈ alphas, j < i + entries.length) :
    ∀ j ∈ (indexAlphas alpha index alphas i entries).2, j < i + entries.length := by
  induction entries generalizing alpha index alphas i with
  | nil => simpa [indexAlphas] using halphas
  | cons entry rest ih =>
      intro j hj
      have hlength : i + (entry :: rest).length = i + 1 + rest.length := by
        simp only [List.length_cons]
        omega
      rw [hlength] at halphas ⊢
      refine ih ?_ j hj
      intro k hk
      split at hk
      next =>
        rcases mem_pushAlpha hk with hk | rfl
        · exact halphas k hk
        · omega
      next => exact halphas k hk

/-- Labels tell neighbours apart and change nothing else. -/
theorem map_markUniqueFrom {β : Type*} {f : Entry → β}
    (hf : ∀ entry label, f { entry with unique := label } = f entry) (prior : Entry)
    (entries : List Entry) : (markUniqueFrom prior entries).map f = f prior :: entries.map f := by
  induction entries generalizing prior with
  | nil => rfl
  | cons entry rest ih =>
      unfold markUniqueFrom
      split <;> simp [ih, hf]

theorem map_markUnique {β : Type*} {f : Entry → β}
    (hf : ∀ entry label, f { entry with unique := label } = f entry) (entries : List Entry) :
    (markUnique entries).map f = entries.map f := by
  cases entries with
  | nil => rfl
  | cons entry rest => exact map_markUniqueFrom hf entry rest

theorem length_markUnique (entries : List Entry) :
    (markUnique entries).length = entries.length := by
  have h := congrArg List.length (@map_markUnique _ Entry.alpha (fun _ _ => rfl) entries)
  simpa using h

/-! ## What listing and naming preserve -/

section Listings

variable {host} {P : Entry → Prop} {entries : List Entry}

theorem forall_sort (h : ∀ entry ∈ entries, P entry) :
    ∀ entry ∈ host.qsort.sort entries, P entry :=
  fun entry hentry => h entry ((host.qsort.perm entries).mem_iff.mp hentry)

theorem forall_rename (hname : ∀ entry name, P entry → P { entry with name := name })
    (h : ∀ entry ∈ entries, P entry) (map : Hash) :
    ∀ entry ∈ entries.map map.rename, P entry := by
  intro entry hentry
  obtain ⟨original, horiginal, rfl⟩ := List.mem_map.mp hentry
  exact hname original _ (h original horiginal)

theorem forall_applyMap (hname : ∀ entry name, P entry → P { entry with name := name })
    (h : ∀ entry ∈ entries, P entry) (map : Hash) :
    ∀ entry ∈ applyMap host map entries, P entry := by
  have hrenamed := forall_rename hname h map
  have hfiltered : ∀ entry ∈
      (if entries.any fun entry => (map.alias entry).any hide then
        (entries.map map.rename).filter fun entry => !hide entry.name
      else entries.map map.rename), P entry := by
    split
    next => exact fun entry hentry => hrenamed entry (List.mem_of_mem_filter hentry)
    next => exact hrenamed
  unfold applyMap
  dsimp only
  split
  next => exact forall_sort hfiltered
  next => exact hfiltered

theorem forall_consoles (fs : FileSystem)
    (hname : ∀ entry name, P entry → P { entry with name := name })
    (hconsole : ∀ name, P (Entry.new host (romsPath ++ '/' :: name) .dir)) :
    ∀ entry ∈ renameConsoles host fs (consoles host fs), P entry := by
  have hbase : ∀ entry ∈ consoles host fs, P entry := by
    intro entry hentry
    refine forall_sort (fun entry hentry => ?_) entry
      (Neighbours.mem_of_mem_dedup hentry)
    obtain ⟨item, _, rfl⟩ := List.mem_map.mp hentry
    exact hconsole item.name
  unfold renameConsoles
  split
  next => exact hbase
  next =>
    dsimp only
    split
    next => exact forall_sort (forall_rename hname hbase _)
    next => exact forall_rename hname hbase _

/-- What holds of each kind of entry of the root holds of all of them. -/
theorem forall_getRoot (simpleMode : Bool) (store : Store)
    (hname : ∀ entry name, P entry → P { entry with name := name })
    (hrecents : P (Entry.new host fauxRecentPath .dir))
    (hcollections : P (Entry.new host collectionsPath .dir))
    (hconsole : ∀ name, P (Entry.new host (romsPath ++ '/' :: name) .dir))
    (hcollection : ∀ name, P (Entry.new host (collectionsPath ++ '/' :: name) .dir))
    (htools : P (Entry.new host host.device.toolsPath .dir)) :
    ∀ entry ∈ (getRoot host simpleMode store).1, P entry := by
  have hnil : ∀ entry ∈ ([] : List Entry), P entry := by simp
  unfold getRoot
  dsimp only
  simp only [List.forall_mem_append]
  refine ⟨⟨⟨?_, ?_⟩, ?_⟩, ?_⟩
  · split
    next => simpa using hrecents
    next => exact hnil
  · split
    next => simpa using hcollections
    next => exact hnil
  · split
    next =>
      refine forall_sort fun entry hentry => ?_
      obtain ⟨item, _, rfl⟩ := List.mem_map.mp hentry
      exact hcollection item.name
    next => exact forall_consoles _ hname hconsole
  · split
    next => simpa using htools
    next => exact hnil

/-- Recents, collections and discs list no folders; a folder lists its own items, and
a console folder those of the folders collated with it. -/
theorem forall_listing (fs : FileSystem) (recents : List Recent) (path : CString)
    (hname : ∀ entry name, P entry → P { entry with name := name })
    (hfile : ∀ path type, type ≠ .dir → P (Entry.new host path type))
    (hitem : ∀ item, P (addedEntry host path item))
    (hcollated : ∀ name item, P (addedEntry host (romsPath ++ '/' :: name) item)) :
    ∀ entry ∈ Directory.listing host fs recents path, P entry := by
  unfold Directory.listing
  split
  next =>
    intro entry hentry
    obtain ⟨recent, _, rfl⟩ := List.mem_map.mp hentry
    refine hname _ _ (hfile _ _ ?_)
    split <;> decide
  next =>
    split
    next =>
      intro entry hentry
      obtain ⟨line, _, hline⟩ := List.mem_filterMap.mp hentry
      unfold collectionEntry at hline
      dsimp only at hline
      split at hline
      next =>
        cases hline
        refine hfile _ _ ?_
        split <;> decide
      next => cases hline
    next =>
      split
      next =>
        intro entry hentry
        obtain ⟨i, _, rfl⟩ := List.mem_mapIdx.mp hentry
        exact hname _ _ (hfile _ _ (by decide))
      next =>
        -- a folder is read once, or once for each folder of its console
        refine forall_sort fun entry hentry => ?_
        split at hentry
        next =>
          obtain ⟨folder, hfolder, hentry⟩ := List.mem_flatMap.mp hentry
          obtain ⟨item, _, rfl⟩ := List.mem_map.mp hentry
          obtain ⟨dirent, _, rfl⟩ := List.mem_map.mp (List.mem_of_mem_filter hfolder)
          exact hcollated dirent.name item
        next =>
          obtain ⟨item, _, rfl⟩ := List.mem_map.mp hentry
          exact hitem item

end Listings

/-- Before indexing no entry has a place in the alphas. -/
theorem Directory.load_alpha (simpleMode : Bool) (path : CString) (store : Store) :
    ∀ entry ∈ (Directory.load host simpleMode path store).1, entry.alpha = 0 := by
  unfold Directory.load
  split
  next =>
    exact forall_getRoot simpleMode store (fun _ _ h => h) rfl rfl (fun _ => rfl) (fun _ => rfl) rfl
  next =>
    exact forall_listing store.fs store.recents path (fun _ _ h => h) (fun _ _ _ => rfl)
      (fun _ => rfl) fun _ _ => rfl

theorem indexEntries_indexed (fs : FileSystem) (path : CString) {entries : List Entry}
    (h : ∀ entry ∈ entries, entry.alpha = 0) :
    Indexed (indexEntries host fs path entries).1 (indexEntries host fs path entries).2 := by
  unfold indexEntries
  dsimp only
  set mapped := (fs.file (mapPath path)).elim entries fun content =>
    applyMap host (readMap content) entries with hmapped
  have hunindexed : ∀ entry ∈ mapped, entry.alpha = 0 := by
    rw [hmapped]
    cases fs.file (mapPath path) with
    | none => exact h
    | some content => exact forall_applyMap (fun _ _ halpha => halpha) h _
  split
  next =>
    refine ⟨fun entry hentry => ?_, by simp⟩
    have hmem : entry.alpha ∈ (markUnique mapped).map Entry.alpha := List.mem_map_of_mem hentry
    rw [map_markUnique fun _ _ => rfl] at hmem
    obtain ⟨original, horiginal, heq⟩ := List.mem_map.mp hmem
    rw [← heq, hunindexed original horiginal]
    exact Nat.zero_le _
  next =>
    refine ⟨alpha_le_of_mem_indexAlphas (Nat.zero_le _), fun i hi => ?_⟩
    have hlt := alphas_lt_of_mem_indexAlphas (i := 0) (by simp) i hi
    rw [length_indexAlphas]
    simpa using hlt

/-- An open directory is indexed. -/
theorem Directory.new_indexed (simpleMode : Bool) (path : CString) (window : Window)
    (store : Store) :
    Indexed (Directory.new host simpleMode path window store).1.entries
      (Directory.new host simpleMode path window store).1.alphas :=
  indexEntries_indexed host _ path (Directory.load_alpha host simpleMode path store)

theorem map_indexAlphas {β : Type*} {f : Entry → β}
    (hf : ∀ entry alpha, f { entry with alpha := alpha } = f entry) (alpha : Option Nat)
    (index : Nat) (alphas : List Nat) (i : Nat) (entries : List Entry) :
    (indexAlphas alpha index alphas i entries).1.map f = entries.map f := by
  induction entries generalizing alpha index alphas i with
  | nil => rfl
  | cons entry rest ih => simp [indexAlphas, ih, hf]

/-- The entries with the names from the directory's map. -/
def mappedEntries (fs : FileSystem) (path : CString) (entries : List Entry) : List Entry :=
  (fs.file (mapPath path)).elim entries fun content => applyMap host (readMap content) entries

/-- Indexing keeps the files, their types and their names. -/
theorem map_indexEntries {β : Type*} {f : Entry → β}
    (hunique : ∀ entry label, f { entry with unique := label } = f entry)
    (halpha : ∀ entry alpha, f { entry with alpha := alpha } = f entry) (fs : FileSystem)
    (path : CString) (entries : List Entry) :
    (indexEntries host fs path entries).1.map f = (mappedEntries host fs path entries).map f := by
  unfold indexEntries
  dsimp only
  split
  next => exact map_markUnique hunique _
  next => exact (map_indexAlphas halpha _ _ _ _ _).trans (map_markUnique hunique _)

theorem forall_indexEntries {P : CString → EntryType → Prop} (fs : FileSystem) (path : CString)
    {entries : List Entry} (h : ∀ entry ∈ entries, P entry.path entry.type) :
    ∀ entry ∈ (indexEntries host fs path entries).1, P entry.path entry.type := by
  have hmapped : ∀ entry ∈ mappedEntries host fs path entries, P entry.path entry.type := by
    unfold mappedEntries
    cases fs.file (mapPath path) with
    | none => exact h
    | some content => exact forall_applyMap (fun _ _ hP => hP) h _
  intro entry hentry
  have hmem := List.mem_map_of_mem (f := fun entry : Entry => (entry.path, entry.type)) hentry
  rw [map_indexEntries host (fun _ _ => rfl) fun _ _ => rfl] at hmem
  obtain ⟨original, horiginal, heq⟩ := List.mem_map.mp hmem
  obtain ⟨hpath, htype⟩ := Prod.mk.inj heq
  rw [← hpath, ← htype]
  exact hmapped original horiginal

end DarkUI.Minui
