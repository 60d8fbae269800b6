import DarkUI.Minui.CollationLaws

/-! # The order of a collection

A collection is listed in the order of its file. Names from the map have the list sorted
anew, so the order stays only where it is that of the names too.
-/

namespace DarkUI.Minui

open Text

/-- The names are in order, and those that compare equal are of one file. -/
def InOrder (a b : Entry) : Prop :=
  caseLe a.name b.name ∧ (caseLe b.name a.name → a.path = b.path)

instance : DecidableRel InOrder := fun _ _ => inferInstanceAs (Decidable (_ ∧ _))

theorem eq_of_map_eq {α β : Type*} {f : α → β} {first second : List α}
    (hinj : ∀ a ∈ first, ∀ b ∈ second, f a = f b → a = b) (h : first.map f = second.map f) :
    first = second := by
  induction first generalizing second with
  | nil => exact (List.map_eq_nil_iff.mp h.symm).symm
  | cons a first ih =>
      cases second with
      | nil => cases h
      | cons b second =>
          rw [List.map_cons, List.map_cons, List.cons.injEq] at h
          have hhead := hinj a List.mem_cons_self b List.mem_cons_self h.1
          have htail := ih (fun x hx y hy => hinj x (List.mem_cons_of_mem _ hx) y
            (List.mem_cons_of_mem _ hy)) h.2
          rw [hhead, htail]

/-- However it treats equal names, the sort leaves the files where they are. -/
theorem sort_keeps_iff {entries : List Entry}
    (hpath : ∀ a ∈ entries, ∀ b ∈ entries, a.path = b.path → a = b) :
    (∀ qsort : EntrySort, (qsort.sort entries).map Entry.path = entries.map Entry.path) ↔
      entries.Pairwise InOrder := by
  constructor
  · intro h
    rw [List.pairwise_iff_forall_sublist]
    intro a b hsub
    -- of equal names, the sort may put the file of `b` first
    let rank (entry : Entry) : Nat := if entry.path = b.path then 0 else 1
    have hsame : (EntrySort.byRank rank).sort entries = entries := by
      apply eq_of_map_eq _ (h (EntrySort.byRank rank))
      intro x hx y hy
      exact hpath x (((EntrySort.byRank rank).perm entries).mem_iff.mp hx) y hy
    have hsorted := EntrySort.byRank_pairwise rank entries
    rw [hsame] at hsorted
    have hle : rankLe rank a b := List.pairwise_iff_forall_sublist.mp hsorted hsub
    refine ⟨hle.1, fun htie => ?_⟩
    by_contra hne
    have hrank := hle.2 htie
    simp [rank, hne] at hrank
  · intro hordered qsort
    let Tied (a b : Entry) : Prop := caseLe a.name b.name → caseLe b.name a.name → a.path = b.path
    have htied : ∀ a ∈ entries, ∀ b ∈ entries, Tied a b := by
      intro a ha b hb
      apply List.Pairwise.forall_of_forall_of_flip (fun a _ _ _ => rfl) _ _ ha hb
      · exact hordered.imp fun hab _ hba => hab.2 hba
      · exact hordered.imp fun hab hba _ => (hab.2 hba).symm
    have hsame : qsort.sort entries = entries := by
      apply List.Perm.eq_of_pairwise _ (qsort.sorted entries) (hordered.imp fun hab => hab.1)
        (qsort.perm entries)
      intro a b ha hb hab hba
      have hmem := (qsort.perm entries).mem_iff.mp ha
      exact hpath a hmem b hb (htied a hmem b hb hab hba)
    rw [hsame]

/-! ## Names from a map -/

/-- The entries whose aliases do not hide them. -/
def visible (map : Hash) (entries : List Entry) : List Entry :=
  entries.filter fun entry => !(map.alias entry).any hide

/-- If a file has an alias, none without one is hidden by its display name because of an alias
that hides another, and the files are in the order of their names. -/
def NamesInOrder (map : Hash) (entries : List Entry) : Prop :=
  (∃ entry ∈ entries, (map.alias entry).isSome) →
    ((∃ entry ∈ entries, (map.alias entry).any hide) →
      ∀ entry ∈ entries, map.alias entry = none → hide entry.name = false) ∧
    ((visible map entries).map map.rename).Pairwise InOrder

section Applying

variable {map : Hash} {entries : List Entry}

theorem path_rename (map : Hash) (entries : List Entry) :
    (entries.map map.rename).map Entry.path = entries.map Entry.path := by
  rw [List.map_map]
  rfl

/-- The test an entry passes before the list is sorted. -/
def stays (map : Hash) (entries : List Entry) (entry : Entry) : Bool :=
  !(entries.any fun entry => (map.alias entry).any hide) || !hide (map.rename entry).name

theorem applyMap_eq (host : Host) :
    applyMap host map entries =
      if entries.any fun entry => (map.alias entry).isSome then
        host.qsort.sort ((entries.filter (stays map entries)).map map.rename)
      else (entries.filter (stays map entries)).map map.rename := by
  have hstays : (if entries.any fun entry => (map.alias entry).any hide then
      (entries.map map.rename).filter fun entry => !hide entry.name
      else entries.map map.rename) = (entries.filter (stays map entries)).map map.rename := by
    split
    next hhidden =>
      rw [List.filter_map]
      congr 1
      apply List.filter_congr
      intro entry _
      simp [stays, hhidden]
    next hnone =>
      rw [List.filter_eq_self.mpr]
      intro entry _
      rw [stays, Bool.eq_false_iff.mpr hnone]
      rfl
  unfold applyMap
  dsimp only
  rw [hstays]

/-- An entry whose alias hides it does not stay. -/
theorem not_hidden_of_stays {entry : Entry} (hmem : entry ∈ entries)
    (hstays : stays map entries entry) : (map.alias entry).any hide = false := by
  cases halias : map.alias entry with
  | none => rfl
  | some aliasName =>
      by_contra hhide
      have hhidden : (entries.any fun entry => (map.alias entry).any hide) = true :=
        List.any_eq_true.mpr ⟨entry, hmem, by simpa [halias] using hhide⟩
      rw [stays, hhidden, Hash.rename, halias] at hstays
      simp at hstays hhide
      simp [hhide] at hstays

theorem filter_stays_sublist :
    (entries.filter (stays map entries)).Sublist (visible map entries) := by
  have heq : entries.filter (stays map entries) =
      (visible map entries).filter (stays map entries) := by
    rw [visible, List.filter_filter]
    apply List.filter_congr
    intro entry hmem
    cases hstays : stays map entries entry with
    | false => simp
    | true => simp [not_hidden_of_stays hmem hstays]
  rw [heq]
  exact List.filter_sublist

theorem filter_stays_iff :
    entries.filter (stays map entries) = visible map entries ↔
      ((∃ entry ∈ entries, (map.alias entry).any hide) →
        ∀ entry ∈ entries, map.alias entry = none → hide entry.name = false) := by
  constructor
  · intro h hhidden entry hmem hnone
    have hvisible : entry ∈ visible map entries :=
      List.mem_filter.mpr ⟨hmem, by simp [hnone]⟩
    rw [← h] at hvisible
    have hstays := (List.mem_filter.mp hvisible).2
    have hany : (entries.any fun entry => (map.alias entry).any hide) = true :=
      List.any_eq_true.mpr hhidden
    simpa [stays, hany, Hash.rename, hnone] using hstays
  · intro h
    apply List.filter_congr
    intro entry hmem
    cases hstays : stays map entries entry with
    | true => simp [not_hidden_of_stays hmem hstays]
    | false =>
        -- an entry that does not stay is hidden by its alias
        simp only [stays, Bool.or_eq_false_iff, Bool.not_eq_false', List.any_eq_true] at hstays
        obtain ⟨hany, hhide⟩ := hstays
        cases halias : map.alias entry with
        | none =>
            rw [Hash.rename, halias, Option.getD_none, h hany entry hmem halias] at hhide
            cases hhide
        | some aliasName =>
            rw [Hash.rename, halias, Option.getD_some] at hhide
            simp [hhide]

/-- With names from the map, the files stay in their order just when the names are in it. -/
theorem applyMap_keeps_iff (device : Device)
    (hpath : ∀ a ∈ entries, ∀ b ∈ entries, a.path = b.path → a = b) :
    (∀ qsort, (applyMap ⟨device, qsort⟩ map entries).map Entry.path =
        (visible map entries).map Entry.path) ↔ NamesInOrder map entries := by
  have hrenamed : ∀ a ∈ (visible map entries).map map.rename,
      ∀ b ∈ (visible map entries).map map.rename, a.path = b.path → a = b := by
    intro a ha b hb hab
    obtain ⟨x, hx, rfl⟩ := List.mem_map.mp ha
    obtain ⟨y, hy, rfl⟩ := List.mem_map.mp hb
    rw [hpath x (List.mem_filter.mp hx).1 y (List.mem_filter.mp hy).1 hab]
  simp only [applyMap_eq]
  unfold NamesInOrder
  by_cases hresort : ∃ entry ∈ entries, (map.alias entry).isSome
  · have hany : (entries.any fun entry => (map.alias entry).isSome) = true := by
      simpa using hresort
    rw [← filter_stays_iff, ← sort_keeps_iff hrenamed]
    simp only [if_pos hany, hresort, true_implies]
    constructor
    · intro h
      have hlength := congrArg List.length (h .stable)
      rw [List.length_map, List.length_map, (EntrySort.stable.perm _).length_eq,
        List.length_map] at hlength
      have hsame := filter_stays_sublist.eq_of_length hlength
      refine ⟨hsame, fun qsort => ?_⟩
      rw [← hsame, path_rename, hsame]
      exact hsame ▸ h qsort
    · rintro ⟨hsame, h⟩ qsort
      rw [hsame, h qsort, path_rename]
  · have hany : ¬ (entries.any fun entry => (map.alias entry).isSome) = true := by
      simpa using hresort
    have hsame : entries.filter (stays map entries) = visible map entries := by
      rw [filter_stays_iff]
      rintro ⟨entry, hmem, hhide⟩
      obtain ⟨aliasName, halias, -⟩ := (Option.any_eq_true _ _).mp hhide
      exact absurd ⟨entry, hmem, by rw [halias]; rfl⟩ hresort
    refine iff_of_true (fun qsort => ?_) fun haliased => absurd haliased hresort
    rw [if_neg hany, path_rename, hsame]

/-- The entries that stay, under their new names. -/
theorem mem_applyMap {host : Host} {shown : Entry} : shown ∈ applyMap host map entries ↔
    ∃ entry ∈ entries, stays map entries entry ∧ map.rename entry = shown := by
  have hmem : shown ∈ (entries.filter (stays map entries)).map map.rename ↔
      ∃ entry ∈ entries, stays map entries entry ∧ map.rename entry = shown := by
    simp only [List.mem_map, List.mem_filter, and_assoc]
  rw [applyMap_eq, ← hmem]
  split
  next => exact (host.qsort.perm _).mem_iff
  next => exact Iff.rfl

end Applying

/-- The names an open directory takes from its map. -/
def openMap (fs : FileSystem) (path : CString) : Hash := (fs.file (mapPath path)).elim [] readMap

theorem mappedEntries_eq (host : Host) (fs : FileSystem) (path : CString) (entries : List Entry) :
    mappedEntries host fs path entries = applyMap host (openMap fs path) entries := by
  rw [mappedEntries, openMap]
  cases fs.file (mapPath path) with
  | some content => rfl
  | none =>
      have hnone (entry : Entry) : Hash.alias [] entry = none := rfl
      have hrename : Hash.rename [] = id := rfl
      simp [applyMap, hnone, hrename]

/-! ## An open collection -/

/-- A path that is opened as a collection. -/
structure CollectionPath (path : CString) : Prop where
  below : prefixMatch collectionsPath path
  file : exactMatch path collectionsPath = false
  txt : suffixMatch ".txt".toList path

variable (host : Host) (fs : FileSystem)

/-- The lines of a collection's file. -/
def collectionLines (path : CString) : List CString := (fs.file path).elim [] nonEmptyLines

/-- The names that all collections share. -/
def collectionsMap : Hash :=
  (fs.file (collectionsPath ++ "/map.txt".toList)).elim [] readMap

/-- The file is there, neither its name nor its alias hides it, and it has an emulator. -/
def Shown (line : CString) : Bool :=
  fs.exists (sdPath line) && !hide (baseName (sdPath line)) &&
    hasEmu host fs (getEmuName (sdPath line)) &&
    !((collectionsMap fs).get (baseName (sdPath line))).any hide

/-- The opened collection shows its lines in their order. -/
def InFileOrder (simpleMode : Bool) (path : CString) (window : Window) (store : Store) : Prop :=
  (Directory.new host simpleMode path window store).1.entries.map Entry.path =
    ((collectionLines store.fs path).filter (Shown host store.fs)).map sdPath

section Opened

variable {host} {fs} {path : CString}

/-- An entry of a collection is known by its path. -/
theorem getCollection_inj : ∀ a ∈ getCollection host fs path, ∀ b ∈ getCollection host fs path,
    a.path = b.path → a = b := by
  have hnew : ∀ entry ∈ getCollection host fs path, entry = Entry.new host entry.path
      (if suffixMatch ".pak".toList entry.path then .pak else .rom) := by
    intro entry hentry
    obtain ⟨line, -, hline⟩ := List.mem_filterMap.mp hentry
    unfold collectionEntry at hline
    dsimp only at hline
    split at hline
    next =>
      cases hline
      rfl
    next => cases hline
  intro a ha b hb hab
  rw [hnew a ha, hnew b hb, hab]

/-- The lines that are shown are the entries their aliases do not hide. -/
theorem visible_paths : (visible (collectionsMap fs) (getCollection host fs path)).map Entry.path =
    ((collectionLines fs path).filter (Shown host fs)).map sdPath := by
  unfold visible getCollection
  change ((List.filterMap _ (collectionLines fs path)).filter _).map _ = _
  induction collectionLines fs path with
  | nil => rfl
  | cons line lines ih =>
      by_cases hfound : (fs.exists (sdPath line) && !hide (baseName (sdPath line)) &&
          hasEmu host fs (getEmuName (sdPath line))) = true
      · have hentry : collectionEntry host fs line = some (Entry.new host (sdPath line)
            (if suffixMatch ".pak".toList (sdPath line) then .pak else .rom)) := if_pos hfound
        have hkept : Shown host fs line =
            !((collectionsMap fs).get (baseName (sdPath line))).any hide := by
          rw [Shown, hfound, Bool.true_and]
        rw [List.filterMap_cons, hentry, List.filter_cons, List.filter_cons, hkept]
        change List.map Entry.path
          (if (!((collectionsMap fs).get (baseName (sdPath line))).any hide) then _ else _) = _
        split
        next => exact congrArg (sdPath line :: ·) ih
        next => exact ih
      · have hentry : collectionEntry host fs line = none := if_neg hfound
        have hkept : ¬ Shown host fs line := fun h => hfound (Bool.and_eq_true_iff.mp h).1
        rw [List.filterMap_cons, hentry, List.filter_cons_of_neg hkept]
        exact ih

theorem openMap_collection (h : CollectionPath path) : openMap fs path = collectionsMap fs := by
  have hpath : mapPath path = collectionsPath ++ "/map.txt".toList := by
    rw [mapPath, if_pos h.below]
    exact bounded_of_lt (by decide)
  rw [openMap, hpath, collectionsMap]

theorem InFileOrder.iff_mapped (h : CollectionPath path) {simpleMode : Bool} {window : Window}
    {store : Store} :
    InFileOrder host simpleMode path window store ↔
      (applyMap host (collectionsMap store.fs) (getCollection host store.fs path)).map Entry.path =
        (visible (collectionsMap store.fs) (getCollection host store.fs path)).map Entry.path := by
  have hroot : exactMatch path sdcardPath = false := by
    rw [exactMatch, beq_eq_false_iff_ne]
    rintro rfl
    exact absurd h.below (by decide)
  have hrecents : exactMatch path fauxRecentPath = false := by
    rw [exactMatch, beq_eq_false_iff_ne]
    rintro rfl
    exact absurd h.below (by decide)
  have hlisting : Directory.load host simpleMode path store =
      (getCollection host store.fs path, store) := by
    simp only [Directory.load, Directory.listing, hroot, hrecents, h.file, h.below, h.txt,
      Bool.not_false, Bool.and_true, Bool.false_eq_true, if_true, if_false]
  have hfiles := @map_indexEntries host _ Entry.path (fun _ _ => rfl) (fun _ _ => rfl) store.fs path
    (getCollection host store.fs path)
  rw [mappedEntries_eq, openMap_collection h] at hfiles
  unfold InFileOrder
  rw [visible_paths, Directory.new, hlisting]
  exact iff_of_eq (congrArg (· = _) hfiles)

end Opened

/-- Whatever the collection and the map hold, and however the sort treats equal names, the
opened collection is in the order of its lines just when no file of it has an alias, or the
names are in order too. -/
theorem collection_inFileOrder_iff {device : Device} {simpleMode : Bool} {path : CString}
    (hpath : CollectionPath path) (window : Window) (store : Store) :
    (∀ qsort, InFileOrder ⟨device, qsort⟩ simpleMode path window store) ↔
      NamesInOrder (collectionsMap store.fs) (getCollection ⟨device, .stable⟩ store.fs path) := by
  rw [← applyMap_keeps_iff device getCollection_inj]
  exact forall_congr' fun qsort => InFileOrder.iff_mapped hpath

/-! ## A series with an alias -/

def seriesPath : CString := "/mnt/sdcard/Collections/Metroid series.txt".toList

/-- Two games in a collection, with the given map beside it. -/
def seriesCard (map : CString) : Store :=
  ⟨.ofLists
    [(seriesPath, "/Roms/GBA/Zero Mission.gba\n/Roms/GB/Metroid II.gb\n".toList),
      ("/mnt/sdcard/Collections/map.txt".toList, map),
      ("/mnt/sdcard/Roms/GBA/Zero Mission.gba".toList, []),
      ("/mnt/sdcard/Roms/GB/Metroid II.gb".toList, []),
      ("/mnt/sdcard/.system/rg35xx/paks/Emus/GBA.pak/launch.sh".toList, []),
      ("/mnt/sdcard/.system/rg35xx/paks/Emus/GB.pak/launch.sh".toList, [])] [],
    .empty, []⟩

theorem seriesPath_collection : CollectionPath seriesPath :=
  ⟨by decide, by decide, by decide⟩

instance (map : Hash) (entries : List Entry) : Decidable (NamesInOrder map entries) :=
  inferInstanceAs (Decidable (_ → _))

/-- An alias that is in its place among the names. -/
theorem series_inFileOrder : InFileOrder ⟨rg35xx, .stable⟩ false seriesPath ⟨0, 0, 0⟩
    (seriesCard "Metroid II.gb\tZero Mission II\n".toList) :=
  (collection_inFileOrder_iff seriesPath_collection ⟨0, 0, 0⟩ _).mpr (by decide +kernel) .stable

/-- An alias has the whole series sorted by name. -/
theorem series_sorted :
    (Directory.new ⟨rg35xx, .stable⟩ false seriesPath ⟨0, 0, 0⟩
        (seriesCard "Metroid II.gb\tMetroid 2\n".toList)).1.entries.map Entry.path =
      ["/mnt/sdcard/Roms/GB/Metroid II.gb".toList,
        "/mnt/sdcard/Roms/GBA/Zero Mission.gba".toList] ∧
    ¬ InFileOrder ⟨rg35xx, .stable⟩ false seriesPath ⟨0, 0, 0⟩
      (seriesCard "Metroid II.gb\tMetroid 2\n".toList) := by
  constructor
  · decide +kernel
  · unfold InFileOrder
    decide +kernel

end DarkUI.Minui
