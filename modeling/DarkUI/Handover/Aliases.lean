import DarkUI.Minui.CollectionLaws

/-! # A game's name in the lists and in its menu

The in-game menu reads the map of the game's own folder. A folder that is opened takes all
names from its own map, also those of files from the folders collated with it.
-/

namespace DarkUI

open Text

namespace Minarch.Menu

/-- The loop of `getAlias` over the lines that are not empty. -/
def findAlias (fileName : CString) : List CString → Option CString
  | [] => none
  | line :: rest =>
      match splitFirst '\t' line with
      | some (key, value) =>
          if exactMatch fileName key then some value else findAlias fileName rest
      | none => findAlias fileName rest

/-- The name `getAlias` copies, if it finds one. -/
def getAlias (fs : FileSystem) (path : CString) : Option CString :=
  let mapPath := basePath path ++ "map.txt".toList
  if fs.exists mapPath then
    (fs.file mapPath).bind fun content => findAlias (baseName path) (nonEmptyLines content)
  else none

end Minarch.Menu

namespace Minui

open Minarch

/-- What the map in a file's own folder calls it. -/
def ownAlias (fs : FileSystem) (path : CString) : Option CString :=
  Hash.get ((fs.file (parentPath path ++ "/map.txt".toList)).elim [] readMap) (baseName path)

/-- A path whose list is that of a folder on the card. -/
structure FolderPath (path : CString) : Prop where
  root : exactMatch path sdcardPath = false
  recents : exactMatch path fauxRecentPath = false
  outside : prefixMatch collectionsPath path = false
  m3u : suffixMatch ".m3u".toList path = false

section Listing

variable (host : Host) (simpleMode : Bool) (path : CString) (window : Window) (store : Store)

/-- The names under which the opened folder shows a file. -/
def shownNames (file : CString) : List CString :=
  ((Directory.new host simpleMode path window store).1.entries.filter (·.path = file)).map
    Entry.name

/-- The opened folder shows the file, if at all, under the name its own folder gives it,
which is that of the in-game menu, and not at all if that name starts with a dot. -/
structure AliasShown (file : CString) : Prop where
  visible : ∀ aliasName, ownAlias store.fs file = some aliasName → hide aliasName = false →
    Menu.getAlias store.fs file = some aliasName ∧
      ∀ name ∈ shownNames host simpleMode path window store file, name = aliasName
  hidden : ∀ aliasName, ownAlias store.fs file = some aliasName → aliasName.head? = some '.' →
    shownNames host simpleMode path window store file = []

end Listing

/-! ## What a map says of a file -/

/-- The first line that begins with the file's name and a tab goes on with the alias. -/
inductive Says (fileName aliasName : CString) : List CString → Prop
  | here (rest : List CString) (hname : '\t' ∉ fileName) :
      Says fileName aliasName ((fileName ++ '\t' :: aliasName) :: rest)
  | later {line : CString} {rest : List CString} (hline : ¬fileName ++ ['\t'] <+: line)
      (h : Says fileName aliasName rest) : Says fileName aliasName (line :: rest)

/-- The map at a path has an alias for a file. -/
def MapSays (fs : FileSystem) (map file aliasName : CString) : Prop :=
  ∃ content, fs.file map = some content ∧ Says (baseName file) aliasName (nonEmptyLines content)

/-- The map of an opened folder hides one of the files that are listed. -/
def HidesSome (host : Host) (fs : FileSystem) (path : CString) : Prop :=
  ∃ entry ∈ getEntries host fs path, ∃ aliasName, MapSays fs (mapPath path) entry.path aliasName ∧
    hide aliasName

/-- The map of the opened folder has the alias of the file's own folder, or one that hides the
file. Where it has none for the file, the name on the card is that alias, or is hidden
because the map hides something. An alias that starts with a dot leaves only the hidden names. -/
structure MapsAgree (host : Host) (fs : FileSystem) (path file aliasName : CString) : Prop where
  visible : hide aliasName = false → ∀ other, MapSays fs (mapPath path) file other →
    other = aliasName ∨ hide other
  unnamed : hide aliasName = false → (∀ other, ¬MapSays fs (mapPath path) file other) →
    getDisplayName host.device file = aliasName ∨
      hide (getDisplayName host.device file) ∧ HidesSome host fs path
  hidden : aliasName.head? = some '.' → ∀ other, MapSays fs (mapPath path) file other → hide other
  hiddenUnnamed : aliasName.head? = some '.' →
    (∀ other, ¬MapSays fs (mapPath path) file other) →
      hide (getDisplayName host.device file) ∧ HidesSome host fs path

/-- The opened folder's map agrees with what the file's own folder's map says of it, if that says
anything. -/
def AliasAgrees (host : Host) (fs : FileSystem) (path file : CString) : Prop :=
  ∀ aliasName, MapSays fs (parentPath file ++ "/map.txt".toList) file aliasName →
    MapsAgree host fs path file aliasName

theorem startsWith_iff {fileName line : CString} (hname : '\t' ∉ fileName) :
    fileName ++ ['\t'] <+: line ↔ ∃ value, splitFirst '\t' line = some (fileName, value) := by
  constructor
  · rintro ⟨value, rfl⟩
    exact ⟨value, by rw [List.append_assoc, List.singleton_append, splitFirst_append hname]⟩
  · rintro ⟨value, h⟩
    exact ⟨value, by rw [(splitFirst_eq_some h).1, List.append_assoc, List.singleton_append]⟩

theorem Says.no_tab {fileName aliasName : CString} {lines : List CString}
    (h : Says fileName aliasName lines) : '\t' ∉ fileName := by
  induction h with
  | here _ hname => exact hname
  | later _ _ ih => exact ih

theorem says_cons_of_other {fileName aliasName line : CString} {rest : List CString}
    (hline : ¬∃ value, splitFirst '\t' line = some (fileName, value)) :
    Says fileName aliasName (line :: rest) ↔ Says fileName aliasName rest := by
  constructor
  · intro h
    cases h with
    | here _ hname => exact absurd ⟨aliasName, splitFirst_append hname⟩ hline
    | later _ h => exact h
  · intro h
    exact .later (mt (startsWith_iff h.no_tab).mp hline) h

theorem says_cons_of_key {key value aliasName : CString} {rest : List CString}
    (hkey : '\t' ∉ key) :
    Says key aliasName ((key ++ '\t' :: value) :: rest) ↔ value = aliasName := by
  constructor
  · intro h
    generalize hline : key ++ '\t' :: value = line at h
    cases h with
    | here => exact (List.cons.inj (List.append_cancel_left hline)).2
    | later hnot =>
        rw [← hline] at hnot
        exact absurd ((startsWith_iff hkey).mpr ⟨value, splitFirst_append hkey⟩) hnot
  · rintro rfl
    exact .here rest hkey

/-- The readers keep the first line for a key. -/
theorem get_eq_some_iff {fileName aliasName : CString} {lines : List CString} :
    Hash.get (lines.filterMap (splitFirst '\t')) fileName = some aliasName ↔
      Says fileName aliasName lines := by
  induction lines with
  | nil =>
      have hnone : Hash.get [] fileName = none := rfl
      rw [List.filterMap_nil, hnone]
      constructor
      · intro h
        cases h
      · intro h
        cases h
  | cons line rest ih =>
      cases hsplit : splitFirst '\t' line with
      | none =>
          rw [List.filterMap_cons_none hsplit, ih, says_cons_of_other (by simp [hsplit])]
      | some pair =>
          obtain ⟨key, value⟩ := pair
          rw [List.filterMap_cons_some hsplit, Hash.get, List.find?_cons]
          by_cases heq : key = fileName
          · subst heq
            obtain ⟨rfl, hkey⟩ := splitFirst_eq_some hsplit
            have hmatch : exactMatch key key = true := beq_self_eq_true key
            rw [hmatch, Option.map_some, Option.some.injEq, says_cons_of_key hkey]
          · have hmatch : exactMatch key fileName = false := beq_eq_false_iff_ne.mpr heq
            rw [hmatch, says_cons_of_other (by simp [hsplit, heq]), ← ih]
            rfl

theorem mapSays_iff {fs : FileSystem} {map file aliasName : CString} :
    Hash.get ((fs.file map).elim [] readMap) (baseName file) = some aliasName ↔
      MapSays fs map file aliasName := by
  unfold MapSays
  cases fs.file map with
  | none =>
      have hnone : Hash.get [] (baseName file) = none := rfl
      rw [Option.elim_none, hnone]
      constructor
      · intro h
        cases h
      · rintro ⟨_, h, -⟩
        cases h
  | some content =>
      rw [Option.elim_some, readMap, get_eq_some_iff]
      constructor
      · exact fun h => ⟨content, rfl, h⟩
      · rintro ⟨_, heq, h⟩
        cases heq
        exact h

/-! ## The in-game menu -/

theorem findAlias_eq (fileName : CString) (lines : List CString) :
    Menu.findAlias fileName lines = Hash.get (lines.filterMap (splitFirst '\t')) fileName := by
  induction lines with
  | nil => rfl
  | cons line rest ih =>
      unfold Menu.findAlias
      cases hsplit : splitFirst '\t' line with
      | none => rw [List.filterMap_cons_none hsplit, ih]
      | some pair =>
          rw [List.filterMap_cons_some hsplit, Hash.get, List.find?_cons]
          have hsymm : exactMatch fileName pair.1 = exactMatch pair.1 fileName := by
            simp [exactMatch, eq_comm]
          cases hkey : exactMatch pair.1 fileName with
          | true => simp [hsymm, hkey]
          | false =>
              simp only [hsymm, hkey, Bool.false_eq_true, if_false]
              exact ih

/-- The menu takes the name from the map of the file's own folder. -/
theorem getAlias_eq (fs : FileSystem) {path : CString} (hslash : '/' ∈ path) :
    Menu.getAlias fs path = ownAlias fs path := by
  have hbase : basePath path ++ "map.txt".toList = parentPath path ++ "/map.txt".toList := by
    unfold basePath parentPath
    cases hsplit : splitLast '/' path with
    | none => exact absurd hslash (splitLast_eq_none.mp hsplit)
    | some pair => simp
  unfold Menu.getAlias ownAlias
  dsimp only
  rw [hbase, FileSystem.exists]
  cases hfile : fs.file (parentPath path ++ "/map.txt".toList) with
  | none =>
      have hnone : Hash.get [] (baseName path) = none := rfl
      simp [hnone]
  | some content => simp [findAlias_eq, readMap]

/-! ## An opened folder -/

section Opened

variable {host : Host} {simpleMode : Bool} {path file : CString} {window : Window} {store : Store}

/-- The entries of a folder are named after their files. -/
theorem name_of_mem_getEntries {fs : FileSystem} {entry : Entry}
    (h : entry ∈ getEntries host fs path) :
    entry.name = getDisplayName host.device entry.path ∧ '/' ∈ entry.path := by
  have hadded (parent : CString) (item : Dirent) :
      (addedEntry host parent item).name =
          getDisplayName host.device (addedEntry host parent item).path ∧
        '/' ∈ (addedEntry host parent item).path :=
    ⟨rfl, List.mem_append_right _ List.mem_cons_self⟩
  rw [getEntries, (host.qsort.perm _).mem_iff] at h
  split at h
  next =>
    obtain ⟨folder, -, h⟩ := List.mem_flatMap.mp h
    obtain ⟨item, -, rfl⟩ := List.mem_map.mp h
    exact hadded folder item
  next =>
    obtain ⟨item, -, rfl⟩ := List.mem_map.mp h
    exact hadded path item

/-- Entries of one file are treated alike. -/
theorem rename_name_eq {fs : FileSystem} {map : Hash} {first second : Entry}
    (hfirst : first ∈ getEntries host fs path) (hsecond : second ∈ getEntries host fs path)
    (h : first.path = second.path) : (map.rename first).name = (map.rename second).name := by
  rw [Hash.rename, Hash.rename, Hash.alias, Hash.alias, h, (name_of_mem_getEntries hfirst).1,
    (name_of_mem_getEntries hsecond).1, h]

/-- A file is shown under the name from the opened folder's map, if it stays there. -/
theorem mem_shownNames (hpath : FolderPath path) {name : CString} :
    name ∈ shownNames host simpleMode path window store file ↔
      ∃ entry ∈ getEntries host store.fs path,
        stays (openMap store.fs path) (getEntries host store.fs path) entry ∧
          entry.path = file ∧ ((openMap store.fs path).rename entry).name = name := by
  have hload : Directory.load host simpleMode path store =
      (getEntries host store.fs path, store) := by
    simp only [Directory.load, Directory.listing, hpath.root, hpath.recents, hpath.outside,
      hpath.m3u, Bool.and_false, Bool.false_and, Bool.false_eq_true, if_false]
  have hshown := @map_indexEntries host _ (fun entry => (entry.path, entry.name)) (fun _ _ => rfl)
    (fun _ _ => rfl) store.fs path (getEntries host store.fs path)
  rw [mappedEntries_eq] at hshown
  have hmem : name ∈ shownNames host simpleMode path window store file ↔
      (file, name) ∈ (applyMap host (openMap store.fs path)
        (getEntries host store.fs path)).map fun entry => (entry.path, entry.name) := by
    rw [← hshown, shownNames, Directory.new, hload]
    simp only [List.mem_map, List.mem_filter, decide_eq_true_eq, Prod.mk.injEq, and_assoc]
  rw [hmem, List.mem_map]
  constructor
  · rintro ⟨shown, hshown, heq⟩
    obtain ⟨entry, hentry, hstays, rfl⟩ := mem_applyMap.mp hshown
    obtain ⟨hfile, hname⟩ := Prod.mk.inj heq
    exact ⟨entry, hentry, hstays, hfile, hname⟩
  · rintro ⟨entry, hentry, hstays, hfile, hname⟩
    exact ⟨_, mem_applyMap.mpr ⟨entry, hentry, hstays, rfl⟩, Prod.ext hfile hname⟩

/-- The launcher's pass over the entries leaves the file its alias, or takes it out. -/
def Renamed (host : Host) (fs : FileSystem) (path : CString) (entry : Entry)
    (aliasName : CString) : Prop :=
  let stays := stays (openMap fs path) (getEntries host fs path) entry
  (hide aliasName = false → stays → ((openMap fs path).rename entry).name = aliasName) ∧
    (aliasName.head? = some '.' → stays = false)

/-- The list shows the file under its alias if the pass leaves it so. -/
theorem aliasShown_iff_renamed {entry : Entry} (hpath : FolderPath path)
    (hentry : entry ∈ getEntries host store.fs path) :
    AliasShown host simpleMode path window store entry.path ↔
      ∀ aliasName, ownAlias store.fs entry.path = some aliasName →
        Renamed host store.fs path entry aliasName := by
  have hsame {other : Entry} (hother : other ∈ getEntries host store.fs path)
      (hfile : other.path = entry.path) :
      stays (openMap store.fs path) (getEntries host store.fs path) other =
          stays (openMap store.fs path) (getEntries host store.fs path) entry ∧
        ((openMap store.fs path).rename other).name =
          ((openMap store.fs path).rename entry).name := by
    have hname := @rename_name_eq host path store.fs (openMap store.fs path) _ _ hother hentry hfile
    exact ⟨by rw [stays, stays, hname], hname⟩
  constructor
  · intro h aliasName hown
    refine ⟨fun hvisible hstays => ?_, fun hdot => ?_⟩
    · apply (h.visible aliasName hown hvisible).2
      exact (mem_shownNames hpath).mpr ⟨entry, hentry, hstays, rfl, rfl⟩
    · by_contra hstays
      have hshown := (@mem_shownNames host simpleMode path entry.path window store hpath _).mpr
        ⟨entry, hentry, Bool.eq_true_of_not_eq_false hstays, rfl, rfl⟩
      rw [h.hidden aliasName hown hdot] at hshown
      exact List.not_mem_nil hshown
  · intro h
    refine ⟨fun aliasName hown hvisible => ⟨?_, fun name hname => ?_⟩,
      fun aliasName hown hdot => ?_⟩
    · rw [getAlias_eq store.fs (name_of_mem_getEntries hentry).2, hown]
    · obtain ⟨other, hother, hstays, hfile, rfl⟩ := (mem_shownNames hpath).mp hname
      obtain ⟨hstaysEq, hnameEq⟩ := hsame hother hfile
      rw [hnameEq]
      exact (h aliasName hown).1 hvisible (hstaysEq ▸ hstays)
    · apply List.eq_nil_iff_forall_not_mem.mpr
      intro name hname
      obtain ⟨other, hother, hstays, hfile, -⟩ := (mem_shownNames hpath).mp hname
      rw [(hsame hother hfile).1, (h aliasName hown).2 hdot] at hstays
      cases hstays

theorem hidesSome_iff {fs : FileSystem} :
    ((getEntries host fs path).any fun entry => ((openMap fs path).alias entry).any hide) = true ↔
      HidesSome host fs path := by
  simp only [List.any_eq_true, Option.any_eq_true, Hash.alias, openMap, mapSays_iff, HidesSome]

/-- A file that the opened folder's map names is taken out just when that name hides it. -/
theorem renamed_said {fs : FileSystem} {entry : Entry} {aliasName other : CString}
    (hentry : entry ∈ getEntries host fs path)
    (hsaid : MapSays fs (mapPath path) entry.path other) :
    Renamed host fs path entry aliasName ↔
      (hide aliasName = false → other = aliasName ∨ hide other) ∧
        (aliasName.head? = some '.' → hide other) := by
  have halias : (openMap fs path).alias entry = some other := mapSays_iff.mpr hsaid
  have hname : ((openMap fs path).rename entry).name = other := by
    rw [Hash.rename, halias, Option.getD_some]
  have hstays : stays (openMap fs path) (getEntries host fs path) entry = !hide other := by
    rw [stays, hname]
    cases hhide : hide other with
    | false => simp
    | true =>
        rw [hidesSome_iff.mpr ⟨entry, hentry, other, hsaid, hhide⟩]
        rfl
  unfold Renamed
  rw [hstays, hname]
  cases hide other with
  | false => simp
  | true => simp

/-- A file that it does not name keeps its own name, and is taken out if that hides it and the
map hides something. -/
theorem renamed_unsaid {fs : FileSystem} {entry : Entry} {aliasName : CString}
    (hentry : entry ∈ getEntries host fs path)
    (hsaid : ∀ other, ¬MapSays fs (mapPath path) entry.path other) :
    Renamed host fs path entry aliasName ↔
      (hide aliasName = false → getDisplayName host.device entry.path = aliasName ∨
        hide (getDisplayName host.device entry.path) ∧ HidesSome host fs path) ∧
      (aliasName.head? = some '.' →
        hide (getDisplayName host.device entry.path) ∧ HidesSome host fs path) := by
  have halias : (openMap fs path).alias entry = none := by
    rw [Option.eq_none_iff_forall_ne_some]
    exact fun other h => hsaid other (mapSays_iff.mp h)
  have hname : ((openMap fs path).rename entry).name = getDisplayName host.device entry.path := by
    rw [Hash.rename, halias, Option.getD_none, (name_of_mem_getEntries hentry).1]
  have hstays : stays (openMap fs path) (getEntries host fs path) entry = false ↔
      hide (getDisplayName host.device entry.path) ∧ HidesSome host fs path := by
    rw [stays, hname, ← hidesSome_iff]
    simp [and_comm]
  unfold Renamed
  rw [hname, ← hstays]
  cases stays (openMap fs path) (getEntries host fs path) entry with
  | false => simp
  | true => simp

/-- The pass leaves the file its alias just when the maps agree. -/
theorem renamed_iff {fs : FileSystem} {entry : Entry} {aliasName : CString}
    (hentry : entry ∈ getEntries host fs path) :
    Renamed host fs path entry aliasName ↔ MapsAgree host fs path entry.path aliasName := by
  by_cases hsaid : ∃ other, MapSays fs (mapPath path) entry.path other
  · obtain ⟨other, hother⟩ := hsaid
    have hunique {name : CString} (h : MapSays fs (mapPath path) entry.path name) :
        name = other :=
      Option.some.inj ((mapSays_iff.mpr h).symm.trans (mapSays_iff.mpr hother))
    rw [renamed_said hentry hother]
    constructor
    · rintro ⟨hvisible, hhidden⟩
      refine ⟨fun hshown name h => ?_, fun _ h => absurd hother (h other), fun hdot name h => ?_,
        fun _ h => absurd hother (h other)⟩
      · rw [hunique h]
        exact hvisible hshown
      · rw [hunique h]
        exact hhidden hdot
    · exact fun h => ⟨fun hshown => h.visible hshown other hother,
        fun hdot => h.hidden hdot other hother⟩
  · have hnone := not_exists.mp hsaid
    rw [renamed_unsaid hentry hnone]
    constructor
    · rintro ⟨hvisible, hhidden⟩
      exact ⟨fun _ other h => absurd h (hnone other), fun hshown _ => hvisible hshown,
        fun _ other h => absurd h (hnone other), fun hdot _ => hhidden hdot⟩
    · exact fun h => ⟨fun hshown => h.unnamed hshown hnone, fun hdot => h.hiddenUnnamed hdot hnone⟩

/-- A file's own folder shows it under its alias. -/
theorem own_folder_agrees {fs : FileSystem} {file : CString} (hpath : FolderPath path)
    (hlength : path.length + 8 < maxPath) (hown : parentPath file = path) :
    AliasAgrees host fs path file := by
  have hmap : mapPath path = parentPath file ++ "/map.txt".toList := by
    rw [mapPath, if_neg (by simp [hpath.outside]), hown]
    apply bounded_of_lt
    rw [List.length_append]
    exact hlength
  intro aliasName halias
  rw [← hmap] at halias
  have hunique {other : CString} (h : MapSays fs (mapPath path) file other) :
      other = aliasName :=
    Option.some.inj ((mapSays_iff.mpr h).symm.trans (mapSays_iff.mpr halias))
  refine ⟨fun _ other h => .inl (hunique h), fun _ h => absurd halias (h aliasName),
    fun hdot other h => ?_, fun _ h => absurd halias (h aliasName)⟩
  rw [hunique h]
  simp [hide, hdot]

/-- For any card and any folder that lists a file, the folder shows the file as its own
folder's map and the in-game menu have it just when the opened folder's map agrees. It does where
the opened folder is the file's own. -/
theorem aliasShown_iff {entry : Entry} (hpath : FolderPath path)
    (hentry : entry ∈ getEntries host store.fs path) :
    (AliasShown host simpleMode path window store entry.path ↔
      AliasAgrees host store.fs path entry.path) ∧
    (path.length + 8 < maxPath → parentPath entry.path = path →
      AliasAgrees host store.fs path entry.path) := by
  refine ⟨?_, own_folder_agrees hpath⟩
  rw [aliasShown_iff_renamed hpath hentry]
  unfold AliasAgrees ownAlias
  simp only [mapSays_iff, renamed_iff hentry]

end Opened

/-! ## Two folders of one console -/

/-- Two folders that are listed together, each with a game and the given map. -/
def twoFolders (first second : CString) : Store :=
  ⟨.ofLists
    [("/mnt/sdcard/Roms/Arcade (FBA)/map.txt".toList, first),
      ("/mnt/sdcard/Roms/Arcade (FBN)/map.txt".toList, second)]
    [("/mnt/sdcard/Roms".toList, [⟨"Arcade (FBA)".toList, true⟩, ⟨"Arcade (FBN)".toList, true⟩]),
      ("/mnt/sdcard/Roms/Arcade (FBA)".toList, [⟨"sf2.zip".toList, false⟩]),
      ("/mnt/sdcard/Roms/Arcade (FBN)".toList, [⟨"mslug.zip".toList, false⟩])],
    .empty, []⟩

def arcadePath : CString := "/mnt/sdcard/Roms/Arcade (FBA)".toList

def metalSlug : Entry :=
  Entry.new ⟨rg35xx, .stable⟩ "/mnt/sdcard/Roms/Arcade (FBN)/mslug.zip".toList .rom

theorem arcadePath_folder : FolderPath arcadePath :=
  ⟨by decide, by decide, by decide, by decide⟩

/-- Both folders have the line that names the game. -/
theorem alias_shown_twice : AliasShown ⟨rg35xx, .stable⟩ false arcadePath ⟨0, 0, 0⟩
    (twoFolders "mslug.zip\tMetal Slug\n".toList "mslug.zip\tMetal Slug\n".toList)
    metalSlug.path := by
  refine (aliasShown_iff arcadePath_folder (by decide +kernel)).1.mpr ?_
  have hown : Hash.get (((twoFolders "mslug.zip\tMetal Slug\n".toList
      "mslug.zip\tMetal Slug\n".toList).fs.file (parentPath metalSlug.path ++
        "/map.txt".toList)).elim [] readMap) (baseName metalSlug.path) =
      some "Metal Slug".toList := by
    decide +kernel
  have hopened : Hash.get (((twoFolders "mslug.zip\tMetal Slug\n".toList
      "mslug.zip\tMetal Slug\n".toList).fs.file (mapPath arcadePath)).elim [] readMap)
        (baseName metalSlug.path) = some "Metal Slug".toList := by
    decide +kernel
  intro aliasName halias
  rw [← mapSays_iff, hown, Option.some.injEq] at halias
  subst halias
  refine ⟨fun _ other hother => ?_, fun _ hnone => absurd (mapSays_iff.mp hopened) (hnone _),
    fun hdot => absurd hdot (by decide), fun hdot => absurd hdot (by decide)⟩
  rw [← mapSays_iff, hopened, Option.some.injEq] at hother
  exact .inl hother.symm

/-- Only the game's own folder names it: the list of the other folder shows the file's name. -/
theorem alias_lost :
    let store := twoFolders [] "mslug.zip\tMetal Slug\n".toList
    ownAlias store.fs metalSlug.path = some "Metal Slug".toList ∧
      shownNames ⟨rg35xx, .stable⟩ false arcadePath ⟨0, 0, 0⟩ store metalSlug.path =
        ["mslug".toList] ∧
      ¬ AliasShown ⟨rg35xx, .stable⟩ false arcadePath ⟨0, 0, 0⟩ store metalSlug.path := by
  have hown : ownAlias (twoFolders [] "mslug.zip\tMetal Slug\n".toList).fs metalSlug.path =
      some "Metal Slug".toList := by
    decide +kernel
  have hshown : shownNames ⟨rg35xx, .stable⟩ false arcadePath ⟨0, 0, 0⟩
      (twoFolders [] "mslug.zip\tMetal Slug\n".toList) metalSlug.path = ["mslug".toList] := by
    decide +kernel
  refine ⟨hown, hshown, fun h => ?_⟩
  have hname := (h.visible _ hown (by decide)).2 "mslug".toList (by rw [hshown]; simp)
  exact absurd hname (by decide)

end Minui
end DarkUI
