import DarkUI.Minui.NestedLaws

/-! # Coming back from a game

The launcher that starts after a game knows one path. It looks for the folders above that path
from the root down, and takes at each the first entry that matches, so it comes back to where the
game was launched if at each directory on the way the first match is the one that was opened.
-/

namespace DarkUI.Minui

open Text Run

/-! ## The components of the last path -/

/-- The path and the folders above it, below the root of the card. -/
def components (path : CString) : List CString :=
  (List.range' (slashes sdcardPath + 1) (slashes path - slashes sdcardPath)).map (ancestor path)

theorem components_append_cons {parent name : CString} (hname : '/' ∉ name)
    (hparent : slashes sdcardPath ≤ slashes parent) :
    components (parent ++ '/' :: name) = components parent ++ [parent ++ '/' :: name] := by
  have hcount : slashes parent + 1 - slashes sdcardPath =
      slashes parent - slashes sdcardPath + 1 := by omega
  have hlast : slashes sdcardPath + 1 + (slashes parent - slashes sdcardPath) =
      slashes (parent ++ '/' :: name) := by
    rw [slashes_append_cons hname]
    omega
  unfold components
  rw [slashes_append_cons hname, hcount, List.range'_1_concat, List.map_append, List.map_singleton,
    hlast, ancestor_self]
  refine congrArg (· ++ _) (List.map_congr_left fun n hn => ?_)
  have hn' := (List.mem_range'_1.mp hn).2
  exact ancestor_append_cons hname (by omega)

namespace Launcher

theorem lastPaths_eq {fuel : Nat} {path : CString} {paths : List CString} (hpath : UnderCard path)
    (hfuel : path.length < fuel) : lastPaths fuel path paths = some (components path ++ paths) := by
  induction fuel generalizing path paths with
  | zero => omega
  | succ fuel ih =>
      obtain ⟨parent, name, rfl, hname, hparent⟩ := hpath.cases
      have hsplit : splitLast '/' (parent ++ '/' :: name) = some (parent, name) :=
        splitLast_eq_some.mpr ⟨rfl, hname⟩
      have hne : exactMatch (parent ++ '/' :: name) sdcardPath = false :=
        beq_eq_false_iff_ne.mpr hpath.ne
      have hlength : parent.length < fuel := by
        simp only [List.length_append, List.length_cons] at hfuel
        omega
      unfold lastPaths
      simp only [hne, Bool.false_eq_true, if_false, hsplit]
      rcases hparent with rfl | hparent
      · rw [components_append_cons hname (Nat.le_refl _)]
        cases fuel with
        | zero => omega
        | succ fuel => simp [lastPaths, exactMatch, components]
      · rw [ih hparent hlength, components_append_cons hname (Nat.le_of_lt hparent.lt_slashes),
          List.append_assoc]
        rfl

variable {host : Host} {uninit : Uninit} {l l' : Launcher} {full path : CString}

/-! ## One component -/

/-- The entry is taken for this component of the last path. -/
def takes (full path : CString) (entry : Entry) : Bool :=
  !exactMatch path romsPath && matchesLast full path entry

theorem scanLast_none {isMatch : Entry → Bool} {final : Bool} {rows : List (Entry × Nat)}
    (h : ∀ row ∈ rows, isMatch row.1 = false) : scanLast host isMatch final rows l = l := by
  induction rows with
  | nil => rfl
  | cons row rest ih =>
      rw [scanLast, h row List.mem_cons_self]
      exact ih fun row hrow => h row (List.mem_cons_of_mem _ hrow)

/-- The scan stops at the first match when that ends the path or is a folder. -/
theorem scanLast_find {isMatch : Entry → Bool} {final : Bool} {entries : List Entry} {k : Nat}
    {entry : Entry} (hfind : entries.find? isMatch = some entry)
    (hstop : (final && !showsContents entry) = true ∨ entry.type = .dir) :
    ∃ i, entries[i]? = some entry ∧
      scanLast host isMatch final (entries.zipIdx k) l =
        if final && !showsContents entry then l.selectRow host (k + i : Nat)
        else (l.selectRow host (k + i : Nat)).push host entry.path := by
  induction entries generalizing k with
  | nil => cases hfind
  | cons first rest ih =>
      rw [List.zipIdx_cons, scanLast]
      cases hmatch : isMatch first with
      | true =>
          simp only [List.find?_cons, hmatch, Option.some.injEq] at hfind
          subst hfind
          refine ⟨0, rfl, ?_⟩
          simp only [if_true, Nat.add_zero]
          split
          next => rfl
          next hends =>
            rw [if_pos (hstop.resolve_left hends)]
      | false =>
          simp only [List.find?_cons, hmatch] at hfind
          obtain ⟨i, hi, hscan⟩ := @ih (k + 1) hfind
          refine ⟨i + 1, hi, ?_⟩
          simp only [Bool.false_eq_true, if_false]
          rw [hscan, Nat.add_assoc, Nat.add_comm 1 i]

theorem reopenStep_eq {final : Bool} : l.reopenStep host full path final =
    scanLast host (takes full path) final l.top.entries.zipIdx l := by
  unfold reopenStep
  split
  next hroms =>
    refine (scanLast_none fun row _ => ?_).symm
    simp [takes, hroms]
  next hroms =>
    have htakes : takes full path = matchesLast full path := by
      funext entry
      simp [takes, Bool.eq_false_of_not_eq_true hroms]
    rw [htakes]

/-! ## The way down -/

/-- The components with up to so many slashes are restored. -/
def descend (host : Host) (full : CString) (l : Launcher) (n : Nat) : Launcher :=
  ((List.range' (slashes sdcardPath + 1) (n - slashes sdcardPath)).map (ancestor full)).foldl
    (fun l path => l.reopenStep host full path false) l

theorem descend_root : descend host full l (slashes sdcardPath) = l := by
  simp [descend]

theorem descend_succ {n : Nat} (h : slashes sdcardPath ≤ n) :
    descend host full l (n + 1) =
      (descend host full l n).reopenStep host full (ancestor full (n + 1)) false := by
  have hcount : n + 1 - slashes sdcardPath = n - slashes sdcardPath + 1 := by omega
  have hlast : slashes sdcardPath + 1 + (n - slashes sdcardPath) = n + 1 := by omega
  rw [descend, hcount, List.range'_1_concat, List.map_append, List.foldl_append, hlast]
  rfl

theorem reopenLast_concat {paths : List CString} : l.reopenLast host full (paths ++ [path]) =
    (paths.foldl (fun l path => l.reopenStep host full path false) l).reopenStep host full path
      true := by
  induction paths generalizing l with
  | nil => rfl
  | cons first rest ih =>
      rw [List.cons_append, reopenLast]
      have hrest : (rest ++ [path]).isEmpty = false := by simp
      rw [hrest, ih]
      rfl

theorem start_last {fs : FileSystem} {tmp : Tmp} :
    (start host fs tmp).store.tmp.last = tmp.last := by
  simp [start, Directory.new, Directory.load, exactMatch, getRoot, hasRecents, saveRecents]

/-- The last component ends the search. -/
theorem init_eq {fs : FileSystem} {tmp : Tmp} (hlast : tmp.last = some full)
    (hfits : fileText maxPath full = full) (hunder : UnderCard full) :
    init host fs tmp = some ((descend host full (start host fs tmp) (slashes full - 1)).reopenStep
      host full full true) := by
  obtain ⟨parent, name, hfull, hname, hparent⟩ := hunder.cases
  have hslashes : slashes sdcardPath ≤ slashes parent := by
    rcases hparent with rfl | hparent
    · exact Nat.le_refl _
    · exact Nat.le_of_lt hparent.lt_slashes
  have hparents : components parent =
      (List.range' (slashes sdcardPath + 1) (slashes full - 1 - slashes sdcardPath)).map
        (ancestor full) := by
    rw [hfull, slashes_append_cons hname, Nat.add_sub_cancel, components]
    refine List.map_congr_left fun n hn => (ancestor_append_cons hname ?_).symm
    have := (List.mem_range'_1.mp hn).2
    omega
  unfold init loadLast
  rw [start_last, hlast, Option.map_some, hfits]
  dsimp only
  rw [lastPaths_eq hunder (Nat.lt_succ_self _), List.append_nil, Option.map_some]
  have hcomponents : components full = components parent ++ [full] := by
    rw [hfull]
    exact components_append_cons hname hslashes
  rw [hcomponents, reopenLast_concat, hparents]
  rfl

/-! ## What is found on the way -/

section Found

variable (host : Host) (fs : FileSystem) (tmp : Tmp) (full : CString)

/-- What a directory lists when it is opened while the last path is restored. -/
def listed (path : CString) : List Entry :=
  if path = sdcardPath then (start host fs tmp).top.entries
  else openedEntries host (start host fs tmp).store path

/-- Nothing in the root is taken for a component with fewer slashes. -/
def Passed (n : Nat) : Prop :=
  ∀ k < n, slashes sdcardPath < k → ∀ entry ∈ listed host fs tmp sdcardPath,
    takes full (ancestor full k) entry = false

instance (n : Nat) : Decidable (Passed host fs tmp full n) :=
  inferInstanceAs (Decidable (∀ k < n, slashes sdcardPath < k →
    ∀ entry ∈ listed host fs tmp sdcardPath, takes full (ancestor full k) entry = false))

/-- In every directory on the way the first match is the folder that was opened there. -/
def Leads : Directory → List Directory → Prop
  | _, [] => True
  | d, parent :: below =>
      Leads parent below ∧ (parent.path = sdcardPath → Passed host fs tmp full (slashes d.path)) ∧
        ∃ entry ∈ (listed host fs tmp parent.path).find? (takes full
          (ancestor full (slashes d.path))), entry.type = .dir ∧ entry.path = d.path

instance decidableLeads : ∀ d below, Decidable (Leads host fs tmp full d below)
  | _, [] => .isTrue trivial
  | d, parent :: below =>
      have := decidableLeads parent below
      inferInstanceAs (Decidable (Leads host fs tmp full parent below ∧
        (parent.path = sdcardPath → Passed host fs tmp full (slashes d.path)) ∧
          ∃ entry ∈ (listed host fs tmp parent.path).find? (takes full
            (ancestor full (slashes d.path))), entry.type = .dir ∧ entry.path = d.path))

/-- The directory as it is when the last path leads to it. -/
structure Shown (folder : CString) (l : Launcher) : Prop where
  path : l.top.path = folder
  entries : l.top.entries = listed host fs tmp folder
  window : l.top.window = Window.top l.top.total host.device.rows
  store : l.store = (start host fs tmp).store
  fresh : l.restoreDepth = -1

/-- The last path lies in the directory, every folder on the way to it is the first match, and so
is the entry in the directory itself. -/
structure Findable (l : Launcher) (entry : Entry) : Prop where
  fits : fileText maxPath full = full
  under : UnderCard full
  inside : l.top.path ≠ sdcardPath → slashes full = slashes l.top.path + 1
  passed : l.top.path = sdcardPath → Passed host fs tmp full (slashes full)
  leads : Leads host fs tmp full l.top l.below
  selects : ∃ found ∈ (listed host fs tmp l.top.path).find? (takes full full),
    found.path = entry.path ∧ found.type = entry.type ∧ showsContents found = false

instance (l : Launcher) (entry : Entry) : Decidable (Findable host fs tmp full l entry) :=
  decidable_of_iff
    (fileText maxPath full = full ∧ UnderCard full ∧
      (l.top.path ≠ sdcardPath → slashes full = slashes l.top.path + 1) ∧
      (l.top.path = sdcardPath → Passed host fs tmp full (slashes full)) ∧
      Leads host fs tmp full l.top l.below ∧
      ∃ found ∈ (listed host fs tmp l.top.path).find? (takes full full),
        found.path = entry.path ∧ found.type = entry.type ∧ showsContents found = false)
    ⟨fun ⟨fits, under, inside, passed, leads, selects⟩ =>
        ⟨fits, under, inside, passed, leads, selects⟩,
      fun h => ⟨h.fits, h.under, h.inside, h.passed, h.leads, h.selects⟩⟩

end Found

/-- The entry is selected in its directory, on a row that is shown. -/
structure ReturnsTo (host : Host) (folder : CString) (entry : Entry) (l : Launcher) : Prop where
  path : l.top.path = folder
  selected : ∃ found, l.selectedEntry = some found ∧ found.path = entry.path ∧
    found.type = entry.type
  window : l.top.window.Fits l.top.total host.device.rows

variable {fs : FileSystem} {tmp : Tmp} {d : Directory}

theorem start_shown : Shown host fs tmp sdcardPath (start host fs tmp) where
  path := rfl
  entries := by rw [listed, if_pos rfl]
  window := by
    simp [start, withEnd, Window.top, Directory.total]
    rfl
  store := rfl
  fresh := rfl

theorem Shown.push {i : Nat} (h : Shown host fs tmp path l) {folder : CString}
    (hfolder : folder ≠ sdcardPath) :
    Shown host fs tmp folder ((l.selectRow host i).push host folder) := by
  have hrestored : (l.selectRow host i).restoredWindow = ⟨0, 0, 0⟩ := by
    refine if_neg fun hdue => ?_
    have hdepth : (-1 : Int) = (l.selectRow host i).depth := h.fresh.symm.trans hdue.2.1
    simp only [depth] at hdepth
    omega
  refine ⟨rfl, ?_, ?_, (push_store hfolder).trans h.store, h.fresh⟩
  · rw [push_top_entries hfolder, listed, if_neg hfolder]
    exact congrArg (openedEntries host · folder) h.store
  · have htop : ((l.selectRow host i).push host folder).top.window =
        withEnd host (l.selectRow host i).restoredWindow
          ((l.selectRow host i).push host folder).top.total := rfl
    rw [htop, hrestored]
    simp [withEnd, Window.top]

theorem Shown.reopen_none (h : Shown host fs tmp path l) {component : CString} {final : Bool}
    (hnone : ∀ entry ∈ listed host fs tmp path, takes full component entry = false) :
    l.reopenStep host full component final = l := by
  rw [reopenStep_eq]
  refine scanLast_none fun row hrow => hnone row.1 ?_
  rw [← h.entries]
  exact List.mem_of_getElem? (List.mem_zipIdx_iff_getElem?.mp hrow)

/-- The components above the first folder leave the root as it is. -/
theorem descend_passed {n : Nat} (hpassed : Passed host fs tmp full n) {k : Nat}
    (hroot : slashes sdcardPath ≤ k) (hk : k < n) :
    descend host full (start host fs tmp) k = start host fs tmp := by
  induction k, hroot using Nat.le_induction with
  | base => exact descend_root
  | succ k hroot ih =>
      rw [descend_succ hroot, ih (by omega)]
      exact start_shown.reopen_none (hpassed (k + 1) hk (by omega))

/-- What leads to the directory below leads to the directory, one component before its own. -/
theorem Shown.descend {n : Nat} (hpath : path ≠ sdcardPath → n = slashes path + 1)
    (hroot : slashes sdcardPath < n)
    (hpassed : path = sdcardPath → Passed host fs tmp full n)
    (h : Shown host fs tmp path (descend host full (start host fs tmp) (slashes path))) :
    Shown host fs tmp path (Launcher.descend host full (start host fs tmp) (n - 1)) := by
  by_cases hsdcard : path = sdcardPath
  · subst hsdcard
    rw [descend_passed (hpassed rfl) (by omega) (by omega)]
    exact start_shown
  · rw [hpath hsdcard, Nat.add_sub_cancel]
    exact h

/-- Where every first match is the folder that was opened, the way leads to the directory. -/
theorem shown_descend {below : List Directory} (htrail : Trail d below)
    (hleads : Leads host fs tmp full d below) :
    Shown host fs tmp d.path (descend host full (start host fs tmp) (slashes d.path)) := by
  induction below generalizing d with
  | nil =>
      have hroot : d.path = sdcardPath := htrail
      rw [hroot, descend_root]
      exact start_shown
  | cons parent below ih =>
      obtain ⟨hunder, hslashes, hrest⟩ := htrail
      obtain ⟨hparent, hpassed, entry, hfind, htype, hpath⟩ := hleads
      have hlt := hunder.lt_slashes
      have hshown := (ih hrest hparent).descend hslashes hlt hpassed
      have hstep : descend host full (start host fs tmp) (slashes d.path) =
          (descend host full (start host fs tmp) (slashes d.path - 1)).reopenStep host full
            (ancestor full (slashes d.path)) false := by
        have hsucc : slashes d.path = slashes d.path - 1 + 1 := by omega
        conv_lhs => rw [hsucc, descend_succ (by omega), ← hsucc]
      rw [← hshown.entries] at hfind
      obtain ⟨i, -, hscan⟩ := @scanLast_find host
        (descend host full (start host fs tmp) (slashes d.path - 1)) _ false _ 0 _ hfind
        (Or.inr htype)
      simp only [Bool.false_and, Bool.false_eq_true, if_false, hpath] at hscan
      rw [hstep, reopenStep_eq, hscan]
      exact hshown.push hunder.ne

theorem Shown.selectRow {found : Entry} {i : Nat} (h : Shown host fs tmp path l)
    (hfound : l.top.entries[i]? = some found) :
    (l.selectRow host i).selectedEntry = some found ∧
      (l.selectRow host i).top.window.Fits l.top.total host.device.rows := by
  obtain ⟨hlength, -⟩ := List.getElem?_eq_some_iff.mp hfound
  have hlt : (i : Int) < l.top.total := Int.ofNat_lt.mpr hlength
  have htop : l.top.window.Fits l.top.total host.device.rows := by
    rw [h.window]
    exact Window.top_fits (by omega) host.device.rows_pos
  refine ⟨?_, selectRow_fits htop hlt ?_⟩
  · rw [selectedEntry, selectRow_selected, Directory.item, if_pos (Int.natCast_nonneg i)]
    exact hfound
  · rw [h.window]
    exact Int.natCast_nonneg i

/-- Where the launched entry is the first match at the end of the way, it is selected. -/
theorem Findable.returns {entry : Entry} (h : Findable host fs tmp full l entry)
    (htrail : Trail l.top l.below) (hlast : tmp.last = some full) :
    ∃ m, init host fs tmp = some m ∧ ReturnsTo host l.top.path entry m := by
  obtain ⟨found, hfind, hpath, htype, hstops⟩ := h.selects
  have hshown := (shown_descend htrail h.leads).descend h.inside h.under.lt_slashes h.passed
  rw [← hshown.entries] at hfind
  obtain ⟨i, hi, hscan⟩ := @scanLast_find host
    (descend host full (start host fs tmp) (slashes full - 1)) _ true _ 0 _ hfind
    (Or.inl (by rw [hstops]; rfl))
  simp only [hstops, Bool.not_false, Bool.and_self, if_true, Nat.zero_add] at hscan
  obtain ⟨hselected, hwindow⟩ := hshown.selectRow hi
  refine ⟨_, init_eq hlast h.fits h.under, ?_⟩
  rw [reopenStep_eq, hscan]
  exact ⟨hshown.path, ⟨found, hselected, hpath, htype⟩, hwindow⟩

/-! ## What a launch remembers -/

/-- The path by which the launch of an entry is remembered, outside Recents. -/
def lastPath (uninit : Uninit) (l : Launcher) (entry : Entry) : CString :=
  match entry.type with
  | .rom =>
      if prefixMatch collectionsPath l.top.path then
        bounded maxPath (l.top.path ++ '/' :: baseName entry.path)
      else (l.prepareSlot uninit entry.path).1
  | _ => entry.path

theorem openRom_last {last : Option CString} (hrecents : l.top.path ≠ fauxRecentPath)
    (hrunning : l.quit = false) (hlaunch : (l.openRom host uninit path last).quit = true) :
    (l.openRom host uninit path last).store.tmp.last =
      some (last.getD (l.prepareSlot uninit path).1) := by
  have htop : exactMatch l.top.path fauxRecentPath = false := beq_eq_false_iff_ne.mpr hrecents
  unfold openRom at hlaunch ⊢
  dsimp only at hlaunch ⊢
  rw [prepareSlot_state] at hlaunch ⊢
  split at hlaunch
  next => exact absurd (hlaunch.symm.trans hrunning) (by decide)
  next hemu =>
    rw [if_neg hemu]
    simp [queueNext, note, saveLast, addRecent, htop]

theorem openEntry_last {entry : Entry} (hrecents : l.top.path ≠ fauxRecentPath)
    (hrunning : l.quit = false) (hlaunch : (l.openEntry host uninit entry).quit = true) :
    (l.openEntry host uninit entry).store.tmp.last = some (l.lastPath uninit entry) := by
  have htop : exactMatch l.top.path fauxRecentPath = false := beq_eq_false_iff_ne.mpr hrecents
  unfold openEntry at hlaunch ⊢
  unfold lastPath
  dsimp only at hlaunch ⊢
  cases htype : entry.type with
  | rom =>
      simp only [htype] at hlaunch
      refine (openRom_last (l := { l with recentAlias := some entry.name }) hrecents hrunning
        hlaunch).trans ?_
      rw [prepareSlot_rom, prepareSlot_rom]
      split <;> rfl
  | pak =>
      simp only [openPak]
      split <;> simp [queueNext, note, saveLast, addRecent, htop]
  | dir =>
      simp only [htype] at hlaunch
      simp only [openDirectory] at hlaunch ⊢
      cases hauto : autoLaunch l.fs entry.path with
      | some romPath =>
          simp only [fs] at hauto
          simp only [fs, hauto] at hlaunch ⊢
          exact openRom_last (l := { l with recentAlias := some entry.name }) hrecents hrunning
            hlaunch
      | none =>
          simp only [fs] at hauto
          simp only [fs, hauto] at hlaunch
          exact absurd (hlaunch.symm.trans hrunning) (by decide)

/-! ## Coming back -/

/-- The launcher as an entry is opened, with RESUME or without. -/
def asking (resume : Bool) (l : Launcher) : Launcher := { l with shouldResume := resume }

/-- After a launch the launcher comes back to the entry that was launched, if the path it
remembers is found. -/
theorem returns_to_entry {tmp' : Tmp} {l₀ launched : Launcher} {resume : Bool} {entry : Entry}
    (hnames : NoSlash fs) (hinit : init host fs tmp = some l₀)
    (hreach : Reaches (fun l frame => turn host frame l) (fun l _ => l.quit = false) l₀ l)
    (hrunning : l.quit = false) (hrecents : l.top.path ≠ fauxRecentPath)
    (hopen : launched = (l.asking resume).openEntry host uninit entry)
    (hlaunch : launched.quit = true)
    (hfind : Findable host launched.fs tmp' ((l.asking resume).lastPath uninit entry) l entry)
    (hlast : tmp'.last = launched.store.tmp.last) :
    ∃ m, init host launched.fs tmp' = some m ∧ ReturnsTo host l.top.path entry m := by
  have hnested : l.Nested := by
    rcases nested_preserved.reaches (start_nested hnames tmp) hinit hreach with hquit | hnested
    · exact absurd (hquit.symm.trans hrunning) (by decide)
    · exact hnested
  have hwritten : launched.store.tmp.last = some ((l.asking resume).lastPath uninit entry) := by
    rw [hopen] at hlaunch ⊢
    exact openEntry_last hrecents hrunning hlaunch
  exact hfind.returns hnested.trail (hlast.trans hwritten)

/-- A collection of three games, two of which have the same file name. -/
def sameNamesCard : FileSystem :=
  .ofLists
    [("/mnt/sdcard/.system/rg35xx/paks/Emus/GB.pak/launch.sh".toList, []),
      ("/mnt/sdcard/.system/rg35xx/paks/Emus/GBC.pak/launch.sh".toList, []),
      ("/mnt/sdcard/Roms/GB/1.gb".toList, []),
      ("/mnt/sdcard/Roms/GB/2.gb".toList, []),
      ("/mnt/sdcard/Roms/GBC/1.gb".toList, []),
      ("/mnt/sdcard/Collections/A.txt".toList,
        "/Roms/GB/1.gb\n/Roms/GB/2.gb\n/Roms/GBC/1.gb\n".toList)]
    [("/mnt/sdcard/Roms".toList, [⟨"GB".toList, true⟩, ⟨"GBC".toList, true⟩]),
      ("/mnt/sdcard/Roms/GB".toList, [⟨"1.gb".toList, false⟩, ⟨"2.gb".toList, false⟩]),
      ("/mnt/sdcard/Roms/GBC".toList, [⟨"1.gb".toList, false⟩]),
      ("/mnt/sdcard/Collections".toList, [⟨"A.txt".toList, false⟩])]

theorem noSlash_ofLists {files : List (CString × CString)} {dirs : List (CString × List Dirent)}
    (h : ∀ dir ∈ dirs, ∀ item ∈ dir.2, '/' ∉ item.name) : NoSlash (.ofLists files dirs) := by
  intro path items hitems item hitem
  obtain ⟨_, _, hdirs, -⟩ := List.lookup_eq_some_iff.mp hitems
  exact h (path, items) (hdirs ▸ List.mem_append_right _ List.mem_cons_self) item hitem

/-- The game with a file name of its own is found in the collection. -/
theorem returns_to_entry_collection :
    ∃ l entry launched m, Reaches (fun l frame => turn stableHost frame l)
        (fun l _ => l.quit = false) (start stableHost sameNamesCard Tmp.empty) l ∧
      l.top.path = "/mnt/sdcard/Collections/A.txt".toList ∧
      entry.path = "/mnt/sdcard/Roms/GB/2.gb".toList ∧ launched.quit = true ∧
      launched = (l.asking false).openEntry stableHost Frame.idle.uninit entry ∧
      init stableHost launched.fs { Tmp.empty with last := launched.store.tmp.last } = some m ∧
      ReturnsTo stableHost l.top.path entry m := by
  have hrun : ((init stableHost sameNamesCard Tmp.empty).bind
      (follow (fun l frame => turn stableHost frame l) (fun l _ => !l.quit)
        [.press .a, .press .a])).any
      (fun l => l.top.entries.any fun entry =>
        let launched := (l.asking false).openEntry stableHost Frame.idle.uninit entry
        (l.quit = false ∧ l.top.path = "/mnt/sdcard/Collections/A.txt".toList ∧
          entry.path = "/mnt/sdcard/Roms/GB/2.gb".toList ∧ launched.quit = true) ∧
        Findable stableHost launched.fs { Tmp.empty with last := launched.store.tmp.last }
          ((l.asking false).lastPath Frame.idle.uninit entry) l entry) = true := by
    decide +kernel
  obtain ⟨l₀, l, hinit, hreach, hl⟩ := exists_reaches_of_follow hrun
  obtain ⟨entry, -, hentry⟩ := List.any_eq_true.mp hl
  obtain ⟨⟨hrunning, htop, hpath, hlaunch⟩, hfind⟩ := of_decide_eq_true hentry
  have hallowed := hreach.mono fun l frame hpermit => by simpa using hpermit
  have hrecents : l.top.path ≠ fauxRecentPath := by
    rw [htop]
    decide
  have hnames : NoSlash sameNamesCard := noSlash_ofLists (by decide)
  obtain ⟨m, hm, hreturns⟩ :=
    returns_to_entry hnames hinit hallowed hrunning hrecents rfl hlaunch hfind rfl
  cases hinit
  exact ⟨l, entry, _, m, hallowed, htop, hpath, hlaunch, rfl, hm, hreturns⟩

/-- After the second of two games with one file name the first one is selected. -/
theorem returns_to_other :
    ∃ l entry launched m, Reaches (fun l frame => turn stableHost frame l)
        (fun l _ => l.quit = false) (start stableHost sameNamesCard Tmp.empty) l ∧
      l.quit = false ∧ l.top.path ≠ fauxRecentPath ∧ entry ∈ l.top.entries ∧
      launched = (l.asking false).openEntry stableHost Frame.idle.uninit entry ∧
      launched.quit = true ∧
      init stableHost launched.fs { Tmp.empty with last := launched.store.tmp.last } = some m ∧
      ¬ ReturnsTo stableHost l.top.path entry m := by
  have hrun : ((init stableHost sameNamesCard Tmp.empty).bind
      (follow (fun l frame => turn stableHost frame l) (fun l _ => !l.quit)
        [.press .a, .press .a])).any
      (fun l => l.top.entries.any fun entry =>
        let launched := (l.asking false).openEntry stableHost Frame.idle.uninit entry
        (l.quit = false ∧ l.top.path ≠ fauxRecentPath ∧ launched.quit = true) ∧
        (init stableHost launched.fs { Tmp.empty with last := launched.store.tmp.last }).any
          fun m => m.selectedEntry.all fun found => found.path ≠ entry.path) = true := by
    decide +kernel
  obtain ⟨l₀, l, hinit, hreach, hl⟩ := exists_reaches_of_follow hrun
  obtain ⟨entry, hmem, hentry⟩ := List.any_eq_true.mp hl
  obtain ⟨⟨hrunning, hrecents, hlaunch⟩, hreturned⟩ := of_decide_eq_true hentry
  obtain ⟨m, hm, hother⟩ := (Option.any_eq_true _ _).mp hreturned
  refine ⟨l, entry, _, m, ?_, hrunning, hrecents, hmem, rfl, hlaunch, hm, fun hreturns => ?_⟩
  · cases hinit
    exact hreach.mono fun l frame hpermit => by simpa using hpermit
  · obtain ⟨found, hfound, hpath, -⟩ := hreturns.selected
    rw [hfound] at hother
    exact of_decide_eq_true hother hpath

end Launcher

end DarkUI.Minui
