import DarkUI.Minui.Menu
import DarkUI.Handover.RomPaths
import DarkUI.Minarch.Game
import Mathlib.Tactic.SplitIfs
import Mathlib.Tactic.IntervalCases

/-! # Where the launcher and the front end keep resume data

Both programs build the names of the slot file and of the disc files on their own. The
launcher starts from the entry, the front end from the file it was given to open.
-/

namespace DarkUI.Handover

open Text Minui Minui.Launcher Minarch

/-! ## Files of an entry -/

variable (uninit : Uninit) (fs : FileSystem)

/-- The file that opening an entry hands to `openRom`. A pak is not run by the front end. -/
def openedFile (entry : Entry) : Option CString :=
  match entry.type with
  | .rom => some entry.path
  | .dir => autoLaunch fs entry.path
  | .pak => none

/-- The file that stands for an entry: itself, or the `.cue` or `.m3u` of a folder. -/
def entryFile (entry : Entry) : CString :=
  if entry.type = .dir then
    if hasCue fs entry.path then cuePath entry.path
    else withExtension "m3u".toList (cuePath entry.path)
  else entry.path

/-- The file that the launcher knows an entry under. -/
def knownFile (entry : Entry) : CString := resumeRom fs (entryFile fs entry)

/-- A disc that the menu recorded for a slot of a game. -/
structure RecordedDisc (game : Game) (slot : Int) (line : CString) : Prop where
  low : 0 ≤ slot
  high : slot < 8
  slotFile : fs.file (Menu.slotPath game) = some (decimal slot)
  listed : ∃ m3u, game.m3uPath = some m3u ∧ line ∈ Menu.discLines fs m3u
  discFile : fs.file (Menu.txtPath (Menu.minuiDir game.path) game slot) = some line

/-- For a game that was launched for an entry through `file`, the launcher looks at the
files that the front end writes. -/
structure SameFiles (entry : Entry) (file : CString) (game : Game) : Prop where
  slot : resumeSlotFile fs entry.path entry.type = some (Menu.slotPath game)
  disc : hasM3u fs file → ∀ slot : Int, 0 ≤ slot → slot < 8 →
    slotDiscFile (getEmuName (launchedRom fs file)) (m3uPath file) (decimal slot) =
      Menu.txtPath (Menu.minuiDir game.path) game slot

/-- Launcher and front end agree on an entry: on the files of the game it launches, and
when it resumes a slot, on the disc and on the files of the game on that disc. -/
structure Agree (l : Launcher) (entry : Entry) (file : CString) : Prop where
  launched : SameFiles l.fs entry file (Game.open l.fs (launchedRom l.fs file) true)
  canResume : (readyResume entry l).canResume =
    l.fs.exists (Menu.slotPath (Game.open l.fs (launchedRom l.fs file) true))
  resumed : ∀ slot line m3u,
    RecordedDisc l.fs (Game.open l.fs (launchedRom l.fs file) true) slot line →
    (Game.open l.fs (launchedRom l.fs file) true).m3uPath = some m3u →
      ({ readyResume entry l with shouldResume := true }.prepareSlot uninit file).1 =
        basePath m3u ++ line ∧
      SameFiles l.fs entry file (Game.open l.fs (basePath m3u ++ line) true)

/-! ## Names -/

/-- A file name as it is printed into an array of `MAX_PATH` after the front end's folder. -/
def cutName (game : Game) (name : CString) : CString :=
  name.take (maxPath - 1 - ((Menu.minuiDir game.path).length + 1))

/-- The file an entry is known under has the game's tag and the game's name. -/
structure SameNames (entry : Entry) (file : CString) (game : Game) : Prop where
  tag : getEmuName game.path = getEmuName (knownFile fs entry)
  name : cutName game (baseName (knownFile fs entry) ++ ".txt".toList) =
    game.name ++ ".txt".toList
  disc : hasM3u fs file → ∀ slot : Int, 0 ≤ slot → slot < 8 →
    cutName game (baseName (m3uPath file) ++ '.' :: decimal slot ++ ".txt".toList) =
      game.name ++ '.' :: decimal slot ++ ".txt".toList

/-- The names agree for what an entry launches and for every disc it can resume. Such a
disc is named relative to the `.m3u` that the launcher sees. -/
structure NamedAlike (entry : Entry) (file : CString) : Prop where
  launched : SameNames fs entry file (Game.open fs (launchedRom fs file) true)
  resumed : ∀ slot line m3u, RecordedDisc fs (Game.open fs (launchedRom fs file) true) slot line →
    (Game.open fs (launchedRom fs file) true).m3uPath = some m3u →
      line.head? ≠ some '/' ∧ basePath (m3uPath file) = basePath m3u ∧
      SameNames fs entry file (Game.open fs (basePath m3u ++ line) true)

variable {fs} {entry : Entry} {file : CString} {game : Game}

/-- An entry that launches something is looked up under its known file. -/
theorem resumeSlotFile_eq (hunder : UnderRoms entry.path) (h : openedFile fs entry = some file) :
    resumeSlotFile fs entry.path entry.type = some (slotFile (knownFile fs entry)) := by
  simp only [resumeSlotFile, knownFile, entryFile, hunder.prefixMatch]
  by_cases hdir : entry.type = .dir
  · by_cases hcue : hasCue fs entry.path
    · simp [hdir, hcue]
    · have hm3u : fs.exists (withExtension "m3u".toList (cuePath entry.path)) := by
        by_contra hnot
        simp only [openedFile, hdir, autoLaunch, hcue, hnot] at h
        simp at h
      simp only [hdir, hcue, hm3u]
      simp
  · simp [hdir]

theorem openedFile_underRoms (hunder : UnderRoms entry.path)
    (h : openedFile fs entry = some file) : UnderRoms file := by
  unfold openedFile at h
  split at h
  next =>
    rw [Option.some.injEq] at h
    exact h ▸ hunder
  next =>
    unfold autoLaunch at h
    split_ifs at h with hcue
    · rw [Option.some.injEq] at h
      exact h ▸ hunder.cuePath
    · simp only [Option.ite_none_right_eq_some, Option.some.injEq] at h
      obtain ⟨-, hfound, rfl⟩ := h
      have hpath := hunder.cuePath.withExtension "m3u".toList
      unfold getFirstDisc at hfound ⊢
      split at hfound
      next => simp at hfound
      next line _ _ => exact hpath.discPath line
  next => simp at h

theorem knownFile_underRoms (hunder : UnderRoms entry.path) : UnderRoms (knownFile fs entry) := by
  have hentry : UnderRoms (entryFile fs entry) := by
    unfold entryFile
    split_ifs
    · exact hunder.cuePath
    · exact hunder.cuePath.withExtension _
    · exact hunder
  unfold knownFile resumeRom
  split_ifs
  · exact hentry.m3uPath
  · exact hentry

/-- A path in the folder of a game, as it is printed into an array of `MAX_PATH`. -/
theorem bounded_minuiDir {name : CString} (h : (Menu.minuiDir game.path).length < maxPath - 1) :
    bounded maxPath (Menu.minuiDir game.path ++ '/' :: name) =
      Menu.minuiDir game.path ++ '/' :: cutName game name := by
  obtain ⟨room, hroom⟩ : ∃ room, maxPath - 1 = (Menu.minuiDir game.path).length + 1 + room :=
    ⟨_, (Nat.add_sub_cancel' h).symm⟩
  rw [bounded, cutName, hroom, Nat.add_assoc, List.take_length_add_append, Nat.add_comm 1,
    List.take_succ_cons]
  congr 3
  omega

/-- A printed path is one in the folder of a game if the tags and the names agree. -/
theorem printed_eq_iff {tag name other : CString} (htag : '/' ∉ tag)
    (hgame : '/' ∉ getEmuName game.path) (hne : other ≠ []) :
    bounded maxPath (sharedUserdataPath ++ "/.minui/".toList ++ tag ++ '/' :: name) =
        Menu.minuiDir game.path ++ '/' :: other ↔
      getEmuName game.path = tag ∧ cutName game name = other := by
  constructor
  · intro heq
    have hprefix : getEmuName game.path ++ '/' :: other <+: tag ++ '/' :: name := by
      have htake : Menu.minuiDir game.path ++ '/' :: other <+:
          sharedUserdataPath ++ "/.minui/".toList ++ tag ++ '/' :: name := by
        rw [← heq]
        exact List.take_prefix _ _
      simpa only [Menu.minuiDir, List.append_assoc, List.prefix_append_right_inj] using htake
    obtain ⟨rfl, -⟩ := (prefix_separated hgame htag).mp hprefix
    have hfits : (Menu.minuiDir game.path).length < maxPath - 1 := by
      have hlength := congrArg List.length heq
      simp only [bounded, List.length_take, List.length_append, List.length_cons] at hlength
      omega
    rw [← Menu.minuiDir, bounded_minuiDir hfits, List.append_cancel_left_eq] at heq
    exact ⟨rfl, (List.cons.inj heq).2⟩
  · rintro ⟨rfl, rfl⟩
    refine bounded_minuiDir ?_
    by_contra hfits
    refine hne (List.take_eq_nil_iff.mpr (Or.inl ?_))
    omega

/-- The slot files are the same just when tag and name are. -/
theorem slotFile_eq_iff {path : CString} (hpath : UnderRoms path) (hgame : UnderRoms game.path) :
    slotFile path = Menu.slotPath game ↔
      getEmuName game.path = getEmuName path ∧
        cutName game (baseName path ++ ".txt".toList) = game.name ++ ".txt".toList := by
  have hprinted := @printed_eq_iff game (getEmuName path)
    (baseName path ++ ".txt".toList) (game.name ++ ".txt".toList)
    hpath.slash_not_mem_getEmuName hgame.slash_not_mem_getEmuName (by simp)
  simpa only [slotFile, Menu.slotPath, List.append_assoc, List.cons_append] using hprinted

theorem slotDiscFile_eq_iff {m3u slot : CString} {n : Int} (hgame : UnderRoms game.path) :
    slotDiscFile (getEmuName game.path) m3u slot =
        Menu.txtPath (Menu.minuiDir game.path) game n ↔
      cutName game (baseName m3u ++ '.' :: slot ++ ".txt".toList) =
        game.name ++ '.' :: decimal n ++ ".txt".toList := by
  have htag := hgame.slash_not_mem_getEmuName
  have hprinted := @printed_eq_iff game (getEmuName game.path)
    (baseName m3u ++ '.' :: slot ++ ".txt".toList)
    (game.name ++ '.' :: decimal n ++ ".txt".toList) htag htag (by simp)
  simpa only [slotDiscFile, Menu.txtPath, List.append_assoc, List.cons_append, true_and]
    using hprinted

theorem sameFiles_iff (hunder : UnderRoms entry.path) (hopen : openedFile fs entry = some file)
    (hgame : UnderRoms game.path)
    (htag : getEmuName (launchedRom fs file) = getEmuName (knownFile fs entry) ∨
      getEmuName (launchedRom fs file) = getEmuName game.path) :
    SameFiles fs entry file game ↔ SameNames fs entry file game := by
  have hslot := slotFile_eq_iff (@knownFile_underRoms fs _ hunder) hgame
  have hlaunch (h : getEmuName game.path = getEmuName (knownFile fs entry)) :
      getEmuName (launchedRom fs file) = getEmuName game.path := by
    rcases htag with htag | htag
    · rw [htag, h]
    · exact htag
  constructor
  · rintro ⟨hfile, hdisc⟩
    rw [resumeSlotFile_eq hunder hopen, Option.some.injEq, hslot] at hfile
    refine ⟨hfile.1, hfile.2, fun hm3u slot hlow hhigh => ?_⟩
    have := hdisc hm3u slot hlow hhigh
    rwa [hlaunch hfile.1, slotDiscFile_eq_iff hgame] at this
  · rintro ⟨hsame, hname, hdisc⟩
    refine ⟨?_, fun hm3u slot hlow hhigh => ?_⟩
    · rw [resumeSlotFile_eq hunder hopen, Option.some.injEq, hslot]
      exact ⟨hsame, hname⟩
    · rw [hlaunch hsame, slotDiscFile_eq_iff hgame]
      exact hdisc hm3u slot hlow hhigh

/-! ## Resuming a disc -/

theorem m3uOf_eq {path : CString} (h : '/' ∈ path) : Game.m3uOf path = m3uPath path := by
  unfold Game.m3uOf m3uPath basePath parentPath
  cases hsplit : splitLast '/' path with
  | none => exact absurd h (splitLast_eq_none.mp hsplit)
  | some pair => simp

theorem m3uPath_open {path m3u : CString} (h : (Game.open fs path true).m3uPath = some m3u) :
    fs.exists m3u ∧ m3u = Game.m3uOf path := by
  unfold Game.open at h
  split_ifs at h with hexists
  · simp only [Option.some.injEq] at h
    subst h
    exact ⟨by simpa using hexists, rfl⟩

/-- A game on discs was opened through a file that has an `.m3u`. -/
theorem hasM3u_of_open {m3u : CString} (hfile : '/' ∈ file)
    (h : (Game.open fs (launchedRom fs file) true).m3uPath = some m3u) : hasM3u fs file := by
  obtain ⟨hexists, rfl⟩ := m3uPath_open h
  by_contra hnot
  have hlaunched : launchedRom fs file = file := by simp [launchedRom, hnot]
  rw [hlaunched, m3uOf_eq hfile] at hexists
  exact hnot hexists

theorem decimal_slot {slot : Int} (hlow : 0 ≤ slot) (hhigh : slot < 8) :
    fileText 16 (decimal slot) = decimal slot := by
  interval_cases slot <;> decide

theorem readyResume_eq {l : Launcher} {path : CString}
    (h : resumeSlotFile l.fs entry.path entry.type = some path) :
    readyResume entry l = { l with slotPath := path, canResume := l.fs.exists path } := by
  simp [readyResume, h]

theorem fits_of_mem_discLines {m3u line : CString} (h : line ∈ Menu.discLines fs m3u) :
    line ≠ [] ∧ line.length ≤ 255 ∧ '\x00' ∉ line := by
  have hlines := (List.mem_filter.mp (List.mem_of_mem_take h)).1
  cases hfile : fs.file m3u with
  | none => simp [hfile] at hlines
  | some content => exact fits_of_mem_nonEmptyLines (by simpa [hfile] using hlines)

theorem prepareSlot_resuming {l : Launcher} (hresume : l.shouldResume = true)
    (hm3u : hasM3u l.fs file) :
    (l.prepareSlot uninit file).1 =
      resumedDisc uninit l.fs (getEmuName (launchedRom l.fs file)) (m3uPath file)
        (l.resumedSlot uninit) (launchedRom l.fs file) := by
  simp only [prepareSlot, hresume, hm3u, if_true]
  rfl

theorem resumedDisc_of_file {emuName m3u slot romPath text : CString}
    (h : fs.file (slotDiscFile emuName m3u slot) = some text) :
    resumedDisc uninit fs emuName m3u slot romPath =
      recordedDisc m3u (fileText maxPath text) := by
  simp [resumedDisc, FileSystem.exists, FileSystem.getFile, h]

/-- What RESUME hands to the front end when the launcher finds the recorded disc. -/
theorem prepareSlot_recorded {l : Launcher} {slot : Int} {line : CString}
    (hfiles : SameFiles l.fs entry file (Game.open l.fs (launchedRom l.fs file) true))
    (hrecorded : RecordedDisc l.fs (Game.open l.fs (launchedRom l.fs file) true) slot line)
    (hm3u : hasM3u l.fs file) :
    ({ readyResume entry l with shouldResume := true }.prepareSlot uninit file).1 =
      recordedDisc (m3uPath file) line := by
  obtain ⟨hlow, hhigh, hslotFile, ⟨m3u, -, hline⟩, hdiscFile⟩ := hrecorded
  have hdisc := hfiles.disc hm3u slot hlow hhigh
  obtain ⟨-, hlength, hnul⟩ := fits_of_mem_discLines hline
  have hread : fileText maxPath line = line :=
    fileText_of_fits (lt_of_le_of_lt hlength (by decide)) hnul
  have hslot : fileText 16 (decimal slot) = decimal slot := decimal_slot hlow hhigh
  have hready := readyResume_eq hfiles.slot
  generalize hgame : Game.open l.fs (launchedRom l.fs file) true = game at *
  have hresumed : ({ readyResume entry l with shouldResume := true } : Launcher).resumedSlot
      uninit = decimal slot := by
    rw [hready, resumedSlot]
    simp only [Launcher.fs] at hslotFile ⊢
    simp [FileSystem.getFile, hslotFile, hslot]
  rw [prepareSlot_resuming uninit rfl (by rwa [hready]), hresumed, hready]
  simp only [Launcher.fs] at *
  rw [resumedDisc_of_file uninit (hdisc ▸ hdiscFile), hread]

theorem recordedDisc_eq_iff {path m3u line : CString} (hm3u : '/' ∈ m3u) :
    recordedDisc path line = basePath m3u ++ line ↔
      line.head? ≠ some '/' ∧ basePath path = basePath m3u := by
  unfold recordedDisc
  split_ifs with hhead
  · have hbase : basePath m3u ≠ [] := by
      unfold basePath
      split
      next => simp
      next hsplit => exact absurd hm3u (splitLast_eq_none.mp hsplit)
    simp [hhead, hbase]
  · simp [hhead]

variable {uninit}

/-- For an entry under Roms and what opening it runs, launcher and front end agree on
every file and disc just when the names they build the files from agree. -/
theorem agree_iff {l : Launcher} (hunder : UnderRoms entry.path)
    (hopen : openedFile l.fs entry = some file) :
    Agree uninit l entry file ↔ NamedAlike l.fs entry file := by
  have hfile := openedFile_underRoms hunder hopen
  have hlaunched := hfile.launchedRom l.fs
  have hfirst : SameFiles l.fs entry file (Game.open l.fs (launchedRom l.fs file) true) ↔
      SameNames l.fs entry file (Game.open l.fs (launchedRom l.fs file) true) :=
    sameFiles_iff hunder hopen (by rwa [open_path]) (Or.inr (by rw [open_path]))
  -- the disc that is resumed is beside the list, so its tag is that of the list
  have hresumed (hnames : SameNames l.fs entry file
      (Game.open l.fs (launchedRom l.fs file) true)) (line m3u : CString)
      (hm3u : (Game.open l.fs (launchedRom l.fs file) true).m3uPath = some m3u) :
      UnderRoms m3u ∧ (SameFiles l.fs entry file (Game.open l.fs (basePath m3u ++ line) true) ↔
        SameNames l.fs entry file (Game.open l.fs (basePath m3u ++ line) true)) := by
    have hunderM3u : UnderRoms m3u := by
      rw [(m3uPath_open hm3u).2, m3uOf_eq hlaunched.slash_mem]
      exact hlaunched.m3uPath
    have htag := hnames.tag
    rw [open_path] at htag
    refine ⟨hunderM3u, sameFiles_iff hunder hopen ?_ (Or.inl htag)⟩
    rw [open_path]
    exact hunderM3u.basePath.append line
  constructor
  · rintro ⟨hsame, -, hagain⟩
    refine ⟨hfirst.mp hsame, fun slot line m3u hrecorded hm3u => ?_⟩
    obtain ⟨hdisc, hdiscFiles⟩ := hagain slot line m3u hrecorded hm3u
    obtain ⟨hunderM3u, hiff⟩ := hresumed (hfirst.mp hsame) line m3u hm3u
    rw [prepareSlot_recorded uninit hsame hrecorded (hasM3u_of_open hfile.slash_mem hm3u),
      recordedDisc_eq_iff hunderM3u.slash_mem] at hdisc
    exact ⟨hdisc.1, hdisc.2, hiff.mp hdiscFiles⟩
  · rintro ⟨hnames, hagain⟩
    have hsame := hfirst.mpr hnames
    refine ⟨hsame, by rw [readyResume_eq hsame.slot], fun slot line m3u hrecorded hm3u => ?_⟩
    obtain ⟨hhead, hbase, hdiscNames⟩ := hagain slot line m3u hrecorded hm3u
    obtain ⟨hunderM3u, hiff⟩ := hresumed hnames line m3u hm3u
    refine ⟨?_, hiff.mpr hdiscNames⟩
    rw [prepareSlot_recorded uninit hsame hrecorded (hasM3u_of_open hfile.slash_mem hm3u),
      recordedDisc_eq_iff hunderM3u.slash_mem]
    exact ⟨hhead, hbase⟩

/-! ## Discs beside their list -/

theorem cutName_of_fits {name : CString}
    (h : (Menu.minuiDir game.path).length + 1 + name.length < maxPath) :
    cutName game name = name :=
  List.take_of_length_le (by omega)

/-- The names agree for every disc that is found with the list of the file that was opened. -/
theorem sameNames_of_listed {disc : CString} (hknown : knownFile fs entry = m3uPath file)
    (hm3u : hasM3u fs file) (hlist : Game.m3uOf disc = m3uPath file)
    (htag : getEmuName disc = getEmuName (m3uPath file))
    (hfits : (Menu.minuiDir disc).length + 7 + (baseName (m3uPath file)).length < maxPath) :
    SameNames fs entry file (Game.open fs disc true) := by
  have hexists : fs.exists (m3uPath file) := hm3u
  have hgame : Game.open fs disc true = ⟨disc, baseName (m3uPath file), some (m3uPath file)⟩ := by
    simp [Game.open, hlist, hexists]
  have htxt : ".txt".toList.length = 4 := rfl
  rw [hgame]
  refine ⟨by rw [hknown, htag], ?_, fun _ slot hlow hhigh => ?_⟩
  · rw [hknown]
    refine cutName_of_fits ?_
    rw [List.length_append, htxt]
    simp only
    omega
  · have hslot : (decimal slot).length = 1 := by
      interval_cases slot <;> rfl
    refine cutName_of_fits ?_
    simp only [List.length_append, List.length_cons, hslot, htxt]
    omega

/-- An entry agrees when it is known under the file that opening it runs, or under the
`.m3u` beside that file, and every disc of the `.m3u` lies beside it too. -/
theorem namedAlike_of_beside (hconsole : InConsole file) (hnot : ¬ suffixMatch ".m3u".toList file)
    (hknown : knownFile fs entry = resumeRom fs file)
    (hbeside : ∀ line ∈ Menu.discLines fs (m3uPath file), '/' ∉ line)
    (hfits : (Menu.minuiDir file).length + 7 + (baseName (knownFile fs entry)).length < maxPath) :
    NamedAlike fs entry file := by
  have hlaunched : launchedRom fs file = file := by
    simp only [launchedRom, hnot, Bool.and_false]
    rfl
  have hslash := hconsole.underRoms.slash_mem
  -- with an m3u the game is known by the list, and without one by its own file
  by_cases hm3u : hasM3u fs file
  · have hlisted : knownFile fs entry = m3uPath file := by
      simp only [hknown, resumeRom, hnot, hm3u]
      rfl
    rw [hlisted] at hfits
    have htag : getEmuName (m3uPath file) = getEmuName file := by
      simpa only [m3uPath, List.append_assoc] using hconsole.getEmuName_beside _
    refine ⟨?_, fun slot line m3u hrecorded hopened => ?_⟩
    · rw [hlaunched]
      exact sameNames_of_listed hlisted hm3u (m3uOf_eq hslash) htag.symm hfits
    · obtain ⟨-, rfl⟩ := m3uPath_open hopened
      obtain ⟨m3u, hlist, hline⟩ := hrecorded.listed
      obtain ⟨-, rfl⟩ := m3uPath_open hlist
      rw [hlaunched, m3uOf_eq hslash] at hline ⊢
      have hflat := hbeside line hline
      rw [basePath_m3uPath hslash]
      refine ⟨fun hhead => hflat (List.mem_of_head? hhead), rfl, ?_⟩
      have hdisc := hconsole.getEmuName_beside line
      refine sameNames_of_listed hlisted hm3u ?_ (hdisc.trans htag.symm) ?_
      · have hunder := hconsole.underRoms.basePath.append line
        rw [m3uOf_eq hunder.slash_mem, m3uPath_beside hslash hflat]
      · rwa [Menu.minuiDir, hdisc]
  · have hown : knownFile fs entry = file := by
      simp only [hknown, resumeRom, hm3u, Bool.and_false]
      rfl
    have hgame : Game.open fs file true = ⟨file, baseName file, none⟩ := by
      have hnone : fs.exists (m3uPath file) = false := by simpa [hasM3u] using hm3u
      simp [Game.open, m3uOf_eq hslash, hnone]
    rw [hown] at hfits
    refine ⟨⟨?_, ?_, fun h => absurd h hm3u⟩, fun slot line m3u _ hopened => ?_⟩
    · rw [hlaunched, hgame, hown]
    · rw [hlaunched, hgame, hown]
      refine cutName_of_fits ?_
      have htxt : ".txt".toList.length = 4 := rfl
      rw [List.length_append, htxt]
      simp only
      omega
    · rw [hlaunched, hgame] at hopened
      cases hopened

/-- A game in a folder of its own, on one disc that its `.m3u` names by the given line. -/
def discCard (line : CString) : FileSystem :=
  .ofLists
    [("/mnt/sdcard/Roms/PS/Game/Game.m3u".toList, line ++ ['\n']),
      ("/mnt/sdcard/Roms/PS/Game/".toList ++ line, []),
      ("/mnt/sdcard/.userdata/shared/.minui/PS/Game.m3u.txt".toList, "3".toList),
      ("/mnt/sdcard/.userdata/shared/.minui/PS/Game.m3u.3.txt".toList, line)] []

def gameEntry : Entry := ⟨"/mnt/sdcard/Roms/PS/Game".toList, "Game".toList, none, .dir, 0⟩

def someUninit : Uninit := ⟨[], [], 0, 0⟩

/-- The launcher as it starts on a device with the card. -/
def onCard (fs : FileSystem) : Launcher := start ⟨rg35xx, .stable⟩ fs Tmp.empty

/-- Without recents the launcher starts by writing an empty list of them. -/
theorem onCard_fs (h : fs.file recentPath = none) : (onCard fs).fs = fs.putFile recentPath [] := by
  have hrecents : (hasRecents ⟨rg35xx, .stable⟩ ⟨fs, Tmp.empty, []⟩).2.fs =
      fs.putFile recentPath [] := by
    simp [hasRecents, h, changedDisc, Tmp.empty, saveRecents]
  exact hrecents

/-- The folder of a game whose disc lies beside the `.m3u`. -/
theorem agree_disc :
    Agree someUninit (onCard (discCard "d.cue".toList)) gameEntry
      "/mnt/sdcard/Roms/PS/Game/d.cue".toList := by
  have hfs := @onCard_fs (discCard "d.cue".toList) (by decide)
  refine (agree_iff ⟨"PS/Game".toList, rfl⟩ (by rw [hfs]; decide +kernel)).mpr ?_
  rw [hfs]
  exact namedAlike_of_beside ⟨"PS".toList, "Game/d.cue".toList, by decide, rfl⟩ (by decide)
    (by decide +kernel) (by decide +kernel) (by decide +kernel)

/-- With the disc in a folder of its own, the front end writes another slot file than the
one the launcher looks for. -/
theorem disagree_subfolder :
    ∃ file, UnderRoms gameEntry.path ∧
      openedFile (onCard (discCard "sub/d.cue".toList)).fs gameEntry = some file ∧
      (readyResume gameEntry (onCard (discCard "sub/d.cue".toList))).slotPath =
        "/mnt/sdcard/.userdata/shared/.minui/PS/Game.m3u.txt".toList ∧
      Menu.slotPath (Game.open (onCard (discCard "sub/d.cue".toList)).fs
          (launchedRom (onCard (discCard "sub/d.cue".toList)).fs file) true) =
        "/mnt/sdcard/.userdata/shared/.minui/PS/d.cue.txt".toList ∧
      ¬ Agree someUninit (onCard (discCard "sub/d.cue".toList)) gameEntry file := by
  have hfs := @onCard_fs (discCard "sub/d.cue".toList) (by decide)
  have hslot : resumeSlotFile (onCard (discCard "sub/d.cue".toList)).fs gameEntry.path
      gameEntry.type = some "/mnt/sdcard/.userdata/shared/.minui/PS/Game.m3u.txt".toList := by
    rw [hfs]
    decide +kernel
  refine ⟨"/mnt/sdcard/Roms/PS/Game/sub/d.cue".toList, ⟨"PS/Game".toList, rfl⟩, ?_, ?_, ?_,
    fun hagree => ?_⟩
  · rw [hfs]
    decide +kernel
  · rw [readyResume_eq hslot]
  · rw [hfs]
    decide +kernel
  · have hsame := hagree.launched.slot
    rw [hslot, hfs] at hsame
    exact absurd hsame (by decide +kernel)

end DarkUI.Handover
