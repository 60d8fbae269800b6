import DarkUI.Minarch.DiscChange

/-! # What is left of a game when its disc is changed

By the time the new disc is opened the old one is closed, so a disc that cannot be opened
leaves no game, under a name of its own and without an `.m3u`; and the core is asked only
afterwards whether it can change discs at all.
-/

namespace DarkUI.Minarch

open Text

/-! ## Opening -/

namespace OpenGame

variable {loader : Loader} {fs : FileSystem} {path : CString} {o : Opening} {g g' : OpenGame}

/-- The calls of `Game_open` that it checks succeed. -/
def Opens (loader : Loader) (path : CString) (o : Opening) : Prop :=
  (extracts loader path → o.extraction ≠ .failed) ∧
    (loader.needFullpath = false → o.fopen ∧ o.malloc)

/-- What the core is given of a disc that was read whole. -/
def discImage (loader : Loader) (path : CString) (o : Opening) : GameInfo :=
  if loader.needFullpath then ⟨path, none, 0⟩ else ⟨path, some o.file, o.file.length⟩

theorem unpack_eq_ok (h : unpack loader o g = .ok g') :
    g' = { g with tmpPath := g'.tmpPath } ∧
      (extracts loader g.game.path → o.extraction ≠ .failed) := by
  unfold unpack at h
  split at h
  next =>
    split at h
    next hnone =>
      cases h
      exact ⟨rfl, fun _ => by rw [hnone]; nofun⟩
    next => cases h
    next hkept =>
      cases h
      exact ⟨rfl, fun _ => by rw [hkept]; nofun⟩
  next hnot =>
    cases h
    exact ⟨rfl, fun hextracts => absurd hextracts hnot⟩

theorem unpack_eq_error (h : unpack loader o g = .error g') :
    g' = g ∧ extracts loader g.game.path ∧ o.extraction = .failed := by
  unfold unpack at h
  split at h
  next hextracts =>
    split at h
    next => cases h
    next hfailed =>
      cases h
      exact ⟨rfl, hextracts, hfailed⟩
    next => cases h
  next => cases h

theorem load_eq_ok (h : load loader o g = .ok g') :
    g'.game = g.game ∧ (loader.needFullpath = false → o.fopen ∧ o.malloc) ∧
      g'.data = (if loader.needFullpath then g.data else some (o.file.take o.fread)) ∧
      g'.size = (if loader.needFullpath then g.size else o.file.length) := by
  unfold load at h
  split at h
  next hfull =>
    cases h
    simp [hfull]
  next hfull =>
    split at h
    next => cases h
    next hfopen =>
      split at h
      next => cases h
      next hmalloc =>
        cases h
        simp only [Bool.not_eq_true', Bool.not_eq_false] at hfopen hmalloc
        exact ⟨rfl, fun _ => ⟨hfopen, hmalloc⟩, (if_neg hfull).symm, (if_neg hfull).symm⟩

theorem load_eq_error (h : load loader o g = .error g') :
    g'.game = g.game ∧ g'.isOpen = g.isOpen ∧
      ¬ (loader.needFullpath = false → o.fopen ∧ o.malloc) := by
  unfold load at h
  split at h
  next => cases h
  next hfull =>
    rw [Bool.not_eq_true] at hfull
    split at h
    next hfopen =>
      cases h
      rw [Bool.not_eq_true'] at hfopen
      refine ⟨rfl, rfl, fun hcalls => ?_⟩
      rw [hfopen] at hcalls
      exact Bool.false_ne_true (hcalls hfull).1
    next =>
      split at h
      next hmalloc =>
        cases h
        rw [Bool.not_eq_true'] at hmalloc
        refine ⟨rfl, rfl, fun hcalls => ?_⟩
        rw [hmalloc] at hcalls
        exact Bool.false_ne_true (hcalls hfull).2
      next => cases h

/-- A disc whose calls succeed is open, under the name of its game, with what was read. -/
theorem openPath_of_opens (fs : FileSystem) (h : Opens loader path o) :
    (openPath loader fs path o).game = Game.open fs path true ∧
      (openPath loader fs path o).isOpen ∧
      (openPath loader fs path o).data =
        (if loader.needFullpath then none else some (o.file.take o.fread)) ∧
      (openPath loader fs path o).size =
        (if loader.needFullpath then 0 else o.file.length) := by
  unfold openPath
  split
  next hunpack =>
    obtain ⟨-, hextracts, hfailed⟩ := unpack_eq_error hunpack
    exact absurd hfailed (h.1 hextracts)
  next hunpack =>
    obtain ⟨hnamed, -⟩ := unpack_eq_ok hunpack
    split
    next hload => exact absurd h.2 (load_eq_error hload).2.2
    next hload =>
      obtain ⟨hsame, -, hread, hlength⟩ := load_eq_ok hload
      rw [hnamed] at hsame hread hlength
      refine ⟨?_, rfl, hread, hlength⟩
      simp only [findM3u, hsame, named, Game.open, Bool.true_and]

/-- Otherwise nothing but its path and its own name is known of it. -/
theorem openPath_of_not_opens (fs : FileSystem) (h : ¬ Opens loader path o) :
    (openPath loader fs path o).game = Game.open fs path false ∧
      (openPath loader fs path o).isOpen = false := by
  unfold openPath
  split
  next hunpack =>
    obtain ⟨rfl, -, -⟩ := unpack_eq_error hunpack
    exact ⟨rfl, rfl⟩
  next hunpack =>
    obtain ⟨hnamed, hunpacks⟩ := unpack_eq_ok hunpack
    split
    next hload =>
      obtain ⟨hsame, hopen, -⟩ := load_eq_error hload
      rw [hnamed] at hsame hopen
      exact ⟨hsame, hopen⟩
    next hload => exact absurd ⟨hunpacks, (load_eq_ok hload).2.1⟩ h

/-- The game is one that `Game_open` opened at some time. -/
def Opened (loader : Loader) (g : OpenGame) : Prop :=
  ∃ fs path o, g = openPath loader fs path o

theorem openPath_path (fs : FileSystem) : (openPath loader fs path o).game.path = path := by
  by_cases h : Opens loader path o
  · rw [(openPath_of_opens fs h).1, open_path]
  · rw [(openPath_of_not_opens fs h).1, open_path]

/-- A game with an `.m3u` is one whose calls succeeded, in the folder of the `.m3u`. -/
theorem openPath_m3uPath_iff (fs : FileSystem) {m3u : CString} :
    (openPath loader fs path o).game.m3uPath = some m3u ↔
      Opens loader path o ∧ m3u = Game.m3uOf path ∧ fs.exists m3u := by
  by_cases h : Opens loader path o
  · rw [(openPath_of_opens fs h).1]
    unfold Game.open
    split
    next hexists =>
      rw [Bool.true_and] at hexists
      simp only [Option.some.injEq, h, true_and]
      constructor
      · rintro rfl
        exact ⟨rfl, hexists⟩
      · exact fun hm3u => hm3u.1.symm
    next hnot =>
      rw [Bool.true_and] at hnot
      simp only [reduceCtorEq, false_iff]
      rintro ⟨-, rfl, hexists⟩
      exact hnot hexists
  · rw [(openPath_of_not_opens fs h).1]
    simp [Game.open, h]

/-- A game with an `.m3u` is named after it. -/
theorem Opened.m3u {g : OpenGame} {m3u : CString} (h : Opened loader g)
    (hm3u : g.game.m3uPath = some m3u) :
    m3u = Game.m3uOf g.game.path ∧ g.game.name = baseName m3u := by
  obtain ⟨fs, path, o, rfl⟩ := h
  obtain ⟨hopens, rfl, hexists⟩ := (openPath_m3uPath_iff fs).mp hm3u
  refine ⟨by rw [openPath_path], ?_⟩
  rw [(openPath_of_opens fs hopens).1]
  simp [Game.open, hexists]

end OpenGame

/-! ## Folders -/

theorem splitLast_m3uOf (path : CString) : splitLast '/' (Game.m3uOf path) =
    some (parentPath path, baseName (parentPath path) ++ ".m3u".toList) := by
  have hname : '/' ∉ baseName (parentPath path) ++ ".m3u".toList := by
    rw [List.mem_append, not_or]
    exact ⟨slash_not_mem_baseName _, by decide⟩
  exact splitLast_eq_some.mpr ⟨by simp [Game.m3uOf], hname⟩

theorem parentPath_m3uOf (path : CString) : parentPath (Game.m3uOf path) = parentPath path := by
  rw [parentPath, splitLast_m3uOf]

/-- Discs share an `.m3u` just when they are in one folder. -/
theorem m3uOf_eq_iff {path other : CString} :
    Game.m3uOf path = Game.m3uOf other ↔ parentPath path = parentPath other := by
  constructor
  · intro h
    rw [← parentPath_m3uOf, h, parentPath_m3uOf]
  · intro h
    rw [Game.m3uOf, Game.m3uOf, h]

namespace DiscState

variable {s t : DiscState} {path : CString} {o : Opening}

/-! ## Changing -/

/-- The core was given the new disc, whole, and the launcher is told of it. -/
def Changed (path : CString) (o : Opening) (s t : DiscState) : Prop :=
  t.images = s.images ++ [OpenGame.discImage s.loader path o] ∧ t.changeDisc = some path ∧
    t.opened.game.path = path

/-- Nothing has changed for the core, the launcher or the game. -/
def Unchanged (s t : DiscState) : Prop :=
  t.images = s.images ∧ t.changeDisc = s.changeDisc ∧ t.opened = s.opened

/-- The game goes by the same name and `.m3u`, and so do its files. -/
def SameGame (core : Core) (s t : DiscState) : Prop :=
  t.opened.game.name = s.opened.game.name ∧ t.opened.game.m3uPath = s.opened.game.m3uPath ∧
    ∀ file : NamedFile, file.path core t.opened.game.name = file.path core s.opened.game.name

/-- The disc is opened whole, in the folder of the game. -/
def Opens (s : DiscState) (path : CString) (o : Opening) (m3u : CString) : Prop :=
  OpenGame.Opens s.loader path o ∧ (s.loader.needFullpath = false → o.file.length ≤ o.fread) ∧
    parentPath path = parentPath s.opened.game.path ∧ (s.opened.close s.fs).exists m3u

theorem changeTo_of_stays (h : s.opened.game.path = path ∨ s.fs.exists path = false) :
    s.changeTo path o = s := by
  unfold changeTo
  rw [if_pos]
  obtain hsame | hmissing := h
  · simp [exactMatch, hsame]
  · simp [hmissing]

/-- Once the old disc is closed the game is what opening the new one left. -/
theorem changeTo_of_leaves (hpath : s.opened.game.path ≠ path) (hexists : s.fs.exists path) :
    (s.changeTo path o).opened = OpenGame.openPath s.loader (s.opened.close s.fs) path o ∧
      (s.replacesImage = false → (s.changeTo path o).images = s.images) ∧
      (s.replacesImage →
        (s.changeTo path o).images = s.images ++ [⟨(s.changeTo path o).opened.game.path,
          (s.changeTo path o).opened.data, (s.changeTo path o).opened.size⟩] ∧
        (s.changeTo path o).changeDisc = some path) := by
  unfold changeTo
  rw [if_neg (by simp [exactMatch, hpath, hexists])]
  dsimp only
  cases hreplaces : s.replacesImage with
  | false => exact ⟨rfl, fun _ => rfl, nofun⟩
  | true => exact ⟨rfl, nofun, fun _ => ⟨rfl, rfl⟩⟩

theorem SameGame.refl (core : Core) (s : DiscState) : SameGame core s s :=
  ⟨rfl, rfl, fun _ => rfl⟩

theorem SameGame.of_m3u {core : Core} {m3u : CString} {loader : Loader}
    (hs : OpenGame.Opened loader s.opened) (ht : OpenGame.Opened loader t.opened)
    (hm3u : s.opened.game.m3uPath = some m3u) (hsame : t.opened.game.m3uPath = some m3u) :
    SameGame core s t := by
  have hname : t.opened.game.name = s.opened.game.name :=
    (ht.m3u hsame).2.trans (hs.m3u hm3u).2.symm
  exact ⟨hname, hsame.trans hm3u.symm, fun file => by rw [hname]⟩

/-- What was read of a disc is all of it unless its end is missing. -/
theorem image_eq_iff (hopens : OpenGame.Opens s.loader path o) (fs : FileSystem) :
    (⟨(OpenGame.openPath s.loader fs path o).game.path, (OpenGame.openPath s.loader fs path o).data,
        (OpenGame.openPath s.loader fs path o).size⟩ : GameInfo) =
        OpenGame.discImage s.loader path o ↔
      (s.loader.needFullpath = false → o.file.length ≤ o.fread) := by
  obtain ⟨-, -, hdata, hsize⟩ := OpenGame.openPath_of_opens fs hopens
  rw [OpenGame.openPath_path, hdata, hsize, OpenGame.discImage]
  cases s.loader.needFullpath <;> simp

/-- A change of discs is all or nothing for a game with an `.m3u` just when the disc is the
one in place or missing, or the core can change discs and the disc is opened whole, in the
folder of the game. -/
theorem changeTo_allOrNothing_iff (core : Core) (s : DiscState) {m3u : CString}
    (hopened : OpenGame.Opened s.loader s.opened) (hm3u : s.opened.game.m3uPath = some m3u)
    (path : CString) (o : Opening) :
    ((Changed path o s (s.changeTo path o) ∨ Unchanged s (s.changeTo path o)) ∧
        SameGame core s (s.changeTo path o)) ↔
      s.opened.game.path = path ∨ s.fs.exists path = false ∨
        s.replacesImage ∧ s.Opens path o m3u := by
  -- a path that is open already, or that nothing is at, changes nothing
  by_cases hstays : s.opened.game.path = path ∨ s.fs.exists path = false
  · rw [changeTo_of_stays hstays, ← or_assoc]
    exact iff_of_true ⟨.inr ⟨rfl, rfl, rfl⟩, .refl core s⟩ (.inl hstays)
  · rw [← or_assoc, or_iff_right hstays]
    rw [not_or, Bool.not_eq_false] at hstays
    obtain ⟨hgame, hkept, hgiven⟩ := changeTo_of_leaves (o := o) hstays.1 hstays.2
    have hpath : (s.changeTo path o).opened.game.path = path := by
      rw [hgame, OpenGame.openPath_path]
    -- the path has changed in any case, so all the rest has to
    have hmoved : ¬ Unchanged s (s.changeTo path o) := by
      rintro ⟨-, -, hsame⟩
      rw [hsame] at hpath
      exact hstays.1 hpath
    have hfolder := (hopened.m3u hm3u).1
    rw [or_iff_left hmoved]
    constructor
    · rintro ⟨⟨himages, -, -⟩, -, hkeeps, -⟩
      rw [hm3u, hgame, OpenGame.openPath_m3uPath_iff] at hkeeps
      obtain ⟨hopens, hsame, hexists⟩ := hkeeps
      have hreplaces : s.replacesImage := by
        by_contra hno
        rw [hkept (by simpa using hno)] at himages
        simp at himages
      rw [(hgiven hreplaces).1, List.append_cancel_left_eq, List.cons.injEq, hgame] at himages
      exact ⟨hreplaces, hopens, (image_eq_iff hopens _).mp himages.1,
        m3uOf_eq_iff.mp (hsame.symm.trans hfolder), hexists⟩
    · rintro ⟨hreplaces, hopens, hwhole, hbeside, hexists⟩
      have hkeeps : (s.changeTo path o).opened.game.m3uPath = some m3u := by
        rw [hgame, OpenGame.openPath_m3uPath_iff]
        exact ⟨hopens, hfolder.trans (m3uOf_eq_iff.mpr hbeside).symm, hexists⟩
      refine ⟨⟨?_, (hgiven hreplaces).2, hpath⟩, ?_⟩
      · rw [(hgiven hreplaces).1, hgame, (image_eq_iff hopens _).mpr hwhole]
      · exact .of_m3u hopened ⟨_, _, _, hgame⟩ hm3u hkeeps

/-- What the session of the in-game menu knows of the discs. -/
def Known (s : DiscState) (session : Session) : Prop :=
  session.fs = s.fs ∧ session.replacesImage = s.replacesImage ∧ session.game = s.opened.game ∧
    session.changeDisc = s.changeDisc

/-- The change of discs of the session is this one, seen from there. -/
theorem Known.changeTo {session : Session} (h : s.Known session) (htmp : s.opened.tmpPath = []) :
    (s.changeTo path o).Known (session.changeTo path (s.changeTo path o).opened.isOpen) := by
  obtain ⟨hfs, hreplaces, hgame, hchange⟩ := h
  unfold Session.changeTo DiscState.changeTo
  rw [hfs, hgame, hreplaces]
  have hclose : s.opened.close s.fs = s.fs := if_pos htmp
  have hopen : (OpenGame.openPath s.loader s.fs path o).game =
      Game.open s.fs path (OpenGame.openPath s.loader s.fs path o).isOpen := by
    by_cases hopens : OpenGame.Opens s.loader path o
    · obtain ⟨hsame, hisOpen, -⟩ := OpenGame.openPath_of_opens s.fs hopens
      rw [hsame, hisOpen]
    · obtain ⟨hsame, hisOpen⟩ := OpenGame.openPath_of_not_opens s.fs hopens
      rw [hsame, hisOpen]
  by_cases hstays : s.opened.game.path = path ∨ !s.fs.exists path
  · rw [if_pos hstays, if_pos (by simpa [exactMatch] using hstays)]
    exact ⟨hfs, hreplaces, hgame, hchange⟩
  · rw [if_neg hstays, if_neg (by simpa [exactMatch] using hstays)]
    dsimp only
    rw [hclose]
    cases s.replacesImage with
    | false => exact ⟨rfl, rfl, hopen.symm, hchange⟩
    | true => exact ⟨rfl, rfl, hopen.symm, rfl⟩

end DiscState

/-! ## A game on two discs -/

def discPath (name : String) : CString := "/mnt/sdcard/Roms/PS/Game/".toList ++ name.toList

def twoDiscs : FileSystem :=
  .ofLists [(discPath "Game.m3u", "1.cue\n2.cue\n".toList), (discPath "1.cue", []),
    (discPath "2.cue", [])] []

/-- A disc of one byte, whose file can be opened or not. -/
def oneByte (fopen : Bool) : Opening := ⟨.none, fopen, [0], true, 1⟩

/-- The first disc is in a core that can change discs. -/
def firstDisc : DiscState where
  fs := twoDiscs
  loader := ⟨["cue".toList], false⟩
  replacesImage := true
  opened := OpenGame.openPath ⟨["cue".toList], false⟩ twoDiscs (discPath "1.cue") (oneByte true)
  images := []
  changeDisc := none

namespace DiscState

theorem tag_fits : "PS".toList.length < 8 := by decide

theorem name_fits : "pcsx_rearmed".toList.length < 128 := by decide

def pcsx : Core := ⟨⟨"PS".toList, tag_fits⟩, ⟨"pcsx_rearmed".toList, name_fits⟩⟩

theorem changeTo_secondDisc :
    Changed (discPath "2.cue") (oneByte true) firstDisc
        (firstDisc.changeTo (discPath "2.cue") (oneByte true)) ∧
      SameGame pcsx firstDisc (firstDisc.changeTo (discPath "2.cue") (oneByte true)) := by
  have hm3u : firstDisc.opened.game.m3uPath = some (discPath "Game.m3u") := by decide +kernel
  have hopens : firstDisc.Opens (discPath "2.cue") (oneByte true) (discPath "Game.m3u") :=
    ⟨⟨fun _ => by decide, fun _ => ⟨rfl, rfl⟩⟩, fun _ => by decide, by decide +kernel,
      by decide +kernel⟩
  have hopened : OpenGame.Opened firstDisc.loader firstDisc.opened :=
    ⟨twoDiscs, discPath "1.cue", oneByte true, rfl⟩
  obtain ⟨hchanged | hunchanged, hsame⟩ :=
    (changeTo_allOrNothing_iff pcsx firstDisc hopened hm3u (discPath "2.cue") (oneByte true)).mpr
      (.inr (.inr ⟨rfl, hopens⟩))
  · exact ⟨hchanged, hsame⟩
  · have hpath := congrArg (fun g : OpenGame => g.game.path) hunchanged.2.2
    exact absurd hpath (by decide +kernel)

/-- A second disc that cannot be opened leaves no game, and is given to the core and to the
launcher nevertheless. -/
theorem secondDisc_lost :
    ¬ ((Changed (discPath "2.cue") (oneByte false) firstDisc
          (firstDisc.changeTo (discPath "2.cue") (oneByte false)) ∨
        Unchanged firstDisc (firstDisc.changeTo (discPath "2.cue") (oneByte false))) ∧
      SameGame pcsx firstDisc (firstDisc.changeTo (discPath "2.cue") (oneByte false))) := by
  have hm3u : firstDisc.opened.game.m3uPath = some (discPath "Game.m3u") := by decide +kernel
  have hlost : (firstDisc.changeTo (discPath "2.cue") (oneByte false)).opened.game.m3uPath =
      none := by decide +kernel
  rintro ⟨-, -, hsame, -⟩
  rw [hlost, hm3u] at hsame
  cases hsame

end DiscState
end DarkUI.Minarch
