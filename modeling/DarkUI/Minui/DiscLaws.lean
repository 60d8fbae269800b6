import DarkUI.Minui.ResumeLaws

/-! # The first disc of a game

The list of discs leaves out those that are missing. The search for the first disc stops at
the first line of the `.m3u`, whether its disc is there or not, and opening the `.m3u` does
not look at what it found.
-/

namespace DarkUI.Minui

open Text

variable {host : Host} {uninit : Uninit} {fs : FileSystem} {m3u held path : CString}

/-- The lines of an `.m3u` that are not empty. -/
def m3uLines (fs : FileSystem) (m3u : CString) : List CString :=
  (fs.file m3u).elim [] nonEmptyLines

/-- The search finds a disc just when one is listed, and it is the first of the list. -/
structure PicksFirst (host : Host) (fs : FileSystem) (m3u held : CString) : Prop where
  found_iff : (getFirstDisc fs m3u held).1 = true ↔ getDiscs host fs m3u ≠ []
  disc_eq : (getFirstDisc fs m3u held).1 = true →
    (getDiscs host fs m3u).head?.map (·.path) = some (getFirstDisc fs m3u held).2

/-- The disc of the first line exists, if there is a line. -/
def FirstLineExists (fs : FileSystem) (m3u : CString) : Prop :=
  ∀ line, (m3uLines fs m3u).head? = some line → fs.exists (discPath m3u line) = true

theorem getDiscs_paths (host : Host) (fs : FileSystem) (m3u : CString) :
    (getDiscs host fs m3u).map (·.path) =
      ((m3uLines fs m3u).map (discPath m3u)).filter fs.exists := by
  unfold getDiscs m3uLines
  dsimp only
  apply List.ext_getElem?
  intro i
  rw [List.getElem?_map, List.getElem?_mapIdx, Option.map_map]
  exact Option.map_id'

/-- The search looks at the first line alone. -/
theorem getFirstDisc_eq (fs : FileSystem) (m3u held : CString) :
    getFirstDisc fs m3u held =
      match m3uLines fs m3u with
      | [] => (false, held)
      | line :: _ => (fs.exists (discPath m3u line), discPath m3u line) :=
  rfl

theorem getDiscs_eq_nil (host : Host) (fs : FileSystem) (m3u : CString) :
    getDiscs host fs m3u = [] ↔
      ∀ line ∈ m3uLines fs m3u, fs.exists (discPath m3u line) = false := by
  have hpaths := getDiscs_paths host fs m3u
  rw [← List.map_eq_nil_iff, hpaths, List.filter_eq_nil_iff, List.forall_mem_map]
  simp

/-- The search picks the first disc listed just when no disc is listed or the first line's is. -/
theorem picksFirst_iff : PicksFirst host fs m3u held ↔
    FirstLineExists fs m3u ∨
      ∀ line ∈ m3uLines fs m3u, fs.exists (discPath m3u line) = false := by
  have hpaths := getDiscs_paths host fs m3u
  have hnil := getDiscs_eq_nil host fs m3u
  unfold FirstLineExists at *
  cases hlines : m3uLines fs m3u with
  | nil =>
      have hnone : getFirstDisc fs m3u held = (false, held) := by
        rw [getFirstDisc_eq, hlines]
      rw [hlines] at hnil
      refine iff_of_true ⟨?_, ?_⟩ (.inr fun line hline => nomatch hline)
      · rw [hnone, hnil.mpr fun line hline => nomatch hline]
        simp
      · rw [hnone]
        intro h
        cases h
  | cons line rest =>
      have hfirst : getFirstDisc fs m3u held =
          (fs.exists (discPath m3u line), discPath m3u line) := by
        rw [getFirstDisc_eq, hlines]
      rw [hlines] at hpaths hnil
      rw [List.map_cons] at hpaths
      cases hexists : fs.exists (discPath m3u line) with
      | true =>
          rw [List.filter_cons_of_pos hexists] at hpaths
          refine iff_of_true ⟨?_, ?_⟩ (.inl fun other hother => ?_)
          · rw [hfirst]
            refine iff_of_true hexists fun hempty => ?_
            rw [hempty] at hpaths
            cases hpaths
          · intro _
            rw [← List.head?_map, hpaths, hfirst]
            rfl
          · cases hother
            exact hexists
      | false =>
          -- The search has given up at the first line, so the picker must have nothing either.
          constructor
          · intro h
            refine .inr (hnil.mp ?_)
            by_contra hsome
            have hfound := h.found_iff.mpr hsome
            rw [hfirst, hexists] at hfound
            cases hfound
          · rintro (hthere | hnone)
            · rw [hthere line rfl] at hexists
              cases hexists
            · refine ⟨?_, fun hfound => ?_⟩
              · rw [hfirst, hnil.mpr hnone, hexists]
                simp
              · rw [hfirst, hexists] at hfound
                cases hfound

namespace Launcher

variable {l : Launcher} {last : Option CString}

/-- The ROM in the command that opening a ROM queues, if the emulator is there. -/
def queuedRom (host : Host) (uninit : Uninit) (path : CString) (l : Launcher) : Option CString :=
  if l.fs.exists (getEmuPath host l.fs (getEmuName (launchedRom l.fs path))) then
    some (l.prepareSlot uninit path).1
  else none

theorem openRom_next (host : Host) (uninit : Uninit) (path : CString) (last : Option CString)
    (l : Launcher) :
    (l.openRom host uninit path last).store.tmp.next =
      (l.queuedRom host uninit path).elim l.store.tmp.next fun romPath =>
        some (romCommand (getEmuPath host l.fs (getEmuName (launchedRom l.fs path))) romPath) := by
  unfold openRom queuedRom
  dsimp only
  rw [prepareSlot_state]
  have hfs : Launcher.fs
      { l.note ({ · with resumeSlot := some (l.handedSlot uninit) }) with shouldResume := false } =
        l.fs := rfl
  rw [hfs]
  cases l.fs.exists (getEmuPath host l.fs (getEmuName (launchedRom l.fs path))) with
  | true => simp [queueNext, note, saveLast, addRecent]
  | false => simp [note]

/-- Nothing is launched that is not there. -/
def QueuesExisting (host : Host) (uninit : Uninit) (path : CString) (l : Launcher) : Prop :=
  ∀ romPath, queuedRom host uninit path l = some romPath → l.fs.exists romPath = true

/-- The disc that was recorded for the state being resumed. -/
def resumedFrom (uninit : Uninit) (path : CString) (l : Launcher) : Option CString :=
  let record := slotDiscFile (getEmuName (launchedRom l.fs path)) (m3uPath path)
    (l.resumedSlot uninit)
  if (l.shouldResume && hasM3u l.fs path) && l.fs.exists record then
    some (recordedDisc (m3uPath path) ((l.fs.getFile record maxPath).getD uninit.disc))
  else none

/-- The line that opening a ROM takes its disc from: a game's own `.m3u` is opened by its
first line. -/
def openedLine (fs : FileSystem) (path : CString) : Option CString :=
  if hasM3u fs path && suffixMatch ".m3u".toList path then (m3uLines fs (m3uPath path)).head?
  else none

/-- The recorded disc is there; where none was recorded, the disc of the line that is opened,
and without such a line the file itself. -/
def DiscThere (uninit : Uninit) (path : CString) (l : Launcher) : Prop :=
  match resumedFrom uninit path l with
  | some disc => l.fs.exists disc = true
  | none =>
      (∀ line, openedLine l.fs path = some line →
        l.fs.exists (discPath (m3uPath path) line) = true) ∧
      (openedLine l.fs path = none → l.fs.exists path = true)

theorem prepareSlot_eq (uninit : Uninit) (path : CString) (l : Launcher) :
    (l.prepareSlot uninit path).1 = (resumedFrom uninit path l).getD (launchedRom l.fs path) := by
  rw [prepareSlot_rom]
  unfold resumedFrom resumedDisc
  dsimp only
  cases l.shouldResume && hasM3u l.fs path with
  | true =>
      simp only [Bool.true_and, if_true]
      split <;> rfl
  | false => rfl

theorem launchedRom_eq (fs : FileSystem) (path : CString) :
    launchedRom fs path = (openedLine fs path).elim path (discPath (m3uPath path)) := by
  unfold launchedRom openedLine
  cases hasM3u fs path && suffixMatch ".m3u".toList path with
  | true =>
      simp only [if_true, getFirstDisc_eq]
      cases m3uLines fs (m3uPath path) with
      | nil => rfl
      | cons line rest => rfl
  | false => rfl

theorem exists_launchedRom (fs : FileSystem) (path : CString) :
    fs.exists (launchedRom fs path) = true ↔
      (∀ line, openedLine fs path = some line →
        fs.exists (discPath (m3uPath path) line) = true) ∧
      (openedLine fs path = none → fs.exists path = true) := by
  rw [launchedRom_eq]
  cases openedLine fs path with
  | none => simp
  | some line => simp

theorem queuesExisting_iff : l.QueuesExisting host uninit path ↔
    l.fs.exists (getEmuPath host l.fs (getEmuName (launchedRom l.fs path))) = false ∨
      l.DiscThere uninit path := by
  have hthere : l.fs.exists (l.prepareSlot uninit path).1 = true ↔ l.DiscThere uninit path := by
    rw [prepareSlot_eq, DiscThere]
    cases resumedFrom uninit path l with
    | none => exact exists_launchedRom l.fs path
    | some disc => rfl
  unfold QueuesExisting queuedRom
  cases l.fs.exists (getEmuPath host l.fs (getEmuName (launchedRom l.fs path))) with
  | true => simpa using hthere
  | false => simp

/-- The search picks the first disc just when none is listed or the first line's is there; and
opening a ROM launches nothing missing just when its emulator is missing or the disc it is
resumed from, else the first of its `.m3u`, is there. -/
theorem firstDisc_iff (host : Host) (uninit : Uninit) (m3u held path : CString)
    (last : Option CString) (l : Launcher) :
    (PicksFirst host l.fs m3u held ↔
      FirstLineExists l.fs m3u ∨
        ∀ line ∈ m3uLines l.fs m3u, l.fs.exists (discPath m3u line) = false) ∧
    ((l.openRom host uninit path last).store.tmp.next =
      (l.queuedRom host uninit path).elim l.store.tmp.next fun romPath =>
        some (romCommand (getEmuPath host l.fs (getEmuName (launchedRom l.fs path))) romPath)) ∧
    (l.QueuesExisting host uninit path ↔
      l.fs.exists (getEmuPath host l.fs (getEmuName (launchedRom l.fs path))) = false ∨
        l.DiscThere uninit path) :=
  ⟨picksFirst_iff, openRom_next host uninit path last l, queuesExisting_iff⟩

/-- The `.m3u` of a game whose first disc is missing. -/
def gameM3u : CString := "/mnt/sdcard/Roms/PS/Game/Game.m3u".toList

/-- Only the second disc is there: it is listed and not found, and the first one is launched. -/
theorem secondDisc_not_first :
    ∃ l : Launcher, l = start stableHost (discsCard false) Tmp.empty ∧
      l.fs.exists gameM3u = true ∧
      ¬ PicksFirst stableHost l.fs gameM3u [] ∧
      ¬ l.QueuesExisting stableHost Frame.idle.uninit gameM3u ∧
      l.fs.exists "/mnt/sdcard/Roms/PS/Game/d1.cue".toList = false ∧
      (l.openRom stableHost Frame.idle.uninit gameM3u none).store.tmp.next =
        some ("'/mnt/sdcard/.system/rg35xx/paks/Emus/PS.pak/launch.sh'".toList ++
          " '/mnt/sdcard/Roms/PS/Game/d1.cue'".toList) := by
  refine ⟨start stableHost (discsCard false) Tmp.empty, rfl, by decide +kernel,
    fun hpicks => ?_, fun hqueues => ?_, by decide +kernel, by decide +kernel⟩
  · have hlisted : getDiscs stableHost
        (start stableHost (discsCard false) Tmp.empty).fs gameM3u ≠ [] := by
      decide +kernel
    have hfound := hpicks.found_iff.mpr hlisted
    revert hfound
    decide +kernel
  · have hthere := hqueues "/mnt/sdcard/Roms/PS/Game/d1.cue".toList (by decide +kernel)
    revert hthere
    decide +kernel

end Launcher
end DarkUI.Minui
