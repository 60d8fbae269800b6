import DarkUI.Minui.WindowLaws

/-! # The intent to resume

RESUME sets a flag that only the opening of a ROM clears. Between frames the flag is
clear and what can be resumed belongs to the selected entry, unless RESUME opened a
folder that launches nothing.
-/

namespace DarkUI.Minui

open Text Run

/-- Opening a directory writes no launch. -/
theorem Directory.new_next {host : Host} {simpleMode : Bool} {path : CString} {window : Window}
    {store : Store} :
    (Directory.new host simpleMode path window store).2.tmp.next = store.tmp.next := by
  simp only [Directory.new, Directory.load]
  split <;> rfl

namespace Launcher

variable {host : Host} {uninit : Uninit} {frame : Frame} {l l' m : Launcher}

/-- The slot that opening a ROM hands to the emulator. -/
def handedSlot (uninit : Uninit) (l : Launcher) : CString :=
  if l.shouldResume then l.resumedSlot uninit else decimal 8

theorem prepareSlot_state (path : CString) :
    (l.prepareSlot uninit path).2 =
      { l.note ({ · with resumeSlot := some (l.handedSlot uninit) }) with
        shouldResume := false } := by
  unfold prepareSlot handedSlot
  dsimp only
  cases hresume : l.shouldResume with
  | true =>
      simp only [if_true]
      split <;> rfl
  | false =>
      simp only [Bool.false_eq_true, if_false, note]
      rw [← hresume]

/-- The ROM that is launched: a resumed game with discs may have been left on another one. -/
theorem prepareSlot_rom (path : CString) : (l.prepareSlot uninit path).1 =
    if l.shouldResume && hasM3u l.fs path then
      resumedDisc uninit l.fs (getEmuName (launchedRom l.fs path)) (m3uPath path)
        (l.resumedSlot uninit) (launchedRom l.fs path)
    else launchedRom l.fs path := by
  unfold prepareSlot
  dsimp only
  cases hresume : l.shouldResume with
  | true =>
      cases hdiscs : hasM3u l.fs path with
      | true => rfl
      | false => rfl
  | false => rfl

/-- Opening a ROM takes the flag and writes a slot, and then launches or changes
nothing else. -/
structure OpenedRom (uninit : Uninit) (l l' : Launcher) : Prop where
  clear : l'.shouldResume = false
  slot : l'.store.tmp.resumeSlot = some (l.handedSlot uninit)
  launched : l'.quit = true ∨
    l' = { l.note ({ · with resumeSlot := some (l.handedSlot uninit) }) with
      shouldResume := false }

theorem openRom_opened (path : CString) (last : Option CString) :
    OpenedRom uninit l (l.openRom host uninit path last) := by
  unfold openRom
  dsimp only
  rw [prepareSlot_state]
  split
  next => exact ⟨rfl, rfl, .inr rfl⟩
  next => exact ⟨rfl, rfl, .inl rfl⟩

/-- Between frames: no intent is left over, no launch is queued, and what can be
resumed is the selected entry. -/
structure Clear (l : Launcher) : Prop where
  clear : l.shouldResume = false
  queued : l.store.tmp.next = none
  ready : l.canResume = true → 0 < l.top.total → ∀ entry, l.selectedEntry = some entry →
    resumeSlotFile l.fs entry.path entry.type = some l.slotPath

theorem readyResume_notes (entry : Entry) (l : Launcher) :
    (readyResume entry l).shouldResume = l.shouldResume ∧
      (readyResume entry l).store = l.store := by
  unfold readyResume
  split <;> exact ⟨rfl, rfl⟩

theorem readySelected_notes (h : l.readySelected = some l') :
    l'.shouldResume = l.shouldResume ∧ l'.store = l.store := by
  unfold readySelected at h
  split at h
  next =>
    obtain ⟨entry, _, rfl⟩ := Option.map_eq_some_iff.mp h
    exact readyResume_notes entry l
  next =>
    cases h
    exact ⟨rfl, rfl⟩

/-- After `readyResume` of the selected entry the slot is that entry's. -/
theorem readySelected_clear (hclear : l.shouldResume = false) (hqueued : l.store.tmp.next = none)
    (h : l.readySelected = some l') : l'.Clear := by
  obtain ⟨hshould, hstore⟩ := readySelected_notes h
  refine ⟨hshould.trans hclear, by rw [hstore, hqueued], ?_⟩
  unfold readySelected at h
  split at h
  next =>
    obtain ⟨entry, hentry, rfl⟩ := Option.map_eq_some_iff.mp h
    unfold readyResume
    split
    next =>
      intro hcan
      cases hcan
    next path hpath =>
      intro _ _ other hother
      have heq : other = entry := Option.some.inj (hother.symm.trans hentry)
      rw [heq]
      exact hpath
  next hempty =>
    cases h
    exact fun _ hpos => absurd hpos hempty

theorem Clear.setFlags (h : l.Clear) (showVersion dirty : Bool) :
    Clear { l with showVersion := showVersion, dirty := dirty } :=
  ⟨h.clear, h.queued, h.ready⟩

theorem Clear.settle (h : l.Clear) (hsettle : l.settle host frame = some m) : m.Clear := by
  simp only [Launcher.settle, Launcher.move, Option.bind_eq_bind, Option.bind_eq_some_iff,
    Option.pure_def, Option.some.injEq] at hsettle
  obtain ⟨moved, ⟨w, _, rfl⟩, hready⟩ := hsettle
  split at hready
  next => exact readySelected_clear (by exact h.clear) (by exact h.queued) hready
  next hdirty =>
    -- a clean frame has not moved the selection
    cases hready
    simp only [Bool.or_eq_true, decide_eq_true_eq, not_or, not_not] at hdirty
    refine ⟨h.clear, h.queued, fun hcan htotal entry hentry => h.ready hcan htotal entry ?_⟩
    rw [← hentry]
    exact congrArg l.top.item hdirty.2.symm

/-! ## The buttons -/

/-- RESUME opens a folder only if that launches a disc. -/
def ResumeLaunches (host : Host) (l : Launcher) (frame : Frame) : Prop :=
  ∀ m entry, l.showVersion = false →
    Launcher.settle host frame { l with dirty := l.dirty || frame.redraw } = some m →
    m.resumes frame = true → m.selectedEntry = some entry → entry.type = .dir →
      (autoLaunch m.fs entry.path).isSome = true

/-- What is opened takes a slot: it is no pak, and a slot to resume can be read. -/
def TakesSlot (host : Host) (l : Launcher) (frame : Frame) : Prop :=
  ∀ m entry, l.showVersion = false →
    Launcher.settle host frame { l with dirty := l.dirty || frame.redraw } = some m →
    m.selectedEntry = some entry → (m.resumes frame || frame.pad.justPressed .a) = true →
      entry.type ≠ .pak ∧ (m.resumes frame = true → (m.fs.file m.slotPath).isSome = true)

/-- The slot that a launch has to hand over in the state that the buttons meet. -/
def DueSlot (frame : Frame) (m : Launcher) (slot : CString) : Prop :=
  if m.resumes frame then
    ∃ entry path, m.selectedEntry = some entry ∧
      resumeSlotFile m.fs entry.path entry.type = some path ∧ m.fs.getFile path 16 = some slot
  else slot = decimal 8

theorem openDirectory_of_none {path : CString} (h : autoLaunch l.fs path = none) :
    l.openDirectory host uninit path = l.push host path := by
  simp [openDirectory, h]

theorem openDirectory_of_some {path romPath : CString} (h : autoLaunch l.fs path = some romPath) :
    l.openDirectory host uninit path = l.openRom host uninit romPath (some path) := by
  simp [openDirectory, h]

theorem push_next (path : CString) :
    (l.push host path).store.tmp.next = l.store.tmp.next :=
  @Directory.new_next _ _ _ l.restoredWindow _

/-- Opening an entry opens a ROM, a pak, or a folder that launches nothing. -/
theorem openEntry_cases (entry : Entry) :
    (entry.type ≠ .pak ∧ ∃ path last, l.openEntry host uninit entry =
      Launcher.openRom host uninit path last { l with recentAlias := some entry.name }) ∨
    (entry.type = .pak ∧ (l.openEntry host uninit entry).quit = true) ∨
    (entry.type = .dir ∧ autoLaunch l.fs entry.path = none ∧
      l.openEntry host uninit entry =
        Launcher.push host entry.path { l with recentAlias := some entry.name }) := by
  unfold openEntry
  cases htype : entry.type with
  | rom => exact .inl ⟨by decide, _, _, rfl⟩
  | pak => exact .inr (.inl ⟨rfl, rfl⟩)
  | dir =>
      cases hauto : autoLaunch l.fs entry.path with
      | none =>
          exact .inr (.inr ⟨rfl, rfl, openDirectory_of_none hauto⟩)
      | some romPath =>
          exact .inl ⟨by decide, romPath, some entry.path, openDirectory_of_some hauto⟩

/-- RESUME leaves the launcher running only where a ROM was opened that launches
nothing. -/
theorem Clear.resume (h : l.Clear)
    (hlaunches : ∀ entry, l.selectedEntry = some entry → entry.type = .dir →
      (autoLaunch l.fs entry.path).isSome = true)
    (hresume : l.resume host frame = some l') : l'.quit = true ∨ l'.Clear := by
  simp only [Launcher.resume, Option.bind_eq_bind, Option.bind_eq_some_iff, Option.pure_def,
    Option.some.injEq] at hresume
  obtain ⟨entry, hentry, rfl⟩ := hresume
  rcases openEntry_cases
      (l := { l with shouldResume := true }) entry with
    ⟨_, path, last, heq⟩ | ⟨_, hquit⟩ | ⟨htype, hauto, _⟩
  · rw [heq]
    have hopened := @openRom_opened host frame.uninit
      (l := { l with shouldResume := true, recentAlias := some entry.name }) path last
    rcases hopened.launched with hquit | hsame
    · exact .inl hquit
    · rw [hsame]
      exact .inr ⟨rfl, h.queued, h.ready⟩
  · exact .inl hquit
  · have hsome := hlaunches entry hentry htype
    rw [show autoLaunch l.fs entry.path = none from hauto] at hsome
    cases hsome

theorem Clear.openSelected (h : l.Clear) (hopen : l.openSelected host frame = some l') :
    l'.quit = true ∨ l'.Clear := by
  simp only [Launcher.openSelected, Option.bind_eq_bind, Option.bind_eq_some_iff] at hopen
  obtain ⟨entry, _, hready⟩ := hopen
  rcases openEntry_cases (l := l) entry with
    ⟨_, path, last, heq⟩ | ⟨_, hquit⟩ | ⟨_, _, heq⟩
  · rw [heq] at hready
    have hopened := @openRom_opened host frame.uninit
      (l := { l with recentAlias := some entry.name }) path last
    rcases hopened.launched with hquit | hsame
    · exact .inl ((readySelected_view hready).2.trans hquit)
    · refine .inr (readySelected_clear ?_ ?_ hready)
      · exact hopened.clear
      · dsimp only
        rw [hsame]
        exact h.queued
  · exact .inl ((readySelected_view hready).2.trans hquit)
  · rw [heq] at hready
    refine .inr (readySelected_clear ?_ ?_ hready)
    · exact h.clear
    · exact (push_next _).trans h.queued

theorem closeDirectory_notes (h : l.closeDirectory = some l') :
    l'.shouldResume = l.shouldResume ∧ l'.store = l.store ∧ l'.canResume = l.canResume := by
  unfold closeDirectory at h
  split at h
  next => cases h
  next =>
    cases h
    exact ⟨rfl, rfl, rfl⟩

theorem rebuild_notes {path : CString} (h : l.rebuild host frame path = some l') :
    l'.shouldResume = l.shouldResume ∧ l'.store.tmp.next = l.store.tmp.next ∧
      l'.canResume = l.canResume := by
  have hnext : (Directory.new host l.simpleMode l.top.path
      ⟨l.top.selected, frame.uninit.start, frame.uninit.end⟩
      { l.store with fs := l.fs.unlink path }).2.tmp.next = l.store.tmp.next :=
    Directory.new_next
  unfold rebuild at h
  dsimp only at h
  split at h
  next =>
    split at h
    next =>
      obtain ⟨hshould, hstore, hcan⟩ := closeDirectory_notes h
      exact ⟨hshould, by rw [hstore]; exact hnext, hcan⟩
    next =>
      cases h
      exact ⟨rfl, hnext, rfl⟩
  next =>
    cases h
    exact ⟨rfl, hnext, rfl⟩

/-- A collection cannot be resumed. -/
theorem resumeSlotFile_of_collection {fs : FileSystem} {entry : Entry}
    (h : isCollectionFile entry) : resumeSlotFile fs entry.path entry.type = none := by
  simp only [isCollectionFile, Bool.and_eq_true] at h
  have hcollections : prefixMatch collectionsPath entry.path = true := h.1
  have hroms : prefixMatch romsPath entry.path = false := by
    by_contra hroms
    simp only [prefixMatch, List.isPrefixOf_iff_prefix, Bool.not_eq_false] at hroms hcollections
    have hprefix := List.prefix_of_prefix_length_le hroms hcollections (by decide)
    exact absurd hprefix (by decide)
  simp [resumeSlotFile, hroms]

theorem Clear.delete (h : l.Clear) (hdeletes : l.deletes frame = some true)
    (hdelete : l.delete host frame = some l') : l'.Clear := by
  obtain ⟨_, entry, hentry, hfile⟩ := of_deletes hdeletes
  simp only [Launcher.delete, Option.bind_eq_bind, Option.bind_eq_some_iff, Option.pure_def,
    Option.some.injEq, Prod.exists] at hdelete
  obtain ⟨changed, m, hdelete, rfl⟩ := hdelete
  refine Clear.setFlags ?_ m.showVersion _
  -- a collection has no state that could be resumed
  have hnoResume : 0 < l.top.total → l.canResume = false := by
    intro htotal
    cases hcan : l.canResume with
    | false => rfl
    | true =>
        have hready := h.ready hcan htotal entry hentry
        rw [resumeSlotFile_of_collection hfile] at hready
        cases hready
  unfold deleteSelectedCollection at hdelete
  split at hdelete
  next =>
    cases hdelete
    exact h
  next hsome =>
    simp only [hentry, hfile, Option.bind_eq_bind, Option.bind_some] at hdelete
    split_ifs at hdelete
    next => cases hdelete; exact h
    next => cases hdelete; exact h
    next => cases hdelete; exact h
    next =>
      obtain ⟨rebuilt, hrebuild, heq⟩ := Option.bind_eq_some_iff.mp hdelete
      cases heq
      obtain ⟨hshould, hqueued, hcan⟩ := rebuild_notes hrebuild
      refine ⟨hshould.trans h.clear, hqueued.trans h.queued, fun hresumes => ?_⟩
      rw [hcan, hnoResume (by simp only [Directory.total] at hsome ⊢; omega)] at hresumes
      cases hresumes

/-- Y, B and no button at all open nothing. -/
theorem Clear.act_other (h : l.Clear) (hresumes : ¬ l.resumes frame = true)
    (hopens : ¬ (decide (0 < l.top.total) && frame.pad.justPressed .a) = true)
    (hact : l.act host frame = some l') : l'.Clear := by
  unfold Launcher.act at hact
  rw [if_neg hresumes, if_neg hopens] at hact
  simp only [Option.bind_eq_bind, Option.bind_eq_some_iff] at hact
  obtain ⟨deletes, hdeletes, hact⟩ := hact
  cases deletes with
  | true => exact h.delete hdeletes hact
  | false =>
      simp only [Bool.false_eq_true, if_false] at hact
      split at hact
      next =>
        simp only [Launcher.goBack, Option.bind_eq_bind, Option.bind_eq_some_iff] at hact
        obtain ⟨closed, hclose, hready⟩ := hact
        obtain ⟨hshould, hstore, _⟩ := closeDirectory_notes hclose
        refine readySelected_clear ?_ ?_ hready
        · exact hshould.trans h.clear
        · rw [← h.queued, ← hstore]
      next =>
        cases hact
        exact h

theorem Clear.act (h : l.Clear)
    (hlaunches : ∀ entry, l.resumes frame = true → l.selectedEntry = some entry →
      entry.type = .dir → (autoLaunch l.fs entry.path).isSome = true)
    (hact : l.act host frame = some l') : l'.quit = true ∨ l'.Clear := by
  by_cases hresumes : l.resumes frame = true
  · unfold Launcher.act at hact
    rw [if_pos hresumes] at hact
    exact h.resume (fun entry => hlaunches entry hresumes) hact
  · by_cases hopens : (decide (0 < l.top.total) && frame.pad.justPressed .a) = true
    · unfold Launcher.act at hact
      rw [if_neg hresumes, if_pos hopens] at hact
      exact h.openSelected hact
    · exact .inr (h.act_other hresumes hopens hact)

/-- Resuming writes the slot that was found for the entry. -/
theorem Clear.resume_due (h : m.Clear) (hresumes : m.resumes frame = true)
    (htakes : ∀ entry, m.selectedEntry = some entry →
      entry.type ≠ .pak ∧ (m.fs.file m.slotPath).isSome = true)
    (hact : m.resume host frame = some l') (hqueued : l'.store.tmp.next.isSome = true) :
    ∃ slot, l'.store.tmp.resumeSlot = some slot ∧ DueSlot frame m slot := by
  simp only [Launcher.resume, Option.bind_eq_bind, Option.bind_eq_some_iff, Option.pure_def,
    Option.some.injEq] at hact
  obtain ⟨entry, hentry, rfl⟩ := hact
  obtain ⟨hpak, hfile⟩ := htakes entry hentry
  obtain ⟨content, hcontent⟩ := Option.isSome_iff_exists.mp hfile
  have hread : m.fs.getFile m.slotPath 16 = some (fileText 16 content) := by
    simp [FileSystem.getFile, hcontent]
  rcases openEntry_cases
      (l := { m with shouldResume := true }) entry with
    ⟨_, path, last, heq⟩ | ⟨htype, _⟩ | ⟨_, _, heq⟩
  · have hopened := @openRom_opened host frame.uninit
      (l := { m with shouldResume := true, recentAlias := some entry.name }) path last
    rw [heq]
    refine ⟨fileText 16 content, ?_, ?_⟩
    · refine hopened.slot.trans ?_
      change some ((m.fs.getFile m.slotPath 16).getD frame.uninit.slot) = _
      rw [hread]
      rfl
    · have hcan := hresumes
      simp only [resumes, Bool.and_eq_true, decide_eq_true_eq] at hcan
      have hready := h.ready hcan.1.2 hcan.1.1 entry hentry
      simp only [DueSlot, hresumes, if_true]
      exact ⟨entry, m.slotPath, hentry, hready, hread⟩
  · exact absurd htype hpak
  · -- A directory is shown, and nothing is queued.
    rw [heq] at hqueued
    have hnone : (Launcher.push host entry.path
        { m with shouldResume := true, recentAlias := some entry.name }).store.tmp.next = none :=
      (push_next _).trans h.queued
    rw [hnone] at hqueued
    cases hqueued

/-- Opening without resuming writes the slot that stands for none. -/
theorem Clear.openSelected_due (h : m.Clear) (hresumes : ¬ m.resumes frame = true)
    (hpak : ∀ entry, m.selectedEntry = some entry → entry.type ≠ .pak)
    (hact : m.openSelected host frame = some l') (hqueued : l'.store.tmp.next.isSome = true) :
    ∃ slot, l'.store.tmp.resumeSlot = some slot ∧ DueSlot frame m slot := by
  simp only [Launcher.openSelected, Option.bind_eq_bind, Option.bind_eq_some_iff] at hact
  obtain ⟨entry, hentry, hready⟩ := hact
  have hstore := (readySelected_notes hready).2
  rcases openEntry_cases (l := m) entry with
    ⟨_, path, last, heq⟩ | ⟨htype, _⟩ | ⟨_, _, heq⟩
  · have hopened := @openRom_opened host frame.uninit
      (l := { m with recentAlias := some entry.name }) path last
    refine ⟨decimal 8, ?_, by simp [DueSlot, hresumes]⟩
    rw [hstore, heq]
    refine hopened.slot.trans ?_
    simp [handedSlot, h.clear]
  · exact absurd htype (hpak entry hentry)
  · rw [hstore, heq] at hqueued
    have hnone : (Launcher.push host entry.path
        { m with recentAlias := some entry.name }).store.tmp.next = none :=
      (push_next _).trans h.queued
    rw [hnone] at hqueued
    cases hqueued

/-- A launch writes the slot that is due. -/
theorem Clear.act_due (h : m.Clear)
    (htakes : ∀ entry, m.selectedEntry = some entry →
      (m.resumes frame || frame.pad.justPressed .a) = true →
        entry.type ≠ .pak ∧ (m.resumes frame = true → (m.fs.file m.slotPath).isSome = true))
    (hact : m.act host frame = some l') (hqueued : l'.store.tmp.next.isSome = true) :
    ∃ slot, l'.store.tmp.resumeSlot = some slot ∧ DueSlot frame m slot := by
  by_cases hresumes : m.resumes frame = true
  · unfold Launcher.act at hact
    rw [if_pos hresumes] at hact
    refine h.resume_due hresumes (fun entry hentry => ?_) hact hqueued
    obtain ⟨hpak, hfile⟩ := htakes entry hentry (by simp [hresumes])
    exact ⟨hpak, hfile hresumes⟩
  · by_cases hopens : (decide (0 < m.top.total) && frame.pad.justPressed .a) = true
    · unfold Launcher.act at hact
      rw [if_neg hresumes, if_pos hopens] at hact
      rw [Bool.and_eq_true] at hopens
      refine h.openSelected_due hresumes (fun entry hentry => ?_) hact hqueued
      exact (htakes entry hentry (by simp [hopens.2])).1
    · have hclear := h.act_other hresumes hopens hact
      rw [hclear.queued] at hqueued
      cases hqueued

/-! ## Whole runs -/

/-- The launch of one turn hands over the slot that is due. -/
def HandsOver (host : Host) (l : Launcher) (frame : Frame) (l' : Launcher) : Prop :=
  l'.store.tmp.next.isSome = true →
    ∃ m slot, Launcher.settle host frame { l with dirty := l.dirty || frame.redraw } = some m ∧
      l'.store.tmp.resumeSlot = some slot ∧ DueSlot frame m slot

theorem drawDirty_notes (h : l.drawDirty = some l') :
    l'.store = l.store ∧ (l.Clear → l'.Clear) ∧ l'.quit = l.quit := by
  unfold drawDirty at h
  split at h
  next =>
    obtain ⟨_, _, rfl⟩ := Option.map_eq_some_iff.mp h
    exact ⟨rfl, fun hclear => hclear.setFlags _ _, rfl⟩
  next =>
    cases h
    exact ⟨rfl, id, rfl⟩

theorem handleHdmi_notes (h : l.handleHdmi frame = some l') :
    (l'.quit = true ∨ l'.quit = l.quit ∧ (l.Clear → l'.Clear)) ∧
      l'.store.tmp.next = l.store.tmp.next ∧ l'.store.tmp.resumeSlot = l.store.tmp.resumeSlot := by
  unfold handleHdmi at h
  split at h
  next =>
    simp only [Option.bind_eq_bind, Option.bind_eq_some_iff, Option.pure_def,
      Option.some.injEq] at h
    obtain ⟨entry, _, rfl⟩ := h
    exact ⟨.inl rfl, rfl, rfl⟩
  next =>
    cases h
    exact ⟨.inr ⟨rfl, fun hclear => ⟨hclear.clear, hclear.queued, hclear.ready⟩⟩, rfl, rfl⟩

theorem Clear.turn (h : l.Clear) (hlaunches : ResumeLaunches host l frame)
    (hturn : l.turn host frame = some l') : l'.quit = true ∨ l'.Clear := by
  simp only [Launcher.turn, Option.bind_eq_bind, Option.bind_eq_some_iff] at hturn
  obtain ⟨input, hinput, drawn, hdraw, hhdmi⟩ := hturn
  have hdirty := h.setFlags l.showVersion (l.dirty || frame.redraw)
  have hafter : input.quit = true ∨ input.Clear := by
    unfold Launcher.handleInput at hinput
    split at hinput
    next =>
      cases hinput
      split
      next => exact .inr (h.setFlags false true)
      next => exact .inr hdirty
    next hversion =>
      simp only [Option.bind_eq_bind, Option.bind_eq_some_iff] at hinput
      obtain ⟨m, hsettle, hact⟩ := hinput
      exact (hdirty.settle hsettle).act
        (fun entry => hlaunches m entry (by simpa using hversion) hsettle) hact
  obtain ⟨_, hdrawClear, hdrawQuit⟩ := drawDirty_notes hdraw
  obtain ⟨hquit | ⟨hquit, hclear⟩, _, _⟩ := handleHdmi_notes hhdmi
  · exact .inl hquit
  · rcases hafter with hafter | hafter
    · exact .inl (hquit.trans (hdrawQuit.trans hafter))
    · exact .inr (hclear (hdrawClear hafter))

theorem Clear.turn_handsOver (h : l.Clear) (htakes : TakesSlot host l frame)
    (hturn : l.turn host frame = some l') : HandsOver host l frame l' := by
  simp only [Launcher.turn, Option.bind_eq_bind, Option.bind_eq_some_iff] at hturn
  obtain ⟨input, hinput, drawn, hdraw, hhdmi⟩ := hturn
  have hdirty := h.setFlags l.showVersion (l.dirty || frame.redraw)
  obtain ⟨hdrawStore, _, _⟩ := drawDirty_notes hdraw
  obtain ⟨_, hnext, hslot⟩ := handleHdmi_notes hhdmi
  intro hqueued
  rw [hnext, hdrawStore] at hqueued
  rw [hslot, hdrawStore]
  unfold Launcher.handleInput at hinput
  split at hinput
  next =>
    cases hinput
    have hnone : l.store.tmp.next.isSome = true := by
      split at hqueued <;> exact hqueued
    rw [h.queued] at hnone
    cases hnone
  next hversion =>
    simp only [Option.bind_eq_bind, Option.bind_eq_some_iff] at hinput
    obtain ⟨m, hsettle, hact⟩ := hinput
    obtain ⟨slot, hslot, hdue⟩ := (hdirty.settle hsettle).act_due
      (fun entry => htakes m entry (by simpa using hversion) hsettle) hact hqueued
    exact ⟨m, slot, hsettle, hslot, hdue⟩

/-- Restoring the last position opens directories only. -/
structure Fresh (l : Launcher) : Prop where
  clear : l.shouldResume = false
  queued : l.store.tmp.next = none
  resumable : l.canResume = false

theorem Fresh.scanLast (isMatch : Entry → Bool) (final : Bool) (rows : List (Entry × Nat))
    (h : l.Fresh) : (scanLast host isMatch final rows l).Fresh := by
  induction rows generalizing l with
  | nil => exact h
  | cons row rest ih =>
      have hselect : (l.selectRow host row.2).Fresh := ⟨h.clear, h.queued, h.resumable⟩
      unfold Launcher.scanLast
      split
      next =>
        split
        next => exact hselect
        next =>
          split
          next => exact ⟨h.clear, (push_next _).trans h.queued, h.resumable⟩
          next => exact ih hselect
      next => exact ih h

theorem Fresh.reopenLast (fullPath : CString) (paths : List CString) (h : l.Fresh) :
    (l.reopenLast host fullPath paths).Fresh := by
  induction paths generalizing l with
  | nil => exact h
  | cons path rest ih =>
      refine ih ?_
      unfold reopenStep
      split
      next => exact h
      next => exact h.scanLast _ _ _

theorem init_clear {fs : FileSystem} {tmp : Tmp} (hqueued : tmp.next = none)
    (hinit : init host fs tmp = some l) : l.Clear := by
  have hstart : (start host fs tmp).Fresh := by
    refine ⟨rfl, ?_, rfl⟩
    have hnext := @Directory.new_next host (fs.exists simpleModePath)
      sdcardPath ⟨0, 0, 0⟩ ⟨fs, tmp, []⟩
    exact hnext.trans hqueued
  have hfresh : l.Fresh := by
    unfold init loadLast at hinit
    split at hinit
    next =>
      cases hinit
      exact hstart
    next =>
      obtain ⟨paths, _, rfl⟩ := Option.map_eq_some_iff.mp hinit
      exact hstart.reopenLast _ _
  refine ⟨hfresh.clear, hfresh.queued, fun hcan => ?_⟩
  rw [hfresh.resumable] at hcan
  cases hcan

/-- At the start of every frame no intent to resume is left over, and every launch
hands over its slot: the default one for A, the one recorded for the selected entry
for RESUME. -/
theorem resume_intent_clear {fs : FileSystem} {tmp : Tmp} {l₀ : Launcher}
    (hqueued : tmp.next = none) (hinit : init host fs tmp = some l₀)
    (hreach : Reaches (fun l frame => turn host frame l)
      (fun l frame => l.quit = false ∧ ResumeLaunches host l frame) l₀ l)
    (hrunning : l.quit = false) :
    l.shouldResume = false ∧
      ∀ frame l', TakesSlot host l frame → l.turn host frame = some l' →
        HandsOver host l frame l' := by
  have hclear : l.quit = true ∨ l.Clear := by
    refine @Reaches.invariant _ _ _ _ _ _ (fun l => l.quit = true ∨ l.Clear) hreach
      (.inr (init_clear hqueued hinit)) fun hinv hallowed hturn => ?_
    rcases hinv with hquit | hinv
    · rw [hallowed.1] at hquit
      cases hquit
    · exact hinv.turn hallowed.2 hturn
  rcases hclear with hquit | hclear
  · rw [hrunning] at hquit
    cases hquit
  · exact ⟨hclear.clear, fun frame l' htakes hturn => hclear.turn_handsOver htakes hturn⟩

/-- A game on two discs with a slot recorded for it; the first disc may be missing. -/
def discsCard (firstDisc : Bool) : FileSystem :=
  .ofLists
    ((if firstDisc then [("/mnt/sdcard/Roms/PS/Game/d1.cue".toList, [])] else []) ++
      [("/mnt/sdcard/.system/rg35xx/paks/Emus/PS.pak/launch.sh".toList, []),
        ("/mnt/sdcard/Roms/PS/Game/Game.m3u".toList, "d1.cue\nd2.cue\n".toList),
        ("/mnt/sdcard/Roms/PS/Game/d2.cue".toList, []),
        ("/mnt/sdcard/.userdata/shared/.minui/PS/Game.m3u.txt".toList, "3".toList)])
    [("/mnt/sdcard/Roms".toList, [⟨"PS".toList, true⟩]),
      ("/mnt/sdcard/Roms/PS".toList, [⟨"Game".toList, true⟩]),
      ("/mnt/sdcard/Roms/PS/Game".toList,
        [⟨"Game.m3u".toList, false⟩, ⟨"d2.cue".toList, false⟩])]

/-- A check of both conditions on a turn. -/
def resumeChecks (host : Host) (l : Launcher) (frame : Frame) : Bool :=
  (Launcher.settle host frame { l with dirty := l.dirty || frame.redraw }).all fun m =>
    m.selectedEntry.all fun entry =>
      (!m.resumes frame || entry.type ≠ .dir || (autoLaunch m.fs entry.path).isSome) &&
        (!(m.resumes frame || frame.pad.justPressed .a) ||
          entry.type ≠ .pak && (!m.resumes frame || (m.fs.file m.slotPath).isSome))

theorem of_resumeChecks (h : resumeChecks host l frame) :
    ResumeLaunches host l frame ∧ TakesSlot host l frame := by
  refine ⟨fun m entry _ hm hresumes hentry htype => ?_, fun m entry _ hm hentry hopens => ?_⟩
  · simp only [resumeChecks, hm, hentry, Option.all_some, Bool.and_eq_true] at h
    simpa [hresumes, htype] using h.1
  · simp only [resumeChecks, hm, hentry, Option.all_some, Bool.and_eq_true] at h
    have htakes := h.2
    simp only [hopens, Bool.not_true, Bool.false_or, Bool.and_eq_true, decide_eq_true_eq] at htakes
    exact ⟨htakes.1, fun hresumes => by simpa [hresumes] using htakes.2⟩

/-- RESUME on the folder launches the first disc with slot 3. -/
theorem resume_intent_clear_discs :
    ∃ l l', Reaches (fun l frame => turn stableHost frame l)
        (fun l frame => l.quit = false ∧ ResumeLaunches stableHost l frame)
        (start stableHost (discsCard true) Tmp.empty) l ∧
      l.shouldResume = false ∧ l.turn stableHost (.release .x) = some l' ∧
      l'.store.tmp.resumeSlot = some "3".toList ∧ HandsOver stableHost l (.release .x) l' := by
  have hrun : ((init stableHost (discsCard true) Tmp.empty).bind
      (follow (fun l frame => turn stableHost frame l)
        (fun l frame => !l.quit && resumeChecks stableHost l frame) [.press .a])).any
      (fun l => l.quit = false ∧ resumeChecks stableHost l (.release .x) ∧
        (l.turn stableHost (.release .x)).any fun l' =>
          l'.store.tmp.resumeSlot = some "3".toList) = true := by
    decide +kernel
  obtain ⟨l₀, l, hinit, hreach, hl⟩ := exists_reaches_of_follow hrun
  obtain ⟨hrunning, hchecks, hturn⟩ := of_decide_eq_true hl
  obtain ⟨l', hl', hslot⟩ := (Option.any_eq_true _ _).mp hturn
  have hallowed := @Reaches.mono _ _ _ _ _ _
    (fun l frame => l.quit = false ∧ ResumeLaunches stableHost l frame) hreach
    fun l frame hpermit => by
      simp only [Bool.and_eq_true, Bool.not_eq_true'] at hpermit
      exact ⟨hpermit.1, (of_resumeChecks hpermit.2).1⟩
  obtain ⟨hclear, hhands⟩ := resume_intent_clear rfl hinit hallowed hrunning
  have hhandsOver := hhands (.release .x) l' (of_resumeChecks hchecks).2 hl'
  cases hinit
  exact ⟨l, l', hallowed, hclear, hl', of_decide_eq_true hslot, hhandsOver⟩

/-- RESUME on the folder only opens it; A on the second disc then writes slot 3. -/
theorem resume_intent_leaks :
    ∃ l l', Reaches (fun l frame => turn stableHost frame l) (fun l _ => l.quit = false)
        (start stableHost (discsCard false) Tmp.empty) l ∧
      l.quit = false ∧ l.shouldResume = true ∧
      l.turn stableHost (.press .a) = some l' ∧ l'.store.tmp.next.isSome = true ∧
      l'.store.tmp.resumeSlot = some "3".toList := by
  have hrun : ((init stableHost (discsCard false) Tmp.empty).bind
      (follow (fun l frame => turn stableHost frame l) (fun l _ => !l.quit)
        [.press .a, .release .x])).any
      (fun l => l.quit = false ∧ l.shouldResume = true ∧
        (l.turn stableHost (.press .a)).any fun l' =>
          l'.store.tmp.next.isSome ∧ l'.store.tmp.resumeSlot = some "3".toList) = true := by
    decide +kernel
  obtain ⟨l₀, l, hinit, hreach, hl⟩ := exists_reaches_of_follow hrun
  obtain ⟨hrunning, hshould, hturn⟩ := of_decide_eq_true hl
  obtain ⟨l', hl', hleak⟩ := (Option.any_eq_true _ _).mp hturn
  obtain ⟨hnext, hslot⟩ := of_decide_eq_true hleak
  refine ⟨l, l', ?_, hrunning, hshould, hl', hnext, hslot⟩
  cases hinit
  exact hreach.mono fun l frame hpermit => by simpa using hpermit

end Launcher
end DarkUI.Minui
