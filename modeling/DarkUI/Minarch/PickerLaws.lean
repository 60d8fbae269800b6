import DarkUI.Minarch.DiscLaws

/-! # How the picker stays on the disc in the drive

The picker shows the disc in the drive as long as the menu is left with the picker where
it was, or through Continue with a disc that exists, and loading changes no disc. Saves
and loads are then faithful throughout a run, in which the notes of the disc and of the slot
are always written.
-/

namespace DarkUI.Minarch

open Text Run

namespace Session

variable {s s' : Session} {io : StateIo}

/-- Loading leaves the drive alone: the disc recorded is that of the picker, or is missing. -/
def LoadStays (s : Session) (io : StateIo) : Prop :=
  s.saveExists → s.pickedDisc = some (s.recordedDisc io) ∨ s.fs.exists (s.recordedDisc io) = false

/-- What the picker needs for the item that A is pressed on. -/
def KeepsAct (s : Session) (loop : MenuLoop) (io : StateIo) : Prop :=
  match loop.selected with
  | .cont => s.disc = loop.romDisc ∨ ∀ disc, s.pickedDisc = some disc → s.fs.exists disc
  | .load => s.disc = loop.romDisc ∧ s.LoadStays io
  | .save => s.disc = loop.romDisc
  | .quit => s.disc = loop.romDisc
  | .opts => s.simpleMode → s.disc = loop.romDisc
  | .coll => True

/-- The menu is left with the picker where it was, or through Continue with a disc that
exists, and loading changes no disc. -/
def Keeps (s : Session) : SessionInput → Prop
  | .buttons pad io => ∀ loop, s.loop = some loop →
      let m := s.moved pad loop
      if pad.back then m.disc = loop.romDisc
      else if pad.a then m.KeepsAct (s.move pad loop).1 io
      else True
  | .loadShortcut io => s.loop = none → s.LoadStays io
  | _ => True

/-- The picker is on the disc in the drive, or was when the menu was opened. -/
structure InStep (s : Session) : Prop where
  discs_ne : s.total ≠ 0
  drive : s.discAt ((s.loop.map MenuLoop.romDisc).getD s.disc) = some s.game.path
  named : ∀ disc ∈ s.discs, Menu.slotDiscPath s.base (Menu.discText s.base disc) = disc

theorem InStep.of_kept (h : s.InStep) (hkept : s'.kept = s.kept)
    (hgame : s'.game.path = s.game.path) : s'.InStep := by
  simp only [kept, Prod.mk.injEq] at hkept
  obtain ⟨hdisc, -, hdiscs, hloop, -, -, hbase⟩ := hkept
  refine ⟨?_, ?_, ?_⟩
  · simpa [total, hdiscs] using h.discs_ne
  · rw [hloop, hdisc, hgame, discAt, hdiscs]
    exact h.drive
  · rw [hdiscs, hbase]
    exact h.named

/-- Leaving the menu with the picker where it was. -/
theorem InStep.closeMenu {loop : MenuLoop} (h : s.InStep) (hloop : s.loop = some loop)
    (hsame : s.disc = loop.romDisc) : s.closeMenu.InStep := by
  have hdrive := h.drive
  rw [hloop, Option.map_some, Option.getD_some, ← hsame] at hdrive
  exact ⟨h.discs_ne, hdrive, h.named⟩

theorem saveState_game (h : s.saveState io = some s') : s'.game = s.game := by
  unfold saveState at h
  split at h
  next =>
    cases h
    rfl
  next =>
    obtain ⟨recorded, hrecord, rfl⟩ := Option.map_eq_some_iff.mp h
    unfold recordDisc at hrecord
    split_ifs at hrecord
    · cases hrecord
      rfl
    · obtain ⟨disc, -, rfl⟩ := Option.map_eq_some_iff.mp hrecord
      rfl

theorem loadState_game (hstays : s.LoadStays io) (h : s.loadState io = some s') :
    s'.game = s.game := by
  unfold loadState at h
  split_ifs at h with hexists
  · obtain ⟨switched, hswitch, rfl⟩ := Option.map_eq_some_iff.mp h
    unfold switchDisc at hswitch
    split_ifs at hswitch
    · cases hswitch
      rfl
    · obtain ⟨disc, hdisc, rfl⟩ := Option.map_eq_some_iff.mp hswitch
      rcases hstays hexists with hsame | hmissing
      · rw [hdisc, Option.some.injEq] at hsame
        simp [recordSlot, hsame]
      · split_ifs
        · rfl
        · simp [changeTo, hmissing, recordSlot]
  · cases h
    rfl

theorem pick_frame {loop : MenuLoop} (disc slot : Int) :
    (s.pick loop disc slot).discs = s.discs ∧ (s.pick loop disc slot).base = s.base ∧
      (s.pick loop disc slot).game = s.game := by
  unfold Session.pick
  split_ifs <;> exact ⟨rfl, rfl, rfl⟩

theorem move_frame (pad : MenuPad) (loop : MenuLoop) :
    (s.move pad loop).2.discs = s.discs ∧ (s.move pad loop).2.base = s.base ∧
      (s.move pad loop).2.game = s.game ∧ (s.move pad loop).1.romDisc = loop.romDisc := by
  unfold Session.move
  split_ifs
  · exact ⟨rfl, rfl, rfl, rfl⟩
  · exact ⟨rfl, rfl, rfl, rfl⟩
  · obtain ⟨hdiscs, hbase, hgame⟩ := pick_frame (s := s) _ _
    exact ⟨hdiscs, hbase, hgame, rfl⟩
  · obtain ⟨hdiscs, hbase, hgame⟩ := pick_frame (s := s) _ _
    exact ⟨hdiscs, hbase, hgame, rfl⟩
  · exact ⟨rfl, rfl, rfl, rfl⟩

theorem InStep.moved {loop : MenuLoop} (h : s.InStep) (hloop : s.loop = some loop)
    (pad : MenuPad) : (s.moved pad loop).InStep := by
  obtain ⟨hdiscs, hbase, hgame, hrom⟩ := move_frame (s := s) pad loop
  have hdrive := h.drive
  rw [hloop] at hdrive
  refine ⟨?_, ?_, ?_⟩
  · simpa [total, Session.moved, hdiscs] using h.discs_ne
  · simpa [discAt, Session.moved, hdiscs, hgame, hrom] using hdrive
  · simpa only [Session.moved, hdiscs, hbase] using h.named

theorem InStep.picked_of_eq {loop : MenuLoop} (h : s.InStep) (hloop : s.loop = some loop)
    (hsame : s.disc = loop.romDisc) : s.pickedDisc = some s.game.path := by
  have hdrive := h.drive
  rwa [hloop, Option.map_some, Option.getD_some, ← hsame] at hdrive

theorem mem_of_discAt {i : Int} {disc : CString} (h : s.discAt i = some disc) : disc ∈ s.discs := by
  unfold discAt at h
  split_ifs at h
  exact List.mem_of_getElem? h

/-- A picker on the disc in the drive is all that saving and loading ask for. -/
theorem InStep.uses (h : s.InStep) (hpicked : s.pickedDisc = some s.game.path) :
    s.ShowsDrive ∧ s.LoadsDrive := by
  refine ⟨⟨Menu.discText s.base s.game.path, ?_, h.named _ (mem_of_discAt hpicked)⟩,
    fun _ => by simp [hpicked], fun name _ _ hsame => ?_⟩
  · simp [nameToRecord, h.discs_ne, hpicked]
  · have hrecorded := hsame.resolve_left h.discs_ne
    rwa [hpicked, Option.some.injEq] at hrecorded

/-- Continue with a disc that exists brings the drive to the picker. -/
theorem InStep.changed {disc : CString} (h : s.InStep) (hdisc : s.pickedDisc = some disc)
    (hkept : s'.kept = s.kept) (hpath : s'.game.path = disc) : s'.closeMenu.InStep := by
  simp only [kept, Prod.mk.injEq] at hkept
  obtain ⟨hsame, -, hdiscs, -, -, -, hbase⟩ := hkept
  have hpicked : s'.pickedDisc = some s'.game.path := by
    rw [hpath, ← hdisc, pickedDisc, pickedDisc, hsame, discAt, discAt, hdiscs]
  refine ⟨?_, hpicked, ?_⟩
  · simpa [total, Session.closeMenu, hdiscs] using h.discs_ne
  · simpa only [Session.closeMenu, hdiscs, hbase] using h.named

theorem InStep.act {loop : MenuLoop} (h : s.InStep) (hloop : s.loop = some loop)
    (hkeeps : s.KeepsAct loop io) (hact : s.act loop io = some s') : s'.InStep := by
  unfold Session.act at hact
  unfold KeepsAct at hkeeps
  cases hitem : loop.selected with
  | cont =>
      simp only [hitem] at hact hkeeps
      split_ifs at hact with hmoved
      · obtain ⟨disc, hdisc, rfl⟩ := Option.map_eq_some_iff.mp hact
        -- the disc was chosen in the menu, and its file is there
        have hexists := hkeeps.resolve_left (Ne.symm hmoved.2) disc hdisc
        exact h.changed hdisc (changeTo_kept disc io.loaded) (changeTo_path disc _ hexists)
      · cases hact
        exact h.closeMenu hloop (by
          by_contra hne
          exact hmoved ⟨h.discs_ne, Ne.symm hne⟩)
  | save =>
      simp only [hitem] at hact hkeeps
      obtain ⟨saved, hsave, rfl⟩ := Option.map_eq_some_iff.mp hact
      have hkept := saveState_kept hsave
      have hsaved := h.of_kept hkept (congrArg Game.path (saveState_game hsave))
      simp only [kept, Prod.mk.injEq] at hkept
      exact hsaved.closeMenu (hkept.2.2.2.1.trans hloop) (hkept.1.trans hkeeps)
  | load =>
      simp only [hitem] at hact hkeeps
      obtain ⟨loaded, hload, rfl⟩ := Option.map_eq_some_iff.mp hact
      have hkept := loadState_kept hload
      have hloaded := h.of_kept hkept (congrArg Game.path (loadState_game hkeeps.2 hload))
      simp only [kept, Prod.mk.injEq] at hkept
      exact hloaded.closeMenu (hkept.2.2.2.1.trans hloop) (hkept.1.trans hkeeps.1)
  | opts =>
      simp only [hitem] at hact hkeeps
      cases hact
      split_ifs with hsimple
      · exact h.closeMenu hloop (hkeeps hsimple)
      · exact h
  | coll =>
      simp only [hitem] at hact
      cases hact
      exact h
  | quit =>
      simp only [hitem] at hact hkeeps
      cases hact
      exact h.closeMenu hloop hkeeps

theorem InStep.step {input : SessionInput} (h : s.InStep) (hkeeps : s.Keeps input)
    (hstep : s.step input = some s') : s'.InStep := by
  unfold Session.step at hstep
  split at hstep
  next hloop =>
    cases hstep
    have hdrive := h.drive
    rw [hloop] at hdrive
    have hopened : s.openMenu.loop = some ⟨.cont, s.disc⟩ := by simp [openMenu, h.discs_ne]
    refine ⟨h.discs_ne, ?_, h.named⟩
    rw [hopened]
    exact hdrive
  next pad io loop hloop =>
    have hmoved := h.moved hloop pad
    have hkeep := hkeeps loop hloop
    obtain ⟨-, -, -, hrom⟩ := move_frame (s := s) pad loop
    simp only at hkeep
    unfold turn at hstep
    split_ifs at hstep hkeep
    · cases hstep
      exact hmoved.closeMenu rfl (hkeep.trans hrom.symm)
    · exact hmoved.act rfl hkeep hstep
    · cases hstep
      exact hmoved
  next => exact h.of_kept (saveState_kept hstep) (congrArg Game.path (saveState_game hstep))
  next hloop =>
    exact h.of_kept (loadState_kept hstep)
      (congrArg Game.path (loadState_game (hkeeps hloop) hstep))
  next =>
    cases hstep
    exact h

theorem KeepsAct.unmoved {loop : MenuLoop} {use : Use} (h : s.KeepsAct loop io)
    (huse : loop.selected.use = some use) : s.disc = loop.romDisc := by
  unfold KeepsAct at h
  cases hitem : loop.selected with
  | save => simpa [hitem] using h
  | load =>
      simp only [hitem] at h
      exact h.1
  | cont | opts | coll | quit =>
      rw [hitem] at huse
      cases huse

/-- While discs are only changed through Continue, every save and load finds the picker on
the disc in the drive. -/
theorem InStep.meets {input : SessionInput} (h : s.InStep) (hkeeps : s.Keeps input) :
    s.Meets input := by
  have huses {use : Use} {io : StateIo} {m : Session}
      (hpending : s.pending input = some (use, io, m)) :
      m.ShowsDrive ∧ m.LoadsDrive := by
    unfold pending at hpending
    split at hpending
    next pad own loop hloop =>
      split_ifs at hpending with hbuttons
      obtain ⟨asked, hasked, heq⟩ := Option.map_eq_some_iff.mp hpending
      cases heq
      simp only [Bool.and_eq_true, Bool.not_eq_true'] at hbuttons
      have hmoved := h.moved hloop pad
      have hkeep : (s.moved pad loop).KeepsAct (s.move pad loop).1 io := by
        simpa [Keeps, hbuttons.1, hbuttons.2] using hkeeps loop hloop
      exact hmoved.uses (hmoved.picked_of_eq rfl (hkeep.unmoved hasked))
    next hloop =>
      cases hpending
      have hdrive := h.drive
      rw [hloop] at hdrive
      exact h.uses hdrive
    next hloop =>
      cases hpending
      have hdrive := h.drive
      rw [hloop] at hdrive
      exact h.uses hdrive
    next => cases hpending
  exact ⟨fun _ _ hpending _ => (huses hpending).1, fun _ _ hpending _ => (huses hpending).2⟩

variable {fs : FileSystem} {core : Core} {replacesImage simpleMode : Bool} {path : CString}

theorem discAt_matchDisc {discs : List CString} {found : Int} {pre : List CString}
    (h : path ∈ discs ∨ 0 ≤ found ∧ (pre ++ discs)[found.toNat]? = some path) :
    0 ≤ Menu.matchDisc path pre.length found discs ∧
      (pre ++ discs)[(Menu.matchDisc path pre.length found discs).toNat]? = some path := by
  induction discs generalizing pre found with
  | nil => simpa [Menu.matchDisc] using h
  | cons disc rest ih =>
      have hrest := @ih (if disc = path then pre.length else found) (pre ++ [disc])
      simp only [List.append_assoc, List.singleton_append, List.length_append,
        List.length_singleton, Nat.cast_add, Nat.cast_one] at hrest
      refine hrest ?_
      by_cases hdisc : disc = path
      · right
        simp [hdisc]
      · rcases h with hmem | hfound
        · left
          simpa [Ne.symm hdisc] using hmem
        · right
          simpa [hdisc] using hfound

/-- A game that is launched from one of its discs starts with the picker on it. -/
theorem start_inStep {m3u : CString} (hm3u : (Game.open fs path true).m3uPath = some m3u)
    (hlisted : path ∈ Menu.discPaths fs m3u)
    (hrelative : ∀ line ∈ Menu.discLines fs m3u, line.head? ≠ some '/') :
    (start fs core replacesImage simpleMode path).InStep := by
  have hmatch := @discAt_matchDisc path _ (-1) [] (Or.inl hlisted)
  have hdiscs : (start fs core replacesImage simpleMode path).discs = Menu.discPaths fs m3u := by
    simp [start, hm3u]
  refine ⟨?_, ?_, ?_⟩
  · rw [total, hdiscs]
    simpa using List.ne_nil_of_mem hlisted
  · simp only [start, hm3u, Option.elim_some, open_path, Option.map_none, Option.getD_none, discAt]
    simpa using hmatch
  · rw [hdiscs]
    intro disc hdisc
    obtain ⟨line, hline, rfl⟩ := List.mem_map.mp hdisc
    simp [start, hm3u, Menu.discText, Menu.slotDiscPath, hrelative line hline]

/-- A game launched from one of its discs keeps discs and slots together as long as discs
are only changed through Continue. -/
theorem discs_recorded_of_keeps {m3u : CString} {inputs : List SessionInput}
    (hm3u : (Game.open fs path true).m3uPath = some m3u)
    (hlisted : path ∈ Menu.discPaths fs m3u)
    (hrelative : ∀ line ∈ Menu.discLines fs m3u, line.head? ≠ some '/')
    (hkeeps : Throughout step Keeps inputs (start fs core replacesImage simpleMode path)) :
    Throughout step Meets inputs (start fs core replacesImage simpleMode path) :=
  hkeeps.imp (start_inStep hm3u hlisted hrelative) (fun h hkeep hstep => h.step hkeep hstep)
    fun h hkeep => h.meets hkeep

/-! ## Runs -/

/-- For a game on discs and any inputs, every step is defined and keeps discs and slots
together just when every save that succeeds finds the picker on the disc in the drive, and
every load finds the picker on a disc that does not hide the recorded one. -/
theorem discs_recorded_iff (inputs : List SessionInput)
    (hm3u : (Game.open fs path true).m3uPath.isSome) :
    Throughout step Faithful inputs (start fs core replacesImage simpleMode path) ↔
      Throughout step Meets inputs (start fs core replacesImage simpleMode path) := by
  have hstart : (start fs core replacesImage simpleMode path).Sound := start_sound hm3u
  exact ⟨fun h => h.imp hstart (fun hs _ hstep => hs.step hstep) fun hs => hs.faithful_iff.mp,
    fun h => h.imp hstart (fun hs _ hstep => hs.step hstep) fun hs => hs.faithful_iff.mpr⟩

/-! ## Two discs -/

/-- A game on two discs. -/
def twoDiscs : FileSystem :=
  .ofLists
    [("/mnt/sdcard/Roms/PS/Game/Game.m3u".toList, "d1.cue\nd2.cue\n".toList),
      ("/mnt/sdcard/Roms/PS/Game/d1.cue".toList, []),
      ("/mnt/sdcard/Roms/PS/Game/d2.cue".toList, [])] []

/-- The game launched from its first disc. -/
def onFirstDisc : Session :=
  start twoDiscs ⟨⟨"PS".toList, by decide⟩, ⟨"pcsx".toList, by decide⟩⟩ true false
    "/mnt/sdcard/Roms/PS/Game/d1.cue".toList

def noButtons : MenuPad := ⟨false, false, false, false, false, false⟩

/-- A save that succeeds. -/
def savedIo : StateIo := ⟨some [], true, []⟩

instance (s : Session) (io : StateIo) : Decidable (s.LoadStays io) :=
  inferInstanceAs (Decidable (_ → _))

instance (s : Session) (loop : MenuLoop) (io : StateIo) : Decidable (s.KeepsAct loop io) := by
  unfold KeepsAct
  split
  case h_1 =>
    exact inferInstanceAs (Decidable (_ ∨ ∀ disc ∈ s.pickedDisc, (s.fs.exists disc : Prop)))
  all_goals infer_instance

instance (s : Session) : ∀ input, Decidable (s.Keeps input)
  | .buttons pad io => inferInstanceAs (Decidable (∀ loop ∈ s.loop,
      let m := s.moved pad loop
      if pad.back then m.disc = loop.romDisc
      else if pad.a then m.KeepsAct (s.move pad loop).1 io
      else True))
  | .loadShortcut io => inferInstanceAs (Decidable (s.loop = none → s.LoadStays io))
  | .menu | .saveShortcut _ => .isTrue trivial

/-- MENU, RIGHT and A on Continue change to the second disc. A shortcut saves there, the menu saves
to the next slot, and a shortcut loads from it. -/
def changeAndSave : List SessionInput :=
  [.menu, .buttons { noButtons with right := true } savedIo,
    .buttons { noButtons with a := true } savedIo, .saveShortcut savedIo, .menu,
    .buttons { noButtons with down := true } savedIo,
    .buttons { noButtons with right := true } savedIo,
    .buttons { noButtons with a := true } savedIo, .loadShortcut savedIo]

theorem discs_recorded_changed : Throughout step Faithful changeAndSave onFirstDisc ∧
    (follow step (fun _ _ => true) changeAndSave onFirstDisc).any (fun s =>
      s.game.path = "/mnt/sdcard/Roms/PS/Game/d2.cue".toList ∧ s.slot = 1 ∧
        s.fs.file s.txtPath = some "d2.cue".toList) = true :=
  ⟨(discs_recorded_iff changeAndSave (by decide +kernel)).mpr
    (@discs_recorded_of_keeps _ _ _ _ _ "/mnt/sdcard/Roms/PS/Game/Game.m3u".toList _
      (by decide +kernel) (by decide +kernel) (by decide +kernel) (by decide +kernel)),
    by decide +kernel⟩

/-- MENU, RIGHT on Continue, and B. -/
def leavePicker : List SessionInput :=
  [.menu, .buttons { noButtons with right := true } savedIo,
    .buttons { noButtons with back := true } savedIo]

/-- The menu is left with the picker on the second disc; the next save records that disc
for a state of the first one. -/
theorem discs_misrecorded :
    ¬ Throughout step Faithful (leavePicker ++ [.saveShortcut savedIo]) onFirstDisc := by
  intro hfaithful
  have hrun : (follow step (fun _ _ => true) leavePicker onFirstDisc).any (fun s =>
      s.loop = none ∧ s.game.path = "/mnt/sdcard/Roms/PS/Game/d1.cue".toList ∧
        (s.saveState savedIo).any fun after =>
          after.game.path = s.game.path ∧ after.fs.file s.txtPath = some "d2.cue".toList ∧
            Menu.slotDiscPath s.base "d2.cue".toList ≠ s.game.path) = true := by
    decide +kernel
  obtain ⟨s, hs, hstate⟩ := (Option.any_eq_true _ _).mp hrun
  obtain ⟨hloop, -, hsave⟩ := of_decide_eq_true hstate
  obtain ⟨after, hafter, hdiffers⟩ := (Option.any_eq_true _ _).mp hsave
  obtain ⟨hgame, hfile, hne⟩ := of_decide_eq_true hdiffers
  have hlast := hfaithful.at_follow hs
  obtain ⟨name, hname, hdisc⟩ := hlast.saved savedIo s after (by simp [pending, hloop]) rfl
    (by simp [step, hloop, hafter])
  rw [hfile, Option.some.injEq] at hname
  exact hne (hname ▸ hdisc.trans hgame)

end Session
end DarkUI.Minarch
