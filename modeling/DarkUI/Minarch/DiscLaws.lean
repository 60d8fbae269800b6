import DarkUI.Minarch.Discs
import DarkUI.Foundation.Run
import Mathlib.Tactic.SplitIfs

/-! # When the disc of a slot is the disc in the drive

The disc in the drive is the path of the open game. The menu keeps a disc of its own,
and saving and loading look at that one. The picker stays inside the list of discs
once it was moved, but nothing ties it to the drive.
-/

namespace DarkUI.Minarch

open Text Run

inductive Use
  | save
  | load
  deriving DecidableEq

/-- What an item asks for. -/
def Item.use : Item → Option Use
  | .save => some .save
  | .load => some .load
  | _ => none

namespace Session

/-- The state of the menu after the directions. -/
def moved (s : Session) (pad : MenuPad) (loop : MenuLoop) : Session :=
  { (s.move pad loop).2 with loop := some (s.move pad loop).1 }

/-- The save or load that an input asks for, with the state in which it is carried out. -/
def pending (s : Session) (input : SessionInput) : Option (Use × StateIo × Session) :=
  match input, s.loop with
  | .buttons pad io, some loop =>
      if !pad.back && pad.a then
        (s.move pad loop).1.selected.use.map fun use => (use, io, s.moved pad loop)
      else none
  | .saveShortcut io, none => some (.save, io, s)
  | .loadShortcut io, none => some (.load, io, s)
  | _, _ => none

/-- After saving in `s` the slot's file names the disc in the drive. -/
def Recorded (s after : Session) : Prop :=
  ∃ name, after.fs.file s.txtPath = some name ∧ Menu.slotDiscPath s.base name = after.game.path

/-- After loading in `s` the disc recorded for the slot is in the drive, if there is such a disc. -/
def Loaded (s after : Session) : Prop :=
  ∀ name, s.fs.file s.txtPath = some name →
    s.fs.exists (Menu.slotDiscPath s.base (fileText maxPath name)) →
    after.game.path = Menu.slotDiscPath s.base (fileText maxPath name)

/-- A step is defined, records the disc in the drive, and loads the recorded disc. -/
structure Faithful (s : Session) (input : SessionInput) : Prop where
  defined : (s.step input).isSome
  saved : ∀ io m after, s.pending input = some (.save, io, m) → io.written.isSome →
    s.step input = some after → m.Recorded after
  loaded : ∀ io m after, s.pending input = some (.load, io, m) → m.saveExists →
    s.step input = some after → m.Loaded after

variable (s : Session)

/-- The name that saving leaves in the slot's file: that of the picker's disc, or the one
there already for a game without discs. -/
def nameToRecord : Option CString :=
  if s.total = 0 then s.fs.file s.txtPath else s.pickedDisc.map (Menu.discText s.base)

/-- The disc of the picker is the one in the drive. -/
def ShowsDrive : Prop :=
  ∃ name, s.nameToRecord = some name ∧ Menu.slotDiscPath s.base name = s.game.path

/-- The picker is on a disc, and the disc recorded for the slot is in the drive unless
the picker is on another one. -/
def LoadsDrive : Prop :=
  (s.total ≠ 0 → s.pickedDisc.isSome) ∧
    ∀ name, s.fs.file s.txtPath = some name →
      s.fs.exists (Menu.slotDiscPath s.base (fileText maxPath name)) →
      (s.total = 0 ∨
        s.pickedDisc = some (Menu.slotDiscPath s.base (fileText maxPath name))) →
      s.game.path = Menu.slotDiscPath s.base (fileText maxPath name)

/-- A save that succeeds finds the picker on the disc in the drive, and a load finds it
there or on another disc than the recorded one. -/
structure Meets (input : SessionInput) : Prop where
  save : ∀ io m, s.pending input = some (.save, io, m) → io.written.isSome → m.ShowsDrive
  load : ∀ io m, s.pending input = some (.load, io, m) → m.saveExists → m.LoadsDrive

/-! ## What saving and loading leave alone -/

/-- The part of the state that only the menu's buttons change. -/
def kept : Int × Int × List CString × Option MenuLoop × CString × CString × CString :=
  (s.disc, s.slot, s.discs, s.loop, s.slotPath, s.minuiDir, s.base)

variable {s} {s' : Session} {io : StateIo}

theorem changeTo_kept (path : CString) (loaded : Bool) :
    (s.changeTo path loaded).kept = s.kept := by
  simp only [changeTo]
  split_ifs <;> rfl

theorem recordDisc_kept (h : s.recordDisc = some s') : s'.kept = s.kept := by
  unfold recordDisc at h
  split_ifs at h
  · cases h
    rfl
  · obtain ⟨disc, -, rfl⟩ := Option.map_eq_some_iff.mp h
    rfl

theorem saveState_kept (h : s.saveState io = some s') : s'.kept = s.kept := by
  unfold saveState at h
  split at h
  next =>
    cases h
    rfl
  next =>
    obtain ⟨recorded, hrecord, rfl⟩ := Option.map_eq_some_iff.mp h
    have hkept := recordDisc_kept hrecord
    exact hkept

theorem loadState_kept (h : s.loadState io = some s') : s'.kept = s.kept := by
  unfold loadState switchDisc at h
  split_ifs at h
  · cases h
    rfl
  · obtain ⟨switched, hswitch, rfl⟩ := Option.map_eq_some_iff.mp h
    obtain ⟨disc, -, rfl⟩ := Option.map_eq_some_iff.mp hswitch
    split_ifs
    · rfl
    · exact changeTo_kept _ _
  · cases h
    rfl

/-! ## The picker -/

/-- The picker is on no disc or on one of the list, and inside the menu it is on none only
while it was not moved. The slot's file is not one of the files of its discs. -/
structure Sound (s : Session) : Prop where
  picker : s.disc = -1 ∨ 0 ≤ s.disc ∧ s.disc < s.total
  moved : ∀ loop, s.loop = some loop → s.total ≠ 0 → loop.romDisc = s.disc ∨ 0 ≤ s.disc
  slotFile : ∃ name, s.slotPath = s.minuiDir ++ '/' :: name ++ ".txt".toList ∧
    name.getLast? = some 'u'

theorem Sound.of_kept (hs : s.Sound) (h : s'.kept = s.kept) : s'.Sound := by
  simp only [kept, Prod.mk.injEq] at h
  obtain ⟨hdisc, -, hdiscs, hloop, hslotPath, hminuiDir, -⟩ := h
  have htotal : s'.total = s.total := by simp [total, hdiscs]
  refine ⟨?_, fun loop hsome => ?_, ?_⟩
  · rw [hdisc, htotal]
    exact hs.picker
  · rw [htotal, hdisc]
    exact hs.moved loop (hloop ▸ hsome)
  · rw [hslotPath, hminuiDir]
    exact hs.slotFile

theorem Sound.closeMenu (hs : s.Sound) : s.closeMenu.Sound :=
  ⟨hs.picker, fun _ h => (Option.some_ne_none _ h.symm).elim, hs.slotFile⟩

theorem pickedDisc_isSome (hlow : 0 ≤ s.disc) (hhigh : s.disc < s.total) :
    s.pickedDisc.isSome := by
  have hlt : s.disc.toNat < s.discs.length := by
    simp only [total] at hhigh
    omega
  simp [pickedDisc, discAt, hlow, hlt]

theorem Sound.pick {loop : MenuLoop} (hs : s.Sound) (hloop : s.loop = some loop)
    (disc slot : Int) (hpicker : 1 < s.total → 0 ≤ disc ∧ disc < s.total) :
    (s.pick loop disc slot).Sound ∧ (s.pick loop disc slot).loop = some loop := by
  unfold Session.pick
  split_ifs with hcont hslot
  · have hdisc := hpicker hcont.1
    exact ⟨⟨.inr hdisc, fun _ _ _ => .inr hdisc.1, hs.slotFile⟩, hloop⟩
  · exact ⟨⟨hs.picker, hs.moved, hs.slotFile⟩, hloop⟩
  · exact ⟨hs, hloop⟩

/-- After the directions the menu is as sound as before. -/
theorem Sound.move {loop : MenuLoop} (hs : s.Sound) (hloop : s.loop = some loop) (pad : MenuPad) :
    (s.moved pad loop).Sound := by
  have hpicker := hs.picker
  have hselect (item : Item) : ({ s with loop := some { loop with selected := item } } :
      Session).Sound := by
    refine ⟨hs.picker, fun other hother htotal => ?_, hs.slotFile⟩
    cases hother
    exact hs.moved loop hloop htotal
  have hpick (disc slot : Int) (hrange : 1 < s.total → 0 ≤ disc ∧ disc < s.total) :
      ({ s.pick loop disc slot with loop := some loop } : Session).Sound := by
    obtain ⟨hsound, hsame⟩ := hs.pick hloop disc slot hrange
    exact ⟨hsound.picker, fun _ h => hsound.moved _ (hsame.trans h), hsound.slotFile⟩
  unfold Session.moved Session.move
  split_ifs
  · exact hselect _
  · exact hselect _
  · exact hpick _ _ fun htotal => by split_ifs <;> omega
  · exact hpick _ _ fun htotal => by split_ifs <;> omega
  · exact hselect loop.selected

theorem Sound.changeTo (hs : s.Sound) (path : CString) (loaded : Bool) :
    (s.changeTo path loaded).Sound :=
  hs.of_kept (changeTo_kept path loaded)

theorem Sound.act {loop : MenuLoop} (hs : s.Sound) (h : s.act loop io = some s') : s'.Sound := by
  unfold Session.act at h
  split at h
  next =>
    split_ifs at h
    · obtain ⟨disc, -, rfl⟩ := Option.map_eq_some_iff.mp h
      exact (hs.changeTo disc io.loaded).closeMenu
    · cases h
      exact hs.closeMenu
  next =>
    obtain ⟨saved, hsave, rfl⟩ := Option.map_eq_some_iff.mp h
    exact (hs.of_kept (saveState_kept hsave)).closeMenu
  next =>
    obtain ⟨loaded, hload, rfl⟩ := Option.map_eq_some_iff.mp h
    exact (hs.of_kept (loadState_kept hload)).closeMenu
  next =>
    cases h
    split_ifs
    · exact hs.closeMenu
    · exact hs
  next =>
    cases h
    exact hs
  next =>
    cases h
    exact hs.closeMenu

theorem Sound.openMenu (hs : s.Sound) : s.openMenu.Sound := by
  refine ⟨hs.picker, fun loop hloop htotal => .inl ?_, hs.slotFile⟩
  cases hloop
  exact if_neg htotal

theorem Sound.step {input : SessionInput} (hs : s.Sound) (h : s.step input = some s') :
    s'.Sound := by
  unfold Session.step at h
  split at h
  next =>
    cases h
    exact hs.openMenu
  next pad io loop hloop =>
    have hmoved := hs.move hloop pad
    unfold turn at h
    split_ifs at h
    · cases h
      exact hmoved.closeMenu
    · exact hmoved.act h
    · cases h
      exact hmoved
  next => exact hs.of_kept (saveState_kept h)
  next => exact hs.of_kept (loadState_kept h)
  next =>
    cases h
    exact hs

/-! ## Paths of a slot -/

theorem txtPath_ne_slotPath (hs : s.Sound) : s.txtPath ≠ s.slotPath := by
  obtain ⟨name, hname, hlast⟩ := hs.slotFile
  obtain ⟨c, hc, hdigit⟩ := getLast_decimal s.slot
  intro heq
  have hnames : s.game.name ++ '.' :: decimal s.slot = name := by
    rw [hname, txtPath, Menu.txtPath] at heq
    have hcut := List.append_cancel_right heq
    rw [List.append_assoc] at hcut
    exact (List.cons.inj (List.append_cancel_left hcut)).2
  rw [← hnames, List.getLast?_append, List.getLast?_cons, hc] at hlast
  simp only [Option.getD_some, Option.some_or, Option.some.injEq] at hlast
  rw [hlast] at hdigit
  exact absurd hdigit (by decide)

theorem txtPath_ne_statePath : s.txtPath ≠ s.statePath := by
  obtain ⟨c, hc, hdigit⟩ := getLast_decimal s.slot
  intro heq
  have htxt : s.txtPath.getLast? = some 't' := by
    rw [txtPath, Menu.txtPath, List.getLast?_append]
    rfl
  have hstate : s.statePath.getLast? = some c := by
    rw [statePath, State.pathOf, List.getLast?_append, hc, Option.some_or]
  rw [heq, hstate, Option.some.injEq] at htxt
  rw [htxt] at hdigit
  exact absurd hdigit (by decide)

/-! ## Saving and loading -/

/-- A save that succeeds records the disc in the drive just when the picker is on it. -/
theorem recorded_iff (hs : s.Sound) (hwritten : io.written.isSome) :
    (∃ after, s.saveState io = some after ∧ s.Recorded after) ↔ s.ShowsDrive := by
  obtain ⟨image, himage⟩ := Option.isSome_iff_exists.mp hwritten
  have hslot := txtPath_ne_slotPath hs
  have hstate := txtPath_ne_statePath (s := s)
  simp only [saveState, himage, ShowsDrive, nameToRecord]
  by_cases htotal : s.total = 0
  · have hrecord : ({ s with fs := s.fs.putFile s.statePath image } : Session).recordDisc =
        some { s with fs := s.fs.putFile s.statePath image } := if_pos htotal
    simp only [hrecord, htotal, if_true, Option.map_some, Option.some.injEq, exists_eq_left',
      Recorded, recordSlot]
    rw [FileSystem.putFile_of_ne hslot, FileSystem.putFile_of_ne hstate]
  · have hrecord : ({ s with fs := s.fs.putFile s.statePath image } : Session).recordDisc =
        s.pickedDisc.map fun disc =>
          { s with
            fs := (s.fs.putFile s.statePath image).putFile s.txtPath
              (Menu.discText s.base disc) } := if_neg htotal
    simp only [hrecord, htotal, if_false]
    cases hpicked : s.pickedDisc with
    | none => simp
    | some disc =>
        simp only [Option.map_some, Option.some.injEq, exists_eq_left', Recorded, recordSlot]
        rw [FileSystem.putFile_of_ne hslot, FileSystem.putFile_self]
        simp

theorem changeTo_path (path : CString) (loaded : Bool) (hexists : s.fs.exists path) :
    (s.changeTo path loaded).game.path = path := by
  simp only [changeTo, hexists]
  split_ifs with hsame
  · simpa using hsame
  · exact open_path _ _ _
  · exact open_path _ _ _

/-- A load leaves the recorded disc in the drive just when the picker is on a disc that
does not hide it. -/
theorem loaded_iff (hexists : s.saveExists) :
    (∃ after, s.loadState io = some after ∧ s.Loaded after) ↔ s.LoadsDrive := by
  simp only [loadState, hexists, if_true, switchDisc, LoadsDrive]
  by_cases htotal : s.total = 0
  · simp [htotal, Loaded, recordSlot]
  · simp only [ne_eq, htotal, if_false, false_or, not_false_eq_true, forall_const]
    cases hpicked : s.pickedDisc with
    | none => simp
    | some disc =>
        simp only [Option.map_some, Option.some.injEq, exists_eq_left', Option.isSome_some,
          true_and, Loaded, recordSlot]
        refine forall₂_congr fun name hname => forall_congr' fun hdisc => ?_
        have hrecorded : s.recordedDisc io = Menu.slotDiscPath s.base (fileText maxPath name) := by
          simp [recordedDisc, FileSystem.getFile, hname]
        rw [hrecorded]
        split_ifs with hsame
        · simp [hsame]
        · simp [changeTo_path _ _ hdisc, Ne.symm hsame]

/-! ## Steps -/

variable {input : SessionInput} {use : Use} {m : Session}

theorem pending_sound (hs : s.Sound) (h : s.pending input = some (use, io, m)) : m.Sound := by
  unfold pending at h
  split at h
  next pad own loop hloop =>
    split_ifs at h
    obtain ⟨asked, -, heq⟩ := Option.map_eq_some_iff.mp h
    cases heq
    exact hs.move hloop pad
  next =>
    cases h
    exact hs
  next =>
    cases h
    exact hs
  next => cases h

/-- A save or load. -/
def perform (s : Session) (use : Use) (io : StateIo) : Option Session :=
  match use with
  | .save => s.saveState io
  | .load => s.loadState io

theorem turn_of_buttons {pad : MenuPad} {loop : MenuLoop} (hback : pad.back = false)
    (ha : pad.a = true) :
    s.turn pad io loop = (s.moved pad loop).act (s.move pad loop).1 io := by
  simp [turn, hback, ha, moved]

theorem act_of_use {loop : MenuLoop} (h : loop.selected.use = some use) :
    s.act loop io = (s.perform use io).map closeMenu := by
  unfold act perform
  cases hitem : loop.selected <;> rw [hitem] at h <;> cases h <;> rfl

/-- A pending save or load is what the step carries out; the menu closes after it. -/
theorem step_of_pending (h : s.pending input = some (use, io, m)) :
    ∃ close : Session → Session, (∀ t : Session, (close t).fs = t.fs ∧ (close t).game = t.game) ∧
      s.step input = (m.perform use io).map close := by
  unfold pending at h
  unfold Session.step
  split at h
  next pad own loop hloop =>
    split_ifs at h with hbuttons
    obtain ⟨asked, hasked, heq⟩ := Option.map_eq_some_iff.mp h
    cases heq
    simp only [Bool.and_eq_true, Bool.not_eq_true'] at hbuttons
    refine ⟨closeMenu, fun _ => ⟨rfl, rfl⟩, ?_⟩
    simp only [hloop, turn_of_buttons hbuttons.1 hbuttons.2]
    exact act_of_use hasked
  next hloop =>
    cases h
    exact ⟨id, fun _ => ⟨rfl, rfl⟩, by simp [hloop, perform]⟩
  next hloop =>
    cases h
    exact ⟨id, fun _ => ⟨rfl, rfl⟩, by simp [hloop, perform]⟩
  next => cases h

/-- On the other items A is defined: Continue only changes to a disc the picker was moved to. -/
theorem act_isSome {loop : MenuLoop} (hs : s.Sound) (hloop : s.loop = some loop)
    (h : loop.selected.use = none) : (s.act loop io).isSome := by
  unfold act
  cases hitem : loop.selected with
  | cont =>
      simp only
      split_ifs with hmoved
      · have hlow := (hs.moved loop hloop hmoved.1).resolve_left hmoved.2
        have hhigh : s.disc < s.total := by
          have := hs.picker
          omega
        simpa using pickedDisc_isSome hlow hhigh
      · rfl
  | save =>
      rw [hitem] at h
      cases h
  | load =>
      rw [hitem] at h
      cases h
  | opts => rfl
  | coll => rfl
  | quit => rfl

theorem step_isSome (hs : s.Sound) (h : s.pending input = none) : (s.step input).isSome := by
  unfold pending at h
  unfold Session.step
  split at h
  next pad io loop hloop =>
    simp only [hloop]
    by_cases hback : pad.back
    · simp [turn, hback]
    · by_cases ha : pad.a
      · simp only [hback, ha, Bool.not_false, Bool.and_self, if_true, Option.map_eq_none_iff] at h
        rw [turn_of_buttons (by simpa using hback) ha]
        exact act_isSome (hs.move hloop pad) rfl h
      · simp [turn, hback, ha]
  next => cases h
  next => cases h
  next => split <;> simp_all

theorem perform_isSome (hs : s.Sound) (hmeets : s.Meets input)
    (h : s.pending input = some (use, io, m)) : (m.perform use io).isSome := by
  cases use with
  | save =>
      by_cases hwritten : io.written.isSome
      · obtain ⟨after, hafter, -⟩ := (recorded_iff (pending_sound hs h) hwritten).mpr
          (hmeets.save io m h hwritten)
        simp [perform, hafter]
      · simp only [Option.not_isSome_iff_eq_none] at hwritten
        simp [perform, saveState, hwritten]
  | load =>
      by_cases hexists : m.saveExists
      · obtain ⟨after, hafter, -⟩ := (@loaded_iff m io hexists).mpr
          (hmeets.load io m h hexists)
        simp [perform, hafter]
      · simp [perform, loadState, hexists]

/-- A step is faithful just when it finds the picker where it should be. -/
theorem Sound.faithful_iff (hs : s.Sound) : s.Faithful input ↔ s.Meets input := by
  constructor
  · intro hfaithful
    obtain ⟨after, hafter⟩ := Option.isSome_iff_exists.mp hfaithful.defined
    refine ⟨fun io m hpending hwritten => ?_, fun io m hpending hexists => ?_⟩
    · obtain ⟨close, hclose, hstep⟩ := step_of_pending hpending
      obtain ⟨done, hdone, rfl⟩ := Option.map_eq_some_iff.mp (hstep ▸ hafter)
      have hrecorded := hfaithful.saved io m _ hpending hwritten hafter
      simp only [Recorded, hclose] at hrecorded
      exact (recorded_iff (pending_sound hs hpending) hwritten).mp ⟨done, hdone, hrecorded⟩
    · obtain ⟨close, hclose, hstep⟩ := step_of_pending hpending
      obtain ⟨done, hdone, rfl⟩ := Option.map_eq_some_iff.mp (hstep ▸ hafter)
      have hloaded := hfaithful.loaded io m _ hpending hexists hafter
      simp only [Loaded, hclose] at hloaded
      exact (loaded_iff hexists).mp ⟨done, hdone, hloaded⟩
  · intro hmeets
    refine ⟨?_, fun io m after hpending hwritten hafter => ?_,
      fun io m after hpending hexists hafter => ?_⟩
    · cases hpending : s.pending input with
      | none => exact step_isSome hs hpending
      | some asked =>
          obtain ⟨use, io, m⟩ := asked
          obtain ⟨close, -, hstep⟩ := step_of_pending hpending
          rw [hstep, Option.isSome_map]
          exact perform_isSome hs hmeets hpending
    · obtain ⟨close, hclose, hstep⟩ := step_of_pending hpending
      obtain ⟨done, hdone, hrecorded⟩ := (recorded_iff (pending_sound hs hpending) hwritten).mpr
        (hmeets.save io m hpending hwritten)
      rw [hstep, perform, hdone] at hafter
      cases hafter
      simpa only [Recorded, hclose] using hrecorded
    · obtain ⟨close, hclose, hstep⟩ := step_of_pending hpending
      obtain ⟨done, hdone, hloaded⟩ := (loaded_iff hexists).mpr
        (hmeets.load io m hpending hexists)
      rw [hstep, perform, hdone] at hafter
      cases hafter
      simpa only [Loaded, hclose] using hloaded

/-! ## Runs -/

theorem matchDisc_range (path : CString) (discs : List CString) {i found : Int} (hi : 0 ≤ i)
    (hfound : found = -1 ∨ 0 ≤ found ∧ found < i) :
    Menu.matchDisc path i found discs = -1 ∨ 0 ≤ Menu.matchDisc path i found discs ∧
      Menu.matchDisc path i found discs < i + discs.length := by
  induction discs generalizing i found with
  | nil => simpa [Menu.matchDisc] using hfound
  | cons disc rest ih =>
      have hnext : (if disc = path then i else found) = -1 ∨
          0 ≤ (if disc = path then i else found) ∧ (if disc = path then i else found) < i + 1 := by
        split_ifs <;> omega
      have hrest := ih (by omega) hnext
      simp only [Menu.matchDisc, List.length_cons, Nat.cast_add, Nat.cast_one]
      omega

variable {fs : FileSystem} {core : Core} {replacesImage simpleMode : Bool} {path : CString}

theorem start_sound (hm3u : (Game.open fs path true).m3uPath.isSome) :
    (start fs core replacesImage simpleMode path).Sound := by
  refine ⟨?_, fun _ hloop => (Option.some_ne_none _ hloop.symm).elim, ?_⟩
  · have hrange := matchDisc_range path ((Game.open fs path true).m3uPath.elim []
      (Menu.discPaths fs)) (le_refl 0) (.inl rfl)
    simpa [start, total] using hrange
  · refine ⟨(Game.open fs path true).name, ?_, ?_⟩
    · simp only [start, Menu.slotPath, open_path]
    · rw [name_of_m3uPath hm3u, List.getLast?_append]
      rfl

end Session
end DarkUI.Minarch
