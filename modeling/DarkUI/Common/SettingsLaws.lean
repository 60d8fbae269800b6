import DarkUI.Common.Settings
import DarkUI.Foundation.Run
import Mathlib.Data.Fintype.Basic

/-! # What the settings file can hold

The processes that save write to one and the same `.tmp` file. What the settings file holds
depends on what is still to come for that file when it is renamed.
-/

namespace DarkUI

open Run

/-- The process has the file open or written, and renames it unless its write falls short. -/
def Saving.renames : Saving → Bool
  | .opened _ | .written _ true | .synced _ true | .closed true => true
  | _ => false

namespace Saves

variable {ι : Type*} {size : Nat} {previous : Option (List UInt8)} {s t : Saves ι size}
  {process : ι} {file : Nat}

/-- The file holds the settings from before, or an image that was passed to `write`. -/
def Whole (previous : Option (List UInt8)) (s : Saves ι size) (file : Nat) : Prop :=
  previous = some (s.disk.data file) ∨ ∃ image ∈ s.images, s.disk.data file = image.bytes

/-- Under these names the settings are whole, or as absent as before. -/
def WholeAt (previous : Option (List UInt8)) (s : Saves ι size)
    (names : SettingsFile → Option Nat) : Prop :=
  match names .settings with
  | none => previous = none
  | some file => s.Whole previous file

/-- The settings file is not torn. -/
def Holds (previous : Option (List UInt8)) (s : Saves ι size) : Prop :=
  s.WholeAt previous s.disk.names

instance : Decidable (s.Whole previous file) := inferInstanceAs (Decidable (_ ∨ _))

instance {names : SettingsFile → Option Nat} : Decidable (s.WholeAt previous names) :=
  match h : names .settings with
  | none => decidable_of_iff (previous = none) (by simp [WholeAt, h])
  | some file => decidable_of_iff (s.Whole previous file) (by simp [WholeAt, h])

instance : Decidable (s.Holds previous) := inferInstanceAs (Decidable (s.WholeAt _ _))

/-- A whole image that has reached the disk, with no process about to write over it. -/
def Settled (previous : Option (List UInt8)) (s : Saves ι size) (file : Nat) : Prop :=
  s.Whole previous file ∧ s.disk.synced file ∧ ∀ process, s.saving process ≠ .opened file

/-- Nobody else is to rename the file that is opened. -/
def OpensAlone (s : Saves ι size) : SaveInput ι size → Prop
  | .call _ (.open true) => ∀ process, (s.saving process).renames = false
  | _ => True

instance [Fintype ι] {input : SaveInput ι size} : Decidable (s.OpensAlone input) :=
  match input with
  | .call _ call =>
      match call with
      | .open true => inferInstanceAs (Decidable (∀ process, (s.saving process).renames = false))
      | .open false | .write _ _ | .fsync | .close | .rename | .sync => .isTrue trivial
  | .powerCut _ _ => .isTrue trivial

/-- What a process that is to rename the file it opened can rely on. -/
def Ready (previous : Option (List UInt8)) (s : Saves ι size) : Saving → Prop
  | .opened fd => s.disk.names .tmp = some fd ∧ s.disk.data fd = []
  | .written fd true => s.disk.names .tmp = some fd ∧ s.Whole previous fd
  | .synced fd true => s.disk.names .tmp = some fd ∧ s.Whole previous fd ∧ s.disk.synced fd
  | .closed true => ∃ fd, s.disk.names .tmp = some fd ∧ s.Whole previous fd ∧ s.disk.synced fd
  | _ => True

structure Sound (previous : Option (List UInt8)) (s : Saves ι size) : Prop where
  bounded : s.disk.Bounded
  opened : ∀ process file, s.saving process = .opened file → file < s.disk.fresh
  absent : ∀ names ∈ s.disk.history, names .settings = none → previous = none
  settled : ∀ file, s.disk.Published .settings file → s.Settled previous file
  apart : ∀ file, s.disk.Published .settings file → s.disk.names .tmp ≠ some file
  distinct : ∀ names ∈ s.disk.history, ∀ file, names .settings = some file →
    names .tmp ≠ some file

theorem Sound.holds (h : s.Sound previous) : s.Holds previous := by
  unfold Holds WholeAt
  split
  next hnone => exact h.absent _ List.mem_cons_self hnone
  next file hfile => exact (h.settled file (Disk.published_of_names hfile)).1

theorem Sound.published_lt (h : s.Sound previous) (hfile : s.disk.Published .settings file) :
    file < s.disk.fresh := by
  obtain ⟨names, hmem, hnames⟩ := hfile
  exact h.bounded names hmem _ _ hnames

/-- A step that leaves the names alone, and every file that was published, keeps the invariant. -/
theorem Sound.kept (h : s.Sound previous) (hnames : t.disk.history = s.disk.history)
    (hfresh : t.disk.fresh = s.disk.fresh)
    (hopened : ∀ process file, t.saving process = .opened file → s.saving process = .opened file)
    (hsettled : ∀ file, s.disk.Published .settings file →
      t.Whole previous file ∧ t.disk.synced file) : t.Sound previous := by
  have hpublished : ∀ file, t.disk.Published .settings file → s.disk.Published .settings file := by
    intro file hfile
    rwa [Disk.Published, hnames] at hfile
  have hcurrent : t.disk.names = s.disk.names := (List.cons.inj hnames).1
  constructor
  · intro names hmem path file hfile
    rw [hfresh]
    exact h.bounded names (hnames ▸ hmem) path file hfile
  · intro process file hfile
    rw [hfresh]
    exact h.opened process file (hopened process file hfile)
  · intro names hmem
    exact h.absent names (hnames ▸ hmem)
  · intro file hfile
    obtain ⟨hwhole, hsynced⟩ := hsettled file (hpublished file hfile)
    refine ⟨hwhole, hsynced, fun process hprocess => ?_⟩
    exact (h.settled file (hpublished file hfile)).2.2 process (hopened process file hprocess)
  · intro file hfile
    rw [hcurrent]
    exact h.apart file (hpublished file hfile)
  · intro names hmem
    exact h.distinct names (hnames ▸ hmem)

theorem start_sound (previous : Option (List UInt8)) :
    (start previous : Saves ι size).Sound previous := by
  have hmem : ∀ names ∈ (start previous : Saves ι size).disk.history,
      names = (start previous : Saves ι size).disk.names := fun names h => List.mem_singleton.mp h
  have hsettings : (start previous : Saves ι size).disk.names .settings =
      previous.map fun _ => 0 := rfl
  constructor
  · intro names h path file hfile
    rw [hmem names h] at hfile
    cases path with
    | settings =>
        obtain ⟨_, -, rfl⟩ := Option.map_eq_some_iff.mp hfile
        exact Nat.one_pos
    | tmp => cases hfile
  · intro process file h
    cases h
  · intro names h hnone
    rw [hmem names h, hsettings] at hnone
    exact Option.map_eq_none_iff.mp hnone
  · rintro file ⟨names, h, hfile⟩
    rw [hmem names h, hsettings] at hfile
    obtain ⟨content, hcontent, rfl⟩ := Option.map_eq_some_iff.mp hfile
    refine ⟨Or.inl ?_, rfl, fun process => by simp [start]⟩
    simp [start, hcontent]
  · intro file _ htmp
    cases htmp
  · intro names h file _ htmp
    rw [hmem names h] at htmp
    cases htmp

/-- The file a process opens is not, and was not, the settings file. -/
theorem Sound.not_published (h : s.Sound previous) :
    ¬s.disk.Published .settings (s.disk.openTrunc .tmp).2 := by
  intro hpublished
  cases htmp : s.disk.names .tmp with
  | some file =>
      have hfile : (s.disk.openTrunc .tmp).2 = file := by
        simp [Disk.openTrunc, htmp]
      rw [hfile] at hpublished
      exact h.apart file hpublished htmp
  | none =>
      have hfile : (s.disk.openTrunc .tmp).2 = s.disk.fresh := by
        simp [Disk.openTrunc, htmp]
      rw [hfile] at hpublished
      exact Nat.lt_irrefl _ (h.published_lt hpublished)

/-- What was published had reached the disk, so a power cut loses nothing of it. -/
theorem Sound.powerCut (h : s.Sound previous) (kept : Nat) (lost : Nat → List UInt8) :
    ({ s with disk := s.disk.powerCut kept lost, saving := fun _ => .idle } : Saves ι size).Sound
      previous := by
  refine ⟨?_, ?_, ?_, ?_, ?_, ?_⟩
  · exact fun names hmem => h.bounded names (Disk.mem_history_powerCut hmem)
  · intro other file hother
    cases hother
  · exact fun names hmem => h.absent names (Disk.mem_history_powerCut hmem)
  · rintro file ⟨names, hmem, hfile⟩
    obtain ⟨hwhole, hsynced, -⟩ := h.settled file ⟨names, Disk.mem_history_powerCut hmem, hfile⟩
    have hdata : (s.disk.powerCut kept lost).data file = s.disk.data file := if_pos hsynced
    refine ⟨?_, rfl, fun other hother => by cases hother⟩
    simpa only [Whole, hdata] using hwhole
  · rintro file ⟨names, hmem, hfile⟩
    have hnames : names = (s.disk.powerCut kept lost).names := List.mem_singleton.mp hmem
    rw [← hnames]
    exact h.distinct names (Disk.mem_history_powerCut hmem) file hfile
  · exact fun names hmem => h.distinct names (Disk.mem_history_powerCut hmem)

/-- At most one process is to rename the file it opened, and it is ready to. -/
structure Alone (previous : Option (List UInt8)) (s : Saves ι size) : Prop where
  one : ∀ process other, (s.saving process).renames = true → (s.saving other).renames = true →
    process = other
  ready : ∀ process, s.Ready previous (s.saving process)

theorem ready_of_not_renames {saving : Saving} (h : saving.renames = false) :
    s.Ready previous saving := by
  unfold Ready
  split
  all_goals trivial

theorem Alone.of_others (process : ι)
    (hothers : ∀ other ≠ process, (t.saving other).renames = false)
    (hready : t.Ready previous (t.saving process)) : t.Alone previous := by
  have hone : ∀ other, (t.saving other).renames = true → other = process := by
    intro other hother
    by_contra hne
    exact absurd hother (by simp [hothers other hne])
  constructor
  · intro p q hp hq
    rw [hone p hp, hone q hq]
  · intro p
    by_cases hp : p = process
    · exact hp ▸ hready
    · exact ready_of_not_renames (hothers p hp)

theorem Alone.kept (h : s.Alone previous) (hnames : t.disk.names = s.disk.names)
    (hdata : t.disk.data = s.disk.data) (himages : t.images = s.images)
    (hsynced : ∀ file, s.disk.synced file = true → t.disk.synced file = true)
    (hsaving : ∀ other, t.saving other = s.saving other ∨ (t.saving other).renames = false) :
    t.Alone previous := by
  have hpending : ∀ other, (t.saving other).renames = true → t.saving other = s.saving other := by
    intro other hother
    rcases hsaving other with hsame | hnot
    · exact hsame
    · exact absurd hother (by simp [hnot])
  have hwhole : ∀ file, s.Whole previous file → t.Whole previous file := by
    intro file hfile
    rwa [Whole, hdata, himages]
  constructor
  · intro p q hp hq
    exact h.one p q (hpending p hp ▸ hp) (hpending q hq ▸ hq)
  · intro p
    cases hp : (t.saving p).renames with
    | false => exact ready_of_not_renames hp
    | true =>
        have hready := h.ready p
        rw [← hpending p hp] at hready
        unfold Ready at hready ⊢
        rw [hnames, hdata]
        split
        next fd hfd => simpa only [hfd] using hready
        next fd hfd =>
          simp only [hfd] at hready
          exact ⟨hready.1, hwhole fd hready.2⟩
        next fd hfd =>
          simp only [hfd] at hready
          exact ⟨hready.1, hwhole fd hready.2.1, hsynced fd hready.2.2⟩
        next hfd =>
          simp only [hfd] at hready
          obtain ⟨fd, hfile, hold, hkept⟩ := hready
          exact ⟨fd, hfile, hwhole fd hold, hsynced fd hkept⟩
        next => trivial

/-- What a process that is alone renames is settled. -/
theorem Alone.settled (h : s.Alone previous) (hclosed : s.saving process = .closed true) :
    ∀ file ∈ s.disk.names .tmp, s.Settled previous file := by
  intro file hfile
  have hready := h.ready process
  rw [hclosed] at hready
  obtain ⟨fd, hnames, hwhole, hsynced⟩ := hready
  obtain rfl : fd = file := Option.some.inj (hnames.symm.trans hfile)
  refine ⟨hwhole, hsynced, fun other hother => ?_⟩
  have hone : other = process := h.one other process (by rw [hother]; rfl) (by rw [hclosed]; rfl)
  rw [hone, hclosed] at hother
  cases hother

theorem idle_alone (hidle : ∀ other, s.saving other = .idle) : s.Alone previous := by
  have hnot : ∀ other, (s.saving other).renames = false := fun other => by rw [hidle other]; rfl
  constructor
  · intro p q hp
    exact absurd hp (by simp [hnot p])
  · exact fun p => ready_of_not_renames (hnot p)

variable [DecidableEq ι]

theorem opened_of_setSaving {saving : Saving} (hsaving : ∀ file, saving ≠ .opened file)
    {other : ι} (h : (s.setSaving process saving).saving other = .opened file) :
    s.saving other = .opened file := by
  simp only [setSaving, Function.update_apply] at h
  split at h
  · exact absurd h (hsaving file)
  · exact h

theorem Sound.open (h : s.Sound previous)
    (hstep : s.call process (.open true) = some t) : t.Sound previous := by
  dsimp only [call] at hstep
  split at hstep
  next hidle =>
    cases hstep
    obtain ⟨hbounded, hlt⟩ := @Disk.openTrunc_bounded _ _ s.disk .tmp _ h.bounded
    have hpublished : ∀ file, (s.disk.openTrunc .tmp).1.Published .settings file →
        s.disk.Published .settings file := fun file => Disk.published_of_openTrunc (by decide)
    -- the file that is opened is new, so it is none that is published
    have hne : ∀ file, s.disk.Published .settings file → file ≠ (s.disk.openTrunc .tmp).2 := by
      rintro file hfile rfl
      exact h.not_published hfile
    refine ⟨hbounded, ?_, ?_, ?_, ?_, ?_⟩
    · intro other file hother
      simp only [setSaving, Function.update_apply] at hother
      split at hother
      · cases hother
        exact hlt
      · exact Nat.lt_of_lt_of_le (h.opened other file hother) Disk.openTrunc_fresh
    · intro names hmem hnone
      rcases Disk.mem_history_openTrunc hmem with hold | ⟨-, rfl⟩
      · exact h.absent names hold hnone
      · rw [Function.update_of_ne (by decide)] at hnone
        exact h.absent _ List.mem_cons_self hnone
    · intro file hfile
      have hold := hpublished file hfile
      obtain ⟨hwhole, hsynced, hclosed⟩ := h.settled file hold
      obtain ⟨hdata, hkept⟩ := Disk.openTrunc_frame (hne file hold)
      refine ⟨?_, hkept.trans hsynced, fun other hother => ?_⟩
      · simpa only [Whole, setSaving, hdata] using hwhole
      · simp only [setSaving, Function.update_apply] at hother
        split at hother
        · exact hne file hold (Saving.opened.inj hother).symm
        · exact hclosed other hother
    · intro file hfile htmp
      have htmp' : some (s.disk.openTrunc .tmp).2 = some file :=
        Disk.openTrunc_names.symm.trans htmp
      exact hne file (hpublished file hfile) (Option.some.inj htmp').symm
    · intro names hmem file hfile
      rcases Disk.mem_history_openTrunc hmem with hold | ⟨-, rfl⟩
      · exact h.distinct names hold file hfile
      · rw [Function.update_of_ne (by decide)] at hfile
        rw [Function.update_self]
        intro hfresh
        have hlt := h.published_lt (Disk.published_of_names hfile)
        have := Option.some.inj hfresh
        omega
  next => cases hstep

theorem Sound.write (h : s.Sound previous) {image : SettingsImage size} {n : Nat}
    (hstep : s.call process (.write image n) = some t) : t.Sound previous := by
  dsimp only [call] at hstep
  split at hstep
  next fd hopened =>
    cases hstep
    refine h.kept rfl rfl (fun other file hother => ?_) fun file hfile => ?_
    · exact opened_of_setSaving (by simp) hother
    · obtain ⟨hwhole, hsynced, hclosed⟩ := h.settled file hfile
      have hne : file ≠ fd := by
        rintro rfl
        exact hclosed process hopened
      obtain ⟨hdata, hkept⟩ := @Disk.write_frame _ _ s.disk fd file (image.bytes.take n) hne
      refine ⟨?_, hkept.trans hsynced⟩
      refine hwhole.imp (fun hprevious => ?_) ?_
      · exact hprevious.trans (congrArg some hdata.symm)
      · rintro ⟨other, hmem, hother⟩
        exact ⟨other, List.mem_cons_of_mem _ hmem, hdata.trans hother⟩
  next => cases hstep

theorem Sound.fsync (h : s.Sound previous) (hstep : s.call process .fsync = some t) :
    t.Sound previous := by
  dsimp only [call] at hstep
  split at hstep
  next fd full hwritten =>
    cases hstep
    refine h.kept rfl rfl (fun other file hother => ?_) fun file hfile => ?_
    · exact opened_of_setSaving (by simp) hother
    · obtain ⟨hwhole, hsynced, -⟩ := h.settled file hfile
      exact ⟨hwhole, Disk.fsync_synced hsynced⟩
  next => cases hstep

theorem Sound.close (h : s.Sound previous) (hstep : s.call process .close = some t) :
    t.Sound previous := by
  dsimp only [call] at hstep
  split at hstep
  next fd full hsynced =>
    cases hstep
    refine h.kept rfl rfl (fun other file hother => ?_) fun file hfile => ?_
    · exact opened_of_setSaving (by simp) hother
    · exact ⟨(h.settled file hfile).1, (h.settled file hfile).2.1⟩
  next => cases hstep

/-- The one step at which settings are published. -/
theorem Sound.rename (h : s.Sound previous)
    (hsettled : ∀ file ∈ s.disk.names .tmp, s.Settled previous file)
    (hstep : s.call process .rename = some t) : t.Sound previous := by
  dsimp only [call] at hstep
  split at hstep
  next hclosed =>
    cases hstep
    obtain ⟨hdata, hsynced, hfresh⟩ := @Disk.rename_frame _ _ s.disk _ .tmp .settings
    have hopened : ∀ other file,
        ({ s with disk := s.disk.rename .tmp .settings }.setSaving process .done).saving other =
          .opened file → s.saving other = .opened file :=
      fun other file hother => opened_of_setSaving (by simp) hother
    refine ⟨Disk.rename_bounded h.bounded, ?_, ?_, ?_, ?_, ?_⟩
    · intro other file hother
      exact Nat.lt_of_lt_of_eq (h.opened other file (hopened other file hother)) hfresh.symm
    · intro names hmem hnone
      rcases Disk.mem_history_rename hmem with hold | ⟨file, -, rfl⟩
      · exact h.absent names hold hnone
      · rw [Function.update_of_ne (by decide), Function.update_self] at hnone
        cases hnone
    · intro file hfile
      -- what is published afterwards was so before, or is the temporary file
      have hold : s.Settled previous file := by
        rcases Disk.published_of_rename (by decide) hfile with hpublished | htmp
        · exact h.settled file hpublished
        · exact hsettled file htmp
      obtain ⟨hwhole, hfileSynced, hnone⟩ := hold
      refine ⟨?_, ?_, fun other hother => hnone other (hopened other file hother)⟩
      · simpa only [Whole, setSaving, hdata] using hwhole
      · simpa only [setSaving, hsynced] using hfileSynced
    · intro file hfile htmp
      -- without a temporary file nothing is renamed
      cases hmoved : s.disk.names .tmp with
      | some moved =>
          have hnames : (s.disk.rename .tmp .settings).names .tmp = none := by
            simp [Disk.rename, hmoved]
          exact absurd (hnames.symm.trans htmp) (by simp)
      | none =>
          have hsame : s.disk.rename .tmp .settings = s.disk := by
            simp [Disk.rename, hmoved]
          have hcurrent : (s.disk.rename .tmp .settings).names .tmp = some file := htmp
          rw [hsame, hmoved] at hcurrent
          cases hcurrent
    · intro names hmem file hfile
      rcases Disk.mem_history_rename hmem with hold | ⟨moved, -, rfl⟩
      · exact h.distinct names hold file hfile
      · rw [Function.update_self]
        exact fun htmp => by cases htmp
  next => cases hstep

theorem Sound.sync (h : s.Sound previous) (hstep : s.call process .sync = some t) :
    t.Sound previous := by
  have hsync : t = { s with disk := s.disk.sync }.setSaving process .idle := by
    dsimp only [call] at hstep
    split at hstep
    next => exact (Option.some.inj hstep).symm
    next => exact (Option.some.inj hstep).symm
    next => cases hstep
  subst hsync
  have hpublished : ∀ file, s.disk.sync.Published .settings file →
      s.disk.Published .settings file :=
    fun file ⟨names, hmem, hfile⟩ => ⟨names, Disk.mem_history_sync hmem, hfile⟩
  have hopened : ∀ other file,
      ({ s with disk := s.disk.sync }.setSaving process .idle).saving other = .opened file →
        s.saving other = .opened file :=
    fun other file hother => opened_of_setSaving (by simp) hother
  refine ⟨?_, ?_, ?_, ?_, ?_, ?_⟩
  · exact fun names hmem => h.bounded names (Disk.mem_history_sync hmem)
  · exact fun other file hother => h.opened other file (hopened other file hother)
  · exact fun names hmem => h.absent names (Disk.mem_history_sync hmem)
  · intro file hfile
    obtain ⟨hwhole, -, hclosed⟩ := h.settled file (hpublished file hfile)
    exact ⟨hwhole, rfl, fun other hother => hclosed other (hopened other file hother)⟩
  · exact fun file hfile => h.apart file (hpublished file hfile)
  · exact fun names hmem => h.distinct names (Disk.mem_history_sync hmem)

/-- Every step keeps the settings whole, if a process renames only what is settled. -/
theorem Sound.step (h : s.Sound previous)
    (hrename : ∀ process, s.saving process = .closed true →
      ∀ file ∈ s.disk.names .tmp, s.Settled previous file)
    {input : SaveInput ι size} (hstep : s.step input = some t) : t.Sound previous := by
  cases input with
  | powerCut kept lost =>
      cases hstep
      exact h.powerCut kept lost
  | call process call =>
      cases call with
      | «open» succeeds =>
          cases succeeds with
          | true => exact h.open hstep
          | false =>
              dsimp only [Saves.step, Saves.call] at hstep
              split at hstep
              next => exact Option.some.inj hstep ▸ h
              next => cases hstep
      | write image n => exact h.write hstep
      | fsync => exact h.fsync hstep
      | close => exact h.close hstep
      | rename =>
          refine h.rename (fun file hfile => ?_) hstep
          dsimp only [Saves.step, Saves.call] at hstep
          split at hstep
          next hclosed => exact hrename process hclosed file hfile
          next => cases hstep
      | sync => exact h.sync hstep

theorem Alone.others (h : s.Alone previous) (hprocess : (s.saving process).renames = true)
    {disk : Disk SettingsFile UInt8} {images : List (SettingsImage size)} {saving : Saving} :
    ∀ other ≠ process,
      ((({ s with disk, images } : Saves ι size).setSaving process saving).saving other).renames =
        false := by
  intro other hother
  simp only [setSaving, Function.update_of_ne hother]
  cases hrenames : (s.saving other).renames with
  | false => rfl
  | true => exact absurd (h.one other process hrenames hprocess) hother

theorem setSaving_or {saving : Saving} (hsaving : saving.renames = false) (other : ι) :
    (s.setSaving process saving).saving other = s.saving other ∨
      ((s.setSaving process saving).saving other).renames = false := by
  simp only [setSaving]
  by_cases hother : other = process
  · subst hother
    right
    rwa [Function.update_self]
  · left
    rw [Function.update_of_ne hother]

theorem Alone.open (halone : ∀ other, (s.saving other).renames = false)
    (hstep : s.call process (.open true) = some t) : t.Alone previous := by
  dsimp only [call] at hstep
  split at hstep
  next hidle =>
    cases hstep
    apply Alone.of_others process
    · intro other hother
      simp only [setSaving, Function.update_of_ne hother]
      exact halone other
    · simp only [setSaving, Function.update_self]
      exact ⟨Disk.openTrunc_names, Disk.openTrunc_data⟩
  next => cases hstep

theorem Alone.write (h : s.Alone previous) {image : SettingsImage size} {n : Nat}
    (hstep : s.call process (.write image n) = some t) : t.Alone previous := by
  dsimp only [call] at hstep
  split at hstep
  next fd hopened =>
    cases hstep
    have hready := h.ready process
    rw [hopened] at hready
    obtain ⟨hnames, hdata⟩ := hready
    apply Alone.of_others process
    · exact h.others (by rw [hopened]; rfl)
    · simp only [setSaving, Function.update_self]
      by_cases hfull : (image.bytes.take n).length = size
      · have hbytes : image.bytes.take n = image.bytes := by
          refine List.take_of_length_le ?_
          have := image.length_eq
          rw [List.length_take] at hfull
          omega
        rw [decide_eq_true hfull, hbytes]
        refine ⟨hnames, Or.inr ⟨image, List.mem_cons_self, ?_⟩⟩
        simp [Disk.write, hdata]
      · rw [decide_eq_false hfull]
        trivial
  next => cases hstep

theorem Alone.fsync (h : s.Alone previous) (hstep : s.call process .fsync = some t) :
    t.Alone previous := by
  dsimp only [call] at hstep
  split at hstep
  next fd full hwritten =>
    cases hstep
    cases full with
    | false =>
        refine h.kept rfl rfl rfl (fun file => Disk.fsync_synced) fun other => ?_
        exact setSaving_or rfl other
    | true =>
        have hready := h.ready process
        rw [hwritten] at hready
        apply Alone.of_others process
        · exact h.others (by rw [hwritten]; rfl)
        · simp only [setSaving, Function.update_self]
          exact ⟨hready.1, hready.2, by simp [Disk.fsync]⟩
  next => cases hstep

theorem Alone.close (h : s.Alone previous) (hstep : s.call process .close = some t) :
    t.Alone previous := by
  dsimp only [call] at hstep
  split at hstep
  next fd full hsynced =>
    cases hstep
    cases full with
    | false =>
        exact h.kept rfl rfl rfl (fun file => id) fun other => setSaving_or rfl other
    | true =>
        have hready := h.ready process
        rw [hsynced] at hready
        apply Alone.of_others process
        · exact h.others (by rw [hsynced]; rfl)
        · simp only [setSaving, Function.update_self]
          exact ⟨fd, hready⟩
  next => cases hstep

theorem Alone.rename (h : s.Alone previous) (hstep : s.call process .rename = some t) :
    t.Alone previous := by
  dsimp only [call] at hstep
  split at hstep
  next hclosed =>
    cases hstep
    apply Alone.of_others process
    · exact h.others (by rw [hclosed]; rfl)
    · simp only [setSaving, Function.update_self]
      trivial
  next => cases hstep

theorem Alone.sync (h : s.Alone previous) (hstep : s.call process .sync = some t) :
    t.Alone previous := by
  have hsync : t = { s with disk := s.disk.sync }.setSaving process .idle := by
    dsimp only [call] at hstep
    split at hstep
    next => exact (Option.some.inj hstep).symm
    next => exact (Option.some.inj hstep).symm
    next => cases hstep
  subst hsync
  exact h.kept rfl rfl rfl (fun file _ => rfl) fun other => setSaving_or rfl other

theorem Alone.step (h : s.Alone previous) {input : SaveInput ι size}
    (halone : s.OpensAlone input) (hstep : s.step input = some t) : t.Alone previous := by
  cases input with
  | powerCut kept lost =>
      cases hstep
      exact idle_alone fun other => rfl
  | call process call =>
      cases call with
      | «open» succeeds =>
          cases succeeds with
          | true => exact Alone.open halone hstep
          | false =>
              dsimp only [Saves.step, Saves.call] at hstep
              split at hstep
              next => exact Option.some.inj hstep ▸ h
              next => cases hstep
      | write image n => exact h.write hstep
      | fsync => exact h.fsync hstep
      | close => exact h.close hstep
      | rename => exact h.rename hstep
      | sync => exact h.sync hstep

theorem reaches_sound (hreach : Reaches step OpensAlone (start previous) s) :
    s.Sound previous ∧ s.Alone previous := by
  have hstart : (start previous : Saves ι size).Alone previous := idle_alone fun other => rfl
  refine @Reaches.invariant _ _ _ _ _ _ (fun s => s.Sound previous ∧ s.Alone previous) hreach
    ⟨start_sound previous, hstart⟩ ?_
  rintro s t input ⟨hsound, halone⟩ hallowed hstep
  exact ⟨hsound.step (fun process hclosed => halone.settled hclosed) hstep,
    halone.step hallowed hstep⟩

/-- From here the settings can be torn, although nobody opens the file again. -/
def Tearable (previous : Option (List UInt8)) (s : Saves ι size) : Prop :=
  ∃ torn, Reaches step OpensAlone s torn ∧ ¬torn.Holds previous

theorem Tearable.of_step {input : SaveInput ι size} (hstep : s.step input = some t)
    (hallowed : s.OpensAlone input) (h : t.Tearable previous) : s.Tearable previous := by
  obtain ⟨torn, hreach, hnot⟩ := h
  exact ⟨torn, (Reaches.tail .refl hallowed hstep).trans hreach, hnot⟩

/-- A process has the settings file open, with its write to come. -/
theorem tearable_of_opened (hopened : s.saving process = .opened file)
    (hnames : s.disk.names .settings = some file) : s.Tearable previous := by
  let image : SettingsImage size := ⟨List.replicate size 0, List.length_replicate⟩
  let length := size + (previous.getD []).length + 1
  let written := { s with disk := s.disk.write file [], images := image :: s.images }.setSaving
    process (.written file (decide (([] : List UInt8).length = size)))
  have hwrite : s.step (.call process (.write image 0)) = some written := by
    dsimp only [step, call]
    rw [hopened]
    rfl
  have hcut : written.step (.powerCut 0 fun _ => List.replicate length 0) = some _ := rfl
  refine Tearable.of_step hwrite trivial (Tearable.of_step hcut trivial ⟨_, .refl, ?_⟩)
  have hdata : (written.disk.powerCut 0 fun _ => List.replicate length 0).data file =
      List.replicate length 0 := by
    simp [written, setSaving, Disk.powerCut, Disk.write]
  have hsettings : (written.disk.powerCut 0 fun _ => List.replicate length 0).names .settings =
      some file := hnames
  intro hholds
  simp only [Holds, WholeAt, hsettings, Whole, hdata] at hholds
  rcases hholds with hprevious | ⟨other, -, hother⟩
  · have := congrArg (fun content => (content.getD []).length) hprevious
    simp only [Option.getD_some, List.length_replicate] at this
    omega
  · have := congrArg List.length hother
    rw [List.length_replicate, other.length_eq] at this
    omega

/-- Two processes are about to rename one and the same file, and one has its write to come. -/
structure Overlap (s : Saves ι size) (process other : ι) (file : Nat) (saving : Saving) :
    Prop where
  opened : s.saving process = .opened file
  saving_eq : s.saving other = saving
  names : s.disk.names .tmp = some file
  ne : process ≠ other

variable {other : ι}

theorem Overlap.of_call {saving next : Saving} (h : s.Overlap process other file saving)
    (disk : Disk SettingsFile UInt8) (images : List (SettingsImage size))
    (hnames : disk.names = s.disk.names) :
    (({ s with disk, images } : Saves ι size).setSaving other next).Overlap process other file
      next where
  opened := by
    simpa only [setSaving, Function.update_of_ne h.ne] using h.opened
  saving_eq := Function.update_self _ _ _
  names := (congrFun hnames .tmp).trans h.names
  ne := h.ne

theorem Overlap.closed (h : s.Overlap process other file (.closed true)) :
    s.Tearable previous := by
  have hrename : s.step (.call other .rename) =
      some ({ s with disk := s.disk.rename .tmp .settings }.setSaving other .done) := by
    simp [step, call, h.saving_eq]
  refine Tearable.of_step hrename trivial (@tearable_of_opened _ _ _ _ process file _ ?_ ?_)
  · simpa only [setSaving, Function.update_of_ne h.ne] using h.opened
  · simp [setSaving, Disk.rename, h.names]

theorem Overlap.synced {fd : Nat} (h : s.Overlap process other file (.synced fd true)) :
    s.Tearable previous := by
  have hclose : s.step (.call other .close) = some (s.setSaving other (.closed true)) := by
    simp [step, call, h.saving_eq]
  exact Tearable.of_step hclose trivial (h.of_call s.disk s.images rfl).closed

theorem Overlap.written {fd : Nat} (h : s.Overlap process other file (.written fd true)) :
    s.Tearable previous := by
  have hfsync : s.step (.call other .fsync) =
      some ({ s with disk := s.disk.fsync fd }.setSaving other (.synced fd true)) := by
    simp [step, call, h.saving_eq]
  exact Tearable.of_step hfsync trivial (h.of_call (s.disk.fsync fd) s.images rfl).synced

theorem Overlap.both {fd : Nat} (h : s.Overlap process other file (.opened fd)) :
    s.Tearable previous := by
  let image : SettingsImage size := ⟨List.replicate size 0, List.length_replicate⟩
  have hwrite : s.step (.call other (.write image size)) = some
      ({ s with
          disk := s.disk.write fd (image.bytes.take size)
          images := image :: s.images }.setSaving other (.written fd true)) := by
    simp [step, call, h.saving_eq, image]
  exact Tearable.of_step hwrite trivial
    (h.of_call (s.disk.write fd _) (image :: s.images) rfl).written

/-- Opening the file while another is to rename it is what makes a torn file possible. -/
theorem tearable_of_open (hother : (s.saving other).renames = true)
    (hstep : s.call process (.open true) = some t) : t.Tearable previous := by
  dsimp only [call] at hstep
  split at hstep
  next hidle =>
    cases hstep
    have hne : process ≠ other := by
      rintro rfl
      rw [hidle] at hother
      cases hother
    have hoverlap : ({ s with disk := (s.disk.openTrunc .tmp).1 }.setSaving process
        (.opened (s.disk.openTrunc .tmp).2)).Overlap process other (s.disk.openTrunc .tmp).2
          (s.saving other) :=
      ⟨Function.update_self _ _ _, Function.update_of_ne hne.symm _ _, Disk.openTrunc_names, hne⟩
    cases hsaving : s.saving other with
    | idle => simp [hsaving, Saving.renames] at hother
    | opened fd => exact (hsaving ▸ hoverlap).both
    | written fd full =>
        cases full with
        | true => exact (hsaving ▸ hoverlap).written
        | false => simp [hsaving, Saving.renames] at hother
    | synced fd full =>
        cases full with
        | true => exact (hsaving ▸ hoverlap).synced
        | false => simp [hsaving, Saving.renames] at hother
    | closed full =>
        cases full with
        | true => exact (hsaving ▸ hoverlap).closed
        | false => simp [hsaving, Saving.renames] at hother
    | done => simp [hsaving, Saving.renames] at hother
  next => cases hstep

/-- The settings file stays whole as long as nobody opens `.tmp` while another process is to
rename it, and can be torn from the first time somebody does. -/
theorem settings_whole_iff (hreach : Reaches step OpensAlone (start previous) s) :
    s.Holds previous ∧ ∀ input t, s.step input = some t →
      (s.OpensAlone input ↔ ∀ u, Reaches step OpensAlone t u → u.Holds previous) := by
  refine ⟨(reaches_sound hreach).1.holds,
    fun input t hstep => ⟨fun hallowed u hu => ?_, fun hwhole => ?_⟩⟩
  · exact (reaches_sound ((hreach.tail hallowed hstep).trans hu)).1.holds
  · unfold OpensAlone
    split
    next process =>
      intro other
      cases hother : (s.saving other).renames with
      | false => rfl
      | true =>
          obtain ⟨torn, htorn, hnot⟩ := tearable_of_open hother hstep
          exact absurd (hwhole torn htorn) hnot
    next => trivial

/-- One process saves `[7, 8]`. Another saves `[9, 1]`, which it begins before the first has called
`sync`, and the power is cut after it has. -/
def twoSaves : List (SaveInput Bool 2) :=
  [.call true (.open true), .call true (.write ⟨[7, 8], rfl⟩ 2), .call true .fsync,
    .call true .close, .call true .rename, .call false (.open true),
    .call false (.write ⟨[9, 1], rfl⟩ 2), .call true .sync, .call false .fsync,
    .call false .close, .call false .rename, .call false .sync,
    .powerCut 0 fun _ => []]

theorem settings_whole_twoSaves : ∃ s : Saves Bool 2, s.images = [⟨[9, 1], rfl⟩, ⟨[7, 8], rfl⟩] ∧
    s.Holds (some [1, 2]) ∧ ∀ input t, s.step input = some t →
      (s.OpensAlone input ↔
        ∀ u, Reaches step OpensAlone t u → u.Holds (some [1, 2])) := by
  have hrun : ((some (start (some [1, 2]))).bind
      (follow step (fun s input => decide (s.OpensAlone input)) twoSaves)).any
        (fun s => s.images == [⟨[9, 1], rfl⟩, ⟨[7, 8], rfl⟩]) = true := by
    decide +kernel
  obtain ⟨s₀, s, hstart, hreach, himages⟩ := exists_reaches_of_follow hrun
  cases hstart
  have halone : Reaches step OpensAlone (start (some [1, 2])) s :=
    hreach.mono fun _ _ => of_decide_eq_true
  exact ⟨s, beq_iff_eq.mp himages, settings_whole_iff halone⟩

/-- Another process opens `.tmp` after it is closed and before it is renamed. -/
def overlappingSaves : List (SaveInput Bool 1) :=
  [.call true (.open true), .call true (.write ⟨[7], rfl⟩ 1), .call true .fsync,
    .call true .close, .call false (.open true), .call true .rename]

theorem settings_torn : ¬∀ (previous : Option (List UInt8)) (s : Saves Bool 1),
    Reaches step (fun _ _ => True) (start previous) s → s.Holds previous := by
  intro hall
  have hrun : ((some (start (some [1]))).bind
      (follow step (fun _ _ => true) overlappingSaves)).any
        (fun s => decide (¬s.Holds (some [1]))) = true := by
    decide +kernel
  obtain ⟨s₀, s, hstart, hreach, htorn⟩ := exists_reaches_of_follow hrun
  cases hstart
  exact of_decide_eq_true htorn (hall _ s (hreach.mono fun _ _ _ => trivial))

end Saves

end DarkUI
