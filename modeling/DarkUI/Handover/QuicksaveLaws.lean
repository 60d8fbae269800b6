import DarkUI.Handover.Quicksave
import DarkUI.Minarch.QuicksaveLaws
import DarkUI.Foundation.Run

/-! # When a quicksave resumes the state it was made for

A game leaves its marker before it is suspended, and the next start of the launcher takes
it away again. So a marker found at boot is that of the last power-off, and the slot holds
the state of that power-off if it was written whole.
-/

namespace DarkUI.Handover

open Text Stdio Minui Minarch Run

namespace Machine

variable (host : Host) (m : Machine)

/-- What is queued at boot is the game of the last power-off, with the slot that holds the
state serialized for it. -/
def Resumes : Prop :=
  ∀ cmd, (m.queued host).next = some cmd →
    ∃ run image, m.lastOff = some (run, some image) ∧
      cmd = romCommand (getEmuPath host (m.fs.unlink autoResumePath)
        (getEmuName run.game.path)) run.game.path ∧
      (m.queued host).resumeSlot = some (decimal autoResumeSlot) ∧
      m.fs.file run.quicksavePath = some image

/-- When the power goes off with a marker, the marker was written whole and so was the
state before it; and a marker that has served is really removed. -/
structure Meets (event : Event) : Prop where
  saved : ∀ run io n, event = .powerOff → m.power = .suspended run io → io.marks = some n →
    io.Saves ∧ run.marker.length ≤ n
  unlinked : ∀ unlinked, event = .boot unlinked ∨ event = .wake unlinked ∨ event = .quit unlinked →
    m.fs.file autoResumePath ≠ none → unlinked = true

/-- A game that runs, or the launcher, has no marker. A suspended game has the marker it
wrote, and a marker on a device that is off goes with the state of the last power-off. -/
def Sound : Prop :=
  match m.power with
  | .off => ∀ content, m.fs.file autoResumePath = some content →
      ∃ run image, m.lastOff = some (run, some image) ∧ content = run.marker ∧
        m.fs.file run.quicksavePath = some image
  | .launcher | .playing _ => m.fs.file autoResumePath = none
  | .suspended run io =>
      m.fs.file autoResumePath = io.marks.map run.marker.take ∧
        (io.marks.isSome → io.Saves → m.fs.file run.quicksavePath = io.serializer.image)

variable {host m} {m' : Machine} {event : Event}

theorem autoResume_marker (fs : FileSystem) (tmp : Tmp) :
    (autoResume host fs tmp).1.file autoResumePath = none := by
  unfold autoResume
  cases hread : fs.getFile autoResumePath maxPath with
  | none => simpa [FileSystem.getFile] using hread
  | some path =>
      have hunlinked : (fs.unlink autoResumePath).file autoResumePath = none := by
        simp [FileSystem.unlink]
      simp only
      split_ifs <;> exact hunlinked

theorem startLauncher_sound (unlinked : Bool)
    (h : m.fs.file autoResumePath ≠ none → unlinked = true) :
    (m.startLauncher host unlinked).Sound := by
  simp only [Sound, startLauncher]
  cases unlinked with
  | true => exact autoResume_marker _ _
  | false =>
      by_contra hsome
      exact absurd (h hsome) (by decide)

theorem powered_sound {power : Power} (h : m.fs.file autoResumePath = none)
    (hpower : power = .launcher ∨ ∃ run, power = .playing run) :
    ({ m with power } : Machine).Sound := by
  rcases hpower with rfl | ⟨run, rfl⟩ <;> exact h

theorem write_sound {path : CString} {content : Option CString}
    (h : m.fs.file autoResumePath = none)
    (hpower : m.power = .launcher ∨ ∃ run, m.power = .playing run)
    (hwrite : (if path = autoResumePath then some m
      else some { m with
        fs := { m.fs with file := Function.update m.fs.file path content } }) = some m') :
    m'.Sound := by
  split_ifs at hwrite with hpath
  · cases hwrite
    exact powered_sound h hpower
  · cases hwrite
    refine powered_sound (m := { m with fs := _ }) ?_ hpower
    simpa [Ne.symm hpath] using h

/-- The front end goes to sleep: the marker names the game, if it can be written. -/
theorem suspend_sound (run : Running) (io : SleepIo) (h : m.fs.file autoResumePath = none) :
    ({ m with
      fs := Menu.beforeSleep run io m.fs
      power := .suspended run io } : Machine).Sound := by
  refine ⟨?_, beforeSleep_slot run io m.fs⟩
  rw [beforeSleep_marker]
  cases io.marks with
  | none => exact h
  | some n => rfl

theorem wake_sound (run : Running) (unlinked : Bool)
    (h : m.fs.file autoResumePath ≠ none → unlinked = true) :
    ({ m with fs := Menu.afterSleep unlinked m.fs, power := .playing run } : Machine).Sound := by
  simp only [Sound, Menu.afterSleep]
  cases unlinked with
  | true => simp [FileSystem.unlink]
  | false =>
      by_contra hsome
      exact absurd (h hsome) (by decide)

/-- What goes off without a marker leaves none. -/
theorem off_sound (lastOff : Option (Running × Option (List Byte)))
    (h : m.fs.file autoResumePath = none) :
    ({ m with power := .off, lastOff } : Machine).Sound := by
  intro content hcontent
  exact absurd (h.symm.trans hcontent) (by simp)

/-- The power goes while the device sleeps: what the marker names has been saved. -/
theorem off_suspended_sound (run : Running) (io : SleepIo) (hs : m.Sound)
    (hpower : m.power = .suspended run io)
    (hsaved : ∀ n, io.marks = some n → io.Saves ∧ run.marker.length ≤ n) :
    ({ m with power := .off, lastOff := some (run, io.serializer.image) } : Machine).Sound := by
  unfold Sound at hs
  rw [hpower] at hs
  obtain ⟨hmarker, hslot⟩ := hs
  intro content hcontent
  simp only at hcontent
  rw [hmarker] at hcontent
  obtain ⟨n, hmarks, rfl⟩ := Option.map_eq_some_iff.mp hcontent
  obtain ⟨hsaves, hfull⟩ := hsaved n hmarks
  obtain ⟨image, himage⟩ := Option.isSome_iff_exists.mp hsaves.serialized
  refine ⟨run, image, by rw [himage], List.take_of_length_le hfull, ?_⟩
  rw [← himage]
  exact hslot (by simp [hmarks]) hsaves

theorem Sound.step (hs : m.Sound) (hmeets : m.Meets event)
    (hstep : m.step host event = some m') : m'.Sound := by
  have hsound := hs
  unfold Sound at hs
  unfold Machine.step at hstep
  split at hstep
  next unlinked _ =>
    cases hstep
    exact startLauncher_sound unlinked (hmeets.unlinked unlinked (.inl rfl))
  next core path hpower =>
    cases hstep
    rw [hpower] at hs
    refine powered_sound hs ?_
    cases Running.open? core m.fs path true with
    | none => exact .inl rfl
    | some run => exact .inr ⟨run, rfl⟩
  next path loaded run hpower =>
    cases hstep
    rw [hpower] at hs
    refine powered_sound hs (.inr ?_)
    cases Running.open? run.core m.fs path loaded with
    | none => exact ⟨run, rfl⟩
    | some changed => exact ⟨changed, rfl⟩
  next path content hpower =>
    rw [hpower] at hs
    exact write_sound hs (.inl hpower) hstep
  next path content run hpower =>
    rw [hpower] at hs
    exact write_sound hs (.inr ⟨run, hpower⟩) hstep
  next io run hpower =>
    cases hstep
    rw [hpower] at hs
    exact suspend_sound run io hs
  next unlinked run io hpower =>
    cases hstep
    exact wake_sound run unlinked (hmeets.unlinked unlinked (.inr (.inl rfl)))
  next unlinked run hpower =>
    cases hstep
    exact startLauncher_sound unlinked (hmeets.unlinked unlinked (.inr (.inr rfl)))
  next unlinked run io hpower =>
    cases hstep
    exact startLauncher_sound unlinked (hmeets.unlinked unlinked (.inr (.inr rfl)))
  next hpower =>
    cases hstep
    rw [hpower] at hs
    exact off_sound none hs
  next run hpower =>
    cases hstep
    rw [hpower] at hs
    exact off_sound (some (run, none)) hs
  next run io hpower =>
    cases hstep
    exact off_suspended_sound run io hsound hpower fun n hmarks =>
      hmeets.saved run io n rfl hpower hmarks
  -- whatever else happens in a state is ignored there
  next =>
    cases hstep
    exact hs

/-- The path of a game comes back from its marker. -/
theorem sdPath_marker (run : Running) : sdPath (fileText maxPath run.marker) = run.game.path := by
  obtain ⟨rest, hrest⟩ := run.onCard
  have hfits := run.fits
  have hnul := run.nul_not_mem
  rw [← hrest] at hfits hnul
  simp only [List.length_append, List.mem_append, not_or] at hfits hnul
  rw [Running.marker, ← hrest, List.drop_left, fileText_of_fits (by omega) hnul.2, sdPath,
    bounded_of_lt (by simpa using hfits)]

/-- What is queued when a game left its marker. -/
theorem queued_of_marker {run : Running} (h : m.fs.file autoResumePath = some run.marker)
    {cmd : CString} (hcmd : (m.queued host).next = some cmd) :
    cmd = romCommand (getEmuPath host (m.fs.unlink autoResumePath)
        (getEmuName run.game.path)) run.game.path ∧
      (m.queued host).resumeSlot = some (decimal autoResumeSlot) := by
  have hread : m.fs.getFile autoResumePath maxPath = some (fileText maxPath run.marker) := by
    simp [FileSystem.getFile, h]
  unfold queued autoResume at hcmd ⊢
  simp only [hread, sdPath_marker] at hcmd ⊢
  split_ifs at hcmd ⊢
  · cases hcmd
  · cases hcmd
  · simp only [Option.some.injEq] at hcmd
    exact ⟨hcmd.symm, rfl⟩

theorem Sound.resumes (hs : m.Sound) (hoff : m.power = .off) : m.Resumes host := by
  unfold Sound at hs
  rw [hoff] at hs
  intro cmd hcmd
  cases hmarker : m.fs.file autoResumePath with
  | none => simp [queued, autoResume, FileSystem.getFile, hmarker, Tmp.empty] at hcmd
  | some content =>
      obtain ⟨run, image, hlast, rfl, hslot⟩ := hs content hmarker
      obtain ⟨hqueued, hresumeSlot⟩ := queued_of_marker hmarker hcmd
      exact ⟨run, image, hlast, hqueued, hresumeSlot, hslot⟩

/-- In every run in which the power goes off only after whole writes, or without a marker,
and used markers are removed, a device that is off resumes what it was switched off with. -/
theorem quicksave_resumes {fs : FileSystem} (hfresh : fs.file autoResumePath = none)
    (hreach : Reaches (fun m event => step host m event) Meets (fresh fs) m)
    (hoff : m.power = .off) : m.Resumes host := by
  refine Sound.resumes (hreach.invariant ?_ fun hs hmeets hstep => hs.step hmeets hstep) hoff
  intro content hcontent
  exact absurd (hfresh.symm.trans hcontent) (by simp)

/-! ## A game switched off twice -/

/-- A card with one game and its emulator. -/
def gameCard : FileSystem :=
  .ofLists
    [("/mnt/sdcard/.system/rg35xx/paks/Emus/GB.pak/launch.sh".toList, []),
      ("/mnt/sdcard/Roms/GB/Tetris.gb".toList, [])] []

def gambatte : Core := ⟨⟨"GB".toList, by decide⟩, ⟨"gambatte".toList, by decide⟩⟩

def launchTetris : Event := .launch gambatte "/mnt/sdcard/Roms/GB/Tetris.gb".toList

/-- Writes that all succeed, unless the temporary file of the state cannot be opened. -/
def sleepIo (opens : Bool) (byte : Byte) : SleepIo where
  reached := 4
  sram := ⟨0, none, by simp⟩
  sramIo := ⟨true, .complete 0, .flushed, true⟩
  rtc := ⟨0, none, by simp⟩
  rtcIo := ⟨true, .complete 0, .flushed, true⟩
  serializer := ⟨1, some [byte], by simp⟩
  calloc := true
  stateIo := ⟨opens, .complete 0, .flushed, true⟩
  marker := some maxPath

/-- A check for a state that is written whole. -/
def wholeState (io : SleepIo) : Bool :=
  io.serializer.size ≠ 0 && io.calloc && io.stateIo.fopen && io.serializer.image.isSome &&
    io.stateIo.rename && io.stateIo.fclose == .flushed && io.stateIo.fwrite == .complete 0

theorem saves_of_wholeState {io : SleepIo} (h : wholeState io) : io.Saves := by
  simp only [wholeState, Bool.and_eq_true, decide_eq_true_eq, beq_iff_eq] at h
  obtain ⟨⟨⟨⟨⟨⟨hsize, hcalloc⟩, hopen⟩, himage⟩, hrename⟩, hclose⟩, hwrite⟩ := h
  refine ⟨hsize, hcalloc, hopen, himage, ⟨0, hwrite⟩, hrename, ?_⟩
  rintro n ⟨-, -, -, j, k, -, htorn, -⟩
  rw [hclose] at htorn
  cases htorn

/-- A check of the condition on a step. -/
def meetsCheck (m : Machine) : Event → Bool
  | .powerOff =>
      match m.power with
      | .suspended run io => io.marks.all fun n => wholeState io && run.marker.length ≤ n
      | _ => true
  | .boot unlinked => unlinked
  | .wake unlinked => unlinked
  | .quit unlinked => unlinked
  | _ => true

theorem meets_of_check (h : m.meetsCheck event) : m.Meets event := by
  refine ⟨fun run io n hevent hpower hmarks => ?_, fun unlinked hevent _ => ?_⟩
  · subst hevent
    simp only [meetsCheck, hpower, hmarks, Option.all_some, Bool.and_eq_true,
      decide_eq_true_eq] at h
    exact ⟨saves_of_wholeState h.1, h.2⟩
  · rcases hevent with rfl | rfl | rfl <;> exact h

/-- A play session that ends with the power off. -/
def session (io : SleepIo) : List Event := [.boot true, launchTetris, .suspend io, .powerOff]

def isOff (m : Machine) : Bool :=
  match m.power with
  | .off => true
  | _ => false

/-- A game that was switched off after whole writes resumes the state of that moment. -/
theorem quicksave_resumes_tetris :
    ∃ m, Reaches (fun m event => step ⟨rg35xx, .stable⟩ m event) Meets (fresh gameCard) m ∧
      (m.queued ⟨rg35xx, .stable⟩).next.isSome ∧ m.Resumes ⟨rg35xx, .stable⟩ := by
  have hrun : ((some (fresh gameCard)).bind (follow (fun m event => step ⟨rg35xx, .stable⟩ m event)
      meetsCheck (session (sleepIo true 'a')))).any (fun m =>
        m.isOff &&
          (m.queued ⟨rg35xx, .stable⟩).next.isSome) = true := by
    decide +kernel
  obtain ⟨m₀, m, hstart, hreach, hm⟩ := exists_reaches_of_follow hrun
  cases hstart
  simp only [Bool.and_eq_true] at hm
  have hoff : m.power = .off := by
    cases hpower : m.power <;> simp [isOff, hpower] at hm
    rfl
  have hmeets := hreach.mono fun _ _ => meets_of_check
  exact ⟨m, hmeets, hm.2, quicksave_resumes rfl hmeets hoff⟩

/-- The state of the second power-off cannot be written. Its marker is, and the launcher
resumes the game with the state of the first. -/
theorem quicksave_stale :
    ∃ m, Reaches (fun m event => step ⟨rg35xx, .stable⟩ m event) (fun _ _ => True)
        (fresh gameCard) m ∧
      (m.queued ⟨rg35xx, .stable⟩).next.isSome ∧ ¬ m.Resumes ⟨rg35xx, .stable⟩ := by
  have hrun : ((some (fresh gameCard)).bind (follow (fun m event => step ⟨rg35xx, .stable⟩ m event)
      (fun _ _ => true) (session (sleepIo true 'a') ++ session (sleepIo false 'b')))).any (fun m =>
        (m.queued ⟨rg35xx, .stable⟩).next.isSome && m.lastOff.any fun last =>
          last.2 = some ['b'] && m.fs.file last.1.quicksavePath = some ['a']) = true := by
    decide +kernel
  obtain ⟨m₀, m, hstart, hreach, hm⟩ := exists_reaches_of_follow hrun
  cases hstart
  simp only [Bool.and_eq_true] at hm
  refine ⟨m, hreach.mono fun _ _ _ => trivial, hm.1, fun hresumes => ?_⟩
  obtain ⟨cmd, hcmd⟩ := Option.isSome_iff_exists.mp hm.1
  obtain ⟨run, image, hlast, -, -, hslot⟩ := hresumes cmd hcmd
  simp only [hlast, Option.any_some, Bool.and_eq_true, decide_eq_true_eq] at hm
  obtain ⟨-, himage, hold⟩ := hm
  rw [hslot, himage] at hold
  exact absurd hold (by decide)

end Machine
end DarkUI.Handover
