import DarkUI.Minarch.Quicksave
import DarkUI.Minarch.SaveFileLaws

/-! # What going to sleep leaves on the card

Writing the save files and the state touches their own paths and their temporaries only,
so the marker is what `Menu_beforeSleep` makes of it at the end. The quicksave slot holds
what the core serialized when the state was written whole.
-/

namespace DarkUI.Minarch

open Text Stdio

section Frames

variable {filename path : CString} {files : Files CString Byte} {io : ReplaceOutcome}
  (hfile : path ≠ filename) (htmp : path ≠ tmpName filename)
include hfile htmp

theorem rename_tmp_of_ne (content : List Byte) :
    ((files.put (tmpName filename) content).rename (tmpName filename) filename) path =
      files path := by
  simp [Files.rename, htmp, hfile]

/-- Writing a save file touches the file and its temporary only. -/
theorem memoryWrite_of_ne (memory : Memory) :
    memoryWrite memory filename io files path = files path := by
  unfold memoryWrite
  cases memory.data with
  | none => split_ifs <;> simp [htmp]
  | some bytes =>
      simp only
      split_ifs
      · rfl
      · rfl
      · exact rename_tmp_of_ne hfile htmp _
      · simp [htmp]
      · simp [htmp]

theorem State.write_of_ne (serializer : Serializer) (calloc : Bool) :
    (State.write filename serializer calloc io files).2 path = files path := by
  unfold State.write
  cases serializer.image with
  | none => split_ifs <;> simp [htmp]
  | some bytes =>
      simp only
      split_ifs
      · rfl
      · rfl
      · simp [htmp]
      · simp [htmp]
      · simp [htmp]
      · exact rename_tmp_of_ne hfile htmp _

end Frames

/-- A state that is serialized, accepted whole, renamed and not torn. -/
structure SleepIo.Saves (io : SleepIo) : Prop where
  size : io.serializer.size ≠ 0
  calloc : io.calloc = true
  fopen : io.stateIo.fopen = true
  serialized : io.serializer.image.isSome
  written : ∃ j, io.stateIo.fwrite = .complete j
  rename : io.stateIo.rename = true
  whole : ∀ n, ¬ io.stateIo.TornAt io.serializer.size n

theorem SleepIo.Saves.target {io : SleepIo} {filename : CString} {files : Files CString Byte}
    (h : io.Saves) :
    (State.write filename io.serializer io.calloc io.stateIo files).2 filename =
      io.serializer.image := by
  obtain ⟨bytes, himage⟩ := Option.isSome_iff_exists.mp h.serialized
  obtain ⟨j, hwrite⟩ := h.written
  have hlength := io.serializer.length_image bytes himage
  have hall : (Stream.opened.fwrite bytes (.complete j)).2.fclose io.stateIo.fclose = bytes := by
    rcases torn_or_whole bytes h.fopen h.rename hwrite with ⟨n, htorn, -⟩ | ⟨-, hall⟩
    · exact absurd (hlength ▸ htorn) (h.whole n)
    · exact hall
  unfold State.write
  simp only [if_neg h.size, h.calloc, h.fopen, h.rename, himage, hwrite, hall]
  simp [Stream.fwrite, hlength]

/-! ## The marker is none of the save files -/

section Paths

variable {pre path : CString}

/-- A path that starts elsewhere is neither the file nor its temporary. -/
theorem ne_of_prefix {filename : CString} (hpre : pre <+: filename) (hlength : pre.length < maxPath)
    (hnot : ¬ pre <+: path) : path ≠ filename ∧ path ≠ tmpName filename := by
  refine ⟨fun heq => hnot (heq ▸ hpre), fun heq => hnot ?_⟩
  rw [heq, tmpName, bounded]
  exact List.prefix_take_iff.mpr ⟨hpre.trans (List.prefix_append _ _), by omega⟩

/-- Nor is a short path that ends otherwise than a state file and its temporary. -/
theorem ne_of_getLast {filename : CString} {c : Char} (hlast : filename.getLast? = some c)
    (hdigit : c.isDigit) (hlength : path.length < maxPath - 1)
    (hpath : path.getLast? = some 't') : path ≠ filename ∧ path ≠ tmpName filename := by
  refine ⟨fun heq => ?_, fun heq => ?_⟩
  · rw [heq, hlast, Option.some.injEq] at hpath
    rw [hpath] at hdigit
    exact absurd hdigit (by decide)
  · have htake : (filename ++ ".tmp".toList).length ≤ maxPath - 1 := by
      by_contra hlong
      rw [heq, tmpName, bounded, List.length_take] at hlength
      omega
    have htmp : ".tmp".toList.getLast? = some 'p' := by decide
    rw [heq, tmpName, bounded, List.take_of_length_le htake, List.getLast?_append, htmp,
      Option.some_or, Option.some.injEq] at hpath
    exact absurd hpath (by decide)

end Paths

variable (run : Running) (io : SleepIo)

theorem quicksavePath_getLast : ∃ c, run.quicksavePath.getLast? = some c ∧ c.isDigit := by
  obtain ⟨c, hc, hdigit⟩ := getLast_decimal autoResumeSlot
  refine ⟨c, ?_, hdigit⟩
  rw [Running.quicksavePath, State.getPath, State.pathOf, List.getLast?_append, hc, Option.some_or]

/-- Saving leaves the marker as it was. -/
theorem saveFiles_marker (files : Files CString Byte) :
    saveFiles run io files autoResumePath = files autoResumePath := by
  obtain ⟨c, hlast, hdigit⟩ := quicksavePath_getLast run
  have hsaves (name : CString) : "/mnt/sdcard/Saves/".toList <+: run.core.savesDir ++ name := by
    unfold Core.savesDir
    rw [List.append_assoc]
    exact List.prefix_append _ _
  have hsram : "/mnt/sdcard/Saves/".toList <+: Sram.getPath run.core run.fileName := by
    unfold Sram.getPath
    rw [List.append_assoc]
    exact hsaves _
  have hrtc : "/mnt/sdcard/Saves/".toList <+: Rtc.getPath run.core run.fileName := by
    unfold Rtc.getPath
    rw [List.append_assoc]
    exact hsaves _
  have hnot : ¬ "/mnt/sdcard/Saves/".toList <+: autoResumePath := by decide
  have hsramNe := ne_of_prefix hsram (by decide) hnot
  have hrtcNe := ne_of_prefix hrtc (by decide) hnot
  have hstate := @ne_of_getLast autoResumePath _ _ hlast hdigit (by decide) (by decide)
  simp only [saveFiles, Sram.write, Rtc.write]
  split_ifs <;>
    simp only [State.write_of_ne hstate.1 hstate.2, memoryWrite_of_ne hsramNe.1 hsramNe.2,
      memoryWrite_of_ne hrtcNe.1 hrtcNe.2]

/-- The marker after `Menu_beforeSleep`. -/
theorem beforeSleep_marker (fs : FileSystem) :
    (Menu.beforeSleep run io fs).file autoResumePath =
      match io.marks with
      | none => fs.file autoResumePath
      | some n => some (run.marker.take n) := by
  unfold Menu.beforeSleep
  cases io.marks with
  | none => exact saveFiles_marker run io fs.file
  | some n => simp

/-- A state written whole is in the quicksave slot when the marker is there too. -/
theorem beforeSleep_slot (fs : FileSystem) (hmarks : io.marks.isSome) (hsaves : io.Saves) :
    (Menu.beforeSleep run io fs).file run.quicksavePath = io.serializer.image := by
  obtain ⟨n, hn⟩ := Option.isSome_iff_exists.mp hmarks
  obtain ⟨c, hlast, hdigit⟩ := quicksavePath_getLast run
  have hne : run.quicksavePath ≠ autoResumePath := by
    intro heq
    have ht : autoResumePath.getLast? = some 't' := by decide
    rw [← heq, hlast, Option.some.injEq] at ht
    rw [ht] at hdigit
    exact absurd hdigit (by decide)
  have hreached : 3 < io.reached := by
    by_contra hnot
    simp [SleepIo.marks, hnot] at hn
  unfold Menu.beforeSleep
  simp only [hn]
  rw [FileSystem.putFile_of_ne hne]
  simp only [saveFiles, show 2 < io.reached by omega, if_true]
  exact hsaves.target

end DarkUI.Minarch
