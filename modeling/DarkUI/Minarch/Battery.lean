import DarkUI.Minarch.QuicksaveLaws
import DarkUI.Minarch.StateRead
import Mathlib.Data.List.Induction

/-! # Battery saves from session to session

The SRAM and the clock of a cartridge are written whenever the game may end and read when it is
started again. Whatever other games are played between, and whichever steps fail, a file holds
what the last write that came to its rename left there.
-/

namespace DarkUI.Minarch

open Text Stdio

/-- `RETRO_MEMORY_SAVE_RAM` and `RETRO_MEMORY_RTC`. -/
inductive Battery
  | sram | rtc
  deriving DecidableEq, Repr

namespace Battery

/-- `SRAM_getPath` and `RTC_getPath`. -/
def getPath (core : Core) (gameName : FileName) : Battery → CString
  | sram => Sram.getPath core gameName
  | rtc => Rtc.getPath core gameName

def suffix : Battery → CString
  | sram => ".sav".toList
  | rtc => ".rtc".toList

end Battery

/-- How the steps that read a save file turn out. -/
structure ReadBack where
  fopen : Bool
  fread : ReadOutcome
  deriving DecidableEq

/-- A region with bytes read over its start. -/
def Memory.load (memory : Memory) (bytes : List Byte) (h : bytes.length ≤ memory.size) :
    Memory where
  size := memory.size
  data := memory.data.map fun old => bytes ++ old.drop bytes.length
  length_data := by
    intro loaded hloaded
    obtain ⟨old, hold, rfl⟩ := Option.mem_map.mp hloaded
    rw [List.length_append, List.length_drop, memory.length_data old hold]
    omega

/-- The body that `SRAM_read` and `RTC_read` share. -/
def memoryRead (memory : Memory) (filename : CString) (io : ReadBack)
    (files : Files CString Byte) : Memory :=
  if memory.size = 0 then memory
  else
    match if io.fopen then files filename else none with
    | none => memory
    | some content =>
        memory.load (freadStart content memory.size io.fread) (length_freadStart_le _ _ _)

/-- A moment at which both regions are written: going to sleep, a change of HDMI, a power-off,
and `Core_quit`. -/
structure SavePoint where
  core : Core
  gameName : FileName
  memory : Battery → Memory
  io : Battery → ReplaceOutcome

namespace SavePoint

/-- `SRAM_write` and then `RTC_write`. -/
def write (point : SavePoint) (files : Files CString Byte) : Files CString Byte :=
  Rtc.write point.core point.gameName (point.memory .rtc) (point.io .rtc)
    (Sram.write point.core point.gameName (point.memory .sram) (point.io .sram) files)

/-- What is left at the region's path, if the write comes to its rename. -/
def committed (point : SavePoint) (battery : Battery) : Option (List Byte) :=
  let io := point.io battery
  match (point.memory battery).data, io.fwrite with
  | some bytes, .complete k =>
      if (point.memory battery).size ≠ 0 ∧ io.fopen = true ∧ io.rename = true then
        some ((Stream.opened.fwrite bytes (.complete k)).2.fclose io.fclose)
      else none
  | _, _ => none

end SavePoint

/-! ### Paths -/

namespace Battery

variable {core other : Core} {gameName otherName : FileName} {battery otherBattery : Battery}

theorem getPath_eq (core : Core) (gameName : FileName) (battery : Battery) :
    getPath core gameName battery = core.savesDir ++ '/' :: gameName.1 ++ battery.suffix := by
  cases battery <;> rfl

theorem getPath_fits (core : Core) (gameName : FileName) (battery : Battery) :
    (getPath core gameName battery).length + 5 < maxPath := by
  have htag := core.tag.2
  have hname := gameName.2
  have hsuffix : battery.suffix.length = 4 := by cases battery <;> decide
  have hdir : (sdcardPath ++ "/Saves/".toList).length = 18 := by decide
  rw [getPath_eq, Core.savesDir]
  simp only [List.length_append, List.length_cons] at hdir ⊢
  unfold maxPath
  omega

theorem tmpName_getPath (core : Core) (gameName : FileName) (battery : Battery) :
    tmpName (getPath core gameName battery) = getPath core gameName battery ++ ".tmp".toList := by
  have hfits := getPath_fits core gameName battery
  apply bounded_of_lt
  rw [List.length_append, show ".tmp".toList.length = 4 by decide]
  omega

/-- A path ends in the letters of its region, a temporary name in others. -/
theorem getLast_getPath (core : Core) (gameName : FileName) (battery : Battery) :
    (getPath core gameName battery).getLast? = battery.suffix.getLast? := by
  have hsuffix : battery.suffix ≠ [] := by cases battery <;> decide
  rw [getPath_eq, List.getLast?_append_of_ne_nil _ hsuffix]

theorem getPath_ne_tmpName : getPath core gameName battery ≠
    tmpName (getPath other otherName otherBattery) := by
  intro h
  have hlast := congrArg List.getLast? h
  rw [tmpName_getPath, getLast_getPath] at hlast
  cases battery <;> simp [suffix] at hlast

theorem battery_eq_of_getPath (h : getPath core gameName battery =
    getPath other otherName otherBattery) : battery = otherBattery := by
  have hlast := congrArg List.getLast? h
  rw [getLast_getPath, getLast_getPath] at hlast
  cases battery <;> cases otherBattery <;> first | rfl | simp [suffix] at hlast

end Battery

/-! ### Runs of saves -/

namespace SavePoint

variable {point : SavePoint} {files : Files CString Byte} {battery : Battery}

/-- What one write leaves at its own path. -/
theorem memoryWrite_self (point : SavePoint) (battery : Battery) (files : Files CString Byte) :
    memoryWrite (point.memory battery) (battery.getPath point.core point.gameName)
        (point.io battery) files (battery.getPath point.core point.gameName) =
      (point.committed battery).or (files (battery.getPath point.core point.gameName)) := by
  have hne := @Battery.getPath_ne_tmpName point.core point.core point.gameName point.gameName
    battery battery
  unfold memoryWrite committed
  dsimp only
  cases hdata : (point.memory battery).data with
  | none => split_ifs <;> simp [hne]
  | some bytes =>
      have hlength := (point.memory battery).length_data bytes hdata
      by_cases hsize : (point.memory battery).size = 0
      · simp only [hsize, if_true, ne_eq, not_true, false_and, if_false]
        cases (point.io battery).fwrite <;> rfl
      · cases hopen : (point.io battery).fopen with
        | false => cases (point.io battery).fwrite <;> simp [hsize]
        | true =>
            cases hwrite : (point.io battery).fwrite with
            | short accepted k =>
                have hbytes : bytes ≠ [] := by
                  rintro rfl
                  exact hsize hlength.symm
                have hlt := Stream.fwrite_short_lt Stream.opened bytes accepted k hbytes
                rw [hlength] at hlt
                simp [hsize, hlt.ne, hne]
            | complete k =>
                cases hrename : (point.io battery).rename with
                | false => simp [hsize, Stream.fwrite, hlength, hne]
                | true => simp [hsize, Stream.fwrite, hlength]

/-- What a save point leaves at the path of any game's region. -/
theorem write_getPath (point : SavePoint) (core : Core) (gameName : FileName) (battery : Battery)
    (files : Files CString Byte) :
    point.write files (battery.getPath core gameName) =
      if battery.getPath point.core point.gameName = battery.getPath core gameName then
        (point.committed battery).or (files (battery.getPath core gameName))
      else files (battery.getPath core gameName) := by
  have hother : ∀ written : Battery, written ≠ battery →
      battery.getPath core gameName ≠ written.getPath point.core point.gameName := by
    intro written hwritten h
    exact hwritten (Battery.battery_eq_of_getPath h).symm
  have htmp : ∀ written : Battery, battery.getPath core gameName ≠
      tmpName (written.getPath point.core point.gameName) :=
    fun written => Battery.getPath_ne_tmpName
  have hsram := memoryWrite_self point .sram files
  split
  next hsame =>
    rw [← hsame] at hother htmp ⊢
    cases battery with
    | sram =>
        refine (memoryWrite_of_ne (hother .rtc nofun) (htmp .rtc) _).trans ?_
        exact memoryWrite_self point .sram files
    | rtc =>
        refine (memoryWrite_self point .rtc _).trans ?_
        congr 1
        exact memoryWrite_of_ne (hother .sram nofun) (htmp .sram) _
  next hdiffer =>
    have hpath : ∀ written : Battery, battery.getPath core gameName ≠
        written.getPath point.core point.gameName := by
      intro written h
      cases Battery.battery_eq_of_getPath h
      exact hdiffer h.symm
    refine (memoryWrite_of_ne (hpath .rtc) (htmp .rtc) _).trans ?_
    exact memoryWrite_of_ne (hpath .sram) (htmp .sram) _

/-- The save points whose region is kept at the given path. -/
def At (battery : Battery) (path : CString) (point : SavePoint) : Bool :=
  battery.getPath point.core point.gameName = path

/-- The card after the save points. -/
def run (points : List SavePoint) (files : Files CString Byte) : Files CString Byte :=
  points.foldl (fun files point => point.write files) files

/-- After any run of save points of any games, each path holds what the last write there that
came to its rename left, or what it held before. -/
theorem write_run (points : List SavePoint) (core : Core) (gameName : FileName)
    (battery : Battery) (files : Files CString Byte) :
    run points files (battery.getPath core gameName) =
      (((points.filter (At battery (battery.getPath core gameName))).filterMap
        fun point => point.committed battery).getLast?).or
          (files (battery.getPath core gameName)) := by
  induction points using List.reverseRecOn with
  | nil => rfl
  | append_singleton before point ih =>
      unfold run at ih ⊢
      rw [List.foldl_append, List.foldl_cons, List.foldl_nil, write_getPath, ih,
        List.filter_append, List.filterMap_append]
      split
      next hsame =>
        have hat : At battery (battery.getPath core gameName) point = true := decide_eq_true hsame
        rw [List.filter_cons_of_pos hat, List.filter_nil]
        cases hcommitted : point.committed battery with
        | none => simp [hcommitted]
        | some bytes => simp [hcommitted]
      next hdiffer =>
        have hat : ¬At battery (battery.getPath core gameName) point = true := by
          simpa [At] using hdiffer
        rw [List.filter_cons_of_neg hat, List.filter_nil]
        simp

/-- Every step of the write succeeds, and closing the file loses nothing. -/
structure Whole (point : SavePoint) (battery : Battery) : Prop where
  size : (point.memory battery).size ≠ 0
  fopen : (point.io battery).fopen = true
  fwrite : ∃ k, (point.io battery).fwrite = .complete k
  rename : (point.io battery).rename = true
  untorn : ∀ n, ¬(point.io battery).TornAt (point.memory battery).size n

theorem Whole.committed (h : point.Whole battery) {bytes : List Byte}
    (hdata : (point.memory battery).data = some bytes) :
    point.committed battery = some bytes := by
  obtain ⟨k, hwrite⟩ := h.fwrite
  have hlength := (point.memory battery).length_data bytes hdata
  rcases torn_or_whole bytes h.fopen h.rename hwrite with ⟨n, htorn, -⟩ | ⟨-, hall⟩
  · rw [hlength] at htorn
    exact absurd htorn (h.untorn n)
  · unfold SavePoint.committed
    simp only [hdata, hwrite, h.size, h.fopen, h.rename, ne_eq, not_false_eq_true, and_self,
      if_true, hall]

/-- A game starts from the last memory written whole, however many games were played and however
many writes failed since. -/
theorem game_continues (before after : List SavePoint) (save : SavePoint) (battery : Battery)
    (files : Files CString Byte) (fresh : Memory) (hwhole : save.Whole battery)
    (hexposed : (save.memory battery).data ≠ none)
    (hlater : ∀ point ∈ after, battery.getPath point.core point.gameName =
      battery.getPath save.core save.gameName → point.committed battery = none)
    (hsize : fresh.size = (save.memory battery).size) (hfresh : fresh.data ≠ none) :
    (memoryRead fresh (battery.getPath save.core save.gameName) ⟨true, .complete⟩
      (run (before ++ save :: after) files)).data =
        (save.memory battery).data := by
  obtain ⟨bytes, hdata⟩ := Option.ne_none_iff_exists'.mp hexposed
  obtain ⟨old, hold⟩ := Option.ne_none_iff_exists'.mp hfresh
  have hlength := (save.memory battery).length_data bytes hdata
  have holdLength := fresh.length_data old hold
  have hnone : (after.filter (At battery (battery.getPath save.core save.gameName))).filterMap
      (fun point => point.committed battery) = [] := by
    rw [List.filterMap_eq_nil_iff]
    intro point hpoint
    obtain ⟨hmem, hat⟩ := List.mem_filter.mp hpoint
    exact hlater point hmem (of_decide_eq_true hat)
  have hsave : At battery (battery.getPath save.core save.gameName) save = true :=
    decide_eq_true rfl
  have hcontent : run (before ++ save :: after) files
      (battery.getPath save.core save.gameName) = some bytes := by
    rw [write_run, List.filter_append, List.filter_cons_of_pos hsave, List.filterMap_append,
      List.filterMap_cons, hwhole.committed hdata]
    simp [hnone]
  have hwhole' : freadStart bytes fresh.size .complete = bytes := by
    rw [hsize, ← hlength]
    exact List.take_length
  have hpos : fresh.size ≠ 0 := by
    rw [hsize]
    exact hwhole.size
  have hdrop : old.drop bytes.length = [] := by
    rw [hlength, ← hsize, ← holdLength]
    exact List.drop_length
  simp only [memoryRead, if_neg hpos, if_true, hcontent, Memory.load, hwhole', hold,
    Option.map_some, hdrop, List.append_nil, hdata]

/-- A cartridge with two bytes of battery memory, written whole, and then a write that fails. -/
theorem game_continues_two_bytes :
    let core : Core := ⟨⟨"GB".toList, by decide⟩, ⟨"gambatte".toList, by decide⟩⟩
    let name : FileName := ⟨"Game.gb".toList, by decide⟩
    let saved : Memory := ⟨2, some ['a', 'b'], by simp⟩
    let fresh : Memory := ⟨2, some ['x', 'x'], by simp⟩
    let save : SavePoint :=
      ⟨core, name, fun _ => saved, fun _ => ⟨true, .complete 0, .flushed, true⟩⟩
    let failed : SavePoint :=
      ⟨core, name, fun _ => fresh, fun _ => ⟨true, .short 1 1, .flushed, true⟩⟩
    (memoryRead fresh (Battery.sram.getPath core name) ⟨true, .complete⟩
      (run ([] ++ save :: [failed]) fun _ => none)).data = saved.data := by
  intro core name saved fresh save failed
  have hwhole : save.Whole .sram := by
    refine ⟨nofun, rfl, ⟨0, rfl⟩, rfl, ?_⟩
    rintro n ⟨-, -, -, j, k, -, hclose, -⟩
    cases hclose
  have hlater : ∀ point ∈ [failed], Battery.sram.getPath point.core point.gameName =
      Battery.sram.getPath core name → point.committed .sram = none := by
    intro point hpoint _
    rw [List.mem_singleton.mp hpoint]
    rfl
  exact game_continues [] [failed] save .sram (fun _ => none) fresh hwhole nofun hlater rfl nofun

end SavePoint

end DarkUI.Minarch
