import DarkUI.Minarch.Collections
import Mathlib.Data.List.Flatten

/-! # When a replaced file is whole

A file renamed into place is complete unless a write-back failed after every byte
had been accepted. None of the writers looks at what `fclose` returns.
-/

namespace DarkUI.Minarch

open Text Stdio

/-- Every check passes, yet only the first `n` bytes reach the disk: `fwrite`
accepted them all, and the write-back inside `fclose` stopped before the end. -/
def ReplaceOutcome.TornAt (io : ReplaceOutcome) (size n : Nat) : Prop :=
  io.fopen = true ∧ io.rename = true ∧ n < size ∧
    ∃ j k, io.fwrite = .complete j ∧ io.fclose = .failed k ∧ j + k = n

/-- The file holds all of its old content or all of the region's bytes; a region
the core does not expose replaces nothing. -/
def Memory.Replaced (memory : Memory) (before after : Files CString Byte) (filename : CString) :
    Prop :=
  match memory.data with
  | none => after filename = before filename
  | some bytes => OldOrNew before after filename bytes

/-- As for a memory region, and success is reported only for the new content. -/
def Serializer.Replaced (serializer : Serializer) (before : Files CString Byte)
    (result : Bool × Files CString Byte) (filename : CString) : Prop :=
  match serializer.image with
  | none => result.1 = false ∧ result.2 filename = before filename
  | some bytes => OldOrNew before result.2 filename bytes ∧
      (result.1 = true → result.2 filename = some bytes)

variable {filename : CString} {io : ReplaceOutcome} {files : Files CString Byte}

/-- Nothing is torn when the stream is flushed or the failing write-back still
covers the last byte. -/
theorem torn_or_whole (bytes : List Byte) {j : Nat} (hopen : io.fopen = true)
    (hrename : io.rename = true) (hwrite : io.fwrite = .complete j) :
    (∃ n, io.TornAt bytes.length n ∧
      (Stream.opened.fwrite bytes (.complete j)).2.fclose io.fclose = bytes.take n) ∨
    ((∀ n, ¬ io.TornAt bytes.length n) ∧
      (Stream.opened.fwrite bytes (.complete j)).2.fclose io.fclose = bytes) := by
  cases hclose : io.fclose with
  | flushed =>
      refine .inr ⟨?_, ?_⟩
      · rintro n ⟨_, _, _, _, _, _, hfailed, _⟩
        rw [hclose] at hfailed
        cases hfailed
      · simp [Stream.fclose, Stream.content_fwrite_complete]
  | failed k =>
      rw [Stream.fclose_fwrite_opened]
      by_cases hlt : j + k < bytes.length
      · exact .inl ⟨j + k, ⟨hopen, hrename, hlt, j, k, hwrite, hclose, rfl⟩, rfl⟩
      · refine .inr ⟨?_, List.take_of_length_le (by omega)⟩
        rintro n ⟨_, _, hn, j', k', hwrite', hclose', hsum⟩
        rw [hwrite] at hwrite'
        rw [hclose] at hclose'
        cases hwrite'
        cases hclose'
        omega

theorem take_ne_of_tornAt {bytes : List Byte} {n : Nat} (h : io.TornAt bytes.length n) :
    bytes.take n ≠ bytes := by
  intro heq
  have hlength := congrArg List.length heq
  have hn := h.2.2.1
  simp only [List.length_take] at hlength
  omega

theorem tornAt_unique {size n m : Nat} (hn : io.TornAt size n) (hm : io.TornAt size m) : n = m := by
  obtain ⟨_, _, _, j, k, hwrite, hclose, rfl⟩ := hn
  obtain ⟨_, _, _, j', k', hwrite', hclose', rfl⟩ := hm
  rw [hwrite] at hwrite'
  rw [hclose] at hclose'
  cases hwrite'
  cases hclose'
  rfl

section Checks

variable {size n : Nat}

/-- A check that fails keeps a write from tearing anything. -/
theorem not_tornAt_of_empty (hsize : size = 0) : ¬ io.TornAt size n := by
  rintro ⟨_, _, hn, _⟩
  omega

theorem not_tornAt_of_fopen (hopen : io.fopen = false) : ¬ io.TornAt size n := by
  rintro ⟨hopen', _⟩
  rw [hopen] at hopen'
  cases hopen'

theorem not_tornAt_of_rename (hrename : io.rename = false) : ¬ io.TornAt size n := by
  rintro ⟨_, hrename', _⟩
  rw [hrename] at hrename'
  cases hrename'

theorem not_tornAt_of_short {accepted k : Nat} (hwrite : io.fwrite = .short accepted k) :
    ¬ io.TornAt size n := by
  rintro ⟨_, _, _, _, _, hwrite', _⟩
  rw [hwrite] at hwrite'
  cases hwrite'

end Checks

/-- What `memoryWrite` leaves at its target: the old content, unless every check
passes and the rename happens. -/
theorem memoryWrite_target (hfit : filename.length + 1 < maxPath) (memory : Memory) :
    memoryWrite memory filename io files filename = files filename ∧
        (∀ n, memory.data ≠ none → ¬ io.TornAt memory.size n) ∨
      ∃ bytes j, memory.data = some bytes ∧ io.fopen = true ∧ io.rename = true ∧
        io.fwrite = .complete j ∧
        memoryWrite memory filename io files filename =
          some ((Stream.opened.fwrite bytes (.complete j)).2.fclose io.fclose) := by
  have hne := (tmpName_ne hfit).symm
  unfold memoryWrite
  by_cases hsize : memory.size = 0
  · exact .inl ⟨by simp [hsize], fun _ _ => not_tornAt_of_empty hsize⟩
  rw [if_neg hsize]
  -- each check that fails leaves the target as it was
  cases hopen : io.fopen with
  | false => exact .inl ⟨by simp, fun _ _ => not_tornAt_of_fopen hopen⟩
  | true =>
      cases hdata : memory.data with
      | none => exact .inl ⟨by simp [hne], by simp⟩
      | some bytes =>
          have hlength := memory.length_data bytes hdata
          have hbytes : bytes ≠ [] := by
            rintro rfl
            exact hsize hlength.symm
          cases hwrite : io.fwrite with
          | short accepted k =>
              have hlt := Stream.fwrite_short_lt Stream.opened bytes accepted k hbytes
              refine .inl ⟨?_, fun _ _ => not_tornAt_of_short hwrite⟩
              simp only [Bool.not_true, Bool.false_eq_true, if_false]
              rw [if_neg (by omega)]
              simp [hne]
          | complete j =>
              cases hrename : io.rename with
              | false =>
                  exact .inl ⟨by simp [Stream.fwrite, hlength, hne],
                    fun _ _ => not_tornAt_of_rename hrename⟩
              | true => exact .inr ⟨bytes, j, rfl, rfl, rfl, rfl, by simp [Stream.fwrite, hlength]⟩

theorem memoryWrite_replaced_iff (hfit : filename.length + 1 < maxPath) (memory : Memory) :
    memory.Replaced files (memoryWrite memory filename io files) filename ↔
      ∀ bytes ∈ memory.data, ∀ n, io.TornAt memory.size n →
        files filename = some (bytes.take n) := by
  rcases memoryWrite_target hfit memory with
    ⟨hold, hwhole⟩ | ⟨bytes, j, hdata, hopen, hrename, hwrite, hnew⟩
  · constructor
    · intro _ bytes hbytes n htorn
      exact absurd htorn (hwhole n (by simp [Option.mem_def.mp hbytes]))
    · intro _
      unfold Memory.Replaced
      split
      · exact hold
      · exact .inl hold
  · rw [← memory.length_data bytes hdata]
    simp only [Memory.Replaced, hdata, Option.mem_def, Option.some.injEq, forall_eq']
    -- a close that fails behind the checks is what tears an image
    rcases torn_or_whole bytes hopen hrename hwrite with ⟨n, htorn, htake⟩ | ⟨hwhole, hall⟩
    · rw [htake] at hnew
      constructor
      · rintro (hsame | hfull) m hm
        · rw [← hsame, hnew, tornAt_unique htorn hm]
        · rw [hnew, Option.some.injEq] at hfull
          exact absurd hfull (take_ne_of_tornAt htorn)
      · intro h
        exact .inl (hnew.trans (h n htorn).symm)
    · rw [hall] at hnew
      exact ⟨fun _ n htorn => absurd htorn (hwhole n), fun _ => .inr hnew⟩

/-- `State_write` leaves its target alone and reports failure, unless every check
passes and the rename happens. -/
theorem State.write_target (io : ReplaceOutcome) (files : Files CString Byte)
    (hfit : filename.length + 1 < maxPath) (serializer : Serializer) (calloc : Bool) :
    (State.write filename serializer calloc io files).1 = false ∧
        (State.write filename serializer calloc io files).2 filename = files filename ∧
        (∀ n, calloc = true → serializer.image ≠ none → ¬ io.TornAt serializer.size n) ∨
      ∃ bytes j, serializer.image = some bytes ∧ calloc = true ∧ io.fopen = true ∧
        io.rename = true ∧ io.fwrite = .complete j ∧
        (State.write filename serializer calloc io files).1 = true ∧
        (State.write filename serializer calloc io files).2 filename =
          some ((Stream.opened.fwrite bytes (.complete j)).2.fclose io.fclose) := by
  have hne := (tmpName_ne hfit).symm
  unfold State.write
  by_cases hsize : serializer.size = 0
  · exact .inl ⟨by simp [hsize], by simp [hsize], fun _ _ _ => not_tornAt_of_empty hsize⟩
  simp only [if_neg hsize]
  cases calloc with
  | false => exact .inl ⟨by simp, by simp, by simp⟩
  | true =>
      -- each check that fails leaves the target as it was
      cases hopen : io.fopen with
      | false =>
          exact .inl ⟨by simp, by simp [hne], fun _ _ _ => not_tornAt_of_fopen hopen⟩
      | true =>
          cases himage : serializer.image with
          | none => exact .inl ⟨by simp, by simp [hne], by simp⟩
          | some bytes =>
              have hlength := serializer.length_image bytes himage
              have hbytes : bytes ≠ [] := by
                rintro rfl
                exact hsize hlength.symm
              cases hwrite : io.fwrite with
              | short accepted k =>
                  have hlt := Stream.fwrite_short_lt Stream.opened bytes accepted k hbytes
                  have hshort :
                      (Stream.opened.fwrite bytes (.short accepted k)).1 ≠ serializer.size := by
                    omega
                  exact .inl ⟨by simp [hshort], by simp [hshort, hne],
                    fun _ _ _ => not_tornAt_of_short hwrite⟩
              | complete j =>
                  cases hrename : io.rename with
                  | false =>
                      exact .inl ⟨by simp [Stream.fwrite, hlength],
                        by simp [Stream.fwrite, hlength, hne],
                        fun _ _ _ => not_tornAt_of_rename hrename⟩
                  | true =>
                      exact .inr ⟨bytes, j, rfl, rfl, rfl, rfl, rfl,
                        by simp [Stream.fwrite, hlength], by simp [Stream.fwrite, hlength]⟩

theorem State.write_replaced_iff (hfit : filename.length + 1 < maxPath) (serializer : Serializer)
    (calloc : Bool) :
    serializer.Replaced files (State.write filename serializer calloc io files) filename ↔
      ¬ (calloc = true ∧ serializer.image ≠ none ∧ ∃ n, io.TornAt serializer.size n) := by
  rcases State.write_target io files hfit serializer calloc with
    ⟨hfalse, hold, hwhole⟩ | ⟨bytes, j, himage, hcalloc, hopen, hrename, hwrite, htrue, hnew⟩
  · refine iff_of_true ?_ ?_
    · unfold Serializer.Replaced
      split
      · exact ⟨hfalse, hold⟩
      · exact ⟨.inl hold, fun h => absurd h (by simp [hfalse])⟩
    · rintro ⟨hcalloc, himage, n, htorn⟩
      exact hwhole n hcalloc himage htorn
  · rw [← serializer.length_image bytes himage]
    simp only [Serializer.Replaced, himage]
    rcases torn_or_whole bytes hopen hrename hwrite with ⟨n, htorn, htake⟩ | ⟨hwhole, hall⟩
    · rw [htake] at hnew
      refine iff_of_false ?_ (not_not_intro ⟨hcalloc, by simp, n, htorn⟩)
      rintro ⟨_, hfull⟩
      have := hfull htrue
      rw [hnew, Option.some.injEq] at this
      exact take_ne_of_tornAt htorn this
    · rw [hall] at hnew
      refine iff_of_true ⟨.inr hnew, fun _ => hnew⟩ ?_
      rintro ⟨_, _, n, htorn⟩
      exact hwhole n htorn

namespace Menu

/-- Dropping the lines of a game that is listed drops at least its characters. -/
theorem countP_filter_lt (p : Char → Bool) {q : CString → Bool} {lines : List CString}
    {rel : CString} (hmem : rel ∈ lines) (hq : q rel = false) (hpos : 0 < rel.countP p) :
    (lines.filter q).flatten.countP p < lines.flatten.countP p := by
  induction lines with
  | nil => simp at hmem
  | cons line rest ih =>
      have hle : (rest.filter q).flatten.countP p ≤ rest.flatten.countP p :=
        (List.Sublist.flatten List.filter_sublist).countP_le
      rcases List.mem_cons.mp hmem with rfl | hrest
      · simp only [List.filter_cons, hq, Bool.false_eq_true, if_false, List.flatten_cons,
          List.countP_append]
        omega
      · have hlt := ih hrest
        simp only [List.filter_cons, List.flatten_cons, List.countP_append]
        split
        · simp only [List.flatten_cons, List.countP_append]
          omega
        · omega

theorem countP_keptChunks (content rel : CString) :
    (keptChunks content rel).flatten.countP (· != '\n') =
      (keptLines content rel).flatten.countP (· != '\n') := by
  unfold keptChunks
  induction keptLines content rel with
  | nil => rfl
  | cons line rest ih =>
      simp only [List.map_cons, List.flatten_cons, List.countP_append, ih]
      simp

theorem ne_nil_of_mem_keptChunks {content rel : CString} :
    ∀ chunk ∈ keptChunks content rel, chunk ≠ [] := by
  intro chunk hchunk
  obtain ⟨line, _, rfl⟩ := List.mem_map.mp hchunk
  simp

/-- What the removal prints is never the old content, whatever is lost of it. -/
theorem ne_content_of_sublist {content rel written : CString}
    (hlisted : rel ∈ readLines content) (hrel : rel ≠ [])
    (hsub : written.Sublist (keptChunks content rel).flatten) : written ≠ content := by
  rintro rfl
  obtain ⟨piece, _, hpiece⟩ := List.mem_map.mp hlisted
  have hpos : 0 < rel.countP (· != '\n') := hpiece ▸ countP_readLine_pos (hpiece ▸ hrel)
  have hkept := countP_filter_lt (· != '\n')
    (q := fun line => decide (line ≠ [] ∧ ¬ exactMatch line rel)) hlisted (by simp [exactMatch])
    hpos
  have hwritten := hsub.countP_le (p := (· != '\n'))
  rw [countP_keptChunks] at hwritten
  have hread := countP_readLines_le (· != '\n') written
  exact absurd (hwritten.trans_lt (hkept.trans_le hread)) (lt_irrefl _)

theorem collectionPath_eq (name : CollectionName) :
    collectionPath name = collectionsPath ++ '/' :: name.1 ++ ".txt".toList := by
  have hname := name.2
  apply bounded_of_lt
  simp only [List.length_append, List.length_cons, maxPath]
  rw [show collectionsPath.length = 23 by decide, show ".txt".toList.length = 4 by decide]
  omega

theorem length_collectionPath (name : CollectionName) :
    (collectionPath name).length + 1 < maxPath := by
  have hname := name.2
  rw [collectionPath_eq]
  simp only [List.length_append, List.length_cons, maxPath]
  rw [show collectionsPath.length = 23 by decide, show ".txt".toList.length = 4 by decide]
  omega

theorem removeFromCollection_replaced_iff (name : CollectionName) (game : CardPath)
    (io : RemoveOutcome) (files : Files CString Char) :
    (∀ content ∈ files (collectionPath name),
        OldOrNew files (removeFromCollection name game.rel io files) (collectionPath name)
          (keptChunks content game.rel).flatten) ↔
      ∀ content ∈ files (collectionPath name), inCollection files name game.rel = true →
        io.fopen = true → io.rename = true →
          Stream.opened.Lossless (keptChunks content game.rel) io.fprintf io.fclose := by
  have hne := (tmpName_ne (length_collectionPath name)).symm
  refine forall₂_congr fun content hcontent => ?_
  rw [Option.mem_def] at hcontent
  unfold removeFromCollection
  cases hlisted : inCollection files name game.rel with
  | false => simp [OldOrNew]
  | true =>
      have hmem : game.rel ∈ readLines content := by
        simpa [inCollection, hcontent, exactMatch] using hlisted
      cases hopen : io.fopen with
      | false => simp [OldOrNew, hcontent]
      | true =>
          cases hrename : io.rename with
          | false => simp [OldOrNew, hcontent, hne]
          | true =>
              have hwhole := Stream.fclose_writeAll_eq_iff Stream.opened
                (keptChunks content game.rel) ne_nil_of_mem_keptChunks io.fprintf io.fclose
              have hsub := Stream.fclose_writeAll_sublist Stream.opened
                (keptChunks content game.rel) io.fprintf io.fclose
              rw [Stream.content_opened, List.nil_append] at hwhole hsub
              have hold := ne_content_of_sublist hmem game.rel_ne hsub
              simp [OldOrNew, hcontent, hold, hwhole]

end Menu

/-! ## The paths the writers use -/

theorem length_sramPath (core : Core) (gameName : FileName) :
    (Sram.getPath core gameName).length + 1 < maxPath := by
  have htag := core.tag.2
  have hname := gameName.2
  simp only [Sram.getPath, Core.savesDir, List.length_append, List.length_cons, maxPath]
  rw [show sdcardPath.length = 11 by decide, show "/Saves/".toList.length = 7 by decide,
    show ".sav".toList.length = 4 by decide]
  omega

theorem length_rtcPath (core : Core) (gameName : FileName) :
    (Rtc.getPath core gameName).length + 1 < maxPath := by
  have htag := core.tag.2
  have hname := gameName.2
  simp only [Rtc.getPath, Core.savesDir, List.length_append, List.length_cons, maxPath]
  rw [show sdcardPath.length = 11 by decide, show "/Saves/".toList.length = 7 by decide,
    show ".rtc".toList.length = 4 by decide]
  omega

theorem length_statePath (core : Core) (gameName : FileName) (stateSlot : Int32) :
    (State.getPath core gameName stateSlot.toInt).length + 1 < maxPath := by
  have htag := core.tag.2
  have hcore := core.name.2
  have hname := gameName.2
  have hslot := length_decimal_le stateSlot
  simp only [State.getPath, State.pathOf, Core.statesDir, List.length_append, List.length_cons,
    maxPath]
  rw [show sharedUserdataPath.length = 28 by decide, show ".st".toList.length = 3 by decide]
  omega

/-! ## The four writers -/

/-- A save or collection file is replaced whole, and `State_write` reports success
only for the whole file, exactly when no write-back loses bytes that were already
accepted before the rename. The three save writers check `fwrite`, so they only
miss what `fclose` loses; the removal from a collection checks nothing. -/
theorem saveFiles_replaced_iff (core : Core) (gameName : FileName) :
    (∀ (memory : Memory) (io : ReplaceOutcome) (files : Files CString Byte),
      memory.Replaced files (Sram.write core gameName memory io files)
          (Sram.getPath core gameName) ↔
        ∀ bytes ∈ memory.data, ∀ n, io.TornAt memory.size n →
          files (Sram.getPath core gameName) = some (bytes.take n)) ∧
    (∀ (memory : Memory) (io : ReplaceOutcome) (files : Files CString Byte),
      memory.Replaced files (Rtc.write core gameName memory io files)
          (Rtc.getPath core gameName) ↔
        ∀ bytes ∈ memory.data, ∀ n, io.TornAt memory.size n →
          files (Rtc.getPath core gameName) = some (bytes.take n)) ∧
    (∀ (stateSlot : Int32) (serializer : Serializer) (calloc : Bool)
        (io : ReplaceOutcome) (files : Files CString Byte),
      serializer.Replaced files
          (State.write (State.getPath core gameName stateSlot.toInt) serializer calloc io files)
          (State.getPath core gameName stateSlot.toInt) ↔
        ¬ (calloc = true ∧ serializer.image ≠ none ∧ ∃ n, io.TornAt serializer.size n)) ∧
    (∀ (name : Menu.CollectionName) (game : CardPath) (io : Menu.RemoveOutcome)
        (files : Files CString Char),
      (∀ content ∈ files (Menu.collectionPath name),
          OldOrNew files (Menu.removeFromCollection name game.rel io files)
            (Menu.collectionPath name) (Menu.keptChunks content game.rel).flatten) ↔
        ∀ content ∈ files (Menu.collectionPath name),
          Menu.inCollection files name game.rel = true → io.fopen = true → io.rename = true →
            Stream.opened.Lossless (Menu.keptChunks content game.rel) io.fprintf io.fclose) := by
  refine ⟨?_, ?_, ?_, Menu.removeFromCollection_replaced_iff⟩
  · intro memory io files
    exact memoryWrite_replaced_iff (length_sramPath core gameName) memory
  · intro memory io files
    exact memoryWrite_replaced_iff (length_rtcPath core gameName) memory
  · intro stateSlot serializer calloc io files
    exact State.write_replaced_iff (length_statePath core gameName stateSlot) serializer calloc

/-- The card fills up inside `fclose`: two bytes were accepted, one is written
back, and the rename puts it in place of three old bytes. A collection of two games
from which one is removed is cut in the middle of the other's path. -/
theorem saveFiles_torn :
    let core : Core := ⟨⟨"GB".toList, by decide⟩, ⟨"gambatte".toList, by decide⟩⟩
    let gameName : FileName := ⟨"Tetris.gb".toList, by decide⟩
    let io : ReplaceOutcome := ⟨true, .complete 0, .failed 1, true⟩
    let old : Files CString Byte := fun _ => some "old".toList
    let favorites : Menu.CollectionName := ⟨"Favorites".toList, by decide⟩
    let listed : Files CString Char := fun _ => some "/Roms/GB/a.gb\n/Roms/GB/b.gb\n".toList
    let saved :=
      State.write (State.getPath core gameName 0) ⟨2, some ['a', 'b'], by simp⟩ true io old
    ¬ OldOrNew old (Sram.write core gameName ⟨2, some ['a', 'b'], by simp⟩ io old)
        (Sram.getPath core gameName) ['a', 'b'] ∧
      ¬ OldOrNew old (Rtc.write core gameName ⟨2, some ['a', 'b'], by simp⟩ io old)
        (Rtc.getPath core gameName) ['a', 'b'] ∧
      (saved.1 = true ∧ ¬ OldOrNew old saved.2 (State.getPath core gameName 0) ['a', 'b']) ∧
      ¬ OldOrNew listed
        (Menu.removeFromCollection favorites "/Roms/GB/b.gb".toList
          ⟨true, fun _ => .complete 0, .failed 6, true⟩ listed)
        (Menu.collectionPath favorites) "/Roms/GB/a.gb\n".toList := by
  decide

end DarkUI.Minarch
