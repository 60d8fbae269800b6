import DarkUI.Minarch.SaveFileLaws

/-! # Loading a save state

The file is read into a buffer of the size the core reports. A file may be shorter, and the
rest of the buffer is then zero. What is compared with that size is what a read of so many
bytes returned, which says nothing of what the file still holds or of an error.
-/

namespace DarkUI.Minarch

open Text Stdio

variable {γ : Type*}

/-- What `State_read` acts on: the core's state, the speed it runs at and the files held open. -/
structure Emulation (γ : Type*) where
  core : γ
  fastForward : Int
  openFiles : Nat

/-- How the steps that load a state turn out. -/
structure LoadOutcome where
  calloc : Bool
  fopen : Bool
  fread : ReadOutcome
  deriving DecidableEq

/-- One read of up to `size` bytes from the start of a file. -/
def freadStart (content : List Byte) (size : Nat) : ReadOutcome → List Byte
  | .complete => content.take size
  | .failed n => content.take (min n (size - 1))

/-- An array from `calloc` of the given size with bytes read into it. -/
def zeroPadded (size : Nat) (bytes : List Byte) : List Byte :=
  bytes ++ List.replicate (size - bytes.length) '\x00'

namespace State

/-- Where the error path of `State_read` ends up as well. -/
def leave (before s : Emulation γ) (opened : Bool) : Emulation γ :=
  { s with
    fastForward := before.fastForward
    openFiles := if opened then s.openFiles - 1 else s.openFiles }

/-- `State_read`: what it leaves, and the buffer handed to the core if there was one. -/
def read (filename : CString) (size : Nat) (unserialize : List Byte → γ → Bool × γ)
    (io : LoadOutcome) (files : Files CString Byte) (before : Emulation γ) :
    Emulation γ × Option (List Byte) :=
  if size = 0 then (before, none)
  else
    let s := { before with fastForward := 0 }
    if !io.calloc then (leave before s false, none)
    else
      match if io.fopen then files filename else none with
      | none => (leave before s false, none)
      | some content =>
          let s := { s with openFiles := s.openFiles + 1 }
          let bytes := freadStart content size io.fread
          if size < bytes.length then (leave before s true, none)
          else
            let state := zeroPadded size bytes
            (leave before { s with core := (unserialize state s.core).2 } true, some state)

end State

variable {filename : CString} {size : Nat} {unserialize : List Byte → γ → Bool × γ}
variable {io : LoadOutcome} {files : Files CString Byte} {before : Emulation γ}

/-- The whole file with zeros after it is handed to the core, or the core's state is untouched;
either way the speed is what it was and the file is closed. -/
def LoadedWhole (filename : CString) (size : Nat) (unserialize : List Byte → γ → Bool × γ)
    (io : LoadOutcome) (files : Files CString Byte) (before : Emulation γ)
    (result : Emulation γ × Option (List Byte)) : Prop :=
  (match result.2 with
    | none => result.1.core = before.core
    | some state => ∃ content, files filename = some content ∧ content.length ≤ size ∧
        io.fread = .complete ∧
        state = content ++ List.replicate (size - content.length) '\x00' ∧
        result.1.core = (unserialize state before.core).2) ∧
    result.1.fastForward = before.fastForward ∧ result.1.openFiles = before.openFiles

theorem length_freadStart_le (size : Nat) (content : List Byte) (outcome : ReadOutcome) :
    (freadStart content size outcome).length ≤ size := by
  cases outcome with
  | complete => exact List.length_take_le _ _
  | failed n =>
      refine Nat.le_trans (List.length_take_le _ _) ?_
      omega

/-- The check never fails: no read returns more than it was asked for. -/
theorem State.read_opened {content : List Byte} (hsize : size ≠ 0) (hcalloc : io.calloc = true)
    (hopen : io.fopen = true) (hfile : files filename = some content) :
    State.read filename size unserialize io files before =
      ({ before with
          core := (unserialize (zeroPadded size (freadStart content size io.fread))
            before.core).2 },
        some (zeroPadded size (freadStart content size io.fread))) := by
  have hle := length_freadStart_le size content io.fread
  unfold State.read
  simp only [if_neg hsize, hcalloc, hopen, hfile, if_true, Bool.not_true, Bool.false_eq_true,
    if_false, if_neg (Nat.not_lt.mpr hle), State.leave, Nat.add_sub_cancel]

/-- Without memory or a file nothing is handed to the core. -/
theorem State.read_unopened
    (h : size = 0 ∨ io.calloc = false ∨ io.fopen = false ∨ files filename = none) :
    State.read filename size unserialize io files before = (before, none) := by
  unfold State.read
  by_cases hsize : size = 0
  · rw [if_pos hsize]
  · cases hcalloc : io.calloc with
    | false => simp [hsize, State.leave]
    | true =>
        cases hopen : io.fopen with
        | false => simp [hsize, State.leave]
        | true =>
            rcases h with h | h | h | h
            · exact absurd h hsize
            · simp [h] at hcalloc
            · simp [h] at hopen
            · simp [hsize, h, State.leave]

theorem freadStart_complete {content : List Byte} (h : content.length ≤ size) :
    freadStart content size .complete = content := List.take_of_length_le h

/-- A state is loaded whole or not at all just when there is nothing to load, or the file is read
without error and is no larger than the core reports. -/
theorem State.read_whole_iff (filename : CString) (size : Nat)
    (unserialize : List Byte → γ → Bool × γ) (io : LoadOutcome) (files : Files CString Byte)
    (before : Emulation γ) :
    LoadedWhole filename size unserialize io files before
        (State.read filename size unserialize io files before) ↔
      size = 0 ∨ io.calloc = false ∨ io.fopen = false ∨
        ∀ content, files filename = some content →
          io.fread = .complete ∧ content.length ≤ size := by
  by_cases hnothing :
      size = 0 ∨ io.calloc = false ∨ io.fopen = false ∨ files filename = none
  · rw [State.read_unopened hnothing]
    refine iff_of_true ⟨rfl, rfl, rfl⟩ ?_
    rcases hnothing with hsize | hcalloc | hopen | hfile
    · exact .inl hsize
    · exact .inr (.inl hcalloc)
    · exact .inr (.inr (.inl hopen))
    · refine .inr (.inr (.inr fun content hcontent => ?_))
      rw [hfile] at hcontent
      cases hcontent
  · simp only [not_or, Bool.not_eq_false] at hnothing
    obtain ⟨hsize, hcalloc, hopen, hfile⟩ := hnothing
    obtain ⟨content, hcontent⟩ := Option.ne_none_iff_exists'.mp hfile
    rw [State.read_opened hsize hcalloc hopen hcontent]
    constructor
    · rintro ⟨⟨content', hcontent', hlength, hread, -⟩, -⟩
      refine .inr (.inr (.inr fun content'' hcontent'' => ?_))
      rw [hcontent'] at hcontent''
      cases hcontent''
      exact ⟨hread, hlength⟩
    · rintro (hzero | hfalse | hfalse | hwhole)
      · exact absurd hzero hsize
      · rw [hcalloc] at hfalse
        cases hfalse
      · rw [hopen] at hfalse
        cases hfalse
      · obtain ⟨hread, hlength⟩ := hwhole content hcontent
        refine ⟨⟨content, hcontent, hlength, hread, ?_, rfl⟩, rfl, rfl⟩
        rw [hread, freadStart_complete hlength]
        rfl

/-- A core that keeps the buffer it is given. -/
def keep (state : List Byte) (_ : List Byte) : Bool × List Byte := (true, state)

/-- A state file with a byte more than the core asks for. -/
theorem State.read_oversized :
    ¬LoadedWhole "1.st0".toList 2 keep ⟨true, true, .complete⟩
      (fun _ => some "abc".toList) ⟨[], 1, 0⟩
      (State.read "1.st0".toList 2 keep ⟨true, true, .complete⟩
        (fun _ => some "abc".toList) ⟨[], 1, 0⟩) := by
  rintro ⟨⟨content, hcontent, hlength, -⟩, -⟩
  cases hcontent
  exact absurd hlength (by decide)

/-- What was written as a state is what the core gets back, when the file was flushed and the
size it reports is still the same. -/
theorem State.read_write {serializer : Serializer} {image : List Byte} {calloc : Bool}
    {replace : ReplaceOutcome} {stored : Files CString Byte}
    (hfit : filename.length + 1 < maxPath) (himage : serializer.image = some image)
    (hflush : replace.fclose = .flushed)
    (hwrite : State.write filename serializer calloc replace stored = (true, files))
    (hcalloc : io.calloc = true) (hopen : io.fopen = true) (hread : io.fread = .complete) :
    State.read filename serializer.size unserialize io files before =
      ({ before with core := (unserialize image before.core).2 }, some image) := by
  rcases State.write_target replace stored hfit serializer calloc with
    ⟨hfalse, -⟩ | ⟨bytes, j, hbytes, -, -, -, hfwrite, -, hnew⟩
  · rw [hwrite] at hfalse
    cases hfalse
  · rw [himage] at hbytes
    cases hbytes
    have hlength := serializer.length_image image himage
    have hstored : files filename = some image := by
      rw [hwrite, hflush] at hnew
      simpa [Stream.fclose, Stream.content_fwrite_complete] using hnew
    have hsize : serializer.size ≠ 0 := by
      intro hzero
      unfold State.write at hwrite
      rw [if_pos hzero] at hwrite
      cases hwrite
    rw [State.read_opened hsize hcalloc hopen hstored, hread,
      freadStart_complete (Nat.le_of_eq hlength)]
    simp [zeroPadded, hlength]

end DarkUI.Minarch
