import Mathlib.Data.List.Basic
import Mathlib.Data.List.Sublists
import Mathlib.Logic.Function.Basic

/-! # Buffered streams and replacement by rename

A stream accepts bytes before the disk has them. What it still buffers is written
back by a later call or by closing it, and either can fail after the bytes were
accepted. Renaming one file over another is atomic.
-/

namespace Stdio

variable {κ α : Type*}

/-- The files a card holds, by path. -/
abbrev Files (κ α : Type*) := κ → Option (List α)

namespace Files

variable [DecidableEq κ]

def put (files : Files κ α) (path : κ) (content : List α) : Files κ α :=
  Function.update files path (some content)

def remove (files : Files κ α) (path : κ) : Files κ α := Function.update files path none

def rename (files : Files κ α) (source target : κ) : Files κ α :=
  match files source with
  | none => files
  | some content => (files.remove source).put target content

variable {files : Files κ α} {path other source target : κ} {content : List α}

@[simp] theorem put_self : files.put path content path = some content := by simp [put]

@[simp] theorem put_of_ne (h : other ≠ path) : files.put path content other = files other := by
  simp [put, h]

@[simp] theorem remove_self : files.remove path path = none := by simp [remove]

@[simp] theorem remove_of_ne (h : other ≠ path) : files.remove path other = files other := by
  simp [remove, h]

@[simp] theorem put_remove_of_ne (h : other ≠ path) :
    (files.put path content).remove path other = files other := by
  simp [h]

@[simp] theorem rename_put_target :
    (files.put source content).rename source target target = some content := by
  simp [rename]

theorem rename_of_ne (hsource : other ≠ source) (htarget : other ≠ target) :
    files.rename source target other = files other := by
  unfold rename
  cases files source with
  | none => rfl
  | some content => simp only [put_of_ne htarget, remove_of_ne hsource]

end Files

/-- The path holds all of its old content or all of the new. -/
def OldOrNew (before after : Files κ α) (path : κ) (new : List α) : Prop :=
  after path = before path ∨ after path = some new

instance [DecidableEq α] (before after : Files κ α) (path : κ) (new : List α) :
    Decidable (OldOrNew before after path new) :=
  inferInstanceAs (Decidable (_ ∨ _))

/-- One call that hands bytes to a stream. A complete call accepts them all and
may write back any part of what is pending. A short call accepts fewer than it was
given, and what it does not write back is discarded. -/
inductive WriteOutcome
  | complete (writtenBack : Nat)
  | short (accepted writtenBack : Nat)
  deriving DecidableEq, Repr

/-- Closing writes back what is still buffered, or stops after some of it. -/
inductive CloseOutcome
  | flushed
  | failed (writtenBack : Nat)
  deriving DecidableEq, Repr

/-- One call that reads. A complete call gives what there is, up to the number asked for;
one that fails gives fewer and sets the error of the file. -/
inductive ReadOutcome
  | complete
  | failed (read : Nat)
  deriving DecidableEq, Repr

structure Stream (α : Type*) where
  disk : List α
  buffer : List α
  deriving DecidableEq

namespace Stream

/-- A stream on a file just truncated. -/
def opened : Stream α := ⟨[], []⟩

/-- All bytes accepted and not discarded. -/
def content (s : Stream α) : List α := s.disk ++ s.buffer

def fwrite (s : Stream α) (bytes : List α) : WriteOutcome → Nat × Stream α
  | .complete k =>
      (bytes.length, ⟨s.disk ++ (s.buffer ++ bytes).take k, (s.buffer ++ bytes).drop k⟩)
  | .short accepted k =>
      let n := min accepted (bytes.length - 1)
      (n, ⟨s.disk ++ (s.buffer ++ bytes.take n).take k, []⟩)

/-- The file's content once the stream is closed. -/
def fclose (s : Stream α) : CloseOutcome → List α
  | .flushed => s.content
  | .failed k => s.disk ++ s.buffer.take k

variable (s : Stream α) (bytes : List α)

@[simp] theorem content_opened : (opened : Stream α).content = [] := rfl

theorem content_fwrite_complete (k : Nat) :
    (s.fwrite bytes (.complete k)).2.content = s.content ++ bytes := by
  simp [fwrite, content, List.append_assoc]

theorem fwrite_short_lt (accepted k : Nat) (h : bytes ≠ []) :
    (s.fwrite bytes (.short accepted k)).1 < bytes.length := by
  have hpos := List.length_pos_iff.mpr h
  simp only [fwrite]
  omega

theorem content_fwrite_sublist (outcome : WriteOutcome) :
    (s.fwrite bytes outcome).2.content.Sublist (s.content ++ bytes) := by
  cases outcome with
  | complete k => rw [content_fwrite_complete]
  | short accepted k =>
      simp only [fwrite, content, List.append_nil, List.append_assoc]
      refine List.Sublist.append (List.Sublist.refl _) ?_
      exact (List.take_sublist _ _).trans
        (List.Sublist.append (List.Sublist.refl _) (List.take_sublist _ _))

/-- A short call loses at least one byte. -/
theorem length_content_fwrite_short (accepted k : Nat) (h : bytes ≠ []) :
    (s.fwrite bytes (.short accepted k)).2.content.length < (s.content ++ bytes).length := by
  have hpos := List.length_pos_iff.mpr h
  simp only [fwrite, content, List.append_nil, List.length_append, List.length_take]
  omega

theorem fclose_sublist (outcome : CloseOutcome) : (s.fclose outcome).Sublist s.content := by
  cases outcome with
  | flushed => exact List.Sublist.refl _
  | failed k => exact List.Sublist.append (List.Sublist.refl _) (List.take_sublist _ _)

theorem fclose_failed_eq_content (k : Nat) :
    s.fclose (.failed k) = s.content ↔ s.buffer.length ≤ k := by
  simp only [fclose, content, List.append_cancel_left_eq]
  constructor
  · intro h
    have hlength := congrArg List.length h
    simp only [List.length_take] at hlength
    omega
  · exact List.take_of_length_le

theorem fclose_eq_content_iff (outcome : CloseOutcome) :
    s.fclose outcome = s.content ↔ ∀ k, outcome = .failed k → s.buffer.length ≤ k := by
  cases outcome with
  | flushed => exact iff_of_true rfl nofun
  | failed k =>
      rw [fclose_failed_eq_content]
      constructor
      · rintro h _ ⟨⟩
        exact h
      · exact fun h => h k rfl

/-- A single complete write followed by a failing close leaves the bytes written
back by either. -/
theorem fclose_fwrite_opened (j k : Nat) :
    ((opened : Stream α).fwrite bytes (.complete j)).2.fclose (.failed k) = bytes.take (j + k) := by
  simp only [fwrite, opened, fclose, List.nil_append]
  rw [List.take_add]

/-- A run of calls, each with its own outcome. -/
def writeAll (s : Stream α) : List (List α) → (Nat → WriteOutcome) → Stream α
  | [], _ => s
  | bytes :: rest, outcomes =>
      (s.fwrite bytes (outcomes 0)).2.writeAll rest fun i => outcomes (i + 1)

theorem content_writeAll_sublist (chunks : List (List α)) (outcomes : Nat → WriteOutcome) :
    (s.writeAll chunks outcomes).content.Sublist (s.content ++ chunks.flatten) := by
  induction chunks generalizing s outcomes with
  | nil => simp [writeAll]
  | cons bytes rest ih =>
      refine (ih _ _).trans ?_
      rw [List.flatten_cons, ← List.append_assoc]
      exact (content_fwrite_sublist s bytes _).append (List.Sublist.refl _)

theorem content_writeAll_complete (chunks : List (List α)) (outcomes : Nat → WriteOutcome)
    (h : ∀ i < chunks.length, ∃ k, outcomes i = .complete k) :
    (s.writeAll chunks outcomes).content = s.content ++ chunks.flatten := by
  induction chunks generalizing s outcomes with
  | nil => simp [writeAll]
  | cons bytes rest ih =>
      obtain ⟨k, hk⟩ := h 0 (by simp)
      rw [writeAll, ih, hk, content_fwrite_complete, List.flatten_cons, List.append_assoc]
      intro i hi
      exact h (i + 1) (by simpa using hi)

theorem length_content_writeAll_short (chunks : List (List α)) (outcomes : Nat → WriteOutcome)
    (hne : ∀ bytes ∈ chunks, bytes ≠ []) {i : Nat} (hi : i < chunks.length)
    {accepted k : Nat} (hshort : outcomes i = .short accepted k) :
    (s.writeAll chunks outcomes).content.length < (s.content ++ chunks.flatten).length := by
  induction chunks generalizing s outcomes i with
  | nil => simp at hi
  | cons bytes rest ih =>
      have hbytes := hne bytes List.mem_cons_self
      have hrest := fun b hb => hne b (List.mem_cons_of_mem _ hb)
      rw [writeAll, List.flatten_cons, ← List.append_assoc]
      cases i with
      | zero =>
          have htail := (content_writeAll_sublist (s.fwrite bytes (outcomes 0)).2 rest
            fun j => outcomes (j + 1)).length_le
          have hhead := length_content_fwrite_short s bytes accepted k hbytes
          rw [hshort] at htail ⊢
          simp only [List.length_append] at htail hhead ⊢
          omega
      | succ i =>
          have htail := ih (s.fwrite bytes (outcomes 0)).2 (fun j => outcomes (j + 1)) hrest
            (by simpa using hi) hshort
          have hhead := (content_fwrite_sublist s bytes (outcomes 0)).length_le
          simp only [List.length_append] at htail hhead ⊢
          omega

/-- No call comes up short, and closing writes back all that is still buffered. -/
def Lossless (chunks : List (List α)) (outcomes : Nat → WriteOutcome) (close : CloseOutcome) :
    Prop :=
  (∀ i < chunks.length, ∃ k, outcomes i = .complete k) ∧
    ∀ k, close = .failed k → (s.writeAll chunks outcomes).buffer.length ≤ k

theorem fclose_writeAll_sublist (chunks : List (List α)) (outcomes : Nat → WriteOutcome)
    (close : CloseOutcome) :
    ((s.writeAll chunks outcomes).fclose close).Sublist (s.content ++ chunks.flatten) :=
  (fclose_sublist _ _).trans (content_writeAll_sublist _ _ _)

/-- The closed file has all the bytes exactly when nothing was lost on the way. -/
theorem fclose_writeAll_eq_iff (chunks : List (List α)) (hne : ∀ bytes ∈ chunks, bytes ≠ [])
    (outcomes : Nat → WriteOutcome) (close : CloseOutcome) :
    (s.writeAll chunks outcomes).fclose close = s.content ++ chunks.flatten ↔
      s.Lossless chunks outcomes close := by
  constructor
  · intro heq
    have hcomplete : ∀ i < chunks.length, ∃ k, outcomes i = .complete k := by
      intro i hi
      cases hout : outcomes i with
      | complete k => exact ⟨k, rfl⟩
      | short accepted k =>
          have hlt := length_content_writeAll_short s chunks outcomes hne hi hout
          have hle := (fclose_sublist (s.writeAll chunks outcomes) close).length_le
          rw [heq] at hle
          omega
    refine ⟨hcomplete, ?_⟩
    rintro k rfl
    rw [← content_writeAll_complete s chunks outcomes hcomplete] at heq
    exact (fclose_failed_eq_content _ _).mp heq
  · rintro ⟨hcomplete, hclose⟩
    rw [← content_writeAll_complete s chunks outcomes hcomplete]
    cases close with
    | flushed => rfl
    | failed k => exact (fclose_failed_eq_content _ _).mpr (hclose k rfl)

end Stream

end Stdio
