import DarkUI.Common.Snd
import DarkUI.Foundation.Run

/-! # The audio ring is a FIFO

Each loop of the callback and of the call that fills the ring keeps its three cursors in place
and moves frames through it in order.
-/

namespace DarkUI

open Run

namespace Snd

variable {n : Nat} {snd : Snd} {frame : SndFrame}

/-- The cursors are in range, with the gap before the first unread frame. -/
structure Valid (n : Nat) (snd : Snd) : Prop where
  frameCount : snd.frameCount = n
  length : snd.buffer.length = n
  in_lt : snd.frameIn < n
  out_lt : snd.frameOut < n
  filled : snd.frameFilled = Ring.previous n snd.frameOut

/-- The unread frames. -/
def unreadFrames (snd : Snd) : List SndFrame :=
  Ring.contents snd.buffer snd.frameCount snd.frameOut snd.frameIn

/-- The ring is full exactly where a write would reach the first unread frame. -/
theorem Valid.full_iff (h : snd.Valid n) :
    snd.frameIn = snd.frameFilled ↔ Ring.next n snd.frameIn = snd.frameOut := by
  rw [h.filled]
  exact Ring.eq_previous_iff h.in_lt h.out_lt

theorem Valid.resampleNone (h : snd.Valid n) (hroom : snd.frameIn ≠ snd.frameFilled)
    (frame : SndFrame) : ∃ written, snd.resampleNone frame = some written ∧
      written.Valid n ∧ written.unreadFrames = snd.unreadFrames ++ [frame] := by
  have hnext : Ring.next n snd.frameIn ≠ snd.frameOut := fun hnext => hroom (h.full_iff.mpr hnext)
  have hlt : snd.frameIn < snd.buffer.length := by
    rw [h.length]
    exact h.in_lt
  refine ⟨_, if_pos hlt, ⟨h.frameCount, ?_, ?_, h.out_lt, h.filled⟩, ?_⟩
  · rw [List.length_set, h.length]
  · rw [h.frameCount]
    exact Ring.next_lt h.in_lt
  · simp only [unreadFrames, h.frameCount]
    exact Ring.contents_push h.length h.out_lt h.in_lt hnext

theorem Valid.drain (h : snd.Valid n) (len : Nat) : ∃ drained frames left,
    Snd.drain len snd = some (drained, frames, left) ∧ drained.Valid n ∧
      snd.unreadFrames = frames ++ drained.unreadFrames := by
  induction len generalizing snd with
  | zero => exact ⟨snd, [], 0, rfl, h, rfl⟩
  | succ len ih =>
      by_cases hempty : snd.frameOut = snd.frameIn
      · exact ⟨snd, [], len + 1, if_pos hempty, h, rfl⟩
      · have hlt : snd.frameOut < snd.buffer.length := by
          rw [h.length]
          exact h.out_lt
        obtain ⟨frame, hframe⟩ : ∃ frame, snd.buffer[snd.frameOut]? = some frame :=
          ⟨_, List.getElem?_eq_getElem hlt⟩
        have hplayed : Snd.Valid n
            { snd with
              frameFilled := snd.frameOut
              frameOut := Ring.next snd.frameCount snd.frameOut } := by
          refine ⟨h.frameCount, h.length, h.in_lt, ?_, ?_⟩
          · rw [h.frameCount]
            exact Ring.next_lt h.out_lt
          · rw [h.frameCount, Ring.previous_next h.out_lt]
        obtain ⟨drained, frames, left, hdrain, hvalid, hunread⟩ := ih hplayed
        refine ⟨drained, frame :: frames, left, ?_, hvalid, ?_⟩
        · simp [Snd.drain, hempty, hframe, hdrain]
        · rw [List.cons_append, ← hunread, unreadFrames, unreadFrames, h.frameCount]
          exact Ring.contents_pop h.out_lt h.in_lt hempty hframe

theorem fill_submitted (len : Nat) (before : List Int) :
    (fill len before).filterMap Heard.submitted = [] := by
  induction len generalizing before with
  | zero => rfl
  | succ len ih => exact ih (before.drop 2)

theorem frames_submitted (frames : List SndFrame) :
    (frames.map Heard.frame).filterMap Heard.submitted = frames := by
  rw [List.filterMap_map]
  exact List.filterMap_some

theorem silence_submitted (count : Nat) :
    (List.replicate count Heard.silence).filterMap Heard.submitted = [] := by
  simp [Heard.submitted]

/-- The callback plays unread frames from the first one on, and fills up the rest. -/
theorem Valid.audioCallback (h : snd.Valid n) (sampleCount len : Nat) : ∃ drained heard,
    snd.audioCallback sampleCount len = some (drained, heard) ∧ drained.Valid n ∧
      snd.unreadFrames = heard.filterMap Heard.submitted ++ drained.unreadFrames := by
  obtain ⟨drained, frames, left, hdrain, hvalid, hunread⟩ := h.drain len
  have hcount : snd.frameCount ≠ 0 := by
    have := h.in_lt
    have := h.frameCount
    omega
  unfold Snd.audioCallback
  rw [if_neg hcount, hdrain, Option.map_some]
  dsimp only
  split
  · refine ⟨drained, _, rfl, hvalid, ?_⟩
    rw [List.filterMap_append, frames_submitted, silence_submitted, List.append_nil, hunread]
  · refine ⟨drained, _, rfl, hvalid, ?_⟩
    rw [List.filterMap_append, frames_submitted, fill_submitted, List.append_nil, hunread]

end Snd

namespace Batch

/-- A batch is no longer than the frames left for it. -/
def Fits : Batch → Prop
  | idle | outer _ => True
  | check frames amount _ | delay frames amount _ | write frames amount => amount ≤ frames.length

end Batch

namespace Audio

variable {n : Nat} {s : Audio} {input : AudioInput}

/-- What was submitted has been played, is unread, or is still to be written, in this order. -/
structure Sound (n : Nat) (s : Audio) : Prop where
  valid : s.snd.Valid n
  fits : s.batch.Fits
  fifo : s.submitted = s.played ++ s.snd.unreadFrames ++ s.batch.left

theorem start_sound (hn : 0 < n) : (start n).Sound n := by
  have hne : n ≠ 0 := by omega
  have hsnd : (start n).snd = ⟨List.replicate n ⟨0, 0⟩, n, 0, 0, n - 1⟩ := by
    simp [start, Snd.resizeBuffer, hne]
  refine ⟨?_, trivial, ?_⟩
  · rw [hsnd]
    exact ⟨rfl, List.length_replicate, hn, hn, rfl⟩
  · rw [hsnd, Snd.unreadFrames, Ring.contents_self]
    rfl

/-- The loops of the call are defined, and keep the frames in order. -/
theorem Sound.proceed (h : s.Sound n) : ∃ t, s.proceed = some t ∧ t.Sound n := by
  obtain ⟨hvalid, hfits, hfifo⟩ := h
  unfold Audio.proceed
  cases hbatch : s.batch with
  | idle => exact ⟨s, rfl, hvalid, hfits, hfifo⟩
  | outer frames =>
      rw [hbatch] at hfifo
      cases frames with
      | nil => exact ⟨_, rfl, hvalid, trivial, hfifo⟩
      | cons frame rest => exact ⟨_, rfl, hvalid, Nat.min_le_right _ _, hfifo⟩
  | check frames amount tries =>
      rw [hbatch] at hfifo hfits
      dsimp only
      split
      · exact ⟨_, rfl, hvalid, hfits, hfifo⟩
      · exact ⟨_, rfl, hvalid, hfits, hfifo⟩
  | delay frames amount tries =>
      rw [hbatch] at hfifo hfits
      exact ⟨_, rfl, hvalid, hfits, hfifo⟩
  | write frames amount =>
      rw [hbatch] at hfifo hfits
      dsimp only
      split
      next hroom =>
        cases frames with
        | nil => exact absurd (Nat.le_zero.mp hfits) hroom.1
        | cons frame rest =>
            obtain ⟨written, hwritten, hwrittenValid, hunread⟩ :=
              hvalid.resampleNone hroom.2 frame
            refine ⟨_, congrArg (Option.map _) hwritten, hwrittenValid, ?_, ?_⟩
            · simp only [Batch.Fits, List.length_cons] at hfits ⊢
              omega
            · simp only [Batch.left, hunread] at hfifo ⊢
              simpa [Audio.played] using hfifo
      next => exact ⟨_, rfl, hvalid, trivial, hfifo⟩

/-- Every allowed step is defined and keeps the frames in order. -/
theorem Sound.step (h : s.Sound n) (sampleCount : Nat) (hallowed : s.Allowed input) :
    ∃ t, s.step sampleCount input = some t ∧ t.Sound n := by
  cases input with
  | batchSamples frames =>
      unfold Audio.step
      dsimp only
      split
      · exact ⟨_, rfl, h.valid, h.fits, h.fifo⟩
      · refine ⟨_, rfl, h.valid, trivial, ?_⟩
        have hidle : s.batch = .idle := hallowed
        have hfifo := h.fifo
        rw [hidle] at hfifo
        simp only [Batch.left, List.append_nil] at hfifo ⊢
        rw [hfifo]
        rfl
  | proceed => exact h.proceed
  | callback len =>
      obtain ⟨drained, heard, hcallback, hvalid, hunread⟩ := h.valid.audioCallback sampleCount len
      refine ⟨_, congrArg (Option.map _) hcallback, hvalid, h.fits, ?_⟩
      have hfifo := h.fifo
      rw [hunread] at hfifo
      simpa [Audio.played] using hfifo

/-- The ring is a faithful FIFO. -/
structure Faithful (n sampleCount : Nat) (s : Audio) : Prop where
  in_range : s.snd.frameIn < n ∧ s.snd.frameOut < n
  filled : (s.snd.frameFilled : Int) = ((s.snd.frameOut : Int) - 1) % s.snd.frameCount
  count : s.snd.frameCount = n
  /-- The slot that is written next holds no unread frame. -/
  kept : s.snd.frameIn ∉ s.unread
  /-- What was played, what is unread and what is still to be written is what was submitted. -/
  fifo : s.submitted = s.played ++ s.snd.unreadFrames ++ s.batch.left
  played : s.played <+: s.submitted
  defined : ∀ input, s.Allowed input → (s.step sampleCount input).isSome

theorem Sound.faithful (h : s.Sound n) (sampleCount : Nat) : s.Faithful n sampleCount := by
  refine ⟨⟨h.valid.in_lt, h.valid.out_lt⟩, ?_, h.valid.frameCount, ?_, h.fifo, ?_, ?_⟩
  · rw [h.valid.filled, h.valid.frameCount]
    exact Ring.previous_eq_emod h.valid.out_lt
  · rw [unread, h.valid.frameCount]
    exact Ring.last_not_mem_slots h.valid.out_lt
  · rw [h.fifo, List.append_assoc]
    exact List.prefix_append _ _
  · intro input hallowed
    obtain ⟨t, hstep, -⟩ := h.step sampleCount hallowed
    rw [hstep]
    rfl

end Audio

/-- The audio ring is a faithful FIFO in every state that calls of the producer and of the
callback lead to. -/
theorem audio_ring_fifo {n sampleCount : Nat} {s : Audio} (hn : 2 ≤ n)
    (hreach : Reaches (Audio.step sampleCount) Audio.Allowed (Audio.start n) s) :
    s.Faithful n sampleCount := by
  have hsound : s.Sound n := by
    refine hreach.invariant (Audio.start_sound (by omega)) ?_
    intro t u input ht hallowed hstep
    obtain ⟨next, hnext, hsound⟩ := ht.step sampleCount hallowed
    rw [hstep] at hnext
    exact Option.some.inj hnext ▸ hsound
  exact hsound.faithful sampleCount

/-- Three frames go into a ring of two slots, and the callback plays one while the call waits. -/
def waitingRun : List AudioInput :=
  [.batchSamples [⟨1, -1⟩, ⟨2, -2⟩, ⟨3, -3⟩]] ++ List.replicate 6 .proceed ++ [.callback 2] ++
    List.replicate 2 .proceed

theorem audio_ring_fifo_waiting : ∃ s,
    Reaches (Audio.step 512) Audio.Allowed (Audio.start 2) s ∧ s.played = [⟨1, -1⟩] ∧
      s.Faithful 2 512 := by
  have hrun : ((some (Audio.start 2)).bind
      (follow (Audio.step 512) (fun s input => decide (s.Allowed input)) waitingRun)).any
        (fun s => s.played = [⟨1, -1⟩]) = true := by
    decide +kernel
  obtain ⟨s, t, hstart, hreach, hend⟩ := exists_reaches_of_follow hrun
  cases hstart
  have hallowed : Reaches (Audio.step 512) Audio.Allowed (Audio.start 2) t :=
    hreach.mono fun s input h => of_decide_eq_true h
  exact ⟨t, hallowed, of_decide_eq_true hend, audio_ring_fifo (Nat.le_refl 2) hallowed⟩

end DarkUI
