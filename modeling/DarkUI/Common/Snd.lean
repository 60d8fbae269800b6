import DarkUI.Foundation.Ring

/-! # Audio

The ring between the emulated sound chip and the audio device: the callback that drains it, and
the call that fills it, one step of its loops at a time.
-/

namespace DarkUI

/-- `SND_Frame` -/
structure SndFrame where
  left : Int
  right : Int
  deriving DecidableEq, Repr

/-- The part of `SND_Context` that the ring uses. -/
structure Snd where
  buffer : List SndFrame
  frameCount : Nat
  frameIn : Nat
  frameOut : Nat
  frameFilled : Nat
  deriving DecidableEq, Repr

/-- What a callback puts into the stream for each frame it has to fill. -/
inductive Heard
  | frame (frame : SndFrame)
  | filler (left right : Int)
  | silence
  deriving DecidableEq, Repr

/-- A frame that was submitted, rather than filler or silence. -/
def Heard.submitted : Heard → Option SndFrame
  | frame played => some played
  | filler _ _ | silence => none

namespace Snd

/-- The context that `memset` leaves. -/
def cleared : Snd := ⟨[], 0, 0, 0, 0⟩

/-- `SND_resizeBuffer`, from the count it works out and whether `realloc` succeeds. -/
def resizeBuffer (snd : Snd) (frameCount : Nat) (allocated : Bool) : Snd :=
  if frameCount = 0 then { snd with frameCount := 0 }
  else if !allocated then snd
  else
    { buffer := List.replicate frameCount ⟨0, 0⟩
      frameCount := frameCount
      frameIn := 0
      frameOut := 0
      frameFilled := frameCount - 1 }

/-- The loop that plays the unread frames: the ring after it, the frames, and the `len` left. A
read outside the buffer is not defined. -/
def drain : Nat → Snd → Option (Snd × List SndFrame × Nat)
  | 0, snd => some (snd, [], 0)
  | len + 1, snd =>
      if snd.frameOut = snd.frameIn then some (snd, [], len + 1)
      else
        snd.buffer[snd.frameOut]?.bind fun frame =>
          let played : Snd :=
            { snd with
              frameFilled := snd.frameOut
              frameOut := Ring.next snd.frameCount snd.frameOut }
          (drain len played).map fun (drained, frames, left) => (drained, frame :: frames, left)

/-- The loop that fills the rest of the stream. `before` is what lies before `in`, the last
sample first; `*--in` walks back over it and reads zero once it is used up. -/
def fill : Nat → List Int → List Heard
  | 0, _ => []
  | len + 1, before =>
      .filler (before.headD 0) ((before.drop 1).headD 0) :: fill len (before.drop 2)

def samples (frames : List SndFrame) : List Int :=
  frames.flatMap fun frame => [frame.left, frame.right]

/-- `SND_audioCallback` for a stream of `len` frames, with `SAMPLES` of the build. -/
def audioCallback (sampleCount : Nat) (snd : Snd) (len : Nat) : Option (Snd × List Heard) :=
  if snd.frameCount = 0 then some (snd, [])
  else
    (drain len snd).map fun (drained, frames, left) =>
      let played := frames.map Heard.frame
      if left > 0 ∧ left = sampleCount then (drained, played ++ List.replicate left .silence)
      -- `in` starts at the last sample, and is moved back before it is read
      else (drained, played ++ fill left ((samples frames).reverse.drop 1))

/-- `SND_resampleNone`. A write outside the buffer is not defined. -/
def resampleNone (snd : Snd) (frame : SndFrame) : Option Snd :=
  if snd.frameIn < snd.buffer.length then
    some
      { snd with
        buffer := snd.buffer.set snd.frameIn frame
        frameIn := Ring.next snd.frameCount snd.frameIn }
  else none

end Snd

/-- `BATCH_SIZE` -/
def batchSize : Nat := 100

/-- Where a call of `SND_batchSamples` is, with the frames it has left and its locals. -/
inductive Batch
  /-- No call is under way. -/
  | idle
  /-- At the test of the outer loop. -/
  | outer (frames : List SndFrame)
  /-- At the test of the loop that waits for room. -/
  | check (frames : List SndFrame) (amount tries : Nat)
  /-- In `SDL_Delay`, the only place where the audio lock is not held. -/
  | delay (frames : List SndFrame) (amount tries : Nat)
  /-- At the test of the loop that writes. -/
  | write (frames : List SndFrame) (amount : Nat)
  deriving DecidableEq, Repr

namespace Batch

/-- The frames the call has not written yet. -/
def left : Batch → List SndFrame
  | idle => []
  | outer frames | check frames _ _ | delay frames _ _ | write frames _ => frames

/-- The audio callback cannot run. -/
def locked : Batch → Bool
  | idle | delay _ _ _ => false
  | outer _ | check _ _ _ | write _ _ => true

end Batch

/-- The ring, the call that fills it, and what was submitted and heard so far. -/
structure Audio where
  snd : Snd
  batch : Batch
  /-- What the call under way has consumed, or the last one has returned. -/
  consumed : Nat
  submitted : List SndFrame
  heard : List Heard
  deriving DecidableEq, Repr

/-- A call of `SND_batchSamples`, one step of the call under way, or a call of the callback. -/
inductive AudioInput
  | batchSamples (frames : List SndFrame)
  | proceed
  | callback (len : Nat)
  deriving DecidableEq, Repr

namespace Audio

/-- The audio as `SND_init` leaves it, with a buffer of `frameCount` frames. -/
def start (frameCount : Nat) : Audio :=
  ⟨Snd.cleared.resizeBuffer frameCount true, .idle, 0, [], []⟩

/-- One step of the loops of `SND_batchSamples`. -/
def proceed (s : Audio) : Option Audio :=
  match s.batch with
  | .idle => some s
  | .outer [] => some { s with batch := .idle }
  | .outer frames => some { s with batch := .check frames (min batchSize frames.length) 0 }
  | .check frames amount tries =>
      if tries < 10 ∧ s.snd.frameIn = s.snd.frameFilled then
        some { s with batch := .delay frames amount (tries + 1) }
      else some { s with batch := .write frames amount }
  | .delay frames amount tries => some { s with batch := .check frames amount tries }
  | .write frames amount =>
      if amount ≠ 0 ∧ s.snd.frameIn ≠ s.snd.frameFilled then
        match frames with
        | [] => none -- a read past the caller's frames
        | frame :: rest =>
            (s.snd.resampleNone frame).map fun written =>
              { s with
                snd := written
                batch := .write rest (amount - 1)
                consumed := s.consumed + 1 }
      else some { s with batch := .outer frames }

def step (sampleCount : Nat) (s : Audio) : AudioInput → Option Audio
  | .batchSamples frames =>
      if s.snd.frameCount = 0 then some { s with consumed := 0 }
      else
        some
          { s with
            batch := .outer frames
            consumed := 0
            submitted := s.submitted ++ frames }
  | .proceed => s.proceed
  | .callback len =>
      (s.snd.audioCallback sampleCount len).map fun (drained, heard) =>
        { s with snd := drained, heard := s.heard ++ heard }

/-- A call begins when the last one has returned, and the callback runs while nobody holds the
audio lock. -/
def Allowed (s : Audio) : AudioInput → Prop
  | .batchSamples _ => s.batch = .idle
  | .proceed => True
  | .callback _ => s.batch.locked = false

instance (s : Audio) (input : AudioInput) : Decidable (s.Allowed input) := by
  cases input <;> unfold Allowed <;> infer_instance

/-- The frames that were played, without filler and silence. -/
def played (s : Audio) : List SndFrame := s.heard.filterMap Heard.submitted

/-- The slots that hold frames that were not played yet. -/
def unread (s : Audio) : List Nat := Ring.slots s.snd.frameCount s.snd.frameOut s.snd.frameIn

end Audio

end DarkUI
