import DarkUI.Common.Snd

/-! # Audio at another rate

When the device plays at another rate than the emulated sound chip, frames go into the ring
through a resampler that repeats or skips them. It keeps the remainder between its calls, and
tells the loop that calls it whether the frame is done with.
-/

namespace DarkUI

/-- `INT_MAX` -/
def intMax : Int := 2147483647

/-- A sum of two `int`s. -/
def intAdd (m n : Int) : Int := (m + n).bmod 4294967296

/-- The rates of `SND_Context`, two positive `int`s. -/
structure SampleRates where
  sampleRateIn : Int
  sampleRateOut : Int
  in_pos : 0 < sampleRateIn
  in_le : sampleRateIn ≤ intMax
  out_pos : 0 < sampleRateOut
  out_le : sampleRateOut ≤ intMax

namespace Snd

/-- The second half of `SND_resampleNear`: `diff` after it, and `consumed`. The difference of
`int`s is one, as a positive rate is taken from what is not below it. -/
def consume (rates : SampleRates) (diff : Int) : Int × Nat :=
  if diff ≥ rates.sampleRateOut then (diff - rates.sampleRateOut, 1) else (diff, 0)

/-- `SND_resampleNear`: the ring and `diff` after it, and how many frames it consumes. It writes
to the ring as `SND_resampleNone` does. -/
def resampleNear (rates : SampleRates) (snd : Snd) (diff : Int) (frame : SndFrame) :
    Option (Snd × Int × Nat) :=
  if diff < rates.sampleRateOut then
    (snd.resampleNone frame).map fun written =>
      (written, consume rates (intAdd diff rates.sampleRateIn))
  else some (snd, consume rates diff)

end Snd

/-- The audio with the remainder that `SND_resampleNear` keeps. -/
structure NearAudio where
  audio : Audio
  diff : Int
  /-- What all calls have consumed so far. -/
  consumed : Nat
  deriving DecidableEq, Repr

namespace NearAudio

def start (frameCount : Nat) : NearAudio := ⟨Audio.start frameCount, 0, 0⟩

/-- One step of the loops of `SND_batchSamples`, with `SND_resampleNear` for `snd.resample`. -/
def proceed (rates : SampleRates) (s : NearAudio) : Option NearAudio :=
  match s.audio.batch with
  | .write frames amount =>
      if amount ≠ 0 ∧ s.audio.snd.frameIn ≠ s.audio.snd.frameFilled then
        match frames with
        | [] => none -- a read past the caller's frames
        | frame :: rest =>
            (s.audio.snd.resampleNear rates s.diff frame).map fun (snd, diff, count) =>
              { audio :=
                  { s.audio with
                    snd := snd
                    batch := .write ((frame :: rest).drop count) (amount - count)
                    consumed := s.audio.consumed + count }
                diff := diff
                consumed := s.consumed + count }
      else some { s with audio := { s.audio with batch := .outer frames } }
  | .idle | .outer _ | .check _ _ _ | .delay _ _ _ =>
      s.audio.proceed.map fun audio => { s with audio := audio }

def step (rates : SampleRates) (sampleCount : Nat) (s : NearAudio) :
    AudioInput → Option NearAudio
  | .proceed => s.proceed rates
  | input => (s.audio.step sampleCount input).map fun audio => { s with audio := audio }

def Allowed (s : NearAudio) (input : AudioInput) : Prop := s.audio.Allowed input

instance (s : NearAudio) (input : AudioInput) : Decidable (s.Allowed input) :=
  inferInstanceAs (Decidable (s.audio.Allowed input))

/-- The frames that went into the ring: those that were played, then the unread ones. -/
def written (s : NearAudio) : List SndFrame :=
  s.audio.played ++ s.audio.unread.filterMap fun i => s.audio.snd.buffer[i]?

end NearAudio

end DarkUI
