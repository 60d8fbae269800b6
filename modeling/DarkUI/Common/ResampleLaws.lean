import DarkUI.Common.Resample
import DarkUI.Common.SndLaws
import DarkUI.Foundation.Rates

/-! # The nearest resampler is exact

The remainder is what the frames written are ahead of the frames consumed, each counted at its
own rate. A call may write without consuming or consume without writing, and the loop that makes
the calls ends because a call that does not consume brings the remainder closer to consuming.
The remainder is an `int`, and is raised to the sum of both rates less the greatest number that
divides them.
-/

namespace DarkUI

open Run Rates

/-- A sum of two `int`s that is not negative and no more than `INT_MAX` is exact. -/
theorem intAdd_eq {m n : Int} (hnonneg : 0 ≤ m + n) (hle : m + n ≤ intMax) :
    intAdd m n = m + n := by
  unfold intMax at hle
  exact Int.bmod_eq_of_le (by omega) (by omega)

/-- The remainder stays an `int` while it is raised. -/
def SampleRates.Fit (rates : SampleRates) : Prop :=
  rates.sampleRateIn + rates.sampleRateOut -
    Int.gcd rates.sampleRateIn rates.sampleRateOut ≤ intMax

instance (rates : SampleRates) : Decidable rates.Fit := inferInstanceAs (Decidable (_ ≤ _))

namespace Snd

variable {n : Nat} {snd : Snd} {diff : Int} {frame : SndFrame}

theorem consume_eq (rates : SampleRates) (diff : Int) :
    consume rates diff =
      (lowered rates.sampleRateOut diff, if rates.sampleRateOut ≤ diff then 1 else 0) := by
  unfold consume lowered
  split
  next => rfl
  next => rfl

/-- With room in the ring a call is defined, and writes and consumes as the remainder says. -/
theorem Valid.resampleNear (h : snd.Valid n) (hroom : snd.frameIn ≠ snd.frameFilled)
    {rates : SampleRates} (hnonneg : 0 ≤ diff)
    (hraise : diff < rates.sampleRateOut → diff + rates.sampleRateIn ≤ intMax)
    (frame : SndFrame) :
    ∃ written, snd.resampleNear rates diff frame = some (written,
        lowered rates.sampleRateOut (raised rates.sampleRateIn rates.sampleRateOut diff),
        if rates.sampleRateOut ≤ raised rates.sampleRateIn rates.sampleRateOut diff
        then 1 else 0) ∧
      written.Valid n ∧ written.unreadFrames =
        snd.unreadFrames ++ if diff < rates.sampleRateOut then [frame] else [] := by
  unfold Snd.resampleNear raised
  by_cases hsmall : diff < rates.sampleRateOut
  · obtain ⟨written, hwritten, hvalid, hunread⟩ := h.resampleNone hroom frame
    have hin := rates.in_pos
    have hsum := intAdd_eq (by omega) (hraise hsmall)
    simp only [if_pos hsmall, hwritten, Option.map_some, consume_eq, hsum]
    exact ⟨written, rfl, hvalid, hunread⟩
  · simp only [if_neg hsmall, consume_eq]
    exact ⟨snd, rfl, h, (List.append_nil _).symm⟩

end Snd

namespace Audio

/-- The call is in the loop that writes. -/
def InLoop (s : Audio) : Prop := ∃ frames amount, s.batch = .write frames amount

/-- Outside the loop that writes, a step changes nothing but where the call is. -/
theorem proceed_outside {s : Audio} (h : ¬s.InLoop) (hfits : s.batch.Fits) :
    ∃ batch, s.proceed = some { s with batch := batch } ∧ batch.left = s.batch.left ∧
      batch.Fits := by
  unfold Audio.proceed
  cases hbatch : s.batch with
  | idle => exact ⟨s.batch, rfl, by rw [hbatch], by rwa [hbatch] at hfits ⊢⟩
  | outer frames =>
      cases frames with
      | nil => exact ⟨.idle, rfl, rfl, trivial⟩
      | cons frame rest => exact ⟨_, rfl, rfl, Nat.min_le_right _ _⟩
  | check frames amount tries =>
      rw [hbatch] at hfits
      dsimp only
      split
      · exact ⟨_, rfl, rfl, hfits⟩
      · exact ⟨_, rfl, rfl, hfits⟩
  | delay frames amount tries =>
      rw [hbatch] at hfits
      exact ⟨_, rfl, rfl, hfits⟩
  | write frames amount => exact absurd ⟨frames, amount, hbatch⟩ h

end Audio

namespace NearAudio

variable {n sampleCount : Nat} {rates : SampleRates} {s t : NearAudio} {input : AudioInput}

/-- How often each submitted frame was written: not at all from the first one on that no call
was made for. -/
structure Counted (s : NearAudio) (times : Nat → Nat) : Prop where
  written : s.written = repeated times s.audio.submitted
  current : ∀ i, s.consumed < i → times i = 0
  submitted : ∀ i, s.audio.submitted.length ≤ i → times i = 0

/-- The ring is in order, the frames were consumed from the front, and the remainder says how
many were written for them. -/
structure Sound (n : Nat) (rates : SampleRates) (s : NearAudio) : Prop where
  valid : s.audio.snd.Valid n
  fits : s.audio.batch.Fits
  consumed : ∃ before, s.audio.submitted = before ++ s.audio.batch.left ∧
    before.length = s.consumed
  counted : ∃ times, s.Counted times
  inStep : InStep rates.sampleRateIn rates.sampleRateOut s.written.length s.consumed s.diff

theorem written_eq (s : NearAudio) : s.written = s.audio.played ++ s.audio.snd.unreadFrames := rfl

theorem start_sound (hn : 0 < n) : (start n).Sound n rates := by
  have hsound := Audio.start_sound hn
  have hwritten : (start n).written = [] := by
    have hfifo := hsound.fifo
    rw [written_eq]
    exact (List.append_eq_nil_iff.mp hfifo.symm).1
  refine ⟨hsound.valid, trivial, ⟨[], rfl, rfl⟩,
    ⟨fun _ => 0, ?_, fun _ _ => rfl, fun _ _ => rfl⟩, ?_⟩
  · rw [hwritten]
    rfl
  · rw [hwritten]
    exact inStep_start rates.in_pos

/-- Writing the current frame, or not, leaves the frames written in order. -/
theorem Counted.writes {times : Nat → Nat} {before behind : List SndFrame} {frame : SndFrame}
    (h : s.Counted times) (hsubmitted : s.audio.submitted = before ++ frame :: behind)
    (hbefore : before.length = s.consumed) (small : Prop) [Decidable small] :
    ∃ times', s.written ++ (if small then [frame] else []) = repeated times' s.audio.submitted ∧
      (∀ i, s.consumed < i → times' i = 0) ∧
      ∀ i, s.audio.submitted.length ≤ i → times' i = 0 := by
  by_cases hsmall : small
  · rw [if_pos hsmall]
    refine ⟨Function.update times before.length (times before.length + 1), ?_, ?_, ?_⟩
    · rw [h.written, hsubmitted, repeated_again (hbefore ▸ h.current)]
    · intro i hi
      rw [Function.update_of_ne (by omega), h.current i hi]
    · intro i hi
      have hlength := congrArg List.length hsubmitted
      simp only [List.length_append, List.length_cons] at hlength
      rw [Function.update_of_ne (by omega), h.submitted i hi]
  · rw [if_neg hsmall, List.append_nil]
    exact ⟨times, h.written, h.current, h.submitted⟩

/-- What is consumed is a front of what was submitted. -/
theorem exists_consumed {submitted before left : List SndFrame}
    (hsubmitted : submitted = before ++ left) {count : Nat} (hcount : count ≤ left.length) :
    ∃ after, submitted = after ++ left.drop count ∧ after.length = before.length + count := by
  refine ⟨before ++ left.take count, ?_, ?_⟩
  · rw [List.append_assoc, List.take_append_drop, hsubmitted]
  · rw [List.length_append, List.length_take_of_le hcount]

/-- Writing a frame where the remainder is small, and taking one where it has been raised enough,
keeps the rates in step. -/
theorem Sound.inStep_called (h : s.Sound n rates) {frame : SndFrame}
    (hwritten : t.written = s.written ++ if s.diff < rates.sampleRateOut then [frame] else [])
    (hconsumed : t.consumed = s.consumed +
      if rates.sampleRateOut ≤ raised rates.sampleRateIn rates.sampleRateOut s.diff
      then 1 else 0)
    (hdiff : t.diff = lowered rates.sampleRateOut
      (raised rates.sampleRateIn rates.sampleRateOut s.diff)) :
    InStep rates.sampleRateIn rates.sampleRateOut t.written.length t.consumed t.diff := by
  have hnext := h.inStep.step rates.in_pos rates.out_pos
  have hlength : (t.written.length : Int) =
      s.written.length + if s.diff < rates.sampleRateOut then 1 else 0 := by
    rw [hwritten, List.length_append, Nat.cast_add]
    congr 1
    split <;> rfl
  have htaken : (t.consumed : Int) = s.consumed +
      if rates.sampleRateOut ≤ raised rates.sampleRateIn rates.sampleRateOut s.diff
      then 1 else 0 := by
    rw [hconsumed, Nat.cast_add]
    congr 1
    split <;> rfl
  rw [hlength, htaken, hdiff]
  exact hnext

/-- The remainder is an `int` again once it is raised. -/
theorem Sound.raise_le (h : s.Sound n rates) (hfit : rates.Fit)
    (hsmall : s.diff < rates.sampleRateOut) : s.diff + rates.sampleRateIn ≤ intMax :=
  (h.inStep.add_le hsmall).trans hfit

/-- The step of the loop that calls the resampler. -/
theorem Sound.call {frames : List SndFrame} {amount : Nat} (h : s.Sound n rates)
    (hfit : rates.Fit) (hbatch : s.audio.batch = .write frames amount) (hamount : amount ≠ 0)
    (hroom : s.audio.snd.frameIn ≠ s.audio.snd.frameFilled) :
    ∃ t frames', s.proceed rates = some t ∧ t.Sound n rates ∧
      t.audio.batch = .write frames' (amount -
        if rates.sampleRateOut ≤ raised rates.sampleRateIn rates.sampleRateOut s.diff
        then 1 else 0) ∧
      t.diff = lowered rates.sampleRateOut
        (raised rates.sampleRateIn rates.sampleRateOut s.diff) := by
  have hfits := h.fits
  obtain ⟨before, hsubmitted, hbefore⟩ := h.consumed
  obtain ⟨times, hcounted⟩ := h.counted
  rw [hbatch] at hfits hsubmitted
  cases frames with
  | nil => exact absurd (Nat.le_zero.mp hfits) hamount
  | cons frame rest =>
      obtain ⟨snd, hcall, hsnd, hunread⟩ := h.valid.resampleNear hroom h.inStep.nonneg
        (h.raise_le hfit) frame
      obtain ⟨times', hwritten, hcurrent, hunseen⟩ :=
        hcounted.writes hsubmitted hbefore (s.diff < rates.sampleRateOut)
      -- whether a frame is taken is decided after the raise, and at most one is
      generalize hcount : (if rates.sampleRateOut ≤
        raised rates.sampleRateIn rates.sampleRateOut s.diff then 1 else 0) = count at hcall ⊢
      have hcount_le : count ≤ 1 := by
        rw [← hcount]
        split <;> omega
      let t : NearAudio :=
        { audio :=
            { s.audio with
              snd := snd
              batch := .write ((frame :: rest).drop count) (amount - count)
              consumed := s.audio.consumed + count }
          diff := lowered rates.sampleRateOut
            (raised rates.sampleRateIn rates.sampleRateOut s.diff)
          consumed := s.consumed + count }
      have hproceed : s.proceed rates = some t := by
        unfold NearAudio.proceed
        simp only [hbatch, if_pos (And.intro hamount hroom), hcall, Option.map_some]
        rfl
      have hframes : t.written =
          s.written ++ if s.diff < rates.sampleRateOut then [frame] else [] := by
        rw [written_eq, written_eq, List.append_assoc, ← hunread]
        rfl
      have hconsumed := exists_consumed hsubmitted
        (hcount_le.trans (Nat.le_add_left 1 rest.length))
      rw [hbefore] at hconsumed
      have hinStep := h.inStep_called hframes (congrArg _ hcount.symm) rfl
      refine ⟨t, (frame :: rest).drop count, hproceed,
        ⟨hsnd, ?_, hconsumed, ⟨times', ?_, ?_, hunseen⟩, hinStep⟩, rfl, rfl⟩
      · simp only [t, Batch.Fits, List.length_drop] at hfits ⊢
        omega
      · rw [hframes, hwritten]
      · -- a frame that is left behind is not written again
        intro i hi
        exact hcurrent i (Nat.lt_of_le_of_lt (Nat.le_add_right _ _) hi)

/-- Where the call is may change, as long as the frames it has left do not. -/
theorem Sound.at (h : s.Sound n rates) {batch : Batch} (hleft : batch.left = s.audio.batch.left)
    (hfits : batch.Fits) :
    NearAudio.Sound n rates { s with audio := { s.audio with batch := batch } } := by
  obtain ⟨before, hsubmitted, hbefore⟩ := h.consumed
  obtain ⟨times, hcounted⟩ := h.counted
  exact ⟨h.valid, hfits, ⟨before, hsubmitted.trans (congrArg _ hleft.symm), hbefore⟩,
    ⟨times, hcounted.written, hcounted.current, hcounted.submitted⟩, h.inStep⟩

theorem proceed_leaves {frames : List SndFrame} {amount : Nat}
    (hbatch : s.audio.batch = .write frames amount)
    (hends : ¬(amount ≠ 0 ∧ s.audio.snd.frameIn ≠ s.audio.snd.frameFilled)) :
    s.proceed rates = some { s with audio := { s.audio with batch := .outer frames } } := by
  unfold NearAudio.proceed
  simp only [hbatch, if_neg hends]

/-- A step of the call under way is defined and keeps everything in order. -/
theorem Sound.proceed (h : s.Sound n rates) (hfit : rates.Fit) :
    ∃ t, s.proceed rates = some t ∧ t.Sound n rates := by
  by_cases hloop : s.audio.InLoop
  · obtain ⟨frames, amount, hbatch⟩ := hloop
    by_cases hgoes : amount ≠ 0 ∧ s.audio.snd.frameIn ≠ s.audio.snd.frameFilled
    · obtain ⟨t, -, hproceed, hsound, -⟩ := h.call hfit hbatch hgoes.1 hgoes.2
      exact ⟨t, hproceed, hsound⟩
    · exact ⟨_, proceed_leaves hbatch hgoes, h.at (by rw [hbatch]; rfl) trivial⟩
  · obtain ⟨batch, hstep, hleft, hfits⟩ := Audio.proceed_outside hloop h.fits
    refine ⟨_, ?_, h.at hleft hfits⟩
    unfold NearAudio.proceed
    cases hbatch : s.audio.batch with
    | write frames amount => exact absurd ⟨frames, amount, hbatch⟩ hloop
    | idle | outer _ | check _ _ _ | delay _ _ _ => simp only [hstep, Option.map_some]

/-- A new call is given frames while no other is under way. -/
theorem Sound.batchSamples (h : s.Sound n rates) (hidle : s.audio.batch = .idle)
    (frames : List SndFrame) : ∃ t,
      s.step rates sampleCount (.batchSamples frames) = some t ∧ t.Sound n rates := by
  obtain ⟨before, hsubmitted, hbefore⟩ := h.consumed
  obtain ⟨times, hcounted⟩ := h.counted
  rw [hidle, Batch.left, List.append_nil] at hsubmitted
  unfold NearAudio.step Audio.step
  by_cases hnone : s.audio.snd.frameCount = 0
  · simp only [if_pos hnone, Option.map_some]
    exact ⟨_, rfl, h.valid, h.fits, h.consumed,
      ⟨times, hcounted.written, hcounted.current, hcounted.submitted⟩, h.inStep⟩
  · simp only [if_neg hnone, Option.map_some]
    refine ⟨_, rfl, h.valid, trivial, ⟨before, congrArg (· ++ frames) hsubmitted, hbefore⟩,
      ⟨times, ?_, hcounted.current, fun i hi => ?_⟩, h.inStep⟩
    · exact hcounted.written.trans (repeated_unseen hcounted.submitted).symm
    · rw [List.length_append] at hi
      exact hcounted.submitted i (by omega)

/-- The callback plays frames that were written, in order. -/
theorem Sound.callback (h : s.Sound n rates) (len : Nat) : ∃ t,
    s.step rates sampleCount (.callback len) = some t ∧ t.Sound n rates := by
  obtain ⟨drained, heard, hcallback, hvalid, hunread⟩ := h.valid.audioCallback sampleCount len
  obtain ⟨times, hcounted⟩ := h.counted
  let t : NearAudio :=
    { s with audio := { s.audio with snd := drained, heard := s.audio.heard ++ heard } }
  have hwritten : t.written = s.written := by
    rw [written_eq, written_eq, hunread, ← List.append_assoc]
    exact congrArg (· ++ drained.unreadFrames) List.filterMap_append
  refine ⟨t, ?_, hvalid, h.fits, h.consumed,
    ⟨times, hwritten.trans hcounted.written, hcounted.current, hcounted.submitted⟩, ?_⟩
  · unfold NearAudio.step Audio.step
    simp only [hcallback, Option.map_some]
    rfl
  · rw [hwritten]
    exact h.inStep

/-- Every allowed step is defined and keeps everything in order. -/
theorem Sound.step (h : s.Sound n rates) (hfit : rates.Fit) (sampleCount : Nat)
    (hallowed : s.Allowed input) :
    ∃ t, s.step rates sampleCount input = some t ∧ t.Sound n rates := by
  cases input with
  | batchSamples frames => exact h.batchSamples hallowed frames
  | proceed => exact h.proceed hfit
  | callback len => exact h.callback len

/-- The call leaves the loop that writes after some steps of its own. -/
def LoopEnds (rates : SampleRates) (sampleCount : Nat) (s : NearAudio) : Prop :=
  ∃ t frames, Reaches (NearAudio.step rates sampleCount) (fun _ input => input = .proceed) s t ∧
    t.audio.batch = .outer frames

theorem LoopEnds.of_proceed (h : t.LoopEnds rates sampleCount) (hstep : s.proceed rates = some t) :
    s.LoopEnds rates sampleCount := by
  obtain ⟨u, frames, hreach, houter⟩ := h
  have hfirst : Reaches (NearAudio.step rates sampleCount) (fun _ input => input = .proceed) s t :=
    .tail .refl rfl hstep
  exact ⟨u, frames, hfirst.trans hreach, houter⟩

/-- A call that consumes has a frame less to go; one that does not has come closer to it. -/
theorem Sound.loop_ends {amount : Nat} (h : s.Sound n rates) (hfit : rates.Fit)
    {frames : List SndFrame} (hbatch : s.audio.batch = .write frames amount) :
    s.LoopEnds rates sampleCount := by
  induction amount generalizing s frames with
  | zero => exact ⟨_, frames, .tail .refl rfl (proceed_leaves hbatch (by simp)), rfl⟩
  | succ amount ih =>
      induction hcloser : (rates.sampleRateOut - s.diff).toNat using Nat.strong_induction_on
        generalizing s frames with
      | _ closer ihCloser =>
          by_cases hroom : s.audio.snd.frameIn = s.audio.snd.frameFilled
          · refine ⟨_, frames, .tail .refl rfl (proceed_leaves hbatch ?_), rfl⟩
            exact fun hgoes => hgoes.2 hroom
          · obtain ⟨t, frames', hstep, hsound, hbatch', hdiff⟩ :=
              h.call hfit hbatch (Nat.succ_ne_zero _) hroom
            by_cases htaken : rates.sampleRateOut ≤
              raised rates.sampleRateIn rates.sampleRateOut s.diff
            · rw [if_pos htaken] at hbatch'
              exact (ih hsound hbatch').of_proceed hstep
            · rw [if_neg htaken] at hbatch'
              obtain ⟨hsmall, hraised⟩ := raised_of_not_taken htaken
              rw [lowered, if_neg htaken, hraised] at hdiff
              have hin := rates.in_pos
              exact (ihCloser _ (by omega) hsound hbatch' rfl).of_proceed hstep

/-- What the resampler promises of the frames written so far. -/
structure Exact (rates : SampleRates) (sampleCount : Nat) (s : NearAudio) : Prop where
  balance : (s.written.length : Int) * rates.sampleRateIn =
    s.consumed * rates.sampleRateOut + s.diff
  diff_nonneg : 0 ≤ s.diff
  diff_lt : s.diff < max rates.sampleRateIn rates.sampleRateOut
  /-- Within a call `diff` stays an `int`. -/
  peak : s.diff < rates.sampleRateOut → s.diff + rates.sampleRateIn ≤ intMax
  /-- The frames written are the submitted ones in order, each repeated or skipped. -/
  repeats : ∃ times : Nat → Nat, s.written = repeated times s.audio.submitted ∧
    ∀ i, s.consumed < i → times i = 0
  near : |(s.written.length : Int) * rates.sampleRateIn - s.consumed * rates.sampleRateOut| <
    max rates.sampleRateIn rates.sampleRateOut
  /-- The frames consumed are the first ones, and the others are those the call has left. -/
  once : s.consumed + s.audio.batch.left.length = s.audio.submitted.length ∧
    s.audio.submitted.drop s.consumed = s.audio.batch.left
  loop_ends : s.audio.InLoop → s.LoopEnds rates sampleCount
  defined : ∀ input, s.Allowed input → (s.step rates sampleCount input).isSome

theorem Sound.exact (h : s.Sound n rates) (hfit : rates.Fit) (sampleCount : Nat) :
    s.Exact rates sampleCount where
  balance := h.inStep.balance
  diff_nonneg := h.inStep.nonneg
  diff_lt := h.inStep.lt
  peak := h.raise_le hfit
  repeats := by
    obtain ⟨times, hcounted⟩ := h.counted
    exact ⟨times, hcounted.written, hcounted.current⟩
  near := h.inStep.near
  once := by
    obtain ⟨before, hsubmitted, hbefore⟩ := h.consumed
    rw [hsubmitted, ← hbefore, List.length_append, List.drop_left]
    exact ⟨rfl, rfl⟩
  loop_ends := by
    rintro ⟨frames, amount, hbatch⟩
    exact h.loop_ends hfit hbatch
  defined := by
    intro input hallowed
    obtain ⟨t, hstep, -⟩ := h.step hfit sampleCount hallowed
    rw [hstep]
    rfl

end NearAudio

/-- The resampler is exact in every state that calls of the producer and of the callback lead
to, whichever of the two rates is the higher one, if the rates leave room for the remainder. -/
theorem resampleNear_exact {n sampleCount : Nat} {rates : SampleRates} {s : NearAudio} (hn : 0 < n)
    (hfit : rates.Fit)
    (hreach : Reaches (NearAudio.step rates sampleCount) NearAudio.Allowed (NearAudio.start n) s) :
    s.Exact rates sampleCount := by
  have hsound : s.Sound n rates := by
    refine hreach.invariant (NearAudio.start_sound hn) ?_
    intro t u input ht hallowed hstep
    obtain ⟨next, hnext, hsound⟩ := ht.step hfit sampleCount hallowed
    rw [hstep] at hnext
    exact Option.some.inj hnext ▸ hsound
  exact hsound.exact hfit sampleCount

/-- Three frames at 3 Hz are written five times for 5 Hz. -/
def threeToFive : SampleRates :=
  ⟨3, 5, by decide, by decide, by decide, by decide⟩

def upRun : List AudioInput :=
  .batchSamples [⟨1, -1⟩, ⟨2, -2⟩, ⟨3, -3⟩] :: List.replicate 9 .proceed

theorem exists_reaches {rates : SampleRates} {p : NearAudio → Prop} [DecidablePred p]
    (inputs : List AudioInput)
    (h : ((some (NearAudio.start 8)).bind (follow (NearAudio.step rates 512)
      (fun s input => decide (s.Allowed input)) inputs)).any (fun s => p s) = true) :
    ∃ s, Reaches (NearAudio.step rates 512) NearAudio.Allowed (NearAudio.start 8) s ∧ p s := by
  obtain ⟨s, t, hstart, hreach, hend⟩ := exists_reaches_of_follow h
  cases hstart
  exact ⟨t, hreach.mono fun s input h => of_decide_eq_true h, of_decide_eq_true hend⟩

theorem resampleNear_exact_up : ∃ s,
    Reaches (NearAudio.step threeToFive 512) NearAudio.Allowed (NearAudio.start 8) s ∧
      s.written.map SndFrame.left = [1, 1, 2, 2, 3] ∧ s.Exact threeToFive 512 := by
  have hrun : ∃ s, Reaches (NearAudio.step threeToFive 512) NearAudio.Allowed
      (NearAudio.start 8) s ∧ s.written.map SndFrame.left = [1, 1, 2, 2, 3] :=
    exists_reaches upRun (by decide +kernel)
  obtain ⟨s, hreach, hwritten⟩ := hrun
  exact ⟨s, hreach, hwritten, resampleNear_exact (by decide) (by decide) hreach⟩

/-- Two rates whose sum is no `int`. -/
def beyondInt : SampleRates :=
  ⟨1500000000, 1500000001, by decide, by decide, by decide, by decide⟩

/-- With the second frame written the remainder wraps around. -/
theorem resampleNear_overflows : ∃ s,
    Reaches (NearAudio.step beyondInt 512) NearAudio.Allowed (NearAudio.start 8) s ∧
      s.diff = -1294967296 ∧ ¬s.Exact beyondInt 512 := by
  have hrun : ∃ s, Reaches (NearAudio.step beyondInt 512) NearAudio.Allowed
      (NearAudio.start 8) s ∧ s.diff = -1294967296 :=
    exists_reaches (.batchSamples [⟨1, -1⟩] :: List.replicate 4 .proceed)
      (by decide +kernel)
  obtain ⟨s, hreach, hdiff⟩ := hrun
  refine ⟨s, hreach, hdiff, fun hexact => ?_⟩
  have hnonneg := hexact.diff_nonneg
  omega

end DarkUI
