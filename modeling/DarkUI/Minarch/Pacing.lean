import Mathlib.Data.Int.Init
import Mathlib.Tactic.Linarith

/-! # Limiting fast forward

After each frame of the core the limiter sleeps until the frame's time has come. A frame that
is late is made up for by the frames after it. The limit holds from the first frame of fast
forward on, unless the core needs less than a millisecond for its frames.
-/

namespace DarkUI.Minarch

/-- The static variables of `limitFF`; `last_max_speed` starts at a value no setting has. -/
structure Pacing where
  ffFrameTime : Nat
  lastTime : Nat
  lastMaxSpeed : Option Nat
  deriving DecidableEq, Repr

namespace Pacing

def initial : Pacing := ⟨0, 0, none⟩

/-- `period` gives the microseconds of a frame at each setting, from the core's rate. -/
def retime (period : Nat → Nat) (maxFfSpeed : Nat) (s : Pacing) : Pacing :=
  if s.lastMaxSpeed ≠ some maxFfSpeed then
    { s with lastMaxSpeed := some maxFfSpeed, ffFrameTime := period maxFfSpeed }
  else s

/-- The difference of two 64-bit times as an `int`. -/
def elapsed (now lastTime : Nat) : Int := ((now : Int) - lastTime).bmod (2 ^ 32)

/-- The milliseconds left of a frame's time. -/
def delay (ffFrameTime : Nat) (elapsed : Int) : Nat :=
  if elapsed < ffFrameTime then (ffFrameTime - elapsed.toNat) / 1000 else 0

/-- `limitFF` at the time `now`, with the milliseconds it sleeps. -/
def limitFF (period : Nat → Nat) (fastForward : Bool) (maxFfSpeed now : Nat) (s : Pacing) :
    Pacing × Nat :=
  if !fastForward || maxFfSpeed == 0 then
    -- reset pacing; re-primed on the first fast-forwarded frame
    ({ s with lastTime := 0 }, 0)
  else
    let timed := s.retime period maxFfSpeed
    let lastTime := if timed.lastTime = 0 then now else timed.lastTime
    let elapsed := elapsed now lastTime
    if 0 < elapsed ∧ elapsed < 0x80000 then
      let delay := delay timed.ffFrameTime elapsed
      -- don't allow a delay any greater than a frame
      ({ timed with lastTime := lastTime + timed.ffFrameTime }, if delay < 17 then delay else 0)
    else ({ timed with lastTime := now }, 0)

end Pacing

/-- A frame of the core: the settings the limiter finds after it, the microseconds from the last
return of the limiter to its call, and how much longer than asked a sleep lasts. -/
structure RunFrame where
  fastForward : Bool
  maxFfSpeed : Nat
  work : Nat
  oversleep : Nat
  deriving DecidableEq, Repr

/-- The limiter and the time of its last return. -/
structure Paced where
  pacing : Pacing
  now : Nat
  deriving DecidableEq, Repr

namespace RunFrame

/-- The limiter looks at the clock after this frame. -/
def Limited (frame : RunFrame) : Prop := frame.fastForward = true ∧ frame.maxFfSpeed ≠ 0

instance (frame : RunFrame) : Decidable frame.Limited := by
  unfold Limited
  infer_instance

end RunFrame

namespace Paced

variable (period : Nat → Nat)

def frame (s : Paced) (frame : RunFrame) : Paced :=
  let now := s.now + frame.work
  let (pacing, delay) := s.pacing.limitFF period frame.fastForward frame.maxFfSpeed now
  ⟨pacing, if delay = 0 then now else now + 1000 * delay + frame.oversleep⟩

def play (s : Paced) (frames : List RunFrame) : Paced := frames.foldl (frame period) s

end Paced

/-! ### One frame -/

/-- The time of a frame is the one of the setting last seen. -/
def Pacing.Timed (period : Nat → Nat) (s : Pacing) : Prop :=
  ∀ speed, s.lastMaxSpeed = some speed → s.ffFrameTime = period speed

namespace Pacing

variable {period : Nat → Nat} {s : Pacing} {fastForward : Bool} {maxFfSpeed now last : Nat}

theorem elapsed_pos (hlast : last ≤ now + 999) (h : 0 < elapsed now last) :
    last < now ∧ elapsed now last ≤ (now : Int) - last := by
  unfold elapsed at h ⊢
  by_cases hlt : last < now
  · refine ⟨hlt, ?_⟩
    rw [Int.bmod_def]
    split <;> omega
  · have hsmall : ((now : Int) - last).bmod (2 ^ 32) = now - last :=
      Int.bmod_eq_of_le (by omega) (by omega)
    omega

theorem elapsed_eq (hlt : last < now) (hnear : now < last + 0x80000) :
    elapsed now last = (now : Int) - last :=
  Int.bmod_eq_of_le (by omega) (by omega)

theorem delay_lt {ffFrameTime : Nat} {elapsed : Int} (hpos : 0 < elapsed)
    (hframe : ffFrameTime ≤ 17000) : delay ffFrameTime elapsed < 17 := by
  unfold delay
  split <;> omega

theorem delay_due {ffFrameTime : Nat} {elapsed : Int} (hpos : 0 < elapsed)
    (hle : elapsed ≤ (now : Int) - last) :
    last + ffFrameTime ≤ now + 1000 * delay ffFrameTime elapsed + 999 := by
  unfold delay
  split <;> omega

/-- A sleep ends no later than the frame's time. -/
theorem delay_le (ffFrameTime : Nat) (hlt : last < now) (hnear : now < last + 0x80000) :
    delay ffFrameTime (elapsed now last) = 0 ∨
      now + 1000 * delay ffFrameTime (elapsed now last) ≤ last + ffFrameTime := by
  rw [elapsed_eq hlt hnear]
  unfold delay
  split <;> omega

theorem retime_timed (h : s.Timed period) : (s.retime period maxFfSpeed).Timed period := by
  unfold retime
  split
  next =>
    intro speed hspeed
    cases hspeed
    rfl
  next => exact h

theorem retime_frameTime (h : s.Timed period) :
    (s.retime period maxFfSpeed).ffFrameTime = period maxFfSpeed := by
  unfold retime
  split
  next => rfl
  next hsame => exact h maxFfSpeed (not_not.mp hsame)

@[simp] theorem retime_lastTime : (s.retime period maxFfSpeed).lastTime = s.lastTime := by
  unfold retime
  split <;> rfl

end Pacing

/-- What the limiter does after a frame: it lets the frame's time pass, counted from the end of
the frame before, or it takes the clock as it is. -/
inductive Paced.Outcome (s : Paced) (period now oversleep : Nat) (t : Paced) : Prop
  | kept (hprimed : s.pacing.lastTime ≠ 0) (hlast : s.pacing.lastTime < now)
      (htime : t.pacing.lastTime = s.pacing.lastTime + period)
      (hnow : now ≤ t.now) (hdue : t.pacing.lastTime ≤ t.now + 999)
      (hsleep : now < s.pacing.lastTime + 0x80000 →
        t.now ≤ max now (t.pacing.lastTime + oversleep))
  | reset (hfar : s.pacing.lastTime = 0 ∨ now ≤ s.pacing.lastTime ∨
        s.pacing.lastTime + 0x80000 ≤ now)
      (htime : t.pacing.lastTime = now) (hnow : t.now = now)

namespace Paced

variable {period : Nat → Nat} {s t : Paced} {f : RunFrame}

theorem frame_timed (h : s.pacing.Timed period) : (s.frame period f).pacing.Timed period := by
  have htimed := @Pacing.retime_timed period s.pacing f.maxFfSpeed h
  unfold Paced.frame Pacing.limitFF
  dsimp only
  by_cases hgate : (!f.fastForward || f.maxFfSpeed == 0) = true
  · simp only [if_pos hgate]
    exact h
  · simp only [if_neg hgate]
    split_ifs <;> exact htimed

theorem frame_outcome (htimed : s.pacing.Timed period) (hlimited : f.Limited)
    (hperiod : period f.maxFfSpeed ≤ 17000) (hlast : s.pacing.lastTime ≤ s.now + 999) :
    s.Outcome (period f.maxFfSpeed) (s.now + f.work) f.oversleep (s.frame period f) := by
  have hgate : ¬((!f.fastForward || f.maxFfSpeed == 0) = true) := by
    simpa [RunFrame.Limited] using hlimited
  unfold Paced.frame Pacing.limitFF
  simp only [if_neg hgate, Pacing.retime_lastTime, Pacing.retime_frameTime htimed]
  by_cases hprimed : s.pacing.lastTime = 0
  · have hnone : Pacing.elapsed (s.now + f.work) (s.now + f.work) = 0 := by
      simp [Pacing.elapsed]
    simp only [if_pos hprimed, hnone, lt_irrefl, false_and, if_false, if_true]
    exact .reset (.inl hprimed) rfl rfl
  · simp only [if_neg hprimed]
    split
    next hnear =>
      obtain ⟨hlt, hle⟩ := Pacing.elapsed_pos (by omega) hnear.1
      have hdelay := Pacing.delay_lt hnear.1 hperiod
      have hdue := @Pacing.delay_due _ _ (period f.maxFfSpeed) _ hnear.1 hle
      simp only [if_pos hdelay]
      refine .kept hprimed hlt rfl ?_ ?_ ?_
      · dsimp only
        split <;> omega
      · dsimp only
        split <;> omega
      · intro hclose
        have hslept := Pacing.delay_le (period f.maxFfSpeed) hlt hclose
        dsimp only
        split
        next => exact le_max_left _ _
        next hsome => exact le_max_of_le_right (by omega)
    next hfar =>
      refine .reset (.inr ?_) rfl rfl
      by_contra hnear
      rw [not_or, Nat.not_le, Nat.not_le] at hnear
      have helapsed := Pacing.elapsed_eq hnear.1 hnear.2
      omega

theorem play_timed (h : s.pacing.Timed period) (frames : List RunFrame) :
    (s.play period frames).pacing.Timed period := by
  induction frames generalizing s with
  | nil => exact h
  | cons f rest ih => exact ih (frame_timed h)

/-! ### A stretch of fast forward -/

/-- The frames are limited, at settings whose frames the limiter can wait for. -/
def Waitable (period : Nat → Nat) (frames : List RunFrame) : Prop :=
  ∀ f ∈ frames, f.Limited ∧ period f.maxFfSpeed ≤ 17000

instance (period : Nat → Nat) (frames : List RunFrame) : Decidable (Waitable period frames) := by
  unfold Waitable
  infer_instance

/-- The first frame of a stretch takes the clock as it is. -/
theorem frame_first (htimed : s.pacing.Timed period) (hidle : s.pacing.lastTime = 0)
    (hlimited : f.Limited) (hperiod : period f.maxFfSpeed ≤ 17000) :
    (s.frame period f).pacing.lastTime = (s.frame period f).now := by
  cases frame_outcome htimed hlimited hperiod (by omega) with
  | kept hprimed => exact absurd hidle hprimed
  | reset hfar htime hnow => rw [htime, hnow]

/-- The times of the frames add up in `last_time`, which the clock is never far behind. -/
structure Due (s : Paced) (period : Nat → Nat) (base : Nat) : Prop where
  timed : s.pacing.Timed period
  primed : 0 < s.pacing.lastTime
  due : base ≤ s.pacing.lastTime
  near : s.pacing.lastTime ≤ s.now + 999

theorem Due.frame {base : Nat} (h : s.Due period base) (hlimited : f.Limited)
    (hperiod : period f.maxFfSpeed ≤ 17000) (hwork : 1000 ≤ f.work) :
    (s.frame period f).Due period (base + period f.maxFfSpeed) := by
  have hprimed := h.primed
  have hdue := h.due
  have hnear := h.near
  have htimed := frame_timed (f := f) h.timed
  cases frame_outcome h.timed hlimited hperiod h.near with
  | kept hkept hlast htime hnow hlate hsleep => exact ⟨htimed, by omega, by omega, hlate⟩
  | reset hfar htime hnow => exact ⟨htimed, by omega, by omega, by omega⟩

theorem Due.play {base : Nat} {frames : List RunFrame} (h : s.Due period base)
    (hwaitable : Waitable period frames) (hwork : ∀ f ∈ frames, 1000 ≤ f.work) :
    (s.play period frames).Due period
      (base + (frames.map fun f => period f.maxFfSpeed).sum) := by
  induction frames generalizing s base with
  | nil => simpa [Paced.play] using h
  | cons f rest ih =>
      obtain ⟨hlimited, hperiod⟩ := hwaitable f (List.mem_cons_self ..)
      have hfirst := h.frame hlimited hperiod (hwork f (List.mem_cons_self ..))
      have hrest := ih hfirst (fun f hf => hwaitable f (List.mem_cons_of_mem _ hf))
        fun f hf => hwork f (List.mem_cons_of_mem _ hf)
      rw [List.map_cons, List.sum_cons, ← Nat.add_assoc]
      exact hrest

/-- Nothing has been limited since the game began, or since the last frame at normal speed. -/
theorem idle_of_last {start : Paced} {before : List RunFrame} (hstart : start.pacing = .initial)
    (hlast : ∀ f ∈ before.getLast?, ¬f.Limited) :
    (start.play period before).pacing.lastTime = 0 := by
  rcases before.eq_nil_or_concat with rfl | ⟨rest, f, rfl⟩
  · exact congrArg Pacing.lastTime hstart
  · have hnormal : ¬f.Limited := hlast f (by simp)
    have hgate : (!f.fastForward || f.maxFfSpeed == 0) = true := by
      simpa [RunFrame.Limited, or_iff_not_imp_left] using hnormal
    simp only [Paced.play, List.concat_eq_append, List.foldl_append, List.foldl_cons,
      List.foldl_nil]
    unfold Paced.frame Pacing.limitFF
    simp only [if_pos hgate]

/-- The clock is ahead of the frames' times by no more than a sleep can overrun. -/
structure Prompt (s : Paced) (period : Nat → Nat) (slack bound : Nat) : Prop where
  timed : s.pacing.Timed period
  primed : 0 < s.pacing.lastTime
  near : s.pacing.lastTime ≤ s.now + 999
  prompt : s.now ≤ s.pacing.lastTime + slack
  due : s.pacing.lastTime ≤ bound

/-- The core leaves the limiter room in each frame for what a sleep can overrun. -/
def Roomy (period : Nat → Nat) (slack : Nat) (frames : List RunFrame) : Prop :=
  ∀ f ∈ frames, 0 < f.work ∧ f.work + slack ≤ period f.maxFfSpeed ∧ f.oversleep ≤ slack

instance (period : Nat → Nat) (slack : Nat) (frames : List RunFrame) :
    Decidable (Roomy period slack frames) := by
  unfold Roomy
  infer_instance

theorem Prompt.frame {slack bound : Nat} (h : s.Prompt period slack bound)
    (hlimited : f.Limited) (hperiod : period f.maxFfSpeed ≤ 17000) (hwork : 0 < f.work)
    (hroom : f.work + slack ≤ period f.maxFfSpeed) (hover : f.oversleep ≤ slack) :
    (s.frame period f).Prompt period slack (bound + period f.maxFfSpeed) := by
  obtain ⟨htimed, hprimed, hnear, hprompt, hdue⟩ := h
  have htimed' := frame_timed (f := f) htimed
  cases frame_outcome htimed hlimited hperiod hnear with
  | kept hkept hlast htime hnow hlate hsleep =>
      have hslept := hsleep (by omega)
      refine ⟨htimed', by omega, hlate, ?_, by omega⟩
      rcases le_max_iff.mp hslept with hawake | hslept <;> omega
  | reset hfar htime hnow => exact ⟨htimed', by omega, by omega, by omega, by omega⟩

theorem Prompt.play {slack bound : Nat} {frames : List RunFrame}
    (h : s.Prompt period slack bound) (hwaitable : Waitable period frames)
    (hroomy : Roomy period slack frames) :
    (s.play period frames).Prompt period slack
      (bound + (frames.map fun f => period f.maxFfSpeed).sum) := by
  induction frames generalizing s bound with
  | nil => simpa [Paced.play] using h
  | cons f rest ih =>
      obtain ⟨hlimited, hperiod⟩ := hwaitable f (List.mem_cons_self ..)
      obtain ⟨hwork, hroom, hover⟩ := hroomy f (List.mem_cons_self ..)
      have hfirst := h.frame hlimited hperiod hwork hroom hover
      have hrest := ih hfirst (fun f hf => hwaitable f (List.mem_cons_of_mem _ hf))
        fun f hf => hroomy f (List.mem_cons_of_mem _ hf)
      rw [List.map_cons, List.sum_cons, ← Nat.add_assoc]
      exact hrest

/-- The first frame of a stretch, after any others. -/
theorem play_first {start : Paced} {before : List RunFrame} {first : RunFrame}
    (hstart : start.pacing = .initial) (hlast : ∀ f ∈ before.getLast?, ¬f.Limited)
    (hlimited : first.Limited) (hperiod : period first.maxFfSpeed ≤ 17000)
    (hwork : 0 < first.work) :
    (start.play period (before ++ [first])).pacing.Timed period ∧
      (start.play period (before ++ [first])).pacing.lastTime =
        (start.play period (before ++ [first])).now ∧
      0 < (start.play period (before ++ [first])).now := by
  have hinitial : start.pacing.Timed period := by
    rw [hstart]
    exact nofun
  have htimed := play_timed hinitial before
  have hsplit : start.play period (before ++ [first]) =
      (start.play period before).frame period first := by
    simp [Paced.play, List.foldl_append]
  have hreturned : (start.play period before).now + first.work ≤
      ((start.play period before).frame period first).now := by
    unfold Paced.frame
    dsimp only
    split <;> omega
  rw [hsplit]
  refine ⟨frame_timed htimed, ?_, by omega⟩
  exact frame_first htimed (idle_of_last hstart hlast) hlimited hperiod

theorem play_append (s : Paced) (before : List RunFrame) (first : RunFrame)
    (rest : List RunFrame) :
    s.play period (before ++ first :: rest) =
      (s.play period (before ++ [first])).play period rest := by
  simp [Paced.play, List.foldl_append]

/-- From the first frame of fast forward on, the frames take at least the time their settings
give them, to a millisecond, if none needs less than a millisecond. -/
theorem fast_forward_limited {start : Paced} {before rest : List RunFrame} {first : RunFrame}
    (hstart : start.pacing = .initial) (hlast : ∀ f ∈ before.getLast?, ¬f.Limited)
    (hwaitable : Waitable period (first :: rest))
    (hwork : ∀ f ∈ first :: rest, 1000 ≤ f.work) :
    (start.play period (before ++ [first])).now +
        (rest.map fun f => period f.maxFfSpeed).sum ≤
      (start.play period (before ++ first :: rest)).now + 999 := by
  obtain ⟨hlimited, hperiod⟩ := hwaitable first (List.mem_cons_self ..)
  have hworked := hwork first (List.mem_cons_self ..)
  obtain ⟨htimed, htime, hpos⟩ := play_first hstart hlast hlimited hperiod (by omega)
  have hdue : (start.play period (before ++ [first])).Due period
      (start.play period (before ++ [first])).now :=
    ⟨htimed, by omega, by omega, by omega⟩
  have hrest := hdue.play (fun f hf => hwaitable f (List.mem_cons_of_mem _ hf))
    fun f hf => hwork f (List.mem_cons_of_mem _ hf)
  rw [play_append start before first rest]
  exact hrest.due.trans hrest.near

/-- Two frames at four times the speed, after one at normal speed. -/
def quickFrames : List RunFrame := [⟨true, 3, 1500, 0⟩, ⟨true, 3, 1500, 0⟩]

theorem fast_forward_limited_quick :
    ((⟨.initial, 5000⟩ : Paced).play (fun _ => 4000)
        ([⟨false, 3, 16000, 0⟩] ++ [⟨true, 3, 1500, 0⟩])).now +
        (quickFrames.map fun f => (fun _ => 4000) f.maxFfSpeed).sum ≤
      ((⟨.initial, 5000⟩ : Paced).play (fun _ => 4000)
        ([⟨false, 3, 16000, 0⟩] ++ ⟨true, 3, 1500, 0⟩ :: quickFrames)).now + 999 :=
  fast_forward_limited rfl (by decide) (by decide) (by decide)

/-- A core that leaves room in each frame runs no slower than asked, however long the sleeps
overrun within that room. -/
theorem fast_forward_kept_up {start : Paced} {before rest : List RunFrame} {first : RunFrame}
    {slack : Nat} (hstart : start.pacing = .initial)
    (hlast : ∀ f ∈ before.getLast?, ¬f.Limited) (hwaitable : Waitable period (first :: rest))
    (hroomy : Roomy period slack (first :: rest)) :
    (start.play period (before ++ first :: rest)).now ≤
      (start.play period (before ++ [first])).now +
        (rest.map fun f => period f.maxFfSpeed).sum + slack := by
  obtain ⟨hlimited, hperiod⟩ := hwaitable first (List.mem_cons_self ..)
  obtain ⟨hwork, hroom, hover⟩ := hroomy first (List.mem_cons_self ..)
  obtain ⟨htimed, htime, hpos⟩ := play_first hstart hlast hlimited hperiod hwork
  have hprompt : (start.play period (before ++ [first])).Prompt period slack
      (start.play period (before ++ [first])).now :=
    ⟨htimed, by omega, by omega, by omega, by omega⟩
  have hrest := hprompt.play (fun f hf => hwaitable f (List.mem_cons_of_mem _ hf))
    fun f hf => hroomy f (List.mem_cons_of_mem _ hf)
  have hend := hrest.prompt
  have hdue := hrest.due
  rw [play_append start before first rest]
  omega

theorem fast_forward_kept_up_quick :
    ((⟨.initial, 5000⟩ : Paced).play (fun _ => 4000)
        ([⟨false, 3, 16000, 0⟩] ++ ⟨true, 3, 1500, 0⟩ :: quickFrames)).now ≤
      ((⟨.initial, 5000⟩ : Paced).play (fun _ => 4000)
        ([⟨false, 3, 16000, 0⟩] ++ [⟨true, 3, 1500, 0⟩])).now +
        (quickFrames.map fun f => (fun _ => 4000) f.maxFfSpeed).sum + 2000 :=
  fast_forward_kept_up rfl (by decide) (by decide) (by decide)

/-- After `n` frames at one setting, `last_time` is half their time ahead of `base`, and half a
frame more when the clock may be behind it. -/
structure Halved (s : Paced) (period : Nat → Nat) (time base n : Nat) : Prop where
  timed : s.pacing.Timed period
  primed : 0 < s.pacing.lastTime
  near : s.pacing.lastTime ≤ s.now + 999
  due : s.pacing.lastTime ≤ s.now ∧ 2 * base + n * time ≤ 2 * s.pacing.lastTime + n * 998 ∨
    2 * base + n * time + time + 998 ≤ 2 * s.pacing.lastTime + n * 998

theorem Halved.frame {base n : Nat} (h : s.Halved period (period f.maxFfSpeed) base n)
    (hlimited : f.Limited) (hperiod : period f.maxFfSpeed ≤ 17000) (hwork : 0 < f.work) :
    (s.frame period f).Halved period (period f.maxFfSpeed) base (n + 1) := by
  obtain ⟨htimed, hprimed, hnear, hdue⟩ := h
  have htimed' := frame_timed (f := f) htimed
  have hsum := Nat.add_one_mul n (period f.maxFfSpeed)
  cases frame_outcome htimed hlimited hperiod hnear with
  | kept hkept hlast htime hnow hlate hsleep =>
      refine ⟨htimed', by omega, hlate, .inr ?_⟩
      rcases hdue with ⟨hbehind, hdue⟩ | hdue <;> omega
  | reset hfar htime hnow =>
      -- a frame is skipped by the limiter only after one it slept for
      refine ⟨htimed', by omega, by omega, .inl ⟨by omega, ?_⟩⟩
      rcases hdue with ⟨hbehind, hdue⟩ | hdue <;> omega

theorem Halved.play {speed base n : Nat} {frames : List RunFrame}
    (h : s.Halved period (period speed) base n) (hperiod : period speed ≤ 17000)
    (hframes : ∀ f ∈ frames, f.Limited ∧ f.maxFfSpeed = speed ∧ 0 < f.work) :
    (s.play period frames).Halved period (period speed) base (n + frames.length) := by
  induction frames generalizing s n with
  | nil => exact h
  | cons f rest ih =>
      obtain ⟨hlimited, hspeed, hwork⟩ := hframes f (List.mem_cons_self ..)
      subst hspeed
      have hrest := ih (h.frame hlimited hperiod hwork)
        fun f hf => hframes f (List.mem_cons_of_mem _ hf)
      rw [List.length_cons, Nat.add_comm rest.length, ← Nat.add_assoc]
      exact hrest

/-- Frames however short take about half the time their setting gives them: at worst every
other one goes by without a sleep. -/
theorem fast_forward_halved {start : Paced} {before rest : List RunFrame} {first : RunFrame}
    {speed : Nat} (hstart : start.pacing = .initial)
    (hlast : ∀ f ∈ before.getLast?, ¬f.Limited) (hlong : 1000 ≤ period speed)
    (hperiod : period speed ≤ 17000)
    (hframes : ∀ f ∈ first :: rest, f.Limited ∧ f.maxFfSpeed = speed ∧ 0 < f.work) :
    2 * (start.play period (before ++ [first])).now + rest.length * period speed ≤
      2 * (start.play period (before ++ first :: rest)).now + rest.length * 998 := by
  obtain ⟨hlimited, hspeed, hwork⟩ := hframes first (List.mem_cons_self ..)
  have hfirst : period first.maxFfSpeed ≤ 17000 := by
    rw [hspeed]
    exact hperiod
  obtain ⟨htimed, htime, hpos⟩ := play_first hstart hlast hlimited hfirst hwork
  have hhalved : (start.play period (before ++ [first])).Halved period (period speed)
      (start.play period (before ++ [first])).now 0 :=
    ⟨htimed, by omega, by omega, .inl ⟨by omega, by omega⟩⟩
  have hrest := hhalved.play hperiod fun f hf => hframes f (List.mem_cons_of_mem _ hf)
  have hnear := hrest.near
  have hdue := hrest.due
  rw [Nat.zero_add] at hdue
  rw [play_append start before first rest]
  rcases hdue with ⟨hbehind, hdue⟩ | hdue <;> omega

/-- Four frames of a tenth of a millisecond: only the second and the fourth are slept for. -/
def tinyFrames : List RunFrame :=
  [⟨true, 3, 100, 0⟩, ⟨true, 3, 100, 0⟩, ⟨true, 3, 100, 0⟩, ⟨true, 3, 100, 0⟩]

theorem fast_forward_halved_tiny :
    2 * ((⟨.initial, 5000⟩ : Paced).play (fun _ => 4000) ([] ++ [⟨true, 3, 100, 0⟩])).now +
        tinyFrames.length * 4000 ≤
      2 * ((⟨.initial, 5000⟩ : Paced).play (fun _ => 4000)
        ([] ++ ⟨true, 3, 100, 0⟩ :: tinyFrames)).now + tinyFrames.length * 998 :=
  @fast_forward_halved (fun _ => 4000) ⟨.initial, 5000⟩ [] tinyFrames ⟨true, 3, 100, 0⟩ 3 rfl
    (by decide) (by decide) (by decide) (by decide)

end Paced

end DarkUI.Minarch
