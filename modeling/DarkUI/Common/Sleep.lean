import DarkUI.Common.PwrLaws

/-! # Falling asleep and napping

A device falls asleep by itself only after half a minute without input, and then it does. A nap
on battery ends in a power-off after half an hour, or a minute after the charger was last seen.
-/

namespace DarkUI

open Run

namespace Pwr

variable {s : Pwr} {reads : PwrReads} {pad : Pad}

/-- What sets `last_input_at`: the charger, a button, and the very first call. -/
def active (s : Pwr) (reads : PwrReads) (pad : Pad) : Bool :=
  s.wasCharging.getD reads.isCharging || pad.isPressed != 0 || s.lastInputAt == 0

/-- The hardware or the player asks for a sleep. -/
def asked (s : Pwr) (reads : PwrReads) (pad : Pad) : Bool :=
  reads.requestedSleep || (s.canSleep && has pad.justReleased .power)

/-- `last_input_at` when autosleep is decided. -/
def idleFrom (s : Pwr) (reads : PwrReads) (pad : Pad) : BitVec 32 :=
  let noted := if s.active reads pad then reads.now else s.lastInputAt
  if reads.now - noted ≥ sleepDelay ∧ reads.preventAutosleep then reads.now else noted

/-- What one call does about autosleep. -/
structure Idled (s : Pwr) (reads : PwrReads) (pad : Pad) (u : PwrUpdate) : Prop where
  slept : u.slept =
    (decide (reads.now - s.idleFrom reads pad ≥ sleepDelay) || s.asked reads pad)
  lastInputAt : u.pwr.lastInputAt = if u.slept then reads.wokenAt else s.idleFrom reads pad

theorem checkCharge_lastInputAt (dirty : Bool) :
    (s.checkCharge reads dirty).2.lastInputAt = s.lastInputAt := by
  unfold checkCharge
  split <;> rfl

theorem updateSetting_lastInputAt (now muted : BitVec 32) (dirty : Bool) (showSetting : Nat) :
    (s.updateSetting pad now muted dirty showSetting).2.2.lastInputAt = s.lastInputAt := by
  simp only [updateSetting]
  repeat' split
  all_goals rfl

theorem noteInput_lastInputAt : (s.noteInput reads pad).lastInputAt =
    if s.active reads pad then reads.now else s.lastInputAt := by
  have hactive : (some (s.wasCharging.getD reads.isCharging) = some true ∨ pad.isPressed ≠ 0 ∨
      s.lastInputAt = 0) ↔ s.active reads pad = true := by
    simp [active, or_assoc]
  unfold noteInput
  simp only [hactive]
  split <;> rfl

theorem update_idled (dirty : Bool) (showSetting : Nat) :
    Idled s reads pad (s.update reads pad dirty showSetting) := by
  let checked := ((s.noteInput reads pad).checkCharge reads dirty).2
  let awake := (checked.notePower reads pad).keepAwake reads
  have hpower : (checked.notePower reads pad).lastInputAt =
      if s.active reads pad then reads.now else s.lastInputAt := by
    have hchecked : checked.lastInputAt = _ :=
      (checkCharge_lastInputAt dirty).trans noteInput_lastInputAt
    rw [← hchecked]
    unfold notePower
    split <;> rfl
  have hawake : awake.lastInputAt = s.idleFrom reads pad := by
    have hkeep : awake.lastInputAt =
        if reads.now - (checked.notePower reads pad).lastInputAt ≥ sleepDelay ∧
            reads.preventAutosleep then reads.now
        else (checked.notePower reads pad).lastInputAt := by
      unfold awake keepAwake
      split <;> rfl
    rw [hkeep, hpower]
    rfl
  have hcan : awake.canSleep = s.canSleep := by
    have hchecked : SameHold s checked := noteInput_hold.trans (checkCharge_hold dirty)
    have hpowered : (checked.notePower reads pad).canSleep = checked.canSleep := by
      unfold notePower
      split <;> rfl
    rw [keepAwake_hold.canSleep, hpowered, hchecked.canSleep]
  have hslept : (s.update reads pad dirty showSetting).slept = awake.sleeps reads pad := rfl
  have hpwr : (s.update reads pad dirty showSetting).pwr =
      ((if awake.sleeps reads pad then awake.wake reads else awake).updateSetting
        (if awake.sleeps reads pad then pad.reset else pad)
        (if awake.sleeps reads pad then reads.wokenAt else reads.now) reads.muted
        (((s.noteInput reads pad).checkCharge reads dirty).1 || awake.sleeps reads pad)
        showSetting).2.2 := rfl
  constructor
  · rw [hslept, sleeps, hawake, hcan, asked, Bool.or_assoc, ← Bool.or_assoc,
      Bool.or_comm reads.requestedSleep, Bool.or_assoc]
  · rw [hpwr, updateSetting_lastInputAt, hslept, ← hawake]
    split <;> rfl

theorem not_sleepDelay_le_self (now : BitVec 32) : ¬now - now ≥ sleepDelay := by
  rw [BitVec.sub_self]
  decide

/-- Without being asked, a call sleeps exactly when nothing has happened for the delay. -/
theorem Idled.slept_iff {u : PwrUpdate} (h : Idled s reads pad u)
    (hasked : s.asked reads pad = false) :
    u.slept = true ↔ s.active reads pad = false ∧ reads.preventAutosleep = false ∧
      reads.now - s.lastInputAt ≥ sleepDelay := by
  have hself := not_sleepDelay_le_self reads.now
  rw [h.slept, hasked, Bool.or_false, decide_eq_true_eq, idleFrom]
  cases s.active reads pad with
  | true => simp only [if_true, ite_self, hself, Bool.true_eq_false, false_and]
  | false =>
      cases reads.preventAutosleep with
      | true =>
          simp only [Bool.false_eq_true, if_false, and_true, Bool.true_eq_false, false_and,
            and_false, iff_false]
          split
          next => exact hself
          next hshort => exact hshort
      | false => simp only [Bool.false_eq_true, if_false, and_false, true_and]

end Pwr

/-! ## Autosleep over a run -/

/-- A run of frames, with the time at which input was last noticed and the time at which
anything last kept the device awake. -/
structure IdleState where
  power : PowerState
  input : Nat
  activity : Nat

namespace IdleState

def start : IdleState := ⟨PowerState.start, 0, 0⟩

/-- The charger is known to be there, or a button is down. -/
def noticed (s : Pwr) (reads : PwrReads) (pad : Pad) : Bool :=
  s.wasCharging.getD reads.isCharging || pad.isPressed != 0

/-- Input is noticed, or autosleep is prevented. -/
def kept (s : Pwr) (reads : PwrReads) (pad : Pad) : Bool :=
  s.active reads pad || reads.preventAutosleep

def step (s : IdleState) (f : PowerFrame) : Option IdleState :=
  (s.power.step f).map fun power =>
    match f.reads with
    | none => ⟨power, s.input, s.activity⟩
    | some reads =>
        let pad := f.polled s.power
        if (f.updated s.power reads).slept then ⟨power, reads.wokenAt.toNat, reads.wokenAt.toNat⟩
        else
          { power := power
            input := if noticed s.power.pwr reads pad then reads.now.toNat else s.input
            activity := if kept s.power.pwr reads pad then reads.now.toNat else s.activity }

/-- The call takes note of the time, or it saw no input. -/
theorem idleFrom_cases (s : Pwr) (reads : PwrReads) (pad : Pad) :
    s.idleFrom reads pad = reads.now ∧ kept s reads pad = true ∨
      s.idleFrom reads pad = s.lastInputAt ∧ noticed s reads pad = false := by
  unfold Pwr.idleFrom kept
  cases hactive : s.active reads pad with
  | true => exact .inl ⟨by simp only [if_true, ite_self], rfl⟩
  | false =>
      have hnoticed : noticed s reads pad = false := by
        have hparts := hactive
        unfold Pwr.active at hparts
        exact (Bool.or_eq_false_iff.mp hparts).1
      by_cases hprevent : reads.now - s.lastInputAt ≥ sleepDelay ∧ reads.preventAutosleep = true
      · exact .inl ⟨by simp only [Bool.false_eq_true, if_false, if_pos hprevent], hprevent.2⟩
      · exact .inr ⟨by simp only [Bool.false_eq_true, if_false, if_neg hprevent], hnoticed⟩

/-- `last_input_at` lies between the two times. -/
structure Bounded (s : IdleState) : Prop where
  input : s.input ≤ s.power.pwr.lastInputAt.toNat
  activity : s.power.pwr.lastInputAt.toNat ≤ s.activity
  clock : s.activity ≤ s.power.clock.toNat

variable {s t : IdleState} {f : PowerFrame}

theorem Bounded.step (h : s.Bounded) (horder : s.power.InOrder f) (hstep : s.step f = some t) :
    t.Bounded := by
  obtain ⟨hinput, hactivity, hclock⟩ := h
  have htick := horder.tick
  cases hreads : f.reads with
  | none =>
      simp only [IdleState.step, PowerState.step, hreads, Option.map_some] at hstep
      cases hstep
      exact ⟨hinput, hactivity, hclock.trans htick⟩
  | some reads =>
      have hnow := horder.now reads hreads
      have hlast := (@Pwr.update_idled s.power.pwr reads (f.polled s.power) f.dirty
        f.showSetting).lastInputAt
      rw [show s.power.pwr.update reads (f.polled s.power) f.dirty f.showSetting =
        f.updated s.power reads from rfl] at hlast
      simp only [IdleState.step, PowerState.step, hreads, Option.map_some] at hstep
      cases hslept : (f.updated s.power reads).slept with
      | true =>
          simp only [hslept, if_true] at hstep hlast
          cases hstep
          exact ⟨by rw [hlast], by rw [hlast], le_refl _⟩
      | false =>
          simp only [hslept, Bool.false_eq_true, if_false] at hstep hlast
          cases hstep
          rcases idleFrom_cases s.power.pwr reads (f.polled s.power) with
            ⟨hfrom, hkept⟩ | ⟨hfrom, hquiet⟩
          · rw [hfrom] at hlast
            constructor
            · rw [hlast]
              dsimp only
              split <;> omega
            · rw [hlast]
              simp only [hkept, if_true, le_refl]
            · simp only [hkept, if_true, le_refl]
          · rw [hfrom] at hlast
            constructor
            · rw [hlast]
              simp only [hquiet, Bool.false_eq_true, if_false]
              exact hinput
            · rw [hlast]
              dsimp only
              split <;> omega
            · dsimp only
              split <;> omega

theorem bounded_start : start.Bounded := ⟨le_refl _, le_refl _, le_refl _⟩

/-- Unless it is asked to, the device sleeps only half a minute after the last input and with
nothing to prevent it, and if nothing has kept it awake for half a minute it sleeps. -/
theorem autosleep_after_idle
    (hreach : Reaches step (fun s f => s.power.InOrder f) start s) (horder : s.power.InOrder f)
    {reads : PwrReads} (hreads : f.reads = some reads)
    (hasked : s.power.pwr.asked reads (f.polled s.power) = false) :
    ((f.updated s.power reads).slept = true →
      s.input + 30000 ≤ reads.now.toNat ∧ noticed s.power.pwr reads (f.polled s.power) = false ∧
        reads.preventAutosleep = false) ∧
    (s.activity + 30000 ≤ reads.now.toNat → kept s.power.pwr reads (f.polled s.power) = false →
      (f.updated s.power reads).slept = true) := by
  obtain ⟨hinput, hactivity, hclock⟩ : s.Bounded :=
    hreach.invariant bounded_start fun h hallowed hstep => h.step hallowed hstep
  have htick := horder.tick
  have hnow := horder.now reads hreads
  have hiff := (@Pwr.update_idled s.power.pwr reads (f.polled s.power) f.dirty
    f.showSetting).slept_iff hasked
  rw [show s.power.pwr.update reads (f.polled s.power) f.dirty f.showSetting =
    f.updated s.power reads from rfl] at hiff
  have hdelay : reads.now - s.power.pwr.lastInputAt ≥ sleepDelay ↔
      s.power.pwr.lastInputAt.toNat + 30000 ≤ reads.now.toNat := by
    unfold sleepDelay
    bv_omega
  rw [hdelay] at hiff
  constructor
  · intro hslept
    obtain ⟨hactive, hprevent, hlong⟩ := hiff.mp hslept
    refine ⟨by omega, ?_, hprevent⟩
    unfold Pwr.active at hactive
    exact (Bool.or_eq_false_iff.mp hactive).1
  · intro hlong hkept
    obtain ⟨hactive, hprevent⟩ := Bool.or_eq_false_iff.mp hkept
    exact hiff.mpr ⟨hactive, hprevent, by omega⟩

/-- A quiet half minute after a button. -/
theorem autosleep_after_idle_quiet : ∃ s : IdleState,
    (((PowerState.frameAt 40000 [] true).updated s.power
        ⟨40000, 40000, false, true, false, false, 0⟩).slept = true →
      s.input + 30000 ≤ 40000 ∧
        noticed s.power.pwr ⟨40000, 40000, false, true, false, false, 0⟩
          ((PowerState.frameAt 40000 [] true).polled s.power) = false ∧
        PwrReads.preventAutosleep ⟨40000, 40000, false, true, false, false, 0⟩ = false) ∧
    ((PowerState.frameAt 40000 [] true).updated s.power
      ⟨40000, 40000, false, true, false, false, 0⟩).slept = true := by
  have hrun : ((some start).bind (follow step (fun s f => decide (s.power.InOrder f))
      [PowerState.frameAt 1000 [.button .a true, .button .a false] true])).any
        (fun s => s.power.InOrder (PowerState.frameAt 40000 [] true) ∧
          s.power.pwr.asked ⟨40000, 40000, false, true, false, false, 0⟩
            ((PowerState.frameAt 40000 [] true).polled s.power) = false ∧
          ((PowerState.frameAt 40000 [] true).updated s.power
            ⟨40000, 40000, false, true, false, false, 0⟩).slept = true) = true := by
    decide +kernel
  obtain ⟨s₀, s, hstart, hreach, hs⟩ := exists_reaches_of_follow hrun
  obtain ⟨horder, hasked, hslept⟩ := of_decide_eq_true hs
  cases hstart
  have hallowed := hreach.mono fun s f hpermit => of_decide_eq_true hpermit
  exact ⟨s, (autosleep_after_idle hallowed horder rfl hasked).1, hslept⟩

end IdleState

/-! ## Naps -/

/-- `SLEEP_POWEROFF_DELAY` -/
def sleepPoweroffDelay : BitVec 32 := 1800000

/-- One turn of the loop in `PWR_waitForWake`: whether it ends by `PAD_wake` or by the hardware,
and what it finds after its delay. -/
structure NapTurn where
  wakes : Bool
  requestedWake : Bool
  now : BitVec 32
  isCharging : Bool
  deriving DecidableEq, Repr

inductive NapEnd
  | woken
  | poweredOff (now : BitVec 32)
  | asleep (sleepTicks : BitVec 32)
  deriving DecidableEq, Repr

/-- `PWR_waitForWake`; a power-off does not return. -/
def waitForWake (canPoweroff : Bool) (sleepTicks : BitVec 32) : List NapTurn → NapEnd
  | [] => .asleep sleepTicks
  | turn :: rest =>
      if turn.wakes || turn.requestedWake then .woken
      else if canPoweroff && decide (turn.now - sleepTicks ≥ sleepPoweroffDelay) then
        -- check again in a minute
        if turn.isCharging then waitForWake canPoweroff (sleepTicks + 60000) rest
        else .poweredOff turn.now
      else waitForWake canPoweroff sleepTicks rest

/-- The clock never goes back during the nap. -/
def NapInOrder : Nat → List NapTurn → Prop
  | _, [] => True
  | clock, turn :: rest => clock ≤ turn.now.toNat ∧ NapInOrder turn.now.toNat rest

/-- The charger was seen within the minute before. -/
def ChargedWithin (turns : List NapTurn) (now : BitVec 32) : Prop :=
  ∃ turn ∈ turns, turn.isCharging = true ∧ now.toNat < turn.now.toNat + 60000

variable {sleepTicks now : BitVec 32} {turns before after : List NapTurn} {turn : NapTurn}

/-- A nap ends in a power-off only on battery and after half an hour. -/
theorem waitForWake_poweredOff {clock : Nat} (horder : NapInOrder clock turns)
    (hticks : sleepTicks.toNat ≤ clock)
    (h : waitForWake true sleepTicks turns = .poweredOff now) :
    sleepTicks.toNat + 1800000 ≤ now.toNat ∧
      ∃ turn ∈ turns, turn.now = now ∧ turn.isCharging = false := by
  induction turns generalizing sleepTicks clock with
  | nil => cases h
  | cons turn rest ih =>
      obtain ⟨hnow, hrest⟩ := horder
      have hdelay : turn.now - sleepTicks ≥ sleepPoweroffDelay ↔
          sleepTicks.toNat + 1800000 ≤ turn.now.toNat := by
        unfold sleepPoweroffDelay
        bv_omega
      unfold waitForWake at h
      simp only [Bool.true_and, hdelay] at h
      split at h
      next => cases h
      next =>
        split at h
        next hlong =>
          have hlong' := of_decide_eq_true hlong
          split at h
          next hcharging =>
            have hadd : (sleepTicks + 60000).toNat = sleepTicks.toNat + 60000 := by bv_omega
            obtain ⟨hle, found, hmem, hfound⟩ := ih hrest (by omega) h
            exact ⟨by omega, found, List.mem_cons_of_mem _ hmem, hfound⟩
          next hbattery =>
            cases h
            exact ⟨hlong', turn, List.mem_cons_self .., rfl, Bool.eq_false_iff.mpr hbattery⟩
        next hshort =>
          obtain ⟨hle, found, hmem, hfound⟩ := ih hrest (by omega) h
          exact ⟨hle, found, List.mem_cons_of_mem _ hmem, hfound⟩

/-- A nap that goes on has been shorter than half an hour at every turn on battery, or the
charger was there less than a minute before. -/
theorem waitForWake_asleep {clock : Nat} {left : BitVec 32} (horder : NapInOrder clock turns)
    (hticks : sleepTicks.toNat ≤ clock) (h : waitForWake true sleepTicks turns = .asleep left)
    (hturns : turns = before ++ turn :: after) (hbattery : turn.isCharging = false) :
    turn.now.toNat < sleepTicks.toNat + 1800000 ∨ ChargedWithin before turn.now := by
  induction turns generalizing sleepTicks clock before with
  | nil => simp at hturns
  | cons first rest ih =>
      obtain ⟨hnow, hrest⟩ := horder
      have hdelay : first.now - sleepTicks ≥ sleepPoweroffDelay ↔
          sleepTicks.toNat + 1800000 ≤ first.now.toNat := by
        unfold sleepPoweroffDelay
        bv_omega
      unfold waitForWake at h
      simp only [Bool.true_and, hdelay] at h
      split at h
      next => cases h
      next =>
        cases before with
        | nil =>
            obtain ⟨rfl, rfl⟩ := List.cons.inj hturns
            split at h
            next =>
              rw [hbattery] at h
              cases h
            next hshort => exact .inl (Nat.lt_of_not_le fun hlong => hshort (decide_eq_true hlong))
        | cons head more =>
            obtain ⟨rfl, hmore⟩ := List.cons.inj hturns
            have hwider : ∀ {now}, ChargedWithin more now → ChargedWithin (first :: more) now := by
              rintro now ⟨found, hmem, hfound⟩
              exact ⟨found, List.mem_cons_of_mem _ hmem, hfound⟩
            split at h
            next hlong =>
              have hlong' := of_decide_eq_true hlong
              split at h
              next hcharging =>
                have hadd : (sleepTicks + 60000).toNat = sleepTicks.toNat + 60000 := by bv_omega
                rcases ih hrest (by omega) h hmore with hearly | hcharged
                · exact .inr ⟨first, List.mem_cons_self .., hcharging, by omega⟩
                · exact .inr (hwider hcharged)
              next => cases h
            next hshort =>
              rcases ih hrest (by omega) h hmore with hearly | hcharged
              · exact .inl hearly
              · exact .inr (hwider hcharged)

/-- On battery a nap ends in a power-off, and no sooner than after half an hour: at every turn
without the charger it either powers off, or the nap has been shorter, or the charger was there
less than a minute before. -/
theorem nap_ends {clock : Nat} (horder : NapInOrder clock turns)
    (hticks : sleepTicks.toNat ≤ clock) :
    (∀ now, waitForWake true sleepTicks turns = .poweredOff now →
      sleepTicks.toNat + 1800000 ≤ now.toNat ∧
        ∃ turn ∈ turns, turn.now = now ∧ turn.isCharging = false) ∧
    (∀ left, waitForWake true sleepTicks turns = .asleep left →
      ∀ before turn after, turns = before ++ turn :: after → turn.isCharging = false →
        turn.now.toNat < sleepTicks.toNat + 1800000 ∨ ChargedWithin before turn.now) :=
  ⟨fun _ h => waitForWake_poweredOff horder hticks h,
    fun _ h _ _ _ hturns hbattery => waitForWake_asleep horder hticks h hturns hbattery⟩

/-- The charger is pulled out after half an hour. -/
theorem nap_ends_unplugged :
    let turns : List NapTurn :=
      [⟨false, false, 1820000, true⟩, ⟨false, false, 1850000, false⟩,
        ⟨false, false, 1870000, false⟩]
    waitForWake true 0 turns = .poweredOff 1870000 ∧
      (∀ now, waitForWake true 0 turns = .poweredOff now → 0 + 1800000 ≤ now.toNat ∧
        ∃ turn ∈ turns, turn.now = now ∧ turn.isCharging = false) ∧
      ∀ left, waitForWake true 0 turns = .asleep left →
        ∀ before turn after, turns = before ++ turn :: after → turn.isCharging = false →
          turn.now.toNat < 0 + 1800000 ∨ ChargedWithin before turn.now := by
  intro turns
  have horder : NapInOrder 0 turns := by
    refine ⟨?_, ?_, ?_, trivial⟩ <;> decide
  have hends := @nap_ends 0 turns 0 horder (by decide)
  exact ⟨by decide, hends.1, hends.2⟩

end DarkUI
