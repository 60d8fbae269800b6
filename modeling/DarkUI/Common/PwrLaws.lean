import DarkUI.Common.Pwr
import DarkUI.Input.ReleaseLaws
import DarkUI.Input.Source

/-! # Power goes off only after a hold

`power_pressed_at` is set by a press and cleared by a sleep only, so it stands for a hold as long
as no release of POWER slips through while it is set.
-/

namespace DarkUI

open Run

/-! ## Since when POWER is down -/

namespace PadAction

instance (a : PadAction) (k : ButtonId) : Decidable (a.Releases k) :=
  match a with
  | .button id pressed => inferInstanceAs (Decidable (id = k ∧ pressed = false))
  | .hats states => inferInstanceAs (Decidable ((k, some false) ∈ states.turns))
  | .ignore | .trigger _ _ | .stick _ _ => .isFalse fun h => h

instance (a : PadAction) (k : ButtonId) : Decidable (a.Presses k) :=
  match a with
  | .button id pressed | .trigger id pressed =>
      inferInstanceAs (Decidable (id = k ∧ pressed = true))
  | .hats states => inferInstanceAs (Decidable ((k, some true) ∈ states.turns))
  | .ignore | .stick _ _ => .isFalse fun h => h

/-- Since when POWER is down, after one more event. -/
def holdSince (tick : BitVec 32) (since : Option (BitVec 32)) (a : PadAction) :
    Option (BitVec 32) :=
  if a.Releases .power then none
  else if a.Presses .power then some (since.getD tick)
  else since

end PadAction

/-- Since when POWER is down, after the events that a poll reads. -/
def heldSince (tick : BitVec 32) (since : Option (BitVec 32)) (actions : List PadAction) :
    Option (BitVec 32) :=
  actions.foldl (PadAction.holdSince tick) since

/-- One frame. A frame that skips `PWR_update` reads nothing for it. -/
structure PowerFrame where
  tick : BitVec 32
  actions : List PadAction
  lidChanged : Bool
  reads : Option PwrReads
  dirty : Bool
  showSetting : Nat
  /-- What was read from the queue during the sleep, if the frame slept. -/
  eaten : List PadAction
  /-- A menu that opens or closes resets the pad. -/
  resets : Bool

/-- The statics, the pad, the clock at the end of the frame before, and since when POWER is down. -/
structure PowerState where
  pwr : Pwr
  pad : Pad
  clock : BitVec 32
  since : Option (BitVec 32)

namespace PowerFrame

variable (f : PowerFrame) (s : PowerState)

def polled : Pad := (s.pad.during f.tick f.actions).setLid f.lidChanged

def since : Option (BitVec 32) := heldSince f.tick s.since f.actions

def updated (reads : PwrReads) : PwrUpdate :=
  s.pwr.update reads (f.polled s) f.dirty f.showSetting

end PowerFrame

namespace PowerState

variable (s : PowerState) (f : PowerFrame)

def start : PowerState := ⟨Pwr.initial, Pad.initial, 0, none⟩

def step : Option PowerState :=
  let reset := fun pad : Pad => if f.resets then pad.reset else pad
  match f.reads with
  | none => some ⟨s.pwr, reset (f.polled s), f.tick, f.since s⟩
  | some reads =>
      let u := f.updated s reads
      some
        { pwr := u.pwr
          pad := reset u.pad
          clock := if u.slept then reads.wokenAt else reads.now
          since := if u.slept then heldSince reads.wokenAt (f.since s) f.eaten else f.since s }

/-- The clock never goes back. -/
structure InOrder : Prop where
  tick : s.clock.toNat ≤ f.tick.toNat
  now : ∀ reads ∈ f.reads, f.tick.toNat ≤ reads.now.toNat
  woken : ∀ reads ∈ f.reads, reads.now.toNat ≤ reads.wokenAt.toNat

/-- If POWER is let go while `power_pressed_at` is set, `PWR_update` is called and does not find
the hold long enough. -/
def Notices : Prop :=
  (∃ a ∈ f.actions, a.Releases .power) →
    s.pwr.powerPressedAt = 0 ∨ ∃ reads ∈ f.reads, s.pwr.holdDue reads.now = false

/-- Where only the test of `power_pressed_at` calls `PWR_powerOff`, POWER has been down for a
second without any release. -/
def OffAfterHold : Prop :=
  ∀ reads ∈ f.reads, (f.updated s reads).powersOff = true →
    has (f.polled s).justReleased .poweroff = false →
      ∃ since, f.since s = some since ∧ since.toNat + 1000 ≤ reads.now.toNat

end PowerState

/-! ## What a poll says of POWER -/

namespace Pad

variable {p : Pad} {tick : BitVec 32} {a : PadAction} {actions : List PadAction} {k : ButtonId}

theorem act_justPressed_imp (h : has (act tick p a).justPressed k) :
    has p.justPressed k ∨ k ∈ a.buttons := by
  revert h
  apply act_induct (fun q : Pad => has q.justPressed k = true → has p.justPressed k ∨ k ∈ a.buttons)
  · intro q axis value hq
    rw [setStick_justPressed]
    exact hq
  · intro q id repeatAt hid _ hq h
    simp only [press, has_set, Bool.or_eq_true, decide_eq_true_eq] at h
    rcases h with h | rfl
    · exact hq h
    · exact Or.inr hid
  · intro q id _ hq
    exact hq
  · intro q neg pos _ _ _ hq
    have hcentre : ∀ (r : Pad) id, (r.recentreIfPressed id).justPressed = r.justPressed := by
      intro r id
      unfold recentreIfPressed
      split <;> rfl
    rw [hcentre, hcentre]
    exact hq
  · exact Or.inl

theorem act_justPressed_power (h : has (act tick p a).justPressed .power) :
    has p.justPressed .power ∨ a.Presses .power := by
  rcases act_justPressed_imp h with hbefore | hmem
  · exact Or.inl hbefore
  · cases a with
    | ignore => cases hmem
    | button id pressed =>
        obtain rfl := List.mem_singleton.mp hmem
        cases pressed with
        | true => exact Or.inr ⟨rfl, rfl⟩
        | false => exact Or.inl h
    | trigger id pressed =>
        obtain rfl := List.mem_singleton.mp hmem
        cases pressed with
        | true => exact Or.inr ⟨rfl, rfl⟩
        | false =>
            dsimp only [act] at h
            split at h
            · exact Or.inl h
            · exact Or.inl h
    | hats states =>
        simp only [PadAction.buttons, Hats.turns, List.mem_map, List.mem_filter] at hmem
        obtain ⟨hat, ⟨hmem, -⟩, hpower⟩ := hmem
        simp only [List.mem_cons, List.not_mem_nil, or_false] at hmem
        rcases hmem with rfl | rfl | rfl | rfl <;> cases hpower
    | stick axis value => cases axis <;> simp [PadAction.buttons, StickAxis.directions] at hmem

theorem during_justPressed_power (h : has (p.during tick actions).justPressed .power) :
    ∃ a ∈ actions, a.Presses .power := by
  induction actions using List.reverseRecOn with
  | nil =>
      rw [during, List.foldl_nil, (startPoll_started p tick).justPressed] at h
      simp at h
  | append_singleton rest a ih =>
      rw [during_concat] at h
      rcases act_justPressed_power h with hrest | hpresses
      · obtain ⟨other, hmem, hother⟩ := ih hrest
        exact ⟨other, List.mem_append_left _ hmem, hother⟩
      · exact ⟨a, by simp, hpresses⟩

theorem during_justReleased_of_mem (hmem : a ∈ actions) (h : a.Releases k) :
    has (p.during tick actions).justReleased k := by
  obtain ⟨before, after, rfl⟩ := List.append_of_mem hmem
  rw [← List.singleton_append, ← List.append_assoc]
  apply during_justReleased_mono
  rw [during_concat]
  exact act_justReleased_of_releases h

theorem setLid_justPressed (moved : Bool) : (p.setLid moved).justPressed = p.justPressed := by
  unfold setLid
  split <;> rfl

theorem setLid_justReleased {moved : Bool} (h : has p.justReleased k) :
    has (p.setLid moved).justReleased k := by
  unfold setLid
  split
  · simp [h]
  · exact h

end Pad

/-! ## The hold -/

section Hold

variable {tick : BitVec 32} {since : Option (BitVec 32)} {a : PadAction}
  {actions : List PadAction}

/-- A hold that goes on keeps its beginning, and one that begins does so now. -/
theorem holdSince_cases (a : PadAction) : a.holdSince tick since = none ∨
    a.holdSince tick since = since ∨ a.holdSince tick since = some tick := by
  unfold PadAction.holdSince
  split
  · exact Or.inl rfl
  · split
    · cases since with
      | none => exact Or.inr (Or.inr rfl)
      | some at' => exact Or.inr (Or.inl rfl)
    · exact Or.inr (Or.inl rfl)

theorem heldSince_le {bound : Nat} (htick : tick.toNat ≤ bound)
    (hsince : ∀ h ∈ since, h.toNat ≤ bound) :
    ∀ h ∈ heldSince tick since actions, h.toNat ≤ bound := by
  induction actions generalizing since with
  | nil => exact hsince
  | cons a rest ih =>
      apply ih
      intro h hh
      rcases @holdSince_cases tick since a with hnone | hsame | htick'
      · rw [hnone] at hh
        cases hh
      · rw [hsame] at hh
        exact hsince h hh
      · rw [htick'] at hh
        cases hh
        exact htick

theorem heldSince_some (hquiet : ∀ a ∈ actions, ¬ a.Releases .power) {h : BitVec 32} :
    heldSince tick (some h) actions = some h := by
  induction actions with
  | nil => rfl
  | cons a rest ih =>
      have hself : a.holdSince tick (some h) = some h := by
        unfold PadAction.holdSince
        rw [if_neg (hquiet a List.mem_cons_self)]
        split <;> rfl
      rw [heldSince, List.foldl_cons, hself]
      exact ih fun b hb => hquiet b (List.mem_cons_of_mem _ hb)

theorem heldSince_of_presses (hquiet : ∀ a ∈ actions, ¬ a.Releases .power)
    (hmem : a ∈ actions) (hpresses : a.Presses .power) :
    (heldSince tick since actions).isSome := by
  induction actions generalizing since with
  | nil => cases hmem
  | cons first rest ih =>
      have hrest : ∀ b ∈ rest, ¬ b.Releases .power :=
        fun b hb => hquiet b (List.mem_cons_of_mem _ hb)
      rcases List.mem_cons.mp hmem with rfl | hmem
      · have hself : a.holdSince tick since = some (since.getD tick) := by
          unfold PadAction.holdSince
          rw [if_neg (hquiet a List.mem_cons_self), if_pos hpresses]
        rw [heldSince, List.foldl_cons, hself]
        exact Option.isSome_iff_exists.mpr ⟨_, heldSince_some hrest⟩
      · exact ih hrest hmem

end Hold

/-! ## One call -/

namespace Pwr

variable {s : Pwr} {reads : PwrReads} {pad : Pad}

/-- The fields that decide when power goes off are the same. -/
structure SameHold (s s' : Pwr) : Prop where
  canSleep : s'.canSleep = s.canSleep
  powerPressedAt : s'.powerPressedAt = s.powerPressedAt

theorem noteInput_hold : SameHold s (s.noteInput reads pad) := by
  unfold noteInput
  dsimp only
  split <;> exact ⟨rfl, rfl⟩

theorem checkCharge_hold (dirty : Bool) : SameHold s (s.checkCharge reads dirty).2 := by
  unfold checkCharge
  split <;> exact ⟨rfl, rfl⟩

theorem keepAwake_hold : SameHold s (s.keepAwake reads) := by
  unfold keepAwake
  split <;> exact ⟨rfl, rfl⟩

theorem updateSetting_hold (now muted : BitVec 32) (dirty : Bool) (showSetting : Nat) :
    SameHold s (s.updateSetting pad now muted dirty showSetting).2.2 := by
  constructor <;> simp only [updateSetting] <;> repeat' split
  all_goals rfl

theorem SameHold.trans {s' s'' : Pwr} (h : SameHold s s') (h' : SameHold s' s'') :
    SameHold s s'' :=
  ⟨h'.canSleep.trans h.canSleep, h'.powerPressedAt.trans h.powerPressedAt⟩

/-- When a call powers off, when it sleeps, and what it makes of `power_pressed_at`. -/
structure Called (s : Pwr) (reads : PwrReads) (pad : Pad) (u : PwrUpdate) : Prop where
  powersOff : u.powersOff = (has pad.justReleased .poweroff || s.holdDue reads.now)
  slept : s.canSleep = true → has pad.justReleased .power → u.slept = true
  canSleep : u.pwr.canSleep = s.canSleep
  powerPressedAt : u.pwr.powerPressedAt =
    if u.slept then 0 else if has pad.justPressed .power then reads.now else s.powerPressedAt

theorem update_called (dirty : Bool) (showSetting : Nat) :
    Called s reads pad (s.update reads pad dirty showSetting) := by
  let checked := ((s.noteInput reads pad).checkCharge reads dirty).2
  let awake := (checked.notePower reads pad).keepAwake reads
  have hchecked : SameHold s checked := noteInput_hold.trans (checkCharge_hold dirty)
  have hawake : SameHold (checked.notePower reads pad) awake := keepAwake_hold
  have hcan : awake.canSleep = s.canSleep := by
    rw [hawake.canSleep, ← hchecked.canSleep]
    unfold notePower
    split <;> rfl
  have hpressed : awake.powerPressedAt =
      if has pad.justPressed .power then reads.now else s.powerPressedAt := by
    rw [hawake.powerPressedAt, ← hchecked.powerPressedAt]
    unfold notePower
    split <;> rfl
  have hoff : (s.update reads pad dirty showSetting).powersOff =
      (has pad.justReleased .poweroff || checked.holdDue reads.now) := rfl
  have hslept : (s.update reads pad dirty showSetting).slept = awake.sleeps reads pad := rfl
  have hpwr : (s.update reads pad dirty showSetting).pwr =
      ((if awake.sleeps reads pad then awake.wake reads else awake).updateSetting
        (if awake.sleeps reads pad then pad.reset else pad)
        (if awake.sleeps reads pad then reads.wokenAt else reads.now) reads.muted
        (((s.noteInput reads pad).checkCharge reads dirty).1 || awake.sleeps reads pad)
        showSetting).2.2 := rfl
  constructor
  · rw [hoff, holdDue, hchecked.powerPressedAt, holdDue]
  · intro hsleep hreleased
    rw [hslept, sleeps, hcan, hsleep, hreleased]
    simp
  · rw [hpwr, (updateSetting_hold _ reads.muted _ showSetting).canSleep, ← hcan]
    split <;> rfl
  · rw [hpwr, (updateSetting_hold _ reads.muted _ showSetting).powerPressedAt, hslept, ← hpressed]
    split <;> rfl

end Pwr

/-! ## Whole runs -/

namespace PowerState

variable {s t : PowerState} {f : PowerFrame}

/-- POWER is down without any release since before `power_pressed_at`. -/
structure Sound (s : PowerState) : Prop where
  canSleep : s.pwr.canSleep = true
  since_le : ∀ h ∈ s.since, h.toNat ≤ s.clock.toNat
  held : s.pwr.powerPressedAt ≠ 0 → ∃ h, s.since = some h ∧
    h.toNat ≤ s.pwr.powerPressedAt.toNat ∧ s.pwr.powerPressedAt.toNat ≤ s.clock.toNat

theorem start_sound : start.Sound where
  canSleep := rfl
  since_le h hh := by cases hh
  held h := absurd rfl h

theorem Sound.since_tick (h : s.Sound) (horder : s.InOrder f) :
    ∀ at' ∈ f.since s, at'.toNat ≤ f.tick.toNat := by
  apply heldSince_le (Nat.le_refl _)
  intro at' hat
  exact Nat.le_trans (h.since_le at' hat) horder.tick

/-- Without a release in between, a hold goes on. -/
theorem Sound.still_held (h : s.Sound) (hquiet : ∀ a ∈ f.actions, ¬ a.Releases .power)
    (hset : s.pwr.powerPressedAt ≠ 0) : ∃ at', f.since s = some at' ∧
      at'.toNat ≤ s.pwr.powerPressedAt.toNat ∧ s.pwr.powerPressedAt.toNat ≤ s.clock.toNat := by
  obtain ⟨at', hsince, hle, hclock⟩ := h.held hset
  refine ⟨at', ?_, hle, hclock⟩
  rw [PowerFrame.since, hsince]
  exact heldSince_some hquiet

theorem quiet_or_releases (f : PowerFrame) :
    (∀ a ∈ f.actions, ¬ a.Releases .power) ∨ ∃ a ∈ f.actions, a.Releases .power := by
  by_cases h : ∃ a ∈ f.actions, a.Releases .power
  · exact Or.inr h
  · exact Or.inl fun a ha hreleases => h ⟨a, ha, hreleases⟩

theorem released_polled {a : PadAction} (hmem : a ∈ f.actions) (h : a.Releases .power) :
    has (f.polled s).justReleased .power :=
  Pad.setLid_justReleased (Pad.during_justReleased_of_mem hmem h)

/-- A frame that calls `PWR_update`. -/
theorem Sound.step_update (h : s.Sound) {reads : PwrReads} (hreads : f.reads = some reads)
    (horder : s.InOrder f) (hstep : s.step f = some t) : t.Sound := by
  have hcalled := @Pwr.update_called s.pwr reads (f.polled s) f.dirty f.showSetting
  have hnow := horder.now reads hreads
  have hwoken := horder.woken reads hreads
  simp only [step, hreads] at hstep
  cases hstep
  -- a frame that slept clears the hold, any other one keeps or begins it
  cases hslept : (f.updated s reads).slept with
  | true =>
      constructor
      · exact hcalled.canSleep.trans h.canSleep
      · apply heldSince_le (Nat.le_refl _)
        intro at' hat
        have := h.since_tick horder at' hat
        exact Nat.le_trans this (Nat.le_trans hnow hwoken)
      · intro hset
        exact absurd (hcalled.powerPressedAt.trans (if_pos hslept)) hset
  | false =>
      have hquiet : ∀ a ∈ f.actions, ¬ a.Releases .power := by
        intro a hmem hreleases
        have := hcalled.slept h.canSleep (released_polled hmem hreleases)
        rw [PowerFrame.updated] at hslept
        rw [hslept] at this
        cases this
      have hpressedAt := hcalled.powerPressedAt.trans (if_neg (by
        rw [PowerFrame.updated] at hslept
        rw [hslept]
        decide))
      constructor
      · exact hcalled.canSleep.trans h.canSleep
      · intro at' hat
        exact Nat.le_trans (h.since_tick horder at' hat) hnow
      · intro hset
        simp only [Bool.false_eq_true, if_false]
        -- the hold begins with the press of this frame, or goes on
        split at hpressedAt
        next hedge =>
          rw [PowerFrame.polled, Pad.setLid_justPressed] at hedge
          obtain ⟨a, hmem, hpresses⟩ := Pad.during_justPressed_power hedge
          have hheld : (f.since s).isSome := heldSince_of_presses hquiet hmem hpresses
          obtain ⟨at', hat⟩ := Option.isSome_iff_exists.mp hheld
          have hle := h.since_tick horder at' hat
          refine ⟨at', hat, ?_, ?_⟩
          · exact (congrArg BitVec.toNat hpressedAt).symm ▸ Nat.le_trans hle hnow
          · exact Nat.le_of_eq (congrArg BitVec.toNat hpressedAt)
        next =>
          have hset' : s.pwr.powerPressedAt ≠ 0 := fun hzero => hset (hpressedAt.trans hzero)
          obtain ⟨at', hat, hle, hclock⟩ := h.still_held hquiet hset'
          refine ⟨at', hat, ?_, ?_⟩
          · exact (congrArg BitVec.toNat hpressedAt).symm ▸ hle
          · refine (congrArg BitVec.toNat hpressedAt).symm ▸ Nat.le_trans hclock ?_
            exact Nat.le_trans horder.tick hnow

/-- A frame that skips `PWR_update`. -/
theorem Sound.step_skip (h : s.Sound) (hreads : f.reads = none) (horder : s.InOrder f)
    (hnotices : s.Notices f) (hstep : s.step f = some t) : t.Sound := by
  simp only [step, hreads] at hstep
  cases hstep
  constructor
  · exact h.canSleep
  · exact h.since_tick horder
  · intro hset
    have hquiet : ∀ a ∈ f.actions, ¬ a.Releases .power := by
      rcases quiet_or_releases f with hquiet | hreleases
      · exact hquiet
      · rcases hnotices hreleases with hzero | ⟨reads, hmem, -⟩
        · exact absurd hzero hset
        · rw [hreads] at hmem
          cases hmem
    obtain ⟨at', hat, hle, hclock⟩ := h.still_held hquiet hset
    exact ⟨at', hat, hle, Nat.le_trans hclock horder.tick⟩

theorem Sound.step (h : s.Sound) (horder : s.InOrder f) (hnotices : s.Notices f)
    (hstep : s.step f = some t) : t.Sound := by
  cases hreads : f.reads with
  | none => exact h.step_skip hreads horder hnotices hstep
  | some reads => exact h.step_update hreads horder hstep

theorem Sound.offAfterHold (h : s.Sound) (horder : s.InOrder f) (hnotices : s.Notices f) :
    s.OffAfterHold f := by
  intro reads hreads hoff hpoweroff
  have hcalled := @Pwr.update_called s.pwr reads (f.polled s) f.dirty f.showSetting
  have hdue : s.pwr.holdDue reads.now = true := by
    have := hcalled.powersOff.symm.trans hoff
    rwa [hpoweroff, Bool.false_or] at this
  have hheld := hdue
  simp only [Pwr.holdDue, Bool.and_eq_true, bne_iff_ne, decide_eq_true_eq] at hheld
  obtain ⟨hset, hlong⟩ := hheld
  have hquiet : ∀ a ∈ f.actions, ¬ a.Releases .power := by
    rcases quiet_or_releases f with hquiet | hreleases
    · exact hquiet
    · rcases hnotices hreleases with hzero | ⟨other, hmem, hearly⟩
      · exact absurd hzero hset
      · rw [Option.mem_def.mp hreads] at hmem
        cases hmem
        rw [hdue] at hearly
        cases hearly
  obtain ⟨at', hat, hle, hclock⟩ := h.still_held hquiet hset
  refine ⟨at', hat, ?_⟩
  have hnow := horder.now reads hreads
  have htick := horder.tick
  bv_omega

/-- In every run in which no release of POWER slips through while `power_pressed_at` is set, power
goes off only after a hold of a second. -/
theorem power_off_after_hold
    (hreach : Reaches step (fun s f => s.InOrder f ∧ s.Notices f) start s)
    (horder : s.InOrder f) (hnotices : s.Notices f) : s.OffAfterHold f := by
  have hsound : s.Sound :=
    hreach.invariant start_sound fun hsound hallowed hstep =>
      hsound.step hallowed.1 hallowed.2 hstep
  exact hsound.offAfterHold horder hnotices

/-- A frame at which POWER gives these events; `updates` is whether it calls `PWR_update`. -/
def frameAt (now : BitVec 32) (actions : List PadAction) (updates : Bool) : PowerFrame where
  tick := now
  actions := actions
  lidChanged := false
  reads := if updates then some ⟨now, now, false, true, false, false, 0⟩ else none
  dirty := false
  showSetting := 0
  eaten := []
  resets := false

/-- POWER goes down. -/
def pressed : PowerFrame := frameAt 1000 [.button .power true] true

instance (s : PowerState) (f : PowerFrame) : Decidable (s.InOrder f) :=
  decidable_of_iff (s.clock.toNat ≤ f.tick.toNat ∧
      (∀ reads ∈ f.reads, f.tick.toNat ≤ reads.now.toNat) ∧
      ∀ reads ∈ f.reads, reads.now.toNat ≤ reads.wokenAt.toNat)
    ⟨fun h => ⟨h.1, h.2.1, h.2.2⟩, fun h => ⟨h.tick, h.now, h.woken⟩⟩

instance (s : PowerState) (f : PowerFrame) : Decidable (s.Notices f) :=
  inferInstanceAs (Decidable ((∃ a ∈ f.actions, a.Releases .power) →
    s.pwr.powerPressedAt = 0 ∨ ∃ reads ∈ f.reads, s.pwr.holdDue reads.now = false))

/-- POWER is held for a second, and power goes off. -/
theorem power_off_after_hold_second : ∃ s, s.OffAfterHold (frameAt 2000 [] true) ∧
    ∃ reads ∈ (frameAt 2000 [] true).reads,
      ((frameAt 2000 [] true).updated s reads).powersOff = true := by
  have hrun : ((some start).bind (follow step (fun s f => decide (s.InOrder f ∧ s.Notices f))
      [pressed])).any (fun s =>
        (s.InOrder (frameAt 2000 [] true) ∧ s.Notices (frameAt 2000 [] true)) ∧
        ∃ reads ∈ (frameAt 2000 [] true).reads,
          ((frameAt 2000 [] true).updated s reads).powersOff = true) = true := by
    decide +kernel
  obtain ⟨s₀, s, hstart, hreach, hs⟩ := exists_reaches_of_follow hrun
  obtain ⟨⟨horder, hnotices⟩, hoff⟩ := of_decide_eq_true hs
  cases hstart
  have hallowed := hreach.mono fun s f hpermit => of_decide_eq_true hpermit
  exact ⟨s, power_off_after_hold hallowed horder hnotices, hoff⟩

/-- POWER is tapped, and let go in a frame that binds a button; a second later power goes off. -/
theorem power_off_after_tap :
    ¬ ∀ s f, Reaches step InOrder start s → s.InOrder f → s.OffAfterHold f := by
  intro h
  have hrun : ((some start).bind (follow step (fun s f => decide (s.InOrder f))
      [pressed, frameAt 1100 [.button .power false] false])).any (fun s =>
        (s.InOrder (frameAt 2000 [] true) ∧ (frameAt 2000 [] true).since s = none ∧
          has ((frameAt 2000 [] true).polled s).justReleased .poweroff = false) ∧
        ∃ reads ∈ (frameAt 2000 [] true).reads,
          ((frameAt 2000 [] true).updated s reads).powersOff = true) = true := by
    decide +kernel
  obtain ⟨s₀, s, hstart, hreach, hs⟩ := exists_reaches_of_follow hrun
  obtain ⟨⟨horder, hfree, hpoweroff⟩, reads, hreads, hoff⟩ := of_decide_eq_true hs
  cases hstart
  have hallowed := hreach.mono fun s f hpermit => of_decide_eq_true hpermit
  obtain ⟨since, hsince, -⟩ := h s _ hallowed horder reads hreads hoff hpoweroff
  rw [hfree] at hsince
  cases hsince

end PowerState

end DarkUI
