import DarkUI.Minarch.FastForwardLaws

/-! # Threaded video and its option

Fast forward, POWER, the option and the main loop each change the flags of threaded video, and
what they leave for one another is a request to toggle, not a mode to reach.
-/

namespace DarkUI.Minarch

open Run

/-- What the actors do to the flags. A release of POWER goes unseen when it falls in the poll of
its press, or when the pad is reset while POWER is held. -/
inductive VideoInput
  | fastForward (enable : Bool)
  | powerDown
  | powerUp (seen : Bool)
  | option (value : Bool)
  | mainLoop
  deriving DecidableEq, Repr

namespace Threading

def apply (flags : Threading) : VideoInput → Threading
  | .fastForward enable => flags.setFastForward enable
  | .powerDown => flags.powerPressed
  | .powerUp seen => if seen then flags.powerReleased else flags
  | .option value => flags.syncOption value
  | .mainLoop => flags.handleToggle

/-- Fast forward or POWER has asked for the core to leave its thread, and it is still on it. -/
def LeavePending (flags : Threading) : Prop :=
  flags.toggleThread ∧ flags.threadVideo ∧ flags.wasThreaded

/-- The option was turned off, and the core is still on its thread. -/
def OffPending (flags : Threading) : Prop :=
  flags.toggleThread ∧ flags.threadVideo ∧ ¬flags.wasThreaded

/-- The option was turned off while the core was off its thread for fast forward or POWER. -/
def DropPending (flags : Threading) : Prop :=
  flags.toggleThread ∧ ¬flags.threadVideo ∧ flags.wasThreaded

instance (flags : Threading) : Decidable flags.LeavePending := by
  unfold LeavePending
  infer_instance

instance (flags : Threading) : Decidable flags.OffPending := by
  unfold OffPending
  infer_instance

instance (flags : Threading) : Decidable flags.DropPending := by
  unfold DropPending
  infer_instance

end Threading

/-- The POWER edge a call of the callback acts on. -/
def powerInputs (pad : Pad) : List VideoInput :=
  if has pad.justPressed .power then [.powerDown]
  else if has pad.justReleased .power then [.powerUp true]
  else []

/-- A call of the callback acts on the flags as POWER and fast forward do, in this order. -/
theorem inputPollCallback_inputs (s : Frontend) (pad : Pad) :
    (s.inputPollCallback pad).threading =
      (powerInputs pad ++ (s.ffRequest pad).toList.map VideoInput.fastForward).foldl
        Threading.apply s.threading := by
  have hpower : (powerInputs pad).foldl Threading.apply s.threading =
      (Frontend.powerEdge pad s).threading := by
    unfold powerInputs Frontend.powerEdge
    split_ifs <;> rfl
  rw [List.foldl_append, hpower, (Frontend.inputPollCallback_spec s pad).1]
  cases s.ffRequest pad <;> rfl

/-- A visit to the menu acts on the flags as its changes of the option do. -/
theorem visitMenu_inputs {source : PadSource} (s : Play source) (polls : List source.Poll)
    (options : List Bool) (shortcuts : Shortcut → Binding) (controls : List Binding)
    (hshow : s.frontend.showMenu = true) :
    (s.visitMenu polls options shortcuts controls).frontend.threading =
      (options.map VideoInput.option).foldl Threading.apply s.frontend.threading := by
  simp only [Play.visitMenu, hshow, if_true, List.foldl_map, Threading.apply]

/-- The flags, and whether POWER is held. -/
structure Video where
  flags : Threading
  powerHeld : Bool
  deriving DecidableEq, Repr

namespace Video

def initial : Video := ⟨Threading.initial, false⟩

def step (s : Video) (input : VideoInput) : Option Video :=
  some
    { flags := s.flags.apply input
      powerHeld :=
        match input with
        | .powerDown => true
        | .powerUp _ => false
        | _ => s.powerHeld }

/-- At rest, the core is on its thread exactly when the option says so. -/
def Follows (s : Video) : Prop :=
  s.flags.toggleThread = false → s.flags.fastForward = false → s.powerHeld = false →
    s.flags.threadVideo = s.flags.option ∧ s.flags.wasThreaded = false

instance (s : Video) : Decidable s.Follows := by
  unfold Follows
  infer_instance

/-- No actor takes back, cancels or doubles a toggle that the main loop has not handled. -/
def Patient (s : Video) : VideoInput → Prop
  | .fastForward true => s.flags.fastForward = false → ¬s.flags.OffPending
  | .fastForward false =>
      s.flags.fastForward = true →
        ¬s.flags.DropPending ∧ (s.flags.LeavePending → s.powerHeld = true)
  | .powerDown => ¬s.flags.OffPending
  | .powerUp true =>
      ¬s.flags.DropPending ∧ (s.flags.LeavePending → s.flags.fastForward = true)
  | .powerUp false => s.flags.wasThreaded = true → s.flags.fastForward = true
  | .option _ => ¬s.flags.LeavePending
  | .mainLoop => True

instance (s : Video) (input : VideoInput) : Decidable (s.Patient input) := by
  cases input with
  | fastForward enable => cases enable <;> unfold Patient <;> infer_instance
  | powerUp seen => cases seen <;> unfold Patient <;> infer_instance
  | _ => unfold Patient; infer_instance

/-- Once the pending toggle is handled, the core is on its thread, or off it for fast forward or
POWER, exactly when the option is on. -/
structure Sound (s : Video) : Prop where
  reason : s.flags.wasThreaded → s.flags.fastForward ∨ s.powerHeld
  wanted : (s.flags.handleToggle.threadVideo || s.flags.handleToggle.wasThreaded) = s.flags.option
  apart : ¬(s.flags.handleToggle.threadVideo ∧ s.flags.handleToggle.wasThreaded)

instance (s : Video) : Decidable s.Sound :=
  decidable_of_iff
    ((s.flags.wasThreaded → s.flags.fastForward ∨ s.powerHeld) ∧
      (s.flags.handleToggle.threadVideo || s.flags.handleToggle.wasThreaded) = s.flags.option ∧
      ¬(s.flags.handleToggle.threadVideo ∧ s.flags.handleToggle.wasThreaded))
    ⟨fun h => ⟨h.1, h.2.1, h.2.2⟩, fun h => ⟨h.reason, h.wanted, h.apart⟩⟩

variable {s t : Video} {input : VideoInput}

theorem Sound.follows (h : s.Sound) : s.Follows := by
  intro htoggle hff hpower
  have hwas : s.flags.wasThreaded = false := by
    rw [Bool.eq_false_iff]
    intro hwas
    rcases h.reason hwas with h | h <;> simp_all
  have hwanted := h.wanted
  simp only [Threading.handleToggle, htoggle, hwas] at hwanted
  exact ⟨by simpa [hwas] using hwanted, hwas⟩

theorem Sound.step (h : s.Sound) (hpatient : s.Patient input) (hstep : s.step input = some t) :
    t.Sound := by
  cases hstep
  revert h hpatient
  -- six flags and an actor: each case of the actor is a finite check of the flags
  obtain ⟨⟨threadVideo, wasThreaded, toggleThread, fastForward, option⟩, powerHeld⟩ := s
  revert threadVideo wasThreaded toggleThread fastForward option powerHeld
  cases input with
  | fastForward enable => cases enable <;> decide
  | powerDown => decide
  | powerUp seen => cases seen <;> decide
  | option value => cases value <;> decide
  | mainLoop => decide

theorem initial_sound : initial.Sound := by
  decide

/-- Fast forward and POWER are let go, with the main loop turning before and after. -/
def settle : List VideoInput := [.mainLoop, .fastForward false, .powerUp true, .mainLoop]

/-- The state after the inputs. -/
def run (s : Video) (inputs : List VideoInput) : Video :=
  inputs.foldl (fun s input => (s.step input).getD s) s

theorem reaches_run (s : Video) (inputs : List VideoInput) :
    Reaches step (fun _ _ => True) s (s.run inputs) := by
  induction inputs generalizing s with
  | nil => exact .refl
  | cons input rest ih =>
      have hfirst : Reaches step (fun _ _ => True) s ((s.step input).getD s) :=
        .tail .refl trivial rfl
      exact hfirst.trans (ih _)

/-- A step that is not patient loses the option: at once, when everything is let go, or when it
is turned back on. -/
theorem Sound.lost (h : s.Sound) (himpatient : ¬s.Patient input) (hstep : s.step input = some t) :
    ∃ u, Reaches Video.step (fun _ _ => True) t u ∧ ¬u.Follows := by
  have hcases : ¬t.Follows ∨ ¬(t.run [.mainLoop]).Follows ∨ ¬(t.run settle).Follows ∨
      ¬(t.run [.option true]).Follows := by
    cases hstep
    revert h himpatient
    obtain ⟨⟨threadVideo, wasThreaded, toggleThread, fastForward, option⟩, powerHeld⟩ := s
    revert threadVideo wasThreaded toggleThread fastForward option powerHeld
    cases input with
    | fastForward enable => cases enable <;> decide
    | powerDown => decide
    | powerUp seen => cases seen <;> decide
    | option value => cases value <;> decide
    | mainLoop => decide
  rcases hcases with h | h | h | h
  · exact ⟨t, .refl, h⟩
  · exact ⟨_, reaches_run t _, h⟩
  · exact ⟨_, reaches_run t _, h⟩
  · exact ⟨_, reaches_run t _, h⟩

end Video

/-- Threaded video follows its option as long as no actor meets a toggle that is still pending. -/
theorem video_follows_option {s : Video}
    (hreach : Reaches Video.step Video.Patient Video.initial s) : s.Follows := by
  have hsound := hreach.invariant Video.initial_sound fun hsound hpatient hstep =>
    Video.Sound.step hsound hpatient hstep
  exact hsound.follows

/-- The option is turned on, and fast forward is entered and left. -/
def unhurried : List VideoInput :=
  [.option true, .mainLoop, .fastForward true, .mainLoop, .fastForward false, .mainLoop]

theorem video_follows_option_unhurried : ∃ s,
    Reaches Video.step Video.Patient Video.initial s ∧ s.flags.threadVideo = true ∧
      s.Follows := by
  have hrun : ((some Video.initial).bind
      (follow Video.step (fun s input => decide (s.Patient input)) unhurried)).any
        (fun s => s.flags.threadVideo) = true := by
    decide
  obtain ⟨s, t, hstart, hreach, hon⟩ := exists_reaches_of_follow hrun
  cases hstart
  have hpatient : Reaches Video.step Video.Patient Video.initial t :=
    hreach.mono fun s input h => of_decide_eq_true h
  exact ⟨t, hpatient, hon, video_follows_option hpatient⟩

/-- Fast forward is entered and left between two turns of the main loop. -/
def hurried : List VideoInput :=
  [.option true, .mainLoop, .fastForward true, .fastForward false, .mainLoop]

/-- The core is left off its thread although the option is on. -/
theorem video_left_behind :
    ¬ ∀ s, Reaches Video.step (fun _ _ => True) Video.initial s → s.Follows := by
  intro h
  have hrun : ((some Video.initial).bind
      (follow Video.step (fun _ _ => true) hurried)).any
        (fun s => !s.flags.toggleThread && !s.flags.fastForward && !s.powerHeld &&
          !s.flags.threadVideo && s.flags.option) = true := by
    decide
  obtain ⟨s, t, hstart, hreach, hend⟩ := exists_reaches_of_follow hrun
  cases hstart
  simp only [Bool.and_eq_true, Bool.not_eq_true'] at hend
  obtain ⟨⟨⟨⟨htoggle, hff⟩, hpower⟩, hthread⟩, hoption⟩ := hend
  have hfollows := (h t (hreach.mono fun _ _ _ => trivial) htoggle hff hpower).1
  rw [hthread, hoption] at hfollows
  cases hfollows

end DarkUI.Minarch
