import DarkUI.Input.PadLaws

/-! # Releases of buttons that were not pressed

Only the axes that stand for buttons check that what they release is pressed. Everywhere else
the queue decides: a poll reports a stray release exactly when it is given one.
-/

namespace DarkUI

open Run

namespace PadAction

/-- The action releases the button whether or not it is pressed. -/
def Releases (a : PadAction) (k : ButtonId) : Prop :=
  match a with
  | .button id pressed => id = k ∧ pressed = false
  | .hats states => (k, some false) ∈ states.turns
  | _ => False

/-- The action leaves the button pressed. -/
def Presses (a : PadAction) (k : ButtonId) : Prop :=
  match a with
  | .button id pressed | .trigger id pressed => id = k ∧ pressed = true
  | .hats states => (k, some true) ∈ states.turns
  | _ => False

end PadAction

namespace Pad

variable {p : Pad} {k id neg pos : ButtonId} {tick : BitVec 32} {a : PadAction}
  {actions : List PadAction} {pressed : Bool} {turns : List (ButtonId × Option Bool)}

theorem setButton_justReleased : has (p.setButton id pressed tick).justReleased k =
    (has p.justReleased k || decide (id = k ∧ pressed = false)) := by
  unfold setButton
  cases pressed with
  | false => simp [release]
  | true =>
      simp only [Bool.not_true, Bool.false_eq_true, if_false]
      split <;> simp [press]

theorem setButton_isPressed : has (p.setButton id pressed tick).isPressed k =
    if id = k then pressed else has p.isPressed k := by
  unfold setButton
  by_cases hid : id = k
  · subst hid
    cases pressed with
    | false => simp [release]
    | true =>
        simp only [Bool.not_true, Bool.false_eq_true, if_false]
        split
        next => simp [press]
        next hheld => simpa using hheld
  · cases pressed with
    | false => simp [release, hid]
    | true =>
        simp only [Bool.not_true, Bool.false_eq_true, if_false]
        split <;> simp [press, hid]

theorem setHats_justReleased : has (turns.foldl (setHat tick) p).justReleased k =
    (has p.justReleased k || decide ((k, some false) ∈ turns)) := by
  induction turns generalizing p with
  | nil => simp
  | cons hat rest ih =>
      obtain ⟨id, state⟩ := hat
      rw [List.foldl_cons, ih]
      cases state with
      | none => simp [setHat]
      | some pressed =>
          simp only [setHat, setButton_justReleased, List.mem_cons, Prod.mk.injEq,
            Option.some.injEq]
          rw [Bool.or_assoc, ← Bool.decide_or]
          simp only [eq_comm]

theorem setHats_isPressed_of_not_mem (h : ∀ state, (k, state) ∉ turns) :
    has (turns.foldl (setHat tick) p).isPressed k = has p.isPressed k := by
  induction turns generalizing p with
  | nil => rfl
  | cons hat rest ih =>
      obtain ⟨id, state⟩ := hat
      rw [List.foldl_cons, ih fun other hother => h other (List.mem_cons_of_mem _ hother)]
      cases state with
      | none => rfl
      | some pressed =>
          have hne : id ≠ k := fun hid => h (some pressed) (by simp [hid])
          simp [setHat, setButton_isPressed, hne]

theorem setHats_isPressed_of_mem (hnodup : (turns.map Prod.fst).Nodup)
    (h : (k, some true) ∈ turns) : has (turns.foldl (setHat tick) p).isPressed k = true := by
  induction turns generalizing p with
  | nil => cases h
  | cons hat rest ih =>
      simp only [List.map_cons, List.nodup_cons] at hnodup
      rw [List.foldl_cons]
      rcases List.mem_cons.mp h with rfl | hrest
      · rw [setHats_isPressed_of_not_mem fun state hmem => ?_]
        · simp [setHat, setButton_isPressed]
        · exact hnodup.1 (List.mem_map.mpr ⟨(k, state), hmem, rfl⟩)
      · exact ih hnodup.2 hrest

theorem setHats_isPressed_imp (h : has (turns.foldl (setHat tick) p).isPressed k) :
    has p.isPressed k ∨ (k, some true) ∈ turns := by
  induction turns generalizing p with
  | nil => exact Or.inl h
  | cons hat rest ih =>
      obtain ⟨id, state⟩ := hat
      rw [List.foldl_cons] at h
      rcases ih h with hhead | hrest
      · cases state with
        | none => exact Or.inl hhead
        | some pressed =>
            simp only [setHat, setButton_isPressed] at hhead
            split at hhead
            next hid => exact Or.inr (by simp [hid, hhead])
            next => exact Or.inl hhead
      · exact Or.inr (List.mem_cons_of_mem _ hrest)

theorem turns_nodup (states : Hats) : (states.turns.map Prod.fst).Nodup := by
  simp [Hats.turns]

/-- A poll never takes a release back. -/
theorem act_justReleased_mono (h : has p.justReleased k) :
    has (act tick p a).justReleased k := by
  refine act_induct (fun q => has q.justReleased k = true)
    (fun q axis value hq => by simpa using hq)
    (fun q id repeatAt _ _ hq => hq) (fun q id _ hq => by simp [release, hq]) ?_ h
  intro q neg pos _ _ _ hq
  have hstep : ∀ r id, has (r : Pad).justReleased k = true →
      has (r.recentreIfPressed id).justReleased k = true := by
    intro r id hr
    unfold recentreIfPressed
    split
    · simp [recentre, hr]
    · exact hr
  exact hstep _ pos (hstep q neg hq)

theorem act_justReleased_of_releases (h : a.Releases k) : has (act tick p a).justReleased k := by
  cases a with
  | button id pressed => simp [act, setButton_justReleased, h.1, h.2]
  | hats states =>
      simp only [act, setHats, setHats_justReleased, Bool.or_eq_true, decide_eq_true_eq]
      exact Or.inr h
  | _ => exact absurd h id

theorem act_isPressed_of_presses (h : a.Presses k) : has (act tick p a).isPressed k := by
  cases a with
  | button id pressed => simp [act, setButton_isPressed, h.1, h.2]
  | trigger id pressed => simp [act, setButton_isPressed, h.1, h.2]
  | hats states => exact setHats_isPressed_of_mem (turns_nodup states) h
  | _ => exact absurd h id

/-- Away from the stick, an action presses only the buttons it says it presses. -/
theorem act_isPressed_imp (hk : k.isAnalog = false) (h : has (act tick p a).isPressed k) :
    has p.isPressed k ∨ a.Presses k := by
  cases a with
  | ignore => exact Or.inl h
  | button id pressed =>
      simp only [act, setButton_isPressed] at h
      split at h
      next hid => exact Or.inr ⟨hid, h⟩
      next => exact Or.inl h
  | trigger id pressed =>
      dsimp only [act] at h
      split at h
      · exact Or.inl h
      · rw [setButton_isPressed] at h
        split at h
        next hid => exact Or.inr ⟨hid, h⟩
        next => exact Or.inl h
  | hats states => exact setHats_isPressed_imp h
  | stick axis value =>
      refine Or.inl ?_
      rwa [act_isPressed_of_not_mem] at h
      intro hmem
      cases axis <;> simp [PadAction.buttons, StickAxis.directions] at hmem <;>
        (rcases hmem with rfl | rfl <;> cases hk)

theorem recentreIfPressed_justReleased_imp (h : has (p.recentreIfPressed id).justReleased k) :
    has p.justReleased k ∨ has p.isPressed k := by
  unfold recentreIfPressed at h
  split at h
  next hheld =>
    simp only [recentre, has_set, Bool.or_eq_true, decide_eq_true_eq] at h
    rcases h with h | rfl
    · exact Or.inl h
    · exact Or.inr (by simpa using hheld)
  next => exact Or.inl h

theorem pushAnalog_justReleased_imp {repeatAt : BitVec 32} (hne : id ≠ neg)
    (h : has (p.pushAnalog id neg repeatAt).justReleased k) :
    has p.justReleased k ∨ has p.isPressed k := by
  unfold pushAnalog at h
  split at h
  · dsimp only at h
    split at h
    next hheld =>
      simp only [release, press, has_set, Bool.or_eq_true, decide_eq_true_eq] at h
      rcases h with h | rfl
      · exact Or.inl h
      · refine Or.inr ?_
        simpa [press, hne] using hheld
    next => exact Or.inl h
  · exact Or.inl h

/-- Everything else released was pressed when the action came. -/
theorem act_justReleased_imp (h : has (act tick p a).justReleased k) :
    has p.justReleased k ∨ has p.isPressed k ∨ a.Releases k := by
  cases a with
  | ignore => exact Or.inl h
  | button id pressed =>
      simp only [act, setButton_justReleased, Bool.or_eq_true, decide_eq_true_eq] at h
      exact h.imp_right Or.inr
  | trigger id pressed =>
      dsimp only [act] at h
      split at h
      next => exact Or.inl h
      next hheld =>
        simp only [setButton_justReleased, Bool.or_eq_true, decide_eq_true_eq] at h
        rcases h with hbefore | hup
        · exact Or.inl hbefore
        · obtain ⟨rfl, rfl⟩ := hup
          exact Or.inr (Or.inl (by simpa using hheld))
  | hats states =>
      simp only [act, setHats, setHats_justReleased, Bool.or_eq_true, decide_eq_true_eq] at h
      exact h.imp_right Or.inr
  | stick axis value =>
      dsimp only [act] at h
      split at h
      next neg pos hpair =>
        have hne : neg ≠ pos := by
          cases axis <;> cases hpair <;> decide
        -- moving a stick releases only directions that were pressed before
        have hmoved : has (p.setStick axis value).justReleased k ∨
            has (p.setStick axis value).isPressed k := by
          unfold setAnalog at h
          split at h
          · exact pushAnalog_justReleased_imp hne.symm h
          · split at h
            · exact pushAnalog_justReleased_imp hne h
            · rcases recentreIfPressed_justReleased_imp h with h | h
              · exact recentreIfPressed_justReleased_imp h
              · exact Or.inr (recentreIfPressed_le h)
        simp only [setStick_justReleased, setStick_isPressed] at hmoved
        exact hmoved.imp_right Or.inl
      next =>
        rw [setStick_justReleased] at h
        exact Or.inl h

theorem not_analog_of_releases (hlegal : a.Legal) (h : a.Releases k) : k.isAnalog = false := by
  cases a with
  | button id pressed => exact h.1 ▸ hlegal
  | hats states =>
      simp only [PadAction.Releases, Hats.turns, List.mem_cons, Prod.mk.injEq, List.not_mem_nil,
        or_false] at h
      rcases h with ⟨rfl, -⟩ | ⟨rfl, -⟩ | ⟨rfl, -⟩ | ⟨rfl, -⟩ <;> rfl
  | _ => exact absurd h id

/-- The button was pressed at the start of the poll or after some of its events. -/
def WasPressed (p : Pad) (tick : BitVec 32) (actions : List PadAction) (k : ButtonId) : Prop :=
  ∃ before after, actions = before ++ after ∧ has (p.during tick before).isPressed k

/-- Every release a poll reports is of a button that was pressed. -/
def ReleasesPressed (p : Pad) (tick : BitVec 32) (actions : List PadAction) (polled : Pad) :
    Prop :=
  ∀ k, has polled.justReleased k → p.WasPressed tick actions k

/-- What the queue releases is pressed when the poll starts or pressed by the queue itself. -/
def QueueReleasesPressed (p : Pad) (actions : List PadAction) : Prop :=
  ∀ k, (∃ a ∈ actions, a.Releases k) → has p.isPressed k ∨ ∃ a ∈ actions, a.Presses k

theorem during_justReleased_mono {before after : List PadAction}
    (h : has (p.during tick before).justReleased k) :
    has (p.during tick (before ++ after)).justReleased k := by
  induction after using List.reverseRecOn with
  | nil => simpa using h
  | append_singleton rest a ih =>
      rw [← List.append_assoc, during_concat]
      exact act_justReleased_mono ih

theorem during_isPressed_imp (hk : k.isAnalog = false)
    (h : has (p.during tick actions).isPressed k) :
    has p.isPressed k ∨ ∃ a ∈ actions, a.Presses k := by
  induction actions using List.reverseRecOn with
  | nil =>
      rw [during, List.foldl_nil, (startPoll_started p tick).isPressed] at h
      exact Or.inl h
  | append_singleton rest a ih =>
      rw [during_concat] at h
      rcases act_isPressed_imp hk h with hrest | hpresses
      · rcases ih hrest with hbefore | hlater
        · exact Or.inl hbefore
        · obtain ⟨other, hmem, hother⟩ := hlater
          exact Or.inr ⟨other, List.mem_append_left _ hmem, hother⟩
      · exact Or.inr ⟨a, by simp, hpresses⟩

theorem during_justReleased_imp (h : has (p.during tick actions).justReleased k) :
    p.WasPressed tick actions k ∨ ∃ a ∈ actions, a.Releases k := by
  induction actions using List.reverseRecOn with
  | nil =>
      rw [during, List.foldl_nil, (startPoll_started p tick).justReleased] at h
      simp at h
  | append_singleton rest a ih =>
      rw [during_concat] at h
      rcases act_justReleased_imp h with hrest | hheld | hreleases
      · rcases ih hrest with ⟨before, after, rfl, hheld⟩ | ⟨other, hmem, hother⟩
        · exact Or.inl ⟨before, after ++ [a], by simp, hheld⟩
        · exact Or.inr ⟨other, List.mem_append_left _ hmem, hother⟩
      · exact Or.inl ⟨rest, [a], rfl, hheld⟩
      · exact Or.inr ⟨a, by simp, hreleases⟩

theorem releasesPressed_iff (hlegal : ∀ a ∈ actions, a.Legal) :
    p.ReleasesPressed tick actions (p.during tick actions) ↔ p.QueueReleasesPressed actions := by
  constructor
  · rintro h k ⟨a, hmem, hreleases⟩
    obtain ⟨before, after, hsplit⟩ := List.append_of_mem hmem
    have hreleased : has (p.during tick actions).justReleased k := by
      rw [hsplit, ← List.singleton_append, ← List.append_assoc]
      refine during_justReleased_mono ?_
      rw [during_concat]
      exact act_justReleased_of_releases hreleases
    obtain ⟨first, last, rfl, hheld⟩ := h k hreleased
    have hk := not_analog_of_releases (hlegal a hmem) hreleases
    refine (during_isPressed_imp hk hheld).imp_right fun ⟨other, hother, hpresses⟩ => ?_
    exact ⟨other, List.mem_append_left _ hother, hpresses⟩
  · intro h k hreleased
    rcases during_justReleased_imp hreleased with hwas | hreleases
    · exact hwas
    · rcases h k hreleases with hheld | ⟨a, hmem, hpresses⟩
      · refine ⟨[], actions, rfl, ?_⟩
        rwa [during, List.foldl_nil, (startPoll_started p tick).isPressed]
      · obtain ⟨before, after, hsplit⟩ := List.append_of_mem hmem
        refine ⟨before ++ [a], after, by simp [hsplit], ?_⟩
        rw [during_concat]
        exact act_isPressed_of_presses hpresses

end Pad

namespace Sdl

/-- In a poll, every release reported is of a button that was pressed. -/
def ReleasesPressed (codes : Codes) (pad : Pad) : Input → Prop
  | .poll poll =>
      pad.ReleasesPressed poll.tick (poll.events.map (action codes)) (pollInput codes pad poll)
  | .reset => True

def QueueReleasesPressed (codes : Codes) (pad : Pad) : Input → Prop
  | .poll poll => pad.QueueReleasesPressed (poll.events.map (action codes))
  | .reset => True

end Sdl

namespace Evdev

/-- In a poll, every release reported is of a button that was pressed. -/
def ReleasesPressed (s : State) : Input → Prop
  | .poll poll => s.pad.ReleasesPressed poll.tick (polledActions s poll) (pollInput s poll).pad
  | .reset => True

def QueueReleasesPressed (s : State) : Input → Prop
  | .poll poll => s.pad.QueueReleasesPressed (polledActions s poll)
  | .reset => True

def NoLid (s : State) : Prop := s.lid.hasLid = false

theorem checkForGamepad_lid (s : State) (probe : Probe) :
    (checkForGamepad s probe).lid = s.lid := by
  unfold checkForGamepad
  dsimp only
  split_ifs <;> rfl

theorem NoLid.lidChanged {s : State} (h : NoLid s) (hallkey : Int) :
    Evdev.lidChanged s.lid hallkey = (s.lid, false) := by
  rw [NoLid] at h
  simp [Evdev.lidChanged, h]

theorem NoLid.step {s t : State} {input : Input} (h : NoLid s)
    (hstep : Evdev.step s input = some t) :
    NoLid t := by
  cases input with
  | poll poll =>
      cases hstep
      simpa [NoLid, pollInput, h.lidChanged] using h
  | reset =>
      cases hstep
      exact h

end Evdev

/-- Without a lid, polls report stray releases exactly where the queue holds one. -/
theorem releases_pressed_iff (codes : Sdl.Codes) :
    (∀ inputs, Throughout (Sdl.step codes) (Sdl.ReleasesPressed codes) inputs Pad.initial ↔
      Throughout (Sdl.step codes) (Sdl.QueueReleasesPressed codes) inputs Pad.initial) ∧
    (∀ event0Open event1Open probe inputs,
      Throughout Evdev.step Evdev.ReleasesPressed inputs
        (Evdev.start event0Open event1Open false probe) ↔
      Throughout Evdev.step Evdev.QueueReleasesPressed inputs
        (Evdev.start event0Open event1Open false probe)) := by
  constructor
  · intro inputs
    have htrivial : (fun _ : Pad => True) Pad.initial := trivial
    refine Throughout.congr htrivial (fun _ _ => trivial) ?_
    intro pad input _
    cases input with
    | poll poll =>
        refine Pad.releasesPressed_iff fun a ha => ?_
        obtain ⟨event, -, rfl⟩ := List.mem_map.mp ha
        exact Sdl.legal_action codes event
    | reset => exact Iff.rfl
  · intro event0Open event1Open probe inputs
    have hstart : Evdev.NoLid (Evdev.start event0Open event1Open false probe) := by
      rw [Evdev.NoLid, Evdev.start, Evdev.checkForGamepad_lid]
    refine Throughout.congr hstart Evdev.NoLid.step ?_
    intro s input hlid
    cases input with
    | poll poll =>
        have hpolled : (Evdev.pollInput s poll).pad =
            s.pad.during poll.tick (Evdev.polledActions s poll) := by
          simp only [Evdev.pollInput, hlid.lidChanged]
          rfl
        rw [Evdev.ReleasesPressed, hpolled]
        exact Pad.releasesPressed_iff fun a ha => Evdev.legal_actions ha
    | reset => exact Iff.rfl

/-- LEFT goes down on the D-pad and RIGHT is reported released. -/
theorem stray_release :
    ¬ ∀ event0Open event1Open probe inputs,
      Throughout Evdev.step Evdev.ReleasesPressed inputs
        (Evdev.start event0Open event1Open false probe) := by
  intro h
  have hall := h true true ⟨1, false, [], false⟩
    [.poll ⟨1000, ⟨1000, false, [], false⟩, [⟨3, 16, -1⟩], [], [], 1⟩]
  obtain ⟨before, after, hsplit, hheld⟩ := hall.1 .dpadRight (by decide +kernel)
  have hactions : before ++ after = [.hats ⟨none, none, some true, some false⟩] :=
    hsplit.symm.trans (by decide +kernel)
  cases before with
  | nil => exact absurd hheld (by decide +kernel)
  | cons first rest =>
      obtain ⟨rfl, hrest⟩ := List.cons.inj hactions
      obtain ⟨rfl, -⟩ := List.append_eq_nil_iff.mp hrest
      exact absurd hheld (by decide +kernel)

end DarkUI
