import DarkUI.Foundation.Run
import DarkUI.Input.Evdev
import DarkUI.Input.Sdl
import Mathlib.Tactic.SplitIfs

/-! # The pad stays coherent

What one action does to the four masks, what a poll adds up to, and when the masks of both
back ends keep to the rules the menus rely on.
-/

namespace DarkUI

open Run

namespace PadAction

/-- The buttons an action is about. -/
def buttons : PadAction → List ButtonId
  | .ignore => []
  | .button id _ => [id]
  | .trigger id _ => [id]
  | .hats states => (states.turns.filter fun hat => hat.2.isSome).map Prod.fst
  | .stick axis _ => (axis.directions.map fun pair => [pair.1, pair.2]).getD []

/-- No key and no trigger stands for a direction of the stick. -/
def Legal : PadAction → Prop
  | .button id _ | .trigger id _ => id.isAnalog = false
  | _ => True

/-- The action finds the stick of an axis in the dead zone. -/
def Centres (action : PadAction) (neg pos : ButtonId) : Prop :=
  match action with
  | .stick axis value =>
      axis.directions = some (neg, pos) ∧ value ≤ axisDeadzone ∧ -axisDeadzone ≤ value
  | _ => False

end PadAction

namespace Pad

variable {p q r : Pad} {k id neg pos : ButtonId} {tick : BitVec 32} {a : PadAction}

/-- The bits and the repeat time of a button are the same in both pads. -/
structure Same (p q : Pad) (k : ButtonId) : Prop where
  isPressed : has q.isPressed k = has p.isPressed k
  justPressed : has q.justPressed k = has p.justPressed k
  justReleased : has q.justReleased k = has p.justReleased k
  justRepeated : has q.justRepeated k = has p.justRepeated k
  repeatAt : q.repeatAt k = p.repeatAt k

theorem Same.refl (p : Pad) (k : ButtonId) : Same p p k := ⟨rfl, rfl, rfl, rfl, rfl⟩

theorem Same.trans (hpq : Same p q k) (hqr : Same q r k) : Same p r k :=
  ⟨hqr.isPressed.trans hpq.isPressed, hqr.justPressed.trans hpq.justPressed,
    hqr.justReleased.trans hpq.justReleased, hqr.justRepeated.trans hpq.justRepeated,
    hqr.repeatAt.trans hpq.repeatAt⟩

@[simp] theorem setStick_isPressed (axis : StickAxis) (value : Int) :
    (p.setStick axis value).isPressed = p.isPressed := by
  cases axis <;> rfl

@[simp] theorem setStick_justPressed (axis : StickAxis) (value : Int) :
    (p.setStick axis value).justPressed = p.justPressed := by
  cases axis <;> rfl

@[simp] theorem setStick_justReleased (axis : StickAxis) (value : Int) :
    (p.setStick axis value).justReleased = p.justReleased := by
  cases axis <;> rfl

@[simp] theorem setStick_justRepeated (axis : StickAxis) (value : Int) :
    (p.setStick axis value).justRepeated = p.justRepeated := by
  cases axis <;> rfl

section Induction

variable {inv : Pad → Prop}

theorem setButton_induct {pressed : Bool}
    (hpress : has p.isPressed id = false → inv (p.press id (tick + repeatDelay)))
    (hrelease : inv (p.release id)) (h : inv p) : inv (p.setButton id pressed tick) := by
  unfold setButton
  split
  · exact hrelease
  · split
    next hfree => exact hpress (by simpa using hfree)
    next => exact h

theorem pushAnalog_induct {repeatAt : BitVec 32}
    (hpress : ∀ q, has q.isPressed id = false → inv q → inv (q.press id repeatAt))
    (hrelease : ∀ q, inv q → inv (q.release neg)) (h : inv p) :
    inv (p.pushAnalog id neg repeatAt) := by
  unfold pushAnalog
  split
  next hfree =>
    have hpressed := hpress p (by simpa using hfree) h
    dsimp only
    split
    · exact hrelease _ hpressed
    · exact hpressed
  next => exact h

variable (inv) in
/-- The directions of a hat are set one after another. -/
theorem setHats_induct (ids : List ButtonId)
    (hpress : ∀ q id repeatAt, id ∈ ids → has q.isPressed id = false → inv q →
      inv (q.press id repeatAt))
    (hrelease : ∀ q id, id ∈ ids → inv q → inv (q.release id))
    {hats : List (ButtonId × Option Bool)} (hids : ∀ hat ∈ hats, hat.2.isSome → hat.1 ∈ ids)
    (h : inv p) : inv (hats.foldl (setHat tick) p) := by
  induction hats generalizing p with
  | nil => exact h
  | cons hat rest ih =>
      refine ih (fun other hother => hids other (List.mem_cons_of_mem _ hother)) ?_
      have hmem := hids hat List.mem_cons_self
      obtain ⟨id, state⟩ := hat
      cases state with
      | none => exact h
      | some pressed =>
          exact setButton_induct (fun hfree => hpress _ _ _ (hmem rfl) hfree h)
            (hrelease _ _ (hmem rfl) h) h

variable (inv) in
/-- What presses, releases and re-centrings keep, an action keeps. -/
theorem act_induct
    (hstick : ∀ q axis value, inv q → inv (q.setStick axis value))
    (hpress : ∀ q id repeatAt, id ∈ a.buttons → has q.isPressed id = false → inv q →
      inv (q.press id repeatAt))
    (hrelease : ∀ q id, id ∈ a.buttons → inv q → inv (q.release id))
    (hcentre : ∀ q neg pos, a.Centres neg pos → q.isPressed = p.isPressed →
      q.justRepeated = p.justRepeated → inv q →
      inv ((q.recentreIfPressed neg).recentreIfPressed pos))
    (h : inv p) : inv (act tick p a) := by
  cases a with
  | ignore => exact h
  | button id pressed =>
      exact setButton_induct (fun hfree => hpress _ _ _ (by simp [PadAction.buttons]) hfree h)
        (hrelease _ _ (by simp [PadAction.buttons]) h) h
  | trigger id pressed =>
      dsimp only [act]
      split
      · exact h
      · exact setButton_induct (fun hfree => hpress _ _ _ (by simp [PadAction.buttons]) hfree h)
          (hrelease _ _ (by simp [PadAction.buttons]) h) h
  | hats hats =>
      refine setHats_induct inv _ hpress hrelease (fun hat hhat hsome => ?_) h
      exact List.mem_map.mpr ⟨hat, List.mem_filter.mpr ⟨hhat, by simpa using hsome⟩, rfl⟩
  | stick axis value =>
      have hmoved := hstick p axis value h
      dsimp only [act]
      split
      next neg pos hpair =>
        have hneg : neg ∈ PadAction.buttons (.stick axis value) := by
          simp [PadAction.buttons, hpair]
        have hpos : pos ∈ PadAction.buttons (.stick axis value) := by
          simp [PadAction.buttons, hpair]
        -- an axis pushes one direction, pushes the other one, or centres both
        unfold setAnalog
        split
        · exact pushAnalog_induct (fun q => hpress q pos _ hpos) (fun q => hrelease q neg hneg)
            hmoved
        · split
          · exact pushAnalog_induct (fun q => hpress q neg _ hneg)
              (fun q => hrelease q pos hpos) hmoved
          · exact hcentre _ neg pos ⟨hpair, by omega, by omega⟩ (by simp) (by simp) hmoved
      next => exact hmoved

end Induction

/-- Opposite directions of the stick are not both pressed. -/
def Apart (p : Pad) : Prop :=
  ∀ axis neg pos, StickAxis.directions axis = some (neg, pos) →
    ¬(has p.isPressed neg ∧ has p.isPressed pos)

/-- What a poll leaves of the masks, apart from the stick. -/
structure Coherent (p : Pad) : Prop where
  repeated : ∀ k, has p.justRepeated k → has p.isPressed k
  pressed : ∀ k, has p.justPressed k → has p.isPressed k ∨ has p.justReleased k

theorem Coherent.press (h : p.Coherent) : (p.press id tick).Coherent := by
  constructor
  · intro k hk
    simp only [Pad.press, has_set, Bool.or_eq_true] at hk ⊢
    exact hk.imp_left (h.repeated k)
  · intro k hk
    simp only [Pad.press, has_set, Bool.or_eq_true] at hk ⊢
    rcases hk with hk | hk
    · rcases h.pressed k hk with hpressed | hreleased
      · exact Or.inl (Or.inl hpressed)
      · exact Or.inr hreleased
    · exact Or.inl (Or.inr hk)

theorem Coherent.release (h : p.Coherent) : (p.release id).Coherent := by
  constructor
  · intro k hk
    simp only [Pad.release, has_clear, Bool.and_eq_true] at hk ⊢
    exact hk.imp_left (h.repeated k)
  · intro k hk
    simp only [Pad.release, has_clear, has_set, Bool.and_eq_true, Bool.or_eq_true] at hk ⊢
    by_cases hid : id = k
    · exact Or.inr (Or.inr (by simpa using hid))
    · rcases h.pressed k hk with hpressed | hreleased
      · exact Or.inl ⟨hpressed, by simpa using hid⟩
      · exact Or.inr (Or.inl hreleased)

theorem Coherent.setStick (h : p.Coherent) (axis : StickAxis) (value : Int) :
    (p.setStick axis value).Coherent :=
  ⟨by simpa using h.repeated, by simpa using h.pressed⟩

/-- A direction of the stick is let go in the dead zone only while no bit is repeating. -/
def Quiet (p : Pad) (a : PadAction) : Prop :=
  ∀ neg pos, a.Centres neg pos → (has p.isPressed neg ∨ has p.isPressed pos) → p.justRepeated = 0

theorem recentreIfPressed_of_free (h : has p.isPressed id = false) :
    p.recentreIfPressed id = p := by
  simp [recentreIfPressed, h]

theorem recentreIfPressed_of_silent (h : p.justRepeated = 0)
    (hpressed : has p.isPressed id = true) : p.recentreIfPressed id = p.release id := by
  simp [recentreIfPressed, hpressed, recentre, release, h]

/-- Where nothing repeats, letting go of the stick is one or two releases. -/
theorem centre_induct (inv : Pad → Prop)
    (hsilent : (has p.isPressed neg ∨ has p.isPressed pos) → p.justRepeated = 0)
    (hrelease : ∀ q id, id = neg ∨ id = pos → inv q → inv (q.release id)) (h : inv p) :
    inv ((p.recentreIfPressed neg).recentreIfPressed pos) := by
  have hlast : ∀ q, inv q → (has q.isPressed pos → q.justRepeated = 0) →
      inv (q.recentreIfPressed pos) := by
    intro q hq hqsilent
    cases hpos : has q.isPressed pos with
    | false => rwa [recentreIfPressed_of_free hpos]
    | true =>
        rw [recentreIfPressed_of_silent (hqsilent hpos) hpos]
        exact hrelease q pos (Or.inr rfl) hq
  cases hneg : has p.isPressed neg with
  | false =>
      rw [recentreIfPressed_of_free hneg]
      exact hlast p h fun hpos => hsilent (Or.inr hpos)
  | true =>
      have hzero := hsilent (Or.inl hneg)
      rw [recentreIfPressed_of_silent hzero hneg]
      exact hlast _ (hrelease p neg (Or.inl rfl) h) fun _ => by simp [Pad.release, hzero]

theorem centres_buttons (h : a.Centres neg pos) : neg ∈ a.buttons ∧ pos ∈ a.buttons := by
  unfold PadAction.Centres at h
  split at h
  next axis value => simp [PadAction.buttons, h.1]
  next => exact absurd h id

theorem Coherent.act (h : p.Coherent) (hquiet : p.Quiet a) : (Pad.act tick p a).Coherent := by
  refine act_induct Coherent (fun q axis value hq => hq.setStick axis value)
    (fun q id repeatAt _ _ hq => hq.press) (fun q id _ hq => hq.release) ?_ h
  intro q neg pos hcentres hpressed hrepeated hq
  refine centre_induct Coherent ?_ (fun r id _ hr => hr.release) hq
  rw [hpressed, hrepeated]
  exact hquiet neg pos hcentres

theorem recentreIfPressed_isPressed_of_ne (h : id ≠ k) :
    has (p.recentreIfPressed id).isPressed k = has p.isPressed k := by
  unfold recentreIfPressed
  split
  · simp [recentre, h]
  · rfl

/-- An action presses and releases only the buttons it is about. -/
theorem act_isPressed_of_not_mem (hk : k ∉ a.buttons) :
    has (act tick p a).isPressed k = has p.isPressed k := by
  refine act_induct (fun q => has q.isPressed k = has p.isPressed k) (fun q axis value hq => ?_)
    (fun q id repeatAt hid _ hq => ?_) (fun q id hid hq => ?_) ?_ rfl
  · simpa using hq
  · have hne : id ≠ k := fun h => hk (h ▸ hid)
    simpa [press, hne] using hq
  · have hne : id ≠ k := fun h => hk (h ▸ hid)
    simpa [release, hne] using hq
  · intro q neg pos hcentres _ _ hq
    obtain ⟨hneg, hpos⟩ := centres_buttons hcentres
    have hnegNe : neg ≠ k := fun h => hk (h ▸ hneg)
    have hposNe : pos ≠ k := fun h => hk (h ▸ hpos)
    rw [recentreIfPressed_isPressed_of_ne hposNe, recentreIfPressed_isPressed_of_ne hnegNe, hq]

theorem recentreIfPressed_le (h : has (p.recentreIfPressed id).isPressed k) :
    has p.isPressed k := by
  unfold recentreIfPressed at h
  split at h
  · simp only [recentre, has_clear, Bool.and_eq_true] at h
    exact h.1
  · exact h

/-- Pushing the stick one way lets go of the other. -/
theorem pushAnalog_apart {repeatAt : BitVec 32}
    (h : ¬(has p.isPressed id ∧ has p.isPressed neg)) :
    ¬(has (p.pushAnalog id neg repeatAt).isPressed id ∧
      has (p.pushAnalog id neg repeatAt).isPressed neg) := by
  unfold pushAnalog
  split
  next =>
    dsimp only
    split
    next => simp [release]
    next hfree => exact fun hboth => hfree (by simpa using hboth.2)
  next => exact h

theorem setAnalog_apart {value : Int} {repeatAt : BitVec 32}
    (h : ¬(has p.isPressed neg ∧ has p.isPressed pos)) :
    ¬(has (p.setAnalog neg pos value repeatAt).isPressed neg ∧
      has (p.setAnalog neg pos value repeatAt).isPressed pos) := by
  unfold setAnalog
  split
  · exact fun hboth => pushAnalog_apart (fun h' => h h'.symm) hboth.symm
  · split
    · exact pushAnalog_apart h
    · exact fun hboth => h ⟨recentreIfPressed_le (recentreIfPressed_le hboth.1),
        recentreIfPressed_le (recentreIfPressed_le hboth.2)⟩

theorem directions_analog {axis : StickAxis} (h : axis.directions = some (neg, pos)) :
    neg.isAnalog = true ∧ pos.isAnalog = true := by
  cases axis <;> cases h <;> decide

/-- Only a stick's own axis moves its directions. -/
theorem not_mem_buttons {axis : StickAxis} (hlegal : a.Legal)
    (hpair : axis.directions = some (neg, pos)) (hother : ∀ value, a ≠ .stick axis value) :
    neg ∉ a.buttons ∧ pos ∉ a.buttons := by
  obtain ⟨hneg, hpos⟩ := directions_analog hpair
  cases a with
  | ignore => simp [PadAction.buttons]
  | button id pressed =>
      constructor <;> (rintro hmem; simp_all [PadAction.buttons, PadAction.Legal])
  | trigger id pressed =>
      constructor <;> (rintro hmem; simp_all [PadAction.buttons, PadAction.Legal])
  | hats states =>
      constructor
      · intro hmem
        obtain ⟨hat, hhat, rfl⟩ := List.mem_map.mp hmem
        simp only [Hats.turns, List.mem_filter, List.mem_cons, List.not_mem_nil, or_false] at hhat
        rcases hhat.1 with rfl | rfl | rfl | rfl <;> cases hneg
      · intro hmem
        obtain ⟨hat, hhat, rfl⟩ := List.mem_map.mp hmem
        simp only [Hats.turns, List.mem_filter, List.mem_cons, List.not_mem_nil, or_false] at hhat
        rcases hhat.1 with rfl | rfl | rfl | rfl <;> cases hpos
  | stick other value =>
      cases axis <;> cases other <;> simp_all [PadAction.buttons, StickAxis.directions] <;>
        (obtain ⟨rfl, rfl⟩ := hpair; decide)

theorem Apart.act (h : p.Apart) (hlegal : a.Legal) : (Pad.act tick p a).Apart := by
  intro axis neg pos hpair
  by_cases hown : ∃ value, a = .stick axis value
  · obtain ⟨value, rfl⟩ := hown
    simp only [Pad.act, hpair]
    apply setAnalog_apart
    simpa using h axis neg pos hpair
  · obtain ⟨hneg, hpos⟩ := not_mem_buttons hlegal hpair fun value hv => hown ⟨value, hv⟩
    rw [act_isPressed_of_not_mem hneg, act_isPressed_of_not_mem hpos]
    exact h axis neg pos hpair

/-- The pad as the event loop finds it. -/
structure Started (p q : Pad) : Prop where
  isPressed : q.isPressed = p.isPressed
  justPressed : q.justPressed = 0
  justReleased : q.justReleased = 0
  repeated : ∀ k, has q.justRepeated k → has q.isPressed k

theorem Started.repeatButton (h : Started p q) (id : ButtonId) :
    Started p (Pad.repeatButton tick q id) := by
  unfold Pad.repeatButton
  split
  next hrepeats =>
    refine ⟨h.isPressed, h.justPressed, h.justReleased, fun k hk => ?_⟩
    simp only [has_set, Bool.or_eq_true, decide_eq_true_eq] at hk
    rcases hk with hk | rfl
    · exact h.repeated k hk
    · simpa using hrepeats.1
  next => exact h

theorem startPoll_started (p : Pad) (tick : BitVec 32) : Started p (p.startPoll tick) := by
  have hall : ∀ (ids : List ButtonId) (q : Pad), Started p q →
      Started p (ids.foldl (Pad.repeatButton tick) q) := by
    intro ids
    induction ids with
    | nil => exact fun q hq => hq
    | cons id rest ih => exact fun q hq => ih _ (hq.repeatButton id)
  exact hall _ _ ⟨rfl, rfl, rfl, fun k hk => by simp at hk⟩

theorem during_concat (before : List PadAction) (a : PadAction) :
    p.during tick (before ++ [a]) = act tick (p.during tick before) a := by
  simp [during]

/-- No direction of the stick is let go in the dead zone while a bit is repeating. -/
def QuietPoll (p : Pad) (tick : BitVec 32) (actions : List PadAction) : Prop :=
  ∀ before a after, actions = before ++ a :: after → (p.during tick before).Quiet a

/-- A poll that keeps the pad coherent, with the pad it ends in. -/
structure PollCoherent (p : Pad) (tick : BitVec 32) (actions : List PadAction) (polled : Pad) :
    Prop where
  repeated : ∀ k, has polled.justRepeated k → has polled.isPressed k
  pressed : ∀ k, has polled.justPressed k → has polled.isPressed k ∨ has polled.justReleased k
  frame : ∀ before a after, actions = before ++ a :: after → ∀ k, k ∉ a.buttons →
    Same (p.during tick before) (p.during tick (before ++ [a])) k
  apart : ∀ before after, actions = before ++ after → (p.during tick before).Apart
  apartEnd : polled.Apart

variable {actions : List PadAction}

end Pad

theorem not_analog_of_lookup {κ : Type*} [BEq κ] [LawfulBEq κ] {table : List (κ × ButtonId)}
    {code : κ} {id : ButtonId} (h : table.lookup code = some id)
    (hall : ∀ entry ∈ table, entry.2.isAnalog = false) : id.isAnalog = false := by
  obtain ⟨before, after, hsplit, -⟩ := List.lookup_eq_some_iff.mp h
  exact hall (code, id) (by simp [hsplit])

namespace Sdl

theorem legal_buttonAction {table : List (Int × ButtonId)} {code : Int} {pressed : Bool}
    (hall : ∀ entry ∈ table, entry.2.isAnalog = false) :
    (buttonAction table code pressed).Legal := by
  unfold buttonAction
  split
  next id hid => exact not_analog_of_lookup hid hall
  next => trivial

theorem legal_hatAction (hat : Nat) : (hatAction hat).Legal := by
  unfold hatAction
  split <;> trivial

theorem legal_axisAction (codes : AxisCodes) (axis val : Int) :
    (axisAction codes axis val).Legal := by
  unfold axisAction
  split_ifs <;> trivial

theorem legal_action (codes : Codes) (event : Event) : (action codes event).Legal := by
  cases event with
  | key scancode down =>
      exact legal_buttonAction (by simp [keyButtons, ButtonId.isAnalog])
  | joyButton button down =>
      exact legal_buttonAction (by simp [joyButtons, ButtonId.isAnalog])
  | joyHat value => exact legal_hatAction value
  | joyAxis axis value => exact legal_axisAction codes.axis axis value
  | other => trivial

/-- A poll keeps the pad coherent, and a reset leaves nothing pressed. -/
def Coherent (codes : Codes) (pad : Pad) : Input → Prop
  | .poll poll =>
      pad.PollCoherent poll.tick (poll.events.map (action codes)) (pollInput codes pad poll)
  | .reset => pad.reset.Coherent ∧ pad.reset.Apart

def Quiet (codes : Codes) (pad : Pad) : Input → Prop
  | .poll poll => pad.QuietPoll poll.tick (poll.events.map (action codes))
  | .reset => True

end Sdl

namespace Evdev

theorem legal_keyAction (padType : GamepadType) (gamepad : Bool) (code : Nat) (value : Int) :
    (keyAction gamepad padType code value).Legal := by
  unfold keyAction
  split
  · trivial
  · split
    next id hid =>
      refine not_analog_of_lookup hid ?_
      cases gamepad <;> cases padType <;> decide
    next => trivial

theorem legal_absAction (padType : GamepadType) (gamepad : Bool) (code : Nat) (value : Int) :
    (absAction gamepad padType code value).Legal := by
  unfold absAction rgp01Axis xboxAxis rawAxis
  cases gamepad <;> cases padType <;> dsimp only <;> split_ifs <;> trivial

theorem legal_action (padType : GamepadType) (gamepad : Bool) (event : Event) :
    (action padType gamepad event).Legal := by
  unfold action
  split
  · exact legal_keyAction padType gamepad _ _
  · split
    · exact legal_absAction padType gamepad _ _
    · trivial

theorem legal_actions {s : State} {poll : Poll} {a : PadAction} (h : a ∈ actions s poll) :
    a.Legal := by
  have hqueue : ∀ (isOpen gamepad : Bool) (queue : List Event),
      a ∈ (if isOpen then queue.map (action s.padType gamepad) else []) → a.Legal := by
    intro isOpen gamepad queue hmem
    cases isOpen with
    | false => simp at hmem
    | true =>
        obtain ⟨event, -, rfl⟩ := List.mem_map.mp hmem
        exact legal_action s.padType gamepad event
  simp only [actions, List.mem_append] at h
  rcases h with (h | h) | h
  · exact hqueue _ _ _ h
  · exact hqueue _ _ _ h
  · exact hqueue _ _ _ h

/-- What the event loops of a poll are given. -/
def polledActions (s : State) (poll : Poll) : List PadAction :=
  actions (checkForGamepad s poll.probe) poll

def Coherent (s : State) : Input → Prop
  | .poll poll => s.pad.PollCoherent poll.tick (polledActions s poll) (pollInput s poll).pad
  | .reset => s.pad.reset.Coherent ∧ s.pad.reset.Apart

def Quiet (s : State) : Input → Prop
  | .poll poll => s.pad.QuietPoll poll.tick (polledActions s poll)
  | .reset => True

def Apart (s : State) : Prop := s.pad.Apart

end Evdev

namespace Evdev

end Evdev

end DarkUI
