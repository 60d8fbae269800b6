import DarkUI.Foundation.Run
import DarkUI.Input.Evdev
import DarkUI.Minarch.Options

/-! # What the core knows of its options

A core is told in its poll that some option was changed, and asks for the values then. The values
come from the menus, the configuration files, the core itself and the reset to the defaults. The
grid of a Game Boy takes its colour from the palette, a few pictures after it was changed.
-/

namespace DarkUI.Minarch.Options

open Text Run

/-- `OptionList_getOptionValue`; past the values there is nothing to read. -/
def OptionList.getOptionValue (key : CString) (list : List Item) : Option CString :=
  (list[OptionList.getOption key list]?).bind fun item =>
    if 0 ≤ item.value then item.values[item.value.toNat]? else none

/-- `config.core` and `special`, with what the core has read. -/
structure CoreOptions where
  list : List Item
  changed : Bool
  /-- The core has the tag `GB`. -/
  gb : Bool
  paletteUpdated : Int
  /-- How often the colour of the grid was set. -/
  refreshes : Nat
  seen : CString → Option CString
  /-- The core has read its variables since it reported them. -/
  loaded : Bool

inductive OptionAction
  /-- `SET_VARIABLES` and `SET_CORE_OPTIONS` -/
  | report (report : Report)
  /-- `retro_load_game`, where the core asks for all its variables. -/
  | load
  /-- `OptionEmulator_optionChanged` -/
  | setRaw (key : CString) (value : Int)
  /-- `Config_readOptionsString` and `SET_VARIABLE` -/
  | setValue (key : CString) (value : Option CString)
  /-- `Config_restore` -/
  | restore
  /-- `GET_VARIABLE_UPDATE` -/
  | poll
  /-- `Special_init` -/
  | init
  /-- `Special_render` -/
  | render

def OptionAction.isRender : OptionAction → Bool
  | .render => true
  | _ => false

namespace CoreOptions

variable (s : CoreOptions)

/-- What the core is given for each key. -/
def values : CString → Option CString := fun key => OptionList.getOptionValue key s.list

/-- The option of a key changed; that of a palette is waited for. -/
def noteChange (key : CString) (frames : Int) (list : List Item) : CoreOptions :=
  if OptionList.getOption key s.list < s.list.length then
    { s with
      list
      changed := true
      paletteUpdated :=
        if s.gb && containsString key "palette".toList then frames else s.paletteUpdated }
  else s

/-- `Special_refreshDMGPalette` -/
def refreshDMGPalette : CoreOptions :=
  let left := s.paletteUpdated - 1
  if left > 0 then { s with paletteUpdated := left }
  else { s with paletteUpdated := left, refreshes := s.refreshes + 1 }

/-- One action of the front end or of the core. -/
def step : OptionAction → Option CoreOptions
  | .report report => report.items.map fun list => { s with list, loaded := false }
  | .load => some { s with seen := s.values, loaded := true }
  | .setRaw key value => some (s.noteChange key 3 (OptionList.setOptionRawValue key value s.list))
  | .setValue key value => some (s.noteChange key 2 (OptionList.setOptionValue key value s.list))
  | .restore => some { s with list := s.list.map Item.restore, changed := true }
  | .poll =>
      some { s with changed := false, seen := if s.changed then s.values else s.seen }
  | .init => some { s with paletteUpdated := if s.paletteUpdated > 1 then 1 else s.paletteUpdated }
  | .render => some (if s.paletteUpdated ≠ 0 then s.refreshDMGPalette else s)

/-- No options yet. -/
def start (gb : Bool) : CoreOptions := ⟨[], false, gb, 0, 0, fun _ => none, false⟩

/-- A core polls when it has read what it reported. -/
def Obliging (s : CoreOptions) : OptionAction → Prop
  | .poll => s.loaded = true
  | _ => True

/-- What was not announced is known. -/
def Told (s : CoreOptions) : Prop :=
  s.loaded = true → s.changed = false → s.seen = s.values

variable {s t u : CoreOptions} {action : OptionAction}

theorem noteChange_told (h : s.Told) (key : CString) (frames : Int) (list : List Item) :
    (s.noteChange key frames list).Told := by
  unfold noteChange
  split
  next => exact nofun
  next => exact h

theorem refreshDMGPalette_told (h : s.Told) : s.refreshDMGPalette.Told := by
  unfold refreshDMGPalette
  dsimp only
  split
  next => exact h
  next => exact h

theorem step_told (h : s.Told) (hstep : s.step action = some t) : t.Told := by
  cases action with
  | report report =>
      obtain ⟨list, -, rfl⟩ := Option.map_eq_some_iff.mp hstep
      exact nofun
  | load =>
      cases hstep
      exact fun _ _ => rfl
  | setRaw key value =>
      cases hstep
      exact noteChange_told h key 3 _
  | setValue key value =>
      cases hstep
      exact noteChange_told h key 2 _
  | restore =>
      cases hstep
      exact nofun
  | poll =>
      cases hstep
      intro hloaded _
      dsimp only
      split
      next => rfl
      next hchanged => exact h hloaded (Bool.eq_false_of_not_eq_true hchanged)
  | init =>
      cases hstep
      exact h
  | render =>
      cases hstep
      split
      next => exact refreshDMGPalette_told h
      next => exact h

theorem reaches_told {gb : Bool} {allowed : CoreOptions → OptionAction → Prop}
    (hrun : Reaches step allowed (start gb) s) : s.Told :=
  hrun.invariant nofun fun h _ hstep => step_told h hstep

/-- After every poll the core has the values of all its options, though it asks for them only
when it is told. -/
theorem seen_after_poll {gb : Bool} (hrun : Reaches step Obliging (start gb) s)
    (hpolls : Obliging s .poll) (hpoll : s.step .poll = some t) : t.seen = t.values := by
  have hloaded : t.loaded = true := by
    cases hpoll
    exact hpolls
  have hchanged : t.changed = false := by
    cases hpoll
    rfl
  exact step_told (reaches_told hrun) hpoll hloaded hchanged

/-- The palette of a Game Boy core, with the first of its two values chosen. -/
def gambatte : Item where
  key := "gambatte_gb_internal_palette".toList
  values := ["GB - DMG".toList, "GB - Pocket".toList]
  labels := ["GB - DMG".toList, "GB - Pocket".toList]
  defaultValue := 0
  labels_length := rfl
  value := 0
  lock := false

/-- Its definition. -/
def gambatteDefinition : Definition where
  key := gambatte.key
  values := [("GB - DMG".toList, none), ("GB - Pocket".toList, none)]
  defaultValue := some "GB - DMG".toList

/-- The options once the core has reported them. -/
def gambatteStart : CoreOptions := { start true with list := [gambatte] }

/-- The menu has changed the palette of a core that had read it. -/
def gambatteSet : CoreOptions where
  list := [{ gambatte with value := 1 }]
  changed := true
  gb := true
  paletteUpdated := 3
  refreshes := 0
  seen := gambatteStart.values
  loaded := true

theorem seen_after_poll_gambatte :
    ∃ t : CoreOptions, t.seen = t.values ∧
      t.seen gambatte.key = some "GB - Pocket".toList := by
  have hreport : Reaches step Obliging (start true) gambatteStart :=
    .tail (i := .report (.options [gambatteDefinition])) .refl trivial rfl
  have hload : Reaches step Obliging (start true)
      { gambatteStart with seen := gambatteStart.values, loaded := true } :=
    .tail (i := .load) hreport trivial rfl
  have hset : Reaches step Obliging (start true) gambatteSet :=
    .tail (i := .setRaw gambatte.key 1) hload trivial rfl
  exact ⟨_, seen_after_poll hset rfl rfl, rfl⟩

/-! ## The colour of the grid -/

/-- Neither the change of a palette nor the start of the game. -/
def LeavesColour : OptionAction → Prop
  | .setRaw key _ | .setValue key _ => containsString key "palette".toList = false
  | .init => False
  | _ => True

instance : DecidablePred LeavesColour
  | .setRaw key _ | .setValue key _ =>
      inferInstanceAs (Decidable (containsString key "palette".toList = false))
  | .init => inferInstanceAs (Decidable False)
  | .report _ | .load | .restore | .poll | .render => inferInstanceAs (Decidable True)

/-- The colour is read again when the count of pictures runs out. -/
theorem refreshDMGPalette_refreshes (s : CoreOptions) :
    s.refreshDMGPalette.refreshes = s.refreshes + if s.paletteUpdated ≤ 1 then 1 else 0 := by
  unfold refreshDMGPalette
  dsimp only
  split
  next h =>
    rw [if_neg (by omega)]
    rfl
  next h => rw [if_pos (by omega)]

theorem refreshDMGPalette_paletteUpdated (s : CoreOptions) :
    s.refreshDMGPalette.paletteUpdated = s.paletteUpdated - 1 := by
  unfold refreshDMGPalette
  dsimp only
  split
  next => rfl
  next => rfl

/-- A change elsewhere keeps the count. -/
theorem noteChange_colour {key : CString} (hkey : containsString key "palette".toList = false)
    (frames : Int) (list : List Item) :
    (s.noteChange key frames list).paletteUpdated = s.paletteUpdated ∧
      (s.noteChange key frames list).refreshes = s.refreshes := by
  unfold noteChange
  split
  next =>
    refine ⟨?_, rfl⟩
    dsimp only
    rw [hkey, Bool.and_false, if_neg Bool.false_ne_true]
  next => exact ⟨rfl, rfl⟩

/-- A step that is no picture leaves the count as it is. -/
theorem step_colour (hleaves : LeavesColour action) (hrender : action.isRender = false)
    (hstep : s.step action = some t) :
    t.paletteUpdated = s.paletteUpdated ∧ t.refreshes = s.refreshes := by
  cases action with
  | report report =>
      obtain ⟨list, -, rfl⟩ := Option.map_eq_some_iff.mp hstep
      exact ⟨rfl, rfl⟩
  | setRaw key value =>
      cases hstep
      exact noteChange_colour hleaves 3 _
  | setValue key value =>
      cases hstep
      exact noteChange_colour hleaves 2 _
  | load | restore | poll =>
      cases hstep
      exact ⟨rfl, rfl⟩
  | init => exact absurd hleaves not_false
  | render => cases hrender

/-- A run of actions, until one leaves the defined behaviour. -/
def run : List OptionAction → CoreOptions → Option CoreOptions
  | [], s => some s
  | action :: rest, s => (s.step action).bind (run rest)

/-- A count that has run out stays there, and the colour is not read again. -/
theorem run_settled {actions : List OptionAction} (hleaves : ∀ a ∈ actions, LeavesColour a)
    (hcount : s.paletteUpdated = 0) (hrun : run actions s = some t) :
    t.refreshes = s.refreshes := by
  induction actions generalizing s with
  | nil =>
      cases hrun
      rfl
  | cons action rest ih =>
      obtain ⟨m, hstep, hrest⟩ := Option.bind_eq_some_iff.mp hrun
      have hlater : ∀ a ∈ rest, LeavesColour a := fun a ha => hleaves a (.tail _ ha)
      by_cases hrender : action.isRender = true
      · cases action with
        | render =>
            have hm : s = m := by simpa [step, hcount] using hstep
            subst hm
            exact ih hlater hcount hrest
        | _ => cases hrender
      · have hfirst := step_colour (hleaves action (.head _))
          (Bool.eq_false_of_not_eq_true hrender) hstep
        rw [ih hlater (hfirst.1.trans hcount) hrest, hfirst.2]

/-- After a change the colour is read when the counted pictures are drawn, and once only. -/
theorem run_counts {actions : List OptionAction} (hleaves : ∀ a ∈ actions, LeavesColour a)
    {n : Nat} (hcount : s.paletteUpdated = n + 1) (hrun : run actions s = some t) :
    t.refreshes = s.refreshes + if n + 1 ≤ actions.countP OptionAction.isRender then 1 else 0 := by
  induction actions generalizing s n with
  | nil =>
      cases hrun
      rfl
  | cons action rest ih =>
      obtain ⟨m, hstep, hrest⟩ := Option.bind_eq_some_iff.mp hrun
      have hlater : ∀ a ∈ rest, LeavesColour a := fun a ha => hleaves a (.tail _ ha)
      by_cases hrender : action.isRender = true
      · cases action with
        | render =>
            have hpending : s.paletteUpdated ≠ 0 := by omega
            have hm : s.refreshDMGPalette = m := by simpa [step, hpending] using hstep
            have hmcount := refreshDMGPalette_paletteUpdated s
            have hmrefreshes := refreshDMGPalette_refreshes s
            rw [hm] at hmcount hmrefreshes
            rw [List.countP_cons_of_pos rfl]
            cases n with
            | zero =>
                have hzero : m.paletteUpdated = 0 := by omega
                have hone : s.paletteUpdated ≤ 1 := by omega
                rw [run_settled hlater hzero hrest, hmrefreshes, if_pos hone,
                  if_pos (Nat.le_add_left 1 _)]
            | succ n =>
                have hless : m.paletteUpdated = n + 1 := by omega
                have hmore : ¬ s.paletteUpdated ≤ 1 := by omega
                rw [ih hlater hless hrest, hmrefreshes, if_neg hmore]
                simp only [Nat.add_zero, Nat.add_le_add_iff_right]
        | _ => cases hrender
      · have hfirst := step_colour (hleaves action (.head _))
          (Bool.eq_false_of_not_eq_true hrender) hstep
        rw [ih hlater (hfirst.1.trans hcount) hrest, hfirst.2,
          List.countP_cons_of_neg hrender]

/-- When the menu changes the palette of a Game Boy, the third picture after it and no other
reads the colour of the grid again, whatever is done to other options meanwhile. -/
theorem grid_recoloured {key : CString} {value : Int} {actions : List OptionAction}
    (hgb : s.gb = true) (hfound : OptionList.getOption key s.list < s.list.length)
    (hpalette : containsString key "palette".toList = true)
    (hset : s.step (.setRaw key value) = some t) (hleaves : ∀ a ∈ actions, LeavesColour a)
    (hrun : run actions t = some u) :
    u.refreshes = s.refreshes + if 3 ≤ actions.countP OptionAction.isRender then 1 else 0 := by
  have ht : s.noteChange key 3 (OptionList.setOptionRawValue key value s.list) = t :=
    Option.some.inj hset
  rw [noteChange, if_pos hfound, hgb, hpalette, Bool.and_self, if_pos rfl] at ht
  have hcount : t.paletteUpdated = (2 : Nat) + 1 := by
    rw [← ht]
    rfl
  have hrefreshes : t.refreshes = s.refreshes := by rw [← ht]
  rw [run_counts hleaves hcount hrun, hrefreshes]

theorem grid_recoloured_gambatte :
    ∃ u, (gambatteSet.step (.setRaw gambatte.key 0)).bind
        (run [.render, .poll, .render, .render, .render]) = some u ∧ u.refreshes = 1 :=
  ⟨_, rfl, @grid_recoloured gambatteSet _ _ gambatte.key 0
    [.render, .poll, .render, .render, .render] rfl (by decide) (by decide) rfl (by decide) rfl⟩

end CoreOptions

end DarkUI.Minarch.Options
