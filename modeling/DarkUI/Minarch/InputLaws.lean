import DarkUI.Foundation.Latch
import DarkUI.Minarch.FastForwardLaws

/-! # The MENU button and the core's buttons

The menu opens on a release of MENU that ends no combination, and the core sees exactly the
controls that are held.
-/

namespace DarkUI.Minarch

namespace Frontend

variable {s t : Frontend} {pad : Pad} {which : Shortcut}

/-- The device, its indices and its inputs as `libretro.h` numbers them. -/
def retroDeviceJoypad : Nat := 1
def retroDeviceAnalog : Nat := 5
def retroDeviceIdJoypadMask : Nat := 256

/-- `input_state_callback` -/
def inputStateCallback (s : Frontend) (pad : Pad) (port device index id : Nat) : Int :=
  if port = 0 ∧ device = retroDeviceJoypad ∧ index = 0 then
    if id = retroDeviceIdJoypadMask then (s.buttons.setWidth 16).toInt
    else ((s.buttons >>> id &&& 1#32).setWidth 16).toInt
  else if port = 0 ∧ device = retroDeviceAnalog then
    match index, id with
    | 0, 0 => pad.laxis.x
    | 0, 1 => pad.laxis.y
    | 1, 0 => pad.raxis.x
    | 1, 1 => pad.raxis.y
    | _, _ => 0
  else 0

/-! ### Combinations with MENU -/

/-- A shortcut with the modifier answers to this poll. -/
def shortcutUsed (s : Frontend) (pad : Pad) (which : Shortcut) : Bool :=
  (s.shortcuts which).mod &&
    match which with
    | .toggleFf => s.edge pad .toggleFf pad.justPressed || s.edge pad .toggleFf pad.justReleased
    | .holdFf =>
        -- the toggle, which comes first, ends the loop
        !(s.edge pad .toggleFf pad.justPressed || s.edge pad .toggleFf pad.justReleased) &&
          (s.edge pad .holdFf pad.justPressed ||
            !s.toggledFfOn && s.edge pad .holdFf pad.justReleased)
    | other => s.edge pad other pad.justPressed

/-- MENU is part of a combination before its release is looked at. -/
def combined (s : Frontend) (pad : Pad) : Bool :=
  has pad.isPressed .menu && (has pad.isPressed .plus || has pad.isPressed .minus) ||
    Shortcut.all.any (s.shortcutUsed pad)

/-- A control is held, with MENU where it has the modifier. -/
def controlHeld (s : Frontend) (pad : Pad) (mapping : Binding) : Bool :=
  mapping.localId.any fun id => s.controlPressed pad id && active mapping pad

/-- What the shortcuts and the controls leave as it is, and how they mark MENU as used. -/
structure Marks (used : Bool) (s t : Frontend) : Prop where
  ignoreMenu : t.ignoreMenu = (s.ignoreMenu || used)
  showMenu : t.showMenu = s.showMenu
  controls : t.controls = s.controls
  gamepadType : t.gamepadType = s.gamepadType

theorem Marks.refl (s : Frontend) : Marks false s s := ⟨by simp, rfl, rfl, rfl⟩

theorem Marks.trans {first second : Bool} {u : Frontend} (hst : Marks first s t)
    (htu : Marks second t u) : Marks (first || second) s u where
  ignoreMenu := by rw [htu.ignoreMenu, hst.ignoreMenu, Bool.or_assoc]
  showMenu := htu.showMenu.trans hst.showMenu
  controls := htu.controls.trans hst.controls
  gamepadType := htu.gamepadType.trans hst.gamepadType

theorem marks_ignoreMenuIf (s : Frontend) (mod : Bool) : Marks mod s (s.ignoreMenuIf mod) := by
  cases mod <;> exact ⟨by simp [ignoreMenuIf], rfl, rfl, rfl⟩

theorem marks_fastForward (s : Frontend) (threading : Threading) (toggledFfOn mod : Bool) :
    Marks mod s
      (ignoreMenuIf { s with threading := threading, toggledFfOn := toggledFfOn } mod) := by
  cases mod <;> exact ⟨by simp [ignoreMenuIf], rfl, rfl, rfl⟩

theorem marks_perform (s : Frontend) (which : Shortcut) : Marks false s (s.perform which) := by
  cases which <;> exact ⟨by simp [perform], rfl, rfl, rfl⟩

theorem marks_powerEdge (pad : Pad) (s : Frontend) : Marks false s (powerEdge pad s) := by
  unfold powerEdge
  split_ifs <;> exact ⟨by simp, rfl, rfl, rfl⟩

theorem marks_other (htoggle : which ≠ .toggleFf) (hhold : which ≠ .holdFf) :
    Marks (s.shortcutUsed pad which) s (shortcut pad s which).1 := by
  have hused : s.shortcutUsed pad which =
      ((s.shortcuts which).mod && s.edge pad which pad.justPressed) := by
    cases which <;> first | rfl | exact absurd rfl htoggle | exact absurd rfl hhold
  rw [hused]
  unfold shortcut
  dsimp only
  split
  next hnone => simpa [edge, hnone] using Marks.refl s
  next id hid =>
    rw [edge_eq hid]
    split
    next hactive =>
      split
      · exact absurd rfl htoggle
      · exact absurd rfl hhold
      · split
        next hpressed =>
          have hmarks := (marks_perform s which).trans
            (marks_ignoreMenuIf (s.perform which) (s.shortcuts which).mod)
          simpa [hactive, hpressed] using hmarks
        next hpressed => simpa [hpressed] using Marks.refl s
    next hactive => simpa [hactive] using Marks.refl s

/-- The shortcuts before fast forward, one after another. -/
theorem marks_others (pad : Pad) (others rest : List Shortcut)
    (hothers : ∀ which ∈ others, which ≠ .toggleFf ∧ which ≠ .holdFf) (s : Frontend) :
    ∃ t, Same s t ∧ Marks (others.any (s.shortcutUsed pad)) s t ∧
      runShortcuts pad (others ++ rest) s = runShortcuts pad rest t := by
  induction others generalizing s with
  | nil => exact ⟨s, Same.refl s, Marks.refl s, rfl⟩
  | cons which others ih =>
      obtain ⟨hne, hrest⟩ := List.forall_mem_cons.mp hothers
      obtain ⟨hsame, hcontinues⟩ := @shortcut_other s pad which hne.1 hne.2
      have hmarks := @marks_other s pad which hne.1 hne.2
      obtain ⟨t, ht, hmarked, hrun⟩ := ih hrest (shortcut pad s which).1
      have hused : (shortcut pad s which).1.shortcutUsed pad = s.shortcutUsed pad := by
        funext other
        cases other <;> simp only [shortcutUsed, hsame.shortcuts, hsame.edge, hsame.toggledFfOn]
      rw [hused] at hmarked
      refine ⟨t, hsame.trans ht, hmarks.trans hmarked, ?_⟩
      rw [List.cons_append, runShortcuts_of_continues hcontinues, hrun]

theorem marks_toggleFf :
    Marks (s.shortcutUsed pad .toggleFf) s (shortcut pad s .toggleFf).1 := by
  unfold shortcut shortcutUsed
  dsimp only
  split
  next hnone => simpa [edge, hnone] using Marks.refl s
  next id hid =>
    rw [edge_eq hid, edge_eq hid]
    split
    next hactive =>
      split
      next hpressed =>
        simpa [hactive, hpressed] using marks_fastForward s
          (s.threading.setFastForward (!s.threading.fastForward)) (!s.threading.fastForward)
          (s.shortcuts .toggleFf).mod
      next hpressed =>
        split
        next hreleased =>
          simpa [hactive, hreleased] using marks_ignoreMenuIf s (s.shortcuts .toggleFf).mod
        next hreleased => simpa [hpressed, hreleased] using Marks.refl s
    next hactive => simpa [hactive] using Marks.refl s

theorem marks_holdFf :
    Marks ((s.shortcuts .holdFf).mod && (s.edge pad .holdFf pad.justPressed ||
      !s.toggledFfOn && s.edge pad .holdFf pad.justReleased)) s (shortcut pad s .holdFf).1 := by
  unfold shortcut
  dsimp only
  split
  next hnone => simpa [edge, hnone] using Marks.refl s
  next id hid =>
    rw [edge_eq hid, edge_eq hid]
    split
    next hactive =>
      split
      next hheld =>
        simpa [hactive, hheld] using marks_fastForward s
          (s.threading.setFastForward (has pad.isPressed id)) s.toggledFfOn
          (s.shortcuts .holdFf).mod
      next hheld => simpa [hactive, hheld] using Marks.refl s
    next hactive => simpa [hactive] using Marks.refl s

/-- What the loop over the shortcuts does to the MENU button. -/
theorem marks_shortcuts (s : Frontend) (pad : Pad) :
    Marks (Shortcut.all.any (s.shortcutUsed pad)) s (runShortcuts pad Shortcut.all s) := by
  obtain ⟨t, hsame, hmarked, hrun⟩ := marks_others pad
    [.saveState, .loadState, .resetGame, .saveQuit, .cycleScale, .cycleEffect]
    [.toggleFf, .holdFf] (by decide) s
  have hsplit : Shortcut.all.any (s.shortcutUsed pad) =
      ([Shortcut.saveState, .loadState, .resetGame, .saveQuit, .cycleScale, .cycleEffect].any
        (s.shortcutUsed pad) || (s.shortcutUsed pad .toggleFf || s.shortcutUsed pad .holdFf)) := by
    simp [Shortcut.all, Bool.or_assoc]
  rw [hsplit, show runShortcuts pad Shortcut.all s = runShortcuts pad [.toggleFf, .holdFf] t
    from hrun]
  apply hmarked.trans
  have hused : t.shortcutUsed pad = s.shortcutUsed pad := by
    funext other
    cases other <;> simp only [shortcutUsed, hsame.shortcuts, hsame.edge, hsame.toggledFfOn]
  rw [← hused]
  have htoggle := @marks_toggleFf t pad
  obtain ⟨hends, hshortcuts, htoggled, -⟩ := @shortcut_toggleFf t pad
  cases hedge : t.edge pad .toggleFf pad.justPressed || t.edge pad .toggleFf pad.justReleased with
  | true =>
      have hhold : t.shortcutUsed pad .holdFf = false := by simp [shortcutUsed, hedge]
      rw [runShortcuts_of_ends (by rw [hends, hedge]), hhold, Bool.or_false]
      exact htoggle
  | false =>
      have hcontinues : (shortcut pad t .toggleFf).2 = false := by rw [hends, hedge]
      obtain ⟨hpressed, hreleased⟩ := Bool.or_eq_false_iff.mp hedge
      have hhold := @marks_holdFf (shortcut pad t .toggleFf).1 pad
      rw [edge_congr hshortcuts, edge_congr hshortcuts, htoggled, hshortcuts] at hhold
      have hsameUse : t.shortcutUsed pad .holdFf = ((t.shortcuts .holdFf).mod &&
          (t.edge pad .holdFf pad.justPressed ||
            !t.toggledAfter pad && t.edge pad .holdFf pad.justReleased)) := by
        simp only [shortcutUsed, toggledAfter, hpressed, hreleased, Bool.or_false,
          Bool.not_false, Bool.true_and, Bool.false_eq_true, if_false]
      rw [runShortcuts_of_continues hcontinues,
        runShortcuts_of_continues (shortcut_holdFf).1, runShortcuts, hsameUse]
      exact htoggle.trans hhold

/-! ### Controls -/

theorem readControl_eq (pad : Pad) (s : Frontend) (mapping : Binding) :
    readControl pad s mapping =
      if s.controlHeld pad mapping then
        ignoreMenuIf { s with buttons := s.buttons ||| Mask.bit 32 mapping.retro } mapping.mod
      else s := by
  unfold readControl controlHeld
  split
  next hnone => simp [hnone]
  next id hid => simp [hid]

theorem marks_readControl (pad : Pad) (s : Frontend) (mapping : Binding) :
    Marks (mapping.mod && s.controlHeld pad mapping) s (readControl pad s mapping) := by
  rw [readControl_eq]
  split
  next hheld =>
    have hset : Marks false s { s with buttons := s.buttons ||| Mask.bit 32 mapping.retro } :=
      ⟨by simp, rfl, rfl, rfl⟩
    simpa [hheld] using hset.trans (marks_ignoreMenuIf _ mapping.mod)
  next hheld => simpa [hheld] using Marks.refl s

theorem controlHeld_congr (h : t.gamepadType = s.gamepadType) :
    t.controlHeld pad = s.controlHeld pad := by
  funext mapping
  simp only [controlHeld, controlPressed, h]

@[simp] theorem ignoreMenuIf_buttons (s : Frontend) (mod : Bool) :
    (s.ignoreMenuIf mod).buttons = s.buttons := by
  cases mod <;> rfl

/-- A bit of the core's mask is that of a held control, or was set before. -/
theorem buttons_controls {bit : Nat} (hbit : bit < 32) (controls : List Binding) (s : Frontend) :
    (controls.foldl (readControl pad) s).buttons.getLsbD bit =
      (s.buttons.getLsbD bit ||
        controls.any fun mapping => s.controlHeld pad mapping && decide (mapping.retro = bit)) := by
  induction controls generalizing s with
  | nil => simp
  | cons mapping rest ih =>
      have hset : (Mask.bit 32 mapping.retro).getLsbD bit = decide (mapping.retro = bit) := by
        by_cases hretro : mapping.retro < 32
        · exact Mask.getLsbD_bit hretro
        · have hne : mapping.retro ≠ bit := by omega
          simp [Mask.bit, hne]
          omega
      rw [List.foldl_cons, ih, controlHeld_congr (marks_readControl pad s mapping).gamepadType,
        readControl_eq, List.any_cons]
      split
      next hheld => simp [hheld, hset, Bool.or_assoc]
      next hheld => simp [hheld]

theorem buttons_readControls {bit : Nat} (hbit : bit < 32) (s : Frontend) :
    (readControls pad s).buttons.getLsbD bit =
      s.controls.any fun mapping => s.controlHeld pad mapping && decide (mapping.retro = bit) := by
  have hheld := @controlHeld_congr s { s with buttons := 0 } pad rfl
  refine (buttons_controls hbit s.controls { s with buttons := 0 }).trans ?_
  have hzero : (0 : BitVec 32).getLsbD bit = false := BitVec.getLsbD_zero
  rw [hheld, show ({ s with buttons := 0 } : Frontend).buttons = 0 from rfl, hzero, Bool.false_or]

/-- One bit of a mask, as the low bit of a word. -/
theorem shift_and_one (mask : BitVec 32) (bit : Nat) :
    mask >>> bit &&& 1#32 = if mask.getLsbD bit then 1#32 else 0#32 := by
  apply BitVec.eq_of_getLsbD_eq
  intro i hi
  rw [BitVec.getLsbD_and, BitVec.getLsbD_ushiftRight, BitVec.getLsbD_one]
  by_cases hzero : i = 0
  · subst hzero
    cases mask.getLsbD bit <;> simp
  · cases mask.getLsbD bit <;> simp [hzero, BitVec.getLsbD_one]

/-! ### One poll -/

theorem menuPressed_ignoreMenu (pad : Pad) (s : Frontend) :
    (menuPressed pad s).ignoreMenu =
      (has pad.isPressed .menu && (has pad.isPressed .plus || has pad.isPressed .minus) ||
        s.ignoreMenu && !has pad.justPressed .menu) := by
  unfold menuPressed
  cases has pad.isPressed .menu && (has pad.isPressed .plus || has pad.isPressed .minus) with
  | true => rfl
  | false => cases has pad.justPressed .menu <;> simp

theorem menuPressed_frame (pad : Pad) (s : Frontend) :
    (menuPressed pad s).showMenu = s.showMenu ∧ (menuPressed pad s).controls = s.controls ∧
      (menuPressed pad s).gamepadType = s.gamepadType := by
  unfold menuPressed
  split_ifs <;> exact ⟨rfl, rfl, rfl⟩

/-- The state in which the release of MENU is looked at. -/
theorem marks_beforeRelease (s : Frontend) (pad : Pad) :
    let t := runShortcuts pad Shortcut.all (powerEdge pad (menuPressed pad s))
    t.ignoreMenu = (s.combined pad || s.ignoreMenu && !has pad.justPressed .menu) ∧
      t.showMenu = s.showMenu ∧ t.controls = s.controls ∧ t.gamepadType = s.gamepadType := by
  obtain ⟨hshow, hcontrols, hgamepad⟩ := menuPressed_frame pad s
  have hmarks := (marks_powerEdge pad (menuPressed pad s)).trans (marks_shortcuts _ pad)
  have hsame := same_menuPressed pad s
  obtain ⟨htoggled, hshortcuts⟩ := powerEdge_frame pad (menuPressed pad s)
  have hused : (powerEdge pad (menuPressed pad s)).shortcutUsed pad = s.shortcutUsed pad := by
    funext which
    cases which <;>
      simp only [shortcutUsed, hshortcuts, hsame.shortcuts, edge_congr hshortcuts, hsame.edge,
        htoggled, hsame.toggledFfOn]
  rw [hused] at hmarks
  refine ⟨?_, hmarks.showMenu.trans hshow, hmarks.controls.trans hcontrols,
    hmarks.gamepadType.trans hgamepad⟩
  rw [hmarks.ignoreMenu, menuPressed_ignoreMenu, Bool.false_or, combined, Bool.or_assoc,
    Bool.or_assoc, Bool.or_comm (s.ignoreMenu && _)]

theorem menuReleased_spec (pad : Pad) (s : Frontend) :
    (menuReleased pad s).showMenu =
        (s.showMenu || has pad.justReleased .menu && !s.ignoreMenu) ∧
      (menuReleased pad s).ignoreMenu = s.ignoreMenu ∧
      (menuReleased pad s).controls = s.controls ∧
      (menuReleased pad s).gamepadType = s.gamepadType := by
  unfold menuReleased
  cases hignore : s.ignoreMenu <;> cases has pad.justReleased .menu <;> simp [hignore]

def polls (s : Frontend) (pads : List Pad) : Frontend := pads.foldl inputPollCallback s

/-- Each poll with the state it finds. -/
def history (s : Frontend) : List Pad → List (Frontend × Pad)
  | [] => []
  | pad :: rest => (s, pad) :: history (s.inputPollCallback pad) rest

/-- A bound control of the core, held by the pad with MENU where it asks for it. -/
def Holds (s : Frontend) (pad : Pad) (bit : Nat) : Prop :=
  ∃ mapping ∈ s.controls, mapping.retro = bit ∧ ∃ id, mapping.localId = some id ∧
    s.controlPressed pad id = true ∧ (mapping.mod = true → has pad.isPressed .menu = true)

theorem buttons_inputPollCallback (s : Frontend) (pad : Pad) {bit : Nat} (hbit : bit < 32) :
    (s.inputPollCallback pad).buttons.getLsbD bit = true ↔ s.Holds pad bit := by
  obtain ⟨-, -, hcontrols, hgamepad⟩ := marks_beforeRelease s pad
  obtain ⟨-, -, hkeptControls, hkeptGamepad⟩ := menuReleased_spec pad
    (runShortcuts pad Shortcut.all (powerEdge pad (menuPressed pad s)))
  have hheld := @controlHeld_congr _ _ pad (hkeptGamepad.trans hgamepad)
  rw [inputPollCallback, buttons_readControls hbit, hheld, hkeptControls, hcontrols]
  unfold Holds controlHeld active
  simp only [List.any_eq_true, Bool.and_eq_true, decide_eq_true_eq, Option.any_eq_true,
    Bool.or_eq_true, Bool.not_eq_true']
  constructor
  · rintro ⟨mapping, hmem, ⟨id, hid, hpressed, hmod⟩, hretro⟩
    refine ⟨mapping, hmem, hretro, id, hid, hpressed, ?_⟩
    intro hset
    exact hmod.resolve_left (by simp [hset])
  · rintro ⟨mapping, hmem, hretro, id, hid, hpressed, hmod⟩
    refine ⟨mapping, hmem, ⟨id, hid, hpressed, ?_⟩, hretro⟩
    cases hset : mapping.mod with
    | false => exact .inl rfl
    | true => exact .inr (hmod hset)

/-- Asking for one button or for all of them at once tells the core the same: what the player
holds in this poll. -/
theorem inputStateCallback_iff (s : Frontend) (pad : Pad) {id : Nat} (hid : id < 16) :
    ((s.inputPollCallback pad).inputStateCallback pad 0 retroDeviceJoypad 0 id = 1 ↔
        s.Holds pad id) ∧
      ((BitVec.ofInt 16 ((s.inputPollCallback pad).inputStateCallback pad 0 retroDeviceJoypad 0
        retroDeviceIdJoypadMask)).getLsbD id = true ↔ s.Holds pad id) := by
  have hbuttons := buttons_inputPollCallback s pad (show id < 32 by omega)
  rw [← hbuttons]
  have hone : id ≠ retroDeviceIdJoypadMask := by
    unfold retroDeviceIdJoypadMask
    omega
  constructor
  · simp only [inputStateCallback, hone, and_self, if_true, if_false, shift_and_one]
    cases (s.inputPollCallback pad).buttons.getLsbD id <;> simp
  · simp only [inputStateCallback, and_self, if_true, BitVec.ofInt_toInt, BitVec.getLsbD_setWidth,
      hid, decide_true, Bool.true_and]

/-- The A button of the core, on A of the device. -/
theorem inputStateCallback_iff_a :
    let s := start (fun _ => ⟨0, none, false⟩) [⟨8, some .a, false⟩] 3
    let pad := Pad.initial.press .a 0
    ((s.inputPollCallback pad).inputStateCallback pad 0 retroDeviceJoypad 0 8 = 1 ↔
        s.Holds pad 8) ∧
      ((BitVec.ofInt 16 ((s.inputPollCallback pad).inputStateCallback pad 0 retroDeviceJoypad 0
        retroDeviceIdJoypadMask)).getLsbD 8 = true ↔ s.Holds pad 8) :=
  inputStateCallback_iff _ _ (by decide)

end Frontend

end DarkUI.Minarch
