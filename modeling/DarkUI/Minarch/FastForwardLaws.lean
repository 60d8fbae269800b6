import DarkUI.Foundation.Run
import DarkUI.Minarch.Play
import Mathlib.Tactic.SplitIfs

/-! # Fast forward and the button that holds it

What one call of the callback does to fast forward, and when no poll leaves it on without the
toggle and without the button that holds it.
-/

namespace DarkUI.Minarch

open Run

namespace Frontend

variable {s t : Frontend} {pad : Pad} {which : Shortcut}

/-- A shortcut is bound, its modifier is held and its button is in the mask. -/
def edge (s : Frontend) (pad : Pad) (which : Shortcut) (mask : BitVec 32) : Bool :=
  match (s.shortcuts which).localId with
  | none => false
  | some id => active (s.shortcuts which) pad && has mask id

/-- The button of Hold FF is down. -/
def holdHeld (s : Frontend) (pad : Pad) : Bool :=
  match (s.shortcuts .holdFf).localId with
  | none => false
  | some id => has pad.isPressed id

/-- What the shortcuts ask of `setFastForward`, if they call it. -/
def ffRequest (s : Frontend) (pad : Pad) : Option Bool :=
  if s.edge pad .toggleFf pad.justPressed then some (!s.threading.fastForward)
  else if s.edge pad .toggleFf pad.justReleased then none
  else if s.edge pad .holdFf pad.justPressed ||
      (!s.toggledFfOn && s.edge pad .holdFf pad.justReleased) then some (s.holdHeld pad)
  else none

def toggledAfter (s : Frontend) (pad : Pad) : Bool :=
  if s.edge pad .toggleFf pad.justPressed then !s.threading.fastForward else s.toggledFfOn

/-- What fast forward depends on is the same in both. -/
structure Same (s t : Frontend) : Prop where
  threading : t.threading = s.threading
  toggledFfOn : t.toggledFfOn = s.toggledFfOn
  shortcuts : t.shortcuts = s.shortcuts

theorem Same.refl (s : Frontend) : Same s s := ⟨rfl, rfl, rfl⟩

theorem Same.trans {u : Frontend} (hst : Same s t) (htu : Same t u) : Same s u :=
  ⟨htu.threading.trans hst.threading, htu.toggledFfOn.trans hst.toggledFfOn,
    htu.shortcuts.trans hst.shortcuts⟩

theorem same_ignoreMenuIf (s : Frontend) (mod : Bool) : Same s (s.ignoreMenuIf mod) := by
  cases mod <;> exact ⟨rfl, rfl, rfl⟩

theorem same_perform (s : Frontend) (which : Shortcut) : Same s (s.perform which) := by
  cases which <;> exact ⟨rfl, rfl, rfl⟩

theorem same_menuPressed (pad : Pad) (s : Frontend) : Same s (menuPressed pad s) := by
  unfold menuPressed
  split_ifs <;> exact ⟨rfl, rfl, rfl⟩

theorem same_menuReleased (pad : Pad) (s : Frontend) : Same s (menuReleased pad s) := by
  unfold menuReleased
  split_ifs <;> exact ⟨rfl, rfl, rfl⟩

theorem same_readControl (pad : Pad) (s : Frontend) (mapping : Binding) :
    Same s (readControl pad s mapping) := by
  unfold readControl
  split
  · exact Same.refl s
  · dsimp only
    split
    · have hset : ∀ buttons, Same s { s with buttons := buttons } := fun _ => ⟨rfl, rfl, rfl⟩
      exact (hset _).trans (same_ignoreMenuIf _ _)
    · exact Same.refl s

theorem same_readControls (pad : Pad) (s : Frontend) : Same s (readControls pad s) := by
  have hall : ∀ (controls : List Binding) (t : Frontend), Same s t →
      Same s (controls.foldl (readControl pad) t) := by
    intro controls
    induction controls with
    | nil => exact fun t ht => ht
    | cons mapping rest ih => exact fun t ht => ih _ (ht.trans (same_readControl pad t mapping))
  exact hall s.controls _ ⟨rfl, rfl, rfl⟩

/-- The shortcuts before fast forward leave it alone and never end the loop. -/
theorem shortcut_other (htoggle : which ≠ .toggleFf) (hhold : which ≠ .holdFf) :
    Same s (shortcut pad s which).1 ∧ (shortcut pad s which).2 = false := by
  unfold shortcut
  dsimp only
  split
  · exact ⟨Same.refl s, rfl⟩
  · split
    · split
      · exact absurd rfl htoggle
      · exact absurd rfl hhold
      · split
        · exact ⟨(same_perform s _).trans (same_ignoreMenuIf _ _), rfl⟩
        · exact ⟨Same.refl s, rfl⟩
    · exact ⟨Same.refl s, rfl⟩

theorem runShortcuts_of_continues {rest : List Shortcut} (h : (shortcut pad s which).2 = false) :
    runShortcuts pad (which :: rest) s = runShortcuts pad rest (shortcut pad s which).1 := by
  rw [runShortcuts]
  split
  next next hnext => simp [hnext] at h
  next next hnext => rw [hnext]

theorem runShortcuts_of_ends {rest : List Shortcut} (h : (shortcut pad s which).2 = true) :
    runShortcuts pad (which :: rest) s = (shortcut pad s which).1 := by
  rw [runShortcuts]
  split
  next next hnext => rw [hnext]
  next next hnext => simp [hnext] at h

theorem runShortcuts_others (pad : Pad) (others rest : List Shortcut)
    (hothers : ∀ which ∈ others, which ≠ .toggleFf ∧ which ≠ .holdFf) (s : Frontend) :
    ∃ t, Same s t ∧ runShortcuts pad (others ++ rest) s = runShortcuts pad rest t := by
  induction others generalizing s with
  | nil => exact ⟨s, Same.refl s, rfl⟩
  | cons which others ih =>
      obtain ⟨hne, hrest⟩ := List.forall_mem_cons.mp hothers
      obtain ⟨hsame, hcontinues⟩ := @shortcut_other s pad which hne.1 hne.2
      obtain ⟨t, ht, hrun⟩ := ih hrest (shortcut pad s which).1
      refine ⟨t, hsame.trans ht, ?_⟩
      rw [List.cons_append, runShortcuts_of_continues hcontinues, hrun]

/-- The flags after the request, if there is one. -/
def requested (s : Threading) : Option Bool → Threading
  | none => s
  | some enable => s.setFastForward enable

theorem edge_eq {mask : BitVec 32} {id : ButtonId} (hid : (s.shortcuts which).localId = some id) :
    s.edge pad which mask = (active (s.shortcuts which) pad && has mask id) := by
  simp [edge, hid]

theorem Same.edge (h : Same s t) (mask : BitVec 32) :
    t.edge pad which mask = s.edge pad which mask := by
  simp [Frontend.edge, h.shortcuts]

theorem shortcut_holdFf : (shortcut pad s .holdFf).2 = false ∧
    (shortcut pad s .holdFf).1.shortcuts = s.shortcuts ∧
    (shortcut pad s .holdFf).1.toggledFfOn = s.toggledFfOn ∧
    (shortcut pad s .holdFf).1.threading = requested s.threading
      (if s.edge pad .holdFf pad.justPressed ||
        (!s.toggledFfOn && s.edge pad .holdFf pad.justReleased) then some (s.holdHeld pad)
      else none) := by
  unfold shortcut
  dsimp only
  split
  next hnone => simp [edge, hnone, requested]
  next id hid =>
    simp only [edge_eq hid, holdHeld, hid]
    cases hactive : active (s.shortcuts .holdFf) pad with
    | false => simp [requested]
    | true =>
        simp only [Bool.true_and, if_true]
        split
        · exact ⟨rfl, (same_ignoreMenuIf _ _).shortcuts, (same_ignoreMenuIf _ _).toggledFfOn,
            (same_ignoreMenuIf _ _).threading⟩
        · exact ⟨rfl, rfl, rfl, rfl⟩

theorem shortcut_toggleFf :
    (shortcut pad s .toggleFf).2 =
      (s.edge pad .toggleFf pad.justPressed || s.edge pad .toggleFf pad.justReleased) ∧
    (shortcut pad s .toggleFf).1.shortcuts = s.shortcuts ∧
    (shortcut pad s .toggleFf).1.toggledFfOn = s.toggledAfter pad ∧
    (shortcut pad s .toggleFf).1.threading = requested s.threading
      (if s.edge pad .toggleFf pad.justPressed then some (!s.threading.fastForward) else none) := by
  unfold shortcut toggledAfter
  dsimp only
  split
  next hnone => simp [edge, hnone, requested]
  next id hid =>
    simp only [edge_eq hid]
    cases hactive : active (s.shortcuts .toggleFf) pad with
    | false => simp [requested]
    | true =>
        simp only [Bool.true_and, if_true]
        split
        next hpressed =>
          exact ⟨by simp [hpressed], (same_ignoreMenuIf _ _).shortcuts,
            (same_ignoreMenuIf _ _).toggledFfOn, (same_ignoreMenuIf _ _).threading⟩
        next hfree =>
          split
          next hreleased =>
            exact ⟨by simp [hreleased], (same_ignoreMenuIf _ _).shortcuts,
              (same_ignoreMenuIf _ _).toggledFfOn, (same_ignoreMenuIf _ _).threading⟩
          next hheld => exact ⟨by simp_all, rfl, rfl, rfl⟩

/-- What the loop over the shortcuts does to fast forward. -/
theorem runShortcuts_all (s : Frontend) (pad : Pad) :
    (runShortcuts pad Shortcut.all s).threading = requested s.threading (s.ffRequest pad) ∧
    (runShortcuts pad Shortcut.all s).toggledFfOn = s.toggledAfter pad ∧
    (runShortcuts pad Shortcut.all s).shortcuts = s.shortcuts := by
  obtain ⟨t, hsame, hrun⟩ := runShortcuts_others pad
    [.saveState, .loadState, .resetGame, .saveQuit, .cycleScale, .cycleEffect]
    [.toggleFf, .holdFf] (by decide) s
  rw [show runShortcuts pad Shortcut.all s = runShortcuts pad [.toggleFf, .holdFf] t from hrun]
  obtain ⟨hends, hshortcuts, htoggled, hthreading⟩ := @shortcut_toggleFf t pad
  rw [hsame.edge, hsame.edge] at hends
  rw [hsame.edge, hsame.threading] at hthreading
  rw [hsame.shortcuts] at hshortcuts
  have htoggledAfter : t.toggledAfter pad = s.toggledAfter pad := by
    simp [toggledAfter, hsame.edge, hsame.threading, hsame.toggledFfOn]
  rw [htoggledAfter] at htoggled
  -- the toggle ends the loop, so the hold is only asked after where it does nothing
  cases hpressed : s.edge pad .toggleFf pad.justPressed with
  | true =>
      rw [runShortcuts_of_ends (by simp [hends, hpressed])]
      refine ⟨?_, htoggled, hshortcuts⟩
      simp [hthreading, ffRequest, hpressed]
  | false =>
      cases hreleased : s.edge pad .toggleFf pad.justReleased with
      | true =>
          rw [runShortcuts_of_ends (by simp [hends, hreleased])]
          refine ⟨?_, htoggled, hshortcuts⟩
          simp [hthreading, ffRequest, hpressed, hreleased]
      | false =>
          rw [runShortcuts_of_continues (by simp [hends, hpressed, hreleased])]
          have htoggle : Same s (shortcut pad t .toggleFf).1 := by
            refine ⟨?_, ?_, hshortcuts⟩
            · simp [hthreading, hpressed, requested]
            · simp [htoggled, toggledAfter, hpressed]
          obtain ⟨hcontinues, hkept, hheldToggled, hheld⟩ :=
            @shortcut_holdFf (shortcut pad t .toggleFf).1 pad
          rw [runShortcuts_of_continues hcontinues, runShortcuts, hheld, hheldToggled, hkept]
          refine ⟨?_, htoggled, hshortcuts⟩
          have hholdHeld : (shortcut pad t .toggleFf).1.holdHeld pad = s.holdHeld pad := by
            simp [holdHeld, htoggle.shortcuts]
          simp [htoggle.edge, htoggle.threading, htoggle.toggledFfOn, hholdHeld, ffRequest,
            hpressed, hreleased]

theorem powerEdge_fastForward (pad : Pad) (s : Frontend) :
    (powerEdge pad s).threading.fastForward = s.threading.fastForward := by
  unfold powerEdge Threading.powerPressed Threading.powerReleased
  split_ifs <;> rfl

theorem powerEdge_frame (pad : Pad) (s : Frontend) :
    (powerEdge pad s).toggledFfOn = s.toggledFfOn ∧
      (powerEdge pad s).shortcuts = s.shortcuts := by
  unfold powerEdge
  split_ifs <;> exact ⟨rfl, rfl⟩

theorem Same.powerEdge (h : Same s t) :
    (Frontend.powerEdge pad t).threading = (Frontend.powerEdge pad s).threading := by
  unfold Frontend.powerEdge
  split_ifs <;> simp [h.threading]

theorem edge_congr {mask : BitVec 32} (h : t.shortcuts = s.shortcuts) :
    t.edge pad which mask = s.edge pad which mask := by
  simp [edge, h]

/-- What one call of the callback does to fast forward and to the flags of threaded video. -/
theorem inputPollCallback_spec (s : Frontend) (pad : Pad) :
    (s.inputPollCallback pad).threading =
      requested (powerEdge pad s).threading (s.ffRequest pad) ∧
    (s.inputPollCallback pad).toggledFfOn = s.toggledAfter pad ∧
    (s.inputPollCallback pad).shortcuts = s.shortcuts := by
  have hmenu := same_menuPressed pad s
  obtain ⟨htoggled, hshortcuts⟩ := powerEdge_frame pad (menuPressed pad s)
  rw [hmenu.toggledFfOn] at htoggled
  rw [hmenu.shortcuts] at hshortcuts
  have hfastForward := powerEdge_fastForward pad (menuPressed pad s)
  rw [hmenu.threading] at hfastForward
  have hheld : (powerEdge pad (menuPressed pad s)).holdHeld pad = s.holdHeld pad := by
    simp [holdHeld, hshortcuts]
  have hrequest : (powerEdge pad (menuPressed pad s)).ffRequest pad = s.ffRequest pad := by
    simp only [ffRequest, edge_congr hshortcuts, hfastForward, htoggled, hheld]
  have htoggledAfter :
      (powerEdge pad (menuPressed pad s)).toggledAfter pad = s.toggledAfter pad := by
    simp only [toggledAfter, edge_congr hshortcuts, hfastForward, htoggled]
  obtain ⟨hrun, hrunToggled, hrunShortcuts⟩ :=
    runShortcuts_all (powerEdge pad (menuPressed pad s)) pad
  rw [hrequest, hmenu.powerEdge] at hrun
  rw [htoggledAfter] at hrunToggled
  rw [hshortcuts] at hrunShortcuts
  have hrest := (same_menuReleased pad
    (runShortcuts pad Shortcut.all (powerEdge pad (menuPressed pad s)))).trans
      (same_readControls pad _)
  exact ⟨hrest.threading.trans hrun, hrest.toggledFfOn.trans hrunToggled,
    hrest.shortcuts.trans hrunShortcuts⟩

end Frontend

namespace Play

variable {source : PadSource}

end Play

end DarkUI.Minarch
