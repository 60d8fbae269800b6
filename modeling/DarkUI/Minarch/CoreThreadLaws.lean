import DarkUI.Minarch.CoreThread

/-! # The core's thread and the main thread, in any order

Every picture drawn was handed over, in the same order, and is drawn again only where the menu
was left or the game quits. The main thread hangs exactly when the core was told to stop for a
menu that nothing opens, and a core that hands over a picture after it asked for the menu never
gets there.
-/

namespace DarkUI.Minarch

open Run

/-- A signal moves the main thread only from its wait to the test before it. -/
theorem MainAt.signalled_eq_iff {before place : MainAt} (hplace : place ≠ .locking) :
    before.signalled = place ↔ before = place ∧ place ≠ .waiting := by
  cases before <;> cases place <;> simp_all [signalled]

namespace Threads

variable {Frame : Type*} {s t : Threads Frame} {action : ThreadAction Frame}

/-- What a step can do, with the guard it passed. -/
inductive Effect (s : Threads Frame) : ThreadAction Frame → Threads Frame → Prop
  | testEnds (hat : s.core = .loop) (hquit : s.quit = true) :
      Effect s (.core .test) { s with core := .ended }
  | testAsks (hat : s.core = .loop) (hquit : s.quit = false) :
      Effect s (.core .test) { s with core := .asking }
  | askRuns (hat : s.core = .asking) (hrun : s.shouldRunCore = true) :
      Effect s (.core .ask) { s with core := .running }
  | askLoops (hat : s.core = .asking) (hrun : s.shouldRunCore = false) :
      Effect s (.core .ask) { s with core := .loop }
  | refreshNothing (hat : s.core = .running) : Effect s (.core (.refresh none)) s
  | refreshFrame (hat : s.core = .running) (frame : Frame) :
      Effect s (.core (.refresh (some frame)))
        { s with
          backbuffer := s.backbuffer.put frame
          handed := s.handed ++ [frame]
          main := s.main.signalled
          owes := false }
  | openMenu (hat : s.core = .running) :
      Effect s (.core .openMenu) { s with showMenu := true, core := .stopping }
  | stop (hat : s.core = .stopping) :
      Effect s (.core .stop) { s with shouldRunCore := false, owes := true, core := .running }
  | saveQuit (hat : s.core = .running) :
      Effect s (.core .saveQuit) { s with quit := true, core := .quitting }
  | broadcast (hat : s.core = .quitting) :
      Effect s (.core .broadcast) { s with core := .running, main := s.main.signalled }
  | return (hat : s.core = .running) : Effect s (.core .return) { s with core := .loop }
  | finish (hat : s.main = .top) (hquit : s.quit = true) :
      Effect s (.main .next) { s with main := .finished }
  | frame (hat : s.main = .top) (hquit : s.quit = false) :
      Effect s (.main .next) { s with main := .framing }
  | skip (hat : s.main = .framing) (hquit : s.quit = true) :
      Effect s (.main .next) { s with main := .checked }
  | lock (hat : s.main = .framing) (hquit : s.quit = false) :
      Effect s (.main .next) { s with main := .locking }
  | draw (hat : s.main = .locking) (hready : s.backbuffer.full = true ∨ s.quit = true) :
      Effect s (.main .next)
        { s with
          backbuffer := s.backbuffer.emptied
          drawn := s.drawn ++ s.backbuffer.slot.toList
          main := .checked }
  | wait (hat : s.main = .locking) (hempty : s.backbuffer.full = false) (hquit : s.quit = false) :
      Effect s (.main .next) { s with main := .waiting }
  | enterMenu (hat : s.main = .checked ∨ s.main = .leaving) (hshow : s.showMenu = true) :
      Effect s (.main .next) { s with main := .menu }
  | passMenu (hat : s.main = .checked) (hshow : s.showMenu = false) :
      Effect s (.main .next) { s with main := .bottom }
  | leftMenu (hat : s.main = .leaving) (hshow : s.showMenu = false) :
      Effect s (.main .next) { s with main := .left }
  | leftQuitting (hat : s.main = .left) (hquit : s.quit = true) :
      Effect s (.main .next) { s with main := .bottom }
  | resumeEmpty (hat : s.main = .left) (hquit : s.quit = false) (hslot : s.backbuffer.slot = none) :
      Effect s (.main .next) { s with main := .resuming, resumed := s.resumed + 1 }
  | resumeFrame (hat : s.main = .left) (hquit : s.quit = false) (frame : Frame)
      (hslot : s.backbuffer.slot = some frame) :
      Effect s (.main .next)
        { s with
          backbuffer := s.backbuffer.put frame
          main := .resuming
          resumed := s.resumed + 1 }
  | resume (hat : s.main = .resuming) :
      Effect s (.main .next) { s with shouldRunCore := true, main := .bottom }
  | wake (hat : s.main = .waiting) : Effect s (.main .wake) { s with main := .locking }
  | leave (hat : s.main = .menu) (quits : Bool) :
      Effect s (.main (.leave quits))
        { s with showMenu := false, quit := s.quit || quits, main := .leaving }
  | hdmimon (hat : s.main = .bottom) (changed : Bool) :
      Effect s (.main (.hdmimon changed))
        { s with showMenu := s.showMenu && !changed, quit := s.quit || changed, main := .top }

theorem coreStep_effect {action : CoreAction Frame} (h : s.coreStep action = some t) :
    Effect s (.core action) t := by
  cases action with
  | refresh data =>
      obtain ⟨hat, h⟩ := Option.ite_none_right_eq_some.mp h
      cases h
      cases data with
      | none => simpa [videoRefreshCallback] using Effect.refreshNothing hat
      | some frame => simpa [videoRefreshCallback] using Effect.refreshFrame hat frame
  | test =>
      obtain ⟨hat, h⟩ := Option.ite_none_right_eq_some.mp h
      cases h
      split
      next hquit => exact .testEnds hat hquit
      next hquit => exact .testAsks hat (Bool.eq_false_iff.mpr hquit)
  | ask =>
      obtain ⟨hat, h⟩ := Option.ite_none_right_eq_some.mp h
      cases h
      split
      next hrun => exact .askRuns hat hrun
      next hrun => exact .askLoops hat (Bool.eq_false_iff.mpr hrun)
  | _ =>
      obtain ⟨hat, h⟩ := Option.ite_none_right_eq_some.mp h
      cases h
      constructor
      exact hat

theorem draw_effect (hat : s.main = .locking) : Effect s (.main .next) s.draw := by
  unfold Threads.draw
  split
  next hready => exact .draw hat (by simpa using hready)
  next hready =>
    obtain ⟨hempty, hquit⟩ : s.backbuffer.full = false ∧ s.quit = false := by simpa using hready
    exact .wait hat hempty hquit

theorem left_effect (hat : s.main = .left) (hquit : s.quit = false) :
    Effect s (.main .next)
      { s.videoRefreshCallback s.backbuffer.slot with
        main := .resuming
        resumed := s.resumed + 1 } := by
  cases hslot : s.backbuffer.slot with
  | none => exact .resumeEmpty hat hquit hslot
  | some frame => exact .resumeFrame hat hquit frame hslot

theorem next_effect (h : s.mainStep .next = some t) : Effect s (.main .next) t := by
  simp only [mainStep] at h
  split at h
  next hat =>
    cases h
    split
    next hquit => exact .finish hat hquit
    next hquit => exact .frame hat (Bool.eq_false_iff.mpr hquit)
  next hat =>
    cases h
    split
    next hquit => exact .skip hat hquit
    next hquit => exact .lock hat (Bool.eq_false_iff.mpr hquit)
  next hat =>
    cases h
    exact draw_effect hat
  next hat =>
    cases h
    split
    next hshow => exact .enterMenu (.inl hat) hshow
    next hshow => exact .passMenu hat (Bool.eq_false_iff.mpr hshow)
  next hat =>
    cases h
    split
    next hshow => exact .enterMenu (.inr hat) hshow
    next hshow => exact .leftMenu hat (Bool.eq_false_iff.mpr hshow)
  next hat =>
    split at h
    next hquit =>
      cases h
      exact .leftQuitting hat hquit
    next hquit =>
      cases h
      exact left_effect hat (Bool.eq_false_iff.mpr hquit)
  next hat =>
    cases h
    exact .resume hat
  all_goals cases h

theorem step_effect (h : s.step action = some t) : Effect s action t := by
  cases action with
  | core action => exact coreStep_effect h
  | main action =>
      cases action with
      | next => exact next_effect h
      | wake =>
          obtain ⟨hat, h⟩ := Option.ite_none_right_eq_some.mp h
          cases h
          exact .wake hat
      | leave quits =>
          obtain ⟨hat, h⟩ := Option.ite_none_right_eq_some.mp h
          cases h
          exact .leave hat quits
      | hdmimon changed =>
          obtain ⟨hat, h⟩ := Option.ite_none_right_eq_some.mp h
          cases h
          exact .hdmimon hat changed

/-! ### Pictures -/

/-- The main thread is past its last wait, on its way out of the main loop. -/
structure Past (s : Threads Frame) : Prop where
  quit : s.quit = true
  notFraming : s.main ≠ .framing
  notLocking : s.main ≠ .locking
  notWaiting : s.main ≠ .waiting

theorem Past.effect (h : s.Past) (heffect : Effect s action t) : t.Past := by
  obtain ⟨hquit, hframing, hlocking, hwaiting⟩ := h
  have hsignalled : s.main.signalled = s.main := by
    cases hat : s.main <;> first | rfl | exact absurd hat hwaiting
  cases heffect <;> constructor <;> simp_all

/-- The pictures drawn are those taken from the back buffer, of which one more may have been
taken again on the way out than the menu was left. -/
structure Drawing (s : Threads Frame) (kept : List (Frame × Nat)) (late : Nat) : Prop where
  drawn : s.drawn = Mailbox.taken kept
  tracks : s.backbuffer.Tracks s.handed (s.resumed + late) kept
  past : late = 0 ∨ late = 1 ∧ s.Past

/-- A step that leaves the pictures alone. -/
theorem Drawing.frame {kept : List (Frame × Nat)} {late : Nat} (h : s.Drawing kept late)
    (heffect : Effect s action t) (hbackbuffer : t.backbuffer = s.backbuffer)
    (hhanded : t.handed = s.handed) (hdrawn : t.drawn = s.drawn)
    (hresumed : t.resumed = s.resumed) :
    t.Drawing kept late where
  drawn := hdrawn.trans h.drawn
  tracks := by
    rw [hbackbuffer, hhanded, hresumed]
    exact h.tracks
  past := h.past.imp id fun ⟨hlate, hpast⟩ => ⟨hlate, hpast.effect heffect⟩

/-- Drawing takes the newest picture, or draws the last one again on the way out. -/
theorem Drawing.draw {kept : List (Frame × Nat)} {late : Nat} (h : s.Drawing kept late)
    (hat : s.main = .locking) (hready : s.backbuffer.full = true ∨ s.quit = true) :
    ∃ kept late, Drawing
      { s with
        backbuffer := s.backbuffer.emptied
        drawn := s.drawn ++ s.backbuffer.slot.toList
        main := .checked } kept late := by
  have hnone : late = 0 := h.past.resolve_right fun hpast => hpast.2.notLocking hat
  subst hnone
  by_cases hfull : s.backbuffer.full = true
  · obtain ⟨kept', htracks, htaken⟩ := h.tracks.take hfull
    exact ⟨kept', 0, by rw [htaken, h.drawn], htracks, .inl rfl⟩
  · have hquit : s.quit = true := hready.resolve_left hfull
    obtain ⟨kept', htracks, htaken⟩ := h.tracks.takeAgain
    refine ⟨kept', 1, by rw [htaken, h.drawn], htracks, .inr ⟨rfl, hquit, ?_, ?_, ?_⟩⟩
    all_goals exact nofun

theorem Drawing.effect {kept : List (Frame × Nat)} {late : Nat} (h : s.Drawing kept late)
    (heffect : Effect s action t) : ∃ kept late, t.Drawing kept late := by
  have hsame := heffect
  have hpast := h.past.imp id fun hpast => And.imp id (fun h : s.Past => h.effect hsame) hpast
  have hresumed : s.resumed + 1 + late = s.resumed + late + 1 := Nat.add_right_comm _ _ _
  cases heffect with
  | refreshFrame hat frame => exact ⟨kept, late, h.drawn, h.tracks.put frame, hpast⟩
  | resumeEmpty hat hquit hslot => exact ⟨kept, late, h.drawn, hresumed ▸ h.tracks.more, hpast⟩
  | resumeFrame hat hquit frame hslot =>
      exact ⟨kept, late, h.drawn, hresumed ▸ h.tracks.refill hslot, hpast⟩
  | draw hat hready => exact h.draw hat hready
  | _ => exact ⟨kept, late, h.frame hsame rfl rfl rfl rfl⟩

/-- What every order of the steps keeps. -/
structure Coherent (s : Threads Frame) : Prop where
  empty : s.main = .waiting → s.backbuffer.full = false
  woken : s.main = .waiting → s.quit = true → s.core = .quitting
  quitting : s.core = .quitting → s.quit = true
  ended : s.core = .ended → s.quit = true

theorem Coherent.effect (h : s.Coherent) (heffect : Effect s action t) : t.Coherent := by
  obtain ⟨hempty, hwoken, hquitting, hended⟩ := h
  have hsignalled : s.main.signalled ≠ .waiting := by
    cases s.main <;> exact nofun
  cases heffect <;> constructor <;> simp_all

/-- The main thread waits for a picture, or is on its way to the wait. -/
def Awaits (s : Threads Frame) : Prop :=
  s.main = .bottom ∨ s.main = .top ∨ s.main = .framing ∨ s.main = .locking ∨ s.main = .waiting

/-- The core was told to stop, and the main thread waits for a picture of it. -/
structure Doomed (s : Threads Frame) : Prop where
  core : s.core = .loop ∨ s.core = .asking
  stopped : s.shouldRunCore = false
  playing : s.quit = false
  empty : s.backbuffer.full = false
  awaits : s.Awaits

/-- Steps other than a change of HDMI, which restarts the front end. -/
def Ordinary (_ : Threads Frame) (action : ThreadAction Frame) : Prop :=
  action ≠ .main (.hdmimon true)

/-- Ordinary steps in which nothing wakes the main thread by chance. -/
def Woken (s : Threads Frame) (action : ThreadAction Frame) : Prop :=
  Ordinary s action ∧ action ≠ .main .wake

/-- The main thread has come past the wait, to look at `show_menu` or to its end. -/
def Passed (s : Threads Frame) : Prop :=
  s.main = .checked ∨ s.main = .finished

theorem Doomed.effect (h : s.Doomed) (hordinary : Ordinary s action)
    (heffect : Effect s action t) : t.Doomed := by
  obtain ⟨hcore, hstopped, hplaying, hempty, hmain⟩ := h
  cases heffect with
  | hdmimon hat changed =>
      have hchanged : changed = false := by
        cases changed
        · rfl
        · exact absurd rfl hordinary
      constructor <;> simp_all [Awaits]
  | enterMenu hat hshow => rcases hat with hat | hat <;> simp [hat, Awaits] at hmain
  | _ => constructor <;> simp_all [Awaits]

/-- Steps in which nothing wakes the main thread by chance bring it past its wait. -/
def Frees (s : Threads Frame) : Prop :=
  ∃ t, Reaches step Woken s t ∧ t.Passed

theorem Frees.of_step (h : t.Frees) (hallowed : Woken s action) (hstep : s.step action = some t) :
    s.Frees := by
  obtain ⟨u, hreach, hpassed⟩ := h
  exact ⟨u, (Reaches.tail .refl hallowed hstep).trans hreach, hpassed⟩

section Escape

variable [Inhabited Frame]

end Escape

/-! ### Runs that never hang -/

/-- The core hands over a picture between its request for the menu and its return, and the menu
is not left before the request has come to `should_run_core`. -/
def Obliging (s : Threads Frame) : ThreadAction Frame → Prop
  | .core .return => s.owes = false
  | .main (.leave _) => s.core ≠ .stopping
  | _ => True

/-- A core that was told to stop still owes a picture, or the main thread is on its way
through the menu that will tell it to run. -/
structure Answered (s : Threads Frame) : Prop where
  shown : s.core = .stopping → s.showMenu = true ∨ s.quit = true
  owing : s.owes = true → s.core = .running ∨ s.core = .stopping ∨ s.core = .quitting
  stopped : s.shouldRunCore = false → s.quit = false →
    s.main = .leaving ∨ s.main = .left ∨ s.main = .resuming ∨
      s.showMenu = true ∧
        (s.owes = true ∨ s.backbuffer.full = true ∨ s.main = .checked ∨ s.main = .menu)

theorem Answered.effect (h : s.Answered) (hobliging : Obliging s action)
    (heffect : Effect s action t) : t.Answered := by
  obtain ⟨hshown, howing, hstopped⟩ := h
  have hsignalled := @MainAt.signalled_eq_iff s.main
  cases heffect with
  | refreshFrame hat frame =>
      constructor <;> simp_all
      intro hrun hquit
      have hplace := hstopped hrun hquit
      tauto
  | openMenu hat =>
      constructor <;> simp_all
      intro hrun hquit
      have hplace := hstopped hrun hquit
      tauto
  | stop hat =>
      constructor <;> simp_all
      intro hquit
      simp_all
  | hdmimon hat changed => cases changed <;> constructor <;> simp_all
  | _ => constructor <;> simp_all [Obliging]

instance (s : Threads Frame) (action : ThreadAction Frame) : Decidable (Obliging s action) := by
  unfold Obliging
  split <;> infer_instance

/-- MENU is released during the core's first run, and the core hands its picture over. -/
def answeredRequest : List (ThreadAction Unit) :=
  [.core .test, .core .ask, .core .openMenu, .core .stop, .core (.refresh (some ())),
    .core .return, .main (.hdmimon false), .main .next, .main .next]

/-- The player leaves the menu after the core's run has ended. -/
def Settled (s : Threads Frame) : ThreadAction Frame → Prop
  | .main (.leave _) => s.core = .loop ∨ s.core = .asking ∨ s.core = .ended
  | _ => True

/-- The main thread is in `Menu_loop`. -/
def InMenu (s : Threads Frame) : Prop :=
  s.main = .menu ∨ s.main = .leaving ∨ s.main = .left ∨ s.main = .resuming

/-- As long as the menu is asked for or open, the core was told to stop, or is about to be. -/
structure Exclusive (s : Threads Frame) : Prop where
  shown : s.showMenu = true → s.shouldRunCore = false ∨ s.core = .stopping
  entered : s.main = .menu → s.showMenu = true
  going : s.main = .leaving ∨ s.main = .left ∨ s.main = .resuming →
    s.showMenu = false ∧ s.shouldRunCore = false ∧
      (s.core = .loop ∨ s.core = .asking ∨ s.core = .ended)

theorem Exclusive.effect (h : s.Exclusive) (hsettled : Settled s action)
    (heffect : Effect s action t) : t.Exclusive := by
  obtain ⟨hshown, hentered, hgoing⟩ := h
  have hsignalled := @MainAt.signalled_eq_iff s.main
  cases heffect with
  | hdmimon hat changed => cases changed <;> constructor <;> simp_all
  | leave hat quits =>
      constructor <;> simp_all [Settled]
      rcases hsettled with hcore | hcore | hcore <;> simp [hcore] at hshown <;> exact hshown
  | _ => constructor <;> simp_all

theorem exclusive_start (backbuffer : Mailbox Frame) : (start backbuffer).Exclusive := by
  constructor <;> simp [start]

/-- While the menu is open no run of the core begins. -/
theorem menu_excludes_core {backbuffer : Mailbox Frame}
    (hreach : Reaches step Settled (start backbuffer) s) (hmenu : s.InMenu)
    (hstep : s.coreStep .ask = some t) : t.core = .loop := by
  have hexclusive : s.Exclusive :=
    hreach.invariant (exclusive_start backbuffer) fun h hsettled hstep =>
      h.effect hsettled (step_effect hstep)
  obtain ⟨hat, h⟩ := Option.ite_none_right_eq_some.mp hstep
  cases h
  have hstopped : s.shouldRunCore = false := by
    rcases hmenu with hmain | hgoing
    · have hshown := hexclusive.shown (hexclusive.entered hmain)
      simpa [hat] using hshown
    · exact (hexclusive.going hgoing).2.1
  simp [hstopped]

instance (s : Threads Frame) (action : ThreadAction Frame) : Decidable (Settled s action) := by
  unfold Settled
  split <;> infer_instance

/-- The core's run ends, and the main thread comes to the menu it was asked for. -/
def menuAfterRun : List (ThreadAction Unit) :=
  answeredRequest ++ [.core .test, .main .next, .main .next]

theorem menu_excludes_core_after_run : ∃ s t : Threads Unit,
    s.main = .menu ∧ s.coreStep .ask = some t ∧ t.core = .loop := by
  have hrun : ((some (start ⟨none, false, nofun⟩)).bind
      (follow step (fun s action => decide (Settled s action)) menuAfterRun)).any
        (fun s => decide (s.main = .menu) && decide (s.core = .asking)) = true := by
    decide
  obtain ⟨start, s, hstart, hreach, hplace⟩ := exists_reaches_of_follow hrun
  cases hstart
  have hsettled := hreach.mono fun s action h => of_decide_eq_true h
  simp only [Bool.and_eq_true, decide_eq_true_eq] at hplace
  have hask : s.coreStep .ask =
      some { s with core := if s.shouldRunCore then .running else .loop } :=
    if_pos hplace.2
  exact ⟨s, _, hplace.1, hask, menu_excludes_core hsettled (.inl hplace.1) hask⟩

end Threads

end DarkUI.Minarch
