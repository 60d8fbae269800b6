import DarkUI.Foundation.Mailbox
import DarkUI.Foundation.Run

/-! # The core on a thread of its own

With threaded video the core runs on a second thread: it leaves its pictures in the back buffer
for the main thread to draw, and the main thread opens the menu when the core's poll of the pad
asked for it. The two meet under one lock, and any order of their sections is possible.
-/

namespace DarkUI.Minarch

open Run

/-- Where the core's thread stands: before a test of `quit`, before it reads
`should_run_core`, inside `core.run`, between `show_menu = 1` and the section that clears
`should_run_core`, between `quit = 1` and its broadcast, and at its end. -/
inductive CoreAt
  | loop | asking | running | stopping | quitting | ended
  deriving DecidableEq, Repr

/-- Where the main thread stands. In the menu: before `show_menu` is cleared, before the loop
tests it, before `quit` is tested, and before `should_run_core` is set. -/
inductive MainAt
  | top | framing | locking | waiting | checked | menu | leaving | left | resuming | bottom
  | finished
  deriving DecidableEq, Repr

/-- What a signal on `core_rq` does to the main thread. -/
def MainAt.signalled : MainAt → MainAt
  | .waiting => .locking
  | other => other

/-- What the two threads share and where each stands, with the pictures the core handed over,
the pictures drawn, how often the menu was left with the game going on, and whether the core has
handed over none since it asked for the menu. -/
structure Threads (Frame : Type*) where
  backbuffer : Mailbox Frame
  shouldRunCore : Bool
  showMenu : Bool
  quit : Bool
  core : CoreAt
  main : MainAt
  handed : List Frame
  drawn : List Frame
  resumed : Nat
  owes : Bool

inductive CoreAction (Frame : Type*)
  | test | ask | refresh (data : Option Frame) | openMenu | stop | saveQuit | broadcast | return

/-- The main thread can be woken from its wait by nobody. -/
inductive MainAction
  | next | wake | leave (quits : Bool) | hdmimon (changed : Bool)
  deriving DecidableEq, Repr

inductive ThreadAction (Frame : Type*)
  | core (action : CoreAction Frame)
  | main (action : MainAction)

namespace Threads

variable {Frame : Type*}

/-- The thread is created; a back buffer can be left from an earlier one. -/
def start (backbuffer : Mailbox Frame) : Threads Frame where
  backbuffer := backbuffer
  shouldRunCore := true
  showMenu := false
  quit := false
  core := .loop
  main := .bottom
  handed := backbuffer.slot.toList
  drawn := []
  resumed := 0
  owes := false

/-- `video_refresh_callback`; a core that has nothing new to show passes `NULL`. -/
def videoRefreshCallback (s : Threads Frame) : Option Frame → Threads Frame
  | none => s
  | some frame =>
      { s with
        backbuffer := s.backbuffer.put frame
        main := s.main.signalled }

/-- A step of `coreThread`, and of the callbacks inside its `core.run`. -/
def coreStep (s : Threads Frame) : CoreAction Frame → Option (Threads Frame)
  | .test =>
      if s.core = .loop then some { s with core := if s.quit then .ended else .asking } else none
  | .ask =>
      if s.core = .asking then
        some { s with core := if s.shouldRunCore then .running else .loop }
      else none
  | .refresh data =>
      if s.core = .running then
        some
          { s.videoRefreshCallback data with
            handed := s.handed ++ data.toList
            owes := s.owes && data.isNone }
      else none
  | .openMenu =>
      if s.core = .running then some { s with showMenu := true, core := .stopping } else none
  | .stop =>
      if s.core = .stopping then
        some { s with shouldRunCore := false, owes := true, core := .running }
      else none
  | .saveQuit => if s.core = .running then some { s with quit := true, core := .quitting } else none
  | .broadcast =>
      if s.core = .quitting then some { s with core := .running, main := s.main.signalled }
      else none
  | .return => if s.core = .running then some { s with core := .loop } else none

/-- What the main thread does under the lock: it waits, or it draws what the back buffer
holds, which is the last picture again when only `quit` woke it. -/
def draw (s : Threads Frame) : Threads Frame :=
  if s.backbuffer.full || s.quit then
    { s with
      backbuffer := s.backbuffer.emptied
      drawn := s.drawn ++ s.backbuffer.slot.toList
      main := .checked }
  else { s with main := .waiting }

/-- A step of the main loop and of `Menu_loop`. -/
def mainStep (s : Threads Frame) : MainAction → Option (Threads Frame)
  | .next =>
      match s.main with
      | .top => some { s with main := if s.quit then .finished else .framing }
      | .framing => some { s with main := if s.quit then .checked else .locking }
      | .locking => some s.draw
      | .checked => some { s with main := if s.showMenu then .menu else .bottom }
      | .leaving => some { s with main := if s.showMenu then .menu else .left }
      | .left =>
          if s.quit then some { s with main := .bottom }
          -- the menu hands the picture it was opened over to the renderer again
          else
            some
              { s.videoRefreshCallback s.backbuffer.slot with
                main := .resuming
                resumed := s.resumed + 1 }
      | .resuming => some { s with shouldRunCore := true, main := .bottom }
      | .waiting | .menu | .bottom | .finished => none
  | .wake => if s.main = .waiting then some { s with main := .locking } else none
  | .leave quits =>
      if s.main = .menu then
        some { s with showMenu := false, quit := s.quit || quits, main := .leaving }
      else none
  | .hdmimon changed =>
      if s.main = .bottom then
        some
          { s with
            showMenu := s.showMenu && !changed
            quit := s.quit || changed
            main := .top }
      else none

def step (s : Threads Frame) : ThreadAction Frame → Option (Threads Frame)
  | .core action => s.coreStep action
  | .main action => s.mainStep action

end Threads

end DarkUI.Minarch
