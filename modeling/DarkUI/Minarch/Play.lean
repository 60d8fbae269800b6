import DarkUI.Input.Source
import DarkUI.Minarch.Frontend

/-! # Playing a game

Polls of the pad, visits to the menu and turns of the main loop, in any order.
-/

namespace DarkUI.Minarch

variable (source : PadSource)

/-- The front end and the back end its pad comes from. -/
structure Play where
  frontend : Frontend
  input : source.State

/-- What happens next. The menu can poll, set the option any number of times, through its list,
a configuration read or `Config_restore`, and leave other bindings. -/
inductive PlayInput
  | poll (poll : source.Poll) (slept : Bool)
  | menu (polls : List source.Poll) (options : List Bool) (shortcuts : Shortcut → Binding)
      (controls : List Binding)
  | mainLoop

variable {source}

namespace Play

/-- The state `PAD_poll` and `PWR_update` leave; waking from sleep resets the pad. -/
def polled (s : Play source) (poll : source.Poll) (slept : Bool) : source.State :=
  if slept then source.reset (source.poll s.input poll) else source.poll s.input poll

/-- `Menu_loop`, entered when the callback asked for it. -/
def visitMenu (s : Play source) (polls : List source.Poll) (options : List Bool)
    (shortcuts : Shortcut → Binding) (controls : List Binding) : Play source :=
  if s.frontend.showMenu then
    let threading := options.foldl Threading.syncOption s.frontend.threading
    { frontend :=
        { s.frontend with
          threading := threading
          shortcuts := shortcuts
          controls := controls
          showMenu := false
          shouldRunCore := if threading.threadVideo then true else s.frontend.shouldRunCore }
      input := source.reset (polls.foldl source.poll (source.reset s.input)) }
  else s

def step (s : Play source) : PlayInput source → Option (Play source)
  | .poll poll slept =>
      let settled := s.polled poll slept
      some ⟨s.frontend.inputPollCallback (source.pad settled), settled⟩
  | .menu polls options shortcuts controls => some (s.visitMenu polls options shortcuts controls)
  | .mainLoop =>
      some { s with
        frontend := { s.frontend with threading := s.frontend.threading.handleToggle } }

end Play

end DarkUI.Minarch
