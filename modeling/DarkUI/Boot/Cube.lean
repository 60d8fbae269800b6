import DarkUI.Boot.Update
import DarkUI.Foundation.Text
import Mathlib.Logic.Function.Basic

/-! # Moving off the old cube system

`install.sh` on an RG35XXPLUS, one command at a time: `dmenu.bin`, the removal of `$CUBE_PATH`, and
the configs in `$SRC_PATH` that are copied and removed. The card's file system has neither links nor
names with a newline.
-/

namespace DarkUI.Boot.Cube

open Text

variable {α : Type*}

/-- What a sub-folder of `$SRC_PATH` lists, with the content of a regular file. -/
structure Item (α : Type*) where
  name : CString
  content : Option α

/-- What `$SRC_PATH` lists, with the items of a directory. -/
structure SubPath (α : Type*) where
  name : CString
  items : Option (List (Item α))

/-- A config in a sub-folder. -/
structure Config (α : Type*) where
  folder : CString
  name : CString
  content : α

/-- Whether a name ends in `.cfg`. -/
def isCfg (name : CString) : Bool := ".cfg".toList.isSuffixOf name

/-- Whether a name is matched by a pattern that does not begin with a dot. -/
def isVisible (name : CString) : Bool := name.head? != some '.'

/-- `$CFG_NAME-cube.cfg`, of a name that ends in `.cfg`. -/
def cubeName (name : CString) : CString :=
  name.take (name.length - ".cfg".toList.length) ++ "-cube.cfg".toList

def Item.config (folder : CString) (item : Item α) : Option (Config α) :=
  if isCfg item.name then item.content.map fun content => ⟨folder, item.name, content⟩ else none

def itemConfigs (folder : CString) (items : List (Item α)) : List (Config α) :=
  items.filterMap (Item.config folder)

def SubPath.configs (sub : SubPath α) : List (Config α) :=
  itemConfigs sub.name (sub.items.getD [])

/-- `"$SUB_PATH"/*.cfg` -/
def globCfg (items : List (Item α)) : List (Item α) :=
  items.filter fun item => isVisible item.name && isCfg item.name

/-- `"$SRC_PATH"/*` -/
def glob (subs : List (SubPath α)) : List (SubPath α) :=
  subs.filter fun sub => isVisible sub.name

/-- The next command of the script, in the loops with what they have yet to come to. -/
inductive Stage (α : Type*)
  | idle
  | dmenu
  | cube
  | source
  | folders (rest : List (SubPath α))
  | configs (folder : CString) (items : List (Item α)) (rest : List (SubPath α))
  | rmSource
  | reboot
  /-- The run has come to its end. -/
  | finished

structure Card (α : Type*) where
  /-- `$CUBE_PATH` is a directory. -/
  cube : Bool
  /-- `$SRC_PATH`, if it is a directory. -/
  source : Option (List (SubPath α))
  /-- The directories and the files in `$DST_PATH`. -/
  folders : CString → Bool
  files : CString → CString → Option α
  stage : Stage α
  /-- All commands of this run have succeeded so far. -/
  succeeded : Bool

/-- How `rm -rf "$SRC_PATH"` ends: when it fails, with some of the items left. -/
inductive Rm
  | removed
  | failed (left : CString → CString → Bool)

def Rm.succeeds : Rm → Bool
  | .removed => true
  | .failed _ => false

/-- What happens next. A command comes with its outcome, and `proceed` is for the tests that lead to
no command. -/
inductive Input (α : Type*)
  | install
  | dmenu (succeeds : Bool)
  | rmCube (left : Bool)
  | mkdir (succeeds : Bool)
  | cp (outcome : Cp α)
  | rmSource (outcome : Rm)
  | reboot (succeeds : Bool)
  | proceed
  | powerCut

namespace Card

variable (s : Card α)

/-- The next command, after one that succeeded or not. -/
def next (succeeds : Bool) (stage : Stage α) : Card α :=
  { s with stage := stage, succeeded := s.succeeded && succeeds }

/-- `$NEW_PATH/$CFG_NAME-cube.cfg` with a new content. -/
def write (folder name : CString) (content : α) : Card α :=
  { s with
    files := Function.update s.files folder
      (Function.update (s.files folder) (cubeName name) (some content)) }

/-- `cp "$CFG_PATH" "$NEW_PATH/$CFG_NAME-cube.cfg"`, which can only succeed in a directory. -/
def cp (folder name : CString) (content : α) : Cp α → Option (Card α)
  | .copied => if s.folders folder then some (s.write folder name content) else none
  | .failed (some left) => some (s.write folder name left)
  | .failed none => some s

/-- What `rm -rf "$SRC_PATH"` leaves. -/
def rmSource : Rm → Card α
  | .removed => { s with source := none }
  | .failed left =>
      { s with source := s.source.map fun subs => subs.map fun sub =>
          { sub with items := sub.items.map fun items =>
              items.filter fun item => left sub.name item.name } }

/-- The next command or test, if the input is for it. -/
def step : Input α → Option (Card α)
  | .install =>
      match s.stage with
      | .idle => some { s with stage := .dmenu, succeeded := true }
      | .finished => some { s with stage := .dmenu, succeeded := true }
      | _ => none
  | .dmenu succeeds =>
      match s.stage with
      | .dmenu => some (s.next succeeds (if succeeds then .cube else .idle))
      | _ => none
  | .rmCube left =>
      match s.stage with
      | .cube => if s.cube then some ({ s with cube := left }.next (!left) .source) else none
      | _ => none
  | .mkdir succeeds =>
      match s.stage, s.source with
      | .source, some subs => some (s.next succeeds (.folders (glob subs)))
      | .folders (⟨name, some items⟩ :: rest), _ =>
          if s.folders name then none
          else
            some ({ s with folders := Function.update s.folders name succeeds }.next succeeds
              (.configs name (globCfg items) rest))
      | _, _ => none
  | .cp outcome =>
      match s.stage with
      | .configs folder (⟨name, some content⟩ :: items) rest =>
          (s.cp folder name content outcome).map fun t =>
            t.next outcome.succeeds (.configs folder items rest)
      | _ => none
  | .rmSource outcome =>
      match s.stage with
      | .rmSource => some ((s.rmSource outcome).next outcome.succeeds .reboot)
      | _ => none
  | .reboot succeeds =>
      match s.stage with
      | .reboot => some (s.next succeeds .finished)
      | _ => none
  | .proceed =>
      match s.stage, s.source with
      | .cube, _ => if s.cube then none else some (s.next true .finished)
      | .source, none => some (s.next true .finished)
      | .folders (⟨_, none⟩ :: rest), _ => some (s.next true (.folders rest))
      | .folders (⟨name, some items⟩ :: rest), _ =>
          if s.folders name then some (s.next true (.configs name (globCfg items) rest)) else none
      | .folders [], _ => some (s.next true .rmSource)
      | .configs folder (⟨_, none⟩ :: items) rest, _ =>
          some (s.next true (.configs folder items rest))
      | .configs _ [] rest, _ => some (s.next true (.folders rest))
      | _, _ => none
  | .powerCut => some { s with stage := .idle }

/-- The configs that are in sub-folders of `$SRC_PATH`. -/
def configs : List (Config α) := (s.source.getD []).flatMap SubPath.configs

/-- The config exists complete in the matching folder. -/
def Copied (config : Config α) : Prop :=
  s.files config.folder (cubeName config.name) = some config.content

end Card

end DarkUI.Boot.Cube
