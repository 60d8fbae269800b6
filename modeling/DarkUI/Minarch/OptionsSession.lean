import DarkUI.Minarch.Controls
import DarkUI.Minarch.Frontend
import DarkUI.Minarch.Options

/-! # A session of changing options

The settings that the menus, the shortcuts, the core and the configuration files change
between the start of a game and its end, and the two user configurations on the card. A file
holds the text that `allocFile` makes of it. Variables that the core sets are changes of the
session; what it reports of its options, its buttons and its controllers before the game
starts belongs to the core.
-/

namespace DarkUI.Minarch.Options

open Text KeyedLines

/-- What a core reports over a stretch of the start. -/
structure CoreReports where
  options : Option Report
  customControllers : Bool
  inputs : Option (List InputDescriptor)

/-- What stays the same from one start of a game to the next: the platform, the configuration
files the user cannot write, and the reports of the core before and after they are first
read. -/
structure Setup where
  overscan : Bool
  vsyncToggle : Bool
  systemCfg : Option CString
  defaultCfg : Option CString
  early : CoreReports
  late : CoreReports

/-- `config.loaded` -/
inductive Loaded
  | none | console | game
  deriving DecidableEq, Repr

/-- The two files that `Config_write` writes. -/
structure UserFiles where
  console : Option CString
  game : Option CString
  deriving DecidableEq

structure Session where
  frontend : List Item
  core : List Item
  mirrors : Mirrors
  hasCustomControllers : Bool
  gamepadType : Fin gamepadCount
  controls : List Mapping
  shortcuts : List Mapping
  frontendMenu : Option (List MenuRow)
  coreMenu : Option (List MenuRow)
  files : UserFiles
  loaded : Loaded

/-- The scopes of `Config_write`. -/
inductive Scope
  | console | game
  deriving DecidableEq, Repr

inductive Menu
  | frontend | core
  deriving DecidableEq, Repr

inductive Buttons
  | controls | shortcuts
  deriving DecidableEq, Repr

namespace UserFiles

/-- The files without the one that a configuration was loaded from. -/
def remove (loaded : Loaded) (files : UserFiles) : UserFiles :=
  match loaded with
  | .none => files
  | .console => { files with console := none }
  | .game => { files with game := none }

/-- The configuration that `Config_load` takes, that of the game before that of the console. -/
def user (files : UserFiles) : Option CString × Loaded :=
  match files.game, files.console with
  | some cfg, _ => (some cfg, .game)
  | none, some cfg => (some cfg, .console)
  | none, none => (none, .none)

end UserFiles

namespace Session

/-- `Config_syncFrontend`: the option of the front end that has the key takes the value, and
so does its global. -/
def syncFrontend (key : CString) (value : Int) (s : Session) : Session :=
  match FrontendOption.ofKey key with
  | none => s
  | some option =>
      { s with
        mirrors := s.mirrors.set value option
        frontend := s.frontend.modify option.index (Item.setRawValue value) }

/-- What `Config_readOptionsString` makes of the front end's option at an index. -/
def readFrontendOption (cfg : CString) (s : Session) (i : Nat) : Option Session :=
  match s.frontend[i]? with
  | none => some s
  | some item =>
      (Config.getValue cfg item.key).map fun found =>
        let hidden := s.frontend.modify i (Item.hide found.marked)
        match found.text with
        | none => { s with frontend := hidden }
        | some value =>
            let frontend := OptionList.setOptionValue item.key (some value) hidden
            match frontend[i]? with
            | none => { s with frontend }
            | some item => { s with frontend }.syncFrontend item.key item.value

/-- Reads the gamepad, whose device the core is told. A number without a device is looked
up beyond the end of the table, and so is one that no `int` can hold. -/
def readGamepad (cfg : CString) (s : Session) : Option Session :=
  if s.hasCustomControllers then
    (Config.getValue cfg Config.gamepadKey).bind fun found =>
      match found.text with
      | none => some s
      | some value =>
          let type := scanInt value
          if h : 0 ≤ type ∧ type < gamepadCount then
            some { s with gamepadType := ⟨type.toNat, toNat_lt_gamepadCount h⟩ }
          else none
  else some s

/-- `Config_readOptionsString` -/
def readOptionsString (cfg : Option CString) (s : Session) : Option Session :=
  match cfg with
  | none => some s
  | some cfg => do
      let s ← (List.range s.frontend.length).foldlM (readFrontendOption cfg) s
      let s ← s.readGamepad cfg
      let core ← OptionList.read cfg s.core
      some { s with core }

/-- `Config_readControlsString` -/
def readControlsString (cfg : Option CString) (s : Session) : Option Session :=
  match cfg with
  | none => some s
  | some cfg => do
      let controls ← s.controls.mapM (Mapping.read cfg controlText)
      let shortcuts ← s.shortcuts.mapM (Mapping.read cfg id)
      some { s with controls, shortcuts }

variable (setup : Setup)

/-- `Config_load` -/
def load (s : Session) : Config.Sources × Session :=
  let (user, loaded) := s.files.user
  (⟨setup.systemCfg, setup.defaultCfg, user⟩, { s with loaded })

/-- `Config_readOptions` -/
def readOptions (sources : Config.Sources) (s : Session) : Option Session := do
  let s ← s.readOptionsString sources.system
  let s ← s.readOptionsString sources.default
  s.readOptionsString sources.user

/-- `Config_readControls` -/
def readControls (sources : Config.Sources) (s : Session) : Option Session := do
  let s ← s.readControlsString sources.default
  s.readControlsString sources.user

/-- The globals before anything is read or reported. -/
def initial (files : UserFiles) : Session where
  frontend := FrontendOption.all.map (FrontendOption.item setup.overscan)
  core := []
  mirrors := Mirrors.initial
  hasCustomControllers := false
  gamepadType := ⟨0, by decide⟩
  controls := defaultButtonMapping
  shortcuts := unboundShortcuts
  frontendMenu := none
  coreMenu := none
  files
  loaded := .none

/-- The options and the controllers that the core has reported; a new list replaces the old. -/
def report (reports : CoreReports) (s : Session) : Option Session :=
  (match reports.options with
    | none => some s.core
    | some options => options.items).map fun core =>
      { s with
        core
        hasCustomControllers := s.hasCustomControllers || reports.customControllers }

/-- The controls that the first call of `Input_init` finds: the core may make it before the
default configuration is known. -/
def startControls : Option (List Mapping) :=
  (configInit setup.defaultCfg).map fun mapping =>
    match setup.early.inputs with
    | some vars => inputInit [] (some vars)
    | none => inputInit mapping setup.late.inputs

def takeControls (controls : List Mapping) (s : Session) : Session := { s with controls }

/-- Where Prevent Tearing cannot be honored, it is hidden. -/
def hideTearing (s : Session) : Session :=
  if setup.vsyncToggle then s
  else { s with frontend := s.frontend.modify FrontendOption.tearing.index (Item.hide true) }

/-- What `main` makes of the files before the game starts. -/
def start (files : UserFiles) : Option Session := do
  let s ← (initial setup files).report setup.early
  let found := s.load setup
  let s ← found.2.readOptions found.1
  let s ← (s.hideTearing setup).report setup.late
  let controls ← startControls setup
  let s ← (s.takeControls controls).readOptions found.1
  s.readControls found.1

/-- What `Config_restore` makes of the front end's option at an index. -/
def restoreFrontendOption (s : Session) (i : Nat) : Session :=
  match s.frontend[i]? with
  | none => s
  | some item =>
      { s with frontend := s.frontend.modify i Item.restore }.syncFrontend item.key
        item.defaultValue

/-- The settings that `Config_restore` falls back to before it reads the files again. -/
def fallBack (s : Session) : Session :=
  let s := (List.range s.frontend.length).foldl restoreFrontendOption s
  { s with
    core := s.core.map Item.restore
    gamepadType := if s.hasCustomControllers then ⟨0, by decide⟩ else s.gamepadType
    controls := s.controls.map fun control => control.bind (control.default_, false)
    shortcuts := s.shortcuts.map fun shortcut => shortcut.bind (-1, false) }

/-- The configuration that was loaded is deleted. -/
def unlinkLoaded (s : Session) : Session :=
  { s with files := s.files.remove s.loaded, loaded := .none }

/-- `Config_restore` -/
def restore (s : Session) : Option Session := do
  let found := s.unlinkLoaded.fallBack.load setup
  let s ← found.2.readOptions found.1
  s.readControls found.1

def optionLine (item : Item) : Option CString :=
  (if 0 ≤ item.value then item.values[item.value.toNat]? else none).map
    (item.key ++ equals ++ ·)

def bindLine (mapping : Mapping) : Option CString := mapping.label.map (mapping.key ++ equals ++ ·)

/-- What `Config_write` writes, or `none` where a value or a label is looked up beyond the
end of its table. -/
def text (s : Session) : Option CString := do
  let options ← (s.frontend ++ s.core).mapM optionLine
  let bindings ← (s.controls ++ s.shortcuts).mapM bindLine
  let gamepad := if s.hasCustomControllers then
    [Config.gamepadKey ++ equals ++ decimal (s.gamepadType : Nat)] else []
  some (unlines '\n' (options ++ gamepad ++ bindings))

/-- `Config_write`, `opens` being whether the file can be opened. -/
def write (scope : Scope) (opens : Bool) (s : Session) : Option Session :=
  match scope with
  | .game =>
      let s := { s with loaded := .game }
      if opens then
        s.text.map fun text => { s with files := { s.files with game := some text } }
      else some s
  | .console =>
      let files := if s.loaded = .game then { s.files with game := none } else s.files
      let s := { s with files, loaded := .console }
      if opens then
        s.text.map fun text => { s with files := { s.files with console := some text } }
      else some s

/-- `OptionFrontend_openMenu` and `OptionEmulator_openMenu` up to the loop over the input. -/
def openMenu (s : Session) : Menu → Session
  | .frontend => { s with frontendMenu := some (buildMenu s.frontend s.frontendMenu) }
  | .core => { s with coreMenu := some (buildMenu s.core s.coreMenu) }

def rows (s : Session) : Menu → List MenuRow
  | .frontend => s.frontendMenu.getD []
  | .core => s.coreMenu.getD []

def options (s : Session) : Menu → List Item
  | .frontend => s.frontend
  | .core => s.core

/-- A row with its new value, and what its menu then does about the option. -/
def optionChanged (menu : Menu) (i : Nat) (row : MenuRow) (s : Session) : Session :=
  match menu with
  | .frontend =>
      let frontendMenu := s.frontendMenu.map fun rows => rows.set i row
      { s with frontendMenu }.syncFrontend row.key row.value
  | .core =>
      { s with
        coreMenu := s.coreMenu.map fun rows => rows.set i row
        core := OptionList.setOptionRawValue row.key row.value s.core }

/-- LEFT or RIGHT in a row of a menu, the latter where `forward`. -/
def changeOption (menu : Menu) (i : Nat) (forward : Bool) (s : Session) : Option Session :=
  match (s.rows menu)[i]? with
  | none => some s
  | some row =>
      (if forward then row.right else some row.left).map fun row => s.optionChanged menu i row

/-- `SHORTCUT_CYCLE_SCALE` and `SHORTCUT_CYCLE_EFFECT`: one value on, and back by the number
of values where there is none. -/
def cycleOption (value : Int) (count : Nat) (key : CString) (s : Session) : Session :=
  let next := value + 1
  s.syncFrontend key (if count ≤ next then next - count else next)

def cycleScale (s : Session) : Session :=
  match s.frontend[FrontendOption.scaling.index]? with
  | none => s
  | some item => s.cycleOption s.mirrors.screenScaling item.count item.key

def cycleEffect (s : Session) : Session :=
  match s.frontend[FrontendOption.effect.index]? with
  | none => s
  | some item => s.cycleOption s.mirrors.screenEffect effectCount item.key

def bindButton (buttons : Buttons) (i : Nat) (binding : Int × Bool) (s : Session) : Session :=
  match buttons with
  | .controls => { s with controls := s.controls.modify i (·.bind binding) }
  | .shortcuts => { s with shortcuts := s.shortcuts.modify i (·.bind binding) }

/-- What can happen to the settings of a session. -/
inductive Change
  | readOptions (cfg : CString)
  | setVariable (key : CString) (value : Option CString)
  | openMenu (menu : Menu)
  | changeOption (menu : Menu) (i : Nat) (forward : Bool)
  | cycleScale
  | cycleEffect
  | bind (buttons : Buttons) (i : Nat) (id : Fin (localButtonCount + 1)) (menuHeld : Bool)
  | unbind (buttons : Buttons) (i : Nat)
  | chooseGamepad (type : Fin gamepadCount)
  | write (scope : Scope) (opens : Bool)
  | restore

/-- A change, with `none` where the source has no defined behaviour or does not return. -/
def step (s : Session) : Change → Option Session
  | .readOptions cfg => s.readOptionsString (some cfg)
  | .setVariable key value => some { s with core := OptionList.setOptionValue key value s.core }
  | .openMenu menu => some (s.openMenu menu)
  | .changeOption menu i forward => s.changeOption menu i forward
  | .cycleScale => some s.cycleScale
  | .cycleEffect => some s.cycleEffect
  | .bind buttons i id menuHeld => some (s.bindButton buttons i ((id : Int) - 1, menuHeld))
  | .unbind buttons i => some (s.bindButton buttons i (-1, false))
  | .chooseGamepad type =>
      some (if s.hasCustomControllers then { s with gamepadType := type } else s)
  | .write scope opens => s.write scope opens
  | .restore => s.restore setup

end Session

end DarkUI.Minarch.Options
