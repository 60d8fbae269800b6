import DarkUI.Common.FileSystem
import DarkUI.Foundation.Decimal
import DarkUI.Foundation.KeyedLines
import Mathlib.Tactic.SplitIfs

/-! # The configuration file of the emulator front end

Options, controls and shortcuts are written one to a line, and each is read back by a
search for its key in the whole text. What a setting changes outside the lists it is kept
in (the screen, the clock, the core) is left out.
-/

namespace DarkUI.Minarch

open Text KeyedLines

def localButtonCount : Nat := 16

/-- The names of the buttons in the order of their ids, `NONE` first, then those with MENU held. -/
def buttonLabels : List CString :=
  ["NONE", "UP", "DOWN", "LEFT", "RIGHT", "A", "B", "X", "Y", "START", "SELECT", "L1", "R1", "L2",
    "R2", "L3", "R3", "MENU+UP", "MENU+DOWN", "MENU+LEFT", "MENU+RIGHT", "MENU+A", "MENU+B",
    "MENU+X", "MENU+Y", "MENU+START", "MENU+SELECT", "MENU+L1", "MENU+R1", "MENU+L2", "MENU+R2",
    "MENU+L3", "MENU+R3"].map String.toList

/-- A key and the values it can take, none of them broken over lines. -/
structure OptionDef where
  key : CString
  values : List CString
  key_line : '\n' ∉ key
  values_line : ∀ value ∈ values, '\n' ∉ value
  values_fit : ∀ value ∈ values, value.length < 256
  values_nodup : values.Nodup

/-- An option with the index of its value and whether the menu hides it. -/
structure ConfigOption extends OptionDef where
  value : Nat
  lock : Bool
  value_lt : value < values.length

/-- A control or shortcut with the local button it is bound to, and whether MENU must be held. -/
structure ButtonMapping where
  name : CString
  localId : Int
  mod : Bool
  name_line : '\n' ∉ name
  localId_ge : -1 ≤ localId
  localId_lt : localId < localButtonCount
  mod_bound : mod → 0 ≤ localId

/-- The number of labels and values that a gamepad can have. -/
def gamepadCount : Nat := 2

theorem toNat_lt_gamepadCount {n : Int} (h : 0 ≤ n ∧ n < gamepadCount) :
    n.toNat < gamepadCount := by
  omega

structure Config where
  frontend : List ConfigOption
  core : List ConfigOption
  controls : List ButtonMapping
  shortcuts : List ButtonMapping
  hasCustomControllers : Bool
  gamepadType : Fin gamepadCount

def equals : CString := " = ".toList

/-- What is left of a value in its array of 256 characters. -/
def cutValue (text : CString) : CString :=
  let value := text.take 255
  if '\n' ∈ value then value.takeWhile (· != '\n') else value.takeWhile (· != '\r')

/-- The value of a key, if the text has one. An empty key that does not match at once is
found at the same place forever. -/
def Config.getValue (cfg key : CString) : Option (Found Char) :=
  if key = [] ∧ ¬ equals <+: cfg then none
  else
    let found := search key equals '-' 0 none cfg
    some ⟨found.text.map cutValue, found.marked⟩

namespace ConfigOption

def getValueIndex (item : ConfigOption) (value : CString) : Nat :=
  (item.values.findIdx? (· = value)).getD 0

theorem getValueIndex_lt (item : ConfigOption) (value : CString) :
    item.getValueIndex value < item.values.length := by
  unfold getValueIndex
  cases hfound : item.values.findIdx? (· = value) with
  | none =>
      have := item.value_lt
      simp only [Option.getD_none]
      omega
  | some i => exact (List.findIdx?_eq_some_iff_findIdx_eq.mp hfound).1

def setValue (item : ConfigOption) (value : CString) : ConfigOption :=
  { item with value := item.getValueIndex value, value_lt := item.getValueIndex_lt value }

end ConfigOption

/-- The first option of the list that has the key takes the value. -/
def OptionList.setOptionValue (key value : CString) : List ConfigOption → List ConfigOption
  | [] => []
  | item :: rest =>
      if item.key = key then item.setValue value :: rest
      else item :: setOptionValue key value rest

/-- Reads the option at an index of the list. -/
def OptionList.readOption (cfg : CString) (list : List ConfigOption) (i : Nat) :
    Option (List ConfigOption) :=
  match list[i]? with
  | none => some list
  | some option =>
      (Config.getValue cfg option.key).map fun found =>
        let list := list.set i { option with lock := option.lock || found.marked }
        match found.text with
        | none => list
        | some value => setOptionValue option.key value list

def OptionList.read (cfg : CString) (list : List ConfigOption) : Option (List ConfigOption) :=
  (List.range list.length).foldlM (readOption cfg) list

namespace ButtonMapping

/-- The place of the binding among the labels. -/
def labelIndex (mapping : ButtonMapping) : Nat :=
  (mapping.localId + 1).toNat + if mapping.mod then localButtonCount else 0

theorem labelIndex_lt (mapping : ButtonMapping) : mapping.labelIndex < buttonLabels.length := by
  have hlow := mapping.localId_ge
  have hhigh := mapping.localId_lt
  have hlength : buttonLabels.length = 33 := rfl
  simp only [labelIndex, localButtonCount] at *
  split <;> omega

def label (mapping : ButtonMapping) : CString :=
  buttonLabels.get ⟨mapping.labelIndex, mapping.labelIndex_lt⟩

/-- The id of a label, counted from `NONE` at -1, and past the last button with MENU. -/
def labelId (value : CString) : Int := (buttonLabels.idxOf? value).elim (-1) fun j => j - 1

/-- The local button and the MENU modifier that a label stands for. -/
def decode (value : CString) : Int × Bool :=
  let id := labelId value
  if localButtonCount ≤ id then (id - localButtonCount, true) else (id, false)

theorem labelId_range (value : CString) : -1 ≤ labelId value ∧ labelId value < 32 := by
  unfold labelId
  cases hfound : buttonLabels.idxOf? value with
  | none => simp
  | some j =>
      have hj : j < buttonLabels.length :=
        (List.idxOf?_eq_some_iff.mp hfound).1
      have hlength : buttonLabels.length = 33 := rfl
      simp only [Option.elim_some]
      omega

theorem decode_range (value : CString) :
    -1 ≤ (decode value).1 ∧ (decode value).1 < localButtonCount ∧
      ((decode value).2 → 0 ≤ (decode value).1) := by
  have hrange := labelId_range value
  have hcount : (localButtonCount : Int) = 16 := rfl
  unfold decode
  by_cases hmod : (localButtonCount : Int) ≤ labelId value
  · simp only [hmod, if_true]
    omega
  · simp only [hmod, if_false]
    exact ⟨hrange.1, by omega, fun h => absurd h (by simp)⟩

def bind (mapping : ButtonMapping) (value : CString) : ButtonMapping :=
  { mapping with
    localId := (decode value).1
    mod := (decode value).2
    localId_ge := (decode_range value).1
    localId_lt := (decode_range value).2.1
    mod_bound := (decode_range value).2.2 }

/-- A key is put together in an array of 256 characters. -/
def key (mapping : ButtonMapping) : CString := "bind ".toList ++ mapping.name

/-- Reads a binding, of which `text` is what counts of the value. -/
def read (cfg : CString) (text : CString → CString) (mapping : ButtonMapping) :
    Option ButtonMapping :=
  if 256 ≤ mapping.key.length then none
  else
    (Config.getValue cfg mapping.key).map fun found =>
      match found.text with
      | none => mapping
      | some value => mapping.bind (text value)

end ButtonMapping

/-- Default bindings name the button of the core after a colon, which is ignored. -/
def controlText (value : CString) : CString :=
  match splitLast ':' value with
  | some (before, _) => before
  | none => value

namespace Config

def gamepadKey : CString := "minarch_gamepad_type".toList

/-- Reads the gamepad, whose device the core is told. A number without a device is looked
up beyond the end of the table, and so is one that no `int` can hold. -/
def readGamepad (cfg : CString) (config : Config) : Option (Fin gamepadCount) :=
  if config.hasCustomControllers then
    (getValue cfg gamepadKey).bind fun found =>
      match found.text with
      | none => some config.gamepadType
      | some value =>
          let type := scanInt value
          if h : 0 ≤ type ∧ type < gamepadCount then some ⟨type.toNat, toNat_lt_gamepadCount h⟩
          else none
  else some config.gamepadType

def readOptionsString (cfg : Option CString) (config : Config) : Option Config :=
  match cfg with
  | none => some config
  | some cfg => do
      let frontend ← OptionList.read cfg config.frontend
      let gamepadType ← config.readGamepad cfg
      let core ← OptionList.read cfg config.core
      some { config with frontend, gamepadType, core }

def readControlsString (cfg : Option CString) (config : Config) : Option Config :=
  match cfg with
  | none => some config
  | some cfg => do
      let controls ← config.controls.mapM (ButtonMapping.read cfg controlText)
      let shortcuts ← config.shortcuts.mapM (ButtonMapping.read cfg id)
      some { config with controls, shortcuts }

/-- The configuration files that `Config_load` has found. -/
structure Sources where
  system : Option CString
  default : Option CString
  user : Option CString

def readOptions (sources : Sources) (config : Config) : Option Config := do
  let config ← config.readOptionsString sources.system
  let config ← config.readOptionsString sources.default
  config.readOptionsString sources.user

def readControls (sources : Sources) (config : Config) : Option Config := do
  let config ← config.readControlsString sources.default
  config.readControlsString sources.user

/-- What a start makes of the files, where `none` is a read that does not return. -/
def start (sources : Sources) (config : Config) : Option Config := do
  let config ← config.readOptions sources
  config.readControls sources

def optionLine (option : ConfigOption) : CString :=
  option.key ++ (equals ++ option.values.get ⟨option.value, option.value_lt⟩)

def bindLine (mapping : ButtonMapping) : CString := mapping.key ++ (equals ++ mapping.label)

def lines (config : Config) : List CString :=
  config.frontend.map optionLine ++ config.core.map optionLine ++
    (if config.hasCustomControllers then
      [gamepadKey ++ (equals ++ decimal (config.gamepadType : Nat))] else []) ++
    config.controls.map bindLine ++ config.shortcuts.map bindLine

/-- What `Config_write` leaves in the file. -/
def write (config : Config) : CString := unlines '\n' config.lines

end Config

end DarkUI.Minarch
