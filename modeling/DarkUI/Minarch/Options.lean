import DarkUI.Minarch.Config

/-! # The options of a session

The front end has eight options of its own and the core reports others. Both are kept in
lists that are searched by key. The front end's own values are mirrored in globals, and the
menus hold copies of both. What else a change sets off (the clock, the palette, what the core
is told) is left out, and so are the names and descriptions of the options.
-/

namespace DarkUI.Minarch.Options

open Text

/-- What no operation changes about an option: its key, its values with the labels that are
shown for them, and the index of its default. -/
structure Spec where
  key : CString
  values : List CString
  labels : List CString
  defaultValue : Int
  labels_length : labels.length = values.length
  deriving DecidableEq

/-- An option with the index of its value, and whether the menu hides it. -/
structure Item extends Spec where
  value : Int
  lock : Bool
  deriving DecidableEq

/-- `Option_getValueIndex` -/
def valueIndex (values : List CString) (value : Option CString) : Int :=
  match value with
  | none => 0
  | some value => (values.findIdx? (· = value)).getD 0

namespace Item

def count (item : Item) : Nat := item.values.length

def setValue (value : Option CString) (item : Item) : Item :=
  { item with value := valueIndex item.values value }

def setRawValue (value : Int) (item : Item) : Item := { item with value }

def hide (marked : Bool) (item : Item) : Item := { item with lock := item.lock || marked }

def restore (item : Item) : Item := item.setRawValue item.defaultValue

/-- The value is one of those that the option has. -/
def InRange (item : Item) : Prop := 0 ≤ item.value ∧ item.value < item.count

instance (item : Item) : Decidable item.InRange := inferInstanceAs (Decidable (_ ∧ _))

end Item

namespace OptionList

/-- Where the first option with the key is, or where the list ends. -/
def getOption (key : CString) (list : List Item) : Nat := list.findIdx (·.key = key)

def setOptionRawValue (key : CString) (value : Int) (list : List Item) : List Item :=
  list.modify (getOption key list) (Item.setRawValue value)

def setOptionValue (key : CString) (value : Option CString) (list : List Item) : List Item :=
  list.modify (getOption key list) (Item.setValue value)

/-- What `Config_readOptionsString` makes of the option at an index. -/
def readOption (cfg : CString) (list : List Item) (i : Nat) : Option (List Item) :=
  match list[i]? with
  | none => some list
  | some item =>
      (Config.getValue cfg item.key).map fun found =>
        let hidden := list.modify i (Item.hide found.marked)
        match found.text with
        | none => hidden
        | some value => setOptionValue item.key (some value) hidden

def read (cfg : CString) (list : List Item) : Option (List Item) :=
  (List.range list.length).foldlM (readOption cfg) list

end OptionList

/-- An option as a core reports it, each value with its label if it has one. -/
structure Definition where
  key : CString
  values : List (CString × Option CString)
  defaultValue : Option CString

/-- A variable, the older form, with its name and its values in one string. -/
structure Variable where
  key : CString
  value : CString

/-- What `OptionList_init` makes of a definition. -/
def Definition.item (definition : Definition) : Item where
  key := definition.key
  values := definition.values.map (·.1)
  labels := definition.values.map fun value => value.2.getD value.1
  defaultValue := valueIndex (definition.values.map (·.1)) definition.defaultValue
  labels_length := by rw [List.length_map, List.length_map]
  value := valueIndex (definition.values.map (·.1)) definition.defaultValue
  lock := false

/-- The values of a variable stand after its name, which a semicolon and a space end. Without
a semicolon they are looked for from a null pointer. -/
def Variable.values (var : Variable) : Option (List CString) :=
  (splitFirst ';' var.value).map fun (_, after) =>
    match after with
    | ' ' :: values => values.splitOn '|'
    | _ => (';' :: after).splitOn '|'

/-- What `OptionList_vars` makes of a variable, whose default is its first value. -/
def Variable.item (var : Variable) : Option Item :=
  var.values.map fun values =>
    { key := var.key, values, labels := values, defaultValue := 0, labels_length := rfl,
      value := 0, lock := false }

/-- The two ways in which a core reports its options. -/
inductive Report
  | options (defs : List Definition)
  | vars (list : List Variable)

def Report.items : Report → Option (List Item)
  | .options defs => some (defs.map Definition.item)
  | .vars list => list.mapM Variable.item

/-- `FE_OPT_*`, in the order of the enumeration. -/
inductive FrontendOption
  | scaling | effect | sharpness | tearing | overclock | thread | debug | maxFf
  deriving DecidableEq, Repr

namespace FrontendOption

def all : List FrontendOption :=
  [scaling, effect, sharpness, tearing, overclock, thread, debug, maxFf]

def key : FrontendOption → CString
  | scaling => "minarch_screen_scaling".toList
  | effect => "minarch_screen_effect".toList
  | sharpness => "minarch_screen_sharpness".toList
  | tearing => "minarch_prevent_tearing".toList
  | overclock => "minarch_cpu_speed".toList
  | thread => "minarch_thread_video".toList
  | debug => "minarch_debug_hud".toList
  | maxFf => "minarch_max_ff_speed".toList

/-- The labels, which are also the values. `Config_load` drops the last kind of scaling where
the platform has no overscan. -/
def labels (overscan : Bool) : FrontendOption → List CString
  | scaling =>
      (if overscan then ["Native", "Aspect", "Fullscreen", "Cropped"]
        else ["Native", "Aspect", "Fullscreen"]).map String.toList
  | effect => ["None", "Line", "Grid"].map String.toList
  | sharpness => ["Sharp", "Crisp", "Soft"].map String.toList
  | tearing => ["Off", "Lenient", "Strict"].map String.toList
  | overclock => ["Powersave", "Normal", "Performance"].map String.toList
  | thread | debug => ["Off", "On"].map String.toList
  | maxFf => ["None", "2x", "3x", "4x", "5x", "6x", "7x", "8x"].map String.toList

def defaultValue : FrontendOption → Int
  | scaling => 1
  | effect => 0
  | sharpness => 2
  | tearing => 1
  | overclock => 1
  | thread => 0
  | debug => 0
  | maxFf => 3

def index : FrontendOption → Nat
  | scaling => 0
  | effect => 1
  | sharpness => 2
  | tearing => 3
  | overclock => 4
  | thread => 5
  | debug => 6
  | maxFf => 7

def spec (overscan : Bool) (option : FrontendOption) : Spec where
  key := option.key
  values := option.labels overscan
  labels := option.labels overscan
  defaultValue := option.defaultValue
  labels_length := rfl

def item (overscan : Bool) (option : FrontendOption) : Item :=
  { option.spec overscan with value := option.defaultValue, lock := false }

/-- The option of the front end that has the key. -/
def ofKey (key : CString) : Option FrontendOption := all.find? (·.key = key)

end FrontendOption

/-- The globals that the rest of the front end reads the values from. -/
structure Mirrors where
  screenScaling : Int
  screenEffect : Int
  screenSharpness : Int
  preventTearing : Int
  overclock : Int
  showDebug : Int
  maxFfSpeed : Int
  deriving DecidableEq

namespace Mirrors

def initial : Mirrors where
  screenScaling := 1
  screenEffect := 0
  screenSharpness := 2
  preventTearing := 1
  overclock := 1
  showDebug := 0
  maxFfSpeed := 3

/-- The global of an option, of which the thread has none. -/
def get (mirrors : Mirrors) : FrontendOption → Option Int
  | .scaling => some mirrors.screenScaling
  | .effect => some mirrors.screenEffect
  | .sharpness => some mirrors.screenSharpness
  | .tearing => some mirrors.preventTearing
  | .overclock => some mirrors.overclock
  | .thread => none
  | .debug => some mirrors.showDebug
  | .maxFf => some mirrors.maxFfSpeed

def set (mirrors : Mirrors) (value : Int) : FrontendOption → Mirrors
  | .scaling => { mirrors with screenScaling := value }
  | .effect => { mirrors with screenEffect := value }
  | .sharpness => { mirrors with screenSharpness := value }
  | .tearing => { mirrors with preventTearing := value }
  | .overclock => { mirrors with overclock := value }
  | .thread => mirrors
  | .debug => { mirrors with showDebug := value }
  | .maxFf => { mirrors with maxFfSpeed := value }

theorem get_set (mirrors : Mirrors) (value : Int) (changed option : FrontendOption) :
    (mirrors.set value changed).get option =
      if option = changed then (mirrors.get option).map fun _ => value
      else mirrors.get option := by
  cases changed <;> cases option <;> rfl

end Mirrors

/-- A row of a menu: the option it was made for, and its copies of the key, the value and
the labels. -/
structure MenuRow where
  place : Nat
  key : CString
  value : Int
  values : List CString
  deriving DecidableEq

namespace MenuRow

/-- One value back, or the last label. -/
def left (row : MenuRow) : MenuRow :=
  { row with value := if 0 < row.value then row.value - 1 else row.values.length - 1 }

/-- The next value if it has a label, else the first. Past the null that ends the labels
there is nothing to read. -/
def right (row : MenuRow) : Option MenuRow :=
  let next := row.value + 1
  if 0 ≤ next ∧ next ≤ row.values.length then
    some { row with value := if next < row.values.length then next else 0 }
  else none

end MenuRow

/-- The rows that `OptionList_buildMenu` makes the first time. -/
def menuRows (list : List Item) : List MenuRow :=
  (list.zipIdx.filter fun entry => !entry.1.lock).map fun (item, place) =>
    { place, key := item.key, value := item.value, values := item.labels }

def buildMenu (list : List Item) : Option (List MenuRow) → List MenuRow
  | none => menuRows list
  | some rows =>
      rows.map fun row => { row with value := (list[row.place]?).elim row.value (·.value) }

end DarkUI.Minarch.Options
