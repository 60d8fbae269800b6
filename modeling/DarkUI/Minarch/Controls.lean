import DarkUI.Minarch.Config

/-! # Where the controls of a session come from

The default configuration of a pak names the buttons of its core, each line with the local
button and, after a colon, the button of the core. Without such lines a built-in table is
used, under the names that the core gives its buttons. The logging and the flag that hides
a control from the menu are left out.
-/

namespace DarkUI.Minarch

open Text

/-- `RETRO_BUTTON_COUNT` -/
def retroButtonCount : Nat := 16

/-- A control or a shortcut, with the button of the core, the local button and the local
button it has by default, `BTN_ID_NONE` being -1. -/
structure Mapping where
  name : CString
  retro : Int
  localId : Int
  mod : Bool
  default_ : Int
  deriving DecidableEq

/-- `button_label_mapping`, each label with the button of the core and the local button. -/
def buttonLabelMapping : List (CString × Int × Int) :=
  [("NONE", -1, -1), ("UP", 4, 0), ("DOWN", 5, 1), ("LEFT", 6, 2), ("RIGHT", 7, 3), ("A", 8, 4),
    ("B", 0, 5), ("X", 9, 6), ("Y", 1, 7), ("START", 3, 8), ("SELECT", 2, 9), ("L1", 10, 10),
    ("R1", 11, 11), ("L2", 12, 12), ("R2", 13, 13), ("L3", 14, 14), ("R3", 15, 15)].map
    fun (label, retro, id) => (label.toList, retro, id)

/-- `default_button_mapping` -/
def defaultButtonMapping : List Mapping :=
  [("Up", 4, 0), ("Down", 5, 1), ("Left", 6, 2), ("Right", 7, 3), ("A Button", 8, 4),
    ("B Button", 0, 5), ("X Button", 9, 6), ("Y Button", 1, 7), ("Start", 3, 8),
    ("Select", 2, 9), ("L1 Button", 10, 10), ("R1 Button", 11, 11), ("L2 Button", 12, 12),
    ("R2 Button", 13, 13), ("L3 Button", 14, 14), ("R3 Button", 15, 15)].map
    fun (name, retro, id) => ⟨name.toList, retro, id, false, 0⟩

/-- The shortcuts of `config`, none of them bound. -/
def unboundShortcuts : List Mapping :=
  ["Save State", "Load State", "Reset Game", "Save & Quit", "Cycle Scaling", "Cycle Effect",
    "Toggle FF", "Hold FF"].map fun name => ⟨name.toList, -1, -1, false, 0⟩

/-- What stands between the next `bind` and its equals sign, and what comes after that. -/
def nextBind (text : CString) : Option (CString × CString) :=
  (find "bind ".toList text).bind fun found =>
    let key := found.drop 5
    (find equals key).map fun rest => (key.take (key.length - rest.length), rest.drop 3)

theorem nextBind_length {text name value : CString} (h : nextBind text = some (name, value)) :
    value.length < text.length := by
  obtain ⟨found, hfound, hrest⟩ := Option.bind_eq_some_iff.mp h
  obtain ⟨rest, hequals, hpair⟩ := Option.map_eq_some_iff.mp hrest
  cases hpair
  have hlength := (suffix_of_find hfound).length_le
  have hkey := (suffix_of_find hequals).length_le
  have hbind := (prefix_of_find hfound).length_le
  have hfive : "bind ".toList.length = 5 := by decide
  rw [List.length_drop] at hkey
  rw [List.length_drop]
  omega

/-- The value of a binding up to the end of its line, in an array of 128 characters. One
that fills the array is not ended in it, and is read on from unless its line is. -/
def buttonId (value : CString) : Option CString :=
  let buffer := value.take 128
  if '\n' ∈ buffer then some (buffer.takeWhile (· != '\n'))
  else if 128 ≤ value.length then none
  else some (buffer.takeWhile (· != '\r'))

/-- The control that `Config_init` makes of a name and a value, and what of the value is the
label of the local button. -/
def boundControl (name button : CString) : Mapping × CString :=
  let (label, retro) :=
    match splitLast ':' button with
    | some (before, after) => (before, (buttonLabelMapping.lookup after).elim (-1) (·.1))
    | none => (button, -1)
  let (retro, id) :=
    match buttonLabelMapping.lookup label with
    | some (found, id) => (if retro = -1 then found else retro, id)
    | none => (retro, -1)
  (⟨name, retro, id, false, 0⟩, label)

/-- The bindings in a text, or `none` where an array is overrun. -/
def bindings (text : CString) : Option (List Mapping) :=
  match _hnext : nextBind text with
  | none => some []
  | some (name, value) =>
      if 128 ≤ name.length then none
      else
        (buttonId value).bind fun button =>
          let (control, label) := boundControl name button
          (bindings (value.drop label.length)).map (control :: ·)
termination_by text.length
decreasing_by
  have := nextBind_length _hnext
  rw [List.length_drop]
  omega

/-- The controls that `Config_init` leaves in `core_button_mapping`, whose last entry has to
stay empty. -/
def configInit (defaultCfg : Option CString) : Option (List Mapping) :=
  match defaultCfg with
  | none => some []
  | some text => (bindings text).filter (·.length ≤ retroButtonCount)

/-- `retro_input_descriptor` -/
structure InputDescriptor where
  port : Nat
  device : Nat
  index : Nat
  id : Nat
  description : CString

/-- The name that the core gives a button of the joypad in the first port, the last one if it
gives several. -/
def coreButtonName (vars : List InputDescriptor) (retro : Int) : Option CString :=
  (vars.reverse.find? fun var =>
    var.port = 0 ∧ var.device = 1 ∧ var.index = 0 ∧ var.id < retroButtonCount ∧
      (var.id : Int) = retro).map (·.description)

/-- `Input_init` for the controls of `core_button_mapping`. -/
def inputInit (mapping : List Mapping) (vars : Option (List InputDescriptor)) : List Mapping :=
  let controls :=
    if mapping = [] then
      defaultButtonMapping.map fun control =>
        { control with name := (coreButtonName (vars.getD []) control.retro).getD control.name }
    else mapping
  controls.map fun control => { control with default_ := control.localId }

namespace Mapping

/-- A key is put together in an array of 256 characters. -/
def key (mapping : Mapping) : CString := "bind ".toList ++ mapping.name

def bind (mapping : Mapping) (binding : Int × Bool) : Mapping :=
  { mapping with localId := binding.1, mod := binding.2 }

/-- The local button and the MENU modifier. -/
def binding (mapping : Mapping) : Int × Bool := (mapping.localId, mapping.mod)

/-- What `Config_readControlsString` makes of a binding, `text` being what counts of a value. -/
def read (cfg : CString) (text : CString → CString) (mapping : Mapping) : Option Mapping :=
  if 256 ≤ mapping.key.length then none
  else
    (Config.getValue cfg mapping.key).map fun found =>
      match found.text with
      | none => mapping
      | some value => mapping.bind (ButtonMapping.decode (text value))

/-- The label that `Config_write` writes, if there is one. -/
def label (mapping : Mapping) : Option CString :=
  let j := mapping.localId + 1 + if mapping.mod then (localButtonCount : Int) else 0
  if 0 ≤ j then buttonLabels[j.toNat]? else none

end Mapping

end DarkUI.Minarch
