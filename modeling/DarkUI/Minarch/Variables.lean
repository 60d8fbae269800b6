import DarkUI.Minarch.Options

/-! # Splitting the variables of a core

A core that knows only variables reports each option as one string: the name, a semicolon
and a space, and the values with bars between them. The string is copied once and split in
place. The name and the values are pointers into the copy, and each is ended by a zero that
is written over the character after it.
-/

namespace DarkUI.Minarch.Options

open Text

/-- An option as `OptionList_vars` fills it in, with pointers into its copy of the variable. -/
structure VarItem where
  key : CString
  var : CString
  name : Option Nat
  count : Nat
  values : List (Option Nat)
  labels : List (Option Nat)
  value : Int
  defaultValue : Int

/-- What is read where a pointer points, if it points anywhere. -/
def VarItem.text (item : VarItem) (pointer : Option Nat) : Option CString :=
  pointer.map fun p => untilNul (item.var.drop p)

/-- The first pass over the values: how many bars there are. -/
def countBars (var : CString) (tmp : Nat) : Nat :=
  match _hbar : strchr var tmp '|' with
  | none => 0
  | some bar => countBars var (bar + 1) + 1
termination_by var.length - tmp
decreasing_by exact strchr_behind _hbar

/-- The copy with its values split, and the two arrays. -/
structure Filled where
  var : CString
  values : List (Option Nat)
  labels : List (Option Nat)
  deriving DecidableEq

theorem split_behind {filled : Filled} {opt bar : Nat}
    (h : strchr filled.var opt '|' = some bar) :
    (filled.var.set bar '\x00').length - (bar + 1) < filled.var.length - opt := by
  rw [List.length_set]
  exact strchr_behind h

/-- The second pass: the value from `opt` on goes to index `j`, which has to be in the arrays. -/
def fillValues (opt j : Nat) (filled : Filled) : Option Filled :=
  if j < filled.values.length ∧ j < filled.labels.length then
    let values := filled.values.set j (some opt)
    let labels := filled.labels.set j (some opt)
    match _hbar : strchr filled.var opt '|' with
    | none => some { filled with values, labels }
    | some bar => fillValues (bar + 1) (j + 1) ⟨filled.var.set bar '\x00', values, labels⟩
  else none
termination_by filled.var.length - opt
decreasing_by exact split_behind _hbar

/-- What `OptionList_vars` makes of one variable. Where there is no semicolon the bars are looked
for from a null pointer. -/
def varItem (var : Variable) : Option VarItem :=
  match strchr var.value 0 ';' with
  | none => none
  | some tmp =>
      let named := var.value[tmp + 1]? = some ' '
      let copy := if named then var.value.set tmp '\x00' else var.value
      let opt := if named then tmp + 2 else tmp
      let count := countBars copy opt + 1
      let unset := List.replicate (count + 1) none
      (fillValues opt 0 ⟨copy, unset, unset⟩).map fun filled =>
        { key := var.key, var := filled.var, name := if named then some 0 else none, count,
          values := filled.values, labels := filled.labels, value := 0, defaultValue := 0 }

/-- `OptionList_vars` -/
def OptionList.vars (list : List Variable) : Option (List VarItem) := list.mapM varItem

end DarkUI.Minarch.Options
