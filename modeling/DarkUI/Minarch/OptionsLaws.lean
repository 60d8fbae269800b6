import DarkUI.Foundation.InPlace
import DarkUI.Foundation.Run
import DarkUI.Minarch.OptionsSession

/-! # Option values stay in range and mirrored

Every change goes through the value of an option of the list: an index of its values when a
text names it, and the index of a label when a menu does. The invariant ties the globals and
the rows of the menus to the options, which keep their keys and their values throughout.
-/

namespace DarkUI.Minarch.Options

open Text InPlace

/-! ## One list -/

theorem valueIndex_range {values : List CString} (hne : values ≠ []) (value : Option CString) :
    0 ≤ valueIndex values value ∧ valueIndex values value < values.length := by
  have hpos := List.length_pos_iff.mpr hne
  unfold valueIndex
  cases value with
  | none => simpa using hpos
  | some value =>
      dsimp only
      cases hfound : values.findIdx? (· = value) with
      | none => simpa using hpos
      | some i =>
          have hi : i < values.length := (List.findIdx?_eq_some_iff_findIdx_eq.mp hfound).1
          simpa using hi

theorem Item.InRange.values_ne {item : Item} (h : item.InRange) : item.values ≠ [] := by
  have hcount : 0 < item.count := by
    obtain ⟨hlow, hhigh⟩ := h
    omega
  exact List.length_pos_iff.mp hcount

theorem Item.setValue_inRange {item : Item} (h : item.InRange) (value : Option CString) :
    (item.setValue value).InRange :=
  valueIndex_range h.values_ne value

namespace OptionList

variable {list list' : List Item} {cfg key : CString} {value : Option CString} {i : Nat}

/-- What hiding an option and setting the value of one keep, reading a text keeps. -/
theorem readOption_keeps {p : List Item → Prop} (h : readOption cfg list i = some list')
    (hlist : p list)
    (hhide : ∀ list i marked, p list → p (list.modify i (Item.hide marked)))
    (hset : ∀ list key value, p list → p (setOptionValue key value list)) : p list' := by
  unfold readOption at h
  split at h
  next =>
    cases h
    exact hlist
  next item hitem =>
    obtain ⟨found, -, rfl⟩ := Option.map_eq_some_iff.mp h
    have hhidden := hhide list i found.marked hlist
    cases found.text with
    | none => exact hhidden
    | some value => exact hset _ _ _ hhidden

theorem read_keeps {p : List Item → Prop} (h : read cfg list = some list') (hlist : p list)
    (hhide : ∀ list i marked, p list → p (list.modify i (Item.hide marked)))
    (hset : ∀ list key value, p list → p (setOptionValue key value list)) : p list' :=
  foldlM_invariant h hlist fun hs hstep => readOption_keeps hstep hs hhide hset

theorem hide_specs (list : List Item) (i : Nat) (marked : Bool) :
    (list.modify i (Item.hide marked)).map (·.toSpec) = list.map (·.toSpec) :=
  map_modify fun _ => rfl

theorem setOptionValue_specs (list : List Item) (key : CString) (value : Option CString) :
    (setOptionValue key value list).map (·.toSpec) = list.map (·.toSpec) :=
  map_modify fun _ => rfl

theorem setOptionRawValue_specs (list : List Item) (key : CString) (value : Int) :
    (setOptionRawValue key value list).map (·.toSpec) = list.map (·.toSpec) :=
  map_modify fun _ => rfl

theorem readOption_specs (h : readOption cfg list i = some list') :
    list'.map (·.toSpec) = list.map (·.toSpec) :=
  readOption_keeps (p := fun l => l.map (·.toSpec) = list.map (·.toSpec)) h rfl
    (fun l i marked hl => (hide_specs l i marked).trans hl)
    (fun l key value hl => (setOptionValue_specs l key value).trans hl)

theorem read_specs (h : read cfg list = some list') :
    list'.map (·.toSpec) = list.map (·.toSpec) :=
  foldlM_invariant (p := fun l => l.map (·.toSpec) = list.map (·.toSpec)) h rfl
    fun hs hstep => (readOption_specs hstep).trans hs

def InRange (list : List Item) : Prop := ∀ item ∈ list, item.InRange

theorem inRange_hide (list : List Item) (i : Nat) (marked : Bool) (h : InRange list) :
    InRange (list.modify i (Item.hide marked)) :=
  forall_modify h fun item hitem => h item (List.mem_of_getElem? hitem)

theorem inRange_setOptionValue (list : List Item) (key : CString) (value : Option CString)
    (h : InRange list) : InRange (setOptionValue key value list) :=
  forall_modify h fun item hitem =>
    Item.setValue_inRange (h item (List.mem_of_getElem? hitem)) value

theorem inRange_readOption (h : InRange list) (hread : readOption cfg list i = some list') :
    InRange list' :=
  readOption_keeps hread h inRange_hide inRange_setOptionValue

theorem inRange_read (h : InRange list) (hread : read cfg list = some list') : InRange list' :=
  read_keeps hread h inRange_hide inRange_setOptionValue

/-- The options that two lists with the same specifications have at a place. -/
theorem getElem?_of_specs (hspecs : list'.map (·.toSpec) = list.map (·.toSpec)) {item : Item}
    (hitem : list[i]? = some item) :
    ∃ item', list'[i]? = some item' ∧ item'.toSpec = item.toSpec := by
  have hget := congrArg (·[i]?) hspecs
  simp only [List.getElem?_map, hitem, Option.map_some] at hget
  exact Option.map_eq_some_iff.mp hget

theorem getOption_of_specs (hspecs : list'.map (·.toSpec) = list.map (·.toSpec)) (key : CString) :
    getOption key list' = getOption key list := by
  have hfind (l : List Item) :
      getOption key l = (l.map (·.toSpec)).findIdx (fun spec => decide (spec.key = key)) := by
    rw [List.findIdx_map]
    rfl
  rw [hfind, hfind, hspecs]

theorem length_of_specs (hspecs : list'.map (·.toSpec) = list.map (·.toSpec)) :
    list'.length = list.length := by
  have hlength := congrArg List.length hspecs
  rwa [List.length_map, List.length_map] at hlength

theorem mem_of_specs (hspecs : list'.map (·.toSpec) = list.map (·.toSpec)) {item' : Item}
    (hitem : item' ∈ list') : ∃ item ∈ list, item.toSpec = item'.toSpec := by
  obtain ⟨i, hi⟩ := List.mem_iff_getElem?.mp hitem
  obtain ⟨item, hget, hspec⟩ := getElem?_of_specs hspecs.symm hi
  exact ⟨item, List.mem_of_getElem? hget, hspec⟩

end OptionList

/-- No option has more values than the first option with its key. -/
def WidestFirst (list : List Item) : Prop :=
  ∀ item ∈ list, ∀ first ∈ list[OptionList.getOption item.key list]?, item.count ≤ first.count

instance (list : List Item) : Decidable (WidestFirst list) :=
  inferInstanceAs (Decidable (∀ item ∈ list,
    ∀ first ∈ list[OptionList.getOption item.key list]?, item.count ≤ first.count))

/-- The row stands for an option of the list, and its value has a label. -/
def MenuRow.Of (list : List Item) (row : MenuRow) : Prop :=
  ∃ item, list[row.place]? = some item ∧ item.key = row.key ∧ item.count = row.values.length ∧
    0 ≤ row.value ∧ row.value < row.values.length

/-- The row shows the value of its option. -/
def MenuRow.Shows (list : List Item) (row : MenuRow) : Prop :=
  ∃ item, list[row.place]? = some item ∧ item.key = row.key ∧ item.value = row.value

section Specs

variable {list list' : List Item} {row : MenuRow}

theorem WidestFirst.of_specs (h : WidestFirst list)
    (hspecs : list'.map (·.toSpec) = list.map (·.toSpec)) : WidestFirst list' := by
  intro item' hitem' first' hfirst'
  obtain ⟨item, hitem, hspec⟩ := OptionList.mem_of_specs hspecs hitem'
  rw [OptionList.getOption_of_specs hspecs] at hfirst'
  obtain ⟨first, hfirst, hspecFirst⟩ := OptionList.getElem?_of_specs hspecs.symm hfirst'
  have hcount := h item hitem first (by rw [hspec]; exact hfirst)
  rwa [Item.count, Item.count, hspec, hspecFirst] at hcount

theorem MenuRow.Of.of_specs (h : row.Of list)
    (hspecs : list'.map (·.toSpec) = list.map (·.toSpec)) : row.Of list' := by
  obtain ⟨item, hitem, hkey, hcount, hrange⟩ := h
  obtain ⟨item', hitem', hspec⟩ := OptionList.getElem?_of_specs hspecs hitem
  refine ⟨item', hitem', ?_, ?_, hrange⟩
  · rw [hspec, hkey]
  · rw [← hcount, Item.count, Item.count, hspec]

/-- The rows of a menu as they are built are those of options in range. -/
theorem buildMenu_of {menu : Option (List MenuRow)} (hrange : OptionList.InRange list)
    (hmenu : ∀ rows, menu = some rows → ∀ row ∈ rows, row.Of list) :
    ∀ row ∈ buildMenu list menu, row.Of list ∧ row.Shows list := by
  intro row hrow
  cases menu with
  | none =>
      obtain ⟨⟨item, place⟩, hentry, rfl⟩ := List.mem_map.mp hrow
      have hitem := List.mem_zipIdx_iff_getElem?.mp (List.mem_of_mem_filter hentry)
      have hin := hrange item (List.mem_of_getElem? hitem)
      have hlabels : item.count = item.labels.length := item.labels_length.symm
      refine ⟨⟨item, hitem, rfl, hlabels, hin.1, ?_⟩, item, hitem, rfl, rfl⟩
      exact hlabels ▸ hin.2
  | some rows =>
      obtain ⟨old, hold, rfl⟩ := List.mem_map.mp hrow
      obtain ⟨item, hitem, hkey, hcount, -⟩ := hmenu rows rfl old hold
      have hin := hrange item (List.mem_of_getElem? hitem)
      have hvalue : (list[old.place]?).elim old.value (·.value) = item.value := by rw [hitem]; rfl
      refine ⟨⟨item, hitem, hkey, hcount, ?_, ?_⟩, item, hitem, hkey, hvalue.symm⟩
      · rw [hvalue]
        exact hin.1
      · rw [hvalue, ← hcount]
        exact hin.2

/-- LEFT and RIGHT stay among the labels. -/
theorem MenuRow.Of.left (h : row.Of list) : row.left.Of list := by
  obtain ⟨item, hitem, hkey, hcount, hlow, hhigh⟩ := h
  refine ⟨item, hitem, hkey, hcount, ?_⟩
  unfold MenuRow.left
  dsimp only
  split <;> omega

theorem MenuRow.Of.right {row' : MenuRow} (h : row.Of list) (hright : row.right = some row') :
    row'.Of list := by
  obtain ⟨item, hitem, hkey, hcount, hlow, hhigh⟩ := h
  unfold MenuRow.right at hright
  dsimp only at hright
  split at hright
  next =>
    cases hright
    refine ⟨item, hitem, hkey, hcount, ?_⟩
    dsimp only
    split <;> omega
  next => cases hright

end Specs

/-! ## The options of the front end -/

namespace FrontendOption

variable {option other : FrontendOption} {key : CString} {i : Nat}

theorem all_index (option : FrontendOption) : all[option.index]? = some option := by
  cases option <;> rfl

theorem index_of_all (h : all[i]? = some option) : option.index = i := by
  have hi : i < all.length := (List.getElem?_eq_some_iff.mp h).1
  have hevery : ∀ i < all.length, ∀ option ∈ all[i]?, option.index = i := by decide
  exact hevery i hi option h

theorem index_inj (h : option.index = other.index) : option = other := by
  have hoption := all_index option
  rw [h, all_index other, Option.some.injEq] at hoption
  exact hoption.symm

theorem ofKey_key (option : FrontendOption) : ofKey option.key = some option := by
  cases option <;> decide

theorem item_inRange (overscan : Bool) (option : FrontendOption) :
    (option.item overscan).InRange := by
  cases overscan <;> cases option <;> decide

end FrontendOption

namespace Session

variable {setup : Setup} {s t : Session}

/-- The value of an option of the front end. -/
def frontendValue (s : Session) (option : FrontendOption) : Option Int :=
  s.frontend[option.index]?.map (·.value)

/-- The globals hold the values of their options, except perhaps the one of an option. -/
def MirroredBut (except : FrontendOption) (s : Session) : Prop :=
  ∀ option, option ≠ except → ∀ value, s.mirrors.get option = some value →
    s.frontendValue option = some value

/-- Every global holds the value of its option. -/
def Mirrored (s : Session) : Prop :=
  ∀ option value, s.mirrors.get option = some value → s.frontendValue option = some value

/-- The options of the front end with their globals and their menu. -/
structure FrontendSound (overscan : Bool) (s : Session) : Prop where
  specs : s.frontend.map (·.toSpec) = FrontendOption.all.map (FrontendOption.spec overscan)
  inRange : OptionList.InRange s.frontend
  mirrored : s.Mirrored
  rows : ∀ rows, s.frontendMenu = some rows → ∀ row ∈ rows, row.Of s.frontend

/-- The options of the core with their menu. -/
structure CoreSound (s : Session) : Prop where
  inRange : OptionList.InRange s.core
  defaults : ∀ item ∈ s.core, item.restore.InRange
  widest : WidestFirst s.core
  rows : ∀ rows, s.coreMenu = some rows → ∀ row ∈ rows, row.Of s.core

theorem FrontendSound.frame {overscan : Bool} (h : s.FrontendSound overscan)
    (hfrontend : t.frontend = s.frontend) (hmirrors : t.mirrors = s.mirrors)
    (hmenu : t.frontendMenu = s.frontendMenu) : t.FrontendSound overscan := by
  refine ⟨?_, ?_, ?_, ?_⟩
  · rw [hfrontend]
    exact h.specs
  · rw [hfrontend]
    exact h.inRange
  · unfold Mirrored frontendValue
    rw [hfrontend, hmirrors]
    exact h.mirrored
  · rw [hfrontend, hmenu]
    exact h.rows

theorem CoreSound.frame (h : s.CoreSound) (hcore : t.core = s.core)
    (hmenu : t.coreMenu = s.coreMenu) : t.CoreSound := by
  refine ⟨?_, ?_, ?_, ?_⟩
  · rw [hcore]
    exact h.inRange
  · rw [hcore]
    exact h.defaults
  · rw [hcore]
    exact h.widest
  · rw [hcore, hmenu]
    exact h.rows

/-- What changes values of the core's options within their ranges keeps the rest. -/
theorem CoreSound.of_specs {core : List Item} (h : s.CoreSound)
    (hspecs : core.map (·.toSpec) = s.core.map (·.toSpec)) (hrange : OptionList.InRange core) :
    { s with core }.CoreSound where
  inRange := hrange
  defaults := by
    intro item hitem
    obtain ⟨old, hold, hspec⟩ := OptionList.mem_of_specs hspecs hitem
    have hdefault := h.defaults old hold
    unfold Item.InRange Item.count Item.restore Item.setRawValue at *
    rwa [hspec] at hdefault
  widest := h.widest.of_specs hspecs
  rows := fun rows hrows row hrow => (h.rows rows hrows row hrow).of_specs hspecs

/-- The option of the front end that an item of its list is. -/
theorem exists_option {overscan : Bool} {item : Item} {i : Nat} {frontend : List Item}
    (hspecs : frontend.map (·.toSpec) = FrontendOption.all.map (FrontendOption.spec overscan))
    (hitem : frontend[i]? = some item) :
    ∃ option : FrontendOption, option.index = i ∧ item.toSpec = option.spec overscan := by
  have hget := congrArg (·[i]?) hspecs
  simp only [List.getElem?_map, hitem, Option.map_some] at hget
  obtain ⟨option, hoption, hspec⟩ := Option.map_eq_some_iff.mp hget.symm
  exact ⟨option, FrontendOption.index_of_all hoption, hspec.symm⟩

theorem syncFrontend_of_ofKey {key : CString} {option : FrontendOption} (value : Int)
    (h : FrontendOption.ofKey key = some option) (s : Session) :
    s.syncFrontend key value =
      { s with
        mirrors := s.mirrors.set value option
        frontend := s.frontend.modify option.index (Item.setRawValue value) } := by
  unfold syncFrontend
  rw [h]

theorem syncFrontend_specs (key : CString) (value : Int) (s : Session) :
    (s.syncFrontend key value).frontend.map (·.toSpec) = s.frontend.map (·.toSpec) := by
  unfold syncFrontend
  split
  next => rfl
  next => exact map_modify fun _ => rfl

/-- The global and its option come to hold the same value, whatever they held before. -/
theorem mirrored_syncFrontend {option : FrontendOption} {value : Int} {key : CString}
    (hkey : FrontendOption.ofKey key = some option) (hlength : option.index < s.frontend.length)
    (h : s.MirroredBut option) : (s.syncFrontend key value).Mirrored := by
  rw [syncFrontend_of_ofKey value hkey]
  intro other held hheld
  rw [Mirrors.get_set] at hheld
  unfold frontendValue
  rw [List.getElem?_modify]
  by_cases hother : other = option
  · rw [if_pos hother] at hheld
    obtain ⟨old, -, rfl⟩ := Option.map_eq_some_iff.mp hheld
    subst hother
    rw [List.getElem?_eq_getElem hlength]
    simp [Item.setRawValue]
  · rw [if_neg hother] at hheld
    have hindex : option.index ≠ other.index := fun heq =>
      hother (FrontendOption.index_inj heq).symm
    have hold := h other hother held hheld
    unfold frontendValue at hold
    simpa [hindex] using hold

/-- A value in range is given to an option and its global. -/
theorem FrontendSound.syncFrontend {overscan : Bool} {option : FrontendOption} {value : Int}
    {key : CString} (h : s.FrontendSound overscan) (hkey : FrontendOption.ofKey key = some option)
    (hvalue : ∀ item, s.frontend[option.index]? = some item → 0 ≤ value ∧ value < item.count) :
    (s.syncFrontend key value).FrontendSound overscan := by
  have hspecs := syncFrontend_specs key value s
  have hlength : option.index < s.frontend.length := by
    have hsame := congrArg List.length h.specs
    rw [List.length_map, List.length_map] at hsame
    rw [hsame]
    exact (List.getElem?_eq_some_iff.mp (FrontendOption.all_index option)).1
  refine ⟨hspecs.trans h.specs, ?_, ?_, ?_⟩
  · rw [syncFrontend_of_ofKey value hkey]
    exact forall_modify h.inRange fun item hitem => hvalue item hitem
  · exact mirrored_syncFrontend hkey hlength fun other _ => h.mirrored other
  · have hmenu : (s.syncFrontend key value).frontendMenu = s.frontendMenu := by
      rw [syncFrontend_of_ofKey value hkey]
    rw [hmenu]
    exact fun rows hrows row hrow => (h.rows rows hrows row hrow).of_specs hspecs

/-- The first option of the front end with a key is the one that has it. -/
theorem getOption_frontend {overscan : Bool} {frontend : List Item}
    (hspecs : frontend.map (·.toSpec) = FrontendOption.all.map (FrontendOption.spec overscan))
    (option : FrontendOption) : OptionList.getOption option.key frontend = option.index := by
  have hitems : frontend.map (·.toSpec) =
      (FrontendOption.all.map (FrontendOption.item overscan)).map (·.toSpec) := by
    rw [hspecs, List.map_map]
    rfl
  rw [OptionList.getOption_of_specs hitems]
  cases overscan <;> cases option <;> decide

theorem modify_own_value {list : List Item} {item : Item} {i : Nat} (h : list[i]? = some item) :
    list.modify i (Item.setRawValue item.value) = list := by
  apply List.ext_getElem?
  intro j
  rw [List.getElem?_modify]
  by_cases hij : i = j
  · subst hij
    rw [h]
    simp [Item.setRawValue]
  · simp [hij]

/-- What the menu hides changes no value. -/
theorem frontendValue_hide (s : Session) (i : Nat) (marked : Bool) (option : FrontendOption) :
    (s.frontend.modify i (Item.hide marked))[option.index]?.map (·.value) =
      s.frontendValue option := by
  have hmap : (s.frontend.modify i (Item.hide marked)).map (·.value) =
      s.frontend.map (·.value) := map_modify fun _ => rfl
  rw [← List.getElem?_map, hmap, List.getElem?_map, frontendValue]

/-- Syncing an option of the front end with its own value changes nothing but its global. -/
theorem syncFrontend_own {option : FrontendOption} {item : Item}
    (hofKey : FrontendOption.ofKey item.key = some option)
    (hitem : s.frontend[option.index]? = some item) :
    s.syncFrontend item.key item.value = { s with mirrors := s.mirrors.set item.value option } := by
  have hown := modify_own_value hitem
  rw [syncFrontend_of_ofKey item.value hofKey, hown]

/-- What a text makes of the front end's option that it gives a value. -/
theorem readFrontendOption_given {overscan : Bool} {i : Nat} {item : Item} {value : CString}
    {marked : Bool} {frontend : List Item}
    (hspecs : s.frontend.map (·.toSpec) = FrontendOption.all.map (FrontendOption.spec overscan))
    (hitem : s.frontend[i]? = some item)
    (hset : OptionList.setOptionValue item.key (some value)
      (s.frontend.modify i (Item.hide marked)) = frontend) :
    ∃ item' option, frontend[i]? = some item' ∧
      ({ s with frontend } : Session).syncFrontend item'.key item'.value =
        { s with frontend, mirrors := s.mirrors.set item'.value option } ∧
      (s.Mirrored →
        (({ s with frontend } : Session).syncFrontend item'.key item'.value).Mirrored) := by
  obtain ⟨option, rfl, hspec⟩ := exists_option hspecs hitem
  have hkey : item.key = option.key := congrArg Spec.key hspec
  have hhidden := OptionList.hide_specs s.frontend option.index marked
  have hfrontend := OptionList.setOptionValue_specs
    (s.frontend.modify option.index (Item.hide marked)) item.key (some value)
  have hplace : OptionList.getOption item.key
      (s.frontend.modify option.index (Item.hide marked)) = option.index := by
    rw [hkey, getOption_frontend (hhidden.trans hspecs)]
  rw [hset] at hfrontend
  obtain ⟨item', hitem', hspec'⟩ := OptionList.getElem?_of_specs (hfrontend.trans hhidden) hitem
  have hofKey : FrontendOption.ofKey item'.key = some option := by
    rw [hspec', hkey, FrontendOption.ofKey_key]
  have hlength := (List.getElem?_eq_some_iff.mp hitem').1
  refine ⟨item', option, hitem', ?_, fun hmirrored => ?_⟩
  · have hown : ({ s with frontend } : Session).frontend[option.index]? = some item' := hitem'
    exact syncFrontend_own hofKey hown
  · refine mirrored_syncFrontend hofKey hlength fun other hother value' hvalue => ?_
    -- Only the option itself has been given a value.
    have hne : option.index ≠ other.index := fun heq =>
      hother (FrontendOption.index_inj heq.symm)
    have hold := (s.frontendValue_hide option.index marked other).trans
      (hmirrored other value' hvalue)
    unfold frontendValue
    dsimp only
    rw [← hset, OptionList.setOptionValue, hplace, List.getElem?_modify_ne _ _ hne]
    exact hold

/-- The front end's options are read like any list, and the globals follow. -/
theorem readFrontendOption_spec {overscan : Bool} {cfg : CString} {i : Nat}
    (hspecs : s.frontend.map (·.toSpec) = FrontendOption.all.map (FrontendOption.spec overscan))
    (h : s.readFrontendOption cfg i = some t) :
    OptionList.readOption cfg s.frontend i = some t.frontend ∧
      t = { s with frontend := t.frontend, mirrors := t.mirrors } ∧
      (s.Mirrored → t.Mirrored) := by
  unfold readFrontendOption at h
  unfold OptionList.readOption
  cases hitem : s.frontend[i]? with
  | none =>
    simp only [hitem, Option.some.injEq] at h
    subst h
    exact ⟨rfl, rfl, id⟩
  | some item =>
    simp only [hitem] at h ⊢
    obtain ⟨found, hfound, ht⟩ := Option.map_eq_some_iff.mp h
    simp only [hfound, Option.map_some]
    cases htext : found.text with
    | none =>
        rw [htext] at ht
        subst ht
        refine ⟨rfl, rfl, fun hmirrored other value hvalue => ?_⟩
        exact (s.frontendValue_hide i found.marked other).trans (hmirrored other value hvalue)
    | some value =>
        rw [htext] at ht
        dsimp only at ht ⊢
        generalize hset : OptionList.setOptionValue item.key (some value)
          (s.frontend.modify i (Item.hide found.marked)) = frontend at ht ⊢
        obtain ⟨item', option, hitem', hsync, hmirrored⟩ :=
          readFrontendOption_given hspecs hitem hset
        rw [hitem'] at ht
        dsimp only at ht
        rw [← ht]
        refine ⟨?_, ?_, hmirrored⟩
        · rw [hsync]
        · rw [hsync]

/-! ## What one change keeps -/

section Steps

variable {overscan : Bool} {cfg : CString} {source : Option CString} {sources : Config.Sources}

/-- Reading the front end's options changes nothing but them and their globals. -/
theorem readFrontend_frame {n : Nat}
    (hspecs : s.frontend.map (·.toSpec) = FrontendOption.all.map (FrontendOption.spec overscan))
    (h : (List.range n).foldlM (readFrontendOption cfg) s = some t) :
    t = { s with frontend := t.frontend, mirrors := t.mirrors } ∧
      t.frontend.map (·.toSpec) = FrontendOption.all.map (FrontendOption.spec overscan) := by
  refine foldlM_invariant
    (p := fun u => u = { s with frontend := u.frontend, mirrors := u.mirrors } ∧
      u.frontend.map (·.toSpec) = FrontendOption.all.map (FrontendOption.spec overscan)) h
    ⟨rfl, hspecs⟩ ?_
  rintro u v i ⟨hframe, hu⟩ hstep
  obtain ⟨hread, hv, -⟩ := readFrontendOption_spec hu hstep
  refine ⟨?_, (OptionList.readOption_specs hread).trans hu⟩
  rw [hv, hframe]

theorem FrontendSound.readFrontendOption {i : Nat} (h : s.FrontendSound overscan)
    (hstep : s.readFrontendOption cfg i = some t) : t.FrontendSound overscan := by
  obtain ⟨hread, hframe, hmirrored⟩ := readFrontendOption_spec h.specs hstep
  have hspecs := OptionList.readOption_specs hread
  refine ⟨hspecs.trans h.specs, OptionList.inRange_readOption h.inRange hread,
    hmirrored h.mirrored, ?_⟩
  have hmenu : t.frontendMenu = s.frontendMenu := by rw [hframe]
  rw [hmenu]
  exact fun rows hrows row hrow => (h.rows rows hrows row hrow).of_specs hspecs

theorem readGamepad_frame (h : s.readGamepad cfg = some t) :
    t = { s with gamepadType := t.gamepadType } := by
  unfold readGamepad at h
  split at h
  next =>
    obtain ⟨found, -, ht⟩ := Option.bind_eq_some_iff.mp h
    split at ht
    next =>
      cases ht
      rfl
    next =>
      dsimp only at ht
      split at ht
      next =>
        cases ht
        rfl
      next => cases ht
  next =>
    cases h
    rfl

/-- The three parts of reading a text. -/
theorem readOptionsString_eq_some (h : s.readOptionsString (some cfg) = some t) :
    ∃ u v core, (List.range s.frontend.length).foldlM (Session.readFrontendOption cfg) s = some u ∧
      u.readGamepad cfg = some v ∧ OptionList.read cfg v.core = some core ∧
      t = { v with core } := by
  obtain ⟨u, hu, hrest⟩ := Option.bind_eq_some_iff.mp h
  obtain ⟨v, hv, hcore⟩ := Option.bind_eq_some_iff.mp hrest
  obtain ⟨core, hread, ht⟩ := Option.bind_eq_some_iff.mp hcore
  exact ⟨u, v, core, hu, hv, hread, (Option.some.inj ht).symm⟩

theorem FrontendSound.readOptionsString (h : s.FrontendSound overscan)
    (hread : s.readOptionsString source = some t) : t.FrontendSound overscan := by
  cases source with
  | none =>
      cases hread
      exact h
  | some cfg =>
      obtain ⟨u, v, core, hu, hv, -, rfl⟩ := readOptionsString_eq_some hread
      have hsound : u.FrontendSound overscan :=
        foldlM_invariant hu h fun hs hstep => FrontendSound.readFrontendOption hs hstep
      rw [readGamepad_frame hv]
      exact hsound.frame rfl rfl rfl

/-- The core's options after a text has been read. -/
theorem readOptionsString_core (hfrontend : s.FrontendSound overscan)
    (hread : s.readOptionsString (some cfg) = some t) :
    OptionList.read cfg s.core = some t.core ∧ t.coreMenu = s.coreMenu := by
  obtain ⟨u, v, core, hu, hv, hcore, rfl⟩ := readOptionsString_eq_some hread
  have hframe := (readFrontend_frame hfrontend.specs hu).1
  rw [readGamepad_frame hv, hframe] at hcore ⊢
  exact ⟨hcore, rfl⟩

theorem CoreSound.readOptionsString (h : s.CoreSound) (hfrontend : s.FrontendSound overscan)
    (hread : s.readOptionsString source = some t) : t.CoreSound := by
  cases source with
  | none =>
      cases hread
      exact h
  | some cfg =>
      obtain ⟨hcore, hmenu⟩ := readOptionsString_core hfrontend hread
      exact (h.of_specs (OptionList.read_specs hcore)
        (OptionList.inRange_read h.inRange hcore)).frame rfl hmenu

theorem readControlsString_frame (h : s.readControlsString source = some t) :
    t = { s with controls := t.controls, shortcuts := t.shortcuts } := by
  cases source with
  | none =>
      cases h
      rfl
  | some cfg =>
      obtain ⟨controls, -, hrest⟩ := Option.bind_eq_some_iff.mp h
      obtain ⟨shortcuts, -, ht⟩ := Option.bind_eq_some_iff.mp hrest
      cases ht
      rfl

theorem readControls_frame (h : s.readControls sources = some t) :
    t = { s with controls := t.controls, shortcuts := t.shortcuts } := by
  obtain ⟨u, hu, ht⟩ := Option.bind_eq_some_iff.mp h
  rw [readControlsString_frame ht, readControlsString_frame hu]

/-- What reading each of the texts keeps, reading the sources keeps. -/
theorem readOptions_keeps {p : Session → Prop} (h : s.readOptions sources = some t) (hs : p s)
    (hread : ∀ {s t : Session} {source : Option CString}, p s →
      s.readOptionsString source = some t → p t) : p t := by
  obtain ⟨u, hu, hrest⟩ := Option.bind_eq_some_iff.mp h
  obtain ⟨v, hv, ht⟩ := Option.bind_eq_some_iff.mp hrest
  exact hread (hread (hread hs hu) hv) ht

/-- Both lists in order. -/
def Sound (overscan : Bool) (s : Session) : Prop := s.FrontendSound overscan ∧ s.CoreSound

theorem Sound.readOptionsString (h : s.Sound overscan)
    (hread : s.readOptionsString source = some t) : t.Sound overscan :=
  ⟨h.1.readOptionsString hread, h.2.readOptionsString h.1 hread⟩

/-- Setting an option to its default before its global leaves no trace. -/
theorem restoreFrontendOption_eq {i : Nat} {item : Item}
    (hspecs : s.frontend.map (·.toSpec) = FrontendOption.all.map (FrontendOption.spec overscan))
    (hitem : s.frontend[i]? = some item) : ∃ option : FrontendOption, option.index = i ∧
      item.toSpec = option.spec overscan ∧ FrontendOption.ofKey item.key = some option ∧
      s.restoreFrontendOption i = s.syncFrontend item.key item.defaultValue := by
  obtain ⟨option, hindex, hspec⟩ := exists_option hspecs hitem
  have hkey : FrontendOption.ofKey item.key = some option := by
    rw [show item.key = option.key from congrArg Spec.key hspec, FrontendOption.ofKey_key]
  refine ⟨option, hindex, hspec, hkey, ?_⟩
  have hown : (s.frontend.modify i Item.restore).modify i (Item.setRawValue item.defaultValue) =
      s.frontend.modify i (Item.setRawValue item.defaultValue) := by
    rw [List.modify_modify_eq]
    apply List.ext_getElem?
    intro j
    rw [List.getElem?_modify, List.getElem?_modify]
    by_cases hij : i = j
    · subst hij
      rw [hitem]
      rfl
    · simp [hij]
  unfold Session.restoreFrontendOption
  rw [hitem]
  dsimp only
  rw [syncFrontend_of_ofKey _ hkey, syncFrontend_of_ofKey _ hkey, hindex]
  dsimp only
  rw [hown]

/-- Each option of the front end goes back to its default together with its global. -/
theorem FrontendSound.restoreFrontendOption (h : s.FrontendSound overscan) (i : Nat) :
    (s.restoreFrontendOption i).FrontendSound overscan := by
  cases hitem : s.frontend[i]? with
  | none =>
      unfold Session.restoreFrontendOption
      rw [hitem]
      exact h
  | some item =>
      obtain ⟨option, hindex, hspec, hkey, hsync⟩ := restoreFrontendOption_eq h.specs hitem
      rw [hsync]
      refine h.syncFrontend hkey fun found hfound => ?_
      rw [hindex, hitem, Option.some.injEq] at hfound
      subst hfound
      have hdefault := FrontendOption.item_inRange overscan option
      unfold Item.InRange Item.count at hdefault
      rw [Item.count, show item.defaultValue = option.defaultValue from
        congrArg Spec.defaultValue hspec, show item.values = option.labels overscan from
        congrArg Spec.values hspec]
      exact hdefault

theorem restoreFrontendOption_frame (s : Session) (i : Nat) :
    s.restoreFrontendOption i = { s with
      frontend := (s.restoreFrontendOption i).frontend
      mirrors := (s.restoreFrontendOption i).mirrors } := by
  unfold Session.restoreFrontendOption syncFrontend
  split
  next => rfl
  next =>
    split
    next => rfl
    next => rfl

/-- The loop over the front end's options changes nothing but them and their globals. -/
theorem restoreFrontend_frame (s : Session) (indices : List Nat) :
    indices.foldl Session.restoreFrontendOption s = { s with
      frontend := (indices.foldl Session.restoreFrontendOption s).frontend
      mirrors := (indices.foldl Session.restoreFrontendOption s).mirrors } := by
  induction indices generalizing s with
  | nil => rfl
  | cons i rest ih =>
      rw [List.foldl_cons]
      have hstep (frontend : List Item) (mirrors : Mirrors) :
          { s.restoreFrontendOption i with frontend, mirrors } = { s with frontend, mirrors } := by
        rw [restoreFrontendOption_frame]
      exact (ih _).trans (hstep _ _)

theorem FrontendSound.restoreFrontend (h : s.FrontendSound overscan) (indices : List Nat) :
    (indices.foldl Session.restoreFrontendOption s).FrontendSound overscan := by
  induction indices generalizing s with
  | nil => exact h
  | cons i rest ih => exact ih (h.restoreFrontendOption i)

theorem Sound.fallBack (h : s.Sound overscan) : s.fallBack.Sound overscan := by
  have hfrontend := h.1.restoreFrontend (List.range s.frontend.length)
  have hframe := restoreFrontend_frame s (List.range s.frontend.length)
  have hcore : (s.core.map Item.restore).map (·.toSpec) = s.core.map (·.toSpec) := by
    rw [List.map_map]
    rfl
  have hrange : OptionList.InRange (s.core.map Item.restore) := by
    intro item hitem
    obtain ⟨old, hold, rfl⟩ := List.mem_map.mp hitem
    exact h.2.defaults old hold
  constructor
  · exact hfrontend.frame rfl rfl rfl
  · refine (h.2.of_specs hcore hrange).frame ?_ ?_
    · unfold Session.fallBack
      rw [hframe]
    · unfold Session.fallBack
      rw [hframe]

theorem Sound.frame (h : s.Sound overscan) (hfrontend : t.frontend = s.frontend)
    (hcore : t.core = s.core) (hmirrors : t.mirrors = s.mirrors)
    (hfrontendMenu : t.frontendMenu = s.frontendMenu) (hcoreMenu : t.coreMenu = s.coreMenu) :
    t.Sound overscan :=
  ⟨h.1.frame hfrontend hmirrors hfrontendMenu, h.2.frame hcore hcoreMenu⟩

/-- Reading the sources and then the controls. -/
theorem Sound.readAll {u : Session} (h : s.Sound overscan) (hread : s.readOptions sources = some u)
    (hcontrols : u.readControls sources = some t) : t.Sound overscan := by
  have hu := readOptions_keeps hread h fun hs hstep => Sound.readOptionsString hs hstep
  rw [readControls_frame hcontrols]
  exact hu.frame rfl rfl rfl rfl rfl

theorem Sound.restore (h : s.Sound overscan) (hrestore : s.restore setup = some t) :
    t.Sound overscan := by
  obtain ⟨u, hu, ht⟩ := Option.bind_eq_some_iff.mp hrestore
  have hremoved : s.unlinkLoaded.Sound overscan := h.frame rfl rfl rfl rfl rfl
  have hloaded : (s.unlinkLoaded.fallBack.load setup).2.Sound overscan :=
    hremoved.fallBack.frame rfl rfl rfl rfl rfl
  exact hloaded.readAll hu ht

theorem write_frame {scope : Scope} {opens : Bool} (h : s.write scope opens = some t) :
    t = { s with files := t.files, loaded := t.loaded } := by
  unfold write at h
  cases scope with
  | game =>
      cases opens with
      | false =>
          cases h
          rfl
      | true =>
          obtain ⟨text, -, rfl⟩ := Option.map_eq_some_iff.mp h
          rfl
  | console =>
      cases opens with
      | false =>
          cases h
          rfl
      | true =>
          obtain ⟨text, -, rfl⟩ := Option.map_eq_some_iff.mp h
          rfl

theorem Sound.bindButton (h : s.Sound overscan) (buttons : Buttons) (i : Nat)
    (binding : Int × Bool) : (s.bindButton buttons i binding).Sound overscan := by
  cases buttons with
  | controls => exact h.frame rfl rfl rfl rfl rfl
  | shortcuts => exact h.frame rfl rfl rfl rfl rfl

theorem Sound.openMenu (h : s.Sound overscan) (menu : Menu) :
    (s.openMenu menu).Sound overscan := by
  cases menu with
  | frontend =>
      refine ⟨⟨h.1.specs, h.1.inRange, h.1.mirrored, ?_⟩, h.2.frame rfl rfl⟩
      intro rows hrows row hrow
      cases hrows
      exact (buildMenu_of h.1.inRange h.1.rows row hrow).1
  | core =>
      refine ⟨h.1.frame rfl rfl rfl, ⟨h.2.inRange, h.2.defaults, h.2.widest, ?_⟩⟩
      intro rows hrows row hrow
      cases hrows
      exact (buildMenu_of h.2.inRange h.2.rows row hrow).1

theorem mem_rows_set {menu : Option (List MenuRow)} {rows : List MenuRow} {i : Nat}
    {row : MenuRow} {p : MenuRow → Prop} (hrows : (menu.map fun rows => rows.set i row) = some rows)
    (hmenu : ∀ rows, menu = some rows → ∀ row ∈ rows, p row) (hrow : p row) :
    ∀ row ∈ rows, p row := by
  obtain ⟨old, hold, rfl⟩ := Option.map_eq_some_iff.mp hrows
  intro found hfound
  rcases List.mem_or_eq_of_mem_set hfound with hmem | rfl
  · exact hmenu old hold found hmem
  · exact hrow

/-- A row that stands for an option in the front end's menu sets that option. -/
theorem FrontendSound.optionChanged {i : Nat} {row : MenuRow} (h : s.FrontendSound overscan)
    (hrow : row.Of s.frontend) : (s.optionChanged .frontend i row).FrontendSound overscan := by
  have hmenu : FrontendSound overscan
      { s with frontendMenu := s.frontendMenu.map fun rows => rows.set i row } :=
    ⟨h.specs, h.inRange, h.mirrored, fun rows hrows => mem_rows_set hrows h.rows hrow⟩
  obtain ⟨item, hitem, hkey, hcount, hrange⟩ := hrow
  obtain ⟨option, hindex, hspec⟩ := exists_option h.specs hitem
  have hofKey : FrontendOption.ofKey row.key = some option := by
    rw [← hkey, show item.key = option.key from congrArg Spec.key hspec, FrontendOption.ofKey_key]
  refine hmenu.syncFrontend hofKey fun found hfound => ?_
  rw [hindex, hitem, Option.some.injEq] at hfound
  subst hfound
  rw [hcount]
  exact hrange

/-- A row in the core's menu sets the first option with its key, which has no fewer values. -/
theorem CoreSound.optionChanged {i : Nat} {row : MenuRow} (h : s.CoreSound)
    (hrow : row.Of s.core) : (s.optionChanged .core i row).CoreSound := by
  have hmenu : CoreSound { s with coreMenu := s.coreMenu.map fun rows => rows.set i row } :=
    ⟨h.inRange, h.defaults, h.widest, fun rows hrows => mem_rows_set hrows h.rows hrow⟩
  obtain ⟨item, hitem, hkey, hcount, hlow, hhigh⟩ := hrow
  refine hmenu.of_specs (OptionList.setOptionRawValue_specs _ _ _)
    (forall_modify h.inRange fun first hfirst => ?_)
  have hwide := h.widest item (List.mem_of_getElem? hitem) first (by rw [hkey]; exact hfirst)
  exact ⟨hlow, lt_of_lt_of_le hhigh (by rw [← hcount]; exact_mod_cast hwide)⟩

theorem Sound.optionChanged {menu : Menu} {i : Nat} {row : MenuRow} (h : s.Sound overscan)
    (hrow : row.Of (s.options menu)) :
    (s.optionChanged menu i row).Sound overscan := by
  cases menu with
  | frontend =>
      refine ⟨h.1.optionChanged hrow, ?_⟩
      unfold Session.optionChanged syncFrontend
      dsimp only
      split
      next => exact h.2.frame rfl rfl
      next => exact h.2.frame rfl rfl
  | core => exact ⟨h.1.frame rfl rfl rfl, h.2.optionChanged hrow⟩

theorem Sound.changeOption {menu : Menu} {i : Nat} {forward : Bool} (h : s.Sound overscan)
    (hchange : s.changeOption menu i forward = some t) : t.Sound overscan := by
  unfold Session.changeOption at hchange
  split at hchange
  next =>
    cases hchange
    exact h
  next row hrow =>
    obtain ⟨row', hrow', rfl⟩ := Option.map_eq_some_iff.mp hchange
    have hmem := List.mem_of_getElem? hrow
    have hof : row.Of (s.options menu) := by
      cases menu with
      | frontend =>
          cases hmenu : s.frontendMenu with
          | none => simp [rows, hmenu] at hmem
          | some rows => exact h.1.rows rows hmenu row (by simpa [Session.rows, hmenu] using hmem)
      | core =>
          cases hmenu : s.coreMenu with
          | none => simp [rows, hmenu] at hmem
          | some rows => exact h.2.rows rows hmenu row (by simpa [Session.rows, hmenu] using hmem)
    refine h.optionChanged ?_
    cases forward with
    | true => exact hof.right hrow'
    | false =>
        cases hrow'
        exact hof.left

theorem Sound.syncFrontend {option : FrontendOption} {value : Int} {key : CString}
    (h : s.Sound overscan) (hkey : FrontendOption.ofKey key = some option)
    (hvalue : ∀ item, s.frontend[option.index]? = some item → 0 ≤ value ∧ value < item.count) :
    (s.syncFrontend key value).Sound overscan := by
  refine ⟨h.1.syncFrontend hkey hvalue, h.2.frame ?_ ?_⟩
  · rw [syncFrontend_of_ofKey _ hkey]
  · rw [syncFrontend_of_ofKey _ hkey]

/-- A shortcut goes round the values of its option. -/
theorem Sound.cycleOption {option : FrontendOption} {item : Item} {value : Int} {count : Nat}
    (h : s.Sound overscan) (hitem : s.frontend[option.index]? = some item)
    (hvalue : s.mirrors.get option = some value) (hcount : count = item.count) :
    (s.cycleOption value count item.key).Sound overscan := by
  obtain ⟨found, hindex, hspec⟩ := exists_option h.1.specs hitem
  cases FrontendOption.index_inj hindex
  have hkey : FrontendOption.ofKey item.key = some option := by
    rw [show item.key = option.key from congrArg Spec.key hspec, FrontendOption.ofKey_key]
  have hown := h.1.mirrored option value hvalue
  unfold frontendValue at hown
  rw [hitem, Option.map_some, Option.some.injEq] at hown
  have hrange := h.1.inRange item (List.mem_of_getElem? hitem)
  unfold Item.InRange at hrange
  refine h.syncFrontend hkey fun current hcurrent => ?_
  rw [hitem, Option.some.injEq] at hcurrent
  subst hcurrent
  split <;> omega

theorem Sound.cycleScale (h : s.Sound overscan) : s.cycleScale.Sound overscan := by
  unfold Session.cycleScale
  split
  next => exact h
  next item hitem => exact h.cycleOption hitem rfl rfl

theorem Sound.cycleEffect (h : s.Sound overscan) : s.cycleEffect.Sound overscan := by
  unfold Session.cycleEffect
  split
  next => exact h
  next item hitem =>
    refine h.cycleOption hitem rfl ?_
    obtain ⟨found, hindex, hspec⟩ := exists_option h.1.specs hitem
    cases FrontendOption.index_inj hindex
    rw [Item.count, show item.values = FrontendOption.labels overscan .effect from
      congrArg Spec.values hspec]
    rfl

/-- Every change keeps both lists in order. -/
theorem Sound.step {change : Change} (h : s.Sound overscan)
    (hstep : s.step setup change = some t) : t.Sound overscan := by
  cases change with
  | readOptions cfg =>
      have hread : s.readOptionsString (some cfg) = some t := hstep
      exact h.readOptionsString hread
  | setVariable key value =>
      cases hstep
      exact ⟨h.1.frame rfl rfl rfl, h.2.of_specs (OptionList.setOptionValue_specs _ _ _)
        (OptionList.inRange_setOptionValue _ _ _ h.2.inRange)⟩
  | openMenu menu =>
      cases hstep
      exact h.openMenu menu
  | changeOption menu i forward => exact h.changeOption hstep
  | cycleScale =>
      cases hstep
      exact h.cycleScale
  | cycleEffect =>
      cases hstep
      exact h.cycleEffect
  | bind buttons i id menuHeld =>
      cases hstep
      exact h.bindButton _ _ _
  | unbind buttons i =>
      cases hstep
      exact h.bindButton _ _ _
  | chooseGamepad type =>
      cases hstep
      split
      next => exact h.frame rfl rfl rfl rfl rfl
      next => exact h
  | write scope opens =>
      rw [write_frame hstep]
      exact h.frame rfl rfl rfl rfl rfl
  | restore => exact h.restore hstep

end Steps

/-! ## The start -/

section Start

variable {overscan : Bool} {files : UserFiles} {sources : Config.Sources}

theorem frontendSound_initial : (initial setup files).FrontendSound setup.overscan where
  specs := by
    rw [initial, List.map_map]
    rfl
  inRange := by
    intro item hitem
    obtain ⟨option, -, rfl⟩ := List.mem_map.mp hitem
    exact FrontendOption.item_inRange _ _
  mirrored := by
    intro option value hvalue
    unfold frontendValue initial
    rw [List.getElem?_map, FrontendOption.all_index, Option.map_some, Option.map_some, ← hvalue]
    cases option <;> first | rfl | cases hvalue
  rows := by
    intro rows hrows
    cases hrows

/-- What a core reports starts at its default, which is one of its values. -/
theorem inRange_of_items {report : Report} {list : List Item} {item : Item}
    (hlist : report.items = some list) (hitem : item ∈ list) (hvalues : item.values ≠ []) :
    item.InRange ∧ item.restore.InRange := by
  cases report with
  | options defs =>
      cases hlist
      obtain ⟨definition, -, rfl⟩ := List.mem_map.mp hitem
      exact ⟨valueIndex_range hvalues _, valueIndex_range hvalues _⟩
  | vars list =>
      obtain ⟨var, -, hvar⟩ := exists_of_mem_mapM hlist hitem
      obtain ⟨values, -, rfl⟩ := Option.map_eq_some_iff.mp hvar
      have hpos : (0 : Int) < values.length := by exact_mod_cast List.length_pos_iff.mpr hvalues
      exact ⟨⟨le_rfl, hpos⟩, le_rfl, hpos⟩

theorem readOptions_core {s t : Session} (h : s.FrontendSound overscan)
    (hread : s.readOptions sources = some t) : t.FrontendSound overscan ∧
      t.core.map (·.toSpec) = s.core.map (·.toSpec) ∧ t.coreMenu = s.coreMenu := by
  refine readOptions_keeps (p := fun u => u.FrontendSound overscan ∧
    u.core.map (·.toSpec) = s.core.map (·.toSpec) ∧ u.coreMenu = s.coreMenu) hread
    ⟨h, rfl, rfl⟩ ?_
  rintro u v source ⟨hu, hspecs, hmenu⟩ hstep
  refine ⟨hu.readOptionsString hstep, ?_⟩
  cases source with
  | none =>
      cases hstep
      exact ⟨hspecs, hmenu⟩
  | some cfg =>
      obtain ⟨hcore, hcoreMenu⟩ := readOptionsString_core hu hstep
      exact ⟨(OptionList.read_specs hcore).trans hspecs, hcoreMenu.trans hmenu⟩

/-- What the core reports replaces its options or leaves them as they are. -/
theorem report_core {reports : CoreReports} (h : s.report reports = some t) :
    t.core = s.core ∨ ∃ report : Report, report.items = some t.core := by
  obtain ⟨core, hcore, rfl⟩ := Option.map_eq_some_iff.mp h
  cases hoptions : reports.options with
  | none =>
      rw [hoptions] at hcore
      exact .inl (Option.some.inj hcore).symm
  | some report =>
      rw [hoptions] at hcore
      exact .inr ⟨report, hcore⟩

theorem report_frame {reports : CoreReports} (h : s.report reports = some t) :
    t = { s with core := t.core, hasCustomControllers := t.hasCustomControllers } := by
  obtain ⟨core, -, rfl⟩ := Option.map_eq_some_iff.mp h
  rfl

theorem FrontendSound.report {reports : CoreReports} (h : s.FrontendSound overscan)
    (hreport : s.report reports = some t) : t.FrontendSound overscan := by
  rw [report_frame hreport]
  exact h.frame rfl rfl rfl

theorem hideTearing_spec (setup : Setup) (h : s.FrontendSound overscan) :
    (s.hideTearing setup).FrontendSound overscan ∧
      s.hideTearing setup = { s with frontend := (s.hideTearing setup).frontend } := by
  unfold hideTearing
  split
  next => exact ⟨h, rfl⟩
  next =>
    have hspecs := OptionList.hide_specs s.frontend FrontendOption.tearing.index true
    refine ⟨⟨hspecs.trans h.specs, OptionList.inRange_hide _ _ _ h.inRange, ?_, ?_⟩, rfl⟩
    · intro option value hvalue
      have hmap : (s.frontend.modify FrontendOption.tearing.index (Item.hide true)).map (·.value) =
          s.frontend.map (·.value) := map_modify fun _ => rfl
      unfold frontendValue
      rw [← List.getElem?_map, hmap, List.getElem?_map]
      exact h.mirrored option value hvalue
    · exact fun rows hrows row hrow => (h.rows rows hrows row hrow).of_specs hspecs

/-- Options with values, none of them shadowed by one with fewer, are in order once reported. -/
theorem coreSound_of_items (hmenu : s.coreMenu = none) (hvalues : ∀ item ∈ s.core, item.values ≠ [])
    (hwidest : WidestFirst s.core)
    (hitems : s.core = [] ∨ ∃ report : Report, report.items = some s.core) : s.CoreSound := by
  have hin (item : Item) (hitem : item ∈ s.core) : item.InRange ∧ item.restore.InRange := by
    rcases hitems with hnone | ⟨report, hreport⟩
    · rw [hnone] at hitem
      cases hitem
    · exact inRange_of_items hreport hitem (hvalues item hitem)
  exact ⟨fun item hitem => (hin item hitem).1, fun item hitem => (hin item hitem).2, hwidest,
    fun rows hrows => absurd (hmenu.symm.trans hrows) (by simp)⟩

theorem values_of_specs {list list' : List Item} (h : ∀ item ∈ list, item.values ≠ [])
    (hspecs : list'.map (·.toSpec) = list.map (·.toSpec)) : ∀ item ∈ list', item.values ≠ [] := by
  intro item' hitem'
  obtain ⟨item, hitem, hspec⟩ := OptionList.mem_of_specs hspecs hitem'
  rw [← hspec]
  exact h item hitem

/-- The five stages of a start. -/
theorem start_eq_some (h : start setup files = some s) :
    ∃ reported u v controls w, (initial setup files).report setup.early = some reported ∧
      (reported.load setup).2.readOptions (reported.load setup).1 = some u ∧
      (u.hideTearing setup).report setup.late = some v ∧
      startControls setup = some controls ∧
      (v.takeControls controls).readOptions (reported.load setup).1 = some w ∧
      w.readControls (reported.load setup).1 = some s := by
  obtain ⟨reported, hreported, h⟩ := Option.bind_eq_some_iff.mp h
  obtain ⟨u, hu, h⟩ := Option.bind_eq_some_iff.mp h
  obtain ⟨v, hv, h⟩ := Option.bind_eq_some_iff.mp h
  obtain ⟨controls, hcontrols, h⟩ := Option.bind_eq_some_iff.mp h
  obtain ⟨w, hw, h⟩ := Option.bind_eq_some_iff.mp h
  exact ⟨reported, u, v, controls, w, hreported, hu, hv, hcontrols, hw, h⟩

/-- Both lists are in order when the game starts. -/
theorem sound_start (h : start setup files = some s) (hvalues : ∀ item ∈ s.core, item.values ≠ [])
    (hwidest : WidestFirst s.core) : s.Sound setup.overscan := by
  obtain ⟨reported, u, v, controls, w, hreported, hu, hv, -, hw, hs⟩ := start_eq_some h
  have hfound : (reported.load setup).2.FrontendSound setup.overscan :=
    (frontendSound_initial.report hreported).frame rfl rfl rfl
  obtain ⟨huFrontend, huSpecs, huMenu⟩ := readOptions_core hfound hu
  obtain ⟨hhidden, hhide⟩ := hideTearing_spec setup huFrontend
  have htaken : (v.takeControls controls).FrontendSound setup.overscan :=
    (hhidden.report hv).frame rfl rfl rfl
  have hvSpecs : v.core.map (·.toSpec) = s.core.map (·.toSpec) := by
    rw [readControls_frame hs]
    exact (readOptions_core htaken hw).2.1.symm
  have hreportedMenu : reported.coreMenu = none := by
    rw [report_frame hreported]
    rfl
  have hvMenu : v.coreMenu = none := by
    rw [report_frame hv, hhide]
    exact huMenu.trans hreportedMenu
  have hvCore : v.CoreSound := by
    -- the options are those of the late report, or were there before
    rcases report_core hv with hcore | hitems
    · -- the core has reported its options before the files were first read
      have hsame : v.core = u.core := by
        rw [hcore, hhide]
      have hreportedSpecs : reported.core.map (·.toSpec) = s.core.map (·.toSpec) := by
        rw [← hvSpecs, hsame]
        exact huSpecs.symm
      have hreportedCore : reported.CoreSound := by
        refine coreSound_of_items hreportedMenu (values_of_specs hvalues hreportedSpecs)
          (hwidest.of_specs hreportedSpecs) ?_
        rcases report_core hreported with hnone | hitems
        · exact .inl hnone
        · exact .inr hitems
      have hloaded : (reported.load setup).2.Sound setup.overscan :=
        ⟨hfound, hreportedCore.frame rfl rfl⟩
      have hu' := readOptions_keeps hu hloaded fun hs hstep => Sound.readOptionsString hs hstep
      refine hu'.2.frame hsame ?_
      rw [hvMenu]
      exact (huMenu.trans hreportedMenu).symm
    · exact coreSound_of_items hvMenu (values_of_specs hvalues hvSpecs)
        (hwidest.of_specs hvSpecs) (.inr hitems)
  have hv' : (v.takeControls controls).Sound setup.overscan := ⟨htaken, hvCore.frame rfl rfl⟩
  exact hv'.readAll hw hs

/-- Whatever is changed after the start, in any order: no option leaves the range of its
values, each menu shows the values of its options when it is opened, and the globals hold
those of theirs. -/
theorem options_inRange (hstart : start setup files = some s)
    (hvalues : ∀ item ∈ s.core, item.values ≠ []) (hwidest : WidestFirst s.core)
    (hreach : Run.Reaches (step setup) (fun _ _ => True) s t) :
    (∀ item ∈ t.frontend ++ t.core, item.InRange) ∧
      (∀ menu, ∀ row ∈ (t.openMenu menu).rows menu, row.Shows (t.options menu)) ∧ t.Mirrored := by
  have hsound : t.Sound setup.overscan :=
    hreach.invariant (sound_start hstart hvalues hwidest) fun hs _ hstep => Sound.step hs hstep
  refine ⟨?_, ?_, hsound.1.mirrored⟩
  · intro item hitem
    rcases List.mem_append.mp hitem with hitem | hitem
    · exact hsound.1.inRange item hitem
    · exact hsound.2.inRange item hitem
  · intro menu row hrow
    cases menu with
    | frontend => exact (buildMenu_of hsound.1.inRange hsound.1.rows row hrow).2
    | core => exact (buildMenu_of hsound.2.inRange hsound.2.rows row hrow).2

/-- A core with two options of the given keys, of two and of three values. -/
def pairOf (first second : String) : Setup where
  overscan := false
  vsyncToggle := true
  systemCfg := none
  defaultCfg := none
  early := ⟨none, false, none⟩
  late := ⟨some (.options
    [⟨first.toList, [("off".toList, none), ("on".toList, none)], none⟩,
      ⟨second.toList, [("low".toList, none), ("mid".toList, none), ("high".toList, none)], none⟩]),
    false, none⟩

/-- The menu of the core's options is opened, and LEFT pressed in the second row. -/
def stepBack : List Change := [.openMenu .core, .changeOption .core 1 false]

theorem options_inRange_pair : ∃ s t,
    start (pairOf "sound" "detail") ⟨none, none⟩ = some s ∧
      Run.Reaches (step (pairOf "sound" "detail")) (fun _ _ => True) s t ∧
      t.core.map (·.value) = [0, 2] ∧
      (∀ item ∈ t.frontend ++ t.core, item.InRange) ∧
      (∀ menu, ∀ row ∈ (t.openMenu menu).rows menu, row.Shows (t.options menu)) ∧ t.Mirrored := by
  have hrun : ((start (pairOf "sound" "detail") ⟨none, none⟩).bind
      (Run.follow (step (pairOf "sound" "detail")) (fun _ _ => true) stepBack)).any
        (fun t => t.core.map (·.value) = [0, 2]) = true := by decide +kernel
  obtain ⟨s, t, hstart, hreach, ht⟩ := Run.exists_reaches_of_follow hrun
  have hcore : (start (pairOf "sound" "detail") ⟨none, none⟩).all
      (fun s => (∀ item ∈ s.core, item.values ≠ []) ∧ WidestFirst s.core) = true := by
    decide +kernel
  rw [hstart] at hcore
  obtain ⟨hvalues, hwidest⟩ := of_decide_eq_true hcore
  have hreach' := hreach.mono fun _ _ _ => trivial
  exact ⟨s, t, hstart, hreach', by simpa using ht, options_inRange hstart hvalues hwidest hreach'⟩

/-- Two options with one key: the value chosen for the second is given to the first, which
does not have it. -/
theorem option_outOfRange : ∃ s t,
    start (pairOf "detail" "detail") ⟨none, none⟩ = some s ∧
      (∀ item ∈ s.core, item.values ≠ []) ∧
      Run.Reaches (step (pairOf "detail" "detail")) (fun _ _ => True) s t ∧
      ∃ item ∈ t.core, ¬ item.InRange := by
  have hrun : ((start (pairOf "detail" "detail") ⟨none, none⟩).bind
      (Run.follow (step (pairOf "detail" "detail")) (fun _ _ => true) stepBack)).any
        (fun t => ∃ item ∈ t.core, ¬ item.InRange) = true := by decide +kernel
  obtain ⟨s, t, hstart, hreach, ht⟩ := Run.exists_reaches_of_follow hrun
  have hcore : (start (pairOf "detail" "detail") ⟨none, none⟩).all
      (fun s => ∀ item ∈ s.core, item.values ≠ []) = true := by decide +kernel
  rw [hstart] at hcore
  exact ⟨s, t, hstart, of_decide_eq_true hcore, hreach.mono fun _ _ _ => trivial,
    of_decide_eq_true ht⟩

end Start

end Session

end DarkUI.Minarch.Options
