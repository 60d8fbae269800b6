import DarkUI.Minarch.DefaultsLaws

/-! # What configuration texts make of the options

A text is read option by option, and each gives its value to the first option with its key.
In the end an option is hidden if any text marks its key, and the first one with a key has the
value that the last text with the key gives it.
-/

namespace DarkUI.Minarch.Options

open Text KeyedLines InPlace

/-- What a text that gives the key of an option something makes of it; only the first option
with the key takes the value. -/
def Item.take (found : Found Char) (first : Bool) (item : Item) : Item :=
  { item with
    lock := item.lock || found.marked
    value :=
      if first then found.text.elim item.value fun value => valueIndex item.values (some value)
      else item.value }

namespace OptionList

variable {list : List Item} {cfg : CString} {item : Item} {i n : Nat}

/-- The option is the first one with its key. -/
def isFirst (list : List Item) (i : Nat) (item : Item) : Bool := getOption item.key list = i

/-- What a text gives a key, and nothing where the search does not end. -/
def found (cfg key : CString) : Found Char := (Config.getValue cfg key).getD ⟨none, false⟩

/-- The list after the loop over it has come to a place. -/
def readUpTo (cfg : CString) (list : List Item) (n : Nat) : List Item :=
  list.mapIdx fun i item =>
    if i < n then item.take (found cfg item.key) (isFirst list i item) else item

theorem readUpTo_specs (cfg : CString) (list : List Item) (n : Nat) :
    (readUpTo cfg list n).map (·.toSpec) = list.map (·.toSpec) := by
  apply List.ext_getElem?
  intro i
  simp only [readUpTo, List.getElem?_map, List.getElem?_mapIdx, Option.map_map]
  refine congrFun (congrArg Option.map (funext fun item => ?_)) _
  dsimp only [Function.comp_apply]
  split <;> rfl

theorem getOption_le (h : list[i]? = some item) : getOption item.key list ≤ i := by
  obtain ⟨hi, hitem⟩ := List.getElem?_eq_some_iff.mp h
  by_contra hlt
  have hnot := List.not_of_lt_findIdx (Nat.lt_of_not_le hlt)
  rw [hitem] at hnot
  simp at hnot

theorem key_of_getOption {key : CString} (h : list[getOption key list]? = some item) :
    item.key = key := by
  obtain ⟨hi, hitem⟩ := List.getElem?_eq_some_iff.mp h
  have hkey := List.findIdx_getElem (w := hi)
  rw [← hitem]
  exact of_decide_eq_true hkey

theorem getElem?_readUpTo (cfg : CString) (list : List Item) (n i : Nat) :
    (readUpTo cfg list n)[i]? = list[i]?.map fun item =>
      if i < n then item.take (found cfg item.key) (isFirst list i item) else item :=
  List.getElem?_mapIdx

/-- One option more has been read. -/
theorem readOption_readUpTo (h : list[n]? = some item)
    (hdefined : (Config.getValue cfg item.key).isSome) :
    readOption cfg (readUpTo cfg list n) n = some (readUpTo cfg list (n + 1)) := by
  obtain ⟨f, hf⟩ := Option.isSome_iff_exists.mp hdefined
  have hfound : found cfg item.key = f := by rw [found, hf, Option.getD_some]
  have hhere : (readUpTo cfg list n)[n]? = some item := by
    rw [getElem?_readUpTo, h, Option.map_some, if_neg (Nat.lt_irrefl n)]
  have hle := getOption_le h
  have hplace : getOption item.key ((readUpTo cfg list n).modify n (Item.hide f.marked)) =
      getOption item.key list :=
    getOption_of_specs ((hide_specs _ _ _).trans (readUpTo_specs cfg list n)) _
  unfold readOption
  rw [hhere]
  dsimp only
  rw [hf, Option.map_some, Option.some.injEq]
  -- what is read for one key changes at most the two places it is looked for
  apply List.ext_getElem?
  intro i
  rw [getElem?_readUpTo]
  cases htext : f.text with
  | none =>
      dsimp only
      rw [List.getElem?_modify, getElem?_readUpTo]
      cases hi : list[i]? with
      | none => rfl
      | some x =>
          by_cases hin : n = i
          · subst hin
            cases hi.symm.trans h
            simp [hfound, Item.take, Item.hide, htext]
          · have hlt : i < n + 1 ↔ i < n := by omega
            simp [hin, hlt]
  | some value =>
      dsimp only
      rw [setOptionValue, hplace, List.getElem?_modify, List.getElem?_modify, getElem?_readUpTo]
      cases hi : list[i]? with
      | none => rfl
      | some x =>
          by_cases hin : n = i
          · subst hin
            cases hi.symm.trans h
            by_cases hfirst : getOption item.key list = n
            · simp [hfound, Item.take, Item.hide, Item.setValue, htext, isFirst, hfirst]
            · simp [hfound, Item.take, Item.hide, isFirst, hfirst]
          · have hlt : i < n + 1 ↔ i < n := by omega
            by_cases hfirst : getOption item.key list = i
            · -- an earlier option has the key, and the value already
              have hkey := key_of_getOption (hfirst ▸ hi)
              have hbefore : i < n := by omega
              simp [hin, hlt, hbefore, hfirst, hkey, hfound, Item.take, Item.setValue, htext,
                isFirst]
            · simp [hin, hlt, hfirst]

/-- Each option can be looked for. -/
def Searchable (cfg : CString) (list : List Item) : Prop :=
  ∀ item ∈ list, (Config.getValue cfg item.key).isSome

theorem read_eq (h : Searchable cfg list) :
    read cfg list = some (list.mapIdx fun i item =>
      item.take (found cfg item.key) (isFirst list i item)) := by
  have hupTo : ∀ n ≤ list.length,
      (List.range n).foldlM (readOption cfg) list = some (readUpTo cfg list n) := by
    intro n hn
    induction n with
    | zero =>
        rw [List.range_zero, List.foldlM_nil]
        refine congrArg some (List.ext_getElem? fun i => ?_)
        simp [getElem?_readUpTo]
    | succ n ih =>
        have hitem := List.getElem?_eq_getElem (Nat.lt_of_succ_le hn)
        have hstep := readOption_readUpTo hitem (h _ (List.mem_of_getElem? hitem))
        rw [List.range_succ, List.foldlM_append, ih (Nat.le_of_succ_le hn)]
        simpa using hstep
  rw [read, hupTo _ le_rfl, readUpTo, Option.some.injEq]
  apply List.ext_getElem?
  intro i
  rw [List.getElem?_mapIdx, List.getElem?_mapIdx]
  cases hi : list[i]? with
  | none => rfl
  | some item =>
      rw [Option.map_some, Option.map_some, if_pos (List.getElem?_eq_some_iff.mp hi).1]

theorem isSome_of_foldlM {indices : List Nat} {start last : List Item}
    (hspecs : start.map (·.toSpec) = list.map (·.toSpec))
    (h : indices.foldlM (readOption cfg) start = some last) (hi : i ∈ indices)
    (hitem : list[i]? = some item) : (Config.getValue cfg item.key).isSome := by
  induction indices generalizing start with
  | nil => cases hi
  | cons j indices ih =>
      obtain ⟨next, hnext, hrest⟩ := Option.bind_eq_some_iff.mp h
      rcases List.mem_cons.mp hi with rfl | hlater
      · obtain ⟨item', hitem', hspec⟩ := getElem?_of_specs hspecs hitem
        have hkey : item'.key = item.key := congrArg Spec.key hspec
        simp only [readOption, hitem', hkey] at hnext
        obtain ⟨found, hfound, -⟩ := Option.map_eq_some_iff.mp hnext
        rw [hfound]
        rfl
      · exact ih ((readOption_specs hnext).trans hspecs) hrest hlater

theorem read_eq_none (h : ¬ Searchable cfg list) : read cfg list = none := by
  rw [Option.eq_none_iff_forall_ne_some]
  intro last hread
  apply h
  intro item hitem
  obtain ⟨i, hi⟩ := List.mem_iff_getElem?.mp hitem
  have hlt := (List.getElem?_eq_some_iff.mp hi).1
  exact isSome_of_foldlM rfl hread (List.mem_range.mpr hlt) hi

/-! ## Several texts -/

/-- What the last text that has the key gives it. -/
def lastGiven (texts : List CString) (key : CString) : Option CString :=
  texts.reverse.findSome? fun cfg => (found cfg key).text

/-- What the texts make of an option, one after the other. -/
def takeAll (texts : List CString) (first : Bool) (item : Item) : Item :=
  texts.foldl (fun item cfg => item.take (found cfg item.key) first) item

theorem takeAll_eq (texts : List CString) (first : Bool) (item : Item) :
    takeAll texts first item =
      { item with
        lock := item.lock || texts.any fun cfg => (found cfg item.key).marked
        value :=
          if first then
            (lastGiven texts item.key).elim item.value fun value =>
              valueIndex item.values (some value)
          else item.value } := by
  induction texts generalizing item with
  | nil => simp [takeAll, lastGiven]
  | cons cfg texts ih =>
      have hlast : lastGiven (cfg :: texts) item.key =
          (lastGiven texts item.key).or (found cfg item.key).text := by
        rw [lastGiven, List.reverse_cons, List.findSome?_append]
        simp [lastGiven]
      have hstep : takeAll (cfg :: texts) first item =
          takeAll texts first (item.take (found cfg item.key) first) := rfl
      rw [hstep, ih, hlast]
      cases first with
      | false => simp [Item.take, Bool.or_assoc]
      | true =>
          -- A later text overrides what this one gives.
          cases hgiven : lastGiven texts item.key with
          | none => simp [Item.take, Bool.or_assoc, hgiven]
          | some value => simp [Item.take, Bool.or_assoc, hgiven]

theorem searchable_of_specs {list' : List Item}
    (hspecs : list'.map (·.toSpec) = list.map (·.toSpec)) (h : Searchable cfg list) :
    Searchable cfg list' := by
  intro item' hitem'
  obtain ⟨item, hitem, hspec⟩ := mem_of_specs hspecs hitem'
  have hkey : item.key = item'.key := congrArg Spec.key hspec
  rw [← hkey]
  exact h item hitem

theorem readAll_eq {texts : List CString} (h : ∀ cfg ∈ texts, Searchable cfg list) :
    texts.foldlM (fun list cfg => read cfg list) list =
      some (list.mapIdx fun i item => takeAll texts (isFirst list i item) item) := by
  induction texts generalizing list with
  | nil =>
      rw [List.foldlM_nil]
      refine congrArg some (List.ext_getElem? fun i => ?_)
      simp [takeAll, List.getElem?_mapIdx]
  | cons cfg texts ih =>
      rw [List.forall_mem_cons] at h
      have hread := read_eq h.1
      have hspecs := read_specs hread
      have hlater := ih fun cfg hcfg => searchable_of_specs hspecs (h.2 cfg hcfg)
      rw [List.foldlM_cons, hread]
      refine hlater.trans (congrArg some (List.ext_getElem? fun i => ?_))
      simp only [List.getElem?_mapIdx, Option.map_map]
      refine congrFun (congrArg Option.map (funext fun item => ?_)) _
      have hfirst : isFirst (list.mapIdx fun i item =>
          item.take (found cfg item.key) (isFirst list i item)) i
            (item.take (found cfg item.key) (isFirst list i item)) = isFirst list i item := by
        rw [isFirst, isFirst, getOption_of_specs hspecs]
        rfl
      rw [Function.comp_apply, hfirst]
      rfl

theorem readAll_eq_none {texts : List CString} (h : ¬ ∀ cfg ∈ texts, Searchable cfg list) :
    texts.foldlM (fun list cfg => read cfg list) list = none := by
  induction texts generalizing list with
  | nil => exact absurd (fun cfg hcfg => nomatch hcfg) h
  | cons cfg texts ih =>
      rw [List.foldlM_cons]
      by_cases hcfg : Searchable cfg list
      · have hread := read_eq hcfg
        have hspecs := read_specs hread
        rw [hread]
        refine ih fun hlater => h (List.forall_mem_cons.mpr ⟨hcfg, fun later hmem => ?_⟩)
        exact searchable_of_specs hspecs.symm (hlater later hmem)
      · rw [read_eq_none hcfg]
        rfl

end OptionList

/-- The texts there are, in the order they are read. -/
def textsOf (sources : Config.Sources) : List CString :=
  sources.system.toList ++ sources.default.toList ++ sources.user.toList

theorem layers_eq_foldlM {σ : Type} (read : CString → σ → Option σ) (sources : Config.Sources)
    (s : σ) : layers read sources s = (textsOf sources).foldlM (fun s cfg => read cfg s) s := by
  obtain ⟨system, default_, user⟩ := sources
  cases system <;> cases default_ <;> cases user <;> simp [layers, layer, textsOf]

end DarkUI.Minarch.Options
