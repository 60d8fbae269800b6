import DarkUI.Foundation.InPlace
import DarkUI.Minarch.Variables

/-! # What the pointers into a variable read

Both passes find the same bars, since the second writes only in front of where it searches.
So the arrays are just large enough, and each pointer reads one of the values.
-/

namespace DarkUI.Minarch.Options

open Text

/-- Texts with a character between them. -/
def joined (sep : Char) (texts : List CString) : CString := [sep].intercalate texts

/-- Where the texts begin when they are joined, the first one at `base`. -/
def starts : Nat → List CString → List Nat
  | _, [] => []
  | base, text :: rest => base :: starts (base + text.length + 1) rest

/-- An array with pointers stored one after the other, from index `j` on. -/
def written : List (Option Nat) → Nat → List Nat → List (Option Nat)
  | l, _, [] => l
  | l, j, p :: rest => written (l.set j (some p)) (j + 1) rest

/-- Texts that can stand between bars in a C string. -/
def Plain (texts : List CString) : Prop := ∀ text ∈ texts, '|' ∉ text ∧ '\x00' ∉ text

variable {texts : List CString} {text next : CString} {l : List (Option Nat)}

@[simp] theorem joined_singleton (sep : Char) (text : CString) : joined sep [text] = text :=
  List.intercalate_singleton

theorem joined_cons (sep : Char) (text next : CString) (rest : List CString) :
    joined sep (text :: next :: rest) = text ++ sep :: joined sep (next :: rest) := by
  simp [joined]

@[simp] theorem length_starts (base : Nat) (texts : List CString) :
    (starts base texts).length = texts.length := by
  induction texts generalizing base with
  | nil => rfl
  | cons text rest ih => simp [starts, ih]

theorem Plain.tail {rest : List CString} (h : Plain (text :: rest)) : Plain rest :=
  fun t ht => h t (List.mem_cons_of_mem _ ht)

theorem countBars_none {var : CString} {tmp : Nat} (h : strchr var tmp '|' = none) :
    countBars var tmp = 0 := by
  unfold countBars
  split
  next => rfl
  next bar hbar =>
    rw [h] at hbar
    cases hbar

theorem countBars_some {var : CString} {tmp bar : Nat} (h : strchr var tmp '|' = some bar) :
    countBars var tmp = countBars var (bar + 1) + 1 := by
  rw [countBars]
  split
  next hbar =>
    rw [h] at hbar
    cases hbar
  next bar' hbar =>
    rw [h] at hbar
    cases hbar
    rfl

/-- There is a bar between any two values. -/
theorem countBars_joined (s : CString) (hne : texts ≠ []) (hplain : Plain texts) :
    countBars (s ++ joined '|' texts) s.length + 1 = texts.length := by
  induction texts generalizing s with
  | nil => exact absurd rfl hne
  | cons text rest ih =>
      obtain ⟨hbar, hnul⟩ := hplain text List.mem_cons_self
      cases rest with
      | nil =>
          rw [joined_singleton, countBars_none (strchr_eq_none hbar)]
          rfl
      | cons next rest =>
          rw [joined_cons, countBars_some (strchr_append _ _ hnul hbar (by decide))]
          have hsplit : s ++ (text ++ '|' :: joined '|' (next :: rest)) =
              (s ++ text ++ ['|']) ++ joined '|' (next :: rest) := by simp
          have hlength : s.length + text.length + 1 = (s ++ text ++ ['|']).length := by
            simp [Nat.add_assoc]
          rw [hsplit, hlength, ih (s ++ text ++ ['|']) (by simp) hplain.tail]
          rfl

theorem fillValues_none {opt j : Nat} {filled : Filled}
    (hroom : j < filled.values.length ∧ j < filled.labels.length)
    (h : strchr filled.var opt '|' = none) :
    fillValues opt j filled =
      some ⟨filled.var, filled.values.set j (some opt), filled.labels.set j (some opt)⟩ := by
  rw [fillValues, if_pos hroom]
  split
  next => rfl
  next bar hbar =>
    rw [h] at hbar
    cases hbar

theorem fillValues_some {opt j bar : Nat} {filled : Filled}
    (hroom : j < filled.values.length ∧ j < filled.labels.length)
    (h : strchr filled.var opt '|' = some bar) :
    fillValues opt j filled =
      fillValues (bar + 1) (j + 1) ⟨filled.var.set bar '\x00',
        filled.values.set j (some opt), filled.labels.set j (some opt)⟩ := by
  rw [fillValues, if_pos hroom]
  split
  next hbar =>
    rw [h] at hbar
    cases hbar
  next bar' hbar =>
    rw [h] at hbar
    cases hbar
    rfl

/-- What was not stored stays a null pointer. -/
theorem written_replicate (stored : List (Option Nat)) (pointers : List Nat) (k : Nat) :
    written (stored ++ List.replicate (pointers.length + k) none) stored.length pointers =
      stored ++ (pointers.map some ++ List.replicate k none) := by
  induction pointers generalizing stored with
  | nil => simp [written]
  | cons p rest ih =>
      have hlength : (stored ++ [some p]).length = stored.length + 1 := by simp
      have hset : (stored ++ List.replicate (rest.length + 1 + k) none).set stored.length (some p) =
          (stored ++ [some p]) ++ List.replicate (rest.length + k) none := by
        rw [List.set_append_right _ _ (Nat.le_refl _), Nat.sub_self, Nat.add_right_comm,
          List.replicate_succ, List.set_cons_zero]
        simp
      rw [List.length_cons, written, hset, ← hlength, ih]
      simp

/-- The second pass ends every value and points at each. -/
theorem fillValues_joined (s : CString) (hne : texts ≠ []) (hplain : Plain texts) (j : Nat)
    (values labels : List (Option Nat)) (hvalues : j + texts.length ≤ values.length)
    (hlabels : j + texts.length ≤ labels.length) :
    fillValues s.length j ⟨s ++ joined '|' texts, values, labels⟩ =
      some ⟨s ++ joined '\x00' texts, written values j (starts s.length texts),
        written labels j (starts s.length texts)⟩ := by
  induction texts generalizing s j values labels with
  | nil => exact absurd rfl hne
  | cons text rest ih =>
      obtain ⟨hbar, hnul⟩ := hplain text List.mem_cons_self
      rw [List.length_cons] at hvalues hlabels
      have hroom : j < values.length ∧ j < labels.length := by omega
      cases rest with
      | nil =>
          rw [fillValues_none hroom]
          · simp only [joined_singleton, starts, written]
          · simp only [joined_singleton]
            exact strchr_eq_none hbar
      | cons next rest =>
          have hfound := strchr_append s (joined '|' (next :: rest)) hnul hbar (by decide)
          rw [joined_cons, fillValues_some hroom hfound]
          have hset : (s ++ (text ++ '|' :: joined '|' (next :: rest))).set
                (s.length + text.length) '\x00' =
              (s ++ text ++ ['\x00']) ++ joined '|' (next :: rest) := by
            have hbefore : (s ++ text).length = s.length + text.length := List.length_append
            rw [← List.append_assoc, List.set_append_right _ _ (Nat.le_of_eq hbefore), hbefore,
              Nat.sub_self]
            simp
          have hlength : s.length + text.length + 1 = (s ++ text ++ ['\x00']).length := by
            simp [Nat.add_assoc]
          simp only [hset, hlength]
          rw [ih (s ++ text ++ ['\x00']) (by simp) hplain.tail (j + 1)]
          · simp [joined_cons, starts, written, Nat.add_assoc]
          · rw [List.length_set]
            omega
          · rw [List.length_set]
            omega

/-- Each pointer reads the value it was set to. -/
theorem read_starts (s : CString) (hplain : Plain texts) :
    (starts s.length texts).map (fun p => untilNul ((s ++ joined '\x00' texts).drop p)) =
      texts := by
  induction texts generalizing s with
  | nil => rfl
  | cons text rest ih =>
      obtain ⟨-, hnul⟩ := hplain text List.mem_cons_self
      cases rest with
      | nil => simp [starts, untilNul_eq_self hnul]
      | cons next rest =>
          have hrest := ih (s ++ text ++ ['\x00']) hplain.tail
          have hlength : s.length + text.length + 1 = (s ++ text ++ ['\x00']).length := by
            simp [Nat.add_assoc]
          have hsplit : s ++ joined '\x00' (text :: next :: rest) =
              (s ++ text ++ ['\x00']) ++ joined '\x00' (next :: rest) := by
            simp [joined_cons]
          rw [starts, List.map_cons, hsplit, hlength, hrest, ← hsplit, List.drop_left, joined_cons,
            untilNul_append_nul hnul]

/-- What both arrays read when a variable has been split: its values and a null pointer. -/
theorem fillValues_start (s : CString) (hne : texts ≠ []) (hplain : Plain texts) :
    fillValues s.length 0 ⟨s ++ joined '|' texts, List.replicate (texts.length + 1) none,
        List.replicate (texts.length + 1) none⟩ =
      some ⟨s ++ joined '\x00' texts, (starts s.length texts).map some ++ [none],
        (starts s.length texts).map some ++ [none]⟩ := by
  have hwritten := written_replicate [] (starts s.length texts) 1
  simp only [length_starts, List.nil_append, List.length_nil, List.replicate_one] at hwritten
  rw [fillValues_joined s hne hplain 0] <;> simp [hwritten]

/-- A variable in the form that cores report it. -/
structure LegacyVariable where
  key : CString
  description : CString
  values : List CString
  values_ne : values ≠ []
  values_plain : Plain values
  description_plain : ';' ∉ description ∧ '\x00' ∉ description

def LegacyVariable.variable (legacy : LegacyVariable) : Variable :=
  ⟨legacy.key, legacy.description ++ ';' :: ' ' :: joined '|' legacy.values⟩

/-- The option has the name and the values of the variable, and the first value is the current
one. -/
structure Splits (legacy : LegacyVariable) (item : VarItem) : Prop where
  key : item.key = legacy.key
  name : item.text item.name = some legacy.description
  count : item.count = legacy.values.length
  values : item.values.map item.text = legacy.values.map some ++ [none]
  labels : item.labels.map item.text = legacy.values.map some ++ [none]
  value : item.value = 0
  defaultValue : item.defaultValue = 0

/-- The option with pointers to texts that begin behind `front`. -/
def splitItem (key front : CString) (name : Option Nat) (texts : List CString) : VarItem :=
  let pointers := (starts front.length texts).map some ++ [none]
  ⟨key, front ++ joined '\x00' texts, name, texts.length, pointers, pointers, 0, 0⟩

theorem splitItem_values (key front : CString) (name : Option Nat) (hplain : Plain texts) :
    (splitItem key front name texts).values.map (splitItem key front name texts).text =
      texts.map some ++ [none] := by
  have hread := congrArg (List.map some) (read_starts front hplain)
  simpa [splitItem, VarItem.text, Function.comp_def] using hread

/-- A semicolon and a space end the name, and the values begin behind them. -/
theorem varItem_named (key : CString) {description : CString} (hsemi : ';' ∉ description)
    (hnul : '\x00' ∉ description) (hne : texts ≠ []) (hplain : Plain texts) :
    varItem ⟨key, description ++ ';' :: ' ' :: joined '|' texts⟩ =
      some (splitItem key (description ++ ['\x00', ' ']) (some 0) texts) := by
  have hfound : strchr (description ++ ';' :: ' ' :: joined '|' texts) 0 ';' =
      some description.length := by
    have h := strchr_append [] (' ' :: joined '|' texts) hnul hsemi (by decide)
    simpa using h
  have hspace : (description ++ ';' :: ' ' :: joined '|' texts)[description.length + 1]? =
      some ' ' := by
    simp
  have hcopy : (description ++ ';' :: ' ' :: joined '|' texts).set description.length '\x00' =
      (description ++ ['\x00', ' ']) ++ joined '|' texts := by
    rw [List.set_append_right _ _ (Nat.le_refl _), Nat.sub_self, List.set_cons_zero]
    simp
  have hlength : description.length + 2 = (description ++ ['\x00', ' ']).length := by simp
  have hcount := countBars_joined (description ++ ['\x00', ' ']) hne hplain
  simp only [varItem, hfound, hspace, if_true, hcopy, hlength, hcount,
    fillValues_start _ hne hplain, Option.map_some, splitItem]

/-- Without a space the semicolon is part of the first value, and there is no name. -/
theorem varItem_unnamed (key : CString) {description after : CString} (hsemi : ';' ∉ description)
    (hnul : '\x00' ∉ description) (hspace : after[0]? ≠ some ' ') (hne : texts ≠ [])
    (hplain : Plain texts) (hjoined : joined '|' texts = ';' :: after) :
    varItem ⟨key, description ++ ';' :: after⟩ = some (splitItem key description none texts) := by
  have hfound : strchr (description ++ ';' :: after) 0 ';' = some description.length := by
    have h := strchr_append [] after hnul hsemi (by decide)
    simpa using h
  have hnext : (description ++ ';' :: after)[description.length + 1]? ≠ some ' ' := by
    rw [List.getElem?_append_right (Nat.le_add_right _ 1), Nat.add_sub_cancel_left]
    exact hspace
  have hcount := countBars_joined description hne hplain
  have hfill := fillValues_start description hne hplain
  rw [hjoined] at hcount hfill
  simp only [varItem, hfound, hnext, if_false, hcount, hfill, Option.map_some, splitItem]

theorem plain_splitOn (hnul : '\x00' ∉ text) : Plain (text.splitOn '|') := by
  induction text with
  | nil => simp [Plain]
  | cons c rest ih =>
      simp only [List.mem_cons, not_or] at hnul
      have hrest := ih hnul.2
      rw [List.splitOn_cons_eq_if_modifyHead]
      split
      next =>
        intro t ht
        rcases List.mem_cons.mp ht with rfl | hmem
        · simp
        · exact hrest t hmem
      next hbar =>
        obtain ⟨first, others, hsplit⟩ :=
          List.exists_cons_of_ne_nil (List.splitOn_ne_nil '|' rest)
        rw [hsplit] at hrest ⊢
        intro t ht
        rcases List.mem_cons.mp ht with rfl | hmem
        · obtain ⟨hfirst, hfirst'⟩ := hrest first List.mem_cons_self
          have hne : '|' ≠ c := fun h => hbar (by simp [← h])
          simp [hne, hnul.1, hfirst, hfirst']
        · exact hrest t (List.mem_cons_of_mem _ hmem)

/-- The arrays read the values that the variable is taken to have. -/
theorem varItem_values {var : Variable} (hnul : '\x00' ∉ var.value) :
    (varItem var).map (fun item => item.values.map item.text) =
      var.values.map fun values => values.map some ++ [none] := by
  obtain ⟨key, value⟩ := var
  cases hsplit : splitFirst ';' value with
  | none =>
      have hsemi : ';' ∉ value := by
        intro hmem
        obtain ⟨before, after, rfl, hbefore⟩ := List.eq_append_cons_of_mem hmem
        rw [splitFirst_append hbefore] at hsplit
        cases hsplit
      have hfound : strchr value 0 ';' = none := strchr_eq_none (s := []) hsemi
      simp [varItem, Variable.values, hfound, hsplit]
  | some parts =>
      obtain ⟨description, after⟩ := parts
      obtain ⟨rfl, hsemi⟩ := splitFirst_eq_some hsplit
      simp only [List.mem_append, List.mem_cons, not_or] at hnul
      obtain ⟨hdescription, -, hafter⟩ := hnul
      -- without the blank the values begin with the separator itself
      by_cases hspace : after[0]? = some ' '
      · obtain ⟨body, rfl⟩ : ∃ body, after = ' ' :: body := by
          cases after with
          | nil => cases hspace
          | cons c body =>
              cases hspace
              exact ⟨body, rfl⟩
        simp only [List.mem_cons, not_or] at hafter
        have hplain := plain_splitOn hafter.2
        have hitem := varItem_named key hsemi hdescription (List.splitOn_ne_nil '|' body) hplain
        rw [joined, List.intercalate_splitOn] at hitem
        simp only [Variable.values, hsplit, hitem, Option.map_some,
          splitItem_values key _ _ hplain]
      · have hnul' : '\x00' ∉ ';' :: after := by simpa using hafter
        have hplain := plain_splitOn hnul'
        have hitem := varItem_unnamed key hsemi hdescription hspace
          (List.splitOn_ne_nil '|' (';' :: after)) hplain (List.intercalate_splitOn '|')
        have hvalues : (Variable.mk key (description ++ ';' :: after)).values =
            some ((';' :: after).splitOn '|') := by
          simp only [Variable.values, hsplit, Option.map_some]
          split
          next body => exact absurd rfl hspace
          next => rfl
        rw [hvalues, hitem, Option.map_some, splitItem_values key _ _ hplain, Option.map_some]

theorem varItem_splits (legacy : LegacyVariable) :
    ∃ item, varItem legacy.variable = some item ∧ Splits legacy item := by
  obtain ⟨hsemi, hnul⟩ := legacy.description_plain
  have hvalues := splitItem_values legacy.key (legacy.description ++ ['\x00', ' ']) (some 0)
    legacy.values_plain
  refine ⟨_, varItem_named legacy.key hsemi hnul legacy.values_ne legacy.values_plain, ?_⟩
  refine ⟨rfl, ?_, rfl, hvalues, hvalues, rfl, rfl⟩
  simp [splitItem, VarItem.text, untilNul_append_nul hnul]

/-- Every variable in that form is split into its values. -/
theorem OptionList.vars_splits (list : List LegacyVariable) :
    ∃ items, OptionList.vars (list.map LegacyVariable.variable) = some items ∧
      List.Forall₂ Splits list items := by
  unfold OptionList.vars
  induction list with
  | nil => exact ⟨[], rfl, .nil⟩
  | cons legacy rest ih =>
      obtain ⟨item, hitem, hsplits⟩ := varItem_splits legacy
      obtain ⟨items, hitems, hall⟩ := ih
      refine ⟨item :: items, ?_, .cons hsplits hall⟩
      rw [List.map_cons]
      exact InPlace.mapM_cons_eq_some.mpr ⟨item, items, hitem, hitems, rfl⟩

end DarkUI.Minarch.Options
