import DarkUI.Minarch.Controls
import DarkUI.Foundation.Occurrences

/-! # The bindings of a default configuration

The scan goes from one `bind` to the next and does not know the lines. It stays within its
arrays as long as what it finds there is short and not too much of it. Of a text whose lines
are bindings it finds each line, if no name reaches over an equals sign.
-/

namespace DarkUI.Minarch

open Text KeyedLines

/-! ## What the scan finds -/

section Scan

variable {text name value : CString}

/-- The value of a binding as it stands in its array, if it is ended there. -/
def buttonText (value : CString) : CString :=
  let buffer := value.take 128
  if '\n' ∈ buffer then buffer.takeWhile (· != '\n') else buffer.takeWhile (· != '\r')

/-- The line or the text ends before the array is full. -/
def EndsInTime (value : CString) : Prop := '\n' ∈ value.take 128 ∨ value.length < 128

instance (value : CString) : Decidable (EndsInTime value) :=
  inferInstanceAs (Decidable (_ ∨ _))

theorem buttonId_eq (value : CString) :
    buttonId value = if EndsInTime value then some (buttonText value) else none := by
  unfold buttonId buttonText EndsInTime
  dsimp only
  split
  next hline => rw [if_pos (.inl hline)]
  next hline =>
    split
    next hlong => rw [if_neg (by simp only [not_or]; exact ⟨hline, by omega⟩)]
    next hshort => rw [if_pos (.inr (by omega))]

/-- A value is read up to the end of its line. -/
theorem buttonText_line (hline : '\n' ∉ value) (hlength : value.length < 128) (rest : CString) :
    buttonText (value ++ '\n' :: rest) = value ∧ EndsInTime (value ++ '\n' :: rest) := by
  have hbuffer : (value ++ '\n' :: rest).take 128 =
      value ++ '\n' :: rest.take (127 - value.length) := by
    rw [List.take_append, List.take_of_length_le (by omega),
      show 128 - value.length = 127 - value.length + 1 by omega, List.take_succ_cons]
  have hmem : '\n' ∈ (value ++ '\n' :: rest).take 128 := by
    rw [hbuffer]
    exact List.mem_append_right _ List.mem_cons_self
  refine ⟨?_, .inl hmem⟩
  rw [buttonText, if_pos hmem, hbuffer, List.takeWhile_append_of_pos]
  · simp
  · intro c hc
    exact bne_iff_ne.mpr fun heq => hline (heq ▸ hc)

/-- The label of the local button, which the scan goes on behind. -/
def scannedLabel (value : CString) : CString := (boundControl [] (buttonText value)).2

theorem scan_decreases (h : nextBind text = some (name, value)) :
    (value.drop (scannedLabel value).length).length < text.length := by
  have hlength := nextBind_length h
  rw [List.length_drop]
  omega

/-- The names that stand behind a `bind`, each with the text behind its equals sign. -/
def scan (text : CString) : List (CString × CString) :=
  match _hnext : nextBind text with
  | none => []
  | some (name, value) => (name, value) :: scan (value.drop (scannedLabel value).length)
termination_by text.length
decreasing_by exact scan_decreases _hnext

theorem scan_none (h : nextBind text = none) : scan text = [] := by
  unfold scan
  split
  next => rfl
  next hnext => rw [h] at hnext; cases hnext

theorem scan_some (h : nextBind text = some (name, value)) :
    scan text = (name, value) :: scan (value.drop (scannedLabel value).length) := by
  rw [scan]
  split
  next hnext => rw [h] at hnext; cases hnext
  next hnext =>
    rw [h] at hnext
    cases hnext
    rfl

theorem bindings_none (h : nextBind text = none) : bindings text = some [] := by
  unfold bindings
  split
  next => rfl
  next hnext => rw [h] at hnext; cases hnext

theorem bindings_some (h : nextBind text = some (name, value)) :
    bindings text =
      if 128 ≤ name.length ∨ ¬ EndsInTime value then none
      else (bindings (value.drop (scannedLabel value).length)).map
        ((boundControl name (buttonText value)).1 :: ·) := by
  rw [bindings]
  split
  next hnext => rw [h] at hnext; cases hnext
  next hnext =>
    rw [h] at hnext
    cases hnext
    rw [buttonId_eq]
    by_cases hname : 128 ≤ name.length
    · rw [if_pos hname, if_pos (.inl hname)]
    · rw [if_neg hname]
      by_cases hvalue : EndsInTime value
      · rw [if_pos hvalue, if_neg (by simp only [not_or, not_not]; exact ⟨hname, hvalue⟩)]
        rfl
      · rw [if_neg hvalue, if_pos (.inr hvalue)]
        rfl

/-- A binding fits if its name fits its array and its value ends in its own. -/
def BindFits (found : CString × CString) : Prop := found.1.length < 128 ∧ EndsInTime found.2

/-- Without overrunning an array each binding found becomes a control. -/
theorem bindings_eq_some_iff {controls : List Mapping} : bindings text = some controls ↔
    (∀ found ∈ scan text, BindFits found) ∧
      controls = (scan text).map fun found => (boundControl found.1 (buttonText found.2)).1 := by
  induction text using scan.induct generalizing controls with
  | case1 text hnext =>
      rw [bindings_none hnext, scan_none hnext]
      simp [eq_comm]
  | case2 text name value hnext ih =>
      rw [bindings_some hnext, scan_some hnext, List.forall_mem_cons, List.map_cons]
      by_cases hfits : BindFits (name, value)
      · have hnot : ¬ (128 ≤ name.length ∨ ¬ EndsInTime value) := by
          rw [not_or, not_not, not_le]
          exact hfits
        rw [if_neg hnot, Option.map_eq_some_iff]
        constructor
        · rintro ⟨later, hlater, rfl⟩
          obtain ⟨hall, rfl⟩ := ih.mp hlater
          exact ⟨⟨hfits, hall⟩, rfl⟩
        · rintro ⟨⟨_, hall⟩, rfl⟩
          exact ⟨_, ih.mpr ⟨hall, rfl⟩, rfl⟩
      · have hover : 128 ≤ name.length ∨ ¬ EndsInTime value := by
          by_contra hnot
          rw [not_or, not_not, not_le] at hnot
          exact hfits hnot
        rw [if_pos hover]
        simp [hfits]

/-- The text leads `Config_init` past none of its arrays. -/
def StaysWithin (text : CString) : Prop :=
  ∃ controls, configInit (some text) = some controls ∧ controls.length ≤ retroButtonCount

/-- At most as many bindings as the core has buttons, each of them short. -/
def BindsFit (text : CString) : Prop :=
  (scan text).length ≤ retroButtonCount ∧ ∀ found ∈ scan text, BindFits found

theorem staysWithin_iff : StaysWithin text ↔ BindsFit text := by
  unfold StaysWithin BindsFit configInit
  simp only [Option.filter_eq_some_iff, bindings_eq_some_iff, decide_eq_true_eq]
  constructor
  · rintro ⟨controls, ⟨⟨hall, rfl⟩, hcount⟩, _⟩
    rw [List.length_map] at hcount
    exact ⟨hcount, hall⟩
  · rintro ⟨hcount, hall⟩
    refine ⟨_, ⟨⟨hall, rfl⟩, ?_⟩, ?_⟩ <;> rwa [List.length_map]

end Scan

/-! ## Lines that are bindings -/

/-- The labels of the table. -/
def knownLabels : List CString := buttonLabelMapping.map (·.1)

/-- The button of the core and the local button of a label. -/
def labelButtons (label : CString) : Int × Int := (buttonLabelMapping.lookup label).getD (-1, -1)

/-- A line `bind NAME = LOCAL` or `bind NAME = LOCAL:RETRO`. -/
structure BindLine where
  name : CString
  button : CString
  core : Option CString
  name_line : '\n' ∉ name
  button_known : button ∈ knownLabels
  core_known : ∀ label ∈ core, label ∈ knownLabels

namespace BindLine

def value (line : BindLine) : CString := line.button ++ line.core.elim [] (':' :: ·)

def text (line : BindLine) : CString := "bind ".toList ++ (line.name ++ (equals ++ line.value))

/-- The control that the line names. Without a button of the core it is the label's own. -/
def mapping (line : BindLine) : Mapping :=
  ⟨line.name, (labelButtons (line.core.getD line.button)).1, (labelButtons line.button).2, false, 0⟩

/-- The name fits its array and stands clear of the equals sign, and no button of the core is
taken away from a label that has one. -/
structure Readable (line : BindLine) : Prop where
  short : line.name.length < 128
  clear : ¬ equals <:+: line.name ++ " =".toList
  kept : line.core = some "NONE".toList → line.button = "NONE".toList

end BindLine

/-- The text of the lines. The last one may be without its ending. -/
def bindText (ended : Bool) (lines : List BindLine) : CString :=
  joinLines ['\n'] ended (lines.map BindLine.text)

theorem known_short {label : CString} (h : label ∈ knownLabels) :
    label.length ≤ 6 ∧ '\n' ∉ label ∧ '\r' ∉ label ∧ ':' ∉ label ∧ 'b' ∉ label := by
  revert label
  decide

/-- Only `NONE` has no button of the core. -/
theorem labelButtons_none {label : CString} (h : label ∈ knownLabels) :
    (labelButtons label).1 = -1 ↔ label = "NONE".toList := by
  revert label
  decide

theorem lookup_known {label : CString} (h : label ∈ knownLabels) :
    buttonLabelMapping.lookup label = some (labelButtons label) := by
  revert label
  decide

theorem boundControl_name (name button : CString) : (boundControl name button).1.name = name :=
  rfl

namespace BindLine

variable {line : BindLine}

theorem splitLast_value (line : BindLine) :
    splitLast ':' line.value = line.core.map fun label => (line.button, label) := by
  have hbutton := (known_short line.button_known).2.2.2.1
  unfold value
  cases hcore : line.core with
  | none =>
      rw [Option.elim_none, List.append_nil, Option.map_none]
      exact splitLast_eq_none.mpr hbutton
  | some label =>
      have hlabel := (known_short (line.core_known label hcore)).2.2.2.1
      exact splitLast_eq_some.mpr ⟨rfl, hlabel⟩

/-- The scan keeps the label of the local button; a `NONE` for the core counts as nothing. -/
theorem boundControl_value (line : BindLine) :
    (boundControl line.name line.value).2 = line.button ∧
      ((boundControl line.name line.value).1 = line.mapping ↔
        (line.core = some "NONE".toList → line.button = "NONE".toList)) := by
  have hbutton := lookup_known line.button_known
  unfold boundControl mapping
  rw [splitLast_value]
  cases hcore : line.core with
  | none =>
      have hvalue : line.value = line.button := by
        rw [value, hcore, Option.elim_none, List.append_nil]
      simp [hvalue, hbutton]
  | some label =>
      have hlabel := lookup_known (line.core_known label hcore)
      have hnone := labelButtons_none (line.core_known label hcore)
      have hnone' := labelButtons_none line.button_known
      simp only [Option.map_some, hlabel, Option.elim_some, hbutton, Option.getD_some,
        Option.some.injEq, Mapping.mk.injEq, and_true, true_and, ← hnone, ← hnone']
      split
      next hmissing => rw [hmissing]; simp
      next hgiven => simp [hgiven]

theorem value_short (line : BindLine) :
    line.value.length < 128 ∧ '\n' ∉ line.value ∧ '\r' ∉ line.value := by
  obtain ⟨hlength, hline, hreturn, -, -⟩ := known_short line.button_known
  unfold value
  cases hcore : line.core with
  | none =>
      rw [Option.elim_none, List.append_nil]
      exact ⟨by omega, hline, hreturn⟩
  | some label =>
      obtain ⟨hlength', hline', hreturn', -, -⟩ := known_short (line.core_known label hcore)
      refine ⟨?_, ?_, ?_⟩
      · rw [Option.elim_some, List.length_append, List.length_cons]
        omega
      · simp [hline, hline']
      · simp [hreturn, hreturn']

/-- A value is read up to the end of its line. -/
theorem buttonText_value (line : BindLine) {after : CString}
    (hafter : after = [] ∨ ∃ rest, after = '\n' :: rest) :
    buttonText (line.value ++ after) = line.value ∧ EndsInTime (line.value ++ after) := by
  obtain ⟨hlength, hline, hreturn⟩ := line.value_short
  obtain rfl | ⟨rest, rfl⟩ := hafter
  · rw [List.append_nil]
    refine ⟨?_, .inr hlength⟩
    rw [buttonText, List.take_of_length_le (by omega), if_neg hline]
    refine List.takeWhile_eq_self_iff.mpr fun c hc => ?_
    exact bne_iff_ne.mpr fun heq => hreturn (heq ▸ hc)
  · exact buttonText_line hline hlength rest

/-- What is searched for the equals sign of a line. -/
theorem nextBind_text (line : BindLine) (after : CString) :
    nextBind (line.text ++ after) =
      (find equals (line.name ++ (equals ++ (line.value ++ after)))).map fun rest =>
        ((line.name ++ (equals ++ (line.value ++ after))).take
          ((line.name ++ (equals ++ (line.value ++ after))).length - rest.length),
          rest.drop 3) := by
  have htext : line.text ++ after =
      "bind ".toList ++ (line.name ++ (equals ++ (line.value ++ after))) := by
    simp [text]
  have hkey : ("bind ".toList ++ (line.name ++ (equals ++ (line.value ++ after)))).drop 5 =
      line.name ++ (equals ++ (line.value ++ after)) := List.drop_left' rfl
  rw [htext, nextBind, find_of_starts (List.prefix_append _ _), Option.bind_some, hkey]

theorem find_equals_iff (line : BindLine) (after : CString) :
    find equals (line.name ++ (equals ++ (line.value ++ after))) =
        some (equals ++ (line.value ++ after)) ↔
      ¬ equals <:+: line.name ++ " =".toList :=
  find_first_iff (c := ' ') (t := " =".toList) (line.value ++ after)

theorem nextBind_of_clear (line : BindLine) (after : CString)
    (hclear : ¬ equals <:+: line.name ++ " =".toList) :
    nextBind (line.text ++ after) = some (line.name, line.value ++ after) := by
  have hlength : equals.length = 3 := rfl
  rw [nextBind_text, (line.find_equals_iff after).mpr hclear, Option.map_some,
    List.drop_left' hlength]
  simp

/-- A binding found under the line's name begins where the line's own does. -/
theorem clear_of_nextBind (line : BindLine) {after found : CString}
    (h : nextBind (line.text ++ after) = some (line.name, found)) :
    ¬ equals <:+: line.name ++ " =".toList := by
  rw [nextBind_text] at h
  obtain ⟨rest, hrest, hpair⟩ := Option.map_eq_some_iff.mp h
  have hsuffix := suffix_of_find hrest
  have hown : equals ++ (line.value ++ after) <:+
      line.name ++ (equals ++ (line.value ++ after)) := List.suffix_append _ _
  have hname := congrArg (fun pair => pair.1.length) hpair
  have hle := hsuffix.length_le
  simp only [List.length_take, List.length_append] at hname hle
  have hsame : rest.length = (equals ++ (line.value ++ after)).length := by
    simp only [List.length_append]
    omega
  rw [← line.find_equals_iff after, hrest,
    (List.suffix_of_suffix_length_le hsuffix hown hsame.le).eq_of_length hsame]

end BindLine

/-- Nothing before the first `b` is a binding. -/
theorem bindings_append {before : CString} (hb : 'b' ∉ before) (s : CString) :
    bindings (before ++ s) = bindings s := by
  have hnext : nextBind (before ++ s) = nextBind s := by
    have hfind : find "bind ".toList (before ++ s) = find "bind ".toList s := find_append hb s
    rw [nextBind, nextBind, hfind]
  cases hs : nextBind s with
  | none => rw [bindings_none hs, bindings_none (hnext.trans hs)]
  | some found => rw [bindings_some hs, bindings_some (hnext.trans hs)]

/-- The first control has the name that was found first. -/
theorem nextBind_of_bindings {text : CString} {control : Mapping} {controls : List Mapping}
    (h : bindings text = some (control :: controls)) :
    ∃ value, nextBind text = some (control.name, value) := by
  cases hnext : nextBind text with
  | none =>
      rw [bindings_none hnext] at h
      cases h
  | some found =>
      rw [bindings_some hnext] at h
      split at h
      next => cases h
      next =>
        obtain ⟨later, -, heq⟩ := Option.map_eq_some_iff.mp h
        have hname : found.1 = control.name := congrArg Mapping.name (List.cons.inj heq).1
        exact ⟨found.2, by rw [← hname]⟩

/-- Behind the label of a line comes the next line. -/
theorem bindings_behind (line : BindLine) {ending : CString} (rest : CString)
    (hending : 'b' ∉ ending) :
    bindings ((line.value ++ (ending ++ rest)).drop line.button.length) = bindings rest := by
  have hcore : 'b' ∉ line.core.elim [] (':' :: ·) := by
    cases hcore : line.core with
    | none => exact List.not_mem_nil
    | some label =>
        have hlabel := (known_short (line.core_known label hcore)).2.2.2.2
        rw [Option.elim_some, List.mem_cons, not_or]
        exact ⟨by decide, hlabel⟩
  rw [BindLine.value, List.append_assoc, List.drop_left, bindings_append hcore,
    bindings_append hending]

/-- A line is scanned into its control and the scan goes on with the next line. -/
theorem bindings_line (line : BindLine) {ending : CString} (rest : CString)
    (hending : ending = ['\n'] ∨ ending = [] ∧ rest = []) (controls : List Mapping) :
    bindings (line.text ++ (ending ++ rest)) = some (line.mapping :: controls) ↔
      line.Readable ∧ bindings rest = some controls := by
  have htail : ending ++ rest = [] ∨ ∃ later, ending ++ rest = '\n' :: later := by
    rcases hending with rfl | ⟨rfl, rfl⟩
    · exact .inr ⟨rest, rfl⟩
    · exact .inl rfl
  have hb : 'b' ∉ ending := by
    rcases hending with rfl | ⟨rfl, -⟩
    · decide
    · exact List.not_mem_nil
  obtain ⟨hvalue, hends⟩ := line.buttonText_value htail
  obtain ⟨hlabel, hcontrol⟩ := line.boundControl_value
  -- a name with the separator in it ends too early
  by_cases hclear : equals <:+: line.name ++ " =".toList
  · refine iff_of_false (fun h => ?_) fun h => h.1.clear hclear
    obtain ⟨found, hfound⟩ := nextBind_of_bindings h
    exact line.clear_of_nextBind hfound hclear
  · have hscanned : scannedLabel (line.value ++ (ending ++ rest)) = line.button := by
      rw [scannedLabel, hvalue]
      exact hlabel
    rw [bindings_some (line.nextBind_of_clear _ hclear), hscanned, bindings_behind line rest hb,
      hvalue]
    by_cases hshort : line.name.length < 128
    · have hnot : ¬ (128 ≤ line.name.length ∨ ¬ EndsInTime (line.value ++ (ending ++ rest))) := by
        rw [not_or, not_not, not_le]
        exact ⟨hshort, hends⟩
      rw [if_neg hnot, Option.map_eq_some_iff]
      constructor
      · rintro ⟨later, hlater, heq⟩
        obtain ⟨hfirst, rfl⟩ := List.cons.inj heq
        exact ⟨⟨hshort, hclear, hcontrol.mp hfirst⟩, hlater⟩
      · rintro ⟨hreadable, hlater⟩
        exact ⟨controls, hlater, by rw [hcontrol.mpr hreadable.kept]⟩
    · rw [if_pos (.inl (not_lt.mp hshort))]
      exact iff_of_false (fun h => nomatch h) fun h => hshort h.1.short

theorem bindings_lines (ended : Bool) (lines : List BindLine) :
    bindings (bindText ended lines) = some (lines.map BindLine.mapping) ↔
      ∀ line ∈ lines, line.Readable := by
  induction lines with
  | nil =>
      have hnone : bindings [] = some [] := bindings_none rfl
      simp [bindText, joinLines, hnone]
  | cons line lines ih =>
      have htext : bindText ended (line :: lines) =
          line.text ++
            ((if lines.isEmpty && !ended then [] else ['\n']) ++ bindText ended lines) := by
        rw [bindText, List.map_cons, joinLines, List.isEmpty_map, bindText]
      rw [htext, List.map_cons, bindings_line, ih, List.forall_mem_cons]
      cases hlast : lines.isEmpty && !ended with
      | false => exact .inl rfl
      | true =>
          rw [Bool.and_eq_true, List.isEmpty_iff] at hlast
          rw [hlast.1]
          exact .inr ⟨rfl, rfl⟩

/-- Every text whose bindings are few and short leads past no array, and no other; and lines
that are bindings become one control each just when they are few and readable. -/
theorem configInit_iff (text : CString) (ended : Bool) (lines : List BindLine) :
    (StaysWithin text ↔ BindsFit text) ∧
    (configInit (some (bindText ended lines)) = some (lines.map BindLine.mapping) ↔
      lines.length ≤ retroButtonCount ∧ ∀ line ∈ lines, line.Readable) := by
  refine ⟨staysWithin_iff, ?_⟩
  rw [configInit, Option.filter_eq_some_iff, bindings_lines, decide_eq_true_eq, List.length_map]
  exact and_comm

/-- The names of the controls and of the shortcuts, as `Config_write` writes them. -/
theorem written_names :
    ∀ control ∈ defaultButtonMapping ++ unboundShortcuts, '\n' ∉ control.name := by
  decide

theorem none_known : "NONE".toList ∈ knownLabels := by
  decide

/-- The line of a control that is not bound. -/
def unboundLine (control : Mapping) (hname : '\n' ∉ control.name) : BindLine where
  name := control.name
  button := "NONE".toList
  core := none
  name_line := hname
  button_known := none_known
  core_known := fun _ h => nomatch h

/-- The bindings of a written configuration with nothing bound. -/
def writtenLines : List BindLine :=
  (defaultButtonMapping ++ unboundShortcuts).pmap unboundLine written_names

/-- A written configuration has bindings for the shortcuts too, which are too many. -/
theorem writtenLines_not_within :
    ¬ StaysWithin (bindText true writtenLines) ∧
      configInit (some (bindText true writtenLines)) ≠
        some (writtenLines.map BindLine.mapping) := by
  have hnames : ∀ control ∈ defaultButtonMapping ++ unboundShortcuts,
      control.name.length < 128 ∧ ¬ equals <:+: control.name ++ " =".toList := by
    decide
  have hreadable : ∀ line ∈ writtenLines, line.Readable := by
    intro line hline
    obtain ⟨control, hmem, rfl⟩ := List.mem_pmap.mp hline
    obtain ⟨hshort, hclear⟩ := hnames control hmem
    exact ⟨hshort, hclear, fun h => nomatch h⟩
  have hcount : (writtenLines.map BindLine.mapping).length = 24 := rfl
  have hnone : configInit (some (bindText true writtenLines)) = none := by
    rw [configInit, (bindings_lines true writtenLines).mpr hreadable, Option.filter_some, if_neg]
    rw [decide_eq_true_eq, hcount]
    decide
  rw [hnone]
  refine ⟨fun hwithin => ?_, fun h => nomatch h⟩
  obtain ⟨controls, hcontrols, -⟩ := hwithin
  rw [hnone] at hcontrols
  cases hcontrols

end DarkUI.Minarch
