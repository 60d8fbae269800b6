import DarkUI.Minarch.BindingsLaws
import DarkUI.Foundation.LineEndings

/-! # Bindings in a text with other line endings

A value is cut at the newline, so that a carriage return before it stays in the value. The
bindings are found at the same places, but a label with a carriage return is not known.
-/

namespace DarkUI.Minarch

open Text KeyedLines

variable {text name value rest : CString}

/-- The parts of a binding are those of the text with its line endings. -/
theorem nextBind_crlf (text : CString) :
    nextBind (crlf text) = (nextBind text).map fun found => (crlf found.1, crlf found.2) := by
  have hbind : InLine "bind ".toList := by decide
  have hequals : InLine equals := by decide
  rw [nextBind, find_crlf hbind, nextBind]
  cases hfound : find "bind ".toList text with
  | none => rfl
  | some found =>
      have hkey : (crlf found).drop 5 = crlf (found.drop 5) :=
        drop_crlf_of_prefix hbind (prefix_of_find hfound)
      rw [Option.map_some, Option.bind_some, Option.bind_some, hkey]
      generalize found.drop 5 = key
      dsimp only
      rw [find_crlf hequals]
      cases hrest : find equals key with
      | none => rfl
      | some rest =>
          have hvalue : (crlf rest).drop 3 = crlf (rest.drop 3) :=
            drop_crlf_of_prefix hequals (prefix_of_find hrest)
          obtain ⟨name, rfl⟩ := suffix_of_find hrest
          simp only [Option.map_some, hvalue, crlf_append, List.length_append,
            Nat.add_sub_cancel_right, List.take_left]

theorem not_endsInTime (hline : '\n' ∉ value.take 128) (hlength : 128 ≤ value.length) :
    ¬ EndsInTime value := by
  rintro (hmem | hshort)
  · exact hline hmem
  · omega

/-- A binding means the same with a carriage return before the end of its line. -/
def SameBind (found : CString × CString) : Prop :=
  '\n' ∉ found.1 ∧ ('\n' ∈ found.2.take 128 →
    '\n' ∈ found.2.take 127 ∧
      (boundControl found.1 (buttonText found.2 ++ ['\r'])).1 =
        (boundControl found.1 (buttonText found.2)).1)

theorem scannedLabel_eq (value : CString) :
    scannedLabel value =
      ((splitLast ':' (buttonText value)).map (·.1)).getD (buttonText value) := by
  unfold scannedLabel boundControl
  cases splitLast ':' (buttonText value) with
  | none => rfl
  | some pair => rfl

theorem splitLast_return (s : CString) :
    splitLast ':' (s ++ ['\r']) = (splitLast ':' s).map fun pair => (pair.1, pair.2 ++ ['\r']) := by
  cases hsplit : splitLast ':' s with
  | none =>
      rw [splitLast_eq_none] at hsplit
      rw [Option.map_none, splitLast_eq_none]
      simp [hsplit]
  | some pair =>
      obtain ⟨before, after⟩ := pair
      obtain ⟨rfl, hafter⟩ := splitLast_eq_some.mp hsplit
      rw [Option.map_some, splitLast_eq_some]
      exact ⟨by simp, by simp [hafter]⟩

/-- With its carriage return the value is one longer. -/
theorem buttonText_crlf (hline : '\n' ∉ value) (hlength : value.length < 127) (rest : CString) :
    buttonText (crlf (value ++ '\n' :: rest)) = value ++ ['\r'] ∧
      EndsInTime (crlf (value ++ '\n' :: rest)) := by
  rw [crlf_line hline]
  apply buttonText_line
  · simp [hline]
  · rw [List.length_append, List.length_singleton]
    omega

/-- Behind the label of a line the same bindings are found. -/
theorem bindings_drop_crlf (hline : '\n' ∉ value) (hlength : value.length < 127) (rest : CString) :
    bindings ((crlf (value ++ '\n' :: rest)).drop
        (scannedLabel (crlf (value ++ '\n' :: rest))).length) =
      bindings (crlf ((value ++ '\n' :: rest).drop
        (scannedLabel (value ++ '\n' :: rest)).length)) := by
  have htext := (buttonText_line hline (show value.length < 128 by omega) rest).1
  rw [scannedLabel_eq, (buttonText_crlf hline hlength rest).1, scannedLabel_eq, htext,
    splitLast_return]
  cases hsplit : splitLast ':' value with
  | none =>
      -- The label is the whole line, and the scan goes on at what ends it.
      have hnewline : 'b' ∉ ['\n'] := by decide
      have hreturn : 'b' ∉ ['\r', '\n'] := by decide
      simp only [Option.map_none, Option.getD_none]
      rw [crlf_line hline, List.drop_left, List.drop_left, crlf_newline]
      exact (bindings_append hnewline (crlf rest)).trans (bindings_append hreturn _).symm
  | some pair =>
      obtain ⟨before, after⟩ := pair
      obtain ⟨rfl, -⟩ := splitLast_eq_some.mp hsplit
      simp only [Option.map_some, Option.getD_some]
      rw [drop_crlf]
      rw [List.append_assoc, List.take_left]
      exact fun hmem => hline (List.mem_append_left _ hmem)

/-- How a value ends in its array, with and without a carriage return. -/
theorem value_cases (value : CString) :
    (EndsInTime value ∧ '\n' ∉ value.take 128 ∧ crlf value = value) ∨
    (∃ line rest, value = line ++ '\n' :: rest ∧ '\n' ∉ line ∧ line.length < 127) ∨
    ('\n' ∈ value.take 128 ∧ '\n' ∉ value.take 127 ∧ ¬ EndsInTime (crlf value)) ∨
    (¬ EndsInTime value ∧ ¬ EndsInTime (crlf value)) := by
  by_cases hmem : '\n' ∈ value
  · obtain ⟨line, rest, rfl, hline⟩ := List.eq_append_cons_of_mem hmem
    have hcrlf := crlf_line hline rest
    have hlong : 127 ≤ line.length → ¬ EndsInTime (crlf (line ++ '\n' :: rest)) := by
      intro hlength
      rw [hcrlf]
      apply not_endsInTime
      · rw [List.take_append_of_le_length]
        · exact fun h => hline (by simpa using List.mem_of_mem_take h)
        · rw [List.length_append, List.length_singleton]
          omega
      · simp only [List.length_append, List.length_singleton]
        omega
    have hbefore {n : Nat} (hn : n ≤ line.length) : '\n' ∉ (line ++ '\n' :: rest).take n := by
      rw [List.take_append_of_le_length hn]
      exact fun h => hline (List.mem_of_mem_take h)
    -- A line of 127 characters ends in its array, but not with one character more.
    rcases lt_trichotomy line.length 127 with hlt | heq | hgt
    · exact .inr (.inl ⟨line, rest, rfl, hline, hlt⟩)
    · refine .inr (.inr (.inl ⟨?_, hbefore heq.ge, hlong heq.ge⟩))
      rw [List.take_append, List.take_of_length_le (by omega), heq]
      exact List.mem_append_right _ List.mem_cons_self
    · refine .inr (.inr (.inr ⟨?_, hlong hgt.le⟩))
      apply not_endsInTime (hbefore hgt)
      rw [List.length_append]
      omega
  · have hsame := crlf_of_notMem hmem
    have htake : '\n' ∉ value.take 128 := fun h => hmem (List.mem_of_mem_take h)
    by_cases hlength : value.length < 128
    · exact .inl ⟨.inr hlength, htake, hsame⟩
    · have hlong := not_endsInTime htake (not_lt.mp hlength)
      exact .inr (.inr (.inr ⟨hlong, by rw [hsame]; exact hlong⟩))

/-- Where the value ends in time with its carriage return it does so without, and the scan
goes on with the same. -/
theorem endsInTime_of_crlf (h : EndsInTime (crlf value)) :
    EndsInTime value ∧
      bindings ((crlf value).drop (scannedLabel (crlf value)).length) =
        bindings (crlf (value.drop (scannedLabel value).length)) := by
  rcases value_cases value with
    ⟨hends, -, hsame⟩ | ⟨line, rest, rfl, hline, hlength⟩ | ⟨-, -, hnot⟩ | ⟨-, hnot⟩
  · refine ⟨hends, ?_⟩
    rw [drop_crlf, hsame]
    exact fun hmem => crlf_eq_self_iff.mp hsame (List.mem_of_mem_take hmem)
  · have hends := (buttonText_line hline (show line.length < 128 by omega) rest).2
    exact ⟨hends, bindings_drop_crlf hline hlength rest⟩
  · exact absurd h hnot
  · exact absurd h hnot

/-- A binding means the same when its value ends in time and makes the same control. -/
theorem sameBind_iff (h : EndsInTime value) :
    SameBind (name, value) ↔ EndsInTime (crlf value) ∧
      (boundControl (crlf name) (buttonText (crlf value))).1 =
        (boundControl name (buttonText value)).1 := by
  have hname (button : CString) : (boundControl (crlf name) button).1 =
      (boundControl name (buttonText value)).1 ↔
        '\n' ∉ name ∧ (boundControl name button).1 = (boundControl name (buttonText value)).1 := by
    rw [← crlf_eq_self_iff]
    constructor
    · intro heq
      have hsame := congrArg Mapping.name heq
      rw [boundControl_name, boundControl_name] at hsame
      exact ⟨hsame, by rw [hsame] at heq; exact heq⟩
    · rintro ⟨hsame, heq⟩
      rw [hsame, heq]
  rw [hname, SameBind]
  rcases value_cases value with
    ⟨hends, hline, hsame⟩ | ⟨line, rest, rfl, hline, hlength⟩ | ⟨hfull, hcut, hnot⟩ | ⟨hnot, -⟩
  · simp [hsame, hends, hline]
  · obtain ⟨htext, -⟩ := buttonText_line hline (show line.length < 128 by omega) rest
    obtain ⟨htext', hends⟩ := buttonText_crlf hline hlength rest
    have hmem {n : Nat} (hn : line.length < n) : '\n' ∈ (line ++ '\n' :: rest).take n := by
      obtain ⟨m, rfl⟩ := Nat.exists_eq_add_of_lt hn
      rw [List.take_append, List.take_of_length_le (by omega),
        show line.length + m + 1 - line.length = m + 1 by omega, List.take_succ_cons]
      exact List.mem_append_right _ List.mem_cons_self
    simp only [htext, htext', hends, hmem hlength, hmem (show line.length < 128 by omega),
      true_and, forall_const]
  · simp only [hfull, hcut, hnot, false_and, and_false, forall_const]
  · exact absurd h hnot

/-- What the scan makes of a text with carriage returns, where it stays within its arrays
without them. -/
structure Endings (text : CString) : Prop where
  none_of_none : bindings text = none → bindings (crlf text) = none
  same_iff : ∀ controls, bindings text = some controls →
    (bindings (crlf text) = some controls ↔ ∀ found ∈ scan text, SameBind found)
  length_eq : ∀ controls controls', bindings text = some controls →
    bindings (crlf text) = some controls' → controls'.length = controls.length

/-- One binding more. -/
theorem endings_of_nextBind (hnext : nextBind text = some (name, value))
    (ih : Endings (value.drop (scannedLabel value).length)) : Endings text := by
  have hcrlf : nextBind (crlf text) = some (crlf name, crlf value) := by
    rw [nextBind_crlf, hnext, Option.map_some]
  have hlength := length_le_crlf name
  have hlf := bindings_some hnext
  by_cases hfits' : 128 ≤ (crlf name).length ∨ ¬ EndsInTime (crlf value)
  · -- With the carriage returns an array is overrun.
    have hnone : bindings (crlf text) = none := by rw [bindings_some hcrlf, if_pos hfits']
    refine ⟨fun _ => hnone, fun controls hcontrols => ?_, fun controls controls' _ h => ?_⟩
    · rw [hnone]
      refine iff_of_false (fun h => nomatch h) fun hall => ?_
      have hfound : (name, value) ∈ scan text := by
        rw [scan_some hnext]
        exact List.mem_cons_self
      have hfits := (bindings_eq_some_iff.mp hcontrols).1 _ hfound
      have hsame := hall _ hfound
      rcases hfits' with hlong | hends
      · rw [crlf_of_notMem hsame.1] at hlong
        exact absurd hfits.1 (not_lt.mpr hlong)
      · exact hends ((sameBind_iff hfits.2).mp hsame).1
    · rw [hnone] at h
      cases h
  · have hends' : EndsInTime (crlf value) := not_not.mp (not_or.mp hfits').2
    -- what fits with the carriage returns fits without them
    obtain ⟨hends, hrest⟩ := endsInTime_of_crlf hends'
    have hfits : ¬ (128 ≤ name.length ∨ ¬ EndsInTime value) := by
      rw [not_or, not_not, not_le] at hfits' ⊢
      exact ⟨hlength.trans_lt hfits'.1, hends⟩
    have hwith := bindings_some hcrlf
    rw [if_neg hfits', hrest] at hwith
    rw [if_neg hfits] at hlf
    refine ⟨fun hnone => ?_, fun controls hcontrols => ?_, fun controls controls' h h' => ?_⟩
    · rw [hlf, Option.map_eq_none_iff] at hnone
      rw [hwith, ih.none_of_none hnone, Option.map_none]
    · rw [hlf] at hcontrols
      obtain ⟨later, hlater, rfl⟩ := Option.map_eq_some_iff.mp hcontrols
      rw [hwith, scan_some hnext, List.forall_mem_cons, sameBind_iff hends,
        ← ih.same_iff later hlater, Option.map_eq_some_iff]
      constructor
      · rintro ⟨later', hlater', heq⟩
        obtain ⟨hcontrol, rfl⟩ := List.cons.inj heq
        exact ⟨⟨hends', hcontrol⟩, hlater'⟩
      · rintro ⟨⟨-, hcontrol⟩, hlater'⟩
        exact ⟨later, hlater', by rw [hcontrol]⟩
    · rw [hlf] at h
      rw [hwith] at h'
      obtain ⟨later, hlater, rfl⟩ := Option.map_eq_some_iff.mp h
      obtain ⟨later', hlater', rfl⟩ := Option.map_eq_some_iff.mp h'
      rw [List.length_cons, List.length_cons, ih.length_eq later later' hlater hlater']

theorem endings (text : CString) : Endings text := by
  induction text using scan.induct with
  | case1 text hnext =>
      have hnext' : nextBind (crlf text) = none := by rw [nextBind_crlf, hnext, Option.map_none]
      have hcrlf := bindings_none hnext'
      have hlf := bindings_none hnext
      refine ⟨fun h => ?_, fun controls h => ?_, fun controls controls' h h' => ?_⟩
      · rw [hlf] at h
        cases h
      · rw [hcrlf, ← hlf, h, scan_none hnext]
        simp
      · rw [hlf] at h
        rw [hcrlf] at h'
        cases h
        cases h'
        rfl
  | case2 text name value hnext ih => exact endings_of_nextBind hnext ih

/-- The controls of a default configuration are the same just when each binding means the
same, or the scan overruns an array without carriage returns already. -/
theorem configInit_crlf (text : CString) :
    configInit (some (crlf text)) = configInit (some text) ↔
      (BindsFit text → ∀ found ∈ scan text, SameBind found) := by
  have h := endings text
  by_cases hfit : BindsFit text
  · obtain ⟨controls, hcontrols, -⟩ := staysWithin_iff.mpr hfit
    obtain ⟨hbindings, hcount⟩ := Option.filter_eq_some_iff.mp hcontrols
    rw [hcontrols, configInit, Option.filter_eq_some_iff, h.same_iff controls hbindings]
    simp only [hcount, hfit, and_true, forall_const]
  · have hnone : configInit (some text) = none := by
      rw [Option.eq_none_iff_forall_ne_some]
      intro controls hcontrols
      obtain ⟨-, hcount⟩ := Option.filter_eq_some_iff.mp hcontrols
      exact hfit (staysWithin_iff.mp ⟨controls, hcontrols, of_decide_eq_true hcount⟩)
    refine iff_of_true ?_ fun h => absurd h hfit
    rw [hnone, Option.eq_none_iff_forall_ne_some]
    intro controls' hcontrols'
    obtain ⟨hbindings', hcount'⟩ := Option.filter_eq_some_iff.mp hcontrols'
    cases hbindings : bindings text with
    | none =>
        rw [h.none_of_none hbindings] at hbindings'
        cases hbindings'
    | some controls =>
        have hlength := h.length_eq controls controls' hbindings hbindings'
        have hcontrols : configInit (some text) = some controls := by
          rw [configInit, Option.filter_eq_some_iff]
          rw [hlength] at hcount'
          exact ⟨hbindings, hcount'⟩
        rw [hnone] at hcontrols
        cases hcontrols

end DarkUI.Minarch
