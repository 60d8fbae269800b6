import DarkUI.Foundation.KeyedLines
import Mathlib.Data.List.Chain

/-! # Texts with other line endings

A text whose lines end in a carriage return and a newline is the text with newlines alone, and
a carriage return put before each. Searches for what has neither character find the same
places in both.
-/

namespace Text

/-- The text with a carriage return before each newline. -/
def crlf : CString → CString
  | [] => []
  | c :: s => if c = '\n' then '\r' :: '\n' :: crlf s else c :: crlf s

/-- What stands in a line: neither of the characters that end lines. -/
def InLine (s : CString) : Prop := '\n' ∉ s ∧ '\r' ∉ s

instance (s : CString) : Decidable (InLine s) := inferInstanceAs (Decidable (_ ∧ _))

variable {s t : CString} {c : Char}

@[simp] theorem crlf_nil : crlf [] = [] := rfl

@[simp] theorem crlf_newline (s : CString) : crlf ('\n' :: s) = '\r' :: '\n' :: crlf s := rfl

theorem crlf_cons (hc : c ≠ '\n') (s : CString) : crlf (c :: s) = c :: crlf s := by
  rw [crlf, if_neg hc]

theorem crlf_append (s t : CString) : crlf (s ++ t) = crlf s ++ crlf t := by
  induction s with
  | nil => rfl
  | cons c s ih =>
      by_cases hc : c = '\n'
      · rw [hc, List.cons_append, crlf_newline, crlf_newline, ih]
        rfl
      · rw [List.cons_append, crlf_cons hc, crlf_cons hc, ih]
        rfl

theorem crlf_of_notMem (h : '\n' ∉ s) : crlf s = s := by
  induction s with
  | nil => rfl
  | cons c s ih =>
      rw [List.mem_cons, not_or] at h
      rw [crlf_cons (Ne.symm h.1), ih h.2]

/-- The carriage return becomes the last character of the line. -/
theorem crlf_line {line : CString} (hline : '\n' ∉ line) (rest : CString) :
    crlf (line ++ '\n' :: rest) = (line ++ ['\r']) ++ '\n' :: crlf rest := by
  rw [crlf_append, crlf_of_notMem hline, crlf_newline]
  simp

/-- Each newline has its carriage return before it. -/
theorem isChain_crlf (s : CString) : (crlf s).IsChain fun c d => d = '\n' → c = '\r' := by
  induction s with
  | nil => exact .nil
  | cons c s ih =>
      have hnext : ∀ d ∈ (crlf s).head?, d ≠ '\n' := by
        cases s with
        | nil => simp
        | cons d s =>
            rw [crlf]
            split
            next => simp
            next hd => simpa using hd
      by_cases hc : c = '\n'
      · rw [hc, crlf_newline, List.isChain_cons_cons, List.isChain_cons]
        exact ⟨fun _ => rfl, fun d hd heq => absurd heq (hnext d hd), ih⟩
      · rw [crlf_cons hc, List.isChain_cons]
        exact ⟨fun d hd heq => absurd heq (hnext d hd), ih⟩

/-- What stands in a text with carriage returns and has a newline behind something else has a
carriage return. -/
theorem return_mem_crlf (h : c :: t <:+: crlf s) (hmem : '\n' ∈ t) : '\r' ∈ c :: t := by
  have hchain := List.IsChain.infix (isChain_crlf s) h
  obtain ⟨before, after, rfl⟩ := List.append_of_mem hmem
  cases before using List.reverseRecOn with
  | nil =>
      rw [List.nil_append, List.isChain_cons_cons] at hchain
      rw [hchain.1 rfl]
      exact List.mem_cons_self
  | append_singleton before d =>
      have hsplit : c :: (before ++ [d] ++ '\n' :: after) =
          (c :: before) ++ d :: '\n' :: after := by
        simp
      rw [hsplit, List.isChain_append_cons_cons] at hchain
      rw [hsplit, hchain.2.1 rfl]
      exact List.mem_append_right _ List.mem_cons_self

theorem length_le_crlf (s : CString) : s.length ≤ (crlf s).length := by
  induction s with
  | nil => exact le_rfl
  | cons c s ih =>
      by_cases hc : c = '\n'
      · rw [hc, crlf_newline, List.length_cons, List.length_cons, List.length_cons]
        omega
      · rw [crlf_cons hc, List.length_cons, List.length_cons]
        omega

theorem crlf_eq_self_iff : crlf s = s ↔ '\n' ∉ s := by
  refine ⟨fun h hmem => ?_, crlf_of_notMem⟩
  obtain ⟨before, after, rfl⟩ := List.append_of_mem hmem
  have hlength := congrArg List.length h
  have hbefore := length_le_crlf before
  have hafter := length_le_crlf after
  rw [crlf_append, crlf_newline] at hlength
  simp only [List.length_append, List.length_cons] at hlength
  omega

theorem InLine.tail (h : InLine (c :: t)) : InLine t :=
  ⟨fun hmem => h.1 (List.mem_cons_of_mem _ hmem), fun hmem => h.2 (List.mem_cons_of_mem _ hmem)⟩

theorem InLine.head_newline (h : InLine (c :: t)) : c ≠ '\n' :=
  fun heq => h.1 (heq ▸ List.mem_cons_self)

theorem InLine.head_return (h : InLine (c :: t)) : c ≠ '\r' :=
  fun heq => h.2 (heq ▸ List.mem_cons_self)

theorem prefix_crlf (ht : InLine t) : t <+: crlf s ↔ t <+: s := by
  induction s generalizing t with
  | nil => rfl
  | cons x s ih =>
      cases t with
      | nil => simp
      | cons c t =>
          by_cases hx : x = '\n'
          · rw [hx, crlf_newline, List.cons_prefix_cons, List.cons_prefix_cons]
            refine iff_of_false (fun h => ht.head_return h.1) fun h => ht.head_newline h.1
          · rw [crlf_cons hx, List.cons_prefix_cons, List.cons_prefix_cons, ih ht.tail]

/-- No text of a line begins between the two characters of an ending. -/
theorem not_prefix_newline (ht : InLine t) (hne : t ≠ []) (s : CString) : ¬ t <+: '\n' :: s := by
  obtain ⟨c, rest, rfl⟩ := List.exists_cons_of_ne_nil hne
  rw [List.cons_prefix_cons]
  exact fun h => ht.head_newline h.1

theorem drop_crlf {n : Nat} (h : '\n' ∉ s.take n) : (crlf s).drop n = crlf (s.drop n) := by
  induction s generalizing n with
  | nil => simp
  | cons c s ih =>
      cases n with
      | zero => rfl
      | succ n =>
          rw [List.take_succ_cons, List.mem_cons, not_or] at h
          rw [crlf_cons (Ne.symm h.1), List.drop_succ_cons, List.drop_succ_cons, ih h.2]

/-- Behind what it starts with, the text goes on with its line endings. -/
theorem drop_crlf_of_prefix (ht : InLine t) (h : t <+: s) :
    (crlf s).drop t.length = crlf (s.drop t.length) := by
  have htake := List.prefix_iff_eq_take.mp h
  apply drop_crlf
  rw [← htake]
  exact ht.1

theorem find_crlf (ht : InLine t) (s : CString) : find t (crlf s) = (find t s).map crlf := by
  induction s with
  | nil =>
      rw [crlf_nil, find]
      split <;> rfl
  | cons c s ih =>
      by_cases hbegins : t <+: c :: s
      · rw [find_of_starts hbegins, find_of_starts ((prefix_crlf ht).mpr hbegins), Option.map_some]
      · have hne : t ≠ [] := by
          rintro rfl
          exact hbegins List.nil_prefix
        have hcrlf := mt (prefix_crlf ht).mp hbegins
        have hfind : find t (c :: s) = find t s := by
          rw [find, if_neg (mt List.isPrefixOf_iff_prefix.mp hbegins)]
        rw [hfind, ← ih]
        by_cases hc : c = '\n'
        · rw [hc, crlf_newline] at hcrlf ⊢
          rw [find, if_neg (mt List.isPrefixOf_iff_prefix.mp hcrlf), find,
            if_neg (mt List.isPrefixOf_iff_prefix.mp (not_prefix_newline ht hne _))]
        · rw [crlf_cons hc] at hcrlf ⊢
          rw [find, if_neg (mt List.isPrefixOf_iff_prefix.mp hcrlf)]

end Text

namespace KeyedLines

open Text

variable {key sep s : CString} {mark : Char} {skip : Nat} {before : Option Char}

/-- A search finds the same place in both texts, and passes the same marks. -/
theorem search_crlf (hkey : InLine key) (hne : key ≠ []) (hsep : InLine sep)
    (hskip : '\n' ∉ s.take skip) :
    search key sep mark skip before (crlf s) =
      ⟨(search key sep mark skip before s).text.map crlf,
        (search key sep mark skip before s).marked⟩ := by
  induction s generalizing skip before with
  | nil => cases skip <;> rfl
  | cons c s ih =>
      cases skip with
      | succ skip =>
          rw [List.take_succ_cons, List.mem_cons, not_or] at hskip
          rw [crlf_cons (Ne.symm hskip.1), search, search, ih hskip.2]
      | zero =>
          by_cases hbegins : key <+: c :: s
          · -- An occurrence has no line ending in it, so that it is passed over alike.
            have hdrop := drop_crlf_of_prefix hkey hbegins
            have hc : c ≠ '\n' := by
              rintro rfl
              exact not_prefix_newline hkey hne s hbegins
            have hnext : '\n' ∉ s.take (key.length - 1) := by
              intro hmem
              have htake := List.prefix_iff_eq_take.mp hbegins
              obtain ⟨n, hn⟩ : ∃ n, key.length = n + 1 :=
                ⟨_, (Nat.sub_add_cancel (List.length_pos_of_ne_nil hne)).symm⟩
              rw [hn, List.take_succ_cons] at htake
              rw [hn, Nat.add_sub_cancel] at hmem
              exact hkey.1 (htake ▸ List.mem_cons_of_mem _ hmem)
            have hcrlf := (prefix_crlf hkey).mpr hbegins
            rw [crlf_cons hc] at hcrlf hdrop ⊢
            rw [search, if_pos hcrlf, search, if_pos hbegins, hdrop]
            by_cases hfollows : sep <+: (c :: s).drop key.length
            · rw [if_pos ((prefix_crlf hsep).mpr hfollows), if_pos hfollows,
                drop_crlf_of_prefix hsep hfollows]
              rfl
            · rw [if_neg (mt (prefix_crlf hsep).mp hfollows), if_neg hfollows, ih hnext]
          · have hcrlf := mt (prefix_crlf hkey).mp hbegins
            have hrest : search key sep mark 0 (some c) (crlf s) =
                ⟨(search key sep mark 0 (some c) s).text.map crlf,
                  (search key sep mark 0 (some c) s).marked⟩ := ih (by simp)
            by_cases hc : c = '\n'
            · -- Two characters more are passed, and neither begins the key.
              rw [hc, crlf_newline] at hcrlf ⊢
              rw [hc] at hrest hbegins
              rw [search, if_neg hcrlf, search, if_neg (not_prefix_newline hkey hne _), search,
                if_neg hbegins, hrest]
            · rw [crlf_cons hc] at hcrlf ⊢
              rw [search, if_neg hcrlf, search, if_neg hbegins, hrest]

end KeyedLines
