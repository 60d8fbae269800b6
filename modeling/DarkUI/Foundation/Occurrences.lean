import DarkUI.Foundation.KeyedLines

/-! # The occurrences that a search meets

The search for a key meets its occurrences from left to right, each beginning behind the one
before. No occurrence reaches over the end of a line, so those in a text are those in its
lines, and the search ends at the first that the separator follows.
-/

namespace KeyedLines

variable {α : Type*}

/-- The lines, each with its ending, which the last one may be without. -/
def joinLines (ending : List α) (ended : Bool) : List (List α) → List α
  | [] => []
  | line :: lines =>
      line ++ ((if lines.isEmpty && !ended then [] else ending) ++ joinLines ending ended lines)

variable [DecidableEq α]

/-- The occurrences of a key, `skip` elements still to pass over: whether each stands after
the mark, and what follows it. -/
def occurrences (key : List α) (mark : α) : Nat → Bool → List α → List (Bool × List α)
  | _, _, [] => []
  | skip + 1, _, c :: rest => occurrences key mark skip (c = mark) rest
  | 0, marked, c :: rest =>
      if key <+: c :: rest then
        (marked, (c :: rest).drop key.length) ::
          occurrences key mark (key.length - 1) (c = mark) rest
      else occurrences key mark 0 (c = mark) rest

/-- What follows the first occurrence with a separator, and whether an occurrence up to there
is marked. -/
def firstFollowed (sep : List α) : List (Bool × List α) → Found α
  | [] => ⟨none, false⟩
  | (marked, after) :: rest =>
      if sep <+: after then ⟨some (after.drop sep.length), marked⟩
      else
        let found := firstFollowed sep rest
        ⟨found.text, found.marked || marked⟩

variable {key sep line after text : List α} {mark stop : α} {before : Option α} {skip : Nat}
  {marked : Bool}

theorem search_eq (text : List α) :
    search key sep mark skip before text =
      firstFollowed sep (occurrences key mark skip (before = some mark) text) := by
  induction text generalizing skip before with
  | nil => cases skip <;> rfl
  | cons c rest ih =>
      cases skip with
      | succ skip =>
          rw [search, occurrences, ih]
          simp
      | zero =>
          unfold search occurrences
          split_ifs with hkey hsep
          · rw [firstFollowed, if_pos hsep]
          · rw [firstFollowed, if_neg hsep, ih]
            simp
          · rw [ih]
            simp

theorem occurrences_cons (c : α) (rest : List α) :
    occurrences key mark 0 marked (c :: rest) =
      if key <+: c :: rest then
        (marked, (c :: rest).drop key.length) ::
          occurrences key mark (key.length - 1) (c = mark) rest
      else occurrences key mark 0 (c = mark) rest := by
  rw [occurrences]

/-- An occurrence takes room in the text. -/
theorem length_of_mem_occurrences {o : Bool × List α}
    (h : o ∈ occurrences key mark skip marked text) :
    o.2.length + key.length + skip ≤ text.length := by
  induction text generalizing skip marked with
  | nil => cases skip <;> cases h
  | cons c rest ih =>
      cases skip with
      | succ skip =>
          have hrest := ih h
          rw [List.length_cons]
          omega
      | zero =>
          unfold occurrences at h
          split at h
          next hkey =>
            have hlength := hkey.length_le
            rcases List.mem_cons.mp h with rfl | hlater
            · rw [List.length_drop]
              omega
            · have hrest := ih hlater
              rw [List.length_cons] at hlength ⊢
              omega
          next hkey =>
            have hrest := ih h
            rw [List.length_cons]
            omega

/-! ## Lines -/

section Lines

variable (hkey : stop ∉ key) (hne : key ≠ [])
include hkey hne

/-- The end of a line is passed over. -/
theorem occurrences_stop (hmark : stop ≠ mark) (rest : List α) :
    occurrences key mark 0 marked (stop :: rest) = occurrences key mark 0 false rest := by
  have hnot : ¬ key <+: stop :: rest := by
    intro h
    have hbegins : key <+: [] ++ stop :: rest := h
    exact hne (List.prefix_nil.mp (Text.prefix_of_append_cons hbegins hkey))
  rw [occurrences_cons, if_neg hnot]
  simp [hmark]

/-- The occurrences in a line come before those behind it. -/
theorem occurrences_line (hmark : stop ≠ mark) (hskip : skip ≤ line.length) (rest : List α) :
    occurrences key mark skip marked (line ++ stop :: rest) =
      (occurrences key mark skip marked line).map (fun o => (o.1, o.2 ++ stop :: rest)) ++
        occurrences key mark 0 false rest := by
  induction line generalizing skip marked with
  | nil =>
      obtain rfl : skip = 0 := by simpa using hskip
      exact occurrences_stop hkey hne hmark rest
  | cons c line ih =>
      cases skip with
      | succ skip => exact ih (by simpa using hskip)
      | zero =>
          have hbegins : key <+: c :: (line ++ stop :: rest) ↔ key <+: c :: line :=
            Text.prefix_append_cons (s := c :: line) hkey
          rw [List.cons_append]
          by_cases hstarts : key <+: c :: line
          · have hlength := hstarts.length_le
            have hdrop : (c :: (line ++ stop :: rest)).drop key.length =
                (c :: line).drop key.length ++ stop :: rest := by
              rw [← List.cons_append, List.drop_append_of_le_length hlength]
            rw [List.length_cons] at hlength
            rw [occurrences_cons, if_pos (hbegins.mpr hstarts), hdrop, ih (by omega),
              occurrences_cons, if_pos hstarts]
            rfl
          · rw [occurrences_cons, if_neg (mt hbegins.mp hstarts), ih (Nat.zero_le _),
              occurrences_cons, if_neg hstarts]

end Lines

/-! ## The first one that is followed -/

theorem firstFollowed_append {first second : List (Bool × List α)}
    (h : ∀ o ∈ first, ¬ sep <+: o.2) :
    firstFollowed sep (first ++ second) =
      ⟨(firstFollowed sep second).text,
        (firstFollowed sep second).marked || first.any (·.1)⟩ := by
  induction first with
  | nil => simp
  | cons o first ih =>
      rw [List.forall_mem_cons] at h
      rw [List.cons_append, firstFollowed, if_neg h.1, ih h.2, List.any_cons]
      simp only [Found.mk.injEq, true_and]
      ac_rfl

/-- One that is followed ends the search in front of what comes later. -/
theorem exists_of_followed {first : List (Bool × List α)} (second : List (Bool × List α))
    (h : ∃ o ∈ first, sep <+: o.2) :
    ∃ o ∈ first, sep <+: o.2 ∧
      (firstFollowed sep (first ++ second)).text = some (o.2.drop sep.length) := by
  induction first with
  | nil => simp at h
  | cons o first ih =>
      rw [List.cons_append, firstFollowed]
      split
      next hsep => exact ⟨o, List.mem_cons_self, hsep, rfl⟩
      next hsep =>
        have hlater : ∃ o ∈ first, sep <+: o.2 := by
          obtain ⟨found, hmem, hfound⟩ := h
          rcases List.mem_cons.mp hmem with rfl | hmem
          · exact absurd hfound hsep
          · exact ⟨found, hmem, hfound⟩
        obtain ⟨found, hmem, hfound, htext⟩ := ih hlater
        exact ⟨found, List.mem_cons_of_mem _ hmem, hfound, htext⟩

theorem exists_of_firstFollowed {all : List (Bool × List α)}
    (h : (firstFollowed sep all).text = some text) :
    ∃ o ∈ all, sep <+: o.2 ∧ text = o.2.drop sep.length := by
  induction all with
  | nil => cases h
  | cons o all ih =>
      rw [firstFollowed] at h
      split at h
      next hsep => exact ⟨o, List.mem_cons_self, hsep, (Option.some.inj h).symm⟩
      next hsep =>
        obtain ⟨found, hmem, hfound, htext⟩ := ih h
        exact ⟨found, List.mem_cons_of_mem _ hmem, hfound, htext⟩

/-- What is found in a line is found in front of what stands behind the line. -/
theorem firstFollowed_map {first second : List (Bool × List α)} {tail : List α}
    (htail : ∀ s, sep <+: s ++ tail ↔ sep <+: s)
    (h : firstFollowed sep first = ⟨some text, marked⟩) :
    firstFollowed sep (first.map (fun o => (o.1, o.2 ++ tail)) ++ second) =
      ⟨some (text ++ tail), marked⟩ := by
  induction first generalizing marked with
  | nil => cases h
  | cons o first ih =>
      rw [firstFollowed] at h
      rw [List.map_cons, List.cons_append, firstFollowed]
      by_cases hsep : sep <+: o.2
      · rw [if_pos hsep] at h
        rw [if_pos ((htail _).mpr hsep), List.drop_append_of_le_length hsep.length_le]
        cases h
        rfl
      · rw [if_neg hsep] at h
        rw [if_neg (mt (htail _).mp hsep)]
        simp only [Found.mk.injEq] at h
        have hlater : firstFollowed sep first =
            ⟨some text, (firstFollowed sep first).marked⟩ := by
          rw [← h.1]
        rw [ih hlater, ← h.2]

end KeyedLines
