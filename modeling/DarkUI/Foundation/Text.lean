import Mathlib.Data.List.Basic
import Mathlib.Data.List.Infix
import Mathlib.Data.List.TakeWhile

/-! # Text held in C strings

A string is the list of its bytes before the terminating NUL, one character a
byte. Bounded copies truncate, searches return what stands on either side of the
match, and comparisons without regard to case fold the ASCII letters.
-/

namespace Text

abbrev CString := List Char

instance : LawfulBEq CString := inferInstance

/-- What a character array of the given size can hold with its terminator. -/
abbrev Buffer (size : Nat) := {s : CString // s.length < size}

/-- The content of an array as C reads it: up to the first NUL. -/
def untilNul (s : CString) : CString := s.takeWhile (· != '\x00')

theorem untilNul_eq_self {s : CString} (hnul : '\x00' ∉ s) : untilNul s = s := by
  rw [untilNul, List.takeWhile_eq_self_iff]
  intro c hc
  have hne : c ≠ '\x00' := fun heq => hnul (heq ▸ hc)
  simpa using hne

theorem untilNul_cons {c : Char} {s : CString} (hc : c ≠ '\x00') :
    untilNul (c :: s) = c :: untilNul s := by
  simp [untilNul, hc]

theorem untilNul_append_nul {s : CString} (hnul : '\x00' ∉ s) (rest : CString) :
    untilNul (s ++ '\x00' :: rest) = s := by
  have hself := untilNul_eq_self hnul
  rw [untilNul, List.takeWhile_append_of_pos]
  · simp
  · exact List.takeWhile_eq_self_iff.mp hself

/-- `strchr(&s[start], c)`, as an index into the array. -/
def strchr (s : CString) (start : Nat) (c : Char) : Option Nat :=
  ((untilNul (s.drop start)).idxOf? c).map (start + ·)

theorem strchr_lt {s : CString} {start i : Nat} {c : Char} (h : strchr s start c = some i) :
    start ≤ i ∧ i < s.length := by
  unfold strchr at h
  obtain ⟨k, hk, rfl⟩ := Option.map_eq_some_iff.mp h
  have hlt := (List.idxOf?_eq_some_iff.mp hk).1
  have hle := (List.takeWhile_sublist (l := s.drop start) (· != '\x00')).length_le
  rw [List.length_drop] at hle
  rw [untilNul] at hlt
  omega

/-- Less is left to search behind what was found. -/
theorem strchr_behind {s : CString} {start i : Nat} {c : Char} (h : strchr s start c = some i) :
    s.length - (i + 1) < s.length - start := by
  have hlt := strchr_lt h
  omega

theorem strchr_eq_none {s rest : CString} {c : Char} (hc : c ∉ rest) :
    strchr (s ++ rest) s.length c = none := by
  unfold strchr
  rw [List.drop_left, Option.map_eq_none_iff, List.idxOf?_eq_none_iff]
  exact fun hmem => hc ((List.takeWhile_sublist _).subset hmem)

theorem strchr_append (s after : CString) {before : CString} {c : Char} (hnul : '\x00' ∉ before)
    (hc : c ∉ before) (hne : c ≠ '\x00') :
    strchr (s ++ (before ++ c :: after)) s.length c = some (s.length + before.length) := by
  have hidx : (untilNul (before ++ c :: after)).idxOf? c = some before.length := by
    induction before with
    | nil => simp [untilNul_cons hne, List.idxOf?_cons]
    | cons x xs ih =>
        simp only [List.mem_cons, not_or] at hnul hc
        rw [List.cons_append, untilNul_cons (Ne.symm hnul.1), List.idxOf?_cons,
          ih hnul.2 hc.2]
        simp [Ne.symm hc.1]
  unfold strchr
  rw [List.drop_left, hidx, Option.map_some]

/-- A formatted print into an array of the given size. -/
def bounded (size : Nat) (s : CString) : CString := s.take (size - 1)

theorem bounded_of_lt {size : Nat} {s : CString} (h : s.length < size) : bounded size s = s :=
  List.take_of_length_le (by omega)

/-- Text before and after the last occurrence of a character. -/
def splitLast (c : Char) : CString → Option (CString × CString)
  | [] => none
  | x :: xs =>
      match splitLast c xs with
      | some (before, after) => some (x :: before, after)
      | none => if x = c then some ([], xs) else none

/-- Text before and after the first occurrence of a character. -/
def splitFirst (c : Char) : CString → Option (CString × CString)
  | [] => none
  | x :: xs => if x = c then some ([], xs) else (splitFirst c xs).map fun p => (x :: p.1, p.2)

theorem splitLast_eq_none {c : Char} {s : CString} : splitLast c s = none ↔ c ∉ s := by
  induction s with
  | nil => simp [splitLast]
  | cons x xs ih =>
      simp only [splitLast, List.mem_cons, not_or]
      cases hrest : splitLast c xs with
      | none =>
          have hnot := ih.mp hrest
          by_cases hx : x = c
          · simp [hx]
          · simpa [hx] using ⟨Ne.symm hx, hnot⟩
      | some pair =>
          have hmem : c ∈ xs := by
            by_contra hnot
            simp [ih.mpr hnot] at hrest
          simp [hmem]

theorem splitLast_eq_some {c : Char} {s before after : CString} :
    splitLast c s = some (before, after) ↔ s = before ++ c :: after ∧ c ∉ after := by
  induction s generalizing before after with
  | nil => simp [splitLast]
  | cons x xs ih =>
      -- the last one is in the rest if there is one at all
      cases hrest : splitLast c xs with
      | none =>
          have hnot := splitLast_eq_none.mp hrest
          by_cases hx : x = c
          · subst x
            simp only [splitLast, hrest, if_true, Option.some.injEq, Prod.mk.injEq]
            constructor
            · rintro ⟨rfl, rfl⟩
              exact ⟨rfl, hnot⟩
            · rintro ⟨heq, hafter⟩
              cases before with
              | nil => simpa using heq
              | cons y ys =>
                  simp only [List.cons_append, List.cons.injEq] at heq
                  exact absurd (heq.2 ▸ by simp) hnot
          · simp only [splitLast, hrest, hx, if_false, reduceCtorEq, false_iff, not_and]
            intro heq
            cases before with
            | nil => simp only [List.nil_append, List.cons.injEq] at heq; exact absurd heq.1 hx
            | cons y ys =>
                simp only [List.cons_append, List.cons.injEq] at heq
                exact absurd (heq.2 ▸ by simp) hnot
      | some pair =>
          obtain ⟨left, right⟩ := pair
          obtain ⟨hxs, hright⟩ := ih.mp hrest
          simp only [splitLast, hrest, Option.some.injEq, Prod.mk.injEq]
          constructor
          · rintro ⟨rfl, rfl⟩
            exact ⟨by simp [hxs], hright⟩
          · rintro ⟨heq, hafter⟩
            cases before with
            | nil =>
                simp only [List.nil_append, List.cons.injEq] at heq
                rw [← heq.2, hxs] at hafter
                simp at hafter
            | cons y ys =>
                simp only [List.cons_append, List.cons.injEq] at heq
                have hsplit := ih.mpr ⟨heq.2, hafter⟩
                rw [hrest] at hsplit
                simp only [Option.some.injEq, Prod.mk.injEq] at hsplit
                exact ⟨by rw [heq.1, hsplit.1], hsplit.2⟩

theorem splitFirst_eq_some {c : Char} {s before after : CString}
    (h : splitFirst c s = some (before, after)) : s = before ++ c :: after ∧ c ∉ before := by
  induction s generalizing before with
  | nil => simp [splitFirst] at h
  | cons x xs ih =>
      unfold splitFirst at h
      split at h
      next hx =>
        cases h
        simp [hx]
      next hx =>
        obtain ⟨⟨left, right⟩, hrest, hpair⟩ := Option.map_eq_some_iff.mp h
        cases hpair
        obtain ⟨hxs, hleft⟩ := ih hrest
        exact ⟨by simp [hxs], by simp [hleft, Ne.symm hx]⟩

theorem splitFirst_append {c : Char} {before after : CString} (h : c ∉ before) :
    splitFirst c (before ++ c :: after) = some (before, after) := by
  induction before with
  | nil => simp [splitFirst]
  | cons x xs ih =>
      rw [List.mem_cons, not_or] at h
      simp [splitFirst, Ne.symm h.1, ih h.2]

theorem splitFirst_eq_none {c : Char} {s : CString} (h : c ∉ s) : splitFirst c s = none := by
  induction s with
  | nil => rfl
  | cons x xs ih =>
      rw [List.mem_cons, not_or] at h
      simp [splitFirst, Ne.symm h.1, ih h.2]

/-- ASCII case folding, as `strcasecmp` compares. -/
def lower (s : CString) : CString := s.map Char.toLower

@[simp] theorem lower_append (s t : CString) : lower (s ++ t) = lower s ++ lower t := by
  simp [lower]

@[simp] theorem length_lower (s : CString) : (lower s).length = s.length := by
  simp [lower]

/-- `strcasecmp(s, t) <= 0`. -/
def caseLe : CString → CString → Bool
  | [], _ => true
  | _ :: _, [] => false
  | x :: xs, y :: ys =>
      if x.toLower = y.toLower then caseLe xs ys else x.toLower.toNat < y.toLower.toNat

theorem caseLe_total (s t : CString) : caseLe s t || caseLe t s := by
  induction s generalizing t with
  | nil => simp [caseLe]
  | cons x xs ih =>
      cases t with
      | nil => simp [caseLe]
      | cons y ys =>
          by_cases heq : x.toLower = y.toLower
          · simpa [caseLe, heq] using ih ys
          · have hne : x.toLower.toNat ≠ y.toLower.toNat := fun h => heq (Char.toNat_inj.mp h)
            simp only [caseLe, heq, Ne.symm heq, if_false, Bool.or_eq_true, decide_eq_true_eq]
            omega

theorem caseLe_trans {s t u : CString} (hst : caseLe s t) (htu : caseLe t u) : caseLe s u := by
  induction s generalizing t u with
  | nil => simp [caseLe]
  | cons x xs ih =>
      cases t with
      | nil => simp [caseLe] at hst
      | cons y ys =>
          cases u with
          | nil => simp [caseLe] at htu
          | cons z zs =>
              unfold caseLe at hst htu ⊢
              by_cases hxy : x.toLower = y.toLower
              · by_cases hyz : y.toLower = z.toLower
                · simp only [hxy, hyz, if_true] at hst htu ⊢
                  exact ih hst htu
                · simpa [hxy, hyz] using htu
              · by_cases hyz : y.toLower = z.toLower
                · rw [hyz] at hst hxy
                  simpa [hxy] using hst
                · simp only [hxy, hyz, if_false, decide_eq_true_eq] at hst htu
                  have hxz : x.toLower ≠ z.toLower := by
                    intro heq
                    rw [heq] at hst
                    omega
                  simp only [hxz, if_false, decide_eq_true_eq]
                  omega

@[simp] theorem caseLe_refl (s : CString) : caseLe s s := by
  simpa using caseLe_total s s

/-- Texts that differ only in case compare equal. -/
theorem caseLe_and_caseLe {s t : CString} :
    (caseLe s t ∧ caseLe t s) ↔ lower s = lower t := by
  induction s generalizing t with
  | nil => cases t <;> simp [caseLe, lower]
  | cons x xs ih =>
      cases t with
      | nil => simp [caseLe, lower]
      | cons y ys =>
          simp only [caseLe, lower, List.map_cons, List.cons.injEq] at ih ⊢
          by_cases hxy : x.toLower = y.toLower
          · simpa [hxy] using ih
          · simp only [hxy, Ne.symm hxy, if_false, decide_eq_true_eq, false_and, iff_false]
            omega

/-- `strstr(s, t)`: the text from the first occurrence of `t` on. -/
def find (t : CString) : CString → Option CString
  | [] => if t = [] then some [] else none
  | x :: xs => if t.isPrefixOf (x :: xs) then some (x :: xs) else find t xs

theorem suffix_of_find {t s found : CString} (h : find t s = some found) : found <:+ s := by
  induction s with
  | nil =>
      unfold find at h
      split at h
      next => cases h; exact List.suffix_refl _
      next => cases h
  | cons x xs ih =>
      unfold find at h
      split at h
      next => cases h; exact List.suffix_refl _
      next => exact (ih h).trans (List.suffix_cons x xs)

theorem prefix_of_find {t s found : CString} (h : find t s = some found) : t <+: found := by
  induction s with
  | nil =>
      unfold find at h
      split at h
      next ht => cases h; simp [ht]
      next => cases h
  | cons x xs ih =>
      unfold find at h
      split at h
      next ht => cases h; exact List.isPrefixOf_iff_prefix.mp ht
      next => exact ih h

theorem find_of_starts {t s : CString} (h : t <+: s) : find t s = some s := by
  cases s with
  | nil => simp [find, List.prefix_nil.mp h]
  | cons x xs => rw [find, if_pos (List.isPrefixOf_iff_prefix.mpr h)]

/-- A text without the first character is passed over. -/
theorem find_append {c : Char} {t before : CString} (hc : c ∉ before) (s : CString) :
    find (c :: t) (before ++ s) = find (c :: t) s := by
  induction before with
  | nil => rfl
  | cons x xs ih =>
      rw [List.mem_cons, not_or] at hc
      rw [List.cons_append, find, if_neg, ih hc.2]
      rw [List.isPrefixOf_iff_prefix, List.cons_prefix_cons]
      exact fun h => hc.1 h.1

/-- A text stands first where it was put just when it does not stand across what is before. -/
theorem find_first_iff {c : Char} {t before : CString} (s : CString) :
    find (t ++ [c]) (before ++ (t ++ [c] ++ s)) = some (t ++ [c] ++ s) ↔
      ¬ t ++ [c] <:+: before ++ t := by
  induction before with
  | nil =>
      rw [List.nil_append, List.nil_append, find_of_starts (List.prefix_append _ _)]
      refine iff_of_true rfl fun h => ?_
      have hlength := h.length_le
      rw [List.length_append, List.length_singleton] at hlength
      omega
  | cons x xs ih =>
      have hbegins : t ++ [c] <+: x :: (xs ++ (t ++ [c] ++ s)) ↔ t ++ [c] <+: x :: (xs ++ t) := by
        have hlonger : x :: (xs ++ t) <+: x :: (xs ++ (t ++ [c] ++ s)) := by
          simp
        refine ⟨fun h => ?_, fun h => h.trans hlonger⟩
        exact List.prefix_of_prefix_length_le h hlonger (by simp)
      rw [List.cons_append, List.cons_append, List.infix_cons_iff, not_or, ← hbegins,
        ← List.isPrefixOf_iff_prefix, find]
      split
      next hhere =>
        refine iff_of_false (fun h => ?_) fun h => h.1 hhere
        have hlength := congrArg List.length (Option.some.inj h)
        simp at hlength
        omega
      next hhere =>
        rw [ih]
        exact ⟨fun h => ⟨hhere, h⟩, fun h => h.2⟩

section Prefixes

variable {α : Type*} {c : α} {s t u : List α}

/-- A text is known from where it first has a character. -/
theorem prefix_separated {a b : List α} (ht : c ∉ t) (hu : c ∉ u) :
    t ++ c :: a <+: u ++ c :: b ↔ t = u ∧ a <+: b := by
  induction t generalizing u with
  | nil =>
      cases u with
      | nil => simp
      | cons y ys =>
          have hy : c ≠ y := fun h => hu (by simp [h])
          simp [hy]
  | cons x xs ih =>
      have hx : x ≠ c := fun h => ht (by simp [h])
      cases u with
      | nil => simp [hx]
      | cons y ys =>
          simp only [List.mem_cons, not_or] at ht hu
          simp [ih ht.2 hu.2, and_assoc]

/-- What a text starts with stays in front of a later occurrence of a character. -/
theorem prefix_of_append_cons {after : List α} (h : t <+: s ++ c :: after) (hc : c ∉ t) :
    t <+: s := by
  rcases List.prefix_or_prefix_of_prefix h (List.prefix_append s _) with hts | ⟨rest, rfl⟩
  · exact hts
  · rw [List.prefix_append_right_inj] at h
    cases rest with
    | nil => simp
    | cons x xs =>
        rw [List.cons_prefix_cons] at h
        exact absurd (h.1 ▸ by simp) hc

theorem prefix_append_cons {after : List α} (hc : c ∉ t) : t <+: s ++ c :: after ↔ t <+: s :=
  ⟨fun h => prefix_of_append_cons h hc, fun h => h.trans (List.prefix_append _ _)⟩

end Prefixes

end Text
