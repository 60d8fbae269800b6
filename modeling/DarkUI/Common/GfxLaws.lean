import DarkUI.Common.Gfx
import Mathlib.Algebra.Order.BigOperators.Group.List
import Mathlib.Algebra.Ring.Int.Defs
import Mathlib.Data.Nat.Find
import Mathlib.Tactic.ByContra

/-! # Shortened text

Every pass of the loop takes one more character of the text away, so it ends at the
longest shortened text that fits, unless it has to reach before the start of the text.
-/

namespace DarkUI.Gfx

open Text

variable {width : CString → Int} {maxWidth padding w : Int} {text out : CString}

/-- The text with its padding is no wider than there is room. -/
def Fits (width : CString → Int) (maxWidth padding : Int) (text : CString) : Prop :=
  width text + padding ≤ maxWidth

instance : Decidable (Fits width maxWidth padding text) :=
  inferInstanceAs (Decidable (_ ≤ _))

/-- A longer text before the ellipsis is not narrower. -/
def Monotone (width : CString → Int) : Prop :=
  ∀ s t, s <+: t → width (s ++ ellipsis) ≤ width (t ++ ellipsis)

/-- What a caller gets: a text that fits is left alone, any other is a proper part of it
from the start with the ellipsis, which fits. -/
structure Truncates (width : CString → Int) (maxWidth padding : Int)
    (text out : CString) (textWidth : Int) : Prop where
  measured : textWidth = width out + padding
  unchanged : Fits width maxWidth padding text → out = text
  shortened : ¬Fits width maxWidth padding text →
    Fits width maxWidth padding out ∧
      ∃ shown, shown <+: text ∧ shown.length < text.length ∧ out = shown ++ ellipsis

theorem shorten_of_le (h : 4 ≤ text.length) :
    shorten text = some (text.take (text.length - 4) ++ ellipsis) := if_pos h

theorem shorten_of_lt (h : text.length < 4) : shorten text = none := if_neg (by omega)

/-- Once the ellipsis is there a pass takes away the character before it. -/
theorem shorten_ellipsis (text : CString) :
    shorten (text ++ ellipsis) = if text = [] then none else some (text.dropLast ++ ellipsis) := by
  split
  next hnil =>
    subst hnil
    rfl
  next hne =>
    have hpos : 0 < text.length := List.length_pos_iff.mpr hne
    have hlength : (text ++ ellipsis).length = text.length + 3 := by simp
    rw [shorten_of_le (by omega), hlength, List.take_append_of_le_length (by omega),
      List.dropLast_eq_take]
    rfl

theorem truncateFrom_of_fits (h : Fits width maxWidth padding text) :
    truncateFrom width maxWidth padding text = some (text, width text + padding) := by
  unfold truncateFrom
  exact if_neg (Int.not_lt.mpr h)

theorem truncateFrom_of_wide (h : ¬Fits width maxWidth padding text) :
    truncateFrom width maxWidth padding text =
      (shorten text).bind (truncateFrom width maxWidth padding) := by
  rw [truncateFrom, if_pos (Int.not_le.mp h)]
  cases shorten text <;> rfl

/-- With the ellipsis in place the loop finds the longest text that fits with it. -/
theorem truncateFrom_ellipsis (k : Nat) (hk : k ≤ text.length) :
    truncateFrom width maxWidth padding (text.take k ++ ellipsis) = some (out, w) ↔
      ∃ j ≤ k, Fits width maxWidth padding (text.take j ++ ellipsis) ∧
        (∀ i, j < i → i ≤ k → ¬Fits width maxWidth padding (text.take i ++ ellipsis)) ∧
        out = text.take j ++ ellipsis ∧ w = width out + padding := by
  induction k with
  | zero =>
      -- The ellipsis is all there is, and a pass would reach before the start of the text.
      by_cases hfits : Fits width maxWidth padding (text.take 0 ++ ellipsis)
      · rw [truncateFrom_of_fits hfits]
        constructor
        · intro h
          cases h
          exact ⟨0, Nat.le_refl 0, hfits, fun i hlt hle => by omega, rfl, rfl⟩
        · rintro ⟨j, hj, -, -, rfl, rfl⟩
          rw [Nat.le_zero.mp hj]
      · rw [truncateFrom_of_wide hfits, List.take_zero, shorten_ellipsis, if_pos rfl]
        constructor
        · intro h
          cases h
        · rintro ⟨j, hj, hshort, -⟩
          rw [Nat.le_zero.mp hj] at hshort
          exact absurd hshort hfits
  | succ k ih =>
      by_cases hfits : Fits width maxWidth padding (text.take (k + 1) ++ ellipsis)
      · rw [truncateFrom_of_fits hfits]
        constructor
        · intro h
          cases h
          exact ⟨k + 1, Nat.le_refl _, hfits, fun i hlt hle => by omega, rfl, rfl⟩
        · rintro ⟨j, hj, -, hlongest, rfl, rfl⟩
          have hlast : j = k + 1 := by
            by_contra hne
            exact hlongest (k + 1) (by omega) (Nat.le_refl _) hfits
          rw [hlast]
      · -- One pass takes the last character before the ellipsis away.
        have hne : text.take (k + 1) ≠ [] := by
          rw [ne_eq, List.take_eq_nil_iff, not_or, ← List.length_eq_zero_iff]
          omega
        have hdrop : (text.take (k + 1)).dropLast = text.take k := by
          rw [List.dropLast_eq_take, List.length_take, List.take_take]
          congr 1
          omega
        rw [truncateFrom_of_wide hfits, shorten_ellipsis, if_neg hne, Option.bind_some, hdrop,
          ih (by omega)]
        constructor
        · rintro ⟨j, hj, hshort, hlongest, hout⟩
          refine ⟨j, by omega, hshort, fun i hlt hle => ?_, hout⟩
          rcases Nat.lt_or_eq_of_le hle with hbefore | rfl
          · exact hlongest i hlt (by omega)
          · exact hfits
        · rintro ⟨j, hj, hshort, hlongest, hout⟩
          have hbefore : j ≤ k := by
            by_contra hlast
            have hj' : j = k + 1 := by omega
            rw [hj'] at hshort
            exact hfits hshort
          exact ⟨j, hbefore, hshort, fun i hlt hle => hlongest i hlt (by omega), hout⟩

/-- A text too wide is given as long as it can be, from four bytes shorter on. -/
theorem truncateFrom_wide (hwide : ¬Fits width maxWidth padding text) :
    truncateFrom width maxWidth padding text = some (out, w) ↔
      4 ≤ text.length ∧ ∃ j ≤ text.length - 4,
        Fits width maxWidth padding (text.take j ++ ellipsis) ∧
        (∀ i, j < i → i ≤ text.length - 4 →
          ¬Fits width maxWidth padding (text.take i ++ ellipsis)) ∧
        out = text.take j ++ ellipsis ∧ w = width out + padding := by
  rw [truncateFrom_of_wide hwide]
  by_cases hlength : 4 ≤ text.length
  · rw [shorten_of_le hlength, Option.bind_some,
      truncateFrom_ellipsis (text.length - 4) (Nat.sub_le _ _)]
    exact (and_iff_right hlength).symm
  · rw [shorten_of_lt (Nat.not_le.mp hlength)]
    constructor
    · intro h
      cases h
    · intro h
      exact absurd h.1 hlength

/-- Whatever the font, what comes out is what a caller expects. -/
theorem truncateText_truncates (h : truncateText width maxWidth text padding = some (out, w)) :
    Truncates width maxWidth padding text out w := by
  unfold truncateText at h
  split at h
  next hlength =>
    by_cases hfits : Fits width maxWidth padding text
    · rw [truncateFrom_of_fits hfits] at h
      cases h
      exact ⟨rfl, fun _ => rfl, fun hwide => absurd hfits hwide⟩
    · obtain ⟨hfour, j, hj, hshort, -, rfl, rfl⟩ := (truncateFrom_wide hfits).mp h
      refine ⟨rfl, fun hfits' => absurd hfits' hfits, fun _ => ⟨hshort, text.take j, ?_, ?_, rfl⟩⟩
      · exact List.take_prefix j text
      · rw [List.length_take]
        omega
  next => cases h

/-- What comes out is no longer than the text. -/
theorem length_truncateText (h : truncateText width maxWidth text padding = some (out, w)) :
    out.length ≤ text.length := by
  unfold truncateText at h
  split at h
  next hlength =>
    by_cases hfits : Fits width maxWidth padding text
    · rw [truncateFrom_of_fits hfits] at h
      cases h
      exact Nat.le_refl _
    · obtain ⟨hfour, j, hj, -, -, rfl, -⟩ := (truncateFrom_wide hfits).mp h
      rw [List.length_append, List.length_take, length_ellipsis]
      omega
  next => cases h

theorem mem_suffixCopies {s : CString} (h : s ∈ suffixCopies width maxWidth padding text) :
    s = ellipsis := by
  induction hn : text.length using Nat.strong_induction_on generalizing text with
  | _ n ih =>
      subst hn
      unfold suffixCopies at h
      split at h
      next =>
        split at h
        next => exact List.mem_singleton.mp h
        next next hnext =>
          rcases List.mem_cons.mp h with hhead | htail
          · exact hhead
          · exact ih _ (length_shorten hnext) htail rfl
      next => cases h

/-- The suffix has room in the array, so the text is what has to have it. -/
theorem truncateCopies_short_iff :
    (∀ s ∈ truncateCopies width maxWidth text padding, s.length < maxPath) ↔
      text.length < maxPath := by
  constructor
  · intro h
    exact h text List.mem_cons_self
  · intro h s hs
    rcases List.mem_cons.mp hs with rfl | hsuffix
    · exact h
    · rw [mem_suffixCopies hsuffix]
      decide

/-- Something comes out when the text fits or some shortened text does. -/
theorem truncateText_isSome :
    (∃ out w, truncateText width maxWidth text padding = some (out, w)) ↔
      text.length < maxPath ∧ (Fits width maxWidth padding text ∨
        4 ≤ text.length ∧ ∃ j ≤ text.length - 4,
          Fits width maxWidth padding (text.take j ++ ellipsis)) := by
  unfold truncateText
  split
  next hlength =>
    rw [and_iff_right hlength]
    by_cases hfits : Fits width maxWidth padding text
    · exact ⟨fun _ => .inl hfits, fun _ => ⟨_, _, truncateFrom_of_fits hfits⟩⟩
    · constructor
      · rintro ⟨out, w, h⟩
        obtain ⟨hfour, j, hj, hshort, -⟩ := (truncateFrom_wide hfits).mp h
        exact .inr ⟨hfour, j, hj, hshort⟩
      · rintro (hfits' | ⟨hfour, hsome⟩)
        · exact absurd hfits' hfits
        · obtain ⟨k, hk, hfitsk⟩ := hsome
          let fitting (j : Nat) : Prop := Fits width maxWidth padding (text.take j ++ ellipsis)
          have hlongest : fitting (Nat.findGreatest fitting (text.length - 4)) :=
            Nat.findGreatest_spec hk hfitsk
          refine ⟨_, _, (truncateFrom_wide hfits).mpr
            ⟨hfour, _, Nat.findGreatest_le _, hlongest, fun i hlt hle => ?_, rfl, rfl⟩⟩
          exact Nat.findGreatest_is_greatest hlt hle
  next hlength => simp [hlength]

/-- Where the ellipsis has room, a text is safely shortened just when it fits or has at least
the four bytes the suffix is copied over. -/
theorem truncateText_safe_iff (hlength : text.length < maxPath)
    (hellipsis : Fits width maxWidth padding ellipsis) :
    (∃ out w, truncateText width maxWidth text padding = some (out, w) ∧
        Truncates width maxWidth padding text out w) ↔
      Fits width maxWidth padding text ∨ 4 ≤ text.length := by
  constructor
  · rintro ⟨out, w, h, -⟩
    rcases (truncateText_isSome.mp ⟨out, w, h⟩).2 with hfits | ⟨hfour, -⟩
    · exact .inl hfits
    · exact .inr hfour
  · intro h
    have hsome : ∃ out w, truncateText width maxWidth text padding = some (out, w) := by
      rw [truncateText_isSome, and_iff_right hlength]
      rcases h with hfits | hfour
      · exact .inl hfits
      · exact .inr ⟨hfour, 0, Nat.zero_le _, hellipsis⟩
    obtain ⟨out, w, h⟩ := hsome
    exact ⟨out, w, h, truncateText_truncates h⟩

/-- A font whose full stop is a quarter as wide as any other character. -/
def proportional (text : CString) : Int := (text.map fun c => if c = '.' then 4 else 16).sum

theorem proportional_monotone : Monotone proportional := by
  rintro s t ⟨rest, rfl⟩
  have hrest : 0 ≤ (rest.map fun c => if c = '.' then (4 : Int) else 16).sum := by
    apply List.sum_nonneg
    simp only [List.mem_map, forall_exists_index, and_imp]
    rintro x c - rfl
    split <;> omega
  simp only [proportional, List.map_append, List.sum_append]
  omega

/-- A long title in a narrow list. -/
theorem truncateText_safe_title :
    (∃ out w, truncateText proportional 100 "Golden Axe".toList 16 = some (out, w) ∧
        Truncates proportional 100 16 "Golden Axe".toList out w) ↔
      Fits proportional 100 16 "Golden Axe".toList ∨ 4 ≤ "Golden Axe".toList.length :=
  truncateText_safe_iff (by decide) (by decide)

/-- Three wide characters, with room for the ellipsis only. -/
theorem truncateText_wow :
    Monotone proportional ∧ "WOW".toList.length < maxPath ∧
      Fits proportional 40 16 ellipsis ∧
      ¬∃ out w, truncateText proportional 40 "WOW".toList 16 = some (out, w) ∧
        Truncates proportional 40 16 "WOW".toList out w := by
  refine ⟨proportional_monotone, by decide, by decide, ?_⟩
  rintro ⟨out, w, h, -⟩
  rcases (truncateText_isSome.mp ⟨out, w, h⟩).2 with hfits | ⟨hfour, -⟩
  · exact absurd hfits (by decide)
  · exact absurd hfour (by decide)

end DarkUI.Gfx
