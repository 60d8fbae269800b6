import Mathlib.Data.Finset.Card
import Mathlib.Data.List.Basic
import Mathlib.Data.List.Range

/-! # Runs of equal elements

A list falls into maximal runs of equal elements. They are known by where they start, and a
sorted list has one for each element that occurs.
-/

namespace Runs

variable {α β : Type*} [DecidableEq α] {xs ys : List α} {x : α} {p q s t : Nat}

/-- Where the runs start, from the first one on. -/
def starts (xs : List α) : List Nat :=
  (List.range xs.length).filter fun i => i = 0 ∨ xs[i - 1]? ≠ xs[i]?

/-- The run that contains `p` starts at `s`. -/
structure RunStart (xs : List α) (p s : Nat) : Prop where
  le : s ≤ p
  same : ∀ q, s ≤ q → q ≤ p → xs[q]? = xs[p]?
  first : s = 0 ∨ xs[s - 1]? ≠ xs[p]?

/-- The next run after the one that contains `p` starts at `q`. -/
structure NextRun (xs : List α) (p q : Nat) : Prop where
  lt : p < q
  lt_length : q < xs.length
  same : ∀ r, p ≤ r → r < q → xs[r]? = xs[p]?
  differs : xs[q]? ≠ xs[p]?

theorem mem_starts : s ∈ starts xs ↔ s < xs.length ∧ (s = 0 ∨ xs[s - 1]? ≠ xs[s]?) := by
  simp [starts]

theorem starts_sorted (xs : List α) : (starts xs).Pairwise (· < ·) :=
  List.pairwise_lt_range.filter _

@[simp] theorem starts_nil : starts ([] : List α) = [] := rfl

theorem starts_concat (xs : List α) (x : α) :
    starts (xs ++ [x]) = starts xs ++ if xs.getLast? = some x then [] else [xs.length] := by
  unfold starts
  rw [List.length_append, List.length_singleton, List.range_succ, List.filter_append]
  congr 1
  · apply List.filter_congr
    intro i hi
    have hlt : i < xs.length := List.mem_range.mp hi
    rw [List.getElem?_append_left hlt, List.getElem?_append_left (by omega)]
  · rw [List.getLast?_eq_getElem?]
    cases xs with
    | nil => simp
    | cons y ys =>
        have hbefore : (y :: ys).length - 1 < (y :: ys).length := by simp
        have hne : (y :: ys).length ≠ 0 := by simp
        rw [List.filter_singleton, List.getElem?_append_left hbefore, List.getElem?_concat_length]
        by_cases hsame : (y :: ys)[(y :: ys).length - 1]? = some x <;> simp_all

/-- What follows adds starts behind those there are. -/
theorem starts_prefix (xs ys : List α) : starts xs <+: starts (xs ++ ys) := by
  induction ys using List.reverseRecOn with
  | nil => simp
  | append_singleton ys y ih =>
      rw [← List.append_assoc, starts_concat]
      exact ih.trans (List.prefix_append _ _)

theorem starts_take (xs : List α) (k : Nat) : starts (xs.take k) <+: starts xs := by
  have h := starts_prefix (xs.take k) (xs.drop k)
  rwa [List.take_append_drop] at h

theorem zero_mem_starts (h : xs ≠ []) : 0 ∈ starts xs :=
  mem_starts.mpr ⟨List.length_pos_iff.mpr h, .inl rfl⟩

theorem starts_head (h : xs ≠ []) : (starts xs)[0]? = some 0 := by
  obtain ⟨x, rest, rfl⟩ := List.exists_cons_of_ne_nil h
  obtain ⟨later, hlater⟩ := starts_prefix [x] rest
  have hone : starts [x] = [0] := by simp [starts]
  rw [← List.singleton_append, ← hlater, hone]
  rfl

/-- Where no run starts, the elements are equal. -/
theorem getElem?_eq_of_no_start (hp : p < xs.length) (hq : q ≤ p)
    (h : ∀ t ∈ starts xs, q < t → p < t) : xs[q]? = xs[p]? := by
  obtain ⟨k, rfl⟩ := Nat.exists_eq_add_of_le hq
  induction k with
  | zero => rfl
  | succ k ih =>
      have hrest := ih (by omega) (Nat.le_add_right q k) fun t ht hlt => by
        have hbehind := h t ht hlt
        omega
      rw [hrest]
      by_contra hne
      have hstart : q + (k + 1) ∈ starts xs := mem_starts.mpr ⟨hp, .inr hne⟩
      have hbehind := h _ hstart (by omega)
      omega

/-- The run that contains a position starts at the last start up to there. -/
theorem runStart_iff (hp : p < xs.length) :
    RunStart xs p s ↔ s ∈ starts xs ∧ s ≤ p ∧ ∀ t ∈ starts xs, t ≤ p → t ≤ s := by
  constructor
  · rintro ⟨hle, hsame, hfirst⟩
    refine ⟨mem_starts.mpr ⟨by omega, ?_⟩, hle, fun t ht htp => ?_⟩
    · rw [hsame s (Nat.le_refl s) hle]
      exact hfirst
    · by_contra hlt
      rcases (mem_starts.mp ht).2 with hzero | hdiffers
      · omega
      · apply hdiffers
        rw [hsame (t - 1) (by omega) (by omega), hsame t (by omega) htp]
  · rintro ⟨hs, hle, hlast⟩
    have hsame (q : Nat) (hsq : s ≤ q) (hqp : q ≤ p) : xs[q]? = xs[p]? := by
      apply getElem?_eq_of_no_start hp hqp
      intro t ht hqt
      by_contra htp
      have hts := hlast t ht (by omega)
      omega
    refine ⟨hle, hsame, ?_⟩
    rw [← hsame s (Nat.le_refl s) hle]
    exact (mem_starts.mp hs).2

theorem RunStart.unique (hp : p < xs.length) (hs : RunStart xs p s) (ht : RunStart xs p t) :
    s = t := by
  obtain ⟨hs, hsp, hslast⟩ := (runStart_iff hp).mp hs
  obtain ⟨ht, htp, htlast⟩ := (runStart_iff hp).mp ht
  exact Nat.le_antisymm (htlast s hs hsp) (hslast t ht htp)

/-- How many runs end before the one that contains `p`. -/
def number (xs : List α) (p : Nat) : Nat := (starts (xs.take (p + 1))).length - 1

theorem number_lt (hp : p < xs.length) : number xs p < (starts xs).length := by
  have hle := (starts_take xs (p + 1)).length_le
  have hne : xs.take (p + 1) ≠ [] := by
    rw [← List.length_pos_iff, List.length_take]
    omega
  have hpos := List.length_pos_of_mem (zero_mem_starts hne)
  unfold number
  omega

theorem mem_starts_take (hp : p < xs.length) : t ∈ starts (xs.take (p + 1)) ↔
    t ∈ starts xs ∧ t ≤ p := by
  rw [mem_starts, mem_starts, List.length_take]
  by_cases htp : t ≤ p
  · have hbefore : t - 1 < p + 1 := by omega
    rw [List.getElem?_take_of_lt hbefore, List.getElem?_take_of_lt (Nat.lt_succ_of_le htp)]
    simp only [htp, and_true]
    constructor
    · exact fun h => ⟨by omega, h.2⟩
    · exact fun h => ⟨by omega, h.2⟩
  · constructor
    · intro h
      omega
    · exact fun h => absurd h.2 htp

/-- Positions count up in the order of the starts. -/
theorem getElem?_lt {i j : Nat} (hi : (starts xs)[i]? = some s) (hj : (starts xs)[j]? = some t)
    (hij : i < j) : s < t := by
  obtain ⟨hilt, rfl⟩ := List.getElem?_eq_some_iff.mp hi
  obtain ⟨hjlt, rfl⟩ := List.getElem?_eq_some_iff.mp hj
  exact List.pairwise_iff_getElem.mp (starts_sorted xs) i j hilt hjlt hij

theorem le_of_getElem? {i j : Nat} (hi : (starts xs)[i]? = some s) (hj : (starts xs)[j]? = some t)
    (hij : i ≤ j) : s ≤ t := by
  rcases Nat.eq_or_lt_of_le hij with rfl | hlt
  · rw [hi] at hj
    cases hj
    exact Nat.le_refl s
  · exact Nat.le_of_lt (getElem?_lt hi hj hlt)

theorem lt_of_getElem? {i j : Nat} (hi : (starts xs)[i]? = some s) (hj : (starts xs)[j]? = some t)
    (hst : s < t) : i < j := by
  by_contra hji
  have hle := le_of_getElem? hj hi (by omega)
  omega

/-- The starts count the runs. -/
theorem getElem?_number (hp : p < xs.length) :
    ∃ s, (starts xs)[number xs p]? = some s ∧ RunStart xs p s := by
  have hne : xs.take (p + 1) ≠ [] := by
    rw [← List.length_pos_iff, List.length_take]
    omega
  have hpos := List.length_pos_of_mem (zero_mem_starts hne)
  have hlt : number xs p < (starts (xs.take (p + 1))).length := by
    unfold number
    omega
  obtain ⟨s, hs⟩ : ∃ s, (starts (xs.take (p + 1)))[number xs p]? = some s :=
    ⟨_, List.getElem?_eq_getElem hlt⟩
  refine ⟨s, ?_, ?_⟩
  · obtain ⟨later, hlater⟩ := starts_take xs (p + 1)
    rw [← hlater, List.getElem?_append_left hlt]
    exact hs
  · obtain ⟨hmem, hle⟩ := (mem_starts_take hp).mp (List.mem_of_getElem? hs)
    refine (runStart_iff hp).mpr ⟨hmem, hle, fun t ht htp => ?_⟩
    obtain ⟨i, hi⟩ := List.mem_iff_getElem?.mp ((mem_starts_take hp).mpr ⟨ht, htp⟩)
    have hilt := (List.getElem?_eq_some_iff.mp hi).1
    refine le_of_getElem? hi hs ?_
    unfold number
    omega

/-- The run before starts at the start before. -/
theorem runStart_previous {r : Nat} (hs : (starts xs)[r + 1]? = some s)
    (ht : (starts xs)[r]? = some t) : 0 < s ∧ RunStart xs (s - 1) t := by
  have hlt : t < s := getElem?_lt ht hs (Nat.lt_succ_self r)
  have hlength := (mem_starts.mp (List.mem_of_getElem? hs)).1
  refine ⟨by omega, (runStart_iff (by omega)).mpr ⟨List.mem_of_getElem? ht, by omega, ?_⟩⟩
  intro u hu hus
  obtain ⟨i, hi⟩ := List.mem_iff_getElem?.mp hu
  have hir : i < r + 1 := lt_of_getElem? hi hs (by omega)
  exact le_of_getElem? hi ht (by omega)

/-- The run behind starts at the start behind. -/
theorem nextRun_of_starts {r : Nat} (hp : p < xs.length) (hs : (starts xs)[r]? = some s)
    (hrun : RunStart xs p s) (hq : (starts xs)[r + 1]? = some q) : NextRun xs p q := by
  have hmem := mem_starts.mp (List.mem_of_getElem? hq)
  have hsq : s < q := getElem?_lt hs hq (Nat.lt_succ_self r)
  have hpq : p < q := by
    by_contra hqp
    have hle := ((runStart_iff hp).mp hrun).2.2 q (List.mem_of_getElem? hq) (by omega)
    omega
  have hsame (u : Nat) (hpu : p ≤ u) (huq : u < q) : xs[p]? = xs[u]? := by
    apply getElem?_eq_of_no_start (by omega) hpu
    intro t ht hpt
    by_contra htu
    obtain ⟨i, hi⟩ := List.mem_iff_getElem?.mp ht
    have hri : r < i := lt_of_getElem? hs hi (by have hle := hrun.le; omega)
    have hir : i < r + 1 := lt_of_getElem? hi hq (by omega)
    omega
  refine ⟨hpq, hmem.1, fun u hpu huq => (hsame u hpu huq).symm, ?_⟩
  rcases hmem.2 with hzero | hdiffers
  · omega
  · rw [hsame (q - 1) (by omega) (by omega)]
    exact fun heq => hdiffers heq.symm

/-- Behind the last start all elements are equal. -/
theorem same_of_last_start {r : Nat} (hs : (starts xs)[r]? = some s)
    (hrun : RunStart xs p s) (hlast : (starts xs).length ≤ r + 1) (hpq : p ≤ q)
    (hq : q < xs.length) : xs[q]? = xs[p]? := by
  refine (getElem?_eq_of_no_start hq hpq fun t ht hpt => ?_).symm
  obtain ⟨i, hi⟩ := List.mem_iff_getElem?.mp ht
  have hri : r < i := lt_of_getElem? hs hi (by have hle := hrun.le; omega)
  have hlt := (List.getElem?_eq_some_iff.mp hi).1
  omega

/-! ## Sorted lists -/

/-- Equal elements have equal images. -/
theorem length_starts_map_le [DecidableEq β] (f : α → β) (xs : List α) :
    (starts (xs.map f)).length ≤ (starts xs).length := by
  unfold starts
  rw [List.length_map]
  apply List.Sublist.length_le
  apply List.monotone_filter_right
  intro i hi
  simp only [List.getElem?_map, decide_eq_true_eq] at hi ⊢
  refine hi.imp_right fun hne heq => hne ?_
  rw [heq]

/-- A sorted list has a run for each element. -/
theorem length_starts_of_sorted [PartialOrder α] (h : xs.Pairwise (· ≤ ·)) :
    (starts xs).length = xs.toFinset.card := by
  induction xs using List.reverseRecOn with
  | nil => rfl
  | append_singleton xs x ih =>
      obtain ⟨hxs, -, hlast⟩ := List.pairwise_append.mp h
      rw [starts_concat, List.length_append, ih hxs, List.toFinset_append]
      split
      next hsame =>
        have hmem : x ∈ xs := List.mem_of_getLast? hsame
        simp [hmem]
      next hdiffers =>
        have hnot : x ∉ xs := by
          intro hmem
          have hne : xs ≠ [] := List.ne_nil_of_mem hmem
          apply hdiffers
          rw [List.getLast?_eq_some_getLast hne]
          have hle : xs.getLast hne ≤ x :=
            hlast _ (List.getLast_mem hne) x (List.mem_singleton_self x)
          have hge : x ≤ xs.getLast hne := by
            rw [← List.dropLast_append_getLast hne] at hxs hmem
            rcases List.mem_append.mp hmem with hbefore | hend
            · exact (List.pairwise_append.mp hxs).2.2 x hbefore _ (List.mem_singleton_self _)
            · exact le_of_eq (List.mem_singleton.mp hend)
          rw [le_antisymm hle hge]
        simp [hnot]

end Runs
