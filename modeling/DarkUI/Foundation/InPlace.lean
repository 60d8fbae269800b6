import Mathlib.Data.List.Basic

/-! # Lists changed in place

What is left of a list when one element is changed, and what a loop keeps of its state.
-/

namespace InPlace

variable {α β σ τ ι : Type*} {f : α → α} {l : List α} {i : Nat}

theorem map_modify {g : α → β} (hf : ∀ x, g (f x) = g x) : (l.modify i f).map g = l.map g := by
  apply List.ext_getElem?
  intro j
  rw [List.getElem?_map, List.getElem?_map, List.getElem?_modify, Option.map_eq_map,
    Option.map_map]
  congr 1
  funext x
  split <;> simp [hf]

theorem mem_modify {x : α} (h : x ∈ l.modify i f) : x ∈ l ∨ ∃ y, l[i]? = some y ∧ x = f y := by
  obtain ⟨j, hj⟩ := List.mem_iff_getElem?.mp h
  rw [List.getElem?_modify] at hj
  obtain ⟨y, hy, rfl⟩ := Option.map_eq_some_iff.mp hj
  split
  next hij => exact .inr ⟨y, by rw [hij]; exact hy, rfl⟩
  next => exact .inl (List.mem_of_getElem? hy)

/-- What holds of every element still does if it holds of the one that is changed. -/
theorem forall_modify {p : α → Prop} (hl : ∀ x ∈ l, p x) (hf : ∀ x, l[i]? = some x → p (f x)) :
    ∀ x ∈ l.modify i f, p x := by
  intro x hx
  rcases mem_modify hx with hmem | ⟨y, hy, rfl⟩
  · exact hl x hmem
  · exact hf y hy

/-- What every pass of a loop keeps holds when the loop is left. -/
theorem foldlM_invariant {p : σ → Prop} {step : σ → ι → Option σ} {list : List ι} {s t : σ}
    (hloop : list.foldlM step s = some t) (hs : p s)
    (hstep : ∀ {s t : σ} {i : ι}, p s → step s i = some t → p t) : p t := by
  induction list generalizing s with
  | nil =>
      cases hloop
      exact hs
  | cons i rest ih =>
      rw [List.foldlM_cons] at hloop
      obtain ⟨m, hm, hrest⟩ := Option.bind_eq_some_iff.mp hloop
      exact ih hrest (hstep hs hm)

theorem mapM_cons_eq_some {g : α → Option β} {x : α} {xs : List α} {ys : List β} :
    (x :: xs).mapM g = some ys ↔ ∃ y ys', g x = some y ∧ xs.mapM g = some ys' ∧ ys = y :: ys' := by
  rw [List.mapM_cons]
  cases hx : g x with
  | none => simp
  | some y =>
      cases hxs : xs.mapM g with
      | none => simp
      | some ys' => simp [eq_comm]

/-- What reading leaves alone in every item it leaves alone in the list. -/
theorem mapM_map {g : α → Option α} {part : α → β}
    (hg : ∀ x y, g x = some y → part y = part x) {xs ys : List α} (h : xs.mapM g = some ys) :
    ys.map part = xs.map part := by
  induction xs generalizing ys with
  | nil =>
      rw [List.mapM_nil] at h
      cases h
      rfl
  | cons x xs ih =>
      obtain ⟨y, ys', hy, hys, rfl⟩ := mapM_cons_eq_some.mp h
      rw [List.map_cons, List.map_cons, hg x y hy, ih hys]

/-- Every result comes from an element. -/
theorem exists_of_mem_mapM {g : α → Option β} {xs : List α} {ys : List β} {y : β}
    (h : xs.mapM g = some ys) (hy : y ∈ ys) : ∃ x ∈ xs, g x = some y := by
  induction xs generalizing ys with
  | nil =>
      rw [List.mapM_nil] at h
      cases h
      cases hy
  | cons x xs ih =>
      obtain ⟨first, rest, hfirst, hrest, rfl⟩ := mapM_cons_eq_some.mp h
      rcases List.mem_cons.mp hy with rfl | hmem
      · exact ⟨x, List.mem_cons_self, hfirst⟩
      · obtain ⟨x', hx', hy'⟩ := ih hrest hmem
        exact ⟨x', List.mem_cons_of_mem _ hx', hy'⟩

/-- Two loops whose passes keep a relation end in states it relates. -/
theorem foldlM_simulates {r : σ → τ → Prop} {step : σ → ι → Option σ}
    (step' : τ → ι → Option τ) {list : List ι} {s s' : σ} {t : τ}
    (hloop : list.foldlM step s = some s') (hst : r s t)
    (hstep : ∀ {s s' : σ} {t : τ} {i : ι}, r s t → step s i = some s' →
      ∃ t', step' t i = some t' ∧ r s' t') :
    ∃ t', list.foldlM step' t = some t' ∧ r s' t' := by
  induction list generalizing s t with
  | nil =>
      cases hloop
      exact ⟨t, rfl, hst⟩
  | cons i rest ih =>
      rw [List.foldlM_cons] at hloop
      obtain ⟨m, hm, hrest⟩ := Option.bind_eq_some_iff.mp hloop
      obtain ⟨m', hm', hrel⟩ := hstep hst hm
      obtain ⟨t', ht', hrel'⟩ := ih hrest hrel
      refine ⟨t', ?_, hrel'⟩
      rw [List.foldlM_cons, hm']
      exact ht'

end InPlace
