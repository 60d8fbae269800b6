import Mathlib.Data.List.Basic
import Mathlib.Data.List.Nodup
import Mathlib.Data.List.Sublists

/-! # Dropping repeats between neighbours

The loop that keeps an item unless its key is that of the item kept last. It leaves
every key once exactly when equal keys stand together.
-/

namespace Neighbours

variable {α β : Type*} [DecidableEq β] (key : α → β)

def dedup : Option α → List α → List α
  | _, [] => []
  | prev, x :: rest =>
      if prev.map key = some (key x) then dedup prev rest else x :: dedup (some x) rest

/-- The item kept last. -/
def carry : Option α → List α → Option α
  | prev, [] => prev
  | prev, x :: rest => if prev.map key = some (key x) then carry prev rest else carry (some x) rest

variable {key} {prev : Option α} {xs ys : List α} {a b c x : α}

theorem dedup_sublist : (dedup key prev xs).Sublist xs := by
  induction xs generalizing prev with
  | nil => exact List.Sublist.refl _
  | cons x rest ih =>
      unfold dedup
      split
      next => exact ih.cons x
      next => exact ih.cons_cons x

theorem mem_of_mem_dedup (h : x ∈ dedup key prev xs) : x ∈ xs := dedup_sublist.mem h

theorem dedup_append :
    dedup key prev (xs ++ ys) = dedup key prev xs ++ dedup key (carry key prev xs) ys := by
  induction xs generalizing prev with
  | nil => rfl
  | cons x rest ih =>
      simp only [List.cons_append, dedup, carry]
      split <;> simp [ih]

theorem map_carry_append_singleton : (carry key prev (xs ++ [c])).map key = some (key c) := by
  induction xs generalizing prev with
  | nil =>
      simp only [List.nil_append, carry]
      split
      next h => exact h
      next => rfl
  | cons x rest ih =>
      simp only [List.cons_append, carry]
      split <;> exact ih

/-- Every key is left. -/
theorem exists_mem_dedup (hx : x ∈ xs) (hprev : prev.map key ≠ some (key x)) :
    ∃ y ∈ dedup key prev xs, key y = key x := by
  induction xs generalizing prev with
  | nil => cases hx
  | cons y rest ih =>
      by_cases hyx : key y = key x
      · refine ⟨y, ?_, hyx⟩
        simp [dedup, hyx, hprev]
      · have hrest : x ∈ rest := by
          rcases List.mem_cons.mp hx with rfl | hx
          · exact absurd rfl hyx
          · exact hx
        unfold dedup
        split
        next => exact ih hrest hprev
        next =>
          obtain ⟨z, hz, hkey⟩ := @ih (some y) hrest (by simpa using hyx)
          exact ⟨z, List.mem_cons_of_mem _ hz, hkey⟩

/-- The first item with its key is kept. -/
theorem mem_dedup_of_first (hfirst : ∀ y ∈ xs, key y ≠ key x)
    (hprev : prev.map key ≠ some (key x)) :
    x ∈ dedup key prev (xs ++ x :: ys) := by
  induction xs generalizing prev with
  | nil => simp [dedup, hprev]
  | cons y rest ih =>
      have hrest := fun z hz => hfirst z (List.mem_cons_of_mem _ hz)
      simp only [List.cons_append, dedup]
      split
      next => exact ih hrest hprev
      next =>
        refine List.mem_cons_of_mem _ (ih hrest ?_)
        simpa using hfirst y List.mem_cons_self

/-- A key with another key between its items is left twice. -/
theorem exists_pair_dedup (ha : a ∈ xs) (hb : b ∈ ys) (hab : key a = key b)
    (hc : key c ≠ key a) :
    ∃ a' b', [a', b'].Sublist (dedup key none (xs ++ [c] ++ ys)) ∧
      key a' = key a ∧ key b' = key a := by
  obtain ⟨a', ha', hkeya⟩ := @exists_mem_dedup _ _ _ key none _ _
    (List.mem_append_left [c] ha) (by simp)
  obtain ⟨b', hb', hkeyb⟩ :=
    @exists_mem_dedup _ _ _ key (carry key none (xs ++ [c])) _ _ hb (by
      rw [map_carry_append_singleton, ← hab]
      simpa using hc)
  refine ⟨a', b', ?_, hkeya, hkeyb.trans hab.symm⟩
  rw [dedup_append]
  exact (List.singleton_sublist.mpr ha').append (List.singleton_sublist.mpr hb')

/-- Items with one key stand together. -/
def Together (key : α → β) (xs : List α) : Prop :=
  ∀ a c b, [a, c, b].Sublist xs → key a = key b → key c = key a

omit [DecidableEq β] in
theorem Together.sublist (h : Together key ys) (hsub : xs.Sublist ys) : Together key xs :=
  fun a c b hacb => h a c b (hacb.trans hsub)

theorem key_ne_of_mem_dedup (h : Together key (a :: xs)) :
    ∀ y ∈ dedup key (some a) xs, key y ≠ key a := by
  induction xs with
  | nil => simp [dedup]
  | cons x rest ih =>
      intro y hy
      unfold dedup at hy
      split at hy
      next => exact ih (h.sublist ((List.sublist_cons_self x rest).cons_cons a)) y hy
      next hne =>
        have hax : key x ≠ key a := fun heq => hne (by simp [heq])
        rcases List.mem_cons.mp hy with rfl | hy
        · exact hax
        · intro heq
          have hrest := List.singleton_sublist.mpr (mem_of_mem_dedup hy)
          exact hax (h a x y ((hrest.cons_cons x).cons_cons a) heq.symm)

theorem nodup_map_dedup (h : Together key xs) : ((dedup key prev xs).map key).Nodup := by
  induction xs generalizing prev with
  | nil => simp [dedup]
  | cons x rest ih =>
      have hrest := h.sublist (List.sublist_cons_self x rest)
      unfold dedup
      split
      next => exact ih hrest
      next =>
        rw [List.map_cons, List.nodup_cons]
        refine ⟨fun hmem => ?_, ih hrest⟩
        obtain ⟨y, hy, hkey⟩ := List.mem_map.mp hmem
        exact key_ne_of_mem_dedup h y hy hkey

end Neighbours
