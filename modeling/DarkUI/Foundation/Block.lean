import Mathlib.Data.List.Induction

/-! # Blocks of memory

Cells that are read and written by their index, where an access outside the block is undefined.
The cells in use stand at the front of their block.
-/

namespace Block

variable {α β : Type*}

def load (block : List α) (i : Nat) : Option α := block[i]?

def store (block : List α) (i : Nat) (x : α) : Option (List α) :=
  if i < block.length then some (block.set i x) else none

/-- The first `n` cells, each moved one further, the last of them first. -/
def shiftUp : Nat → List α → Option (List α)
  | 0, block => some block
  | n + 1, block => (load block n).bind fun x => (store block (n + 1) x).bind (shiftUp n)

/-- The index of the first of `n` cells from `i` on that passes a test. -/
def search (p : α → Bool) (block : List α) : Nat → Nat → Option (Option Nat)
  | 0, _ => some none
  | n + 1, i =>
      (load block i).bind fun x => if p x then some (some i) else search p block n (i + 1)

variable {front rest : List α} {x y : α}

theorem load_at (front rest : List α) (x : α) :
    load (front ++ x :: rest) front.length = some x := by
  rw [load, List.getElem?_append_right (Nat.le_refl _), Nat.sub_self]
  rfl

theorem store_at (front rest : List α) (x y : α) :
    store (front ++ x :: rest) front.length y = some (front ++ y :: rest) := by
  have hin : front.length < (front ++ x :: rest).length := by simp
  rw [store, if_pos hin, List.set_append_right _ _ (Nat.le_refl _), Nat.sub_self]
  rfl

theorem store_past {block : List α} {i : Nat} (h : block.length ≤ i) (x : α) :
    store block i x = none :=
  if_neg (Nat.not_lt.mpr h)

/-- The cells have moved into the one that was free behind them; what is left in the first is
there to be written over. -/
theorem shiftUp_at (front rest : List α) (y : α) :
    ∃ z, shiftUp front.length (front ++ y :: rest) = some (z :: front ++ rest) := by
  induction front using List.reverseRecOn generalizing y rest with
  | nil => exact ⟨y, rfl⟩
  | append_singleton front x ih =>
      obtain ⟨z, hz⟩ := ih (x :: rest) x
      refine ⟨z, ?_⟩
      have hload : load (front ++ [x] ++ y :: rest) front.length = some x := by
        rw [List.append_assoc]
        exact load_at front (y :: rest) x
      have hstore : store (front ++ [x] ++ y :: rest) (front.length + 1) x
          = some (front ++ x :: x :: rest) := by
        have hlength : front.length + 1 = (front ++ [x]).length := by simp
        rw [hlength, store_at, List.append_assoc]
        rfl
      rw [List.length_append, List.length_singleton, shiftUp, hload, Option.bind_some, hstore,
        Option.bind_some, hz, List.cons_append, List.cons_append, List.append_assoc]
      rfl

/-- The search stays among the cells in use. -/
theorem search_at (p : α → Bool) (front cells rest : List α) :
    search p (front ++ cells ++ rest) cells.length front.length
      = some ((cells.findIdx? p).map (· + front.length)) := by
  induction cells generalizing front with
  | nil => rfl
  | cons x cells ih =>
      have hload : load (front ++ (x :: cells) ++ rest) front.length = some x := by
        rw [List.append_assoc]
        exact load_at front (cells ++ rest) x
      have hnext := ih (front ++ [x])
      rw [List.append_assoc front, List.length_append] at hnext
      rw [List.length_cons, search, hload, Option.bind_some, List.findIdx?_cons]
      split
      next => simp
      next =>
        rw [← List.singleton_append, ← List.append_assoc, List.append_assoc front,
          ← List.length_singleton, hnext, Option.map_map]
        congr 2
        funext i
        simp only [Function.comp_apply, List.length_singleton]
        omega

/-- What the index leads to in a second list is what belongs to the element found. -/
theorem getElem?_of_findIdx? (p : α → Bool) (f : α → β) (l : List α) :
    (l.findIdx? p).bind (fun i => (l.map f)[i]?) = (l.find? p).map f := by
  induction l with
  | nil => rfl
  | cons x l ih =>
      rw [List.findIdx?_cons, List.find?_cons]
      cases hx : p x with
      | true => rfl
      | false =>
          rw [← ih]
          cases l.findIdx? p <;> rfl

end Block
