import Mathlib.Data.List.Dedup
import Mathlib.Data.List.Induction
import Mathlib.Data.List.Nodup
import Mathlib.Order.Basic
import Mathlib.Order.Lattice

/-! # The heaviest of each key

A list from which one element is kept for each key: the first one that no other of its key
outweighs. The elements kept stand in the order in which their keys first occur.
-/

namespace Heaviest

variable {α κ ω : Type*} [DecidableEq κ] [LinearOrder ω] {key : α → κ} {weight : α → ω}

/-- One more element: it takes the place of a lighter one of its key. -/
def insert (key : α → κ) (weight : α → ω) (x : α) : List α → List α
  | [] => [x]
  | y :: rest =>
      if key y = key x then (if weight y < weight x then x :: rest else y :: rest)
      else y :: insert key weight x rest

/-- The elements kept of a list. -/
def keep (key : α → κ) (weight : α → ω) (xs : List α) : List α :=
  xs.foldl (fun kept x => insert key weight x kept) []

/-- The element is the first of its key that none of its key outweighs. -/
def Leads (key : α → κ) (weight : α → ω) (xs : List α) (p : α) : Prop :=
  ∃ before after, xs = before ++ p :: after ∧
    (∀ q ∈ before, key q = key p → weight q < weight p) ∧
      ∀ q ∈ after, key q = key p → weight q ≤ weight p

variable {xs kept : List α} {x p q : α}

theorem keep_concat (xs : List α) (x : α) :
    keep key weight (xs ++ [x]) = insert key weight x (keep key weight xs) := by
  rw [keep, List.foldl_concat]
  rfl

/-- An element of a new key is added at the end. -/
theorem insert_of_not_mem (h : key x ∉ kept.map key) :
    insert key weight x kept = kept ++ [x] := by
  induction kept with
  | nil => rfl
  | cons y rest ih =>
      rw [List.map_cons, List.mem_cons, not_or] at h
      rw [insert, if_neg (Ne.symm h.1), ih h.2, List.cons_append]

/-- An element of a key that is there changes no key. -/
theorem keys_insert_of_mem (h : key x ∈ kept.map key) :
    (insert key weight x kept).map key = kept.map key := by
  induction kept with
  | nil => cases h
  | cons y rest ih =>
      unfold insert
      split
      next hkey =>
        split
        · rw [List.map_cons, List.map_cons, hkey]
        · rfl
      next hkey =>
        rw [List.map_cons, List.mem_cons] at h
        rw [List.map_cons, List.map_cons, ih (h.resolve_left (Ne.symm hkey))]

theorem nodup_insert (h : (kept.map key).Nodup) : ((insert key weight x kept).map key).Nodup := by
  by_cases hmem : key x ∈ kept.map key
  · rwa [keys_insert_of_mem hmem]
  · rw [insert_of_not_mem hmem, List.map_append, List.map_singleton]
    exact List.concat_eq_append ▸ h.concat hmem

/-- What is kept has no key twice. -/
theorem nodup_keep (xs : List α) : ((keep key weight xs).map key).Nodup := by
  induction xs using List.reverseRecOn with
  | nil => exact List.nodup_nil
  | append_singleton xs x ih =>
      rw [keep_concat]
      exact nodup_insert ih

/-- Which elements stay when one more is kept. -/
theorem mem_insert (h : (kept.map key).Nodup) :
    p ∈ insert key weight x kept ↔ (p ∈ kept ∧ ¬ (key p = key x ∧ weight p < weight x)) ∨
      (p = x ∧ ∀ q ∈ kept, key q = key x → weight q < weight x) := by
  induction kept with
  | nil => simp [insert]
  | cons y rest ih =>
      rw [List.map_cons, List.nodup_cons] at h
      unfold insert
      split
      next hkey =>
        have hrest : ∀ q ∈ rest, key q ≠ key x := fun q hq heq =>
          h.1 (List.mem_map.mpr ⟨q, hq, heq.trans hkey.symm⟩)
        split
        -- the new element takes the place of the lighter one
        next hlt =>
          constructor
          · intro hp
            rcases List.mem_cons.mp hp with rfl | hp
            · refine .inr ⟨rfl, fun q hq hsame => ?_⟩
              rcases List.mem_cons.mp hq with rfl | hq
              · exact hlt
              · exact absurd hsame (hrest q hq)
            · exact .inl ⟨List.mem_cons_of_mem y hp, fun hsame => hrest p hp hsame.1⟩
          · rintro (⟨hp, hnot⟩ | ⟨rfl, -⟩)
            · rcases List.mem_cons.mp hp with rfl | hp
              · exact absurd ⟨hkey, hlt⟩ hnot
              · exact List.mem_cons_of_mem x hp
            · exact List.mem_cons_self
        -- the new element is dropped
        next hle =>
          constructor
          · intro hp
            refine .inl ⟨hp, fun hsame => ?_⟩
            rcases List.mem_cons.mp hp with rfl | hp
            · exact hle hsame.2
            · exact hrest p hp hsame.1
          · rintro (⟨hp, -⟩ | ⟨-, hall⟩)
            · exact hp
            · exact absurd (hall y List.mem_cons_self hkey) hle
      next hkey =>
        rw [List.mem_cons, ih h.2, List.mem_cons, List.forall_mem_cons]
        constructor
        · rintro (rfl | ⟨hp, hnot⟩ | ⟨hp, hall⟩)
          · exact .inl ⟨.inl rfl, fun hsame => hkey hsame.1⟩
          · exact .inl ⟨.inr hp, hnot⟩
          · exact .inr ⟨hp, fun hsame => absurd hsame hkey, hall⟩
        · rintro (⟨hp | hp, hnot⟩ | ⟨hp, -, hall⟩)
          · exact .inl hp
          · exact .inr (.inl ⟨hp, hnot⟩)
          · exact .inr (.inr ⟨hp, hall⟩)

omit [DecidableEq κ] in
theorem leads_mem (h : Leads key weight xs p) : p ∈ xs := by
  obtain ⟨before, after, rfl, -⟩ := h
  simp

omit [DecidableEq κ] in
/-- What leads a list that is one element longer. -/
theorem leads_concat : Leads key weight (xs ++ [x]) p ↔
    (Leads key weight xs p ∧ ¬ (key p = key x ∧ weight p < weight x)) ∨
      (p = x ∧ ∀ q ∈ xs, key q = key x → weight q < weight x) := by
  constructor
  · rintro ⟨before, after, heq, hbefore, hafter⟩
    rcases List.eq_nil_or_concat after with rfl | ⟨after', y, rfl⟩
    · obtain ⟨rfl, hx⟩ := List.append_inj' heq rfl
      cases hx
      exact .inr ⟨rfl, hbefore⟩
    · rw [List.concat_eq_append, ← List.cons_append, ← List.append_assoc] at heq
      obtain ⟨rfl, hx⟩ := List.append_inj' heq rfl
      cases hx
      refine .inl ⟨⟨before, after', rfl, hbefore, fun q hq => hafter q (by simp [hq])⟩, ?_⟩
      exact fun hsame => not_lt_of_ge (hafter x (by simp) hsame.1.symm) hsame.2
  · rintro (⟨⟨before, after, rfl, hbefore, hafter⟩, hnot⟩ | ⟨rfl, hall⟩)
    · refine ⟨before, after ++ [x], by simp, hbefore, fun q hq hsame => ?_⟩
      rcases List.mem_append.mp hq with hq | hq
      · exact hafter q hq hsame
      · cases List.mem_singleton.mp hq
        exact le_of_not_gt fun hlt => hnot ⟨hsame.symm, hlt⟩
    · exact ⟨xs, [], rfl, hall, fun q hq => nomatch hq⟩

/-- What is kept of the key of one more element is as heavy as it. -/
theorem exists_insert_self (key : α → κ) (weight : α → ω) (x : α) (h : (kept.map key).Nodup) :
    ∃ p ∈ insert key weight x kept, key p = key x ∧ weight x ≤ weight p := by
  by_cases hall : ∀ q ∈ kept, key q = key x → weight q < weight x
  · exact ⟨x, (mem_insert h).mpr (.inr ⟨rfl, hall⟩), rfl, le_refl _⟩
  · push Not at hall
    obtain ⟨p, hp, hkey, hle⟩ := hall
    refine ⟨p, (mem_insert h).mpr (.inl ⟨hp, fun hsame => ?_⟩), hkey, hle⟩
    exact not_lt_of_ge hle hsame.2

/-- An element that goes leaves one of its key that is as heavy. -/
theorem exists_insert (key : α → κ) (weight : α → ω) (x : α) (h : (kept.map key).Nodup)
    (hq : q ∈ kept) :
    ∃ p ∈ insert key weight x kept, key p = key q ∧ weight q ≤ weight p := by
  by_cases hsame : key q = key x ∧ weight q < weight x
  · obtain ⟨p, hp, hkey, hle⟩ := exists_insert_self key weight x h
    exact ⟨p, hp, hkey.trans hsame.1.symm, le_trans (le_of_lt hsame.2) hle⟩
  · exact ⟨q, (mem_insert h).mpr (.inl ⟨hq, hsame⟩), rfl, le_refl _⟩

/-- Some element kept has the key of any other, and is as heavy. -/
theorem exists_keep (key : α → κ) (weight : α → ω) (hq : q ∈ xs) :
    ∃ p ∈ keep key weight xs, key p = key q ∧ weight q ≤ weight p := by
  induction xs using List.reverseRecOn with
  | nil => cases hq
  | append_singleton xs x ih =>
      rw [keep_concat]
      rcases List.mem_append.mp hq with hq | hq
      · obtain ⟨p, hp, hkey, hle⟩ := ih hq
        obtain ⟨r, hr, hrkey, hrle⟩ := exists_insert key weight x (nodup_keep xs) hp
        exact ⟨r, hr, hrkey.trans hkey, le_trans hle hrle⟩
      · cases List.mem_singleton.mp hq
        exact exists_insert_self key weight q (nodup_keep xs)

/-- What is kept leads the list. -/
theorem mem_keep : p ∈ keep key weight xs ↔ Leads key weight xs p := by
  induction xs using List.reverseRecOn generalizing p with
  | nil => exact iff_of_false List.not_mem_nil fun h => List.not_mem_nil (leads_mem h)
  | append_singleton xs x ih =>
      -- all of the list are lighter if those kept of it are
      have hlighter : (∀ q ∈ keep key weight xs, key q = key x → weight q < weight x) ↔
          ∀ q ∈ xs, key q = key x → weight q < weight x := by
        constructor
        · intro h q hq hsame
          obtain ⟨p, hp, hkey, hle⟩ := exists_keep key weight hq
          exact lt_of_le_of_lt hle (h p hp (hkey.trans hsame))
        · exact fun h q hq => h q (leads_mem (ih.mp hq))
      rw [keep_concat, mem_insert (nodup_keep xs), leads_concat, ih, hlighter]

theorem mem_of_mem_keep (h : p ∈ keep key weight xs) : p ∈ xs :=
  leads_mem (mem_keep.mp h)

/-- None of the list outweighs what is kept of its key. -/
theorem le_of_mem_keep (hp : p ∈ keep key weight xs) (hq : q ∈ xs) (hkey : key q = key p) :
    weight q ≤ weight p := by
  obtain ⟨before, after, rfl, hbefore, hafter⟩ := mem_keep.mp hp
  rcases List.mem_append.mp hq with hq | hq
  · exact le_of_lt (hbefore q hq hkey)
  · rcases List.mem_cons.mp hq with rfl | hq
    · exact le_refl _
    · exact hafter q hq hkey

theorem mem_keys_keep {k : κ} : k ∈ (keep key weight xs).map key ↔ k ∈ xs.map key := by
  constructor
  · intro h
    obtain ⟨p, hp, rfl⟩ := List.mem_map.mp h
    exact List.mem_map_of_mem (mem_of_mem_keep hp)
  · intro h
    obtain ⟨q, hq, rfl⟩ := List.mem_map.mp h
    obtain ⟨p, hp, hkey, -⟩ := exists_keep key weight hq
    exact hkey ▸ List.mem_map_of_mem hp

/-- One element is kept for each key. -/
theorem length_keep (xs : List α) :
    (keep key weight xs).length = (xs.map key).dedup.length := by
  have hperm : ((keep key weight xs).map key).Perm (xs.map key).dedup := by
    rw [List.perm_ext_iff_of_nodup (nodup_keep xs) (List.nodup_dedup _)]
    exact fun k => by rw [mem_keys_keep, List.mem_dedup]
  simpa using hperm.length_eq

end Heaviest
