import Mathlib.Data.List.Basic
import Mathlib.Data.List.Nodup
import Mathlib.Tactic.SplitIfs

/-! # Lists kept in order of last use

A bounded list in which a use brings its key to the front, and a new key pushes out the
one used longest ago. It always holds the first distinct keys of the history of uses.
-/

namespace Recency

variable {κ : Type*} [DecidableEq κ]

/-- One use of a key. -/
def touch (cap : Nat) (key : κ) (keys : List κ) : List κ :=
  if key ∈ keys then key :: keys.erase key else key :: keys.take (cap - 1)

/-- The first distinct keys of a history, newest first. -/
def latest (cap : Nat) (history : List κ) : List κ := history.eraseDups.take cap

variable {cap : Nat} {key : κ} {keys history : List κ}

theorem touch_of_not_mem (h : key ∉ keys) : touch cap key keys = key :: keys.take (cap - 1) :=
  if_neg h

theorem touch_append {before after : List κ} (h : key ∉ before) :
    touch cap key (before ++ key :: after) = key :: (before ++ after) := by
  rw [touch, if_pos (by simp), List.erase_append_right _ h, List.erase_cons_head]

theorem eraseDups_filter (p : κ → Bool) :
    ∀ keys : List κ, (keys.filter p).eraseDups = keys.eraseDups.filter p
  | [] => by simp
  | key :: keys => by
      have hshorter : (keys.filter fun other => !other == key).length < keys.length + 1 :=
        Nat.lt_succ_of_le (List.length_filter_le _ _)
      have hrest := eraseDups_filter p (keys.filter fun other => !other == key)
      rw [List.eraseDups_cons, List.filter_cons, List.filter_cons, ← hrest]
      split_ifs with hkeep
      · rw [List.eraseDups_cons, List.filter_comm]
      · have hsame : (keys.filter fun other => !other == key).filter p = keys.filter p := by
          rw [List.filter_filter]
          refine List.filter_congr fun other _ => ?_
          by_cases hother : other = key
          · simp [hother, hkeep]
          · simp [hother]
        rw [hsame]
termination_by keys => keys.length

theorem eraseDups_cons (key : κ) (history : List κ) :
    (key :: history).eraseDups = key :: history.eraseDups.filter (· ≠ key) := by
  rw [List.eraseDups_cons, eraseDups_filter]
  congr 2
  funext other
  simp [beq_eq_decide]

theorem nodup_eraseDups (history : List κ) : history.eraseDups.Nodup := by
  induction history with
  | nil => simp
  | cons key history ih =>
      rw [eraseDups_cons, List.nodup_cons]
      exact ⟨by simp, ih.filter _⟩

theorem eraseDups_of_nodup (h : keys.Nodup) : keys.eraseDups = keys := by
  induction keys with
  | nil => simp
  | cons key keys ih =>
      obtain ⟨hkey, hkeys⟩ := List.nodup_cons.mp h
      rw [eraseDups_cons, ih hkeys, List.filter_eq_self.mpr]
      intro other hother
      simpa using fun heq : other = key => hkey (heq ▸ hother)

theorem nodup_latest : (latest cap history).Nodup :=
  (nodup_eraseDups history).sublist (List.take_sublist _ _)

/-- Without one key, the others keep their places behind it. -/
theorem take_filter_ne (h : keys.Nodup) (cap : Nat) :
    (keys.filter (· ≠ key)).take cap =
      if key ∈ keys.take (cap + 1) then (keys.take (cap + 1)).erase key else keys.take cap := by
  induction keys generalizing cap with
  | nil => simp
  | cons other keys ih =>
      obtain ⟨hother, hkeys⟩ := List.nodup_cons.mp h
      by_cases hsame : other = key
      · subst hsame
        have hfilter : keys.filter (· ≠ other) = keys := by
          rw [List.filter_eq_self]
          intro key hkey
          simpa using fun heq : key = other => hother (heq ▸ hkey)
        rw [List.filter_cons_of_neg (by simp), hfilter]
        simp
      · cases cap with
        | zero => simp [Ne.symm hsame]
        | succ cap =>
            have htail := ih hkeys cap
            simp only [List.take_succ_cons, List.mem_cons, Ne.symm hsame, false_or,
              List.filter_cons, decide_eq_true (show other ≠ key from hsame), if_true] at htail ⊢
            rw [htail]
            split_ifs with hmem
            · rw [List.erase_cons_tail (by simpa using hsame)]
            · rfl

/-- A use keeps the list that of the history. -/
theorem touch_latest (hcap : 0 < cap) :
    touch cap key (latest cap history) = latest cap (key :: history) := by
  obtain ⟨room, rfl⟩ : ∃ room, cap = room + 1 := ⟨cap - 1, by omega⟩
  rw [latest, latest, eraseDups_cons, List.take_succ_cons,
    take_filter_ne (nodup_eraseDups history), touch]
  split_ifs with hmem
  · rfl
  · simp [List.take_take]

/-- Any run of uses. -/
theorem foldl_touch_latest (hcap : 0 < cap) (uses history : List κ) :
    uses.foldl (fun keys key => touch cap key keys) (latest cap history) =
      latest cap (uses.reverse ++ history) := by
  induction uses generalizing history with
  | nil => rfl
  | cons key uses ih =>
      rw [List.foldl_cons, touch_latest hcap, ih]
      simp

end Recency
