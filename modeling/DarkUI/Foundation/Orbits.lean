import Mathlib.Data.Fintype.Pigeonhole
import Mathlib.Data.Set.Finite.Basic
import Mathlib.Logic.Relation

/-! # Following a partial function

A loop whose state decides where it goes on, or that it stops. Among finitely many states
it stops unless it comes back to one.
-/

namespace Orbits

variable {α : Type*} {next : α → Option α} {a b : α}

/-- The state after a number of steps, if the loop is still going on. -/
def after (next : α → Option α) : Nat → α → Option α
  | 0, a => some a
  | n + 1, a => (after next n a).bind next

def Ends (next : α → Option α) (a : α) : Prop := ∃ n, after next n a = none

/-- One state leads to another. -/
def Leads (next : α → Option α) (a b : α) : Prop := next a = some b

/-- The states that the loop comes to. -/
abbrev Reaches (next : α → Option α) : α → α → Prop := Relation.ReflTransGen (Leads next)

theorem after_of_leads (h : Leads next a b) (n : Nat) : after next (n + 1) a = after next n b := by
  induction n with
  | zero =>
      unfold after
      exact h
  | succ n ih =>
      rw [after, ih]
      rfl

theorem Ends.of_leads (h : Ends next a) (hleads : Leads next a b) : Ends next b := by
  obtain ⟨n, hn⟩ := h
  cases n with
  | zero => cases hn
  | succ n => exact ⟨n, (after_of_leads hleads n).symm.trans hn⟩

theorem Ends.of_reaches (h : Ends next a) (hreach : Reaches next a b) : Ends next b := by
  induction hreach with
  | refl => exact h
  | tail _ hleads ih => exact ih.of_leads hleads

/-- A loop that ends does not come back to where it starts. -/
theorem Ends.not_cycle (h : Ends next a) : ¬ Relation.TransGen (Leads next) a a := by
  obtain ⟨n, hn⟩ := h
  induction n generalizing a with
  | zero => cases hn
  | succ n ih =>
      intro hcycle
      obtain ⟨c, hfirst, hrest⟩ := Relation.TransGen.head'_iff.mp hcycle
      rw [after_of_leads hfirst] at hn
      exact ih hn (Relation.TransGen.tail' hrest hfirst)

theorem reaches_after {n : Nat} (h : after next n a = some b) : Reaches next a b := by
  induction n generalizing b with
  | zero =>
      cases h
      exact .refl
  | succ n ih =>
      obtain ⟨c, hc, hleads⟩ := Option.bind_eq_some_iff.mp h
      exact (ih hc).tail hleads

/-- A loop stops at one state only. -/
theorem eq_of_reaches {c : α} (hb : Reaches next a b) (hstop : next b = none)
    (hc : Reaches next a c) (hstop' : next c = none) : b = c := by
  induction hb using Relation.ReflTransGen.head_induction_on with
  | refl =>
      obtain rfl | ⟨d, hleads, -⟩ := Relation.ReflTransGen.cases_head hc
      · rfl
      · exact absurd (hstop.symm.trans hleads) (by simp)
  | head hleads _ ih =>
      obtain rfl | ⟨d, hleads', hrest⟩ := Relation.ReflTransGen.cases_head hc
      · exact absurd (hstop'.symm.trans hleads) (by simp)
      · obtain rfl := Option.some.inj (hleads.symm.trans hleads')
        exact ih hrest

theorem cycle_of_after {m n : Nat} (hmn : m < n) (hm : after next m a = some b)
    (hn : after next n a = some b) : Relation.TransGen (Leads next) b b := by
  have hsteps (k : Nat) : ∀ c, after next (m + 1 + k) a = some c →
      Relation.TransGen (Leads next) b c := by
    induction k with
    | zero =>
        intro c hc
        obtain ⟨d, hd, hleads⟩ := Option.bind_eq_some_iff.mp hc
        rw [hm, Option.some.injEq] at hd
        subst hd
        exact .single hleads
    | succ k ih =>
        intro c hc
        obtain ⟨d, hd, hleads⟩ := Option.bind_eq_some_iff.mp hc
        exact (ih d hd).tail hleads
  obtain ⟨k, rfl⟩ := Nat.exists_eq_add_of_lt hmn
  exact hsteps k b (by rw [← hn]; congr 1; omega)

/-- Where only finitely many states lead on, the loop ends just when it comes to no state
that leads back to itself. -/
theorem ends_iff {states : Set α} (hfinite : states.Finite)
    (hstates : ∀ {a b}, Leads next a b → a ∈ states) :
    Ends next a ↔ ∀ b, Reaches next a b → ¬ Relation.TransGen (Leads next) b b := by
  constructor
  · exact fun h b hreach => (h.of_reaches hreach).not_cycle
  · intro hcycle
    by_contra hends
    have hgoes (n : Nat) : ∃ b, after next n a = some b :=
      Option.ne_none_iff_exists'.mp fun hnone => hends ⟨n, hnone⟩
    choose state hstate using hgoes
    have hmem (n : Nat) : state n ∈ states := by
      have hnext := hstate (n + 1)
      rw [after, hstate n] at hnext
      exact hstates hnext
    have := hfinite.to_subtype
    obtain ⟨m, n, hne, heq⟩ := Finite.exists_ne_map_eq_of_infinite
      fun n => (⟨state n, hmem n⟩ : states)
    have hsame : state m = state n := congrArg Subtype.val heq
    rcases Nat.lt_or_gt_of_ne hne with hlt | hlt
    · exact hcycle _ (reaches_after (hstate m))
        (cycle_of_after hlt (hstate m) (hsame ▸ hstate n))
    · exact hcycle _ (reaches_after (hstate n))
        (cycle_of_after hlt (hstate n) (hsame ▸ hstate m))

end Orbits
