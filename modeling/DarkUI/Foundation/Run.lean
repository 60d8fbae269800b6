import Mathlib.Logic.Relation

/-! # Runs

The states a machine can be in, when each step may be refused by a condition on the
state and the input and may end in undefined behaviour.
-/

namespace Run

variable {σ ι : Type*} {step : σ → ι → Option σ} {allowed : σ → ι → Prop} {s t : σ}

/-- States reached from `s` by allowed steps. -/
inductive Reaches (step : σ → ι → Option σ) (allowed : σ → ι → Prop) (s : σ) : σ → Prop
  | refl : Reaches step allowed s s
  | tail {t u : σ} {i : ι} :
      Reaches step allowed s t → allowed t i → step t i = some u → Reaches step allowed s u

/-- What every allowed step preserves holds of every state reached. -/
theorem Reaches.invariant {inv : σ → Prop} (hreach : Reaches step allowed s t)
    (hstart : inv s)
    (hstep : ∀ {t u : σ} {i : ι}, inv t → allowed t i → step t i = some u → inv u) :
    inv t := by
  induction hreach with
  | refl => exact hstart
  | tail _ hallowed hnext ih => exact hstep ih hallowed hnext

/-- Fewer steps allowed, fewer states reached. -/
theorem Reaches.mono {allowed' : σ → ι → Prop} (hreach : Reaches step allowed s t)
    (hsub : ∀ t i, allowed t i → allowed' t i) : Reaches step allowed' s t := by
  induction hreach with
  | refl => exact .refl
  | tail _ hallowed hnext ih => exact ih.tail (hsub _ _ hallowed) hnext

/-- The state after the given inputs, as long as every step is allowed and defined. -/
def follow (step : σ → ι → Option σ) (allowed : σ → ι → Bool) : List ι → σ → Option σ
  | [], s => some s
  | i :: rest, s => if allowed s i then (step s i).bind (follow step allowed rest) else none

theorem Reaches.trans {u : σ} (hst : Reaches step allowed s t) (htu : Reaches step allowed t u) :
    Reaches step allowed s u := by
  induction htu with
  | refl => exact hst
  | tail _ hallowed hnext ih => exact ih.tail hallowed hnext

theorem reaches_of_follow {permit : σ → ι → Bool} {inputs : List ι}
    (h : follow step permit inputs s = some t) : Reaches step (fun s i => permit s i) s t := by
  induction inputs generalizing s with
  | nil =>
      cases h
      exact .refl
  | cons i rest ih =>
      unfold follow at h
      split at h
      next hpermit =>
        obtain ⟨m, hstep, hrest⟩ := Option.bind_eq_some_iff.mp h
        have hfirst : Reaches step (fun s i => permit s i) s m := .tail .refl hpermit hstep
        exact hfirst.trans (ih hrest)
      next => cases h

/-- What a computed run shows of its last state is shown of a state reached. -/
theorem exists_reaches_of_follow {permit : σ → ι → Bool} {start : Option σ} {inputs : List ι}
    {p : σ → Bool} (h : (start.bind (follow step permit inputs)).any p = true) :
    ∃ s t, start = some s ∧ Reaches step (fun s i => permit s i) s t ∧ p t = true := by
  cases start with
  | none => cases h
  | some s =>
      cases hrun : follow step permit inputs s with
      | none => simp [hrun] at h
      | some t => exact ⟨s, t, rfl, reaches_of_follow hrun, by simpa [hrun] using h⟩

/-- The property holds of each input in turn, in the state the inputs before it lead to. -/
def Throughout (step : σ → ι → Option σ) (p : σ → ι → Prop) : List ι → σ → Prop
  | [], _ => True
  | i :: rest, s => p s i ∧ ∀ t, step s i = some t → Throughout step p rest t

instance decidableThroughout {step : σ → ι → Option σ} {p : σ → ι → Prop}
    [∀ s i, Decidable (p s i)] : ∀ inputs s, Decidable (Throughout step p inputs s)
  | [], _ => .isTrue trivial
  | i :: rest, s =>
      match h : step s i with
      | none => decidable_of_iff (p s i)
          ⟨fun hp => ⟨hp, fun t ht => absurd (h.symm.trans ht) (by simp)⟩, And.left⟩
      | some t =>
          have : Decidable (Throughout step p rest t) := decidableThroughout rest t
          decidable_of_iff (p s i ∧ Throughout step p rest t)
            ⟨fun ⟨hp, hrest⟩ => ⟨hp, fun u hu => Option.some.inj (h.symm.trans hu) ▸ hrest⟩,
              fun ⟨hp, hrest⟩ => ⟨hp, hrest t h⟩⟩

/-- A property passes to the whole run from every state in which the invariant holds. -/
theorem Throughout.imp {p q : σ → ι → Prop} {inv : σ → Prop} {inputs : List ι}
    (h : Throughout step p inputs s) (hstart : inv s)
    (hstep : ∀ {s t : σ} {i : ι}, inv s → p s i → step s i = some t → inv t)
    (himp : ∀ {s : σ} {i : ι}, inv s → p s i → q s i) : Throughout step q inputs s := by
  induction inputs generalizing s with
  | nil => exact trivial
  | cons i rest ih =>
      obtain ⟨hfirst, hrest⟩ := h
      exact ⟨himp hstart hfirst, fun t ht => ih (hrest t ht) (hstep hstart hfirst ht)⟩

/-- Two properties that agree wherever the invariant holds are the same over a run. -/
theorem Throughout.congr {p q : σ → ι → Prop} {inv : σ → Prop} {inputs : List ι} (hstart : inv s)
    (hstep : ∀ {s t : σ} {i : ι}, inv s → step s i = some t → inv t)
    (hiff : ∀ {s : σ} {i : ι}, inv s → (p s i ↔ q s i)) :
    Throughout step p inputs s ↔ Throughout step q inputs s :=
  ⟨fun h => h.imp hstart (fun hs _ ht => hstep hs ht) fun hs => (hiff hs).mp,
    fun h => h.imp hstart (fun hs _ ht => hstep hs ht) fun hs => (hiff hs).mpr⟩

/-- The property holds of the input after any defined run of the ones before it. -/
theorem Throughout.at_follow {p : σ → ι → Prop} {before after : List ι} {i : ι}
    (h : Throughout step p (before ++ i :: after) s)
    (hrun : follow step (fun _ _ => true) before s = some t) : p t i := by
  induction before generalizing s with
  | nil =>
      cases hrun
      exact h.1
  | cons j rest ih =>
      obtain ⟨m, hstep, hrest⟩ := Option.bind_eq_some_iff.mp hrun
      exact ih (h.2 m hstep) hrest

end Run
