import DarkUI.Boot.Rg35xxLaws
import DarkUI.Boot.Rg35xxplus
import Mathlib.Tactic.SplitIfs

/-! # When an update archive is removed

On an RG35XXPLUS nothing is left from one boot to the next but the archive itself, so what the
boot that removes it has copied is all there is to show. The two platforms together.
-/

namespace DarkUI.Boot

open Run

namespace Rg35xxplus.Console

variable {α : Type*} {s t : Console α}

/-- The `dmenu.bin` of the release is in place. -/
structure Finished (s : Console α) (release : Release installed α) : Prop where
  unzipped : s.unzipped = true
  dmenu : s.dmenu = release.files "dmenu.bin"

/-- The zip is removed only when the boot files of its release are in place. -/
def Kept (s : Console α) : Prop :=
  ∀ release input t, s.zip = some release → s.step input = some t → t.zip = none →
    s.Finished release

/-- What is behind in the boot of this stage. -/
def Sound (s : Console α) : Prop :=
  match s.stage with
  | .off | .unzip | .launch => True
  | .dmenu => s.unzipped = true ∧ ∃ release, s.zip = some release ∧
      s.dat "dmenu.bin" = release.files "dmenu.bin"
  | .cube | .rm => ∃ release, s.zip = some release ∧ s.Finished release

theorem Sound.of_stage {s : Console α} (h : s.stage = .off ∨ s.stage = .unzip ∨ s.stage = .launch) :
    s.Sound := by
  unfold Sound
  rcases h with h | h | h
  all_goals
    rw [h]
    trivial

theorem Sound.cp (h : s.Sound) {outcome : Cp α} (hstep : s.step (.cp outcome) = some t) :
    t.Sound := by
  dsimp only [step] at hstep
  split at hstep
  next hstage =>
    unfold Sound at h
    rw [hstage] at h
    obtain ⟨hunzipped, release, hzip, hdat⟩ := h
    obtain ⟨copy, hcopy, rfl⟩ := Option.map_eq_some_iff.mp hstep
    cases outcome with
    | failed left => exact Sound.of_stage (Or.inr (Or.inr rfl))
    | copied =>
        obtain ⟨content, hcontent, rfl⟩ := Option.map_eq_some_iff.mp hcopy
        exact ⟨release, hzip, hunzipped, hcontent.symm.trans hdat⟩
  next => cases hstep

theorem Sound.removeCube (h : s.Sound) {cubeLeft userdataLeft : Bool} {status : Option Bool}
    (hstep : s.step (.cube cubeLeft userdataLeft status) = some t) : t.Sound := by
  dsimp only [step] at hstep
  split at hstep
  next hstage =>
    unfold Sound at h
    rw [hstage] at h
    obtain ⟨release, hzip, hfinished⟩ := h
    split at hstep
    next =>
      cases hstep
      exact ⟨release, hzip, hfinished.unzipped, hfinished.dmenu⟩
    next =>
      split at hstep
      next =>
        cases hstep
        exact ⟨release, hzip, hfinished.unzipped, hfinished.dmenu⟩
      next =>
        cases hstep
        rcases status with _ | _ | _
        · exact Sound.of_stage (Or.inl rfl)
        · exact Sound.of_stage (Or.inr (Or.inr rfl))
        · exact ⟨release, hzip, hfinished.unzipped, hfinished.dmenu⟩
  next => cases hstep

theorem step_insertZip {release : Release installed α}
    (hstep : s.step (.insertZip release) = some t) :
    s.stage = .off ∧ t = { s with zip := some release } := by
  dsimp only [Console.step] at hstep
  split at hstep
  next hoff => exact ⟨hoff, (Option.some.inj hstep).symm⟩
  next => cases hstep

theorem step_power (hstep : s.step .power = some t) :
    t = { s with
      unzipped := false
      stage := if s.zip.isSome then .unzip else .launch } := by
  dsimp only [Console.step] at hstep
  split at hstep
  next => exact (Option.some.inj hstep).symm
  next => cases hstep

theorem step_unzip {outcome : Unzip α} (hstep : s.step (.unzip outcome) = some t) :
    ∃ release, s.zip = some release ∧ t = { s with
      dat := release.unzip s.dat outcome
      unzipped := outcome.succeeds
      stage := if outcome.succeeds then .dmenu else .launch } := by
  dsimp only [Console.step] at hstep
  split at hstep
  next release hstage hzip => exact ⟨release, hzip, (Option.some.inj hstep).symm⟩
  next => cases hstep

theorem step_rm {succeeds : Bool} (hstep : s.step (.rm succeeds) = some t) :
    s.stage = .rm ∧ t = { s with zip := if succeeds then none else s.zip }.setStage .launch := by
  dsimp only [Console.step] at hstep
  split at hstep
  next hstage => exact ⟨hstage, (Option.some.inj hstep).symm⟩
  next => cases hstep

theorem Sound.step (h : s.Sound) {input : BootInput α} (hstep : s.step input = some t) :
    t.Sound := by
  cases input with
  | insertZip release =>
      obtain ⟨hoff, rfl⟩ := step_insertZip hstep
      exact Sound.of_stage (Or.inl hoff)
  | power =>
      rw [step_power hstep]
      apply Sound.of_stage
      cases s.zip with
      | none => exact Or.inr (Or.inr rfl)
      | some release => exact Or.inr (Or.inl rfl)
  | unzip outcome =>
      obtain ⟨release, hzip, rfl⟩ := step_unzip hstep
      cases outcome with
      | failed left => exact Sound.of_stage (Or.inr (Or.inr rfl))
      | extracted =>
          -- the release is complete, so its menu is what has been extracted
          obtain ⟨content, hcontent⟩ := Option.isSome_iff_exists.mp
            (release.complete "dmenu.bin" (by decide))
          refine ⟨rfl, release, hzip, ?_⟩
          exact (Release.unzip_extracted hcontent).trans hcontent.symm
  | cp outcome => exact h.cp hstep
  | cube cubeLeft userdataLeft status => exact h.removeCube hstep
  | rm succeeds =>
      obtain ⟨-, rfl⟩ := step_rm hstep
      exact Sound.of_stage (Or.inr (Or.inr rfl))
  | powerCut =>
      cases hstep
      exact Sound.of_stage (Or.inl rfl)

theorem cp_zip {outcome : Cp α} (hstep : s.step (.cp outcome) = some t) : t.zip = s.zip := by
  dsimp only [Console.step] at hstep
  split at hstep
  next =>
    obtain ⟨copy, hcopy, rfl⟩ := Option.map_eq_some_iff.mp hstep
    rcases outcome with _ | (_ | left)
    · obtain ⟨content, -, rfl⟩ := Option.map_eq_some_iff.mp hcopy
      rfl
    · cases hcopy
      rfl
    · cases hcopy
      rfl
  next => cases hstep

theorem cube_zip {cubeLeft userdataLeft : Bool} {status : Option Bool}
    (hstep : s.step (.cube cubeLeft userdataLeft status) = some t) : t.zip = s.zip := by
  dsimp only [Console.step] at hstep
  split at hstep
  next =>
    split_ifs at hstep
    all_goals
      cases hstep
      rfl
  next => cases hstep

/-- Only `rm` removes the zip. -/
theorem stage_of_removed {input : BootInput α} (hzip : s.zip.isSome)
    (hstep : s.step input = some t) (hremoved : t.zip = none) : s.stage = .rm := by
  have hsame : t.zip ≠ s.zip := by
    rw [hremoved]
    exact fun hnone => by simp [← hnone] at hzip
  -- every other step either is refused or keeps the zip as it is
  cases input with
  | insertZip release =>
      obtain ⟨-, rfl⟩ := step_insertZip hstep
      cases hremoved
  | power => exact absurd (by rw [step_power hstep]) hsame
  | unzip outcome =>
      obtain ⟨release, -, rfl⟩ := step_unzip hstep
      exact absurd rfl hsame
  | cp outcome => exact absurd (cp_zip hstep) hsame
  | cube cubeLeft userdataLeft status => exact absurd (cube_zip hstep) hsame
  | rm succeeds => exact (step_rm hstep).1
  | powerCut =>
      cases hstep
      exact absurd rfl hsame

theorem Sound.keepsZip (h : s.Sound) : s.Kept := by
  intro release input t hzip hstep hremoved
  have hstage := stage_of_removed (by rw [hzip]; rfl) hstep hremoved
  unfold Sound at h
  rw [hstage] at h
  obtain ⟨other, hother, hfinished⟩ := h
  cases hzip.symm.trans hother
  exact hfinished

theorem reaches_sound {dat : String → Option α} {dmenu : Option α} {cube cubeUserdata : Bool}
    (hreach : Reaches step (fun _ _ => True) (start dat dmenu cube cubeUserdata) s) : s.Sound :=
  hreach.invariant (Sound.of_stage (Or.inl rfl)) fun h _ hstep => h.step hstep

end Rg35xxplus.Console

section Platforms

variable {α σ : Type*} [DecidableEq σ]

/-- On both platforms, where the steps on an RG35XX are recoverable. -/
theorem zip_kept_until_finished (md5sum : α → σ) :
    (∀ dat misc (s : Rg35xx.Console α),
      Reaches (Rg35xx.Console.step md5sum) (Rg35xx.Console.Recoverable md5sum)
          (Rg35xx.Console.start dat misc) s →
        s.Kept md5sum ∧ ∀ input t, s.step md5sum input = some t →
          (s.Recoverable md5sum input ↔
            ∀ u, Reaches (Rg35xx.Console.step md5sum) (Rg35xx.Console.Recoverable md5sum) t u →
              u.Kept md5sum)) ∧
      ∀ dat dmenu cube cubeUserdata (s : Rg35xxplus.Console α),
        Reaches Rg35xxplus.Console.step (fun _ _ => True)
            (Rg35xxplus.Console.start dat dmenu cube cubeUserdata) s →
          s.Kept :=
  ⟨fun _ _ _ hreach => Rg35xx.Console.zip_kept_iff hreach,
    fun _ _ _ _ _ hreach => (Rg35xxplus.Console.reaches_sound hreach).keepsZip⟩

end Platforms

namespace Rg35xx

/-- No copy fails. -/
def BootInput.copies {α : Type*} : BootInput α → Bool
  | .cp (.failed _) => false
  | _ => true

namespace Console

/-- Every file of this release is its number. -/
def numbered (number : Nat) : Release installed Nat where
  files name := if name ∈ installed ∨ name = "charging.png" then some number else none
  complete name hname := by simp [hname]

/-- The release 1 is installed, with the zip still to be removed. -/
def installing : List (BootInput Nat) :=
  [.insertZip (numbered 1), .power, .unzip .extracted, .test, .cp .copied, .cp .copied,
    .cp .copied, .cp .copied, .touch true, .reboot none, .power, .unzip .extracted, .test]

/-- The release 2 comes, and the power goes while its logo is copied. -/
def updating : List (BootInput Nat) :=
  [.rm true, .powerCut, .insertZip (numbered 2), .power, .unzip .extracted, .test, .cp .copied,
    .cp .copied, .cp (.failed (some 0)), .powerCut, .power, .unzip .extracted, .test]

theorem recoverable_of_copies {s : Console Nat} {input : BootInput Nat} (h : input.copies) :
    s.Recoverable id input := by
  cases input with
  | cp outcome =>
      cases outcome with
      | copied => trivial
      | failed left => cases h
  | test => exact fun _ _ _ _ a b _ _ hsum => hsum
  | insertZip | power | unzip | touch | reboot | rm | powerCut => trivial

theorem zip_kept_until_finished_installing :
    ∃ s : Console Nat, s.stage = .rm ∧ s.Kept id := by
  have hrun : ((some (start (fun _ => none) ∅)).bind
      (follow (Console.step id) (fun _ input => input.copies) installing)).any
        (fun s => s.stage == .rm) = true := by
    decide +kernel
  obtain ⟨s₀, s, hstart, hreach, hstage⟩ := exists_reaches_of_follow hrun
  cases hstart
  have hrecoverable : Reaches (Console.step id) (Recoverable id) (start (fun _ => none) ∅) s :=
    hreach.mono fun _ _ => recoverable_of_copies
  exact ⟨s, beq_iff_eq.mp hstage, ((zip_kept_until_finished id).1 _ _ s hrecoverable).1⟩

/-- The next boot after a logo that was cut short removes the zip. -/
theorem zip_lost : ¬((∀ dat misc (s : Console Nat),
      Reaches (Console.step id) (fun _ _ => True) (start dat misc) s → s.Kept id) ∧
    ∀ dat dmenu cube cubeUserdata (s : Rg35xxplus.Console Nat),
      Reaches Rg35xxplus.Console.step (fun _ _ => True)
        (Rg35xxplus.Console.start dat dmenu cube cubeUserdata) s → s.Kept) := by
  rintro ⟨hall, -⟩
  have hrun : ((some (start (fun _ => none) ∅)).bind
      (follow (Console.step id) (fun _ _ => true) (installing ++ updating))).any
        (fun s => s.stage == .rm && s.logoWritten && (s.zip.any fun release =>
          s.file "boot_logo.bmp.gz" != release.files "boot_logo.bmp.gz")) = true := by
    decide +kernel
  obtain ⟨s₀, s, hstart, hreach, hlost⟩ := exists_reaches_of_follow hrun
  cases hstart
  simp only [Bool.and_eq_true, beq_iff_eq, Option.any_eq_true, bne_iff_ne] at hlost
  obtain ⟨⟨hstage, hwritten⟩, release, hzip, htorn⟩ := hlost
  have hkept := hall _ _ s (hreach.mono fun _ _ _ => trivial)
  exact htorn (((kept_iff hstage hzip).mp hkept).logo hwritten)

end Console

end Rg35xx

end DarkUI.Boot
