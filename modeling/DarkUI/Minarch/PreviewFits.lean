import DarkUI.Minarch.PreviewCropped

/-! # When the preview stays on its surfaces

The renderer may have been chosen in another mode than the one that is set by now. In the mode it
was chosen in, a surface of any size is drawn safely unless the renderer crops, or nothing is
left of a picture that is halved.
-/

namespace DarkUI.Minarch

open Rounding FixedPoint Trace

section Fits

variable (screen : Screen) (aspect : CoreAspect) (target : Target) (screenScaling : Scaling)

/-- What the renderer and the source must be for a preview in the mode that is set. -/
def PreviewFits (renderer : Renderer) (src : Surface) : Prop :=
  match screen.effective screenScaling with
  | .fullscreen =>
      WholeFits renderer src ((screen.surface target).width, (screen.surface target).height)
  | .aspect => WholeFits renderer src (screen.aspectSize aspect.ratio (screen.surface target))
  | .native => NativeFits screen aspect target renderer src
  | .cropped => renderer.scale ≠ 0 ∧ CroppedFits screen aspect target renderer src

theorem previewSafe_iff (choice : Choice) (src : Surface) :
    PreviewSafe screen aspect target screenScaling (screen.renderer choice) src ↔
      PreviewFits screen aspect target screenScaling (screen.renderer choice) src := by
  have hrenderer :
      Scaled screen (screen.renderer choice) ∨ Cropped screen (screen.renderer choice) :=
    scaled_or_cropped
  have hoffset := offsets_nonneg hrenderer
  unfold PreviewFits
  split
  next hmode => exact safe_fullscreen_iff screen aspect target _ src hmode hoffset
  next hmode => exact safe_aspect_iff screen aspect target _ src hmode hoffset
  next hmode => exact safe_native_iff aspect target src hrenderer hmode
  next hmode =>
    rcases hrenderer with hscaled | hcropped
    -- a renderer at a scale crops as much as the surface allows
    · rw [and_iff_right (ne_of_gt hscaled.scale_pos)]
      exact safe_cropped_iff aspect hscaled hmode
    · refine iff_of_false (not_safe_cropped aspect hmode hcropped.scale_eq) fun h => ?_
      exact h.1 hcropped.scale_eq

end Fits

/-! ## The mode the renderer was chosen in -/

section Own

variable {screen : Screen} (aspect : CoreAspect) (target : Target) {choice : Choice}
variable (src : Surface)

variable {src}

section Native

variable (hmode : screen.effective choice.scaling = .native)
variable (hframe : OnScreen screen.toPanel choice.frame)

include hmode hframe

end Native

end Own

/-- A saved picture of 320 by 240 is read up to the column 638 while the frame is 640 by 512, of
which the renderer keeps all columns. -/
theorem saved_picture_read_past :
    ¬∀ (screen : Screen) (aspect : CoreAspect) (target : Target) (screenScaling : Scaling)
      (choice : Choice) (src : Surface),
      PreviewSafe screen aspect target screenScaling (screen.renderer choice) src := by
  intro h
  have hsafe := h rg35xxScreen ⟨4 / 3, by norm_num, by norm_num⟩ .preview .native
    ⟨.native, ⟨4 / 3, by norm_num, by norm_num⟩, ⟨640, 512, by decide, by decide⟩, 1280⟩
    ⟨320, 240, 320, by decide, by decide, le_rfl⟩
  rw [safe_native_iff _ _ _ scaled_or_cropped rfl, NativeFits, if_pos (by decide)] at hsafe
  exact absurd hsafe.2.across.pixel (by decide)

end DarkUI.Minarch
