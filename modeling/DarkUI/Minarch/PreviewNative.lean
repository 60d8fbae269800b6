import DarkUI.Minarch.PreviewGeometry

/-! # The preview of a whole surface

The surface is drawn as a whole in the aspect and the fullscreen mode, and in the native mode
where the renderer has a scale. Where it has none as much is drawn as the renderer keeps.
-/

namespace DarkUI.Minarch

open Rounding FixedPoint Trace

variable (screen : Screen) (aspect : CoreAspect) (target : Target)
variable {screenScaling : Scaling} (renderer : Renderer) (src : Surface)

/-! ## The aspect and the fullscreen mode -/

/-- All of the source is drawn at a size. -/
def WholeFits (size : Int × Int) : Prop := PictureFits src renderer (src.width, src.height) size

theorem safe_fullscreen_iff (hmode : screen.effective screenScaling = .fullscreen)
    (hoffset : 0 ≤ renderer.srcX ∧ 0 ≤ renderer.srcY) :
    PreviewSafe screen aspect target screenScaling renderer src ↔
      WholeFits renderer src
        ((screen.surface target).width, (screen.surface target).height) := by
  have hplain : screen.plainRegion (screen.effective screenScaling) renderer src
      (screen.surface target) = ⟨src.width, src.height, 0, 0, (screen.surface target).width,
        (screen.surface target).height⟩ := by
    rw [hmode]
    rfl
  have hregion := region_eq_plain aspect.ratio hplain (by rw [hmode]; decide) ⟨le_rfl, le_rfl⟩
  exact safe_picture_iff hregion hoffset ⟨src.width_pos, src.height_pos⟩
    ⟨⟨(screen.surface target).width_pos, le_rfl, (zero_add _).le⟩,
      (screen.surface target).height_pos, le_rfl, (zero_add _).le⟩

theorem safe_aspect_iff (hmode : screen.effective screenScaling = .aspect)
    (hoffset : 0 ≤ renderer.srcX ∧ 0 ≤ renderer.srcY) :
    PreviewSafe screen aspect target screenScaling renderer src ↔
      WholeFits renderer src (screen.aspectSize aspect.ratio (screen.surface target)) := by
  have hplain : screen.plainRegion (screen.effective screenScaling) renderer src
      (screen.surface target) = ⟨src.width, src.height, 0, 0, (screen.surface target).width,
        (screen.surface target).height⟩ := by
    rw [hmode]
    rfl
  have hregion := region_eq_centred aspect.ratio hplain (Or.inl hmode)
  exact safe_picture_iff hregion hoffset ⟨src.width_pos, src.height_pos⟩
    (onLine_centred (fitsOn_aspectSize screen aspect target) _)

/-! ## The native mode -/

/-- How much of the source is drawn. -/
def nativeExtent : Int × Int :=
  if renderer.scale ≠ 0 then (src.width, src.height)
  else (renderer.srcW - renderer.srcX * 2, renderer.srcH - renderer.srcY * 2)

/-- The size of the picture on the screen. -/
def nativeSize : Int × Int :=
  if renderer.scale ≠ 0 then (renderer.srcW * renderer.scale, renderer.srcH * renderer.scale)
  else (renderer.srcW - renderer.srcX * 2, renderer.srcH - renderer.srcY * 2)

/-- The size on a surface. -/
def nativeDrawn : Int × Int :=
  (target.drawn (nativeSize renderer).1, target.drawn (nativeSize renderer).2)

/-- The picture is no larger than the surface. -/
def NativeOn : Prop :=
  (nativeDrawn target renderer).1 ≤ (screen.surface target).width ∧
    (nativeDrawn target renderer).2 ≤ (screen.surface target).height

instance : Decidable (NativeOn screen target renderer) := inferInstanceAs (Decidable (_ ∧ _))

/-- A picture that is no larger than the surface is drawn where the renderer has it, and has to
be something and to be on the surface. A larger one is drawn at the size for the core's
aspect. -/
def NativeFits : Prop :=
  if NativeOn screen target renderer then
    (OnLine (target.drawn renderer.dstX) (nativeDrawn target renderer).1
        (screen.surface target).width ∧
      OnLine (target.drawn renderer.dstY) (nativeDrawn target renderer).2
        (screen.surface target).height) ∧
      PictureFits src renderer (nativeExtent renderer src) (nativeDrawn target renderer)
  else PictureFits src renderer (nativeExtent renderer src)
    (screen.aspectSize aspect.ratio (screen.surface target))

/-- The region that is drawn where it is no larger than the surface. -/
def nativePicture : Region where
  sw := (nativeExtent renderer src).1
  sh := (nativeExtent renderer src).2
  rx := target.drawn renderer.dstX
  ry := target.drawn renderer.dstY
  rw := (nativeDrawn target renderer).1
  rh := (nativeDrawn target renderer).2

theorem nativeRegion_eq : screen.nativeRegion renderer src (screen.surface target) =
    nativePicture target renderer src := by
  unfold Panel.nativeRegion nativePicture nativeDrawn nativeExtent nativeSize
  split
  · exact halved_surface screen target _
  · exact halved_surface screen target _

variable {screen renderer}
variable (hrenderer : Scaled screen renderer ∨ Cropped screen renderer)

include hrenderer

theorem nativeExtent_pos :
    0 < (nativeExtent renderer src).1 ∧ 0 < (nativeExtent renderer src).2 := by
  unfold nativeExtent
  rcases hrenderer with hscaled | hcropped
  · rw [if_pos (ne_of_gt hscaled.scale_pos)]
    exact ⟨src.width_pos, src.height_pos⟩
  · rw [if_neg (not_not.mpr hcropped.scale_eq)]
    exact ⟨hcropped.width_pos, hcropped.height_pos⟩

theorem nativeSize_pos : 0 < (nativeSize renderer).1 ∧ 0 < (nativeSize renderer).2 := by
  unfold nativeSize
  rcases hrenderer with hscaled | hcropped
  · rw [if_pos (ne_of_gt hscaled.scale_pos)]
    exact ⟨mul_pos hscaled.width_pos hscaled.scale_pos,
      mul_pos hscaled.height_pos hscaled.scale_pos⟩
  · rw [if_neg (not_not.mpr hcropped.scale_eq)]
    exact ⟨hcropped.width_pos, hcropped.height_pos⟩

theorem safe_native_iff (hmode : screen.effective screenScaling = .native) :
    PreviewSafe screen aspect target screenScaling renderer src ↔
      NativeFits screen aspect target renderer src := by
  have hoffset := offsets_nonneg hrenderer
  have hextent := nativeExtent_pos src hrenderer
  obtain ⟨hwidth, hheight⟩ := nativeSize_pos hrenderer
  have hplain : screen.plainRegion (screen.effective screenScaling) renderer src
      (screen.surface target) = nativePicture target renderer src := by
    rw [hmode]
    exact nativeRegion_eq screen target renderer src
  unfold NativeFits
  split
  next hfits =>
    have hregion := region_eq_plain aspect.ratio hplain (by rw [hmode]; decide) hfits
    exact safe_placed_iff hregion hoffset hextent
      ⟨target.drawn_nonneg (le_of_lt hwidth), target.drawn_nonneg (le_of_lt hheight)⟩
  next hfits =>
    have hregion := region_eq_centred aspect.ratio hplain (Or.inr hfits)
    exact safe_picture_iff hregion hoffset hextent
      (onLine_centred (fitsOn_aspectSize screen aspect target) _)

end DarkUI.Minarch
