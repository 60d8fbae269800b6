import DarkUI.Minarch.PreviewNative

/-! # The preview in the cropped mode

As much is taken from a surface as the renderer takes from its frame, and what is left is scaled
by as much. Of a surface that is small enough nothing is left, or less than nothing.
-/

namespace DarkUI.Minarch

open Rounding FixedPoint Trace

variable (screen : Screen) (aspect : CoreAspect) (target : Target)
variable {screenScaling : Scaling} (renderer : Renderer) (src : Surface)

/-- The region that is drawn where it is no larger than the surface. -/
def croppedPicture : Region where
  sw := src.width - renderer.srcX * 2
  sh := src.height - renderer.srcY * 2
  rx := target.drawn renderer.dstX
  ry := target.drawn renderer.dstY
  rw := target.drawn ((src.width - renderer.srcX * 2) * renderer.scale)
  rh := target.drawn ((src.height - renderer.srcY * 2) * renderer.scale)

theorem croppedRegion_eq : screen.croppedRegion renderer src (screen.surface target) =
    croppedPicture target renderer src :=
  halved_surface screen target _

/-- What is left of the source is no larger than the surface. -/
def CroppedOn : Prop :=
  target.drawn ((src.width - renderer.srcX * 2) * renderer.scale) ≤ (screen.surface target).width ∧
    target.drawn ((src.height - renderer.srcY * 2) * renderer.scale) ≤
      (screen.surface target).height

instance : Decidable (CroppedOn screen target renderer src) := inferInstanceAs (Decidable (_ ∧ _))

/-- A part of the source at its place. Where no column is left of it, rows that show the same as
the row before are copied nevertheless. -/
structure PlacedFits (region : Region) (dst : Surface) : Prop where
  width_ne : region.rw ≠ 0
  height_ne : region.rh ≠ 0
  drawn : 0 < region.rw → 0 < region.rh →
    OnLine region.rx region.rw dst.width ∧ OnLine region.ry region.rh dst.height
  copied : region.rw < 0 → ∀ k : Nat, k < region.rh.toNat →
    Repeated renderer.srcY region.sh region.rh k →
      Within dst.height (region.ry + k - 1) ∧ Within dst.height (region.ry + k)

/-- What is left between the margins of a line is drawn at another size. -/
structure MarginsSampled (offset drawn size : Int) : Prop where
  shifted : size - offset * 2 < 32768
  counted : position offset (step (size - offset * 2) drawn) drawn < 2147483648
  start : offset < size

/-- What is left of the source is drawn at another size. -/
structure SpreadFits (size : Int × Int) : Prop where
  across : MarginsSampled renderer.srcX size.1 src.width
  down : MarginsSampled renderer.srcY size.2 src.height

/-- What is left of the source is drawn at its place if it is no larger than the surface, and at
the size for the core's aspect if it is. -/
def CroppedFits : Prop :=
  if CroppedOn screen target renderer src then
    PlacedFits renderer (croppedPicture target renderer src) (screen.surface target)
  else SpreadFits renderer src (screen.aspectSize aspect.ratio (screen.surface target))

/-- What is scaled by a whole number is no longer than the result, if it is anything. -/
theorem extent_le {extent scale bound : Int} (hscale : 0 < scale) (hbound : 0 ≤ bound)
    (hle : extent * scale ≤ bound) : extent ≤ bound := by
  rcases Int.le_total extent 0 with hnone | hsome
  · exact hnone.trans hbound
  · exact (le_mul_of_one_le_right hsome hscale).trans hle

/-- A part that is no longer than the screen is sampled inside the source. -/
theorem sampled_part {offset size scale bound : Int} (hoffset : 0 ≤ offset)
    (hhalf : offset * 2 < bound) (hbound : bound ≤ 16384) (hscale : 0 < scale)
    (hle : (size - offset * 2) * scale ≤ bound + 1)
    (hdrawn : 0 < target.drawn ((size - offset * 2) * scale)) :
    Sampled offset (size - offset * 2) (target.drawn ((size - offset * 2) * scale)) size := by
  have hpos : 0 < size - offset * 2 :=
    (mul_pos_iff_of_pos_right hscale).mp (target.pos_of_drawn_pos hdrawn)
  -- the part is no longer than the screen, which keeps the positions in range
  have hextent := extent_le hscale (by omega) hle
  have hcounted := position_lt (le_of_lt hpos) hdrawn
    (show offset + (size - offset * 2) < 32768 by omega)
  exact (sampled_margins_iff hoffset (by omega) hdrawn).mpr ⟨hcounted, by omega⟩

/-- Nothing that is shifted into a position overflows. -/
theorem shifted_part {offset size scale bound : Int} (hoffset : 0 ≤ offset) (hsize : 0 < size)
    (hhalf : offset * 2 < bound) (hbound : bound ≤ 16384) (hscale : 0 < scale)
    (hle : (size - offset * 2) * scale ≤ bound + 1) :
    IsInt ((size - offset * 2) * 65536) ∧ IsInt (offset * 65536) := by
  have hextent := extent_le hscale (by omega) hle
  exact ⟨⟨by omega, by omega⟩, by omega, by omega⟩

theorem sampled_iff_margins {offset drawn size : Int} (hoffset : 0 ≤ offset)
    (hlt : offset < 16384) (hdrawn : 0 < drawn) :
    (IsInt ((size - offset * 2) * 65536) ∧ IsInt (offset * 65536) ∧
      Sampled offset (size - offset * 2) drawn size) ↔ MarginsSampled offset drawn size := by
  rw [sampled_margins_iff hoffset (by omega) hdrawn]
  constructor
  · rintro ⟨hshifted, -, hcounted, hstart⟩
    unfold IsInt at hshifted
    exact ⟨by omega, hcounted, hstart⟩
  · rintro ⟨hshifted, hcounted, hstart⟩
    exact ⟨⟨by omega, by omega⟩, ⟨by omega, by omega⟩, hcounted, hstart⟩

variable {screen target renderer src}
variable (hrenderer : Scaled screen renderer)

section Part

variable (hpart : CroppedOn screen target renderer src) {region : Region}
variable (hregion : croppedPicture target renderer src = region)

include hrenderer hpart hregion

theorem sampled_across (hrw : 0 < region.rw) :
    Sampled renderer.srcX region.sw region.rw src.width := by
  subst hregion
  exact sampled_part target hrenderer.left_nonneg hrenderer.left_lt screen.width_le
    hrenderer.scale_pos ((target.le_of_drawn_le screen).1 hpart.1) hrw

theorem sampled_down (hrh : 0 < region.rh) :
    Sampled renderer.srcY region.sh region.rh src.height := by
  subst hregion
  exact sampled_part target hrenderer.top_nonneg hrenderer.top_lt screen.height_le
    hrenderer.scale_pos ((target.le_of_drawn_le screen).2 hpart.2) hrh

/-- What the loops do where the part is no larger than the destination. -/
theorem safe_loops_placed_iff (hwidth : region.rw ≠ 0) (hheight : region.rh ≠ 0) :
    Safe src (screen.surface target) (loops src renderer.srcX renderer.srcY region.sw region.sh
        region.rx region.ry region.rw region.rh) ↔
      PlacedFits renderer region (screen.surface target) := by
  have hoffset := hrenderer.top_nonneg
  have hdown := sampled_down hrenderer hpart hregion
  rcases lt_or_gt_of_ne hwidth with hrw | hrw
  · -- no pixel is drawn, but rows are copied
    rw [safe_loops_nonpos_iff src _ _ _ _ _ _ _ _ hoffset (le_of_lt hrw)]
    constructor
    · intro h
      exact ⟨hwidth, hheight, fun hpos => by omega, fun _ k hk => (h k hk).2⟩
    · intro hfits k hk
      have hsampled := (sampled_iff_nat _ _ _ _).mp (hdown (by omega)) k hk
      exact ⟨hsampled.1, hfits.copied hrw k hk⟩
  rcases lt_or_gt_of_ne hheight with hrh | hrh
  · -- there is no row
    have hnone : region.rh.toNat = 0 := by omega
    rw [safe_loops_iff src _ _ _ _ _ _ _ _ hoffset, hnone]
    refine iff_of_true (fun k hk => absurd hk (Nat.not_lt_zero k)) ?_
    exact ⟨hwidth, hheight, fun _ hpos => by omega, fun hneg => by omega⟩
  · rw [safe_loops_pos_iff src _ _ _ _ _ _ _ _ hoffset hrw hrh]
    have hsampled := And.intro (sampled_across hrenderer hpart hregion hrw) (hdown hrh)
    constructor
    · rintro ⟨-, ⟨hleft, hright⟩, htop, hbottom⟩
      exact ⟨hwidth, hheight, fun _ _ => ⟨⟨hrw, hleft, hright⟩, hrh, htop, hbottom⟩,
        fun hneg => by omega⟩
    · intro hfits
      obtain ⟨hlineX, hlineY⟩ := hfits.drawn hrw hrh
      exact ⟨hsampled, ⟨hlineX.start_nonneg, hlineX.end_le⟩, hlineY.start_nonneg, hlineY.end_le⟩

end Part

variable (hmode : screen.effective screenScaling = .cropped)

include hmode

theorem plainRegion_cropped : screen.plainRegion (screen.effective screenScaling) renderer src
    (screen.surface target) = croppedPicture target renderer src := by
  rw [hmode]
  exact croppedRegion_eq screen target renderer src

include hrenderer

theorem safe_cropped_placed_iff (hpart : CroppedOn screen target renderer src) :
    PreviewSafe screen aspect target screenScaling renderer src ↔
      PlacedFits renderer (croppedPicture target renderer src) (screen.surface target) := by
  have hregion := region_eq_plain aspect.ratio (plainRegion_cropped hmode)
    (by rw [hmode]; decide) hpart
  obtain ⟨hsw, hox⟩ := shifted_part hrenderer.left_nonneg src.width_pos hrenderer.left_lt
    screen.width_le hrenderer.scale_pos ((target.le_of_drawn_le screen).1 hpart.1)
  obtain ⟨hsh, hoy⟩ := shifted_part hrenderer.top_nonneg src.height_pos hrenderer.top_lt
    screen.height_le hrenderer.scale_pos ((target.le_of_drawn_le screen).2 hpart.2)
  unfold PreviewSafe
  rw [safe_menuScale_iff hregion]
  constructor
  · rintro ⟨-, ⟨hwidth, hheight⟩, -, hloops⟩
    exact (safe_loops_placed_iff hrenderer hpart rfl hwidth hheight).mp hloops
  · intro hfits
    exact ⟨⟨hsw, hsh⟩, ⟨hfits.width_ne, hfits.height_ne⟩, ⟨hox, hoy⟩,
      (safe_loops_placed_iff hrenderer hpart rfl hfits.width_ne hfits.height_ne).mpr hfits⟩

theorem safe_cropped_spread_iff (hpart : ¬CroppedOn screen target renderer src) :
    PreviewSafe screen aspect target screenScaling renderer src ↔
      SpreadFits renderer src (screen.aspectSize aspect.ratio (screen.surface target)) := by
  have hleft_lt := hrenderer.left_lt.trans_le screen.width_le
  have htop_lt := hrenderer.top_lt.trans_le screen.height_le
  have hregion := region_eq_centred aspect.ratio (plainRegion_cropped hmode) (Or.inr hpart)
  obtain ⟨hlineX, hlineY⟩ := onLine_centred (fitsOn_aspectSize screen aspect target)
    (croppedPicture target renderer src)
  have hacross : _ ↔ MarginsSampled _ _ src.width :=
    sampled_iff_margins hrenderer.left_nonneg (by omega) hlineX.pos
  have hdown : _ ↔ MarginsSampled _ _ src.height :=
    sampled_iff_margins hrenderer.top_nonneg (by omega) hlineY.pos
  unfold PreviewSafe
  rw [safe_menuScale_pos_iff hregion hrenderer.top_nonneg hlineX.pos hlineY.pos]
  constructor
  · rintro ⟨⟨hcolumns, hrows⟩, -⟩
    exact ⟨hacross.mp hcolumns, hdown.mp hrows⟩
  · intro hfits
    exact ⟨⟨hacross.mpr hfits.across, hdown.mpr hfits.down⟩, hlineX, hlineY⟩

theorem safe_cropped_iff :
    PreviewSafe screen aspect target screenScaling renderer src ↔
      CroppedFits screen aspect target renderer src := by
  unfold CroppedFits
  split
  next hpart => exact safe_cropped_placed_iff aspect hrenderer hmode hpart
  next hpart => exact safe_cropped_spread_iff aspect hrenderer hmode hpart

omit hrenderer

/-- At no scale nothing is drawn, and a division by zero is the rest. -/
theorem not_safe_cropped (hscale : renderer.scale = 0) :
    ¬PreviewSafe screen aspect target screenScaling renderer src := by
  intro hsafe
  have hnone (n : Int) : target.drawn (n * renderer.scale) = 0 := by
    rw [hscale, mul_zero]
    cases target with
    | backing => rfl
    | preview => rfl
  have hpart : CroppedOn screen target renderer src := by
    unfold CroppedOn
    rw [hnone, hnone]
    exact ⟨le_of_lt (screen.surface target).width_pos, le_of_lt (screen.surface target).height_pos⟩
  have hregion := region_eq_plain aspect.ratio (plainRegion_cropped hmode)
    (by rw [hmode]; decide) hpart
  exact ((safe_menuScale_iff hregion).mp hsafe).2.1.1 (hnone _)

end DarkUI.Minarch
