import DarkUI.Minarch.PreviewDraw
import DarkUI.Minarch.RendererLaws

/-! # Where the preview stays on its surfaces

A surface is drawn as a whole where the mode is fullscreen or aspect, and where the frame of the
renderer fits the screen. A crop is taken from the surface as the renderer took it from its own
frame, which may be of another size.
-/

namespace DarkUI.Minarch

open Rounding FixedPoint Trace

/-- A screen as the platforms have them. -/
structure Screen extends Panel where
  width_even : deviceWidth % 2 = 0
  height_even : deviceHeight % 2 = 0
  width_ge : 64 ≤ deviceWidth
  height_ge : 64 ≤ deviceHeight
  width_le : deviceWidth ≤ 16384
  height_le : deviceHeight ≤ 16384

def rg35xxScreen : Screen where
  toPanel := rg35xxPanel
  width_even := rfl
  height_even := rfl
  width_ge := by decide
  height_ge := by decide
  width_le := by decide
  height_le := by decide

/-- An aspect ratio that is not extreme. -/
structure CoreAspect where
  ratio : ℚ
  quarter_le : 1 / 4 ≤ ratio
  le_four : ratio ≤ 4

theorem CoreAspect.ratio_pos (aspect : CoreAspect) : 0 < aspect.ratio := by
  have := aspect.quarter_le
  linarith

variable (screen : Screen)

/-- What is drawn on: the surface behind the menu, or the one for a saved state. -/
inductive Target
  | backing
  | preview
  deriving DecidableEq, Repr

namespace Screen

theorem lit : screen.Lit := ⟨by have := screen.width_ge; omega, by have := screen.height_ge; omega⟩

def backing : Surface where
  width := screen.deviceWidth
  height := screen.deviceHeight
  pitch := screen.deviceWidth
  width_pos := screen.lit.width_pos
  height_pos := screen.lit.height_pos
  width_le_pitch := le_rfl

def preview : Surface where
  width := screen.deviceWidth.tdiv 2
  height := screen.deviceHeight.tdiv 2
  pitch := screen.deviceWidth.tdiv 2
  width_pos := by
    have := screen.width_ge
    rw [Int.tdiv_eq_ediv_of_nonneg (by omega)]
    omega
  height_pos := by
    have := screen.height_ge
    rw [Int.tdiv_eq_ediv_of_nonneg (by omega)]
    omega
  width_le_pitch := le_rfl

def surface : Target → Surface
  | .backing => screen.backing
  | .preview => screen.preview

theorem preview_width : screen.preview.width * 2 = screen.deviceWidth := by
  have hge := screen.width_ge
  have heven := screen.width_even
  change screen.deviceWidth.tdiv 2 * 2 = _
  rw [Int.tdiv_eq_ediv_of_nonneg (by omega)]
  omega

theorem preview_height : screen.preview.height * 2 = screen.deviceHeight := by
  have hge := screen.height_ge
  have heven := screen.height_even
  change screen.deviceHeight.tdiv 2 * 2 = _
  rw [Int.tdiv_eq_ediv_of_nonneg (by omega)]
  omega

/-- Both surfaces have the shape of the screen, and are not small. -/
theorem surface_shape (target : Target) :
    (screen.surface target).width * screen.deviceHeight =
        screen.deviceWidth * (screen.surface target).height ∧
      32 ≤ (screen.surface target).width ∧ 32 ≤ (screen.surface target).height := by
  have hwidth := screen.width_ge
  have hheight := screen.height_ge
  cases target with
  | backing =>
      refine ⟨rfl, ?_, ?_⟩
      · change 32 ≤ screen.deviceWidth
        omega
      · change 32 ≤ screen.deviceHeight
        omega
  | preview =>
      have hw := screen.preview_width
      have hh := screen.preview_height
      change screen.preview.width * screen.deviceHeight =
        screen.deviceWidth * screen.preview.height ∧
          32 ≤ screen.preview.width ∧ 32 ≤ screen.preview.height
      refine ⟨?_, by omega, by omega⟩
      rw [← hw, ← hh]
      ring

end Screen

/-- A length on the screen as it is on a surface. -/
def Target.drawn : Target → Int → Int
  | .backing, n => n
  | .preview, n => n.tdiv 2

namespace Target

variable (target : Target)

theorem drawn_nonneg {n : Int} (hn : 0 ≤ n) : 0 ≤ target.drawn n := by
  cases target with
  | backing => exact hn
  | preview => exact Int.tdiv_nonneg hn (by norm_num)

theorem pos_of_drawn_pos {n : Int} (hdrawn : 0 < target.drawn n) : 0 < n := by
  cases target with
  | backing => exact hdrawn
  | preview =>
      by_contra hn
      have hhalf : n.tdiv 2 ≤ Int.tdiv 0 2 := Int.tdiv_le_tdiv (by norm_num) (not_lt.mp hn)
      exact absurd hhalf (not_le.mpr hdrawn)

theorem le_of_drawn_le {n : Int} :
    (target.drawn n ≤ (screen.surface target).width → n ≤ screen.deviceWidth + 1) ∧
      (target.drawn n ≤ (screen.surface target).height → n ≤ screen.deviceHeight + 1) := by
  cases target with
  | backing => exact ⟨Int.le_add_one, Int.le_add_one⟩
  | preview =>
      have hwidth := screen.preview_width
      have hheight := screen.preview_height
      have hlt := Int.lt_tdiv_add_one_mul_self n (show (0 : Int) < 2 by norm_num)
      constructor
      · intro h
        change n.tdiv 2 ≤ screen.preview.width at h
        omega
      · intro h
        change n.tdiv 2 ≤ screen.preview.height at h
        omega

end Target

/-- A region of the screen as it is on a surface. -/
def Region.on (region : Region) (target : Target) : Region :=
  { region with
    rx := target.drawn region.rx
    ry := target.drawn region.ry
    rw := target.drawn region.rw
    rh := target.drawn region.rh }

/-- Only the surface for a saved state is half as wide as the screen. -/
theorem halved_surface (target : Target) (region : Region) :
    screen.halved (screen.surface target) region = region.on target := by
  cases target with
  | backing =>
      have hge := screen.width_ge
      have hne : ¬screen.backing.width = screen.deviceWidth.tdiv 2 := by
        change ¬screen.deviceWidth = _
        rw [Int.tdiv_eq_ediv_of_nonneg (by omega)]
        omega
      exact if_neg hne
  | preview => exact if_pos rfl

/-! ## The size for an aspect -/

theorem add_tmod_two_le {n size : Int} (hn : 0 ≤ n) (hlt : n < size) :
    n ≤ n + n.tmod 2 ∧ n + n.tmod 2 ≤ size := by
  rw [Int.tmod_eq_emod_of_nonneg hn]
  omega

variable (aspect : CoreAspect) (target : Target)

theorem fixedAspect_eq : screen.fixedAspect =
    ⌊(screen.deviceWidth : ℚ) / screen.deviceHeight * 1000⌋ := by
  have hwidth : (0 : ℚ) ≤ screen.deviceWidth := by exact_mod_cast le_of_lt screen.lit.width_pos
  have hheight : (0 : ℚ) ≤ screen.deviceHeight := by exact_mod_cast le_of_lt screen.lit.height_pos
  exact truncate_of_nonneg (by positivity)

/-- Rows between bars, for a core that is wider than the surface. -/
theorem letterbox_bounds {ratio : ℚ} {dst : Surface} (hpos : 0 < ratio) (hfour : ratio ≤ 4)
    (hwidth : 32 ≤ dst.width) (hwide : (dst.width : ℚ) / dst.height < ratio) :
    0 < truncate (dst.width / ratio) + (truncate (dst.width / ratio)).tmod 2 ∧
      truncate (dst.width / ratio) + (truncate (dst.width / ratio)).tmod 2 ≤ dst.height := by
  have hdstWidth : (32 : ℚ) ≤ dst.width := by exact_mod_cast hwidth
  have hdstHeight : (0 : ℚ) < dst.height := by exact_mod_cast dst.height_pos
  have hnonneg : (0 : ℚ) ≤ dst.width / ratio := by positivity
  have hrows : truncate (dst.width / ratio) < dst.height := by
    rw [div_lt_iff₀ hdstHeight] at hwide
    rw [truncate_lt_iff hnonneg, div_lt_iff₀ hpos]
    linarith
  -- a ratio of at most four leaves a quarter of the width
  have hleast : 8 ≤ truncate (dst.width / ratio) := by
    rw [le_truncate_iff hnonneg, le_div_iff₀ hpos]
    norm_num
    linarith
  have hround := add_tmod_two_le (by omega) hrows
  omega

/-- Columns between bars, for a core that is narrower than the surface. -/
theorem pillarbox_bounds {ratio : ℚ} {dst : Surface} (hquarter : 1 / 4 ≤ ratio)
    (hheight : 32 ≤ dst.height) (hnarrow : ratio < (dst.width : ℚ) / dst.height) :
    0 < (truncate (dst.height * ratio) + (truncate (dst.height * ratio)).tmod 2).tdiv 8 * 8 ∧
      (truncate (dst.height * ratio) + (truncate (dst.height * ratio)).tmod 2).tdiv 8 * 8 ≤
        dst.width := by
  have hdstHeight : (32 : ℚ) ≤ dst.height := by exact_mod_cast hheight
  have hpos : (0 : ℚ) < ratio := by linarith
  have hnonneg : (0 : ℚ) ≤ dst.height * ratio := by positivity
  have hcolumns : truncate (dst.height * ratio) < dst.width := by
    rw [lt_div_iff₀ (by linarith)] at hnarrow
    rw [truncate_lt_iff hnonneg]
    linarith
  have hleast : 8 ≤ truncate (dst.height * ratio) := by
    rw [le_truncate_iff hnonneg]
    have hproduct : (32 : ℚ) * (1 / 4) ≤ dst.height * ratio :=
      mul_le_mul hdstHeight hquarter (by norm_num) (by linarith)
    norm_num at hproduct ⊢
    exact hproduct
  have hround := add_tmod_two_le (by omega) hcolumns
  rw [Int.tdiv_eq_ediv_of_nonneg (by omega)]
  omega

/-- A size that is neither empty nor larger than the surface. -/
structure FitsOn (dst : Surface) (size : Int × Int) : Prop where
  width_pos : 0 < size.1
  width_le : size.1 ≤ dst.width
  height_pos : 0 < size.2
  height_le : size.2 ≤ dst.height

/-- A picture with the core's aspect is drawn, and on the surface. -/
theorem fitsOn_aspectSize :
    FitsOn (screen.surface target)
      (screen.aspectSize aspect.ratio (screen.surface target)) := by
  obtain ⟨hshape, hwidth, hheight⟩ := screen.surface_shape target
  generalize screen.surface target = dst at *
  have hpos := aspect.ratio_pos
  have hcore : truncate (aspect.ratio * 1000) = ⌊aspect.ratio * 1000⌋ :=
    truncate_of_nonneg (by positivity)
  -- the surface has the screen's shape, so the thousandths compare with its own
  have hscreen : (screen.deviceWidth : ℚ) / screen.deviceHeight = dst.width / dst.height := by
    have hdeviceHeight : (screen.deviceHeight : ℚ) ≠ 0 := by
      exact_mod_cast ne_of_gt screen.lit.height_pos
    have hdstHeight : (dst.height : ℚ) ≠ 0 := by exact_mod_cast ne_of_gt dst.height_pos
    rw [div_eq_div_iff hdeviceHeight hdstHeight]
    exact_mod_cast hshape.symm
  have hmono {first second : ℚ} (hlt : ⌊first * 1000⌋ < ⌊second * 1000⌋) : first < second := by
    by_contra hle
    have hthousand : second * 1000 ≤ first * 1000 := by linarith
    exact absurd (Int.floor_le_floor hthousand) (by omega)
  simp only [Panel.aspectSize, fixedAspect_eq, hcore, hscreen]
  split_ifs with hwide hnarrow
  · have hrows := letterbox_bounds hpos aspect.le_four hwidth (hmono hwide)
    exact ⟨dst.width_pos, le_rfl, hrows.1, hrows.2⟩
  · have hcolumns := pillarbox_bounds aspect.quarter_le hheight (hmono hnarrow)
    exact ⟨hcolumns.1, hcolumns.2, dst.height_pos, le_rfl⟩
  · exact ⟨dst.width_pos, le_rfl, dst.height_pos, le_rfl⟩

/-! ## Drawing a region -/

section Region

/-- A picture of some pixels, drawn from a place on a longer line. -/
structure OnLine (start drawn length : Int) : Prop where
  pos : 0 < drawn
  start_nonneg : 0 ≤ start
  end_le : start + drawn ≤ length

/-- The last of the samples is on the surface, and no position overflows. -/
structure LastSampled (offset extent drawn size : Int) : Prop where
  shifted : extent < 32768
  counted : position offset (step extent drawn) drawn < 2147483648
  pixel : offset + (drawn - 1) * step extent drawn / 65536 < size

theorem sampled_iff_last {offset extent drawn size : Int} (hoffset : 0 ≤ offset)
    (hextent : 0 < extent) (hdrawn : 0 < drawn) :
    (IsInt (extent * 65536) ∧ IsInt (offset * 65536) ∧ Sampled offset extent drawn size) ↔
      LastSampled offset extent drawn size := by
  rw [sampled_iff hoffset (le_of_lt hextent) hdrawn]
  constructor
  · rintro ⟨hshifted, -, hcounted, hpixel⟩
    unfold IsInt at hshifted
    exact ⟨by omega, hcounted, hpixel⟩
  · rintro ⟨hshifted, hcounted, hpixel⟩
    have hsteps := mul_nonneg (le_of_lt hdrawn) (step_nonneg (le_of_lt hextent) hdrawn)
    have hoffsetInt : IsInt (offset * 65536) := by
      unfold position at hcounted
      exact ⟨by omega, by omega⟩
    exact ⟨⟨by omega, by omega⟩, hoffsetInt, hcounted, hpixel⟩

variable {src dst : Surface} {renderer : Renderer} {scaling : Scaling} {ratio : ℚ}
variable {panel : Panel} {region : Region}

theorem safe_menuScale_iff
    (hregion : panel.region scaling ratio renderer src dst = region) :
    Safe src dst (panel.menuScale scaling ratio renderer src dst) ↔
      (IsInt (region.sw * 65536) ∧ IsInt (region.sh * 65536)) ∧
        (region.rw ≠ 0 ∧ region.rh ≠ 0) ∧
        (IsInt (renderer.srcX * 65536) ∧ IsInt (renderer.srcY * 65536)) ∧
        Safe src dst (loops src renderer.srcX renderer.srcY region.sw region.sh region.rx
          region.ry region.rw region.rh) := by
  unfold Panel.menuScale
  simp only [hregion, safe_checked]
  by_cases hzero : region.rw = 0 ∨ region.rh = 0
  · rw [if_pos hzero]
    have hnot : ¬(region.rw ≠ 0 ∧ region.rh ≠ 0) := by tauto
    exact iff_of_false (fun h => not_safe_none h.2.2) fun h => hnot h.2.1
  · rw [if_neg hzero]
    have hyes : region.rw ≠ 0 ∧ region.rh ≠ 0 := by tauto
    simp only [safe_checked]
    unfold loops step
    tauto

/-- Where there are pixels to draw, the samples have to be on the source and the picture on the
destination. -/
theorem safe_menuScale_pos_iff
    (hregion : panel.region scaling ratio renderer src dst = region)
    (hoffset : 0 ≤ renderer.srcY) (hwidth : 0 < region.rw) (hheight : 0 < region.rh) :
    Safe src dst (panel.menuScale scaling ratio renderer src dst) ↔
      ((IsInt (region.sw * 65536) ∧ IsInt (renderer.srcX * 65536) ∧
          Sampled renderer.srcX region.sw region.rw src.width) ∧
        IsInt (region.sh * 65536) ∧ IsInt (renderer.srcY * 65536) ∧
          Sampled renderer.srcY region.sh region.rh src.height) ∧
        OnLine region.rx region.rw dst.width ∧ OnLine region.ry region.rh dst.height := by
  rw [safe_menuScale_iff hregion,
    safe_loops_pos_iff src dst _ _ _ _ _ _ _ hoffset hwidth hheight]
  constructor
  · rintro ⟨⟨hsw, hsh⟩, -, ⟨hox, hoy⟩, ⟨hcolumns, hrows⟩, ⟨hleft, hright⟩, htop, hbottom⟩
    exact ⟨⟨⟨hsw, hox, hcolumns⟩, hsh, hoy, hrows⟩, ⟨hwidth, hleft, hright⟩, hheight, htop,
      hbottom⟩
  · rintro ⟨⟨⟨hsw, hox, hcolumns⟩, hsh, hoy, hrows⟩, hlineX, hlineY⟩
    exact ⟨⟨hsw, hsh⟩, ⟨ne_of_gt hwidth, ne_of_gt hheight⟩, ⟨hox, hoy⟩, ⟨hcolumns, hrows⟩,
      ⟨hlineX.start_nonneg, hlineX.end_le⟩, hlineY.start_nonneg, hlineY.end_le⟩

variable (src renderer) in
/-- A part of the source, drawn at a size from the renderer's offset on, has all its samples on
the source. -/
structure PictureFits (extent size : Int × Int) : Prop where
  across : LastSampled renderer.srcX extent.1 size.1 src.width
  down : LastSampled renderer.srcY extent.2 size.2 src.height

variable (hregion : panel.region scaling ratio renderer src dst = region)
variable (hoffset : 0 ≤ renderer.srcX ∧ 0 ≤ renderer.srcY)
variable (hextent : 0 < region.sw ∧ 0 < region.sh)

include hregion hoffset hextent

/-- Where there is something to draw, it has to be on the destination. -/
theorem safe_placed_iff (hsize : 0 ≤ region.rw ∧ 0 ≤ region.rh) :
    Safe src dst (panel.menuScale scaling ratio renderer src dst) ↔
      (OnLine region.rx region.rw dst.width ∧ OnLine region.ry region.rh dst.height) ∧
        PictureFits src renderer (region.sw, region.sh) (region.rw, region.rh) := by
  by_cases hempty : region.rw = 0 ∨ region.rh = 0
  · rw [safe_menuScale_iff hregion]
    -- a size of zero is a division by zero
    have hnot : ¬(region.rw ≠ 0 ∧ region.rh ≠ 0) := by tauto
    refine iff_of_false (fun h => hnot h.2.1) fun h => ?_
    have hwidth := h.1.1.pos
    have hheight := h.1.2.pos
    omega
  · have hwidth : 0 < region.rw := by omega
    have hheight : 0 < region.rh := by omega
    rw [safe_menuScale_pos_iff hregion hoffset.2 hwidth hheight,
      sampled_iff_last hoffset.1 hextent.1 hwidth, sampled_iff_last hoffset.2 hextent.2 hheight]
    constructor
    · rintro ⟨⟨hacross, hdown⟩, hlines⟩
      exact ⟨hlines, hacross, hdown⟩
    · rintro ⟨hlines, hfits⟩
      exact ⟨⟨hfits.across, hfits.down⟩, hlines⟩

/-- Where it is on the destination, the samples decide. -/
theorem safe_picture_iff (hlines : OnLine region.rx region.rw dst.width ∧
    OnLine region.ry region.rh dst.height) :
    Safe src dst (panel.menuScale scaling ratio renderer src dst) ↔
      PictureFits src renderer (region.sw, region.sh) (region.rw, region.rh) := by
  have hsize := And.intro (le_of_lt hlines.1.pos) (le_of_lt hlines.2.pos)
  rw [safe_placed_iff hregion hoffset hextent hsize, and_iff_right hlines]

omit hregion hoffset hextent

theorem onLine_centred {size : Int × Int} (hsize : FitsOn dst size) (plain : Region) :
    OnLine (Panel.centred size dst plain).rx (Panel.centred size dst plain).rw dst.width ∧
      OnLine (Panel.centred size dst plain).ry (Panel.centred size dst plain).rh dst.height := by
  obtain ⟨hleft, hright⟩ := (centred_iff size.1 dst.width).mpr hsize.width_le
  obtain ⟨htop, hbottom⟩ := (centred_iff size.2 dst.height).mpr hsize.height_le
  exact ⟨⟨hsize.width_pos, hleft, hright⟩, hsize.height_pos, htop, hbottom⟩

variable {plain : Region} (ratio)
variable (hplain : panel.plainRegion (panel.effective scaling) renderer src dst = plain)

include hplain

theorem region_eq_plain (hmode : panel.effective scaling ≠ .aspect)
    (hfits : plain.rw ≤ dst.width ∧ plain.rh ≤ dst.height) :
    panel.region scaling ratio renderer src dst = plain := by
  unfold Panel.region
  simp only [hplain]
  exact if_neg (by simp only [hmode, false_or]; omega)

theorem region_eq_centred
    (hbars : panel.effective scaling = .aspect ∨ ¬(plain.rw ≤ dst.width ∧ plain.rh ≤ dst.height)) :
    panel.region scaling ratio renderer src dst =
      Panel.centred (panel.aspectSize ratio dst) dst plain := by
  rw [not_and_or, not_le, not_le] at hbars
  unfold Panel.region
  simp only [hplain]
  exact if_pos hbars

end Region

/-- The preview of a surface is defined, and stays on it and on what is drawn on. -/
def PreviewSafe (screenScaling : Scaling) (renderer : Renderer) (src : Surface) : Prop :=
  Safe src (screen.surface target)
    (screen.menuScale screenScaling aspect.ratio renderer src (screen.surface target))

end DarkUI.Minarch
