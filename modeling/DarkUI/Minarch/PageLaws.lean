import DarkUI.Minarch.RendererLaws
import Mathlib.Tactic.NormNum

/-! # The page of an oversized picture

An oversized picture is drawn at the scale that covers the screen, between bars where the core's
aspect is not the screen's, and into one page of the framebuffer. No size is held against the
page.
-/

namespace DarkUI.Minarch

open Rounding

/-- A frame no larger than the screen, of a core whose aspect is not extreme. -/
structure CoreFrame extends FrameSize where
  aspect : ℚ
  width_le : width ≤ fixedWidth
  height_le : height ≤ fixedHeight
  quarter_le_aspect : 1 / 4 ≤ aspect
  aspect_le_four : aspect ≤ 4

/-- The destination is inside a page, and the picture inside the destination. -/
structure OnPage (renderer : Renderer) : Prop where
  page : renderer.dstP * renderer.dstH ≤ pageSize
  left : 0 ≤ renderer.dstX
  top : 0 ≤ renderer.dstY
  right : renderer.dstX + renderer.srcW * renderer.scale ≤ renderer.dstW
  bottom : renderer.dstY + renderer.srcH * renderer.scale ≤ renderer.dstH

/-- A page has as many pixels as that. -/
def PageHas (width height : Int) : Prop := fixedBpp * (width * height) ≤ pageSize

namespace CoreFrame

variable (frame : CoreFrame)

/-- The rows of the screen that the core's picture takes at the screen's full width. -/
def letterRows : Int := ⌊(fixedWidth : ℚ) / frame.aspect⌋

/-- The columns of the screen that the core's picture takes at the screen's full height. -/
def pillarColumns : Int := ⌊fixedHeight * frame.aspect⌋

/-- A page has room for as many copies of the frame and the bars that belong to them: black rows
where the core is wider than the screen to the thousandth, and columns in whole eights, which
are no bars where they are fewer than the picture's, where it is narrower. -/
def BarsFit (copies : Int) : Prop :=
  let width := frame.width * copies
  let height := frame.height * copies
  let thousandths := ⌊frame.aspect * 1000⌋
  if 1333 < thousandths then PageHas width (height * fixedHeight / frame.letterRows)
  else if thousandths < 1333 then
    let columns := width * fixedWidth / frame.pillarColumns / 8 * 8
    width ≤ columns ∧ PageHas columns height
  else PageHas width height

/-- The fewest copies of the frame that cover the screen fit in a page. -/
def FitsPage (scaling : Scaling) : Prop :=
  match scaling with
  | .native | .cropped => True
  | .fullscreen => ∃ copies, LeastCover rg35xxPanel frame.toFrameSize copies ∧
      PageHas (frame.width * copies) (frame.height * copies)
  | .aspect => ∃ copies, LeastCover rg35xxPanel frame.toFrameSize copies ∧ frame.BarsFit copies

theorem aspect_pos : 0 < frame.aspect := by
  have := frame.quarter_le_aspect
  linarith

theorem truncate_letterRows : truncate ((fixedWidth : ℚ) / frame.aspect) = frame.letterRows :=
  truncate_of_nonneg (by have := frame.aspect_pos; positivity)

theorem truncate_pillarColumns :
    truncate (fixedHeight * frame.aspect) = frame.pillarColumns :=
  truncate_of_nonneg (by have := frame.aspect_pos; positivity)

theorem letterRows_pos : 0 < frame.letterRows := by
  have hpos := frame.aspect_pos
  have hfour := frame.aspect_le_four
  rw [letterRows, Int.floor_pos, le_div_iff₀ hpos]
  norm_num [fixedWidth]
  linarith

theorem pillarColumns_pos : 0 < frame.pillarColumns := by
  have hquarter := frame.quarter_le_aspect
  rw [pillarColumns, Int.floor_pos]
  norm_num [fixedHeight]
  linarith

/-- A core that is wider than the screen leaves rows free. -/
theorem letterRows_le (hwide : 1333 < ⌊frame.aspect * 1000⌋) : frame.letterRows ≤ fixedHeight := by
  have hpos := frame.aspect_pos
  have haspect : (1334 : ℚ) ≤ frame.aspect * 1000 := by
    exact_mod_cast Int.le_floor.mp (show (1334 : Int) ≤ _ by omega)
  rw [← Int.lt_add_one_iff, letterRows, Int.floor_lt, div_lt_iff₀ hpos]
  norm_num [fixedWidth, fixedHeight]
  linarith

end CoreFrame

theorem fixedAspect_rg35xx : rg35xxPanel.fixedAspect = 1333 := by
  have hnonneg : (0 : ℚ) ≤ (rg35xxPanel.deviceWidth : ℚ) / rg35xxPanel.deviceHeight * 1000 := by
    norm_num [rg35xxPanel, fixedWidth, fixedHeight]
  rw [Panel.fixedAspect, truncate_of_nonneg hnonneg, Int.floor_eq_iff]
  norm_num [rg35xxPanel, fixedWidth, fixedHeight]

namespace CoreFrame

variable (frame : CoreFrame) (srcP : Int)

/-- The scale of the oversized modes. -/
def copies : Int := rg35xxPanel.oversizedScale frame.width frame.height

theorem exists_leastCover_iff (P : Int → Prop) :
    (∃ copies, LeastCover rg35xxPanel frame.toFrameSize copies ∧ P copies) ↔ P frame.copies := by
  constructor
  · rintro ⟨copies, hleast, hP⟩
    rw [CoreFrame.copies, hleast.eq_scale lit_rg35xx]
    exact hP
  · intro hP
    exact ⟨_, leastCover_oversizedScale lit_rg35xx frame.toFrameSize, hP⟩

theorem copies_pos : 0 < frame.copies := oversizedScale_pos lit_rg35xx frame.toFrameSize

theorem picture_nonneg : 0 ≤ frame.width * frame.copies ∧ 0 ≤ frame.height * frame.copies := by
  have hcopies := le_of_lt frame.copies_pos
  exact ⟨mul_nonneg (le_of_lt frame.width_pos) hcopies,
    mul_nonneg (le_of_lt frame.height_pos) hcopies⟩

theorem onPage_iff (scaling : Scaling) {dstX dstY dstW dstH : Int}
    (hplaced : rg35xxPanel.placement frame.width frame.height (rg35xxPanel.effective scaling)
      frame.aspect = rg35xxPanel.oversized frame.width frame.height dstX dstY dstW dstH) :
    OnPage (rg35xxPanel.selectScaler frame.width frame.height scaling frame.aspect srcP) ↔
      PageHas dstW dstH ∧ (0 ≤ dstX ∧ dstX + frame.width * frame.copies ≤ dstW) ∧
        (0 ≤ dstY ∧ dstY + frame.height * frame.copies ≤ dstH) := by
  have hbytes : dstW * fixedBpp * dstH = fixedBpp * (dstW * dstH) := by ring
  unfold Panel.selectScaler
  simp only [hplaced, Panel.oversized]
  constructor
  · intro h
    exact ⟨(ge_of_eq hbytes).trans h.page, ⟨h.left, h.right⟩, h.top, h.bottom⟩
  · rintro ⟨hpage, ⟨hleft, hright⟩, htop, hbottom⟩
    exact ⟨(le_of_eq hbytes).trans hpage, hleft, htop, hright, hbottom⟩

/-- A picture that is its whole destination. -/
theorem onPage_picture_iff (scaling : Scaling)
    (hplaced : rg35xxPanel.placement frame.width frame.height (rg35xxPanel.effective scaling)
      frame.aspect = rg35xxPanel.oversized frame.width frame.height 0 0
        (frame.width * frame.copies) (frame.height * frame.copies)) :
    OnPage (rg35xxPanel.selectScaler frame.width frame.height scaling frame.aspect srcP) ↔
      PageHas (frame.width * frame.copies) (frame.height * frame.copies) := by
  rw [frame.onPage_iff srcP scaling hplaced, zero_add, zero_add]
  exact and_iff_left ⟨⟨le_rfl, le_rfl⟩, le_rfl, le_rfl⟩

theorem onPage_fullscreen_iff :
    OnPage (rg35xxPanel.selectScaler frame.width frame.height .fullscreen frame.aspect srcP) ↔
      PageHas (frame.width * frame.copies) (frame.height * frame.copies) :=
  frame.onPage_picture_iff srcP .fullscreen rfl

theorem truncate_thousandths : truncate (frame.aspect * 1000) = ⌊frame.aspect * 1000⌋ :=
  truncate_of_nonneg (by have := frame.aspect_pos; positivity)

theorem onPage_letterbox_iff (hwide : 1333 < ⌊frame.aspect * 1000⌋) :
    OnPage (rg35xxPanel.selectScaler frame.width frame.height .aspect frame.aspect srcP) ↔
      PageHas (frame.width * frame.copies)
        (frame.height * frame.copies * fixedHeight / frame.letterRows) := by
  have hrows := frame.letterRows_pos
  have hpicture := frame.picture_nonneg
  have hplaced : rg35xxPanel.placement frame.width frame.height .aspect frame.aspect =
      rg35xxPanel.oversized frame.width frame.height 0
        ((frame.height * frame.copies * fixedHeight / frame.letterRows -
          frame.height * frame.copies).tdiv 2) (frame.width * frame.copies)
        (frame.height * frame.copies * fixedHeight / frame.letterRows) := by
    have hdstH := truncate_div_ratio hpicture.2 (le_of_lt hrows)
      (Int.natCast_nonneg fixedHeight)
    rw [← frame.truncate_letterRows] at hdstH ⊢
    rw [← hdstH]
    simp only [Panel.placement, Panel.aspected, fixedAspect_rg35xx, truncate_thousandths]
    exact if_pos hwide
  have hinside : frame.height * frame.copies ≤
      frame.height * frame.copies * fixedHeight / frame.letterRows :=
    (Int.le_ediv_iff_mul_le hrows).mpr
      (mul_le_mul_of_nonneg_left (frame.letterRows_le hwide) hpicture.2)
  rw [frame.onPage_iff srcP .aspect hplaced, zero_add]
  exact and_iff_left ⟨⟨le_rfl, le_rfl⟩, (centred_iff _ _).mpr hinside⟩

theorem onPage_pillarbox_iff (hnarrow : ⌊frame.aspect * 1000⌋ < 1333) :
    OnPage (rg35xxPanel.selectScaler frame.width frame.height .aspect frame.aspect srcP) ↔
      frame.width * frame.copies ≤
          frame.width * frame.copies * fixedWidth / frame.pillarColumns / 8 * 8 ∧
        PageHas (frame.width * frame.copies * fixedWidth / frame.pillarColumns / 8 * 8)
          (frame.height * frame.copies) := by
  have hcolumns := frame.pillarColumns_pos
  have hpicture := frame.picture_nonneg
  have hplaced : rg35xxPanel.placement frame.width frame.height .aspect frame.aspect =
      rg35xxPanel.oversized frame.width frame.height
        ((frame.width * frame.copies * fixedWidth / frame.pillarColumns / 8 * 8 -
          frame.width * frame.copies).tdiv 2) 0
        (frame.width * frame.copies * fixedWidth / frame.pillarColumns / 8 * 8)
        (frame.height * frame.copies) := by
    have hdstW := truncate_div_ratio hpicture.1 (le_of_lt hcolumns)
      (Int.natCast_nonneg fixedWidth)
    have hdstW_nonneg : 0 ≤ frame.width * frame.copies * fixedWidth / frame.pillarColumns :=
      Int.ediv_nonneg (mul_nonneg hpicture.1 (Int.natCast_nonneg _)) (le_of_lt hcolumns)
    rw [← Int.tdiv_eq_ediv_of_nonneg hdstW_nonneg]
    rw [← frame.truncate_pillarColumns] at hdstW ⊢
    rw [← hdstW]
    simp only [Panel.placement, Panel.aspected, fixedAspect_rg35xx, truncate_thousandths]
    rw [if_neg (by omega), if_pos hnarrow]
    rfl
  rw [frame.onPage_iff srcP .aspect hplaced, zero_add, centred_iff, and_comm, and_assoc]
  exact and_congr_right fun _ => and_iff_right ⟨le_rfl, le_rfl⟩

theorem onPage_aspect_iff :
    OnPage (rg35xxPanel.selectScaler frame.width frame.height .aspect frame.aspect srcP) ↔
      frame.BarsFit frame.copies := by
  simp only [BarsFit]
  split_ifs with hwide hnarrow
  · exact frame.onPage_letterbox_iff srcP hwide
  · exact frame.onPage_pillarbox_iff srcP hnarrow
  · refine frame.onPage_picture_iff srcP .aspect ?_
    change rg35xxPanel.aspected frame.width frame.height frame.aspect = _
    simp only [Panel.aspected, fixedAspect_rg35xx, truncate_thousandths]
    rw [if_neg hwide, if_neg hnarrow]
    rfl

/-- A frame no larger than the screen has room on it, so nothing is cropped. -/
theorem onPage_native :
    OnPage (rg35xxPanel.selectScaler frame.width frame.height .native frame.aspect srcP) := by
  have hframe : OnScreen rg35xxPanel frame.toFrameSize := ⟨frame.width_le, frame.height_le⟩
  have hplaced := fitted_native lit_rg35xx frame.toFrameSize hframe
  obtain ⟨hacross, hdown⟩ := (le_wholeScale_iff lit_rg35xx frame.toFrameSize _).mp le_rfl
  obtain ⟨hleft, hright⟩ := (centred_iff _ rg35xxPanel.deviceWidth).mpr hacross
  obtain ⟨htop, hbottom⟩ := (centred_iff _ rg35xxPanel.deviceHeight).mpr hdown
  have hpage : rg35xxPanel.devicePitch * rg35xxPanel.deviceHeight ≤ pageSize := by decide
  have hnative : rg35xxPanel.effective .native = .native := rfl
  simp only [Panel.selectScaler, hnative, Panel.placement, hplaced]
  exact ⟨hpage, hleft, htop, hright, hbottom⟩

end CoreFrame

/-- The destination is in the page, and the picture in the destination, just when the page has
room for the fewest copies that cover the screen and the bars that belong to them. -/
theorem onPage_selectScaler_iff (frame : CoreFrame) (scaling : Scaling) (srcP : Int) :
    OnPage (rg35xxPanel.selectScaler frame.width frame.height scaling frame.aspect srcP) ↔
      frame.FitsPage scaling := by
  cases scaling with
  | native => exact iff_of_true (frame.onPage_native srcP) trivial
  | cropped => exact iff_of_true (frame.onPage_native srcP) trivial
  | fullscreen =>
      rw [frame.onPage_fullscreen_iff, CoreFrame.FitsPage, frame.exists_leastCover_iff]
  | aspect => rw [frame.onPage_aspect_iff, CoreFrame.FitsPage, frame.exists_leastCover_iff]

/-- Ten copies of a frame of 640 by 48 cover the screen, and take more than a page. -/
theorem flat_frame_off_page :
    ¬∀ (frame : CoreFrame) (scaling : Scaling) (srcP : Int),
      OnPage (rg35xxPanel.selectScaler frame.width frame.height scaling frame.aspect srcP) := by
  intro h
  have hpage := (h ⟨⟨640, 48, by decide, by decide⟩, 4 / 3, by decide, by decide, by norm_num,
    by norm_num⟩ .fullscreen 1280).page
  exact absurd hpage (by decide)

end DarkUI.Minarch
