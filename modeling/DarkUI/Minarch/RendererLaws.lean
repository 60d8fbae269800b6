import DarkUI.Minarch.Renderer

/-! # The scale of an oversized picture

The smallest scale at which the picture covers the screen, where a height that does not end on
an eighth row may leave less than one copy of the source uncovered.
-/

namespace DarkUI.Minarch

open Rounding

/-- The size of a core's frame. -/
structure FrameSize where
  width : Int
  height : Int
  width_pos : 0 < width
  height_pos : 0 < height

/-- A screen with pixels on it. -/
structure Panel.Lit (panel : Panel) : Prop where
  width_pos : 0 < panel.deviceWidth
  height_pos : 0 < panel.deviceHeight

theorem lit_rg35xx : rg35xxPanel.Lit := ⟨by decide, by decide⟩

/-- `copies` of a frame cover the screen in both directions, up to the copy that may be missing
below. -/
structure Covers (panel : Panel) (frame : FrameSize) (copies : Int) : Prop where
  across : panel.deviceWidth ≤ copies * frame.width
  down : panel.deviceHeight ≤
    (copies + if 8 ∣ panel.deviceHeight - frame.height then 0 else 1) * frame.height

/-- The fewest copies that cover the screen. -/
structure LeastCover (panel : Panel) (frame : FrameSize) (copies : Int) : Prop where
  covers : Covers panel frame copies
  least : ∀ fewer, Covers panel frame fewer → copies ≤ fewer

variable {panel : Panel} (lit : panel.Lit) (frame : FrameSize)

private theorem snapped_iff (rows : Int) :
    (rows.tmod 8 ≠ 0 ∧ rows.tmod 8 < 8) ↔ ¬8 ∣ rows := by
  have hlt : rows.tmod 8 < 8 := Int.tmod_lt_of_pos rows (by norm_num)
  rw [and_iff_left hlt, ne_eq, ← Int.dvd_iff_tmod_eq_zero]

include lit

theorem oversizedScale_le_iff (copies : Int) :
    panel.oversizedScale frame.width frame.height ≤ copies ↔ Covers panel frame copies := by
  have hwidth := ceilDiv_le_iff (le_of_lt lit.width_pos) frame.width_pos copies
  have hheight := ceilDiv_le_iff (le_of_lt lit.height_pos) frame.height_pos
  simp only [Panel.oversizedScale, snapped_iff, max_le_iff, hwidth]
  by_cases hsnap : 8 ∣ panel.deviceHeight - frame.height
  · rw [if_neg (not_not.mpr hsnap), hheight]
    exact ⟨fun h => ⟨h.1, by simpa [hsnap] using h.2⟩,
      fun h => ⟨h.across, by simpa [hsnap] using h.down⟩⟩
  · rw [if_pos hsnap, sub_le_iff_le_add, hheight]
    exact ⟨fun h => ⟨h.1, by simpa [hsnap] using h.2⟩,
      fun h => ⟨h.across, by simpa [hsnap] using h.down⟩⟩

theorem leastCover_oversizedScale :
    LeastCover panel frame (panel.oversizedScale frame.width frame.height) where
  covers := (oversizedScale_le_iff lit frame _).mp le_rfl
  least fewer hfewer := (oversizedScale_le_iff lit frame fewer).mpr hfewer

theorem LeastCover.eq_scale {frame : FrameSize} {copies : Int}
    (h : LeastCover panel frame copies) :
    panel.oversizedScale frame.width frame.height = copies :=
  le_antisymm ((oversizedScale_le_iff lit frame copies).mpr h.covers)
    (h.least _ (leastCover_oversizedScale lit frame).covers)

theorem oversizedScale_pos : 0 < panel.oversizedScale frame.width frame.height := by
  have hcovers := (leastCover_oversizedScale lit frame).covers.across
  by_contra hscale
  have hpos := frame.width_pos
  have hnone : panel.oversizedScale frame.width frame.height * frame.width ≤ 0 :=
    mul_nonpos_of_nonpos_of_nonneg (by omega) (le_of_lt hpos)
  have := lit.width_pos
  omega

/-- The whole copies of a frame that there is room for. -/
def wholeScale (panel : Panel) (frame : FrameSize) : Int :=
  min (panel.deviceWidth.tdiv frame.width) (panel.deviceHeight.tdiv frame.height)

theorem le_wholeScale_iff (copies : Int) :
    copies ≤ wholeScale panel frame ↔
      frame.width * copies ≤ panel.deviceWidth ∧ frame.height * copies ≤ panel.deviceHeight := by
  rw [wholeScale, Int.tdiv_eq_ediv_of_nonneg (le_of_lt lit.width_pos),
    Int.tdiv_eq_ediv_of_nonneg (le_of_lt lit.height_pos), le_min_iff,
    Int.le_ediv_iff_mul_le frame.width_pos, Int.le_ediv_iff_mul_le frame.height_pos,
    mul_comm copies, mul_comm copies]

theorem wholeScale_nonneg : 0 ≤ wholeScale panel frame := by
  rw [le_wholeScale_iff lit, mul_zero, mul_zero]
  exact ⟨le_of_lt lit.width_pos, le_of_lt lit.height_pos⟩

/-- A frame that is no larger than the screen. -/
def OnScreen (panel : Panel) (frame : FrameSize) : Prop :=
  frame.width ≤ panel.deviceWidth ∧ frame.height ≤ panel.deviceHeight

theorem wholeScale_pos_iff : 0 < wholeScale panel frame ↔ OnScreen panel frame := by
  have hone := le_wholeScale_iff lit frame 1
  rw [mul_one, mul_one] at hone
  exact hone

theorem fitted_of_not_onScreen (scaling : Scaling) (hframe : ¬OnScreen panel frame) :
    panel.fitted frame.width frame.height scaling =
      panel.forcedCrop frame.width frame.height := by
  have hnonneg := wholeScale_nonneg lit frame
  have hnot := mt (wholeScale_pos_iff lit frame).mp hframe
  have hzero : wholeScale panel frame = 0 := by omega
  exact if_pos hzero

theorem fitted_native (hframe : OnScreen panel frame) :
    panel.fitted frame.width frame.height .native =
      panel.integer frame.width frame.height (wholeScale panel frame) := by
  have hpos := (wholeScale_pos_iff lit frame).mpr hframe
  have hne : ¬wholeScale panel frame = 0 := by omega
  exact (if_neg hne).trans (if_neg (by decide))

theorem fitted_cropped (hframe : OnScreen panel frame) :
    panel.fitted frame.width frame.height .cropped =
      panel.cropped frame.width frame.height := by
  have hpos := (wholeScale_pos_iff lit frame).mpr hframe
  have hne : ¬wholeScale panel frame = 0 := by omega
  exact (if_neg hne).trans (if_pos rfl)

end DarkUI.Minarch
