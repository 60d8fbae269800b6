import DarkUI.Common.Effects
import DarkUI.Minarch.RendererLaws
import Mathlib.Tactic.IntervalCases

/-! # The scaler of a renderer

The `rg35xx` picks the function that draws a frame from the scale of the renderer and the effect
that is shown. Every effect has scalers of its own for some scales, and the plain ones end at
six.
-/

namespace DarkUI.Minarch

open Rounding

/-- `effect_type`, which is unset until the effect is loaded again. -/
inductive EffectType
  | unset
  | none
  | line
  | grid
  deriving DecidableEq, Repr

/-- The functions that draw a frame. -/
inductive ScalerFunction
  | scale1x_line
  | scale2x_line
  | scale3x_line
  | scale4x_line
  | scale2x_grid
  | scale3x_grid
  | scale1x1_n16
  | scale2x2_n16
  | scale3x3_n16
  | scale4x4_n16
  | scale5x5_n16
  | scale6x6_n16
  deriving DecidableEq, Repr

namespace ScalerFunction

/-- How many pixels across and down a scaler makes of one. -/
def multiplies : ScalerFunction → Nat × Nat
  | .scale1x_line => (1, 1)
  | .scale2x_line => (line2x.mul, line2x.mul)
  | .scale3x_line => (line3x.mul, line3x.mul)
  | .scale4x_line => (line4x.mul, line4x.mul)
  | .scale2x_grid => (grid2x.mul, grid2x.mul)
  | .scale3x_grid => (grid3x.mul, grid3x.mul)
  | .scale1x1_n16 => (1, 1)
  | .scale2x2_n16 => (widening2x.xmul, 2)
  | .scale3x3_n16 => (widening3x.xmul, 3)
  | .scale4x4_n16 => (widening4x.xmul, 4)
  | .scale5x5_n16 => (widening5x.xmul, 5)
  | .scale6x6_n16 => (widening6x.xmul, 6)

end ScalerFunction

/-- The switch on the scale where no effect has a scaler for it. -/
def plainScaler (scale : Int) : ScalerFunction :=
  if scale = 6 then .scale6x6_n16
  else if scale = 5 then .scale5x5_n16
  else if scale = 4 then .scale4x4_n16
  else if scale = 3 then .scale3x3_n16
  else if scale = 2 then .scale2x2_n16
  else .scale1x1_n16

/-- `PLAT_getScaler` -/
def getScaler (effectType : EffectType) (renderer : Renderer) : ScalerFunction :=
  match effectType with
  | .line =>
      if renderer.scale = 4 then .scale4x_line
      else if renderer.scale = 3 then .scale3x_line
      else if renderer.scale = 2 then .scale2x_line
      else .scale1x_line
  | .grid =>
      if renderer.scale = 3 then .scale3x_grid
      else if renderer.scale = 2 then .scale2x_grid
      else plainScaler renderer.scale
  | .unset | .none => plainScaler renderer.scale

/-- The scale that a renderer asks for, where an unscaled crop is marked with none. -/
def Renderer.magnification (renderer : Renderer) : Int :=
  if renderer.scale = 0 then 1 else renderer.scale

/-- A scaler draws at the scale its renderer was laid out for. -/
structure DrawsAt (scaler : ScalerFunction) (renderer : Renderer) : Prop where
  across : (scaler.multiplies.1 : Int) = renderer.magnification
  down : (scaler.multiplies.2 : Int) = renderer.magnification

/-- The last scale that a scaler shows an effect at. -/
def EffectType.limit : EffectType → Int
  | .line => 4
  | .unset | .none | .grid => 6

/-- The scales a scaler is there for: the picture of the native modes has room for no more copies
than that, and as many copies cover the screen in the other modes. -/
def Scalable (panel : Panel) (scaling : Scaling) (frame : FrameSize) (limit : Int) : Prop :=
  match scaling with
  | .native | .cropped =>
      panel.deviceWidth < (limit + 1) * frame.width ∨
        panel.deviceHeight < (limit + 1) * frame.height
  | .aspect | .fullscreen => Covers panel frame limit

theorem plainScaler_multiplies (scale : Int) :
    (plainScaler scale).multiplies =
      if 1 ≤ scale ∧ scale ≤ 6 then (scale.toNat, scale.toNat) else (1, 1) := by
  by_cases hscale : 1 ≤ scale ∧ scale ≤ 6
  · obtain ⟨hfirst, hlast⟩ := hscale
    interval_cases scale <;> rfl
  · rw [if_neg hscale, plainScaler, if_neg (by omega), if_neg (by omega), if_neg (by omega),
      if_neg (by omega), if_neg (by omega)]
    rfl

/-- A scaler is there for every scale up to the limit of the effect, and is the unscaled one
behind it. -/
theorem getScaler_multiplies (effectType : EffectType) (renderer : Renderer) :
    (getScaler effectType renderer).multiplies =
      if 1 ≤ renderer.scale ∧ renderer.scale ≤ effectType.limit then
        (renderer.scale.toNat, renderer.scale.toNat)
      else (1, 1) := by
  cases effectType with
  | unset => exact plainScaler_multiplies renderer.scale
  | none => exact plainScaler_multiplies renderer.scale
  | line =>
      by_cases hscale : 1 ≤ renderer.scale ∧ renderer.scale ≤ 4
      · simp only [getScaler, EffectType.limit]
        generalize renderer.scale = scale at hscale
        obtain ⟨hfirst, hlast⟩ := hscale
        interval_cases scale <;> rfl
      · rw [EffectType.limit, if_neg hscale, getScaler, if_neg (by omega), if_neg (by omega),
          if_neg (by omega)]
        rfl
  | grid =>
      by_cases hshown : renderer.scale = 3 ∨ renderer.scale = 2
      · rcases hshown with hthree | htwo
        · simp only [getScaler, hthree]
          rfl
        · simp only [getScaler, htwo]
          rfl
      · rw [getScaler, if_neg (by omega), if_neg (by omega)]
        exact plainScaler_multiplies renderer.scale

/-- The scaler fits just when the effect has one for the scale. -/
theorem drawsAt_getScaler_iff (effectType : EffectType) {renderer : Renderer}
    (hscale : 0 ≤ renderer.scale) :
    DrawsAt (getScaler effectType renderer) renderer ↔ renderer.scale ≤ effectType.limit := by
  have hlimit : 4 ≤ effectType.limit := by cases effectType <;> decide
  have hmultiplies := getScaler_multiplies effectType renderer
  by_cases hin : 1 ≤ renderer.scale ∧ renderer.scale ≤ effectType.limit
  · rw [if_pos hin] at hmultiplies
    have hmagnified : renderer.magnification = renderer.scale := if_neg (by omega)
    refine iff_of_true ⟨?_, ?_⟩ hin.2
    · rw [hmultiplies, hmagnified]
      exact Int.toNat_of_nonneg hscale
    · rw [hmultiplies, hmagnified]
      exact Int.toNat_of_nonneg hscale
  · rw [if_neg hin] at hmultiplies
    by_cases hzero : renderer.scale = 0
    · have hmagnified : renderer.magnification = 1 := if_pos hzero
      refine iff_of_true ⟨?_, ?_⟩ (by omega)
      · rw [hmultiplies, hmagnified]
        rfl
      · rw [hmultiplies, hmagnified]
        rfl
    · have hmagnified : renderer.magnification = renderer.scale := if_neg hzero
      refine iff_of_false (fun hdraws => ?_) (by omega)
      have hacross := hdraws.across
      rw [hmultiplies, hmagnified] at hacross
      omega

section Scale

variable {panel : Panel} (lit : panel.Lit) (frame : FrameSize)

include lit in
/-- Both branches of the native mode leave the number of whole copies. -/
theorem fitted_scale_le_iff (limit : Int) :
    (panel.fitted frame.width frame.height .native).scale ≤ limit ↔
      Scalable panel .native frame limit := by
  have hscale : (panel.fitted frame.width frame.height .native).scale =
      min (panel.deviceWidth / frame.width) (panel.deviceHeight / frame.height) := by
    rw [← Int.tdiv_eq_ediv_of_nonneg (le_of_lt lit.width_pos),
      ← Int.tdiv_eq_ediv_of_nonneg (le_of_lt lit.height_pos)]
    simp only [Panel.fitted, reduceCtorEq, if_false]
    split_ifs with hcrop
    · exact hcrop.symm
    · rfl
  have hacross := Int.ediv_lt_iff_lt_mul (a := panel.deviceWidth) (b := limit + 1) frame.width_pos
  have hdown := Int.ediv_lt_iff_lt_mul (a := panel.deviceHeight) (b := limit + 1) frame.height_pos
  rw [hscale, min_le_iff, Scalable, ← hacross, ← hdown, Int.lt_add_one_iff, Int.lt_add_one_iff]

theorem aspected_scale (coreAspect : ℚ) :
    (panel.aspected frame.width frame.height coreAspect).scale =
      panel.oversizedScale frame.width frame.height := by
  simp only [Panel.aspected]
  split_ifs <;> rfl

include lit in
theorem fitted_scale_nonneg : 0 ≤ (panel.fitted frame.width frame.height .native).scale := by
  by_contra hneg
  have hnone := (fitted_scale_le_iff lit frame (-1)).mp (by omega)
  have hwidth := lit.width_pos
  have hheight := lit.height_pos
  rcases hnone with h | h <;> omega

theorem selectScaler_scale_le_iff (scaling : Scaling) (coreAspect : ℚ) (srcP limit : Int) :
    (rg35xxPanel.selectScaler frame.width frame.height scaling coreAspect srcP).scale ≤ limit ↔
      Scalable rg35xxPanel scaling frame limit := by
  cases scaling with
  | native => exact fitted_scale_le_iff lit_rg35xx frame limit
  | cropped => exact fitted_scale_le_iff lit_rg35xx frame limit
  | fullscreen => exact oversizedScale_le_iff lit_rg35xx frame limit
  | aspect =>
      change (rg35xxPanel.aspected frame.width frame.height coreAspect).scale ≤ limit ↔ _
      rw [aspected_scale]
      exact oversizedScale_le_iff lit_rg35xx frame limit

theorem selectScaler_scale_nonneg (scaling : Scaling) (coreAspect : ℚ) (srcP : Int) :
    0 ≤ (rg35xxPanel.selectScaler frame.width frame.height scaling coreAspect srcP).scale := by
  cases scaling with
  | native => exact fitted_scale_nonneg lit_rg35xx frame
  | cropped => exact fitted_scale_nonneg lit_rg35xx frame
  | fullscreen => exact le_of_lt (oversizedScale_pos lit_rg35xx frame)
  | aspect =>
      change 0 ≤ (rg35xxPanel.aspected frame.width frame.height coreAspect).scale
      rw [aspected_scale]
      exact le_of_lt (oversizedScale_pos lit_rg35xx frame)

/-- The scaler draws at the scale that was chosen for the frame just when the effect has one
for as many copies as there is room for, or as cover the screen. -/
theorem chosenScaler_drawsAt_iff (scaling : Scaling) (coreAspect : ℚ) (srcP : Int)
    (effectType : EffectType) :
    DrawsAt
        (getScaler effectType
          (rg35xxPanel.selectScaler frame.width frame.height scaling coreAspect srcP))
        (rg35xxPanel.selectScaler frame.width frame.height scaling coreAspect srcP) ↔
      Scalable rg35xxPanel scaling frame effectType.limit := by
  rw [drawsAt_getScaler_iff effectType (selectScaler_scale_nonneg frame scaling coreAspect srcP)]
  exact selectScaler_scale_le_iff frame scaling coreAspect srcP effectType.limit

/-- A frame of 96 by 64 takes eight copies to cover the screen, and is drawn unscaled. -/
theorem small_frame_drawn_unscaled :
    ¬∀ (frame : FrameSize) (scaling : Scaling) (coreAspect : ℚ) (srcP : Int)
      (effectType : EffectType),
      (scaling = .native → frame.width ≤ fixedWidth ∧ frame.height ≤ fixedHeight) →
        DrawsAt
          (getScaler effectType
            (rg35xxPanel.selectScaler frame.width frame.height scaling coreAspect srcP))
          (rg35xxPanel.selectScaler frame.width frame.height scaling coreAspect srcP) := by
  intro h
  have hdraws := h ⟨96, 64, by decide, by decide⟩ .fullscreen (3 / 2) 192 .none (by simp)
  exact absurd hdraws.across (by decide)

end Scale

end DarkUI.Minarch
