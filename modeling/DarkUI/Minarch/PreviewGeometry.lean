import DarkUI.Minarch.PreviewLaws

/-! # What the preview takes from the renderer

The renderer leaves out nothing of a frame that is drawn at a whole scale or is oversized. It
keeps the middle of a frame that does not fit the screen, and of one that is scaled to be cropped.
-/

namespace DarkUI.Minarch

open Rounding

/-- What is left out at each end of a picture that is longer than the screen. -/
def margin (device picture : Int) : Int := max 0 ((picture - device) / 2)

/-- The part of a picture that is kept. -/
def kept (device picture : Int) : Int := picture - margin device picture * 2

/-- What is left out of a frame at each end if the scaled one is cropped. -/
def croppedMargin (device frame scale : Int) : Int := margin device (frame * scale) / scale

theorem margin_eq (device picture : Int) :
    (if (device - picture).tdiv 2 < 0 then -(device - picture).tdiv 2 else 0) =
      margin device picture := by
  unfold margin
  rcases Int.le_total picture device with hle | hle
  · rw [Int.tdiv_eq_ediv_of_nonneg (by omega)]
    split_ifs <;> omega
  · rw [← neg_sub picture device, Int.neg_tdiv, Int.tdiv_eq_ediv_of_nonneg (by omega)]
    split_ifs <;> omega

theorem croppedMargin_eq (device frame scale : Int) :
    (if (device - frame * scale).tdiv 2 < 0 then
      (-(device - frame * scale).tdiv 2).tdiv scale else 0) = croppedMargin device frame scale := by
  rw [croppedMargin, ← margin_eq]
  split_ifs with hneg
  · exact Int.tdiv_eq_ediv_of_nonneg (by omega)
  · exact (Int.zero_ediv _).symm

/-- What is kept is on the screen, except for one pixel where an odd number is left out. -/
theorem kept_bounds {device picture : Int} (hpicture : 0 < picture) (hdevice : 0 < device) :
    0 < kept device picture ∧ kept device picture ≤ device + 1 := by
  unfold kept margin
  omega

/-- Less than half of a frame is left out at each end. -/
theorem croppedMargin_bounds {device frame scale : Int} (hframe : 0 < frame) (hscale : 0 < scale)
    (hdevice : 0 < device) :
    0 ≤ croppedMargin device frame scale ∧ croppedMargin device frame scale * 2 < frame := by
  have hproduct := mul_pos hframe hscale
  have hmargin : margin device (frame * scale) * 2 < frame * scale := by
    unfold margin
    omega
  -- the division by the scale drops what is less than a pixel of the frame
  have hback : croppedMargin device frame scale * scale ≤ margin device (frame * scale) :=
    Int.ediv_mul_le _ (ne_of_gt hscale)
  refine ⟨Int.ediv_nonneg (le_max_left _ _) (le_of_lt hscale), ?_⟩
  apply lt_of_mul_lt_mul_right _ (le_of_lt hscale)
  calc croppedMargin device frame scale * 2 * scale
      = croppedMargin device frame scale * scale * 2 := by ring
    _ ≤ margin device (frame * scale) * 2 := by omega
    _ < frame * scale := hmargin

/-- What a renderer is chosen for. -/
structure Choice where
  scaling : Scaling
  aspect : CoreAspect
  frame : FrameSize
  srcP : Int

variable (screen : Screen) (choice : Choice)

def Screen.renderer : Renderer :=
  screen.selectScaler choice.frame.width choice.frame.height choice.scaling choice.aspect.ratio
    choice.srcP

/-- At a scale, what is left out is less than half of the screen. -/
structure Scaled (renderer : Renderer) : Prop where
  scale_pos : 0 < renderer.scale
  width_pos : 0 < renderer.srcW
  height_pos : 0 < renderer.srcH
  left_nonneg : 0 ≤ renderer.srcX
  left_lt : renderer.srcX * 2 < screen.deviceWidth
  top_nonneg : 0 ≤ renderer.srcY
  top_lt : renderer.srcY * 2 < screen.deviceHeight

/-- At no scale, the middle of a frame is kept. -/
structure Cropped (renderer : Renderer) : Prop where
  scale_eq : renderer.scale = 0
  left_nonneg : 0 ≤ renderer.srcX
  top_nonneg : 0 ≤ renderer.srcY
  width_pos : 0 < renderer.srcW - renderer.srcX * 2
  width_le : renderer.srcW - renderer.srcX * 2 ≤ screen.deviceWidth + 1
  height_pos : 0 < renderer.srcH - renderer.srcY * 2
  height_le : renderer.srcH - renderer.srcY * 2 ≤ screen.deviceHeight + 1

/-- Where the renderer's frame is placed. -/
def placed : Placement :=
  screen.placement choice.frame.width choice.frame.height (screen.effective choice.scaling)
    choice.aspect.ratio

variable {screen choice}

/-- In the aspect and the fullscreen mode all of a frame is drawn, at an oversized scale. -/
theorem placed_oversized (hmode : screen.effective choice.scaling = .fullscreen ∨
    screen.effective choice.scaling = .aspect) :
    ∃ dstX dstY dstW dstH, placed screen choice =
      screen.oversized choice.frame.width choice.frame.height dstX dstY dstW dstH := by
  unfold placed
  rcases hmode with hmode | hmode
  · rw [hmode]
    exact ⟨_, _, _, _, rfl⟩
  · rw [hmode]
    simp only [Panel.placement, Panel.aspected]
    split_ifs
    · exact ⟨_, _, _, _, rfl⟩
    · exact ⟨_, _, _, _, rfl⟩
    · exact ⟨_, _, _, _, rfl⟩

theorem scaled_oversized (hmode : screen.effective choice.scaling = .fullscreen ∨
    screen.effective choice.scaling = .aspect) : Scaled screen (screen.renderer choice) := by
  have hlit := screen.lit
  obtain ⟨_, _, _, _, hplaced⟩ := placed_oversized hmode
  unfold placed at hplaced
  simp only [Screen.renderer, Panel.selectScaler, hplaced, Panel.oversized]
  exact ⟨oversizedScale_pos hlit choice.frame, choice.frame.width_pos, choice.frame.height_pos,
    le_rfl, hlit.width_pos, le_rfl, hlit.height_pos⟩

theorem placed_native (hframe : OnScreen screen.toPanel choice.frame)
    (hmode : screen.effective choice.scaling = .native) :
    placed screen choice = screen.integer choice.frame.width choice.frame.height
      (wholeScale screen.toPanel choice.frame) := by
  rw [placed, hmode]
  exact fitted_native screen.lit choice.frame hframe

theorem scaled_native (hframe : OnScreen screen.toPanel choice.frame)
    (hmode : screen.effective choice.scaling = .native) :
    Scaled screen (screen.renderer choice) := by
  have hlit := screen.lit
  have hplaced := placed_native hframe hmode
  unfold placed at hplaced
  simp only [Screen.renderer, Panel.selectScaler, hplaced, Panel.integer]
  exact ⟨(wholeScale_pos_iff hlit choice.frame).mpr hframe, choice.frame.width_pos,
    choice.frame.height_pos, le_rfl, hlit.width_pos, le_rfl, hlit.height_pos⟩

theorem cropped_of_not_onScreen (hframe : ¬OnScreen screen.toPanel choice.frame)
    (hmode : screen.effective choice.scaling = .native ∨
      screen.effective choice.scaling = .cropped) :
    Cropped screen (screen.renderer choice) := by
  have hplaced : screen.placement choice.frame.width choice.frame.height
      (screen.effective choice.scaling) choice.aspect.ratio =
      screen.forcedCrop choice.frame.width choice.frame.height := by
    rcases hmode with hmode | hmode
    · rw [hmode]
      exact fitted_of_not_onScreen screen.lit choice.frame .native hframe
    · rw [hmode]
      exact fitted_of_not_onScreen screen.lit choice.frame .cropped hframe
  obtain ⟨hwidth, hwidth_le⟩ := kept_bounds choice.frame.width_pos screen.lit.width_pos
  obtain ⟨hheight, hheight_le⟩ := kept_bounds choice.frame.height_pos screen.lit.height_pos
  simp only [Screen.renderer, Panel.selectScaler, hplaced, Panel.forcedCrop, margin_eq]
  exact ⟨rfl, le_max_left _ _, le_max_left _ _, hwidth, hwidth_le, hheight, hheight_le⟩

theorem scaled_cropped (hframe : OnScreen screen.toPanel choice.frame)
    (hmode : screen.effective choice.scaling = .cropped) :
    Scaled screen (screen.renderer choice) := by
  have hplaced := fitted_cropped screen.lit choice.frame hframe
  have hscale : 0 < min (ceilDiv screen.deviceWidth choice.frame.width)
      (ceilDiv screen.deviceHeight choice.frame.height) :=
    lt_min (ceilDiv_pos screen.lit.width_pos choice.frame.width_pos)
      (ceilDiv_pos screen.lit.height_pos choice.frame.height_pos)
  -- the scale covers the screen, and the margins are counted in the frame's pixels
  obtain ⟨hleft, hleft_lt⟩ :=
    croppedMargin_bounds choice.frame.width_pos hscale screen.lit.width_pos
  obtain ⟨htop, htop_lt⟩ :=
    croppedMargin_bounds choice.frame.height_pos hscale screen.lit.height_pos
  have hpos := choice.frame.width_pos
  have hposH := choice.frame.height_pos
  simp only [Screen.renderer, Panel.selectScaler, hmode, Panel.placement, hplaced, Panel.cropped,
    croppedMargin_eq]
  refine ⟨hscale, ?_, ?_, hleft, hleft_lt.trans_le hframe.1, htop, htop_lt.trans_le hframe.2⟩
  · split_ifs <;> dsimp only <;> omega
  · split_ifs <;> dsimp only <;> omega

/-- A renderer has a scale, or keeps the middle of its frame. -/
theorem scaled_or_cropped :
    Scaled screen (screen.renderer choice) ∨ Cropped screen (screen.renderer choice) := by
  cases hmode : screen.effective choice.scaling with
  | fullscreen => exact Or.inl (scaled_oversized (Or.inl hmode))
  | aspect => exact Or.inl (scaled_oversized (Or.inr hmode))
  | native =>
      by_cases hframe : OnScreen screen.toPanel choice.frame
      · exact Or.inl (scaled_native hframe hmode)
      · exact Or.inr (cropped_of_not_onScreen hframe (Or.inl hmode))
  | cropped =>
      by_cases hframe : OnScreen screen.toPanel choice.frame
      · exact Or.inl (scaled_cropped hframe hmode)
      · exact Or.inr (cropped_of_not_onScreen hframe (Or.inr hmode))

theorem offsets_nonneg {renderer : Renderer}
    (h : Scaled screen renderer ∨ Cropped screen renderer) :
    0 ≤ renderer.srcX ∧ 0 ≤ renderer.srcY := by
  rcases h with hscaled | hcropped
  · exact ⟨hscaled.left_nonneg, hscaled.top_nonneg⟩
  · exact ⟨hcropped.left_nonneg, hcropped.top_nonneg⟩

end DarkUI.Minarch
