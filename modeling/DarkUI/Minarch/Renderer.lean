import DarkUI.Common.Defines
import DarkUI.Foundation.Rounding

/-! # Where a frame goes

The front end chooses a scale for the core's frames, and lays out an oversized picture for the
display hardware to fit to the screen. Aspect ratios are exact here, and conversions to `int`
drop the fraction.
-/

namespace DarkUI.Minarch

open Rounding

/-- The screen the front end has been started on. -/
structure Panel where
  deviceWidth : Int
  deviceHeight : Int
  devicePitch : Int
  hdmiWidth : Int
  deriving DecidableEq, Repr

/-- `screen_scaling` -/
inductive Scaling
  | native
  | aspect
  | fullscreen
  | cropped
  deriving DecidableEq, Repr

/-- `GFX_Renderer` without its pointers. -/
structure Renderer where
  aspect : ℚ
  scale : Int
  trueW : Int
  trueH : Int
  srcX : Int
  srcY : Int
  srcW : Int
  srcH : Int
  srcP : Int
  dstX : Int
  dstY : Int
  dstW : Int
  dstH : Int
  dstP : Int
  deriving DecidableEq, Repr

/-- The locals of `selectScaler` that its branches set. -/
structure Placement where
  srcX : Int
  srcY : Int
  srcW : Int
  srcH : Int
  dstX : Int
  dstY : Int
  dstW : Int
  dstH : Int
  dstP : Int
  scale : Int
  deriving DecidableEq, Repr

namespace Panel

variable (panel : Panel) (srcW srcH : Int)

/-- The mode a screen makes of the one that is set. -/
def effective (scaling : Scaling) : Scaling :=
  if scaling = .cropped ∧ panel.deviceWidth = panel.hdmiWidth then .native else scaling

def forcedCrop : Placement :=
  let ox := (panel.deviceWidth - srcW).tdiv 2
  let oy := (panel.deviceHeight - srcH).tdiv 2
  { srcX := if ox < 0 then -ox else 0
    srcY := if oy < 0 then -oy else 0
    srcW := srcW
    srcH := srcH
    dstX := if ox < 0 then 0 else ox
    dstY := if oy < 0 then 0 else oy
    dstW := panel.deviceWidth
    dstH := panel.deviceHeight
    dstP := panel.devicePitch
    scale := 0 }

def cropped : Placement :=
  let scaleX := ceilDiv panel.deviceWidth srcW
  let scaleY := ceilDiv panel.deviceHeight srcH
  let scale := min scaleX scaleY
  let scaledW := srcW * scale
  let scaledH := srcH * scale
  let ox := (panel.deviceWidth - scaledW).tdiv 2
  let oy := (panel.deviceHeight - scaledH).tdiv 2
  let srcX := if ox < 0 then (-ox).tdiv scale else 0
  let srcY := if oy < 0 then (-oy).tdiv scale else 0
  { srcX := srcX
    srcY := srcY
    srcW := if ox < 0 then srcW - srcX * 2 else srcW
    srcH := if oy < 0 then srcH - srcY * 2 else srcH
    dstX := if ox < 0 then 0 else ox
    dstY := if oy < 0 then 0 else oy
    dstW := panel.deviceWidth
    dstH := panel.deviceHeight
    dstP := panel.devicePitch
    scale := scale }

def integer (scale : Int) : Placement :=
  let scaledW := srcW * scale
  let scaledH := srcH * scale
  { srcX := 0
    srcY := 0
    srcW := srcW
    srcH := srcH
    dstX := (panel.deviceWidth - scaledW).tdiv 2
    dstY := (panel.deviceHeight - scaledH).tdiv 2
    dstW := panel.deviceWidth
    dstH := panel.deviceHeight
    dstP := panel.devicePitch
    scale := scale }

/-- The branch of the native and the cropped mode. -/
def fitted (scaling : Scaling) : Placement :=
  let scale := min (panel.deviceWidth.tdiv srcW) (panel.deviceHeight.tdiv srcH)
  if scale = 0 then panel.forcedCrop srcW srcH
  else if scaling = .cropped then panel.cropped srcW srcH
  else panel.integer srcW srcH scale

/-- The scale of an oversized picture, with heights snapped to eights. -/
def oversizedScale : Int :=
  let scaleX := ceilDiv panel.deviceWidth srcW
  let scaleY := ceilDiv panel.deviceHeight srcH
  let r := (panel.deviceHeight - srcH).tmod 8
  let scaleY := if r ≠ 0 ∧ r < 8 then scaleY - 1 else scaleY
  max scaleX scaleY

/-- An oversized picture in a destination of its own. -/
def oversized (dstX dstY dstW dstH : Int) : Placement :=
  { srcX := 0
    srcY := 0
    srcW := srcW
    srcH := srcH
    dstX := dstX
    dstY := dstY
    dstW := dstW
    dstH := dstH
    dstP := dstW * fixedBpp
    scale := panel.oversizedScale srcW srcH }

def fixedAspect : Int := truncate ((panel.deviceWidth : ℚ) / panel.deviceHeight * 1000)

/-- The branch of the aspect mode. -/
def aspected (coreAspect : ℚ) : Placement :=
  let scale := panel.oversizedScale srcW srcH
  let scaledW := srcW * scale
  let scaledH := srcH * scale
  let core := truncate (coreAspect * 1000)
  if core > panel.fixedAspect then
    -- letterbox
    let aspectH := truncate (panel.deviceWidth / coreAspect)
    let aspectHr : ℚ := (aspectH : ℚ) / panel.deviceHeight
    let dstH := truncate (scaledH / aspectHr)
    panel.oversized srcW srcH 0 ((dstH - scaledH).tdiv 2) scaledW dstH
  else if core < panel.fixedAspect then
    -- pillarbox
    let aspectW := truncate (panel.deviceHeight * coreAspect)
    let aspectWr : ℚ := (aspectW : ℚ) / panel.deviceWidth
    let dstW := (truncate (scaledW / aspectWr)).tdiv 8 * 8
    panel.oversized srcW srcH ((dstW - scaledW).tdiv 2) 0 dstW scaledH
  else panel.oversized srcW srcH 0 0 scaledW scaledH

def placement (scaling : Scaling) (coreAspect : ℚ) : Placement :=
  match scaling with
  | .native | .cropped => panel.fitted srcW srcH scaling
  | .fullscreen =>
      let scale := panel.oversizedScale srcW srcH
      panel.oversized srcW srcH 0 0 (srcW * scale) (srcH * scale)
  | .aspect => panel.aspected srcW srcH coreAspect

/-- `selectScaler`, for the renderer it fills in. -/
def selectScaler (screenScaling : Scaling) (coreAspect : ℚ) (srcP : Int) : Renderer :=
  let scaling := panel.effective screenScaling
  let placed := panel.placement srcW srcH scaling coreAspect
  { aspect :=
      match scaling with
      | .native | .cropped => 0
      | .fullscreen => -1
      | .aspect => coreAspect
    scale := placed.scale
    trueW := srcW
    trueH := srcH
    srcX := placed.srcX
    srcY := placed.srcY
    srcW := placed.srcW
    srcH := placed.srcH
    srcP := srcP
    dstX := placed.dstX
    dstY := placed.dstY
    dstW := placed.dstW
    dstH := placed.dstH
    dstP := placed.dstP }

end Panel

/-- The screen of the `rg35xx`, which has no HDMI mode of its own. -/
def rg35xxPanel : Panel := ⟨fixedWidth, fixedHeight, fixedWidth * fixedBpp, fixedWidth⟩

/-- The pages of the framebuffer are three times as wide and as high as the screen. -/
def pageScale : Nat := 3
def pageWidth : Nat := fixedWidth * pageScale
def pageHeight : Nat := fixedHeight * pageScale
def pagePitch : Nat := pageWidth * fixedBpp
def pageSize : Nat := pagePitch * pageHeight

end DarkUI.Minarch
