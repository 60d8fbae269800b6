import DarkUI.Foundation.FixedPoint
import DarkUI.Minarch.Renderer

/-! # The picture behind the menu

The last frame is drawn behind the menu, and the frame of a saved state at half the size, where
the renderer would have drawn them. The samples that are read and the pixels that are written
are kept in order, and a division by zero or an overflow leaves nothing.
-/

namespace DarkUI.Minarch

open Rounding FixedPoint

/-- A surface of 16-bit pixels, with the distance of its rows in pixels. -/
structure Surface where
  width : Int
  height : Int
  pitch : Int
  width_pos : 0 < width
  height_pos : 0 < height
  width_le_pitch : width ≤ pitch

/-- How much of the source is drawn, and where. -/
structure Region where
  sw : Int
  sh : Int
  rx : Int
  ry : Int
  rw : Int
  rh : Int
  deriving DecidableEq, Repr

def Region.halve (region : Region) : Region :=
  { region with
    rx := region.rx.tdiv 2
    ry := region.ry.tdiv 2
    rw := region.rw.tdiv 2
    rh := region.rh.tdiv 2 }

namespace Panel

variable (panel : Panel)

/-- On a surface of half the width the region is halved. -/
def halved (dst : Surface) (region : Region) : Region :=
  if dst.width = panel.deviceWidth.tdiv 2 then region.halve else region

def nativeRegion (renderer : Renderer) (src dst : Surface) : Region :=
  if renderer.scale ≠ 0 then
    panel.halved dst
      { sw := src.width
        sh := src.height
        rx := renderer.dstX
        ry := renderer.dstY
        rw := renderer.srcW * renderer.scale
        rh := renderer.srcH * renderer.scale }
  else
    -- forced crop
    let rw := renderer.srcW - renderer.srcX * 2
    let rh := renderer.srcH - renderer.srcY * 2
    panel.halved dst ⟨rw, rh, renderer.dstX, renderer.dstY, rw, rh⟩

def croppedRegion (renderer : Renderer) (src dst : Surface) : Region :=
  let sw := src.width - renderer.srcX * 2
  let sh := src.height - renderer.srcY * 2
  panel.halved dst
    ⟨sw, sh, renderer.dstX, renderer.dstY, sw * renderer.scale, sh * renderer.scale⟩

/-- The size of the core's picture on a surface. -/
def aspectSize (coreAspect : ℚ) (dst : Surface) : Int × Int :=
  let core := truncate (coreAspect * 1000)
  if core > panel.fixedAspect then
    -- letterbox
    let rh := truncate (dst.width / coreAspect)
    (dst.width, rh + rh.tmod 2)
  else if core < panel.fixedAspect then
    -- pillarbox
    let rw := truncate (dst.height * coreAspect)
    let rw := rw + rw.tmod 2
    (rw.tdiv 8 * 8, dst.height)
  else (dst.width, dst.height)

def centred (size : Int × Int) (dst : Surface) (region : Region) : Region :=
  { region with
    rx := (dst.width - size.1).tdiv 2
    ry := (dst.height - size.2).tdiv 2
    rw := size.1
    rh := size.2 }

/-- The region `Menu_scale` draws, before the core's aspect is asked for. -/
def plainRegion (scaling : Scaling) (renderer : Renderer) (src dst : Surface) : Region :=
  match scaling with
  | .native => panel.nativeRegion renderer src dst
  | .cropped => panel.croppedRegion renderer src dst
  | .aspect | .fullscreen => ⟨src.width, src.height, 0, 0, dst.width, dst.height⟩

/-- The region, which has the core's aspect where that is asked for or it does not fit. -/
def region (screenScaling : Scaling) (coreAspect : ℚ) (renderer : Renderer) (src dst : Surface) :
    Region :=
  let scaling := panel.effective screenScaling
  let plain := panel.plainRegion scaling renderer src dst
  if scaling = .aspect ∨ plain.rw > dst.width ∨ plain.rh > dst.height then
    centred (panel.aspectSize coreAspect dst) dst plain
  else plain

end Panel

/-- A pixel of the source read or of the destination written, or a row of the destination copied
to another. -/
inductive Access
  | read (x y : Int)
  | write (x y : Int)
  | copyRow (source target : Int)
  deriving DecidableEq, Repr

/-- The accesses of a part of the program, if all it computes is defined. -/
abbrev Trace := Option (List Access)

def Trace.append (first second : Trace) : Trace :=
  first.bind fun accesses => second.map (accesses ++ ·)

/-- The loop over a row of the destination, with so many pixels left from `tx` on. -/
def drawRow (mx row ty : Int) : Nat → Int → Int → Trace
  | 0, _, _ => some []
  | n + 1, tx, sx =>
      (checked (sx + mx)).bind fun next =>
        Trace.append (some [.read (sx / 65536) row, .write tx ty])
          (drawRow mx row ty n (tx + 1) next)

/-- The steps and the starting points of the loops. -/
structure Sampling where
  mx : Int
  my : Int
  ox : Int
  rx : Int
  rw : Int
  sp : Int

namespace Sampling

variable (sampling : Sampling)

/-- A row of the destination, which is copied where the row before it shows the same. -/
def drawLine (ty sy lr : Int) : Trace :=
  if sy / 65536 * sampling.sp = lr then some [.copyRow (ty - 1) ty]
  else drawRow sampling.mx (sy / 65536) ty sampling.rw.toNat sampling.rx sampling.ox

/-- The loop over the rows, with so many left from `ty` on. -/
def drawRows : Nat → Int → Int → Int → Trace
  | 0, _, _, _ => some []
  | n + 1, ty, sy, lr =>
      (checked (sy + sampling.my)).bind fun next =>
        Trace.append (sampling.drawLine ty sy lr)
          (drawRows n (ty + 1) next (sy / 65536 * sampling.sp))

end Sampling

/-- `Menu_scale` -/
def Panel.menuScale (panel : Panel) (screenScaling : Scaling) (coreAspect : ℚ)
    (renderer : Renderer) (src dst : Surface) : Trace :=
  let region := panel.region screenScaling coreAspect renderer src dst
  (checked (region.sw * 65536)).bind fun sw =>
    (checked (region.sh * 65536)).bind fun sh =>
      if region.rw = 0 ∨ region.rh = 0 then none
      else
        (checked (renderer.srcX * 65536)).bind fun ox =>
          (checked (renderer.srcY * 65536)).bind fun sy =>
            Sampling.drawRows ⟨sw.tdiv region.rw, sh.tdiv region.rh, ox, region.rx, region.rw,
              src.pitch⟩ region.rh.toNat region.ry sy (-1)

end DarkUI.Minarch
