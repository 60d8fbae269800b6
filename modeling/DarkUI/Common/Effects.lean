import DarkUI.Common.Scaler

/-! # Scanline and grid effects

The scalers that draw a frame with some of its pixels darkened, each channel by a table. All but
the one for an unscaled frame draw a square for every pixel of the source and do not read what
they have drawn.
-/

namespace DarkUI

open Raster

/-! ## Shading -/

def cR (a : Pixel) : Nat := ((a &&& 0xf800#16) >>> 11).toNat
def cG (a : Pixel) : Nat := ((a &&& 0x7e0#16) >>> 5).toNat
def cB (a : Pixel) : Nat := (a &&& 0x1f#16).toNat

def weight_2_5 : List Nat :=
  [0, 0, 0, 1, 1, 2, 2, 2, 3, 3, 4, 4, 4, 5, 5, 6, 6, 6, 7, 7, 8, 8, 8, 9, 9, 10, 10, 10, 11, 11,
    12, 12, 12, 13, 13, 14, 14, 14, 15, 15, 16, 16, 16, 17, 17, 18, 18, 18, 19, 19, 20, 20, 20,
    21, 21, 22, 22, 22, 23, 23, 24, 24, 24, 25]

def weight_3_5 : List Nat :=
  [0, 0, 1, 1, 2, 3, 3, 4, 4, 5, 6, 6, 7, 7, 8, 9, 9, 10, 10, 11, 12, 12, 13, 13, 14, 15, 15, 16,
    16, 17, 18, 18, 19, 19, 20, 21, 21, 22, 22, 23, 24, 24, 25, 25, 26, 27, 27, 28, 28, 29, 30, 30,
    31, 31, 32, 33, 33, 34, 34, 35, 36, 36, 37, 37]

def weight_3_4 : List Nat :=
  [0, 0, 1, 2, 3, 3, 4, 5, 6, 6, 7, 8, 9, 9, 10, 11, 12, 12, 13, 14, 15, 15, 16, 17, 18, 18, 19,
    20, 21, 21, 22, 23, 24, 24, 25, 26, 27, 27, 28, 29, 30, 30, 31, 32, 33, 33, 34, 35, 36, 36, 37,
    38, 39, 39, 40, 41, 42, 42, 43, 44, 45, 45, 46, 47]

/-- What the macros `Weight2_3`, `Weight3_1` and `Weight3_2` make of their first argument, each
with its table. They do not look at the second one. -/
def weigh (table : List Nat) (a : Pixel) : Pixel :=
  (BitVec.ofNat 16 (table.getD (cR a) 0) <<< 11) |||
    (BitVec.ofNat 16 (table.getD (cG a) 0) <<< 5) |||
    BitVec.ofNat 16 (table.getD (cB a) 0)

def weight2_3 (a : Pixel) : Pixel := weigh weight_2_5 a
def weight3_1 (a : Pixel) : Pixel := weigh weight_3_4 a
def weight3_2 (a : Pixel) : Pixel := weigh weight_3_5 a

/-! ## The unscaled effect -/

/-- The loop over the pixels of a row in `scale1x_line`, after `x` passes. -/
def shadeRow (src : Bytes) (srcRow dstRow : Nat) (dst : Bytes) : Nat → Bytes
  | 0 => dst
  | x + 1 =>
      store16 (shadeRow src srcRow dstRow dst x) (dstRow + 2 * x)
        (weight3_1 (load16 src (srcRow + 2 * x)))

/-- The loop over `y` in `scale1x_line`, for the passes it has left. The strides are in pixels. -/
def lineLoop (src : Bytes) (sw cpyPitch srcStride dstStride : Nat) :
    Nat → Nat → Nat → Bytes → Bytes
  | 0, _, _, dst => dst
  | passes + 1, srcRow, dstRow, dst =>
      let copied := copy dst dstRow src srcRow cpyPitch
      let dstRow := dstRow + 2 * dstStride
      let srcRow := srcRow + 2 * srcStride
      lineLoop src sw cpyPitch srcStride dstStride passes srcRow dstRow
        (shadeRow src srcRow dstRow copied sw)

/-- `scale1x_line`. Its loop counts `y` up by two, so it makes a pass for every even row. -/
def scale1x_line : Scaler := fun args src dst =>
  let ip := args.sw * 2
  let srcStride := 2 * args.sp / 2
  let dstStride := 2 * args.dp / 2
  let cpyPitch := if ip < args.dp then ip else args.dp
  lineLoop src args.sw cpyPitch srcStride dstStride ((args.sh + 1) / 2) 0 0 dst

/-! ## The scaled effects -/

/-- How one of the scaled effects draws a pixel: the rows of its square from the top. -/
structure Effect where
  mul : Nat
  square : Pixel → List (List Pixel)

namespace Effect

variable (effect : Effect)

/-- A pass of the inner loop, with `dw` in pixels as the function sets it. -/
def pass (dw dstRow : Nat) (c1 : Pixel) : List Store :=
  (effect.square c1).zipIdx.flatMap fun row =>
    row.1.zipIdx.map fun pixel => (dstRow + 2 * (dw * row.2 + pixel.2), pixel.1)

/-- What the two loops store, in order. -/
def stores (args : ScalerArgs) (src : Bytes) : List Store :=
  (List.range args.sh).flatMap fun y => (List.range args.sw).flatMap fun x =>
    effect.pass (args.dp / 2) (y * args.dp * effect.mul + 2 * (effect.mul * x))
      (load16 src (y * args.sp + 2 * x))

def scaler : Scaler := fun args src dst => storeAll dst (effect.stores args src)

end Effect

def line2x : Effect := ⟨2, fun c1 =>
  let c2 := weight3_2 c1
  [[c1, c1], [c2, c2]]⟩

def line3x : Effect := ⟨3, fun c1 =>
  let c2 := weight3_2 c1
  [[c2, c2, c2], [c1, c1, c1], [c1, c1, c1]]⟩

def line4x : Effect := ⟨4, fun c1 =>
  let c2 := weight3_2 c1
  [[c1, c1, c1, c1], [c2, c2, c2, c2], [c1, c1, c1, c1], [c2, c2, c2, c2]]⟩

def grid2x : Effect := ⟨2, fun c1 =>
  let c2 := weight3_1 c1
  [[c2, c2], [c2, c1]]⟩

def grid3x : Effect := ⟨3, fun c1 =>
  let c2 := weight3_2 c1
  let c3 := weight2_3 c1
  [[c2, c1, c1], [c2, c1, c1], [c3, c2, c2]]⟩

def scale2x_line : Scaler := line2x.scaler
def scale3x_line : Scaler := line3x.scaler
def scale4x_line : Scaler := line4x.scaler
def scale2x_grid : Scaler := grid2x.scaler
def scale3x_grid : Scaler := grid3x.scaler

end DarkUI
