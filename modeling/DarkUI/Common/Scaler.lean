import DarkUI.Foundation.Raster

/-! # Integer scalers

A frame of 16-bit pixels is drawn larger by a whole number. The plain scalers take two pixels at
a time out of a 32-bit word, store each as often as it is wide, and repeat the row they have
made. Offsets and sizes are those of buffers in memory.
-/

namespace DarkUI

open Raster

/-- What a scaler is called with, besides where the source and the destination begin. -/
structure ScalerArgs where
  sw : Nat
  sh : Nat
  sp : Nat
  dw : Nat
  dh : Nat
  dp : Nat
  deriving DecidableEq, Repr

/-- A scaler, from the source and the destination to the destination after it. -/
abbrev Scaler := ScalerArgs → Bytes → Bytes → Bytes

def dpix1 (pix : BitVec 32) : BitVec 32 := (pix &&& 0x0000FFFF#32) ||| (pix <<< 16)

def dpix2 (pix : BitVec 32) : BitVec 32 := (pix &&& 0xFFFF0000#32) ||| (pix >>> 16)

/-- `pix16|(pix16<<16)` -/
def dpix16 (pix16 : Pixel) : BitVec 32 := pix16.setWidth 32 ||| (pix16.setWidth 32 <<< 16)

/-- How one of the plain scalers widens a row. -/
structure Widening where
  xmul : Nat
  /-- What is stored for a pair of pixels. -/
  pair : BitVec 32 → List (BitVec 32)
  /-- How often the last pixel of an odd row is stored twice over, and whether once more. -/
  lastTwice : Nat
  lastOnce : Bool

namespace Widening

variable (widening : Widening)

/-- The destination after `x` passes of the loop over pairs, where `dx` is `xmul * x`. -/
def pairs (src : Bytes) (s d : Nat) (dst : Bytes) : Nat → Bytes
  | 0 => dst
  | x + 1 =>
      storeWords (pairs src s d dst x) (d + 4 * (widening.xmul * x))
        (widening.pair (load32 src (s + 4 * x)))

/-- The last pixel of an odd row. -/
def last (src : Bytes) (s d : Nat) (dst : Bytes) (x : Nat) : Bytes :=
  let dx := widening.xmul * x
  let pix16 := load16 src (s + 2 * (x * 2))
  let twice := storeWords dst (d + 4 * dx) (List.replicate widening.lastTwice (dpix16 pix16))
  if widening.lastOnce then store16 twice (d + 2 * ((dx + widening.lastTwice) * 2)) pix16
  else twice

/-- A row from `s` of the source to `d` of the destination. -/
def line (src : Bytes) (s d sw : Nat) (dst : Bytes) : Bytes :=
  let paired := widening.pairs src s d dst (sw / 2)
  if sw % 2 = 1 then widening.last src s d paired (sw / 2) else paired

end Widening

/-- The loop that repeats the row at `dstsrc`, from the next row `d` on. -/
def repeatRow (dstsrc swl dp : Nat) : Nat → Nat → Bytes → Bytes
  | 0, _, dst => dst
  | i + 1, d, dst => repeatRow dstsrc swl dp i (d + dp) (copy dst d dst dstsrc swl)

/-- The loop over the rows of the source. -/
def scaleRows (widening : Widening) (sw sp swl dp ymul : Nat) (src : Bytes) :
    Nat → Nat → Nat → Bytes → Bytes
  | 0, _, _, dst => dst
  | sh + 1, s, d, dst =>
      let row := widening.line src s d sw dst
      scaleRows widening sw sp swl dp ymul src sh (s + sp) (d + dp + (ymul - 1) * dp)
        (repeatRow d swl dp (ymul - 1) (d + dp) row)

/-- What `scale2x_c16` to `scale6x_c16` have in common. -/
def scaleNx_c16 (widening : Widening) (ymul : Nat) : Scaler := fun args src dst =>
  if args.sw = 0 ∨ args.sh = 0 ∨ ymul = 0 then dst
  else
    let swl := args.sw * 2
    let sp := if args.sp = 0 then swl else args.sp
    let swl := swl * widening.xmul
    let dp := if args.dp = 0 then swl else args.dp
    scaleRows widening args.sw sp swl dp ymul src args.sh 0 0 dst

/-- The loop of `scale1x_c16` that copies a row `ymul` times. -/
def copyRow (src : Bytes) (s swl dp : Nat) : Nat → Nat → Bytes → Bytes
  | 0, _, dst => dst
  | i + 1, d, dst => copyRow src s swl dp i (d + dp) (copy dst d src s swl)

def copyRows (sp swl dp ymul : Nat) (src : Bytes) : Nat → Nat → Nat → Bytes → Bytes
  | 0, _, _, dst => dst
  | sh + 1, s, d, dst =>
      copyRows sp swl dp ymul src sh (s + sp) (d + ymul * dp) (copyRow src s swl dp ymul d dst)

def scale1x_c16 (ymul : Nat) : Scaler := fun args src dst =>
  if args.sw = 0 ∨ args.sh = 0 ∨ ymul = 0 then dst
  else
    let swl := args.sw * 2
    let sp := if args.sp = 0 then swl else args.sp
    let dp := if args.dp = 0 then swl * 1 else args.dp
    if ymul = 1 ∧ swl = sp ∧ sp = dp then copy dst 0 src 0 (sp * args.sh)
    else
      let swl := if swl > dp then dp else swl
      copyRows sp swl dp ymul src args.sh 0 0 dst

def widening2x : Widening := ⟨2, fun pix => [dpix1 pix, dpix2 pix], 1, false⟩

def widening3x : Widening := ⟨3, fun pix => [dpix1 pix, pix, dpix2 pix], 1, true⟩

def widening4x : Widening := ⟨4, fun pix => [dpix1 pix, dpix1 pix, dpix2 pix, dpix2 pix], 2, false⟩

def widening5x : Widening :=
  ⟨5, fun pix => [dpix1 pix, dpix1 pix, pix, dpix2 pix, dpix2 pix], 2, true⟩

def widening6x : Widening :=
  ⟨6, fun pix => [dpix1 pix, dpix1 pix, dpix1 pix, dpix2 pix, dpix2 pix, dpix2 pix], 3, false⟩

def scale2x_c16 (ymul : Nat) : Scaler := scaleNx_c16 widening2x ymul
def scale3x_c16 (ymul : Nat) : Scaler := scaleNx_c16 widening3x ymul
def scale4x_c16 (ymul : Nat) : Scaler := scaleNx_c16 widening4x ymul
def scale5x_c16 (ymul : Nat) : Scaler := scaleNx_c16 widening5x ymul
def scale6x_c16 (ymul : Nat) : Scaler := scaleNx_c16 widening6x ymul

end DarkUI
