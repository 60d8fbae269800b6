import DarkUI.Common.Scaler
import Mathlib.Tactic.Ring

/-! # The plain scalers draw the nearest pixel

Whatever a scaler stores at once, a row of its source becomes the same list of pixels, each as
often as the scale says. Rows stored one behind the other make up the picture.
-/

namespace DarkUI

open Raster

variable {widening : Widening} {src dst : Bytes} {s d sw x n : Nat} {args : ScalerArgs}

/-- A row with each pixel as often as the scale says. -/
def widened (n : Nat) (src : Bytes) (s sw : Nat) : List Pixel :=
  (List.range sw).flatMap fun x => List.replicate n (load16 src (s + 2 * x))

theorem widened_succ : widened n src s (sw + 1) =
    widened n src s sw ++ List.replicate n (load16 src (s + 2 * sw)) := by
  simp [widened, List.range_succ]

@[simp] theorem length_widened : (widened n src s sw).length = n * sw := by
  induction sw with
  | zero => rfl
  | succ sw ih =>
      rw [widened_succ, List.length_append, List.length_replicate, ih]
      rfl

theorem getElem?_widened (h : x < n * sw) :
    (widened n src s sw)[x]? = some (load16 src (s + 2 * (x / n))) := by
  induction sw with
  | zero => exact absurd h (Nat.not_lt_zero x)
  | succ sw ih =>
      rw [widened_succ]
      by_cases hbefore : x < n * sw
      · rw [List.getElem?_append_left (by rw [length_widened]; exact hbefore), ih hbefore]
      · have hlt : x - n * sw < n := by
          rw [Nat.mul_succ] at h
          omega
        have hdiv : x / n = sw := by
          apply Nat.div_eq_of_lt_le
          · rw [Nat.mul_comm]
            exact Nat.not_lt.mp hbefore
          · rw [Nat.mul_comm]
            exact h
        rw [List.getElem?_append_right (by rw [length_widened]; exact Nat.not_lt.mp hbefore),
          length_widened, List.getElem?_replicate_of_lt hlt, hdiv]

namespace Widening

/-- What is stored for a pair, and for a last pixel, is each of them as often as the scale says. -/
structure Widens (widening : Widening) : Prop where
  pair : ∀ word, halves (widening.pair word) =
    List.replicate widening.xmul (low word) ++ List.replicate widening.xmul (high word)
  last : widening.xmul = 2 * widening.lastTwice + if widening.lastOnce then 1 else 0

theorem pairs_eq (h : widening.Widens) :
    widening.pairs src s d dst x = storePixels dst d (widened widening.xmul src s (2 * x)) := by
  induction x with
  | zero => rfl
  | succ x ih =>
      have hplace : d + 4 * (widening.xmul * x) =
          d + 2 * (widened widening.xmul src s (2 * x)).length := by
        rw [length_widened]
        ring
      have hnext : widened widening.xmul src s (2 * (x + 1)) =
          widened widening.xmul src s (2 * x) ++
            (List.replicate widening.xmul (load16 src (s + 4 * x)) ++
              List.replicate widening.xmul (load16 src (s + 4 * x + 2))) := by
        have htwo : 2 * (x + 1) = 2 * x + 1 + 1 := by ring
        have hfirst : s + 2 * (2 * x) = s + 4 * x := by ring
        have hsecond : s + 2 * (2 * x + 1) = s + 4 * x + 2 := by ring
        rw [htwo, widened_succ, widened_succ, List.append_assoc, hfirst, hsecond]
      rw [pairs, ih, storeWords_eq, h.pair, low_load32, high_load32, hplace, ← storePixels_append,
        hnext]

theorem halves_dpix16 (k : Nat) (pix16 : Pixel) :
    halves (List.replicate k (dpix16 pix16)) = List.replicate (2 * k) pix16 := by
  have htwice : dpix16 pix16 = pix16 ++ pix16 := pixel_twice pix16
  have hlow : low (pix16 ++ pix16) = pix16 := BitVec.setWidth_append_eq_right
  induction k with
  | zero => rfl
  | succ k ih =>
      rw [List.replicate_succ]
      exact (congrArg₂ List.cons (by rw [htwice, hlow])
        (congrArg₂ List.cons (by rw [htwice, high_pair]) ih))

theorem last_eq (h : widening.Widens) : widening.last src s d dst x =
    storePixels dst (d + 4 * (widening.xmul * x))
      (List.replicate widening.xmul (load16 src (s + 4 * x))) := by
  have hpixel : s + 2 * (x * 2) = s + 4 * x := by ring
  unfold last
  simp only [hpixel, storeWords_eq, halves_dpix16]
  cases honce : widening.lastOnce with
  | false =>
      have hcount := h.last
      simp only [honce, Bool.false_eq_true, if_false, Nat.add_zero] at hcount ⊢
      rw [hcount]
  | true =>
      have hcount := h.last
      have hplace : d + 2 * ((widening.xmul * x + widening.lastTwice) * 2) =
          d + 4 * (widening.xmul * x) + 2 * (2 * widening.lastTwice) := by ring
      have hlength : (List.replicate (2 * widening.lastTwice) (load16 src (s + 4 * x))).length =
          2 * widening.lastTwice := List.length_replicate
      simp only [honce, if_true] at hcount ⊢
      rw [hcount, List.replicate_succ', storePixels_append, hlength, ← hcount, hplace]
      rfl

/-- A row becomes each of its pixels as often as the scale says, odd rows included. -/
theorem line_eq (h : widening.Widens) :
    widening.line src s d sw dst = storePixels dst d (widened widening.xmul src s sw) := by
  unfold line
  by_cases hodd : sw % 2 = 1
  · have hsplit : sw = 2 * (sw / 2) + 1 := by omega
    have hplace : d + 4 * (widening.xmul * (sw / 2)) =
        d + 2 * (widened widening.xmul src s (2 * (sw / 2))).length := by
      rw [length_widened]
      ring
    have hpixel : s + 4 * (sw / 2) = s + 2 * (2 * (sw / 2)) := by ring
    rw [if_pos hodd, pairs_eq h, last_eq h, hplace, ← storePixels_append, hpixel, ← widened_succ,
      ← hsplit]
  · have hsplit : 2 * (sw / 2) = sw := by omega
    rw [if_neg hodd, pairs_eq h, hsplit]

end Widening

/-- Copies of one row below each other. -/
theorem rows_repeatRow {m : Bytes} {b len dp : Nat} (k : Nat) (hbehind : b + len ≤ d)
    (hlen : len ≤ dp) :
    Rows m (repeatRow b len dp k d m) d dp len k fun _ t => m (b + t) := by
  induction k generalizing m d with
  | zero => exact Rows.none
  | succ k ih =>
      have hfirst := Rows.copy m d dp len m b
      have hplace : d + 1 * dp = d + dp := by rw [Nat.one_mul]
      have hrest := ih (m := copy m d m b len) (d := d + dp) (by omega)
      rw [← hplace] at hrest
      have hall := hfirst.append hrest hlen
      rw [Nat.add_comm 1 k, hplace] at hall
      refine hall.congr fun y _ t ht => ?_
      -- The row that is copied lies before the copies.
      have hkept : copy m d m b len (b + t) = m (b + t) := if_neg (by omega)
      split
      · rfl
      · exact hkept

/-- One row of the source as the rows it becomes. -/
theorem rows_group (h : widening.Widens) {dp ymul : Nat} (hymul : 0 < ymul)
    (hlen : 2 * (widening.xmul * sw) ≤ dp) (src : Bytes) (s d : Nat) (dst : Bytes) :
    Rows dst (repeatRow d (2 * (widening.xmul * sw)) dp (ymul - 1) (d + dp)
        (widening.line src s d sw dst)) d dp (2 * (widening.xmul * sw)) ymul
      fun _ => bytesOf (widened widening.xmul src s sw) := by
  have hline := Rows.storePixels dst d dp (widened widening.xmul src s sw)
  rw [← Widening.line_eq h, length_widened] at hline
  have hplace : d + 1 * dp = d + dp := by rw [Nat.one_mul]
  have hrest := rows_repeatRow (m := widening.line src s d sw dst) (b := d) (d := d + dp)
    (ymul - 1) (by omega) hlen
  rw [← hplace] at hrest
  have hall := hline.append hrest hlen
  rw [Nat.add_sub_cancel' hymul, hplace] at hall
  refine hall.congr fun y _ t ht => ?_
  have hfirst := hline.filled 0 Nat.one_pos t ht
  rw [Nat.zero_mul, Nat.add_zero] at hfirst
  split
  · rfl
  · exact hfirst

theorem div_group {ymul y : Nat} (hymul : 0 < ymul) (hy : ymul ≤ y) :
    y / ymul = (y - ymul) / ymul + 1 := by
  rw [Nat.div_eq_sub_div hymul hy]

/-- Groups of rows, one for each row of the source. -/
theorem rows_scaleRows (h : widening.Widens) {dp ymul : Nat} (hymul : 0 < ymul)
    (hlen : 2 * (widening.xmul * sw) ≤ dp) (src : Bytes) (sp sh s d : Nat) (dst : Bytes) :
    Rows dst (scaleRows widening sw sp (2 * (widening.xmul * sw)) dp ymul src sh s d dst) d dp
      (2 * (widening.xmul * sw)) (sh * ymul)
      fun y => bytesOf (widened widening.xmul src (s + y / ymul * sp) sw) := by
  induction sh generalizing s d dst with
  | zero =>
      rw [Nat.zero_mul]
      exact Rows.none
  | succ sh ih =>
      have hgroup := rows_group h hymul hlen src s d dst
      have hplace : d + dp + (ymul - 1) * dp = d + ymul * dp := by
        obtain ⟨k, rfl⟩ := Nat.exists_eq_add_of_le' hymul
        rw [Nat.add_sub_cancel]
        ring
      have hrest := ih (s + sp) (d + ymul * dp)
        (repeatRow d (2 * (widening.xmul * sw)) dp (ymul - 1) (d + dp)
          (widening.line src s d sw dst))
      have hall := hgroup.append hrest hlen
      have hcount : (sh + 1) * ymul = ymul + sh * ymul := by ring
      rw [scaleRows, hplace, hcount]
      refine hall.congr fun y _ t _ => ?_
      by_cases hfirst : y < ymul
      · rw [if_pos hfirst, Nat.div_eq_of_lt hfirst, Nat.zero_mul, Nat.add_zero]
      · have hnext : s + sp + (y - ymul) / ymul * sp = s + y / ymul * sp := by
          rw [div_group hymul (Nat.not_lt.mp hfirst)]
          ring
        rw [if_neg hfirst, hnext]

/-! ## The single scale -/

theorem rows_copyRow {b len dp : Nat} (hlen : len ≤ dp) (src : Bytes) (k d : Nat) (dst : Bytes) :
    Rows dst (copyRow src b len dp k d dst) d dp len k fun _ t => src (b + t) := by
  induction k generalizing d dst with
  | zero => exact Rows.none
  | succ k ih =>
      have hall := (Rows.copy dst d dp len src b).append
        (by rw [Nat.one_mul]; exact ih (d + dp) (copy dst d src b len)) hlen
      rw [Nat.add_comm 1 k] at hall
      refine hall.congr fun y _ t _ => ?_
      split <;> rfl

theorem rows_copyRows {len dp ymul : Nat} (hymul : 0 < ymul) (hlen : len ≤ dp) (src : Bytes)
    (sp sh s d : Nat) (dst : Bytes) :
    Rows dst (copyRows sp len dp ymul src sh s d dst) d dp len (sh * ymul)
      fun y t => src (s + y / ymul * sp + t) := by
  induction sh generalizing s d dst with
  | zero =>
      rw [Nat.zero_mul]
      exact Rows.none
  | succ sh ih =>
      have hall := (rows_copyRow (b := s) hlen src ymul d dst).append
        (ih (s + sp) (d + ymul * dp) _) hlen
      have hcount : (sh + 1) * ymul = ymul + sh * ymul := by ring
      rw [copyRows, hcount]
      refine hall.congr fun y _ t _ => ?_
      by_cases hfirst : y < ymul
      · rw [if_pos hfirst, Nat.div_eq_of_lt hfirst, Nat.zero_mul, Nat.add_zero]
      · have hnext : s + sp + (y - ymul) / ymul * sp = s + y / ymul * sp := by
          rw [div_group hymul (Nat.not_lt.mp hfirst)]
          ring
        rw [if_neg hfirst, hnext]

/-! ## Nearest neighbour -/

namespace ScalerArgs

/-- The pitch a scaler uses: zero is for rows without a gap. -/
def srcPitch (args : ScalerArgs) : Nat := if args.sp = 0 then 2 * args.sw else args.sp

def dstPitch (args : ScalerArgs) (n : Nat) : Nat :=
  if args.dp = 0 then 2 * (n * args.sw) else args.dp

end ScalerArgs

/-- Arguments whose pitches are no smaller than the rows. -/
structure FittedArgs (n : Nat) extends ScalerArgs where
  src_fits : sp = 0 ∨ 2 * sw ≤ sp
  dst_fits : dp = 0 ∨ 2 * (n * sw) ≤ dp

theorem FittedArgs.le_dstPitch {n : Nat} (args : FittedArgs n) :
    2 * (n * args.sw) ≤ args.dstPitch n := by
  unfold ScalerArgs.dstPitch
  have hfits := args.dst_fits
  split <;> omega

/-- The source drawn `n` times as large, and nothing outside it changed. -/
structure IsNearest (n : Nat) (args : ScalerArgs) (src before after : Bytes) : Prop where
  drawn : ∀ y < n * args.sh, ∀ x < n * args.sw,
    load16 after (y * args.dstPitch n + 2 * x) =
      load16 src (y / n * args.srcPitch + 2 * (x / n))
  kept : ∀ i, (∀ y < n * args.sh, ¬(y * args.dstPitch n ≤ i ∧
    i < y * args.dstPitch n + 2 * (n * args.sw))) → after i = before i

/-- The scaler is nearest neighbour, `n` times as large. -/
def Nearest (n : Nat) (scaler : Scaler) : Prop :=
  ∀ (args : FittedArgs n) (src dst : Bytes),
    IsNearest n args.toScalerArgs src dst (scaler args.toScalerArgs src dst)

theorem isNearest_of_rows {args : ScalerArgs} {src before after : Bytes}
    {row : Nat → Nat → BitVec 8}
    (h : Rows before after 0 (args.dstPitch n) (2 * (n * args.sw)) (n * args.sh) row)
    (hrow : ∀ y < n * args.sh, ∀ x < n * args.sw, row y (2 * x + 1) ++ row y (2 * x) =
      load16 src (y / n * args.srcPitch + 2 * (x / n))) :
    IsNearest n args src before after := by
  constructor
  · intro y hy x hx
    have hpixel := h.load16 hy (x := x) (by omega)
    rw [Nat.zero_add] at hpixel
    rw [hpixel, hrow y hy x hx]
  · intro i hi
    refine h.kept i fun y hy => ?_
    rw [Nat.zero_add]
    exact hi y hy

theorem isNearest_of_empty {args : ScalerArgs} (h : args.sw = 0 ∨ args.sh = 0) (src dst : Bytes) :
    IsNearest n args src dst dst := by
  refine ⟨fun y hy x hx => ?_, fun _ _ => rfl⟩
  rcases h with hzero | hzero
  · rw [hzero] at hx
    exact absurd hx (Nat.not_lt_zero x)
  · rw [hzero] at hy
    exact absurd hy (Nat.not_lt_zero y)

theorem nearest_scaleNx (h : widening.Widens) (hpos : 0 < widening.xmul) :
    Nearest widening.xmul (scaleNx_c16 widening widening.xmul) := by
  intro args src dst
  unfold scaleNx_c16
  split
  next hempty => exact isNearest_of_empty (by omega) src dst
  next hempty =>
    have hswl : args.sw * 2 * widening.xmul = 2 * (widening.xmul * args.sw) := by ring
    have hsp : (if args.sp = 0 then args.sw * 2 else args.sp) = args.srcPitch := by
      rw [ScalerArgs.srcPitch, Nat.mul_comm]
    have hdp : (if args.dp = 0 then 2 * (widening.xmul * args.sw) else args.dp) =
        args.dstPitch widening.xmul := rfl
    simp only [hswl, hsp, hdp]
    have hrows := rows_scaleRows h hpos args.le_dstPitch src args.srcPitch args.sh 0 0 dst
    rw [Nat.mul_comm args.sh] at hrows
    refine isNearest_of_rows hrows fun y _ x hx => ?_
    rw [bytesOf_pair (getElem?_widened hx), Nat.zero_add]

theorem nearest_scale1x : Nearest 1 (scale1x_c16 1) := by
  intro args src dst
  have hpitch := args.le_dstPitch
  have hsp : (if args.sp = 0 then args.sw * 2 else args.sp) = args.srcPitch := by
    rw [ScalerArgs.srcPitch, Nat.mul_comm]
  have hdp : (if args.dp = 0 then args.sw * 2 * 1 else args.dp) = args.dstPitch 1 := by
    rw [ScalerArgs.dstPitch, Nat.mul_one, Nat.one_mul, Nat.mul_comm]
  rw [Nat.one_mul] at hpitch
  unfold scale1x_c16
  split
  next hempty => exact isNearest_of_empty (by omega) src dst
  next hempty =>
    simp only [hsp, hdp]
    split
    next hpacked =>
      -- Rows without gaps on either side are copied as one.
      have hlen : 2 * (1 * args.sw) = args.dstPitch 1 := by omega
      have hrows := Rows.copy_packed hlen dst 0 (1 * args.sh) src 0
      rw [Nat.one_mul args.sh] at hrows
      rw [hpacked.2.2]
      refine isNearest_of_rows (by rw [Nat.one_mul args.sh]; exact hrows) fun y _ x _ => ?_
      rw [Nat.div_one, Nat.div_one, Nat.zero_add, hpacked.2.2, load16, Nat.add_assoc _ (2 * x)]
    next =>
      have hclip : (if args.sw * 2 > args.dstPitch 1 then args.dstPitch 1 else args.sw * 2) =
          2 * (1 * args.sw) := by
        rw [if_neg (by omega)]
        ring
      rw [hclip]
      have hrows := rows_copyRows Nat.one_pos args.le_dstPitch src args.srcPitch args.sh 0 0 dst
      rw [Nat.mul_comm args.sh] at hrows
      refine isNearest_of_rows hrows fun y _ x _ => ?_
      rw [Nat.div_one, Nat.div_one, Nat.zero_add, load16, Nat.add_assoc _ (2 * x)]

/-! ## The six scales -/

@[simp] theorem low_dpix1 (pix : BitVec 32) : low (dpix1 pix) = low pix :=
  (congrArg low (low_twice pix)).trans BitVec.setWidth_append_eq_right

@[simp] theorem high_dpix1 (pix : BitVec 32) : high (dpix1 pix) = low pix :=
  (congrArg high (low_twice pix)).trans (high_pair _ _)

@[simp] theorem low_dpix2 (pix : BitVec 32) : low (dpix2 pix) = high pix :=
  (congrArg low (high_twice pix)).trans BitVec.setWidth_append_eq_right

@[simp] theorem high_dpix2 (pix : BitVec 32) : high (dpix2 pix) = high pix :=
  (congrArg high (high_twice pix)).trans (high_pair _ _)

theorem widens_2x : widening2x.Widens :=
  ⟨fun word => by simp [widening2x, halves, List.replicate_succ], rfl⟩

theorem widens_3x : widening3x.Widens :=
  ⟨fun word => by simp [widening3x, halves, List.replicate_succ], rfl⟩

theorem widens_4x : widening4x.Widens :=
  ⟨fun word => by simp [widening4x, halves, List.replicate_succ], rfl⟩

theorem widens_5x : widening5x.Widens :=
  ⟨fun word => by simp [widening5x, halves, List.replicate_succ], rfl⟩

theorem widens_6x : widening6x.Widens :=
  ⟨fun word => by simp [widening6x, halves, List.replicate_succ], rfl⟩

/-- Every plain scaler is nearest neighbour, for every size and every pitch that fits. -/
theorem scalers_nearest : Nearest 1 (scale1x_c16 1) ∧ Nearest 2 (scale2x_c16 2) ∧
    Nearest 3 (scale3x_c16 3) ∧ Nearest 4 (scale4x_c16 4) ∧ Nearest 5 (scale5x_c16 5) ∧
    Nearest 6 (scale6x_c16 6) := by
  refine ⟨nearest_scale1x, ?_, ?_, ?_, ?_, ?_⟩
  · exact nearest_scaleNx widens_2x (by decide)
  · exact nearest_scaleNx widens_3x (by decide)
  · exact nearest_scaleNx widens_4x (by decide)
  · exact nearest_scaleNx widens_5x (by decide)
  · exact nearest_scaleNx widens_6x (by decide)

end DarkUI
