import DarkUI.Common.Effects
import DarkUI.Common.ScalerLaws
import Mathlib.Data.List.Pairwise

/-! # What the effects draw

The scaled effects draw every pixel once when the destination's rows do not overlap and its
pitch is a whole number of pixels. The effect for an unscaled frame steps over two rows between
the row it copies and the row it darkens, so it always ends beyond the picture.
-/

namespace DarkUI

open Raster

variable {args : ScalerArgs} {src src' dst : Bytes} {s d x : Nat} {table : List Nat} {a : Pixel}

/-! ## Shading -/

/-- The three channels of a darkened pixel are those of the pixel, each times `num / den`. -/
structure Darkened (num den : Nat) (a b : Pixel) : Prop where
  less : num < den
  red : cR b = cR a * num / den
  green : cG b = cG a * num / den
  blue : cB b = cB a * num / den

theorem cR_eq (a : Pixel) : cR a = a.toNat / 2048 % 32 := by
  have hmask : (0xf800#16).toNat >>> 11 = 2 ^ 5 - 1 := by decide
  rw [cR, BitVec.toNat_ushiftRight, BitVec.toNat_and, Nat.shiftRight_and_distrib, hmask,
    Nat.and_two_pow_sub_one_eq_mod, Nat.shiftRight_eq_div_pow]

theorem cG_eq (a : Pixel) : cG a = a.toNat / 32 % 64 := by
  have hmask : (0x7e0#16).toNat >>> 5 = 2 ^ 6 - 1 := by decide
  rw [cG, BitVec.toNat_ushiftRight, BitVec.toNat_and, Nat.shiftRight_and_distrib, hmask,
    Nat.and_two_pow_sub_one_eq_mod, Nat.shiftRight_eq_div_pow]

theorem cB_eq (a : Pixel) : cB a = a.toNat % 32 := by
  have hmask : (0x1f#16).toNat = 2 ^ 5 - 1 := by decide
  rw [cB, BitVec.toNat_and, hmask, Nat.and_two_pow_sub_one_eq_mod]

/-- Channels that are small enough are packed side by side. -/
theorem toNat_pack {r g b : Nat} (hr : r < 32) (hg : g < 64) (hb : b < 32) :
    ((BitVec.ofNat 16 r <<< 11) ||| (BitVec.ofNat 16 g <<< 5) ||| BitVec.ofNat 16 b).toNat =
      r * 2048 + g * 32 + b := by
  have hred : (BitVec.ofNat 16 r <<< 11).toNat = r * 2048 := by
    rw [BitVec.toNat_shiftLeft, BitVec.toNat_ofNat, Nat.shiftLeft_eq]
    omega
  have hgreen : (BitVec.ofNat 16 g <<< 5).toNat = g * 32 := by
    rw [BitVec.toNat_shiftLeft, BitVec.toNat_ofNat, Nat.shiftLeft_eq]
    omega
  have hblue : (BitVec.ofNat 16 b).toNat = b := by
    rw [BitVec.toNat_ofNat]
    omega
  have hupper := Nat.shiftLeft_add_eq_or_of_lt (b := g * 32) (i := 11) (by omega) r
  have hlower := Nat.shiftLeft_add_eq_or_of_lt (b := b) (i := 5) (by omega) (r * 64 + g)
  have hsum : (r * 64 + g) * 2 ^ 5 = r * 2048 + g * 32 := by omega
  rw [Nat.shiftLeft_eq] at hupper
  rw [Nat.shiftLeft_eq, hsum] at hlower
  rw [BitVec.toNat_or, BitVec.toNat_or, hred, hgreen, hblue, ← hupper, ← hlower]

theorem channels_pack {r g b : Nat} (hg : g < 64) (hb : b < 32)
    (h : a.toNat = r * 2048 + g * 32 + b) : cR a = r ∧ cG a = g ∧ cB a = b := by
  rw [cR_eq, cG_eq, cB_eq, h]
  refine ⟨?_, ?_, ?_⟩ <;> omega

/-- The table holds `num / den` of every value a channel can have. -/
def Weighs (table : List Nat) (num den : Nat) : Prop :=
  num < den ∧ ∀ v < 64, table.getD v 0 = v * num / den

theorem weighs_2_5 : Weighs weight_2_5 2 5 := by
  refine ⟨by decide, ?_⟩
  decide

theorem weighs_3_5 : Weighs weight_3_5 3 5 := by
  refine ⟨by decide, ?_⟩
  decide

theorem weighs_3_4 : Weighs weight_3_4 3 4 := by
  refine ⟨by decide, ?_⟩
  decide

/-- Darkened channels are no larger, so none reaches into another. -/
theorem darkened_weigh {num den : Nat} (h : Weighs table num den) (a : Pixel) :
    Darkened num den a (weigh table a) := by
  obtain ⟨hless, htable⟩ := h
  have hsmaller : ∀ v, v * num / den ≤ v := by
    intro v
    apply Nat.div_le_of_le_mul
    rw [Nat.mul_comm den]
    exact Nat.mul_le_mul_left v (Nat.le_of_lt hless)
  have hr : cR a < 32 := cR_eq a ▸ Nat.mod_lt _ (by decide)
  have hg : cG a < 64 := cG_eq a ▸ Nat.mod_lt _ (by decide)
  have hb : cB a < 32 := cB_eq a ▸ Nat.mod_lt _ (by decide)
  have hred := Nat.lt_of_le_of_lt (hsmaller (cR a)) hr
  have hgreen := Nat.lt_of_le_of_lt (hsmaller (cG a)) hg
  have hblue := Nat.lt_of_le_of_lt (hsmaller (cB a)) hb
  have hweigh : (weigh table a).toNat =
      cR a * num / den * 2048 + cG a * num / den * 32 + cB a * num / den := by
    rw [← toNat_pack hred hgreen hblue, weigh, htable _ (by omega), htable _ hg,
      htable _ (by omega)]
  obtain ⟨hcR, hcG, hcB⟩ := channels_pack hgreen hblue hweigh
  exact ⟨hless, hcR, hcG, hcB⟩

/-! ## The unscaled effect -/

theorem shadeRow_eq : shadeRow src s d dst x =
    storePixels dst d ((List.range x).map fun x => weight3_1 (load16 src (s + 2 * x))) := by
  induction x with
  | zero => rfl
  | succ x ih =>
      rw [List.range_succ, List.map_append, storePixels_append, List.length_map, List.length_range,
        ← ih]
      rfl

/-- The first pixel of a row that the loop has darkened. -/
theorem load16_shadeRow {sw : Nat} (hsw : 0 < sw) :
    load16 (shadeRow src s d dst sw) d = weight3_1 (load16 src s) := by
  obtain ⟨k, rfl⟩ := Nat.exists_eq_add_of_le' hsw
  rw [shadeRow_eq, List.range_succ_eq_map, List.map_cons, load16_storePixels]
  rfl

/-- The last pass ends two rows behind the row it has copied. -/
theorem load16_lineLoop {sw cpyPitch srcStride dstStride : Nat} (hsw : 0 < sw) (passes : Nat) :
    load16 (lineLoop src sw cpyPitch srcStride dstStride (passes + 1) s d dst)
        (d + (passes + 1) * (2 * dstStride)) =
      weight3_1 (load16 src (s + (passes + 1) * (2 * srcStride))) := by
  induction passes generalizing s d dst with
  | zero =>
      rw [Nat.zero_add, Nat.one_mul, Nat.one_mul]
      exact load16_shadeRow hsw
  | succ passes ih =>
      have hplace : ∀ a stride : Nat,
          a + (passes + 1 + 1) * stride = a + stride + (passes + 1) * stride := by
        intro a stride
        ring
      rw [hplace d, hplace s, lineLoop]
      exact ih

/-- A picture of the source with its odd rows darkened, made from its rows only and without a
write beyond them. -/
structure LinePicture (args : ScalerArgs) (src dst : Bytes) : Prop where
  rows : ∀ y < args.sh, ∀ x < args.sw,
    load16 (scale1x_line args src dst) (y * args.dp + 2 * x) =
      if y % 2 = 0 then load16 src (y * args.sp + 2 * x)
      else weight3_1 (load16 src (y * args.sp + 2 * x))
  reads : ∀ other : Bytes, (∀ i < args.sh * args.sp, other i = src i) →
    scale1x_line args other dst = scale1x_line args src dst
  writes : ∀ i, args.sh * args.dp ≤ i → scale1x_line args src dst i = dst i

/-- The row the last pass ends with, which is not a row of the picture. -/
theorem load16_scale1x_line (hsw : 0 < args.sw) (hsh : 0 < args.sh) (src dst : Bytes) :
    load16 (scale1x_line args src dst) ((args.sh + 1) / 2 * 2 * args.dp) =
      weight3_1 (load16 src ((args.sh + 1) / 2 * 2 * args.sp)) := by
  obtain ⟨passes, hpasses⟩ : ∃ passes, (args.sh + 1) / 2 = passes + 1 :=
    ⟨(args.sh + 1) / 2 - 1, by omega⟩
  have hstride : ∀ pitch : Nat, 2 * pitch / 2 = pitch := fun pitch =>
    Nat.mul_div_cancel_left pitch (by decide)
  unfold scale1x_line
  simp only [hpasses, hstride]
  rw [Nat.mul_assoc, Nat.mul_assoc, ← Nat.zero_add ((passes + 1) * (2 * args.dp)),
    ← Nat.zero_add ((passes + 1) * (2 * args.sp))]
  exact load16_lineLoop hsw passes

theorem lineLoop_empty {cpyPitch srcStride dstStride : Nat} (hcpy : cpyPitch = 0) (passes : Nat) :
    lineLoop src 0 cpyPitch srcStride dstStride passes s d dst = dst := by
  induction passes generalizing s d dst with
  | zero => rfl
  | succ passes ih =>
      have hnothing : copy dst d src s cpyPitch = dst := by
        funext i
        exact if_neg (by omega)
      rw [lineLoop, hnothing]
      exact ih

theorem scale1x_line_empty (h : args.sw = 0 ∨ args.sh = 0) : scale1x_line args src dst = dst := by
  unfold scale1x_line
  rcases h with hsw | hsh
  · rw [hsw]
    apply lineLoop_empty
    split <;> omega
  · rw [hsh]
    rfl

/-- A darkened pixel can be black or not. -/
theorem exists_weight3_1_ne (a : Pixel) : ∃ b, weight3_1 b ≠ a := by
  by_cases hblack : a = 0
  · exact ⟨0xffff, by rw [hblack]; decide⟩
  · exact ⟨0, fun heq => hblack (heq.symm.trans (by decide))⟩

/-- The unscaled effect draws its picture only where there is nothing to draw. -/
theorem linePicture_iff (args : ScalerArgs) (src dst : Bytes) :
    LinePicture args src dst ↔ args.sw = 0 ∨ args.sh = 0 := by
  constructor
  · intro h
    by_contra hsome
    have hsw : 0 < args.sw := by omega
    have hsh : 0 < args.sh := by omega
    -- Another picture that differs only behind its last row is drawn differently.
    obtain ⟨pixel, hpixel⟩ :=
      exists_weight3_1_ne (weight3_1 (load16 src ((args.sh + 1) / 2 * 2 * args.sp)))
    have hbehind : args.sh * args.sp ≤ (args.sh + 1) / 2 * 2 * args.sp :=
      Nat.mul_le_mul_right _ (by omega)
    have hsame := h.reads (storePixels src ((args.sh + 1) / 2 * 2 * args.sp) [pixel]) (by
      intro i hi
      rw [storePixels_apply, if_neg (by omega)])
    have hother := load16_scale1x_line hsw hsh
      (storePixels src ((args.sh + 1) / 2 * 2 * args.sp) [pixel]) dst
    rw [hsame, load16_scale1x_line hsw hsh src dst, load16_storePixels] at hother
    exact hpixel hother.symm
  · intro h
    refine ⟨fun y hy x hx => ?_, fun other _ => ?_, fun i _ => ?_⟩
    · rcases h with hsw | hsh
      · rw [hsw] at hx
        exact absurd hx (Nat.not_lt_zero x)
      · rw [hsh] at hy
        exact absurd hy (Nat.not_lt_zero y)
    · rw [scale1x_line_empty h, scale1x_line_empty h]
    · rw [scale1x_line_empty h]

/-- Two white rows on a black screen: the second one is not drawn. -/
theorem linePicture_two_rows :
    ¬LinePicture ⟨1, 2, 2, 1, 2, 2⟩ (fun _ => 0xff) (fun _ => 0) := by
  intro h
  have hrow := h.rows 1 (by decide) 0 (by decide)
  exact absurd hrow (by decide)

/-! ## The scaled effects -/

theorem zipIdx_map_range {α : Type*} (f : Nat → α) (n : Nat) :
    ((List.range n).map f).zipIdx = (List.range n).map fun i => (f i, i) := by
  refine List.ext_getElem (by simp) fun i hi _ => ?_
  simp

namespace Effect

variable {effect : Effect} {P : Nat × Nat}

/-- What becomes of a pixel in the column `x` and the row `y` of its square. -/
def shade (effect : Effect) (x y : Nat) (c : Pixel) : Pixel :=
  ((effect.square c).getD y []).getD x c

/-- The square has as many rows and columns as the scale says. -/
structure IsSquare (effect : Effect) : Prop where
  two_le : 2 ≤ effect.mul
  square : ∀ c, effect.square c =
    (List.range effect.mul).map fun y => (List.range effect.mul).map fun x => effect.shade x y c

theorem pass_eq (h : effect.IsSquare) (dw dstRow : Nat) (c : Pixel) :
    effect.pass dw dstRow c = (raster effect.mul effect.mul).map fun P =>
      (dstRow + 2 * (dw * P.2 + P.1), effect.shade P.1 P.2 c) := by
  rw [pass, h.square c, zipIdx_map_range, raster, List.flatMap_map, List.map_flatMap]
  refine List.flatMap_congr fun y _ => ?_
  rw [zipIdx_map_range, List.map_map, List.map_map]
  rfl

/-- The pixels of the destination in the order they are drawn in: square by square. -/
def order (n w h : Nat) : List (Nat × Nat) :=
  (raster w h).flatMap fun Q => (raster n n).map fun P => (n * Q.1 + P.1, n * Q.2 + P.2)

/-- Where a pixel of the destination is stored. -/
def address (effect : Effect) (args : ScalerArgs) (P : Nat × Nat) : Nat :=
  P.2 / effect.mul * args.dp * effect.mul + 2 * (effect.mul * (P.1 / effect.mul)) +
    2 * (args.dp / 2 * (P.2 % effect.mul) + P.1 % effect.mul)

/-- What a pixel of the destination is to be. -/
def shown (effect : Effect) (args : ScalerArgs) (src : Bytes) (P : Nat × Nat) : Pixel :=
  effect.shade (P.1 % effect.mul) (P.2 % effect.mul)
    (load16 src (P.2 / effect.mul * args.sp + 2 * (P.1 / effect.mul)))

/-- A pixel of the destination tells which square it is in. -/
theorem div_square {n : Nat} (a : Nat) {b : Nat} (hb : b < n) : (n * a + b) / n = a := by
  rw [Nat.mul_add_div (Nat.zero_lt_of_lt hb), Nat.div_eq_of_lt hb, Nat.add_zero]

theorem stores_eq (h : effect.IsSquare) (args : ScalerArgs) (src : Bytes) :
    effect.stores args src = (order effect.mul args.sw args.sh).map fun P =>
      (effect.address args P, effect.shown args src P) := by
  rw [stores, order, List.map_flatMap, flatMap_raster]
  refine List.flatMap_congr fun y _ => List.flatMap_congr fun x _ => ?_
  rw [pass_eq h, List.map_map]
  refine List.map_congr_left fun P hP => ?_
  obtain ⟨hx, hy⟩ := mem_raster.mp hP
  have hmod (a : Nat) {b : Nat} (hb : b < effect.mul) :
      (effect.mul * a + b) % effect.mul = b := by
    rw [Nat.mul_add_mod, Nat.mod_eq_of_lt hb]
  simp only [Function.comp_apply, address, shown, div_square _ hx, div_square _ hy, hmod _ hx,
    hmod _ hy]

theorem nodup_order (n w h : Nat) : (order n w h).Nodup := by
  rw [order, List.nodup_flatMap]
  constructor
  · intro Q _
    refine (nodup_raster n n).map fun P P' heq => ?_
    simp only [Prod.mk.injEq, Nat.add_left_cancel_iff] at heq
    exact Prod.ext heq.1 heq.2
  · refine (nodup_raster w h).imp fun {Q Q'} hne P hP hP' => hne ?_
    obtain ⟨R, hR, rfl⟩ := List.mem_map.mp hP
    obtain ⟨R', hR', heq⟩ := List.mem_map.mp hP'
    obtain ⟨hx, hy⟩ := mem_raster.mp hR
    obtain ⟨hx', hy'⟩ := mem_raster.mp hR'
    -- the pixel is in one square only
    have hcolumn := congrArg (fun P : Nat × Nat => P.1 / n) heq
    have hrow := congrArg (fun P : Nat × Nat => P.2 / n) heq
    simp only [div_square _ hx, div_square _ hx', div_square _ hy, div_square _ hy']
      at hcolumn hrow
    exact Prod.ext hcolumn.symm hrow.symm

theorem mem_order {n : Nat} (hn : 0 < n) {w h : Nat} {P : Nat × Nat} :
    P ∈ order n w h ↔ P.1 < n * w ∧ P.2 < n * h := by
  rw [order, List.mem_flatMap]
  constructor
  · rintro ⟨Q, hQ, hP⟩
    obtain ⟨R, hR, rfl⟩ := List.mem_map.mp hP
    obtain ⟨hx, hy⟩ := mem_raster.mp hR
    obtain ⟨hX, hY⟩ := mem_raster.mp hQ
    have hless {a b k : Nat} (ha : a < k) (hb : b < n) : n * a + b < n * k := by
      have hmul : n * (a + 1) ≤ n * k := Nat.mul_le_mul_left n ha
      rw [Nat.mul_succ] at hmul
      omega
    exact ⟨hless hX hx, hless hY hy⟩
  · rintro ⟨hx, hy⟩
    refine ⟨(P.1 / n, P.2 / n), mem_raster.mpr ⟨Nat.div_lt_of_lt_mul hx, Nat.div_lt_of_lt_mul hy⟩,
      List.mem_map.mpr ⟨(P.1 % n, P.2 % n),
        mem_raster.mpr ⟨Nat.mod_lt _ hn, Nat.mod_lt _ hn⟩, ?_⟩⟩
    exact Prod.ext (Nat.div_add_mod _ _) (Nat.div_add_mod _ _)

/-- Drawn square by square, each pixel of the destination has its turn once. -/
theorem order_perm {n : Nat} (hn : 0 < n) (w h : Nat) :
    (order n w h).Perm (raster (n * w) (n * h)) := by
  rw [List.perm_ext_iff_of_nodup (nodup_order n w h) (nodup_raster _ _)]
  intro P
  rw [mem_order hn, mem_raster]

/-- The stores are those of a picture `n` times as large, each of its pixels once, and no two of
them overlap. -/
structure DrawsOnce (effect : Effect) (args : ScalerArgs) (src : Bytes) (stores : List Store) :
    Prop where
  exactly : stores.Perm ((raster (effect.mul * args.sw) (effect.mul * args.sh)).map fun P =>
    (P.2 * args.dp + 2 * P.1, effect.shown args src P))
  once : stores.Pairwise fun s t => Apart s.1 t.1

/-- There is nothing to draw, or the destination's pitch is a whole number of pixels and no
smaller than a row. -/
def Pitched (n : Nat) (args : ScalerArgs) : Prop :=
  args.sw = 0 ∨ args.sh = 0 ∨ args.dp % 2 = 0 ∧ 2 * (n * args.sw) ≤ args.dp

theorem address_eq (heven : args.dp % 2 = 0) (P : Nat × Nat) :
    effect.address args P = P.2 * args.dp + 2 * P.1 := by
  obtain ⟨dw, hdw⟩ : ∃ dw, args.dp = 2 * dw := ⟨args.dp / 2, by omega⟩
  have hcolumn := Nat.div_add_mod P.1 effect.mul
  have hrow := Nat.div_add_mod P.2 effect.mul
  have hhalf : 2 * dw / 2 = dw := Nat.mul_div_cancel_left dw Nat.zero_lt_two
  rw [address, hdw, hhalf]
  calc P.2 / effect.mul * (2 * dw) * effect.mul + 2 * (effect.mul * (P.1 / effect.mul)) +
      2 * (dw * (P.2 % effect.mul) + P.1 % effect.mul)
    _ = (effect.mul * (P.2 / effect.mul) + P.2 % effect.mul) * (2 * dw) +
        2 * (effect.mul * (P.1 / effect.mul) + P.1 % effect.mul) := by ring
    _ = P.2 * (2 * dw) + 2 * P.1 := by rw [hrow, hcolumn]

theorem raster_empty {n : Nat} (h : args.sw = 0 ∨ args.sh = 0) :
    raster (n * args.sw) (n * args.sh) = [] := by
  rw [List.eq_nil_iff_forall_not_mem]
  intro P hP
  obtain ⟨hx, hy⟩ := mem_raster.mp hP
  rcases h with hsw | hsh
  · rw [hsw] at hx
    exact Nat.not_lt_zero _ hx
  · rw [hsh] at hy
    exact Nat.not_lt_zero _ hy

/-- On a pitch that fits, the pixels are drawn where they belong, square by square. -/
theorem drawsOnce_of_pitched (h : effect.IsSquare) (hpitch : Pitched effect.mul args) :
    effect.DrawsOnce args src (effect.stores args src) := by
  have hperm := order_perm (Nat.lt_of_lt_of_le Nat.zero_lt_two h.two_le) args.sw args.sh
  rw [stores_eq h]
  by_cases hempty : args.sw = 0 ∨ args.sh = 0
  · rw [raster_empty hempty, List.perm_nil] at hperm
    rw [hperm]
    refine ⟨?_, List.Pairwise.nil⟩
    rw [raster_empty hempty]
    exact List.Perm.refl _
  · obtain ⟨heven, hfits⟩ : args.dp % 2 = 0 ∧ 2 * (effect.mul * args.sw) ≤ args.dp := by
      unfold Pitched at hpitch
      omega
    simp only [address_eq heven]
    refine ⟨hperm.map _, ?_⟩
    rw [List.pairwise_map]
    have hnodup : (order effect.mul args.sw args.sh).Nodup :=
      hperm.nodup_iff.mpr (nodup_raster _ _)
    refine hnodup.imp_of_mem fun {P P'} hP hP' hne => ?_
    have hx := (mem_raster.mp (hperm.mem_iff.mp hP)).1
    have hx' := (mem_raster.mp (hperm.mem_iff.mp hP')).1
    exact apart_of_ne hfits hx hx' hne

/-- The address of the first pixel of the second row is stored to only if it is even. -/
theorem even_of_address {P : Nat × Nat} (hmul : 2 ≤ effect.mul)
    (h : effect.address args P = args.dp) : args.dp % 2 = 0 := by
  unfold address at h
  by_cases hrow : P.2 / effect.mul = 0
  · rw [hrow, Nat.zero_mul, Nat.zero_mul] at h
    omega
  · -- Any other square lies further down.
    have hbelow : args.dp * 2 ≤ P.2 / effect.mul * args.dp * effect.mul := by
      have hpos : 1 * args.dp ≤ P.2 / effect.mul * args.dp :=
        Nat.mul_le_mul_right _ (Nat.pos_of_ne_zero hrow)
      rw [Nat.one_mul] at hpos
      exact Nat.mul_le_mul hpos hmul
    omega

/-- The pixels of a picture are drawn once each only on a pitch that fits. -/
theorem pitched_of_drawsOnce (h : effect.IsSquare)
    (hdraws : effect.DrawsOnce args src (effect.stores args src)) : Pitched effect.mul args := by
  by_contra hnot
  unfold Pitched at hnot
  have hmul := h.two_le
  have hw : effect.mul ≤ effect.mul * args.sw := Nat.le_mul_of_pos_right _ (by omega)
  have hh : effect.mul ≤ effect.mul * args.sh := Nat.le_mul_of_pos_right _ (by omega)
  have hsecond : ((0, 1) : Nat × Nat) ∈ raster (effect.mul * args.sw) (effect.mul * args.sh) :=
    mem_raster.mpr ⟨by omega, by omega⟩
  have heven : args.dp % 2 = 0 := by
    have hmem := hdraws.exactly.mem_iff.mpr (List.mem_map_of_mem hsecond)
    rw [stores_eq h] at hmem
    obtain ⟨P, -, hP⟩ := List.mem_map.mp hmem
    have haddress := congrArg Prod.fst hP
    simp only [Nat.one_mul, Nat.mul_zero, Nat.add_zero] at haddress
    exact even_of_address hmul haddress
  -- The second row begins within the first.
  have hfirst : ((args.dp / 2, 0) : Nat × Nat) ∈
      raster (effect.mul * args.sw) (effect.mul * args.sh) := mem_raster.mpr ⟨by omega, by omega⟩
  have honce := hdraws.exactly.pairwise hdraws.once fun hst => hst.symm
  rw [List.pairwise_map] at honce
  have hsymm : Std.Symm fun P Q : Nat × Nat =>
      Apart (P.2 * args.dp + 2 * P.1) (Q.2 * args.dp + 2 * Q.1) := ⟨fun _ _ hPQ => hPQ.symm⟩
  have hapart := honce.forall hfirst hsecond (by simp)
  simp only [Apart, Nat.zero_mul, Nat.one_mul, Nat.mul_zero, Nat.zero_add, Nat.add_zero] at hapart
  omega

/-- The destination after drawing: every pixel shaded, and nothing outside changed. -/
structure Shown (effect : Effect) (args : ScalerArgs) (src before after : Bytes) : Prop where
  drawn : ∀ y < effect.mul * args.sh, ∀ x < effect.mul * args.sw,
    load16 after (y * args.dp + 2 * x) = effect.shown args src (x, y)
  kept : ∀ i, (∀ y < effect.mul * args.sh, ∀ x < effect.mul * args.sw,
    i < y * args.dp + 2 * x ∨ y * args.dp + 2 * x + 2 ≤ i) → after i = before i

/-- What is drawn once is there in the end. -/
theorem DrawsOnce.shown {stores : List Store} (h : effect.DrawsOnce args src stores)
    (dst : Bytes) : effect.Shown args src dst (storeAll dst stores) := by
  constructor
  · intro y hy x hx
    have hraster : (x, y) ∈ raster (effect.mul * args.sw) (effect.mul * args.sh) :=
      mem_raster.mpr ⟨hx, hy⟩
    have hmem : (y * args.dp + 2 * x, effect.shown args src (x, y)) ∈ stores :=
      h.exactly.mem_iff.mpr (List.mem_map.mpr ⟨(x, y), hraster, rfl⟩)
    have hpixel := load16_storeAll (m := dst) hmem h.once
    exact hpixel
  · intro i hi
    refine storeAll_kept fun store hstore => ?_
    obtain ⟨P, hP, rfl⟩ := List.mem_map.mp (h.exactly.mem_iff.mp hstore)
    obtain ⟨hx, hy⟩ := mem_raster.mp hP
    exact hi P.2 hy P.1 hx

end Effect

/-- A pixel is left as it is, or all its channels are darkened alike. -/
def Shades (f : Pixel → Pixel) : Prop :=
  (∀ c, f c = c) ∨ ∃ num den, ∀ c, Darkened num den c (f c)

theorem shades_id : Shades id := .inl fun _ => rfl
theorem shades_weight2_3 : Shades weight2_3 := .inr ⟨2, 5, darkened_weigh weighs_2_5⟩
theorem shades_weight3_1 : Shades weight3_1 := .inr ⟨3, 4, darkened_weigh weighs_3_4⟩
theorem shades_weight3_2 : Shades weight3_2 := .inr ⟨3, 5, darkened_weigh weighs_3_5⟩

/-- A square whose pixels are each shaded in a way of their own. -/
theorem Effect.shades_of_rows {effect : Effect} {rows : List (List (Pixel → Pixel))}
    (hsquare : ∀ c, effect.square c = rows.map fun row => row.map fun f => f c)
    (hrows : ∀ row ∈ rows, ∀ f ∈ row, Shades f) (x y : Nat) : Shades (effect.shade x y) := by
  cases hrow : rows[y]? with
  | none =>
      refine .inl fun c => ?_
      simp [shade, hsquare, hrow]
  | some row =>
      cases hf : row[x]? with
      | none =>
          refine .inl fun c => ?_
          simp [shade, hsquare, hrow, hf]
      | some f =>
          have hshade : effect.shade x y = f := by
            funext c
            simp [shade, hsquare, hrow, hf]
          rw [hshade]
          exact hrows row (List.mem_of_getElem? hrow) f (List.mem_of_getElem? hf)

/-- The scaled effects. -/
inductive ScaledEffect
  | line2x
  | line3x
  | line4x
  | grid2x
  | grid3x
  deriving DecidableEq, Repr

namespace ScaledEffect

def effect : ScaledEffect → Effect
  | line2x => DarkUI.line2x
  | line3x => DarkUI.line3x
  | line4x => DarkUI.line4x
  | grid2x => DarkUI.grid2x
  | grid3x => DarkUI.grid3x

theorem isSquare (scaled : ScaledEffect) : scaled.effect.IsSquare := by
  cases scaled <;> exact ⟨by decide, fun _ => rfl⟩

/-- The squares of the five functions, as what they do to a pixel. -/
def rows : ScaledEffect → List (List (Pixel → Pixel))
  | line2x => [[id, id], [weight3_2, weight3_2]]
  | line3x => [[weight3_2, weight3_2, weight3_2], [id, id, id], [id, id, id]]
  | line4x => [[id, id, id, id], [weight3_2, weight3_2, weight3_2, weight3_2], [id, id, id, id],
      [weight3_2, weight3_2, weight3_2, weight3_2]]
  | grid2x => [[weight3_1, weight3_1], [weight3_1, id]]
  | grid3x => [[weight3_2, id, id], [weight3_2, id, id], [weight2_3, weight3_2, weight3_2]]

theorem shades (scaled : ScaledEffect) (x y : Nat) : Shades (scaled.effect.shade x y) := by
  have hsquare (c : Pixel) :
      scaled.effect.square c = scaled.rows.map fun row => row.map fun f => f c := by
    cases scaled <;> rfl
  have hrows : ∀ row ∈ scaled.rows, ∀ f ∈ row, Shades f := by
    cases scaled <;>
      simp [rows, shades_id, shades_weight2_3, shades_weight3_1, shades_weight3_2]
  exact Effect.shades_of_rows hsquare hrows x y

end ScaledEffect

/-- Every scaled effect leaves a pixel as it is or darkens its channels, by its place in the
square alone, and draws each pixel of the destination once just when the pitch fits. -/
theorem scaledEffect_drawsOnce (scaled : ScaledEffect) (args : ScalerArgs) (src : Bytes) :
    (∀ x y, Shades (scaled.effect.shade x y)) ∧
      (scaled.effect.DrawsOnce args src (scaled.effect.stores args src) ↔
        Effect.Pitched scaled.effect.mul args) ∧
      (Effect.Pitched scaled.effect.mul args → ∀ dst, scaled.effect.Shown args src dst
        (scaled.effect.scaler args src dst)) := by
  refine ⟨scaled.shades, ⟨Effect.pitched_of_drawsOnce scaled.isSquare,
    Effect.drawsOnce_of_pitched scaled.isSquare⟩, fun hpitch dst => ?_⟩
  exact (Effect.drawsOnce_of_pitched scaled.isSquare hpitch).shown dst

/-- A pitch of five bytes: the second row of the square is not where the pitch has it. -/
theorem line2x_odd_pitch :
    ¬∀ (scaled : ScaledEffect) (args : ScalerArgs) (src : Bytes),
      scaled.effect.DrawsOnce args src (scaled.effect.stores args src) := by
  intro h
  have hdraws := h .line2x ⟨1, 1, 2, 2, 2, 5⟩ fun _ => 0
  have hsecond : (5, weight3_2 0) ∈ (raster 2 2).map fun P =>
      (P.2 * 5 + 2 * P.1, line2x.shown ⟨1, 1, 2, 2, 2, 5⟩ (fun _ => 0) P) := by decide
  exact absurd (hdraws.exactly.mem_iff.mpr hsecond) (by decide)

end DarkUI
