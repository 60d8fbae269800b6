import DarkUI.Minarch.Preview

/-! # What the loops of the preview read and write -/

namespace DarkUI.Minarch

open Rounding FixedPoint

/-- A row or a column that a surface has. -/
def Within (size n : Int) : Prop := 0 ≤ n ∧ n < size

/-- The pixels that are used are on their surfaces. -/
def Access.Inside (src dst : Surface) : Access → Prop
  | .read x y => Within src.width x ∧ Within src.height y
  | .write x y => Within dst.width x ∧ Within dst.height y
  | .copyRow source target => Within dst.height source ∧ Within dst.height target

/-- Everything is defined, and every access is inside. -/
def Trace.Safe (src dst : Surface) (trace : Trace) : Prop :=
  ∃ accesses, trace = some accesses ∧ ∀ access ∈ accesses, access.Inside src dst

variable {src dst : Surface}

namespace Trace

theorem safe_some (accesses : List Access) :
    Safe src dst (some accesses) ↔ ∀ access ∈ accesses, access.Inside src dst := by
  constructor
  · rintro ⟨_, heq, hinside⟩
    cases heq
    exact hinside
  · intro hinside
    exact ⟨accesses, rfl, hinside⟩

theorem not_safe_none : ¬Safe src dst none := by
  rintro ⟨_, heq, -⟩
  cases heq

theorem safe_append (first second : Trace) :
    Safe src dst (first.append second) ↔ Safe src dst first ∧ Safe src dst second := by
  cases first with
  | none => exact iff_of_false not_safe_none fun h => not_safe_none h.1
  | some accesses =>
      cases second with
      | none => exact iff_of_false not_safe_none fun h => not_safe_none h.2
      | some more =>
          rw [safe_some, safe_some]
          exact (safe_some (accesses ++ more)).trans List.forall_mem_append

theorem safe_checked (n : Int) (rest : Int → Trace) :
    Safe src dst ((checked n).bind rest) ↔ IsInt n ∧ Safe src dst (rest n) := by
  unfold checked
  split
  next hint => exact (and_iff_right hint).symm
  next hint => exact iff_of_false not_safe_none fun h => hint h.1

end Trace

open Trace

theorem safe_drawRow_iff (mx row ty : Int) (n : Nat) (tx sx : Int) :
    Safe src dst (drawRow mx row ty n tx sx) ↔ ∀ k : Nat, k < n →
      IsInt (sx + (k + 1) * mx) ∧ Access.Inside src dst (.read ((sx + k * mx) / 65536) row) ∧
        Access.Inside src dst (.write (tx + k) ty) := by
  induction n generalizing tx sx with
  | zero => simp [drawRow, safe_some]
  | succ n ih =>
      rw [drawRow, safe_checked, safe_append, safe_some, ih, Nat.forall_lt_succ_left,
        List.forall_mem_cons, List.forall_mem_singleton]
      have hnext (k : Nat) : sx + mx + (k + 1) * mx = sx + ((k + 1 : Nat) + 1) * mx := by
        push_cast
        ring
      have hsample (k : Nat) : sx + mx + k * mx = sx + (k + 1 : Nat) * mx := by
        push_cast
        ring
      have hcolumn (k : Nat) : tx + 1 + (k : Int) = tx + (k + 1 : Nat) := by
        push_cast
        ring
      simp only [hnext, hsample, hcolumn, Nat.cast_zero, zero_add, one_mul, zero_mul, add_zero]
      tauto

/-- The row of the source that the row of the destination before the `k`-th showed. -/
def Sampling.previous (sampling : Sampling) (sy lr : Int) : Nat → Int
  | 0 => lr
  | k + 1 => (sy + k * sampling.my) / 65536 * sampling.sp

theorem safe_drawRows_iff (sampling : Sampling) (n : Nat) (ty sy lr : Int) :
    Safe src dst (sampling.drawRows n ty sy lr) ↔ ∀ k : Nat, k < n →
      IsInt (sy + (k + 1) * sampling.my) ∧
        Safe src dst (sampling.drawLine (ty + k) (sy + k * sampling.my)
          (sampling.previous sy lr k)) := by
  induction n generalizing ty sy lr with
  | zero => simp [Sampling.drawRows, safe_some]
  | succ n ih =>
      rw [Sampling.drawRows, safe_checked, safe_append, ih, Nat.forall_lt_succ_left]
      have hnext (k : Nat) : sy + sampling.my + (k + 1) * sampling.my =
          sy + ((k + 1 : Nat) + 1) * sampling.my := by
        push_cast
        ring
      have hsample (k : Nat) : sy + sampling.my + k * sampling.my =
          sy + (k + 1 : Nat) * sampling.my := by
        push_cast
        ring
      have hrow (k : Nat) : ty + 1 + (k : Int) = ty + (k + 1 : Nat) := by
        push_cast
        ring
      have hprevious (k : Nat) : sampling.previous (sy + sampling.my)
          (sy / 65536 * sampling.sp) k = sampling.previous sy lr (k + 1) := by
        cases k with
        | zero => simp [Sampling.previous]
        | succ k =>
            rw [Sampling.previous, Sampling.previous, hsample]
      simp only [hnext, hsample, hrow, hprevious, Nat.cast_zero, zero_add, one_mul, zero_mul,
        add_zero]
      simp only [Sampling.previous]
      tauto

theorem sampled_iff_nat (offset extent drawn size : Int) :
    Sampled offset extent drawn size ↔ ∀ k : Nat, k < drawn.toNat →
      IsInt (position offset (step extent drawn) (k + 1)) ∧
        Within size (position offset (step extent drawn) k / 65536) := by
  constructor
  · intro h k hk
    exact h k (Int.natCast_nonneg k) (by omega)
  · intro h k hk hlt
    obtain ⟨n, rfl⟩ := Int.eq_ofNat_of_zero_le hk
    exact h n (by omega)

section Loops

variable (src dst) (ox oy sw sh rx ry rw rh : Int)

/-- What the loops are started with. -/
def loops : Trace :=
  Sampling.drawRows ⟨step sw rw, step sh rh, ox * 65536, rx, rw, src.pitch⟩ rh.toNat ry
    (oy * 65536) (-1)

/-- The row of the source that the `k`-th row of the destination shows. -/
def shownRow (k : Nat) : Int := position oy (step sh rh) k / 65536

/-- The `k`-th row of the destination shows what the row before it does. -/
def Repeated : Nat → Prop
  | 0 => False
  | k + 1 => shownRow oy sh rh (k + 1) = shownRow oy sh rh k

variable {oy}

/-- A row is copied where it shows what the row before it does, as the rows of the source are
apart. -/
theorem shownRow_eq_previous_iff (hoy : 0 ≤ oy) (k : Nat) :
    shownRow oy sh rh k * src.pitch = Sampling.previous
      ⟨step sw rw, step sh rh, ox * 65536, rx, rw, src.pitch⟩ (oy * 65536) (-1) k ↔
      Repeated oy sh rh k := by
  have hpitch : 0 < src.pitch := lt_of_lt_of_le src.width_pos src.width_le_pitch
  cases k with
  | zero =>
      have hfirst : shownRow oy sh rh 0 = oy := by
        simp [shownRow, position]
      rw [hfirst]
      have := mul_nonneg hoy (le_of_lt hpitch)
      exact iff_of_false (by simp only [Sampling.previous]; omega) id
  | succ k => exact Int.mul_eq_mul_right_iff (ne_of_gt hpitch)

/-- The loops row by row: a repeated row is copied, and any other drawn. -/
theorem safe_loops_iff (hoy : 0 ≤ oy) :
    Safe src dst (loops src ox oy sw sh rx ry rw rh) ↔ ∀ k : Nat, k < rh.toNat →
      IsInt (position oy (step sh rh) (k + 1)) ∧
        (Repeated oy sh rh k → Within dst.height (ry + k - 1) ∧ Within dst.height (ry + k)) ∧
        (¬Repeated oy sh rh k → ∀ j : Nat, j < rw.toNat →
          IsInt (position ox (step sw rw) (j + 1)) ∧
            Access.Inside src dst
              (.read (position ox (step sw rw) j / 65536) (shownRow oy sh rh k)) ∧
            Access.Inside src dst (.write (rx + j) (ry + k))) := by
  rw [loops, safe_drawRows_iff]
  refine forall₂_congr fun k hk => and_congr_right fun _ => ?_
  have hrepeated := shownRow_eq_previous_iff src ox sw sh rx rw rh hoy k
  unfold Sampling.drawLine
  by_cases hrep : Repeated oy sh rh k
  · have hline := hrepeated.mpr hrep
    unfold shownRow position at hline
    rw [if_pos hline, safe_some, List.forall_mem_singleton]
    exact ⟨fun h => ⟨fun _ => h, fun hnot => absurd hrep hnot⟩, fun h => h.1 hrep⟩
  · have hline := mt hrepeated.mp hrep
    unfold shownRow position at hline
    rw [if_neg hline, safe_drawRow_iff]
    exact ⟨fun h => ⟨fun hyes => absurd hyes hrep, fun _ => h⟩, fun h => h.2 hrep⟩

variable {src dst} in
/-- What is shown by the rows that are drawn is shown by the rows that are copied too. -/
theorem shownRow_within {n : Nat}
    (hcopied : ∀ k < n, Repeated oy sh rh k → Within dst.height (ry + k))
    (hdrawn : ∀ k < n, ¬Repeated oy sh rh k →
      Within src.height (shownRow oy sh rh k) ∧ Within dst.height (ry + k)) {k : Nat} (hk : k < n) :
    Within src.height (shownRow oy sh rh k) ∧ Within dst.height (ry + k) := by
  induction k with
  | zero => exact hdrawn 0 hk id
  | succ k ih =>
      by_cases hrep : Repeated oy sh rh (k + 1)
      · have hsame : shownRow oy sh rh (k + 1) = shownRow oy sh rh k := hrep
        rw [hsame]
        exact ⟨(ih (by omega)).1, hcopied (k + 1) hk hrep⟩
      · exact hdrawn (k + 1) hk hrep

/-- Where there are pixels to draw, every row of the source that is shown is read. -/
theorem safe_loops_pos_iff (hoy : 0 ≤ oy) (hrw : 0 < rw) (hrh : 0 < rh) :
    Safe src dst (loops src ox oy sw sh rx ry rw rh) ↔
      (Sampled ox sw rw src.width ∧ Sampled oy sh rh src.height) ∧
        (0 ≤ rx ∧ rx + rw ≤ dst.width) ∧ 0 ≤ ry ∧ ry + rh ≤ dst.height := by
  rw [safe_loops_iff src dst ox sw sh rx ry rw rh hoy, sampled_iff_nat, sampled_iff_nat]
  constructor
  · intro h
    have hrow {k : Nat} (hk : k < rh.toNat) :
        Within src.height (shownRow oy sh rh k) ∧ Within dst.height (ry + k) := by
      refine shownRow_within sh ry rh (fun k hk hrep => ((h k hk).2.1 hrep).2)
        (fun k hk hrep => ?_) hk
      have hpixel := (h k hk).2.2 hrep 0 (by omega)
      exact ⟨hpixel.2.1.2, hpixel.2.2.2⟩
    -- the first row is drawn, and tells about all columns
    have hfirst := (h 0 (by omega)).2.2 id
    have hleft := (hfirst 0 (by omega)).2.2.1
    have hright := (hfirst (rw.toNat - 1) (by omega)).2.2.1
    have htop := (hrow (show 0 < rh.toNat by omega)).2
    have hbottom := (hrow (show rh.toNat - 1 < rh.toNat by omega)).2
    unfold Within at hleft hright htop hbottom
    exact ⟨⟨fun j hj => ⟨(hfirst j hj).1, (hfirst j hj).2.1.1⟩,
      fun k hk => ⟨(h k hk).1, (hrow hk).1⟩⟩, ⟨by omega, by omega⟩, by omega, by omega⟩
  · rintro ⟨⟨hcolumns, hrows⟩, ⟨hleft, hright⟩, htop, hbottom⟩ k hk
    have htarget : Within dst.height (ry + k) := ⟨by omega, by omega⟩
    refine ⟨(hrows k hk).1, fun hrep => ⟨?_, htarget⟩, fun _ j hj => ?_⟩
    · -- a row that is copied has one before it
      cases k with
      | zero => exact hrep.elim
      | succ k => exact ⟨by omega, by omega⟩
    · exact ⟨(hcolumns j hj).1, ⟨(hcolumns j hj).2, (hrows k hk).2⟩,
        ⟨by omega, by omega⟩, htarget⟩

/-- Where there are no pixels in a row, the rows that show the same are copied all the same. -/
theorem safe_loops_nonpos_iff (hoy : 0 ≤ oy) (hrw : rw ≤ 0) :
    Safe src dst (loops src ox oy sw sh rx ry rw rh) ↔ ∀ k : Nat, k < rh.toNat →
      IsInt (position oy (step sh rh) (k + 1)) ∧
        (Repeated oy sh rh k → Within dst.height (ry + k - 1) ∧ Within dst.height (ry + k)) := by
  rw [safe_loops_iff src dst ox sw sh rx ry rw rh hoy]
  refine forall₂_congr fun k hk => and_congr_right fun _ => and_iff_left fun _ j hj => ?_
  omega

end Loops

end DarkUI.Minarch
