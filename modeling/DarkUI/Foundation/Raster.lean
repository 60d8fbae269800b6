import Mathlib.Data.List.Nodup
import Mathlib.Logic.Function.Basic
import Mathlib.Tactic.Linarith

/-! # Pixels in memory

Memory as bytes by their address, with 16-bit pixels and pairs of them read and written low byte
first. A picture is rows of pixels a pitch apart; what a function writes is described by the
rows it fills and by everything else being left alone.
-/

namespace Raster

abbrev Bytes := Nat → BitVec 8

abbrev Pixel := BitVec 16

def load16 (m : Bytes) (a : Nat) : Pixel := m (a + 1) ++ m a

def load32 (m : Bytes) (a : Nat) : BitVec 32 := load16 m (a + 2) ++ load16 m a

def low (word : BitVec 32) : Pixel := word.setWidth 16

def high (word : BitVec 32) : Pixel := (word >>> 16).setWidth 16

def store16 (m : Bytes) (a : Nat) (pixel : Pixel) : Bytes :=
  Function.update (Function.update m a (pixel.setWidth 8)) (a + 1) ((pixel >>> 8).setWidth 8)

def store32 (m : Bytes) (a : Nat) (word : BitVec 32) : Bytes :=
  store16 (store16 m a (low word)) (a + 2) (high word)

/-- `memcpy` of `n` bytes from `b` in one memory to `a` in another, or to a place in the same
memory that does not overlap. -/
def copy (dest : Bytes) (a : Nat) (source : Bytes) (b n : Nat) : Bytes := fun i =>
  if a ≤ i ∧ i < a + n then source (b + (i - a)) else dest i

/-- Pixels stored one behind the other. -/
def storePixels (m : Bytes) (a : Nat) : List Pixel → Bytes
  | [] => m
  | pixel :: pixels => storePixels (store16 m a pixel) (a + 2) pixels

/-- Pairs of pixels stored one behind the other. -/
def storeWords (m : Bytes) (a : Nat) : List (BitVec 32) → Bytes
  | [] => m
  | word :: words => storeWords (store32 m a word) (a + 4) words

/-- A pixel stored at an address. -/
abbrev Store := Nat × Pixel

/-- Pixels stored at their addresses, in order. -/
def storeAll (m : Bytes) (stores : List Store) : Bytes :=
  stores.foldl (fun m store => store16 m store.1 store.2) m

variable {m before mid after : Bytes} {a b d i k n : Nat} {pixel : Pixel}
variable {pixels more : List Pixel} {word : BitVec 32} {words : List (BitVec 32)}

/-! ## Pairs -/

theorem getLsbD_pair (high low : Pixel) (j : Nat) : (high ++ low : BitVec 32).getLsbD j =
    if j < 16 then low.getLsbD j else high.getLsbD (j - 16) := BitVec.getLsbD_append

theorem low_load32 : low (load32 m a) = load16 m a := BitVec.setWidth_append_eq_right

theorem high_pair (x y : Pixel) : high (x ++ y) = x := by
  apply BitVec.eq_of_getLsbD_eq
  intro j hj
  rw [high, BitVec.getLsbD_setWidth, BitVec.getLsbD_ushiftRight, getLsbD_pair]
  simp [hj]

theorem high_load32 : high (load32 m a) = load16 m (a + 2) := high_pair _ _

/-- The low half of a pair, twice. -/
theorem low_twice (word : BitVec 32) :
    (word &&& 0x0000FFFF#32) ||| (word <<< 16) = low word ++ low word := by
  have hmask : ∀ j < 32, (0x0000FFFF#32).getLsbD j = decide (j < 16) := by decide
  apply BitVec.eq_of_getLsbD_eq
  intro j hj
  rw [getLsbD_pair, BitVec.getLsbD_or, BitVec.getLsbD_and, hmask j hj, BitVec.getLsbD_shiftLeft]
  by_cases hlow : j < 16
  · simp [low, hlow]
  · have hlt : j - 16 < 16 := by omega
    simp [low, hlow, hlt, hj]

/-- The high half of a pair, twice. -/
theorem high_twice (word : BitVec 32) :
    (word &&& 0xFFFF0000#32) ||| (word >>> 16) = high word ++ high word := by
  have hmask : ∀ j < 32, (0xFFFF0000#32).getLsbD j = decide (16 ≤ j) := by decide
  apply BitVec.eq_of_getLsbD_eq
  intro j hj
  rw [getLsbD_pair, BitVec.getLsbD_or, BitVec.getLsbD_and, hmask j hj, BitVec.getLsbD_ushiftRight]
  by_cases hlow : j < 16
  · simp [high, hlow, Nat.not_le.mpr hlow]
  · have hlt : j - 16 < 16 := by omega
    have hadd : 16 + (j - 16) = j := by omega
    have hnone : word.getLsbD (16 + j) = false := BitVec.getLsbD_of_ge _ _ (by omega)
    simp [high, hlow, hlt, hadd, hnone, Nat.not_lt.mp hlow]

/-- A pixel, twice. -/
theorem pixel_twice (pixel : Pixel) :
    pixel.setWidth 32 ||| (pixel.setWidth 32 <<< 16) = pixel ++ pixel := by
  apply BitVec.eq_of_getLsbD_eq
  intro j hj
  rw [getLsbD_pair, BitVec.getLsbD_or, BitVec.getLsbD_setWidth, BitVec.getLsbD_shiftLeft,
    BitVec.getLsbD_setWidth]
  by_cases hlow : j < 16
  · simp [hlow, hj]
  · have hlt : j - 16 < 32 := by omega
    have hnone : pixel.getLsbD j = false := BitVec.getLsbD_of_ge _ _ (by omega)
    simp [hlow, hj, hlt, hnone]

/-- The pixels of a list of pairs. -/
def halves (words : List (BitVec 32)) : List Pixel :=
  words.flatMap fun word => [low word, high word]

theorem storeWords_eq : storeWords m a words = storePixels m a (halves words) := by
  induction words generalizing m a with
  | nil => rfl
  | cons word words ih => exact ih

/-! ## What a list of pixels is in bytes -/

theorem storePixels_append : storePixels m a (pixels ++ more) =
    storePixels (storePixels m a pixels) (a + 2 * pixels.length) more := by
  induction pixels generalizing m a with
  | nil => rfl
  | cons pixel pixels ih =>
      have hnext : a + 2 * (pixel :: pixels).length = a + 2 + 2 * pixels.length := by
        rw [List.length_cons]
        omega
      rw [List.cons_append, storePixels, ih, hnext]
      rfl

/-- The bytes of pixels, the low one of each first. -/
def bytesOf : List Pixel → Nat → BitVec 8
  | [], _ => 0
  | pixel :: _, 0 => pixel.setWidth 8
  | pixel :: _, 1 => (pixel >>> 8).setWidth 8
  | _ :: pixels, i + 2 => bytesOf pixels i

theorem storePixels_apply : storePixels m a pixels i =
    if a ≤ i ∧ i < a + 2 * pixels.length then bytesOf pixels (i - a) else m i := by
  induction pixels generalizing m a with
  | nil =>
      rw [if_neg (by simp only [List.length_nil]; omega)]
      rfl
  | cons pixel pixels ih =>
      rw [storePixels, ih]
      by_cases hrest : a + 2 ≤ i ∧ i < a + 2 + 2 * pixels.length
      · have hsplit : i - a = i - (a + 2) + 2 := by omega
        rw [if_pos hrest, if_pos (by rw [List.length_cons]; omega), hsplit]
        rfl
      · rw [if_neg hrest]
        unfold store16
        by_cases hhigh : i = a + 1
        · subst hhigh
          rw [Function.update_self, if_pos (by rw [List.length_cons]; omega),
            Nat.add_sub_cancel_left]
          rfl
        · rw [Function.update_of_ne hhigh]
          by_cases hlow : i = a
          · subst hlow
            rw [Function.update_self, if_pos (by rw [List.length_cons]; omega), Nat.sub_self]
            rfl
          · rw [Function.update_of_ne hlow, if_neg (by rw [List.length_cons]; omega)]

theorem bytesOf_pair (h : pixels[k]? = some pixel) :
    bytesOf pixels (2 * k + 1) ++ bytesOf pixels (2 * k) = pixel := by
  induction pixels generalizing k with
  | nil => cases h
  | cons first pixels ih =>
      cases k with
      | zero =>
          cases h
          apply BitVec.eq_of_getLsbD_eq
          intro j hj
          have hjoin := BitVec.getLsbD_append (x := ((pixel >>> 8).setWidth 8 : BitVec 8))
            (y := (pixel.setWidth 8 : BitVec 8)) (i := j)
          refine hjoin.trans ?_
          by_cases hlow : j < 8
          · simp [hlow]
          · have hlt : j - 8 < 8 := by omega
            have hadd : 8 + (j - 8) = j := by omega
            simp [hlow, hlt, hadd]
      | succ k => exact ih h

theorem store16_of_ne (h : i < a ∨ a + 2 ≤ i) : store16 m a pixel i = m i := by
  unfold store16
  rw [Function.update_of_ne (by omega), Function.update_of_ne (by omega)]

theorem load16_congr {m' : Bytes} (h : ∀ i, a ≤ i → i < a + 2 → m' i = m i) :
    load16 m' a = load16 m a := by
  rw [load16, load16, h a (Nat.le_refl a) (by omega), h (a + 1) (by omega) (by omega)]

theorem load16_storePixels : load16 (storePixels m a (pixel :: pixels)) a = pixel := by
  have hlow : storePixels m a (pixel :: pixels) a = bytesOf (pixel :: pixels) 0 := by
    rw [storePixels_apply, if_pos (by rw [List.length_cons]; omega), Nat.sub_self]
  have hhigh : storePixels m a (pixel :: pixels) (a + 1) = bytesOf (pixel :: pixels) 1 := by
    rw [storePixels_apply, if_pos (by rw [List.length_cons]; omega), Nat.add_sub_cancel_left]
  rw [load16, hlow, hhigh]
  exact bytesOf_pair (k := 0) rfl

theorem load16_store16 : load16 (store16 m a pixel) a = pixel := by
  have hone : storePixels m a [pixel] = store16 m a pixel := rfl
  rw [← hone]
  exact load16_storePixels

/-! ## Pixels stored anywhere -/

/-- The pixels at the two addresses have no byte in common. -/
def Apart (a b : Nat) : Prop := a + 2 ≤ b ∨ b + 2 ≤ a

theorem storeAll_kept {stores : List Store}
    (h : ∀ store ∈ stores, i < store.1 ∨ store.1 + 2 ≤ i) : storeAll m stores i = m i := by
  induction stores generalizing m with
  | nil => rfl
  | cons store stores ih =>
      have hrest := ih (m := store16 m store.1 store.2) fun t ht => h t (List.mem_cons_of_mem _ ht)
      exact hrest.trans (store16_of_ne (h store List.mem_cons_self))

/-- A pixel that no later one overlaps is there in the end. -/
theorem load16_storeAll {stores : List Store} {store : Store} (hmem : store ∈ stores)
    (hapart : stores.Pairwise fun s t => Apart s.1 t.1) :
    load16 (storeAll m stores) store.1 = store.2 := by
  induction stores generalizing m with
  | nil => cases hmem
  | cons first stores ih =>
      obtain ⟨hfirst, hrest⟩ := List.pairwise_cons.mp hapart
      rcases List.mem_cons.mp hmem with rfl | htail
      · have hkept : load16 (storeAll (store16 m store.1 store.2) stores) store.1 =
            load16 (store16 m store.1 store.2) store.1 := by
          refine load16_congr fun i hle hlt => storeAll_kept fun t ht => ?_
          have hapart := hfirst t ht
          unfold Apart at hapart
          omega
        exact hkept.trans load16_store16
      · exact ih htail hrest

/-- The pixels of a picture, row by row, each as its column and its row. -/
def raster (w h : Nat) : List (Nat × Nat) :=
  (List.range h).flatMap fun y => (List.range w).map fun x => (x, y)

theorem flatMap_raster {α : Type*} (w h : Nat) (f : Nat × Nat → List α) :
    (raster w h).flatMap f =
      (List.range h).flatMap fun y => (List.range w).flatMap fun x => f (x, y) := by
  rw [raster, List.flatMap_assoc]
  refine List.flatMap_congr fun y _ => ?_
  rw [List.flatMap_map]

theorem mem_raster {w h : Nat} {p : Nat × Nat} : p ∈ raster w h ↔ p.1 < w ∧ p.2 < h := by
  simp only [raster, List.mem_flatMap, List.mem_map, List.mem_range]
  constructor
  · rintro ⟨y, hy, x, hx, rfl⟩
    exact ⟨hx, hy⟩
  · rintro ⟨hx, hy⟩
    exact ⟨p.2, hy, p.1, hx, rfl⟩

theorem nodup_raster (w h : Nat) : (raster w h).Nodup := by
  rw [raster, List.nodup_flatMap]
  constructor
  · intro y _
    refine List.nodup_range.map fun x x' heq => ?_
    exact congrArg Prod.fst heq
  · refine List.nodup_range.imp fun {y y'} hne p hp hp' => ?_
    obtain ⟨x, -, rfl⟩ := List.mem_map.mp hp
    obtain ⟨x', -, heq⟩ := List.mem_map.mp hp'
    exact hne (congrArg Prod.snd heq).symm

/-- Different pixels of a picture do not overlap. -/
theorem apart_of_ne {w pitch x y x' y' : Nat} (hw : 2 * w ≤ pitch) (hx : x < w) (hx' : x' < w)
    (hne : (x, y) ≠ (x', y')) : Apart (y * pitch + 2 * x) (y' * pitch + 2 * x') := by
  unfold Apart
  rcases Nat.lt_trichotomy y y' with hlt | rfl | hlt
  · have hmul : (y + 1) * pitch ≤ y' * pitch := Nat.mul_le_mul_right _ hlt
    rw [Nat.add_mul, Nat.one_mul] at hmul
    omega
  · have hcolumn : x ≠ x' := fun heq => hne (by rw [heq])
    omega
  · have hmul : (y' + 1) * pitch ≤ y * pitch := Nat.mul_le_mul_right _ hlt
    rw [Nat.add_mul, Nat.one_mul] at hmul
    omega

/-! ## Rows -/

/-- `count` rows of `len` bytes, `pitch` apart from `d` on, hold what `row` says, and nothing else
has changed. -/
structure Rows (before after : Bytes) (d pitch len count : Nat) (row : Nat → Nat → BitVec 8) :
    Prop where
  filled : ∀ y < count, ∀ t < len, after (d + y * pitch + t) = row y t
  kept : ∀ i, (∀ y < count, ¬(d + y * pitch ≤ i ∧ i < d + y * pitch + len)) → after i = before i

variable {pitch len count added : Nat} {row next : Nat → Nat → BitVec 8}

theorem Rows.none : Rows m m d pitch len 0 row :=
  ⟨fun _ hy => absurd hy (Nat.not_lt_zero _), fun _ _ => rfl⟩

theorem Rows.congr (h : Rows before after d pitch len count row)
    (hrow : ∀ y < count, ∀ t < len, row y t = next y t) :
    Rows before after d pitch len count next :=
  ⟨fun y hy t ht => (h.filled y hy t ht).trans (hrow y hy t ht), h.kept⟩

/-- Rows filled behind those filled before. -/
theorem Rows.append (h : Rows before mid d pitch len count row)
    (hnext : Rows mid after (d + count * pitch) pitch len added next) (hlen : len ≤ pitch) :
    Rows before after d pitch len (count + added)
      fun y => if y < count then row y else next (y - count) := by
  have hplace : ∀ y, d + count * pitch + y * pitch = d + (count + y) * pitch := by
    intro y
    rw [Nat.add_mul, Nat.add_assoc]
  constructor
  · intro y hy t ht
    by_cases hfirst : y < count
    · rw [if_pos hfirst, ← h.filled y hfirst t ht]
      refine hnext.kept _ fun z _ => ?_
      rw [hplace]
      -- The row ends before the next one begins.
      have hmul : (y + 1) * pitch ≤ (count + z) * pitch := Nat.mul_le_mul_right _ (by omega)
      rw [Nat.add_mul, Nat.one_mul] at hmul
      omega
    · rw [if_neg hfirst, ← hnext.filled (y - count) (by omega) t ht, hplace,
        Nat.add_sub_cancel' (Nat.not_lt.mp hfirst)]
  · intro i hi
    rw [hnext.kept i fun y hy => ?_, h.kept i fun y hy => hi y (by omega)]
    rw [hplace]
    exact hi (count + y) (by omega)

theorem Rows.storePixels (m : Bytes) (d pitch : Nat) (pixels : List Pixel) :
    Rows m (storePixels m d pixels) d pitch (2 * pixels.length) 1 fun _ => bytesOf pixels := by
  constructor
  · intro y hy t ht
    rw [Nat.lt_one_iff.mp hy, Nat.zero_mul, Nat.add_zero, storePixels_apply,
      if_pos (by omega), Nat.add_sub_cancel_left]
  · intro i hi
    have hout := hi 0 Nat.one_pos
    rw [Nat.zero_mul, Nat.add_zero] at hout
    rw [storePixels_apply, if_neg hout]

theorem Rows.copy (m : Bytes) (d pitch len : Nat) (source : Bytes) (b : Nat) :
    Rows m (copy m d source b len) d pitch len 1 fun _ t => source (b + t) := by
  constructor
  · intro y hy t ht
    rw [Nat.lt_one_iff.mp hy, Nat.zero_mul, Nat.add_zero, Raster.copy, if_pos (by omega),
      Nat.add_sub_cancel_left]
  · intro i hi
    have hout := hi 0 Nat.one_pos
    rw [Nat.zero_mul, Nat.add_zero] at hout
    rw [Raster.copy, if_neg hout]

/-- Rows without gaps between them, copied as one. -/
theorem Rows.copy_packed (hlen : len = pitch) (m : Bytes) (d count : Nat) (source : Bytes)
    (b : Nat) : Rows m (Raster.copy m d source b (pitch * count)) d pitch len count
      fun y t => source (b + y * pitch + t) := by
  subst hlen
  constructor
  · intro y hy t ht
    have hmul : (y + 1) * len ≤ count * len := Nat.mul_le_mul_right _ hy
    rw [Nat.add_mul, Nat.one_mul, Nat.mul_comm count] at hmul
    have hplace : d + y * len + t - d = y * len + t := by omega
    rw [Raster.copy, if_pos (by omega), hplace, Nat.add_assoc]
  · intro i hi
    refine if_neg fun hin => ?_
    -- The row the address would be in.
    obtain ⟨j, rfl⟩ := Nat.exists_eq_add_of_le hin.1
    have hlt : j < len * count := by omega
    have hpos : 0 < len := Nat.pos_of_mul_pos_right (Nat.zero_lt_of_lt hlt)
    have hrow : j / len < count := Nat.div_lt_of_lt_mul hlt
    have hsplit : len * (j / len) + j % len = j := Nat.div_add_mod j len
    have hmod : j % len < len := Nat.mod_lt j hpos
    rw [Nat.mul_comm] at hsplit
    exact hi (j / len) hrow (by omega)

/-- A pixel of a filled row. -/
theorem Rows.load16 {y x : Nat} (h : Rows before after d pitch len count row) (hy : y < count)
    (hx : 2 * x + 1 < len) :
    load16 after (d + y * pitch + 2 * x) = row y (2 * x + 1) ++ row y (2 * x) := by
  rw [Raster.load16, h.filled y hy (2 * x) (by omega), Nat.add_assoc _ (2 * x),
    h.filled y hy (2 * x + 1) hx]

end Raster
