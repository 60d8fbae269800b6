import Mathlib.Data.Int.Basic

/-! # A window on a list

A list of `n` rows is shown a few rows at a time: the rows from `start` up to `end`,
one of them selected. The arithmetic is signed, since moves compute a position
before they clip it.
-/

structure Window where
  selected : Int
  start : Int
  «end» : Int
  deriving DecidableEq, Repr

namespace Window

/-- The selection is on a row that is shown, every row shown exists, and as many rows
are shown as exist and have room. -/
structure Fits (total rows : Int) (w : Window) : Prop where
  start_nonneg : 0 ≤ w.start
  start_le : w.start ≤ w.selected
  selected_lt : w.selected < w.end
  end_le : w.end ≤ total
  height : w.end - w.start = min total rows

/-- Every row shown exists, and so does the selected one. -/
structure Covers (total : Int) (w : Window) : Prop where
  start_nonneg : 0 ≤ w.start
  selected_nonneg : 0 ≤ w.selected
  selected_lt : w.selected < total
  end_le : w.end ≤ total

variable {total rows : Int} {w : Window}

theorem Fits.covers (h : w.Fits total rows) : w.Covers total where
  start_nonneg := h.start_nonneg
  selected_nonneg := Int.le_trans h.start_nonneg h.start_le
  selected_lt := Int.lt_of_lt_of_le h.selected_lt h.end_le
  end_le := h.end_le

/-- The first rows, with the first one selected. -/
def top (total rows : Int) : Window := ⟨0, 0, if total < rows then total else rows⟩

/-- The last rows. -/
def bottom (total rows selected : Int) : Window :=
  ⟨selected, if total - rows < 0 then 0 else total - rows, total⟩

theorem top_fits (htotal : 0 < total) (hrows : 0 < rows) : (top total rows).Fits total rows := by
  unfold top
  split
  next hlt => constructor <;> dsimp only <;> omega
  next hge => constructor <;> dsimp only <;> omega

/-- Only the last rows can be selected in the last rows. -/
theorem bottom_fits {selected : Int} (hlow : total - rows ≤ selected) (hnonneg : 0 ≤ selected)
    (hhigh : selected < total) :
    (bottom total rows selected).Fits total rows := by
  unfold bottom
  split
  next hneg => constructor <;> dsimp only <;> omega
  next hge => constructor <;> dsimp only <;> omega

/-- A full page that starts early enough shows any of its own rows selected. -/
theorem page_fits {selected start : Int} (hstart : 0 ≤ start) (hle : start ≤ selected)
    (hlt : selected < start + rows) (hend : start + rows ≤ total) :
    (⟨selected, start, start + rows⟩ : Window).Fits total rows := by
  constructor <;> dsimp only <;> omega

/-- The selection moves inside the window. -/
theorem Fits.select {selected : Int} (h : w.Fits total rows) (hle : w.start ≤ selected)
    (hlt : selected < w.end) : ({ w with selected := selected } : Window).Fits total rows :=
  ⟨h.start_nonneg, hle, hlt, h.end_le, h.height⟩

end Window
