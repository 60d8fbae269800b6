import DarkUI.Minui.Menu

/-! # Moves keep the selection on the screen -/

namespace DarkUI.Minui

open Text

section Moves

variable {total rows : Int} {w : Window}

theorem moveUp_fits (h : w.Fits total rows) (justPressed : Bool) :
    (moveUp total rows w justPressed).Fits total rows := by
  obtain ⟨hstart, hle, hlt, hend, hheight⟩ := h
  unfold moveUp
  dsimp only
  split
  next => exact ⟨hstart, hle, hlt, hend, hheight⟩
  next =>
    split
    next => exact Window.bottom_fits (by omega) (by omega) (by omega)
    next =>
      split
      next => constructor <;> dsimp only <;> omega
      next => exact ⟨hstart, by dsimp only; omega, by dsimp only; omega, hend, hheight⟩

theorem moveDown_fits (h : w.Fits total rows) (justPressed : Bool) :
    (moveDown total rows w justPressed).Fits total rows := by
  obtain ⟨hstart, hle, hlt, hend, hheight⟩ := h
  unfold moveDown
  dsimp only
  split
  next => exact ⟨hstart, hle, hlt, hend, hheight⟩
  next =>
    split
    next => exact Window.top_fits (by omega) (by omega)
    next =>
      split
      next => constructor <;> dsimp only <;> omega
      next => exact ⟨hstart, by dsimp only; omega, by dsimp only; omega, hend, hheight⟩

theorem moveLeft_fits (h : w.Fits total rows) : (moveLeft total rows w).Fits total rows := by
  obtain ⟨hstart, hle, hlt, hend, hheight⟩ := h
  unfold moveLeft
  dsimp only
  split
  next => exact Window.top_fits (by omega) (by omega)
  next =>
    split
    next =>
      -- only a list longer than the screen has rows above the window
      split
      next => exact Window.page_fits (by omega) (by omega) (by omega) (by omega)
      next => exact Window.page_fits (by omega) (by omega) (by omega) (by omega)
    next => exact ⟨hstart, by dsimp only; omega, by dsimp only; omega, hend, hheight⟩

theorem moveRight_fits (h : w.Fits total rows) : (moveRight total rows w).Fits total rows := by
  obtain ⟨hstart, hle, hlt, hend, hheight⟩ := h
  unfold moveRight
  dsimp only
  split
  next => exact Window.bottom_fits (by omega) (by omega) (by omega)
  next =>
    split
    next =>
      split
      next => constructor <;> dsimp only <;> omega
      next => constructor <;> dsimp only <;> omega
    next => exact ⟨hstart, by dsimp only; omega, by dsimp only; omega, hend, hheight⟩

theorem jumpTo_fits (h : w.Fits total rows) {selected : Int} (hnonneg : 0 ≤ selected)
    (hselected : selected < total) : (jumpTo total rows w selected).Fits total rows := by
  obtain ⟨hstart, hle, hlt, hend, hheight⟩ := h
  unfold jumpTo
  split
  next =>
    dsimp only
    split
    next => constructor <;> dsimp only <;> omega
    next => constructor <;> dsimp only <;> omega
  next => exact ⟨hstart, by dsimp only; omega, by dsimp only; omega, hend, hheight⟩

theorem navigate_fits (h : w.Fits total rows) (pad : Pad) :
    (navigate total rows w pad).Fits total rows := by
  have hvertical :
      (if pad.justRepeated .up then moveUp total rows w (pad.justPressed .up)
        else if pad.justRepeated .down then moveDown total rows w (pad.justPressed .down)
        else w).Fits total rows := by
    split
    next => exact moveUp_fits h _
    next =>
      split
      next => exact moveDown_fits h _
      next => exact h
  unfold navigate
  dsimp only
  split
  next => exact moveLeft_fits hvertical
  next =>
    split
    next => exact moveRight_fits hvertical
    next => exact hvertical

end Moves

/-! ## Fetching -/

namespace Directory

variable {directory : Directory} {i : Int}

theorem item_eq_some (hnonneg : 0 ≤ i) (hlt : i < directory.total) :
    ∃ entry, directory.item i = some entry := by
  have hbound : i.toNat < directory.entries.length := by
    simp only [total] at hlt
    omega
  exact ⟨directory.entries[i.toNat], by simp [item, hnonneg, hbound]⟩

theorem lt_total_of_item {entry : Entry} (h : directory.item i = some entry) :
    0 ≤ i ∧ i < directory.total := by
  unfold item at h
  split at h
  next hnonneg =>
    obtain ⟨hbound, _⟩ := List.getElem?_eq_some_iff.mp h
    exact ⟨hnonneg, by simp only [total]; omega⟩
  next => cases h

theorem mem_of_item {entry : Entry} (h : directory.item i = some entry) :
    entry ∈ directory.entries := by
  unfold item at h
  split at h
  next => exact List.mem_of_getElem? h
  next => cases h

theorem alphaItem_eq_some (hnonneg : 0 ≤ i) (hlt : i < directory.alphas.length) :
    ∃ position, directory.alphaItem i = some position := by
  have hbound : i.toNat < directory.alphas.length := by omega
  exact ⟨directory.alphas[i.toNat], by simp [alphaItem, hnonneg, hbound]⟩

/-- What the alphas hold is a row of the directory. -/
theorem lt_total_of_alphaItem (hindexed : Indexed directory.entries directory.alphas)
    {position : Int} (h : directory.alphaItem i = some position) :
    0 ≤ position ∧ position < directory.total := by
  unfold alphaItem at h
  split at h
  next =>
    obtain ⟨j, hj, rfl⟩ := Option.map_eq_some_iff.mp h
    have hlt := hindexed.alphas_lt j (List.mem_of_getElem? hj)
    simp only [total, Int.ofNat_eq_natCast]
    omega
  next => cases h

end Directory

section Alphas

variable {host : Host} {frame : Frame} {directory : Directory} {w w' : Window}

/-- Jumping to an alpha there is, or not at all, keeps to the directory. -/
theorem jumpToAlpha_fits {jumps : Prop} [Decidable jumps] {i : Int}
    (hindexed : Indexed directory.entries directory.alphas)
    (h : w.Fits directory.total host.device.rows)
    (hjump : (if jumps then
        (directory.alphaItem i).bind fun selected =>
          some (jumpTo directory.total host.device.rows w selected)
      else some w) = some w') :
    w'.Fits directory.total host.device.rows := by
  split at hjump
  next =>
    obtain ⟨position, hposition, heq⟩ := Option.bind_eq_some_iff.mp hjump
    cases heq
    obtain ⟨hnonneg, hlt⟩ := Directory.lt_total_of_alphaItem hindexed hposition
    exact jumpTo_fits h hnonneg hlt
  next =>
    cases hjump
    exact h

theorem previousAlpha_fits (hindexed : Indexed directory.entries directory.alphas)
    (h : w.Fits directory.total host.device.rows)
    (hjump : previousAlpha host directory w = some w') :
    w'.Fits directory.total host.device.rows := by
  obtain ⟨entry, -, hjump⟩ := Option.bind_eq_some_iff.mp hjump
  exact jumpToAlpha_fits hindexed h hjump

theorem nextAlpha_fits (hindexed : Indexed directory.entries directory.alphas)
    (h : w.Fits directory.total host.device.rows)
    (hjump : nextAlpha host directory w = some w') :
    w'.Fits directory.total host.device.rows := by
  obtain ⟨entry, -, hjump⟩ := Option.bind_eq_some_iff.mp hjump
  exact jumpToAlpha_fits hindexed h hjump

theorem alphaJump_fits (hindexed : Indexed directory.entries directory.alphas)
    (h : w.Fits directory.total host.device.rows)
    (hjump : alphaJump host frame directory w = some w') :
    w'.Fits directory.total host.device.rows := by
  unfold alphaJump at hjump
  split at hjump
  next => exact previousAlpha_fits hindexed h hjump
  next =>
    split at hjump
    next => exact nextAlpha_fits hindexed h hjump
    next =>
      cases hjump
      exact h

/-- On a list with the selection in view, a jump fetches nothing outside its arrays. -/
theorem alphaJump_isSome (hindexed : Indexed directory.entries directory.alphas)
    (h : w.Fits directory.total host.device.rows) :
    (alphaJump host frame directory w).isSome := by
  obtain ⟨entry, hentry⟩ := Directory.item_eq_some h.covers.selected_nonneg h.covers.selected_lt
  have halpha := hindexed.alpha_le entry (Directory.mem_of_item hentry)
  unfold alphaJump
  split
  next =>
    simp only [previousAlpha, hentry, Option.bind_eq_bind, Option.bind_some]
    split
    next hnonneg =>
      obtain ⟨position, hposition⟩ := @Directory.alphaItem_eq_some directory _ hnonneg
        (by omega)
      simp [hposition]
    next => rfl
  next =>
    split
    next =>
      simp only [nextAlpha, hentry, Option.bind_eq_bind, Option.bind_some]
      split
      next hlt =>
        obtain ⟨position, hposition⟩ := Directory.alphaItem_eq_some (by omega) hlt
        simp [hposition]
      next => rfl
    next => rfl

end Alphas
end DarkUI.Minui
