import DarkUI.Minarch.Pager
import Mathlib.Tactic.NormNum
import Mathlib.Tactic.SplitIfs

/-! # The pager stays in its list

What a pass does to the window is one of four moves, and each keeps a page of the list in view
if the list has a page at all. The pager does not ask whether it has.
-/

namespace DarkUI.Minarch.Menu

open Text Options

variable {list : MenuList} {maxVisibleOptions : Int} {stray : Int → MenuItem}

theorem selectNext_fits {count rows : Int} {w : Window} (h : w.Fits count rows) :
    (selectNext count (Window.top count rows).end w).Fits count rows := by
  obtain ⟨hstart, hle, hlt, hend, hheight⟩ := h
  unfold selectNext
  dsimp only
  split_ifs with hlast hbelow
  · exact Window.top_fits (by omega) (by omega)
  · constructor <;> dsimp only <;> omega
  · constructor <;> dsimp only <;> omega

theorem selectPrev_fits {count rows : Int} {w : Window} (h : w.Fits count rows) :
    (selectPrev count rows w).Fits count rows := by
  obtain ⟨hstart, hle, hlt, hend, hheight⟩ := h
  unfold selectPrev
  dsimp only
  split_ifs with hfirst habove
  · constructor <;> dsimp only <;> omega
  · constructor <;> dsimp only <;> omega
  · constructor <;> dsimp only <;> omega

namespace Pager

/-- The window is a page of the list, and no index has been used that is not one of its. -/
structure Kept (list : MenuList) (maxVisibleOptions : Int) (p : Pager) : Prop where
  shown : 0 < list.count → p.window.Fits list.count maxVisibleOptions
  touched : ∀ touch ∈ p.touched, 0 ≤ touch.index ∧ touch.index < list.count

/-- What `Kept` says of a list with an item. -/
structure Paged (list : MenuList) (maxVisibleOptions : Int) (p : Pager) : Prop where
  fits : p.window.Fits list.count maxVisibleOptions
  touched : ∀ touch ∈ p.touched, 0 ≤ touch.index ∧ touch.index < list.count

namespace Paged

variable {p : Pager} (h : p.Paged list maxVisibleOptions)

include h

theorem selected : 0 ≤ p.window.selected ∧ p.window.selected < list.count :=
  ⟨h.fits.covers.selected_nonneg, h.fits.covers.selected_lt⟩

/-- Indices of the list are added to those that have been used. -/
theorem add {q : Pager} {more : List Touch} (hwindow : q.window.Fits list.count maxVisibleOptions)
    (htouched : q.touched = p.touched ++ more)
    (hmore : ∀ touch ∈ more, 0 ≤ touch.index ∧ touch.index < list.count) :
    q.Paged list maxVisibleOptions where
  fits := hwindow
  touched := by
    intro touch htouch
    rw [htouched] at htouch
    rcases List.mem_append.mp htouch with hold | hnew
    · exact h.touched touch hold
    · exact hmore touch hnew

/-- Nothing is used, and the window is another page. -/
theorem move {q : Pager} (hwindow : q.window.Fits list.count maxVisibleOptions)
    (htouched : q.touched = p.touched) : q.Paged list maxVisibleOptions :=
  ⟨hwindow, htouched ▸ h.touched⟩

theorem next : (p.next list maxVisibleOptions).Paged list maxVisibleOptions :=
  h.move (selectNext_fits h.fits) rfl

theorem prev : (p.prev list maxVisibleOptions).Paged list maxVisibleOptions :=
  h.move (selectPrev_fits h.fits) rfl

theorem touch : p.touch.Paged list maxVisibleOptions :=
  h.add h.fits rfl (by simpa [Touch.index] using h.selected)

theorem call (reply : Reply) : (p.call reply).Paged list maxVisibleOptions :=
  h.add h.fits rfl (by simpa [Touch.index] using h.selected)

theorem change (reply : Reply) : (p.change list stray reply).Paged list maxVisibleOptions := by
  unfold Pager.change
  split
  · exact h.call reply
  · exact h

theorem setValue (value : Int) : (p.setValue value).Paged list maxVisibleOptions :=
  h.move h.fits rfl

theorem redraw : Pager.Paged list maxVisibleOptions { p with dirty := true } :=
  h.move h.fits rfl

theorem awaited (frame : Frame) :
    (p.awaited list maxVisibleOptions frame).Paged list maxVisibleOptions := by
  unfold Pager.awaited
  split
  · have hnext := (h.call frame.awaited).next
    exact hnext.move hnext.fits rfl
  · exact h

theorem turned (frame : Frame) : (p.turned list stray frame).Paged list maxVisibleOptions := by
  unfold Pager.turned
  split
  · exact h
  · exact h
  · dsimp only
    split_ifs
    · exact ((h.setValue _).change frame.changed).redraw
    · exact ((h.setValue _).change frame.changed).redraw
    · exact h

theorem moved (frame : Frame) :
    (p.moved list maxVisibleOptions stray frame).Paged list maxVisibleOptions := by
  unfold Pager.moved
  split_ifs
  · exact h.prev
  · exact h.next
  · exact h.touch.turned frame

theorem settle (result : CallbackResult) :
    (p.settle list maxVisibleOptions result).Paged list maxVisibleOptions := by
  cases result with
  | nop => exact h.redraw
  | exit => exact h.move h.fits rfl
  | nextItem => exact h.next

theorem confirm (reply : Reply) :
    (p.confirm list maxVisibleOptions stray reply).Paged list maxVisibleOptions := by
  unfold Pager.confirm
  dsimp only
  split_ifs
  · exact (h.call reply).settle reply.result
  · exact h.settle .nop
  · have hawaiting : Pager.Paged list maxVisibleOptions { p with awaitInput := true } :=
      h.move h.fits rfl
    exact hawaiting.settle .nop
  · exact (h.call reply).settle reply.result
  · exact h.settle .nop

theorem pressed (frame : Frame) :
    (p.pressed list maxVisibleOptions stray frame).Paged list maxVisibleOptions := by
  unfold Pager.pressed
  split_ifs
  · exact h.move h.fits rfl
  · exact h.touch.confirm frame.confirmed
  · exact ((h.touch.setValue 0).change frame.cleared).next
  · exact h

theorem powered (frame : Frame) : (p.powered frame).Paged list maxVisibleOptions :=
  h.move h.fits rfl

end Paged

theorem mem_span {start stop : Int} {touch : Touch} (h : touch ∈ span start stop) :
    start ≤ touch.index ∧ touch.index < stop := by
  simp only [span, List.mem_map, List.mem_range] at h
  obtain ⟨i, hi, rfl⟩ := h
  dsimp only [Touch.index]
  omega

theorem Paged.drawn {p : Pager} (h : p.Paged list maxVisibleOptions) :
    (p.drawn list).Paged list maxVisibleOptions := by
  unfold Pager.drawn
  split
  · refine h.add h.fits (List.append_assoc _ _ _) fun touch htouch => ?_
    rcases List.mem_append.mp htouch with hmeasured | hshown
    · split at hmeasured
      · exact mem_span hmeasured
      · cases hmeasured
    · obtain ⟨hle, hlt⟩ := mem_span hshown
      exact ⟨h.fits.start_nonneg.trans hle, hlt.trans_le h.fits.end_le⟩
  · exact h

/-- What a pass preserves. -/
theorem Paged.step {p : Pager} (h : p.Paged list maxVisibleOptions) (frame : Frame) :
    (p.step list maxVisibleOptions stray frame).Paged list maxVisibleOptions :=
  ((((h.awaited frame).moved frame).pressed frame).powered frame).drawn

/-- What every run preserves. -/
theorem Paged.run {p : Pager} (h : p.Paged list maxVisibleOptions) (frames : List Frame) :
    (p.run list maxVisibleOptions stray frames).Paged list maxVisibleOptions := by
  induction frames generalizing p with
  | nil => exact h
  | cons frame frames ih =>
      unfold Pager.run
      split
      · exact ih (h.step frame)
      · exact h

/-- A list with an item is paged through as it should be. -/
theorem run_kept (hcount : 0 < list.count) (hrows : 0 < maxVisibleOptions) (values : Int → Int)
    (measured : Bool) (frames : List Frame) :
    ((opened list maxVisibleOptions values measured).run list maxVisibleOptions stray
      frames).Kept list maxVisibleOptions := by
  have hopened : (opened list maxVisibleOptions values measured).Paged list maxVisibleOptions :=
    ⟨Window.top_fits hcount hrows, fun touch htouch => absurd htouch List.not_mem_nil⟩
  have hrun : Paged list maxVisibleOptions
      ((opened list maxVisibleOptions values measured).run list maxVisibleOptions stray frames) :=
    hopened.run frames
  exact ⟨fun _ => hrun.fits, hrun.touched⟩

/-- A pass in which nothing happens reads the selected item all the same. -/
theorem mem_touched_step_idle {p : Pager} (hawait : p.awaitInput = false) :
    .item p.window.selected ∈ (p.step list maxVisibleOptions stray .idle).touched := by
  have hawaited : p.awaited list maxVisibleOptions .idle = p := by
    rw [Pager.awaited, hawait, if_neg Bool.false_ne_true]
  have hturned : p.touch.turned list stray .idle = p.touch := by
    unfold Pager.turned
    split <;> rfl
  have hmoved : p.moved list maxVisibleOptions stray .idle = p.touch := hturned
  have hpressed : p.touch.pressed list maxVisibleOptions stray .idle = p.touch := by
    simp [Pager.pressed, Frame.idle]
  rw [Pager.step, hawaited, hmoved, hpressed]
  unfold Pager.drawn
  split <;> simp [Pager.powered, Pager.touch]

theorem optionMenu_count (type : MenuType) (onConfirm : Bool) (rows : List MenuRow) :
    (optionMenu type onConfirm rows).count = rows.length := by
  simp [optionMenu, MenuList.count]

/-- The front end's own menu has an item just when one of its options is not hidden. -/
theorem frontendMenu_count_pos_iff (frontend : List Item) :
    0 < (frontendMenu frontend none).count ↔ ∃ item ∈ frontend, item.lock = false := by
  rw [frontendMenu, optionMenu_count, Int.natCast_pos, List.length_pos_iff_exists_mem]
  constructor
  · rintro ⟨row, hrow⟩
    obtain ⟨⟨item, place⟩, hentry, -⟩ := List.mem_map.mp hrow
    obtain ⟨hitem, hshown⟩ := List.mem_filter.mp hentry
    exact ⟨item, List.fst_mem_of_mem_zipIdx hitem, by simpa using hshown⟩
  · rintro ⟨item, hitem, hshown⟩
    obtain ⟨place, hplace, rfl⟩ := List.mem_iff_getElem.mp hitem
    have hentry : (frontend[place], place) ∈ frontend.zipIdx :=
      List.mem_zipIdx_iff_getElem?.mpr (by simp)
    exact ⟨_, List.mem_map_of_mem (List.mem_filter.mpr ⟨hentry, by simpa using hshown⟩)⟩

/-- The core's menu is opened only with an item to page through. -/
theorem emulatorMenu_count_pos {core : List Item} {rows : Option (List MenuRow)}
    (hmenu : emulatorMenu core rows = some list) : 0 < list.count := by
  unfold emulatorMenu at hmenu
  dsimp only at hmenu
  split at hmenu
  · cases hmenu
  next hitems =>
    cases hmenu
    exact Int.natCast_pos.mpr (List.length_pos_iff.mpr hitems)

/-- The pager keeps a page of its list in view and to the items of the list, over every run,
just when the list has an item and the screen room for one. The front end's own menu has an item
just when one of its options is not hidden, the core's always. -/
theorem run_kept_iff (list : MenuList) (maxVisibleOptions : Int) (stray : Int → MenuItem)
    (values : Int → Int) (measured : Bool) :
    ((∀ frames, ((opened list maxVisibleOptions values measured).run list maxVisibleOptions stray
      frames).Kept list maxVisibleOptions) ↔ 0 < list.count ∧ 0 < maxVisibleOptions) ∧
    (∀ frontend, 0 < (frontendMenu frontend none).count ↔
      ∃ item ∈ frontend, item.lock = false) ∧
    ∀ core rows, ∀ menu ∈ emulatorMenu core rows, 0 < menu.count := by
  refine ⟨?_, frontendMenu_count_pos_iff, fun _ _ _ hmenu => emulatorMenu_count_pos hmenu⟩
  constructor
  · intro h
    have hcount : 0 < list.count := by
      have hread : .item 0 ∈ ((opened list maxVisibleOptions values measured).run list
          maxVisibleOptions stray [.idle]).touched := mem_touched_step_idle rfl
      exact ((h [.idle]).touched _ hread).2
    have hfits := (h []).shown hcount
    obtain ⟨hstart, hle, hlt, hend, hheight⟩ := hfits
    exact ⟨hcount, by omega⟩
  · rintro ⟨hcount, hrows⟩ frames
    exact run_kept hcount hrows values measured frames

/-- A list without items: one item is read in front of it after the first move up. -/
theorem empty_list_read_before :
    ¬∀ (list : MenuList) (maxVisibleOptions : Int) (stray : Int → MenuItem) (values : Int → Int)
      (measured : Bool) (frames : List Frame), 0 < maxVisibleOptions →
        ((opened list maxVisibleOptions values measured).run list maxVisibleOptions stray
          frames).Kept list maxVisibleOptions := by
  intro h
  have hkept := h ⟨.var, [], false, true⟩ 7 (fun _ => ⟨.none, false, false, false⟩) (fun _ => 0)
    false [{ Frame.idle with up := true }, .idle] (by norm_num)
  exact absurd (hkept.touched (.item (-1)) (by decide)).1 (by decide)

end Pager

end DarkUI.Minarch.Menu
