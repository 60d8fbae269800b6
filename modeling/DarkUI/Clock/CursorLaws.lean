import DarkUI.Clock.DateLaws

/-! # The cursor of the clock

Where the cursor is depends on nothing of the date. The number of fields it moves over is that of
the mode once the mode has been switched, but at first it is that of the 12-hour mode.
-/

namespace DarkUI.Clock

/-- What the cursor depends on. -/
structure Place where
  selectCursor : Int
  optionCount : Int
  show24hour : Bool
  quit : Bool

namespace State

variable (c : State)

def place : Place := ⟨c.selectCursor, c.optionCount, c.show24hour, c.quit⟩

/-- The cursor is on a field that is shown: all of them but AM/PM, which only the 12-hour mode
has. -/
def OnVisible : Prop :=
  ∃ cursor : Cursor, c.selectCursor = cursor.index ∧ (cursor = .ampm → c.show24hour = false)

/-- Two switches of the mode leave as many fields to be reached as before. -/
def Restores : Prop :=
  ∀ first second : Frame, first.branch = some .select → second.branch = some .select →
    ∀ d, loop [first, second] c = some d → d.optionCount = c.optionCount

/-- The property holds before the first frame and after each frame. -/
def AtEveryFrame (p : State → Prop) (frames : List Frame) : Prop :=
  ∀ played, played <+: frames → ∀ d, loop played c = some d → p d

end State

/-- The moves to the left and to the right until a mode is switched or the loop ends. -/
def sidesteps : List (Option ButtonId) → List Int
  | [] => []
  | some .dpadLeft :: rest => -1 :: sidesteps rest
  | some .dpadRight :: rest => 1 :: sidesteps rest
  | some .a :: _ => []
  | some .b :: _ => []
  | some .select :: _ => []
  | _ :: rest => sidesteps rest

/-- The moves never lead to the left of the first field, nor to the right of the sixth. -/
def StaysOnSix (moves : List Int) : Prop :=
  ∀ taken, taken <+: moves → 0 ≤ taken.sum ∧ taken.sum ≤ 5

namespace Place

/-- What a frame with the given button does to the place. -/
def step (p : Place) : Option ButtonId → Place
  | some .dpadLeft =>
      { p with selectCursor :=
          if p.selectCursor - 1 < 0 then p.selectCursor - 1 + p.optionCount
          else p.selectCursor - 1 }
  | some .dpadRight =>
      { p with selectCursor :=
          if p.selectCursor + 1 ≥ p.optionCount then p.selectCursor + 1 - p.optionCount
          else p.selectCursor + 1 }
  | some .a => { p with quit := true }
  | some .b => { p with quit := true }
  | some .select =>
      let count := State.visibleCount !p.show24hour
      { p with
        show24hour := !p.show24hour
        optionCount := count
        selectCursor := if p.selectCursor ≥ count then p.selectCursor - count
          else p.selectCursor }
  | _ => p

def run : List (Option ButtonId) → Place → Place
  | [], p => p
  | button :: rest, p => if p.quit then p else run rest (p.step button)

/-- The cursor is on a field that is shown. -/
def Visible (p : Place) : Prop :=
  0 ≤ p.selectCursor ∧ p.selectCursor < State.visibleCount p.show24hour

/-- The number of fields is that of the mode, and the cursor is on one of them. -/
structure Counted (p : Place) : Prop where
  count : p.optionCount = State.visibleCount p.show24hour
  visible : p.Visible

/-- The 24-hour mode as it is before the first switch, with the cursor on a field. -/
structure Unswitched (p : Place) : Prop where
  mode : p.show24hour = true
  count : p.optionCount = 7
  running : p.quit = false
  nonneg : 0 ≤ p.selectCursor
  le : p.selectCursor ≤ 5

variable {p : Place}

@[simp] theorem visibleCount_12 : State.visibleCount false = 7 := rfl

@[simp] theorem visibleCount_24 : State.visibleCount true = 6 := rfl

theorem Unswitched.visible (h : p.Unswitched) : p.Visible := by
  refine ⟨h.nonneg, ?_⟩
  rw [h.mode, visibleCount_24]
  exact Int.lt_of_le_sub_one h.le

/-- A switch sets the number of fields, and it brings the cursor back on them. -/
theorem counted_select (hnonneg : 0 ≤ p.selectCursor) (hlt : p.selectCursor < 7) :
    (p.step (some .select)).Counted := by
  refine ⟨rfl, ?_⟩
  unfold Visible step
  cases hmode : p.show24hour
  · simp only [Bool.not_false, visibleCount_24]
    split_ifs <;> omega
  · simp only [Bool.not_true, visibleCount_12]
    split_ifs <;> omega

theorem Visible.lt_seven (h : p.Visible) : p.selectCursor < 7 := by
  refine lt_of_lt_of_le h.2 ?_
  cases p.show24hour <;> decide

theorem Counted.step (h : p.Counted) (button : Option ButtonId) : (p.step button).Counted := by
  obtain ⟨hcount, hnonneg, hlt⟩ := h
  have hlt' := hcount ▸ hlt
  unfold Place.step
  split
  · refine ⟨hcount, ?_⟩
    unfold Visible
    dsimp only
    rw [← hcount]
    split_ifs <;> omega
  · refine ⟨hcount, ?_⟩
    unfold Visible
    dsimp only
    rw [← hcount]
    split_ifs <;> omega
  · exact ⟨hcount, hnonneg, hlt⟩
  · exact ⟨hcount, hnonneg, hlt⟩
  · exact counted_select hnonneg (Visible.lt_seven ⟨hnonneg, hlt⟩)
  · exact ⟨hcount, hnonneg, hlt⟩

theorem Counted.run (h : p.Counted) (buttons : List (Option ButtonId)) :
    (p.run buttons).Counted := by
  induction buttons generalizing p with
  | nil => exact h
  | cons button rest ih =>
      unfold Place.run
      split
      · exact h
      · exact ih (h.step button)

/-- Once the loop has ended the place stays. -/
theorem run_of_quit (h : p.quit = true) (buttons : List (Option ButtonId)) :
    p.run buttons = p := by
  cases buttons with
  | nil => rfl
  | cons button rest => rw [run, if_pos h]

theorem run_cons (h : p.quit = false) (button : Option ButtonId)
    (rest : List (Option ButtonId)) : p.run (button :: rest) = (p.step button).run rest := by
  rw [run, if_neg (by simp [h])]

/-- A property of all places on the way, one button at a time. -/
theorem forall_run_cons {q : Place → Prop} (hrunning : p.quit = false) (hp : q p)
    {button : Option ButtonId} {rest : List (Option ButtonId)} :
    (∀ played, played <+: button :: rest → q (p.run played)) ↔
      ∀ played, played <+: rest → q ((p.step button).run played) := by
  constructor
  · intro h played hplayed
    rw [← run_cons hrunning]
    exact h _ ((List.prefix_cons_inj button).mpr hplayed)
  · intro h played hplayed
    rcases List.prefix_cons_iff.mp hplayed with rfl | ⟨tail, rfl, htail⟩
    · exact hp
    · rw [run_cons hrunning]
      exact h tail htail

/-- The sums over all beginnings of the moves, one move at a time. -/
theorem forall_sum_cons {k move : Int} {moves : List Int} (hk : 0 ≤ k ∧ k ≤ 5) :
    (∀ taken, taken <+: move :: moves → 0 ≤ k + taken.sum ∧ k + taken.sum ≤ 5) ↔
      ∀ taken, taken <+: moves → 0 ≤ k + move + taken.sum ∧ k + move + taken.sum ≤ 5 := by
  constructor
  · intro h taken htaken
    have hsum := h _ ((List.prefix_cons_inj move).mpr htaken)
    rwa [List.sum_cons, ← add_assoc] at hsum
  · intro h taken htaken
    rcases List.prefix_cons_iff.mp htaken with rfl | ⟨tail, rfl, htail⟩
    · simpa using hk
    · rw [List.sum_cons, ← add_assoc]
      exact h tail htail

/-- One step off the six fields shows at once, and is one step off the six in the moves. -/
theorem Unswitched.sidestep_iff (h : p.Unswitched) {button : Option ButtonId} {move : Int}
    {rest : List (Option ButtonId)}
    (hstep : ∀ k, 0 ≤ p.selectCursor + move → p.selectCursor + move ≤ 5 →
      k = p.selectCursor + move → p.step button = { p with selectCursor := k })
    (hoff : ¬ (0 ≤ p.selectCursor + move ∧ p.selectCursor + move ≤ 5) →
      ¬ (p.step button).Visible)
    (ih : ∀ {p : Place}, p.Unswitched →
      ((∀ played, played <+: rest → (p.run played).Visible) ↔
        ∀ taken, taken <+: sidesteps rest →
          0 ≤ p.selectCursor + taken.sum ∧ p.selectCursor + taken.sum ≤ 5)) :
    (∀ played, played <+: button :: rest → (p.run played).Visible) ↔
      ∀ taken, taken <+: move :: sidesteps rest →
        0 ≤ p.selectCursor + taken.sum ∧ p.selectCursor + taken.sum ≤ 5 := by
  rw [forall_run_cons h.running h.visible, forall_sum_cons ⟨h.nonneg, h.le⟩]
  by_cases hon : 0 ≤ p.selectCursor + move ∧ p.selectCursor + move ≤ 5
  · rw [hstep _ hon.1 hon.2 rfl]
    exact ih (p := { p with selectCursor := p.selectCursor + move })
      ⟨h.mode, h.count, h.running, hon.1, hon.2⟩
  · constructor
    · intro hall
      exact absurd (hall [] List.nil_prefix) (hoff hon)
    · intro hall
      refine absurd (hall [] List.nil_prefix) ?_
      simpa using hon

/-- Where no move is counted any more, the cursor has to be shown for good. -/
theorem Unswitched.ended_iff (h : p.Unswitched) {buttons : List (Option ButtonId)}
    (hall : ∀ played, played <+: buttons → (p.run played).Visible) :
    (∀ played, played <+: buttons → (p.run played).Visible) ↔
      ∀ taken, taken <+: [] → 0 ≤ p.selectCursor + taken.sum ∧ p.selectCursor + taken.sum ≤ 5 := by
  refine iff_of_true hall fun taken htaken => ?_
  rw [List.prefix_nil.mp htaken]
  simpa using ⟨h.nonneg, h.le⟩

/-- The loop ends with the cursor where it is. -/
theorem Unswitched.visible_of_quit (h : p.Unswitched) {button : Option ButtonId}
    (hstep : p.step button = { p with quit := true }) {rest played : List (Option ButtonId)}
    (hplayed : played <+: button :: rest) : (p.run played).Visible := by
  rcases List.prefix_cons_iff.mp hplayed with rfl | ⟨tail, rfl, -⟩
  · exact h.visible
  · rw [run_cons h.running, hstep, run_of_quit rfl]
    exact h.visible

/-- The field of AM/PM is not shown. -/
theorem Unswitched.not_visible (h : p.Unswitched) : ¬ { p with selectCursor := 6 }.Visible := by
  rintro ⟨-, hlt⟩
  rw [h.mode] at hlt
  exact absurd hlt (Int.not_lt_of_ge (le_refl 6))

/-- Before the first switch the 24-hour mode shows the cursor as long as the moves stay on six
fields. -/
theorem Unswitched.visible_iff (h : p.Unswitched) (buttons : List (Option ButtonId)) :
    (∀ played, played <+: buttons → (p.run played).Visible) ↔
      ∀ taken, taken <+: sidesteps buttons →
        0 ≤ p.selectCursor + taken.sum ∧ p.selectCursor + taken.sum ≤ 5 := by
  have hcount := h.count
  have hnonneg := h.nonneg
  have hle := h.le
  fun_induction sidesteps buttons generalizing p with
  | case1 =>
      refine h.ended_iff fun played hplayed => ?_
      rw [List.prefix_nil.mp hplayed]
      exact h.visible
  -- LEFT
  | case2 rest ih =>
      refine h.sidestep_iff (fun k hk _ hkeq => ?_) (fun hoff hvisible => ?_)
        fun h' => ih h' h'.count h'.nonneg h'.le
      · rw [step, if_neg (by omega), hkeq]
        rfl
      · rw [step, if_pos (by omega), hcount, show p.selectCursor - 1 + 7 = 6 by omega] at hvisible
        exact h.not_visible hvisible
  -- RIGHT
  | case3 rest ih =>
      refine h.sidestep_iff (fun k _ hk hkeq => ?_) (fun hoff hvisible => ?_)
        fun h' => ih h' h'.count h'.nonneg h'.le
      · rw [step, if_neg (by omega), hkeq]
      · rw [step, if_neg (by omega), show p.selectCursor + 1 = 6 by omega] at hvisible
        exact h.not_visible hvisible
  | case4 rest => exact h.ended_iff fun played => h.visible_of_quit rfl
  | case5 rest => exact h.ended_iff fun played => h.visible_of_quit rfl
  -- SELECT counts the fields of the mode it leads to
  | case6 rest =>
      refine h.ended_iff ((forall_run_cons h.running h.visible).mpr fun played _ => ?_)
      exact ((counted_select hnonneg (by omega)).run played).visible
  | case7 button rest hleft hright ha hb hselect ih =>
      have hstep : p.step button = p := by
        unfold step
        split <;> first | rfl | contradiction
      rw [forall_run_cons h.running h.visible, hstep]
      exact ih h hcount hnonneg hle

/-- Two switches come back to the number of fields of the mode. -/
theorem restored (hrunning : p.quit = false) :
    (p.run [some .select, some .select]).optionCount = State.visibleCount p.show24hour := by
  have hrunning' : (p.step (some .select)).quit = false := hrunning
  rw [run_cons hrunning, run_cons hrunning']
  exact congrArg State.visibleCount (Bool.not_not _)

end Place

theorem Cursor.exists_index {n : Int} (hnonneg : 0 ≤ n) (hlt : n < 7) :
    ∃ cursor : Cursor, n = cursor.index := by
  have hcases : n = 0 ∨ n = 1 ∨ n = 2 ∨ n = 3 ∨ n = 4 ∨ n = 5 ∨ n = 6 := by omega
  rcases hcases with rfl | rfl | rfl | rfl | rfl | rfl | rfl
  · exact ⟨.year, rfl⟩
  · exact ⟨.month, rfl⟩
  · exact ⟨.day, rfl⟩
  · exact ⟨.hour, rfl⟩
  · exact ⟨.minute, rfl⟩
  · exact ⟨.second, rfl⟩
  · exact ⟨.ampm, rfl⟩

open State Place

variable {c d : State}

theorem place_edit {step : Int} (h : c.edit step = some d) : d.place = c.place := by
  obtain ⟨selected, -, rfl⟩ := Option.map_eq_some_iff.mp h
  rfl

theorem place_draw (redraw : Bool) : (c.draw redraw).place = c.place := by
  unfold State.draw
  split <;> rfl

theorem place_handle {button : Option ButtonId} (h : c.handle button = some d) :
    d.place = c.place.step button := by
  unfold handle at h
  split at h
  · exact place_edit h
  · exact place_edit h
  · exact Option.some.inj h ▸ rfl
  · exact Option.some.inj h ▸ rfl
  · exact Option.some.inj h ▸ rfl
  · exact Option.some.inj h ▸ rfl
  · exact Option.some.inj h ▸ rfl
  next hup hdown hleft hright ha hb hselect =>
    cases h
    unfold step
    split <;> first | rfl | contradiction

theorem place_frame {frame : Frame} (h : c.frame frame = some d) :
    d.place = c.place.step frame.branch := by
  obtain ⟨handled, hhandled, rfl⟩ := Option.map_eq_some_iff.mp h
  rw [place_draw]
  exact place_handle hhandled

/-- The loop moves the cursor as its buttons say. -/
theorem place_loop {frames : List Frame} (h : loop frames c = some d) :
    d.place = c.place.run (frames.map Frame.branch) := by
  induction frames generalizing c with
  | nil =>
      cases h
      rfl
  | cons frame rest ih =>
      unfold loop at h
      rw [List.map_cons, run, show c.place.quit = c.quit from rfl]
      split at h
      next hquit =>
        cases h
        rw [if_pos hquit]
      next hquit =>
        obtain ⟨next, hframe, hloop⟩ := Option.bind_eq_some_iff.mp h
        rw [if_neg hquit, ← place_frame hframe]
        exact ih hloop

/-- On the place, to be visible is to be below the number of fields of the mode. -/
theorem onVisible_iff : c.OnVisible ↔ c.place.Visible := by
  constructor
  · rintro ⟨cursor, hcursor, hmode⟩
    unfold Visible place
    dsimp only
    rw [hcursor]
    cases hshow : c.show24hour
    · cases cursor <;> decide
    · cases cursor
      case ampm => exact absurd (hmode rfl) (by simp [hshow])
      all_goals decide
  · intro h
    obtain ⟨cursor, hcursor⟩ := Cursor.exists_index h.1 h.lt_seven
    refine ⟨cursor, hcursor, ?_⟩
    rintro rfl
    by_contra hmode
    have hlt := h.2
    rw [show c.place.show24hour = true from Bool.eq_true_of_not_eq_false hmode] at hlt
    exact absurd (hcursor ▸ hlt) (by decide)

theorem Settled.loop (h : Settled c) (frames : List Frame) : ∃ d, loop frames c = some d := by
  cases frames with
  | nil => exact ⟨c, rfl⟩
  | cons frame rest =>
      unfold State.loop
      split
      next => exact ⟨c, rfl⟩
      next =>
        obtain ⟨first, hframe, hsettled, hreal⟩ := h.frame frame
        obtain ⟨d, hd, -⟩ := loop_real rest hsettled hreal
        exact ⟨d, by rw [hframe, Option.bind_some, hd]⟩

/-- A property of the place holds at every frame if it holds wherever the buttons lead. -/
theorem atEveryFrame_iff (hsettled : Settled c) {p : State → Prop} {q : Place → Prop}
    (hp : ∀ d, p d ↔ q d.place) (frames : List Frame) :
    c.AtEveryFrame p frames ↔
      ∀ played, played <+: frames.map Frame.branch → q (c.place.run played) := by
  constructor
  · intro h played hplayed
    obtain ⟨taken, htaken, rfl⟩ := List.prefix_map_iff.mp hplayed
    obtain ⟨d, hloop⟩ := hsettled.loop taken
    rw [← place_loop hloop]
    exact (hp d).mp (h taken htaken d hloop)
  · intro h played hplayed d hloop
    rw [hp, place_loop hloop]
    exact h _ (hplayed.map _)

/-- The number of fields is restored where it is that of the mode. -/
theorem restores_of_counted (h : c.place.Counted) : c.Restores := by
  intro first second hfirst hsecond d hloop
  have hplace := place_loop hloop
  rw [List.map_cons, List.map_singleton, hfirst, hsecond] at hplace
  change d.place.optionCount = c.place.optionCount
  rw [hplace]
  cases hquit : c.place.quit with
  | true => rw [run_of_quit hquit]
  | false => rw [restored hquit, h.count]

/-- A frame in which only one button is new or repeated. -/
def pressing (repeated pressed : BitVec 32) : Frame :=
  ⟨{ Pad.initial with justRepeated := repeated, justPressed := pressed }, false⟩

theorem branch_select : (pressing 0 ButtonId.select.btn).branch = some .select := by
  decide

theorem counted_start (tm : Tm) : (start tm false).place.Counted :=
  ⟨rfl, le_refl (0 : Int), show (0 : Int) < 7 by decide⟩

theorem unswitched_start (tm : Tm) : (start tm true).place.Unswitched :=
  ⟨rfl, rfl, rfl, le_refl (0 : Int), show (0 : Int) ≤ 5 by decide⟩

/-- The 24-hour mode starts with a field too many. -/
theorem not_restores_start (tm : Tm) : ¬ (start tm true).Restores := by
  intro h
  obtain ⟨d, hloop⟩ := (settled_start tm true).loop
    [pressing 0 ButtonId.select.btn, pressing 0 ButtonId.select.btn]
  have hcount := h _ _ branch_select branch_select d hloop
  have hplace := place_loop hloop
  rw [List.map_cons, List.map_singleton, branch_select] at hplace
  have hsix : d.optionCount = 6 := (congrArg Place.optionCount hplace).trans (restored rfl)
  exact absurd (hsix.symm.trans hcount) (show (6 : Int) ≠ 7 by decide)

/-- The cursor is always on a visible field from a start in the 12-hour mode, and from one in the
24-hour mode exactly if it moves over its six fields only, until the first switch. Two switches
restore the number of fields at every frame exactly from a start in the 12-hour mode. -/
theorem cursor_visible_iff (tm : Tm) (show24hour : Bool) (frames : List Frame) :
    ((start tm show24hour).AtEveryFrame OnVisible frames ↔
        show24hour = false ∨ StaysOnSix (sidesteps (frames.map Frame.branch))) ∧
      ((start tm show24hour).AtEveryFrame Restores frames ↔ show24hour = false) := by
  have hsettled := settled_start tm show24hour
  cases show24hour with
  | false =>
      have hcounted := counted_start tm
      refine ⟨iff_of_true ?_ (.inl rfl), iff_of_true (fun played _ d hloop => ?_) rfl⟩
      · rw [atEveryFrame_iff hsettled (q := Visible) fun d => onVisible_iff]
        exact fun played _ => (hcounted.run played).visible
      · exact restores_of_counted (place_loop hloop ▸ hcounted.run _)
  | true =>
      constructor
      · rw [atEveryFrame_iff hsettled (q := Visible) fun d => onVisible_iff,
          (unswitched_start tm).visible_iff]
        have hzero (taken : List Int) : (start tm true).place.selectCursor + taken.sum =
            taken.sum := Int.zero_add _
        simp only [hzero, reduceCtorEq, false_or, StaysOnSix]
      · refine iff_of_false (fun h => ?_) (by decide)
        exact not_restores_start tm (h [] List.nil_prefix _ rfl)

/-- In the 24-hour mode LEFT takes the cursor from the year to AM/PM, and two switches make six
fields of seven. -/
theorem cursor_hidden :
    ¬ ∀ (tm : Tm) (show24hour : Bool) (frames : List Frame),
      (start tm show24hour).AtEveryFrame OnVisible frames ∧
        (start tm show24hour).AtEveryFrame Restores frames := by
  intro h
  let tm : Tm := ⟨0, 0, 12, 1, 0, 124, by constructor <;> decide, by decide, by decide, by decide,
    by decide⟩
  have hvisible := (h tm true [pressing ButtonId.dpadLeft.btn 0]).1
  obtain ⟨d, hloop⟩ := (settled_start tm true).loop [pressing ButtonId.dpadLeft.btn 0]
  have hshown := onVisible_iff.mp (hvisible _ List.prefix_rfl d hloop)
  rw [place_loop hloop] at hshown
  exact absurd hshown.2 (by decide)

end DarkUI.Clock
