import DarkUI.Clock.Clock

/-! # The date that the clock sets

Each field is brought back by one length of its range, which is enough because one frame moves it
by one step from a date that was already brought back.
-/

namespace DarkUI.Clock

open FixedPoint

namespace Selected

/-- A date that exists, in the years the clock knows. -/
structure Real (s : Selected) : Prop where
  year_ge : 1970 ≤ s.year
  year_le : s.year ≤ 2100
  isDay : Calendar.IsDay s.year s.month s.day
  isTime : Calendar.IsTime s.hour s.minute s.seconds

/-- What `localtime` may tell: a real date, but for a leap second. -/
structure Told (s : Selected) : Prop where
  year_ge : 1970 ≤ s.year
  year_le : s.year ≤ 2100
  isDay : Calendar.IsDay s.year s.month s.day
  hour_nonneg : 0 ≤ s.hour
  hour_le : s.hour ≤ 23
  minute_nonneg : 0 ≤ s.minute
  minute_le : s.minute ≤ 59
  seconds_nonneg : 0 ≤ s.seconds
  seconds_le : s.seconds ≤ 60

/-- How far one edit can take the fields. -/
structure Near (s : Selected) : Prop where
  year_ge : 1969 ≤ s.year
  year_le : s.year ≤ 2101
  month_nonneg : 0 ≤ s.month
  month_le : s.month ≤ 13
  day_nonneg : 0 ≤ s.day
  day_le : s.day ≤ 32
  hour_ge : -12 ≤ s.hour
  hour_le : s.hour ≤ 35
  minute_ge : -1 ≤ s.minute
  minute_le : s.minute ≤ 60
  seconds_ge : -1 ≤ s.seconds
  seconds_le : s.seconds ≤ 61

variable {s : Selected} {n low high length : Int}

theorem Real.told (h : s.Real) : s.Told where
  year_ge := h.year_ge
  year_le := h.year_le
  isDay := h.isDay
  hour_nonneg := h.isTime.hour_nonneg
  hour_le := h.isTime.hour_le
  minute_nonneg := h.isTime.minute_nonneg
  minute_le := h.isTime.minute_le
  seconds_nonneg := h.isTime.second_nonneg
  seconds_le := le_trans h.isTime.second_le (by decide)

theorem Told.day_le (h : s.Told) : s.day ≤ 31 :=
  le_trans h.isDay.day_le (Calendar.days_le _ _)

theorem Told.near (h : s.Told) : s.Near := by
  have hday := h.day_le
  obtain ⟨hyear, hyear', ⟨hmonth, hmonth', hday', -⟩, hhour, hhour', hmin, hmin', hsec, hsec'⟩ := h
  constructor <;> omega

/-- A number that is off by at most the length of its range is brought back into it. -/
theorem wrapped_mem (hlength : length = high - low + 1) (hge : low - length ≤ n)
    (hle : n ≤ high + length) : low ≤ wrapped n low high length ∧
      wrapped n low high length ≤ high := by
  unfold wrapped
  split_ifs <;> omega

theorem unsigned_of_small (hn : 0 ≤ n) (hlt : n < 4294967296) : unsigned n = n :=
  Int.emod_eq_of_lt hn hlt

theorem signed_of_small (hn : 0 ≤ n) (hlt : n < 2147483648) : signed n = n := by
  unfold signed
  exact Int.bmod_eq_of_le (by omega) (by omega)

/-- February is as long as in the year that is selected in the end. -/
theorem februaryDays_eq (h : s.Near) :
    s.februaryDays = Calendar.days s.validateYear.year 2 := by
  have hge := h.year_ge
  have hle := h.year_le
  have hleap : s.year % 4 = 0 ∧ s.year % 100 ≠ 0 ∨ s.year % 400 = 0 ↔
      Calendar.IsLeap s.validateYear.year := by
    simp only [Calendar.isLeap_iff, validateYear, Int.dvd_iff_emod_eq_zero]
    -- the two years that are corrected are no leap years, and nor are those they become
    split_ifs <;> omega
  unfold februaryDays Calendar.days
  rw [if_pos rfl]
  exact if_congr hleap rfl rfl

/-- The day is brought back into the month, whatever the month was before. -/
theorem validateDay_mem (hday : 0 ≤ s.day) (hday' : s.day ≤ 32) {february : Int}
    (hfebruary : february = Calendar.days s.year 2) :
    1 ≤ (s.validateDay february).day ∧
      (s.validateDay february).day ≤ Calendar.days s.year s.month := by
  have hge : 28 ≤ february := hfebruary ▸ Calendar.le_days _ _
  have hle : february ≤ 31 := hfebruary ▸ Calendar.days_le _ _
  unfold validateDay
  dsimp only
  by_cases htwo : s.month = 2
  · rw [if_pos htwo, htwo, ← hfebruary, unsigned_of_small hday (by omega)]
    split_ifs with hlong hshort
    · rw [unsigned_of_small (by omega) (by omega), signed_of_small (by omega) (by omega)]
      omega
    · rw [unsigned_of_small (by omega) (by omega), signed_of_small (by omega) (by omega)]
      omega
    · omega
  · rw [if_neg htwo]
    unfold Calendar.days
    rw [if_neg htwo]
    by_cases hthirty : s.month = 4 ∨ s.month = 6 ∨ s.month = 9 ∨ s.month = 11
    · rw [if_pos hthirty, if_pos (by simpa using hthirty)]
      exact wrapped_mem rfl (by omega) (by omega)
    · rw [if_neg hthirty, if_neg (by simpa using hthirty)]
      exact wrapped_mem rfl (by omega) (by omega)

/-- After one edit `validate` leaves a real date. -/
theorem Near.validate (h : s.Near) : s.validate.Real := by
  have hmonth : 1 ≤ wrapped s.month 1 12 12 ∧ wrapped s.month 1 12 12 ≤ 12 :=
    wrapped_mem rfl (by linarith [h.month_nonneg]) (by linarith [h.month_le])
  have hhour : 0 ≤ wrapped s.hour 0 23 24 ∧ wrapped s.hour 0 23 24 ≤ 23 :=
    wrapped_mem rfl (by linarith [h.hour_ge]) (by linarith [h.hour_le])
  have hminute : 0 ≤ wrapped s.minute 0 59 60 ∧ wrapped s.minute 0 59 60 ≤ 59 :=
    wrapped_mem rfl (by linarith [h.minute_ge]) (by linarith [h.minute_le])
  have hseconds : 0 ≤ wrapped s.seconds 0 59 60 ∧ wrapped s.seconds 0 59 60 ≤ 59 :=
    wrapped_mem rfl (by linarith [h.seconds_ge]) (by linarith [h.seconds_le])
  have hyear : 1970 ≤ s.validateYear.year ∧ s.validateYear.year ≤ 2100 := by
    unfold validateYear
    dsimp only
    split_ifs <;> omega
  have hfebruary : s.februaryDays = Calendar.days s.validateMonth.validateYear.year 2 :=
    februaryDays_eq h
  have hday := validateDay_mem (s := s.validateMonth.validateYear) h.day_nonneg h.day_le hfebruary
  exact ⟨hyear.1, hyear.2, ⟨hmonth.1, hmonth.2, hday.1, hday.2⟩,
    ⟨hhour.1, hhour.2, hminute.1, hminute.2, hseconds.1, hseconds.2⟩⟩

/-- One edit of a date is defined, and takes no field farther than `validate` can bring back. -/
theorem Told.edit (h : s.Told) {step : Int} (hstep : step = 1 ∨ step = -1)
    (cursor : Option Cursor) : ∃ t, s.edit step cursor = some t ∧ t.Near := by
  have hday := h.day_le
  obtain ⟨hyear, hyear', ⟨hmonth, hmonth', hday', -⟩, hhour, hhour', hmin, hmin', hsec, hsec'⟩ := h
  have hunsigned : unsigned (s.year + step) = s.year + step :=
    unsigned_of_small (by omega) (by omega)
  have hchecked : ∀ n, -12 ≤ n → n ≤ 72 → checked n = some n := fun n hlow hhigh =>
    if_pos ⟨by omega, by omega⟩
  cases cursor with
  | none => exact ⟨s, rfl, by constructor <;> omega⟩
  | some cursor =>
      cases cursor <;> simp only [Selected.edit]
      case year => exact ⟨_, rfl, by constructor <;> dsimp only <;> omega⟩
      all_goals
        rw [hchecked _ (by omega) (by omega)]
        exact ⟨_, rfl, by constructor <;> dsimp only <;> omega⟩

end Selected

open Selected State

/-- What holds before every frame: only a date that is still to be drawn may need correction. -/
structure Settled (c : State) : Prop where
  told : c.selected.Told
  real : c.dirty = false → c.selected.Real

variable {c : State}

theorem told_start (tm : Tm) (show24hour : Bool) : (start tm show24hour).selected.Told := by
  have hyear : (start tm show24hour).selected.year = tm.year + 1900 :=
    unsigned_of_small (by linarith [tm.inRange.1]) (by linarith [tm.inRange.2])
  refine ⟨?_, ?_, ?_, tm.isHour.1, tm.isHour.2, tm.isMinute.1, tm.isMinute.2, tm.isSecond.1,
    tm.isSecond.2⟩
  · rw [hyear]
    exact tm.inRange.1
  · rw [hyear]
    exact tm.inRange.2
  · rw [hyear]
    exact tm.isDay

theorem settled_start (tm : Tm) (show24hour : Bool) : Settled (start tm show24hour) :=
  ⟨told_start tm show24hour, fun hdirty => nomatch hdirty⟩

/-- The buttons leave a date near a real one, and what they change will be drawn. -/
theorem Settled.handle (h : Settled c) (button : Option ButtonId) :
    ∃ d, c.handle button = some d ∧ d.selected.Near ∧ (d.dirty = false → d.selected.Real) := by
  have hedit (step : Int) (hstep : step = 1 ∨ step = -1) :
      ∃ d, c.edit step = some d ∧ d.selected.Near ∧ (d.dirty = false → d.selected.Real) := by
    obtain ⟨selected, hselected, hnear⟩ := h.told.edit hstep (Cursor.ofIndex c.selectCursor)
    refine ⟨_, by rw [State.edit, hselected, Option.map_some], hnear, fun hdirty => ?_⟩
    cases hdirty
  have hkept (d : State) (hselected : d.selected = c.selected)
      (hdirty : d.dirty = true ∨ d.dirty = c.dirty) :
      d.selected.Near ∧ (d.dirty = false → d.selected.Real) := by
    rw [hselected]
    refine ⟨h.told.near, fun hclean => ?_⟩
    rcases hdirty with hdirty | hdirty
    · exact absurd (hclean.symm.trans hdirty) (by decide)
    · exact h.real (hdirty ▸ hclean)
  unfold State.handle
  split
  · exact hedit 1 (.inl rfl)
  · exact hedit (-1) (.inr rfl)
  · exact ⟨_, rfl, hkept _ rfl (.inl rfl)⟩
  · exact ⟨_, rfl, hkept _ rfl (.inl rfl)⟩
  · exact ⟨_, rfl, hkept _ rfl (.inr rfl)⟩
  · exact ⟨_, rfl, hkept _ rfl (.inr rfl)⟩
  · exact ⟨_, rfl, hkept _ rfl (.inl rfl)⟩
  · exact ⟨_, rfl, hkept _ rfl (.inr rfl)⟩

/-- Every frame is defined and leaves a real date. -/
theorem Settled.frame (h : Settled c) (frame : Frame) :
    ∃ d, c.frame frame = some d ∧ Settled d ∧ d.selected.Real := by
  obtain ⟨d, hhandle, hnear, hreal⟩ := h.handle frame.branch
  refine ⟨d.draw frame.redraw, by rw [State.frame, hhandle, Option.map_some], ?_⟩
  have hdrawn : (d.draw frame.redraw).selected.Real := by
    unfold State.draw
    split
    next => exact hnear.validate
    next hclean =>
      rw [Bool.or_eq_true, not_or, Bool.not_eq_true] at hclean
      exact hreal hclean.1
  exact ⟨⟨hdrawn.told, fun _ => hdrawn⟩, hdrawn⟩

theorem loop_real (frames : List Frame) (h : Settled c) (hreal : c.selected.Real) :
    ∃ d, loop frames c = some d ∧ d.selected.Real := by
  induction frames generalizing c with
  | nil => exact ⟨c, rfl, hreal⟩
  | cons frame rest ih =>
      unfold State.loop
      split
      next => exact ⟨c, rfl, hreal⟩
      next =>
        obtain ⟨d, hframe, hsettled, hreal'⟩ := h.frame frame
        rw [hframe, Option.bind_some]
        exact ih hsettled hreal'

theorem real_of_dateTime (h : c.selected.Real) {passed : Selected}
    (hpassed : c.dateTime = some passed) : passed.Real := by
  unfold State.dateTime at hpassed
  split at hpassed
  next =>
    have hyear : signed c.selected.year = c.selected.year :=
      signed_of_small (by linarith [h.year_ge]) (by linarith [h.year_le])
    rw [hyear] at hpassed
    exact Option.some.inj hpassed ▸ h
  next => cases hpassed

/-- From every date that `localtime` may tell, the date is real after each frame, and it is real
when it is passed on. -/
theorem clock_date_real (tm : Tm) (show24hour : Bool) (frame : Frame) (rest : List Frame) :
    ∃ c, loop (frame :: rest) (start tm show24hour) = some c ∧ c.selected.Real ∧
      ∀ passed ∈ c.dateTime, passed.Real := by
  obtain ⟨first, hframe, hsettled, hreal⟩ := (settled_start tm show24hour).frame frame
  obtain ⟨c, hloop, hlast⟩ := loop_real rest hsettled hreal
  refine ⟨c, ?_, hlast, fun passed hpassed => real_of_dateTime hlast hpassed⟩
  have hrunning : ¬ (start tm show24hour).quit = true := Bool.false_ne_true
  rw [State.loop, if_neg hrunning, hframe, Option.bind_some, hloop]

end DarkUI.Clock
