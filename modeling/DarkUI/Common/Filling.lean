import DarkUI.Common.WrapLaws

/-! # Filled lines

The words of a text are filled into lines that stay narrow enough. The first line is too wide as
long as its first words are, and a line that begins with a break of its own can be left blank;
any other line after the first is to have room for two words.
-/

namespace DarkUI.Gfx

open Text

/-- A text from its words, the first of them apart. -/
def joined (line : CString) (words : List CString) : CString := line ++ words.flatMap (' ' :: ·)

section Rules

variable (width : CString → Int) (maxWidth : Int) (maxLines : Nat)

/-- The words join the line one after the other, and none makes it too wide. -/
def Takes (line : CString) : List CString → Prop
  | [] => True
  | word :: rest => width (line ++ ' ' :: word) < maxWidth ∧ Takes (line ++ ' ' :: word) rest

instance decidableTakes : ∀ line words, Decidable (Takes width maxWidth line words)
  | _, [] => .isTrue trivial
  | line, word :: rest =>
      have := decidableTakes (line ++ ' ' :: word) rest
      inferInstanceAs (Decidable (_ ∧ _))

/-- The words join a line that is too wide before each of them. -/
def Overflows (line : CString) : List CString → Prop
  | [] => True
  | word :: rest => maxWidth ≤ width line ∧ Overflows (line ++ ' ' :: word) rest

/-- The word has no room in the line. -/
def Full (line word : CString) : Prop := maxWidth ≤ width (line ++ ' ' :: word)

instance (line word : CString) : Decidable (Full width maxWidth line word) :=
  inferInstanceAs (Decidable (_ ≤ _))

/-- Another line may be begun after the first `n`. -/
def Allowed (n : Nat) : Prop := maxLines = 0 ∨ n < maxLines

instance (n : Nat) : Decidable (Allowed maxLines n) := inferInstanceAs (Decidable (_ ∨ _))

/-- The `n`th line and those after it can be filled with a first word and the words behind it, and
`left` is what is left for the last one. -/
inductive Fills : Nat → CString → List CString → CString → Prop
  /-- No other line is allowed. -/
  | last {n : Nat} (first : CString) (words : List CString) (hlast : ¬Allowed maxLines n) :
      Fills n first words (joined first words)
  /-- All words have room. -/
  | rest {n : Nat} {first : CString} {words : List CString}
      (htakes : Takes width maxWidth first words) : Fills n first words (joined first words)
  /-- The line has room for its second word, and for more of them, but not for the next. -/
  | line {n : Nat} {first second : CString} {more : List CString} {next : CString}
      {after : List CString} {left : CString} (hallowed : Allowed maxLines n)
      (htakes : Takes width maxWidth first (second :: more))
      (hfull : Full width maxWidth (joined first (second :: more)) next)
      (hnext : Fills (n + 1) next after left) :
      Fills n first (second :: more ++ next :: after) left
  /-- The line has no room for its second word, but begins with a space or a line break. -/
  | blank {n : Nat} {first second : CString} {c : Char} {begins : CString}
      {after : List CString} {left : CString} (hallowed : Allowed maxLines n)
      (hfull : Full width maxWidth first second) (hbegins : first ++ ' ' :: second = c :: begins)
      (hc : c = ' ' ∨ c = '\n') (hnext : Fills (n + 1) begins after left) :
      Fills n first (second :: after) left

/-- The first line and those after it can be filled, and `left` is what is left for the last. -/
inductive FillsFirst (first : CString) : List CString → CString → Prop
  | last (words : List CString) (hlast : ¬Allowed maxLines 1) :
      FillsFirst first words (joined first words)
  /-- The line is never narrow enough before a space. -/
  | rest {words : List CString} (hwide : Overflows width maxWidth first words) :
      FillsFirst first words (joined first words)
  /-- From where it is narrow enough the line takes words as long as it stays so. -/
  | line {wide more : List CString} {next : CString} {after : List CString} {left : CString}
      (hallowed : Allowed maxLines 1) (hwide : Overflows width maxWidth first wide)
      (hnarrow : width (joined first wide) < maxWidth)
      (htakes : Takes width maxWidth (joined first wide) more)
      (hfull : Full width maxWidth (joined first (wide ++ more)) next)
      (hnext : Fills width maxWidth maxLines 2 next after left) :
      FillsFirst first (wide ++ more ++ next :: after) left

/-- The words of the text can be filled into lines. -/
def FillsText (text left : CString) : Prop :=
  ∃ first words, text = joined first words ∧ (∀ word ∈ first :: words, ' ' ∉ word) ∧
    FillsFirst width maxWidth maxLines first words left

/-- A text that fits is short enough to be copied, and the words of any other can be filled into
lines of which the last can be shown. -/
def Wraps (text : CString) : Prop :=
  if width text ≤ maxWidth then text.length < maxPath
  else ∃ left, FillsText width maxWidth maxLines text left ∧ Shortens width maxWidth left

end Rules

variable {width : CString → Int} {maxWidth : Int} {maxLines n : Nat}
variable {text line word left : CString} {words : List CString}

@[simp] theorem joined_nil : joined line [] = line := List.append_nil _

theorem joined_cons : joined line (word :: words) = joined (line ++ ' ' :: word) words := by
  simp [joined]

/-! ## One word more -/

/-- A line that was narrow enough up to its last word, with the words that are left. -/
def FillsOn (width : CString → Int) (maxWidth : Int) (maxLines n : Nat) (line : CString)
    (words : List CString) (left : CString) : Prop :=
  ¬Allowed maxLines n ∧ left = joined line words ∨
  Takes width maxWidth line words ∧ left = joined line words ∨
  ∃ more next after, words = more ++ next :: after ∧ Allowed maxLines n ∧
    Takes width maxWidth line more ∧ Full width maxWidth (joined line more) next ∧
    Fills width maxWidth maxLines (n + 1) next after left

theorem fills_nil : Fills width maxWidth maxLines n line [] left ↔ left = line := by
  constructor
  · intro h
    cases h with
    | last => exact joined_nil
    | rest => exact joined_nil
  · rintro rfl
    have hrest : Fills width maxWidth maxLines n left [] (joined left []) := .rest trivial
    rwa [joined_nil] at hrest

theorem fillsOn_nil : FillsOn width maxWidth maxLines n line [] left ↔ left = line := by
  unfold FillsOn
  rw [joined_nil]
  constructor
  · rintro (⟨-, h⟩ | ⟨-, h⟩ | ⟨more, next, after, h, -⟩)
    · exact h
    · exact h
    · cases more <;> cases h
  · intro h
    exact .inr (.inl ⟨trivial, h⟩)

/-- A line takes a word that has room, and otherwise the next one begins with it. -/
theorem fillsOn_cons (hallowed : Allowed maxLines n) :
    FillsOn width maxWidth maxLines n line (word :: words) left ↔
      if width (line ++ ' ' :: word) < maxWidth then
        FillsOn width maxWidth maxLines n (line ++ ' ' :: word) words left
      else Fills width maxWidth maxLines (n + 1) word words left := by
  unfold FillsOn
  split
  next hroom =>
    constructor
    · rintro (⟨hlast, -⟩ | ⟨⟨-, htakes⟩, h⟩ | ⟨more, next, after, h, -, htakes, hfull, hnext⟩)
      · exact absurd hallowed hlast
      · exact .inr (.inl ⟨htakes, h.trans joined_cons⟩)
      · cases more with
        | nil =>
            cases h
            rw [joined_nil] at hfull
            exact absurd hroom (Int.not_lt.mpr hfull)
        | cons first more =>
            cases h
            rw [joined_cons] at hfull
            exact .inr (.inr ⟨more, next, after, rfl, hallowed, htakes.2, hfull, hnext⟩)
    · rintro (⟨hlast, -⟩ | ⟨htakes, h⟩ | ⟨more, next, after, rfl, -, htakes, hfull, hnext⟩)
      · exact absurd hallowed hlast
      · exact .inr (.inl ⟨⟨hroom, htakes⟩, h.trans joined_cons.symm⟩)
      · rw [← joined_cons] at hfull
        exact .inr (.inr ⟨word :: more, next, after, rfl, hallowed, ⟨hroom, htakes⟩, hfull, hnext⟩)
  next hroom =>
    constructor
    · rintro (⟨hlast, -⟩ | ⟨⟨hfits, -⟩, -⟩ | ⟨more, next, after, h, -, htakes, hfull, hnext⟩)
      · exact absurd hallowed hlast
      · exact absurd hfits hroom
      · cases more with
        | nil =>
            cases h
            exact hnext
        | cons first more =>
            cases h
            exact absurd htakes.1 hroom
    · intro hnext
      refine .inr (.inr ⟨[], word, words, rfl, hallowed, trivial, ?_, hnext⟩)
      rw [joined_nil]
      exact Int.not_lt.mp hroom

/-- A line that has just begun is to have room for its second word, or to be left blank. -/
theorem fills_cons (hallowed : Allowed maxLines n) :
    Fills width maxWidth maxLines n line (word :: words) left ↔
      if width (line ++ ' ' :: word) < maxWidth then
        FillsOn width maxWidth maxLines n (line ++ ' ' :: word) words left
      else ∃ c begins, line ++ ' ' :: word = c :: begins ∧ (c = ' ' ∨ c = '\n') ∧
        Fills width maxWidth maxLines (n + 1) begins words left := by
  split
  next hroom =>
    constructor
    · intro h
      cases h with
      | last _ _ hlast => exact absurd hallowed hlast
      | rest htakes => exact .inr (.inl ⟨htakes.2, joined_cons⟩)
      | line _ htakes hfull hnext =>
          rw [joined_cons] at hfull
          exact .inr (.inr ⟨_, _, _, rfl, hallowed, htakes.2, hfull, hnext⟩)
      | blank _ hfull => exact absurd hroom (Int.not_lt.mpr hfull)
    · rintro (⟨hlast, -⟩ | ⟨htakes, rfl⟩ | ⟨more, next, after, rfl, -, htakes, hfull, hnext⟩)
      · exact absurd hallowed hlast
      · rw [← joined_cons]
        exact .rest ⟨hroom, htakes⟩
      · rw [← joined_cons] at hfull
        exact .line hallowed ⟨hroom, htakes⟩ hfull hnext
  next hroom =>
    constructor
    · intro h
      cases h with
      | last _ _ hlast => exact absurd hallowed hlast
      | rest htakes => exact absurd htakes.1 hroom
      | line _ htakes => exact absurd htakes.1 hroom
      | blank _ _ hbegins hc hnext => exact ⟨_, _, hbegins, hc, hnext⟩
    · rintro ⟨c, begins, hbegins, hc, hnext⟩
      exact .blank hallowed (Int.not_lt.mp hroom) hbegins hc hnext

theorem fillsFirst_nil : FillsFirst width maxWidth maxLines line [] left ↔ left = line := by
  constructor
  · intro h
    generalize hwords : ([] : List CString) = words at h
    cases h with
    | last => rw [← hwords, joined_nil]
    | rest => rw [← hwords, joined_nil]
    | line => simp at hwords
  · rintro rfl
    have hrest : FillsFirst width maxWidth maxLines left [] (joined left []) := .rest trivial
    rwa [joined_nil] at hrest

/-- A narrow line that takes all words has room for them. -/
theorem Takes.joined_lt (h : Takes width maxWidth line words) (hline : width line < maxWidth) :
    width (joined line words) < maxWidth := by
  induction words generalizing line with
  | nil => rwa [joined_nil]
  | cons word words ih =>
      rw [joined_cons]
      exact ih h.2 h.1

/-- A line that is narrow enough takes its words as a line that is begun later does. -/
theorem fillsFirst_of_lt (hallowed : Allowed maxLines 1)
    (hwide : maxWidth ≤ width (joined line (word :: words))) (hnarrow : width line < maxWidth) :
    FillsFirst width maxWidth maxLines line (word :: words) left ↔
      FillsOn width maxWidth maxLines 1 line (word :: words) left := by
  constructor
  · intro h
    generalize hwords : word :: words = all at h
    cases h with
    | last _ hlast => exact absurd hallowed hlast
    | rest hover =>
        subst hwords
        exact absurd hnarrow (Int.not_lt.mpr hover.1)
    | @line wide more next after _ _ hover _ htakes hfull hnext =>
        cases wide with
        | nil =>
            rw [joined_nil] at htakes
            exact .inr (.inr ⟨more, next, after, rfl, hallowed, htakes, hfull, hnext⟩)
        | cons first wide => exact absurd hnarrow (Int.not_lt.mpr hover.1)
  · rintro (⟨hlast, -⟩ | ⟨htakes, -⟩ | ⟨more, next, after, hwords, -, htakes, hfull, hnext⟩)
    · exact absurd hallowed hlast
    · exact absurd (htakes.joined_lt hnarrow) (Int.not_lt.mpr hwide)
    · have hnone : line = joined line [] := joined_nil.symm
      rw [hwords]
      rw [hnone] at hnarrow htakes
      have hfirst : FillsFirst width maxWidth maxLines line ([] ++ more ++ next :: after) left :=
        .line hallowed trivial hnarrow htakes hfull hnext
      exact hfirst

/-- A line that is too wide already goes on with the next word. -/
theorem fillsFirst_of_le (hallowed : Allowed maxLines 1) (hover : maxWidth ≤ width line) :
    FillsFirst width maxWidth maxLines line (word :: words) left ↔
      FillsFirst width maxWidth maxLines (line ++ ' ' :: word) words left := by
  constructor
  · intro h
    generalize hwords : word :: words = all at h
    cases h with
    | last _ hlast => exact absurd hallowed hlast
    | rest hover =>
        subst hwords
        rw [joined_cons]
        exact .rest hover.2
    | @line wide more next after _ _ hpassed hstart htakes hfull hnext =>
        cases wide with
        | nil =>
            rw [joined_nil] at hstart
            exact absurd hstart (Int.not_lt.mpr hover)
        | cons first wide =>
            cases hwords
            rw [joined_cons] at hstart htakes
            rw [List.cons_append, joined_cons] at hfull
            exact .line hallowed hpassed.2 hstart htakes hfull hnext
  · intro h
    cases h with
    | last _ hlast => exact absurd hallowed hlast
    | rest hrest =>
        rw [← joined_cons]
        exact .rest ⟨hover, hrest⟩
    | @line wide more next after _ _ hrest hstart htakes hfull hnext =>
        rw [← joined_cons] at hstart htakes hfull
        have hfirst : FillsFirst width maxWidth maxLines line
            ((word :: wide) ++ more ++ next :: after) left :=
          .line hallowed ⟨hover, hrest⟩ hstart htakes hfull hnext
        exact hfirst

/-- The first line takes words from where it is narrow enough on. -/
theorem fillsFirst_cons (hallowed : Allowed maxLines 1)
    (hwide : maxWidth ≤ width (joined line (word :: words))) :
    FillsFirst width maxWidth maxLines line (word :: words) left ↔
      if width line < maxWidth then FillsOn width maxWidth maxLines 1 line (word :: words) left
      else FillsFirst width maxWidth maxLines (line ++ ' ' :: word) words left := by
  split
  next hnarrow => exact fillsFirst_of_lt hallowed hwide hnarrow
  next hnarrow => exact fillsFirst_of_le hallowed (Int.not_lt.mp hnarrow)

/-! ## The loop -/

namespace Wrap

variable {wrap next : Wrap} {p : Nat}

/-- The passes from here on write no line break over a word, and leave `left` for the last line. -/
def Leaves (width : CString → Int) (maxWidth : Int) (maxLines : Nat) (wrap : Wrap)
    (left : CString) : Prop :=
  (∀ later, Visits width maxWidth maxLines wrap later → later.linesLeft maxLines →
    later.KeepsWords width maxWidth) ∧
  (wrap.run width maxWidth maxLines).str.drop (wrap.run width maxWidth maxLines).line = left

theorem visits_cases (h : Visits width maxWidth maxLines wrap next) :
    next = wrap ∨ ∃ second, wrap.step width maxWidth maxLines () = some second ∧
      Visits width maxWidth maxLines second next := by
  induction h with
  | refl => exact .inl rfl
  | tail hvisits _ hstep ih =>
      rcases ih with rfl | ⟨second, hfirst, hvisits'⟩
      · exact .inr ⟨_, hstep, .refl⟩
      · exact .inr ⟨second, hfirst, .tail hvisits' trivial hstep⟩

theorem leaves_of_not_linesLeft (h : ¬wrap.linesLeft maxLines) :
    wrap.Leaves width maxWidth maxLines left ↔ left = wrap.str.drop wrap.line := by
  have hrun : wrap.run width maxWidth maxLines = wrap := by
    rw [run, if_neg h]
  unfold Leaves
  rw [hrun]
  constructor
  · exact fun hleaves => hleaves.2.symm
  · rintro rfl
    refine ⟨fun later hvisits hleft => ?_, rfl⟩
    rcases visits_cases hvisits with rfl | ⟨second, hstep, -⟩
    · exact absurd hleft h
    · exact absurd (step_eq_some.mp hstep).1 h

theorem leaves_again (hleft : wrap.linesLeft maxLines)
    (hpass : wrap.pass width maxWidth = .again next) :
    wrap.Leaves width maxWidth maxLines left ↔
      wrap.KeepsWords width maxWidth ∧ next.Leaves width maxWidth maxLines left := by
  have hstep := step_eq_some.mpr ⟨hleft, hpass⟩
  unfold Leaves
  rw [run_again hleft hpass, ← and_assoc]
  refine and_congr_left fun _ => ⟨fun h => ⟨h wrap .refl hleft, fun later hvisits => ?_⟩,
    fun h later hvisits hlater => ?_⟩
  · exact h later ((Run.Reaches.tail .refl trivial hstep).trans hvisits)
  · rcases visits_cases hvisits with rfl | ⟨second, hsecond, hvisits⟩
    · exact h.1
    · rw [hstep] at hsecond
      cases hsecond
      exact h.2 later hvisits hlater

theorem leaves_leave {last : Wrap} (hleft : wrap.linesLeft maxLines)
    (hpass : wrap.pass width maxWidth = .leave last) :
    wrap.Leaves width maxWidth maxLines left ↔
      wrap.KeepsWords width maxWidth ∧ left = last.str.drop last.line := by
  unfold Leaves
  rw [run_leave hleft hpass, eq_comm (a := left)]
  refine and_congr_left fun _ => ⟨fun h => h wrap .refl hleft, fun h later hvisits hlater => ?_⟩
  rcases visits_cases hvisits with rfl | ⟨second, hsecond, -⟩
  · exact h
  · rw [step_eq_some, hpass] at hsecond
    cases hsecond.2

/-- The loop is before the pass that looks at `line`, with the words behind it left, and has begun
`n` lines. -/
structure Ahead (text : CString) (wrap : Wrap) (n : Nat) (line : CString) (words : List CString) :
    Prop where
  placed : wrap.Placed text
  lines : wrap.lines = n
  text_eq : text.drop wrap.line = joined line words
  scanned : ∃ before word, line = before ++ word ∧ wrap.tmp = wrap.line + before.length ∧ ' ' ∉ word
  spaces : ∀ word ∈ words, ' ' ∉ word

theorem Ahead.linesLeft_iff (h : wrap.Ahead text n line words) :
    wrap.linesLeft maxLines ↔ Allowed maxLines n := by
  rw [Wrap.linesLeft_iff, h.lines]
  rfl

theorem Ahead.str_eq (h : wrap.Ahead text n line words) :
    wrap.str.drop wrap.line = joined line words :=
  h.placed.rest_eq.trans h.text_eq

/-- The scan comes to the space behind the line, if there is one. -/
theorem Ahead.strchr_eq (h : wrap.Ahead text n line words) (hnul : '\x00' ∉ text) :
    strchr wrap.str wrap.tmp ' ' =
      match words with
      | [] => none
      | _ :: _ => some (wrap.line + line.length) := by
  obtain ⟨before, word, rfl, htmp, hword⟩ := h.scanned
  have hlength : (wrap.str.take wrap.tmp).length = wrap.tmp :=
    List.length_take_of_le (h.placed.length_eq.symm ▸ h.placed.tmp_le)
  have hrest : wrap.str.drop wrap.tmp = joined word words := by
    rw [htmp, ← List.drop_drop, h.str_eq, joined, List.append_assoc, List.drop_left]
    rfl
  have hsplit : wrap.str = wrap.str.take wrap.tmp ++ joined word words := by
    rw [← hrest, List.take_append_drop]
  have hwordNul : '\x00' ∉ word := by
    intro hmem
    apply hnul
    apply List.mem_of_mem_drop (i := wrap.line)
    rw [h.text_eq]
    simp [joined, hmem]
  cases words with
  | nil =>
      rw [joined_nil] at hsplit
      have hnone := strchr_eq_none (s := wrap.str.take wrap.tmp) hword
      rwa [← hsplit, hlength] at hnone
  | cons next rest =>
      have hsome := strchr_append (wrap.str.take wrap.tmp) (joined next rest) hwordNul hword
        (by decide)
      have hjoined : word ++ ' ' :: joined next rest = joined word (next :: rest) := by
        simp [joined]
      rw [hjoined, ← hsplit, hlength] at hsome
      rw [hsome, htmp, List.length_append, Nat.add_assoc]

theorem Ahead.candidate_eq (h : wrap.Ahead text n line words) (hnul : '\x00' ∉ text) :
    wrap.candidate = line := by
  have hfind := h.strchr_eq hnul
  unfold candidate
  cases words with
  | nil =>
      rw [hfind]
      exact h.str_eq.trans joined_nil
  | cons next rest =>
      rw [hfind]
      dsimp only
      rw [span, h.str_eq, Nat.add_sub_cancel_left, joined, List.take_left]

/-- The next pass looks at a word more. -/
theorem Ahead.extend (h : wrap.Ahead text n line (word :: words))
    (hplaced : next.Placed text) (hline : next.line = wrap.line)
    (htmp : next.tmp = wrap.line + line.length + 1) (hlines : next.lines = n) :
    next.Ahead text n (line ++ ' ' :: word) words where
  placed := hplaced
  lines := hlines
  text_eq := by
    rw [hline, h.text_eq, joined_cons]
  scanned := by
    refine ⟨line ++ [' '], word, by simp, ?_, h.spaces word List.mem_cons_self⟩
    rw [htmp, hline, List.length_append, List.length_singleton, Nat.add_assoc]
  spaces := fun other hother => h.spaces other (List.mem_cons_of_mem _ hother)

/-- Behind a line break the next pass looks at what stood there and a word more. -/
theorem Ahead.break {before begins : CString} {c : Char}
    (h : wrap.Ahead text n (before ++ c :: begins) (word :: words))
    (hplaced : next.Placed text) (hline : next.line = wrap.line + before.length + 1)
    (htmp : next.tmp = wrap.line + (before ++ c :: begins).length + 1)
    (hlines : next.lines = n + 1) :
    next.Ahead text (n + 1) (begins ++ ' ' :: word) words where
  placed := hplaced
  lines := hlines
  text_eq := by
    have hdrop : wrap.line + before.length + 1 = wrap.line + (before ++ [c]).length := by
      rw [List.length_append, List.length_singleton, Nat.add_assoc]
    have hjoined : joined (before ++ c :: begins) (word :: words) =
        (before ++ [c]) ++ joined (begins ++ ' ' :: word) words := by
      simp [joined]
    rw [hline, hdrop, ← List.drop_drop, h.text_eq, hjoined, List.drop_left]
  scanned := by
    refine ⟨begins ++ [' '], word, by simp, ?_, h.spaces word List.mem_cons_self⟩
    rw [htmp, hline]
    simp only [List.length_append, List.length_cons, List.length_nil]
    omega
  spaces := fun other hother => h.spaces other (List.mem_cons_of_mem _ hother)

/-- What the next pass measures, and where it comes to. -/
theorem Ahead.measures (h : wrap.Ahead text n line words) (hnul : '\x00' ∉ text) :
    match words with
    | [] => strchr wrap.str wrap.tmp ' ' = none ∧ wrap.str.drop wrap.line = line
    | _ :: _ => strchr wrap.str wrap.tmp ' ' = some (wrap.line + line.length) ∧
        span wrap.str wrap.line (wrap.line + line.length) = line := by
  have hfind := h.strchr_eq hnul
  have hcandidate := h.candidate_eq hnul
  unfold candidate at hcandidate
  cases words with
  | nil =>
      rw [hfind] at hcandidate
      exact ⟨hfind, hcandidate⟩
  | cons word rest =>
      rw [hfind] at hcandidate
      exact ⟨hfind, hcandidate⟩

theorem keepsWords_of_none (h : wrap.breaksAt width maxWidth = none) :
    wrap.KeepsWords width maxWidth := by
  intro p hp
  rw [h] at hp
  cases hp

/-- Where nothing is left a line that is narrow enough is the last one. -/
theorem Ahead.pass_rest (h : wrap.Ahead text n line []) (hnul : '\x00' ∉ text)
    (hkeeps : width line < maxWidth ∨ wrap.prev = none) :
    wrap.KeepsWords width maxWidth ∧ wrap.pass width maxWidth = .leave wrap := by
  obtain ⟨hfind, hline⟩ := h.measures hnul
  rcases hkeeps with hnarrow | hprev
  · refine ⟨keepsWords_of_none ?_, ?_⟩
    · unfold breaksAt
      rw [h.candidate_eq hnul, if_neg (Int.not_le.mpr hnarrow)]
    · unfold pass
      rw [hfind]
      cases wrap.prev with
      | none => rfl
      | some prev => exact if_neg (by rw [hline]; exact Int.not_le.mpr hnarrow)
  · refine ⟨keepsWords_of_none ?_, ?_⟩
    · unfold breaksAt
      rw [hprev, ite_self]
    · unfold pass
      rw [hfind, hprev]

/-- The loop goes on behind a line that is narrow enough. -/
theorem Ahead.pass_narrow (h : wrap.Ahead text n line (word :: words)) (hnul : '\x00' ∉ text)
    (hnarrow : width line < maxWidth) :
    wrap.KeepsWords width maxWidth ∧ ∃ next, wrap.pass width maxWidth = .again next ∧
      next.Ahead text n (line ++ ' ' :: word) words ∧
      next.prev = some (next.line + line.length) := by
  obtain ⟨hfind, hline⟩ := h.measures hnul
  have hpass : wrap.pass width maxWidth =
      .again
        { wrap with
          prev := some (wrap.line + line.length)
          tmp := wrap.line + line.length + 1 } := by
    unfold pass
    rw [hfind]
    dsimp only
    rw [hline, if_neg (Int.not_le.mpr hnarrow)]
  refine ⟨keepsWords_of_none ?_, _, hpass, ?_, rfl⟩
  · unfold breaksAt
    rw [h.candidate_eq hnul, if_neg (Int.not_le.mpr hnarrow)]
  · exact h.extend (h.placed.again hpass) rfl rfl h.lines

/-- The loop goes on in a line that is too wide and has no place for a line break yet. -/
theorem Ahead.pass_wide (h : wrap.Ahead text n line (word :: words)) (hnul : '\x00' ∉ text)
    (hwide : maxWidth ≤ width line) (hprev : wrap.prev = none) :
    wrap.KeepsWords width maxWidth ∧ ∃ next, wrap.pass width maxWidth = .again next ∧
      next.Ahead text n (line ++ ' ' :: word) words ∧ next.prev = none := by
  obtain ⟨hfind, hline⟩ := h.measures hnul
  have hpass : wrap.pass width maxWidth =
      .again { wrap.measured (width line) with tmp := wrap.line + line.length + 1 } := by
    unfold pass
    rw [hfind, hprev]
    dsimp only
    rw [hline, if_pos hwide]
  refine ⟨keepsWords_of_none ?_, _, hpass, ?_, hprev⟩
  · unfold breaksAt
    rw [hprev, ite_self]
  · exact h.extend (h.placed.again hpass) rfl rfl h.lines

section Breaking

variable {before begins : CString} {c : Char}

/-- A line that is too wide gives way where the loop remembers a place in it. -/
theorem Ahead.keepsWords_iff (h : wrap.Ahead text n (before ++ c :: begins) words)
    (hnul : '\x00' ∉ text) (hwide : maxWidth ≤ width (before ++ c :: begins))
    (hprev : wrap.prev = some (wrap.line + before.length)) :
    wrap.KeepsWords width maxWidth ↔ c = ' ' ∨ c = '\n' := by
  have hbreaks : wrap.breaksAt width maxWidth = some (wrap.line + before.length) := by
    unfold breaksAt
    rw [h.candidate_eq hnul, if_pos hwide, hprev]
  have hchar : wrap.str[wrap.line + before.length]? = some c := by
    rw [← List.getElem?_drop, h.str_eq, joined, List.append_assoc,
      List.getElem?_append_right (Nat.le_refl _), Nat.sub_self]
    rfl
  unfold KeepsWords Breakable
  rw [hbreaks]
  simp [hchar]

theorem Ahead.pass_leave (h : wrap.Ahead text n (before ++ c :: begins) [])
    (hnul : '\x00' ∉ text) (hwide : maxWidth ≤ width (before ++ c :: begins))
    (hprev : wrap.prev = some (wrap.line + before.length)) :
    ∃ last, wrap.pass width maxWidth = .leave last ∧ last.str.drop last.line = begins := by
  obtain ⟨hfind, hline⟩ := h.measures hnul
  refine ⟨(wrap.measured (width (before ++ c :: begins))).broken (wrap.line + before.length),
    ?_, ?_⟩
  · unfold pass
    rw [hfind, hprev]
    dsimp only
    rw [hline, if_pos hwide]
  · have hsplit : wrap.line + before.length + 1 = wrap.line + (before ++ [c]).length := by
      rw [List.length_append, List.length_singleton, Nat.add_assoc]
    have hrest := h.placed.broken_rest (p := wrap.line + before.length) (Nat.le_add_right _ _)
    change (wrap.str.set (wrap.line + before.length) '\n').drop (wrap.line + before.length + 1) = _
    rw [hrest, hsplit, ← List.drop_drop, h.text_eq, joined_nil,
      List.append_cons before c begins, List.drop_left]

theorem Ahead.pass_break (h : wrap.Ahead text n (before ++ c :: begins) (word :: words))
    (hnul : '\x00' ∉ text) (hwide : maxWidth ≤ width (before ++ c :: begins))
    (hprev : wrap.prev = some (wrap.line + before.length)) :
    ∃ next, wrap.pass width maxWidth = .again next ∧
      next.Ahead text (n + 1) (begins ++ ' ' :: word) words ∧ next.prev = some next.line := by
  obtain ⟨hfind, hline⟩ := h.measures hnul
  have hpass : wrap.pass width maxWidth =
      .again
        { (wrap.measured (width (before ++ c :: begins))).broken (wrap.line + before.length) with
          prev := some (wrap.line + before.length + 1)
          tmp := wrap.line + (before ++ c :: begins).length + 1
          lines := wrap.lines + 1 } := by
    unfold pass
    rw [hfind, hprev]
    dsimp only
    rw [hline, if_pos hwide]
    rfl
  refine ⟨_, hpass, ?_, rfl⟩
  exact h.break (h.placed.again hpass) rfl rfl (congrArg (· + 1) h.lines)

end Breaking

end Wrap

/-- Where no line is allowed any more, all words are left. -/
theorem fills_of_not_allowed (h : ¬Allowed maxLines n) :
    Fills width maxWidth maxLines n line words left ↔ left = joined line words := by
  constructor
  · intro hfills
    cases hfills with
    | last => rfl
    | rest => rfl
    | line hallowed => exact absurd hallowed h
    | blank hallowed => exact absurd hallowed h
  · rintro rfl
    exact .last _ _ h

theorem fillsOn_of_not_allowed (h : ¬Allowed maxLines n) :
    FillsOn width maxWidth maxLines n line words left ↔ left = joined line words := by
  constructor
  · rintro (⟨-, hleft⟩ | ⟨-, hleft⟩ | ⟨more, next, after, -, hallowed, -⟩)
    · exact hleft
    · exact hleft
    · exact absurd hallowed h
  · exact fun hleft => .inl ⟨h, hleft⟩

theorem fillsFirst_of_not_allowed (h : ¬Allowed maxLines 1) :
    FillsFirst width maxWidth maxLines line words left ↔ left = joined line words := by
  constructor
  · intro hfills
    cases hfills with
    | last => rfl
    | rest => rfl
    | line hallowed => exact absurd hallowed h
  · rintro rfl
    exact .last _ h

namespace Wrap

variable {wrap : Wrap}

/-- A line that has room for its last word so far is filled on as the loop goes on. -/
theorem Ahead.leaves_narrow (h : wrap.Ahead text n line words) (hnul : '\x00' ∉ text)
    (hallowed : Allowed maxLines n) (hnarrow : width line < maxWidth)
    (ih : ∀ {next : Wrap} {word : CString} {rest : List CString}, words = word :: rest →
      next.Ahead text n (line ++ ' ' :: word) rest → next.prev = some (next.line + line.length) →
      (next.Leaves width maxWidth maxLines left ↔
        FillsOn width maxWidth maxLines n line (word :: rest) left)) :
    wrap.Leaves width maxWidth maxLines left ↔
      FillsOn width maxWidth maxLines n line words left := by
  have hleft := h.linesLeft_iff.mpr hallowed
  cases words with
  | nil =>
      obtain ⟨hkeeps, hpass⟩ := h.pass_rest hnul (.inl hnarrow)
      rw [leaves_leave hleft hpass, and_iff_right hkeeps, h.str_eq, joined_nil, fillsOn_nil]
  | cons word rest =>
      obtain ⟨hkeeps, next, hpass, hnext, hprev⟩ := h.pass_narrow hnul hnarrow
      rw [leaves_again hleft hpass, and_iff_right hkeeps]
      exact ih rfl hnext hprev

/-- A line that gives way to a space or a line break is followed by one that begins behind it. -/
theorem Ahead.leaves_wide {before begins : CString} {c : Char}
    (h : wrap.Ahead text n (before ++ c :: begins) words) (hnul : '\x00' ∉ text)
    (hallowed : Allowed maxLines n) (hwide : maxWidth ≤ width (before ++ c :: begins))
    (hprev : wrap.prev = some (wrap.line + before.length))
    (ih : ∀ {next : Wrap} {word : CString} {rest : List CString}, words = word :: rest →
      next.Ahead text (n + 1) (begins ++ ' ' :: word) rest → next.prev = some next.line →
      (next.Leaves width maxWidth maxLines left ↔
        Fills width maxWidth maxLines (n + 1) begins (word :: rest) left)) :
    wrap.Leaves width maxWidth maxLines left ↔
      (c = ' ' ∨ c = '\n') ∧ Fills width maxWidth maxLines (n + 1) begins words left := by
  have hleft := h.linesLeft_iff.mpr hallowed
  cases words with
  | nil =>
      obtain ⟨last, hpass, hlast⟩ := h.pass_leave hnul hwide hprev
      rw [leaves_leave hleft hpass, h.keepsWords_iff hnul hwide hprev, hlast, fills_nil]
  | cons word rest =>
      obtain ⟨next, hpass, hnext, hbegun⟩ := h.pass_break hnul hwide hprev
      rw [leaves_again hleft hpass, h.keepsWords_iff hnul hwide hprev]
      exact and_congr_right fun _ => ih rfl hnext hbegun

/-- From a pass on, a line that can be broken behind its last word but one is filled on, and one
that has just begun is filled. -/
def Follows (width : CString → Int) (maxWidth : Int) (maxLines : Nat) (left text : CString)
    (words : List CString) : Prop :=
  ∀ {wrap : Wrap} {n : Nat} {line word : CString},
    wrap.Ahead text n (line ++ ' ' :: word) words →
    (wrap.prev = some (wrap.line + line.length) → (wrap.Leaves width maxWidth maxLines left ↔
      FillsOn width maxWidth maxLines n line (word :: words) left)) ∧
    (wrap.prev = some wrap.line → (wrap.Leaves width maxWidth maxLines left ↔
      Fills width maxWidth maxLines n line (word :: words) left))

theorem follows_of_rest (hnul : '\x00' ∉ text)
    (ih : ∀ word rest, words = word :: rest →
      Follows width maxWidth maxLines left text rest) :
    Follows width maxWidth maxLines left text words := by
  intro wrap n line word h
  by_cases hallowed : Allowed maxLines n
  · rw [fillsOn_cons hallowed, fills_cons hallowed]
    by_cases hnarrow : width (line ++ ' ' :: word) < maxWidth
    · have hon : wrap.Leaves width maxWidth maxLines left ↔
          FillsOn width maxWidth maxLines n (line ++ ' ' :: word) words left :=
        h.leaves_narrow hnul hallowed hnarrow
          fun hwords hnext hprev => (ih _ _ hwords hnext).1 hprev
      rw [if_pos hnarrow, if_pos hnarrow]
      exact ⟨fun _ => hon, fun _ => hon⟩
    · have hwide := Int.not_lt.mp hnarrow
      rw [if_neg hnarrow, if_neg hnarrow]
      refine ⟨fun hprev => ?_, fun hprev => ?_⟩
      · have hbreak : wrap.Leaves width maxWidth maxLines left ↔
            (' ' = ' ' ∨ ' ' = '\n') ∧ Fills width maxWidth maxLines (n + 1) word words left :=
          h.leaves_wide hnul hallowed hwide hprev
            fun hwords hnext hbegun => (ih _ _ hwords hnext).2 hbegun
        rw [hbreak, and_iff_right (.inl rfl)]
      · obtain ⟨c, begins, hbegins⟩ := List.exists_cons_of_ne_nil
          (List.append_ne_nil_of_right_ne_nil line (List.cons_ne_nil ' ' word))
        rw [hbegins] at h hwide
        have hempty : wrap.Ahead text n ([] ++ c :: begins) words := h
        have hbreak : wrap.Leaves width maxWidth maxLines left ↔
            (c = ' ' ∨ c = '\n') ∧ Fills width maxWidth maxLines (n + 1) begins words left :=
          hempty.leaves_wide hnul hallowed hwide hprev
            fun hwords hnext hbegun => (ih _ _ hwords hnext).2 hbegun
        rw [hbreak, hbegins]
        constructor
        · exact fun ⟨hc, hfills⟩ => ⟨c, begins, rfl, hc, hfills⟩
        · rintro ⟨_, _, heq, hc, hfills⟩
          cases heq
          exact ⟨hc, hfills⟩
  · have hleft := mt h.linesLeft_iff.mp hallowed
    rw [fillsOn_of_not_allowed hallowed, fills_of_not_allowed hallowed,
      leaves_of_not_linesLeft hleft, h.str_eq, ← joined_cons]
    exact ⟨fun _ => Iff.rfl, fun _ => Iff.rfl⟩

theorem follows (hnul : '\x00' ∉ text) (words : List CString) :
    Follows width maxWidth maxLines left text words := by
  induction words with
  | nil =>
      apply follows_of_rest hnul
      intro _ _ hwords
      cases hwords
  | cons word rest ih =>
      apply follows_of_rest hnul
      intro _ _ hwords
      cases hwords
      exact ih

/-- Before a place for a line break is found, the first line is filled as the loop goes on. -/
theorem Ahead.leaves_first (h : wrap.Ahead text 1 line words) (hnul : '\x00' ∉ text)
    (hprev : wrap.prev = none) (hwide : maxWidth ≤ width (joined line words)) :
    wrap.Leaves width maxWidth maxLines left ↔
      FillsFirst width maxWidth maxLines line words left := by
  induction words generalizing wrap line with
  | nil =>
      by_cases hallowed : Allowed maxLines 1
      · obtain ⟨hkeeps, hpass⟩ : wrap.KeepsWords width maxWidth ∧
            wrap.pass width maxWidth = .leave wrap := h.pass_rest hnul (.inr hprev)
        rw [leaves_leave (h.linesLeft_iff.mpr hallowed) hpass, and_iff_right hkeeps, h.str_eq,
          joined_nil, fillsFirst_nil]
      · rw [leaves_of_not_linesLeft (mt h.linesLeft_iff.mp hallowed), h.str_eq,
          fillsFirst_of_not_allowed hallowed]
  | cons word rest ih =>
      by_cases hallowed : Allowed maxLines 1
      · have hleft := h.linesLeft_iff.mpr hallowed
        rw [fillsFirst_cons hallowed hwide]
        split
        next hnarrow =>
          obtain ⟨hkeeps, next, hpass, hnext, hplace⟩ := h.pass_narrow hnul hnarrow
          rw [leaves_again hleft hpass, and_iff_right hkeeps]
          exact (follows hnul rest hnext).1 hplace
        next hnarrow =>
          obtain ⟨hkeeps, next, hpass, hnext, hplace⟩ :=
            h.pass_wide hnul (Int.not_lt.mp hnarrow) hprev
          rw [leaves_again hleft hpass, and_iff_right hkeeps]
          exact ih hnext hplace (joined_cons ▸ hwide)
      · rw [leaves_of_not_linesLeft (mt h.linesLeft_iff.mp hallowed), h.str_eq,
          fillsFirst_of_not_allowed hallowed]

theorem ahead_start {first : CString} (htext : text = joined first words)
    (hspaces : ∀ word ∈ first :: words, ' ' ∉ word) : (start text).Ahead text 1 first words where
  placed := placed_start text
  lines := rfl
  text_eq := htext
  scanned := ⟨[], first, rfl, rfl, hspaces first List.mem_cons_self⟩
  spaces := fun word hword => hspaces word (List.mem_cons_of_mem _ hword)

end Wrap

/-- A text is its words. -/
theorem exists_joined (text : CString) :
    ∃ first words, text = joined first words ∧ ∀ word ∈ first :: words, ' ' ∉ word := by
  induction text with
  | nil => exact ⟨[], [], rfl, by simp⟩
  | cons c rest ih =>
      obtain ⟨first, words, rfl, hspaces⟩ := ih
      by_cases hc : c = ' '
      · subst hc
        refine ⟨[], first :: words, by simp [joined], ?_⟩
        rw [List.forall_mem_cons]
        exact ⟨List.not_mem_nil, hspaces⟩
      · rw [List.forall_mem_cons] at hspaces
        refine ⟨c :: first, words, rfl, ?_⟩
        rw [List.forall_mem_cons, List.mem_cons, not_or]
        exact ⟨⟨Ne.symm hc, hspaces.1⟩, hspaces.2⟩

/-- The loop keeps the words of a text that does not fit just when they can be filled into
lines. -/
theorem fillsText_iff (hnul : '\x00' ∉ text) (hwide : ¬width text ≤ maxWidth) :
    FillsText width maxWidth maxLines text left ↔
      (Wrap.start text).Leaves width maxWidth maxLines left := by
  have hstart {first : CString} {words : List CString} (htext : text = joined first words)
      (hspaces : ∀ word ∈ first :: words, ' ' ∉ word) :
      (Wrap.start text).Leaves width maxWidth maxLines left ↔
        FillsFirst width maxWidth maxLines first words left := by
    refine (Wrap.ahead_start htext hspaces).leaves_first hnul rfl ?_
    rw [← htext]
    omega
  constructor
  · rintro ⟨first, words, htext, hspaces, hfills⟩
    exact (hstart htext hspaces).mpr hfills
  · intro hleaves
    obtain ⟨first, words, htext, hspaces⟩ := exists_joined text
    exact ⟨first, words, htext, hspaces, (hstart htext hspaces).mp hleaves⟩

/-- Wrapping changes spaces only, into lines that are narrow enough, just when a text that fits
is short enough to be copied, and the words of any other text can be filled into lines, each after
the first with room for two words, of which the last can be shown. -/
theorem wrapText_wrapped_iff (width : CString → Int) (maxWidth : Int) (maxLines : Nat)
    (text : CString) (hnul : '\x00' ∉ text) :
    (∃ out w, wrapText width maxWidth text maxLines = some (out, w) ∧
        Wrapped width maxWidth maxLines text out) ↔ Wraps width maxWidth maxLines text := by
  unfold Wraps
  split
  next hnarrow => exact wrapText_narrow hnarrow
  next hwide =>
    rw [wrapped_iff_keepsWords hwide]
    simp only [fillsText_iff hnul hwide]
    constructor
    · rintro ⟨hwords, hshortens⟩
      exact ⟨_, ⟨hwords, rfl⟩, hshortens⟩
    · rintro ⟨left, ⟨hwords, rfl⟩, hshortens⟩
      exact ⟨hwords, hshortens⟩

/-- Three lines of two words, of which the last gives up its second for the one behind it. -/
theorem wrapText_three_lines :
    ∃ out w, wrapText fixed 7 "aa bb cc dd ee ff gg".toList 3 = some (out, w) ∧
      Wrapped fixed 7 3 "aa bb cc dd ee ff gg".toList out := by
  apply (wrapText_wrapped_iff fixed 7 3 "aa bb cc dd ee ff gg".toList (by decide)).mpr
  have hlast : Fills fixed 7 3 3 "ee".toList ["ff".toList, "gg".toList] "ee ff gg".toList :=
    .last _ _ (by decide)
  have hcc : Takes fixed 7 "cc".toList ["dd".toList] := by decide
  have hsecond : Fills fixed 7 3 2 "cc".toList
      ["dd".toList, "ee".toList, "ff".toList, "gg".toList] "ee ff gg".toList :=
    .line (by decide) hcc (by decide) hlast
  have hbegin : Overflows fixed 7 "aa".toList [] := trivial
  have haa : Takes fixed 7 (joined "aa".toList []) ["bb".toList] := by decide
  have hfirst : FillsFirst fixed 7 3 "aa".toList
      ["bb".toList, "cc".toList, "dd".toList, "ee".toList, "ff".toList, "gg".toList]
      "ee ff gg".toList :=
    .line (by decide) hbegin (by decide) haa (by decide) hsecond
  have hshortens : Shortens fixed 7 "ee ff gg".toList :=
    ⟨by decide, .inr ⟨by decide, 4, by decide, by decide⟩⟩
  rw [Wraps, if_neg (by decide)]
  exact ⟨_, ⟨_, _, by decide, by decide, hfirst⟩, hshortens⟩

/-- The second line has no room for its second word, and its first word gives way. -/
theorem wrapText_short_words :
    wrapText fixed 5 "aaa bbb ccc".toList 0 = some ("aaa\n\nbb...".toList, 7) ∧
      ¬∃ out w, wrapText fixed 5 "aaa bbb ccc".toList 0 = some (out, w) ∧
        Wrapped fixed 5 0 "aaa bbb ccc".toList out := by
  have hrun : (Wrap.start "aaa bbb ccc".toList).run fixed 5 0 =
      ⟨"aaa\n\nbb ccc".toList, 5, some 4, 8, 2, 7⟩ := by
    have hfirst : (Wrap.start "aaa bbb ccc".toList).pass fixed 5 =
        .again ⟨"aaa bbb ccc".toList, 0, some 3, 4, 1, 0⟩ := by decide
    have hsecond : Wrap.pass fixed 5 ⟨"aaa bbb ccc".toList, 0, some 3, 4, 1, 0⟩ =
        .again ⟨"aaa\nbbb ccc".toList, 4, some 4, 8, 2, 7⟩ := by decide
    have hthird : Wrap.pass fixed 5 ⟨"aaa\nbbb ccc".toList, 4, some 4, 8, 2, 7⟩ =
        .leave ⟨"aaa\n\nbb ccc".toList, 5, some 4, 8, 2, 7⟩ := by decide
    rw [Wrap.run_again rfl hfirst, Wrap.run_again rfl hsecond, Wrap.run_leave rfl hthird]
  have hlast : truncateText fixed 5 "bb ccc".toList 0 = some ("bb...".toList, 5) := by
    have hcut : shorten "bb ccc".toList = some "bb...".toList := by decide
    rw [truncateText, if_pos (by decide), truncateFrom_of_wide (by decide), hcut, Option.bind_some,
      truncateFrom_of_fits (by decide)]
    rfl
  have hwrap : wrapText fixed 5 "aaa bbb ccc".toList 0 = some ("aaa\n\nbb...".toList, 7) := by
    apply (wrapText_wide (by decide)).mpr
    refine ⟨"bb...".toList, 5, ?_, ?_, ?_⟩
    · rw [lastLine, hrun]
      exact hlast
    · rw [hrun]
      decide
    · rw [hrun]
      decide
  refine ⟨hwrap, ?_⟩
  rintro ⟨out, w, hsome, hwrapped⟩
  rw [hwrap] at hsome
  cases hsome
  -- the second break is in a word
  have hbreak : ("aaa\n\nbb...".toList)[4]? = some '\n' := by decide
  rcases hwrapped.breakable hbreak with hspace | hnewline
  · exact absurd hspace (by decide)
  · exact absurd hnewline (by decide)

end DarkUI.Gfx
