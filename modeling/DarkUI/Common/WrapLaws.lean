import DarkUI.Common.GfxLaws
import DarkUI.Foundation.Run

/-! # Wrapped text

The loop writes a line break where it remembers one can be. Right after a break that
place is the beginning of the new line, where a word may stand: if the line does not
get past its second word, the word loses its first character.
-/

namespace DarkUI.Gfx

open Text

/-- The text up to the last line, each line with the character that stood after it. -/
def unbroken (lines : List (CString × Char)) : CString :=
  lines.flatMap fun line => line.1 ++ [line.2]

/-- The same lines with line breaks. -/
def lined (lines : List (CString × Char)) : CString := lines.flatMap fun line => line.1 ++ ['\n']

variable {width : CString → Int} {maxWidth : Int} {maxLines : Nat} {text out : CString}
variable {lines : List (CString × Char)} {wrap next : Wrap} {p : Nat}

@[simp] theorem length_lined : (lined lines).length = (unbroken lines).length := by
  simp [lined, unbroken, List.length_flatMap]

/-- Only spaces become line breaks, fewer of them than lines are allowed; every line that ends
in one is narrow enough or a single word, and the last line is whole or ends in the ellipsis. -/
def Wrapped (width : CString → Int) (maxWidth : Int) (maxLines : Nat) (text out : CString) : Prop :=
  ∃ lines rest last, text = unbroken lines ++ rest ∧ out = lined lines ++ last ∧
    (∀ line ∈ lines, line.2 = ' ' ∨ line.2 = '\n') ∧
    (maxLines = 0 ∨ lines.length < maxLines) ∧
    (∀ line ∈ lines, width line.1 < maxWidth ∨ ' ' ∉ line.1) ∧
    (last = rest ∨
      ∃ shown, shown <+: rest ∧ shown.length < rest.length ∧ last = shown ++ ellipsis)

/-- A character that can give way to a line break. -/
def Breakable (text : CString) (i : Nat) : Prop := text[i]? = some ' ' ∨ text[i]? = some '\n'

namespace Wrap

variable (width maxWidth)

/-- The line a pass measures: up to the next space, or to the end. -/
def candidate (wrap : Wrap) : CString :=
  match strchr wrap.str wrap.tmp ' ' with
  | none => wrap.str.drop wrap.line
  | some tmp => span wrap.str wrap.line tmp

/-- Where a pass writes a line break. -/
def breaksAt (wrap : Wrap) : Option Nat :=
  if maxWidth ≤ width wrap.candidate then wrap.prev else none

/-- The pass writes no line break over a word. -/
def KeepsWords (wrap : Wrap) : Prop :=
  ∀ p, wrap.breaksAt width maxWidth = some p → Breakable wrap.str p

/-- The state after a line break is written and the loop goes on behind the space at `tmp`. -/
def wrapped (wrap : Wrap) (p tmp : Nat) : Wrap :=
  { (wrap.measured (width wrap.candidate)).broken p with
    prev := some (p + 1), tmp := tmp + 1, lines := wrap.lines + 1 }

/-- What a pass can do. -/
theorem pass_cases (wrap : Wrap) :
    wrap.breaksAt width maxWidth = none ∧ wrap.pass width maxWidth = .leave wrap ∨
    (∃ p, wrap.prev = some p ∧ wrap.breaksAt width maxWidth = some p ∧
      wrap.pass width maxWidth = .leave ((wrap.measured (width wrap.candidate)).broken p)) ∨
    (∃ tmp, strchr wrap.str wrap.tmp ' ' = some tmp ∧ wrap.breaksAt width maxWidth = none ∧
      wrap.pass width maxWidth =
        .again { wrap.measured (width wrap.candidate) with tmp := tmp + 1 }) ∨
    (∃ p tmp, wrap.prev = some p ∧ strchr wrap.str wrap.tmp ' ' = some tmp ∧
      wrap.breaksAt width maxWidth = some p ∧
      wrap.pass width maxWidth = .again (wrap.wrapped width p tmp)) ∨
    ∃ tmp, strchr wrap.str wrap.tmp ' ' = some tmp ∧ wrap.breaksAt width maxWidth = none ∧
      width (span wrap.str wrap.line tmp) < maxWidth ∧
      wrap.pass width maxWidth = .again { wrap with prev := some tmp, tmp := tmp + 1 } := by
  unfold breaksAt candidate wrapped pass
  cases hfind : strchr wrap.str wrap.tmp ' ' with
  | none =>
      cases hprev : wrap.prev with
      | none => simp
      | some p =>
          by_cases hwide : maxWidth ≤ width (wrap.str.drop wrap.line)
          · exact .inr (.inl ⟨p, by simp [hwide]⟩)
          · exact .inl (by simp [hwide])
  | some tmp =>
      by_cases hwide : maxWidth ≤ width (span wrap.str wrap.line tmp)
      · cases hprev : wrap.prev with
        | none => exact .inr (.inr (.inl ⟨tmp, by simp [hwide, measured]⟩))
        | some p =>
            refine .inr (.inr (.inr (.inl ⟨p, tmp, ?_⟩)))
            simp [hwide, measured, broken, candidate, hfind]
      · exact .inr (.inr (.inr (.inr ⟨tmp, by simp [hwide, Int.not_le.mp hwide]⟩)))

variable {width maxWidth}

/-- Where the pointers are: the remembered place is in the current line, before the scan, and
from that line on the text is as it was. -/
structure Placed (text : CString) (wrap : Wrap) : Prop where
  length_eq : wrap.str.length = text.length
  rest_eq : wrap.str.drop wrap.line = text.drop wrap.line
  line_le : wrap.line ≤ wrap.tmp
  tmp_le : wrap.tmp ≤ text.length
  prev_mem : ∀ p, wrap.prev = some p → wrap.line ≤ p ∧ p < wrap.tmp

theorem placed_start (text : CString) : Placed text (start text) where
  length_eq := rfl
  rest_eq := rfl
  line_le := Nat.le_refl 0
  tmp_le := Nat.zero_le _
  prev_mem := fun _ h => nomatch h

theorem Placed.lt_length (h : wrap.Placed text) (hp : wrap.prev = some p) : p < text.length :=
  Nat.lt_of_lt_of_le (h.prev_mem p hp).2 h.tmp_le

/-- Nothing from the current line on has been written to. -/
theorem Placed.getElem?_eq (h : wrap.Placed text) (hp : wrap.line ≤ p) :
    wrap.str[p]? = text[p]? := by
  have hrest := congrArg (·[p - wrap.line]?) h.rest_eq
  simpa [List.getElem?_drop, Nat.add_sub_cancel' hp] using hrest

theorem Placed.broken_rest (h : wrap.Placed text) (hp : wrap.line ≤ p) :
    (wrap.str.set p '\n').drop (p + 1) = text.drop (p + 1) := by
  have hsplit : p + 1 = wrap.line + (p + 1 - wrap.line) := by omega
  rw [List.drop_set_of_lt (Nat.lt_add_one p)]
  rw [hsplit, ← List.drop_drop, h.rest_eq, List.drop_drop]

theorem Placed.again (h : wrap.Placed text) (hpass : wrap.pass width maxWidth = .again next) :
    next.Placed text := by
  -- by what the pass does with the break it has found
  rcases pass_cases width maxWidth wrap with ⟨-, hleave⟩ | ⟨p, -, -, hleave⟩ |
    ⟨tmp, hfind, -, hagain⟩ | ⟨p, tmp, hp, hfind, -, hagain⟩ | ⟨tmp, hfind, -, -, hagain⟩
  · rw [hleave] at hpass
    cases hpass
  · rw [hleave] at hpass
    cases hpass
  · obtain ⟨hle, hlt⟩ := strchr_lt hfind
    rw [h.length_eq] at hlt
    rw [hagain] at hpass
    cases hpass
    refine ⟨h.length_eq, h.rest_eq, Nat.le_trans h.line_le (Nat.le_succ_of_le hle), hlt,
      fun p hp => ?_⟩
    obtain ⟨hline, htmp⟩ := h.prev_mem p hp
    exact ⟨hline, Nat.lt_of_lt_of_le htmp (Nat.le_succ_of_le hle)⟩
  · obtain ⟨hle, hlt⟩ := strchr_lt hfind
    obtain ⟨hline, htmp⟩ := h.prev_mem p hp
    rw [h.length_eq] at hlt
    rw [hagain] at hpass
    cases hpass
    have hpt : p < tmp := Nat.lt_of_lt_of_le htmp hle
    refine ⟨?_, h.broken_rest hline, Nat.succ_le_succ (Nat.le_of_lt hpt), hlt, fun q hq => ?_⟩
    · exact List.length_set.trans h.length_eq
    · cases hq
      exact ⟨Nat.le_refl _, Nat.succ_lt_succ hpt⟩
  · obtain ⟨hle, hlt⟩ := strchr_lt hfind
    rw [h.length_eq] at hlt
    rw [hagain] at hpass
    cases hpass
    refine ⟨h.length_eq, h.rest_eq, Nat.le_trans h.line_le (Nat.le_succ_of_le hle), hlt,
      fun p hp => ?_⟩
    cases hp
    exact ⟨Nat.le_trans h.line_le hle, Nat.lt_succ_self _⟩

/-- The state a pass leaves, whether the loop goes on or not. -/
def after (width : CString → Int) (maxWidth : Int) (wrap : Wrap) : Wrap :=
  match wrap.pass width maxWidth with
  | .again next => next
  | .leave last => last

/-- A pass writes nothing and stays in the line, or writes one line break and begins the next. -/
theorem after_written (width : CString → Int) (maxWidth : Int) (wrap : Wrap) :
    (wrap.breaksAt width maxWidth = none ∧ (wrap.after width maxWidth).str = wrap.str ∧
      (wrap.after width maxWidth).line = wrap.line) ∨
    ∃ p, wrap.prev = some p ∧ wrap.breaksAt width maxWidth = some p ∧
      (wrap.after width maxWidth).str = wrap.str.set p '\n' ∧
      (wrap.after width maxWidth).line = p + 1 := by
  unfold after
  rcases pass_cases width maxWidth wrap with ⟨hnone, hpass⟩ | ⟨p, hp, hbreak, hpass⟩ |
    ⟨tmp, -, hnone, hpass⟩ | ⟨p, tmp, hp, -, hbreak, hpass⟩ | ⟨tmp, -, hnone, -, hpass⟩ <;>
    rw [hpass]
  · exact .inl ⟨hnone, rfl, rfl⟩
  · exact .inr ⟨p, hp, hbreak, rfl, rfl⟩
  · exact .inl ⟨hnone, rfl, rfl⟩
  · exact .inr ⟨p, hp, hbreak, rfl, rfl⟩
  · exact .inl ⟨hnone, rfl, rfl⟩

/-- One pass of the loop that leads to another. -/
def step (width : CString → Int) (maxWidth : Int) (maxLines : Nat) (wrap : Wrap) (_ : Unit) :
    Option Wrap :=
  if wrap.linesLeft maxLines then
    match wrap.pass width maxWidth with
    | .again next => some next
    | .leave _ => none
  else none

/-- The states the loop is in before its passes. -/
abbrev Visits (width : CString → Int) (maxWidth : Int) (maxLines : Nat) (start wrap : Wrap) :
    Prop :=
  Run.Reaches (step width maxWidth maxLines) (fun _ _ => True) start wrap

theorem step_eq_some :
    wrap.step width maxWidth maxLines () = some next ↔
      wrap.linesLeft maxLines ∧ wrap.pass width maxWidth = .again next := by
  unfold step
  by_cases hleft : wrap.linesLeft maxLines
  · cases wrap.pass width maxWidth <;> simp [hleft]
  · simp [hleft]

/-- The last state follows from one the loop stops in, or from a pass that leaves it. -/
theorem run_visits (width : CString → Int) (maxWidth : Int) (maxLines : Nat) (wrap : Wrap) :
    ∃ last, Visits width maxWidth maxLines wrap last ∧
    (¬last.linesLeft maxLines ∧ wrap.run width maxWidth maxLines = last ∨
      last.linesLeft maxLines ∧
        last.pass width maxWidth = .leave (wrap.run width maxWidth maxLines)) := by
  induction hn : wrap.remaining using Nat.strong_induction_on generalizing wrap with
  | _ n ih =>
      subst hn
      unfold run
      split
      next hleft =>
        split
        next next hpass =>
          obtain ⟨last, hvisits, hlast⟩ := ih _ (remaining_pass width maxWidth hpass) next rfl
          have hstep : Visits width maxWidth maxLines wrap next :=
            .tail .refl trivial (step_eq_some.mpr ⟨hleft, hpass⟩)
          exact ⟨last, hstep.trans hvisits, hlast⟩
        next last hpass => exact ⟨wrap, .refl, .inr ⟨hleft, hpass⟩⟩
      next hleft => exact ⟨wrap, .refl, .inl ⟨hleft, rfl⟩⟩

theorem after_again (h : wrap.pass width maxWidth = .again next) :
    wrap.after width maxWidth = next := by
  unfold after
  rw [h]

theorem after_leave {last : Wrap} (h : wrap.pass width maxWidth = .leave last) :
    wrap.after width maxWidth = last := by
  unfold after
  rw [h]

theorem run_again (hleft : wrap.linesLeft maxLines)
    (hpass : wrap.pass width maxWidth = .again next) :
    wrap.run width maxWidth maxLines = next.run width maxWidth maxLines := by
  rw [run, if_pos hleft]
  split
  next next' hpass' =>
    rw [hpass] at hpass'
    cases hpass'
    rfl
  next last hpass' =>
    rw [hpass] at hpass'
    cases hpass'

theorem run_leave {last : Wrap} (hleft : wrap.linesLeft maxLines)
    (hpass : wrap.pass width maxWidth = .leave last) :
    wrap.run width maxWidth maxLines = last := by
  rw [run, if_pos hleft]
  split
  next next' hpass' =>
    rw [hpass] at hpass'
    cases hpass'
  next last' hpass' =>
    rw [hpass] at hpass'
    cases hpass'
    rfl

theorem run_of_visits (h : Visits width maxWidth maxLines wrap next) :
    wrap.run width maxWidth maxLines = next.run width maxWidth maxLines := by
  induction h with
  | refl => rfl
  | tail _ _ hstep ih =>
      obtain ⟨hleft, hpass⟩ := step_eq_some.mp hstep
      exact ih.trans (run_again hleft hpass)

theorem Placed.of_visits (h : wrap.Placed text)
    (hvisits : Visits width maxWidth maxLines wrap next) : next.Placed text :=
  hvisits.invariant h fun ht _ hstep => ht.again (step_eq_some.mp hstep).2

/-- A word has lost a character to a line break. -/
def Torn (text : CString) (wrap : Wrap) : Prop :=
  ∃ i < wrap.line, wrap.str[i]? = some '\n' ∧ ¬Breakable text i

/-- What a line break has replaced stays lost. -/
theorem Torn.after (h : wrap.Torn text) (hplaced : wrap.Placed text) :
    (wrap.after width maxWidth).Torn text := by
  obtain ⟨i, hi, hbreak, hword⟩ := h
  rcases after_written width maxWidth wrap with
    ⟨-, hstr, hline⟩ | ⟨p, hp, -, hstr, hline⟩
  · exact ⟨i, hline ▸ hi, hstr ▸ hbreak, hword⟩
  · have hlow := (hplaced.prev_mem p hp).1
    refine ⟨i, by omega, ?_, hword⟩
    rw [hstr, List.getElem?_set_ne (by omega)]
    exact hbreak

theorem Torn.of_visits (h : wrap.Torn text) (hplaced : wrap.Placed text)
    (hvisits : Visits width maxWidth maxLines wrap next) : next.Torn text := by
  induction hvisits with
  | refl => exact h
  | tail hprior _ hstep ih =>
      have hpass := (step_eq_some.mp hstep).2
      rw [← after_again hpass]
      exact ih.after (hplaced.of_visits hprior)

theorem Torn.run (h : wrap.Torn text) (hplaced : wrap.Placed text) :
    (wrap.run width maxWidth maxLines).Torn text := by
  obtain ⟨last, hvisits, hlast⟩ :=
    run_visits width maxWidth maxLines wrap
  have htorn := h.of_visits hplaced hvisits
  rcases hlast with ⟨-, hrun⟩ | ⟨-, hpass⟩
  · rw [hrun]
    exact htorn
  · rw [← after_leave hpass]
    exact htorn.after (hplaced.of_visits hvisits)

/-- A line break over a word shows in the end. -/
theorem torn_of_not_keepsWords (hplaced : wrap.Placed text) (hleft : wrap.linesLeft maxLines)
    (hword : ¬wrap.KeepsWords width maxWidth) :
    (wrap.run width maxWidth maxLines).Torn text := by
  have hafter : (wrap.after width maxWidth).Torn text := by
    rcases after_written width maxWidth wrap with
      ⟨hnone, -⟩ | ⟨p, hp, hbreak, hstr, hline⟩
    · refine absurd (fun p hp => ?_) hword
      rw [hnone] at hp
      cases hp
    · have hlow := (hplaced.prev_mem p hp).1
      have hlt := hplaced.lt_length hp
      have hlost : ¬Breakable wrap.str p := by
        intro hkept
        apply hword
        intro q hq
        rw [hbreak] at hq
        cases hq
        exact hkept
      refine ⟨p, by omega, ?_, ?_⟩
      · rw [hstr, List.getElem?_set_self (hplaced.length_eq.symm ▸ hlt)]
      · unfold Breakable at hlost ⊢
        rw [← hplaced.getElem?_eq hlow]
        exact hlost
  cases hpass : wrap.pass width maxWidth with
  | again next =>
      rw [after_again hpass] at hafter
      rw [run_again hleft hpass]
      exact hafter.run (hplaced.again hpass)
  | leave last =>
      rw [after_leave hpass] at hafter
      rw [run_leave hleft hpass]
      exact hafter

/-- The text and the string being wrapped, cut at the line breaks written so far. -/
structure Divided (width : CString → Int) (maxWidth : Int) (text : CString)
    (lines : List (CString × Char)) (wrap : Wrap) : Prop where
  text_eq : text = unbroken lines ++ text.drop wrap.line
  str_eq : wrap.str = lined lines ++ text.drop wrap.line
  line_eq : (unbroken lines).length = wrap.line
  breakable : ∀ line ∈ lines, line.2 = ' ' ∨ line.2 = '\n'
  narrow : ∀ line ∈ lines, width line.1 < maxWidth ∨ ' ' ∉ line.1

/-- The line up to the remembered place can stand alone: it was narrow enough when the place was
remembered, or the place is where the line begins. -/
def Ready (width : CString → Int) (maxWidth : Int) (wrap : Wrap) : Prop :=
  ∀ p, wrap.prev = some p →
    width (span wrap.str wrap.line p) < maxWidth ∨ ' ' ∉ span wrap.str wrap.line p

theorem span_self (s : CString) (i : Nat) : span s i i = [] := by
  simp [span]

theorem ready_again (h : wrap.Ready width maxWidth)
    (hpass : wrap.pass width maxWidth = .again next) : next.Ready width maxWidth := by
  rcases pass_cases width maxWidth wrap with ⟨-, hleave⟩ | ⟨p, -, -, hleave⟩ |
    ⟨tmp, -, -, hagain⟩ | ⟨p, tmp, -, -, -, hagain⟩ | ⟨tmp, -, -, hnarrow, hagain⟩
  · rw [hleave] at hpass
    cases hpass
  · rw [hleave] at hpass
    cases hpass
  · rw [hagain] at hpass
    cases hpass
    exact h
  · rw [hagain] at hpass
    cases hpass
    intro q hq
    cases hq
    exact .inr (by simp [wrapped, broken, span_self])
  · rw [hagain] at hpass
    cases hpass
    intro q hq
    cases hq
    exact .inl hnarrow

/-- The current line splits at the remembered place. -/
theorem Placed.split_line (h : wrap.Placed text) (hp : wrap.prev = some p) {c : Char}
    (hc : wrap.str[p]? = some c) :
    text.drop wrap.line = span wrap.str wrap.line p ++ c :: text.drop (p + 1) := by
  have hlow := (h.prev_mem p hp).1
  rw [h.getElem?_eq hlow] at hc
  obtain ⟨hlt, hget⟩ := List.getElem?_eq_some_iff.mp hc
  have happend := List.take_append_drop (p - wrap.line) (text.drop wrap.line)
  rw [List.drop_drop, Nat.add_sub_cancel' hlow, List.drop_eq_getElem_cons hlt, hget] at happend
  rw [span, h.rest_eq]
  exact happend.symm

theorem Placed.length_span (h : wrap.Placed text) (hp : wrap.prev = some p) :
    wrap.line + (span wrap.str wrap.line p).length = p := by
  have hlow := (h.prev_mem p hp).1
  have hlt := h.lt_length hp
  rw [span, h.rest_eq, List.length_take, List.length_drop]
  omega

@[simp] theorem unbroken_concat (line : CString × Char) :
    unbroken (lines ++ [line]) = unbroken lines ++ (line.1 ++ [line.2]) := by
  simp [unbroken]

@[simp] theorem lined_concat (line : CString × Char) :
    lined (lines ++ [line]) = lined lines ++ (line.1 ++ ['\n']) := by
  simp [lined]

/-- Another line is cut off where the line break is written. -/
theorem Divided.broken (h : wrap.Divided width maxWidth text lines) (hplaced : wrap.Placed text)
    (hready : wrap.Ready width maxWidth) (hp : wrap.prev = some p) {c : Char}
    (hc : wrap.str[p]? = some c) (hbreakable : c = ' ' ∨ c = '\n')
    (hstr : next.str = wrap.str.set p '\n') (hline : next.line = p + 1) :
    next.Divided width maxWidth text (lines ++ [(span wrap.str wrap.line p, c)]) := by
  have hsplit := hplaced.split_line hp hc
  have hlength := hplaced.length_span hp
  constructor
  · rw [hline, unbroken_concat]
    calc text = unbroken lines ++ (span wrap.str wrap.line p ++ c :: text.drop (p + 1)) := by
          rw [← hsplit]
          exact h.text_eq
      _ = _ := by simp
  -- the break is right behind the new line
  · have hbefore : (lined lines ++ span wrap.str wrap.line p).length = p := by
      rw [List.length_append, length_lined, h.line_eq, hlength]
    have hstr' : wrap.str = lined lines ++ span wrap.str wrap.line p ++ c :: text.drop (p + 1) := by
      rw [List.append_assoc, ← hsplit]
      exact h.str_eq
    rw [hstr, hline, lined_concat]
    calc wrap.str.set p '\n'
        = (lined lines ++ span wrap.str wrap.line p ++ c :: text.drop (p + 1)).set p '\n' := by
          rw [← hstr']
      _ = lined lines ++ span wrap.str wrap.line p ++ '\n' :: text.drop (p + 1) := by
          rw [List.set_append_right _ _ (Nat.le_of_eq hbefore), hbefore, Nat.sub_self,
            List.set_cons_zero]
      _ = _ := by simp
  · rw [hline, unbroken_concat, List.length_append, List.length_append, h.line_eq,
      List.length_singleton, ← Nat.add_assoc, hlength]
  · intro line hmem
    rcases List.mem_append.mp hmem with hbefore | hlast
    · exact h.breakable line hbefore
    · rw [List.mem_singleton.mp hlast]
      exact hbreakable
  · intro line hmem
    rcases List.mem_append.mp hmem with hbefore | hlast
    · exact h.narrow line hbefore
    · rw [List.mem_singleton.mp hlast]
      exact hready p hp

/-- Where no word is written over, a pass keeps the text divided, by one more line at most. -/
theorem Divided.after (h : wrap.Divided width maxWidth text lines) (hplaced : wrap.Placed text)
    (hready : wrap.Ready width maxWidth) (hwords : wrap.KeepsWords width maxWidth) :
    ∃ lines', (wrap.after width maxWidth).Divided width maxWidth text lines' ∧
      lines'.length ≤ lines.length + 1 ∧
      (wrap.breaksAt width maxWidth = none → lines' = lines) := by
  rcases after_written width maxWidth wrap with
    ⟨hnone, hstr, hline⟩ | ⟨p, hp, hbreak, hstr, hline⟩
  · refine ⟨lines, ?_, Nat.le_succ _, fun _ => rfl⟩
    constructor
    · rw [hline]
      exact h.text_eq
    · rw [hline, hstr]
      exact h.str_eq
    · rw [hline]
      exact h.line_eq
    · exact h.breakable
    · exact h.narrow
  · have hsome : ∃ c, wrap.str[p]? = some c ∧ (c = ' ' ∨ c = '\n') := by
      rcases hwords p hbreak with hspace | hnewline
      · exact ⟨_, hspace, .inl rfl⟩
      · exact ⟨_, hnewline, .inr rfl⟩
    obtain ⟨c, hc, hbreakable⟩ := hsome
    refine ⟨_, h.broken hplaced hready hp hc hbreakable hstr hline, by simp, fun hnone => ?_⟩
    rw [hbreak] at hnone
    cases hnone

theorem linesLeft_iff : wrap.linesLeft maxLines ↔ maxLines = 0 ∨ wrap.lines < maxLines := by
  simp [linesLeft]

/-- Only a line break counts as a line. -/
theorem lines_again (hpass : wrap.pass width maxWidth = .again next) :
    (wrap.breaksAt width maxWidth = none → next.lines = wrap.lines) ∧
      (wrap.breaksAt width maxWidth ≠ none → next.lines = wrap.lines + 1) := by
  rcases pass_cases width maxWidth wrap with ⟨-, hleave⟩ | ⟨p, -, -, hleave⟩ |
    ⟨tmp, -, hnone, hagain⟩ | ⟨p, tmp, -, -, hbreak, hagain⟩ | ⟨tmp, -, hnone, -, hagain⟩
  · rw [hleave] at hpass
    cases hpass
  · rw [hleave] at hpass
    cases hpass
  · rw [hagain] at hpass
    cases hpass
    exact ⟨fun _ => rfl, fun h => absurd hnone h⟩
  · rw [hagain] at hpass
    cases hpass
    refine ⟨fun hnone => ?_, fun _ => rfl⟩
    rw [hbreak] at hnone
    cases hnone
  · rw [hagain] at hpass
    cases hpass
    exact ⟨fun _ => rfl, fun h => absurd hnone h⟩

/-- What holds before every pass while no word is written over. -/
structure Tidy (width : CString → Int) (maxWidth : Int) (maxLines : Nat) (text : CString)
    (wrap : Wrap) : Prop where
  placed : wrap.Placed text
  ready : wrap.Ready width maxWidth
  divided : ∃ lines, wrap.Divided width maxWidth text lines ∧ lines.length < wrap.lines
  room : maxLines = 0 ∨ wrap.lines ≤ maxLines

theorem tidy_start (text : CString) : (start text).Tidy width maxWidth maxLines text where
  placed := placed_start text
  ready := fun _ h => nomatch h
  divided := by
    refine ⟨[], ⟨rfl, rfl, rfl, ?_, ?_⟩, Nat.zero_lt_one⟩ <;> intro line hline <;> cases hline
  room := Nat.eq_zero_or_pos maxLines

theorem Tidy.again (h : wrap.Tidy width maxWidth maxLines text)
    (hleft : wrap.linesLeft maxLines) (hwords : wrap.KeepsWords width maxWidth)
    (hpass : wrap.pass width maxWidth = .again next) :
    next.Tidy width maxWidth maxLines text := by
  obtain ⟨lines, hdivided, hcount⟩ := h.divided
  obtain ⟨lines', hdivided', hle, hsame⟩ := hdivided.after h.placed h.ready hwords
  rw [after_again hpass] at hdivided'
  obtain ⟨hkept, hadded⟩ := lines_again hpass
  refine ⟨h.placed.again hpass, ready_again h.ready hpass, ⟨lines', hdivided', ?_⟩, ?_⟩
  · by_cases hnone : wrap.breaksAt width maxWidth = none
    · rw [hsame hnone, hkept hnone]
      exact hcount
    · rw [hadded hnone]
      omega
  · rcases linesLeft_iff.mp hleft with hzero | hlt
    · exact .inl hzero
    · refine .inr ?_
      by_cases hnone : wrap.breaksAt width maxWidth = none
      · rw [hkept hnone]
        exact Nat.le_of_lt hlt
      · rw [hadded hnone]
        exact hlt

/-- No pass of the loop writes a line break over a word. -/
def RunKeepsWords (width : CString → Int) (maxWidth : Int) (maxLines : Nat) (text : CString) :
    Prop :=
  ∀ wrap, Visits width maxWidth maxLines (start text) wrap → wrap.linesLeft maxLines →
    wrap.KeepsWords width maxWidth

theorem Tidy.of_visits (hwords : RunKeepsWords width maxWidth maxLines text)
    (hvisits : Visits width maxWidth maxLines (start text) wrap) :
    wrap.Tidy width maxWidth maxLines text := by
  induction hvisits with
  | refl => exact tidy_start text
  | tail hvisits _ hstep ih =>
      obtain ⟨hleft, hpass⟩ := step_eq_some.mp hstep
      exact ih.again hleft (hwords _ hvisits hleft) hpass

/-- The loop ends with the text divided into no more lines than there may be. -/
theorem run_divided (hwords : RunKeepsWords width maxWidth maxLines text) :
    ∃ lines, ((start text).run width maxWidth maxLines).Divided width maxWidth text lines ∧
      (maxLines = 0 ∨ lines.length < maxLines) := by
  obtain ⟨last, hvisits, hlast⟩ :=
    run_visits width maxWidth maxLines (start text)
  have htidy := Tidy.of_visits hwords hvisits
  obtain ⟨lines, hdivided, hcount⟩ := htidy.divided
  rcases hlast with ⟨-, hrun⟩ | ⟨hleft, hpass⟩
  · rw [hrun]
    exact ⟨lines, hdivided, htidy.room.imp_right (Nat.lt_of_lt_of_le hcount)⟩
  · obtain ⟨lines', hdivided', hle, -⟩ :=
      hdivided.after htidy.placed htidy.ready (hwords last hvisits hleft)
    rw [after_leave hpass] at hdivided'
    refine ⟨lines', hdivided', (linesLeft_iff.mp hleft).imp_right fun hlt => ?_⟩
    omega

end Wrap

/-- The text fits, or it can be shortened until it does, in an array of `MAX_PATH` bytes. -/
def Shortens (width : CString → Int) (maxWidth : Int) (text : CString) : Prop :=
  text.length < maxPath ∧ (Fits width maxWidth 0 text ∨
    4 ≤ text.length ∧ ∃ j ≤ text.length - 4, Fits width maxWidth 0 (text.take j ++ ellipsis))

/-- What is left for the last line when the loop ends. -/
def lastLine (width : CString → Int) (maxWidth : Int) (maxLines : Nat) (text : CString) : CString :=
  let last := (Wrap.start text).run width maxWidth maxLines
  last.str.drop last.line

theorem breakable_append {rest : CString} {i : Nat} (h : Breakable text i) :
    Breakable (text ++ rest) i := by
  refine h.imp (fun h => ?_) (fun h => ?_) <;>
  · rw [List.getElem?_append_left (List.getElem?_eq_some_iff.mp h).1]
    exact h

theorem breakable_append_right {rest : CString} {i : Nat} :
    Breakable (text ++ rest) (text.length + i) ↔ Breakable rest i := by
  simp [Breakable, List.getElem?_append_right]

theorem breakable_unbroken {i : Nat} (hlines : ∀ line ∈ lines, line.2 = ' ' ∨ line.2 = '\n')
    (hi : (lined lines)[i]? = some '\n') : Breakable (unbroken lines) i := by
  induction lines generalizing i with
  | nil => simp [lined] at hi
  | cons line lines ih =>
      have hlined : lined (line :: lines) = line.1 ++ '\n' :: lined lines := by simp [lined]
      have hunbroken : unbroken (line :: lines) = line.1 ++ line.2 :: unbroken lines := by
        simp [unbroken]
      rw [hlined] at hi
      rw [hunbroken]
      rcases Nat.lt_or_ge i line.1.length with hlt | hge
      · rw [List.getElem?_append_left hlt] at hi
        exact breakable_append (.inr hi)
      · obtain ⟨k, rfl⟩ := Nat.exists_eq_add_of_le hge
        rw [breakable_append_right]
        rw [List.getElem?_append_right hge, Nat.add_sub_cancel_left] at hi
        cases k with
        | zero =>
            rcases hlines line List.mem_cons_self with hspace | hbreak
            · exact .inl (by simp [hspace])
            · exact .inr (by simp [hbreak])
        | succ k =>
            rw [List.getElem?_cons_succ] at hi
            have hrest := ih (fun line hmem => hlines line (List.mem_cons_of_mem _ hmem)) hi
            simpa [Breakable] using hrest

theorem breakable_shortened {shown rest : CString} {i : Nat} (hshown : shown <+: rest)
    (hi : (shown ++ ellipsis)[i]? = some '\n') : Breakable rest i := by
  obtain ⟨left, rfl⟩ := hshown
  rcases Nat.lt_or_ge i shown.length with hlt | hge
  · rw [List.getElem?_append_left hlt] at hi
    exact breakable_append (.inr hi)
  · rw [List.getElem?_append_right hge] at hi
    have hmem := List.mem_of_getElem? hi
    exact absurd hmem (by decide)

/-- A line break in a wrapped text stands where a space or a line break stood. -/
theorem Wrapped.breakable {i : Nat} (h : Wrapped width maxWidth maxLines text out)
    (hi : out[i]? = some '\n') : Breakable text i := by
  obtain ⟨lines, rest, last, rfl, rfl, hlines, -, -, hlast⟩ := h
  rcases Nat.lt_or_ge i (lined lines).length with hlt | hge
  · rw [List.getElem?_append_left hlt] at hi
    exact breakable_append (breakable_unbroken hlines hi)
  · obtain ⟨k, rfl⟩ := Nat.exists_eq_add_of_le hge
    rw [List.getElem?_append_right hge, Nat.add_sub_cancel_left] at hi
    rw [length_lined, breakable_append_right]
    rcases hlast with rfl | ⟨shown, hshown, -, rfl⟩
    · exact .inr hi
    · exact breakable_shortened hshown hi

theorem truncateText_last {rest last : CString} {w : Int}
    (h : truncateText width maxWidth rest 0 = some (last, w)) :
    last = rest ∨
      ∃ shown, shown <+: rest ∧ shown.length < rest.length ∧ last = shown ++ ellipsis := by
  have htruncates := truncateText_truncates h
  by_cases hfits : Fits width maxWidth 0 rest
  · exact .inl (htruncates.unchanged hfits)
  · exact .inr (htruncates.shortened hfits).2

theorem wrapText_narrow (h : width text ≤ maxWidth) :
    (∃ out w, wrapText width maxWidth text maxLines = some (out, w) ∧
        Wrapped width maxWidth maxLines text out) ↔ text.length < maxPath := by
  have hfits : Fits width maxWidth 0 text := by
    unfold Fits
    omega
  unfold wrapText
  rw [if_pos h]
  constructor
  · rintro ⟨out, w, hsome, -⟩
    exact (truncateText_isSome.mp ⟨out, w, hsome⟩).1
  · intro hlength
    obtain ⟨out, w, hsome⟩ := truncateText_isSome.mpr ⟨hlength, .inl hfits⟩
    refine ⟨out, w, hsome, [], text, out, rfl, rfl, ?_, Nat.eq_zero_or_pos maxLines, ?_,
      truncateText_last hsome⟩ <;> intro line hline <;> cases hline

namespace Wrap

/-- Only characters change. -/
theorem run_length (wrap : Wrap) (h : wrap.Placed text) :
    (wrap.run width maxWidth maxLines).str.length = text.length := by
  obtain ⟨last, hvisits, hlast⟩ := run_visits width maxWidth maxLines wrap
  have hlength := (h.of_visits hvisits).length_eq
  rcases hlast with ⟨-, hrun⟩ | ⟨-, hpass⟩
  · rw [hrun]
    exact hlength
  · rw [← after_leave hpass]
    rcases after_written width maxWidth last with ⟨-, hstr, -⟩ | ⟨p, -, -, hstr, -⟩
    · rw [hstr]
      exact hlength
    · rw [hstr, List.length_set]
      exact hlength

/-- The last line begins within the string. -/
theorem run_line_le (wrap : Wrap) (h : wrap.Placed text) :
    (wrap.run width maxWidth maxLines).line ≤ (wrap.run width maxWidth maxLines).str.length := by
  obtain ⟨last, hvisits, hlast⟩ :=
    run_visits width maxWidth maxLines wrap
  have hplaced := h.of_visits hvisits
  have hle : last.line ≤ last.str.length := by
    have hline := hplaced.line_le
    have htmp := hplaced.tmp_le
    have hlength := hplaced.length_eq
    omega
  rcases hlast with ⟨-, hrun⟩ | ⟨-, hpass⟩
  · rw [hrun]
    exact hle
  · rw [← after_leave hpass]
    rcases after_written width maxWidth last with
      ⟨-, hstr, hline⟩ | ⟨p, hp, -, hstr, hline⟩
    · rw [hstr, hline]
      exact hle
    · have hlt := hplaced.lt_length hp
      rw [hstr, hline, List.length_set, hplaced.length_eq]
      exact hlt

end Wrap

/-- A word that lost its first character has lost it in the result too. -/
theorem not_wrapped_of_torn {last : CString} (htorn : wrap.Torn text)
    (hline : wrap.line ≤ wrap.str.length) :
    ¬Wrapped width maxWidth maxLines text (wrap.str.take wrap.line ++ last) := by
  intro hwrapped
  obtain ⟨i, hi, hbreak, hword⟩ := htorn
  have hlength : i < (wrap.str.take wrap.line).length := by
    rw [List.length_take]
    omega
  apply hword
  apply hwrapped.breakable
  rw [List.getElem?_append_left hlength, List.getElem?_take_of_lt hi]
  exact hbreak

/-- A text divided by its line breaks is wrapped, whatever its last line is shortened to. -/
theorem wrapped_of_divided {last : CString} {w : Int}
    (h : wrap.Divided width maxWidth text lines)
    (hcount : maxLines = 0 ∨ lines.length < maxLines)
    (hlast : truncateText width maxWidth (wrap.str.drop wrap.line) 0 = some (last, w)) :
    Wrapped width maxWidth maxLines text (wrap.str.take wrap.line ++ last) := by
  have hlength : (lined lines).length = wrap.line := by rw [length_lined, h.line_eq]
  have htake : wrap.str.take wrap.line = lined lines := by
    rw [h.str_eq, List.take_append_of_le_length (Nat.le_of_eq hlength.symm), ← hlength,
      List.take_length]
  have hdrop : wrap.str.drop wrap.line = text.drop wrap.line := by
    rw [h.str_eq, ← hlength, List.drop_left]
  rw [hdrop] at hlast
  exact ⟨lines, text.drop wrap.line, last, h.text_eq, by rw [htake], h.breakable, hcount,
    h.narrow, truncateText_last hlast⟩

theorem wrapText_wide {w : Int} (h : ¬width text ≤ maxWidth) :
    wrapText width maxWidth text maxLines = some (out, w) ↔
      ∃ last lineWidth,
        truncateText width maxWidth (lastLine width maxWidth maxLines text) 0 =
          some (last, lineWidth) ∧
        out = ((Wrap.start text).run width maxWidth maxLines).str.take
          ((Wrap.start text).run width maxWidth maxLines).line ++ last ∧
        w = if ((Wrap.start text).run width maxWidth maxLines).maxLineWidth < lineWidth
            then lineWidth else ((Wrap.start text).run width maxWidth maxLines).maxLineWidth := by
  unfold wrapText lastLine
  rw [if_neg h, Option.map_eq_some_iff]
  constructor
  · rintro ⟨⟨last, lineWidth⟩, hlast, heq⟩
    cases heq
    exact ⟨last, lineWidth, hlast, rfl, rfl⟩
  · rintro ⟨last, lineWidth, hlast, rfl, rfl⟩
    exact ⟨(last, lineWidth), hlast, rfl⟩

/-- The last line is a part of the text. -/
theorem length_lastLine : (lastLine width maxWidth maxLines text).length ≤ text.length := by
  unfold lastLine
  rw [List.length_drop, Wrap.run_length _ (Wrap.placed_start text)]
  exact Nat.sub_le _ _

/-- A word has no place for a line break. -/
theorem lastLine_of_word (h : ' ' ∉ text) : lastLine width maxWidth maxLines text = text := by
  have hpass : (Wrap.start text).pass width maxWidth = .leave (Wrap.start text) := by
    have hnone : strchr text 0 ' ' = none := strchr_eq_none (s := []) h
    unfold Wrap.pass Wrap.start
    simp only [hnone]
  have hrun : (Wrap.start text).run width maxWidth maxLines = Wrap.start text := by
    by_cases hleft : (Wrap.start text).linesLeft maxLines
    · exact Wrap.run_leave hleft hpass
    · rw [Wrap.run, if_neg hleft]
  unfold lastLine
  rw [hrun]
  rfl

/-- A wrapped text is no longer than it was. -/
theorem length_wrapText {w : Int}
    (h : wrapText width maxWidth text maxLines = some (out, w)) : out.length ≤ text.length := by
  by_cases hnarrow : width text ≤ maxWidth
  · unfold wrapText at h
    rw [if_pos hnarrow] at h
    exact length_truncateText h
  · obtain ⟨last, lineWidth, hlast, rfl, -⟩ := (wrapText_wide hnarrow).mp h
    have hshort := length_truncateText hlast
    have hline : ((Wrap.start text).run width maxWidth maxLines).line ≤ text.length := by
      rw [← Wrap.run_length (Wrap.start text) (Wrap.placed_start text)]
      exact Wrap.run_line_le _ (Wrap.placed_start text)
    rw [lastLine, List.length_drop, Wrap.run_length _ (Wrap.placed_start text)] at hshort
    rw [List.length_append, List.length_take, Wrap.run_length _ (Wrap.placed_start text)]
    omega

/-- A text that does not fit is wrapped just when no pass of the loop writes a line break over a
word and the last line can be shortened. -/
theorem wrapped_iff_keepsWords (h : ¬width text ≤ maxWidth) :
    (∃ out w, wrapText width maxWidth text maxLines = some (out, w) ∧
        Wrapped width maxWidth maxLines text out) ↔
      Wrap.RunKeepsWords width maxWidth maxLines text ∧
        Shortens width maxWidth (lastLine width maxWidth maxLines text) := by
  constructor
  · rintro ⟨out, w, hsome, hwrapped⟩
    obtain ⟨last, lineWidth, hlast, rfl, -⟩ := (wrapText_wide h).mp hsome
    refine ⟨fun wrap hvisits hleft => ?_, truncateText_isSome.mp ⟨last, lineWidth, hlast⟩⟩
    by_contra hword
    have hplaced := (Wrap.placed_start text).of_visits hvisits
    have htorn := Wrap.torn_of_not_keepsWords hplaced hleft hword
    rw [← Wrap.run_of_visits hvisits] at htorn
    exact not_wrapped_of_torn htorn (Wrap.run_line_le _ (Wrap.placed_start text)) hwrapped
  · rintro ⟨hwords, hshortens⟩
    obtain ⟨last, lineWidth, hlast⟩ := truncateText_isSome.mpr hshortens
    obtain ⟨lines, hdivided, hcount⟩ := Wrap.run_divided hwords
    exact ⟨_, _, (wrapText_wide h).mpr ⟨last, lineWidth, hlast, rfl, rfl⟩,
      wrapped_of_divided hdivided hcount hlast⟩

/-- A font whose characters are all as wide as one. -/
def fixed (text : CString) : Int := text.length

end DarkUI.Gfx
