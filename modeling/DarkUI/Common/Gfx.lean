import DarkUI.Common.Defines
import Mathlib.Data.List.Basic

/-! # Fitting text to a width

Text is measured by the font and is shortened or broken into lines until it fits. Both
work on the characters in place: shortening copies the ellipsis over the end of the
text, wrapping puts a line break where it remembers a space. What the font makes of a
text is a parameter.
-/

namespace DarkUI.Gfx

open Text

def ellipsis : CString := "...".toList

@[simp] theorem length_ellipsis : ellipsis.length = 3 := by decide

/-- One pass of the loop in `GFX_truncateText`: the suffix is copied to the fourth byte
from the end, which has to be in the text. -/
def shorten (out : CString) : Option CString :=
  if 4 ≤ out.length then some (out.take (out.length - 4) ++ ellipsis) else none

theorem length_shorten {out next : CString} (h : shorten out = some next) :
    next.length < out.length := by
  unfold shorten at h
  split at h
  next hlength =>
    cases h
    rw [List.length_append, List.length_take, Nat.min_eq_left (Nat.sub_le _ _), length_ellipsis]
    omega
  next => cases h

variable (width : CString → Int) (maxWidth : Int)

/-- The text left in `out_name` and the width returned for it. -/
def truncateFrom (padding : Int) (out : CString) : Option (CString × Int) :=
  if maxWidth < width out + padding then
    match _hnext : shorten out with
    | none => none
    | some next => truncateFrom padding next
  else some (out, width out + padding)
termination_by out.length
decreasing_by exact length_shorten ‹_›

/-- `GFX_truncateText` into an array of `MAX_PATH` bytes. -/
def truncateText (inName : CString) (padding : Int) : Option (CString × Int) :=
  if inName.length < maxPath then truncateFrom width maxWidth padding inName else none

/-- What the loop copies into the array: the suffix in each of its passes. -/
def suffixCopies (padding : Int) (out : CString) : List CString :=
  if maxWidth < width out + padding then
    match _hnext : shorten out with
    | none => [ellipsis]
    | some next => ellipsis :: suffixCopies padding next
  else []
termination_by out.length
decreasing_by exact length_shorten ‹_›

/-- The strings `GFX_truncateText` copies into `out_name`, in order. -/
def truncateCopies (inName : CString) (padding : Int) : List CString :=
  inName :: suffixCopies width maxWidth padding inName

/-- What `&s[start]` reads with a NUL at `stop`. -/
def span (s : CString) (start stop : Nat) : CString := (s.drop start).take (stop - start)

/-- The string being wrapped, with the pointers into it and the counts of the loop. -/
structure Wrap where
  str : CString
  line : Nat
  prev : Option Nat
  tmp : Nat
  lines : Nat
  maxLineWidth : Int
  deriving DecidableEq, Repr

/-- What a pass of the loop leads to. -/
inductive Pass
  | again (wrap : Wrap)
  | leave (wrap : Wrap)
  deriving DecidableEq, Repr

namespace Wrap

/-- The loop's state before its first pass. -/
def start (str : CString) : Wrap := ⟨str, 0, none, 0, 1, 0⟩

/-- The width of a line that does not fit is taken into the result. -/
def measured (wrap : Wrap) (lineWidth : Int) : Wrap :=
  { wrap with maxLineWidth := if wrap.maxLineWidth < lineWidth then lineWidth
                              else wrap.maxLineWidth }

/-- A line break is written at the remembered place and the next line begins after it. -/
def broken (wrap : Wrap) (prev : Nat) : Wrap :=
  { wrap with str := wrap.str.set prev '\n', line := prev + 1 }

/-- One pass of the loop in `GFX_wrapText`. -/
def pass (wrap : Wrap) : Pass :=
  match strchr wrap.str wrap.tmp ' ' with
  | none =>
      match wrap.prev with
      | none => .leave wrap
      | some prev =>
          let lineWidth := width (wrap.str.drop wrap.line)
          if maxWidth ≤ lineWidth then .leave ((wrap.measured lineWidth).broken prev)
          else .leave wrap
  | some tmp =>
      let lineWidth := width (span wrap.str wrap.line tmp)
      if maxWidth ≤ lineWidth then
        let passed := { wrap.measured lineWidth with tmp := tmp + 1 }
        match wrap.prev with
        | none => .again passed
        | some prev =>
            .again { passed.broken prev with prev := some (prev + 1), lines := wrap.lines + 1 }
      else .again { wrap with prev := some tmp, tmp := tmp + 1 }

/-- The loop goes on while lines are left; no maximum is written as zero. -/
def linesLeft (maxLines : Nat) (wrap : Wrap) : Bool := maxLines = 0 || wrap.lines < maxLines

/-- How much of the text is still to be searched. -/
def remaining (wrap : Wrap) : Nat := wrap.str.length - wrap.tmp

theorem remaining_pass {wrap next : Wrap} (h : wrap.pass width maxWidth = .again next) :
    next.remaining < wrap.remaining := by
  unfold pass at h
  cases hfind : strchr wrap.str wrap.tmp ' ' with
  | none =>
      simp only [hfind] at h
      cases hprev : wrap.prev with
      | none => simp [hprev] at h
      | some prev =>
          simp only [hprev] at h
          split at h <;> cases h
  | some tmp =>
      simp only [hfind] at h
      have hlt := strchr_lt hfind
      split at h
      next =>
        cases hprev : wrap.prev with
        | none =>
            simp only [hprev] at h
            cases h
            simp only [remaining, measured]
            omega
        | some prev =>
            simp only [hprev] at h
            cases h
            simp only [remaining, measured, broken, List.length_set]
            omega
      next =>
        cases h
        simp only [remaining]
        omega

/-- The loop in `GFX_wrapText`. -/
def run (maxLines : Nat) (wrap : Wrap) : Wrap :=
  if wrap.linesLeft maxLines then
    match _hpass : wrap.pass width maxWidth with
    | .again next => run maxLines next
    | .leave last => last
  else wrap
termination_by wrap.remaining
decreasing_by exact remaining_pass width maxWidth ‹_›

end Wrap

/-- The string after `GFX_wrapText` and the width it returns. -/
def wrapText (str : CString) (maxLines : Nat) : Option (CString × Int) :=
  if width str ≤ maxWidth then truncateText width maxWidth str 0
  else
    let wrap := (Wrap.start str).run width maxWidth maxLines
    (truncateText width maxWidth (wrap.str.drop wrap.line) 0).map fun (last, lineWidth) =>
      (wrap.str.take wrap.line ++ last,
        if wrap.maxLineWidth < lineWidth then lineWidth else wrap.maxLineWidth)

/-- The strings that reach the array of `MAX_PATH` bytes in `GFX_wrapText`. -/
def wrapCopies (str : CString) (maxLines : Nat) : List CString :=
  if width str ≤ maxWidth then truncateCopies width maxWidth str 0
  else
    let wrap := (Wrap.start str).run width maxWidth maxLines
    truncateCopies width maxWidth (wrap.str.drop wrap.line) 0

end DarkUI.Gfx
