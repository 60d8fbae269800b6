import DarkUI.Foundation.Text
import Mathlib.Tactic.SplitIfs

/-! # Searching a text of keyed lines

Each line is a key, a separator and a value. The search does not know the lines: it
takes the first occurrence of the key in the whole text that the separator follows,
and passes over the other occurrences as a whole. Within a text of lines it still
returns what follows the key in the first line that has it.
-/

namespace KeyedLines

variable {α β : Type*}

/-- The lines, each with the element that ends it. -/
def unlines (stop : α) (lines : List (List α)) : List α := lines.flatMap (· ++ [stop])

@[simp] theorem unlines_nil (stop : α) : unlines stop [] = [] := rfl

@[simp] theorem unlines_cons (stop : α) (line : List α) (lines : List (List α)) :
    unlines stop (line :: lines) = line ++ stop :: unlines stop lines := by
  simp [unlines]

/-- The text after the separator, and whether an occurrence of the key up to there stands
after the mark. -/
structure Found (α : Type*) where
  text : Option (List α)
  marked : Bool
  deriving DecidableEq, Repr

variable [DecidableEq α]

/-- Searches with `skip` elements still to pass over; `before` stands in front of the text. -/
def search (key sep : List α) (mark : α) : Nat → Option α → List α → Found α
  | _, _, [] => ⟨none, false⟩
  | skip + 1, _, c :: rest => search key sep mark skip (some c) rest
  | 0, before, c :: rest =>
      if key <+: c :: rest then
        if sep <+: (c :: rest).drop key.length then
          ⟨some (((c :: rest).drop key.length).drop sep.length), before = some mark⟩
        else
          let found := search key sep mark (key.length - 1) (some c) rest
          ⟨found.text, found.marked || before = some mark⟩
      else search key sep mark 0 (some c) rest

/-- What follows the key and the separator in a single line. -/
def valueIn (key sep : List α) : Nat → List α → Option (List α)
  | _, [] => none
  | skip + 1, _ :: rest => valueIn key sep skip rest
  | 0, c :: rest =>
      if key <+: c :: rest then
        if sep <+: (c :: rest).drop key.length then
          some (((c :: rest).drop key.length).drop sep.length)
        else valueIn key sep (key.length - 1) rest
      else valueIn key sep 0 rest

variable {key sep line rest after : List α} {mark stop : α} {before : Option α} {skip : Nat}

theorem search_text (text : List α) :
    (search key sep mark skip before text).text = valueIn key sep skip text := by
  induction text generalizing skip before with
  | nil => cases skip <;> rfl
  | cons c rest ih =>
      cases skip with
      | succ skip => exact ih
      | zero =>
          unfold search valueIn
          split_ifs
          · rfl
          · exact ih
          · exact ih

/-- The value ends where the line does. -/
theorem suffix_of_valueIn {text : List α} (h : valueIn key sep skip text = some after) :
    after <:+ text := by
  induction text generalizing skip with
  | nil => cases skip <;> simp [valueIn] at h
  | cons c rest ih =>
      have htail := List.suffix_cons c rest
      cases skip with
      | succ skip => exact (ih h).trans htail
      | zero =>
          unfold valueIn at h
          split_ifs at h
          · rw [Option.some.injEq] at h
            exact h ▸ (List.drop_suffix _ _).trans (List.drop_suffix _ _)
          · exact (ih h).trans htail
          · exact (ih h).trans htail

/-- A key that has a value stands in the text. -/
theorem infix_of_valueIn {text : List α} (h : valueIn key sep skip text = some after) :
    key <:+: text := by
  induction text generalizing skip with
  | nil => cases skip <;> simp [valueIn] at h
  | cons c rest ih =>
      cases skip with
      | succ skip => exact List.infix_cons (ih h)
      | zero =>
          unfold valueIn at h
          split_ifs at h with hbegins
          · exact hbegins.isInfix
          · exact List.infix_cons (ih h)
          · exact List.infix_cons (ih h)

/-- A line gives its own value. -/
theorem valueIn_own (hne : sep ≠ []) (value : List α) :
    valueIn key sep 0 (key ++ (sep ++ value)) = some value := by
  have hkey : key <+: key ++ (sep ++ value) := List.prefix_append _ _
  have hsep : sep <+: sep ++ value := List.prefix_append _ _
  have hdrop : (key ++ (sep ++ value)).drop key.length = sep ++ value := List.drop_left
  cases hline : key ++ (sep ++ value) with
  | nil => simp [hne] at hline
  | cons c rest =>
      rw [hline] at hkey hdrop
      rw [valueIn, if_pos hkey, hdrop, if_pos hsep, List.drop_left]

section Lines

variable (hkey : stop ∉ key) (hsep : stop ∉ sep) (hne : sep ≠ [])
include hkey hsep hne

/-- The search stops in the line, or goes on after it. -/
theorem valueIn_line (hskip : skip ≤ line.length) :
    valueIn key sep skip (line ++ stop :: rest) =
      ((valueIn key sep skip line).map (· ++ stop :: rest)).or (valueIn key sep 0 rest) := by
  induction line generalizing skip with
  | nil =>
      obtain rfl : skip = 0 := by simpa using hskip
      simp only [List.nil_append, valueIn, Option.map_none, Option.none_or]
      split_ifs with hprefix hfollows
      · obtain rfl : key = [] := List.prefix_nil.mp (Text.prefix_of_append_cons hprefix hkey)
        exact absurd (List.prefix_nil.mp (Text.prefix_of_append_cons hfollows hsep)) hne
      · obtain rfl : key = [] := List.prefix_nil.mp (Text.prefix_of_append_cons hprefix hkey)
        rfl
      · rfl
  | cons c line ih =>
      cases skip with
      | succ skip => exact ih (by simpa using hskip)
      | zero =>
          have hprefix : key <+: c :: (line ++ stop :: rest) ↔ key <+: c :: line :=
            Text.prefix_append_cons (s := c :: line) hkey
          simp only [List.cons_append, valueIn, hprefix]
          split_ifs with hstarts hhere hin hin
          · have hlength := hstarts.length_le
            rw [← List.cons_append, List.drop_append_of_le_length hlength] at hhere ⊢
            rw [List.drop_append_of_le_length hin.length_le, Option.map_some, Option.some_or]
          · rw [← List.cons_append, List.drop_append_of_le_length hstarts.length_le,
              Text.prefix_append_cons hsep] at hhere
            exact absurd hhere hin
          · rw [← List.cons_append, List.drop_append_of_le_length hstarts.length_le,
              Text.prefix_append_cons hsep] at hhere
            exact absurd hin hhere
          · have hlength := hstarts.length_le
            rw [List.length_cons] at hlength
            exact ih (by omega)
          · exact ih (Nat.zero_le _)

/-- The first line that has the key gives the value. -/
theorem valueIn_unlines {cut cutLine : List α → β}
    (hcut : ∀ value rest, stop ∉ value → cut (value ++ stop :: rest) = cutLine value)
    {lines : List (List α)} (hlines : ∀ line ∈ lines, stop ∉ line) :
    (valueIn key sep 0 (unlines stop lines)).map cut =
      (lines.findSome? (valueIn key sep 0)).map cutLine := by
  induction lines with
  | nil => rfl
  | cons line lines ih =>
      rw [unlines_cons, valueIn_line hkey hsep hne (Nat.zero_le _), List.findSome?_cons]
      cases hvalue : valueIn key sep 0 line with
      | none =>
          rw [Option.map_none, Option.none_or]
          exact ih fun line hline => hlines line (List.mem_cons_of_mem _ hline)
      | some value =>
          have hsuffix := (suffix_of_valueIn hvalue).subset
          rw [Option.map_some, Option.some_or, Option.map_some, Option.map_some,
            hcut _ _ fun hmem => hlines line List.mem_cons_self (hsuffix hmem)]

end Lines

end KeyedLines
