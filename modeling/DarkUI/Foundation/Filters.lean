import DarkUI.Foundation.Escapes
import DarkUI.Foundation.KeyedLines
import DarkUI.Foundation.Lines
import Mathlib.Data.List.DropRight

/-! # Text filters of a shell script

What `sed`, `tr` and `printf` make of a text, and what a command substitution keeps of what its
command prints.
-/

namespace Text

open KeyedLines

section Pieces

variable {size : Nat}

/-- A newline ends a piece, so the lines of a text are read one by one. -/
theorem pieces_unlines (rows : List CString) :
    pieces size (unlines '\n' rows) = rows.flatMap fun row => pieces size (row ++ ['\n']) := by
  induction rows with
  | nil => simp [pieces, piecesFrom]
  | cons row rows ih =>
      rw [unlines_cons, pieces, piecesFrom_append_newline, ih, List.flatMap_cons]
      rfl

theorem pieces_row {row : CString} (hrow : '\n' ∉ row) (hfits : row.length + 1 < size) :
    pieces size (row ++ ['\n']) = [row ++ ['\n']] := by
  rw [pieces, piecesFrom_line hrow (by omega), List.nil_append]

end Pieces

end Text

namespace Shell

open Text KeyedLines

/-- The lines that a filter reads, each with the newline that ends it. -/
def lines (text : CString) : List CString := pieces (text.length + 2) text

/-- `sed -n`, where the line of that number is printed. -/
def sedPrint (number : Nat) (text : CString) : CString := (lines text)[number - 1]?.getD []

/-- `tr -d` -/
def trDelete (set text : CString) : CString := text.filter fun c => c ∉ set

/-- `sed`, where a character is substituted by a text wherever it stands. -/
def sedSubstitute (c : Char) (by' text : CString) : CString :=
  text.flatMap fun d => if d = c then by' else [d]

/-- `$(…)`, which drops the NULs and the newlines at the end. -/
def substitution (printed : CString) : CString :=
  (printed.filter (· ≠ '\x00')).rdropWhile (· == '\n')

/-- `echo` -/
def echo (text : CString) : CString := text ++ ['\n']

/-! ## Lines -/

theorem length_row_le {rows : List CString} {row : CString} (hrow : row ∈ rows) :
    row.length + 1 ≤ (unlines '\n' rows).length := by
  induction rows with
  | nil => simp at hrow
  | cons first rows ih =>
      rw [unlines_cons, List.length_append, List.length_cons]
      rcases List.mem_cons.mp hrow with rfl | hrest
      · omega
      · have hlength := ih hrest
        omega

theorem lines_unlines {rows : List CString} (hrows : ∀ row ∈ rows, '\n' ∉ row) :
    lines (unlines '\n' rows) = rows.map (· ++ ['\n']) := by
  rw [lines, pieces_unlines]
  have hpieces : ∀ row ∈ rows, pieces ((unlines '\n' rows).length + 2) (row ++ ['\n']) =
      [row ++ ['\n']] := by
    intro row hrow
    have hlength := length_row_le hrow
    exact pieces_row (hrows row hrow) (by omega)
  rw [List.flatMap_congr hpieces, List.map_eq_flatMap]

/-! ## Substitutions -/

theorem substitution_eq_self {text : CString} (hline : '\n' ∉ text) (hnul : '\x00' ∉ text) :
    substitution text = text := by
  have hkept : text.filter (· ≠ '\x00') = text := by
    rw [List.filter_eq_self]
    intro c hc
    have hne : c ≠ '\x00' := fun heq => hnul (heq ▸ hc)
    simpa using hne
  rw [substitution, hkept, List.rdropWhile_eq_self_iff]
  intro hne
  have hlast : text.getLast hne ≠ '\n' := fun heq => hline (heq ▸ List.getLast_mem hne)
  simpa using hlast

/-- Of a text whose last line is not empty only the last newline is dropped. -/
theorem substitution_append_newline {text : CString} (hne : text ≠ [])
    (hlast : text.getLast hne ≠ '\n') (hnul : '\x00' ∉ text) :
    substitution (text ++ ['\n']) = text := by
  have hkept : (text ++ ['\n']).filter (· ≠ '\x00') = text ++ ['\n'] := by
    rw [List.filter_eq_self]
    intro c hc
    have hboth : '\x00' ∉ text ++ ['\n'] := by simp [hnul]
    have hne : c ≠ '\x00' := fun heq => hboth (heq ▸ hc)
    simpa using hne
  rw [substitution, hkept, List.rdropWhile_concat_pos _ _ _ (by rfl), List.rdropWhile_eq_self_iff]
  intro _
  simpa using hlast

/-- The newlines that end the lines are kept but for the last one, which is printed again. -/
theorem substitution_unlines {rows : List CString} (hnewline : ∀ row ∈ rows, '\n' ∉ row)
    (hnul : ∀ row ∈ rows, '\x00' ∉ row) (hlast : rows.getLast? ≠ some []) (hne : rows ≠ []) :
    substitution (unlines '\n' rows) ≠ [] ∧
      substitution (unlines '\n' rows) ++ ['\n'] = unlines '\n' rows := by
  obtain ⟨init, last, rfl⟩ := (List.eq_nil_or_concat' rows).resolve_left hne
  have hlast_mem : last ∈ init ++ [last] := by simp
  have hlast_ne : last ≠ [] := by simpa using hlast
  have htext : unlines '\n' (init ++ [last]) = unlines '\n' init ++ last ++ ['\n'] := by
    simp [unlines]
  have htext_ne : unlines '\n' init ++ last ≠ [] := by simp [hlast_ne]
  have hend : (unlines '\n' init ++ last).getLast htext_ne ≠ '\n' := by
    rw [List.getLast_append_of_ne_nil _ hlast_ne]
    exact fun heq => hnewline last hlast_mem (heq ▸ List.getLast_mem hlast_ne)
  have htext_nul : '\x00' ∉ unlines '\n' init ++ last := by
    intro hmem
    rcases List.mem_append.mp hmem with hinit | hmem
    · obtain ⟨row, hrow, hmem⟩ := List.mem_flatMap.mp hinit
      have hkept := hnul row (List.mem_append_left _ hrow)
      simp [hkept] at hmem
    · exact hnul last hlast_mem hmem
  rw [htext, substitution_append_newline htext_ne hend htext_nul]
  exact ⟨htext_ne, rfl⟩

theorem trDelete_eq_self {set text : CString} (hset : ∀ c ∈ set, c ∉ text) :
    trDelete set text = text := by
  rw [trDelete, List.filter_eq_self]
  intro c hc
  have hnot : c ∉ set := fun hmem => hset c hmem hc
  simpa using hnot

theorem trDelete_append (set s t : CString) :
    trDelete set (s ++ t) = trDelete set s ++ trDelete set t := List.filter_append s t

/-- A backslash is put before each backslash, and then before each character of another kind. -/
theorem sedSubstitute_backslashes {c : Char} (hc : c ≠ '\\') (s : CString) :
    sedSubstitute c ['\\', c] (sedSubstitute '\\' ['\\', '\\'] s) =
      backslashed (fun d => d == c || d == '\\') s := by
  induction s with
  | nil => rfl
  | cons d s ih =>
      have hinner : sedSubstitute '\\' ['\\', '\\'] (d :: s) =
          (if d = '\\' then ['\\', '\\'] else [d]) ++ sedSubstitute '\\' ['\\', '\\'] s :=
        List.flatMap_cons
      have houter (s t : CString) : sedSubstitute c ['\\', c] (s ++ t) =
          sedSubstitute c ['\\', c] s ++ sedSubstitute c ['\\', c] t := List.flatMap_append
      rw [hinner, houter, ih, backslashed, backslashed, List.flatMap_cons]
      refine congrArg (· ++ _) ?_
      by_cases hslash : d = '\\'
      · subst hslash
        simp [sedSubstitute, Ne.symm hc]
      · by_cases hother : d = c
        · simp [sedSubstitute, hother, hc]
        · simp [sedSubstitute, hslash, hother]

end Shell
