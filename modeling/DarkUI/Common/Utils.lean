import DarkUI.Common.Defines
import DarkUI.Foundation.Lines
import Mathlib.Data.List.DropRight

/-! # Names and lines -/

namespace DarkUI

open Text

def prefixMatch (pre str : CString) : Bool := (lower pre).isPrefixOf (lower str)

def suffixMatch (suf str : CString) : Bool := (lower suf).isSuffixOf (lower str)

def exactMatch (str1 str2 : CString) : Bool := str1 == str2

/-- `strrchr(path, '/')+1`, on paths that have a slash. -/
def baseName (path : CString) : CString :=
  match splitLast '/' path with
  | some (_, name) => name
  | none => path

theorem slash_not_mem_baseName (path : CString) : '/' ∉ baseName path := by
  unfold baseName
  split
  next hsplit => exact (splitLast_eq_some.mp hsplit).2
  next hsplit => exact splitLast_eq_none.mp hsplit

/-- The path up to and including its last slash. -/
def basePath (path : CString) : CString :=
  match splitLast '/' path with
  | some (parent, _) => parent ++ ['/']
  | none => []

/-- The path cut at its last slash. -/
def parentPath (path : CString) : CString :=
  match splitLast '/' path with
  | some (parent, _) => parent
  | none => path

def hide (fileName : CString) : Bool :=
  fileName.head? == some '.' || suffixMatch ".disabled".toList fileName ||
    exactMatch "map.txt".toList fileName

/-- `isspace` in the C locale. -/
def isSpace (c : Char) : Bool :=
  c == ' ' || ('\t' ≤ c && c ≤ '\r')

/-- The loop that drops extensions of one to four letters. Every round shortens the
name, so its length bounds the rounds. -/
def stripExtensions : Nat → CString → CString
  | 0, name => name
  | rounds + 1, name =>
      match splitLast '.' name with
      | some (stem, extension) =>
          if 2 < extension.length + 1 ∧ extension.length + 1 ≤ 5 then stripExtensions rounds stem
          else name
      | none => name

/-- The last opening parenthesis, or the last opening bracket if there is none. -/
def lastParen (name : CString) : Option CString :=
  match splitLast '(' name with
  | some (stem, _) => some stem
  | none => (splitLast '[' name).map Prod.fst

/-- The loop that drops trailing parentheses, keeping one that starts the name. -/
def stripParens : Nat → CString → CString
  | 0, name => name
  | rounds + 1, name =>
      match lastParen name with
      | some [] => name
      | some stem => stripParens rounds stem
      | none => name

/-- Trailing white space is dropped, but never the first character. -/
def trimTrailingSpace : CString → CString
  | [] => []
  | c :: rest => c :: rest.rdropWhile isSpace

def getDisplayName (device : Device) (inName : CString) : CString :=
  let workName :=
    if suffixMatch ('/' :: device.platform) inName then parentPath inName else inName
  let fileName :=
    match splitLast '/' workName with
    | some (_, name) => name
    | none => inName
  let stem := stripExtensions fileName.length fileName
  let bare := stripParens stem.length stem
  trimTrailingSpace (if bare = [] then stem else bare)

/-- The folder below Roms if the path is there, and the tag in its last
parentheses if it has any. -/
def getEmuName (inName : CString) : CString :=
  let folder :=
    if prefixMatch romsPath inName then
      (inName.drop (romsPath.length + 1)).takeWhile (· != '/')
    else inName
  match splitLast '(' folder with
  | some (_, tag) => tag.takeWhile (· != ')')
  | none => folder

def normalizeNewline (line : CString) : CString :=
  match line.reverse with
  | '\n' :: '\r' :: rest => rest.reverse ++ ['\n']
  | _ => line

def trimTrailingNewlines (line : CString) : CString := line.rdropWhile (· == '\n')

/-- A line as the readers see it: cut at a NUL and stripped of its ending. -/
def readLine (piece : CString) : CString :=
  trimTrailingNewlines (normalizeNewline (untilNul piece))

/-- `fgets(line,256,file)` and the line-ending functions, to the end of the file. -/
def readLines (content : CString) : List CString := (pieces 256 content).map readLine

/-- The lines that are not empty. -/
def nonEmptyLines (content : CString) : List CString :=
  (readLines content).filter (· ≠ [])

theorem readLine_sublist_untilNul (piece : CString) :
    (readLine piece).Sublist (untilNul piece) := by
  have hnormal : (normalizeNewline (untilNul piece)).Sublist (untilNul piece) := by
    unfold normalizeNewline
    split
    next rest heq =>
      have hline : untilNul piece = rest.reverse ++ ['\r', '\n'] := by
        rw [← List.reverse_reverse (untilNul piece), heq]
        simp
      rw [hline]
      exact List.Sublist.append (List.Sublist.refl _) (by simp)
    next => exact List.Sublist.refl _
  exact (List.rdropWhile_prefix _ _).sublist.trans hnormal

/-- Reading a line invents nothing. -/
theorem readLine_sublist (piece : CString) : (readLine piece).Sublist piece :=
  (readLine_sublist_untilNul piece).trans (List.takeWhile_sublist _)

/-- Reading a file line by line invents no character. -/
theorem countP_readLines_le (p : Char → Bool) (content : CString) :
    (readLines content).flatten.countP p ≤ content.countP p := by
  conv_rhs => rw [← pieces_flatten 256 content]
  unfold readLines
  induction pieces 256 content with
  | nil => simp
  | cons piece rest ih =>
      simp only [List.map_cons, List.flatten_cons, List.countP_append]
      exact Nat.add_le_add (readLine_sublist piece).countP_le ih

/-- A line that is not empty does not end in a newline, so it has another character. -/
theorem countP_readLine_pos {piece : CString} (h : readLine piece ≠ []) :
    0 < (readLine piece).countP (· != '\n') := by
  rw [List.countP_pos_iff]
  refine ⟨(readLine piece).getLast h, List.getLast_mem h, ?_⟩
  have hlast := List.rdropWhile_last_not (· == '\n') (normalizeNewline (untilNul piece)) h
  simpa [readLine, trimTrailingNewlines] using hlast

/-- Readers stop at a NUL. -/
theorem nul_not_mem_readLine (piece : CString) : '\x00' ∉ readLine piece := by
  intro hmem
  have hread : (readLine piece).Sublist (untilNul piece) := readLine_sublist_untilNul piece
  simpa using List.mem_takeWhile_imp (hread.subset hmem)

theorem fits_of_mem_nonEmptyLines {content line : CString} (h : line ∈ nonEmptyLines content) :
    line ≠ [] ∧ line.length ≤ 255 ∧ '\x00' ∉ line := by
  simp only [nonEmptyLines, readLines, List.mem_filter, List.mem_map, decide_eq_true_eq] at h
  obtain ⟨⟨piece, hpiece, rfl⟩, hne⟩ := h
  refine ⟨hne, ?_, nul_not_mem_readLine piece⟩
  exact (readLine_sublist piece).length_le.trans (length_le_of_mem_pieces (by omega) hpiece)

theorem rdropWhile_newline {s : CString} (hline : '\n' ∉ s) : s.rdropWhile (· == '\n') = s := by
  rw [List.rdropWhile_eq_self_iff]
  intro hne
  have hlast : s.getLast hne ≠ '\n' := fun heq => hline (heq ▸ List.getLast_mem hne)
  simpa using hlast

/-- What is read of a line when no carriage return is taken with its newline. -/
theorem readLine_newline {s : CString} (hline : '\n' ∉ s) (hnul : '\x00' ∉ s)
    (hcr : s.getLast? ≠ some '\r') : readLine (s ++ ['\n']) = s := by
  have huntil : untilNul (s ++ ['\n']) = s ++ ['\n'] := untilNul_eq_self (by simp [hnul])
  have hnormal : normalizeNewline (s ++ ['\n']) = s ++ ['\n'] := by
    unfold normalizeNewline
    split
    next rest heq =>
      rw [List.reverse_append, List.reverse_singleton, List.singleton_append,
        List.cons.injEq] at heq
      refine absurd ?_ hcr
      rw [List.getLast?_eq_head?_reverse, heq.2]
      rfl
    next => rfl
  rw [readLine, huntil, hnormal, trimTrailingNewlines, List.rdropWhile_concat_pos _ _ _ (by rfl)]
  exact rdropWhile_newline hline

/-- A carriage return before the newline goes with it. -/
theorem readLine_crlf {s : CString} (hline : '\n' ∉ s) (hnul : '\x00' ∉ s) :
    readLine (s ++ ['\r', '\n']) = s := by
  have huntil : untilNul (s ++ ['\r', '\n']) = s ++ ['\r', '\n'] :=
    untilNul_eq_self (by simp [hnul])
  have hnormal : normalizeNewline (s ++ ['\r', '\n']) = s ++ ['\n'] := by
    simp [normalizeNewline]
  rw [readLine, huntil, hnormal, trimTrailingNewlines, List.rdropWhile_concat_pos _ _ _ (by rfl)]
  exact rdropWhile_newline hline

/-- Nothing after a NUL is read. -/
theorem readLine_append_of_nul {s : CString} (hnul : '\x00' ∈ s) (rest : CString) :
    readLine (s ++ rest) = readLine s := by
  obtain ⟨before, after, rfl, hbefore⟩ := List.eq_append_cons_of_mem hnul
  rw [readLine, readLine, List.append_assoc, List.cons_append, untilNul_append_nul hbefore,
    untilNul_append_nul hbefore]

theorem readLine_full {s : CString} (hline : '\n' ∉ s) (hnul : '\x00' ∉ s) : readLine s = s := by
  have hnormal : normalizeNewline s = s := by
    unfold normalizeNewline
    split
    next rest heq =>
      refine absurd ?_ hline
      rw [← List.mem_reverse, heq]
      simp
    next => rfl
  rw [readLine, untilNul_eq_self hnul, hnormal]
  exact rdropWhile_newline hline

/-- The newline of a line is never part of what is read of it. -/
theorem newline_not_mem_readLine {size : Nat} {content piece : CString}
    (h : piece ∈ pieces size content) : '\n' ∉ readLine piece := by
  obtain ⟨s, hs, rfl | rfl⟩ := newline_not_mem_of_mem_pieces h
  · exact fun hmem => hs ((readLine_sublist _).subset hmem)
  · by_cases hnul : '\x00' ∈ s
    · rw [readLine_append_of_nul hnul]
      exact fun hmem => hs ((readLine_sublist _).subset hmem)
    · by_cases hcr : s.getLast? = some '\r'
      · obtain ⟨t, rfl⟩ := List.getLast?_eq_some_iff.mp hcr
        have ht : '\n' ∉ t ∧ '\x00' ∉ t := by simp_all
        rw [List.append_assoc, List.singleton_append, readLine_crlf ht.1 ht.2]
        exact ht.1
      · rw [readLine_newline hs hnul hcr]
        exact hs

/-- A file is read line by line. -/
theorem nonEmptyLines_append_newline (s rest : CString) :
    nonEmptyLines (s ++ '\n' :: rest) = nonEmptyLines (s ++ ['\n']) ++ nonEmptyLines rest := by
  rw [nonEmptyLines, readLines, pieces, piecesFrom_append_newline, List.map_append,
    List.filter_append]
  rfl

/-- A line of at most 255 characters is read whole. -/
theorem nonEmptyLines_line {s : CString} (hne : s ≠ []) (hline : '\n' ∉ s) (hnul : '\x00' ∉ s)
    (hlength : s.length ≤ 255) (hcr : s.length < 255 → s.getLast? ≠ some '\r') :
    nonEmptyLines (s ++ ['\n']) = [s] := by
  rcases hlength.lt_or_eq with hshort | hfull
  · have hpieces : pieces 256 (s ++ ['\n']) = [s ++ ['\n']] := by
      simpa [pieces] using @piecesFrom_line 256 255 [] s hline hshort
    simp [nonEmptyLines, readLines, hpieces, readLine_newline hline hnul (hcr hshort), hne]
  · have hpieces : pieces 256 (s ++ ['\n']) = [s, ['\n']] := by
      simpa [pieces] using @piecesFrom_full 256 255 [] s hline hne hfull
    have hempty : readLine ['\n'] = [] := by decide
    simp [nonEmptyLines, readLines, hpieces, readLine_full hline hnul, hempty, hne]

example : getDisplayName rg35xx "/mnt/sdcard/Roms/Game Boy Color (GBC)".toList =
    "Game Boy Color".toList := by decide

example : getEmuName "/mnt/sdcard/Roms/Game Boy Color (GBC)/Tetris.gb".toList =
    "GBC".toList := by decide

end DarkUI
