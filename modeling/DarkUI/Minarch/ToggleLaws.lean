import DarkUI.Minarch.SaveFileLaws

/-! # What a toggle does to a collection

A game that is listed is taken out by writing the other lines anew; one that is not is
printed at the end of the file. Either way the collection keeps its other games as long as
each line that is printed comes back as it was read.
-/

namespace DarkUI.Minarch.Menu

open Text Stdio

/-- A printed line that comes back whole. -/
def ReadsBack (line : CString) : Prop :=
  line.length ≤ 255 ∧ (line.length < 255 → line.getLast? ≠ some '\r')

instance (line : CString) : Decidable (ReadsBack line) := inferInstanceAs (Decidable (_ ∧ _))

/-- The other games of a collection. -/
def others (content rel : CString) : List CString :=
  (nonEmptyLines content).filter (· ≠ rel)

/-- The text a toggle leaves. -/
def toggled (content rel : CString) : CString :=
  if rel ∈ nonEmptyLines content then (keptChunks content rel).flatten
  else content ++ addedChunk rel

/-- Membership flips, and the other games stay as they are. -/
structure Flipped (before after rel : CString) : Prop where
  listed : rel ∈ nonEmptyLines after ↔ rel ∉ nonEmptyLines before
  others : others after rel = others before rel

/-- What is printed comes back: every other line, if the game is listed; else the game, at
the end of a file whose last line is finished. The one unfinished line that stays is one the
game's own line of 255 characters continues with itself. -/
def TogglesWhole (content rel : CString) : Prop :=
  if rel ∈ nonEmptyLines content then ∀ line ∈ others content rel, ReadsBack line
  else if unfinished 256 content = [] then ReadsBack rel
  else rel.length = 255 ∧ unfinished 256 content ++ rel = rel ++ unfinished 256 content ∧
    ReadsBack (unfinished 256 content)

instance (content rel : CString) : Decidable (TogglesWhole content rel) := by
  unfold TogglesWhole
  infer_instance

variable {content rel line : CString}

/-- The membership test finds the lines that the launcher looks at. -/
theorem any_exactMatch (hrel : rel ≠ []) :
    (readLines content).any (exactMatch · rel) = decide (rel ∈ nonEmptyLines content) := by
  rw [Bool.eq_iff_iff, decide_eq_true_eq]
  simp only [exactMatch, List.any_eq_true, beq_iff_eq, nonEmptyLines, List.mem_filter,
    decide_eq_true_eq]
  constructor
  · rintro ⟨line, hline, rfl⟩
    exact ⟨hline, hrel⟩
  · rintro ⟨hline, -⟩
    exact ⟨rel, hline, rfl⟩

theorem keptLines_eq (content rel : CString) : keptLines content rel = others content rel := by
  simp only [keptLines, others, nonEmptyLines, List.filter_filter, exactMatch]
  congr 1
  funext line
  simp [and_comm]

theorem others_filter (content rel : CString) :
    (others content rel).filter (· ≠ rel) = others content rel := by
  simp [others, List.filter_filter]

theorem filter_ne_self {lines : List CString} (h : rel ∉ lines) :
    lines.filter (· ≠ rel) = lines := by
  rw [List.filter_eq_self]
  intro line hline
  exact decide_eq_true fun heq => h (heq ▸ hline)

/-! ## Lines printed -/

/-- What a reader gets as a line. -/
structure Plain (line : CString) : Prop where
  ne : line ≠ []
  newline : '\n' ∉ line
  nul : '\x00' ∉ line
  fits : line.length ≤ 255

theorem plain_of_mem (h : line ∈ nonEmptyLines content) : Plain line := by
  obtain ⟨hne, hlength, hnul⟩ := fits_of_mem_nonEmptyLines h
  obtain ⟨piece, hpiece, rfl⟩ := List.mem_map.mp (List.mem_filter.mp h).1
  exact ⟨hne, newline_not_mem_readLine hpiece, hnul, hlength⟩

namespace Plain

theorem whole (h : Plain line) (hback : ReadsBack line) :
    nonEmptyLines (line ++ ['\n']) = [line] :=
  nonEmptyLines_line h.ne h.newline h.nul hback.1 hback.2

/-- A line that does not come back whole loses its carriage return. -/
theorem length_lt (h : Plain line) (hcut : ¬ ReadsBack line) :
    (nonEmptyLines (line ++ ['\n'])).flatten.length < line.length := by
  have hbad : line.length < 255 ∧ line.getLast? = some '\r' := by
    simpa [ReadsBack, h.fits] using hcut
  obtain ⟨s, rfl⟩ := List.getLast?_eq_some_iff.mp hbad.2
  have hnewline : '\n' ∉ s := fun hmem => h.newline (List.mem_append_left _ hmem)
  have hnul : '\x00' ∉ s := fun hmem => h.nul (List.mem_append_left _ hmem)
  have hpieces : pieces 256 (s ++ ['\r'] ++ ['\n']) = [s ++ ['\r'] ++ ['\n']] := by
    simpa [pieces] using @piecesFrom_line 256 255 [] (s ++ ['\r']) h.newline hbad.1
  have hread : readLine (s ++ ['\r'] ++ ['\n']) = s := by
    rw [List.append_assoc]
    exact readLine_crlf hnewline hnul
  rw [nonEmptyLines, readLines, hpieces, List.map_singleton, hread]
  calc ([s].filter (· ≠ [])).flatten.length
      ≤ [s].flatten.length := (List.Sublist.flatten List.filter_sublist).length_le
    _ < (s ++ ['\r']).length := by simp

theorem length_le (h : Plain line) :
    (nonEmptyLines (line ++ ['\n'])).flatten.length ≤ line.length := by
  by_cases hback : ReadsBack line
  · simp [h.whole hback]
  · exact (h.length_lt hback).le

end Plain

section Printing

variable {lines : List CString}

/-- Lines printed one after the other are read back one after the other. -/
theorem nonEmptyLines_printed_cons (line : CString) (lines : List CString) :
    nonEmptyLines ((line :: lines).map (· ++ ['\n'])).flatten =
      nonEmptyLines (line ++ ['\n']) ++ nonEmptyLines (lines.map (· ++ ['\n'])).flatten := by
  rw [List.map_cons, List.flatten_cons, List.append_assoc, List.singleton_append,
    nonEmptyLines_append_newline]

theorem length_printed_le (hplain : ∀ line ∈ lines, Plain line) :
    (nonEmptyLines (lines.map (· ++ ['\n'])).flatten).flatten.length ≤ lines.flatten.length := by
  induction lines with
  | nil => simp [nonEmptyLines, readLines, pieces, piecesFrom]
  | cons line rest ih =>
      obtain ⟨hfirst, hlater⟩ := List.forall_mem_cons.mp hplain
      have hline := hfirst.length_le
      have hrest := ih hlater
      rw [nonEmptyLines_printed_cons, List.flatten_append, List.length_append, List.flatten_cons,
        List.length_append]
      omega

/-- Only lines that come back whole leave as many characters as were printed. -/
theorem readsBack_of_length_le (hplain : ∀ line ∈ lines, Plain line)
    (hlength : lines.flatten.length ≤
      (nonEmptyLines (lines.map (· ++ ['\n'])).flatten).flatten.length) :
    ∀ line ∈ lines, ReadsBack line := by
  induction lines with
  | nil => simp
  | cons line rest ih =>
      obtain ⟨hfirst, hlater⟩ := List.forall_mem_cons.mp hplain
      have hline := hfirst.length_le
      have hrest := length_printed_le hlater
      rw [nonEmptyLines_printed_cons, List.flatten_append, List.length_append, List.flatten_cons,
        List.length_append] at hlength
      refine List.forall_mem_cons.mpr ⟨?_, ih hlater (by omega)⟩
      by_contra hcut
      have hless := hfirst.length_lt hcut
      omega

theorem printed_whole (hplain : ∀ line ∈ lines, Plain line)
    (hback : ∀ line ∈ lines, ReadsBack line) :
    nonEmptyLines (lines.map (· ++ ['\n'])).flatten = lines := by
  induction lines with
  | nil => rfl
  | cons line rest ih =>
      obtain ⟨hfirst, hlater⟩ := List.forall_mem_cons.mp hplain
      obtain ⟨hwhole, hrest⟩ := List.forall_mem_cons.mp hback
      rw [nonEmptyLines_printed_cons, hfirst.whole hwhole, ih hlater hrest]
      rfl

end Printing

/-! ## Taking a game out -/

theorem flipped_of_listed (hlisted : rel ∈ nonEmptyLines content) :
    Flipped content (toggled content rel) rel ↔ TogglesWhole content rel := by
  have hplain : ∀ line ∈ others content rel, Plain line := fun line hline =>
    plain_of_mem (List.mem_filter.mp hline).1
  rw [toggled, if_pos hlisted, TogglesWhole, if_pos hlisted, keptChunks, keptLines_eq]
  constructor
  · intro hflipped
    apply readsBack_of_length_le hplain
    calc (others content rel).flatten.length
        = (others ((others content rel).map (· ++ ['\n'])).flatten rel).flatten.length := by
          rw [hflipped.others]
      _ ≤ _ := (List.Sublist.flatten List.filter_sublist).length_le
  · intro hback
    have hwhole := printed_whole hplain hback
    refine ⟨?_, ?_⟩
    · rw [hwhole]
      simp [others, hlisted]
    · rw [others, hwhole, others_filter]

/-! ## Adding a game -/

/-- The lines read of some pieces. -/
def readPieces (pieces : List CString) : List CString := (pieces.map readLine).filter (· ≠ [])

theorem readPieces_append (first second : List CString) :
    readPieces (first ++ second) = readPieces first ++ readPieces second := by
  simp [readPieces]

theorem mem_readPieces_singleton {piece : CString} :
    line ∈ readPieces [piece] ↔ readLine piece ≠ [] ∧ line = readLine piece := by
  simp only [readPieces, List.map_singleton, List.mem_filter, List.mem_singleton,
    decide_eq_true_eq]
  constructor
  · rintro ⟨rfl, hne⟩
    exact ⟨hne, rfl⟩
  · rintro ⟨hne, rfl⟩
    exact ⟨rfl, hne⟩

/-- What is read from the unfinished line on, once the game has been printed after it. -/
def addedTail (unfinished rel : CString) : List CString :=
  readPieces (piecesFrom 256 (255 - unfinished.length) unfinished (addedChunk rel))

theorem nonEmptyLines_eq (content : CString) :
    nonEmptyLines content =
      readPieces (finished 256 content) ++ readPieces [unfinished 256 content] := by
  have hempty : readPieces [] = readPieces [[]] := by decide
  rw [← readPieces_append, nonEmptyLines, readLines, pieces_eq (by omega)]
  change readPieces _ = _
  split
  next hnone => rw [hnone, readPieces_append, hempty, ← readPieces_append]
  next => rfl

theorem nonEmptyLines_added (content rel : CString) :
    nonEmptyLines (content ++ addedChunk rel) =
      readPieces (finished 256 content) ++ addedTail (unfinished 256 content) rel := by
  rw [nonEmptyLines, readLines, pieces_append (by omega), List.map_append, List.filter_append]
  rfl

/-- The addition is judged by the lines from the unfinished one on. -/
theorem flipped_of_unlisted (hunlisted : rel ∉ nonEmptyLines content) :
    Flipped content (content ++ addedChunk rel) rel ↔
      rel ∈ addedTail (unfinished 256 content) rel ∧
        (addedTail (unfinished 256 content) rel).filter (· ≠ rel) =
          readPieces [unfinished 256 content] := by
  rw [nonEmptyLines_eq, List.mem_append, not_or] at hunlisted
  obtain ⟨hfinished, hlast⟩ := hunlisted
  have hlisted : rel ∈ nonEmptyLines (content ++ addedChunk rel) ↔
      rel ∈ addedTail (unfinished 256 content) rel := by
    rw [nonEmptyLines_added, List.mem_append]
    simp [hfinished]
  have hothers : others (content ++ addedChunk rel) rel = others content rel ↔
      (addedTail (unfinished 256 content) rel).filter (· ≠ rel) =
        readPieces [unfinished 256 content] := by
    rw [others, others, nonEmptyLines_added, nonEmptyLines_eq, List.filter_append,
      List.filter_append, filter_ne_self hlast, List.append_cancel_left_eq]
  have hnot : rel ∉ nonEmptyLines content := by
    rw [nonEmptyLines_eq, List.mem_append, not_or]
    exact ⟨hfinished, hlast⟩
  rw [← hlisted, ← hothers]
  exact ⟨fun h => ⟨h.listed.mpr hnot, h.others⟩, fun h => ⟨iff_of_true h.1 hnot, h.2⟩⟩

section Tail

variable {last : CString}

/-- A game's path, as the emulator can be given it. -/
structure Printable (rel : CString) : Prop where
  ne : rel ≠ []
  newline : '\n' ∉ rel
  nul : '\x00' ∉ rel

theorem not_mem_of_shorter {s : CString} (hline : '\n' ∉ rel) (hshort : s.length < rel.length) :
    rel ∉ nonEmptyLines (s ++ ['\n']) := by
  intro hmem
  have hsub := List.sublist_flatten_of_mem (List.mem_filter.mp hmem).1
  have hall : rel.countP (· != '\n') = rel.length := by
    rw [List.countP_eq_length]
    intro c hc
    have hne : c ≠ '\n' := fun heq => hline (heq ▸ hc)
    simpa using hne
  have hcount := calc rel.countP (· != '\n')
      ≤ (readLines (s ++ ['\n'])).flatten.countP (· != '\n') := hsub.countP_le
    _ ≤ (s ++ ['\n']).countP (· != '\n') := countP_readLines_le _ _
    _ = s.countP (· != '\n') := by simp
    _ ≤ s.length := List.countP_le_length
  omega

/-- At the end of a finished line, the game is a line of its own. -/
theorem addedTail_finished (hrel : Printable rel) (hback : ReadsBack rel) :
    addedTail [] rel = [rel] :=
  Plain.whole ⟨hrel.ne, hrel.newline, hrel.nul, hback.1⟩ hback

theorem added_finished (hrel : Printable rel) :
    (rel ∈ addedTail [] rel ∧ (addedTail [] rel).filter (· ≠ rel) = readPieces [[]]) ↔
      ReadsBack rel := by
  have hempty : readPieces [[]] = [] := by decide
  rw [hempty]
  constructor
  · rintro ⟨hmem, -⟩
    have hplain := @plain_of_mem (rel ++ ['\n']) rel hmem
    by_contra hcut
    have hless := hplain.length_lt hcut
    have hsub := (List.sublist_flatten_of_mem hmem).length_le
    exact absurd (hsub.trans_lt hless) (lt_irrefl _)
  · intro hback
    rw [addedTail_finished hrel hback]
    simp

/-- In a line that still has place for the whole game, the two become one. -/
theorem added_short (hrel : Printable rel) (hne : last ≠ []) (hline : '\n' ∉ last)
    (hroom : last.length + rel.length < 255) :
    ¬ (rel ∈ addedTail last rel ∧ (addedTail last rel).filter (· ≠ rel) = readPieces [last]) := by
  rintro ⟨hmem, hsame⟩
  have htail : addedTail last rel = readPieces [last ++ rel ++ ['\n']] := by
    rw [addedTail, addedChunk, piecesFrom_line hrel.newline (by omega)]
  rw [htail] at hmem hsame
  obtain ⟨hfull, heq⟩ := mem_readPieces_singleton.mp hmem
  have hnone : readPieces [last] = [] := by
    rw [← hsame, List.filter_eq_nil_iff]
    intro line hmem
    rw [(mem_readPieces_singleton.mp hmem).2, ← heq]
    simp
  have hread : readLine last = [] := by
    by_contra hsome
    have hmem := mem_readPieces_singleton.mpr ⟨hsome, rfl⟩
    rw [hnone] at hmem
    exact List.not_mem_nil hmem
  by_cases hnul : '\x00' ∈ last
  · rw [List.append_assoc, readLine_append_of_nul hnul] at hfull
    exact hfull hread
  · exact hne (readLine_full hline hnul ▸ hread)

/-- In a line that the game fills, its rest starts another. -/
theorem addedTail_fills (hrel : Printable rel) (hlength : last.length < 255)
    (hroom : 255 ≤ last.length + rel.length) :
    addedTail last rel = readPieces [last ++ rel.take (255 - last.length)] ++
      nonEmptyLines (rel.drop (255 - last.length) ++ ['\n']) := by
  have hsplit : addedChunk rel = rel.take (255 - last.length) ++
      (rel.drop (255 - last.length) ++ ['\n']) := by
    rw [← List.append_assoc, List.take_append_drop, addedChunk]
  have htake : (rel.take (255 - last.length)).length = 255 - last.length := by
    rw [List.length_take]
    omega
  have hnonempty : rel.take (255 - last.length) ≠ [] :=
    List.ne_nil_of_length_pos (by omega)
  rw [addedTail, hsplit, piecesFrom_fills
    (fun hmem => hrel.newline (List.mem_of_mem_take hmem)) hnonempty htake]
  exact readPieces_append [_] _

/-- Two halves of a line change places just when it continues with itself. -/
theorem append_comm_iff (hlength : last.length < 255) (hrel : rel.length = 255) :
    last ++ rel = rel ++ last ↔
      rel = last ++ rel.take (255 - last.length) ∧ rel.drop (255 - last.length) = last := by
  constructor
  · intro hcomm
    have htake := congrArg (List.take 255) hcomm
    have hdrop := congrArg (List.drop 255) hcomm
    rw [List.take_append, List.take_of_length_le (by omega), List.take_left' hrel] at htake
    rw [List.drop_append, List.drop_eq_nil_of_le (by omega), List.drop_left' hrel,
      List.nil_append] at hdrop
    exact ⟨htake.symm, hdrop⟩
  · rintro ⟨hfirst, hrest⟩
    calc last ++ rel
        = last ++ (rel.take (255 - last.length) ++ rel.drop (255 - last.length)) := by
          rw [List.take_append_drop]
      _ = rel ++ last := by rw [← List.append_assoc, ← hfirst, hrest]

/-- A game that continues the unfinished line with itself leaves it as the next one. -/
theorem addedTail_repeats (hrel : Printable rel) (hne : last ≠ []) (hlength : last.length < 255)
    (hfull : rel.length = 255) (hcomm : last ++ rel = rel ++ last) (hback : ReadsBack last) :
    addedTail last rel = rel :: readPieces [last] := by
  obtain ⟨hfirst, hend⟩ := (append_comm_iff hlength hfull).mp hcomm
  have hline : '\n' ∉ last := fun hmem =>
    hrel.newline (hfirst ▸ List.mem_append_left _ hmem)
  have hnul : '\x00' ∉ last := fun hmem => hrel.nul (hfirst ▸ List.mem_append_left _ hmem)
  have hplain : Plain last := ⟨hne, hline, hnul, hlength.le⟩
  have hread : readPieces [rel] = [rel] := by
    simp [readPieces, readLine_full hrel.newline hrel.nul, hrel.ne]
  have hlast : readPieces [last] = [last] := by
    simp [readPieces, readLine_full hline hnul, hne]
  rw [addedTail_fills hrel hlength (by omega), ← hfirst, hend, hplain.whole hback, hread, hlast]
  rfl

/-- Where the game fills the last line and the rest reads as before, the two are one line. -/
theorem repeats_of_added (hrel : Printable rel) (hne : last ≠ []) (hline : '\n' ∉ last)
    (hlength : last.length < 255) (hroom : 255 ≤ last.length + rel.length)
    (hunlisted : rel ∉ readPieces [last]) (hmem : rel ∈ addedTail last rel)
    (hsame : (addedTail last rel).filter (· ≠ rel) = readPieces [last]) :
    rel.length = 255 ∧ last ++ rel = rel ++ last ∧ ReadsBack last := by
  have hpos := List.length_pos_iff.mpr hne
  have hrest : rel ∉ nonEmptyLines (rel.drop (255 - last.length) ++ ['\n']) :=
    not_mem_of_shorter hrel.newline (by rw [List.length_drop]; omega)
  rw [addedTail_fills hrel hlength hroom, List.mem_append, or_iff_left hrest,
    mem_readPieces_singleton] at hmem
  have hnul : '\x00' ∉ last := by
    intro hnul
    rw [readLine_append_of_nul hnul] at hmem
    exact hunlisted (mem_readPieces_singleton.mpr hmem)
  -- The first piece of the filled line has to be the game, and the second the last line.
  have hfirst : readLine (last ++ rel.take (255 - last.length)) =
      last ++ rel.take (255 - last.length) := by
    apply readLine_full
    · rw [List.mem_append, not_or]
      exact ⟨hline, fun hmem => hrel.newline (List.mem_of_mem_take hmem)⟩
    · rw [List.mem_append, not_or]
      exact ⟨hnul, fun hmem => hrel.nul (List.mem_of_mem_take hmem)⟩
  have heq : rel = last ++ rel.take (255 - last.length) := hmem.2.trans hfirst
  have hfull : rel.length = 255 := by
    have hsum := congrArg List.length heq
    rw [List.length_append, List.length_take] at hsum
    omega
  have hgone : (readPieces [last ++ rel.take (255 - last.length)]).filter (· ≠ rel) = [] := by
    rw [List.filter_eq_nil_iff]
    intro line hline
    rw [(mem_readPieces_singleton.mp hline).2, ← hmem.2]
    simp
  have hlast : readPieces [last] = [last] := by
    simp [readPieces, readLine_full hline hnul, hne]
  rw [addedTail_fills hrel hlength hroom, List.filter_append, hgone, List.nil_append,
    filter_ne_self hrest, hlast] at hsame
  have hend : Plain (rel.drop (255 - last.length)) := by
    refine ⟨?_, fun hmem => hrel.newline (List.mem_of_mem_drop hmem),
      fun hmem => hrel.nul (List.mem_of_mem_drop hmem), ?_⟩
    · apply List.ne_nil_of_length_pos
      rw [List.length_drop]
      omega
    · rw [List.length_drop]
      omega
  have hback : ReadsBack (rel.drop (255 - last.length)) := by
    by_contra hcut
    have hless := hend.length_lt hcut
    rw [hsame, List.length_drop] at hless
    simp at hless
    omega
  rw [hend.whole hback, List.singleton_inj] at hsame
  exact ⟨hfull, (append_comm_iff hlength hfull).mpr ⟨heq, hsame⟩, hsame ▸ hback⟩

/-- In a line that the game fills, the two are one line of 255 characters. -/
theorem added_long (hrel : Printable rel) (hne : last ≠ []) (hline : '\n' ∉ last)
    (hlength : last.length < 255) (hroom : 255 ≤ last.length + rel.length)
    (hunlisted : rel ∉ readPieces [last]) :
    (rel ∈ addedTail last rel ∧ (addedTail last rel).filter (· ≠ rel) = readPieces [last]) ↔
      rel.length = 255 ∧ last ++ rel = rel ++ last ∧ ReadsBack last := by
  constructor
  · rintro ⟨hmem, hsame⟩
    exact repeats_of_added hrel hne hline hlength hroom hunlisted hmem hsame
  · rintro ⟨hfull, hcomm, hback⟩
    rw [addedTail_repeats hrel hne hlength hfull hcomm hback]
    refine ⟨List.mem_cons_self, ?_⟩
    rw [List.filter_cons_of_neg (by simp), filter_ne_self hunlisted]

end Tail

/-- A toggle flips a game and leaves the others alone just when what it prints comes back. -/
theorem flipped_iff (hrel : Printable rel) :
    Flipped content (toggled content rel) rel ↔ TogglesWhole content rel := by
  by_cases hlisted : rel ∈ nonEmptyLines content
  · exact flipped_of_listed hlisted
  have hlast : rel ∉ readPieces [unfinished 256 content] := by
    rw [nonEmptyLines_eq, List.mem_append, not_or] at hlisted
    exact hlisted.2
  obtain ⟨hline, hlength⟩ := @unfinished_spec 256 (by omega) content
  rw [toggled, if_neg hlisted, TogglesWhole, if_neg hlisted, flipped_of_unlisted hlisted]
  by_cases hfinished : unfinished 256 content = []
  · rw [if_pos hfinished, hfinished]
    exact added_finished hrel
  · rw [if_neg hfinished]
    by_cases hroom : (unfinished 256 content).length + rel.length < 255
    · refine iff_of_false (added_short hrel hfinished hline hroom) ?_
      rintro ⟨hfull, -⟩
      omega
    · exact added_long hrel hfinished hline hlength (by omega) hlast

/-- A game that is added as it should be is one line more. -/
theorem nonEmptyLines_added_perm (hrel : Printable rel) (hunlisted : rel ∉ nonEmptyLines content)
    (hwhole : TogglesWhole content rel) :
    (nonEmptyLines (content ++ addedChunk rel)).Perm (rel :: nonEmptyLines content) := by
  obtain ⟨-, hlength⟩ := @unfinished_spec 256 (by omega) content
  rw [TogglesWhole, if_neg hunlisted] at hwhole
  have htail : addedTail (unfinished 256 content) rel =
      rel :: readPieces [unfinished 256 content] := by
    by_cases hfinished : unfinished 256 content = []
    · rw [if_pos hfinished] at hwhole
      rw [hfinished, addedTail_finished hrel hwhole]
      rfl
    · rw [if_neg hfinished] at hwhole
      obtain ⟨hfull, hcomm, hback⟩ := hwhole
      exact addedTail_repeats hrel hfinished hlength hfull hcomm hback
  rw [nonEmptyLines_added, htail, nonEmptyLines_eq content]
  exact List.perm_middle

/-- A toggle that is whole lists no game twice. -/
theorem nodup_toggled (hrel : Printable rel) (hwhole : TogglesWhole content rel)
    (hnodup : (nonEmptyLines content).Nodup) : (nonEmptyLines (toggled content rel)).Nodup := by
  by_cases hlisted : rel ∈ nonEmptyLines content
  · have hflipped := (flipped_iff hrel).mpr hwhole
    have hnot : rel ∉ nonEmptyLines (toggled content rel) := fun h =>
      hflipped.listed.mp h hlisted
    have hothers := hflipped.others
    rw [← filter_ne_self hnot]
    change (others (toggled content rel) rel).Nodup
    rw [hothers]
    exact hnodup.filter _
  · rw [toggled, if_neg hlisted, (nonEmptyLines_added_perm hrel hlisted hwhole).nodup_iff]
    exact List.nodup_cons.mpr ⟨hlisted, hnodup⟩

/-! ## The files -/

/-- No step of a toggle fails. -/
structure ToggleOutcome.Complete (io : ToggleOutcome) : Prop where
  remove_fopen : io.remove.fopen = true
  remove_fprintf : ∀ i, ∃ k, io.remove.fprintf i = .complete k
  remove_fclose : io.remove.fclose = .flushed
  remove_rename : io.remove.rename = true
  add_fopen : io.add.fopen = true
  add_fprintf : ∃ k, io.add.fprintf = .complete k
  add_fclose : io.add.fclose = .flushed

/-- The game is listed if it was not and the other way round, the other games of the
collection are those there were, in their order, and the other collections are untouched. -/
structure Toggles (before after : Files CString Char) (name : CollectionName) (rel : CString) :
    Prop where
  listed : inCollection after name rel = !inCollection before name rel
  others : (collectionLines after name).filter (· ≠ rel) =
    (collectionLines before name).filter (· ≠ rel)
  elsewhere : ∀ other, other ≠ name → after (collectionPath other) = before (collectionPath other)

theorem collectionPath_inj {name other : CollectionName}
    (h : collectionPath other = collectionPath name) : other = name := by
  rw [collectionPath_eq, collectionPath_eq, List.append_cancel_right_eq,
    List.append_cancel_left_eq, List.cons.injEq] at h
  exact Subtype.ext h.2

theorem collectionPath_ne_tmpName (name other : CollectionName) :
    collectionPath other ≠ tmpName (collectionPath name) := by
  have hname := name.2
  have htmp : tmpName (collectionPath name) = collectionPath name ++ ".tmp".toList := by
    apply bounded_of_lt
    rw [collectionPath_eq]
    simp only [List.length_append, List.length_cons, maxPath]
    rw [show collectionsPath.length = 23 by decide, show ".txt".toList.length = 4 by decide,
      show ".tmp".toList.length = 4 by decide]
    omega
  rw [htmp, collectionPath_eq other]
  intro heq
  have hend := (List.append_inj' heq rfl).2
  exact absurd hend (by decide)

section Files

variable {files : Files CString Char} {name : CollectionName}

theorem inCollection_eq (hfile : files (collectionPath name) = some content) (hrel : rel ≠ []) :
    inCollection files name rel = decide (rel ∈ nonEmptyLines content) := by
  rw [inCollection, hfile]
  exact any_exactMatch hrel

theorem toggleCollection_self {io : ToggleOutcome} (hio : io.Complete)
    (hfile : files (collectionPath name) = some content) (hrel : rel ≠ []) :
    toggleCollection name rel io files (collectionPath name) = some (toggled content rel) := by
  have hlisted := inCollection_eq hfile hrel
  by_cases hmem : rel ∈ nonEmptyLines content
  · have hcontent := Stream.content_writeAll_complete Stream.opened (keptChunks content rel)
      io.remove.fprintf fun i _ => hio.remove_fprintf i
    rw [Stream.content_opened, List.nil_append] at hcontent
    simp [toggleCollection, removeFromCollection, toggled, hlisted, hmem, hfile, hio.remove_fopen,
      hio.remove_rename, hio.remove_fclose, Stream.fclose, hcontent]
  · obtain ⟨k, hprint⟩ := hio.add_fprintf
    have hcontent := Stream.content_fwrite_complete (⟨content, []⟩ : Stream Char) (addedChunk rel) k
    simp only [Stream.content, List.append_nil] at hcontent
    simp [toggleCollection, addToCollection, toggled, hlisted, hmem, hfile, hio.add_fopen,
      hio.add_fclose, hprint, Stream.fclose, Stream.content, hcontent]

/-- A toggle leaves every other collection alone, whatever fails. -/
theorem toggleCollection_other (rel : CString) (io : ToggleOutcome) (files : Files CString Char)
    {other : CollectionName} (hother : other ≠ name) :
    toggleCollection name rel io files (collectionPath other) = files (collectionPath other) := by
  have hpath : collectionPath other ≠ collectionPath name := fun h => hother (collectionPath_inj h)
  have htmp := collectionPath_ne_tmpName name other
  unfold toggleCollection
  split
  next =>
    unfold removeFromCollection
    cases files (collectionPath name) with
    | none => simp
    | some content =>
        split_ifs
        · rfl
        · rfl
        · simp only [Files.rename_of_ne htmp hpath, Files.put_of_ne htmp]
        · simp only [Files.put_of_ne htmp]
  next =>
    unfold addToCollection
    split_ifs
    · rfl
    · exact Files.put_of_ne hpath

/-- For any collection file and any game, a toggle flips the game and nothing else just when
what it prints comes back as it was. -/
theorem toggleCollection_flips_iff (game : CardPath) (hnewline : '\n' ∉ game.rel)
    (hnul : '\x00' ∉ game.rel) {io : ToggleOutcome} (hio : io.Complete)
    (hfile : files (collectionPath name) = some content) :
    Toggles files (toggleCollection name game.rel io files) name game.rel ↔
      TogglesWhole content game.rel := by
  have hself := toggleCollection_self hio hfile game.rel_ne
  have hbefore := inCollection_eq hfile game.rel_ne
  have hafter := inCollection_eq hself game.rel_ne
  rw [← flipped_iff ⟨game.rel_ne, hnewline, hnul⟩]
  constructor
  · intro h
    have hlisted := h.listed
    have hothers := h.others
    rw [hbefore, hafter, ← decide_not, decide_eq_decide] at hlisted
    rw [collectionLines, collectionLines, hself, hfile] at hothers
    exact ⟨hlisted, hothers⟩
  · intro h
    refine ⟨?_, ?_, fun other hother => toggleCollection_other _ _ _ hother⟩
    · rw [hbefore, hafter, ← decide_not, decide_eq_decide]
      exact h.listed
    · rw [collectionLines, collectionLines, hself, hfile]
      exact h.others

/-! ## A file without a last newline -/

/-- A toggle in which nothing fails. -/
def toggleIo : ToggleOutcome :=
  ⟨⟨true, fun _ => .complete 0, .flushed, true⟩, true, .complete 0, .flushed⟩

def favorites : CollectionName := ⟨"Favorites".toList, by decide⟩

def tetris : CardPath := ⟨"/Roms/GB/Tetris.gb".toList, by decide⟩

/-- A collection of one game, with the line ending of a file edited on a computer. -/
def marioCrlf : Files CString Char := fun _ => some "/Roms/GB/Mario.gb\r\n".toList

/-- A game added to such a file and taken out again. -/
theorem toggle_flips_crlf :
    let added := toggleCollection favorites tetris.rel toggleIo marioCrlf
    Toggles marioCrlf added favorites tetris.rel ∧
      Toggles added (toggleCollection favorites tetris.rel toggleIo added) favorites
        tetris.rel := by
  have hio : toggleIo.Complete :=
    ⟨rfl, fun _ => ⟨0, rfl⟩, rfl, rfl, rfl, ⟨0, rfl⟩, rfl⟩
  have hadded :
      toggleCollection favorites tetris.rel toggleIo marioCrlf (collectionPath favorites) =
        some "/Roms/GB/Mario.gb\r\n/Roms/GB/Tetris.gb\n".toList := by
    decide
  have hfile : marioCrlf (collectionPath favorites) = some "/Roms/GB/Mario.gb\r\n".toList := rfl
  exact ⟨(toggleCollection_flips_iff tetris (by decide) (by decide) hio hfile).mpr (by decide),
    (toggleCollection_flips_iff tetris (by decide) (by decide) hio hadded).mpr (by decide)⟩

/-- The last line has no newline, so the game's path is printed into it. The game is not
listed and the other one is lost. -/
theorem toggle_merges :
    let before : Files CString Char := fun _ => some "/Roms/GB/Mario.gb".toList
    let after := toggleCollection favorites tetris.rel toggleIo before
    inCollection after favorites tetris.rel = false ∧
      collectionLines before favorites = ["/Roms/GB/Mario.gb".toList] ∧
      collectionLines after favorites = ["/Roms/GB/Mario.gb/Roms/GB/Tetris.gb".toList] ∧
      ¬ Toggles before after favorites tetris.rel := by
  have hlost : inCollection (toggleCollection favorites tetris.rel toggleIo
      fun _ => some "/Roms/GB/Mario.gb".toList) favorites tetris.rel = false := by decide
  refine ⟨hlost, by decide, by decide, fun h => ?_⟩
  have hlisted := h.listed
  rw [hlost] at hlisted
  exact absurd hlisted (by decide)

end Files

end DarkUI.Minarch.Menu
