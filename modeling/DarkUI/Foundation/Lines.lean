import DarkUI.Foundation.Text

/-! # Reading a file line by line

Successive `fgets` calls return the pieces of a file: each ends after a newline or
when the array is full.
-/

namespace Text

/-- The rest of the pieces, with `current` already read into an array that has
place for `room` more characters. -/
def piecesFrom (size : Nat) : Nat → CString → CString → List CString
  | _, current, [] => if current = [] then [] else [current]
  | room, current, c :: rest =>
      if c = '\n' ∨ room ≤ 1 then (current ++ [c]) :: piecesFrom size (size - 1) [] rest
      else piecesFrom size (room - 1) (current ++ [c]) rest

/-- What `fgets` returns, call after call, for an array of the given size. -/
def pieces (size : Nat) (content : CString) : List CString :=
  piecesFrom size (size - 1) [] content

theorem piecesFrom_flatten (size room : Nat) (current content : CString) :
    (piecesFrom size room current content).flatten = current ++ content := by
  induction content generalizing room current with
  | nil =>
      by_cases h : current = [] <;> simp [piecesFrom, h]
  | cons c rest ih =>
      unfold piecesFrom
      split
      next => simp [ih]
      next => simp [ih]

/-- Nothing is lost or added between the pieces. -/
theorem pieces_flatten (size : Nat) (content : CString) :
    (pieces size content).flatten = content := by
  simp [pieces, piecesFrom_flatten]

theorem length_le_of_mem_piecesFrom {size room : Nat} {current content piece : CString}
    (hroom : 1 ≤ room) (hcurrent : current.length + room ≤ size - 1)
    (h : piece ∈ piecesFrom size room current content) : piece.length ≤ size - 1 := by
  induction content generalizing room current with
  | nil =>
      unfold piecesFrom at h
      split at h
      next => simp at h
      next =>
        rw [List.mem_singleton] at h
        subst h
        omega
  | cons c rest ih =>
      unfold piecesFrom at h
      split at h
      next =>
        rcases List.mem_cons.mp h with rfl | hrest
        · simp only [List.length_append, List.length_singleton]
          omega
        · exact ih (by omega) (by simp) hrest
      next hcut =>
        refine ih (by omega) ?_ h
        simp only [List.length_append, List.length_singleton]
        omega

/-- A piece fits the array with its terminator. -/
theorem length_le_of_mem_pieces {size : Nat} {content piece : CString} (hsize : 2 ≤ size)
    (h : piece ∈ pieces size content) : piece.length ≤ size - 1 :=
  length_le_of_mem_piecesFrom (by omega) (by simp) h

theorem newline_not_mem_of_mem_piecesFrom {size room : Nat} {current content piece : CString}
    (hcurrent : '\n' ∉ current) (h : piece ∈ piecesFrom size room current content) :
    ∃ s, '\n' ∉ s ∧ (piece = s ∨ piece = s ++ ['\n']) := by
  induction content generalizing room current with
  | nil =>
      unfold piecesFrom at h
      split at h
      next => simp at h
      next =>
        rw [List.mem_singleton] at h
        exact ⟨current, hcurrent, Or.inl h⟩
  | cons c rest ih =>
      have hmore : c ≠ '\n' → '\n' ∉ current ++ [c] := fun hc => by simp [hcurrent, Ne.symm hc]
      unfold piecesFrom at h
      split at h
      next =>
        rcases List.mem_cons.mp h with rfl | hrest
        · by_cases hc : c = '\n'
          · exact ⟨current, hcurrent, Or.inr (by rw [hc])⟩
          · exact ⟨current ++ [c], hmore hc, Or.inl rfl⟩
        · exact ih (by simp) hrest
      next hgo => exact ih (hmore (not_or.mp hgo).1) h

/-- A newline ends its piece. -/
theorem newline_not_mem_of_mem_pieces {size : Nat} {content piece : CString}
    (h : piece ∈ pieces size content) : ∃ s, '\n' ∉ s ∧ (piece = s ∨ piece = s ++ ['\n']) :=
  newline_not_mem_of_mem_piecesFrom (by simp) h

/-- After a newline the array is empty again. -/
theorem piecesFrom_append_newline (size room : Nat) (current s rest : CString) :
    piecesFrom size room current (s ++ '\n' :: rest) =
      piecesFrom size room current (s ++ ['\n']) ++ pieces size rest := by
  induction s generalizing room current with
  | nil => simp [piecesFrom, pieces]
  | cons c s ih =>
      rw [List.cons_append, List.cons_append]
      unfold piecesFrom
      split
      next => rw [ih, List.cons_append]
      next => exact ih _ _

/-- A line that fits the array is one piece. -/
theorem piecesFrom_line {size room : Nat} {current s : CString} (hline : '\n' ∉ s)
    (hroom : s.length < room) :
    piecesFrom size room current (s ++ ['\n']) = [current ++ s ++ ['\n']] := by
  induction s generalizing room current with
  | nil => simp [piecesFrom]
  | cons c s ih =>
      rw [List.mem_cons, not_or] at hline
      rw [List.length_cons] at hroom
      rw [List.cons_append, piecesFrom, if_neg (by simp [Ne.symm hline.1]; omega),
        ih hline.2 (by omega)]
      simp

/-- A line that fills the array leaves its newline for the next piece. -/
theorem piecesFrom_full {size room : Nat} {current s : CString} (hline : '\n' ∉ s) (hne : s ≠ [])
    (hroom : s.length = room) :
    piecesFrom size room current (s ++ ['\n']) = [current ++ s, ['\n']] := by
  induction s generalizing room current with
  | nil => exact absurd rfl hne
  | cons c s ih =>
      rw [List.mem_cons, not_or] at hline
      rw [List.length_cons] at hroom
      rw [List.cons_append, piecesFrom]
      by_cases hs : s = []
      · rw [if_pos (.inr (by simp [hs] at hroom; omega))]
        simp [hs, piecesFrom]
      · have hpos := List.length_pos_iff.mpr hs
        rw [if_neg (by simp [Ne.symm hline.1]; omega), ih hline.2 hs (by omega)]
        simp

/-! ## A file that goes on -/

/-- What has been read into the array since the last piece that is finished. -/
def unfinishedFrom (size : Nat) : Nat → CString → CString → CString
  | _, current, [] => current
  | room, current, c :: rest =>
      if c = '\n' ∨ room ≤ 1 then unfinishedFrom size (size - 1) [] rest
      else unfinishedFrom size (room - 1) (current ++ [c]) rest

/-- The pieces that are finished whatever follows. -/
def finishedFrom (size : Nat) : Nat → CString → CString → List CString
  | _, _, [] => []
  | room, current, c :: rest =>
      if c = '\n' ∨ room ≤ 1 then (current ++ [c]) :: finishedFrom size (size - 1) [] rest
      else finishedFrom size (room - 1) (current ++ [c]) rest

/-- The piece at the end of a file that more text would still be read into. -/
def unfinished (size : Nat) (content : CString) : CString :=
  unfinishedFrom size (size - 1) [] content

def finished (size : Nat) (content : CString) : List CString :=
  finishedFrom size (size - 1) [] content

section Appending

variable {size room : Nat} {current content : CString}

/-- What is left of the array fits the text in it. -/
theorem unfinishedFrom_spec (hroom : 1 ≤ room) (hcurrent : current.length + room = size - 1)
    (hline : '\n' ∉ current) :
    '\n' ∉ unfinishedFrom size room current content ∧
      (unfinishedFrom size room current content).length < size - 1 := by
  induction content generalizing room current with
  | nil => exact ⟨hline, by rw [unfinishedFrom]; omega⟩
  | cons c rest ih =>
      unfold unfinishedFrom
      split
      next => exact ih (by omega) (by simp) (by simp)
      next hmore =>
        obtain ⟨hc, hlong⟩ := not_or.mp hmore
        apply ih
        · omega
        · simp only [List.length_append, List.length_singleton]
          omega
        · simp [hline, Ne.symm hc]

theorem piecesFrom_append (hroom : 1 ≤ room) (hcurrent : current.length + room = size - 1)
    (rest : CString) : piecesFrom size room current (content ++ rest) =
      finishedFrom size room current content ++
        piecesFrom size (size - 1 - (unfinishedFrom size room current content).length)
          (unfinishedFrom size room current content) rest := by
  induction content generalizing room current with
  | nil =>
      have hleft : size - 1 - current.length = room := by omega
      simp [finishedFrom, unfinishedFrom, hleft]
  | cons c content ih =>
      rw [List.cons_append]
      by_cases hcut : c = '\n' ∨ room ≤ 1
      · simp only [piecesFrom, finishedFrom, unfinishedFrom, if_pos hcut]
        rw [ih (by omega) (by simp), List.cons_append]
      · obtain ⟨-, hlong⟩ := not_or.mp hcut
        simp only [piecesFrom, finishedFrom, unfinishedFrom, if_neg hcut]
        apply ih
        · omega
        · simp only [List.length_append, List.length_singleton]
          omega

/-- A text that fills the array is a piece, and what follows starts the next. -/
theorem piecesFrom_fills {s : CString} (hline : '\n' ∉ s) (hne : s ≠ []) (hroom : s.length = room)
    (rest : CString) :
    piecesFrom size room current (s ++ rest) = (current ++ s) :: pieces size rest := by
  induction s generalizing room current with
  | nil => exact absurd rfl hne
  | cons c s ih =>
      rw [List.mem_cons, not_or] at hline
      rw [List.length_cons] at hroom
      rw [List.cons_append, piecesFrom]
      by_cases hs : s = []
      · subst hs
        rw [if_pos (Or.inr (by simpa using Nat.le_of_eq hroom.symm))]
        rfl
      · have hpos := List.length_pos_iff.mpr hs
        rw [if_neg (by simp [Ne.symm hline.1]; omega), ih hline.2 hs (by omega)]
        simp

end Appending

theorem unfinished_spec {size : Nat} (hsize : 2 ≤ size) (content : CString) :
    '\n' ∉ unfinished size content ∧ (unfinished size content).length < size - 1 :=
  unfinishedFrom_spec (by omega) (by simp) (by simp)

/-- What is appended goes into the piece at the end. -/
theorem pieces_append {size : Nat} (hsize : 2 ≤ size) (content rest : CString) :
    pieces size (content ++ rest) = finished size content ++
      piecesFrom size (size - 1 - (unfinished size content).length) (unfinished size content)
        rest :=
  piecesFrom_append (by omega) (by simp) rest

theorem pieces_eq {size : Nat} (hsize : 2 ≤ size) (content : CString) :
    pieces size content = finished size content ++
      if unfinished size content = [] then [] else [unfinished size content] := by
  have happend := pieces_append hsize content []
  rwa [List.append_nil, piecesFrom] at happend

end Text
