import DarkUI.Foundation.Text

/-! # Escapes, and escaping into an array

Each character becomes a group of characters of its own. A loop that writes whole groups while
there is room for one leaves the groups of the first characters, however little room there is.
-/

namespace Text

/-! ## Backslashes -/

/-- A backslash before each special character. -/
def backslashed (special : Char → Bool) (s : CString) : CString :=
  s.flatMap fun c => if special c then ['\\', c] else [c]

/-- What a text stands for in which only special characters stand behind a backslash, and none
stands anywhere else. -/
def unescape (special : Char → Bool) : CString → Option CString
  | [] => some []
  | '\\' :: c :: rest => if special c then (unescape special rest).map (c :: ·) else none
  | c :: rest => if c = '\\' ∨ special c then none else (unescape special rest).map (c :: ·)

theorem unescape_backslashed {special : Char → Bool} (hslash : special '\\') (s : CString) :
    unescape special (backslashed special s) = some s := by
  induction s with
  | nil => rfl
  | cons c s ih =>
      have hcons : backslashed special (c :: s) =
          (if special c then ['\\', c] else [c]) ++ backslashed special s := List.flatMap_cons
      rw [hcons]
      by_cases hc : special c
      · rw [if_pos hc]
        change unescape special ('\\' :: c :: backslashed special s) = some (c :: s)
        rw [unescape, if_pos hc, ih]
        rfl
      · rw [if_neg hc]
        have hne : c ≠ '\\' := by
          rintro rfl
          exact hc hslash
        change unescape special (c :: backslashed special s) = some (c :: s)
        rw [unescape, if_neg (by simp [hne, hc]), ih]
        · rfl
        · exact fun _ _ hslash => absurd hslash hne

theorem not_mem_backslashed {special : Char → Bool} {c : Char} {s : CString} (hc : c ≠ '\\')
    (hs : c ∉ s) : c ∉ backslashed special s := by
  intro hmem
  obtain ⟨d, hd, hgroup⟩ := List.mem_flatMap.mp hmem
  have hne : c ≠ d := fun heq => hs (heq ▸ hd)
  split at hgroup <;> simp [hc, hne] at hgroup

/-! ## Writing groups while there is room -/

/-- The groups written from position `o` on, each if there is room at its position. -/
def fill (room : Nat → Bool) (group : Char → CString) (o : Nat) : CString → CString
  | [] => []
  | c :: rest => if room o then group c ++ fill room group (o + (group c).length) rest else []

variable (room : Nat → Bool) (group : Char → CString)

/-- There is room for every group where there is room for the longest in the place of each. -/
theorem fill_eq {longest o : Nat} {s : CString} (hgroup : ∀ c, (group c).length ≤ longest)
    (hroom : ∀ position, position + longest ≤ o + longest * s.length → room position) :
    fill room group o s = s.flatMap group := by
  induction s generalizing o with
  | nil => rfl
  | cons c s ih =>
      have hlength : longest * (c :: s).length = longest * s.length + longest := by
        rw [List.length_cons, Nat.mul_succ]
      rw [hlength] at hroom
      have hfirst := hgroup c
      have hrest := ih (o := o + (group c).length) fun position hposition =>
        hroom position (by omega)
      rw [fill, if_pos (hroom o (by omega)), hrest, List.flatMap_cons]

end Text
