import DarkUI.Foundation.Run
import DarkUI.Foundation.Text
import DarkUI.Input.Pad
import DarkUI.Minarch.CollectionPicker
import DarkUI.Wifi.Config

/-! # The on-screen keyboard

A name or a password is typed key by key, with a cursor that wraps around the rows. The two
programs have the same loop over different keys.
-/

namespace DarkUI

open Text Run

/-- `KB`, and how large the array of the text is. -/
structure Keyboard where
  rows : List CString
  maxlen : Nat
  rows_ne_nil : rows ≠ []
  row_ne_nil : ∀ row ∈ rows, row ≠ []
  nul_notMem : ∀ row ∈ rows, '\x00' ∉ row
  maxlen_pos : 0 < maxlen

/-- The keyboard of `Menu_keyboard`, which names a collection. -/
def Minarch.Menu.menuKeyboard : Keyboard where
  rows :=
    ["ABCDEFGHIJ".toList, "KLMNOPQRST".toList, "UVWXYZ0123".toList, "456789 -_".toList]
  maxlen := 128
  rows_ne_nil := by decide
  row_ne_nil := by decide
  nul_notMem := by decide
  maxlen_pos := by decide

/-- The keyboard of `Wifi_keyboard`, which takes a password. -/
def Wifi.wifiKeyboard : Keyboard where
  rows :=
    ["ABCDEFGHIJKLM".toList, "NOPQRSTUVWXYZ".toList, "abcdefghijklm".toList,
      "nopqrstuvwxyz".toList, "0123456789".toList, " -_!@#$%^&*()+=.,".toList]
  maxlen := wifiPassLen
  rows_ne_nil := by decide
  row_ne_nil := by decide
  nul_notMem := by decide
  maxlen_pos := by decide

/-- The variables of the loop. It is `done` when there is a result. -/
structure Typing where
  cr : Int
  cc : Int
  out : List Char
  len : Nat
  result : Option Bool
  deriving DecidableEq

namespace Typing

/-- The string in the array. -/
def text (t : Typing) : CString := untilNul t.out

/-- A write into the array, undefined outside it. -/
def store (t : Typing) (i : Nat) (c : Char) : Option Typing :=
  if i < t.out.length then some { t with out := t.out.set i c } else none

end Typing

namespace Keyboard

variable (kb : Keyboard)

def nrows : Int := kb.rows.length

/-- `KB[cr]` -/
def row (cr : Int) : Option CString := if 0 ≤ cr then kb.rows[cr.toNat]? else none

/-- `KB[cr][cc]` -/
def key (cr cc : Int) : Option Char :=
  (kb.row cr).bind fun row => if 0 ≤ cc then row[cc.toNat]? else none

/-- The array on entry, of which only the first character is set. -/
def start (out : List Char) : Typing := ⟨0, 0, out.set 0 '\x00', 0, none⟩

/-- `PAD_justRepeated` of a direction, which the stick has too. -/
def justRepeated (pad : Pad) (dpad analog : ButtonId) : Bool :=
  has pad.justRepeated dpad || has pad.justRepeated analog

/-- The chain of directions. -/
def move (pad : Pad) (t : Typing) : Typing :=
  if justRepeated pad .dpadUp .analogUp then
    { t with cr := (t.cr - 1 + kb.nrows).tmod kb.nrows }
  else if justRepeated pad .dpadDown .analogDown then
    { t with cr := (t.cr + 1).tmod kb.nrows }
  else if justRepeated pad .dpadLeft .analogLeft then { t with cc := t.cc - 1 }
  else if justRepeated pad .dpadRight .analogRight then { t with cc := t.cc + 1 }
  else t

/-- The column as it is kept inside the row. -/
def clip (t : Typing) : Option Typing :=
  (kb.row t.cr).map fun row =>
    let rl : Int := row.length
    let cc := if t.cc < 0 then rl - 1 else t.cc
    { t with cc := if cc ≥ rl then 0 else cc }

/-- The chain of buttons. -/
def press (pad : Pad) (t : Typing) : Option Typing :=
  if has pad.justPressed .a then
    if t.len < kb.maxlen - 1 then
      (kb.key t.cr t.cc).bind fun c =>
        (t.store t.len c).bind fun t => { t with len := t.len + 1 }.store (t.len + 1) '\x00'
    else some t
  else if has pad.justPressed .b then
    if t.len > 0 then { t with len := t.len - 1 }.store (t.len - 1) '\x00'
    else some { t with result := some false }
  else if has pad.justPressed .start then
    some (if t.len > 0 then { t with result := some true } else t)
  else if has pad.justPressed .menu then some { t with result := some false }
  else some t

/-- One turn of the loop. It is undefined if it leaves an array. -/
def turn (t : Typing) (pad : Pad) : Option Typing := (kb.clip (kb.move pad t)).bind (kb.press pad)

/-- The loop reads the pad as long as there is no result. -/
def Typed (t u : Typing) : Prop := Reaches kb.turn (fun t _ => t.result = none) t u

/-- The characters that can be typed. -/
def keys : CString := kb.rows.flatten

/-- The cursor is on a key. -/
def OnKey (cr cc : Int) : Prop := ∃ row, kb.row cr = some row ∧ 0 ≤ cc ∧ cc < row.length

/-- Every index is inside its array, and the text is one of keys. -/
structure Sound (t : Typing) : Prop where
  cursor : kb.OnKey t.cr t.cc
  length_out : t.out.length = kb.maxlen
  holds : ∃ text rest, t.out = text ++ '\x00' :: rest ∧ t.len = text.length ∧
    ∀ c ∈ text, c ∈ kb.keys
  saved : t.result = some true → 0 < t.len

/-- What can be saved. -/
structure Enterable (text : CString) : Prop where
  ne_nil : text ≠ []
  length_lt : text.length < kb.maxlen
  keys : ∀ c ∈ text, c ∈ kb.keys

variable {kb} {t u : Typing} {pad : Pad} {cr cc : Int} {row : CString}

/-! ## Every index is inside its array -/

theorem row_eq_some_iff : kb.row cr = some row ↔ 0 ≤ cr ∧ kb.rows[cr.toNat]? = some row := by
  unfold Keyboard.row
  split
  next h => simp [h]
  next h => simp [h]

theorem row_mem (h : kb.row cr = some row) : row ∈ kb.rows :=
  List.mem_of_getElem? (row_eq_some_iff.mp h).2

theorem cr_lt (h : kb.row cr = some row) : cr < kb.nrows := by
  obtain ⟨hnonneg, hget⟩ := row_eq_some_iff.mp h
  obtain ⟨hlt, -⟩ := List.getElem?_eq_some_iff.mp hget
  unfold nrows
  omega

theorem exists_row (hnonneg : 0 ≤ cr) (hlt : cr < kb.nrows) : ∃ row, kb.row cr = some row := by
  have hnat : cr.toNat < kb.rows.length := by
    unfold nrows at hlt
    omega
  exact ⟨kb.rows[cr.toNat], row_eq_some_iff.mpr ⟨hnonneg, List.getElem?_eq_getElem hnat⟩⟩

theorem nrows_pos : 0 < kb.nrows := by
  have hlength := List.length_pos_iff.mpr kb.rows_ne_nil
  unfold nrows
  omega

theorem length_row_pos (h : kb.row cr = some row) : 0 < row.length :=
  List.length_pos_iff.mpr (kb.row_ne_nil row (row_mem h))

theorem key_eq_some (hrow : kb.row cr = some row) (hnonneg : 0 ≤ cc) (hlt : cc < row.length) :
    ∃ c, kb.key cr cc = some c ∧ c ∈ kb.keys := by
  have hnat : cc.toNat < row.length := by omega
  refine ⟨row[cc.toNat], ?_, ?_⟩
  · simp [key, hrow, hnonneg, List.getElem?_eq_getElem hnat]
  · exact List.mem_flatten.mpr ⟨row, row_mem hrow, List.getElem_mem hnat⟩

theorem nul_notMem_keys : '\x00' ∉ kb.keys := by
  intro h
  obtain ⟨row, hrow, hmem⟩ := List.mem_flatten.mp h
  exact kb.nul_notMem row hrow hmem

/-- A direction leaves the cursor on some row, and everything but the cursor as it is. -/
theorem move_row (pad : Pad) (h : ∃ row, kb.row t.cr = some row) :
    ∃ cr cc, kb.move pad t = { t with cr := cr, cc := cc } ∧ ∃ row, kb.row cr = some row := by
  obtain ⟨row, hrow⟩ := h
  have hnonneg := (row_eq_some_iff.mp hrow).1
  have hpos : 0 < kb.nrows := nrows_pos
  have hwrap : ∀ n : Int, 0 ≤ n → ∃ row, kb.row (n.tmod kb.nrows) = some row := fun n hn =>
    exists_row (Int.tmod_nonneg _ hn) (Int.tmod_lt_of_pos n hpos)
  unfold move
  split_ifs
  · exact ⟨_, t.cc, rfl, hwrap _ (by omega)⟩
  · exact ⟨_, t.cc, rfl, hwrap _ (by omega)⟩
  · exact ⟨t.cr, _, rfl, row, hrow⟩
  · exact ⟨t.cr, _, rfl, row, hrow⟩
  · exact ⟨t.cr, t.cc, rfl, row, hrow⟩

/-- The column after `clip`. -/
def clipped (length : Nat) (cc : Int) : Int :=
  let kept := if cc < 0 then (length : Int) - 1 else cc
  if kept ≥ length then 0 else kept

theorem clipped_bounds {length : Nat} (hpos : 0 < length) (cc : Int) :
    0 ≤ clipped length cc ∧ clipped length cc < length := by
  unfold clipped
  dsimp only
  split_ifs <;> constructor <;> omega

theorem clip_eq (h : kb.row t.cr = some row) :
    kb.clip t = some { t with cc := clipped row.length t.cc } := by
  simp [clip, h, clipped]

theorem store_eq {i : Nat} (h : i < t.out.length) (c : Char) :
    t.store i c = some { t with out := t.out.set i c } := if_pos h

theorem set_length_append {text rest : List Char} (c d : Char) :
    (text ++ c :: rest).set text.length d = text ++ d :: rest := by
  rw [List.set_append_right _ _ le_rfl, Nat.sub_self, List.set_cons_zero]

/-- The variables with a text in the array and no result. -/
def held (cr cc : Int) (text rest : List Char) : Typing :=
  ⟨cr, cc, text ++ '\x00' :: rest, text.length, none⟩

section Buttons

variable {text rest : List Char} {c d : Char}

theorem press_a (ha : has pad.justPressed .a = true) (hkey : kb.key cr cc = some c)
    (hroom : text.length + 1 < kb.maxlen) :
    kb.press pad (held cr cc text (d :: rest)) = some (held cr cc (text ++ [c]) rest) := by
  have hfull : text.length < kb.maxlen - 1 := Nat.lt_sub_of_add_lt hroom
  have hfirst : text.length < (text ++ '\x00' :: d :: rest).length := by simp
  have hset : (text ++ '\x00' :: d :: rest).set text.length c = (text ++ [c]) ++ d :: rest := by
    rw [set_length_append, List.append_assoc]
    rfl
  have hlast : text.length + 1 < ((text ++ [c]) ++ d :: rest).length := by simp
  have hend := @set_length_append (text ++ [c]) rest d '\x00'
  rw [List.length_append, List.length_singleton] at hend
  unfold press held
  rw [if_pos ha, if_pos hfull, hkey, Option.bind_some, store_eq hfirst, Option.bind_some]
  dsimp only
  rw [hset, store_eq hlast]
  dsimp only
  rw [hend, List.length_append, List.length_singleton]

theorem press_a_full (ha : has pad.justPressed .a = true) (hfull : kb.maxlen ≤ t.len + 1) :
    kb.press pad t = some t := by
  have hlt : ¬t.len < kb.maxlen - 1 := by omega
  rw [press, if_pos ha, if_neg hlt]

theorem press_b (ha : has pad.justPressed .a = false) (hb : has pad.justPressed .b = true) :
    kb.press pad (held cr cc (text ++ [c]) rest) =
      some (held cr cc text ('\x00' :: rest)) := by
  have hpos : (text ++ [c]).length > 0 := by simp
  have hlt : text.length < ((text ++ [c]) ++ '\x00' :: rest).length := by simp
  have hset : ((text ++ [c]) ++ '\x00' :: rest).set text.length '\x00' =
      text ++ '\x00' :: '\x00' :: rest := by
    rw [List.append_assoc, List.singleton_append, set_length_append]
  have hlen : (text ++ [c]).length - 1 = text.length := by simp
  unfold press held
  dsimp only
  rw [ha, if_neg Bool.false_ne_true, if_pos hb, if_pos hpos, hlen, store_eq hlt]
  dsimp only
  rw [hset]

/-- The other buttons change nothing but the result. -/
theorem press_other (ha : has pad.justPressed .a = false) (hb : has pad.justPressed .b = false) :
    ∃ result, kb.press pad t = some { t with result := result } ∧
      (result = some true → t.result = some true ∨ 0 < t.len) := by
  unfold press
  rw [ha, hb, if_neg Bool.false_ne_true, if_neg Bool.false_ne_true]
  split_ifs with hstart hlen hmenu
  · exact ⟨some true, rfl, fun _ => .inr hlen⟩
  · exact ⟨t.result, rfl, .inl⟩
  · exact ⟨some false, rfl, nofun⟩
  · exact ⟨t.result, rfl, .inl⟩

end Buttons

theorem Sound.eq_held (h : kb.Sound t) (hnone : t.result = none) :
    ∃ text rest, t = held t.cr t.cc text rest ∧ text.length + 1 + rest.length = kb.maxlen ∧
      ∀ c ∈ text, c ∈ kb.keys := by
  obtain ⟨text, rest, hout, hlen, hkeys⟩ := h.holds
  refine ⟨text, rest, ?_, ?_, hkeys⟩
  · rw [held, ← hout, ← hlen, ← hnone]
  · rw [← h.length_out, hout, List.length_append, List.length_cons]
    omega

theorem held_sound {text rest : List Char}
    (hcursor : kb.OnKey cr cc) (hlength : text.length + 1 + rest.length = kb.maxlen)
    (hkeys : ∀ c ∈ text, c ∈ kb.keys) :
    kb.Sound (held cr cc text rest) where
  cursor := hcursor
  length_out := by
    rw [← hlength, held, List.length_append, List.length_cons]
    omega
  holds := ⟨text, rest, rfl, rfl, hkeys⟩
  saved := nofun

/-- What a button does, for a cursor on a key. -/
theorem press_sound (pad : Pad) (h : kb.Sound t) (hnone : t.result = none) :
    ∃ u, kb.press pad t = some u ∧ kb.Sound u := by
  obtain ⟨text, rest, heq, hlength, hkeys⟩ := h.eq_held hnone
  obtain ⟨row, hrow, hnonneg, hlt⟩ := h.cursor
  have hother : has pad.justPressed .a = false → has pad.justPressed .b = false →
      ∃ u, kb.press pad t = some u ∧ kb.Sound u := by
    intro ha hb
    obtain ⟨result, hpress, hresult⟩ := @press_other kb t pad ha hb
    refine ⟨_, hpress, h.cursor, h.length_out, h.holds, fun hsaved => ?_⟩
    exact (hresult hsaved).elim h.saved id
  cases ha : has pad.justPressed .a with
  | true =>
      obtain ⟨c, hkey, hc⟩ := key_eq_some hrow hnonneg hlt
      cases rest with
      | nil =>
          have hfull : kb.maxlen ≤ t.len + 1 := by
            rw [heq, ← hlength]
            exact le_rfl
          exact ⟨t, press_a_full ha hfull, h⟩
      | cons d rest =>
          rw [List.length_cons] at hlength
          have hpress : kb.press pad (held t.cr t.cc text (d :: rest)) = _ :=
            press_a ha hkey (by omega)
          rw [← heq] at hpress
          refine ⟨_, hpress, held_sound ⟨row, hrow, hnonneg, hlt⟩ ?_ ?_⟩
          · rw [List.length_append, List.length_singleton]
            omega
          · intro e he
            rcases List.mem_append.mp he with he | he
            · exact hkeys e he
            · rwa [List.mem_singleton.mp he]
  | false =>
      cases hb : has pad.justPressed .b with
      | false => exact hother ha hb
      | true =>
          rcases text.eq_nil_or_concat with rfl | ⟨init, c, rfl⟩
          · have hpress : kb.press pad t = some { t with result := some false } := by
              have hlen : t.len = 0 := congrArg Typing.len heq
              rw [press, ha, if_neg Bool.false_ne_true, if_pos hb, hlen, if_neg (lt_irrefl 0)]
            exact ⟨_, hpress, h.cursor, h.length_out, h.holds, nofun⟩
          · rw [List.concat_eq_append] at heq hlength hkeys
            have hpress : kb.press pad (held t.cr t.cc (init ++ [c]) rest) = _ := press_b ha hb
            rw [← heq] at hpress
            refine ⟨_, hpress, held_sound ⟨row, hrow, hnonneg, hlt⟩ ?_ ?_⟩
            · rw [← hlength, List.length_append, List.length_singleton, List.length_cons]
              omega
            · exact fun e he => hkeys e (List.mem_append_left _ he)

/-- A turn is defined, and leaves what is sound sound. -/
theorem turn_sound (pad : Pad) (h : kb.Sound t) (hnone : t.result = none) :
    ∃ u, kb.turn t pad = some u ∧ kb.Sound u := by
  obtain ⟨row, hrow, -⟩ := h.cursor
  obtain ⟨cr, cc, hmove, row', hrow'⟩ := move_row pad ⟨row, hrow⟩
  have hclip : kb.clip (kb.move pad t) =
      some { t with cr := cr, cc := clipped row'.length cc } := by
    rw [hmove]
    exact clip_eq hrow'
  have hmoved : kb.Sound { t with cr := cr, cc := clipped row'.length cc } :=
    ⟨⟨row', hrow', clipped_bounds (length_row_pos hrow') cc⟩, h.length_out, h.holds, h.saved⟩
  obtain ⟨u, hpress, hu⟩ := press_sound pad hmoved hnone
  refine ⟨u, ?_, hu⟩
  rw [turn, hclip]
  exact hpress

theorem start_sound {out : List Char} (h : out.length = kb.maxlen) : kb.Sound (start out) := by
  obtain ⟨row, hrow⟩ := exists_row le_rfl (nrows_pos : 0 < kb.nrows)
  cases out with
  | nil => exact absurd h kb.maxlen_pos.ne
  | cons c rest =>
      rw [List.length_cons] at h
      have hcursor : kb.OnKey 0 0 :=
        ⟨row, hrow, le_rfl, Int.natCast_pos.mpr (length_row_pos hrow)⟩
      refine held_sound hcursor ?_ (List.forall_mem_nil _)
      rw [List.length_nil]
      omega

/-- In every run, no turn leaves an array, and the text is one of keys that fits. -/
theorem typed_sound {out : List Char} (h : out.length = kb.maxlen)
    (htyped : kb.Typed (start out) t) : kb.Sound t := by
  refine htyped.invariant (start_sound h) ?_
  intro s u pad hs hnone hturn
  obtain ⟨v, hv, hsound⟩ := turn_sound pad hs hnone
  rw [hv] at hturn
  cases hturn
  exact hsound

/-- Whatever was done so far, the next turn is defined. -/
theorem turn_in_bounds {out : List Char} (hout : out.length = kb.maxlen)
    (hsofar : kb.Typed (start out) t) (hnone : t.result = none) (pad : Pad) :
    ∃ u, kb.turn t pad = some u ∧ kb.Sound u :=
  turn_sound pad (typed_sound hout hsofar) hnone

/-- The first turn of a password, which presses everything at once. -/
theorem turn_in_bounds_all : ∃ u, Wifi.wifiKeyboard.turn (start (List.replicate 128 '\x00'))
    { Pad.initial with justPressed := -1, justRepeated := -1 } = some u ∧
      Wifi.wifiKeyboard.Sound u :=
  turn_in_bounds (List.length_replicate ..) .refl rfl _

theorem Sound.text_eq (h : kb.Sound t) : ∃ text : CString, t.text = text ∧ t.len = text.length ∧
    text.length < kb.maxlen ∧ ∀ c ∈ text, c ∈ kb.keys := by
  obtain ⟨text, rest, hout, hlen, hkeys⟩ := h.holds
  have hlength := congrArg List.length hout
  rw [h.length_out, List.length_append, List.length_cons] at hlength
  refine ⟨text, ?_, hlen, by omega, hkeys⟩
  rw [Typing.text, hout]
  exact untilNul_append_nul (fun hnul => nul_notMem_keys (hkeys _ hnul)) rest

/-! ## Every text of keys can be typed -/

/-- A poll that finds one button pressed. -/
def only (button : ButtonId) : Pad := Pad.initial.press button 0

theorem only_pressed (button other : ButtonId) :
    has (only button).justPressed other = decide (button = other) :=
  (has_set 0#32 button other).trans (by rw [has_none, Bool.false_or])

theorem only_repeated (button other : ButtonId) :
    has (only button).justRepeated other = decide (button = other) :=
  (has_set 0#32 button other).trans (by rw [has_none, Bool.false_or])

section Keys

variable {text rest : List Char} {button : ButtonId} {moved column : Int}

theorem typed_of_turn {pad : Pad} (hnone : t.result = none) (hturn : kb.turn t pad = some u) :
    kb.Typed t u :=
  .tail .refl hnone hturn

theorem clipped_eq {length : Nat} (hnonneg : 0 ≤ cc) (hlt : cc < length) :
    clipped length cc = cc := by
  unfold clipped
  dsimp only
  rw [if_neg (not_lt.mpr hnonneg), if_neg (not_le.mpr hlt)]

/-- A turn in which only a direction is pressed. -/
theorem typed_direction (hbutton : button ∉ [.a, .b, .start, .menu])
    (hmove : kb.move (only button) (held cr cc text rest) = held moved column text rest)
    (hrow : kb.row moved = some row) :
    kb.Typed (held cr cc text rest) (held moved (clipped row.length column) text rest) := by
  simp only [List.mem_cons, List.not_mem_nil, or_false, not_or] at hbutton
  have hpress : ∀ t, kb.press (only button) t = some t := by
    intro t
    simp [press, only_pressed, hbutton]
  refine @typed_of_turn kb _ _ (only button) rfl ?_
  rw [turn, hmove, clip_eq hrow]
  exact hpress _

/-- A turn in which no direction is pressed. -/
theorem typed_button (hbutton : button ∈ [.a, .b, .start, .menu]) (hkey : kb.OnKey cr cc)
    (hpress : kb.press (only button) (held cr cc text rest) = some u) :
    kb.Typed (held cr cc text rest) u := by
  obtain ⟨row, hrow, hnonneg, hlt⟩ := hkey
  have hmove : kb.move (only button) (held cr cc text rest) = held cr cc text rest := by
    simp only [List.mem_cons, List.not_mem_nil, or_false] at hbutton
    rcases hbutton with rfl | rfl | rfl | rfl <;> simp [move, justRepeated, only_repeated]
  refine @typed_of_turn kb _ _ (only button) rfl ?_
  rw [turn, hmove, clip_eq hrow]
  simp only [held, clipped_eq hnonneg hlt]
  exact hpress

theorem onKey_clipped (hrow : kb.row cr = some row) (column : Int) :
    kb.OnKey cr (clipped row.length column) :=
  ⟨row, hrow, clipped_bounds (length_row_pos hrow) column⟩

/-- The cursor goes up to the first row. -/
theorem typed_first (r : Nat) (h : kb.OnKey r cc) :
    ∃ cc', kb.OnKey 0 cc' ∧ kb.Typed (held r cc text rest) (held 0 cc' text rest) := by
  induction r generalizing cc with
  | zero => exact ⟨cc, h, .refl⟩
  | succ r ih =>
      obtain ⟨row, hrow, -⟩ := h
      have hlt : (r : Int) + 1 < kb.nrows := cr_lt hrow
      obtain ⟨above, habove⟩ : ∃ above, kb.row r = some above := exists_row (by omega) (by omega)
      have hwrap : ((r : Int) + kb.nrows).tmod kb.nrows = r := by
        rw [Int.tmod_eq_emod_of_nonneg (by omega), Int.add_emod_right,
          Int.emod_eq_of_lt (by omega) (by omega)]
      have hmove : kb.move (only .dpadUp) (held (r + 1) cc text rest) = held r cc text rest := by
        simp [move, justRepeated, only_repeated, held, hwrap]
      obtain ⟨cc', hkey, htyped⟩ := ih (onKey_clipped habove cc)
      exact ⟨cc', hkey, (typed_direction (by decide) hmove habove).trans htyped⟩

/-- The cursor goes down to a row. -/
theorem typed_row (r : Nat) (h : kb.OnKey 0 cc) (hlt : (r : Int) < kb.nrows) :
    ∃ cc', kb.OnKey r cc' ∧ kb.Typed (held 0 cc text rest) (held r cc' text rest) := by
  induction r with
  | zero => exact ⟨cc, h, .refl⟩
  | succ r ih =>
      rw [Nat.cast_succ] at hlt ⊢
      obtain ⟨cc', -, htyped⟩ := ih (by omega)
      obtain ⟨below, hbelow⟩ : ∃ below, kb.row (r + 1) = some below := exists_row (by omega) hlt
      have hwrap : ((r : Int) + 1).tmod kb.nrows = r + 1 := by
        rw [Int.tmod_eq_emod_of_nonneg (by omega), Int.emod_eq_of_lt (by omega) hlt]
      have hmove : kb.move (only .dpadDown) (held r cc' text rest) =
          held (r + 1) cc' text rest := by
        simp [move, justRepeated, only_repeated, held, hwrap]
      exact ⟨_, onKey_clipped hbelow cc',
        htyped.trans (typed_direction (by decide) hmove hbelow)⟩

/-- The cursor goes left to the first column. -/
theorem typed_left (c : Nat) (hrow : kb.row cr = some row) (hlt : c < row.length) :
    kb.Typed (held cr c text rest) (held cr 0 text rest) := by
  induction c with
  | zero => exact .refl
  | succ c ih =>
      have hmove : kb.move (only .dpadLeft) (held cr (c + 1) text rest) = held cr c text rest := by
        simp [move, justRepeated, only_repeated, held]
      have hone := typed_direction (by decide) hmove hrow
      rw [clipped_eq (by omega) (by omega)] at hone
      exact hone.trans (ih (by omega))

/-- The cursor goes right to a column. -/
theorem typed_right (c : Nat) (hrow : kb.row cr = some row) (hlt : c < row.length) :
    kb.Typed (held cr 0 text rest) (held cr c text rest) := by
  induction c with
  | zero => exact .refl
  | succ c ih =>
      have hmove : kb.move (only .dpadRight) (held cr c text rest) =
          held cr (c + 1) text rest := by
        simp [move, justRepeated, only_repeated, held]
      have hone := typed_direction (by decide) hmove hrow
      rw [clipped_eq (by omega) (by omega)] at hone
      exact (ih (by omega)).trans hone

/-- The cursor goes from any key to any other. -/
theorem typed_cursor (hfrom : kb.OnKey cr cc) (hto : kb.OnKey moved column) :
    kb.Typed (held cr cc text rest) (held moved column text rest) := by
  obtain ⟨row, hrow, -⟩ := id hfrom
  obtain ⟨target, htarget, hnonneg, hlt⟩ := hto
  obtain ⟨r, rfl⟩ := Int.eq_ofNat_of_zero_le (row_eq_some_iff.mp hrow).1
  obtain ⟨m, rfl⟩ := Int.eq_ofNat_of_zero_le (row_eq_some_iff.mp htarget).1
  obtain ⟨c, rfl⟩ := Int.eq_ofNat_of_zero_le hnonneg
  obtain ⟨first, hfirst, hup⟩ := typed_first r hfrom
  obtain ⟨cc', ⟨row', hrow', hnonneg', hlt'⟩, hdown⟩ := typed_row m hfirst (cr_lt htarget)
  obtain ⟨c', rfl⟩ := Int.eq_ofNat_of_zero_le hnonneg'
  have hsame : row' = target := Option.some.inj (hrow'.symm.trans htarget)
  subst hsame
  refine hup.trans (hdown.trans ?_)
  exact (typed_left c' htarget (by omega)).trans (typed_right c htarget (by omega))

/-- All that is in the array can be deleted. -/
theorem typed_erase (h : kb.OnKey cr cc) (text rest : List Char) :
    ∃ rest', text.length + rest.length = rest'.length ∧
      kb.Typed (held cr cc text rest) (held cr cc [] rest') := by
  induction text using List.reverseRecOn generalizing rest with
  | nil => exact ⟨rest, by simp, .refl⟩
  | append_singleton init c ih =>
      obtain ⟨rest', hlength, htyped⟩ := ih ('\x00' :: rest)
      have hpress : kb.press (only .b) (held cr cc (init ++ [c]) rest) =
          some (held cr cc init ('\x00' :: rest)) :=
        press_b (only_pressed _ _) (only_pressed _ _)
      refine ⟨rest', ?_, (typed_button (by decide) h hpress).trans htyped⟩
      rw [← hlength, List.length_append, List.length_singleton, List.length_cons]
      omega

/-- Keys are added one by one. -/
theorem typed_append (s : CString) (hs : ∀ c ∈ s, c ∈ kb.keys) (h : kb.OnKey cr cc)
    (hlength : text.length + 1 + rest.length = kb.maxlen) (hroom : s.length ≤ rest.length) :
    ∃ cr' cc' rest', kb.OnKey cr' cc' ∧
      kb.Typed (held cr cc text rest) (held cr' cc' (text ++ s) rest') := by
  induction s generalizing cr cc text rest with
  | nil => exact ⟨cr, cc, rest, h, by rw [List.append_nil]; exact .refl⟩
  | cons c s ih =>
      obtain ⟨row, hrow, hc⟩ := List.mem_flatten.mp (hs c List.mem_cons_self)
      obtain ⟨r, hr, hget⟩ := List.mem_iff_getElem.mp hrow
      obtain ⟨k, hk, hkey⟩ := List.mem_iff_getElem.mp hc
      have hrow' : kb.row r = some row :=
        row_eq_some_iff.mpr ⟨by omega, by rw [Int.toNat_natCast, List.getElem?_eq_getElem hr, hget]⟩
      have hat : kb.OnKey r k := ⟨row, hrow', by omega, by omega⟩
      have hchar : kb.key r k = some c := by
        simp [key, hrow', List.getElem?_eq_getElem hk, hkey]
      cases rest with
      | nil => exact absurd hroom (by simp)
      | cons d rest =>
          rw [List.length_cons] at hlength
          rw [List.length_cons, List.length_cons, Nat.add_le_add_iff_right] at hroom
          have hpress : kb.press (only .a) (held r k text (d :: rest)) =
              some (held r k (text ++ [c]) rest) :=
            press_a (only_pressed _ _) hchar (by omega)
          have hlength' : (text ++ [c]).length + 1 + rest.length = kb.maxlen := by
            rw [List.length_append, List.length_singleton]
            omega
          obtain ⟨cr', cc', rest', hend, htyped⟩ :=
            ih (fun e he => hs e (List.mem_cons_of_mem _ he)) hat hlength' hroom
          refine ⟨cr', cc', rest', hend, (typed_cursor h hat).trans ?_⟩
          rw [List.append_assoc, List.singleton_append] at htyped
          exact (typed_button (by decide) hat hpress).trans htyped

end Keys

/-- Whatever was done so far, what can be saved is just a text of keys that is not empty and
fits. -/
theorem saves_iff {out : List Char} (hout : out.length = kb.maxlen)
    (hsofar : kb.Typed (start out) t) (hnone : t.result = none) (text : CString) :
    (∃ u, kb.Typed t u ∧ u.result = some true ∧ u.text = text) ↔ kb.Enterable text := by
  have hsound := typed_sound hout hsofar
  constructor
  · rintro ⟨u, htyped, hsaved, rfl⟩
    have hu := typed_sound hout (hsofar.trans htyped)
    obtain ⟨text, htext, hlen, hlt, hkeys⟩ := hu.text_eq
    rw [htext]
    refine ⟨List.length_pos_iff.mp ?_, hlt, hkeys⟩
    rw [← hlen]
    exact hu.saved hsaved
  · rintro ⟨hne, hlt, hkeys⟩
    obtain ⟨sofar, rest, heq, hlength, -⟩ := hsound.eq_held hnone
    obtain ⟨rest', hrest, herase⟩ := typed_erase hsound.cursor sofar rest
    have hlength' : ([] : List Char).length + 1 + rest'.length = kb.maxlen := by
      rw [List.length_nil]
      omega
    obtain ⟨cr, cc, rest'', hkey, happend⟩ :=
      typed_append text hkeys hsound.cursor hlength' (by rw [List.length_nil] at hlength'; omega)
    rw [List.nil_append] at happend
    let saved : Typing := { held cr cc text rest'' with result := some true }
    have hpress : kb.press (only .start) (held cr cc text rest'') = some saved := by
      have hpos : text.length > 0 := List.length_pos_iff.mpr hne
      simp [press, only_pressed, held, saved, hpos]
    refine ⟨saved, ?_, rfl, untilNul_append_nul ?_ rest''⟩
    · rw [heq]
      exact herase.trans (happend.trans (typed_button (by decide) hkey hpress))
    · exact fun hnul => nul_notMem_keys (hkeys _ hnul)

/-- A name that ends in a space, in an array that was written before. -/
theorem saves_iff_fresh :
    (∃ u, Minarch.Menu.menuKeyboard.Typed (start (List.replicate 128 'x')) u ∧
      u.result = some true ∧ u.text = "A9 ".toList) ↔
        Minarch.Menu.menuKeyboard.Enterable "A9 ".toList :=
  saves_iff (List.length_replicate ..) .refl rfl _

end Keyboard

/-- What `Menu_keyboard` returns is a name as the picker takes it. -/
theorem Keyboard.Enterable.typed {text : CString}
    (h : Minarch.Menu.menuKeyboard.Enterable text) :
    ∃ typed : Minarch.Menu.Typed, typed.1.1 = text := by
  have hsame : Minarch.Menu.menuKeyboard.keys = Minarch.Menu.keyboard := by decide
  have hupper : Minarch.Menu.keyboard.all (fun c => c.toUpper ∈ Minarch.Menu.keyboard) := by
    decide
  refine ⟨⟨⟨text, h.length_lt⟩, fun c hc => ?_⟩, rfl⟩
  have hkey := h.keys c hc
  rw [hsame] at hkey
  exact of_decide_eq_true (List.all_eq_true.mp hupper c hkey)

end DarkUI
