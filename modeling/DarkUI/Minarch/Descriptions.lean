import DarkUI.Common.WrapLaws

/-! # What a core says of its options

A core explains an option in a text of any length. The menu keeps it twice, wrapped for two
fonts. Wrapping passes the last line through an array of its own, and the last line is all
that the allowed number of lines has left over.
-/

namespace DarkUI.Minarch

open Text Gfx

/-- The explanation of an option as `OptionList_init` keeps it. -/
structure Description where
  desc : CString
  full : CString
  deriving DecidableEq, Repr

/-- The bytes `calloc` is asked for, for each of the two texts. -/
def descSpace (info : CString) : Nat := info.length + 1

/-- What the call of `GFX_wrapText` is given besides the text. -/
structure WrapCall where
  width : CString → Int
  maxWidth : Int
  maxLines : Nat

namespace WrapCall

variable (call : WrapCall)

def result (str : CString) : Option (CString × Int) :=
  wrapText call.width call.maxWidth str call.maxLines

def copies (str : CString) : List CString :=
  wrapCopies call.width call.maxWidth str call.maxLines

/-- The text that is left for the last line. -/
def left (str : CString) : CString :=
  if call.width str ≤ call.maxWidth then str
  else lastLine call.width call.maxWidth call.maxLines str

end WrapCall

/-- The fonts the menu writes explanations in. -/
structure DescFonts where
  tiny : CString → Int
  medium : CString → Int

namespace DescFonts

variable (font : DescFonts)

def descCall : WrapCall := ⟨font.tiny, scale1 240, 2⟩
def fullCall : WrapCall := ⟨font.medium, scale1 240, 7⟩

/-- The part of `OptionList_init` that wraps `def->info`. -/
def describe (info : CString) : Option Description :=
  (font.descCall.result info).bind fun (desc, _) =>
    (font.fullCall.result info).map fun (full, _) => ⟨desc, full⟩

/-- Every string copied into the array is shorter than it, and what is written back has room
with its NUL where the explanation was. -/
structure InBounds (info : CString) : Prop where
  copied : ∀ s ∈ font.descCall.copies info ++ font.fullCall.copies info, s.length < maxPath
  room : ∀ description, font.describe info = some description →
    description.desc.length + 1 ≤ descSpace info ∧ description.full.length + 1 ≤ descSpace info

end DescFonts

/-- The array is long enough just when what is left for the last line is shorter. -/
theorem WrapCall.copies_short_iff (call : WrapCall) (str : CString) :
    (∀ s ∈ call.copies str, s.length < maxPath) ↔ (call.left str).length < maxPath := by
  unfold WrapCall.copies WrapCall.left wrapCopies
  split
  next => exact truncateCopies_short_iff
  next => exact truncateCopies_short_iff

theorem WrapCall.length_left_le (call : WrapCall) (str : CString) :
    (call.left str).length ≤ str.length := by
  unfold WrapCall.left
  split
  next => exact Nat.le_refl _
  next => exact length_lastLine

theorem WrapCall.length_result_le {call : WrapCall} {str out : CString} {w : Int}
    (h : call.result str = some (out, w)) : out.length ≤ str.length := length_wrapText h

namespace DescFonts

variable (font : DescFonts) (info : CString)

/-- The text written back is not longer, however wide its characters are. -/
theorem describe_room {description : Description} (h : font.describe info = some description) :
    description.desc.length + 1 ≤ descSpace info ∧
      description.full.length + 1 ≤ descSpace info := by
  unfold describe at h
  obtain ⟨⟨desc, w⟩, hdesc, hrest⟩ := Option.bind_eq_some_iff.mp h
  obtain ⟨⟨full, v⟩, hfull, rfl⟩ := Option.map_eq_some_iff.mp hrest
  exact ⟨Nat.succ_le_succ (WrapCall.length_result_le hdesc),
    Nat.succ_le_succ (WrapCall.length_result_le hfull)⟩

/-- For two given fonts, what either call leaves for its last line has to be short enough. -/
theorem inBounds_iff_left : font.InBounds info ↔
    (font.descCall.left info).length < maxPath ∧ (font.fullCall.left info).length < maxPath := by
  rw [← WrapCall.copies_short_iff, ← WrapCall.copies_short_iff]
  constructor
  · intro h
    exact ⟨fun s hs => h.copied s (List.mem_append_left _ hs),
      fun s hs => h.copied s (List.mem_append_right _ hs)⟩
  · rintro ⟨hdesc, hfull⟩
    refine ⟨fun s hs => ?_, fun _ => font.describe_room info⟩
    exact (List.mem_append.mp hs).elim (hdesc s) (hfull s)

/-- A font so narrow that every text fits on one line. -/
def narrow : DescFonts := ⟨fun _ => 0, fun _ => 0⟩

/-- The explanation is in bounds whatever the fonts just when it is shorter than the array; in
given fonts just when what the lines before the last have not taken of it is. -/
theorem inBounds_iff (info : CString) :
    ((∀ font : DescFonts, font.InBounds info) ↔ info.length < maxPath) ∧
      ∀ font : DescFonts, font.InBounds info ↔
        (font.descCall.left info).length < maxPath ∧
          (font.fullCall.left info).length < maxPath := by
  refine ⟨⟨fun h => ?_, fun h font => ?_⟩, fun font => font.inBounds_iff_left info⟩
  · have hleft := ((narrow.inBounds_iff_left info).mp (h narrow)).1
    exact hleft
  · rw [font.inBounds_iff_left info]
    exact ⟨Nat.lt_of_le_of_lt (WrapCall.length_left_le _ _) h,
      Nat.lt_of_le_of_lt (WrapCall.length_left_le _ _) h⟩

/-- One word as long as the array, in a font a pixel wide. -/
theorem long_word_out_of_bounds :
    ¬∀ (font : DescFonts) (info : CString), font.InBounds info := by
  intro h
  let word : CString := List.replicate maxPath 'a'
  have hword : ' ' ∉ word := fun hmem => absurd (List.eq_of_mem_replicate hmem) (by decide)
  have hlength : word.length = maxPath := List.length_replicate
  have hwide : ¬fixed word ≤ scale1 240 := by
    rw [fixed, hlength]
    decide
  have hleft := ((inBounds_iff_left ⟨fixed, fixed⟩ word).mp (h ⟨fixed, fixed⟩ word)).1
  have hwhole : (descCall ⟨fixed, fixed⟩).left word = word :=
    (if_neg hwide).trans (lastLine_of_word hword)
  rw [hwhole, hlength] at hleft
  exact Nat.lt_irrefl _ hleft

end DescFonts

end DarkUI.Minarch
