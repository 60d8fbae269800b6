import DarkUI.Foundation.Runs
import DarkUI.Minui.Menu

/-! # The alphabetical index

The alphas are where the runs of one index character start, and an entry's alpha is the
number of its run, as far as 27 runs. The entries of any later run have the number of alphas
as their alpha, which is no place in the alphas.
-/

namespace DarkUI.Minui

open Text Runs

variable {host : Host} {entries : List Entry}

/-- The index characters of the entries. -/
def indexChars (entries : List Entry) : List Nat := entries.map fun entry => getIndexChar entry.name

@[simp] theorem length_indexChars (entries : List Entry) :
    (indexChars entries).length = entries.length := List.length_map _

theorem pushAlpha_take (starts : List Nat) (i : Nat) :
    pushAlpha (starts.take intArrayMax) i = (starts ++ [i]).take intArrayMax := by
  unfold pushAlpha
  rw [List.length_take]
  split
  next hlt =>
    have hroom : starts.length < intArrayMax := by omega
    rw [List.take_of_length_le (Nat.le_of_lt hroom), List.take_of_length_le]
    rw [List.length_append, List.length_singleton]
    exact hroom
  next hge =>
    rw [List.take_append_of_le_length (by omega)]

/-- One entry of the loop: a new run starts where the index character changes. -/
theorem indexAlphas_step (done : List Nat) (a index : Nat)
    (hindex : done ≠ [] → index = min ((starts done).length - 1) intArrayMax) :
    let changed := done.getLast? ≠ some a
    (if changed then pushAlpha ((starts done).take intArrayMax) done.length
      else (starts done).take intArrayMax) = (starts (done ++ [a])).take intArrayMax ∧
    (if changed then ((starts done).take intArrayMax).length else index) =
      min ((starts (done ++ [a])).length - 1) intArrayMax := by
  dsimp only
  rw [starts_concat]
  by_cases hsame : done.getLast? = some a
  · have hne : done ≠ [] := by
      rintro rfl
      cases hsame
    simp only [hsame, ne_eq, not_true_eq_false, if_false, if_true, List.append_nil, true_and]
    exact hindex hne
  · simp only [hsame, ne_eq, not_false_eq_true, if_true, if_false, pushAlpha_take, true_and]
    rw [List.length_take, List.length_append, List.length_singleton, Nat.add_sub_cancel,
      Nat.min_comm]

/-- What the loop makes of the entries behind those it has seen. -/
theorem indexAlphas_spec (done : List Nat) (index : Nat)
    (hindex : done ≠ [] → index = min ((starts done).length - 1) intArrayMax)
    (entries : List Entry) :
    let indexed := indexAlphas done.getLast? index ((starts done).take intArrayMax) done.length
      entries
    indexed.2 = (starts (done ++ indexChars entries)).take intArrayMax ∧
      ∀ p entry, indexed.1[p]? = some entry →
        entry.alpha = min (number (done ++ indexChars entries) (done.length + p)) intArrayMax := by
  induction entries generalizing done index with
  | nil => exact ⟨by simp [indexAlphas, indexChars], fun p entry h => by simp [indexAlphas] at h⟩
  | cons entry rest ih =>
      obtain ⟨halphas, hplace⟩ := indexAlphas_step done (getIndexChar entry.name) index hindex
      have hrest := ih (done ++ [getIndexChar entry.name])
        (min ((starts (done ++ [getIndexChar entry.name])).length - 1) intArrayMax) fun _ => rfl
      have hsplit : done ++ indexChars (entry :: rest) =
          (done ++ [getIndexChar entry.name]) ++ indexChars rest := by simp [indexChars]
      rw [List.getLast?_concat, List.length_append, List.length_singleton] at hrest
      dsimp only [indexAlphas] at hrest halphas hplace ⊢
      rw [halphas, hplace, hsplit]
      refine ⟨hrest.1, fun p other hother => ?_⟩
      cases p with
      | zero =>
          cases hother
          have htake : (done ++ [getIndexChar entry.name] ++ indexChars rest).take
              (done.length + 0 + 1) = done ++ [getIndexChar entry.name] := by
            rw [List.take_append_of_le_length (by simp), List.take_of_length_le (by simp)]
          rw [number, htake]
      | succ p =>
          rw [List.getElem?_cons_succ] at hother
          rw [hrest.2 p other hother, Nat.add_assoc, Nat.add_comm 1 p]

/-- A directory whose alphas are the starts of its first runs. -/
structure Numbered (directory : Directory) : Prop where
  alphas_eq : directory.alphas = (starts (indexChars directory.entries)).take intArrayMax
  alpha_eq : ∀ p entry, directory.entries[p]? = some entry →
    entry.alpha = min (number (indexChars directory.entries) p) intArrayMax

/-- The recents and the collections are not indexed. -/
def skipsIndex (path : CString) : Bool :=
  exactMatch fauxRecentPath path || prefixMatch collectionsPath path

/-- The directory with its entries indexed. -/
def indexedDirectory (host : Host) (fs : FileSystem) (path name : CString) (entries : List Entry)
    (window : Window) : Directory :=
  ⟨path, name, (indexEntries host fs path entries).1, (indexEntries host fs path entries).2, window⟩

variable {fs : FileSystem} {path name : CString} {window w : Window} {directory : Directory}
variable {p s q : Nat}

theorem indexChars_indexEntries (host : Host) (fs : FileSystem) (path : CString)
    (entries : List Entry) :
    indexChars (indexEntries host fs path entries).1 =
      indexChars (mappedEntries host fs path entries) :=
  map_indexEntries host (fun _ _ => rfl) (fun _ _ => rfl) fs path entries

theorem numbered_indexedDirectory (h : skipsIndex path = false) :
    Numbered (indexedDirectory host fs path name entries window) := by
  have hchars := indexChars_indexEntries host fs path entries
  have hmarked : indexChars (markUnique (mappedEntries host fs path entries)) =
      indexChars (mappedEntries host fs path entries) := map_markUnique (fun _ _ => rfl) _
  have hindexed : indexEntries host fs path entries =
      indexAlphas none 0 [] 0 (markUnique (mappedEntries host fs path entries)) :=
    if_neg (by simpa [skipsIndex] using h)
  have hspec := indexAlphas_spec [] 0 (fun hne => absurd rfl hne)
    (markUnique (mappedEntries host fs path entries))
  simp only [List.getLast?_nil, starts_nil, List.take_nil, List.length_nil, List.nil_append,
    Nat.zero_add, hmarked, ← hindexed] at hspec
  constructor
  · rw [indexedDirectory, hchars]
    exact hspec.1
  · rw [indexedDirectory, hchars]
    exact hspec.2

/-- A move ends with the given row selected. -/
def MovesTo (moved : Option Window) (p : Nat) : Prop := ∃ w, moved = some w ∧ w.selected = p

/-- The index is right: the alphas are where runs start, every entry's alpha is the place of the
start of its run, and the shoulder buttons move to the start of the run before or behind. -/
structure AlphaIndex (host : Host) (directory : Directory) : Prop where
  increasing : directory.alphas.Pairwise (· < ·)
  first : directory.entries ≠ [] → directory.alphas[0]? = some 0
  lt_count : ∀ entry ∈ directory.entries, entry.alpha < directory.alphas.length
  start : ∀ p entry, directory.entries[p]? = some entry →
    ∃ s, directory.alphas[entry.alpha]? = some s ∧ RunStart (indexChars directory.entries) p s
  previous : ∀ (w : Window) (p s : Nat), w.selected = p → p < directory.entries.length →
    RunStart (indexChars directory.entries) p s →
    s = 0 ∧ previousAlpha host directory w = some w ∨
      ∃ t, 0 < s ∧ RunStart (indexChars directory.entries) (s - 1) t ∧
        MovesTo (previousAlpha host directory w) t
  next : ∀ (w : Window) (p : Nat), w.selected = p → p < directory.entries.length →
    (∃ q, NextRun (indexChars directory.entries) p q ∧
      MovesTo (nextAlpha host directory w) q) ∨
    nextAlpha host directory w = some w ∧ ∀ q, p ≤ q → q < directory.entries.length →
      (indexChars directory.entries)[q]? = (indexChars directory.entries)[p]?

theorem jumpTo_selected (total rows : Int) (w : Window) (selected : Int) :
    (jumpTo total rows w selected).selected = selected := by
  unfold jumpTo
  split <;> rfl

theorem Directory.item_of_lt (hw : w.selected = p) (hp : p < directory.entries.length) :
    ∃ entry, directory.item w.selected = some entry ∧ directory.entries[p]? = some entry := by
  refine ⟨directory.entries[p], ?_, List.getElem?_eq_getElem hp⟩
  simp [Directory.item, hw, hp]

theorem Directory.alphaItem_of_eq {i : Nat} (h : directory.alphas[i]? = some s) :
    directory.alphaItem (i : Int) = some (s : Int) := by
  simp [Directory.alphaItem, h]

section Numbered

variable {entry : Entry} (h : Numbered directory)
  (hruns : (starts (indexChars directory.entries)).length ≤ intArrayMax)
include h hruns

theorem Numbered.alphas_eq_starts : directory.alphas = starts (indexChars directory.entries) := by
  rw [h.alphas_eq, List.take_of_length_le hruns]

/-- An entry has the number of its run. -/
theorem Numbered.alpha_eq_number (hentry : directory.entries[p]? = some entry) :
    entry.alpha = number (indexChars directory.entries) p ∧
      p < (indexChars directory.entries).length := by
  have hp := (List.getElem?_eq_some_iff.mp hentry).1
  rw [← length_indexChars] at hp
  have hlt := number_lt hp
  rw [h.alpha_eq p entry hentry]
  exact ⟨Nat.min_eq_left (by omega), hp⟩

theorem Numbered.exists_start (hentry : directory.entries[p]? = some entry) :
    ∃ s, directory.alphas[entry.alpha]? = some s ∧
      RunStart (indexChars directory.entries) p s := by
  obtain ⟨halpha, hp⟩ := h.alpha_eq_number hruns hentry
  rw [halpha, h.alphas_eq_starts hruns]
  exact getElem?_number hp

/-- Back from the first run there is no way, and from a later one to the run before. -/
theorem Numbered.previousAlpha_spec (hw : w.selected = p) (hp : p < directory.entries.length)
    (hrun : RunStart (indexChars directory.entries) p s) :
    s = 0 ∧ previousAlpha host directory w = some w ∨
      ∃ t, 0 < s ∧ RunStart (indexChars directory.entries) (s - 1) t ∧
        MovesTo (previousAlpha host directory w) t := by
  have halphas := h.alphas_eq_starts hruns
  obtain ⟨entry, hitem, hentry⟩ := Directory.item_of_lt hw hp
  obtain ⟨s', hs', hrun'⟩ := h.exists_start hruns hentry
  have hlt := (h.alpha_eq_number hruns hentry).2
  cases hrun.unique hlt hrun'
  rw [previousAlpha, hitem]
  cases halpha : entry.alpha with
  | zero =>
      have hne : indexChars directory.entries ≠ [] := List.ne_nil_of_length_pos (by omega)
      rw [halpha, halphas, starts_head hne] at hs'
      cases hs'
      exact .inl ⟨rfl, by simp [halpha]⟩
  | succ r =>
      rw [halpha, halphas] at hs'
      have hr : r < (starts (indexChars directory.entries)).length := by
        have hlast := (List.getElem?_eq_some_iff.mp hs').1
        omega
      obtain ⟨t, ht⟩ : ∃ t, (starts (indexChars directory.entries))[r]? = some t :=
        ⟨_, List.getElem?_eq_getElem hr⟩
      obtain ⟨hpos, hbefore⟩ := runStart_previous hs' ht
      refine .inr ⟨t, hpos, hbefore, _, ?_, jumpTo_selected directory.total host.device.rows w t⟩
      rw [← halphas] at ht
      simp [halpha, Directory.alphaItem_of_eq ht]

/-- On from the last run there is no way, and from an earlier one to the run behind. -/
theorem Numbered.nextAlpha_spec (hw : w.selected = p) (hp : p < directory.entries.length) :
    (∃ q, NextRun (indexChars directory.entries) p q ∧
      MovesTo (nextAlpha host directory w) q) ∨
    nextAlpha host directory w = some w ∧ ∀ q, p ≤ q → q < directory.entries.length →
      (indexChars directory.entries)[q]? = (indexChars directory.entries)[p]? := by
  have halphas := h.alphas_eq_starts hruns
  obtain ⟨entry, hitem, hentry⟩ := Directory.item_of_lt hw hp
  obtain ⟨s, hs, hrun⟩ := h.exists_start hruns hentry
  have hlt := (h.alpha_eq_number hruns hentry).2
  rw [halphas] at hs
  rw [nextAlpha, hitem]
  by_cases hmore : entry.alpha + 1 < (starts (indexChars directory.entries)).length
  · obtain ⟨q, hq⟩ : ∃ q, (starts (indexChars directory.entries))[entry.alpha + 1]? = some q :=
      ⟨_, List.getElem?_eq_getElem hmore⟩
    refine .inl ⟨q, nextRun_of_starts hlt hs hrun hq, _, ?_,
      jumpTo_selected directory.total host.device.rows w q⟩
    rw [← halphas] at hq
    have hitem' := Directory.alphaItem_of_eq hq
    have hroom : (entry.alpha : Int) + 1 < directory.alphas.length := by
      rw [halphas]
      omega
    have hcast : (entry.alpha : Int) + 1 = ((entry.alpha + 1 : Nat) : Int) := by omega
    simp only [Option.bind_eq_bind, Option.bind_some, hroom, if_true]
    rw [hcast, hitem']
    rfl
  · refine .inr ⟨?_, fun q hpq hq => ?_⟩
    · have hnone : ¬(entry.alpha : Int) + 1 < directory.alphas.length := by
        rw [halphas]
        omega
      simp [hnone]
    · rw [← length_indexChars] at hq
      exact same_of_last_start hs hrun (Nat.not_lt.mp hmore) hpq hq

/-- Where the last run still has a place in the alphas, the index is right. -/
theorem Numbered.alphaIndex : AlphaIndex host directory where
  increasing := by
    rw [h.alphas_eq_starts hruns]
    exact starts_sorted _
  first hne := by
    rw [h.alphas_eq_starts hruns]
    apply starts_head
    simpa [indexChars] using hne
  lt_count entry hmem := by
    obtain ⟨p, hp⟩ := List.mem_iff_getElem?.mp hmem
    obtain ⟨s, hs, -⟩ := h.exists_start hruns hp
    exact (List.getElem?_eq_some_iff.mp hs).1
  start _ _ hentry := h.exists_start hruns hentry
  previous _ _ _ hw hp hrun := h.previousAlpha_spec hruns hw hp hrun
  next _ _ hw hp := h.nextAlpha_spec hruns hw hp

end Numbered

/-- The last entry of a later run has no place in the alphas. -/
theorem Numbered.not_alphaIndex (h : Numbered directory)
    (hruns : intArrayMax < (starts (indexChars directory.entries)).length) :
    ¬AlphaIndex host directory := by
  intro hindex
  have hne : indexChars directory.entries ≠ [] := by
    intro hnil
    rw [hnil, starts_nil] at hruns
    cases hruns
  have hpos : 0 < directory.entries.length := by
    rw [← length_indexChars]
    exact List.length_pos_iff.mpr hne
  have hlast : directory.entries.length - 1 < directory.entries.length := by omega
  have hentry := List.getElem?_eq_getElem hlast
  have htake : (indexChars directory.entries).take (directory.entries.length - 1 + 1) =
      indexChars directory.entries := by
    rw [Nat.sub_add_cancel hpos, ← length_indexChars, List.take_length]
  have hlt := hindex.lt_count _ (List.mem_of_getElem? hentry)
  rw [h.alpha_eq _ _ hentry, h.alphas_eq, List.length_take, number, htake] at hlt
  omega

/-- A character stands before the letters, at one of them, or behind them. -/
def codePlace (code : Nat) : Nat :=
  if code < 'a'.toNat then 0 else if code ≤ 'z'.toNat then code - 'a'.toNat + 1 else intArrayMax

/-- Where a name stands by its first character. -/
def letterPlace (name : CString) : Nat :=
  match name with
  | [] => 0
  | c :: _ => codePlace c.toLower.toNat

/-- Both sides of the letters have the same index character. -/
def placeChar (place : Nat) : Nat := if place = intArrayMax then 0 else place

theorem codePlace_le (code : Nat) : codePlace code ≤ intArrayMax := by
  simp only [codePlace, intArrayMax, Char.reduceToNat]
  split_ifs <;> omega

theorem codePlace_mono {c d : Nat} (h : c ≤ d) : codePlace c ≤ codePlace d := by
  simp only [codePlace, intArrayMax, Char.reduceToNat]
  split_ifs <;> omega

theorem letterPlace_le (name : CString) : letterPlace name ≤ intArrayMax := by
  cases name with
  | nil => decide
  | cons c rest => exact codePlace_le _

theorem getIndexChar_eq (name : CString) : getIndexChar name = placeChar (letterPlace name) := by
  cases name with
  | nil => rfl
  | cons c rest =>
      have hlow : 'a' ≤ c.toLower ↔ 'a'.toNat ≤ c.toLower.toNat := Iff.rfl
      have hhigh : c.toLower ≤ 'z' ↔ c.toLower.toNat ≤ 'z'.toNat := Iff.rfl
      simp only [getIndexChar, letterPlace, codePlace, placeChar, hlow, hhigh, intArrayMax,
        Char.reduceToNat]
      split_ifs <;> omega

theorem letterPlace_mono {s t : CString} (h : caseLe s t) : letterPlace s ≤ letterPlace t := by
  cases s with
  | nil => exact Nat.zero_le _
  | cons x xs =>
      cases t with
      | nil => cases h
      | cons y ys =>
          apply codePlace_mono
          unfold caseLe at h
          split at h
          next heq => rw [heq]
          next => exact Nat.le_of_lt (of_decide_eq_true h)

theorem indexChars_eq (entries : List Entry) :
    indexChars entries = (entries.map fun entry => letterPlace entry.name).map placeChar := by
  rw [indexChars, List.map_map]
  apply List.map_congr_left
  intro entry hentry
  exact getIndexChar_eq entry.name

/-- With a name at the first letter, the two sides of the letters are apart. -/
theorem starts_placeChar {places : List Nat} (hsorted : places.Pairwise (· ≤ ·))
    (hle : ∀ place ∈ places, place ≤ intArrayMax) (hone : 1 ∈ places) :
    starts (places.map placeChar) = starts places := by
  have hmono (i j : Nat) (hi : i < places.length) (hj : j < places.length) (hij : i ≤ j) :
      places[i] ≤ places[j] := by
    rcases Nat.eq_or_lt_of_le hij with rfl | hlt
    · exact Nat.le_refl _
    · exact List.pairwise_iff_getElem.mp hsorted i j hi hj hlt
  unfold starts
  rw [List.length_map]
  apply List.filter_congr
  intro i hi
  have hlt : i < places.length := List.mem_range.mp hi
  rw [decide_eq_decide]
  by_cases hzero : i = 0
  · simp [hzero]
  · have hbefore : i - 1 < places.length := by omega
    have hstep := hmono (i - 1) i hbefore hlt (by omega)
    have htop := hle places[i] (List.getElem_mem hlt)
    -- The two sides of the letters share a sign, but never as neighbours.
    have hapart : ¬(places[i - 1] = 0 ∧ places[i] = intArrayMax) := by
      rintro ⟨hfirst, hlast⟩
      obtain ⟨j, hj, heq⟩ := List.mem_iff_getElem.mp hone
      rcases Nat.lt_or_ge j i with hji | hij
      · have hle := hmono j (i - 1) hj hbefore (by omega)
        omega
      · have hle := hmono i j hlt hj hij
        rw [hlast, heq] at hle
        exact absurd hle (by decide)
    simp only [hzero, false_or, List.getElem?_map, List.getElem?_eq_getElem hbefore,
      List.getElem?_eq_getElem hlt, Option.map_some, ne_eq, Option.some.injEq, placeChar,
      not_iff_not]
    split_ifs <;> omega

/-- Sorted entries have one run too many just when a name stands at every letter and others on
both sides of the letters. -/
theorem sorted_runs_iff (hsorted : entries.Pairwise fun a b => caseLe a.name b.name) :
    intArrayMax < (starts (indexChars entries)).length ↔
      ∀ place ≤ intArrayMax, ∃ entry ∈ entries, letterPlace entry.name = place := by
  have hplaces : (entries.map fun entry => letterPlace entry.name).Pairwise (· ≤ ·) :=
    List.pairwise_map.mpr (hsorted.imp letterPlace_mono)
  have hle : ∀ place ∈ entries.map fun entry => letterPlace entry.name, place ≤ intArrayMax := by
    intro place hmem
    obtain ⟨entry, -, rfl⟩ := List.mem_map.mp hmem
    exact letterPlace_le entry.name
  have hall : (∀ place ≤ intArrayMax, ∃ entry ∈ entries, letterPlace entry.name = place) ↔
      Finset.range (intArrayMax + 1) ⊆
        (entries.map fun entry => letterPlace entry.name).toFinset := by
    simp only [Finset.subset_iff, Finset.mem_range, Nat.lt_succ_iff, List.mem_toFinset,
      List.mem_map]
  rw [indexChars_eq, hall]
  generalize entries.map (fun entry => letterPlace entry.name) = places at hplaces hle ⊢
  have hsub : places.toFinset ⊆ Finset.range (intArrayMax + 1) := by
    intro place hmem
    exact Finset.mem_range.mpr (Nat.lt_succ_of_le (hle place (List.mem_toFinset.mp hmem)))
  have hcard := length_starts_of_sorted hplaces
  constructor
  · intro hruns
    have hmap := length_starts_map_le placeChar places
    rw [Finset.eq_of_subset_of_card_le hsub]
    rw [Finset.card_range]
    omega
  · intro hevery
    have hone : 1 ∈ places := by
      apply List.mem_toFinset.mp
      exact hevery (by decide)
    rw [starts_placeChar hplaces hle hone, hcard]
    have hcount := Finset.card_le_card hevery
    rw [Finset.card_range] at hcount
    exact hcount

/-- The index is right just when there are no more runs than places, and there are more in sorted
entries just when a name stands at every letter and others on both sides of the letters. -/
theorem indexedDirectory_alphaIndex_iff (host : Host) (fs : FileSystem) (path name : CString)
    (entries : List Entry) (window : Window) (hindexed : skipsIndex path = false) :
    (AlphaIndex host (indexedDirectory host fs path name entries window) ↔
      (starts (indexChars (mappedEntries host fs path entries))).length ≤ intArrayMax) ∧
    ((mappedEntries host fs path entries).Pairwise (fun a b => caseLe a.name b.name) →
      (intArrayMax < (starts (indexChars (mappedEntries host fs path entries))).length ↔
        ∀ place ≤ intArrayMax, ∃ entry ∈ mappedEntries host fs path entries,
          letterPlace entry.name = place)) := by
  have hnumbered : Numbered (indexedDirectory host fs path name entries window) :=
    numbered_indexedDirectory hindexed
  refine ⟨?_, sorted_runs_iff⟩
  rw [← indexChars_indexEntries]
  constructor
  · intro h
    by_contra hruns
    exact hnumbered.not_alphaIndex (Nat.not_le.mp hruns) h
  · exact hnumbered.alphaIndex

/-- A game file of a folder, under its name. -/
def namedEntry (name : CString) : Entry :=
  ⟨romsPath ++ "/Game Boy (GB)/".toList ++ name ++ ".gb".toList, name, none, .rom, 0⟩

def anyHost : Host := ⟨rg35xx, EntrySort.stable⟩

def gameBoyPath : CString := romsPath ++ "/Game Boy (GB)".toList

/-- Two games at one letter and one at another. -/
def threeGames : List Entry :=
  ["Tennis", "Tetris", "Zelda"].map fun name => namedEntry name.toList

/-- No name stands behind the letters. -/
theorem indexedDirectory_alphaIndex_tetris :
    AlphaIndex anyHost (indexedDirectory anyHost (.ofLists [] []) gameBoyPath "Game Boy".toList
      threeGames ⟨0, 0, 3⟩) := by
  obtain ⟨hright, hruns⟩ := indexedDirectory_alphaIndex_iff anyHost (.ofLists [] []) gameBoyPath
    "Game Boy".toList threeGames ⟨0, 0, 3⟩ (by decide +kernel)
  have hnone : ∀ entry ∈ mappedEntries anyHost (.ofLists [] []) gameBoyPath threeGames,
      letterPlace entry.name ≠ intArrayMax := by
    decide +kernel
  apply hright.mpr
  by_contra hmany
  obtain ⟨entry, hentry, hplace⟩ :=
    (hruns (by decide +kernel)).mp (Nat.not_le.mp hmany) intArrayMax le_rfl
  exact hnone entry hentry hplace

/-- A name at every letter, and one on either side of the letters. -/
def everyLetter : List Entry :=
  (('0' :: (List.range 26).map fun i => Char.ofNat ('a'.toNat + i)) ++ ['~']).map fun c =>
    namedEntry [c]

/-- The sorted names from `0` to `~` make 28 runs, and the last has no place in the alphas. -/
theorem everyLetter_not_alphaIndex :
    everyLetter.Pairwise (fun a b => caseLe a.name b.name) ∧ skipsIndex gameBoyPath = false ∧
      ¬AlphaIndex anyHost (indexedDirectory anyHost (.ofLists [] []) gameBoyPath
        "Game Boy".toList everyLetter ⟨0, 0, 6⟩) := by
  have hskip : skipsIndex gameBoyPath = false := by decide +kernel
  refine ⟨by decide +kernel, hskip, (numbered_indexedDirectory hskip).not_alphaIndex ?_⟩
  rw [indexedDirectory, indexChars_indexEntries]
  decide +kernel

end DarkUI.Minui
