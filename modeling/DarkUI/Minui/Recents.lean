import DarkUI.Foundation.Recency
import DarkUI.Minui.Entries

/-! # The recents list as its loops change it

The array of recents is changed in place: items move one place up to make room, the last
ones are popped, and one that is found again is exchanged with its neighbours until it is
first. What the loops leave is what `addRecent` says, and over any run of games it is the
list of those played last.
-/

namespace DarkUI.Minui

open Text Recency

section ItemArray

variable {α : Type*}

/-- The loop of `Array_unshift`, from the last place down. -/
def shiftUp : Nat → List α → List α
  | 0, items => items
  | i + 1, items => shiftUp i (items[i]?.elim items (items.set (i + 1)))

/-- `Array_unshift`, which pushes a null pointer first to have the place. -/
def unshift (null item : α) (items : List α) : List α :=
  if items = [] then items ++ [item]
  else (shiftUp items.length (items ++ [null])).set 0 item

/-- The loop that pops until there is place for one more; every round shortens the array. -/
def popFull : Nat → List α → List α
  | 0, items => items
  | rounds + 1, items => if 24 ≤ items.length then popFull rounds items.dropLast else items

/-- Exchanges an item with the one after it. -/
def swapUp (i : Nat) (items : List α) : List α :=
  match items[i]?, items[i + 1]? with
  | some x, some y => (items.set i y).set (i + 1) x
  | _, _ => items

/-- The loop that brings an item to the front. -/
def bump : Nat → List α → List α
  | 0, items => items
  | i + 1, items => bump i (swapUp i items)

theorem set_shiftUp (null item : α) (items after : List α) :
    (shiftUp items.length (items ++ null :: after)).set 0 item = item :: (items ++ after) := by
  induction items using List.reverseRecOn generalizing null after with
  | nil => rfl
  | append_singleton items x ih =>
      have hget : (items ++ x :: null :: after)[items.length]? = some x := by simp
      have hset : (items ++ x :: null :: after).set (items.length + 1) x =
          items ++ x :: x :: after := by simp
      rw [List.length_append, List.length_singleton, List.append_assoc, List.singleton_append,
        shiftUp, hget, Option.elim_some, hset, ih, List.append_assoc, List.singleton_append]

theorem unshift_eq (null item : α) (items : List α) : unshift null item items = item :: items := by
  unfold unshift
  split
  next hempty => simp [hempty]
  next =>
    rw [set_shiftUp]
    simp

theorem popFull_eq {rounds : Nat} {items : List α} (h : items.length ≤ rounds) :
    popFull rounds items = items.take 23 := by
  induction rounds generalizing items with
  | zero => simp [List.length_eq_zero_iff.mp (Nat.le_zero.mp h), popFull]
  | succ rounds ih =>
      unfold popFull
      split
      next hfull =>
        rw [ih (by simp; omega), List.dropLast_eq_take, List.take_take, Nat.min_eq_left (by omega)]
      next hroom => rw [List.take_of_length_le (by omega)]

theorem bump_eq (x : α) (before after : List α) :
    bump before.length (before ++ x :: after) = x :: (before ++ after) := by
  induction before using List.reverseRecOn generalizing after with
  | nil => rfl
  | append_singleton before y ih =>
      have hswap : swapUp before.length (before ++ [y] ++ x :: after) =
          before ++ x :: y :: after := by
        simp [swapUp]
      rw [List.length_append, List.length_singleton, bump, hswap, ih]
      simp

end ItemArray

namespace RecentArray

/-- The first place that has the path; `-1` is none. -/
def indexOf (recents : List Recent) (str : CString) : Option Nat :=
  recents.findIdx? (exactMatch ·.path str)

/-- What `addRecent` does to the array. -/
def add (null recent : Recent) (recents : List Recent) : List Recent :=
  match indexOf recents recent.path with
  | none => unshift null recent (popFull recents.length recents)
  | some id => bump id recents

theorem indexOf_eq_some {recents : List Recent} {str : CString} {id : Nat}
    (h : indexOf recents str = some id) :
    ∃ before recent after, recents = before ++ recent :: after ∧ before.length = id ∧
      recent.path = str ∧ ∀ other ∈ before, other.path ≠ str := by
  obtain ⟨hlt, hid, hbefore⟩ := List.findIdx?_eq_some_iff_getElem.mp h
  refine ⟨recents.take id, recents[id], recents.drop (id + 1), ?_, ?_, ?_, ?_⟩
  · rw [List.getElem_cons_drop, List.take_append_drop]
  · simpa using hlt.le
  · simpa [exactMatch] using hid
  · intro other hother
    obtain ⟨i, hi, rfl⟩ := List.getElem_of_mem hother
    rw [List.length_take] at hi
    rw [List.getElem_take]
    simpa [exactMatch] using hbefore i (by omega)

variable {null recent : Recent} {recents : List Recent}

theorem add_of_not_mem (h : ∀ other ∈ recents, other.path ≠ recent.path) :
    add null recent recents = recent :: recents.take (maxRecents - 1) := by
  have hindex : indexOf recents recent.path = none := by
    rw [indexOf, List.findIdx?_eq_none_iff]
    intro other hother
    simpa [exactMatch] using h other hother
  rw [add, hindex, unshift_eq, popFull_eq le_rfl]
  rfl

theorem add_of_mem {before after : List Recent} {found : Recent} (hfound : found.path = recent.path)
    (hbefore : ∀ other ∈ before, other.path ≠ recent.path) :
    add null recent (before ++ found :: after) = found :: (before ++ after) := by
  have hindex : indexOf (before ++ found :: after) recent.path = some before.length := by
    rw [indexOf, List.findIdx?_append, List.findIdx?_eq_none_iff.mpr]
    · simp [List.findIdx?_cons, exactMatch, hfound]
    · intro other hother
      simpa [exactMatch] using hbefore other hother
  simp only [add, hindex, bump_eq]

/-- The loops keep the item of a path that is there, and make room for one that is not. -/
theorem add_eq :
    add null recent recents =
      match recents.find? (exactMatch ·.path recent.path) with
      | none => recent :: recents.take (maxRecents - 1)
      | some found => found :: recents.eraseP (exactMatch ·.path recent.path) := by
  cases hfind : recents.find? (exactMatch ·.path recent.path) with
  | none =>
      refine add_of_not_mem fun other hother heq => ?_
      exact List.find?_eq_none.mp hfind other hother (by simpa [exactMatch] using heq)
  | some found =>
      obtain ⟨hfound, before, after, rfl, hbefore⟩ := List.find?_eq_some_iff_append.mp hfind
      have hpath : found.path = recent.path := by simpa [exactMatch] using hfound
      have hnot : ∀ other ∈ before, other.path ≠ recent.path := fun other hother => by
        simpa [exactMatch] using hbefore other hother
      rw [add_of_mem hpath hnot]
      simp only
      have hpassed : ∀ other ∈ before, ¬exactMatch other.path recent.path := fun other hother => by
        simpa [exactMatch] using hnot other hother
      rw [List.eraseP_append_right _ hpassed,
        List.eraseP_cons_of_pos (by simp [exactMatch, hpath])]

/-- Adding a game is a use of its path. -/
theorem map_path_add :
    (add null recent recents).map Recent.path =
      touch maxRecents recent.path (recents.map Recent.path) := by
  by_cases hmem : recent.path ∈ recents.map Recent.path
  · have hsome : (indexOf recents recent.path).isSome := by
      rw [indexOf, List.findIdx?_isSome]
      obtain ⟨found, hfound, heq⟩ := List.mem_map.mp hmem
      exact List.any_eq_true.mpr ⟨found, hfound, by simp [exactMatch, heq]⟩
    obtain ⟨id, hid⟩ := Option.isSome_iff_exists.mp hsome
    obtain ⟨before, found, after, rfl, -, hfound, hbefore⟩ := indexOf_eq_some hid
    have hnot : recent.path ∉ before.map Recent.path := by
      intro hmem
      obtain ⟨other, hother, heq⟩ := List.mem_map.mp hmem
      exact hbefore other hother heq
    rw [add_of_mem hfound hbefore]
    simp only [List.map_append, List.map_cons, hfound]
    rw [touch_append hnot]
  · rw [touch_of_not_mem hmem, add_of_not_mem fun other hother heq =>
      hmem (List.mem_map.mpr ⟨other, hother, heq⟩)]
    simp [List.map_take]

end RecentArray

variable (host : Host)

/-- `addRecent` with the array's loops. -/
def addInPlace (null : Recent) (path : CString) (aliasName : Option CString) (store : Store) :
    Store :=
  let recent := Recent.new host store.fs (withoutSdcard path) aliasName
  saveRecents { store with recents := RecentArray.add null recent store.recents }

/-- The loops do what `addRecent` says. -/
theorem addInPlace_eq (null : Recent) (path : CString) (aliasName : Option CString)
    (store : Store) :
    addInPlace host null path aliasName store = addRecent host path aliasName store := by
  simp only [addInPlace, addRecent, RecentArray.add_eq]
  rfl

theorem map_path_addRecent (path : CString) (aliasName : Option CString) (store : Store) :
    (addRecent host path aliasName store).recents.map Recent.path =
      touch maxRecents (withoutSdcard path) (store.recents.map Recent.path) := by
  rw [← addInPlace_eq host ⟨[], none, false⟩]
  exact RecentArray.map_path_add

/-- Adding one game after another. -/
def addAll (null : Recent) (calls : List (CString × Option CString)) (store : Store) : Store :=
  calls.foldl (fun store call => addInPlace host null call.1 call.2 store) store

theorem map_path_addAll (null : Recent) (calls : List (CString × Option CString)) (store : Store) :
    (addAll host null calls store).recents.map Recent.path =
      (calls.map fun call => withoutSdcard call.1).foldl (fun keys key => touch maxRecents key keys)
        (store.recents.map Recent.path) := by
  induction calls generalizing store with
  | nil => rfl
  | cons call calls ih =>
      rw [addAll, List.foldl_cons, ← addAll, ih, List.map_cons, List.foldl_cons, addInPlace_eq,
        map_path_addRecent]

/-- The recents are the distinct games of the history that were played last. -/
theorem recents_latest (null : Recent) (calls : List (CString × Option CString)) (store : Store)
    (hnodup : (store.recents.map Recent.path).Nodup) (hcount : store.recents.length ≤ maxRecents) :
    let played := calls.reverse.map fun call => withoutSdcard call.1
    let recents := (addAll host null calls store).recents
    (recents.map Recent.path).Nodup ∧
      recents.map Recent.path = latest maxRecents (played ++ store.recents.map Recent.path) := by
  have hstart :
      store.recents.map Recent.path = latest maxRecents (store.recents.map Recent.path) := by
    rw [latest, eraseDups_of_nodup hnodup, List.take_of_length_le (by simpa using hcount)]
  have hrun : (addAll host null calls store).recents.map Recent.path =
      latest maxRecents ((calls.reverse.map fun call => withoutSdcard call.1) ++
        store.recents.map Recent.path) := by
    rw [map_path_addAll, hstart, foldl_touch_latest (by decide), ← hstart, List.map_reverse]
  dsimp only
  rw [hrun]
  exact ⟨nodup_latest, rfl⟩

/-- Two games, the second of which is played again. -/
def twoRecents : Store where
  fs := .ofLists [] []
  tmp := .empty
  recents := [⟨"/Roms/GB/a.gb".toList, none, true⟩, ⟨"/Roms/GB/b.gb".toList, none, true⟩]

theorem recents_latest_again :
    (addAll ⟨rg35xx, .stable⟩ ⟨[], none, false⟩ [(sdcardPath ++ "/Roms/GB/b.gb".toList, none)]
        twoRecents).recents.map Recent.path =
      ["/Roms/GB/b.gb".toList, "/Roms/GB/a.gb".toList] :=
  (recents_latest ⟨rg35xx, .stable⟩ ⟨[], none, false⟩ _ twoRecents (by decide) (by decide)).2.trans
    (by decide)

end DarkUI.Minui
