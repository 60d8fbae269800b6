import DarkUI.Foundation.Block
import DarkUI.Minui.Entries

/-! # The containers of the launcher

Arrays of pointers that double when they are full, and the hash that keeps its keys in one and
its values in another. Elsewhere both are lists. What `realloc` answers is an input, and a cell
that was never written holds nothing, like a null pointer.
-/

namespace DarkUI.Minui

open Text

/-- `Array`, with the cells that were allocated for it. -/
structure CArray (α : Type*) where
  count : Nat
  capacity : Nat
  items : List (Option α)

namespace CArray

variable {α : Type*}

/-- `Array_new` -/
def new : CArray α := ⟨0, 8, List.replicate 8 none⟩

/-- `self->items[self->count++] = item` -/
def append (item : Option α) (self : CArray α) : Option (CArray α) :=
  (Block.store self.items self.count item).map fun items =>
    { self with count := self.count + 1, items }

/-- `Array_push`; the capacity has doubled also if `realloc` grants nothing. -/
def push (granted : Bool) (item : Option α) (self : CArray α) : Option (CArray α) :=
  if self.capacity ≤ self.count then
    let capacity := self.capacity * 2
    if granted then
      append item
        { self with
          capacity
          items := self.items ++ List.replicate (capacity - self.items.length) none }
    else some { self with capacity }
  else append item self

/-- `Array_unshift` -/
def unshift (granted : Bool) (item : Option α) (self : CArray α) : Option (CArray α) :=
  if self.count = 0 then push granted item self
  else
    (push granted none self).bind fun self =>
      (Block.shiftUp (self.count - 1) self.items).bind fun items =>
        (Block.store items 0 item).map fun items => { self with items }

/-- `Array_pop`, with the item it returns. -/
def pop (self : CArray α) : Option (CArray α × Option α) :=
  if self.count = 0 then some (self, none)
  else
    (Block.load self.items (self.count - 1)).map fun item =>
      ({ self with count := self.count - 1 }, item)

end CArray

inductive ArrayCall (α : Type*)
  | push (item : α)
  | unshift (item : α)
  | pop

namespace ArrayCall

variable {α : Type*}

/-- A call on the array, with the item that `Array_pop` returns. -/
def call (granted : Bool) (self : CArray α) : ArrayCall α → Option (CArray α × Option α)
  | push item => (self.push granted (some item)).map fun self => (self, none)
  | unshift item => (self.unshift granted (some item)).map fun self => (self, none)
  | pop => self.pop

/-- The same on a list. -/
def onList (list : List α) : ArrayCall α → List α × Option α
  | push item => (list ++ [item], none)
  | unshift item => (item :: list, none)
  | pop => (list.dropLast, list.getLast?)

/-- Calls in order, each with what `realloc` would answer, and what they returned. -/
def run : List (ArrayCall α × Bool) → CArray α → Option (CArray α × List (Option α))
  | [], self => some (self, [])
  | (c, granted) :: rest, self =>
      (c.call granted self).bind fun (self, item) =>
        (run rest self).map fun (self, items) => (self, item :: items)

def runOnList : List (ArrayCall α) → List α → List α × List (Option α)
  | [], list => (list, [])
  | c :: rest, list =>
      let (list, item) := c.onList list
      let (list, items) := runOnList rest list
      (list, item :: items)

end ArrayCall

namespace CArray

variable {α : Type*} {self : CArray α} {cells : List (Option α)} {list : List α}

/-- The cells in use, at the front of those allocated. -/
structure Holds (a : CArray α) (cells : List (Option α)) : Prop where
  items : ∃ rest, a.items = cells ++ rest
  count : a.count = cells.length

/-- The capacity is that of the block, which no refused `realloc` has left behind. -/
structure Sized (a : CArray α) : Prop where
  capacity : a.capacity = a.items.length
  pos : 0 < a.capacity

theorem Holds.count_le (h : self.Holds cells) : self.count ≤ self.items.length := by
  obtain ⟨rest, hrest⟩ := h.items
  rw [hrest, h.count, List.length_append]
  exact Nat.le_add_right _ _

theorem new_holds : (new : CArray α).Holds [] := ⟨⟨_, rfl⟩, rfl⟩

theorem new_sized : (new : CArray α).Sized := ⟨rfl, Nat.succ_pos 7⟩

theorem append_holds (h : self.Holds cells) (hroom : self.count < self.items.length)
    (item : Option α) :
    ∃ t, self.append item = some t ∧ t.Holds (cells ++ [item]) ∧ t.capacity = self.capacity ∧
      t.items.length = self.items.length := by
  obtain ⟨rest, hrest⟩ := h.items
  rw [hrest, h.count, List.length_append] at hroom
  cases rest with
  | nil => exact absurd hroom (by simp)
  | cons x rest =>
      refine ⟨{ self with count := self.count + 1, items := cells ++ item :: rest },
        ?_, ?_, rfl, ?_⟩
      · rw [append, hrest, h.count, Block.store_at]
        rfl
      · refine ⟨⟨rest, ?_⟩, ?_⟩
        · exact List.append_cons cells item rest
        · rw [List.length_append, ← h.count]
          rfl
      · simp [hrest]

/-- An item finds room without `realloc`. -/
theorem push_room (h : self.Holds cells) (hroom : self.count < self.items.length)
    (hcapacity : self.items.length ≤ self.capacity) (granted : Bool) (item : Option α) :
    ∃ t, self.push granted item = some t ∧ t.Holds (cells ++ [item]) ∧
      t.capacity = self.capacity ∧ t.items.length = self.items.length := by
  have hbelow : ¬ self.capacity ≤ self.count := by omega
  rw [push, if_neg hbelow]
  exact append_holds h hroom item

/-- An array of its size takes any item that `realloc` makes room for. -/
theorem push_sized (h : self.Holds cells) (hsized : self.Sized) (item : Option α) :
    ∃ t, self.push true item = some t ∧ t.Holds (cells ++ [item]) ∧ t.Sized := by
  have hpos := hsized.pos
  by_cases hfull : self.capacity ≤ self.count
  · rw [push, if_pos hfull]
    dsimp only
    rw [if_pos rfl]
    obtain ⟨rest, hrest⟩ := h.items
    let grown : CArray α :=
      { self with
        capacity := self.capacity * 2
        items := self.items ++ List.replicate (self.capacity * 2 - self.items.length) none }
    have hgrown : grown.Holds cells :=
      ⟨⟨rest ++ List.replicate _ none, by rw [← List.append_assoc, ← hrest]⟩, h.count⟩
    have hlength : grown.items.length = self.capacity * 2 := by
      have hcapacity := hsized.capacity
      simp only [grown, List.length_append, List.length_replicate]
      omega
    have hroom : grown.count < grown.items.length := by
      have hcount : grown.count = self.count := rfl
      have hcapacity := hsized.capacity
      have hle := h.count_le
      omega
    obtain ⟨t, ht, hholds, hcap, hlen⟩ := append_holds hgrown hroom item
    refine ⟨t, ht, hholds, ?_, ?_⟩
    · rw [hcap, hlen, hlength]
    · rw [hcap]
      exact Nat.mul_pos hpos (by decide)
  · have hroom : self.count < self.items.length := by
      rw [← hsized.capacity]
      omega
    obtain ⟨t, ht, hholds, hcap, hlen⟩ :=
      push_room h hroom (Nat.le_of_eq hsized.capacity.symm) true item
    refine ⟨t, ht, hholds, ?_, ?_⟩
    · rw [hcap, hlen]
      exact hsized.capacity
    · rw [hcap]
      exact hpos

/-- A block that is full while the capacity says otherwise is written past its end. -/
theorem push_past (hfull : self.items.length = self.count) (hlies : self.count < self.capacity)
    (granted : Bool) (item : Option α) : self.push granted item = none := by
  rw [push, if_neg (Nat.not_le.mpr hlies), append, Block.store_past (Nat.le_of_eq hfull)]
  rfl

/-- Once there is a cell more, the items move up and the first is stored before them. -/
theorem unshift_of_push (item : Option α) {granted : Bool} {t : CArray α}
    (h : self.Holds cells) (hcells : cells ≠ []) (hpush : self.push granted none = some t)
    (ht : t.Holds (cells ++ [none])) :
    ∃ u, self.unshift granted item = some u ∧ u.Holds (item :: cells) ∧
      u.capacity = t.capacity ∧ u.items.length = t.items.length := by
  have hcount : self.count ≠ 0 := by
    rw [h.count]
    exact fun hzero => hcells (List.eq_nil_of_length_eq_zero hzero)
  obtain ⟨rest, hrest⟩ := ht.items
  rw [List.append_assoc, List.singleton_append] at hrest
  have hbefore : t.count - 1 = cells.length := by
    rw [ht.count]
    simp
  obtain ⟨z, hz⟩ := Block.shiftUp_at cells rest none
  have hfirst : Block.store (z :: cells ++ rest) 0 item = some (item :: cells ++ rest) :=
    Block.store_at [] (cells ++ rest) z item
  refine ⟨{ t with items := item :: cells ++ rest }, ?_, ⟨⟨rest, rfl⟩, ?_⟩, rfl, ?_⟩
  · rw [unshift, if_neg hcount, hpush, Option.bind_some, hbefore, hrest, hz, Option.bind_some,
      hfirst]
    rfl
  · rw [ht.count]
    simp
  · rw [hrest]
    simp only [List.length_append, List.length_cons]
    omega

theorem unshift_nil (h : self.Holds []) (granted : Bool) (item : Option α) :
    self.unshift granted item = self.push granted item := by
  rw [unshift, if_pos (show self.count = 0 from h.count)]

theorem pop_holds (h : self.Holds (list.map some)) :
    ∃ t, self.pop = some (t, list.getLast?) ∧ t.Holds (list.dropLast.map some) ∧
      t.capacity = self.capacity ∧ t.items = self.items := by
  cases list using List.reverseRecOn with
  | nil => exact ⟨self, if_pos h.count, h, rfl, rfl⟩
  | append_singleton list x =>
      obtain ⟨rest, hrest⟩ := h.items
      rw [List.map_append, List.map_singleton, List.append_assoc, List.singleton_append] at hrest
      have hcount : self.count = (list.map some).length + 1 := by
        rw [h.count]
        simp
      have hload : Block.load self.items (self.count - 1) = some (some x) := by
        rw [hrest, hcount, Nat.add_sub_cancel]
        exact Block.load_at (list.map some) rest (some x)
      refine ⟨{ self with count := self.count - 1 }, ?_, ⟨⟨some x :: rest, ?_⟩, ?_⟩, rfl, rfl⟩
      · rw [pop, if_neg (by omega), hload, List.getLast?_append]
        rfl
      · rw [List.dropLast_append_cons]
        simpa using hrest
      · rw [List.dropLast_append_cons]
        simp [hcount]

end CArray

namespace ArrayCall

open CArray

variable {α : Type*} {self : CArray α} {list : List α}

/-- `Array_unshift` of an empty array is `Array_push`. -/
theorem call_unshift_nil (h : self.Holds []) (granted : Bool) (item : α) :
    (unshift item).call granted self = (push item).call granted self := by
  rw [call, call, unshift_nil h]

/-- While `realloc` grants what it is asked for, a call does to the array what it does to the
list. -/
theorem call_sized (h : self.Holds (list.map some)) (hsized : self.Sized) (c : ArrayCall α) :
    ∃ t, c.call true self = some (t, (c.onList list).2) ∧
      t.Holds ((c.onList list).1.map some) ∧ t.Sized := by
  cases c with
  | push item =>
      obtain ⟨t, ht, hholds, hsize⟩ := push_sized h hsized (some item)
      refine ⟨t, ?_, ?_, hsize⟩
      · rw [call, ht]
        rfl
      · rw [onList, List.map_append]
        exact hholds
  | unshift item =>
      cases list with
      | nil =>
          obtain ⟨t, ht, hholds, hsize⟩ := push_sized h hsized (some item)
          refine ⟨t, ?_, hholds, hsize⟩
          rw [call_unshift_nil h, call, ht]
          rfl
      | cons x list =>
          obtain ⟨t, ht, hholds, hsize⟩ := push_sized h hsized none
          obtain ⟨u, hu, huholds, hcapacity, hlength⟩ :=
            unshift_of_push (some item) h (by simp) ht hholds
          refine ⟨u, ?_, huholds, ?_, ?_⟩
          · rw [call, hu]
            rfl
          · rw [hcapacity, hlength]
            exact hsize.capacity
          · rw [hcapacity]
            exact hsize.pos
  | pop =>
      obtain ⟨t, ht, hholds, hcapacity, hitems⟩ := pop_holds h
      refine ⟨t, ht, hholds, ?_, ?_⟩
      · rw [hcapacity, hitems]
        exact hsized.capacity
      · rw [hcapacity]
        exact hsized.pos

theorem run_sized (calls : List (ArrayCall α)) (h : self.Holds (list.map some))
    (hsized : self.Sized) :
    ∃ t, run (calls.map (·, true)) self = some (t, (runOnList calls list).2) ∧
      t.Holds ((runOnList calls list).1.map some) ∧ t.Sized := by
  induction calls generalizing self list with
  | nil => exact ⟨self, rfl, h, hsized⟩
  | cons c rest ih =>
      obtain ⟨m, hm, hholds, hsize⟩ := call_sized h hsized c
      obtain ⟨t, ht, hlast⟩ := ih hholds hsize
      refine ⟨t, ?_, hlast⟩
      rw [List.map_cons, run, hm, Option.bind_some]
      dsimp only
      rw [ht]
      rfl

/-- Any calls from an empty array stay in its block, return what they would return of a list,
and leave the list in the array. -/
theorem arrays_are_lists (calls : List (ArrayCall α)) :
    ∃ t, run (calls.map (·, true)) new = some (t, (runOnList calls []).2) ∧
      t.Holds ((runOnList calls []).1.map some) := by
  obtain ⟨t, ht, hholds, -⟩ := @run_sized _ _ [] calls new_holds new_sized
  exact ⟨t, ht, hholds⟩

/-! ## A refused `realloc` -/

/-- The list never gets longer than the cells there are. -/
def Fits (n : Nat) : List (ArrayCall α) → List α → Prop
  | [], _ => True
  | c :: rest, list => (c.onList list).1.length ≤ n ∧ Fits n rest (c.onList list).1

/-- The capacity is more than the block. -/
structure Lies (n : Nat) (a : CArray α) : Prop where
  length : a.items.length = n
  lt : n < a.capacity

variable {n : Nat}

theorem Lies.of_eq {t u : CArray α} (h : Lies n t) (hcapacity : u.capacity = t.capacity)
    (hlength : u.items.length = t.items.length) : Lies n u :=
  ⟨hlength.trans h.length, hcapacity ▸ h.lt⟩

theorem push_lies {cells : List (Option α)} (h : self.Holds cells) (hlies : Lies n self)
    (granted : Bool) (item : Option α) :
    if cells.length < n then
      ∃ t, self.push granted item = some t ∧ t.Holds (cells ++ [item]) ∧ Lies n t
    else self.push granted item = none := by
  split
  next hroom =>
    have hcount : self.count < self.items.length := by
      rw [h.count, hlies.length]
      exact hroom
    have hcapacity : self.items.length ≤ self.capacity := by
      rw [hlies.length]
      exact Nat.le_of_lt hlies.lt
    obtain ⟨t, ht, hholds, hcap, hlen⟩ := push_room h hcount hcapacity granted item
    exact ⟨t, ht, hholds, hlies.of_eq hcap hlen⟩
  next hfull =>
    have hcount : self.items.length = self.count := by
      have hle := h.count_le
      have hlength := hlies.length
      have hcells := h.count
      omega
    refine push_past hcount ?_ granted item
    rw [← hcount, hlies.length]
    exact hlies.lt

/-- What a call does to an array whose capacity is more than its block: it goes wrong just when
the list it leaves has no room. -/
def GoesBy (n : Nat) (granted : Bool) (self : CArray α) (list : List α) (c : ArrayCall α) : Prop :=
  if (c.onList list).1.length ≤ n then
    ∃ t, c.call granted self = some (t, (c.onList list).2) ∧
      t.Holds ((c.onList list).1.map some) ∧ Lies n t
  else c.call granted self = none

theorem push_goesBy (h : self.Holds (list.map some)) (hlies : Lies n self) (granted : Bool)
    (item : α) : GoesBy n granted self list (.push item) := by
  have hpush := push_lies h hlies granted (some item)
  rw [List.length_map] at hpush
  simp only [GoesBy, onList, List.length_append, List.length_singleton, Nat.add_one_le_iff]
  split
  next hroom =>
    rw [if_pos hroom] at hpush
    obtain ⟨t, ht, hholds, hlie⟩ := hpush
    refine ⟨t, ?_, ?_, hlie⟩
    · rw [call, ht]
      rfl
    · rw [List.map_append]
      exact hholds
  next hfull =>
    rw [if_neg hfull] at hpush
    rw [call, hpush]
    rfl

theorem unshift_goesBy {x : α} (h : self.Holds ((x :: list).map some)) (hlies : Lies n self)
    (granted : Bool) (item : α) : GoesBy n granted self (x :: list) (.unshift item) := by
  have hpush := push_lies h hlies granted none
  rw [List.length_map, List.length_cons] at hpush
  simp only [GoesBy, onList, List.length_cons, Nat.add_one_le_iff]
  split
  next hroom =>
    rw [if_pos hroom] at hpush
    obtain ⟨t, ht, hholds, hlie⟩ := hpush
    obtain ⟨u, hu, huholds, hcapacity, hlength⟩ :=
      unshift_of_push (some item) h (List.cons_ne_nil _ _) ht hholds
    refine ⟨u, ?_, huholds, hlie.of_eq hcapacity hlength⟩
    rw [call, hu]
    rfl
  next hfull =>
    rw [if_neg hfull] at hpush
    have hcount : self.count ≠ 0 := by
      rw [h.count]
      exact Nat.succ_ne_zero _
    rw [call, CArray.unshift, if_neg hcount, hpush]
    rfl

theorem pop_goesBy (h : self.Holds (list.map some)) (hlies : Lies n self) (granted : Bool) :
    GoesBy n granted self list .pop := by
  obtain ⟨t, ht, hholds, hcapacity, hitems⟩ := pop_holds h
  have hfits : list.dropLast.length ≤ n := by
    have hle := h.count_le
    rw [h.count, hlies.length, List.length_map] at hle
    rw [List.length_dropLast]
    omega
  rw [GoesBy, onList, if_pos hfits]
  exact ⟨t, ht, hholds, hlies.of_eq hcapacity (congrArg List.length hitems)⟩

theorem call_goesBy (h : self.Holds (list.map some)) (hlies : Lies n self) (granted : Bool)
    (c : ArrayCall α) : GoesBy n granted self list c := by
  cases c with
  | push item => exact push_goesBy h hlies granted item
  | unshift item =>
      cases list with
      | nil =>
          rw [GoesBy, call_unshift_nil h]
          exact push_goesBy h hlies granted item
      | cons x list => exact unshift_goesBy h hlies granted item
  | pop => exact pop_goesBy h hlies granted

theorem run_lies_iff {calls : List (ArrayCall α × Bool)} (h : self.Holds (list.map some))
    (hlies : Lies n self) : (run calls self).isSome ↔ Fits n (calls.map Prod.fst) list := by
  induction calls generalizing self list with
  | nil => exact iff_of_true rfl trivial
  | cons first rest ih =>
      obtain ⟨c, granted⟩ := first
      have hcall := call_goesBy h hlies granted c
      rw [GoesBy] at hcall
      rw [List.map_cons, Fits, run]
      split at hcall
      next hfits =>
        obtain ⟨t, ht, hholds, hlie⟩ := hcall
        rw [ht, Option.bind_some, Option.isSome_map, ih hholds hlie]
        exact (and_iff_right hfits).symm
      next hpast =>
        rw [hcall]
        exact iff_of_false Bool.false_ne_true fun h => hpast h.1

/-- When `realloc` is refused, a push leaves a full array as it was, but for the capacity: what
is called from then on stays in the block exactly as long as the list is no longer than it was. -/
theorem refused_growth (calls : List (ArrayCall α)) {items : List (Option α)}
    (hrun : run (calls.map (·, true)) new = some (self, items))
    (hfull : self.count = self.capacity) (item : Option α) (later : List (ArrayCall α × Bool)) :
    ∃ t, self.push false item = some t ∧ t.capacity = self.capacity * 2 ∧
      t.Holds ((runOnList calls []).1.map some) ∧
      ((run later t).isSome ↔
        Fits (runOnList calls []).1.length (later.map Prod.fst) (runOnList calls []).1) := by
  obtain ⟨m, hm, hholds, hsized⟩ := @run_sized _ _ [] calls new_holds new_sized
  rw [hrun] at hm
  cases hm
  have hcapacity := hsized.capacity
  have hpos := hsized.pos
  have hlength : self.count = (runOnList calls []).1.length := by
    rw [hholds.count, List.length_map]
  have hpush : self.push false item = some { self with capacity := self.capacity * 2 } := by
    rw [CArray.push, if_pos (Nat.le_of_eq hfull.symm)]
    rfl
  have hkept : CArray.Holds { self with capacity := self.capacity * 2 }
      ((runOnList calls []).1.map some) := ⟨hholds.items, hholds.count⟩
  refine ⟨_, hpush, rfl, hkept, run_lies_iff hkept ⟨?_, ?_⟩⟩
  · dsimp only
    omega
  · dsimp only
    omega

/-- The eight items that a new array has room for. -/
def eight : CArray Nat := ⟨8, 8, (List.range 8).map some⟩

theorem refused_growth_eight :
    ∃ t, eight.push false (some 8) = some t ∧ (run [(.pop, true), (.push 9, true)] t).isSome ∧
      ¬ (run [(.push 9, true)] t).isSome := by
  have hrun : run (((List.range 8).map ArrayCall.push).map (·, true)) new
      = some (eight, List.replicate 8 none) := rfl
  obtain ⟨t, ht, -, -, hfits⟩ := refused_growth _ hrun rfl (some 8) [(.push 9, true)]
  obtain ⟨u, hu, -, -, hpopped⟩ :=
    refused_growth _ hrun rfl (some 8) [(.pop, true), (.push 9, true)]
  obtain rfl : t = u := Option.some.inj (ht.symm.trans hu)
  refine ⟨t, ht, hpopped.mpr ⟨by decide, by decide, trivial⟩, fun h => ?_⟩
  exact absurd (hfits.mp h).1 (by decide)

end ArrayCall

/-! ## The hash -/

/-- `Hash`, its keys in one array and its values in another. -/
structure HashArrays where
  keys : CArray CString
  values : CArray CString

namespace HashArrays

/-- `Hash_new` -/
def new : HashArrays := ⟨.new, .new⟩

/-- `Hash_set`, with what `realloc` would answer for the keys and for the values. -/
def set (self : HashArrays) (entry : CString × CString) (granted : Bool × Bool) :
    Option HashArrays :=
  (self.keys.push granted.1 (some entry.1)).bind fun keys =>
    (self.values.push granted.2 (some entry.2)).map fun values => { keys, values }

/-- Calls of `Hash_set` in order. -/
def setAll (entries : List ((CString × CString) × Bool × Bool)) (self : HashArrays) :
    Option HashArrays :=
  entries.foldlM (fun self entry => self.set entry.1 entry.2) self

/-- `Hash_get` with `StringArray_indexOf` -/
def get (key : CString) (self : HashArrays) : Option (Option CString) :=
  (Block.search (fun cell => cell.any (exactMatch · key)) self.keys.items self.keys.count 0).bind
    fun
    | none => some none
    | some i => Block.load self.values.items i

/-- Each value stands where its key does. -/
structure Holds (h : HashArrays) (map : Hash) : Prop where
  keys : h.keys.Holds (map.map fun entry => some entry.1)
  values : h.values.Holds (map.map fun entry => some entry.2)
  keysSized : h.keys.Sized
  valuesSized : h.values.Sized

variable {self : HashArrays} {map : Hash}

theorem new_holds : new.Holds [] :=
  ⟨CArray.new_holds, CArray.new_holds, CArray.new_sized, CArray.new_sized⟩

theorem set_holds (h : self.Holds map) (entry : CString × CString) :
    ∃ t, self.set entry (true, true) = some t ∧ t.Holds (map ++ [entry]) := by
  obtain ⟨keys, hkeys, hkholds, hksized⟩ := CArray.push_sized h.keys h.keysSized (some entry.1)
  obtain ⟨values, hvalues, hvholds, hvsized⟩ :=
    CArray.push_sized h.values h.valuesSized (some entry.2)
  refine ⟨⟨keys, values⟩, ?_, ?_, ?_, hksized, hvsized⟩
  · rw [set, hkeys, Option.bind_some, hvalues]
    rfl
  · rw [List.map_append]
    exact hkholds
  · rw [List.map_append]
    exact hvholds

theorem setAll_holds (entries : Hash) (h : self.Holds map) :
    ∃ t, setAll (entries.map (·, true, true)) self = some t ∧ t.Holds (map ++ entries) := by
  induction entries generalizing self map with
  | nil => exact ⟨self, rfl, by rwa [List.append_nil]⟩
  | cons entry rest ih =>
      obtain ⟨m, hm, hholds⟩ := set_holds h entry
      obtain ⟨t, ht, hlast⟩ := ih hholds
      refine ⟨t, ?_, ?_⟩
      · rw [setAll, List.map_cons, List.foldlM_cons, hm]
        exact ht
      · rw [List.append_assoc] at hlast
        exact hlast

/-- The search looks at the keys in use only, and finds the first that is equal. -/
theorem search_keys (h : self.keys.Holds (map.map fun entry => some entry.1)) (key : CString) :
    Block.search (fun cell => cell.any (exactMatch · key)) self.keys.items self.keys.count 0 =
      some (map.findIdx? fun entry => exactMatch entry.1 key) := by
  obtain ⟨rest, hkeys⟩ := h.items
  have hat := Block.search_at (fun cell => cell.any (exactMatch · key)) []
    (map.map fun entry => some entry.1) rest
  rw [List.nil_append, ← hkeys, ← h.count, List.findIdx?_map] at hat
  exact hat.trans (by simp [Function.comp_def])

theorem get_holds (h : self.Holds map) (key : CString) : self.get key = some (map.get key) := by
  obtain ⟨vrest, hvalues⟩ := h.values.items
  have hfound := Block.getElem?_of_findIdx? (fun entry => exactMatch entry.1 key)
    (fun entry => some entry.2) map
  rw [get, search_keys h.keys, Option.bind_some, Hash.get]
  cases hindex : map.findIdx? fun entry => exactMatch entry.1 key with
  | none =>
      have hnone : map.find? (fun entry => exactMatch entry.1 key) = none := by
        simpa [hindex] using hfound.symm
      rw [hnone]
      rfl
  | some i =>
      have hin : i < (map.map fun entry => some entry.2).length := by
        rw [List.length_map]
        exact (List.findIdx?_eq_some_iff_getElem.mp hindex).1
      rw [hindex, Option.bind_some, List.getElem?_eq_getElem hin] at hfound
      obtain ⟨entry, hentry, hvalue⟩ := Option.map_eq_some_iff.mp hfound.symm
      dsimp only
      rw [hentry, Block.load, hvalues, List.getElem?_append_left hin,
        List.getElem?_eq_getElem hin, ← hvalue]
      rfl

/-- A key whose value was refused its cell is found where the values have none. -/
theorem refused_value (h : self.Holds map) (hfull : self.values.count = self.values.capacity)
    {entry : CString × CString} (hnew : map.get entry.1 = none) :
    ∃ t, self.set entry (true, false) = some t ∧ t.get entry.1 = none := by
  obtain ⟨keys, hkeys, hkholds, -⟩ := CArray.push_sized h.keys h.keysSized (some entry.1)
  have hvalues : self.values.push false (some entry.2) =
      some { self.values with capacity := self.values.capacity * 2 } := by
    rw [CArray.push, if_pos (Nat.le_of_eq hfull.symm)]
    rfl
  refine ⟨⟨keys, _⟩, by rw [set, hkeys, Option.bind_some, hvalues]; rfl, ?_⟩
  have hkeep : CArray.Holds keys ((map ++ [entry]).map fun entry => some entry.1) := by
    rw [List.map_append]
    exact hkholds
  have hlast : (map ++ [entry]).findIdx? (fun other => exactMatch other.1 entry.1) =
      some map.length := by
    have hnone : map.findIdx? (fun other => exactMatch other.1 entry.1) = none := by
      simpa [Hash.get] using hnew
    rw [List.findIdx?_append, hnone]
    simp [exactMatch]
  have hlength : self.values.items.length ≤ map.length := by
    have hcount := h.values.count
    have hcapacity := h.valuesSized.capacity
    rw [List.length_map] at hcount
    omega
  rw [get, search_keys hkeep, hlast, Option.bind_some]
  exact List.getElem?_eq_none hlength

/-- While `realloc` grants what it is asked for, what is set in a new hash is found in it by its
key, the first of equal keys, without a read outside the arrays. If it then grows the keys and not
the values, a new key is found where the values have no cell. -/
theorem hash_is_list (entries : Hash) :
    ∃ t, setAll (entries.map (·, true, true)) new = some t ∧
      (∀ key, t.get key = some (entries.get key)) ∧
      (t.values.count = t.values.capacity → ∀ entry : CString × CString,
        entries.get entry.1 = none →
        ∃ u, t.set entry (true, false) = some u ∧ u.get entry.1 = none) := by
  obtain ⟨t, ht, hholds⟩ := setAll_holds entries new_holds
  rw [List.nil_append] at hholds
  exact ⟨t, ht, get_holds hholds, fun hfull _ hnew => refused_value hholds hfull hnew⟩

end HashArrays

end DarkUI.Minui
