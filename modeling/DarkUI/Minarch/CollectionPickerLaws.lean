import DarkUI.Foundation.Run
import DarkUI.Minarch.CollectionPicker
import DarkUI.Minarch.ToggleLaws

/-! # No game twice, and a row for each collection

The rows find their files by name without regard to case. As long as no name is cut, there
are rows enough and no other spelling of the first row is about, every collection has the
one row of its own name.
-/

namespace DarkUI.Minarch.Menu

open Text Stdio Run

/-- The files the launcher shows as collections. -/
def isCollection (fileName : CString) : Bool :=
  !hide fileName && suffixMatch ".txt".toList fileName

/-- The files that need a row besides the first. -/
def namedFiles (fileNames : List CString) : List CString :=
  (fileNames.filter listed).filter (collectionBase · ≠ favoritesName)

/-- The rows can tell these files apart. -/
structure Listable (fileNames : List CString) : Prop where
  fits : ∀ fileName ∈ fileNames, listed fileName → fileName.length ≤ 127
  spelled : ∀ fileName ∈ fileNames, listed fileName →
    lower (collectionBase fileName) = lower favoritesName → collectionBase fileName = favoritesName
  room : (namedFiles fileNames).length ≤ maxCollections

namespace Collections

/-- The text of a collection, empty if there is no file. -/
def text (dir : Collections) (name : CString) : CString := (dir.read (txtName name)).getD []

/-- No collection lists a game twice. -/
def NoDuplicates (dir : Collections) : Prop :=
  ∀ entry ∈ dir.entries, isCollection entry.1 → (nonEmptyLines entry.2).Nodup

end Collections

namespace Picker

/-- The rows that toggle the file. -/
def rowsOf (s : Picker) (fileName : CString) : Nat :=
  s.items.countP fun name => lower (txtName name) = lower fileName

def ShownOnce (s : Picker) : Prop :=
  ∀ fileName ∈ s.dir.names, isCollection fileName → s.rowsOf fileName = 1

/-- What is printed into the collection comes back as it was. -/
def Writes (s : Picker) (name : CString) : Prop :=
  Printable s.game.rel ∧ TogglesWhole (s.dir.text name) s.game.rel

/-- There is a row to be had for a collection that is created. -/
def HasRow (s : Picker) (name : CString) : Prop :=
  s.dir.read (txtName name) = none → (txtName name).length ≤ 127 ∧
    (name = favoritesName ∨ (namedFiles s.dir.names).length < maxCollections)

/-- A toggle writes what comes back; so does a name that is typed, for a game its
collection does not list. A toggle that spoils another line may list no game twice either, so
this is enough and not needed. -/
def Keeps (s : Picker) : PickerAction → Prop
  | .openOn _ => True
  | .toggle row fopen => fopen → ∀ name, s.items[row]? = some name → s.Writes name
  | .newCollection typed fopen => fopen → ∀ name, newTarget typed.1.1 = some name →
      s.game.rel ∉ nonEmptyLines (s.dir.text name) ∧ s.Writes name ∧ s.HasRow name

end Picker

/-! ## Names and rows -/

section Names

variable {fileName name : CString} {fileNames : List CString}

theorem lower_txtName (name : CString) : lower (txtName name) = lower name ++ ".txt".toList := by
  have htxt : lower ".txt".toList = ".txt".toList := by decide
  rw [txtName, lower_append, htxt]

theorem lower_of_listed (h : listed fileName) :
    lower fileName = (lower fileName).take (fileName.length - 4) ++ ".txt".toList := by
  rw [listed, Bool.and_eq_true, suffixMatch, List.isSuffixOf_iff_suffix] at h
  obtain ⟨t, ht⟩ := h.2
  have htxt : lower ".txt".toList = ".txt".toList := by decide
  rw [htxt] at ht
  have hlength := congrArg List.length ht
  rw [List.length_append, length_lower, show ".txt".toList.length = 4 by decide] at hlength
  rw [← ht, List.take_left' (by omega)]

/-- A name that is not cut is the name of its row and the ending. -/
theorem lower_txtName_base (hlisted : listed fileName) (hfits : fileName.length ≤ 127) :
    lower (txtName (collectionBase fileName)) = lower fileName := by
  have hbase : collectionBase fileName = fileName.take (fileName.length - 4) := by
    rw [collectionBase, List.take_of_length_le hfits]
  rw [lower_txtName, hbase, lower_of_listed hlisted, lower, List.map_take]
  simp [lower]

theorem base_txtName (h : (txtName name).length ≤ 127) : collectionBase (txtName name) = name := by
  have hlength : (txtName name).length - 4 = name.length := by simp [txtName]
  rw [collectionBase, List.take_of_length_le h, hlength]
  exact List.take_left

/-- No row is made of a temporary file. -/
theorem lower_ne_tmp (h : listed fileName) (name : CString) :
    lower fileName ≠ lower (txtName name ++ ".tmp".toList) := by
  intro heq
  have htmp : lower ".tmp".toList = ".tmp".toList := by decide
  rw [lower_of_listed h, lower_append, htmp] at heq
  have hend := (List.append_inj' heq rfl).2
  exact absurd hend (by decide)

theorem listed_of_isCollection (h : isCollection fileName) : listed fileName := by
  simp only [isCollection, hide, Bool.and_eq_true, Bool.not_eq_true', Bool.or_eq_false_iff] at h
  rw [listed, h.1.1.1, h.2]
  rfl

theorem collectionNames_eq (h : (namedFiles fileNames).length ≤ maxCollections) :
    collectionNames fileNames = (namedFiles fileNames).map collectionBase := by
  have hnames : ((fileNames.filter listed).map collectionBase).filter (· ≠ favoritesName) =
      (namedFiles fileNames).map collectionBase := by
    rw [List.filter_map]
    rfl
  rw [collectionNames, hnames, List.take_of_length_le (by rwa [List.length_map])]

/-- Files that get no row make no difference to the rows. -/
theorem namedFiles_filter {p : CString → Bool} (hp : ∀ fileName, listed fileName → p fileName) :
    namedFiles (fileNames.filter p) = namedFiles fileNames := by
  have hkept : (fileNames.filter p).filter listed = fileNames.filter listed := by
    rw [List.filter_filter]
    apply List.filter_congr
    intro fileName _
    cases hlisted : listed fileName with
    | false => rfl
    | true => simp [hp fileName hlisted]
  rw [namedFiles, hkept, namedFiles]

theorem namedFiles_append (fileNames : List CString) (fileName : CString) :
    namedFiles (fileNames ++ [fileName]) = namedFiles fileNames ++ namedFiles [fileName] := by
  simp [namedFiles]

theorem Listable.filter {p : CString → Bool} (h : Listable fileNames)
    (hp : ∀ fileName, listed fileName → p fileName) : Listable (fileNames.filter p) where
  fits fileName hmem := h.fits fileName (List.mem_filter.mp hmem).1
  spelled fileName hmem := h.spelled fileName (List.mem_filter.mp hmem).1
  room := by
    rw [namedFiles_filter hp]
    exact h.room

/-- A collection that is created has a row if its name is not cut. -/
theorem Listable.append (h : Listable fileNames) (hfits : (txtName name).length ≤ 127)
    (hspelled : lower name = lower favoritesName → name = favoritesName)
    (hroom : name = favoritesName ∨ (namedFiles fileNames).length < maxCollections) :
    Listable (fileNames ++ [txtName name]) where
  fits fileName hmem hlisted := by
    rcases List.mem_append.mp hmem with hold | hnew
    · exact h.fits fileName hold hlisted
    · rwa [List.mem_singleton.mp hnew]
  spelled fileName hmem hlisted := by
    rcases List.mem_append.mp hmem with hold | hnew
    · exact h.spelled fileName hold hlisted
    · rwa [List.mem_singleton.mp hnew, base_txtName hfits]
  room := by
    rw [namedFiles_append, List.length_append]
    rcases hroom with rfl | hroom
    · exact h.room
    · have hone : (namedFiles [txtName name]).length ≤ 1 :=
        (List.filter_sublist.trans List.filter_sublist).length_le
      omega

end Names

/-! ## One row a collection -/

section Rows

variable {dir : Collections} {fileName : CString}

/-- Among files told apart by their names, one has the name. -/
theorem countP_lower (hmem : fileName ∈ dir.names) (p : CString → Bool) (hp : p fileName) :
    (dir.names.filter p).countP (fun other => lower other = lower fileName) = 1 := by
  have hdistinct : (dir.names.map lower).Nodup := by
    rw [Folder.names, List.map_map]
    exact dir.distinct
  have hnodup := hdistinct.sublist ((List.filter_sublist (p := p)).map lower)
  have hcount := List.count_eq_one_of_mem hnodup
    (List.mem_map_of_mem (List.mem_filter.mpr ⟨hmem, hp⟩))
  rw [List.count, List.countP_map] at hcount
  rw [← hcount]
  apply List.countP_congr
  intro other _
  simp

theorem rows_eq_one (h : Listable dir.names) (hmem : fileName ∈ dir.names)
    (hcollection : isCollection fileName) :
    dir.items.countP (fun name => lower (txtName name) = lower fileName) = 1 := by
  have hlisted := listed_of_isCollection hcollection
  have hfits := h.fits fileName hmem hlisted
  have hbase := lower_txtName_base hlisted hfits
  -- the rows are named after the files, with case set aside
  have hrows : (collectionNames dir.names).countP
      (fun name => lower (txtName name) = lower fileName) =
        (namedFiles dir.names).countP fun other => lower other = lower fileName := by
    rw [collectionNames_eq h.room, List.countP_map]
    apply List.countP_congr
    intro other hother
    obtain ⟨hother, -⟩ := List.mem_filter.mp hother
    obtain ⟨hother, hlisted⟩ := List.mem_filter.mp hother
    simp only [Function.comp_apply, lower_txtName_base hlisted (h.fits other hother hlisted)]
  rw [Collections.items, List.countP_cons, (List.perm_insertionSort _ _).countP_eq, hrows,
    namedFiles, List.filter_filter]
  by_cases hfavorites : collectionBase fileName = favoritesName
  · -- the first row, and no other spelling of it
    have hnone : (dir.names.filter fun other =>
        decide (collectionBase other ≠ favoritesName) && listed other).countP
          (fun other => lower other = lower fileName) = 0 := by
      rw [List.countP_eq_zero]
      intro other hother
      obtain ⟨hother, hkept⟩ := List.mem_filter.mp hother
      rw [Bool.and_eq_true, decide_eq_true_eq] at hkept
      rw [decide_eq_true_eq]
      intro hsame
      have hbaseOther := lower_txtName_base hkept.2 (h.fits other hother hkept.2)
      rw [hsame, ← hbase, lower_txtName, lower_txtName, List.append_cancel_right_eq] at hbaseOther
      exact hkept.1 (h.spelled other hother hkept.2 (hfavorites ▸ hbaseOther))
    rw [hnone, ← hfavorites, hbase]
    simp
  · have hfirst : lower (txtName favoritesName) ≠ lower fileName := by
      rw [← hbase, lower_txtName, lower_txtName, Ne, List.append_cancel_right_eq]
      exact fun hsame => hfavorites (h.spelled fileName hmem hlisted hsame.symm)
    rw [countP_lower hmem _ (by simp [hfavorites, hlisted])]
    simp [hfirst]

end Rows

/-! ## What a toggle leaves in the folder -/

namespace Collections

variable {dir : Collections} {name rel : CString}

theorem NoDuplicates.remove (h : dir.NoDuplicates) (fileName : CString) :
    NoDuplicates (dir.remove fileName) :=
  fun entry hentry => h entry (Folder.mem_remove.mp hentry).1

/-- A file that is written keeps the folder free of duplicates if its text does. -/
theorem NoDuplicates.write {content : CString} (h : dir.NoDuplicates)
    (hcontent : (nonEmptyLines (dir.text name)).Nodup → (nonEmptyLines content).Nodup) :
    NoDuplicates (dir.write (txtName name) content) := by
  intro entry hentry hcollection
  rcases Folder.mem_write.mp hentry with rfl | ⟨hold, -⟩
  · apply hcontent
    unfold text Folder.read
    cases hfile : dir.file (txtName name) with
    | none => exact List.nodup_nil
    | some found =>
        obtain ⟨hmem, -⟩ := Folder.file_eq_some hfile
        simp only [Folder.spelling, hfile, Option.map_some, Option.getD_some] at hcollection
        exact h found hmem hcollection
  · exact h entry hold hcollection

theorem inCollection_eq (hrel : rel ≠ []) :
    dir.inCollection name rel = decide (rel ∈ nonEmptyLines (dir.text name)) := by
  have hempty : nonEmptyLines [] = [] := rfl
  unfold inCollection text
  cases dir.read (txtName name) with
  | none => simp [hempty]
  | some content => exact any_exactMatch hrel

/-- The temporary file of a removal. -/
def tmpFile (name : CString) : CString := txtName name ++ ".tmp".toList

/-- A toggle writes the toggled text, and a removal clears away the temporary file. -/
theorem toggle_eq (hrel : rel ≠ []) :
    dir.toggle name rel true =
      if rel ∈ nonEmptyLines (dir.text name) then
        (dir.remove (tmpFile name)).write (txtName name) (toggled (dir.text name) rel)
      else dir.write (txtName name) (toggled (dir.text name) rel) := by
  have hlisted := @inCollection_eq dir name rel hrel
  unfold toggle toggled
  by_cases hmem : rel ∈ nonEmptyLines (dir.text name)
  · cases hread : dir.read (txtName name) with
    | none =>
        rw [text, hread] at hmem
        exact absurd hmem List.not_mem_nil
    | some content =>
        have htext : dir.text name = content := by rw [text, hread, Option.getD_some]
        rw [htext] at hlisted hmem ⊢
        simp only [hlisted, hmem, decide_true, Bool.not_true, Bool.false_eq_true, if_false, if_true]
        exact Folder.rename_write dir _ _ _
  · simp only [hlisted, hmem, decide_false, Bool.not_true, Bool.false_eq_true, if_false]
    rfl

theorem file_remove_tmp (dir : Collections) (name : CString) :
    (dir.remove (tmpFile name)).file (txtName name) = dir.file (txtName name) := by
  apply Folder.file_remove_of_ne
  intro heq
  have hlength := congrArg List.length heq
  simp [tmpFile] at hlength

theorem text_remove_tmp (dir : Collections) (name : CString) :
    text (dir.remove (tmpFile name)) name = dir.text name := by
  rw [text, Folder.read, file_remove_tmp, text, Folder.read]

theorem NoDuplicates.toggle {fopen : Bool} (h : dir.NoDuplicates)
    (hwrites : fopen → Printable rel ∧ TogglesWhole (dir.text name) rel) :
    (dir.toggle name rel fopen).NoDuplicates := by
  cases fopen with
  | false => exact h
  | true =>
      obtain ⟨hrel, hwhole⟩ := hwrites rfl
      rw [toggle_eq hrel.ne]
      split_ifs
      · apply (h.remove _).write
        rw [text_remove_tmp]
        exact nodup_toggled hrel hwhole
      · exact h.write (nodup_toggled hrel hwhole)

theorem NoDuplicates.add (h : dir.NoDuplicates) (hunlisted : rel ∉ nonEmptyLines (dir.text name))
    (hrel : Printable rel) (hwhole : TogglesWhole (dir.text name) rel) :
    (dir.add name rel).NoDuplicates := by
  apply h.write
  intro hnodup
  have hperm := nonEmptyLines_added_perm hrel hunlisted hwhole
  exact hperm.nodup_iff.mpr (List.nodup_cons.mpr ⟨hunlisted, hnodup⟩)

/-- Files that are there already, or that the rows can tell from the others, leave the folder
with the rows it has. -/
theorem names_toggle (hrel : rel ≠ []) (fopen : Bool) :
    ∃ p : CString → Bool, (∀ fileName, listed fileName → p fileName) ∧
      ((dir.toggle name rel fopen).names = dir.names.filter p ∨
        dir.file (txtName name) = none ∧
          (dir.toggle name rel fopen).names = dir.names.filter p ++ [txtName name]) := by
  cases fopen with
  | false => exact ⟨fun _ => true, fun _ _ => rfl, Or.inl (by simp [toggle])⟩
  | true =>
      rw [toggle_eq hrel]
      split_ifs with hlisted
      · refine ⟨fun fileName => lower fileName ≠ lower (tmpFile name), ?_, Or.inl ?_⟩
        · intro fileName hlisted
          exact decide_eq_true (lower_ne_tmp hlisted name)
        · rw [Folder.names_write, file_remove_tmp, if_pos, Folder.names_remove]
          by_contra hnone
          rw [text, Folder.read, Option.not_isSome_iff_eq_none.mp hnone] at hlisted
          exact List.not_mem_nil hlisted
      · refine ⟨fun _ => true, fun _ _ => rfl, ?_⟩
        rw [Folder.names_write]
        cases hfile : dir.file (txtName name) with
        | none => exact Or.inr ⟨rfl, by simp⟩
        | some entry => exact Or.inl (by simp)

theorem read_toggle (hrel : rel ≠ []) :
    (dir.toggle name rel true).read (txtName name) = some (toggled (dir.text name) rel) := by
  rw [toggle_eq hrel]
  split
  next => exact Folder.read_write_self _ _ _
  next => exact Folder.read_write_self _ _ _

/-- The collections by their paths on the card. -/
def files (dir : Collections) : Files CString Char := fun path =>
  if collectionsPath ++ ['/'] <+: path then dir.read (path.drop (collectionsPath.length + 1))
  else none

theorem files_collectionPath (dir : Collections) (name : CollectionName) :
    dir.files (collectionPath name) = dir.read (txtName name.1) := by
  have hpath : collectionPath name = collectionsPath ++ ['/'] ++ txtName name.1 := by
    simp [collectionPath_eq, txtName]
  rw [files, hpath, if_pos (List.prefix_append _ _), List.drop_left' (by simp)]

/-- In the folder a toggle does what it does to the file of that path. -/
theorem toggleCollection_files (dir : Collections) (name : CollectionName) {io : ToggleOutcome}
    (hio : io.Complete) (hrel : rel ≠ []) :
    toggleCollection name rel io dir.files (collectionPath name) =
      (dir.toggle name.1 rel true).files (collectionPath name) := by
  rw [files_collectionPath, read_toggle hrel, text, ← files_collectionPath]
  cases hfile : dir.files (collectionPath name) with
  | some content => exact toggleCollection_self hio hfile hrel
  | none =>
      obtain ⟨k, hprint⟩ := hio.add_fprintf
      have hcontent := Stream.content_fwrite_complete (⟨[], []⟩ : Stream Char) (addedChunk rel) k
      have hunlisted : Menu.inCollection dir.files name rel = false := by
        rw [Menu.inCollection, hfile]
      simp only [Stream.content, List.append_nil, List.nil_append] at hcontent
      simp [toggleCollection, addToCollection, toggled, hunlisted, hfile, hio.add_fopen,
        hio.add_fclose, hprint, Stream.fclose, Stream.content, hcontent, nonEmptyLines, readLines,
        pieces, piecesFrom]

end Collections

/-! ## Every run -/

namespace Picker

variable {s s' : Picker} {game : CardPath} {dir : Collections} {input : PickerAction}

/-- What every action keeps: the rows are those of the folder, and can tell its files apart. -/
structure Tidy (s : Picker) : Prop where
  noDuplicates : s.dir.NoDuplicates
  listable : Listable s.dir.names
  items : s.items = s.dir.items

theorem Tidy.shownOnce (h : s.Tidy) : s.ShownOnce := by
  intro fileName hmem hcollection
  rw [rowsOf, h.items]
  exact rows_eq_one h.listable hmem hcollection

/-- A row whose file is not there is the first. -/
theorem Tidy.row_file (h : s.Tidy) {name : CString} (hrow : name ∈ s.items)
    (hnone : s.dir.file (txtName name) = none) : name = favoritesName := by
  rw [h.items, Collections.items, List.mem_cons, (List.perm_insertionSort _ _).mem_iff,
    collectionNames_eq h.listable.room, List.mem_map] at hrow
  rcases hrow with hfirst | ⟨fileName, hnamed, rfl⟩
  · exact hfirst
  · obtain ⟨hmem, -⟩ := List.mem_filter.mp hnamed
    obtain ⟨hmem, hlisted⟩ := List.mem_filter.mp hmem
    obtain ⟨entry, hentry, rfl⟩ := List.mem_map.mp hmem
    have hbase := lower_txtName_base hlisted (h.listable.fits _ hmem hlisted)
    exact absurd hbase.symm (Folder.file_eq_none.mp hnone entry hentry)

theorem items_eq {dir' : Collections} (h : Listable dir.names) (h' : Listable dir'.names)
    (hnamed : namedFiles dir'.names = namedFiles dir.names) : dir'.items = dir.items := by
  rw [Collections.items, Collections.items, collectionNames_eq h.room, collectionNames_eq h'.room,
    hnamed]

theorem Tidy.toggle (h : s.Tidy) {name : CString} {fopen : Bool} (hrow : name ∈ s.items)
    (hwrites : fopen → s.Writes name) :
    Tidy { s with dir := s.dir.toggle name s.game.rel fopen } := by
  obtain ⟨p, hp, hnames⟩ := @Collections.names_toggle s.dir name s.game.rel s.game.rel_ne fopen
  have hfilter := h.listable.filter hp
  have hboth : Listable (s.dir.toggle name s.game.rel fopen).names ∧
      namedFiles (s.dir.toggle name s.game.rel fopen).names = namedFiles s.dir.names := by
    rcases hnames with hnames | ⟨hnone, hnames⟩
    · rw [hnames]
      exact ⟨hfilter, namedFiles_filter hp⟩
    · have hempty : namedFiles [txtName favoritesName] = [] := by decide
      rw [hnames, h.row_file hrow hnone]
      refine ⟨hfilter.append (by decide) (fun _ => rfl) (Or.inl rfl), ?_⟩
      rw [namedFiles_append, hempty, List.append_nil, namedFiles_filter hp]
  refine ⟨h.noDuplicates.toggle hwrites, hboth.1, ?_⟩
  rw [h.items]
  exact (items_eq h.listable hboth.1 hboth.2).symm

/-- The first row is never joined under another spelling. -/
theorem newTarget_spelled {typed name : CString} (h : newTarget typed = some name)
    (hlower : lower name = lower favoritesName) : name = favoritesName := by
  unfold newTarget at h
  dsimp only at h
  split_ifs at h with hempty hfold
  · cases h
    rfl
  · cases h
    exact absurd hlower hfold

theorem Tidy.add (h : s.Tidy) {typed name : CString} (htarget : newTarget typed = some name)
    (hunlisted : s.game.rel ∉ nonEmptyLines (s.dir.text name)) (hwrites : s.Writes name)
    (hrow : s.HasRow name) : Tidy (opened (s.dir.add name s.game.rel) s.game) := by
  refine ⟨h.noDuplicates.add hunlisted hwrites.1 hwrites.2, ?_, rfl⟩
  rw [opened, Collections.add, Folder.names_write]
  cases hfile : s.dir.file (txtName name) with
  | some entry => exact h.listable
  | none =>
      obtain ⟨hfits, hroom⟩ := hrow (by rw [Folder.read, hfile, Option.map_none])
      exact h.listable.append hfits (newTarget_spelled htarget) hroom

theorem Tidy.step (h : s.Tidy) (hkeeps : s.Keeps input) (hstep : s.step input = some s') :
    s'.Tidy := by
  unfold Picker.step at hstep
  cases input with
  | openOn game =>
      cases hstep
      exact ⟨h.noDuplicates, h.listable, rfl⟩
  | toggle row fopen =>
      obtain ⟨name, hname, rfl⟩ := Option.map_eq_some_iff.mp hstep
      exact h.toggle (List.mem_of_getElem? hname) fun hopen => hkeeps hopen name hname
  | newCollection typed fopen =>
      dsimp only at hstep
      split at hstep
      next =>
        cases hstep
        exact h
      next name htarget =>
        cases fopen with
        | false =>
            cases hstep
            exact h
        | true =>
            cases hstep
            obtain ⟨hunlisted, hwrites, hrow⟩ := hkeeps rfl name htarget
            exact h.add htarget hunlisted hwrites hrow

end Picker

/-- Started on a folder whose files the rows can tell apart, a run of the picker lists no game
twice and has one row for each collection. -/
theorem Picker.duplicate_free {dir : Collections} {game : CardPath} {s : Picker}
    (hstart : dir.NoDuplicates) (hlistable : Listable dir.names)
    (hreach : Reaches Picker.step Picker.Keeps (Picker.opened dir game) s) :
    s.dir.NoDuplicates ∧ s.ShownOnce := by
  have htidy : s.Tidy := hreach.invariant ⟨hstart, hlistable, rfl⟩
    fun h hkeeps hstep => h.step hkeeps hstep
  exact ⟨htidy.noDuplicates, htidy.shownOnce⟩

/-! ## Two runs -/

instance (rel : CString) : Decidable (Printable rel) :=
  decidable_of_iff (rel ≠ [] ∧ '\n' ∉ rel ∧ '\x00' ∉ rel)
    ⟨fun h => ⟨h.1, h.2.1, h.2.2⟩, fun h => ⟨h.ne, h.newline, h.nul⟩⟩

instance (fileNames : List CString) : Decidable (Listable fileNames) :=
  decidable_of_iff
    ((∀ fileName ∈ fileNames, listed fileName → fileName.length ≤ 127) ∧
      (∀ fileName ∈ fileNames, listed fileName →
        lower (collectionBase fileName) = lower favoritesName →
          collectionBase fileName = favoritesName) ∧
      (namedFiles fileNames).length ≤ maxCollections)
    ⟨fun h => ⟨h.1, h.2.1, h.2.2⟩, fun h => ⟨h.fits, h.spelled, h.room⟩⟩

instance (dir : Collections) : Decidable dir.NoDuplicates :=
  inferInstanceAs (Decidable (∀ entry ∈ dir.entries, _ → _))

namespace Picker

variable (s : Picker)

instance (name : CString) : Decidable (s.Writes name) := inferInstanceAs (Decidable (_ ∧ _))

instance (name : CString) : Decidable (s.HasRow name) := inferInstanceAs (Decidable (_ → _))

instance : DecidablePred s.Keeps
  | .openOn _ => inferInstanceAs (Decidable True)
  | .toggle row fopen =>
      inferInstanceAs (Decidable (fopen → ∀ name ∈ s.items[row]?, s.Writes name))
  | .newCollection typed fopen =>
      inferInstanceAs (Decidable (fopen → ∀ name ∈ newTarget typed.1.1,
        s.game.rel ∉ nonEmptyLines (s.dir.text name) ∧ s.Writes name ∧ s.HasRow name))

end Picker

/-- A folder with two collections, one of them of the game Tetris. -/
def twoCollections : Collections :=
  ⟨[("RPG.txt".toList, []), ("Favorites.txt".toList, "/Roms/GB/Tetris.gb\n".toList)], by decide⟩

def typedPuzzle : Typed :=
  ⟨⟨"PUZZLE ".toList, by decide⟩, List.forall_iff_forall_mem.mp (by decide)⟩

def typedFavorites : Typed :=
  ⟨⟨"FAVORITES".toList, by decide⟩, List.forall_iff_forall_mem.mp (by decide)⟩

/-- The game joins one collection and creates another. -/
theorem picker_joins : ∃ s,
    Reaches Picker.step (fun s i => decide (s.Keeps i)) (.opened twoCollections tetris) s ∧
      (s.dir.NoDuplicates ∧ s.ShownOnce) ∧
      s.items = ["Favorites".toList, "PUZZLE".toList, "RPG".toList] := by
  obtain ⟨start, s, hopen, hreach, hitems⟩ :=
    @exists_reaches_of_follow _ _ Picker.step (fun s i => decide (s.Keeps i))
      (some (.opened twoCollections tetris))
      [.toggle 1 true, .newCollection typedPuzzle true]
      (fun s => s.items = ["Favorites".toList, "PUZZLE".toList, "RPG".toList]) (by decide +kernel)
  cases hopen
  exact ⟨s, hreach, Picker.duplicate_free (by decide) (by decide)
    (hreach.mono fun _ _ => of_decide_eq_true), of_decide_eq_true hitems⟩

/-- A game that is in Favorites is added to them again under a typed name. -/
theorem picker_duplicates : ∃ s,
    Reaches Picker.step (fun _ _ => True) (.opened twoCollections tetris) s ∧
      twoCollections.NoDuplicates ∧ ¬ s.dir.NoDuplicates := by
  obtain ⟨start, s, hopen, hreach, htwice⟩ :=
    @exists_reaches_of_follow _ _ Picker.step (fun _ _ => true)
      (some (.opened twoCollections tetris))
      [.newCollection typedFavorites true]
      (fun s => ¬ s.dir.NoDuplicates) (by decide +kernel)
  cases hopen
  exact ⟨s, hreach.mono fun _ _ _ => trivial, by decide, of_decide_eq_true htwice⟩

end DarkUI.Minarch.Menu
