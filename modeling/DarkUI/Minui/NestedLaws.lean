import DarkUI.Common.Ancestors
import DarkUI.Minui.ResumeLaws
import Mathlib.Tactic.SplitIfs

/-! # Directories lie in each other

What every turn of the main loop keeps, from what opening, closing and reading again a directory
keep. One such thing is that below the root every open directory lies in the one it was opened
from, or next to it where console folders are collated.
-/

namespace DarkUI.Minui

open Text

/-- The items that `readdir` finds have no slash in their names. -/
def NoSlash (fs : FileSystem) : Prop :=
  ∀ path items, fs.dir path = some items → ∀ item ∈ items, '/' ∉ item.name

/-- The entry lies one level below the path. -/
structure Below (path : CString) (entry : CString) : Prop where
  under : UnderCard entry
  slashes : slashes entry = slashes path + 1

variable {host : Host} {fs : FileSystem} {path : CString}

theorem NoSlash.visibleItems (hfs : NoSlash fs) {item : Dirent}
    (h : item ∈ visibleItems fs path) : '/' ∉ item.name := by
  have hitem := List.mem_of_mem_filter h
  cases hopen : fs.opendir path with
  | none => simp [hopen] at hitem
  | some items =>
      rw [hopen] at hitem
      unfold FileSystem.opendir at hopen
      split at hopen
      next => exact hfs _ items hopen item hitem
      next => exact hfs _ items hopen item hitem

theorem NoSlash.of_dir {fs' : FileSystem} (h : NoSlash fs) (hdir : fs'.dir = fs.dir) :
    NoSlash fs' := by
  intro path items hitems
  exact h path items (hdir ▸ hitems)

theorem NoSlash.unlink (h : NoSlash fs) : NoSlash (fs.unlink path) := by
  intro folder items hitems item hitem
  obtain ⟨old, hold, rfl⟩ := Option.map_eq_some_iff.mp hitems
  refine h folder old hold item ?_
  split at hitem
  · exact List.mem_of_mem_filter hitem
  · exact hitem

/-! ## What a folder lists -/

theorem addedEntry_below {item : Dirent} (hpath : UnderCard path) (hitem : '/' ∉ item.name) :
    Below path (addedEntry host path item).path where
  under := hpath.append ('/' :: item.name)
  slashes := slashes_append_cons hitem

theorem slashes_of_isConsoleDir (h : isConsoleDir path = true) :
    slashes path = slashes romsPath + 1 := by
  have hparent : parentPath path = romsPath := beq_iff_eq.mp h
  have hne : parentPath path ≠ path := by
    intro hsame
    rw [hparent] at hsame
    rw [← hsame] at hparent
    exact absurd hparent (by decide)
  rw [slashes_of_parentPath hne, hparent]

theorem romsFolder_under (name : CString) : UnderCard (romsPath ++ '/' :: name) :=
  ⟨"Roms/".toList ++ name, by simp [romsPath]⟩

theorem getEntries_below (hfs : NoSlash fs) (hpath : UnderCard path) {entry : Entry}
    (h : entry ∈ getEntries host fs path) : Below path entry.path := by
  have hmem := (host.qsort.perm _).mem_iff.mp h
  split at hmem
  next hconsole =>
    obtain ⟨folder, hfolder, hentry⟩ := List.mem_flatMap.mp hmem
    obtain ⟨item, hitem, rfl⟩ := List.mem_map.mp hentry
    obtain ⟨dirent, hdirent, rfl⟩ := List.mem_map.mp (List.mem_of_mem_filter hfolder)
    have hname : '/' ∉ dirent.name := hfs.visibleItems (List.mem_of_mem_filter hdirent)
    have hbelow := @addedEntry_below host _ item (romsFolder_under dirent.name)
      (hfs.visibleItems hitem)
    refine ⟨hbelow.under, hbelow.slashes.trans ?_⟩
    rw [slashes_of_isConsoleDir hconsole, slashes_append_cons hname]
  next =>
    obtain ⟨item, hitem, rfl⟩ := List.mem_map.mp hmem
    exact addedEntry_below hpath (hfs.visibleItems hitem)

/-- Recents, collections and lists of discs hold no folders. -/
theorem listing_below (hfs : NoSlash fs) (hpath : UnderCard path) (recents : List Recent)
    {entry : Entry} (h : entry ∈ Directory.listing host fs recents path)
    (hdir : entry.type = .dir) : Below path entry.path := by
  unfold Directory.listing at h
  split at h
  next =>
    obtain ⟨recent, _, rfl⟩ := List.mem_map.mp h
    simp only [recentEntry, Entry.new] at hdir
    split at hdir <;> cases hdir
  next =>
    split at h
    next =>
      obtain ⟨line, _, hline⟩ := List.mem_filterMap.mp h
      unfold collectionEntry at hline
      dsimp only at hline
      split at hline
      next =>
        cases hline
        simp only [Entry.new] at hdir
        split at hdir <;> cases hdir
      next => cases hline
    next =>
      split at h
      next =>
        obtain ⟨i, _, rfl⟩ := List.mem_mapIdx.mp h
        cases hdir
      next => exact getEntries_below hfs hpath h

theorem openedEntries_below {store : Store} (hfs : NoSlash store.fs) (hpath : UnderCard path)
    {entry : Entry} (h : entry ∈ openedEntries host store path) (hdir : entry.type = .dir) :
    Below path entry.path := by
  have hlisting : ∀ entry ∈ Directory.listing host store.fs store.recents path,
      entry.type = .dir → Below path entry.path :=
    fun entry hentry => listing_below hfs hpath store.recents hentry
  exact forall_indexEntries host (P := fun file type => type = .dir → Below path file) store.fs path
    hlisting entry h hdir

/-- Every entry of the root is a folder on the card. -/
theorem rootEntries_under {simpleMode : Bool} {window : Window} {store : Store} :
    ∀ entry ∈ (Directory.new host simpleMode sdcardPath window store).1.entries,
      UnderCard entry.path := by
  have hload : ∀ entry ∈ (Directory.load host simpleMode sdcardPath store).1,
      UnderCard entry.path := by
    rw [Directory.load, if_pos (by rfl)]
    refine forall_getRoot simpleMode store (fun _ _ h => h) ?_ ?_ ?_ ?_ ?_
    · exact ⟨"Recently Played".toList, rfl⟩
    · exact ⟨"Collections".toList, rfl⟩
    · exact fun name => romsFolder_under name
    · exact fun name => ⟨"Collections/".toList ++ name, by simp [Entry.new, collectionsPath]⟩
    · exact ⟨"Tools/".toList ++ host.device.platform, by simp [Entry.new, Device.toolsPath]⟩
  exact forall_indexEntries host (P := fun file _ => UnderCard file)
    (Directory.load host simpleMode sdcardPath store).2.fs sdcardPath hload

namespace Directory

/-- The entries of the root lie on the card, and the folders in a folder lie in it. -/
structure Nested (d : Directory) : Prop where
  root : d.path = sdcardPath → ∀ entry ∈ d.entries, UnderCard entry.path
  below : d.path ≠ sdcardPath → ∀ entry ∈ d.entries, entry.type = .dir →
    Below d.path entry.path

variable {simpleMode : Bool} {window : Window} {store : Store}

theorem new_dir : (new host simpleMode path window store).2.fs.dir = store.fs.dir := by
  simp only [new, load]
  split
  next => simp [getRoot, hasRecents, saveRecents]
  next => rfl

theorem new_nested (hfs : NoSlash store.fs) (hpath : path = sdcardPath ∨ UnderCard path) :
    (new host simpleMode path window store).1.Nested where
  root hroot := by
    obtain rfl : path = sdcardPath := hroot
    exact rootEntries_under
  below hne entry hentry hdir := by
    rw [new_path] at hne ⊢
    rw [new_entries_of_ne hne] at hentry
    exact openedEntries_below hfs (hpath.resolve_left hne) hentry hdir

end Directory

namespace Launcher

variable {uninit : Uninit} {frame : Frame} {l l' m : Launcher}

/-! ## What every turn keeps -/

/-- The same directories are open, on the same card but for what its files hold. -/
structure SameStack (l l' : Launcher) : Prop where
  path : l'.top.path = l.top.path
  entries : l'.top.entries = l.top.entries
  below : l'.below = l.below
  dir : l'.fs.dir = l.fs.dir

theorem SameStack.refl : SameStack l l := ⟨rfl, rfl, rfl, rfl⟩

theorem SameStack.of_view (h : SameView l l') : SameStack l l' :=
  ⟨by rw [h.top], by rw [h.top], h.below, by rw [fs, h.store.1, fs]⟩

/-- What is kept while directories are opened, closed and read again. -/
structure Preserved (host : Host) (P : Launcher → Prop) : Prop where
  same : ∀ {l l'}, P l → SameStack l l' → P l'
  push : ∀ {l entry}, P l → entry ∈ l.top.entries → entry.type = .dir → P (l.push host entry.path)
  close : ∀ {l l'}, P l → l.closeDirectory = some l' → P l'
  rebuild : ∀ {l l' frame path}, P l → l.rebuild host frame path = some l' → P l'

namespace Preserved

variable {P : Launcher → Prop}

theorem openEntry (h : Preserved host P) (hl : P l) {entry : Entry}
    (hentry : entry ∈ l.top.entries) :
    (l.openEntry host uninit entry).quit = true ∨ P (l.openEntry host uninit entry) := by
  have hnamed : P { l with recentAlias := some entry.name } := h.same hl ⟨rfl, rfl, rfl, rfl⟩
  rcases openEntry_cases entry with ⟨-, path, last, heq⟩ | ⟨-, hquit⟩ | ⟨htype, -, heq⟩
  · rw [heq]
    rcases (openRom_opened path last).launched with hquit | hsame
    · exact Or.inl hquit
    · rw [hsame]
      exact Or.inr (h.same hnamed ⟨rfl, rfl, rfl, rfl⟩)
  · exact Or.inl hquit
  · rw [heq]
    exact Or.inr (h.push hnamed hentry htype)

theorem setDirty (h : Preserved host P) (hl : P l) (dirty : Bool) :
    P { l with dirty := dirty } :=
  h.same hl ⟨rfl, rfl, rfl, rfl⟩

theorem readySelected (h : Preserved host P) (hl : P l) (hready : l.readySelected = some l') :
    P l' :=
  h.same hl (.of_view (readySelected_view hready).1)

theorem settle (h : Preserved host P) (hl : P l) (hsettle : l.settle host frame = some l') :
    P l' := by
  simp only [Launcher.settle, Launcher.move, Option.bind_eq_bind, Option.bind_eq_some_iff,
    Option.pure_def, Option.some.injEq] at hsettle
  obtain ⟨moved, ⟨w, _, rfl⟩, hready⟩ := hsettle
  have hmoved : P { l with
      showVersion := frame.tappedMenu
      dirty := l.dirty || frame.tappedMenu || w.selected ≠ l.top.selected
      top := { l.top with window := w } } := h.same hl ⟨rfl, rfl, rfl, rfl⟩
  split at hready
  next => exact h.readySelected hmoved hready
  next =>
    cases hready
    exact hmoved

theorem delete (h : Preserved host P) (hl : P l) (hdelete : l.delete host frame = some l') :
    P l' := by
  simp only [Launcher.delete, Option.bind_eq_bind, Option.bind_eq_some_iff, Option.pure_def,
    Option.some.injEq, Prod.exists] at hdelete
  obtain ⟨changed, m, hdelete, rfl⟩ := hdelete
  suffices hm : P m from h.same hm ⟨rfl, rfl, rfl, rfl⟩
  unfold deleteSelectedCollection at hdelete
  split at hdelete
  next =>
    cases hdelete
    exact hl
  next =>
    simp only [Option.bind_eq_bind, Option.bind_eq_some_iff, Option.pure_def] at hdelete
    obtain ⟨entry, -, hdelete⟩ := hdelete
    split_ifs at hdelete
    · cases hdelete
      exact hl
    · cases hdelete
      exact hl
    · cases hdelete
      exact hl
    · obtain ⟨rebuilt, hrebuild, heq⟩ := Option.bind_eq_some_iff.mp hdelete
      cases heq
      exact h.rebuild hl hrebuild

theorem act (h : Preserved host P) (hl : P l) (hact : l.act host frame = some l') :
    l'.quit = true ∨ P l' := by
  unfold Launcher.act at hact
  split at hact
  next =>
    simp only [Launcher.resume, Option.bind_eq_bind, Option.bind_eq_some_iff, Option.pure_def,
      Option.some.injEq] at hact
    obtain ⟨entry, hentry, rfl⟩ := hact
    have hresuming : P { l with shouldResume := true } := h.same hl ⟨rfl, rfl, rfl, rfl⟩
    refine (h.openEntry hresuming (Directory.mem_of_item hentry)).imp id fun hopened => ?_
    exact h.same hopened ⟨rfl, rfl, rfl, rfl⟩
  next =>
    split at hact
    next =>
      simp only [Launcher.openSelected, Option.bind_eq_bind, Option.bind_eq_some_iff] at hact
      obtain ⟨entry, hentry, hready⟩ := hact
      rcases h.openEntry hl (Directory.mem_of_item hentry) with hquit | hopened
      · exact Or.inl ((readySelected_view hready).2.trans hquit)
      · exact Or.inr (h.readySelected (h.setDirty hopened true) hready)
    next =>
      simp only [Option.bind_eq_bind, Option.bind_eq_some_iff] at hact
      obtain ⟨deletes, -, hact⟩ := hact
      cases deletes with
      | true => exact Or.inr (h.delete hl hact)
      | false =>
          simp only [Bool.false_eq_true, if_false] at hact
          split at hact
          next =>
            simp only [Launcher.goBack, Option.bind_eq_bind, Option.bind_eq_some_iff] at hact
            obtain ⟨m, hclose, hready⟩ := hact
            exact Or.inr (h.readySelected (h.setDirty (h.close hl hclose) true) hready)
          next =>
            cases hact
            exact Or.inr hl

theorem turn (h : Preserved host P) (hl : P l) (hturn : l.turn host frame = some l') :
    l'.quit = true ∨ P l' := by
  simp only [Launcher.turn, Option.bind_eq_bind, Option.bind_eq_some_iff] at hturn
  obtain ⟨input, hinput, drawn, hdraw, hhdmi⟩ := hturn
  have hdirty : P { l with dirty := l.dirty || frame.redraw } := h.same hl ⟨rfl, rfl, rfl, rfl⟩
  have hafter : input.quit = true ∨ P input := by
    unfold Launcher.handleInput at hinput
    split at hinput
    next =>
      cases hinput
      split
      next => exact Or.inr (h.same hl ⟨rfl, rfl, rfl, rfl⟩)
      next => exact Or.inr hdirty
    next =>
      simp only [Option.bind_eq_bind, Option.bind_eq_some_iff] at hinput
      obtain ⟨m, hsettle, hact⟩ := hinput
      exact h.act (h.settle hdirty hsettle) hact
  -- drawing changes no directory
  have hdrawn : drawn.quit = true ∨ P drawn := by
    unfold Launcher.drawDirty at hdraw
    split at hdraw
    next =>
      obtain ⟨_, _, rfl⟩ := Option.map_eq_some_iff.mp hdraw
      rcases hafter with hquit | hl
      · exact Or.inl hquit
      · exact Or.inr (h.setDirty hl false)
    next =>
      cases hdraw
      exact hafter
  -- a change of the screen leaves the loop
  unfold Launcher.handleHdmi at hhdmi
  split at hhdmi
  next =>
    simp only [Option.bind_eq_bind, Option.bind_eq_some_iff, Option.pure_def,
      Option.some.injEq] at hhdmi
    obtain ⟨entry, _, rfl⟩ := hhdmi
    exact Or.inl rfl
  next =>
    cases hhdmi
    rcases hdrawn with hquit | hl
    · exact Or.inl hquit
    · exact Or.inr (h.same hl ⟨rfl, rfl, rfl, rfl⟩)

theorem scanLast (h : Preserved host P) (isMatch : Entry → Bool) (final : Bool)
    (rows : List (Entry × Nat)) (hl : P l) (hrows : ∀ row ∈ rows, row.1 ∈ l.top.entries) :
    P (scanLast host isMatch final rows l) := by
  induction rows generalizing l with
  | nil => exact hl
  | cons row rest ih =>
      have hselect : P (l.selectRow host row.2) := h.same hl ⟨rfl, rfl, rfl, rfl⟩
      have hrest : ∀ row ∈ rest, row.1 ∈ l.top.entries :=
        fun row hrow => hrows row (List.mem_cons_of_mem _ hrow)
      unfold Launcher.scanLast
      split
      next =>
        split
        next => exact hselect
        next =>
          split
          next htype => exact h.push hselect (hrows row List.mem_cons_self) htype
          next => exact ih hselect hrest
      next => exact ih hl hrest

theorem reopenLast (h : Preserved host P) (fullPath : CString) (paths : List CString) (hl : P l) :
    P (l.reopenLast host fullPath paths) := by
  induction paths generalizing l with
  | nil => exact hl
  | cons path rest ih =>
      refine ih ?_
      unfold reopenStep
      split
      next => exact hl
      next =>
        refine h.scanLast _ _ _ hl fun row hrow => ?_
        exact List.mem_of_getElem? (List.mem_zipIdx_iff_getElem?.mp hrow)

theorem init (h : Preserved host P) {fs : FileSystem} {tmp : Tmp} (hstart : P (start host fs tmp))
    (hinit : Launcher.init host fs tmp = some l) : P l := by
  unfold Launcher.init loadLast at hinit
  split at hinit
  next =>
    cases hinit
    exact hstart
  next =>
    obtain ⟨paths, _, rfl⟩ := Option.map_eq_some_iff.mp hinit
    exact h.reopenLast _ _ hstart

/-- What is kept holds of every launcher that still runs. -/
theorem reaches (h : Preserved host P) {fs : FileSystem} {tmp : Tmp} {l₀ : Launcher}
    (hstart : P (start host fs tmp)) (hinit : Launcher.init host fs tmp = some l₀)
    (hreach : Run.Reaches (fun l frame => Launcher.turn host frame l) (fun l _ => l.quit = false)
      l₀ l) : l.quit = true ∨ P l := by
  have hfirst : l₀.quit = true ∨ P l₀ := Or.inr (h.init hstart hinit)
  induction hreach with
  | refl => exact hfirst
  | tail _ hrunning hturn ih =>
      rcases ih with hquit | hl
      · rw [hrunning] at hquit
        cases hquit
      · exact h.turn hl hturn

end Preserved

/-! ## Nested directories -/

/-- Each directory lies in the one that is open below it, and the last is the root. -/
def Trail : Directory → List Directory → Prop
  | d, [] => d.path = sdcardPath
  | d, parent :: below =>
      UnderCard d.path ∧
        (parent.path ≠ sdcardPath → slashes d.path = slashes parent.path + 1) ∧
        Trail parent below

structure Nested (l : Launcher) : Prop where
  names : NoSlash l.fs
  listed : ∀ d ∈ l.stack, d.Nested
  trail : Trail l.top l.below

theorem Trail.of_path {d d' : Directory} {below : List Directory} (h : Trail d below)
    (hpath : d'.path = d.path) : Trail d' below := by
  cases below with
  | nil => exact hpath.trans h
  | cons parent rest =>
      unfold Trail
      rw [hpath]
      exact h

theorem Nested.same (h : l.Nested) (hsame : SameStack l l') : l'.Nested where
  names := h.names.of_dir hsame.dir
  listed := by
    intro d hd
    rcases List.mem_cons.mp hd with rfl | hd
    · have htop := h.listed l.top List.mem_cons_self
      exact ⟨by rw [hsame.path, hsame.entries]; exact htop.root,
        by rw [hsame.path, hsame.entries]; exact htop.below⟩
    · exact h.listed d (List.mem_cons_of_mem _ (hsame.below ▸ hd))
  trail := by
    rw [hsame.below]
    exact h.trail.of_path hsame.path

theorem Nested.push (h : l.Nested) {entry : Entry} (hentry : entry ∈ l.top.entries)
    (htype : entry.type = .dir) : (l.push host entry.path).Nested := by
  have htop := h.listed l.top List.mem_cons_self
  have hunder : UnderCard entry.path := by
    by_cases hroot : l.top.path = sdcardPath
    · exact htop.root hroot entry hentry
    · exact (htop.below hroot entry hentry htype).under
  have hstore := @push_store host l _ hunder.ne
  have hentries := @push_top_entries host l _ hunder.ne
  constructor
  · rw [fs, hstore]
    exact h.names
  · intro d hd
    rcases List.mem_cons.mp hd with rfl | hd
    · refine ⟨fun hroot => absurd hroot hunder.ne, fun _ other hother hdir => ?_⟩
      rw [hentries] at hother
      exact openedEntries_below h.names hunder hother hdir
    · exact h.listed d hd
  · refine ⟨hunder, fun hroot => ?_, h.trail⟩
    exact (htop.below hroot entry hentry htype).slashes

theorem Nested.close (h : l.Nested) (hclose : l.closeDirectory = some l') : l'.Nested := by
  unfold closeDirectory at hclose
  cases hbelow : l.below with
  | nil =>
      rw [hbelow] at hclose
      cases hclose
  | cons parent below =>
      rw [hbelow] at hclose
      cases hclose
      have htrail := h.trail
      rw [hbelow] at htrail
      refine ⟨h.names, fun d hd => h.listed d ?_, htrail.2.2⟩
      rw [stack, hbelow]
      exact List.mem_cons_of_mem _ hd

theorem Nested.rebuild (h : l.Nested) {path : CString}
    (hrebuild : l.rebuild host frame path = some l') : l'.Nested := by
  unfold Launcher.rebuild at hrebuild
  dsimp only at hrebuild
  set store : Store := { l.store with fs := l.fs.unlink path } with hstore
  set window : Window := ⟨l.top.selected, frame.uninit.start, frame.uninit.end⟩
  have hnames : NoSlash store.fs := h.names.unlink
  have hpath : l.top.path = sdcardPath ∨ UnderCard l.top.path := by
    have htrail := h.trail
    cases hbelow : l.below with
    | nil =>
        rw [hbelow] at htrail
        exact Or.inl htrail
    | cons parent below =>
        rw [hbelow] at htrail
        exact Or.inr htrail.1
  -- the directory is read again in the place it has
  have hread : Nested { l with
      store := (Directory.new host l.simpleMode l.top.path window store).2
      top := (Directory.new host l.simpleMode l.top.path window store).1 } := by
    refine ⟨hnames.of_dir (@Directory.new_dir _ _ _ window _), fun d hd => ?_,
      h.trail.of_path rfl⟩
    rcases List.mem_cons.mp hd with rfl | hd
    · exact Directory.new_nested hnames hpath
    · exact h.listed d (List.mem_cons_of_mem _ hd)
  split at hrebuild
  next =>
    split at hrebuild
    next => exact hread.close hrebuild
    next =>
      cases hrebuild
      exact hread.same ⟨rfl, rfl, rfl, rfl⟩
  next =>
    cases hrebuild
    exact hread.same ⟨rfl, rfl, rfl, rfl⟩

theorem nested_preserved : Preserved host Nested where
  same h hsame := h.same hsame
  push h hentry htype := h.push hentry htype
  close h hclose := h.close hclose
  rebuild h hrebuild := h.rebuild hrebuild

theorem start_nested {fs : FileSystem} (hfs : NoSlash fs) (tmp : Tmp) :
    (start host fs tmp).Nested := by
  refine ⟨?_, fun d hd => ?_, rfl⟩
  · have hdir := @Directory.new_dir host sdcardPath (fs.exists simpleModePath) ⟨0, 0, 0⟩
      ⟨fs, tmp, []⟩
    exact hfs.of_dir hdir
  · rcases List.mem_singleton.mp hd with rfl
    have hroot := @Directory.new_nested host sdcardPath (fs.exists simpleModePath) ⟨0, 0, 0⟩
      ⟨fs, tmp, []⟩ hfs (Or.inl rfl)
    exact ⟨hroot.root, hroot.below⟩

end Launcher

end DarkUI.Minui
