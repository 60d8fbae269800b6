import DarkUI.Minui.MoveLaws

/-! # What holds of the stack of directories

Every open directory has its selection in view, was opened from the selected entry of
the one below it, and lists what its path lists now. The window remembered from the
last close is due only in the directory it was closed to.
-/

namespace DarkUI.Minui

open Text

variable (host : Host)

/-- The entries that a path other than the root opens with. -/
def openedEntries (store : Store) (path : CString) : List Entry :=
  (indexEntries host store.fs path (Directory.listing host store.fs store.recents path)).1

namespace Directory

/-- A directory in its own right: indexed, with its selection in view, and with folders
that lie below the card's root. -/
structure Good (d : Directory) : Prop where
  indexed : Indexed d.entries d.alphas
  shown : 0 < d.total → d.window.Fits d.total host.device.rows
  depth : sdcardPath.length ≤ d.path.length
  below : ∀ entry ∈ d.entries, entry.type = .dir → sdcardPath.length < entry.path.length

/-- A directory other than the root has as many entries as its path lists now. -/
def Current (store : Store) (d : Directory) : Prop :=
  d.path ≠ sdcardPath → d.total = (openedEntries host store d.path).length

/-- The child was opened from the folder selected in the parent. -/
def OpenedFrom (child parent : Directory) : Prop :=
  ∃ entry, parent.item parent.selected = some entry ∧ entry.type = .dir ∧ entry.path = child.path

variable {host} {simpleMode : Bool} {path : CString} {window : Window} {store : Store}

theorem new_entries_of_ne (h : path ≠ sdcardPath) :
    (new host simpleMode path window store).1.entries = openedEntries host store path := by
  simp [new, load, exactMatch, h, openedEntries]

theorem new_store_of_ne (h : path ≠ sdcardPath) :
    (new host simpleMode path window store).2 = store := by
  simp [new, load, exactMatch, h]

@[simp] theorem new_path : (new host simpleMode path window store).1.path = path := rfl

@[simp] theorem new_window : (new host simpleMode path window store).1.window = window := rfl

theorem length_lt_addedEntry {folder : CString} (item : Dirent) :
    folder.length < (addedEntry host folder item).path.length := by
  simp [addedEntry, Entry.new]

theorem new_below (hpath : sdcardPath.length ≤ path.length) :
    ∀ entry ∈ (new host simpleMode path window store).1.entries,
      entry.type = .dir → sdcardPath.length < entry.path.length := by
  have hroms : sdcardPath.length ≤ romsPath.length := by decide
  have hload : ∀ entry ∈ (load host simpleMode path store).1,
      entry.type = .dir → sdcardPath.length < entry.path.length := by
    unfold load
    split
    next =>
      refine forall_getRoot simpleMode store (fun _ _ h => h) ?_ ?_ ?_ ?_ ?_
      · intro _
        simp [Entry.new, fauxRecentPath]
      · intro _
        simp [Entry.new, collectionsPath]
      · intro name _
        simp [Entry.new, romsPath]
      · intro name _
        simp [Entry.new, collectionsPath]
      · intro _
        simp [Entry.new, Device.toolsPath]
    next =>
      refine forall_listing store.fs store.recents path (fun _ _ h => h) ?_ ?_ ?_
      · intro path type htype hdir
        exact absurd hdir htype
      · intro item _
        exact lt_of_le_of_lt hpath (length_lt_addedEntry item)
      · intro name item _
        refine lt_of_le_of_lt ?_ (length_lt_addedEntry item)
        simp only [List.length_append]
        omega
  exact forall_indexEntries host
    (P := fun path type => type = .dir → sdcardPath.length < path.length) _ path hload

/-- A new directory is good once its window is set. -/
theorem new_good (hpath : sdcardPath.length ≤ path.length) {w : Window}
    (hshown : 0 < (new host simpleMode path window store).1.total →
      w.Fits (new host simpleMode path window store).1.total host.device.rows) :
    ({ (new host simpleMode path window store).1 with window := w } : Directory).Good host where
  indexed := new_indexed host simpleMode path window store
  shown := hshown
  depth := hpath
  below := new_below hpath

theorem Good.withWindow {d : Directory} (h : d.Good host) {w : Window}
    (hw : 0 < d.total → w.Fits d.total host.device.rows) :
    ({ d with window := w } : Directory).Good host :=
  ⟨h.indexed, hw, h.depth, h.below⟩

end Directory

namespace Launcher

def stack (l : Launcher) : List Directory := l.top :: l.below

def remembered (l : Launcher) : Window := ⟨l.restoreSelected, l.restoreStart, l.restoreEnd⟩

/-- The launcher while it runs. -/
structure Sound (l : Launcher) : Prop where
  good : ∀ d ∈ l.stack, d.Good host
  current : ∀ d ∈ l.stack, d.Current host l.store
  chain : l.stack.IsChain Directory.OpenedFrom
  depth_le : l.restoreDepth ≤ l.depth
  remembered : l.restoreDepth = l.depth → ∀ entry, l.top.item l.restoreRelative = some entry →
    entry.type = .dir → 0 < (openedEntries host l.store entry.path).length →
    l.remembered.Fits (openedEntries host l.store entry.path).length host.device.rows

variable {host} {l l' : Launcher}

theorem Sound.top_good (h : l.Sound host) : l.top.Good host := h.good _ List.mem_cons_self

/-- A step that changes nothing the invariant speaks of. -/
structure SameView (l l' : Launcher) : Prop where
  top : l'.top = l.top
  below : l'.below = l.below
  store : l'.store.fs = l.store.fs ∧ l'.store.recents = l.store.recents
  restore : l'.restoreDepth = l.restoreDepth ∧ l'.restoreRelative = l.restoreRelative ∧
    l'.remembered = l.remembered

theorem openedEntries_congr {store store' : Store} (hfs : store'.fs = store.fs)
    (hrecents : store'.recents = store.recents) (path : CString) :
    openedEntries host store' path = openedEntries host store path := by
  simp [openedEntries, hfs, hrecents]

theorem Sound.congr (h : l.Sound host) (hsame : SameView l l') : l'.Sound host := by
  have hopened := @openedEntries_congr host _ _ hsame.store.1 hsame.store.2
  have hstack : l'.stack = l.stack := by simp [stack, hsame.top, hsame.below]
  have hdepth : l'.depth = l.depth := by simp [depth, hsame.below]
  obtain ⟨hrestoreDepth, hrelative, hremembered⟩ := hsame.restore
  constructor
  · rw [hstack]
    exact h.good
  · intro d hd hne
    rw [hopened]
    exact h.current d (hstack ▸ hd) hne
  · rw [hstack]
    exact h.chain
  · rw [hrestoreDepth, hdepth]
    exact h.depth_le
  · rw [hrestoreDepth, hdepth, hrelative, hremembered, hsame.top]
    intro heq entry
    rw [hopened]
    exact h.remembered heq entry

/-- The window of the top directory moves. -/
theorem Sound.setWindow (h : l.Sound host) {w : Window}
    (hw : 0 < l.top.total → w.Fits l.top.total host.device.rows) :
    Sound host { l with top := { l.top with window := w } } where
  good := by
    intro d hd
    rcases List.mem_cons.mp hd with rfl | hd
    · exact h.top_good.withWindow hw
    · exact h.good d (List.mem_cons_of_mem _ hd)
  current := by
    intro d hd
    rcases List.mem_cons.mp hd with rfl | hd
    · exact h.current l.top List.mem_cons_self
    · exact h.current d (List.mem_cons_of_mem _ hd)
  chain := by
    have hchain := h.chain
    unfold stack at hchain ⊢
    cases hbelow : l.below with
    | nil => simp
    | cons parent rest =>
        rw [hbelow] at hchain
        obtain ⟨hopened, hrest⟩ := List.isChain_cons_cons.mp hchain
        exact List.isChain_cons_cons.mpr ⟨hopened, hrest⟩
  depth_le := h.depth_le
  remembered := h.remembered

/-! ## Opening and closing -/

theorem withEnd_fits {w : Window} {total : Int} (htotal : 0 < total)
    (hw : w = ⟨0, 0, 0⟩ ∨ w.Fits total host.device.rows) :
    (withEnd host w total).Fits total host.device.rows := by
  rcases hw with rfl | hfits
  · simpa [withEnd, Window.top] using Window.top_fits htotal host.device.rows_pos
  · have hend : w.end ≠ 0 := by
      have := hfits.start_nonneg
      have := hfits.start_le
      have := hfits.selected_lt
      omega
    simpa [withEnd, hend] using hfits

theorem push_top_entries {path : CString} (hne : path ≠ sdcardPath) :
    (l.push host path).top.entries = openedEntries host l.store path :=
  Directory.new_entries_of_ne hne

theorem push_store {path : CString} (hne : path ≠ sdcardPath) :
    (l.push host path).store = l.store :=
  @Directory.new_store_of_ne _ _ _ l.restoredWindow _ hne

/-- A folder opened from the selected row. -/
theorem Sound.push (h : l.Sound host) {entry : Entry}
    (hentry : l.top.item l.top.selected = some entry) (htype : entry.type = .dir) :
    (l.push host entry.path).Sound host := by
  have hlength : sdcardPath.length < entry.path.length :=
    h.top_good.below entry (Directory.mem_of_item hentry) htype
  have hne : entry.path ≠ sdcardPath := by
    intro heq
    rw [heq] at hlength
    exact lt_irrefl _ hlength
  have hentries := @push_top_entries host l _ hne
  have hstore := @push_store host l _ hne
  have htotal : (l.push host entry.path).top.total =
      (openedEntries host l.store entry.path).length := by
    simp only [Directory.total, hentries]
  have hgood : (l.push host entry.path).top.Good host := by
    refine Directory.new_good (le_of_lt hlength) fun hpos => ?_
    refine withEnd_fits hpos ?_
    change l.restoredWindow = _ ∨ l.restoredWindow.Fits (l.push host entry.path).top.total _
    rw [htotal]
    change 0 < (l.push host entry.path).top.total at hpos
    rw [htotal] at hpos
    unfold restoredWindow
    split
    -- the remembered window is that of the entry which is opened
    next hdue =>
      obtain ⟨_, hdepth, hrelative⟩ := hdue
      rw [hrelative] at hentry
      exact .inr (h.remembered hdepth entry hentry htype (by omega))
    next => exact .inl rfl
  constructor
  · intro d hd
    rcases List.mem_cons.mp hd with rfl | hd
    · exact hgood
    · exact h.good d hd
  · intro d hd
    rw [hstore]
    rcases List.mem_cons.mp hd with rfl | hd
    · exact fun _ => htotal
    · exact h.current d hd
  · exact List.isChain_cons_cons.mpr ⟨⟨entry, hentry, htype, rfl⟩, h.chain⟩
  · have hle := h.depth_le
    simp only [Launcher.push, depth, List.length_cons] at hle ⊢
    omega
  · intro heq
    have hle := h.depth_le
    simp only [Launcher.push, depth, List.length_cons] at hle heq
    omega

/-- Closing a directory remembers its window for the place it was opened from. -/
theorem Sound.closeDirectory (h : l.Sound host) (hclose : l.closeDirectory = some l') :
    l'.Sound host := by
  unfold Launcher.closeDirectory at hclose
  cases hbelow : l.below with
  | nil =>
      rw [hbelow] at hclose
      cases hclose
  | cons parent below =>
      rw [hbelow] at hclose
      cases hclose
      have hstack : l.stack = l.top :: parent :: below := by rw [stack, hbelow]
      have hchain := h.chain
      rw [hstack] at hchain
      obtain ⟨⟨entry, hentry, htype, hpath⟩, hrest⟩ := List.isChain_cons_cons.mp hchain
      have hmem : ∀ d ∈ parent :: below, d ∈ l.stack := by
        intro d hd
        rw [hstack]
        exact List.mem_cons_of_mem _ hd
      refine ⟨fun d hd => h.good d (hmem d hd), fun d hd => h.current d (hmem d hd), hrest,
        le_refl _, ?_⟩
      intro _ other hother _ hpos
      have heq : other = entry := by
        have := hother.symm.trans hentry
        exact Option.some.inj this
      subst heq
      -- the closed directory lists what the folder selected in its parent lists
      have hlength : sdcardPath.length < other.path.length :=
        (h.good parent (hmem parent List.mem_cons_self)).below other
          (Directory.mem_of_item hentry) htype
      have hne : l.top.path ≠ sdcardPath := by
        rw [← hpath]
        intro heq
        rw [heq] at hlength
        exact lt_irrefl _ hlength
      have htotal := h.current l.top List.mem_cons_self hne
      rw [hpath] at hpos ⊢
      change 0 < (openedEntries host l.store l.top.path).length at hpos
      change l.top.window.Fits (openedEntries host l.store l.top.path).length _
      rw [← htotal]
      exact h.top_good.shown (by omega)

end Launcher
end DarkUI.Minui
