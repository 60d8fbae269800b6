import DarkUI.Foundation.Run
import DarkUI.Minui.StackLaws
import Mathlib.Tactic.SplitIfs

/-! # The window of the launcher over whole runs -/

namespace DarkUI.Minui

open Text Run

namespace Launcher

variable {host : Host} {uninit : Uninit} {frame : Frame} {l l' : Launcher}

/-- The selection is in view, and a launcher that still runs is sound. -/
structure Kept (host : Host) (l : Launcher) : Prop where
  shown : 0 < l.top.total → l.top.window.Fits l.top.total host.device.rows
  sound : l.quit = false → l.Sound host

theorem Sound.kept (h : l.Sound host) : l.Kept host := ⟨h.top_good.shown, fun _ => h⟩

theorem Kept.congr (h : l.Kept host) (hsame : SameView l l') (hquit : l'.quit = l.quit) :
    l'.Kept host := by
  refine ⟨?_, fun hrunning => (h.sound (hquit ▸ hrunning)).congr hsame⟩
  rw [hsame.top]
  exact h.shown

theorem readyResume_view (entry : Entry) (l : Launcher) : SameView l (readyResume entry l) := by
  unfold readyResume
  split <;> exact ⟨rfl, rfl, ⟨rfl, rfl⟩, rfl, rfl, rfl⟩

@[simp] theorem readyResume_quit (entry : Entry) (l : Launcher) :
    (readyResume entry l).quit = l.quit := by
  unfold readyResume
  split <;> rfl

theorem readySelected_view (h : l.readySelected = some l') :
    SameView l l' ∧ l'.quit = l.quit := by
  unfold readySelected at h
  split at h
  next =>
    obtain ⟨entry, _, rfl⟩ := Option.map_eq_some_iff.mp h
    exact ⟨readyResume_view entry l, readyResume_quit entry l⟩
  next =>
    cases h
    exact ⟨⟨rfl, rfl, ⟨rfl, rfl⟩, rfl, rfl, rfl⟩, rfl⟩

/-! ## Opening -/

theorem prepareSlot_view (path : CString) : SameView l (l.prepareSlot uninit path).2 := by
  unfold prepareSlot
  dsimp only
  split
  next => split <;> exact ⟨rfl, rfl, ⟨rfl, rfl⟩, rfl, rfl, rfl⟩
  next => exact ⟨rfl, rfl, ⟨rfl, rfl⟩, rfl, rfl, rfl⟩

/-- Opening a ROM quits, or leaves the view as it was. -/
theorem openRom_view (path : CString) (last : Option CString) :
    (l.openRom host uninit path last).top = l.top ∧
      ((l.openRom host uninit path last).quit = true ∨
        SameView l (l.openRom host uninit path last)) := by
  have hview := @prepareSlot_view uninit l path
  unfold openRom
  dsimp only
  split
  next => exact ⟨hview.top, .inr hview⟩
  next => exact ⟨hview.top, .inl rfl⟩

theorem Sound.openRom (h : l.Sound host) (path : CString) (last : Option CString) :
    (l.openRom host uninit path last).Kept host := by
  obtain ⟨htop, hquit | hview⟩ := openRom_view (l := l) path last
  · refine ⟨?_, ?_⟩
    · rw [htop]
      exact h.top_good.shown
    · intro hrunning
      rw [hquit] at hrunning
      cases hrunning
  · exact (h.congr hview).kept

theorem Sound.openPak (h : l.Sound host) (path : CString) : (l.openPak host path).Kept host := by
  refine ⟨?_, fun hrunning => by cases hrunning⟩
  have htop : (l.openPak host path).top = l.top := by
    unfold Launcher.openPak
    dsimp only
    split <;> rfl
  rw [htop]
  exact h.top_good.shown

theorem Sound.openEntry (h : l.Sound host) {entry : Entry}
    (hentry : l.top.item l.top.selected = some entry) :
    (l.openEntry host uninit entry).Kept host := by
  have hnamed : Sound host { l with recentAlias := some entry.name } :=
    h.congr ⟨rfl, rfl, ⟨rfl, rfl⟩, rfl, rfl, rfl⟩
  unfold Launcher.openEntry
  cases htype : entry.type with
  | rom => exact hnamed.openRom _ _
  | pak => exact hnamed.openPak _
  | dir =>
      dsimp only
      unfold openDirectory
      split
      next => exact hnamed.openRom _ _
      next => exact (hnamed.push hentry htype).kept

/-! ## Deleting -/

/-- The file that the buttons of a frame delete. -/
def unlinks (frame : Frame) (l : Launcher) : Option CString :=
  if l.resumes frame || (0 < l.top.total && frame.pad.justPressed .a) then none
  else if l.deletes frame = some true ∧ frame.confirm ∧ frame.unlinkOk then
    l.selectedEntry.map Entry.path
  else none

/-- A deletion forgets nothing that is remembered: no window is due in this directory,
and the directories below it list as many entries as before. A window that is never gone back to
need not be kept, but a deletion does not know which these are. -/
def DeletesSafely (host : Host) (frame : Frame) (l : Launcher) : Prop :=
  ∀ m path, l.showVersion = false →
    Launcher.settle host frame { l with dirty := l.dirty || frame.redraw } = some m →
    m.unlinks frame = some path →
      m.restoreDepth ≠ m.depth ∧
        ∀ d ∈ m.below, d.Current host { m.store with fs := m.fs.unlink path }

theorem rebuiltWindow_fits {total selected : Int} (htotal : 0 < total) (hselected : 0 ≤ selected) :
    (rebuiltWindow host total selected).Fits total host.device.rows := by
  have hrows := host.device.rows_pos
  unfold rebuiltWindow Window.top
  dsimp only
  split_ifs <;> constructor <;> dsimp only <;> omega

/-- The top directory is read again after its files changed. -/
theorem Sound.replaceTop (h : l.Sound host) {d : Directory} {store : Store}
    (hpath : d.path = l.top.path) (hgood : d.Good host) (hcurrent : d.Current host store)
    (hbelow : ∀ d ∈ l.below, d.Current host store) (hdepth : l.restoreDepth ≠ l.depth) :
    Sound host { l with store := store, top := d } where
  good := by
    intro other hother
    rcases List.mem_cons.mp hother with rfl | hother
    · exact hgood
    · exact h.good other (List.mem_cons_of_mem _ hother)
  current := by
    intro other hother
    rcases List.mem_cons.mp hother with rfl | hother
    · exact hcurrent
    · exact hbelow other hother
  chain := by
    have hchain := h.chain
    unfold stack at hchain ⊢
    cases hrest : l.below with
    | nil => simp
    | cons parent rest =>
        rw [hrest] at hchain
        obtain ⟨⟨entry, hentry, htype, heq⟩, hrest⟩ := List.isChain_cons_cons.mp hchain
        exact List.isChain_cons_cons.mpr ⟨⟨entry, hentry, htype, heq.trans hpath.symm⟩, hrest⟩
  depth_le := h.depth_le
  remembered := fun heq => absurd heq hdepth

theorem Sound.top_path_ne (h : l.Sound host) (hdepth : 1 < l.depth) : l.top.path ≠ sdcardPath := by
  cases hbelow : l.below with
  | nil =>
      simp only [depth, hbelow, List.length_nil] at hdepth
      omega
  | cons parent rest =>
      have hchain := h.chain
      rw [stack, hbelow] at hchain
      obtain ⟨⟨entry, hentry, htype, hpath⟩, _⟩ := List.isChain_cons_cons.mp hchain
      have hlength := (h.good parent (by simp [stack, hbelow])).below entry
        (Directory.mem_of_item hentry) htype
      rw [← hpath]
      intro heq
      rw [heq] at hlength
      exact lt_irrefl _ hlength

theorem Sound.rebuild (h : l.Sound host) {path : CString} (hdeep : 1 < l.depth)
    (hselected : 0 ≤ l.top.selected) (hdepth : l.restoreDepth ≠ l.depth)
    (hbelow : ∀ d ∈ l.below, d.Current host { l.store with fs := l.fs.unlink path })
    (hrebuild : l.rebuild host frame path = some l') : l'.Sound host := by
  have hne := h.top_path_ne hdeep
  unfold Launcher.rebuild at hrebuild
  dsimp only at hrebuild
  rw [Directory.new_store_of_ne hne] at hrebuild
  set store : Store := { l.store with fs := l.fs.unlink path } with hstore
  set window : Window := ⟨l.top.selected, frame.uninit.start, frame.uninit.end⟩ with hwindow
  set d := (Directory.new host l.simpleMode l.top.path window store).1 with hd
  have hcurrent (w : Window) : Directory.Current host store { d with window := w } := by
    intro _
    change (d.entries.length : Int) = (openedEntries host store l.top.path).length
    rw [hd, Directory.new_entries_of_ne hne]
  have hreplaced (w : Window) (hw : 0 < d.total → w.Fits d.total host.device.rows) :
      Sound host { l with store := store, top := { d with window := w } } := by
    refine h.replaceTop rfl ?_ (hcurrent w) hbelow hdepth
    exact Directory.new_good h.top_good.depth hw
  split at hrebuild
  next hempty =>
    have hsound := hreplaced window (fun hpos => by
      change d.total = 0 at hempty
      omega)
    split at hrebuild
    next => exact hsound.closeDirectory hrebuild
    next hroot => exact absurd hdeep hroot
  next hsome =>
    cases hrebuild
    refine hreplaced _ fun hpos => ?_
    exact rebuiltWindow_fits hpos hselected

/-! ## One turn of the main loop -/

/-- Fields that the invariant does not speak of. -/
theorem Sound.setFlags (h : l.Sound host) (showVersion dirty canResume shouldResume : Bool) :
    Sound host { l with
      showVersion := showVersion, dirty := dirty
      canResume := canResume, shouldResume := shouldResume } :=
  h.congr ⟨rfl, rfl, ⟨rfl, rfl⟩, rfl, rfl, rfl⟩

theorem Sound.move (h : l.Sound host) (hmove : l.move host frame = some l') :
    l'.Sound host ∧ l'.quit = l.quit := by
  simp only [Launcher.move, Option.bind_eq_bind, Option.bind_eq_some_iff, Option.pure_def,
    Option.some.injEq] at hmove
  obtain ⟨w, hjump, rfl⟩ := hmove
  refine ⟨?_, rfl⟩
  refine (h.setWindow (w := w) fun htotal => ?_).congr ⟨rfl, rfl, ⟨rfl, rfl⟩, rfl, rfl, rfl⟩
  refine alphaJump_fits h.top_good.indexed ?_ hjump
  split
  next => exact navigate_fits (h.top_good.shown htotal) _
  next => exact h.top_good.shown htotal

theorem Sound.settle (h : l.Sound host) (hsettle : l.settle host frame = some l') :
    l'.Sound host ∧ l'.quit = l.quit := by
  simp only [Launcher.settle, Option.bind_eq_bind, Option.bind_eq_some_iff] at hsettle
  obtain ⟨m, hmove, hready⟩ := hsettle
  obtain ⟨hsound, hquit⟩ := h.move hmove
  split at hready
  next =>
    obtain ⟨hview, hquit'⟩ := readySelected_view hready
    exact ⟨hsound.congr hview, hquit'.trans hquit⟩
  next =>
    cases hready
    exact ⟨hsound, hquit⟩

theorem Kept.setDirty (h : l.Kept host) (dirty : Bool) : Kept host { l with dirty := dirty } :=
  h.congr ⟨rfl, rfl, ⟨rfl, rfl⟩, rfl, rfl, rfl⟩ rfl

theorem Kept.readySelected (h : l.Kept host) (hready : l.readySelected = some l') :
    l'.Kept host := by
  obtain ⟨hview, hquit⟩ := readySelected_view hready
  exact h.congr hview hquit

theorem Sound.resume (h : l.Sound host) (hresume : l.resume host frame = some l') :
    l'.Kept host := by
  simp only [Launcher.resume, Option.bind_eq_bind, Option.bind_eq_some_iff, Option.pure_def,
    Option.some.injEq] at hresume
  obtain ⟨entry, hentry, rfl⟩ := hresume
  exact ((h.setFlags l.showVersion l.dirty l.canResume true).openEntry hentry).setDirty true

theorem Sound.openSelected (h : l.Sound host) (hopen : l.openSelected host frame = some l') :
    l'.Kept host := by
  simp only [Launcher.openSelected, Option.bind_eq_bind, Option.bind_eq_some_iff] at hopen
  obtain ⟨entry, hentry, hready⟩ := hopen
  exact ((h.openEntry hentry).setDirty true).readySelected hready

theorem Sound.goBack (h : l.Sound host) (hback : l.goBack = some l') : l'.Kept host := by
  simp only [Launcher.goBack, Option.bind_eq_bind, Option.bind_eq_some_iff] at hback
  obtain ⟨m, hclose, hready⟩ := hback
  exact ((h.closeDirectory hclose).kept.setDirty true).readySelected hready

/-- The selected entry is a collection, and there is a directory below this one. -/
theorem of_deletes (hdeletes : l.deletes frame = some true) :
    1 < l.depth ∧ ∃ entry, l.selectedEntry = some entry ∧ isCollectionFile entry := by
  unfold deletes at hdeletes
  split at hdeletes
  next hpressed =>
    obtain ⟨entry, hentry, hfile⟩ := Option.map_eq_some_iff.mp hdeletes
    simp only [Bool.and_eq_true, decide_eq_true_eq] at hpressed
    exact ⟨hpressed.1.2, entry, hentry, hfile⟩
  next => cases hdeletes

theorem Sound.delete (h : l.Sound host) (hdeletes : l.deletes frame = some true)
    (hsafe : ∀ path, frame.confirm → frame.unlinkOk → l.selectedEntry.map Entry.path = some path →
      l.restoreDepth ≠ l.depth ∧
        ∀ d ∈ l.below, d.Current host { l.store with fs := l.fs.unlink path })
    (hdelete : l.delete host frame = some l') : l'.Kept host := by
  obtain ⟨hdeep, entry, hentry, _⟩ := of_deletes hdeletes
  simp only [Launcher.delete, Option.bind_eq_bind, Option.bind_eq_some_iff, Option.pure_def,
    Option.some.injEq, Prod.exists] at hdelete
  obtain ⟨changed, m, hdelete, rfl⟩ := hdelete
  refine Kept.setDirty ?_ _
  unfold deleteSelectedCollection at hdelete
  split at hdelete
  next =>
    cases hdelete
    exact h.kept
  next =>
    simp only [hentry, Option.bind_eq_bind, Option.bind_some] at hdelete
    split at hdelete
    next =>
      cases hdelete
      exact h.kept
    next =>
      split at hdelete
      next =>
        cases hdelete
        exact h.kept
      next hconfirm =>
        split at hdelete
        next =>
          cases hdelete
          exact h.kept
        next hunlink =>
          -- only a file that has been removed has the directory read again
          obtain ⟨rebuilt, hrebuild, heq⟩ := Option.bind_eq_some_iff.mp hdelete
          cases heq
          obtain ⟨hdepth, hbelow⟩ := hsafe entry.path (by simpa using hconfirm)
            (by simpa using hunlink) (by rw [hentry]; rfl)
          have hnonneg := (Directory.lt_total_of_item hentry).1
          exact (h.rebuild hdeep hnonneg hdepth hbelow hrebuild).kept

theorem Sound.act (h : l.Sound host)
    (hsafe : ∀ path, l.unlinks frame = some path → l.restoreDepth ≠ l.depth ∧
      ∀ d ∈ l.below, d.Current host { l.store with fs := l.fs.unlink path })
    (hact : l.act host frame = some l') : l'.Kept host := by
  unfold Launcher.act at hact
  split at hact
  next => exact h.resume hact
  next hresumes =>
    split at hact
    next => exact h.openSelected hact
    next hopens =>
      simp only [Option.bind_eq_bind, Option.bind_eq_some_iff] at hact
      obtain ⟨deletes, hdeletes, hact⟩ := hact
      cases deletes with
      | true =>
          refine h.delete hdeletes (fun path hconfirm hunlink hpath => hsafe path ?_) hact
          simp [unlinks, hresumes, hopens, hdeletes, hconfirm, hunlink, hpath]
      | false =>
          simp only [Bool.false_eq_true, if_false] at hact
          split at hact
          next => exact h.goBack hact
          next =>
            cases hact
            exact h.kept

theorem Sound.handleInput (h : l.Sound host)
    (hsafe : ∀ m path, l.showVersion = false → l.settle host frame = some m →
      m.unlinks frame = some path → m.restoreDepth ≠ m.depth ∧
        ∀ d ∈ m.below, d.Current host { m.store with fs := m.fs.unlink path })
    (hinput : l.handleInput host frame = some l') : l'.Kept host := by
  unfold Launcher.handleInput at hinput
  split at hinput
  next =>
    cases hinput
    split
    next => exact (h.setFlags false true l.canResume l.shouldResume).kept
    next => exact h.kept
  next hversion =>
    simp only [Option.bind_eq_bind, Option.bind_eq_some_iff] at hinput
    obtain ⟨m, hsettle, hact⟩ := hinput
    have hm := (h.settle hsettle).1
    exact hm.act (fun path => hsafe m path (by simpa using hversion) hsettle) hact

theorem Kept.drawDirty (h : l.Kept host) (hdraw : l.drawDirty = some l') : l'.Kept host := by
  unfold Launcher.drawDirty at hdraw
  split at hdraw
  next =>
    obtain ⟨_, _, rfl⟩ := Option.map_eq_some_iff.mp hdraw
    exact h.setDirty false
  next =>
    cases hdraw
    exact h

theorem Kept.handleHdmi (h : l.Kept host) (hhdmi : l.handleHdmi frame = some l') :
    l'.Kept host := by
  unfold Launcher.handleHdmi at hhdmi
  split at hhdmi
  next =>
    simp only [Option.bind_eq_bind, Option.bind_eq_some_iff, Option.pure_def,
      Option.some.injEq] at hhdmi
    obtain ⟨entry, _, rfl⟩ := hhdmi
    exact ⟨h.shown, fun hrunning => by cases hrunning⟩
  next =>
    cases hhdmi
    exact h.congr ⟨rfl, rfl, ⟨rfl, rfl⟩, rfl, rfl, rfl⟩ rfl

/-- What one turn preserves. -/
theorem Sound.turn (h : l.Sound host) (hsafe : DeletesSafely host frame l)
    (hturn : l.turn host frame = some l') : l'.Kept host := by
  simp only [Launcher.turn, Option.bind_eq_bind, Option.bind_eq_some_iff] at hturn
  obtain ⟨afterInput, hinput, drawn, hdraw, hhdmi⟩ := hturn
  have hdirty := h.setFlags l.showVersion (l.dirty || frame.redraw) l.canResume l.shouldResume
  have hkept := hdirty.handleInput (fun m path => hsafe m path) hinput
  exact (hkept.drawDirty hdraw).handleHdmi hhdmi

/-! ## Starting -/

theorem start_sound (fs : FileSystem) (tmp : Tmp) : (start host fs tmp).Sound host := by
  have hgood : (start host fs tmp).top.Good host :=
    Directory.new_good (le_refl _) fun hpos => withEnd_fits hpos (.inl rfl)
  constructor
  · intro d hd
    rcases List.mem_singleton.mp hd with rfl
    exact hgood
  · intro d hd hne
    rcases List.mem_singleton.mp hd with rfl
    exact absurd rfl hne
  · exact List.IsChain.singleton _
  · change (-1 : Int) ≤ 0 + 1
    omega
  · intro heq
    change (-1 : Int) = 0 + 1 at heq
    omega

/-- A row that is not above the ones shown is scrolled into view. -/
theorem selectRow_fits {i : Int} (h : l.top.window.Fits l.top.total host.device.rows)
    (hlt : i < l.top.total) (hstart : l.top.window.start ≤ i) :
    (l.selectRow host i).top.window.Fits l.top.total host.device.rows := by
  obtain ⟨hzero, hle, hselected, hend, hheight⟩ := h
  unfold Launcher.selectRow
  dsimp only
  split
  next =>
    split
    next => constructor <;> dsimp only <;> omega
    next => exact Window.page_fits (by omega) (by omega) (by omega) (by omega)
  next => exact ⟨hzero, hstart, by dsimp only; omega, hend, hheight⟩

theorem Sound.selectRow (h : l.Sound host) {i : Int} (hlt : i < l.top.total)
    (hstart : l.top.window.start ≤ i) : (l.selectRow host i).Sound host :=
  h.setWindow fun htotal => selectRow_fits (h.top_good.shown htotal) hlt hstart

theorem selectRow_selected (i : Int) : (l.selectRow host i).top.selected = i := by
  unfold selectRow Directory.selected
  dsimp only
  split_ifs <;> rfl

/-- A scan selects ever later rows, so only its first match could lie above the window. -/
theorem Sound.scanLast (isMatch : Entry → Bool) (final : Bool) (entries : List Entry) (k : Nat)
    (h : l.Sound host) (hitems : ∀ p ∈ entries.zipIdx k, l.top.item p.2 = some p.1)
    (hfirst : ∀ p, (entries.zipIdx k).find? (fun p => isMatch p.1) = some p →
      l.top.window.start ≤ p.2) :
    (scanLast host isMatch final (entries.zipIdx k) l).Sound host := by
  induction entries generalizing k l with
  | nil => exact h
  | cons entry rest ih =>
      rw [List.zipIdx_cons] at hitems hfirst ⊢
      have hentry := hitems (entry, k) List.mem_cons_self
      have hrest : ∀ p ∈ rest.zipIdx (k + 1), l.top.item p.2 = some p.1 :=
        fun p hp => hitems p (List.mem_cons_of_mem _ hp)
      have hlt := (Directory.lt_total_of_item hentry).2
      unfold Launcher.scanLast
      split
      next hmatch =>
        have hselect : (l.selectRow host k).Sound host :=
          h.selectRow hlt (hfirst (entry, k) (by simp [hmatch]))
        split
        next => exact hselect
        next =>
          split
          next htype =>
            refine hselect.push ?_ htype
            rw [selectRow_selected]
            exact hentry
          next =>
            -- a later match is below the row that has been selected
            refine ih (k + 1) hselect hrest fun p hp => ?_
            have hshown := (hselect.top_good.shown (by
              change 0 < l.top.total
              omega)).start_le
            have hselected := @selectRow_selected host l k
            have hlater := List.le_snd_of_mem_zipIdx (List.mem_of_find?_eq_some hp)
            rw [Directory.selected] at hselected
            rw [hselected] at hshown
            omega
      next hmatch =>
        refine ih (k + 1) h hrest fun p hp => hfirst p ?_
        simpa [hmatch] using hp

/-- While the last position is restored, the first match in a directory is never above
the rows it already shows. -/
def RestoresDown (host : Host) (fullPath : CString) : List CString → Launcher → Prop
  | [], _ => True
  | path :: rest, l =>
      (∀ p, l.top.entries.zipIdx.find? (fun p => matchesLast fullPath path p.1) = some p →
        l.top.window.start ≤ p.2) ∧
      RestoresDown host fullPath rest (l.reopenStep host fullPath path rest.isEmpty)

theorem Sound.reopenLast (fullPath : CString) (paths : List CString) (h : l.Sound host)
    (hdown : RestoresDown host fullPath paths l) :
    (l.reopenLast host fullPath paths).Sound host := by
  induction paths generalizing l with
  | nil => exact h
  | cons path rest ih =>
      refine ih ?_ hdown.2
      unfold reopenStep
      split
      next => exact h
      next =>
        refine h.scanLast _ _ l.top.entries 0 (fun p hp => ?_) hdown.1
        have hp := List.mem_zipIdx_iff_getElem?.mp hp
        simpa [Directory.item] using hp

/-- The last position can be restored without a match above the window. -/
def RestoresInView (host : Host) (fs : FileSystem) (tmp : Tmp) : Prop :=
  ∀ fullPath paths, tmp.last.map (fileText maxPath) = some fullPath →
    lastPaths (fullPath.length + 1) fullPath [] = some paths →
    RestoresDown host fullPath paths (start host fs tmp)

theorem init_sound {fs : FileSystem} {tmp : Tmp} (hinit : init host fs tmp = some l)
    (hrestore : RestoresInView host fs tmp) : l.Sound host := by
  have hstart := @start_sound host fs tmp
  have hlast : (start host fs tmp).store.tmp.last = tmp.last := by
    simp [start, Directory.new, Directory.load, exactMatch, getRoot, hasRecents, saveRecents]
  unfold init loadLast at hinit
  rw [hlast] at hinit
  cases htext : tmp.last.map (fileText maxPath) with
  | none =>
      rw [htext] at hinit
      cases hinit
      exact hstart
  | some fullPath =>
      rw [htext] at hinit
      obtain ⟨paths, hpaths, rfl⟩ := Option.map_eq_some_iff.mp hinit
      exact hstart.reopenLast fullPath paths (hrestore fullPath paths htext hpaths)

/-- A turn that the main loop takes and that forgets no remembered window. -/
def WindowSafe (host : Host) (l : Launcher) (frame : Frame) : Prop :=
  l.quit = false ∧ DeletesSafely host frame l

theorem reaches_kept {l₀ : Launcher} (h : l₀.Sound host)
    (hreach : Reaches (fun l frame => turn host frame l) (WindowSafe host) l₀ l) : l.Kept host :=
  hreach.invariant h.kept fun hkept hsafe hturn => (hkept.sound hsafe.1).turn hsafe.2 hturn

/-- In every state that the launcher reaches, the selection of a directory that has
entries is in view, as long as no deletion leaves a stale window behind. -/
theorem window_fits {fs : FileSystem} {tmp : Tmp} {l₀ : Launcher}
    (hinit : init host fs tmp = some l₀) (hrestore : RestoresInView host fs tmp)
    (hreach : Reaches (fun l frame => turn host frame l) (WindowSafe host) l₀ l) :
    0 < l.top.total → l.top.window.Fits l.top.total host.device.rows :=
  (reaches_kept (init_sound hinit hrestore) hreach).shown

/-- Without Y nothing is deleted. -/
theorem deletesSafely_of_no_y (h : frame.pad.justPressed .y = false) :
    DeletesSafely host frame l := by
  intro m path _ _ hunlinks
  simp [unlinks, deletes, h] at hunlinks

/-- Two collections, of one and of two games. -/
def collectionsCard : FileSystem :=
  .ofLists
    [("/mnt/sdcard/.system/rg35xx/paks/Emus/GB.pak/launch.sh".toList, []),
      ("/mnt/sdcard/Roms/GB/1.gb".toList, []),
      ("/mnt/sdcard/Roms/GB/2.gb".toList, []),
      ("/mnt/sdcard/Collections/A.txt".toList, "/Roms/GB/1.gb\n".toList),
      ("/mnt/sdcard/Collections/B.txt".toList, "/Roms/GB/1.gb\n/Roms/GB/2.gb\n".toList)]
    [("/mnt/sdcard/Roms".toList, [⟨"GB".toList, true⟩]),
      ("/mnt/sdcard/Roms/GB".toList, [⟨"1.gb".toList, false⟩, ⟨"2.gb".toList, false⟩]),
      ("/mnt/sdcard/Collections".toList, [⟨"A.txt".toList, false⟩, ⟨"B.txt".toList, false⟩])]

def stableHost : Host := ⟨rg35xx, .stable⟩

/-- The collections are opened and the second one is selected. -/
theorem window_fits_collections :
    ∃ l, Reaches (fun l frame => turn stableHost frame l) (WindowSafe stableHost)
        (start stableHost collectionsCard Tmp.empty) l ∧
      l.top.total = 2 ∧ l.top.selected = 1 ∧
      l.top.window.Fits l.top.total stableHost.device.rows := by
  have hrun : ((init stableHost collectionsCard Tmp.empty).bind
      (follow (fun l frame => turn stableHost frame l)
        (fun l frame => !l.quit && !frame.pad.justPressed .y) [.press .a, .press .down])).any
      (fun l => l.top.total = 2 ∧ l.top.selected = 1) = true := by
    decide +kernel
  obtain ⟨l₀, l, hinit, hreach, hl⟩ := exists_reaches_of_follow hrun
  obtain ⟨htotal, hselected⟩ := of_decide_eq_true hl
  have hsafe := @Reaches.mono _ _ _ _ _ _ (WindowSafe stableHost) hreach fun l frame hpermit => by
    simp only [Bool.and_eq_true, Bool.not_eq_true'] at hpermit
    exact ⟨hpermit.1, deletesSafely_of_no_y hpermit.2⟩
  have hnone : RestoresInView stableHost collectionsCard Tmp.empty := by
    intro fullPath paths hlast
    cases hlast
  have hfits := window_fits hinit hnone hsafe (by omega)
  cases hinit
  exact ⟨l, hsafe, htotal, hselected, hfits⟩

/-- The first collection is opened, closed and deleted; the one that takes its place
opens with its window of one row. -/
theorem window_stale :
    ∃ l, Reaches (fun l frame => turn stableHost frame l) (fun l _ => l.quit = false)
        (start stableHost collectionsCard Tmp.empty) l ∧
      0 < l.top.total ∧ ¬ l.top.window.Fits l.top.total stableHost.device.rows := by
  have hrun : ((init stableHost collectionsCard Tmp.empty).bind
      (follow (fun l frame => turn stableHost frame l) (fun l _ => !l.quit)
        [.press .a, .press .a, .press .b, .press .y, .press .a])).any
      (fun l => l.top.total = 2 ∧ l.top.window.end - l.top.window.start = 1) = true := by
    decide +kernel
  obtain ⟨l₀, l, hinit, hreach, hl⟩ := exists_reaches_of_follow hrun
  obtain ⟨htotal, hheight⟩ := of_decide_eq_true hl
  refine ⟨l, ?_, by omega, fun hfits => ?_⟩
  · cases hinit
    exact hreach.mono fun l frame hpermit => by simpa using hpermit
  · have hrows : stableHost.device.rows = 6 := rfl
    have := hfits.height
    omega

end Launcher
end DarkUI.Minui
