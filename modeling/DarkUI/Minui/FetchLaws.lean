import DarkUI.Minui.WindowLaws

/-! # No entry is fetched out of range

A sound launcher fetches the selected entry, the rows of its window and the alphas of
its index. Only the shoulder buttons and the HDMI change look at the selection of a
directory without asking whether it has entries.
-/

namespace DarkUI.Minui

open Text Run

namespace Launcher

variable {host : Host} {frame : Frame} {l l' : Launcher}

theorem Kept.selectedEntry (h : l.Kept host) (htotal : 0 < l.top.total) :
    ∃ entry, l.selectedEntry = some entry := by
  have hcovers := (h.shown htotal).covers
  exact Directory.item_eq_some hcovers.selected_nonneg hcovers.selected_lt

theorem Kept.readySelected_isSome (h : l.Kept host) : l.readySelected.isSome := by
  unfold Launcher.readySelected
  split
  next htotal =>
    obtain ⟨entry, hentry⟩ := h.selectedEntry htotal
    simp [hentry]
  next => rfl

theorem closeDirectory_isSome (h : 1 < l.depth) : l.closeDirectory.isSome := by
  unfold closeDirectory
  cases hbelow : l.below with
  | nil =>
      simp only [depth, hbelow, List.length_nil] at h
      omega
  | cons parent below => rfl

/-- The shoulder buttons are left alone in a directory without entries. -/
def NoJumpFromEmpty (frame : Frame) (l : Launcher) : Prop :=
  l.showVersion = false → l.top.total = 0 →
    frame.shoulder .l1 .r1 = false ∧ frame.shoulder .r1 .l1 = false

theorem Sound.move_isSome (h : l.Sound host)
    (hjump : l.top.total = 0 → frame.shoulder .l1 .r1 = false ∧ frame.shoulder .r1 .l1 = false) :
    (l.move host frame).isSome := by
  have hdefined (w : Window) (hw : 0 < l.top.total → w.Fits l.top.total host.device.rows) :
      (alphaJump host frame l.top w).isSome := by
    by_cases htotal : 0 < l.top.total
    · exact alphaJump_isSome h.top_good.indexed (hw htotal)
    · have hempty : l.top.total = 0 := by
        simp only [Directory.total] at htotal ⊢
        omega
      obtain ⟨hprevious, hnext⟩ := hjump hempty
      simp [alphaJump, hprevious, hnext]
  simp only [Launcher.move, Option.bind_eq_bind, Option.isSome_bind, Option.pure_def,
    Option.isSome_some]
  have hmoved := hdefined
    (if !frame.tappedMenu && decide (0 < l.top.total) then
      navigate l.top.total host.device.rows l.top.window frame.pad else l.top.window) ?_
  · simpa using hmoved
  · intro htotal
    split
    next => exact navigate_fits (h.top_good.shown htotal) _
    next => exact h.top_good.shown htotal

theorem Sound.settle_isSome (h : l.Sound host)
    (hjump : l.top.total = 0 → frame.shoulder .l1 .r1 = false ∧ frame.shoulder .r1 .l1 = false) :
    (l.settle host frame).isSome := by
  obtain ⟨m, hmove⟩ := Option.isSome_iff_exists.mp (h.move_isSome hjump)
  have hm := (h.move hmove).1.kept
  simp only [Launcher.settle, hmove, Option.bind_eq_bind, Option.bind_some]
  split
  next => exact hm.readySelected_isSome
  next => rfl

theorem delete_isSome (hdeletes : l.deletes frame = some true) :
    (l.delete host frame).isSome := by
  obtain ⟨hdeep, entry, hentry, hfile⟩ := of_deletes hdeletes
  have hrebuild : (l.rebuild host frame entry.path).isSome := by
    unfold Launcher.rebuild
    dsimp only
    split
    next =>
      split
      next hdepth => exact closeDirectory_isSome hdepth
      next => rfl
    next => rfl
  obtain ⟨rebuilt, hrebuilt⟩ := Option.isSome_iff_exists.mp hrebuild
  simp only [Launcher.delete, Option.bind_eq_bind, Option.isSome_bind]
  unfold deleteSelectedCollection
  split
  next => simp
  next =>
    simp only [hentry, hfile, Option.bind_eq_bind, Option.bind_some]
    split_ifs <;> simp_all

theorem Sound.act_isSome (h : l.Sound host) : (l.act host frame).isSome := by
  unfold Launcher.act
  split
  next hresumes =>
    simp only [resumes, Bool.and_eq_true, decide_eq_true_eq] at hresumes
    obtain ⟨entry, hentry⟩ := h.kept.selectedEntry hresumes.1.1
    simp [Launcher.resume, hentry]
  next =>
    split
    next hopens =>
      simp only [Bool.and_eq_true, decide_eq_true_eq] at hopens
      obtain ⟨entry, hentry⟩ := h.kept.selectedEntry hopens.1
      have hopened := (@Sound.openEntry _ frame.uninit _ h _ hentry).setDirty true
      simpa [Launcher.openSelected, hentry] using hopened.readySelected_isSome
    next =>
      have hdefined : ∃ deletes, l.deletes frame = some deletes := by
        unfold Launcher.deletes
        split
        next hpressed =>
          simp only [Bool.and_eq_true, decide_eq_true_eq] at hpressed
          obtain ⟨entry, hentry⟩ := h.kept.selectedEntry hpressed.2
          exact ⟨isCollectionFile entry, by simp [hentry]⟩
        next => exact ⟨false, rfl⟩
      obtain ⟨deletes, hdeletes⟩ := hdefined
      simp only [hdeletes, Option.bind_eq_bind, Option.bind_some]
      cases deletes with
      | true => exact delete_isSome hdeletes
      | false =>
          simp only [Bool.false_eq_true, if_false]
          split
          next hback =>
            simp only [Bool.and_eq_true, decide_eq_true_eq] at hback
            obtain ⟨m, hclose⟩ := Option.isSome_iff_exists.mp (closeDirectory_isSome hback.2)
            have hm := (h.closeDirectory hclose).kept.setDirty true
            simpa [Launcher.goBack, hclose] using hm.readySelected_isSome
          next => rfl

theorem Kept.draw_isSome (h : l.Kept host) : l.draw.isSome := by
  unfold draw
  split
  next => rfl
  next hshown =>
    simp only [Bool.or_eq_true, decide_eq_true_eq, not_or] at hshown
    have htotal : 0 < l.top.total := by
      have := hshown.2
      simp only [Directory.total] at this ⊢
      omega
    obtain ⟨entry, hentry⟩ := h.selectedEntry htotal
    simp only [hentry, Option.bind_eq_bind, Option.bind_some]
    have hcovers := (h.shown htotal).covers
    have hrows : ∀ row ∈ List.range (l.top.window.end - l.top.window.start).toNat,
        ∃ entry, l.top.item (l.top.window.start + row) = some entry := by
      intro row hrow
      have hlt := List.mem_range.mp hrow
      have hstart := hcovers.start_nonneg
      have hend := hcovers.end_le
      exact Directory.item_eq_some (by omega) (by omega)
    generalize List.range (l.top.window.end - l.top.window.start).toNat = rows at hrows
    induction rows with
    | nil => rfl
    | cons row rest ih =>
        obtain ⟨entry, hrow⟩ := hrows row List.mem_cons_self
        have hrest := ih fun row hmem => hrows row (List.mem_cons_of_mem _ hmem)
        obtain ⟨shown, hshown⟩ := Option.isSome_iff_exists.mp hrest
        simp [List.mapM_cons, hrow, hshown]

/-- The cable is not plugged or unplugged in a directory without entries. -/
def NoHdmiChangeOnEmpty (host : Host) (frame : Frame) (l : Launcher) : Prop :=
  ∀ m, Launcher.handleInput host frame { l with dirty := l.dirty || frame.redraw } = some m →
    m.hadHdmi.any (· ≠ frame.hasHdmi) → 0 < m.top.total

/-- A turn that looks at no selection of a directory without entries. -/
def FetchSafe (host : Host) (l : Launcher) (frame : Frame) : Prop :=
  WindowSafe host l frame ∧ NoJumpFromEmpty frame l ∧ NoHdmiChangeOnEmpty host frame l

theorem Sound.turn_isSome (h : l.Sound host) (hsafe : FetchSafe host l frame) :
    (l.turn host frame).isSome := by
  obtain ⟨⟨_, hdeletes⟩, hjump, hhdmi⟩ := hsafe
  have hdirty := h.setFlags l.showVersion (l.dirty || frame.redraw) l.canResume l.shouldResume
  have hinput :
      (Launcher.handleInput host frame { l with dirty := l.dirty || frame.redraw }).isSome := by
    unfold Launcher.handleInput
    split
    next => rfl
    next hversion =>
      have hsettle := hdirty.settle_isSome (hjump (by simpa using hversion))
      obtain ⟨m, hm⟩ := Option.isSome_iff_exists.mp hsettle
      simpa [hm] using (hdirty.settle hm).1.act_isSome
  obtain ⟨m, hm⟩ := Option.isSome_iff_exists.mp hinput
  have hkept := hdirty.handleInput (fun m path => hdeletes m path) hm
  have hchange := hhdmi m hm
  have hdraw : ∃ drawn, m.drawDirty = some drawn ∧ drawn.top = m.top ∧
      drawn.hadHdmi = m.hadHdmi := by
    unfold Launcher.drawDirty
    split
    next =>
      obtain ⟨shown, hshown⟩ := Option.isSome_iff_exists.mp hkept.draw_isSome
      exact ⟨{ m with dirty := false }, by simp [hshown], rfl, rfl⟩
    next => exact ⟨m, rfl, rfl, rfl⟩
  obtain ⟨drawn, hdrawn, htop, hhad⟩ := hdraw
  simp only [Launcher.turn, hm, hdrawn, Option.bind_eq_bind, Option.bind_some]
  unfold Launcher.handleHdmi
  split
  next hchanged =>
    rw [hhad] at hchanged
    obtain ⟨entry, hentry⟩ := hkept.selectedEntry (hchange hchanged)
    have hentry' : drawn.selectedEntry = some entry := by
      rw [Launcher.selectedEntry, htop]
      exact hentry
    simp [hentry']
  next => rfl

/-- Every turn of a run fetches only entries and alphas that exist, as long as no turn
looks at the selection of an empty directory or forgets a remembered window. -/
theorem fetches_in_range {fs : FileSystem} {tmp : Tmp} {l₀ : Launcher}
    (hinit : init host fs tmp = some l₀) (hrestore : RestoresInView host fs tmp)
    (hreach : Reaches (fun l frame => turn host frame l) (FetchSafe host) l₀ l)
    (hsafe : FetchSafe host l frame) : (l.turn host frame).isSome := by
  have hkept := reaches_kept (init_sound hinit hrestore)
    (hreach.mono fun _ _ hsafe => hsafe.1)
  exact (hkept.sound hsafe.1.1).turn_isSome hsafe

/-- A check that a turn neither deletes, nor jumps, nor meets an HDMI change. -/
def plainTurn (host : Host) (l : Launcher) (frame : Frame) : Bool :=
  !l.quit && !frame.pad.justPressed .y && !frame.shoulder .l1 .r1 && !frame.shoulder .r1 .l1 &&
    (Launcher.handleInput host frame { l with dirty := l.dirty || frame.redraw }).all
      fun m => !m.hadHdmi.any (· ≠ frame.hasHdmi)

theorem fetchSafe_of_plainTurn (h : plainTurn host l frame) : FetchSafe host l frame := by
  simp only [plainTurn, Bool.and_eq_true, Bool.not_eq_true'] at h
  obtain ⟨⟨⟨⟨hrunning, hy⟩, hprevious⟩, hnext⟩, hhdmi⟩ := h
  refine ⟨⟨hrunning, deletesSafely_of_no_y hy⟩, fun _ _ => ⟨hprevious, hnext⟩,
    fun m hm hchange => ?_⟩
  rw [hm] at hhdmi
  simp only [Option.all_some, Bool.not_eq_true'] at hhdmi
  rw [hhdmi] at hchange
  cases hchange

/-- The second of two collections is selected, and opens. -/
theorem fetches_in_range_collections :
    ∃ l, Reaches (fun l frame => turn stableHost frame l) (FetchSafe stableHost)
        (start stableHost collectionsCard Tmp.empty) l ∧
      l.top.total = 2 ∧ (l.turn stableHost (.press .a)).isSome := by
  have hrun : ((init stableHost collectionsCard Tmp.empty).bind
      (follow (fun l frame => turn stableHost frame l) (plainTurn stableHost)
        [.press .a, .press .down])).any
      (fun l => l.top.total = 2 ∧ plainTurn stableHost l (.press .a)) = true := by
    decide +kernel
  obtain ⟨l₀, l, hinit, hreach, hl⟩ := exists_reaches_of_follow hrun
  obtain ⟨htotal, hplain⟩ := of_decide_eq_true hl
  have hsafe := hreach.mono fun _ _ => fetchSafe_of_plainTurn
  have hnone : RestoresInView stableHost collectionsCard Tmp.empty := by
    intro fullPath paths hlast
    cases hlast
  have hdefined := fetches_in_range hinit hnone hsafe (fetchSafe_of_plainTurn hplain)
  cases hinit
  exact ⟨l, hsafe, htotal, hdefined⟩

/-- One collection, without games. -/
def emptyCollectionCard : FileSystem :=
  .ofLists
    [("/mnt/sdcard/.system/rg35xx/paks/Emus/GB.pak/launch.sh".toList, []),
      ("/mnt/sdcard/Roms/GB/1.gb".toList, []),
      ("/mnt/sdcard/Collections/A.txt".toList, [])]
    [("/mnt/sdcard/Roms".toList, [⟨"GB".toList, true⟩]),
      ("/mnt/sdcard/Roms/GB".toList, [⟨"1.gb".toList, false⟩]),
      ("/mnt/sdcard/Collections".toList, [⟨"A.txt".toList, false⟩])]

/-- The collection is opened, and L1 looks at its selected entry. -/
theorem fetch_from_empty :
    ∃ l, Reaches (fun l frame => turn stableHost frame l) (fun l _ => l.quit = false)
        (start stableHost emptyCollectionCard Tmp.empty) l ∧
      l.quit = false ∧ l.top.total = 0 ∧ l.turn stableHost (.press .l1) = none := by
  have hrun : ((init stableHost emptyCollectionCard Tmp.empty).bind
      (follow (fun l frame => turn stableHost frame l) (fun l _ => !l.quit)
        [.press .a, .press .a])).any
      (fun l => l.quit = false ∧ l.top.total = 0 ∧
        (l.turn stableHost (.press .l1)).isNone) = true := by
    decide +kernel
  obtain ⟨l₀, l, hinit, hreach, hl⟩ := exists_reaches_of_follow hrun
  obtain ⟨hrunning, htotal, hnone⟩ := of_decide_eq_true hl
  refine ⟨l, ?_, hrunning, htotal, Option.isNone_iff_eq_none.mp hnone⟩
  cases hinit
  exact hreach.mono fun l frame hpermit => by simpa using hpermit

end Launcher
end DarkUI.Minui
