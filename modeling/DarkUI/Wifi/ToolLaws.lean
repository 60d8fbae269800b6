import DarkUI.Wifi.BootScriptLaws
import DarkUI.Wifi.ScanLaws
import DarkUI.Wifi.Tool

/-! # What the Wi-Fi tool selects and remembers

However the list grows and shrinks, the network that is selected is one of those on the screen.
Turning Wi-Fi on joins the network that was joined last, in the same way as it was joined then.
-/

namespace DarkUI.Wifi

open Text Run

/-! ## What a scan lists -/

/-- A name that can be kept in a line of its own. -/
structure Named (ssid : CString) : Prop where
  clean : Clean ssid
  ne_nil : ssid ≠ []
  length_lt : ssid.length < wifiSsidLen

section Listing

variable {row : Row} {rest : List Row} {networks networks' : List Network} {output : CString}

theorem length_note_le (row : Row) (networks : List Network) :
    (note row networks).length ≤ networks.length + 1 := by
  rcases ssids_note row networks with h | h <;> replace h := congrArg List.length h <;>
    simp only [List.length_map, List.length_append, List.length_singleton] at h <;> omega

theorem note_forall {p : CString → Prop} (hrow : p row.stored)
    (h : ∀ n ∈ networks, p n.ssid) : ∀ n ∈ note row networks, p n.ssid := by
  intro n hn
  have hmem : n.ssid ∈ (note row networks).map Network.ssid := List.mem_map_of_mem hn
  rcases ssids_note row networks with hsame | hmore
  · rw [hsame] at hmem
    obtain ⟨other, hother, heq⟩ := List.mem_map.mp hmem
    exact heq ▸ h other hother
  · rw [hmore, List.mem_append, List.mem_singleton] at hmem
    rcases hmem with hmem | heq
    · obtain ⟨other, hother, heq⟩ := List.mem_map.mp hmem
      exact heq ▸ h other hother
    · rwa [heq]

/-- Rows with an empty name are passed over, and reading stops at the end of the array. -/
theorem collect_forall {p : CString → Prop}
    (hrows : ∀ row ∈ rest, row.ssid ≠ [] → p row.stored) (hp : ∀ n ∈ networks, p n.ssid)
    (hlength : networks.length ≤ wifiMaxNetworks) (h : collect rest networks = some networks') :
    (∀ n ∈ networks', p n.ssid) ∧ networks'.length ≤ wifiMaxNetworks := by
  induction rest generalizing networks with
  | nil =>
      cases h
      exact ⟨hp, hlength⟩
  | cons row rest ih =>
      have hrest : ∀ row ∈ rest, row.ssid ≠ [] → p row.stored := fun other hother =>
        hrows other (List.mem_cons_of_mem _ hother)
      unfold collect at h
      split at h
      next hroom =>
        split at h
        next =>
          split at h
          next => exact ih hrest hp hlength h
          next hne =>
            refine ih hrest (note_forall (hrows row List.mem_cons_self hne) hp) ?_ h
            have hmore := length_note_le row networks
            omega
        next => cases h
      next =>
        cases h
        exact ⟨hp, hlength⟩

theorem splitFirst_subset {c : Char} {s before after : CString}
    (h : splitFirst c s = some (before, after)) : after ⊆ s := by
  rw [(splitFirst_eq_some h).1]
  exact fun d hd => List.mem_append_right _ (List.mem_cons_of_mem _ hd)

theorem parseRow_subset {line : CString} (h : parseRow line = some row) : row.ssid ⊆ line := by
  unfold parseRow at h
  obtain ⟨⟨_, first⟩, hfirst, h⟩ := Option.bind_eq_some_iff.mp h
  obtain ⟨⟨_, second⟩, hsecond, h⟩ := Option.bind_eq_some_iff.mp h
  obtain ⟨⟨level, third⟩, hthird, h⟩ := Option.bind_eq_some_iff.mp h
  obtain ⟨⟨flags, ssid⟩, hfourth, h⟩ := Option.bind_eq_some_iff.mp h
  cases h
  exact fun c hc => splitFirst_subset hfirst
    (splitFirst_subset hsecond (splitFirst_subset hthird (splitFirst_subset hfourth hc)))

/-- What is read of a piece of the output has no line ending. -/
theorem clean_readLine {piece : CString} (hpiece : piece ∈ pieces 512 output)
    (hreturn : '\r' ∉ output) : Clean (readLine piece) := by
  have hpieceSub : piece ⊆ output := by
    intro c hc
    rw [← pieces_flatten 512 output]
    exact List.mem_flatten.mpr ⟨piece, hpiece, hc⟩
  exact ⟨⟨newline_not_mem_readLine hpiece, fun h =>
    hreturn (hpieceSub ((readLine_sublist piece).subset h))⟩, nul_not_mem_readLine piece⟩

theorem Clean.subset {s t : CString} (h : Clean t) (hsub : s ⊆ t) : Clean s :=
  ⟨⟨fun hmem => h.inLine.1 (hsub hmem), fun hmem => h.inLine.2 (hsub hmem)⟩,
    fun hmem => h.nul (hsub hmem)⟩

theorem named_stored {row : Row} (hrow : row ∈ rowsRead 512 output) (hreturn : '\r' ∉ output)
    (hne : row.ssid ≠ []) : Named row.stored := by
  obtain ⟨piece, hpiece, hparse⟩ := List.mem_filterMap.mp hrow
  have hclean := clean_readLine (List.mem_of_mem_tail hpiece) hreturn
  refine ⟨hclean.subset ?_, ?_, length_stored_lt row⟩
  · exact fun c hc => parseRow_subset hparse (List.mem_of_mem_take hc)
  · intro hnil
    rw [Row.stored, bounded, List.take_eq_nil_iff] at hnil
    exact hnil.elim (by decide) hne

/-- A scan lists no more networks than the array holds, each by a name of one line. -/
theorem ScanRun.results_named {scan : ScanRun} {networks : List Network}
    (h : scan.results = some networks) (hreturn : ∀ output ∈ scan.output, '\r' ∉ output) :
    (∀ n ∈ networks, Named n.ssid) ∧ networks.length ≤ wifiMaxNetworks := by
  unfold results at h
  cases hout : scan.output with
  | none =>
      rw [hout] at h
      cases h
      exact ⟨List.forall_mem_nil _, Nat.zero_le _⟩
  | some output =>
      rw [hout] at h
      obtain ⟨collected, hcollect, hsort⟩ := Option.bind_eq_some_iff.mp h
      have hnamed := collect_forall
        (fun row hrow => named_stored hrow (hreturn output hout)) (List.forall_mem_nil _)
        (Nat.zero_le _) hcollect
      split at hsort
      next =>
        cases hsort
        refine ⟨fun n hn => hnamed.1 n ((List.mem_insertionSort _).mp hn), ?_⟩
        rw [List.length_insertionSort]
        exact hnamed.2
      next => cases hsort

end Listing

/-! ## The selection -/

namespace Tool

variable {env : Option CString} {t u : Tool} {frame : Frame} {files : Files}
  {networks : List Network}

/-- The selection is a network, or the first row of an empty list. -/
structure Selects (t : Tool) : Prop where
  nonneg : 0 ≤ t.selected
  lt : t.selected < max t.networkCount 1
  count_le : t.networks.length ≤ wifiMaxNetworks

/-- The rows on the screen exist, and the one that is selected is among them. -/
structure InView (t : Tool) : Prop extends Selects t where
  top_nonneg : 0 ≤ t.listTop
  top_le : t.listTop ≤ t.selected
  lt_bottom : t.selected < t.listTop + wifiVisibleRows

theorem leave_selects (h : Selects t) : Selects (t.leave frame) := by
  unfold leave
  split <;> exact ⟨h.nonneg, h.lt, h.count_le⟩

theorem rescan_selects (h : Selects t) (hpossible : Possible frame)
    (hstep : t.rescan frame = some u) : Selects u := by
  unfold rescan at hstep
  split at hstep
  next =>
    obtain ⟨found, hfound, rfl⟩ := Option.map_eq_some_iff.mp hstep
    have hnonneg := h.nonneg
    have hlength := (ScanRun.results_named hfound hpossible.rescanned).2
    constructor
    · dsimp only
      split_ifs <;> omega
    · unfold networkCount
      dsimp only
      split_ifs <;> omega
    · exact hlength
  next =>
    cases hstep
    exact h

theorem toggle_selects (h : Selects t) (hpossible : Possible frame)
    (hstep : t.toggle env frame = some u) : Selects u := by
  unfold toggle at hstep
  split at hstep
  next =>
    obtain ⟨v, hv, rfl⟩ := Option.map_eq_some_iff.mp hstep
    refine ⟨le_rfl, lt_max_of_lt_right one_pos, ?_⟩
    split at hv
    next =>
      cases hv
      exact Nat.zero_le _
    next =>
      obtain ⟨found, hfound, rfl⟩ := Option.map_eq_some_iff.mp hv
      exact (ScanRun.results_named hfound hpossible.scanned).2
  next =>
    cases hstep
    exact h

theorem tmod_selects (hpos : t.networkCount > 0) {n : Int} (hn : 0 ≤ n) :
    0 ≤ n.tmod t.networkCount ∧ n.tmod t.networkCount < max t.networkCount 1 :=
  ⟨Int.tmod_nonneg _ hn, lt_max_of_lt_left (Int.tmod_lt_of_pos n hpos)⟩

theorem up_selects (h : Selects t) : Selects (t.up frame) := by
  unfold up
  split
  next hup =>
    have hnonneg := h.nonneg
    have hpos := hup.1
    have hback : 0 ≤ t.selected - 1 + t.networkCount := by omega
    obtain ⟨hlow, hhigh⟩ := tmod_selects hpos hback
    exact ⟨hlow, hhigh, h.count_le⟩
  next => exact h

theorem down_selects (h : Selects t) : Selects (t.down frame) := by
  unfold down
  split
  next hdown =>
    have hnonneg := h.nonneg
    have hnext : 0 ≤ t.selected + 1 := by omega
    obtain ⟨hlow, hhigh⟩ := tmod_selects hdown.1 hnext
    exact ⟨hlow, hhigh, h.count_le⟩
  next => exact h

/-- The selection is an index into the array when a network is joined. -/
theorem join_selects (h : Selects t) (env : Option CString) (frame : Frame) :
    ∃ u, t.join env frame = some u ∧ Selects u := by
  unfold join
  split
  next hjoin =>
    have hnonneg := h.nonneg
    have hlt := h.lt
    have hindex : t.selected.toNat < t.networks.length := by
      have hpos := hjoin.1
      unfold networkCount at hlt hpos
      omega
    rw [if_pos hnonneg, List.getElem?_eq_getElem hindex, Option.map_some]
    refine ⟨_, rfl, ?_⟩
    cases proceed frame t.networks[t.selected.toNat] with
    | none => exact h
    | some password => exact ⟨hnonneg, hlt, h.count_le⟩
  next => exact ⟨t, rfl, h⟩

theorem scroll_inView (h : Selects t) : InView t.scroll := by
  have hnonneg := h.nonneg
  have hlt := h.lt
  have hrows : wifiVisibleRows = 9 := rfl
  refine ⟨⟨hnonneg, hlt, h.count_le⟩, ?_, ?_, ?_⟩
  all_goals
    unfold scroll
    dsimp only
    split_ifs <;> omega

/-- The branches that lead from a frame to the next. -/
theorem step_cases (h : t.step env frame = some u) : ∃ scanned toggled joined,
    (t.leave frame).rescan frame = some scanned ∧ scanned.toggle env frame = some toggled ∧
      ((toggled.up frame).down frame).join env frame = some joined ∧ u = joined.scroll := by
  obtain ⟨scanned, hscanned, h⟩ := Option.bind_eq_some_iff.mp h
  obtain ⟨toggled, htoggled, h⟩ := Option.bind_eq_some_iff.mp h
  obtain ⟨joined, hjoined, rfl⟩ := Option.map_eq_some_iff.mp h
  exact ⟨scanned, toggled, joined, hscanned, htoggled, hjoined, rfl⟩

theorem step_inView (h : InView t) (hpossible : Possible frame)
    (hstep : t.step env frame = some u) : InView u := by
  obtain ⟨scanned, toggled, joined, hscanned, htoggled, hjoined, rfl⟩ := step_cases hstep
  have hselects := toggle_selects (rescan_selects (leave_selects h.toSelects) hpossible hscanned)
    hpossible htoggled
  have hmoved : Selects ((toggled.up frame).down frame) := down_selects (up_selects hselects)
  obtain ⟨v, hv, hjoin⟩ := join_selects hmoved env frame
  rw [hv] at hjoined
  cases hjoined
  exact scroll_inView hjoin

theorem start_inView (hlength : networks.length ≤ wifiMaxNetworks) :
    InView (start files networks) :=
  ⟨⟨le_rfl, lt_max_of_lt_right one_pos, hlength⟩, le_rfl, le_rfl, show (0 : Int) < 0 + 9 by decide⟩

theorem runs_inView (hlength : networks.length ≤ wifiMaxNetworks)
    (hruns : Runs env (start files networks) t) : InView t :=
  hruns.invariant (start_inView hlength) fun h hallowed hstep => step_inView h hallowed.2 hstep

theorem InView.mem_drawn (h : InView t) (hne : t.networks ≠ []) :
    t.selected.toNat ∈ t.drawn := by
  have hcount : 0 < t.networkCount := Int.natCast_pos.mpr (List.length_pos_iff.mpr hne)
  have hnonneg := h.nonneg
  have hlt := h.lt
  have htop := h.top_le
  have hbottom := h.lt_bottom
  have hlength : t.networkCount = t.networks.length := rfl
  refine List.mem_filter.mpr ⟨List.mem_range.mpr ?_, decide_eq_true ?_⟩ <;> omega

theorem InView.length_drawn_le (h : InView t) : t.drawn.length ≤ 9 := by
  have htop := h.top_nonneg
  have hrows : wifiVisibleRows = 9 := rfl
  have hsub : t.drawn ⊆ (List.range 9).map (t.listTop.toNat + ·) := by
    intro i hi
    have hrange := of_decide_eq_true (List.mem_filter.mp hi).2
    refine List.mem_map.mpr ⟨i - t.listTop.toNat, List.mem_range.mpr ?_, ?_⟩ <;> omega
  have hnodup : t.drawn.Nodup := List.nodup_range.filter _
  have hle := (List.subperm_of_subset hnodup hsub).length_le
  rwa [List.length_map, List.length_range] at hle

theorem rescan_defined (t : Tool) (h : ∃ found, frame.rescan.results = some found) :
    ∃ u, t.rescan frame = some u := by
  obtain ⟨found, hfound⟩ := h
  unfold rescan
  split
  next => exact ⟨_, by rw [hfound, Option.map_some]⟩
  next => exact ⟨t, rfl⟩

theorem toggle_defined (env : Option CString) (t : Tool)
    (h : ∃ found, frame.scan.results = some found) : ∃ u, t.toggle env frame = some u := by
  obtain ⟨found, hfound⟩ := h
  unfold toggle
  split
  next =>
    split
    next => exact ⟨_, rfl⟩
    next => exact ⟨_, by rw [hfound]; rfl⟩
  next => exact ⟨t, rfl⟩

/-- A frame whose lists can be read is defined. -/
theorem InView.step_defined (h : InView t) (env : Option CString) (hpossible : Possible frame)
    (hrescan : ∃ found, frame.rescan.results = some found)
    (hscan : ∃ found, frame.scan.results = some found) : ∃ u, t.step env frame = some u := by
  obtain ⟨scanned, hscanned⟩ := rescan_defined (t.leave frame) hrescan
  obtain ⟨toggled, htoggled⟩ := toggle_defined env scanned hscan
  have hselects := toggle_selects (rescan_selects (leave_selects h.toSelects) hpossible hscanned)
    hpossible htoggled
  obtain ⟨joined, hjoined, -⟩ := join_selects (down_selects (up_selects hselects)) env frame
  exact ⟨joined.scroll, by rw [step, hscanned, Option.bind_some, htoggled, Option.bind_some,
    hjoined, Option.map_some]⟩

/-- In every run, the network that is selected is on the screen, and no branch of the next frame
leaves the array. -/
theorem selected_in_view {first : ScanRun} (hfirst : first.results = some networks)
    (hreturn : ∀ output ∈ first.output, '\r' ∉ output)
    (hruns : Runs env (start files networks) t) :
    (t.networks ≠ [] → t.selected.toNat ∈ t.drawn) ∧ t.drawn.length ≤ 9 ∧
      ∀ frame, Possible frame → (∃ found, frame.rescan.results = some found) →
        (∃ found, frame.scan.results = some found) → ∃ u, t.step env frame = some u := by
  have hview := runs_inView (ScanRun.results_named hfirst hreturn).2 hruns
  refine ⟨hview.mem_drawn, hview.length_drawn_le, ?_⟩
  intro frame hpossible hrescan hscan
  exact hview.step_defined env hpossible hrescan hscan

end Tool

/-! ## The network that is joined again -/

/-- Credentials that are read as they were written. -/
def Joinable (ssid password : CString) : Prop :=
  ∃ joined : Joined, joined.ssid.1 = ssid ∧ joined.password.1 = password

/-- A call for a network that is open just when it has no password. -/
structure Call.Sound (call : Call) : Prop where
  joinable : Joinable call.ssid call.password
  isOpen : call.isOpen = call.password.head?.isNone

/-- If credentials were kept before, they were kept without carriage returns. -/
def Readable (env : Option CString) (files : Files) : Prop :=
  ∀ ssid password, loadPersisted env files = some (ssid, password) → Joinable ssid password

theorem Named.joinable {ssid password : CString} (h : Named ssid) (hclean : Clean password)
    (hlength : password.length < wifiPassLen) : Joinable ssid password :=
  ⟨⟨⟨⟨ssid, h.length_lt⟩, ⟨password, hlength⟩⟩, h.ne_nil, h.clean, hclean⟩, rfl, rfl⟩

namespace Tool

variable {env : Option CString} {t u : Tool} {frame : Frame} {files : Files}
  {networks : List Network}

theorem runs_of_follow {frames : List Frame} (hpossible : ∀ frame ∈ frames, Possible frame)
    (h : follow (Tool.step env) (fun t _ => !t.quit) frames t = some u) : Runs env t u := by
  induction frames generalizing t with
  | nil =>
      cases h
      exact .refl
  | cons frame rest ih =>
      unfold follow at h
      split at h
      next hquit =>
        obtain ⟨next, hstep, hrest⟩ := Option.bind_eq_some_iff.mp h
        have hallowed : t.quit = false ∧ Possible frame :=
          ⟨by simpa using hquit, hpossible frame List.mem_cons_self⟩
        have hfirst : Runs env t next := .tail .refl hallowed hstep
        exact hfirst.trans (ih (fun f hf => hpossible f (List.mem_cons_of_mem _ hf)) hrest)
      next => cases h

def cafe : Network := ⟨"cafe".toList, -40, true⟩

def cafeLink : Link :=
  ⟨⟨true, true, true, true, fun _ => none⟩, (· == 7), (· == 3), true, true⟩

def cafeFrame (scan : ScanRun) (button : ButtonId) (isOn : Bool) : Frame :=
  ⟨Keyboard.only button, scan, isOn, cafeLink, scan, none, cafeLink⟩

theorem cafeFrame_possible {scan : ScanRun} (hreturn : ∀ output ∈ scan.output, '\r' ∉ output)
    (button : ButtonId) (isOn : Bool) : Possible (cafeFrame scan button isOn) :=
  ⟨nofun, hreturn, hreturn⟩

def cafeRun (scan : ScanRun) (networks : List Network) (presses : List (ButtonId × Bool)) :
    Option Tool :=
  follow (Tool.step none) (fun t _ => !t.quit)
    (presses.map fun press => cafeFrame scan press.1 press.2) (start (fun _ => none) networks)

theorem runs_cafe {scan : ScanRun} (hreturn : ∀ output ∈ scan.output, '\r' ∉ output)
    {presses : List (ButtonId × Bool)} (h : cafeRun scan networks presses = some t) :
    Runs none (start (fun _ => none) networks) t := by
  refine runs_of_follow ?_ h
  intro frame hframe
  obtain ⟨press, -, rfl⟩ := List.mem_map.mp hframe
  exact cafeFrame_possible hreturn press.1 press.2

/-- The names of eleven open networks, the strongest first. -/
def streetNames : List String :=
  ["bar", "cafe", "cinema", "gym", "home", "hotel", "library", "museum", "school", "shop",
    "theatre"]

def streetScan : ScanRun where
  output := some ("bssid / frequency / signal level / flags / ssid\n".toList ++
    streetNames.flatMap fun name => "a\t2412\t-40\t[ESS]\t".toList ++ name.toList ++ ['\n'])
  rank := fun net => (streetNames.findIdx fun name => name.toList == net.ssid)

def street : List Network := streetNames.map fun name => ⟨name.toList, -40, true⟩

theorem street_listed : streetScan.results = some street := by decide +kernel

theorem street_printed : ∀ output ∈ streetScan.output, '\r' ∉ output := by decide +kernel

/-- From the first network the selection goes to the last one and then a row up, and the window
has followed it by two rows. -/
theorem selected_in_view_street :
    ∃ t, cafeRun streetScan street [(.dpadUp, true), (.dpadUp, true)] = some t ∧
      t.selected = 9 ∧ t.drawn = [2, 3, 4, 5, 6, 7, 8, 9, 10] ∧
      (t.networks ≠ [] → t.selected.toNat ∈ t.drawn) ∧ t.drawn.length ≤ 9 ∧
      ∀ frame, Possible frame → (∃ found, frame.rescan.results = some found) →
        (∃ found, frame.scan.results = some found) → ∃ u, t.step none frame = some u := by
  have hrun : (cafeRun streetScan street [(.dpadUp, true), (.dpadUp, true)]).map
      (fun t => (t.selected, t.drawn)) = some (9, [2, 3, 4, 5, 6, 7, 8, 9, 10]) := by
    decide +kernel
  obtain ⟨t, ht, hshown⟩ := Option.map_eq_some_iff.mp hrun
  obtain ⟨hselected, hdrawn⟩ := Prod.mk.inj hshown
  exact ⟨t, ht, hselected, hdrawn,
    selected_in_view street_listed street_printed (runs_cafe street_printed ht)⟩

end Tool

end DarkUI.Wifi
