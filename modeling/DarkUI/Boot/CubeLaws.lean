import DarkUI.Boot.Cube
import DarkUI.Foundation.Run

/-! # The configs of the old cube system

No config is lost and none is left behind, as long as every copy is whole and no run is cut off
between the removal of the old system and the last copy. The script checks no copy, and it does not
come back to the configs once the old system is gone.
-/

namespace DarkUI.Boot.Cube

open Text Run

variable {α : Type*}

theorem mem_itemConfigs {folder : CString} {items : List (Item α)} {c : Config α} :
    c ∈ itemConfigs folder items ↔
      c.folder = folder ∧ isCfg c.name = true ∧ ⟨c.name, some c.content⟩ ∈ items := by
  unfold itemConfigs
  rw [List.mem_filterMap]
  constructor
  · rintro ⟨⟨name, content⟩, hitem, hconfig⟩
    unfold Item.config at hconfig
    split at hconfig
    next hcfg =>
      obtain ⟨content', rfl, rfl⟩ := Option.map_eq_some_iff.mp hconfig
      exact ⟨rfl, hcfg, hitem⟩
    next => cases hconfig
  · rintro ⟨rfl, hcfg, hitem⟩
    exact ⟨_, hitem, by rw [Item.config, if_pos hcfg, Option.map_some]⟩

/-- The pattern matches every config that is not hidden. -/
theorem mem_itemConfigs_glob {folder : CString} {items : List (Item α)} {c : Config α}
    (hc : c ∈ itemConfigs folder items) (hvisible : isVisible c.name = true) :
    c ∈ itemConfigs folder (globCfg items) := by
  obtain ⟨hfolder, hcfg, hitem⟩ := mem_itemConfigs.mp hc
  refine mem_itemConfigs.mpr ⟨hfolder, hcfg, List.mem_filter.mpr ⟨hitem, ?_⟩⟩
  rw [hvisible, hcfg]
  rfl

theorem itemConfigs_glob_subset {folder : CString} {items : List (Item α)} {c : Config α}
    (hc : c ∈ itemConfigs folder (globCfg items)) : c ∈ itemConfigs folder items := by
  obtain ⟨hfolder, hcfg, hitem⟩ := mem_itemConfigs.mp hc
  exact mem_itemConfigs.mpr ⟨hfolder, hcfg, (List.mem_filter.mp hitem).1⟩

/-- Different configs of a folder are copied to different files. -/
theorem cubeName_inj {a b : CString} (ha : isCfg a = true) (hb : isCfg b = true)
    (h : cubeName a = cubeName b) : a = b := by
  obtain ⟨x, rfl⟩ := List.isSuffixOf_iff_suffix.mp ha
  obtain ⟨y, rfl⟩ := List.isSuffixOf_iff_suffix.mp hb
  simp only [cubeName, List.length_append, Nat.add_sub_cancel, List.take_left'] at h
  rw [List.append_cancel_right h]

namespace Card

variable {s t : Card α} {start : Card α} {c : Config α}

/-- The stages before anything of the old system is removed. -/
def IsBefore : Stage α → Prop
  | .idle | .dmenu | .cube => True
  | _ => False

/-- The configs that are still to be copied in this run. -/
def pending (s : Card α) : List (Config α) :=
  match s.stage with
  | .source => s.configs
  | .folders rest => rest.flatMap SubPath.configs
  | .configs folder items rest => itemConfigs folder items ++ rest.flatMap SubPath.configs
  | _ => []

/-- The items in the inner loop are what the pattern matched. -/
def Matched : Stage α → Prop
  | .configs _ items _ => ∀ item ∈ items, isCfg item.name = true
  | _ => True

/-- What holds between any two commands. -/
structure Sound (start s : Card α) : Prop where
  kept : ∀ c ∈ start.configs, c ∈ s.configs ∨ s.Copied c
  source : ∀ c ∈ s.configs, c ∈ start.configs
  pending : ∀ c ∈ s.pending, c ∈ start.configs
  matched : Matched s.stage
  reached : ∀ c ∈ s.configs, s.Copied c ∨ c ∈ s.pending ∨ IsBefore s.stage ∧ s.cube = true

/-- The script goes on, with the same configs in both places. -/
theorem Sound.goes (h : Sound start s) (hsource : t.source = s.source) (hfiles : t.files = s.files)
    (hpending : ∀ c ∈ t.pending, c ∈ start.configs) (hmatched : Matched t.stage)
    (hreached : ∀ c ∈ s.configs, ¬ s.Copied c → c ∈ t.pending ∨ IsBefore t.stage ∧ t.cube = true) :
    Sound start t := by
  have hconfigs : t.configs = s.configs := by rw [configs, configs, hsource]
  have hcopied (c : Config α) : t.Copied c ↔ s.Copied c := by rw [Copied, Copied, hfiles]
  refine ⟨fun c hc => ?_, fun c hc => h.source c (hconfigs ▸ hc), hpending, hmatched,
    fun c hc => ?_⟩
  · rw [hconfigs, hcopied]
    exact h.kept c hc
  · rw [hcopied]
    by_cases hdone : s.Copied c
    · exact .inl hdone
    · exact .inr (hreached c (hconfigs ▸ hc) hdone)

/-- With nothing to be copied any more, everything has been copied. -/
theorem Sound.copied (h : Sound start s) (hnone : s.pending = [])
    (hafter : IsBefore s.stage → s.cube = false) : ∀ c ∈ s.configs, s.Copied c := by
  intro c hc
  rcases h.reached c hc with hcopied | hpending | ⟨hbefore, hcube⟩
  · exact hcopied
  · rw [hnone] at hpending
    cases hpending
  · exact absurd (hcube.symm.trans (hafter hbefore)) (by decide)

theorem isCfg_of_mem_configs (hc : c ∈ s.configs) : isCfg c.name = true := by
  obtain ⟨sub, -, hsub⟩ := List.mem_flatMap.mp hc
  exact (mem_itemConfigs.mp hsub).2.1

/-- What is known of the configs when the card was last used by the old system: no two have one
path, and the script's patterns match them all. -/
structure Old (start : Card α) : Prop where
  unique : ∀ c ∈ start.configs, ∀ d ∈ start.configs, c.folder = d.folder → c.name = d.name → c = d
  visible : ∀ c ∈ start.configs, isVisible c.folder = true ∧ isVisible c.name = true

theorem mem_glob (hstart : Old start) {subs : List (SubPath α)}
    (hc : c ∈ subs.flatMap SubPath.configs) (hmem : c ∈ start.configs) :
    c ∈ (glob subs).flatMap SubPath.configs := by
  obtain ⟨sub, hsub, hconfig⟩ := List.mem_flatMap.mp hc
  have hfolder : c.folder = sub.name := (mem_itemConfigs.mp hconfig).1
  refine List.mem_flatMap.mpr ⟨sub, List.mem_filter.mpr ⟨hsub, ?_⟩, hconfig⟩
  exact hfolder ▸ (hstart.visible c hmem).1

theorem glob_subset {subs : List (SubPath α)} (hc : c ∈ (glob subs).flatMap SubPath.configs) :
    c ∈ subs.flatMap SubPath.configs := by
  obtain ⟨sub, hsub, hconfig⟩ := List.mem_flatMap.mp hc
  exact List.mem_flatMap.mpr ⟨sub, (List.mem_filter.mp hsub).1, hconfig⟩

/-- The configs of a folder that the outer loop comes to are all matched in the inner one. -/
theorem Sound.enter (h : Sound start s) (hstart : Old start) {name : CString}
    {items : List (Item α)} {rest : List (SubPath α)}
    (hstage : s.stage = .folders (⟨name, some items⟩ :: rest)) (hsource : t.source = s.source)
    (hfiles : t.files = s.files) (hnext : t.stage = .configs name (globCfg items) rest) :
    Sound start t := by
  have hpending : s.pending = itemConfigs name items ++ rest.flatMap SubPath.configs := by
    rw [Card.pending, hstage]
    rfl
  have hpending' : t.pending =
      itemConfigs name (globCfg items) ++ rest.flatMap SubPath.configs := by
    rw [Card.pending, hnext]
  refine h.goes hsource hfiles (fun c hc => h.pending c ?_) ?_ fun c hc hnot => .inl ?_
  · rw [hpending'] at hc
    rw [hpending]
    rcases List.mem_append.mp hc with hc | hc
    · exact List.mem_append_left _ (itemConfigs_glob_subset hc)
    · exact List.mem_append_right _ hc
  · rw [hnext]
    intro item hitem
    exact (Bool.and_eq_true_iff.mp (List.mem_filter.mp hitem).2).2
  · rw [hpending']
    rcases h.reached c hc with hcopied | hin | ⟨hbefore, -⟩
    · exact absurd hcopied hnot
    · rw [hpending] at hin
      rcases List.mem_append.mp hin with hin | hin
      · exact List.mem_append_left _
          (mem_itemConfigs_glob hin (hstart.visible c (h.source c hc)).2)
      · exact List.mem_append_right _ hin
    · rw [hstage] at hbefore
      cases hbefore

/-- Passing over what is no config leaves as much to be copied. -/
theorem Sound.pass (h : Sound start s) (hsource : t.source = s.source) (hfiles : t.files = s.files)
    (hpending : t.pending = s.pending) (hmatched : Matched t.stage)
    (hbefore : IsBefore s.stage → s.cube = true → IsBefore t.stage ∧ t.cube = true) :
    Sound start t := by
  refine h.goes hsource hfiles (fun c hc => h.pending c (hpending ▸ hc)) hmatched
    fun c hc hnot => ?_
  rcases h.reached c hc with hcopied | hin | ⟨hb, hcube⟩
  · exact absurd hcopied hnot
  · exact .inl (hpending ▸ hin)
  · exact .inr (hbefore hb hcube)

/-- Behind the removal of the old system nothing brings the script back to it. -/
theorem Sound.behind (h : Sound start s) (hsource : t.source = s.source)
    (hfiles : t.files = s.files) (hpending : t.pending = s.pending) (hmatched : Matched t.stage)
    (hbehind : ¬ IsBefore s.stage) : Sound start t :=
  h.pass hsource hfiles hpending hmatched fun hbefore => absurd hbefore hbehind

theorem copied_write {folder name : CString} {content : α} :
    (s.write folder name content).Copied c ↔
      Function.update s.files folder
        (Function.update (s.files folder) (cubeName name) (some content)) c.folder
          (cubeName c.name) = some c.content :=
  Iff.rfl

theorem copied_write_self (s : Card α) (folder name : CString) (content : α) :
    (s.write folder name content).Copied ⟨folder, name, content⟩ := by
  rw [copied_write, Function.update_self, Function.update_self]

/-- A whole copy of one config does no harm to the copies of others. -/
theorem Copied.write {folder name : CString} {content : α} (h : s.Copied c)
    (hstart : Old start) (hc : c ∈ start.configs)
    (hmem : ⟨folder, name, content⟩ ∈ start.configs) :
    (s.write folder name content).Copied c := by
  by_cases hfolder : c.folder = folder
  · by_cases hname : cubeName c.name = cubeName name
    · have hsame : c.name = name :=
        cubeName_inj (isCfg_of_mem_configs hc) (isCfg_of_mem_configs hmem) hname
      rw [hstart.unique c hc _ hmem hfolder hsame]
      exact copied_write_self s folder name content
    · rw [copied_write, hfolder, Function.update_self, Function.update_of_ne hname, ← hfolder]
      exact h
  · rw [copied_write, Function.update_of_ne hfolder]
    exact h

theorem pending_config {folder name : CString} {content : α} {items : List (Item α)}
    {rest : List (SubPath α)} (hcfg : isCfg name = true)
    (hstage : s.stage = .configs folder (⟨name, some content⟩ :: items) rest) : s.pending =
      ⟨folder, name, content⟩ :: (itemConfigs folder items ++ rest.flatMap SubPath.configs) := by
  rw [Card.pending, hstage]
  dsimp only
  rw [itemConfigs, List.filterMap_cons, Item.config, if_pos hcfg]
  rfl

/-- A whole copy takes one config off those that are to be copied. -/
theorem Sound.write (h : Sound start s) (hstart : Old start) {folder name : CString} {content : α}
    {items : List (Item α)} {rest : List (SubPath α)}
    (hstage : s.stage = .configs folder (⟨name, some content⟩ :: items) rest)
    (hsource : t.source = s.source) (hfiles : t.files = (s.write folder name content).files)
    (hnext : t.stage = .configs folder items rest) : Sound start t := by
  have hcfg : isCfg name = true := by
    have hmatched := h.matched
    rw [hstage] at hmatched
    exact hmatched _ List.mem_cons_self
  have hpending := pending_config hcfg hstage
  have hpending' : t.pending = itemConfigs folder items ++ rest.flatMap SubPath.configs := by
    rw [Card.pending, hnext]
  have hmem : ⟨folder, name, content⟩ ∈ start.configs :=
    h.pending _ (hpending ▸ List.mem_cons_self)
  have hconfigs : t.configs = s.configs := by rw [configs, configs, hsource]
  have hcopied (c : Config α) : t.Copied c ↔ (s.write folder name content).Copied c := by
    rw [Copied, Copied, hfiles]
  refine ⟨fun c hc => ?_, fun c hc => h.source c (hconfigs ▸ hc),
    fun c hc => h.pending c ?_, ?_, fun c hc => ?_⟩
  · rw [hconfigs, hcopied]
    exact (h.kept c hc).imp_right fun hdone => hdone.write hstart hc hmem
  · rw [hpending]
    exact List.mem_cons_of_mem _ (hpending' ▸ hc)
  · have hmatched := h.matched
    rw [hstage] at hmatched
    rw [hnext]
    exact fun item hitem => hmatched item (List.mem_cons_of_mem _ hitem)
  · rw [hconfigs] at hc
    rw [hcopied, hpending']
    rcases h.reached c hc with hdone | hin | ⟨hbefore, -⟩
    · exact .inl (hdone.write hstart (h.source c hc) hmem)
    · rw [hpending] at hin
      rcases List.mem_cons.mp hin with rfl | hin
      · exact .inl (copied_write_self s folder name content)
      · exact .inr (.inl hin)
    · rw [hstage] at hbefore
      cases hbefore

theorem mem_configs_rmSource {left : CString → CString → Bool}
    (hc : c ∈ (s.rmSource (.failed left)).configs) : c ∈ s.configs := by
  unfold configs rmSource at hc
  unfold configs
  cases hsource : s.source with
  | none =>
      rw [hsource] at hc
      exact hc
  | some subs =>
      rw [hsource] at hc
      obtain ⟨sub, hsub, hconfig⟩ := List.mem_flatMap.mp hc
      obtain ⟨whole, hwhole, rfl⟩ := List.mem_map.mp hsub
      refine List.mem_flatMap.mpr ⟨whole, hwhole, ?_⟩
      obtain ⟨hfolder, hcfg, hitem⟩ := mem_itemConfigs.mp hconfig
      refine mem_itemConfigs.mpr ⟨hfolder, hcfg, ?_⟩
      cases hitems : whole.items with
      | none => simp [hitems] at hitem
      | some items =>
          rw [hitems] at hitem
          exact (List.mem_filter.mp hitem).1

/-- The removal of the configs loses none that has been copied. -/
theorem Sound.rmSource (h : Sound start s) (hstage : s.stage = .rmSource) (outcome : Rm) :
    Sound start ((s.rmSource outcome).next outcome.succeeds .reboot) := by
  have hall : ∀ c ∈ s.configs, s.Copied c := by
    refine h.copied (by rw [Card.pending, hstage]) fun hbefore => ?_
    rw [hstage] at hbefore
    cases hbefore
  have hleft : ∀ c ∈ (s.rmSource outcome).configs, c ∈ s.configs := by
    intro c hc
    cases outcome with
    | removed => cases hc
    | failed left => exact mem_configs_rmSource hc
  have hfiles : (s.rmSource outcome).files = s.files := by cases outcome <;> rfl
  have hcopied (c : Config α) :
      ((s.rmSource outcome).next outcome.succeeds .reboot).Copied c ↔ s.Copied c := by
    rw [Copied, Copied, next, hfiles]
  refine ⟨fun c hc => ?_, fun c hc => h.source c (hleft c hc), fun c hc => ?_, trivial,
    fun c hc => ?_⟩
  · rw [hcopied]
    exact .inr ((h.kept c hc).elim (hall c) id)
  · cases hc
  · rw [hcopied]
    exact .inl (hall c (hleft c hc))

/-- The config that is to be copied next. -/
def copying (s : Card α) : Option α :=
  match s.stage with
  | .configs _ (⟨_, content⟩ :: _) _ => content
  | _ => none

/-- What the script needs: that every copy of a config is whole, also if `cp` reports a failure, and
that no run is cut off between the removal of the old system and the last copy. -/
def Spared (s : Card α) : Input α → Prop
  | .cp outcome => outcome = .copied ∨ ∃ content, outcome = .failed (some content) ∧
      s.copying = some content
  | .powerCut => s.cube = true ∨ s.pending = []
  | _ => True

theorem Sound.cp (h : Sound start s) (hstart : Old start) {outcome : Cp α}
    (hspared : s.Spared (.cp outcome)) (hstep : s.step (.cp outcome) = some t) : Sound start t := by
  unfold step at hstep
  dsimp only at hstep
  split at hstep
  next folder name content items rest hstage =>
    obtain ⟨copied, hcopied, rfl⟩ := Option.map_eq_some_iff.mp hstep
    have hwrite : copied = s.write folder name content := by
      rcases hspared with rfl | ⟨left, rfl, hleft⟩
      · rw [Card.cp] at hcopied
        split at hcopied
        · exact (Option.some.inj hcopied).symm
        · cases hcopied
      · rw [copying, hstage] at hleft
        cases hleft
        exact (Option.some.inj hcopied).symm
    subst hwrite
    exact h.write hstart hstage rfl rfl rfl
  next => cases hstep

/-- A cut leaves what is still to be copied to the next run, which comes back only for the old
system. -/
theorem Sound.powerCut (h : Sound start s) (hspared : s.cube = true ∨ s.pending = []) :
    Sound start { s with stage := .idle } := by
  refine h.goes rfl rfl (fun c hc => nomatch hc) trivial fun c hc hnot => .inr ⟨trivial, ?_⟩
  rcases hspared with hcube | hnone
  · exact hcube
  · rcases h.reached c hc with hcopied | hin | ⟨-, hcube⟩
    · exact absurd hcopied hnot
    · rw [hnone] at hin
      cases hin
    · exact hcube

theorem Sound.mkdir (h : Sound start s) (hstart : Old start) {succeeds : Bool}
    (hstep : s.step (.mkdir succeeds) = some t) : Sound start t := by
  unfold step at hstep
  dsimp only at hstep
  split at hstep
  next subs hstage hsource =>
    cases hstep
    have hpending : s.pending = subs.flatMap SubPath.configs := by
      rw [Card.pending, hstage]
      dsimp only
      rw [configs, hsource]
      rfl
    refine h.goes rfl rfl (fun c hc => h.pending c ?_) trivial fun c hc _ => .inl ?_
    · rw [hpending]
      exact glob_subset hc
    · refine mem_glob hstart ?_ (h.source c hc)
      rwa [configs, hsource] at hc
  next name items rest hstage =>
    split at hstep
    next => cases hstep
    next =>
      cases hstep
      exact h.enter hstart hstage rfl rfl rfl
  next => cases hstep

/-- What is no regular file is not copied. -/
theorem itemConfigs_none (folder name : CString) (items : List (Item α)) :
    itemConfigs folder (⟨name, none⟩ :: items) = itemConfigs folder items := by
  have hnone : Item.config folder (⟨name, none⟩ : Item α) = none := by
    unfold Item.config
    split <;> rfl
  rw [itemConfigs, List.filterMap_cons, hnone]
  rfl

theorem Sound.proceed (h : Sound start s) (hstart : Old start)
    (hstep : s.step .proceed = some t) : Sound start t := by
  unfold step at hstep
  dsimp only at hstep
  split at hstep
  -- `$CUBE_PATH` is no directory, and the run is at its end
  next hstage =>
    split at hstep
    next => cases hstep
    next hcube =>
      cases hstep
      refine h.pass rfl rfl (by rw [Card.pending, Card.pending, hstage]; rfl) trivial ?_
      exact fun _ htrue => absurd htrue hcube
  -- `$SRC_PATH` is no directory, so there are no configs
  next hstage hsource =>
    cases hstep
    refine h.goes rfl rfl (fun c hc => nomatch hc) trivial fun c hc _ => ?_
    rw [configs, hsource] at hc
    cases hc
  -- `$SUB_PATH` is no directory
  next rest hstage =>
    cases hstep
    exact h.behind rfl rfl (by rw [Card.pending, Card.pending, hstage]; rfl) trivial
      (by rw [hstage]; exact not_false)
  -- `$NEW_PATH` is there already
  next name items rest hstage =>
    split at hstep
    next =>
      cases hstep
      exact h.enter hstart hstage rfl rfl rfl
    next => cases hstep
  -- the outer loop is at its end
  next hstage =>
    cases hstep
    exact h.behind rfl rfl (by rw [Card.pending, Card.pending, hstage]; rfl) trivial
      (by rw [hstage]; exact not_false)
  -- `$CFG_PATH` is no regular file
  next folder name items rest hstage =>
    cases hstep
    refine h.behind rfl rfl ?_ ?_ (by rw [hstage]; exact not_false)
    · rw [Card.pending, Card.pending, hstage]
      exact congrArg (· ++ _) (itemConfigs_none folder name items).symm
    · have hmatched := h.matched
      rw [hstage] at hmatched
      exact fun item hitem => hmatched item (List.mem_cons_of_mem _ hitem)
  -- the inner loop is at its end
  next folder rest hstage =>
    cases hstep
    exact h.behind rfl rfl (by rw [Card.pending, Card.pending, hstage]; rfl) trivial
      (by rw [hstage]; exact not_false)
  next => cases hstep

theorem Sound.install (h : Sound start s) (hstep : s.step .install = some t) : Sound start t := by
  have hgoes (hnone : s.pending = []) : Sound start { s with stage := .dmenu, succeeded := true } :=
    h.pass rfl rfl hnone.symm trivial fun _ hcube => ⟨trivial, hcube⟩
  unfold Card.step at hstep
  dsimp only at hstep
  split at hstep
  next hstage =>
    cases hstep
    exact hgoes (by rw [Card.pending, hstage])
  next hstage =>
    cases hstep
    exact hgoes (by rw [Card.pending, hstage])
  next => cases hstep

/-- Whether `dmenu.bin` was updated or not, nothing has been removed yet. -/
theorem Sound.dmenu (h : Sound start s) {succeeds : Bool}
    (hstep : s.step (.dmenu succeeds) = some t) : Sound start t := by
  unfold Card.step at hstep
  dsimp only at hstep
  split at hstep
  next hstage =>
    cases hstep
    have hnone : s.pending = [] := by rw [Card.pending, hstage]
    cases succeeds with
    | false => exact h.pass rfl rfl hnone.symm trivial fun _ hcube => ⟨trivial, hcube⟩
    | true => exact h.pass rfl rfl hnone.symm trivial fun _ hcube => ⟨trivial, hcube⟩
  next => cases hstep

/-- With the removal of the old system all that is there is to be copied. -/
theorem Sound.rmCube (h : Sound start s) {left : Bool} (hstep : s.step (.rmCube left) = some t) :
    Sound start t := by
  unfold Card.step at hstep
  dsimp only at hstep
  split at hstep
  next hstage =>
    split at hstep
    next =>
      cases hstep
      exact h.goes rfl rfl (fun c hc => h.source c hc) trivial fun c hc _ => .inl hc
    next => cases hstep
  next => cases hstep

theorem Sound.reboot (h : Sound start s) {succeeds : Bool}
    (hstep : s.step (.reboot succeeds) = some t) : Sound start t := by
  unfold Card.step at hstep
  dsimp only at hstep
  split at hstep
  next hstage =>
    cases hstep
    exact h.behind rfl rfl (by rw [Card.pending, Card.pending, hstage]; rfl) trivial
      (by rw [hstage]; exact not_false)
  next => cases hstep

theorem Sound.rmSource_step (h : Sound start s) {outcome : Rm}
    (hstep : s.step (.rmSource outcome) = some t) : Sound start t := by
  unfold Card.step at hstep
  dsimp only at hstep
  split at hstep
  next hstage =>
    cases hstep
    exact h.rmSource hstage outcome
  next => cases hstep

theorem Sound.step (h : Sound start s) (hstart : Old start) {input : Input α}
    (hspared : s.Spared input) (hstep : s.step input = some t) : Sound start t := by
  cases input with
  | install => exact h.install hstep
  | dmenu succeeds => exact h.dmenu hstep
  | rmCube left => exact h.rmCube hstep
  | mkdir succeeds => exact h.mkdir hstart hstep
  | cp outcome => exact h.cp hstart hspared hstep
  | rmSource outcome => exact h.rmSource_step hstep
  | reboot succeeds => exact h.reboot hstep
  | proceed => exact h.proceed hstart hstep
  | powerCut =>
      cases hstep
      exact h.powerCut hspared

end Card

/-- A card between two runs of the script, with one config at a path. -/
structure OldCard (α : Type*) where
  card : Card α
  idle : card.stage = .idle
  unique : ∀ c ∈ card.configs, ∀ d ∈ card.configs, c.folder = d.folder → c.name = d.name → c = d

namespace OldCard

/-- The script will see all there is to be moved: the old system is still there, and no config and
no folder of one is hidden. -/
structure Seen (old : OldCard α) : Prop where
  cube : old.card.cube = true ∨ old.card.configs = []
  visible : ∀ c ∈ old.card.configs, isVisible c.folder = true ∧ isVisible c.name = true

variable {old : OldCard α}

theorem Seen.patterns (h : old.Seen) : Card.Old old.card := ⟨old.unique, h.visible⟩

theorem Seen.sound (h : old.Seen) : Card.Sound old.card old.card := by
  have hpending : old.card.pending = [] := by rw [Card.pending, old.idle]
  have hbefore : Card.IsBefore old.card.stage := by
    rw [old.idle]
    trivial
  refine ⟨fun c hc => .inl hc, fun c hc => hc, fun c hc => ?_, ?_, fun c hc => ?_⟩
  · rw [hpending] at hc
    cases hc
  · rw [old.idle]
    trivial
  · rcases h.cube with hcube | hnone
    · exact .inr (.inr ⟨hbefore, hcube⟩)
    · rw [hnone] at hc
      cases hc

end OldCard

open Card

/-- In every run that is spared, each config stays where it was or has its whole copy, and after a
run of the script in which everything succeeded none is only where it was. -/
theorem configs_migrated (old : OldCard α) (hseen : old.Seen) {s : Card α}
    (hreach : Reaches Card.step Spared old.card s) :
    (∀ c ∈ old.card.configs, c ∈ s.configs ∨ s.Copied c) ∧
      (s.stage = .finished → s.succeeded = true → ∀ c ∈ s.configs, s.Copied c) := by
  have hsound : Sound old.card s :=
    hreach.invariant hseen.sound fun h hspared hstep => h.step hseen.patterns hspared hstep
  refine ⟨hsound.kept, fun hstage _ => hsound.copied (by rw [pending, hstage]) fun hbefore => ?_⟩
  rw [hstage] at hbefore
  cases hbefore

def isFinished : Stage Nat → Bool
  | .finished => true
  | _ => false

theorem eq_finished {stage : Stage Nat} (h : isFinished stage = true) : stage = .finished := by
  unfold isFinished at h
  split at h
  · rfl
  · cases h

instance [DecidableEq α] (s : Card α) : ∀ input, Decidable (s.Spared input)
  | .cp .copied => .isTrue (.inl rfl)
  | .cp (.failed none) => .isFalse fun h => by
      rcases h with h | ⟨_, h, -⟩ <;> cases h
  | .cp (.failed (some content)) => decidable_of_iff (s.copying = some content) <| by
      constructor
      · exact fun h => .inr ⟨content, rfl, h⟩
      · rintro (h | ⟨_, h, hcontent⟩) <;> cases h
        exact hcontent
  | .powerCut => decidable_of_iff (s.cube = true ∨ s.pending.isEmpty) <| by
      rw [List.isEmpty_iff]
      rfl
  | .install | .dmenu _ | .rmCube _ | .mkdir _ | .rmSource _ | .reboot _ | .proceed =>
      .isTrue trivial

/-- A card of the old system with two configs. -/
def twoConfigs : OldCard Nat where
  card :=
    { cube := true
      source := some [⟨"GB".toList, some [⟨"gb.cfg".toList, some 7⟩, ⟨"notes".toList, some 1⟩]⟩,
        ⟨"PS".toList, some [⟨"ps.cfg".toList, some 8⟩]⟩]
      folders := fun _ => false
      files := fun _ _ => none
      stage := .idle
      succeeded := true }
  idle := rfl
  unique := by
    intro c hc d hd hfolder _
    rw [show Card.configs _ = [⟨"GB".toList, "gb.cfg".toList, 7⟩, ⟨"PS".toList, "ps.cfg".toList, 8⟩]
      from rfl, List.mem_pair] at hc hd
    rcases hc with rfl | rfl <;> rcases hd with rfl | rfl
    · rfl
    · exact absurd hfolder (by decide)
    · exact absurd hfolder (by decide)
    · rfl

/-- The power is cut before anything is removed. The next run cannot make the first folder, `cp`
reports a failure for a whole copy, and the configs cannot be removed. Another run succeeds. -/
def threeRuns : List (Input Nat) :=
  [.install, .powerCut, .install, .dmenu true, .rmCube false, .mkdir false, .mkdir true,
    .cp .copied, .proceed, .mkdir true, .cp (.failed (some 8)), .proceed, .proceed,
    .rmSource (.failed fun _ _ => true), .reboot true, .install, .dmenu true, .proceed]

theorem configs_migrated_threeRuns :
    ∃ s : Card Nat, s.configs.length = 2 ∧ s.files "GB".toList "gb-cube.cfg".toList = some 7 ∧
      s.files "PS".toList "ps-cube.cfg".toList = some 8 ∧ s.stage = .finished ∧
      s.succeeded = true ∧ (∀ c ∈ twoConfigs.card.configs, c ∈ s.configs ∨ s.Copied c) ∧
      (s.stage = .finished → s.succeeded = true → ∀ c ∈ s.configs, s.Copied c) := by
  obtain ⟨start, s, hstart, hreach, hend⟩ :=
    @exists_reaches_of_follow _ _ Card.step (fun s input => decide (s.Spared input))
      (some twoConfigs.card) threeRuns
      (fun s => decide (s.configs.length = 2 ∧
        s.files "GB".toList "gb-cube.cfg".toList = some 7 ∧
        s.files "PS".toList "ps-cube.cfg".toList = some 8 ∧ isFinished s.stage = true ∧
        s.succeeded = true))
      (by decide +kernel)
  cases hstart
  obtain ⟨hleft, hgb, hps, hfinished, hsucceeded⟩ := of_decide_eq_true hend
  have hseen : twoConfigs.Seen := by
    refine ⟨.inl rfl, fun c hc => ?_⟩
    rw [show twoConfigs.card.configs =
      [⟨"GB".toList, "gb.cfg".toList, 7⟩, ⟨"PS".toList, "ps.cfg".toList, 8⟩] from rfl,
      List.mem_pair] at hc
    rcases hc with rfl | rfl <;> decide
  exact ⟨s, hleft, hgb, hps, eq_finished hfinished, hsucceeded,
    configs_migrated twoConfigs hseen (hreach.mono fun _ _ => of_decide_eq_true)⟩

/-- A card of the old system with one config. -/
def oneConfig : OldCard Nat where
  card :=
    { cube := true
      source := some [⟨"GB".toList, some [⟨"gb.cfg".toList, some 7⟩]⟩]
      folders := fun _ => false
      files := fun _ _ => none
      stage := .idle
      succeeded := true }
  idle := rfl
  unique := by
    intro c hc d hd _ _
    rw [show Card.configs _ = [⟨"GB".toList, "gb.cfg".toList, 7⟩] from rfl] at hc hd
    rw [List.mem_singleton.mp hc, List.mem_singleton.mp hd]

/-- The run up to the copy of the config. -/
def untilCopy : List (Input Nat) :=
  [.install, .dmenu true, .rmCube false, .mkdir true, .mkdir true]

/-- The run from behind the copy on. -/
def behindCopy : List (Input Nat) :=
  [.proceed, .proceed, .rmSource .removed, .reboot true]

/-- A copy that fails goes unnoticed, and the configs are removed; and a run that is cut off behind
the removal of the old system is never taken up again. -/
theorem configs_lost :
    (¬ ∀ (old : OldCard Nat) (s : Card Nat), Reaches Card.step (fun _ _ => True) old.card s →
        ∀ c ∈ old.card.configs, c ∈ s.configs ∨ s.Copied c) ∧
      ¬ ∀ (old : OldCard Nat) (s : Card Nat), Reaches Card.step (fun _ _ => True) old.card s →
        s.stage = .finished → s.succeeded = true → ∀ c ∈ s.configs, s.Copied c := by
  constructor
  · intro h
    obtain ⟨start, s, hstart, hreach, hend⟩ :=
      @exists_reaches_of_follow _ _ Card.step (fun _ _ => true) (some oneConfig.card)
        (untilCopy ++ .cp (.failed none) :: behindCopy)
        (fun s => s.files "GB".toList "gb-cube.cfg".toList == none && s.source.isNone) (by decide)
    cases hstart
    obtain ⟨hnone, hsource⟩ := Bool.and_eq_true_iff.mp hend
    rcases h oneConfig s (hreach.mono fun _ _ _ => trivial) ⟨"GB".toList, "gb.cfg".toList, 7⟩
      (by rw [show oneConfig.card.configs = [_] from rfl]; exact List.mem_singleton_self _) with
      hin | hcopied
    · rw [configs, Option.isNone_iff_eq_none.mp hsource] at hin
      cases hin
    · cases (eq_of_beq hnone).symm.trans hcopied
  · intro h
    obtain ⟨start, s, hstart, hreach, hend⟩ :=
      @exists_reaches_of_follow _ _ Card.step (fun _ _ => true) (some oneConfig.card)
        [.install, .dmenu true, .rmCube false, .powerCut, .install, .dmenu true, .proceed]
        (fun s => s.files "GB".toList "gb-cube.cfg".toList == none && isFinished s.stage &&
          s.succeeded && s.configs.any fun c =>
            c.folder == "GB".toList && c.name == "gb.cfg".toList) (by decide)
    cases hstart
    simp only [Bool.and_eq_true, List.any_eq_true, beq_iff_eq] at hend
    obtain ⟨⟨⟨hnone, hfinished⟩, hsucceeded⟩, c, hc, hfolder, hname⟩ := hend
    have hcopied := h oneConfig s (hreach.mono fun _ _ _ => trivial) (eq_finished hfinished)
      hsucceeded c hc
    rw [Copied, hfolder, hname] at hcopied
    cases hnone.symm.trans hcopied

end DarkUI.Boot.Cube
