import DarkUI.Boot.Rg35xx
import DarkUI.Foundation.Run

/-! # When the archive of an RG35XX is removed

What a boot finds in `/misc` was left there by the boots before it. A console that was installed
on decides by `was_updated` alone whether to copy again, and that looks at neither the boot logo
nor the charging picture.
-/

namespace DarkUI.Boot.Rg35xx

open Run

variable {α σ : Type*} {md5sum : α → σ} {dat : String → Option α}
  {misc misc' : AList fun _ : MiscPath => α} {path : MiscPath} {a : α}

/-- The file is compared by `was_updated`, and its sum is not that of the new system's. -/
structure Updated (md5sum : α → σ) (dat : String → Option α) (path : MiscPath) (a : α) :
    Prop where
  logo : path.name ≠ "boot_logo.bmp.gz"
  charging : path.name ≠ "charging.png"
  sum : ∃ b, dat path.name = some b ∧ md5sum a ≠ md5sum b

/-- A reason for `was_updated` that copying the boot files does not take away. -/
def Stale (md5sum : α → σ) (dat : String → Option α) (misc : AList fun _ : MiscPath => α) :
    Prop :=
  misc.lookup ⟨none, "charging.png"⟩ = none ∨
    ∃ path a, (∀ name ∈ installed, path ≠ ⟨none, name⟩) ∧ misc.lookup path = some a ∧
      Updated md5sum dat path a

theorem Stale.congr (h : ∀ path : MiscPath, (∀ name ∈ installed, path ≠ ⟨none, name⟩) →
    misc'.lookup path = misc.lookup path) (hstale : Stale md5sum dat misc) :
    Stale md5sum dat misc' := by
  rcases hstale with hcharging | ⟨path, a, hpath, hlookup, hupdated⟩
  · left
    rw [h _ (by decide)]
    exact hcharging
  · right
    exact ⟨path, a, hpath, (h path hpath).trans hlookup, hupdated⟩

section WasUpdated

variable [DecidableEq σ]

theorem anyUpdated_cons {rest : List (Sigma fun _ : MiscPath => α)} :
    anyUpdated md5sum dat (⟨path, a⟩ :: rest) = true ↔
      Updated md5sum dat path a ∨ anyUpdated md5sum dat rest = true := by
  rw [anyUpdated]
  split
  next hlogo => exact ⟨Or.inr, Or.rec (fun h => absurd hlogo h.logo) id⟩
  next hlogo =>
    split
    next hcharging => exact ⟨Or.inr, Or.rec (fun h => absurd hcharging h.charging) id⟩
    next hcharging =>
      split
      next hnone =>
        refine ⟨Or.inr, Or.rec (fun h => ?_) id⟩
        obtain ⟨b, hb, -⟩ := h.sum
        cases hnone.symm.trans hb
      next b hb =>
        split
        next hsum => exact ⟨fun _ => Or.inl ⟨hlogo, hcharging, b, hb, hsum⟩, fun _ => rfl⟩
        next hsum =>
          refine ⟨Or.inr, Or.rec (fun h => ?_) id⟩
          obtain ⟨c, hc, hne⟩ := h.sum
          cases hb.symm.trans hc
          exact absurd hne hsum

theorem anyUpdated_iff {files : List (Sigma fun _ : MiscPath => α)} :
    anyUpdated md5sum dat files = true ↔ ∃ file ∈ files, Updated md5sum dat file.1 file.2 := by
  induction files with
  | nil => simp [anyUpdated]
  | cons file rest ih =>
      rw [anyUpdated_cons, ih]
      simp

theorem wasUpdated_iff : wasUpdated md5sum dat misc = true ↔
    misc.lookup ⟨none, "charging.png"⟩ = none ∨
      ∃ path a, misc.lookup path = some a ∧ Updated md5sum dat path a := by
  unfold wasUpdated
  split
  next hcharging => simp [Option.isNone_iff_eq_none.mp hcharging]
  next hcharging =>
    rw [Option.isNone_iff_eq_none] at hcharging
    rw [anyUpdated_iff, or_iff_right hcharging]
    constructor
    · rintro ⟨⟨path, a⟩, hmem, hupdated⟩
      exact ⟨path, a, AList.mem_lookup_iff.mpr hmem, hupdated⟩
    · rintro ⟨path, a, hlookup, hupdated⟩
      exact ⟨⟨path, a⟩, AList.mem_lookup_iff.mp hlookup, hupdated⟩

theorem wasUpdated_of_stale (h : Stale md5sum dat misc) : wasUpdated md5sum dat misc = true := by
  rw [wasUpdated_iff]
  rcases h with hcharging | ⟨path, a, -, hlookup, hupdated⟩
  · exact Or.inl hcharging
  · exact Or.inr ⟨path, a, hlookup, hupdated⟩

/-- With the boot files in place, `was_updated` has a reason that will stay. -/
theorem stale_of_wasUpdated (h : wasUpdated md5sum dat misc = true)
    (hdmenu : misc.lookup ⟨none, "dmenu.bin"⟩ = dat "dmenu.bin")
    (hramdisk : misc.lookup ⟨none, "ramdisk.img"⟩ = dat "ramdisk.img") :
    Stale md5sum dat misc := by
  rcases wasUpdated_iff.mp h with hcharging | ⟨path, a, hlookup, hupdated⟩
  · exact Or.inl hcharging
  · refine Or.inr ⟨path, a, ?_, hlookup, hupdated⟩
    obtain ⟨b, hb, hsum⟩ := hupdated.sum
    intro name hname hpath
    subst hpath
    simp only [installed, List.mem_cons, List.not_mem_nil, or_false] at hname
    rcases hname with rfl | rfl | rfl
    · rw [hdmenu, hb] at hlookup
      cases hlookup
      exact hsum rfl
    · rw [hramdisk, hb] at hlookup
      cases hlookup
      exact hsum rfl
    · exact hupdated.logo rfl

end WasUpdated

/-- How many of unzipping and the copies that have to succeed are behind in this boot. -/
def Stage.passed : Stage → Nat
  | .off | .unzip | .launch => 0
  | .test | .dmenu => 1
  | .ramdisk => 2
  | .bootLogo => 3
  | .charging | .touch | .reboot | .rm => 4

namespace Console

variable {s t : Console α} {name other : String} {content : α}

/-- The `dat` directory that unzipping leads to. -/
def system (s : Console α) : String → Option α :=
  match s.zip with
  | none => s.dat
  | some release => release.unzip s.dat .extracted

def file (s : Console α) (name : String) : Option α := s.misc.lookup ⟨none, name⟩

/-- The boot logo was written since the zip appeared, and is not the new one. -/
def Torn (s : Console α) : Prop :=
  s.logoWritten = true ∧ s.file "boot_logo.bmp.gz" ≠ s.system "boot_logo.bmp.gz"

/-- The boot files of the release are in place. -/
structure Finished (s : Console α) (release : Release installed α) : Prop where
  unzipped : s.unzipped = true
  dmenu : s.file "dmenu.bin" = release.files "dmenu.bin"
  ramdisk : s.file "ramdisk.img" = release.files "ramdisk.img"
  logo : s.logoWritten = true → s.file "boot_logo.bmp.gz" = release.files "boot_logo.bmp.gz"

structure Sound (md5sum : α → σ) (s : Console α) : Prop where
  kept : s.flag = true → ∀ name ∈ ["dmenu.bin", "ramdisk.img"], (s.file name).isSome
  extracted : 1 ≤ s.stage.passed → s.unzipped = true ∧ s.zip.isSome ∧ s.dat = s.system
  dmenu : 2 ≤ s.stage.passed → s.file "dmenu.bin" = s.system "dmenu.bin"
  ramdisk : 3 ≤ s.stage.passed → s.file "ramdisk.img" = s.system "ramdisk.img"
  logo : 4 ≤ s.stage.passed → ¬s.Torn
  stale : s.flag = true → s.Torn → Stale md5sum s.system s.misc

theorem file_write_self : (s.write name content).file name = some content :=
  AList.lookup_insert _

theorem file_write_of_ne (h : other ≠ name) : (s.write name content).file other = s.file other :=
  AList.lookup_insert_ne (by simpa using h)

theorem system_needed {release : Release installed α} (hzip : s.zip = some release)
    (hname : name ∈ installed) : s.system name = release.files name := by
  obtain ⟨content, hcontent⟩ := Option.isSome_iff_exists.mp (release.complete name hname)
  rw [system, hzip, hcontent]
  exact Release.unzip_extracted hcontent

theorem system_isSome (hzip : s.zip.isSome) (hname : name ∈ installed) :
    (s.system name).isSome := by
  obtain ⟨release, hrelease⟩ := Option.isSome_iff_exists.mp hzip
  rw [system_needed hrelease hname]
  exact release.complete name hname

/-- Everything `Sound` says of the files is as before, and no more is behind. -/
theorem Sound.same (h : s.Sound md5sum) (hzip : t.zip = s.zip) (hdat : t.dat = s.dat)
    (hmisc : t.misc = s.misc) (hflag : t.flag = s.flag) (hlogo : t.logoWritten = s.logoWritten)
    (hpassed : t.stage.passed ≤ s.stage.passed)
    (hunzipped : 1 ≤ t.stage.passed → t.unzipped = s.unzipped) : t.Sound md5sum := by
  have hsystem : t.system = s.system := by
    unfold system
    rw [hzip, hdat]
  have hfile : t.file = s.file := by
    funext name
    unfold file
    rw [hmisc]
  have htorn : t.Torn ↔ s.Torn := by
    unfold Torn
    rw [hlogo, hfile, hsystem]
  constructor
  · rw [hflag, hfile]
    exact h.kept
  · intro hone
    rw [hunzipped hone, hzip, hdat, hsystem]
    exact h.extracted (Nat.le_trans hone hpassed)
  · intro htwo
    rw [hfile, hsystem]
    exact h.dmenu (Nat.le_trans htwo hpassed)
  · intro hthree
    rw [hfile, hsystem]
    exact h.ramdisk (Nat.le_trans hthree hpassed)
  · intro hfour
    rw [htorn]
    exact h.logo (Nat.le_trans hfour hpassed)
  · rw [hflag, htorn, hsystem, hmisc]
    exact h.stale

/-- A boot that is over, or has not come to the update. -/
theorem Sound.over (h : s.Sound md5sum) (hzip : t.zip = s.zip) (hdat : t.dat = s.dat)
    (hmisc : t.misc = s.misc) (hflag : t.flag = s.flag) (hlogo : t.logoWritten = s.logoWritten)
    (hpassed : t.stage.passed = 0) : t.Sound md5sum := by
  refine h.same hzip hdat hmisc hflag hlogo ?_ fun hone => ?_
  · omega
  · omega

theorem Sound.insertZip (h : s.Sound md5sum) {release : Release installed α}
    (hoff : s.stage = .off) :
    ({ s with zip := some release, logoWritten := false } : Console α).Sound md5sum where
  kept := h.kept
  extracted hone := by simp [hoff, Stage.passed] at hone
  dmenu htwo := by simp [hoff, Stage.passed] at htwo
  ramdisk hthree := by simp [hoff, Stage.passed] at hthree
  logo _ htorn := Bool.false_ne_true htorn.1
  stale _ htorn := absurd htorn.1 Bool.false_ne_true

theorem Sound.unzip (h : s.Sound md5sum) {release : Release installed α}
    (hzip : s.zip = some release) (outcome : Unzip α) :
    ({ s with
        dat := release.unzip s.dat outcome
        unzipped := outcome.succeeds
        stage := if outcome.succeeds then .test else .launch } : Console α).Sound md5sum := by
  set t : Console α := { s with
    dat := release.unzip s.dat outcome
    unzipped := outcome.succeeds
    stage := if outcome.succeeds then .test else .launch } with ht
  have hsystem : t.system = s.system := by
    simp only [system, ht, hzip, Release.unzip_again]
  have htorn : t.Torn ↔ s.Torn := by
    unfold Torn
    rw [hsystem]
    exact Iff.rfl
  have hpassed : t.stage.passed ≤ 1 := by
    simp only [ht]
    split <;> simp [Stage.passed]
  refine ⟨h.kept, fun hone => ?_, fun htwo => ?_, fun hthree => ?_, fun hfour => ?_, ?_⟩
  · cases outcome with
    | failed left => simp [ht, Unzip.succeeds, Stage.passed] at hone
    | extracted =>
        refine ⟨rfl, by simp [ht, hzip], ?_⟩
        rw [hsystem]
        simp [ht, system, hzip]
  · omega
  · omega
  · omega
  · rw [htorn, hsystem]
    exact h.stale

/-- Nothing is known of the files of a boot that is over. -/
theorem Sound.of_passed (hkept : t.flag = true → ∀ name ∈ ["dmenu.bin", "ramdisk.img"],
      (t.file name).isSome)
    (hpassed : t.stage.passed = 0)
    (hstale : t.flag = true → t.Torn → Stale md5sum t.system t.misc) :
    t.Sound md5sum := by
  refine ⟨hkept, fun hone => ?_, fun htwo => ?_, fun hthree => ?_, fun hfour => ?_, hstale⟩
  all_goals omega

theorem Sound.kept_write (h : s.Sound md5sum) (hflag : s.flag = true) :
    ∀ other ∈ ["dmenu.bin", "ramdisk.img"], ((s.write name content).file other).isSome := by
  intro other hother
  by_cases heq : other = name
  · subst heq
    rw [file_write_self]
    rfl
  · rw [file_write_of_ne heq]
    exact h.kept hflag other hother

theorem stale_write (hname : name ∈ installed) (h : Stale md5sum s.system s.misc) :
    Stale md5sum s.system (s.write name content).misc :=
  h.congr fun _ hpath => AList.lookup_insert_ne (hpath name hname)

theorem torn_write (hlogo : name ≠ "boot_logo.bmp.gz") :
    (s.write name content).Torn ↔ s.Torn := by
  unfold Torn
  rw [file_write_of_ne hlogo.symm]
  simp [write, hlogo, system]

/-- Writing `dmenu.bin` or `ramdisk.img` leaves a reason to copy again as it is. -/
theorem Sound.stale_write (h : s.Sound md5sum) (hname : name ∈ installed)
    (hlogo : name ≠ "boot_logo.bmp.gz") (hflag : s.flag = true)
    (htorn : (s.write name content).Torn) :
    Stale md5sum s.system (s.write name content).misc :=
  Console.stale_write hname (h.stale hflag ((torn_write hlogo).mp htorn))

theorem cpThen_cases {outcome : Cp α} {next : Stage} (h : s.cpThen name outcome next = some t) :
    (∃ content, s.dat name = some content ∧ t = (s.write name content).setStage next) ∨
      (∃ left, outcome = .failed (some left) ∧ t = (s.write name left).setStage .launch) ∨
      t = s.setStage .launch := by
  cases outcome with
  | copied =>
      left
      obtain ⟨copy, hcopy, rfl⟩ := Option.map_eq_some_iff.mp h
      obtain ⟨content, hcontent, rfl⟩ := Option.map_eq_some_iff.mp hcopy
      exact ⟨content, hcontent, rfl⟩
  | failed left =>
      right
      cases left with
      | none => exact Or.inr (Option.some.inj h).symm
      | some left => exact Or.inl ⟨left, rfl, (Option.some.inj h).symm⟩

/-- A copy of `dmenu.bin` or `ramdisk.img` that fails. -/
theorem Sound.failed (h : s.Sound md5sum) (hname : name ∈ installed)
    (hlogo : name ≠ "boot_logo.bmp.gz") :
    ((s.write name content).setStage .launch).Sound md5sum :=
  Sound.of_passed (fun hflag => h.kept_write hflag) rfl
    fun hflag htorn => h.stale_write hname hlogo hflag htorn

theorem Sound.dmenuCopied (h : s.Sound md5sum) (hstage : s.stage = .dmenu)
    (hcontent : s.dat "dmenu.bin" = some content) :
    ((s.write "dmenu.bin" content).setStage .ramdisk).Sound md5sum := by
  obtain ⟨hunzipped, hzip, hdat⟩ := h.extracted (by simp [hstage, Stage.passed])
  refine ⟨fun hflag => h.kept_write hflag, fun _ => ⟨hunzipped, hzip, hdat⟩, fun _ => ?_,
    fun hthree => ?_, fun hfour => ?_, fun hflag htorn => ?_⟩
  · exact file_write_self.trans (hcontent.symm.trans (congrFun hdat _))
  · simp [setStage, Stage.passed] at hthree
  · simp [setStage, Stage.passed] at hfour
  · exact h.stale_write (by decide) (by decide) hflag htorn

theorem Sound.ramdiskCopied (h : s.Sound md5sum) (hstage : s.stage = .ramdisk)
    (hcontent : s.dat "ramdisk.img" = some content) :
    ((s.write "ramdisk.img" content).setStage .bootLogo).Sound md5sum := by
  obtain ⟨hunzipped, hzip, hdat⟩ := h.extracted (by simp [hstage, Stage.passed])
  refine ⟨fun hflag => h.kept_write hflag, fun _ => ⟨hunzipped, hzip, hdat⟩, fun _ => ?_,
    fun _ => ?_, fun hfour => ?_, fun hflag htorn => ?_⟩
  · exact (file_write_of_ne (by decide)).trans (h.dmenu (by simp [hstage, Stage.passed]))
  · exact file_write_self.trans (hcontent.symm.trans (congrFun hdat _))
  · simp [setStage, Stage.passed] at hfour
  · exact h.stale_write (by decide) (by decide) hflag htorn

theorem Sound.logoCopied (h : s.Sound md5sum) (hstage : s.stage = .bootLogo)
    (hcontent : s.dat "boot_logo.bmp.gz" = some content) (next : Stage) :
    ((s.write "boot_logo.bmp.gz" content).setStage next).Sound md5sum := by
  obtain ⟨hunzipped, hzip, hdat⟩ := h.extracted (by simp [hstage, Stage.passed])
  have hwhole : ¬((s.write "boot_logo.bmp.gz" content).setStage next).Torn := by
    rintro ⟨-, htorn⟩
    exact htorn (file_write_self.trans (hcontent.symm.trans (congrFun hdat _)))
  refine ⟨fun hflag => h.kept_write hflag, fun _ => ⟨hunzipped, hzip, hdat⟩, fun _ => ?_,
    fun _ => ?_, fun _ => hwhole, fun _ htorn => absurd htorn hwhole⟩
  · exact (file_write_of_ne (by decide)).trans (h.dmenu (by simp [hstage, Stage.passed]))
  · exact (file_write_of_ne (by decide)).trans (h.ramdisk (by simp [hstage, Stage.passed]))

theorem Sound.charged (h : s.Sound md5sum) (hstage : s.stage = .charging) :
    ((s.write "charging.png" content).setStage .touch).Sound md5sum := by
  obtain ⟨hunzipped, hzip, hdat⟩ := h.extracted (by simp [hstage, Stage.passed])
  have hwhole : ¬((s.write "charging.png" content).setStage .touch).Torn := by
    intro htorn
    exact h.logo (by simp [hstage, Stage.passed]) ((torn_write (by decide)).mp htorn)
  refine ⟨fun hflag => h.kept_write hflag, fun _ => ⟨hunzipped, hzip, hdat⟩, fun _ => ?_,
    fun _ => ?_, fun _ => hwhole, fun _ htorn => absurd htorn hwhole⟩
  · exact (file_write_of_ne (by decide)).trans (h.dmenu (by simp [hstage, Stage.passed]))
  · exact (file_write_of_ne (by decide)).trans (h.ramdisk (by simp [hstage, Stage.passed]))

theorem Sound.touched (h : s.Sound md5sum) (hstage : s.stage = .touch) (flag : Bool) :
    ({ s with flag }.setStage .reboot : Console α).Sound md5sum := by
  have hpassed : s.stage.passed = 4 := by rw [hstage]; rfl
  obtain ⟨hunzipped, hzip, hdat⟩ := h.extracted (by omega)
  refine ⟨fun _ name hname => ?_, fun _ => ⟨hunzipped, hzip, hdat⟩, fun _ => h.dmenu (by omega),
    fun _ => h.ramdisk (by omega), fun _ => h.logo (by omega),
    fun _ htorn => absurd htorn (h.logo (by omega))⟩
  simp only [List.mem_cons, List.not_mem_nil, or_false] at hname
  rcases hname with rfl | rfl
  · have hdmenu := h.dmenu (by omega)
    exact hdmenu ▸ system_isSome hzip (by decide)
  · have hramdisk := h.ramdisk (by omega)
    exact hramdisk ▸ system_isSome hzip (by decide)

theorem Sound.removed (h : s.Sound md5sum) (hstage : s.stage = .rm) :
    ({ s with zip := none }.setStage .launch : Console α).Sound md5sum := by
  have hpassed : s.stage.passed = 4 := by rw [hstage]; rfl
  obtain ⟨-, -, hdat⟩ := h.extracted (by omega)
  refine Sound.of_passed h.kept rfl fun hflag htorn => ?_
  refine absurd ?_ (h.logo (by omega))
  exact ⟨htorn.1, fun heq => htorn.2 (heq.trans (congrFun hdat.symm _))⟩

/-- A copy of the logo that fails while `was_updated` keeps a reason to make it again. -/
theorem Sound.logoFailed (h : s.Sound md5sum) (hstage : s.stage = .bootLogo)
    (hstale : s.flag = true → s.dat "boot_logo.bmp.gz" ≠ some content →
      Stale md5sum s.dat s.misc) :
    ((s.write "boot_logo.bmp.gz" content).setStage .launch).Sound md5sum := by
  obtain ⟨-, -, hdat⟩ := h.extracted (by simp [hstage, Stage.passed])
  refine Sound.of_passed (fun hflag => h.kept_write hflag) rfl fun hflag htorn => ?_
  have hleft : s.dat "boot_logo.bmp.gz" ≠ some content := by
    intro hcontent
    exact htorn.2 (file_write_self.trans (hcontent.symm.trans (congrFun hdat _)))
  have hold := hstale hflag hleft
  rw [hdat] at hold
  exact Console.stale_write (s := s) (by decide) hold

theorem Sound.finished (h : s.Sound md5sum) (hstage : s.stage = .rm)
    {release : Release installed α} (hzip : s.zip = some release) : s.Finished release := by
  have hpassed : s.stage.passed = 4 := by rw [hstage]; rfl
  refine ⟨(h.extracted (by omega)).1, ?_, ?_, fun hwritten => ?_⟩
  · rw [← system_needed hzip (by decide)]
    exact h.dmenu (by omega)
  · rw [← system_needed hzip (by decide)]
    exact h.ramdisk (by omega)
  · rw [← system_needed hzip (by decide)]
    by_contra htorn
    exact h.logo (by omega) ⟨hwritten, htorn⟩

theorem start_sound (dat : String → Option α) (misc : AList fun _ : MiscPath => α) :
    (start dat misc).Sound md5sum :=
  Sound.of_passed (fun hflag => by cases hflag) rfl fun hflag => by cases hflag

variable [DecidableEq σ]

/-- What can be made up for by a later boot: the logo is not left torn once `was_updated` has no
reason to copy again, and no sum hides a difference from it. -/
def Recoverable (md5sum : α → σ) (s : Console α) : BootInput α → Prop
  | .cp (.failed (some left)) =>
      s.stage = .bootLogo → s.flag = true → wasUpdated md5sum s.dat s.misc = false →
        s.dat "boot_logo.bmp.gz" = some left
  | .test =>
      s.flag = true → wasUpdated md5sum s.dat s.misc = false →
        ∀ name ∈ ["dmenu.bin", "ramdisk.img"], ∀ a b, s.file name = some a →
          s.dat name = some b → md5sum a = md5sum b → a = b
  | _ => True

/-- The zip is removed only when the boot files of its release are in place. -/
def Kept (md5sum : α → σ) (s : Console α) : Prop :=
  ∀ release input t, s.zip = some release → s.step md5sum input = some t → t.zip = none →
    s.Finished release

theorem sum_eq_of_not_wasUpdated (hupdated : wasUpdated md5sum s.dat s.misc = false)
    (hname : name ∈ ["dmenu.bin", "ramdisk.img"]) {a b : α} (ha : s.file name = some a)
    (hb : s.dat name = some b) : md5sum a = md5sum b := by
  by_contra hne
  have hcompared : name ≠ "boot_logo.bmp.gz" ∧ name ≠ "charging.png" := by
    simp only [List.mem_cons, List.not_mem_nil, or_false] at hname
    rcases hname with rfl | rfl <;> decide
  have htrue : wasUpdated md5sum s.dat s.misc = true :=
    wasUpdated_iff.mpr (Or.inr ⟨_, a, ha, hcompared.1, hcompared.2, b, hb, hne⟩)
  exact absurd (hupdated.symm.trans htrue) Bool.false_ne_true

/-- `install.sh` has nothing to do. -/
theorem Sound.skipped (h : s.Sound md5sum) (hstage : s.stage = .test)
    (hrecoverable : s.Recoverable md5sum .test) (hflag : s.flag = true)
    (hupdated : wasUpdated md5sum s.dat s.misc = false) : (s.setStage .rm).Sound md5sum := by
  obtain ⟨hunzipped, hzip, hdat⟩ := h.extracted (by simp [hstage, Stage.passed])
  have hfile : ∀ name ∈ ["dmenu.bin", "ramdisk.img"], s.file name = s.system name := by
    intro name hname
    obtain ⟨a, ha⟩ := Option.isSome_iff_exists.mp (h.kept hflag name hname)
    have hneeded : name ∈ installed :=
      List.mem_append_left ["boot_logo.bmp.gz"] hname
    obtain ⟨b, hb⟩ := Option.isSome_iff_exists.mp (system_isSome hzip hneeded)
    rw [← hdat] at hb ⊢
    have hsum := sum_eq_of_not_wasUpdated hupdated hname ha hb
    rw [ha, hb, hrecoverable hflag hupdated name hname a b ha hb hsum]
  have hwhole : ¬s.Torn := by
    intro htorn
    have hstale := h.stale hflag htorn
    rw [← hdat] at hstale
    exact absurd (hupdated.symm.trans (wasUpdated_of_stale hstale)) Bool.false_ne_true
  exact ⟨h.kept, fun _ => ⟨hunzipped, hzip, hdat⟩, fun _ => hfile _ (by decide),
    fun _ => hfile _ (by decide), fun _ => hwhole, fun _ htorn => absurd htorn hwhole⟩

theorem Sound.cp (h : s.Sound md5sum) {outcome : Cp α}
    (hrecoverable : s.Recoverable md5sum (.cp outcome))
    (hstep : s.step md5sum (.cp outcome) = some t) : t.Sound md5sum := by
  have hlaunch : (s.setStage .launch).Sound md5sum := h.over rfl rfl rfl rfl rfl rfl
  dsimp only [step] at hstep
  split at hstep
  next hstage =>
    rcases cpThen_cases hstep with ⟨content, hcontent, rfl⟩ | ⟨left, rfl, rfl⟩ | rfl
    · exact h.dmenuCopied hstage hcontent
    · exact h.failed (by decide) (by decide)
    · exact hlaunch
  next hstage =>
    rcases cpThen_cases hstep with ⟨content, hcontent, rfl⟩ | ⟨left, rfl, rfl⟩ | rfl
    · exact h.ramdiskCopied hstage hcontent
    · exact h.failed (by decide) (by decide)
    · exact hlaunch
  next hstage =>
    rcases cpThen_cases hstep with ⟨content, hcontent, rfl⟩ | ⟨left, rfl, rfl⟩ | rfl
    · exact h.logoCopied hstage hcontent _
    -- only the copy of the logo has a sum to check, and it may be stale
    · refine h.logoFailed hstage fun hflag hleft => ?_
      have hpassed : s.stage.passed = 3 := by rw [hstage]; rfl
      obtain ⟨-, -, hdat⟩ := h.extracted (by omega)
      cases hupdated : wasUpdated md5sum s.dat s.misc with
      | false => exact absurd (hrecoverable hstage hflag hupdated) hleft
      | true =>
          apply stale_of_wasUpdated hupdated
          · rw [hdat]
            exact h.dmenu (by omega)
          · rw [hdat]
            exact h.ramdisk (by omega)
    · exact hlaunch
  next hstage =>
    -- the last copy goes on whatever it returns
    obtain ⟨copy, hcopy, rfl⟩ := Option.map_eq_some_iff.mp hstep
    have hpassed : s.stage.passed = 4 := by rw [hstage]; rfl
    cases outcome with
    | copied =>
        obtain ⟨content, -, rfl⟩ := Option.map_eq_some_iff.mp hcopy
        exact h.charged hstage
    | failed left =>
        cases left with
        | some left =>
            cases hcopy
            exact h.charged hstage
        | none =>
            cases hcopy
            refine h.same rfl rfl rfl rfl rfl ?_ fun _ => rfl
            rw [hpassed]
            rfl
  next => cases hstep

/-! ## What a step can do -/

section Steps

variable {release : Release installed α} {succeeds : Bool}

theorem step_insertZip (hstep : s.step md5sum (.insertZip release) = some t) :
    s.stage = .off ∧ t = { s with zip := some release, logoWritten := false } := by
  dsimp only [Console.step] at hstep
  split at hstep
  next hoff => exact ⟨hoff, (Option.some.inj hstep).symm⟩
  next => cases hstep

theorem step_power (hstep : s.step md5sum .power = some t) :
    t = { s with
      unzipped := false
      stage := if s.zip.isSome then .unzip else .launch } := by
  dsimp only [Console.step] at hstep
  split at hstep
  next => exact (Option.some.inj hstep).symm
  next => cases hstep

theorem step_unzip {outcome : Unzip α} (hstep : s.step md5sum (.unzip outcome) = some t) :
    ∃ release, s.zip = some release ∧ t = { s with
      dat := release.unzip s.dat outcome
      unzipped := outcome.succeeds
      stage := if outcome.succeeds then .test else .launch } := by
  dsimp only [Console.step] at hstep
  split at hstep
  next release hstage hzip => exact ⟨release, hzip, (Option.some.inj hstep).symm⟩
  next => cases hstep

theorem step_test (hstep : s.step md5sum .test = some t) : s.stage = .test ∧
    t = s.setStage (if !s.flag || wasUpdated md5sum s.dat s.misc then .dmenu else .rm) := by
  dsimp only [Console.step] at hstep
  split at hstep
  next hstage => exact ⟨hstage, (Option.some.inj hstep).symm⟩
  next => cases hstep

theorem step_touch (hstep : s.step md5sum (.touch succeeds) = some t) :
    s.stage = .touch ∧ t = { s with flag := s.flag || succeeds }.setStage .reboot := by
  dsimp only [Console.step] at hstep
  split at hstep
  next hstage => exact ⟨hstage, (Option.some.inj hstep).symm⟩
  next => cases hstep

theorem step_reboot {status : Option Bool} (hstep : s.step md5sum (.reboot status) = some t) :
    s.stage = .reboot ∧ ∃ stage : Stage, stage.passed ≤ 4 ∧ t = s.setStage stage := by
  dsimp only [Console.step] at hstep
  split at hstep
  next hstage =>
    refine ⟨hstage, _, ?_, (Option.some.inj hstep).symm⟩
    cases status with
    | none => decide
    | some status => cases status <;> decide
  next => cases hstep

theorem step_rm (hstep : s.step md5sum (.rm succeeds) = some t) :
    s.stage = .rm ∧ t = { s with zip := if succeeds then none else s.zip }.setStage .launch := by
  dsimp only [Console.step] at hstep
  split at hstep
  next hstage => exact ⟨hstage, (Option.some.inj hstep).symm⟩
  next => cases hstep

end Steps

theorem Sound.step (h : s.Sound md5sum) {input : BootInput α}
    (hrecoverable : s.Recoverable md5sum input) (hstep : s.step md5sum input = some t) :
    t.Sound md5sum := by
  cases input with
  | insertZip release =>
      obtain ⟨hoff, rfl⟩ := step_insertZip hstep
      exact h.insertZip hoff
  | power =>
      -- a console that is switched on begins anew, with whatever the last run left
      have hpassed : (if s.zip.isSome then Stage.unzip else .launch).passed = 0 := by
        split <;> rfl
      rw [step_power hstep]
      exact h.over rfl rfl rfl rfl rfl hpassed
  | unzip outcome =>
      obtain ⟨release, hzip, rfl⟩ := step_unzip hstep
      exact h.unzip hzip outcome
  | test =>
      obtain ⟨hstage, rfl⟩ := step_test hstep
      split
      next =>
        refine h.same rfl rfl rfl rfl rfl ?_ fun _ => rfl
        rw [hstage]
        rfl
      -- what is skipped was updated before, as far as the sums tell
      next hskip =>
        simp only [Bool.or_eq_true, Bool.not_eq_true', not_or, Bool.not_eq_false,
          Bool.not_eq_true] at hskip
        exact h.skipped hstage hrecoverable hskip.1 hskip.2
  | cp outcome => exact h.cp hrecoverable hstep
  | touch succeeds =>
      obtain ⟨hstage, rfl⟩ := step_touch hstep
      exact h.touched hstage _
  | reboot status =>
      obtain ⟨hstage, stage, hpassed, rfl⟩ := step_reboot hstep
      refine h.same rfl rfl rfl rfl rfl ?_ fun _ => rfl
      rw [hstage]
      exact hpassed
  | rm succeeds =>
      obtain ⟨hstage, rfl⟩ := step_rm hstep
      cases succeeds with
      | true => exact h.removed hstage
      | false => exact h.over rfl rfl rfl rfl rfl rfl
  | powerCut =>
      cases hstep
      exact h.over rfl rfl rfl rfl rfl rfl

theorem cpThen_zip {outcome : Cp α} {next : Stage} (h : s.cpThen name outcome next = some t) :
    t.zip = s.zip := by
  rcases cpThen_cases h with ⟨content, -, rfl⟩ | ⟨left, -, rfl⟩ | rfl <;> rfl

theorem cp_zip {outcome : Cp α} (hstep : s.step md5sum (.cp outcome) = some t) :
    t.zip = s.zip := by
  dsimp only [Console.step] at hstep
  split at hstep
  next => exact cpThen_zip hstep
  next => exact cpThen_zip hstep
  next => exact cpThen_zip hstep
  next =>
    obtain ⟨copy, hcopy, rfl⟩ := Option.map_eq_some_iff.mp hstep
    rcases outcome with _ | (_ | left)
    · obtain ⟨content, -, rfl⟩ := Option.map_eq_some_iff.mp hcopy
      rfl
    · cases hcopy
      rfl
    · cases hcopy
      rfl
  next => cases hstep

/-- Only `rm` removes the zip. -/
theorem stage_of_removed {input : BootInput α} (hzip : s.zip.isSome)
    (hstep : s.step md5sum input = some t) (hremoved : t.zip = none) : s.stage = .rm := by
  have hsame : t.zip ≠ s.zip := by
    rw [hremoved]
    exact fun hnone => by simp [← hnone] at hzip
  -- every other step either is refused or keeps the zip as it is
  cases input with
  | insertZip release =>
      obtain ⟨-, rfl⟩ := step_insertZip hstep
      cases hremoved
  | power => exact absurd (by rw [step_power hstep]) hsame
  | unzip outcome =>
      obtain ⟨release, -, rfl⟩ := step_unzip hstep
      exact absurd rfl hsame
  | test =>
      obtain ⟨-, rfl⟩ := step_test hstep
      exact absurd rfl hsame
  | cp outcome => exact absurd (cp_zip hstep) hsame
  | touch succeeds =>
      obtain ⟨-, rfl⟩ := step_touch hstep
      exact absurd rfl hsame
  | reboot status =>
      obtain ⟨-, stage, -, rfl⟩ := step_reboot hstep
      exact absurd rfl hsame
  | rm succeeds => exact (step_rm hstep).1
  | powerCut =>
      cases hstep
      exact absurd rfl hsame

theorem Sound.keepsZip (h : s.Sound md5sum) : s.Kept md5sum := by
  intro release input t hzip hstep hremoved
  exact h.finished (stage_of_removed (by rw [hzip]; rfl) hstep hremoved) hzip

theorem reaches_sound (hreach : Reaches (Console.step md5sum) (Recoverable md5sum)
    (start dat misc) s) : s.Sound md5sum :=
  hreach.invariant (start_sound dat misc) fun h hrecoverable hstep => h.step hrecoverable hstep

/-- What is about to remove the zip keeps its promise if and only if the install is finished. -/
theorem kept_iff (hstage : s.stage = .rm) {release : Release installed α}
    (hzip : s.zip = some release) : s.Kept md5sum ↔ s.Finished release := by
  constructor
  · intro h
    have hstep : s.step md5sum (.rm true) = some ({ s with zip := none }.setStage .launch) := by
      simp [Console.step, hstage]
    exact h release _ _ hzip hstep rfl
  · intro h other input t hother hstep hremoved
    cases hzip.symm.trans hother
    exact h

/-- From here the zip can be removed too early, although nothing else goes wrong. -/
def Losable (md5sum : α → σ) (s : Console α) : Prop :=
  ∃ lost, Reaches (Console.step md5sum) (Recoverable md5sum) s lost ∧ ¬lost.Kept md5sum

theorem Losable.of_step {input : BootInput α} (hstep : s.step md5sum input = some t)
    (hrecoverable : s.Recoverable md5sum input) (h : t.Losable md5sum) : s.Losable md5sum := by
  obtain ⟨lost, hreach, hnot⟩ := h
  exact ⟨lost, (Reaches.tail .refl hrecoverable hstep).trans hreach, hnot⟩

/-- `install.sh` is skipped in the boot that a zip is found to be unpacked whole. -/
theorem losable_of_skipped {release : Release installed α} (hzip : s.zip = some release)
    (hflag : s.flag = true) (hupdated : wasUpdated md5sum s.system s.misc = false)
    (hfiles : ∀ name ∈ ["dmenu.bin", "ramdisk.img"], s.file name = s.system name)
    (htorn : s.Torn) : s.Losable md5sum := by
  let off := s.setStage .off
  let booted : Console α := { off with unzipped := false, stage := .unzip }
  let unzipped : Console α :=
    { booted with dat := release.unzip s.dat .extracted, unzipped := true, stage := .test }
  have hsystem : unzipped.dat = s.system := by simp [unzipped, system, hzip]
  have hoff : s.step md5sum .powerCut = some off := rfl
  have hbooted : off.step md5sum .power = some booted := by
    simp [Console.step, off, booted, setStage, hzip]
  have hunzipped : booted.step md5sum (.unzip .extracted) = some unzipped := by
    simp [Console.step, off, booted, unzipped, setStage, hzip, Unzip.succeeds]
  have hskipped : unzipped.step md5sum .test = some (unzipped.setStage .rm) := by
    have hold : wasUpdated md5sum unzipped.dat unzipped.misc = false := by
      rw [hsystem]
      exact hupdated
    have hinstalled : unzipped.flag = true := hflag
    have hstage : unzipped.stage = .test := rfl
    simp [Console.step, hstage, hinstalled, hold]
  have htest : unzipped.Recoverable md5sum .test := by
    intro _ _ name hname a b ha hb _
    rw [hsystem, ← hfiles name hname] at hb
    exact Option.some.inj (ha.symm.trans hb)
  refine Losable.of_step hoff trivial (Losable.of_step hbooted trivial
    (Losable.of_step hunzipped trivial (Losable.of_step hskipped htest ⟨_, .refl, ?_⟩)))
  have hstill : (unzipped.setStage .rm).zip = some release := hzip
  rw [kept_iff rfl hstill]
  intro hfinished
  have hlogo := hfinished.logo htorn.1
  rw [← system_needed hzip (by decide)] at hlogo
  exact htorn.2 hlogo

/-- The logo is left torn on a console that `was_updated` has nothing else to find on. -/
theorem Sound.losable_of_logoFailed (h : s.Sound md5sum) (hstage : s.stage = .bootLogo)
    (hflag : s.flag = true) (hupdated : wasUpdated md5sum s.dat s.misc = false) {left : α}
    (hleft : s.dat "boot_logo.bmp.gz" ≠ some left)
    (hstep : s.step md5sum (.cp (.failed (some left))) = some t) : t.Losable md5sum := by
  have hpassed : s.stage.passed = 3 := by rw [hstage]; rfl
  obtain ⟨-, hzip, hdat⟩ := h.extracted (by omega)
  obtain ⟨release, hrelease⟩ := Option.isSome_iff_exists.mp hzip
  obtain rfl : (s.write "boot_logo.bmp.gz" left).setStage .launch = t := by
    simpa [Console.step, hstage, cpThen, Console.cp, Cp.succeeds] using hstep
  rw [hdat] at hupdated hleft
  have hdmenu : (s.write "boot_logo.bmp.gz" left).file "dmenu.bin" = s.system "dmenu.bin" :=
    (file_write_of_ne (by decide)).trans (h.dmenu (by omega))
  have hramdisk : (s.write "boot_logo.bmp.gz" left).file "ramdisk.img" = s.system "ramdisk.img" :=
    (file_write_of_ne (by decide)).trans (h.ramdisk (by omega))
  refine losable_of_skipped hrelease hflag ?_ ?_ ⟨?_, ?_⟩
  · cases hnew : wasUpdated md5sum s.system (s.write "boot_logo.bmp.gz" left).misc with
    | false => exact hnew
    | true =>
        have hstale := stale_of_wasUpdated hnew hdmenu hramdisk
        have hold : Stale md5sum s.system s.misc :=
          hstale.congr fun path hpath => (AList.lookup_insert_ne (hpath _ (by decide))).symm
        exact absurd (hupdated.symm.trans (wasUpdated_of_stale hold)) Bool.false_ne_true
  · intro name hname
    simp only [List.mem_cons, List.not_mem_nil, or_false] at hname
    rcases hname with rfl | rfl
    · exact hdmenu
    · exact hramdisk
  · simp [setStage, write]
  · intro hlogo
    exact hleft (hlogo.symm.trans file_write_self)

/-- A sum hides from `was_updated` that a boot file is not the new one. -/
theorem Sound.losable_of_sum (h : s.Sound md5sum) (hstage : s.stage = .test)
    (hflag : s.flag = true) (hupdated : wasUpdated md5sum s.dat s.misc = false)
    (hname : name ∈ ["dmenu.bin", "ramdisk.img"]) {a b : α} (ha : s.file name = some a)
    (hb : s.dat name = some b) (hne : a ≠ b) (hstep : s.step md5sum .test = some t) :
    t.Losable md5sum := by
  have hpassed : s.stage.passed = 1 := by rw [hstage]; rfl
  obtain ⟨-, hzip, hdat⟩ := h.extracted (by omega)
  obtain ⟨release, hrelease⟩ := Option.isSome_iff_exists.mp hzip
  obtain rfl : s.setStage .rm = t := by
    simpa [Console.step, hstage, hflag, hupdated] using hstep
  have hstill : (s.setStage .rm).zip = some release := hrelease
  refine ⟨_, .refl, ?_⟩
  rw [kept_iff rfl hstill]
  intro hfinished
  have hfile : s.file name = release.files name := by
    simp only [List.mem_cons, List.not_mem_nil, or_false] at hname
    rcases hname with rfl | rfl
    · exact hfinished.dmenu
    · exact hfinished.ramdisk
  have hneeded : name ∈ installed := List.mem_append_left ["boot_logo.bmp.gz"] hname
  rw [← system_needed hrelease hneeded, ← hdat, ha, hb] at hfile
  exact hne (Option.some.inj hfile)

/-- As long as every step is recoverable the zip is kept until the install is finished, and the
first step that is not lets it be lost. -/
theorem zip_kept_iff (hreach : Reaches (Console.step md5sum) (Recoverable md5sum)
    (start dat misc) s) : s.Kept md5sum ∧ ∀ input t, s.step md5sum input = some t →
      (s.Recoverable md5sum input ↔
        ∀ u, Reaches (Console.step md5sum) (Recoverable md5sum) t u → u.Kept md5sum) := by
  have hsound := reaches_sound hreach
  refine ⟨hsound.keepsZip, fun input t hstep => ⟨fun hallowed u hu => ?_, fun hkept => ?_⟩⟩
  · exact (reaches_sound ((hreach.tail hallowed hstep).trans hu)).keepsZip
  · have hnot : ¬t.Losable md5sum := fun ⟨lost, hlost, hbad⟩ => hbad (hkept lost hlost)
    unfold Recoverable
    split
    next left =>
      intro hstage hflag hupdated
      by_contra hleft
      exact hnot (hsound.losable_of_logoFailed hstage hflag hupdated hleft hstep)
    next =>
      intro hflag hupdated name hname a b ha hb _
      by_contra hne
      have hstage : s.stage = .test := by
        dsimp only [Console.step] at hstep
        split at hstep
        next hstage => exact hstage
        next => cases hstep
      exact hnot (hsound.losable_of_sum hstage hflag hupdated hname ha hb hne hstep)
    next => trivial

end Console

end DarkUI.Boot.Rg35xx
