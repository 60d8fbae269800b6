import DarkUI.Minui.Directory
import Mathlib.Data.List.Perm.Basic

/-! # Consoles that share a display name

The root shows one folder for every display name, while an opened folder is collated
with the folders whose paths start like its own up to the last parenthesis. The two
rules agree exactly when starting alike and sharing a display name come to the same,
and no two folders of one name have a third between them that differs only in case.
-/

namespace DarkUI.Minui

open Text

/-- What a file system keeps of the names under Roms: distinct, not empty, without
slashes, and no longer than `NAME_MAX`; what holds items is a directory. -/
structure RomsLayout (fs : FileSystem) : Prop where
  nodup : (visibleItems fs romsPath).Nodup
  name_inj : ∀ item ∈ visibleItems fs romsPath, ∀ other ∈ visibleItems fs romsPath,
    item.name = other.name → item = other
  name_ne : ∀ item ∈ visibleItems fs romsPath, item.name ≠ []
  no_slash : ∀ item ∈ visibleItems fs romsPath, '/' ∉ item.name
  length_le : ∀ item ∈ visibleItems fs romsPath, item.name.length ≤ 255
  isDir : ∀ item ∈ visibleItems fs romsPath,
    visibleItems fs (consolePath item) ≠ [] → item.isDir = true
  child_no_slash : ∀ item ∈ visibleItems fs romsPath,
    ∀ child ∈ visibleItems fs (consolePath item), '/' ∉ child.name

/-- The folders under Roms that the root accepts. -/
def acceptedFolders (host : Host) (fs : FileSystem) : List Dirent :=
  (visibleItems fs romsPath).filter (hasRoms host fs ·.name)

/-- The folders under Roms. -/
def romsFolders (fs : FileSystem) : List Dirent := (visibleItems fs romsPath).filter (·.isDir)

/-- The name a folder under Roms is shown with. -/
def consoleName (device : Device) (item : Dirent) : CString :=
  getDisplayName device (consolePath item)

/-- Every game of an accepted folder is listed by the one entry of the root with the
folder's name, and an entry lists the games of the folders with its name. -/
structure CollatesByName (host : Host) (fs : FileSystem) : Prop where
  reachable : ∀ item ∈ acceptedFolders host fs,
    ∃ entry ∈ consoles host fs, entry.name = consoleName host.device item ∧
      (∀ other ∈ consoles host fs, other.name = entry.name → other = entry) ∧
      ∀ child ∈ visibleItems fs (consolePath item),
        addedEntry host (consolePath item) child ∈ getEntries host fs entry.path
  exact : ∀ entry ∈ consoles host fs,
    (getEntries host fs entry.path).Perm
      (((romsFolders fs).filter fun folder =>
        consoleName host.device folder = getDisplayName host.device entry.path).flatMap
          fun folder => addEntries host fs (consolePath folder))

/-- The rule of the root and the rule of the opened folder agree. -/
structure NamesAgree (host : Host) (fs : FileSystem) : Prop where
  prefix_iff : ∀ item ∈ acceptedFolders host fs, ∀ folder ∈ romsFolders fs,
    visibleItems fs (consolePath folder) ≠ [] →
      (prefixMatch (collatedPath (consolePath item)) (consolePath folder) = true ↔
        consoleName host.device folder = consoleName host.device item)
  case_eq : ∀ a ∈ acceptedFolders host fs, ∀ b ∈ acceptedFolders host fs,
    ∀ c ∈ acceptedFolders host fs, a ≠ b →
      consoleName host.device a = consoleName host.device b →
      lower (consoleName host.device c) = lower (consoleName host.device a) →
        consoleName host.device c = consoleName host.device a

/-! ## Paths under Roms -/

theorem consolePath_inj {a b : Dirent} (h : consolePath a = consolePath b) : a.name = b.name := by
  simpa [consolePath] using h

theorem parentPath_consolePath {item : Dirent} (h : '/' ∉ item.name) :
    parentPath (consolePath item) = romsPath := by
  have hsplit : splitLast '/' (consolePath item) = some (romsPath, item.name) :=
    splitLast_eq_some.mpr ⟨rfl, h⟩
  simp [parentPath, hsplit]

theorem isConsoleDir_consolePath {item : Dirent} (h : '/' ∉ item.name) :
    isConsoleDir (consolePath item) = true := by
  simp [isConsoleDir, parentPath_consolePath h, exactMatch]

variable {host : Host} {fs : FileSystem}

/-- A slash after the name of a directory makes no difference. -/
theorem visibleItems_slash {item : Dirent} (hne : item.name ≠ []) (hslash : '/' ∉ item.name)
    (hlength : item.name.length ≤ 255) :
    visibleItems fs (bounded maxPath (romsPath ++ '/' :: item.name ++ ['/'])) =
      visibleItems fs (consolePath item) := by
  have hbounded : bounded maxPath (romsPath ++ '/' :: item.name ++ ['/']) =
      consolePath item ++ ['/'] := by
    rw [bounded_of_lt]
    · simp [consolePath]
    · have hroms : romsPath.length = 16 := by decide
      simp only [List.length_append, List.length_cons, List.length_nil, hroms, maxPath]
      omega
  have hlast : (consolePath item).getLast? ≠ some '/' := by
    intro heq
    have hmem : '/' ∈ item.name := by
      rw [consolePath, List.getLast?_append, List.getLast?_cons] at heq
      cases hname : item.name.getLast? with
      | none => exact absurd (List.getLast?_eq_none_iff.mp hname) hne
      | some c =>
          rw [hname] at heq
          simp only [Option.getD_some, Option.some_or, Option.some.injEq] at heq
          exact heq ▸ List.mem_of_getLast? hname
    exact hslash hmem
  have hopen : fs.opendir (consolePath item ++ ['/']) = fs.opendir (consolePath item) := by
    have hopen' : fs.opendir (consolePath item) = fs.dir (consolePath item) := by
      unfold FileSystem.opendir
      split
      next heq => exact absurd heq hlast
      next => rfl
    rw [hopen']
    simp [FileSystem.opendir]
  unfold visibleItems
  rw [hbounded, hopen]

theorem mem_romsFolders_of_accepted (hfs : RomsLayout fs) {item : Dirent}
    (h : item ∈ acceptedFolders host fs) :
    item ∈ romsFolders fs ∧ visibleItems fs (consolePath item) ≠ [] := by
  obtain ⟨hitem, hroms⟩ := List.mem_filter.mp h
  simp only [hasRoms, Bool.and_eq_true, decide_eq_true_eq] at hroms
  have hvisible := hroms.2
  rw [visibleItems_slash (hfs.name_ne item hitem) (hfs.no_slash item hitem)
    (hfs.length_le item hitem)] at hvisible
  exact ⟨List.mem_filter.mpr ⟨hitem, hfs.isDir item hitem hvisible⟩, hvisible⟩

/-- A listed game tells the folder it is in. -/
theorem folder_eq_of_path {folder other : Dirent} {item child : Dirent}
    (hitem : '/' ∉ item.name) (hchild : '/' ∉ child.name)
    (h : (addedEntry host (consolePath folder) item).path =
      (addedEntry host (consolePath other) child).path) : folder.name = other.name := by
  have hfirst : splitLast '/' (addedEntry host (consolePath folder) item).path =
      some (consolePath folder, item.name) :=
    splitLast_eq_some.mpr ⟨rfl, hitem⟩
  have hsecond : splitLast '/' (addedEntry host (consolePath other) child).path =
      some (consolePath other, child.name) :=
    splitLast_eq_some.mpr ⟨rfl, hchild⟩
  rw [h, hsecond] at hfirst
  simp only [Option.some.injEq, Prod.mk.injEq] at hfirst
  exact (consolePath_inj hfirst.1).symm

/-! ## The listing of a console folder -/

theorem getEntries_perm {item : Dirent} (hslash : '/' ∉ item.name) :
    (getEntries host fs (consolePath item)).Perm
      (((romsFolders fs).filter fun folder =>
        prefixMatch (collatedPath (consolePath item)) (consolePath folder)).flatMap
          fun folder => addEntries host fs (consolePath folder)) := by
  unfold getEntries
  rw [if_pos (isConsoleDir_consolePath hslash)]
  refine (host.qsort.perm _).trans ?_
  unfold collatedFolders romsFolders
  rw [List.filter_map, List.flatMap_map]
  exact List.Perm.refl _

theorem flatMap_filter_congr {α β : Type} {p q : α → Bool} {f : α → List β} {xs : List α}
    (h : ∀ x ∈ xs, f x ≠ [] → p x = q x) : (xs.filter p).flatMap f = (xs.filter q).flatMap f := by
  induction xs with
  | nil => rfl
  | cons x rest ih =>
      have hrest := ih fun y hy => h y (List.mem_cons_of_mem _ hy)
      by_cases hempty : f x = []
      · cases hp : p x <;> cases hq : q x <;> simp [hp, hq, hempty, hrest]
      · have heq := h x List.mem_cons_self hempty
        cases hp : p x <;> rw [hp] at heq <;> simp [hp, ← heq, hrest]

theorem addEntries_ne_nil {path : CString} :
    addEntries host fs path ≠ [] ↔ visibleItems fs path ≠ [] := by
  simp [addEntries]

/-- Two rules collate the same games exactly when they choose the same folders that
have any. -/
theorem flatMap_perm_iff (hfs : RomsLayout fs) {p q : Dirent → Bool} :
    (((romsFolders fs).filter p).flatMap fun folder => addEntries host fs (consolePath folder)).Perm
      (((romsFolders fs).filter q).flatMap fun folder => addEntries host fs (consolePath folder)) ↔
    ∀ folder ∈ romsFolders fs, visibleItems fs (consolePath folder) ≠ [] → p folder = q folder := by
  constructor
  · intro hperm folder hfolder hvisible
    obtain ⟨item, hitem⟩ := List.exists_mem_of_ne_nil _ hvisible
    have hmem (r : Dirent → Bool) :
        (addedEntry host (consolePath folder) item ∈
          ((romsFolders fs).filter r).flatMap fun folder =>
            addEntries host fs (consolePath folder)) ↔ r folder = true := by
      constructor
      · intro h
        obtain ⟨other, hother, hentry⟩ := List.mem_flatMap.mp h
        obtain ⟨hotherFolder, hr⟩ := List.mem_filter.mp hother
        obtain ⟨child, hchild, heq⟩ := List.mem_map.mp hentry
        have hotherItem := (List.mem_filter.mp hotherFolder).1
        have hfolderItem := (List.mem_filter.mp hfolder).1
        have hname := folder_eq_of_path (hfs.child_no_slash other hotherItem child hchild)
          (hfs.child_no_slash folder hfolderItem item hitem) (congrArg Entry.path heq)
        rw [hfs.name_inj folder hfolderItem other hotherItem hname.symm]
        exact hr
      · intro hr
        exact List.mem_flatMap.mpr ⟨folder, List.mem_filter.mpr ⟨hfolder, hr⟩,
          List.mem_map_of_mem hitem⟩
    have hiff := (hmem p).symm.trans (hperm.mem_iff.trans (hmem q))
    exact Bool.eq_iff_iff.mpr hiff
  · intro h
    rw [flatMap_filter_congr fun folder hfolder hne => h folder hfolder (addEntries_ne_nil.mp hne)]

/-! ## Sorting with ties in a chosen order -/

/-- By name, and entries that compare equal by rank. -/
def rankLe (rank : Entry → Nat) (a b : Entry) : Prop :=
  caseLe a.name b.name ∧ (caseLe b.name a.name → rank a ≤ rank b)

instance (rank : Entry → Nat) : DecidableRel (rankLe rank) :=
  fun _ _ => inferInstanceAs (Decidable (_ ∧ _))

instance (rank : Entry → Nat) : Std.Total (rankLe rank) where
  total a b := by
    have htotal := caseLe_total a.name b.name
    cases hab : caseLe a.name b.name with
    | false => exact .inr ⟨by simpa [hab] using htotal, fun h => by simp [hab] at h⟩
    | true =>
        cases hba : caseLe b.name a.name with
        | false => exact .inl ⟨hab, fun h => by simp [hba] at h⟩
        | true =>
            rcases Nat.le_total (rank a) (rank b) with h | h
            · exact .inl ⟨hab, fun _ => h⟩
            · exact .inr ⟨hba, fun _ => h⟩

instance (rank : Entry → Nat) : IsTrans Entry (rankLe rank) where
  trans _ _ _ hab hbc :=
    ⟨caseLe_trans hab.1 hbc.1, fun hca =>
      (hab.2 (caseLe_trans hbc.1 hca)).trans (hbc.2 (caseLe_trans hca hab.1))⟩

def EntrySort.byRank (rank : Entry → Nat) : EntrySort where
  sort := List.insertionSort (rankLe rank)
  perm entries := List.perm_insertionSort _ entries
  sorted entries := (List.pairwise_insertionSort (rankLe rank) entries).imp And.left

theorem EntrySort.byRank_pairwise (rank : Entry → Nat) (entries : List Entry) :
    ((byRank rank).sort entries).Pairwise (rankLe rank) :=
  List.pairwise_insertionSort (rankLe rank) entries

/-! ## The root -/

/-- The entry of a folder under Roms. -/
def consoleEntry (host : Host) (item : Dirent) : Entry := Entry.new host (consolePath item) .dir

/-- The accepted folders in the order of their names. -/
def sortedConsoles (host : Host) (fs : FileSystem) : List Entry :=
  host.qsort.sort ((acceptedFolders host fs).map (consoleEntry host))

theorem mem_sortedConsoles {entry : Entry} :
    entry ∈ sortedConsoles host fs ↔
      ∃ item ∈ acceptedFolders host fs, consoleEntry host item = entry := by
  rw [sortedConsoles, (host.qsort.perm _).mem_iff, List.mem_map]

theorem consoleEntry_inj (hfs : RomsLayout fs) {a b : Dirent} (ha : a ∈ acceptedFolders host fs)
    (hb : b ∈ acceptedFolders host fs) (h : consolePath a = consolePath b) : a = b :=
  hfs.name_inj a (List.mem_of_mem_filter ha) b (List.mem_of_mem_filter hb) (consolePath_inj h)

theorem sortedConsoles_nodup (hfs : RomsLayout fs) : (sortedConsoles host fs).Nodup := by
  rw [sortedConsoles, (host.qsort.perm _).nodup_iff]
  refine List.Nodup.map_on (fun a ha b hb heq => ?_) (hfs.nodup.filter _)
  exact consoleEntry_inj hfs ha hb (congrArg Entry.path heq)

theorem consoles_eq :
    consoles host fs = Neighbours.dedup Entry.name none (sortedConsoles host fs) :=
  rfl

theorem exact_iff (hfs : RomsLayout fs) {item : Dirent} (hitem : item ∈ acceptedFolders host fs) :
    (getEntries host fs (consolePath item)).Perm
      (((romsFolders fs).filter fun folder =>
        consoleName host.device folder = consoleName host.device item).flatMap
          fun folder => addEntries host fs (consolePath folder)) ↔
    ∀ folder ∈ romsFolders fs, visibleItems fs (consolePath folder) ≠ [] →
      (prefixMatch (collatedPath (consolePath item)) (consolePath folder) = true ↔
        consoleName host.device folder = consoleName host.device item) := by
  have hslash := hfs.no_slash item (List.mem_of_mem_filter hitem)
  have hperm := @getEntries_perm host fs _ hslash
  have hiff := @flatMap_perm_iff host _ hfs
    (p := fun folder => prefixMatch (collatedPath (consolePath item)) (consolePath folder))
    (q := fun folder => consoleName host.device folder = consoleName host.device item)
  constructor
  · intro h folder hfolder hvisible
    have heq := hiff.mp (hperm.symm.trans h) folder hfolder hvisible
    simpa using Bool.eq_iff_iff.mp heq
  · intro h
    refine hperm.trans (hiff.mpr fun folder hfolder hvisible => ?_)
    exact Bool.eq_iff_iff.mpr (by simpa using h folder hfolder hvisible)

/-- Ranked first among its ties, an accepted folder is the one that the root shows. -/
theorem consoleEntry_mem_consoles {device : Device} (hfs : RomsLayout fs) {item : Dirent}
    {rank : Entry → Nat} (hitem : item ∈ acceptedFolders ⟨device, .byRank rank⟩ fs)
    (hfirst : ∀ other ∈ acceptedFolders ⟨device, .byRank rank⟩ fs,
      rank (consoleEntry ⟨device, .byRank rank⟩ other) ≤
        rank (consoleEntry ⟨device, .byRank rank⟩ item) → other = item) :
    consoleEntry ⟨device, .byRank rank⟩ item ∈ consoles ⟨device, .byRank rank⟩ fs := by
  set host : Host := ⟨device, .byRank rank⟩ with hhost
  have hmem := mem_sortedConsoles.mpr ⟨item, hitem, rfl⟩
  obtain ⟨before, after, hsplit⟩ := List.append_of_mem hmem
  have hsorted : (sortedConsoles host fs).Pairwise (rankLe rank) :=
    EntrySort.byRank_pairwise rank _
  have hnodup := @sortedConsoles_nodup host _ hfs
  rw [hsplit] at hsorted hnodup
  rw [consoles_eq, hsplit]
  refine Neighbours.mem_dedup_of_first (fun other hother hname => ?_) (by simp)
  have hle := (List.pairwise_append.mp hsorted).2.2 other hother (consoleEntry host item)
    List.mem_cons_self
  obtain ⟨folder, hfolder, rfl⟩ := mem_sortedConsoles.mp
    (hsplit ▸ List.mem_append_left _ hother : other ∈ sortedConsoles host fs)
  have heq := hfirst folder hfolder (hle.2 (by rw [hname]; exact caseLe_refl _))
  subst heq
  exact (List.disjoint_of_nodup_append hnodup) hother List.mem_cons_self

/-- Two folders of one name with a third sorted between them are both shown. -/
theorem exists_pair_consoles {device : Device} {a b c : Dirent} {rank : Entry → Nat}
    (ha : a ∈ acceptedFolders ⟨device, .byRank rank⟩ fs)
    (hb : b ∈ acceptedFolders ⟨device, .byRank rank⟩ fs)
    (hc : c ∈ acceptedFolders ⟨device, .byRank rank⟩ fs)
    (hab : consoleName device a = consoleName device b)
    (hca : consoleName device c ≠ consoleName device a)
    (hcase : lower (consoleName device c) = lower (consoleName device a))
    (hac : rank (consoleEntry ⟨device, .byRank rank⟩ a) <
      rank (consoleEntry ⟨device, .byRank rank⟩ c))
    (hcb : rank (consoleEntry ⟨device, .byRank rank⟩ c) <
      rank (consoleEntry ⟨device, .byRank rank⟩ b)) :
    ∃ a' b', [a', b'].Sublist (consoles ⟨device, .byRank rank⟩ fs) ∧
      a'.name = consoleName device a ∧ b'.name = consoleName device a := by
  set host : Host := ⟨device, .byRank rank⟩ with hhost
  have hmem {item : Dirent} (h : item ∈ acceptedFolders host fs) :
      consoleEntry host item ∈ sortedConsoles host fs := mem_sortedConsoles.mpr ⟨item, h, rfl⟩
  obtain ⟨before, after, hsplit⟩ := List.append_of_mem (hmem hc)
  have hsorted : (sortedConsoles host fs).Pairwise (rankLe rank) :=
    EntrySort.byRank_pairwise rank _
  rw [hsplit] at hsorted
  have htieAC := caseLe_and_caseLe.mpr hcase
  have htieBC := caseLe_and_caseLe.mpr (hab ▸ hcase)
  -- names that differ in case alone tie, so the rank decides between them
  have hbefore : consoleEntry host a ∈ before := by
    have h := hmem ha
    rw [hsplit] at h
    rcases List.mem_append.mp h with h | h
    · exact h
    · rcases List.mem_cons.mp h with h | h
      · exact absurd (congrArg Entry.name h).symm hca
      · have hle := List.rel_of_pairwise_cons (List.pairwise_append.mp hsorted).2.1 h
        have hrank := hle.2 htieAC.2
        omega
  have hafter : consoleEntry host b ∈ after := by
    have h := hmem hb
    rw [hsplit] at h
    rcases List.mem_append.mp h with h | h
    · have hle := (List.pairwise_append.mp hsorted).2.2 _ h (consoleEntry host c)
        List.mem_cons_self
      have hrank := hle.2 htieBC.1
      omega
    · rcases List.mem_cons.mp h with h | h
      · exact absurd ((congrArg Entry.name h).symm.trans hab.symm) hca
      · exact h
  have hpair := @Neighbours.exists_pair_dedup _ _ _ Entry.name _ _ _ _ (consoleEntry host c)
    hbefore hafter hab hca
  rw [List.append_assoc] at hpair
  rw [consoles_eq, hsplit]
  exact hpair

/-- Where no third name comes between, the root shows every name once. -/
theorem consoles_names_nodup (hfs : RomsLayout fs) (h : NamesAgree host fs) :
    ((consoles host fs).map Entry.name).Nodup := by
  refine Neighbours.nodup_map_dedup fun a c b hsub hab => ?_
  have hsorted := List.Pairwise.sublist hsub (host.qsort.sorted _)
  have hnodup := hsub.nodup (sortedConsoles_nodup hfs)
  have hmem (entry : Entry) (hentry : entry ∈ [a, c, b]) :
      ∃ item ∈ acceptedFolders host fs, consoleEntry host item = entry :=
    mem_sortedConsoles.mp (hsub.mem hentry)
  obtain ⟨itemA, hA, rfl⟩ := hmem a (by simp)
  obtain ⟨itemB, hB, rfl⟩ := hmem b (by simp)
  obtain ⟨itemC, hC, rfl⟩ := hmem c (by simp)
  simp only [List.pairwise_cons, List.mem_cons, forall_eq_or_imp] at hsorted hnodup
  have hne : itemA ≠ itemB := by
    rintro rfl
    simp at hnodup
  have hca : caseLe (consoleName host.device itemC) (consoleName host.device itemA) := by
    have hcb := hsorted.2.1.1
    rw [← hab] at hcb
    exact hcb
  exact h.case_eq itemA hA itemB hB itemC hC hne hab (caseLe_and_caseLe.mp ⟨hca, hsorted.1.1⟩)

theorem collatesByName_of_namesAgree (hfs : RomsLayout fs) (h : NamesAgree host fs) :
    CollatesByName host fs := by
  have hitem {entry : Entry} (hentry : entry ∈ consoles host fs) :
      ∃ item ∈ acceptedFolders host fs, consoleEntry host item = entry :=
    mem_sortedConsoles.mp (Neighbours.mem_of_mem_dedup hentry)
  have hexact : ∀ entry ∈ consoles host fs,
      (getEntries host fs entry.path).Perm
        (((romsFolders fs).filter fun folder =>
          consoleName host.device folder = getDisplayName host.device entry.path).flatMap
            fun folder => addEntries host fs (consolePath folder)) := by
    intro entry hentry
    obtain ⟨item, haccepted, rfl⟩ := hitem hentry
    exact (exact_iff hfs haccepted).mpr (h.prefix_iff item haccepted)
  refine ⟨fun item haccepted => ?_, hexact⟩
  obtain ⟨entry, hentry, hname⟩ := @Neighbours.exists_mem_dedup _ _ _ Entry.name none _ _
    (mem_sortedConsoles.mpr ⟨item, haccepted, rfl⟩) (by simp)
  refine ⟨entry, hentry, hname, fun other hother heq => ?_, fun child hchild => ?_⟩
  · exact List.inj_on_of_nodup_map (consoles_names_nodup hfs h) hother hentry heq
  · obtain ⟨folder, _, rfl⟩ := hitem hentry
    refine (hexact _ hentry).mem_iff.mpr
      (List.mem_flatMap.mpr ⟨item, ?_, List.mem_map_of_mem hchild⟩)
    refine List.mem_filter.mpr ⟨(mem_romsFolders_of_accepted hfs haccepted).1, ?_⟩
    exact decide_eq_true hname.symm

/-- Whatever order the sort leaves equal names in, the root and the opened folders
agree on every console exactly when their two rules do. -/
theorem consoles_collated_iff (hfs : RomsLayout fs) :
    (∀ qsort, CollatesByName ⟨host.device, qsort⟩ fs) ↔ NamesAgree host fs := by
  constructor
  · intro hall
    constructor
    · intro item hitem
      -- the sort may put the folder in front of all that its name ties with
      let rank (entry : Entry) : Nat := if entry.path = consolePath item then 0 else 1
      have hmem : consoleEntry ⟨host.device, .byRank rank⟩ item ∈
          consoles ⟨host.device, .byRank rank⟩ fs := by
        refine consoleEntry_mem_consoles hfs hitem fun other hother hle => ?_
        by_contra hne
        have hpath : consolePath other ≠ consolePath item := fun heq =>
          hne (consoleEntry_inj hfs hother hitem heq)
        simp [rank, consoleEntry, Entry.new, hpath] at hle
      exact (@exact_iff ⟨host.device, .byRank rank⟩ _ hfs _ hitem).mp
        ((hall _).exact _ hmem)
    · intro a ha b hb c hc hne hab hcase
      by_contra hca
      let rank (entry : Entry) : Nat :=
        if entry.path = consolePath a then 0 else if entry.path = consolePath b then 2 else 1
      have hpathBA : consolePath b ≠ consolePath a := fun heq =>
        hne (consoleEntry_inj hfs hb ha heq).symm
      have hpathCA : consolePath c ≠ consolePath a := fun heq => hca (by
        rw [consoleEntry_inj hfs hc ha heq])
      have hpathCB : consolePath c ≠ consolePath b := fun heq => hca (by
        rw [consoleEntry_inj hfs hc hb heq, hab])
      obtain ⟨a', b', hpair, ha', hb'⟩ := @exists_pair_consoles _ _ _ _ _
        rank ha hb hc hab hca hcase
        (by simp [rank, consoleEntry, Entry.new, hpathCA, hpathCB])
        (by simp [rank, consoleEntry, Entry.new, hpathCA, hpathCB, hpathBA])
      obtain ⟨entry, _, hname, hunique, _⟩ := (hall (.byRank rank)).reachable a ha
      have heqA := hunique a' (hpair.mem (by simp)) (ha'.trans hname.symm)
      have heqB := hunique b' (hpair.mem (by simp)) (hb'.trans hname.symm)
      have hnodup := hpair.nodup (Neighbours.dedup_sublist.nodup
        (sortedConsoles_nodup hfs))
      rw [heqA, heqB] at hnodup
      simp at hnodup
  · intro h qsort
    exact collatesByName_of_namesAgree hfs
      ⟨h.prefix_iff, h.case_eq⟩

/-- A card with folders of one game each, and with their emulators. -/
def consolesCard (tags folders : List CString) : FileSystem :=
  .ofLists
    (tags.map fun tag =>
      ("/mnt/sdcard/.system/rg35xx/paks/Emus/".toList ++ tag ++ ".pak/launch.sh".toList, []))
    (("/mnt/sdcard/Roms".toList, folders.map (⟨·, true⟩)) ::
      folders.map fun folder => (romsPath ++ '/' :: folder, [⟨"game.gb".toList, false⟩]))

/-- Two emulators for one console. -/
def sharedNameCard : FileSystem :=
  consolesCard ["GBA".toList, "MGBA".toList]
    ["Game Boy Advance (GBA)".toList, "Game Boy Advance (MGBA)".toList]

theorem sharedNameCard_layout : RomsLayout sharedNameCard := by
  constructor <;> decide +kernel

theorem consoles_collated_shared : NamesAgree ⟨rg35xx, .stable⟩ sharedNameCard ∧
    ∀ qsort, CollatesByName ⟨rg35xx, qsort⟩ sharedNameCard := by
  have hagree : NamesAgree ⟨rg35xx, .stable⟩ sharedNameCard :=
    ⟨by decide +kernel, by decide +kernel⟩
  exact ⟨hagree, (@consoles_collated_iff ⟨rg35xx, .stable⟩ _ sharedNameCard_layout).mpr hagree⟩

/-- Two bare tags, one of which starts like the other. -/
def bareTagsCard : FileSystem :=
  consolesCard ["GB".toList, "GBA".toList] ["GB".toList, "GBA".toList]

/-- The folder of the shorter tag lists the games of the longer one too. -/
theorem consoles_miscollated :
    RomsLayout bareTagsCard ∧ ¬ CollatesByName ⟨rg35xx, .stable⟩ bareTagsCard := by
  refine ⟨by constructor <;> decide +kernel, fun h => ?_⟩
  have hperm := h.exact (consoleEntry ⟨rg35xx, .stable⟩ ⟨"GB".toList, true⟩) (by decide +kernel)
  have hlength := hperm.length_eq
  revert hlength
  decide +kernel

end DarkUI.Minui
