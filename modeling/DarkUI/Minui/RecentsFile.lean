import DarkUI.Minui.Entries
import Mathlib.Tactic.SplitIfs

/-! # What comes back of a saved recents list

The list is written one game to a line and read back in pieces of 255 characters. Discs of
one game are told by their folder, which is compared without regard to case and only as far
as the folders seen before reach.
-/

namespace DarkUI.Minui

open Text

namespace Recent

/-- The line of a game without its newline. -/
def content (recent : Recent) : CString := recent.path ++ recent.alias.elim [] ('\t' :: ·)

/-- What the file says of a game. -/
def named (recent : Recent) : CString × Option CString := (recent.path, recent.alias)

theorem line_eq (recent : Recent) : recent.line = recent.content ++ ['\n'] := rfl

/-- A game that exists, with a path and an alias that stay in their place in a line. -/
structure Proper (fs : FileSystem) (recent : Recent) : Prop where
  rooted : recent.path.head? = some '/'
  found : fs.exists (sdcardPath ++ recent.path)
  tab : '\t' ∉ recent.path
  line : '\n' ∉ recent.content
  nul : '\x00' ∉ recent.content

/-- The line fits the array it is read into, and no carriage return is taken with its newline. -/
def LineFits (recent : Recent) : Prop :=
  recent.content.length ≤ 255 ∧
    (recent.content.length < 255 → recent.content.getLast? ≠ some '\r')

/-- The game is one of several discs: its folder has the `.m3u` that is named after it. -/
def multiDisc (fs : FileSystem) (recent : Recent) : Bool := hasM3u fs (sdcardPath ++ recent.path)

end Recent

/-- The games without those that have an earlier one in the same multi-disc folder. -/
def keepDiscs (fs : FileSystem) : List CString → List Recent → List Recent
  | _, [] => []
  | folders, recent :: rest =>
      let later := keepDiscs fs (folders ++ [basePath recent.path]) rest
      if recent.multiDisc fs ∧ basePath recent.path ∈ folders then later else recent :: later

theorem keepDiscs_append (fs : FileSystem) (folders : List CString) (before after : List Recent) :
    keepDiscs fs folders (before ++ after) =
      keepDiscs fs folders before ++
        keepDiscs fs (folders ++ before.map fun recent => basePath recent.path) after := by
  induction before generalizing folders with
  | nil => simp [keepDiscs]
  | cons first before ih =>
      simp only [List.cons_append, keepDiscs, ih, List.map_cons, List.append_assoc]
      split <;> rfl

/-- The path and the alias of a line. -/
def splitAlias (line : CString) : CString × Option CString :=
  match splitFirst '\t' line with
  | some (path, aliasName) => (path, some aliasName)
  | none => (line, none)

theorem splitAlias_content {recent : Recent} (htab : '\t' ∉ recent.path) :
    splitAlias recent.content = recent.named := by
  unfold splitAlias Recent.content Recent.named
  cases recent.alias with
  | none => simp [splitFirst_eq_none htab]
  | some aliasName => simp [splitFirst_append htab]

/-- The line is known from its parts. -/
theorem content_of_splitAlias {line : CString} {recent : Recent}
    (h : splitAlias line = recent.named) : line = recent.content := by
  unfold splitAlias at h
  unfold Recent.named at h
  split at h
  next path aliasName hsplit =>
    obtain ⟨hpath, halias⟩ := Prod.mk.inj h
    rw [(splitFirst_eq_some hsplit).1, Recent.content, ← hpath, ← halias]
    rfl
  next =>
    obtain ⟨hpath, halias⟩ := Prod.mk.inj h
    rw [Recent.content, ← hpath, ← halias]
    simp

namespace RecentsScan

variable (host : Host) {fs : FileSystem} {scan : RecentsScan} {line : CString}
  {lines : List CString}

/-- A disc whose folder starts like one seen before is passed over. -/
def Skips (fs : FileSystem) (scan : RecentsScan) (path : CString) : Prop :=
  hasM3u fs (sdPath path) ∧ ∃ folder ∈ scan.parentPaths, prefixMatch folder (basePath path)

instance (fs : FileSystem) (scan : RecentsScan) (path : CString) : Decidable (Skips fs scan path) :=
  inferInstanceAs (Decidable (_ ∧ _))

/-- The line adds a game to the list. -/
def Takes (fs : FileSystem) (scan : RecentsScan) (path : CString) : Prop :=
  fs.exists (sdPath path) ∧ scan.recents.length < maxRecents ∧ ¬ scan.Skips fs path

instance (fs : FileSystem) (scan : RecentsScan) (path : CString) : Decidable (Takes fs scan path) :=
  inferInstanceAs (Decidable (_ ∧ _))

theorem line_eq :
    scan.line host fs line =
      if scan.Takes fs (splitAlias line).1 then
        let recent := Recent.new host fs (splitAlias line).1 (splitAlias line).2
        { recents := scan.recents ++ [recent]
          parentPaths :=
            if hasM3u fs (sdPath (splitAlias line).1) then
              scan.parentPaths ++ [basePath (splitAlias line).1]
            else scan.parentPaths
          has := scan.has || recent.available }
      else scan := by
  have hskips (path : CString) : (hasM3u fs (sdPath path) &&
      scan.parentPaths.any (prefixMatch · (basePath path))) = decide (scan.Skips fs path) := by
    rw [Bool.eq_iff_iff, decide_eq_true_eq]
    simp [Skips]
  have htakes (path : CString) : scan.Takes fs path ↔
      (fs.exists (sdPath path) && decide (scan.recents.length < maxRecents)) ∧
        ¬ scan.Skips fs path := by
    simp [Takes, and_assoc]
  unfold RecentsScan.line splitAlias
  cases splitFirst '\t' line with
  | none =>
      simp only [hskips, decide_eq_true_eq, htakes, ite_and, ite_not]
  | some pair =>
      simp only [hskips, decide_eq_true_eq, htakes, ite_and, ite_not]

theorem parentPaths_grow : scan.parentPaths <+: (scan.line host fs line).parentPaths := by
  rw [line_eq]
  split_ifs <;> simp

/-- A full list takes no more games. -/
theorem foldl_full (hfull : maxRecents ≤ scan.recents.length) :
    lines.foldl (RecentsScan.line host fs) scan = scan := by
  induction lines with
  | nil => rfl
  | cons line lines ih =>
      have hline : scan.line host fs line = scan := by
        rw [line_eq, if_neg]
        rintro ⟨-, hroom, -⟩
        omega
      rw [List.foldl_cons, hline, ih]

/-- What a run of lines adds never includes a game that each of them would pass over. -/
theorem foldl_never {recent : Recent}
    (hskip : ∀ line ∈ lines, line = recent.content → scan.Skips fs recent.path) :
    ∃ added, (lines.foldl (RecentsScan.line host fs) scan).recents = scan.recents ++ added ∧
      ∀ other ∈ added, other.named ≠ recent.named := by
  induction lines generalizing scan with
  | nil => exact ⟨[], by simp, by simp⟩
  | cons line lines ih =>
      obtain ⟨added, hadded, hnever⟩ := @ih (scan.line host fs line) fun next hnext heq => by
        obtain ⟨hm3u, folder, hfolder, hprefix⟩ := hskip next (List.mem_cons_of_mem _ hnext) heq
        exact ⟨hm3u, folder, (parentPaths_grow host).subset hfolder, hprefix⟩
      rw [List.foldl_cons, hadded, line_eq]
      by_cases htakes : scan.Takes fs (splitAlias line).1
      · rw [if_pos htakes]
        refine ⟨Recent.new host fs (splitAlias line).1 (splitAlias line).2 :: added, by simp, ?_⟩
        rw [List.forall_mem_cons]
        refine ⟨fun hnamed => ?_, hnever⟩
        have hline : line = recent.content := content_of_splitAlias hnamed
        have hpath : (splitAlias line).1 = recent.path := congrArg Prod.fst hnamed
        exact htakes.2.2 (hpath ▸ hskip line List.mem_cons_self hline)
      · rw [if_neg htakes]
        exact ⟨added, rfl, hnever⟩

end RecentsScan

theorem basePath_append {root path : CString} (h : '/' ∈ path) :
    basePath (root ++ path) = root ++ basePath path := by
  unfold basePath
  cases hpath : splitLast '/' path with
  | none => exact absurd h (splitLast_eq_none.mp hpath)
  | some pair =>
      obtain ⟨hsplit, hname⟩ := splitLast_eq_some.mp hpath
      have hroot : splitLast '/' (root ++ path) = some (root ++ pair.1, pair.2) :=
        splitLast_eq_some.mpr ⟨by rw [hsplit, List.append_assoc], hname⟩
      simp [hroot]

theorem parentPath_append {root path : CString} (h : '/' ∈ path) :
    parentPath (root ++ path) = root ++ (basePath path).dropLast := by
  unfold basePath parentPath
  cases hpath : splitLast '/' path with
  | none => exact absurd h (splitLast_eq_none.mp hpath)
  | some pair =>
      obtain ⟨hsplit, hname⟩ := splitLast_eq_some.mp hpath
      have hroot : splitLast '/' (root ++ path) = some (root ++ pair.1, pair.2) :=
        splitLast_eq_some.mpr ⟨by rw [hsplit, List.append_assoc], hname⟩
      rw [hroot, List.dropLast_concat]

namespace Recent

variable {fs : FileSystem} {recent other : Recent}

theorem Proper.slash_mem (h : recent.Proper fs) : '/' ∈ recent.path :=
  List.mem_of_mem_head? h.rooted

/-- Whether a game is one of several discs is seen from its folder. -/
theorem multiDisc_congr (h : recent.Proper fs) (hother : other.Proper fs)
    (hfolder : basePath recent.path = basePath other.path) :
    recent.multiDisc fs = other.multiDisc fs := by
  unfold multiDisc hasM3u m3uPath
  rw [basePath_append h.slash_mem, basePath_append hother.slash_mem, parentPath_append h.slash_mem,
    parentPath_append hother.slash_mem, hfolder]

theorem sdPath_of_fits (h : recent.content.length ≤ 255) :
    sdPath recent.path = sdcardPath ++ recent.path := by
  have hroot : sdcardPath.length = 11 := rfl
  refine bounded_of_lt ?_
  simp only [content, List.length_append, maxPath] at h ⊢
  omega

theorem Proper.content_ne (h : recent.Proper fs) : recent.content ≠ [] := by
  intro hempty
  rw [content, List.append_eq_nil_iff] at hempty
  simpa [hempty.1] using h.rooted

end Recent

/-! ## Reading the list back -/

section Restore

variable (host : Host) {fs : FileSystem} {start : List Recent} {folders : List CString}
  {before after recents : List Recent} {recent : Recent}

/-- The folders of the games so far, the changed disc's first. -/
def foldersOf (folders : List CString) (before : List Recent) : List CString :=
  folders ++ before.map fun recent => basePath recent.path

/-- A game is read back as it is, and neither it nor a later disc is passed over for the wrong
game: its line fits, and a disc in a folder of its own is in none that starts like the folder
of an earlier disc. -/
def Recent.Clear (fs : FileSystem) (folders : List CString) (before : List Recent)
    (recent : Recent) : Prop :=
  recent.LineFits ∧
    (recent.multiDisc fs → basePath recent.path ∉ foldersOf folders before →
      ∀ folder ∈ foldersOf folders (before.filter (Recent.multiDisc fs)),
        prefixMatch folder (basePath recent.path) = false)

/-- What a scan has read of the games so far. -/
structure Read (fs : FileSystem) (start : List Recent) (folders : List CString)
    (before : List Recent) (scan : RecentsScan) : Prop where
  recents : scan.recents.map Recent.named =
    (start ++ keepDiscs fs folders before).map Recent.named
  parents : ∀ folder, folder ∈ scan.parentPaths ↔
    folder ∈ foldersOf folders (before.filter (Recent.multiDisc fs))

theorem keepDiscs_concat :
    keepDiscs fs folders (before ++ [recent]) = keepDiscs fs folders before ++
      if recent.multiDisc fs ∧ basePath recent.path ∈ foldersOf folders before then []
      else [recent] := by
  rw [keepDiscs_append]
  rfl

/-- A disc in the folder of an earlier game finds the folder among those of discs. -/
theorem mem_discFolders (hbefore : ∀ other ∈ before, other.Proper fs) (h : recent.Proper fs)
    (hmulti : recent.multiDisc fs) (hmem : basePath recent.path ∈ foldersOf folders before) :
    basePath recent.path ∈ foldersOf folders (before.filter (Recent.multiDisc fs)) := by
  rw [foldersOf, List.mem_append, List.mem_map] at hmem ⊢
  rcases hmem with hmem | ⟨other, hother, hfolder⟩
  · exact .inl hmem
  · refine .inr ⟨other, List.mem_filter.mpr ⟨hother, ?_⟩, hfolder⟩
    rw [Recent.multiDisc_congr (hbefore other hother) h hfolder, hmulti]

/-- A game that is clear of the others is read as it is kept. -/
theorem Read.line {scan : RecentsScan} (hread : Read fs start folders before scan)
    (hbefore : ∀ other ∈ before, other.Proper fs) (h : recent.Proper fs)
    (hclear : recent.Clear fs folders before) (hroom : scan.recents.length < maxRecents) :
    Read fs start folders (before ++ [recent]) (scan.line host fs recent.content) := by
  have hpath : (splitAlias recent.content).1 = recent.path :=
    congrArg Prod.fst (splitAlias_content h.tab)
  have halias : (splitAlias recent.content).2 = recent.alias :=
    congrArg Prod.snd (splitAlias_content h.tab)
  have hsd := Recent.sdPath_of_fits hclear.1.1
  have hmulti : hasM3u fs (sdPath recent.path) = recent.multiDisc fs := by
    rw [hsd, Recent.multiDisc]
  have hfound : fs.exists (sdPath recent.path) := hsd ▸ h.found
  have hlater : (before ++ [recent]).filter (Recent.multiDisc fs) =
      before.filter (Recent.multiDisc fs) ++ if recent.multiDisc fs then [recent] else [] := by
    rw [List.filter_append, List.filter_singleton]
    split <;> simp_all
  rw [RecentsScan.line_eq, hpath, halias]
  by_cases hdrop : recent.multiDisc fs ∧ basePath recent.path ∈ foldersOf folders before
  -- a further disc is dropped, and its folder was kept with the first
  · have hknown := mem_discFolders hbefore h hdrop.1 hdrop.2
    have hskips : scan.Skips fs recent.path :=
      ⟨hmulti ▸ hdrop.1, basePath recent.path, (hread.parents _).mpr hknown, by simp [prefixMatch]⟩
    rw [if_neg fun htakes : scan.Takes fs recent.path => htakes.2.2 hskips]
    refine ⟨?_, fun folder => ?_⟩
    · rw [hread.recents, keepDiscs_concat, if_pos hdrop, List.append_nil]
    · rw [hread.parents, hlater, if_pos hdrop.1]
      simp only [foldersOf, List.map_append, List.mem_append, List.map_cons, List.map_nil,
        List.mem_singleton] at hknown ⊢
      constructor
      · exact fun hmem => hmem.elim .inl fun hmem => .inr (.inl hmem)
      · rintro (hmem | hmem | rfl)
        · exact .inl hmem
        · exact .inr hmem
        · exact hknown
  -- no folder that has been kept is in front of this one
  · have hnot : ¬ scan.Skips fs recent.path := by
      rintro ⟨hm3u, folder, hfolder, hprefix⟩
      rw [hmulti] at hm3u
      have hnew : basePath recent.path ∉ foldersOf folders before := fun hmem => hdrop ⟨hm3u, hmem⟩
      rw [hclear.2 hm3u hnew folder ((hread.parents folder).mp hfolder)] at hprefix
      exact Bool.false_ne_true hprefix
    rw [if_pos (show scan.Takes fs recent.path from ⟨hfound, hroom, hnot⟩)]
    refine ⟨?_, fun folder => ?_⟩
    · rw [keepDiscs_concat, if_neg hdrop, ← List.append_assoc, List.map_append, List.map_append,
        hread.recents]
      rfl
    · rw [hlater, hmulti]
      split_ifs with hdisc
      · simp only [foldersOf, List.map_append, List.mem_append, List.map_cons, List.map_nil,
          List.mem_singleton, hread.parents, or_assoc]
      · rw [hread.parents, List.append_nil]

/-- There is room for one more game after these. -/
def Room (fs : FileSystem) (start : List Recent) (folders : List CString) (before : List Recent) :
    Prop :=
  (start ++ keepDiscs fs folders before).length < maxRecents

/-- Every game that is read before the list is full is clear of the others. -/
def AllClear (fs : FileSystem) (start : List Recent) (folders : List CString)
    (recents : List Recent) : Prop :=
  ∀ before recent after, recents = before ++ recent :: after → Room fs start folders before →
    recent.Clear fs folders before

/-- No line ends in a carriage return of its own, and those of discs that are dropped fit. -/
def Plain (fs : FileSystem) (folders : List CString) (recents : List Recent) : Prop :=
  ∀ before recent after, recents = before ++ recent :: after →
    recent.content.getLast? ≠ some '\r' ∧
      (recent.multiDisc fs → basePath recent.path ∈ foldersOf folders before →
        recent.content.length ≤ 255)

/-- The file of a list. -/
def recentsText (recents : List Recent) : CString := (recents.map Recent.line).flatten

theorem recentsText_cons :
    recentsText (recent :: after) = recent.content ++ '\n' :: recentsText after := by
  simp [recentsText, Recent.line_eq]

theorem nonEmptyLines_recentsText (h : recent.Proper fs) (hfits : recent.LineFits) :
    nonEmptyLines (recentsText (recent :: after)) =
      recent.content :: nonEmptyLines (recentsText after) := by
  rw [recentsText_cons, nonEmptyLines_append_newline,
    nonEmptyLines_line h.content_ne h.line h.nul hfits.1 hfits.2, List.singleton_append]

theorem Read.length {scan : RecentsScan} (hread : Read fs start folders before scan) :
    scan.recents.length = (start ++ keepDiscs fs folders before).length := by
  simpa using congrArg List.length hread.recents

theorem Read.length_concat {scan scan' : RecentsScan} (hread : Read fs start folders before scan)
    (hread' : Read fs start folders (before ++ [recent]) scan') :
    scan'.recents.length ≤ scan.recents.length + 1 := by
  rw [hread.length, hread'.length, keepDiscs_concat]
  split
  next => simp
  next =>
    simp only [List.length_append, List.length_singleton]
    omega

/-- Games that are clear of each other are read as they are kept, up to a full list. -/
theorem foldl_of_clear {scan : RecentsScan} (hread : Read fs start folders before scan)
    (hproper : ∀ other ∈ before ++ after, other.Proper fs)
    (hclear : AllClear fs start folders (before ++ after))
    (hlength : scan.recents.length ≤ maxRecents) :
    ((nonEmptyLines (recentsText after)).foldl (RecentsScan.line host fs) scan).recents.map
        Recent.named =
      ((start ++ keepDiscs fs folders (before ++ after)).map Recent.named).take maxRecents := by
  have hfirst := hread.length
  induction after generalizing before scan with
  | nil =>
      have hlines : nonEmptyLines (recentsText []) = [] := by decide
      rw [hlines, List.append_nil, List.foldl_nil, hread.recents, List.take_of_length_le]
      rw [List.length_map]
      omega
  | cons recent rest ih =>
      rcases hlength.lt_or_eq with hroom | hfull
      · have hthis := hproper recent (by simp)
        have hkept := hclear before recent rest rfl (by rw [Room]; omega)
        have hnext := hread.line host (fun other hother => hproper other (by simp [hother]))
          hthis hkept hroom
        have hcount := hread.length_concat hnext
        rw [nonEmptyLines_recentsText hthis hkept.1, List.foldl_cons,
          ih hnext (by simpa using hproper) (by simpa using hclear) (by omega) hnext.length]
        simp
      · rw [RecentsScan.foldl_full host (by omega), hread.recents, keepDiscs_append,
          ← List.append_assoc, ← List.map_take, List.take_append_of_le_length (by omega),
          List.take_of_length_le (by omega)]

/-- A game that is not clear of the others is missing where it should stand. -/
theorem foldl_of_not_clear {scan : RecentsScan} (hread : Read fs start folders before scan)
    (hproper : ∀ other ∈ before ++ recent :: after, other.Proper fs)
    (hplain : Plain fs folders (before ++ recent :: after))
    (hroom : scan.recents.length < maxRecents) (hnot : ¬ recent.Clear fs folders before) :
    ((nonEmptyLines (recentsText (recent :: after))).foldl
        (RecentsScan.line host fs) scan).recents.map Recent.named ≠
      ((start ++ keepDiscs fs folders (before ++ recent :: after)).map Recent.named).take
        maxRecents := by
  have h := hproper recent (by simp)
  obtain ⟨hcr, hdropped⟩ := hplain before recent after rfl
  have hkept : ¬ (recent.multiDisc fs ∧ basePath recent.path ∈ foldersOf folders before) := by
    rintro ⟨hmulti, hfolder⟩
    exact hnot ⟨⟨hdropped hmulti hfolder, fun _ => hcr⟩, fun _ hnew => absurd hfolder hnew⟩
  -- a piece of the file either is too short for the game's line or is passed over
  have hskip : ∀ line ∈ nonEmptyLines (recentsText (recent :: after)),
      line = recent.content → scan.Skips fs recent.path := by
    rintro line hline rfl
    have hlength := (fits_of_mem_nonEmptyLines hline).2.1
    unfold Recent.Clear at hnot
    rw [not_and] at hnot
    have hclash := hnot ⟨hlength, fun _ => hcr⟩
    push Not at hclash
    obtain ⟨hmulti, -, folder, hfolder, hprefix⟩ := hclash
    refine ⟨?_, folder, (hread.parents folder).mpr hfolder, by simpa using hprefix⟩
    rw [Recent.sdPath_of_fits hlength]
    exact hmulti
  obtain ⟨added, hadded, hnever⟩ := RecentsScan.foldl_never host hskip
  rw [hadded, List.map_append, hread.recents, keepDiscs_append, ← List.append_assoc,
    ← List.map_take]
  have hcount := hread.length
  generalize start ++ keepDiscs fs folders before = kept at hcount ⊢
  have hdrop : keepDiscs fs (foldersOf folders before) (recent :: after) =
      recent :: keepDiscs fs (foldersOf folders before ++ [basePath recent.path]) after := by
    rw [keepDiscs, if_neg hkept]
  obtain ⟨room, hrest⟩ : ∃ room, maxRecents - kept.length = room + 1 :=
    ⟨maxRecents - kept.length - 1, by omega⟩
  rw [foldersOf] at hdrop
  rw [hdrop, List.take_append, List.take_of_length_le (by omega), hrest, List.take_succ_cons,
    List.map_append, Ne, List.append_cancel_left_eq, List.map_cons]
  cases added with
  | nil => simp
  | cons other added =>
      rw [List.map_cons, List.cons.injEq]
      exact fun heq => hnever other List.mem_cons_self heq.1

/-- A list that comes back is clear, as far as it is read. -/
theorem clear_of_foldl {scan : RecentsScan} (hread : Read fs start folders before scan)
    (hproper : ∀ other ∈ before ++ after, other.Proper fs)
    (hplain : Plain fs folders (before ++ after))
    (hresult : ((nonEmptyLines (recentsText after)).foldl
        (RecentsScan.line host fs) scan).recents.map Recent.named =
      ((start ++ keepDiscs fs folders (before ++ after)).map Recent.named).take maxRecents)
    {between later : List Recent} (hsplit : after = between ++ recent :: later)
    (hroom : Room fs start folders (before ++ between)) :
    recent.Clear fs folders (before ++ between) := by
  have hcount := hread.length
  induction between generalizing before after scan with
  | nil =>
      subst hsplit
      rw [List.append_nil] at hroom ⊢
      by_contra hnot
      exact foldl_of_not_clear host hread hproper hplain (by rwa [hcount]) hnot hresult
  | cons first between ih =>
      subst hsplit
      have hfirst : Room fs start folders before := by
        rw [Room, keepDiscs_append, ← List.append_assoc, List.length_append] at hroom
        rw [Room]
        omega
      have hscan : scan.recents.length < maxRecents := by rwa [hcount]
      have hthis := hproper first (by simp)
      have hclear : first.Clear fs folders before := by
        by_contra hnot
        exact foldl_of_not_clear host hread hproper hplain hscan hnot hresult
      have hnext := hread.line host (fun other hother => hproper other (by simp [hother]))
        hthis hclear hscan
      rw [List.cons_append, nonEmptyLines_recentsText hthis hclear.1, List.foldl_cons] at hresult
      have htail := @ih (before ++ [first]) (between ++ recent :: later) _ hnext
        (by simpa using hproper) (by simpa using hplain) (by simpa using hresult) rfl
        (by simpa using hroom) hnext.length
      simpa using htail

/-- The games that are kept are those that have no earlier one in their folder. -/
theorem mem_take_keepDiscs {n : Nat} :
    recent ∈ (keepDiscs fs folders recents).take n ↔
      ∃ before after, recents = before ++ recent :: after ∧
        (keepDiscs fs folders before).length < n ∧
        ¬ (recent.multiDisc fs ∧ basePath recent.path ∈ foldersOf folders before) := by
  constructor
  · intro hmem
    induction recents using List.reverseRecOn with
    | nil => simp [keepDiscs] at hmem
    | append_singleton recents last ih =>
        rw [keepDiscs_concat, List.take_append, List.mem_append] at hmem
        rcases hmem with hmem | hmem
        · obtain ⟨before, after, rfl, hroom, hkept⟩ := ih hmem
          exact ⟨before, after ++ [last], by simp, hroom, hkept⟩
        · have hlast := List.mem_of_mem_take hmem
          split at hlast
          next => simp at hlast
          next hkept =>
            rw [List.mem_singleton] at hlast
            subst hlast
            refine ⟨recents, [], rfl, ?_, hkept⟩
            by_contra hfull
            rw [Nat.sub_eq_zero_of_le (by omega)] at hmem
            simp at hmem
  · rintro ⟨before, after, rfl, hroom, hkept⟩
    obtain ⟨room, hrest⟩ : ∃ room, n - (keepDiscs fs folders before).length = room + 1 :=
      ⟨n - (keepDiscs fs folders before).length - 1, by omega⟩
    rw [foldersOf] at hkept
    rw [keepDiscs_append, List.take_append, hrest, keepDiscs, if_neg hkept, List.take_succ_cons]
    simp

end Restore

/-- What the launcher has when it starts again after saving a list. -/
def reload (host : Host) (fs : FileSystem) (tmp : Tmp) (recents : List Recent) : List Recent :=
  (hasRecents host { saveRecents ⟨fs, tmp, recents⟩ with recents := [] }).2.recents

/-- The discs of an `.m3u` that exist. -/
def discsOf (fs : FileSystem) (m3u : CString) : List CString :=
  (((fs.file m3u).elim [] nonEmptyLines).map (discPath m3u)).filter fs.exists

section Reload

variable (host : Host) (fs : FileSystem) (tmp : Tmp) (recents : List Recent)

/-- The card with the saved list. -/
def card : FileSystem := fs.putFile recentPath (recentsText recents)

/-- The disc that the game before was changed to. -/
def lastDisc : Option CString := changedDisc ⟨card fs recents, tmp, []⟩

def discFirst : List Recent :=
  (lastDisc fs tmp recents).toList.map fun disc => Recent.new host (card fs recents) disc none

def discFolders : List CString := (lastDisc fs tmp recents).toList.map basePath

/-- The list comes back in its order, after the last disc, without what shares a multi-disc
folder with an earlier game, and with nothing else of the last disc's game. -/
def RecentsRestored : Prop :=
  (reload host fs tmp recents).map Recent.named =
      ((discFirst host fs tmp recents ++
        keepDiscs (card fs recents) (discFolders fs tmp recents) recents).map Recent.named).take
          maxRecents ∧
    ∀ disc m3u, lastDisc fs tmp recents = some disc →
      sdcardPath ++ disc ∈ discsOf (card fs recents) m3u →
      ∀ other ∈ (reload host fs tmp recents).tail,
        sdcardPath ++ other.path ∉ m3u :: discsOf (card fs recents) m3u

/-- A game that is read and belongs to the last disc's `.m3u` is in a multi-disc folder that
was seen before. -/
def OneFolder : Prop :=
  ∀ disc m3u, lastDisc fs tmp recents = some disc →
    sdcardPath ++ disc ∈ discsOf (card fs recents) m3u →
    ∀ before recent after, recents = before ++ recent :: after →
      Room (card fs recents) (discFirst host fs tmp recents) (discFolders fs tmp recents) before →
      sdcardPath ++ recent.path ∈ m3u :: discsOf (card fs recents) m3u →
      recent.multiDisc (card fs recents) ∧
        basePath recent.path ∈ foldersOf (discFolders fs tmp recents) before

theorem reload_eq :
    ∃ scan, Read (card fs recents) (discFirst host fs tmp recents) (discFolders fs tmp recents) []
        scan ∧
      reload host fs tmp recents = ((nonEmptyLines (recentsText recents)).foldl
        (RecentsScan.line host (card fs recents)) scan).recents := by
  have hfile : (card fs recents).file recentPath = some (recentsText recents) :=
    FileSystem.putFile_self
  have hstore : ({ saveRecents ⟨fs, tmp, recents⟩ with recents := [] } : Store) =
      ⟨card fs recents, tmp, []⟩ := rfl
  unfold reload hasRecents
  rw [hstore]
  cases hdisc : lastDisc fs tmp recents with
  | none =>
      rw [show changedDisc ⟨card fs recents, tmp, []⟩ = none from hdisc]
      refine ⟨⟨[], [], false⟩, ⟨?_, ?_⟩, ?_⟩
      · simp [discFirst, hdisc, keepDiscs]
      · simp [discFolders, hdisc, foldersOf]
      · simp only [hfile, saveRecents, Option.elim_some]
  | some disc =>
      rw [show changedDisc ⟨card fs recents, tmp, []⟩ = some disc from hdisc]
      refine ⟨⟨[Recent.new host (card fs recents) disc none], [basePath disc],
        (Recent.new host (card fs recents) disc none).available⟩, ⟨?_, ?_⟩, ?_⟩
      · simp [discFirst, hdisc, keepDiscs]
      · simp [discFolders, hdisc, foldersOf]
      · simp only [hfile, saveRecents, Option.elim_some, List.nil_append]

variable {fs tmp recents}

/-- What the rebuilt list has behind the last disc. -/
theorem mem_tail_iff {disc : CString} (hdisc : lastDisc fs tmp recents = some disc)
    (hresult : (reload host fs tmp recents).map Recent.named =
      ((discFirst host fs tmp recents ++
        keepDiscs (card fs recents) (discFolders fs tmp recents) recents).map Recent.named).take
          maxRecents) (path : CString) :
    (∃ other ∈ (reload host fs tmp recents).tail, other.path = path) ↔
      ∃ before recent after, recents = before ++ recent :: after ∧
        Room (card fs recents) (discFirst host fs tmp recents) (discFolders fs tmp recents) before ∧
        ¬ (recent.multiDisc (card fs recents) ∧
          basePath recent.path ∈ foldersOf (discFolders fs tmp recents) before) ∧
        recent.path = path := by
  have hfirst : discFirst host fs tmp recents = [Recent.new host (card fs recents) disc none] := by
    simp [discFirst, hdisc]
  have htail := congrArg List.tail (congrArg (List.map Prod.fst) hresult)
  simp only [hfirst, List.singleton_append, List.map_cons, maxRecents, List.take_succ_cons,
    List.tail_cons, List.map_take, List.map_map, ← List.map_tail] at htail
  have hpaths : (∃ other ∈ (reload host fs tmp recents).tail, other.path = path) ↔
      path ∈ (reload host fs tmp recents).tail.map (Prod.fst ∘ Recent.named) := by
    rw [List.mem_map]
    rfl
  rw [hpaths, htail, ← List.map_take, List.mem_map]
  simp only [mem_take_keepDiscs, Room, hfirst, List.length_append, List.length_singleton,
    maxRecents]
  constructor
  · rintro ⟨recent, ⟨before, after, hsplit, hroom, hkept⟩, hpath⟩
    exact ⟨before, recent, after, hsplit, by omega, hkept, hpath⟩
  · rintro ⟨before, recent, after, hsplit, hroom, hkept, hpath⟩
    exact ⟨recent, ⟨before, after, hsplit, by omega, hkept⟩, hpath⟩

/-- A saved list comes back when its lines fit and its discs are told apart by their folders.
Apart from lines that may cancel each other out it comes back only then. -/
theorem recents_restored (hproper : ∀ recent ∈ recents, recent.Proper (card fs recents)) :
    let clear := AllClear (card fs recents) (discFirst host fs tmp recents)
      (discFolders fs tmp recents) recents
    (clear ∧ OneFolder host fs tmp recents → RecentsRestored host fs tmp recents) ∧
      (Plain (card fs recents) (discFolders fs tmp recents) recents →
        RecentsRestored host fs tmp recents → clear ∧ OneFolder host fs tmp recents) := by
  obtain ⟨scan, hread, hreload⟩ := reload_eq host fs tmp recents
  have hlength : scan.recents.length ≤ maxRecents := by
    rw [hread.length]
    cases hdisc : lastDisc fs tmp recents <;> simp [discFirst, hdisc, keepDiscs, maxRecents]
  refine ⟨?_, ?_⟩
  · rintro ⟨hclear, hone⟩
    have hresult := foldl_of_clear host hread hproper hclear hlength
    rw [← hreload, List.nil_append] at hresult
    refine ⟨hresult, fun disc m3u hdisc hlisted other hother hgame => ?_⟩
    obtain ⟨before, recent, after, hsplit, hroom, hkept, hpath⟩ :=
      (mem_tail_iff host hdisc hresult other.path).mp ⟨other, hother, rfl⟩
    exact hkept (hone disc m3u hdisc hlisted before recent after hsplit hroom (hpath ▸ hgame))
  · rintro hplain ⟨hresult, hothers⟩
    refine ⟨fun before recent after hsplit hroom => ?_, ?_⟩
    · rw [hreload] at hresult
      exact clear_of_foldl host hread hproper hplain hresult hsplit hroom
    · intro disc m3u hdisc hlisted before recent after hsplit hroom hgame
      by_contra hkept
      obtain ⟨other, hother, hpath⟩ := (mem_tail_iff host hdisc hresult recent.path).mpr
        ⟨before, recent, after, hsplit, hroom, hkept, rfl⟩
      exact hothers disc m3u hdisc hlisted other hother (hpath ▸ hgame)

/-- A card with two games on discs, one in a folder below the other's. -/
def nestedDiscs : FileSystem :=
  .ofLists
    [("/mnt/sdcard/Roms/PS/A/A.m3u".toList, []), ("/mnt/sdcard/Roms/PS/A/a.cue".toList, []),
      ("/mnt/sdcard/Roms/PS/A/B/B.m3u".toList, []), ("/mnt/sdcard/Roms/PS/A/B/b.cue".toList, [])] []

def nestedRecents : List Recent :=
  [⟨"/Roms/PS/A/a.cue".toList, none, false⟩, ⟨"/Roms/PS/A/B/b.cue".toList, none, false⟩]

/-- A card with two games on discs and one on its own. -/
def discFiles : List (CString × CString) :=
  [("/mnt/sdcard/Roms/PS/A/A.m3u".toList, "a1.cue\na2.cue\n".toList),
    ("/mnt/sdcard/Roms/PS/A/a1.cue".toList, []), ("/mnt/sdcard/Roms/PS/A/a2.cue".toList, []),
    ("/mnt/sdcard/Roms/PS/B/B.m3u".toList, "b1.cue\nb2.cue\n".toList),
    ("/mnt/sdcard/Roms/PS/B/b1.cue".toList, []), ("/mnt/sdcard/Roms/PS/B/b2.cue".toList, []),
    ("/mnt/sdcard/Roms/GB/tetris.gb".toList, [])]

def discCard : FileSystem := .ofLists discFiles []

def discRecents : List Recent :=
  [⟨"/Roms/GB/tetris.gb".toList, some "Tetris".toList, false⟩,
    ⟨"/Roms/PS/B/b1.cue".toList, none, false⟩, ⟨"/Roms/PS/A/a1.cue".toList, none, false⟩,
    ⟨"/Roms/PS/B/b2.cue".toList, some "B, disc 2".toList, false⟩]

/-- The game of the first folder was changed to its second disc. -/
def discNote : Tmp := { Tmp.empty with changeDisc := some "/mnt/sdcard/Roms/PS/A/a2.cue".toList }

/-- A condition on all places of a list is one on its positions. -/
theorem forall_places {P : List Recent → Recent → Prop}
    (h : ∀ i : Fin recents.length, P (recents.take i) (recents.get i)) (before : List Recent)
    (recent : Recent) (after : List Recent) (hsplit : recents = before ++ recent :: after) :
    P before recent := by
  subst hsplit
  simpa using h ⟨before.length, by simp⟩

/-- Only the files of the card have discs. -/
theorem mem_discFiles {m3u disc : CString} (h : disc ∈ discsOf (card discCard discRecents) m3u) :
    m3u ∈ recentPath :: discFiles.map Prod.fst := by
  by_cases hrecent : m3u = recentPath
  · rw [hrecent]
    exact List.mem_cons_self
  · rw [discsOf, card, FileSystem.putFile_of_ne hrecent] at h
    cases hfile : discFiles.lookup m3u with
    | none =>
        have hnone : discCard.file m3u = none := hfile
        rw [hnone] at h
        exact absurd h List.not_mem_nil
    | some content =>
        obtain ⟨before, after, hsplit, -⟩ := List.lookup_eq_some_iff.mp hfile
        rw [hsplit]
        simp

theorem recents_restored_discs : RecentsRestored ⟨rg35xx, .stable⟩ discCard discNote discRecents ∧
    (reload ⟨rg35xx, .stable⟩ discCard discNote discRecents).map Recent.named =
      [("/Roms/PS/A/a2.cue".toList, none), ("/Roms/GB/tetris.gb".toList, some "Tetris".toList),
        ("/Roms/PS/B/b1.cue".toList, none)] := by
  have hproper : ∀ recent ∈ discRecents, recent.Proper (card discCard discRecents) := by
    have hall : ∀ recent ∈ discRecents, recent.path.head? = some '/' ∧
        (card discCard discRecents).exists (sdcardPath ++ recent.path) ∧ '\t' ∉ recent.path ∧
        '\n' ∉ recent.content ∧ '\x00' ∉ recent.content := by
      decide +kernel
    intro recent hrecent
    obtain ⟨hrooted, hfound, htab, hline, hnul⟩ := hall recent hrecent
    exact ⟨hrooted, hfound, htab, hline, hnul⟩
  have hlast : lastDisc discCard discNote discRecents = some "/Roms/PS/A/a2.cue".toList := by
    decide +kernel
  have hclear : AllClear (card discCard discRecents)
      (discFirst ⟨rg35xx, .stable⟩ discCard discNote discRecents)
      (discFolders discCard discNote discRecents) discRecents := by
    have hall : ∀ i : Fin discRecents.length,
        (discRecents.get i).content.length ≤ 255 ∧
        ((discRecents.get i).content.length < 255 →
          (discRecents.get i).content.getLast? ≠ some '\r') ∧
        ((discRecents.get i).multiDisc (card discCard discRecents) →
          basePath (discRecents.get i).path ∉
            foldersOf (discFolders discCard discNote discRecents) (discRecents.take i) →
          ∀ folder ∈ foldersOf (discFolders discCard discNote discRecents)
              ((discRecents.take i).filter (Recent.multiDisc (card discCard discRecents))),
            prefixMatch folder (basePath (discRecents.get i).path) = false) := by
      decide +kernel
    refine forall_places fun i _ => ?_
    obtain ⟨hlength, hreturn, hfolders⟩ := hall i
    exact ⟨⟨hlength, hreturn⟩, hfolders⟩
  have hone : OneFolder ⟨rg35xx, .stable⟩ discCard discNote discRecents := by
    intro disc m3u hdisc hlisted
    rw [hlast, Option.some.injEq] at hdisc
    subst hdisc
    have hall : ∀ m3u ∈ recentPath :: discFiles.map Prod.fst,
        "/mnt/sdcard/Roms/PS/A/a2.cue".toList ∈ discsOf (card discCard discRecents) m3u →
        ∀ i : Fin discRecents.length,
          sdcardPath ++ (discRecents.get i).path ∈
            m3u :: discsOf (card discCard discRecents) m3u →
          (discRecents.get i).multiDisc (card discCard discRecents) ∧
            basePath (discRecents.get i).path ∈
              foldersOf (discFolders discCard discNote discRecents) (discRecents.take i) := by
      decide +kernel
    exact forall_places fun i _ => hall m3u (mem_discFiles hlisted) hlisted i
  exact ⟨(recents_restored ⟨rg35xx, .stable⟩ hproper).1 ⟨hclear, hone⟩, by decide +kernel⟩

/-- The game in the inner folder is lost behind the one in the outer. -/
theorem recents_lost :
    (∀ recent ∈ nestedRecents, recent.Proper (card nestedDiscs nestedRecents)) ∧
      ¬ RecentsRestored ⟨rg35xx, .stable⟩ nestedDiscs .empty nestedRecents := by
  refine ⟨?_, fun h => absurd h.1 (by decide +kernel)⟩
  rintro recent hrecent
  simp only [nestedRecents, List.mem_cons, List.not_mem_nil, or_false] at hrecent
  rcases hrecent with rfl | rfl
  · exact ⟨by decide, by decide +kernel, by decide, by decide, by decide⟩
  · exact ⟨by decide, by decide +kernel, by decide, by decide, by decide⟩

end Reload

end DarkUI.Minui
