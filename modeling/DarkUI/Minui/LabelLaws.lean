import DarkUI.Minui.Directory

/-! # Entries of one name

Each pair of neighbours of one name is given labels, and an entry between two such
neighbours keeps those of the later pair. So an entry is shown by the name of its file or by
its emulator, as its last neighbour decides, and without such a neighbour by its name.
-/

namespace DarkUI.Minui

open Text

variable {host : Host} {entries : List Entry} {entry prior : Entry} {p q : Nat}

namespace Entry

/-- What the list shows. -/
def label (entry : Entry) : CString := entry.unique.getD entry.name

def fileName (entry : Entry) : CString := baseName entry.path

/-- The label that an entry gets from a neighbour with the given file name. -/
def labelFrom (entry : Entry) (file : CString) : CString :=
  if exactMatch file entry.fileName then getUniqueName entry else entry.fileName

end Entry

/-- The names and the file names. -/
def keys (entries : List Entry) : List (CString × CString) :=
  entries.map fun entry => (entry.name, entry.fileName)

@[simp] theorem keys_cons (entry : Entry) (entries : List Entry) :
    keys (entry :: entries) = (entry.name, entry.fileName) :: keys entries := rfl

/-- The key at `q` if it has the same name as the one at `p`. -/
def namesake (keys : List (CString × CString)) (p q : Nat) : Option (CString × CString) :=
  keys[q]?.filter fun other => keys[p]?.map (·.1) = some other.1

/-- The file name of the neighbour that labels an entry: the namesake behind it, else the one
before it. -/
def labeller (keys : List (CString × CString)) (p : Nat) : Option CString :=
  ((namesake keys p (p + 1)).or (if p = 0 then none else namesake keys p (p - 1))).map (·.2)

theorem uniqueNames_eq (prior entry : Entry) :
    uniqueNames prior entry = (prior.labelFrom entry.fileName, entry.labelFrom prior.fileName) := by
  unfold uniqueNames Entry.labelFrom Entry.fileName exactMatch
  by_cases hsame : baseName prior.path = baseName entry.path
  · simp [hsame]
  · simp [hsame, Ne.symm hsame]

section Labeller

variable (key next : CString × CString) (rest : List (CString × CString))

theorem namesake_cons (p q : Nat) :
    namesake (key :: rest) (p + 1) (q + 1) = namesake rest p q := rfl

theorem labeller_cons (p : Nat) : labeller (key :: rest) (p + 2) = labeller rest (p + 1) := by
  simp [labeller, namesake_cons]

/-- The first of two neighbours of one name is labelled by the second. -/
theorem labeller_head :
    labeller (key :: next :: rest) 0 = if key.1 = next.1 then some next.2 else none := by
  by_cases hsame : key.1 = next.1 <;> simp [labeller, namesake, Option.filter, hsame]

/-- The second is labelled by the first unless another follows. -/
theorem labeller_second :
    labeller (key :: next :: rest) 1 = (labeller (next :: rest) 0).or
      (if key.1 = next.1 then some key.2 else none) := by
  have hback : namesake (key :: next :: rest) 1 0 = if key.1 = next.1 then some key else none := by
    by_cases hsame : key.1 = next.1
    · simp [namesake, Option.filter, hsame]
    · simp [namesake, Option.filter, hsame, Ne.symm hsame]
  rw [labeller, namesake_cons, Nat.sub_self, hback]
  simp only [labeller, if_true, Option.or_none, Nat.one_ne_zero, if_false, Nat.zero_add]
  cases namesake (next :: rest) 0 1 with
  | none => split <;> simp
  | some other => simp

end Labeller

/-- The entry as the pair with the one before leaves it. -/
def pairedWith (prior entry : Entry) : Entry :=
  if prior.name = entry.name then
    { entry with unique := some (entry.labelFrom prior.fileName) }
  else entry

theorem keys_pairedWith (prior entry : Entry) (entries : List Entry) :
    keys (pairedWith prior entry :: entries) = keys (entry :: entries) := by
  unfold pairedWith
  split <;> rfl

theorem markUniqueFrom_cons (prior entry : Entry) (rest : List Entry) :
    markUniqueFrom prior (entry :: rest) =
      (if prior.name = entry.name then
        { prior with unique := some (prior.labelFrom entry.fileName) } else prior) ::
        markUniqueFrom (pairedWith prior entry) rest := by
  rw [markUniqueFrom, uniqueNames_eq, pairedWith]
  by_cases hsame : prior.name = entry.name <;> simp [exactMatch, hsame]

/-- The last pair an entry is in gives it its label. -/
theorem markUniqueFrom_spec (prior : Entry) (entries : List Entry) (p : Nat) (entry : Entry)
    (hentry : (prior :: entries)[p]? = some entry) :
    ∃ marked, (markUniqueFrom prior entries)[p]? = some marked ∧ marked.unique =
      ((labeller (keys (prior :: entries)) p).map entry.labelFrom).or entry.unique := by
  induction entries generalizing prior p entry with
  | nil =>
      cases p with
      | zero =>
          cases hentry
          exact ⟨prior, rfl, by simp [labeller, namesake, keys]⟩
      | succ p => simp at hentry
  | cons next rest ih =>
      rw [markUniqueFrom_cons, keys_cons, keys_cons]
      cases p with
      | zero =>
          cases hentry
          refine ⟨_, rfl, ?_⟩
          rw [labeller_head]
          split <;> rfl
      | succ p =>
          cases p with
          | zero =>
              -- The entry is in two pairs, and the later one overwrites what the first one gave.
              cases hentry
              obtain ⟨marked, hmarked, hunique⟩ := ih (pairedWith prior next) 0 _ rfl
              refine ⟨marked, hmarked, ?_⟩
              rw [hunique, keys_pairedWith, keys_cons, labeller_second, pairedWith]
              cases labeller ((next.name, next.fileName) :: keys rest) 0 with
              | none => by_cases hsame : prior.name = next.name <;> simp [hsame]
              | some file =>
                  by_cases hsame : prior.name = next.name <;>
                    simp [hsame, Entry.labelFrom, Entry.fileName, getUniqueName]
          | succ p =>
              obtain ⟨marked, hmarked, hunique⟩ := ih (pairedWith prior next) (p + 1) entry hentry
              refine ⟨marked, hmarked, ?_⟩
              rw [hunique, keys_pairedWith, keys_cons, labeller_cons]

theorem markUnique_spec {p : Nat} {entry : Entry} (hentry : entries[p]? = some entry)
    (hfresh : entry.unique = none) :
    ∃ marked, (markUnique entries)[p]? = some marked ∧
      marked.unique = (labeller (keys entries) p).map entry.labelFrom := by
  cases entries with
  | nil => simp at hentry
  | cons prior rest =>
      obtain ⟨marked, hmarked, hunique⟩ := markUniqueFrom_spec prior rest p entry hentry
      refine ⟨marked, hmarked, ?_⟩
      rw [hunique, hfresh, Option.or_none]

/-- How an entry is shown: by its name, by the name of its file, or with its emulator. -/
inductive LabelBy
  | byName
  | byFile
  | byEmu
  deriving DecidableEq

/-- How the entry at a place is shown: by its name where it has no neighbour of its name, with
its emulator where the neighbour that labels it has a file of the same name, else by its file. -/
def shown (entries : List Entry) (p : Nat) : LabelBy :=
  match entries[p]?, labeller (keys entries) p with
  | some entry, some file => if file = entry.fileName then .byEmu else .byFile
  | _, _ => .byName

/-- The entries at two places have one name, but different paths. -/
structure Namesakes (entries : List Entry) (p q : Nat) (a b : Entry) : Prop where
  left : entries[p]? = some a
  right : entries[q]? = some b
  path_ne : a.path ≠ b.path
  name_eq : a.name = b.name

/-- Entries of one name have different labels. -/
def ToldApart (entries : List Entry) : Prop :=
  ∀ p q a b, Namesakes entries p q a b → a.label ≠ b.label

/-- What entries of one name must differ in, by how they are shown: of those without a neighbour
of their name there is at most one, those shown by their files have different file names, and
those shown by their emulators different emulators; and what is shown of one kind is nothing
that is shown of another. -/
structure Distinguished (entries : List Entry) : Prop where
  names : ∀ p q a b, Namesakes entries p q a b → shown entries p = .byName →
    shown entries q ≠ .byName
  files : ∀ p q a b, Namesakes entries p q a b → shown entries p = .byFile →
    shown entries q = .byFile → a.fileName ≠ b.fileName
  emus : ∀ p q a b, Namesakes entries p q a b → shown entries p = .byEmu →
    shown entries q = .byEmu → getUniqueName a ≠ getUniqueName b
  name_file : ∀ p q a b, Namesakes entries p q a b → shown entries p = .byName →
    shown entries q = .byFile → a.name ≠ b.fileName
  name_emu : ∀ p q a b, Namesakes entries p q a b → shown entries p = .byName →
    shown entries q = .byEmu → a.name ≠ getUniqueName b
  file_emu : ∀ p q a b, Namesakes entries p q a b → shown entries p = .byFile →
    shown entries q = .byEmu → a.fileName ≠ getUniqueName b

theorem Namesakes.symm {a b : Entry} (h : Namesakes entries p q a b) :
    Namesakes entries q p b a :=
  ⟨h.right, h.left, h.path_ne.symm, h.name_eq.symm⟩

/-- The text an entry is shown with. -/
def textOf (entry : Entry) : LabelBy → CString
  | .byName => entry.name
  | .byFile => entry.fileName
  | .byEmu => getUniqueName entry

theorem textOf_shown (hentry : entries[p]? = some entry) :
    textOf entry (shown entries p) =
      ((labeller (keys entries) p).map entry.labelFrom).getD entry.name := by
  unfold shown
  rw [hentry]
  cases labeller (keys entries) p with
  | none => rfl
  | some file =>
      by_cases hsame : file = entry.fileName <;>
        simp [hsame, textOf, Entry.labelFrom, exactMatch]

/-- The texts shown of entries of one name differ just when the entries are distinguished. -/
theorem distinguished_iff (entries : List Entry) :
    Distinguished entries ↔ ∀ p q a b, Namesakes entries p q a b →
      textOf a (shown entries p) ≠ textOf b (shown entries q) := by
  constructor
  · intro h p q a b hab
    cases hp : shown entries p with
    | byName =>
        cases hq : shown entries q with
        | byName => exact absurd hq (h.names p q a b hab hp)
        | byFile => exact h.name_file p q a b hab hp hq
        | byEmu => exact h.name_emu p q a b hab hp hq
    | byFile =>
        cases hq : shown entries q with
        | byName => exact (h.name_file q p b a hab.symm hq hp).symm
        | byFile => exact h.files p q a b hab hp hq
        | byEmu => exact h.file_emu p q a b hab hp hq
    | byEmu =>
        cases hq : shown entries q with
        | byName => exact (h.name_emu q p b a hab.symm hq hp).symm
        | byFile => exact (h.file_emu q p b a hab.symm hq hp).symm
        | byEmu => exact h.emus p q a b hab hp hq
  · intro h
    constructor
    · intro p q a b hab hp hq
      apply h p q a b hab
      rw [hp, hq]
      exact hab.name_eq
    all_goals
      intro p q a b hab hp hq
      have htexts := h p q a b hab
      rwa [hp, hq] at htexts

/-- What the list shows of an entry, with its path and its name. -/
def shownAs (entry : Entry) : CString × CString × CString := (entry.path, entry.name, entry.label)

theorem shownAs_indexEntries (fs : FileSystem) (path : CString) (entries : List Entry) :
    (indexEntries host fs path entries).1.map shownAs =
      (markUnique (mappedEntries host fs path entries)).map shownAs := by
  unfold indexEntries
  dsimp only
  split
  next => rfl
  next => exact map_indexAlphas (fun _ _ => rfl) _ _ _ _ _

theorem fresh_mappedEntries (host : Host) (fs : FileSystem) (path : CString)
    (hfresh : ∀ entry ∈ entries, entry.unique = none) :
    ∀ entry ∈ mappedEntries host fs path entries, entry.unique = none := by
  unfold mappedEntries
  cases fs.file (mapPath path) with
  | none => exact hfresh
  | some content => exact forall_applyMap (fun _ _ hunique => hunique) hfresh _

/-- Each entry ends up with the text that its last neighbour decides. -/
theorem getElem?_indexEntries (host : Host) (fs : FileSystem) (path : CString)
    (hfresh : ∀ entry ∈ entries, entry.unique = none) (p : Nat) :
    ((indexEntries host fs path entries).1[p]?).map shownAs =
      ((mappedEntries host fs path entries)[p]?).map fun entry =>
        (entry.path, entry.name, textOf entry (shown (mappedEntries host fs path entries) p)) := by
  rw [← List.getElem?_map, shownAs_indexEntries, List.getElem?_map]
  have hmapped := fresh_mappedEntries host fs path hfresh
  generalize mappedEntries host fs path entries = mapped at hmapped
  cases hentry : mapped[p]? with
  | none =>
      have hlength : (markUnique mapped)[p]? = none := by
        rw [List.getElem?_eq_none_iff, length_markUnique, ← List.getElem?_eq_none_iff]
        exact hentry
      rw [hlength]
      rfl
  | some entry =>
      obtain ⟨marked, hmarked, hunique⟩ :=
        markUnique_spec hentry (hmapped entry (List.mem_of_getElem? hentry))
      have hkept : (markUnique mapped).map (fun e => (e.path, e.name)) =
          mapped.map fun e => (e.path, e.name) := map_markUnique (fun _ _ => rfl) mapped
      have hkept' := congrArg (·[p]?) hkept
      simp only [List.getElem?_map, hmarked, hentry, Option.map_some, Option.some.injEq,
        Prod.mk.injEq] at hkept'
      rw [hmarked, Option.map_some, Option.map_some, textOf_shown hentry]
      simp [shownAs, Entry.label, hunique, hkept'.1, hkept'.2]

/-- Entries of one name are told apart just when what decides their labels distinguishes them. -/
theorem indexEntries_toldApart_iff (host : Host) (fs : FileSystem) (path : CString)
    (entries : List Entry) (hfresh : ∀ entry ∈ entries, entry.unique = none) :
    ToldApart (indexEntries host fs path entries).1 ↔
      Distinguished (mappedEntries host fs path entries) := by
  rw [distinguished_iff]
  have hspec := getElem?_indexEntries host fs path hfresh
  generalize mappedEntries host fs path entries = mapped at hspec
  generalize (indexEntries host fs path entries).1 = indexed at hspec
  have hto (p : Nat) (a : Entry) (ha : mapped[p]? = some a) :
      ∃ a', indexed[p]? = some a' ∧ shownAs a' = (a.path, a.name, textOf a (shown mapped p)) := by
    have hp := hspec p
    rw [ha, Option.map_some] at hp
    exact Option.map_eq_some_iff.mp hp
  have hfrom (p : Nat) (a' : Entry) (ha' : indexed[p]? = some a') :
      ∃ a, mapped[p]? = some a ∧ shownAs a' = (a.path, a.name, textOf a (shown mapped p)) := by
    have hp := hspec p
    rw [ha', Option.map_some] at hp
    obtain ⟨a, ha, heq⟩ := Option.map_eq_some_iff.mp hp.symm
    exact ⟨a, ha, heq.symm⟩
  constructor
  · intro h p q a b hab
    obtain ⟨a', ha', heqa⟩ := hto p a hab.left
    obtain ⟨b', hb', heqb⟩ := hto q b hab.right
    simp only [shownAs, Prod.mk.injEq] at heqa heqb
    obtain ⟨hpatha, hnamea, hlabela⟩ := heqa
    obtain ⟨hpathb, hnameb, hlabelb⟩ := heqb
    rw [← hlabela, ← hlabelb]
    refine h p q a' b' ⟨ha', hb', ?_, ?_⟩
    · rw [hpatha, hpathb]
      exact hab.path_ne
    · rw [hnamea, hnameb]
      exact hab.name_eq
  · intro h p q a' b' hab
    obtain ⟨a, ha, heqa⟩ := hfrom p a' hab.left
    obtain ⟨b, hb, heqb⟩ := hfrom q b' hab.right
    simp only [shownAs, Prod.mk.injEq] at heqa heqb
    obtain ⟨hpatha, hnamea, hlabela⟩ := heqa
    obtain ⟨hpathb, hnameb, hlabelb⟩ := heqb
    rw [hlabela, hlabelb]
    refine h p q a b ⟨ha, hb, ?_, ?_⟩
    · rw [← hpatha, ← hpathb]
      exact hab.path_ne
    · rw [← hnamea, ← hnameb]
      exact hab.name_eq

/-- A Tetris in a folder of ROMs. -/
def tetris (folder file : String) : Entry :=
  ⟨romsPath ++ '/' :: folder.toList ++ '/' :: file.toList, "Tetris".toList, none, .rom, 0⟩

def gameBoys : CString := romsPath ++ "/Game Boy (GB)".toList

/-- One file name under two emulators. -/
def sameFile : List Entry :=
  [tetris "Game Boy (GB)" "Tetris.gb", tetris "Game Boy (MGB)" "Tetris.gb"]

theorem sameFile_toldApart_iff :
    ToldApart (indexEntries ⟨rg35xx, .stable⟩ (.ofLists [] []) gameBoys sameFile).1 ↔
      Distinguished (mappedEntries ⟨rg35xx, .stable⟩ (.ofLists [] []) gameBoys sameFile) :=
  indexEntries_toldApart_iff ⟨rg35xx, .stable⟩ (.ofLists [] []) gameBoys sameFile (by
    intro entry hentry
    simp only [sameFile, List.mem_cons, List.not_mem_nil, or_false] at hentry
    rcases hentry with rfl | rfl <;> rfl)

/-- Between two files of one name stands another, so each of the three is shown by its file. -/
def threeFiles : List Entry :=
  [tetris "Game Boy (GB)" "Tetris.gb", tetris "Game Boy (GB)" "Tetris.zip",
    tetris "Game Boy (MGB)" "Tetris.gb"]

theorem threeFiles_not_toldApart :
    threeFiles.Pairwise (fun a b => caseLe a.name b.name) ∧
      ¬ToldApart (indexEntries ⟨rg35xx, .stable⟩ (.ofLists [] []) gameBoys threeFiles).1 := by
  have hfirst : (indexEntries ⟨rg35xx, .stable⟩ (.ofLists [] []) gameBoys threeFiles).1[0]? =
      some { tetris "Game Boy (GB)" "Tetris.gb" with unique := some "Tetris.gb".toList } := by
    decide +kernel
  have hlast : (indexEntries ⟨rg35xx, .stable⟩ (.ofLists [] []) gameBoys threeFiles).1[2]? =
      some { tetris "Game Boy (MGB)" "Tetris.gb" with unique := some "Tetris.gb".toList } := by
    decide +kernel
  refine ⟨by decide +kernel, fun h => ?_⟩
  exact h 0 2 _ _ ⟨hfirst, hlast, by decide +kernel, rfl⟩ rfl

end DarkUI.Minui
