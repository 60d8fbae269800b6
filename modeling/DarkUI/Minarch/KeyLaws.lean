import DarkUI.Minarch.ConfigLaws
import DarkUI.Foundation.Occurrences

/-! # Which line of a configuration a key finds

The search for a key knows neither lines nor keys. It takes a value from the line of the key
unless the key, met on the way from left to right, stands before an equals sign elsewhere,
and it locks an option for every hyphen before the key on the way.
-/

namespace DarkUI.Minarch

open Text KeyedLines

/-- A key keeps to its line and has no equals sign between spaces. -/
structure ConfigKey where
  text : CString
  text_line : '\n' ∉ text
  text_equals : ¬ equals <:+: text

/-- A line `key = value` or `-key = value`. -/
structure ConfigLine where
  locked : Bool
  key : ConfigKey
  value : CString
  plain : locked = false → key.text.head? ≠ some '-'
  value_line : '\n' ∉ value
  value_fit : value.length < 256

namespace ConfigLine

def text (line : ConfigLine) : CString :=
  (if line.locked then ['-'] else []) ++ (line.key.text ++ (equals ++ line.value))

/-- The line is not the one of the key. -/
def Other (key : ConfigKey) (line : ConfigLine) : Bool := line.key.text ≠ key.text

end ConfigLine

/-- A configuration of the lines, the last of them with its ending or without. -/
def configText (ended : Bool) (lines : List ConfigLine) : CString :=
  joinLines ['\n'] ended (lines.map ConfigLine.text)

/-- What stands behind the lines up to a line and its ending. -/
def configTail (ended : Bool) (later : List ConfigLine) : CString :=
  (if later.isEmpty && !ended then [] else ['\n']) ++ configText ended later

/-- The lines before the first one of the key. -/
def linesBefore (key : ConfigKey) (lines : List ConfigLine) : List ConfigLine :=
  lines.takeWhile (·.Other key)

/-- The lines from the first one of the key on. -/
def linesFrom (key : ConfigKey) (lines : List ConfigLine) : List ConfigLine :=
  lines.dropWhile (·.Other key)

/-- The value and the lock that the lines give a key. -/
def ownFound (key : ConfigKey) (lines : List ConfigLine) : Found Char :=
  match linesFrom key lines with
  | [] => ⟨none, false⟩
  | line :: _ => ⟨some line.value, line.locked⟩

/-- The text behind the equals sign of the first line of the key. -/
def ownText (ended : Bool) (key : ConfigKey) (lines : List ConfigLine) : Option CString :=
  match linesFrom key lines with
  | [] => none
  | line :: later => some (line.value ++ configTail ended later)

/-- The key gets the value and the lock of its first line, and the value from its place. -/
structure FoundExactly (ended : Bool) (lines : List ConfigLine) (key : ConfigKey) : Prop where
  found : Config.getValue (configText ended lines) key.text = some (ownFound key lines)
  place : (search key.text equals '-' 0 none (configText ended lines)).text =
    ownText ended key lines

/-- The occurrences of the key in a line, as the search meets them. -/
def ConfigLine.occurrences (key : ConfigKey) (line : ConfigLine) : List (Bool × CString) :=
  KeyedLines.occurrences key.text '-' 0 false line.text

/-- Nothing but the line of the key can be taken for it. -/
structure Unmistakable (ended : Bool) (lines : List ConfigLine) (key : ConfigKey) : Prop where
  /-- An empty key is found at once or never left. -/
  named : key.text = [] → equals <+: configText ended lines
  /-- No equals sign follows the key before its line. -/
  before : ∀ line ∈ linesBefore key lines, ∀ o ∈ line.occurrences key, ¬ equals <+: o.2
  /-- No hyphen precedes it there, unless its line locks. -/
  unmarked : ((linesFrom key lines).head?.all fun line => !line.locked) = true →
    ∀ line ∈ linesBefore key lines, ∀ o ∈ line.occurrences key, o.1 = false
  /-- A line that locks a key of hyphens is passed over. -/
  own : ∀ line ∈ (linesFrom key lines).head?, line.locked = true →
    2 ≤ key.text.length → ∃ c ∈ key.text, c ≠ '-'
  /-- A value that is not ended in its array has no carriage return. -/
  value : ∀ line ∈ (linesFrom key lines).head?, '\r' ∈ line.value →
    line.value.length < 255 ∧ (ended = true ∨ (linesFrom key lines).length ≠ 1)

variable {ended : Bool} {lines later : List ConfigLine} {key : ConfigKey} {line : ConfigLine}

theorem newline_notMem_equals : '\n' ∉ equals := by
  decide

theorem configText_cons (line : ConfigLine) (later : List ConfigLine) :
    configText ended (line :: later) = line.text ++ configTail ended later := by
  rw [configText, List.map_cons, joinLines, List.isEmpty_map]
  rfl

theorem configTail_cases (ended : Bool) (later : List ConfigLine) :
    configTail ended later = '\n' :: configText ended later ∨
      configTail ended later = [] ∧ later = [] := by
  unfold configTail
  cases hlast : later.isEmpty && !ended with
  | false => exact .inl rfl
  | true =>
      rw [Bool.and_eq_true, List.isEmpty_iff] at hlast
      rw [hlast.1]
      exact .inr ⟨rfl, rfl⟩

theorem equals_prefix_tail (ended : Bool) (later : List ConfigLine) (s : CString) :
    equals <+: s ++ configTail ended later ↔ equals <+: s := by
  rcases configTail_cases ended later with htail | ⟨htail, -⟩
  · rw [htail]
    exact prefix_append_cons newline_notMem_equals
  · rw [htail, List.append_nil]

/-- The occurrences in a text are those in its lines. -/
theorem occurrences_configText (hne : key.text ≠ []) (line : ConfigLine)
    (later : List ConfigLine) :
    occurrences key.text '-' 0 false (configText ended (line :: later)) =
      (line.occurrences key).map (fun o => (o.1, o.2 ++ configTail ended later)) ++
        occurrences key.text '-' 0 false (configText ended later) := by
  rw [configText_cons]
  rcases configTail_cases ended later with htail | ⟨htail, rfl⟩
  · rw [htail]
    exact occurrences_line key.text_line hne (by decide) (Nat.zero_le _) _
  · rw [htail, List.append_nil]
    simp [ConfigLine.occurrences, configText, joinLines, occurrences]

/-- What the search finds in a text of lines. -/
def foundIn (ended : Bool) (key : ConfigKey) (lines : List ConfigLine) : Found Char :=
  firstFollowed equals (occurrences key.text '-' 0 false (configText ended lines))

theorem search_configText (ended : Bool) (key : ConfigKey) (lines : List ConfigLine) :
    search key.text equals '-' 0 none (configText ended lines) = foundIn ended key lines := by
  rw [search_eq]
  rfl

/-! ## The line of the key -/

/-- A text that starts with itself behind a character has no other character. -/
theorem eq_of_prefix_cons {c : Char} {s rest : CString} (h : s <+: c :: (s ++ rest)) :
    s = List.replicate s.length c := by
  induction s generalizing rest with
  | nil => rfl
  | cons x xs ih =>
      rw [List.cons_prefix_cons] at h
      obtain ⟨rfl, hxs⟩ := h
      rw [List.cons_append] at hxs
      rw [List.length_cons, List.replicate_succ, ← ih hxs]

theorem prefix_cons_replicate (n : Nat) (c : Char) (rest : CString) :
    List.replicate n c <+: c :: (List.replicate n c ++ rest) := by
  rw [← List.cons_append, ← List.replicate_succ, List.replicate_succ', List.append_assoc]
  exact List.prefix_append _ _

theorem equals_prefix_hyphen (s : CString) : ¬ equals <+: '-' :: s := by
  intro h
  rw [equals, show " = ".toList = ' ' :: "= ".toList from rfl, List.cons_prefix_cons] at h
  exact absurd h.1 (by decide)

/-- The line of the key is not passed over. -/
def Met (key : ConfigKey) (line : ConfigLine) : Prop :=
  line.locked = true → 2 ≤ key.text.length → ∃ c ∈ key.text, c ≠ '-'

/-- At the start of what it is searched in, the key of a line is found. -/
theorem occurrences_own (hne : key.text ≠ []) (marked : Bool) (value : CString) :
    ∃ rest, occurrences key.text '-' 0 marked (key.text ++ (equals ++ value)) =
      (marked, equals ++ value) :: rest := by
  obtain ⟨c, cs, hkey⟩ := List.exists_cons_of_ne_nil hne
  have hbegins : key.text <+: key.text ++ (equals ++ value) := List.prefix_append _ _
  have hdrop : (key.text ++ (equals ++ value)).drop key.text.length = equals ++ value :=
    List.drop_left
  generalize key.text = k at *
  subst hkey
  rw [List.cons_append] at hbegins hdrop ⊢
  rw [occurrences_cons, if_pos hbegins, hdrop]
  exact ⟨_, rfl⟩

theorem firstFollowed_own {marked : Bool} {value : CString} {rest : List (Bool × CString)} :
    firstFollowed equals ((marked, equals ++ value) :: rest) = ⟨some value, marked⟩ := by
  rw [firstFollowed, if_pos (List.prefix_append _ _), List.drop_left]

/-- The line gives its value to its key. -/
theorem firstFollowed_line (hne : key.text ≠ []) (hown : line.key.text = key.text)
    (hmet : Met key line) :
    firstFollowed equals (line.occurrences key) = ⟨some line.value, line.locked⟩ := by
  rw [ConfigLine.occurrences, ConfigLine.text, hown]
  cases hlocked : line.locked with
  | false =>
      obtain ⟨rest, hrest⟩ := occurrences_own hne false line.value
      simp only [Bool.false_eq_true, if_false, List.nil_append]
      rw [hrest, firstFollowed_own]
  | true =>
      obtain ⟨rest, hrest⟩ := occurrences_own hne true line.value
      simp only [if_true, List.singleton_append]
      rw [occurrences_cons]
      split
      next hbegins =>
        -- the hyphen of the lock is taken for the key, which is one hyphen
        have hkey := eq_of_prefix_cons hbegins
        have hone : key.text.length = 1 := by
          have hpos := List.length_pos_of_ne_nil hne
          by_contra hlong
          obtain ⟨c, hc, hother⟩ := hmet hlocked (by omega)
          rw [hkey] at hc
          exact hother (List.eq_of_mem_replicate hc)
        rw [firstFollowed, if_neg, hone]
        · have hdash : decide ('-' = '-') = true := rfl
          rw [hdash, Nat.sub_self, hrest, firstFollowed_own]
          rfl
        · rw [hone, List.drop_one, List.tail_cons, hkey, hone]
          exact equals_prefix_hyphen _
      next hbegins =>
        have hdash : decide ('-' = '-') = true := rfl
        rw [hdash, hrest, firstFollowed_own]

/-- Where the line is passed over its value is not what is found. -/
theorem length_of_not_met (hown : line.key.text = key.text) (hmet : ¬ Met key line)
    {o : Bool × CString} (ho : o ∈ line.occurrences key) (hfollowed : equals <+: o.2) :
    o.2.length < (equals ++ line.value).length := by
  simp only [Met, not_forall, not_exists, not_and, not_not] at hmet
  obtain ⟨hlocked, hlong, hhyphens⟩ := hmet
  have hkey : key.text = List.replicate key.text.length '-' :=
    List.eq_replicate_of_mem hhyphens
  have hbegins : key.text <+: '-' :: (key.text ++ (equals ++ line.value)) := by
    have hreplicate := prefix_cons_replicate key.text.length '-' (equals ++ line.value)
    rwa [← hkey] at hreplicate
  rw [ConfigLine.occurrences, ConfigLine.text, hown, hlocked, if_pos rfl, List.singleton_append,
    occurrences_cons, if_pos hbegins] at ho
  rcases List.mem_cons.mp ho with rfl | hlater
  · refine absurd hfollowed ?_
    obtain ⟨n, hn⟩ : ∃ n, key.text.length = n + 1 := ⟨_, (Nat.sub_add_cancel (by omega)).symm⟩
    rw [hn, List.drop_succ_cons, hkey, hn, List.replicate_succ', List.append_assoc,
      List.drop_left' List.length_replicate]
    exact equals_prefix_hyphen _
  · have hlength := length_of_mem_occurrences hlater
    rw [List.length_append] at hlength
    omega

/-! ## The lines before it -/

/-- The search goes on behind a line in which no equals sign follows the key. -/
theorem foundIn_cons_clear (hne : key.text ≠ [])
    (hclear : ∀ o ∈ line.occurrences key, ¬ equals <+: o.2) :
    foundIn ended key (line :: later) =
      ⟨(foundIn ended key later).text,
        (foundIn ended key later).marked || (line.occurrences key).any (·.1)⟩ := by
  rw [foundIn, occurrences_configText hne, firstFollowed_append, List.any_map]
  · rfl
  · rw [List.forall_mem_map]
    intro o ho
    rw [equals_prefix_tail]
    exact hclear o ho

/-- What is found in a line is longer than the lines behind it. -/
theorem length_of_foundIn_cons (ended : Bool) (later : List ConfigLine) (hne : key.text ≠ [])
    (hfollowed : ∃ o ∈ line.occurrences key, equals <+: o.2) :
    ∃ found, (foundIn ended key (line :: later)).text = some found ∧
      (configTail ended later).length ≤ found.length := by
  have hmapped : ∃ o ∈ (line.occurrences key).map fun o => (o.1, o.2 ++ configTail ended later),
      equals <+: o.2 := by
    obtain ⟨o, ho, hbegins⟩ := hfollowed
    exact ⟨_, List.mem_map_of_mem ho, (equals_prefix_tail ended later o.2).mpr hbegins⟩
  obtain ⟨o, ho, hbegins, hfound⟩ := exists_of_followed
    (occurrences key.text '-' 0 false (configText ended later)) hmapped
  obtain ⟨o', -, rfl⟩ := List.mem_map.mp ho
  rw [equals_prefix_tail] at hbegins
  refine ⟨_, by rw [foundIn, occurrences_configText hne]; exact hfound, ?_⟩
  rw [List.drop_append_of_le_length hbegins.length_le, List.length_append]
  omega

theorem length_configText_le (ended : Bool) (later : List ConfigLine) :
    (configText ended later).length ≤ (configTail ended later).length := by
  rcases configTail_cases ended later with htail | ⟨-, rfl⟩
  · rw [htail, List.length_cons]
    omega
  · exact Nat.zero_le _

theorem linesFrom_cons (line : ConfigLine) (later : List ConfigLine) :
    linesFrom key (line :: later) = if line.Other key then linesFrom key later else line :: later :=
  List.dropWhile_cons

theorem linesBefore_cons (line : ConfigLine) (later : List ConfigLine) :
    linesBefore key (line :: later) =
      if line.Other key then line :: linesBefore key later else [] :=
  List.takeWhile_cons

theorem length_ownText {own : CString} (h : ownText ended key lines = some own) :
    own.length < (configText ended lines).length := by
  induction lines with
  | nil => cases h
  | cons line later ih =>
      have hle := length_configText_le ended later
      rw [ownText, linesFrom_cons] at h
      rw [configText_cons, List.length_append]
      split at h
      next => cases h
      next own' later' heq =>
        split at heq
        next =>
          have hlater := ih (by rw [ownText, heq]; exact h)
          omega
        next =>
          cases heq
          cases h
          rw [ConfigLine.text]
          simp only [List.length_append]
          have hthree : equals.length = 3 := rfl
          omega

theorem foundIn_own (hne : key.text ≠ []) (hown : line.key.text = key.text)
    (hmet : Met key line) :
    foundIn ended key (line :: later) =
      ⟨some (line.value ++ configTail ended later), line.locked⟩ := by
  rw [foundIn, occurrences_configText hne]
  exact firstFollowed_map (equals_prefix_tail ended later) (firstFollowed_line hne hown hmet)

/-- The value of a line that is passed over is not what is found. -/
theorem foundIn_not_met (hne : key.text ≠ []) (hown : line.key.text = key.text)
    (hmet : ¬ Met key line) :
    (foundIn ended key (line :: later)).text ≠
      some (line.value ++ configTail ended later) := by
  intro h
  rw [foundIn, occurrences_configText hne] at h
  obtain ⟨o, ho, hbegins, hfound⟩ := exists_of_firstFollowed h
  have hsame := congrArg List.length hfound
  have hequals := hbegins.length_le
  have hthree : equals.length = 3 := rfl
  rw [List.length_append, List.length_drop] at hsame
  rcases List.mem_append.mp ho with hhere | hlater
  · obtain ⟨o', ho', rfl⟩ := List.mem_map.mp hhere
    rw [equals_prefix_tail] at hbegins
    have hshort := length_of_not_met hown hmet ho' hbegins
    rw [List.length_append] at hsame hequals hshort
    omega
  · have hlength := length_of_mem_occurrences hlater
    have hle := length_configText_le ended later
    omega

theorem other_eq_false : line.Other key = false ↔ line.key.text = key.text := by
  simp [ConfigLine.Other]

/-- The value is found in its place just when nothing before is taken for it. -/
theorem foundIn_text_iff (ended : Bool) (lines : List ConfigLine) (hne : key.text ≠ []) :
    (foundIn ended key lines).text = ownText ended key lines ↔
      (∀ line ∈ linesBefore key lines, ∀ o ∈ line.occurrences key, ¬ equals <+: o.2) ∧
        ∀ line ∈ (linesFrom key lines).head?, Met key line := by
  induction lines with
  | nil => exact iff_of_true rfl ⟨fun _ h => (nomatch h), fun _ h => (nomatch h)⟩
  | cons line later ih =>
      rw [linesFrom_cons, linesBefore_cons]
      cases hother : line.Other key with
      | true =>
          have hownText : ownText ended key (line :: later) = ownText ended key later := by
            rw [ownText, linesFrom_cons, if_pos hother]
            rfl
          rw [if_pos rfl, if_pos rfl, List.forall_mem_cons, hownText]
          by_cases hclear : ∀ o ∈ line.occurrences key, ¬ equals <+: o.2
          · rw [foundIn_cons_clear hne hclear, and_iff_right hclear]
            exact ih
          · -- What is found in this line is longer than all that the key's own line could give.
            refine iff_of_false (fun h => ?_) fun h => hclear h.1.1
            simp only [not_forall, not_not] at hclear
            obtain ⟨o, ho, hbegins⟩ := hclear
            obtain ⟨found, hfound, hlength⟩ :=
              length_of_foundIn_cons ended later hne ⟨o, ho, hbegins⟩
            have hown := length_ownText (h.symm.trans hfound)
            have hle := length_configText_le ended later
            omega
      | false =>
          have hown := other_eq_false.mp hother
          have hownText : ownText ended key (line :: later) =
              some (line.value ++ configTail ended later) := by
            rw [ownText, linesFrom_cons, if_neg (by rw [hother]; decide)]
          rw [if_neg (by decide), if_neg (by decide), hownText, List.head?_cons]
          by_cases hmet : Met key line
          · rw [foundIn_own hne hown hmet]
            refine iff_of_true rfl ⟨fun _ h => (nomatch h), fun other hline => ?_⟩
            cases hline
            exact hmet
          · exact iff_of_false (foundIn_not_met hne hown hmet) fun h => hmet (h.2 line rfl)

/-- Up to the value each hyphen before the key counts. -/
theorem foundIn_marked (hne : key.text ≠ [])
    (hbefore : ∀ line ∈ linesBefore key lines, ∀ o ∈ line.occurrences key, ¬ equals <+: o.2)
    (hmet : ∀ line ∈ (linesFrom key lines).head?, Met key line) :
    (foundIn ended key lines).marked =
      ((linesFrom key lines).head?.any (·.locked) ||
        (linesBefore key lines).any fun line => (line.occurrences key).any (·.1)) := by
  induction lines with
  | nil => rfl
  | cons line later ih =>
      rw [linesFrom_cons] at hmet ⊢
      rw [linesBefore_cons] at hbefore ⊢
      cases hother : line.Other key with
      | true =>
          rw [hother] at hmet hbefore
          rw [if_pos rfl] at hmet hbefore ⊢
          rw [if_pos rfl]
          rw [List.forall_mem_cons] at hbefore
          rw [foundIn_cons_clear hne hbefore.1, ih hbefore.2 hmet, List.any_cons]
          ac_rfl
      | false =>
          rw [hother] at hmet
          have hown := other_eq_false.mp hother
          rw [foundIn_own hne hown (hmet line rfl)]
          simp

/-! ## The value -/

theorem configTail_eq_nil : configTail ended later = [] ↔ ¬ (ended = true ∨ later ≠ []) := by
  unfold configTail
  cases ended <;> cases later <;> simp [configText, joinLines]

/-- A value ends with its line; at the end of its array or of the text a carriage return
ends it. -/
theorem cutValue_tail (ended : Bool) (later : List ConfigLine) (line : ConfigLine) :
    cutValue (line.value ++ configTail ended later) = line.value ↔
      ('\r' ∈ line.value → line.value.length < 255 ∧ (ended = true ∨ later ≠ [])) := by
  have hfit := line.value_fit
  have hline := line.value_line
  by_cases hends : line.value.length < 255 ∧ (ended = true ∨ later ≠ [])
  · obtain ⟨hshort, hlater⟩ := hends
    have htail : configTail ended later = '\n' :: configText ended later := by
      rcases configTail_cases ended later with htail | ⟨htail, -⟩
      · exact htail
      · exact absurd hlater (configTail_eq_nil.mp htail)
    refine iff_of_true ?_ fun _ => ⟨hshort, hlater⟩
    rw [htail, cutValue_line hline, cutLine, if_pos hshort]
  · have hbuffer : (line.value ++ configTail ended later).take 255 = line.value := by
      rw [not_and_or, not_lt] at hends
      rcases hends with hfull | hlast
      · exact List.take_left' (by omega)
      · rw [configTail_eq_nil.mpr hlast, List.append_nil, List.take_of_length_le (by omega)]
    rw [cutValue, hbuffer, if_neg hline, List.takeWhile_eq_self_iff]
    constructor
    · intro hall hreturn
      exact absurd (hall _ hreturn) (by simp)
    · intro hno c hc
      exact bne_iff_ne.mpr fun heq => hends (hno (heq ▸ hc))

/-! ## The whole -/

/-- With the value in its place, what is returned depends on carriage returns and hyphens. -/
theorem found_own_iff (ended : Bool) (key : ConfigKey) (lines : List ConfigLine) (marked : Bool) :
    (⟨(ownText ended key lines).map cutValue,
        (linesFrom key lines).head?.any (·.locked) || marked⟩ : Found Char) =
        ownFound key lines ↔
      (∀ line ∈ (linesFrom key lines).head?, '\r' ∈ line.value →
        line.value.length < 255 ∧ (ended = true ∨ (linesFrom key lines).length ≠ 1)) ∧
      (((linesFrom key lines).head?.all fun line => !line.locked) = true → marked = false) := by
  unfold ownText ownFound
  cases linesFrom key lines with
  | nil => simp
  | cons line later =>
      have hlast : (line :: later).length ≠ 1 ↔ later ≠ [] := by
        simp [List.length_eq_zero_iff]
      simp only [Option.map_some, Found.mk.injEq, Option.some.injEq, cutValue_tail, hlast,
        List.head?_cons, Option.any_some, Option.all_some, Option.mem_def, forall_eq']
      refine and_congr_right fun _ => ?_
      cases line.locked <;> simp

theorem foundExactly_of_named (hne : key.text ≠ []) :
    FoundExactly ended lines key ↔ Unmistakable ended lines key := by
  have hget : Config.getValue (configText ended lines) key.text =
      some ⟨(foundIn ended key lines).text.map cutValue, (foundIn ended key lines).marked⟩ := by
    rw [Config.getValue, if_neg fun h => hne h.1, search_configText]
  have hplace := foundIn_text_iff ended lines hne
  have hown := found_own_iff ended key lines
    ((linesBefore key lines).any fun line => (line.occurrences key).any (·.1))
  have hmarks : ((linesBefore key lines).any fun line => (line.occurrences key).any (·.1)) = false ↔
      ∀ line ∈ linesBefore key lines, ∀ o ∈ line.occurrences key, o.1 = false := by
    simp
  rw [hmarks] at hown
  constructor
  · rintro ⟨hfound, hthere⟩
    rw [search_configText] at hthere
    obtain ⟨hbefore, hmet⟩ := hplace.mp hthere
    rw [hget, hthere, foundIn_marked hne hbefore hmet, Option.some.injEq] at hfound
    obtain ⟨hvalue, hunmarked⟩ := hown.mp hfound
    exact ⟨fun h => absurd h hne, hbefore, hunmarked, hmet, hvalue⟩
  · rintro ⟨-, hbefore, hunmarked, hmet, hvalue⟩
    have hthere := hplace.mpr ⟨hbefore, hmet⟩
    refine ⟨?_, by rw [search_configText]; exact hthere⟩
    rw [hget, hthere, foundIn_marked hne hbefore hmet, Option.some.injEq]
    exact hown.mpr ⟨hvalue, hunmarked⟩

theorem search_empty {text : CString} (h : equals <+: text) :
    search [] equals '-' 0 none text = ⟨some (text.drop equals.length), false⟩ := by
  obtain ⟨rest, rfl⟩ := h
  rfl

/-- An empty key finds the first line if that begins with the equals sign. -/
theorem search_empty_cons (hnamed : equals <+: configText ended (line :: later)) :
    search [] equals '-' 0 none (configText ended (line :: later)) =
      ⟨some (line.text.drop equals.length ++ configTail ended later), false⟩ := by
  rw [search_empty hnamed]
  rw [configText_cons, equals_prefix_tail] at hnamed
  rw [configText_cons, List.drop_append_of_le_length hnamed.length_le]

theorem text_of_empty (hown : line.key.text = []) (hnamed : equals <+: line.text) :
    line.locked = false ∧ line.text = equals ++ line.value := by
  rw [ConfigLine.text, hown] at hnamed ⊢
  cases hlocked : line.locked with
  | false => exact ⟨rfl, rfl⟩
  | true =>
      rw [hlocked] at hnamed
      exact absurd hnamed (equals_prefix_hyphen _)

/-- Another line that begins with the equals sign is taken for the line of an empty key. -/
theorem not_foundExactly_of_other (hempty : key.text = []) (hother : line.Other key = true)
    (hnamed : equals <+: configText ended (line :: later)) :
    ¬ FoundExactly ended (line :: later) key ∧ ¬ Unmistakable ended (line :: later) key := by
  have hline : equals <+: line.text := by
    rwa [configText_cons, equals_prefix_tail] at hnamed
  refine ⟨fun h => ?_, fun h => ?_⟩
  · have hplace := h.place
    rw [hempty, search_empty_cons hnamed, ownText, linesFrom_cons, if_pos hother] at hplace
    have hlength := @length_ownText ended later key _ hplace.symm
    have hle := length_configText_le ended later
    rw [List.length_append] at hlength
    omega
  · have hmem : line ∈ linesBefore key (line :: later) := by
      rw [linesBefore_cons, if_pos hother]
      exact List.mem_cons_self
    obtain ⟨rest, hrest⟩ := hline
    refine h.before line hmem (false, line.text) ?_ ⟨rest, hrest⟩
    rw [ConfigLine.occurrences, hempty, ← hrest]
    exact List.mem_cons_self

/-- The first line is that of the empty key, and its value depends on a carriage return alone. -/
theorem foundExactly_of_empty_own (hempty : key.text = []) (hother : line.Other key = false)
    (hnamed : equals <+: configText ended (line :: later)) :
    FoundExactly ended (line :: later) key ↔ Unmistakable ended (line :: later) key := by
  have hown := other_eq_false.mp hother
  have hline : equals <+: line.text := by
    rwa [configText_cons, equals_prefix_tail] at hnamed
  obtain ⟨hlocked, htext⟩ := text_of_empty (hown.trans hempty) hline
  -- an empty key is found at once, in front of the first line
  have hsearch := search_empty_cons hnamed
  rw [htext, List.drop_left] at hsearch
  have hfrom : linesFrom key (line :: later) = line :: later := by
    rw [linesFrom_cons, if_neg (by rw [hother]; decide)]
  have hbefore : linesBefore key (line :: later) = [] := by
    rw [linesBefore_cons, if_neg (by rw [hother]; decide)]
  have hget : Config.getValue (configText ended (line :: later)) key.text =
      some ⟨some (cutValue (line.value ++ configTail ended later)), false⟩ := by
    rw [hempty, Config.getValue, if_neg fun h => h.2 hnamed, hsearch]
    rfl
  have hiff := found_own_iff ended key (line :: later) false
  rw [ownText, hfrom, List.head?_cons, Option.any_some, hlocked] at hiff
  constructor
  · rintro ⟨hfound, -⟩
    rw [hget, Option.some.injEq] at hfound
    obtain ⟨hvalue, -⟩ := hiff.mp hfound
    refine ⟨fun _ => hnamed, ?_, ?_, ?_, by rw [hfrom]; exact hvalue⟩
    · rw [hbefore]
      exact fun _ h => nomatch h
    · rw [hbefore]
      exact fun _ _ h => nomatch h
    · rw [hfrom]
      intro other hother hlocks
      cases hother
      rw [hlocked] at hlocks
      cases hlocks
  · intro h
    have hvalue := h.value
    rw [hfrom] at hvalue
    refine ⟨?_, ?_⟩
    · rw [hget, Option.some.injEq]
      exact hiff.mpr ⟨hvalue, fun _ => rfl⟩
    · rw [hempty, hsearch, ownText, hfrom]

/-- An empty key is found in front of the text or not at all. -/
theorem foundExactly_of_empty (hempty : key.text = []) :
    FoundExactly ended lines key ↔ Unmistakable ended lines key := by
  by_cases hnamed : equals <+: configText ended lines
  · cases lines with
    | nil => exact absurd (List.prefix_nil.mp hnamed) (by decide)
    | cons line later =>
        cases hother : line.Other key with
        | true =>
            obtain ⟨hfound, hclear⟩ := not_foundExactly_of_other hempty hother hnamed
            exact iff_of_false hfound hclear
        | false => exact foundExactly_of_empty_own hempty hother hnamed
  · -- The search stays where it is.
    refine iff_of_false (fun h => ?_) fun h => hnamed (h.named hempty)
    have hfound := h.found
    rw [Config.getValue, if_pos ⟨hempty, hnamed⟩] at hfound
    cases hfound

/-- A key gets the value and the lock of its first line just when nothing else is taken for
it. -/
theorem getValue_exact_iff (ended : Bool) (lines : List ConfigLine) (key : ConfigKey) :
    FoundExactly ended lines key ↔ Unmistakable ended lines key := by
  by_cases hempty : key.text = []
  · exact foundExactly_of_empty hempty
  · exact foundExactly_of_named hempty

/-- A key that ends in `skip` gives it its value, and one that has it behind a hyphen locks it. -/
theorem skip_not_exact :
    ∃ (key : ConfigKey) (values locks : List ConfigLine), key.text = "skip".toList ∧
      values.map ConfigLine.text = ["frame_skip = on".toList, "skip = off".toList] ∧
      Config.getValue (configText true values) key.text = some ⟨some "on".toList, false⟩ ∧
      ¬ FoundExactly true values key ∧
      locks.map ConfigLine.text = ["auto-skip_rate = 2".toList, "skip = off".toList] ∧
      Config.getValue (configText true locks) key.text = some ⟨some "off".toList, true⟩ ∧
      ¬ FoundExactly true locks key := by
  let skip : ConfigLine := ⟨false, ⟨"skip".toList, by decide, by decide⟩, "off".toList,
    fun _ => by decide, by decide, by decide⟩
  let frame : ConfigLine := ⟨false, ⟨"frame_skip".toList, by decide, by decide⟩, "on".toList,
    fun _ => by decide, by decide, by decide⟩
  let auto : ConfigLine := ⟨false, ⟨"auto-skip_rate".toList, by decide, by decide⟩, "2".toList,
    fun _ => by decide, by decide, by decide⟩
  have hvalue : Config.getValue (configText true [frame, skip]) skip.key.text =
      some ⟨some "on".toList, false⟩ := by
    decide
  have hlock : Config.getValue (configText true [auto, skip]) skip.key.text =
      some ⟨some "off".toList, true⟩ := by
    decide
  refine ⟨skip.key, [frame, skip], [auto, skip], rfl, rfl, hvalue, fun h => ?_, rfl, hlock,
    fun h => ?_⟩
  · have hfound := h.found
    rw [hvalue] at hfound
    revert hfound
    decide
  · have hfound := h.found
    rw [hlock] at hfound
    revert hfound
    decide

end DarkUI.Minarch
