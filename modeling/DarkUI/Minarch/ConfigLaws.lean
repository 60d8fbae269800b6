import DarkUI.Foundation.InPlace
import DarkUI.Minarch.Config

/-! # What comes back of a written configuration

Every line that is written is found again under its key, unless an earlier line has the
key in front of an equals sign too.
-/

namespace DarkUI.Minarch

open Text KeyedLines InPlace

section Lists

variable {β γ : Type*}

/-- A list is restored when each of its items is. -/
theorem mapM_restores {δ : Type*} {read : β → Option β} {state : β → γ} {part : β → δ}
    {Readable : β → Prop} {ps cs : List β} (hparts : ps.map part = cs.map part)
    (hitem : ∀ p, ∀ c ∈ cs, part p = part c →
      ((∃ p', read p = some p' ∧ state p' = state c) ↔ Readable c)) :
    (∃ ps', ps.mapM read = some ps' ∧ ps'.map state = cs.map state) ↔ ∀ c ∈ cs, Readable c := by
  induction cs generalizing ps with
  | nil =>
      obtain rfl : ps = [] := by simpa using hparts
      simp
  | cons c cs ih =>
      cases ps with
      | nil => simp at hparts
      | cons p ps =>
          rw [List.map_cons, List.map_cons, List.cons.injEq] at hparts
          have htail := ih hparts.2 fun p c hc => hitem p c (List.mem_cons_of_mem _ hc)
          rw [List.forall_mem_cons, ← hitem p c List.mem_cons_self hparts.1, ← htail]
          constructor
          · rintro ⟨ps', hread, hstate⟩
            obtain ⟨p', rest, hp, hps, rfl⟩ := mapM_cons_eq_some.mp hread
            rw [List.map_cons, List.map_cons, List.cons.injEq] at hstate
            exact ⟨⟨p', hp, hstate.1⟩, rest, hps, hstate.2⟩
          · rintro ⟨⟨p', hp, hstate⟩, rest, hps, hrest⟩
            refine ⟨p' :: rest, mapM_cons_eq_some.mpr ⟨p', rest, hp, hps, rfl⟩, ?_⟩
            rw [List.map_cons, List.map_cons, hstate, hrest]

end Lists

/-- What reading a text makes of one option. -/
def ConfigOption.read (cfg : CString) (option : ConfigOption) : Option ConfigOption :=
  (Config.getValue cfg option.key).map fun found =>
    let locked : ConfigOption := { option with lock := option.lock || found.marked }
    found.text.elim locked locked.setValue

namespace OptionList

variable {cfg : CString} {option : ConfigOption} {done rest list : List ConfigOption}

theorem setOptionValue_append {key value : CString} (hkey : option.key = key)
    (hdone : key ∉ done.map (·.key)) :
    setOptionValue key value (done ++ option :: rest) = done ++ option.setValue value :: rest := by
  induction done with
  | nil => simp [setOptionValue, hkey]
  | cons first done ih =>
      rw [List.map_cons, List.mem_cons, not_or] at hdone
      rw [List.cons_append, setOptionValue, if_neg (Ne.symm hdone.1), ih hdone.2, List.cons_append]

theorem readOption_append (hdone : option.key ∉ done.map (·.key)) :
    readOption cfg (done ++ option :: rest) done.length =
      (option.read cfg).map fun option => done ++ option :: rest := by
  have hget : (done ++ option :: rest)[done.length]? = some option := by simp
  unfold readOption ConfigOption.read
  simp only [hget, Option.map_map]
  congr 1
  funext found
  have hset (locked : ConfigOption) :
      (done ++ option :: rest).set done.length locked = done ++ locked :: rest := by simp
  cases htext : found.text with
  | none => simp [hset, htext]
  | some value =>
      simp only [Function.comp_apply, htext, hset, Option.elim_some]
      exact setOptionValue_append rfl hdone

/-- With distinct keys every option is read on its own. -/
theorem read_eq_mapM (hkeys : (list.map (·.key)).Nodup) :
    read cfg list = list.mapM (ConfigOption.read cfg) := by
  have hloop (done rest : List ConfigOption) (hkeys : ((done ++ rest).map (·.key)).Nodup) :
      (List.range' done.length rest.length).foldlM (readOption cfg) (done ++ rest) =
        (rest.mapM (ConfigOption.read cfg)).map (done ++ ·) := by
    induction rest generalizing done with
    | nil => simp
    | cons option rest ih =>
        have hdone : option.key ∉ done.map (·.key) := by
          intro hmem
          rw [List.map_append, List.nodup_append] at hkeys
          exact hkeys.2.2 _ hmem _ (by simp) rfl
        rw [List.length_cons, List.range'_succ, List.foldlM_cons, readOption_append hdone,
          List.mapM_cons]
        cases hread : option.read cfg with
        | none => rfl
        | some option' =>
            have hkey : option'.key = option.key := by
              unfold ConfigOption.read at hread
              obtain ⟨found, -, rfl⟩ := Option.map_eq_some_iff.mp hread
              cases found.text <;> rfl
            have hnext := ih (done ++ [option']) (by simpa [hkey] using hkeys)
            simp only [List.length_append, List.length_singleton, List.append_assoc,
              List.singleton_append] at hnext
            simp only [Option.map_some, Option.bind_eq_bind, Option.bind_some, hnext]
            cases rest.mapM (ConfigOption.read cfg) <;> simp
  have := hloop [] list hkeys
  simpa [read, List.range_eq_range'] using this

end OptionList

/-- What is left of a value that ends with its line. -/
def cutLine (value : CString) : CString :=
  if value.length < 255 then value else (value.take 255).takeWhile (· != '\r')

theorem cutValue_line {value rest : CString} (hvalue : '\n' ∉ value) :
    cutValue (value ++ '\n' :: rest) = cutLine value := by
  have htake : value.takeWhile (· != '\n') = value := by
    rw [List.takeWhile_eq_self_iff]
    intro c hc
    have hne : c ≠ '\n' := fun heq => hvalue (heq ▸ hc)
    simpa using hne
  by_cases hshort : value.length < 255
  · have hcut : (value ++ '\n' :: rest).take 255 =
        value ++ '\n' :: rest.take (254 - value.length) := by
      rw [List.take_append, List.take_of_length_le (by omega),
        show 255 - value.length = 254 - value.length + 1 by omega, List.take_succ_cons]
    simp [cutValue, cutLine, hcut, hshort, List.takeWhile_append, htake]
  · have hcut : (value ++ '\n' :: rest).take 255 = value.take 255 :=
      List.take_append_of_le_length (by omega)
    have hline : '\n' ∉ value.take 255 := fun h => hvalue (List.mem_of_mem_take h)
    simp [cutValue, cutLine, hcut, hshort, hline]

/-- A line of the file: its key, whether the key fits where it is put together, the value
as it is written, and the values that stand for the same setting. -/
structure Setting where
  key : CString
  keyFits : Prop
  text : CString
  Same : CString → Prop

namespace Setting

def line (entry : Setting) : CString := entry.key ++ (equals ++ entry.text)

/-- Reading the key gives a value that stands for the setting. -/
def Readable (entry : Setting) (cfg : CString) : Prop :=
  entry.keyFits ∧ ∃ found value, Config.getValue cfg entry.key = some found ∧
    found.text = some value ∧ entry.Same value

/-- An empty key is found where the file starts, or never. No earlier line has the key in
front of an equals sign, or what follows in the first such line stands for the same
setting. A value of 255 characters also ends at a carriage return. -/
def Clear (entry : Setting) (earlier : List CString) (cfg : CString) : Prop :=
  entry.keyFits ∧ (entry.key = [] → equals <+: cfg) ∧
    match earlier.findSome? (valueIn entry.key equals 0) with
    | none => entry.Same (cutLine entry.text)
    | some value => entry.Same (cutLine value)

variable {entry : Setting} {earlier later : List CString}

theorem readable_iff (hkey : '\n' ∉ entry.key)
    (hlines : ∀ line ∈ earlier ++ entry.line :: later, '\n' ∉ line) :
    entry.Readable (unlines '\n' (earlier ++ entry.line :: later)) ↔
      entry.Clear earlier (unlines '\n' (earlier ++ entry.line :: later)) := by
  have hequals : '\n' ∉ equals := by decide
  have hvalue := valueIn_unlines hkey hequals (by decide)
    (fun value rest => cutValue_line) hlines
  have hown : valueIn entry.key equals 0 entry.line = some entry.text :=
    valueIn_own (by decide) _
  rw [List.findSome?_append, List.findSome?_cons, hown] at hvalue
  unfold Readable Clear
  refine and_congr_right fun _ => ?_
  generalize unlines '\n' (earlier ++ entry.line :: later) = cfg at *
  unfold Config.getValue
  by_cases hstuck : entry.key = [] ∧ ¬ equals <+: cfg
  · simp [hstuck]
  · have hreturns : entry.key = [] → equals <+: cfg := by
      intro hempty
      by_contra hnot
      exact hstuck ⟨hempty, hnot⟩
    simp only [hstuck, if_false, search_text, hvalue, Option.some.injEq, and_iff_right hreturns]
    cases earlier.findSome? (valueIn entry.key equals 0) <;> simp

/-- The key of a line of the file is found somewhere. -/
theorem text_ne_none {lines : List CString} (hkey : '\n' ∉ entry.key)
    (hlines : ∀ line ∈ lines, '\n' ∉ line) (hmem : entry.line ∈ lines) {found : Found Char}
    (hfound : Config.getValue (unlines '\n' lines) entry.key = some found) :
    found.text ≠ none := by
  have hvalue := valueIn_unlines hkey (show '\n' ∉ equals by decide) (by decide)
    (fun value rest => cutValue_line) hlines
  have hown : valueIn entry.key equals 0 entry.line = some entry.text :=
    valueIn_own (by decide) _
  unfold Config.getValue at hfound
  split_ifs at hfound
  rw [Option.some.injEq] at hfound
  rw [← hfound, search_text, hvalue]
  intro hnone
  rw [Option.map_eq_none_iff, List.findSome?_eq_none_iff] at hnone
  simp [hnone _ hmem] at hown

end Setting

namespace ConfigOption

def entry (option : ConfigOption) : Setting where
  key := option.key
  keyFits := True
  text := option.values.get ⟨option.value, option.value_lt⟩
  Same value := option.getValueIndex value = option.value

theorem read_def {option option' : ConfigOption} {cfg : CString}
    (h : option.read cfg = some option') : option'.toOptionDef = option.toOptionDef := by
  obtain ⟨found, -, rfl⟩ := Option.map_eq_some_iff.mp h
  cases found.text <;> rfl

theorem getValueIndex_congr {prior option : ConfigOption}
    (hdef : prior.toOptionDef = option.toOptionDef) (value : CString) :
    prior.getValueIndex value = option.getValueIndex value := by
  rw [getValueIndex, hdef, getValueIndex]

theorem read_restores {prior option : ConfigOption} {cfg : CString}
    (hdef : prior.toOptionDef = option.toOptionDef)
    (hown : ∀ found, Config.getValue cfg option.key = some found → found.text ≠ none) :
    (∃ option', prior.read cfg = some option' ∧ option'.value = option.value) ↔
      option.entry.Readable cfg := by
  have hkey : prior.key = option.key := congrArg OptionDef.key hdef
  simp only [read, Setting.Readable, entry, true_and, hkey, ← getValueIndex_congr hdef]
  cases hget : Config.getValue cfg option.key with
  | none => simp
  | some found =>
      obtain ⟨value, htext⟩ := Option.ne_none_iff_exists'.mp (hown found hget)
      simp [htext, setValue, getValueIndex]

end ConfigOption

namespace ButtonMapping

/-- The local button and the MENU modifier. -/
def binding (mapping : ButtonMapping) : Int × Bool := (mapping.localId, mapping.mod)

def entry (text : CString → CString) (mapping : ButtonMapping) : Setting where
  key := mapping.key
  keyFits := mapping.key.length < 256
  text := mapping.label
  Same value := decode (text value) = mapping.binding

variable {prior mapping mapping' : ButtonMapping} {cfg : CString} {text : CString → CString}

theorem read_name (h : mapping.read cfg text = some mapping') : mapping'.name = mapping.name := by
  unfold read at h
  split_ifs at h
  obtain ⟨found, -, rfl⟩ := Option.map_eq_some_iff.mp h
  cases found.text <;> rfl

theorem read_restores (hname : prior.name = mapping.name)
    (hown : ∀ found, Config.getValue cfg mapping.key = some found → found.text ≠ none) :
    (∃ mapping', prior.read cfg text = some mapping' ∧ mapping'.binding = mapping.binding) ↔
      (mapping.entry text).Readable cfg := by
  have hkey : prior.key = mapping.key := by rw [key, hname, key]
  simp only [read, Setting.Readable, entry, hkey]
  by_cases hfits : mapping.key.length < 256
  · cases hget : Config.getValue cfg mapping.key with
    | none => simp
    | some found =>
        obtain ⟨value, htext⟩ := Option.ne_none_iff_exists'.mp (hown found hget)
        simp [htext, hfits, Nat.not_le.mpr hfits, bind, binding, Prod.ext_iff]
  · simp [hfits, Nat.not_lt.mp hfits]

end ButtonMapping

namespace Config

def gamepadEntry (config : Config) : Setting where
  key := gamepadKey
  keyFits := True
  text := decimal (config.gamepadType : Nat)
  Same value := 0 ≤ scanInt value ∧ scanInt value < gamepadCount

/-- The lines of the file with what they stand for. -/
def entries (config : Config) : List Setting :=
  config.frontend.map ConfigOption.entry ++ config.core.map ConfigOption.entry ++
    (if config.hasCustomControllers then [config.gamepadEntry] else []) ++
    config.controls.map (ButtonMapping.entry controlText) ++
    config.shortcuts.map (ButtonMapping.entry id)

theorem lines_eq (config : Config) : config.lines = config.entries.map Setting.line := by
  simp only [lines, entries, List.map_append, List.map_map, apply_ite (List.map Setting.line)]
  rfl

/-- The same options, controls and shortcuts, however they are set. -/
structure SameDefs (prior config : Config) : Prop where
  frontend : prior.frontend.map (·.toOptionDef) = config.frontend.map (·.toOptionDef)
  core : prior.core.map (·.toOptionDef) = config.core.map (·.toOptionDef)
  controls : prior.controls.map (·.name) = config.controls.map (·.name)
  shortcuts : prior.shortcuts.map (·.name) = config.shortcuts.map (·.name)
  gamepads : prior.hasCustomControllers = config.hasCustomControllers

/-- Keys are distinct among the options of both lists, names among controls and among shortcuts. -/
structure Distinct (config : Config) : Prop where
  options : ((config.frontend ++ config.core).map (·.key)).Nodup
  controls : (config.controls.map (·.name)).Nodup
  shortcuts : (config.shortcuts.map (·.name)).Nodup

/-- How every option, control and shortcut is set. -/
structure Settings where
  frontend : List Nat
  core : List Nat
  controls : List (Int × Bool)
  shortcuts : List (Int × Bool)
  deriving DecidableEq

def settings (config : Config) : Settings where
  frontend := config.frontend.map (·.value)
  core := config.core.map (·.value)
  controls := config.controls.map ButtonMapping.binding
  shortcuts := config.shortcuts.map ButtonMapping.binding

variable {prior config config' a b a' : Config} {cfg : CString} {source : Option CString}

theorem label_line (mapping : ButtonMapping) : '\n' ∉ mapping.label := by
  have hlabels : ∀ label ∈ buttonLabels, '\n' ∉ label := by decide
  exact hlabels _ (List.get_mem _ _)

theorem key_line (mapping : ButtonMapping) : '\n' ∉ mapping.key := by
  have hbind : '\n' ∉ "bind ".toList := by decide
  simp only [ButtonMapping.key, List.mem_append, not_or]
  exact ⟨hbind, mapping.name_line⟩

theorem mem_entries {entry : Setting} :
    entry ∈ config.entries ↔ (∃ option ∈ config.frontend, option.entry = entry) ∨
      (∃ option ∈ config.core, option.entry = entry) ∨
      (config.hasCustomControllers ∧ entry = config.gamepadEntry) ∨
      (∃ mapping ∈ config.controls, mapping.entry controlText = entry) ∨
      ∃ mapping ∈ config.shortcuts, mapping.entry id = entry := by
  simp [entries]

/-- Neither a key nor a written value is broken over lines. -/
theorem of_mem_entries {entry : Setting} (h : entry ∈ config.entries) :
    '\n' ∉ entry.key ∧ '\n' ∉ entry.text := by
  have hgamepad : ∀ type : Fin gamepadCount, '\n' ∉ decimal (type : Nat) := by decide
  rcases mem_entries.mp h with ⟨option, -, rfl⟩ | ⟨option, -, rfl⟩ | ⟨-, rfl⟩ |
    ⟨mapping, -, rfl⟩ | ⟨mapping, -, rfl⟩
  · exact ⟨option.key_line, option.values_line _ (List.get_mem _ _)⟩
  · exact ⟨option.key_line, option.values_line _ (List.get_mem _ _)⟩
  · exact ⟨show '\n' ∉ gamepadKey by decide, hgamepad _⟩
  · exact ⟨key_line mapping, label_line mapping⟩
  · exact ⟨key_line mapping, label_line mapping⟩

theorem of_mem_lines {line : CString} (h : line ∈ config.lines) : '\n' ∉ line := by
  rw [lines_eq, List.mem_map] at h
  obtain ⟨entry, hentry, rfl⟩ := h
  have hequals : '\n' ∉ equals := by decide
  obtain ⟨hkey, htext⟩ := of_mem_entries hentry
  simp [Setting.line, hkey, htext, hequals]

theorem text_ne_none {entry : Setting} (h : entry ∈ config.entries) {found : Found Char}
    (hfound : getValue config.write entry.key = some found) : found.text ≠ none := by
  refine Setting.text_ne_none (of_mem_entries h).1 (fun line => of_mem_lines) ?_ hfound
  rw [lines_eq]
  exact List.mem_map_of_mem h

/-- Every line is found again under its key. -/
def Clear (config : Config) : Prop :=
  ∀ earlier entry later, config.entries = earlier ++ entry :: later →
    entry.Clear (earlier.map Setting.line) config.write

theorem clear_iff : config.Clear ↔ ∀ entry ∈ config.entries, entry.Readable config.write := by
  have hreadable {earlier later : List Setting} {entry : Setting}
      (h : config.entries = earlier ++ entry :: later) :
      entry.Readable config.write ↔ entry.Clear (earlier.map Setting.line) config.write := by
    have hlines :
        config.lines = earlier.map Setting.line ++ entry.line :: later.map Setting.line := by
      rw [lines_eq, h, List.map_append, List.map_cons]
    rw [write, hlines]
    have hmem : entry ∈ config.entries := by simp [h]
    refine Setting.readable_iff (of_mem_entries hmem).1 fun line hline => ?_
    exact of_mem_lines (hlines ▸ hline)
  constructor
  · intro hclear entry hentry
    obtain ⟨earlier, later, h⟩ := List.append_of_mem hentry
    exact (hreadable h).mpr (hclear _ _ _ h)
  · intro hall earlier entry later h
    exact (hreadable h).mp (hall entry (by simp [h]))

theorem readOptionsString_eq_some :
    a.readOptionsString (some cfg) = some a' ↔
      ∃ frontend gamepadType core, OptionList.read cfg a.frontend = some frontend ∧
        a.readGamepad cfg = some gamepadType ∧ OptionList.read cfg a.core = some core ∧
        a' = { a with frontend, gamepadType, core } := by
  simp only [readOptionsString, Option.bind_eq_bind, Option.bind_eq_some_iff, Option.some.injEq]
  constructor
  · rintro ⟨frontend, hfrontend, gamepadType, hgamepad, core, hcore, rfl⟩
    exact ⟨frontend, gamepadType, core, hfrontend, hgamepad, hcore, rfl⟩
  · rintro ⟨frontend, gamepadType, core, hfrontend, hgamepad, hcore, rfl⟩
    exact ⟨frontend, hfrontend, gamepadType, hgamepad, core, hcore, rfl⟩

theorem readControlsString_eq_some :
    a.readControlsString (some cfg) = some a' ↔
      ∃ controls shortcuts, a.controls.mapM (ButtonMapping.read cfg controlText) = some controls ∧
        a.shortcuts.mapM (ButtonMapping.read cfg id) = some shortcuts ∧
        a' = { a with controls, shortcuts } := by
  simp only [readControlsString, Option.bind_eq_bind, Option.bind_eq_some_iff, Option.some.injEq]
  constructor
  · rintro ⟨controls, hcontrols, shortcuts, hshortcuts, rfl⟩
    exact ⟨controls, shortcuts, hcontrols, hshortcuts, rfl⟩
  · rintro ⟨controls, shortcuts, hcontrols, hshortcuts, rfl⟩
    exact ⟨controls, hcontrols, shortcuts, hshortcuts, rfl⟩

theorem SameDefs.keys (h : prior.SameDefs config) (hdistinct : config.Distinct) :
    (prior.frontend.map (·.key)).Nodup ∧ (prior.core.map (·.key)).Nodup := by
  have hoptions := hdistinct.options
  rw [List.map_append, List.nodup_append] at hoptions
  have hfrontend := congrArg (List.map OptionDef.key) h.frontend
  have hcore := congrArg (List.map OptionDef.key) h.core
  simp only [List.map_map] at hfrontend hcore
  exact ⟨hfrontend ▸ hoptions.1, hcore ▸ hoptions.2.1⟩

/-- Reading options keeps what they are, and leaves the controls alone. -/
theorem SameDefs.readOptionsString (h : prior.SameDefs config) (hdistinct : config.Distinct)
    (hread : prior.readOptionsString source = some config') :
    config'.SameDefs config ∧ config'.controls = prior.controls ∧
      config'.shortcuts = prior.shortcuts := by
  cases source with
  | none =>
      cases hread
      exact ⟨h, rfl, rfl⟩
  | some cfg =>
      obtain ⟨hfrontend, hcore⟩ := h.keys hdistinct
      obtain ⟨frontend, gamepadType, core, hreadFrontend, -, hreadCore, rfl⟩ :=
        readOptionsString_eq_some.mp hread
      rw [OptionList.read_eq_mapM hfrontend] at hreadFrontend
      rw [OptionList.read_eq_mapM hcore] at hreadCore
      refine ⟨⟨?_, ?_, h.controls, h.shortcuts, h.gamepads⟩, rfl, rfl⟩
      · exact (mapM_map (fun _ _ => ConfigOption.read_def) hreadFrontend).trans h.frontend
      · exact (mapM_map (fun _ _ => ConfigOption.read_def) hreadCore).trans h.core

/-- Reading controls keeps their names. -/
theorem SameDefs.readControlsString (h : prior.SameDefs config)
    (hread : prior.readControlsString source = some config') : config'.SameDefs config := by
  cases source with
  | none =>
      cases hread
      exact h
  | some cfg =>
      obtain ⟨controls, shortcuts, hcontrols, hshortcuts, rfl⟩ :=
        readControlsString_eq_some.mp hread
      refine ⟨h.frontend, h.core, ?_, ?_, h.gamepads⟩
      · exact (mapM_map (fun _ _ => ButtonMapping.read_name) hcontrols).trans h.controls
      · exact (mapM_map (fun _ _ => ButtonMapping.read_name) hshortcuts).trans h.shortcuts

/-- Reading controls looks at nothing else. -/
theorem readControlsString_congr (hcontrols : b.controls = a.controls)
    (hshortcuts : b.shortcuts = a.shortcuts) (h : a.readControlsString source = some a') :
    ∃ b', b.readControlsString source = some b' ∧ b'.controls = a'.controls ∧
      b'.shortcuts = a'.shortcuts ∧ b'.frontend = b.frontend ∧ b'.core = b.core := by
  cases source with
  | none =>
      cases h
      exact ⟨b, rfl, hcontrols, hshortcuts, rfl, rfl⟩
  | some cfg =>
      obtain ⟨controls, shortcuts, hreadControls, hreadShortcuts, rfl⟩ :=
        readControlsString_eq_some.mp h
      refine ⟨{ b with controls, shortcuts }, readControlsString_eq_some.mpr
        ⟨controls, shortcuts, ?_, ?_, rfl⟩, rfl, rfl, rfl, rfl⟩
      · rw [hcontrols, hreadControls]
      · rw [hshortcuts, hreadShortcuts]

theorem readControlsString_frame (h : a.readControlsString source = some a') :
    a'.frontend = a.frontend ∧ a'.core = a.core := by
  obtain ⟨b', hb, -, -, hfrontend, hcore⟩ := readControlsString_congr rfl rfl h
  rw [h, Option.some.injEq] at hb
  subst hb
  exact ⟨hfrontend, hcore⟩

theorem readGamepad_restores
    (hgamepads : prior.hasCustomControllers = config.hasCustomControllers) :
    (∃ type, prior.readGamepad config.write = some type) ↔
      (config.hasCustomControllers → config.gamepadEntry.Readable config.write) := by
  unfold readGamepad
  rw [hgamepads]
  split_ifs with hcustom
  · have hown (found : Found Char) := @text_ne_none _ _
      (mem_entries.mpr (.inr (.inr (.inl ⟨hcustom, rfl⟩))))
    simp only [Setting.Readable, gamepadEntry, true_and, hcustom, true_imp_iff] at hown ⊢
    cases hget : getValue config.write gamepadKey with
    | none => simp
    | some found =>
        obtain ⟨value, htext⟩ := Option.ne_none_iff_exists'.mp (hown found hget)
        by_cases hrange : 0 ≤ scanInt value ∧ scanInt value < gamepadCount
        · simp [htext, hrange]
        · simp [htext, hrange]
  · simp [hcustom]

/-- What reading the written options does. -/
theorem readOptionsString_restores (hsame : prior.SameDefs config) (hdistinct : config.Distinct) :
    (∃ config', prior.readOptionsString (some config.write) = some config' ∧
        config'.frontend.map (·.value) = config.frontend.map (·.value) ∧
        config'.core.map (·.value) = config.core.map (·.value)) ↔
      (∀ option ∈ config.frontend, option.entry.Readable config.write) ∧
        (∀ option ∈ config.core, option.entry.Readable config.write) ∧
        (config.hasCustomControllers → config.gamepadEntry.Readable config.write) := by
  obtain ⟨hfrontendKeys, hcoreKeys⟩ := hsame.keys hdistinct
  have hfrontend := mapM_restores hsame.frontend fun p c hc hdef =>
    ConfigOption.read_restores hdef fun _ =>
      text_ne_none (mem_entries.mpr (.inl ⟨c, hc, rfl⟩))
  have hcore := mapM_restores hsame.core fun p c hc hdef =>
    ConfigOption.read_restores hdef fun _ =>
      text_ne_none (mem_entries.mpr (.inr (.inl ⟨c, hc, rfl⟩)))
  rw [← hfrontend, ← hcore, ← readGamepad_restores hsame.gamepads]
  simp only [readOptionsString_eq_some, OptionList.read_eq_mapM hfrontendKeys,
    OptionList.read_eq_mapM hcoreKeys]
  constructor
  · rintro ⟨_, ⟨frontend, type, core, hreadFrontend, htype, hreadCore, rfl⟩, hvalues, hcoreValues⟩
    exact ⟨⟨frontend, hreadFrontend, hvalues⟩, ⟨core, hreadCore, hcoreValues⟩, type, htype⟩
  · rintro ⟨⟨frontend, hreadFrontend, hvalues⟩, ⟨core, hreadCore, hcoreValues⟩, type, htype⟩
    exact ⟨_, ⟨frontend, type, core, hreadFrontend, htype, hreadCore, rfl⟩, hvalues, hcoreValues⟩

/-- What reading the written bindings does. -/
theorem readControlsString_restores (hsame : prior.SameDefs config) :
    (∃ config', prior.readControlsString (some config.write) = some config' ∧
        config'.controls.map ButtonMapping.binding = config.controls.map ButtonMapping.binding ∧
        config'.shortcuts.map ButtonMapping.binding =
          config.shortcuts.map ButtonMapping.binding) ↔
      (∀ mapping ∈ config.controls, (mapping.entry controlText).Readable config.write) ∧
        ∀ mapping ∈ config.shortcuts, (mapping.entry id).Readable config.write := by
  have hcontrols := mapM_restores hsame.controls
    fun p c hc hname => @ButtonMapping.read_restores p c _ controlText
      hname fun _ => text_ne_none
        (mem_entries.mpr (.inr (.inr (.inr (.inl ⟨c, hc, rfl⟩)))))
  have hshortcuts := mapM_restores hsame.shortcuts
    fun p c hc hname => @ButtonMapping.read_restores p c _ id
      hname fun _ => text_ne_none
        (mem_entries.mpr (.inr (.inr (.inr (.inr ⟨c, hc, rfl⟩)))))
  rw [← hcontrols, ← hshortcuts]
  simp only [readControlsString_eq_some]
  constructor
  · rintro ⟨_, ⟨controls, shortcuts, hreadControls, hreadShortcuts, rfl⟩, hbound, hshort⟩
    exact ⟨⟨controls, hreadControls, hbound⟩, shortcuts, hreadShortcuts, hshort⟩
  · rintro ⟨⟨controls, hreadControls, hbound⟩, shortcuts, hreadShortcuts, hshort⟩
    exact ⟨_, ⟨controls, shortcuts, hreadControls, hreadShortcuts, rfl⟩, hbound, hshort⟩

/-- A start after the write gets to the settings that were written. -/
def Restored (config initial : Config) (sources : Sources) : Prop :=
  (initial.start { sources with user := some config.write }).map settings = some config.settings

instance (config initial : Config) (sources : Sources) :
    Decidable (config.Restored initial sources) :=
  inferInstanceAs (Decidable (_ = _))

/-- The shipped files alone are read to their end. -/
def Shipped (initial : Config) (sources : Sources) : Prop :=
  (initial.start { sources with user := none }).isSome

theorem clear_iff_readable : config.Clear ↔
    ((∀ option ∈ config.frontend, option.entry.Readable config.write) ∧
      (∀ option ∈ config.core, option.entry.Readable config.write) ∧
      (config.hasCustomControllers → config.gamepadEntry.Readable config.write)) ∧
    (∀ mapping ∈ config.controls, (mapping.entry controlText).Readable config.write) ∧
      ∀ mapping ∈ config.shortcuts, (mapping.entry id).Readable config.write := by
  rw [clear_iff]
  simp only [mem_entries, or_imp, forall_and, forall_exists_index, and_imp,
    forall_apply_eq_imp_iff₂, and_assoc]
  refine and_congr_right fun _ => and_congr_right fun _ => and_congr_left fun _ => ?_
  exact ⟨fun h hcustom => h _ hcustom rfl, fun h _ hcustom heq => heq ▸ h hcustom⟩

/-- A written configuration is restored exactly when every line is found again. -/
theorem restored_iff {initial : Config} {sources : Sources} (hsame : initial.SameDefs config)
    (hdistinct : config.Distinct) (hshipped : initial.Shipped sources) :
    config.Restored initial sources ↔ config.Clear := by
  rw [clear_iff_readable]
  obtain ⟨shipped, hstart⟩ := Option.isSome_iff_exists.mp hshipped
  simp only [start, readOptions, readControls, Option.bind_eq_bind, Option.bind_eq_some_iff]
    at hstart
  obtain ⟨options, ⟨system, hsystem, _, hdefault, hnone⟩, controls, hcontrols, -⟩ := hstart
  cases hnone
  -- the files before the user's own leave the definitions as they are
  have hsystemDefs := (hsame.readOptionsString hdistinct hsystem).1
  have hoptionsDefs := (hsystemDefs.readOptionsString hdistinct hdefault).1
  have hcontrolsDefs := hoptionsDefs.readControlsString hcontrols
  rw [← readOptionsString_restores hoptionsDefs hdistinct,
    ← readControlsString_restores hcontrolsDefs]
  simp only [Restored, start, readOptions, readControls, Option.bind_eq_bind,
    Option.map_eq_some_iff, Option.bind_eq_some_iff, settings, Settings.mk.injEq]
  constructor
  · rintro ⟨config', ⟨read, ⟨system', hsystem', options', hdefault', hread⟩, controls', hcontrols',
      hbound⟩, hvalues, hcoreValues, hbindings, hshortcuts⟩
    rw [hsystem, Option.some.injEq] at hsystem'
    subst hsystem'
    rw [hdefault, Option.some.injEq] at hdefault'
    subst hdefault'
    -- the defaults are read in between, and only in the parts that are not restored
    obtain ⟨-, hkeepControls, hkeepShortcuts⟩ := hoptionsDefs.readOptionsString hdistinct hread
    obtain ⟨_, hagain, hsameControls, hsameShortcuts, hfrontend, hcore⟩ :=
      readControlsString_congr hkeepControls hkeepShortcuts hcontrols
    rw [hcontrols', Option.some.injEq] at hagain
    subst hagain
    obtain ⟨bound, hbound', hboundControls, hboundShortcuts, -⟩ :=
      readControlsString_congr hsameControls.symm hsameShortcuts.symm hbound
    obtain ⟨hlast, hlastCore⟩ := readControlsString_frame hbound
    refine ⟨⟨read, hread, ?_, ?_⟩, bound, hbound', ?_, ?_⟩
    · rw [← hfrontend, ← hlast, hvalues]
    · rw [← hcore, ← hlastCore, hcoreValues]
    · rw [hboundControls, hbindings]
    · rw [hboundShortcuts, hshortcuts]
  · rintro ⟨⟨read, hread, hvalues, hcoreValues⟩, bound, hbound, hbindings, hshortcuts⟩
    obtain ⟨-, hkeepControls, hkeepShortcuts⟩ := hoptionsDefs.readOptionsString hdistinct hread
    obtain ⟨controls', hcontrols', hsameControls, hsameShortcuts, hfrontend, hcore⟩ :=
      readControlsString_congr hkeepControls hkeepShortcuts hcontrols
    obtain ⟨config', hbound', hboundControls, hboundShortcuts, hlast, hlastCore⟩ :=
      readControlsString_congr hsameControls hsameShortcuts hbound
    refine ⟨config', ⟨read, ⟨system, hsystem, options, hdefault, hread⟩, controls', hcontrols',
      hbound'⟩, ?_, ?_, ?_, ?_⟩
    · rw [hlast, hfrontend, hvalues]
    · rw [hlastCore, hcore, hcoreValues]
    · rw [hboundControls, hbindings]
    · rw [hboundShortcuts, hshortcuts]

/-- An option with the values `x` and `y`. -/
def xyOption (key : CString) (value : Fin 2) (hkey : '\n' ∉ key) : ConfigOption where
  key := key
  values := ["x".toList, "y".toList]
  key_line := hkey
  values_line := by decide
  values_fit := by decide
  values_nodup := by decide
  value := value
  lock := false
  value_lt := value.isLt

/-- Two options of a core, a control and a shortcut with MENU. -/
def twoOptions (first second : ConfigOption) : Config where
  frontend := []
  core := [first, second]
  controls := [⟨"Up".toList, 0, false, by decide, by decide, by decide, by decide⟩]
  shortcuts := [⟨"Save State".toList, 10, true, by decide, by decide, by decide, by decide⟩]
  hasCustomControllers := true
  gamepadType := ⟨1, by decide⟩

theorem restored_two_options :
    (twoOptions (xyOption "b".toList 1 (by decide)) (xyOption "ab".toList 0 (by decide))).Clear :=
  (@restored_iff _ _ ⟨none, none, none⟩ ⟨rfl, rfl, rfl, rfl, rfl⟩
    ⟨by decide, by decide, by decide⟩ rfl).mp (by decide +kernel)

/-- A key that ends with another one is found first, and its value is taken. -/
theorem misread_suffix :
    let config :=
      twoOptions (xyOption "ab".toList 0 (by decide)) (xyOption "b".toList 1 (by decide))
    config.Distinct ∧ config.Shipped ⟨none, none, none⟩ ∧
      ¬ config.Restored config ⟨none, none, none⟩ :=
  ⟨⟨by decide, by decide, by decide⟩, rfl, by decide +kernel⟩

end Config

end DarkUI.Minarch
