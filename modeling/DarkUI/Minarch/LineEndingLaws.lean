import DarkUI.Minarch.BindingEndings
import DarkUI.Minarch.ValueEndings

/-! # Configuration files with other line endings

Whether a session is configured in the same way by files with carriage returns before their
newlines. Most values are not, since they are looked up with the carriage return; what is the
same anyway are numbers, bindings that name the button of the core, and values that end their
file or fill their array.
-/

namespace DarkUI.Minarch

open Text KeyedLines

variable {cfg : CString} {texts : List CString} {control : Mapping}
  {text : CString → CString}

/-! ## Controls and shortcuts -/

namespace Mapping

/-- What the texts make of a binding, the last one that has its key. -/
def boundBy (texts : List CString) (text : CString → CString) (mapping : Mapping) : Mapping :=
  (given texts mapping.key).elim mapping fun rest =>
    mapping.bind (ButtonMapping.decode (text (cutValue rest)))

theorem read_eq (cfg : CString) (text : CString → CString) (hfits : control.key.length < 256) :
    control.read cfg text = some (control.boundBy [cfg] text) := by
  have hdefined : (Config.getValue cfg control.key).isSome :=
    getValue_isSome_iff.mpr fun hempty => nomatch hempty
  obtain ⟨found, hfound⟩ := Option.isSome_iff_exists.mp hdefined
  rw [read, if_neg (not_le.mpr hfits), hfound, Option.map_some, getValue_text hfound, boundBy,
    given_singleton]
  cases valueIn control.key equals 0 cfg <;> rfl

theorem key_boundBy (texts : List CString) (text : CString → CString) (control : Mapping) :
    (control.boundBy texts text).key = control.key := by
  unfold boundBy
  cases given texts control.key <;> rfl

theorem boundBy_cons (cfg : CString) (texts : List CString) (text : CString → CString)
    (control : Mapping) :
    (control.boundBy [cfg] text).boundBy texts text = control.boundBy (cfg :: texts) text := by
  rw [boundBy, key_boundBy, boundBy, boundBy, given_singleton, given_cons]
  cases given texts control.key with
  | none =>
      rw [Option.none_or]
      rfl
  | some rest => cases valueIn control.key equals 0 cfg <;> rfl

/-- A binding that its texts give a value means the same with a carriage return behind that. A
name that holds a line ending itself is not found in both kinds of texts, and in the other the
binding is left as it was. -/
def SameBinding (texts : List CString) (text : CString → CString) (control : Mapping) : Prop :=
  if InLine control.name then
    ∀ rest ∈ given texts control.key, KeepsReturn rest →
      ButtonMapping.decode (text (cutValue rest ++ ['\r'])) =
        ButtonMapping.decode (text (cutValue rest))
  else
    ∀ texts' ∈ [texts, texts.map crlf], ∀ rest ∈ given texts' control.key,
      ButtonMapping.decode (text (cutValue rest)) = control.binding

theorem bind_inj {mapping : Mapping} {b b' : Int × Bool} :
    mapping.bind b = mapping.bind b' ↔ b = b' := by
  rw [bind, bind, Mapping.mk.injEq, Prod.ext_iff]
  simp

theorem bind_eq_self {mapping : Mapping} {b : Int × Bool} :
    mapping.bind b = mapping ↔ b = mapping.binding :=
  (bind_inj : mapping.bind b = mapping.bind mapping.binding ↔ _)

/-- A name with a line ending in it is in one kind of texts only. -/
theorem given_eq_none (htexts : ∀ cfg ∈ texts, '\r' ∉ cfg) (h : ¬ InLine control.name) :
    given texts control.key = none ∨ given (texts.map crlf) control.key = none := by
  have hmem {c : Char} (hc : c ∉ "bind ".toList) : c ∈ control.key ↔ c ∈ control.name := by
    unfold key
    rw [List.mem_append]
    exact or_iff_right hc
  by_contra hboth
  rw [not_or, ← ne_eq, ← ne_eq, Option.ne_none_iff_exists', Option.ne_none_iff_exists'] at hboth
  obtain ⟨⟨rest, hlf⟩, rest', hcrlf⟩ := hboth
  obtain ⟨cfg, hcfg, hvalue⟩ := List.exists_of_findSome?_eq_some hlf
  obtain ⟨cfg', hcfg', hvalue'⟩ := List.exists_of_findSome?_eq_some hcrlf
  have hreturn : '\r' ∉ control.key := fun hreturn =>
    htexts cfg (List.mem_reverse.mp hcfg) ((infix_of_valueIn hvalue).subset hreturn)
  obtain ⟨source, -, rfl⟩ := List.mem_map.mp (List.mem_reverse.mp hcfg')
  have hnewline : '\n' ∉ control.key := by
    intro hnewline
    exact hreturn (return_mem_crlf (infix_of_valueIn hvalue')
      ((List.mem_cons.mp hnewline).resolve_left (by decide)))
  exact h ⟨mt (hmem (by decide)).mpr hnewline, mt (hmem (by decide)).mpr hreturn⟩

theorem boundBy_crlf (htexts : ∀ cfg ∈ texts, '\r' ∉ cfg) (text : CString → CString)
    (control : Mapping) :
    control.boundBy (texts.map crlf) text = control.boundBy texts text ↔
      control.SameBinding texts text := by
  unfold SameBinding
  by_cases hname : InLine control.name
  · have hbind : InLine "bind ".toList := by decide
    have hkey : InLine control.key :=
      ⟨fun h => (List.mem_append.mp h).elim hbind.1 hname.1,
        fun h => (List.mem_append.mp h).elim hbind.2 hname.2⟩
    rw [if_pos hname, boundBy, boundBy, given_crlf hkey fun hempty => nomatch hempty]
    cases hgiven : given texts control.key with
    | none => simp
    | some rest =>
        have hcut := cutValue_crlf (notMem_given htexts hgiven)
        simp only [Option.map_some, Option.elim_some, Option.mem_def, Option.some.injEq,
          forall_eq', hcut, bind_inj]
        by_cases hkeeps : KeepsReturn rest
        · simp only [hkeeps, if_true, forall_const]
        · simp only [hkeeps, if_false, false_implies]
  · rw [if_neg hname]
    simp only [List.mem_cons, List.not_mem_nil, or_false, forall_eq_or_imp, forall_eq]
    -- One kind of texts leaves the binding alone, so the other one has to as well.
    rcases given_eq_none htexts hname with hnone | hnone
    · rw [boundBy, boundBy, hnone]
      cases given (texts.map crlf) control.key with
      | none => simp
      | some rest => simp [bind_eq_self]
    · rw [boundBy, boundBy, hnone]
      cases given texts control.key with
      | none => simp
      | some rest =>
          rw [eq_comm]
          simp [bind_eq_self]

end Mapping

namespace Options

/-- The files with a carriage return before each newline. -/
def withReturns (sources : Config.Sources) : Config.Sources :=
  ⟨sources.system.map crlf, sources.default.map crlf, sources.user.map crlf⟩

/-- Files whose lines end in newlines alone. -/
structure LfSources extends Config.Sources where
  lf : ∀ cfg ∈ textsOf toSources, '\r' ∉ cfg

/-- The texts that the controls and the shortcuts are read from, in order. -/
def controlTexts (sources : Config.Sources) : List CString :=
  sources.default.toList ++ sources.user.toList

theorem textsOf_withReturns (sources : Config.Sources) :
    textsOf (withReturns sources) = (textsOf sources).map crlf := by
  obtain ⟨system, default_, user⟩ := sources
  cases system <;> cases default_ <;> cases user <;> rfl

theorem controlTexts_withReturns (sources : Config.Sources) :
    controlTexts (withReturns sources) = (controlTexts sources).map crlf := by
  obtain ⟨system, default_, user⟩ := sources
  cases default_ <;> cases user <;> rfl

theorem LfSources.controlTexts_lf (sources : LfSources) :
    ∀ cfg ∈ controlTexts sources.toSources, '\r' ∉ cfg := by
  intro cfg hcfg
  apply sources.lf
  unfold textsOf
  unfold controlTexts at hcfg
  rw [List.append_assoc]
  exact List.mem_append_right _ hcfg

namespace Session

variable {s t : Session} {overscan : Bool} {sources : Config.Sources}

/-- The names of the controls and of the shortcuts fit where their keys are put together. -/
def NamesFit (s : Session) : Prop := ∀ mapping ∈ s.controls ++ s.shortcuts, mapping.key.length < 256

/-- The bindings of a session after it has read the texts. -/
def boundBy (texts : List CString) (s : Session) : Session :=
  { s with
    controls := s.controls.map (Mapping.boundBy texts controlText)
    shortcuts := s.shortcuts.map (Mapping.boundBy texts id) }

theorem mapM_read {list : List Mapping} (h : ∀ mapping ∈ list, mapping.key.length < 256)
    (cfg : CString) (text : CString → CString) :
    list.mapM (Mapping.read cfg text) = some (list.map (Mapping.boundBy [cfg] text)) := by
  induction list with
  | nil => rfl
  | cons mapping list ih =>
      rw [List.forall_mem_cons] at h
      rw [List.mapM_cons, Mapping.read_eq cfg text h.1, ih h.2]
      rfl

theorem mapM_read_none {list : List Mapping} {mapping : Mapping} (hmem : mapping ∈ list)
    (h : 256 ≤ mapping.key.length) (cfg : CString) (text : CString → CString) :
    list.mapM (Mapping.read cfg text) = none := by
  induction list with
  | nil => cases hmem
  | cons first list ih =>
      rw [List.mapM_cons]
      rcases List.mem_cons.mp hmem with rfl | hlater
      · rw [Mapping.read, if_pos h]
        rfl
      · rw [ih hlater]
        cases first.read cfg text <;> rfl

theorem readControls_eq_foldlM (sources : Config.Sources) (s : Session) :
    s.readControls sources = (controlTexts sources).foldlM
      (fun s cfg => s.readControlsString (some cfg)) s := by
  obtain ⟨system, default_, user⟩ := sources
  cases default_ <;> cases user <;> simp [readControls, controlTexts, readControlsString]

theorem boundBy_nil (s : Session) : s.boundBy [] = s := by
  have hnil (text : CString → CString) : Mapping.boundBy [] text = id := rfl
  rw [boundBy, hnil, hnil, List.map_id, List.map_id]

theorem boundBy_cons (cfg : CString) (texts : List CString) (s : Session) :
    (s.boundBy [cfg]).boundBy texts = s.boundBy (cfg :: texts) := by
  have hcons (text : CString → CString) :
      Mapping.boundBy texts text ∘ Mapping.boundBy [cfg] text =
        Mapping.boundBy (cfg :: texts) text :=
    funext fun mapping => mapping.boundBy_cons cfg texts text
  unfold boundBy
  rw [List.map_map, List.map_map, hcons, hcons]

theorem NamesFit.boundBy (h : s.NamesFit) (texts : List CString) : (s.boundBy texts).NamesFit := by
  intro mapping hmem
  rcases List.mem_append.mp hmem with hmem | hmem
  · obtain ⟨old, hold, rfl⟩ := List.mem_map.mp hmem
    rw [Mapping.key_boundBy]
    exact h old (List.mem_append_left _ hold)
  · obtain ⟨old, hold, rfl⟩ := List.mem_map.mp hmem
    rw [Mapping.key_boundBy]
    exact h old (List.mem_append_right _ hold)

/-- Names that fit are read, text by text. -/
theorem readControls_fit (h : s.NamesFit) (sources : Config.Sources) :
    s.readControls sources = some (s.boundBy (controlTexts sources)) := by
  rw [readControls_eq_foldlM]
  generalize controlTexts sources = texts
  induction texts generalizing s with
  | nil =>
      rw [boundBy_nil]
      rfl
  | cons cfg texts ih =>
      have hcontrols := mapM_read (fun mapping hm => h mapping (List.mem_append_left _ hm)) cfg
        controlText
      have hshortcuts := mapM_read (fun mapping hm => h mapping (List.mem_append_right _ hm)) cfg id
      have hone : s.readControlsString (some cfg) = some (s.boundBy [cfg]) := by
        unfold readControlsString
        dsimp only
        rw [hcontrols, hshortcuts]
        rfl
      rw [List.foldlM_cons, hone]
      exact (ih (h.boundBy [cfg])).trans (congrArg some (boundBy_cons cfg texts s))

/-- A name that does not fit is not read from any text. -/
theorem readControls_not_fit (h : ¬ s.NamesFit) (htexts : controlTexts sources ≠ []) :
    s.readControls sources = none := by
  simp only [NamesFit, not_forall, not_lt] at h
  obtain ⟨mapping, hmem, hlong⟩ := h
  rw [readControls_eq_foldlM]
  cases hcons : controlTexts sources with
  | nil => exact absurd hcons htexts
  | cons cfg texts =>
      have hnone : s.readControlsString (some cfg) = none := by
        unfold readControlsString
        dsimp only
        rcases List.mem_append.mp hmem with hcontrol | hshortcut
        · rw [mapM_read_none hcontrol hlong]
          rfl
        · rw [mapM_read_none hshortcut hlong]
          cases s.controls.mapM (Mapping.read cfg controlText) <;> rfl
      rw [List.foldlM_cons, hnone]
      rfl

/-- The controls and the shortcuts. -/
def buttonParts (s : Session) : List Mapping × List Mapping := (s.controls, s.shortcuts)

/-- Where the names fit, every binding means the same. -/
def ControlsIndifferent (texts : List CString) (s : Session) : Prop :=
  s.NamesFit →
    (∀ mapping ∈ s.controls, mapping.SameBinding texts controlText) ∧
      ∀ mapping ∈ s.shortcuts, mapping.SameBinding texts id

theorem readControls_crlf (sources : LfSources) (s : Session) :
    (s.readControls (withReturns sources.toSources)).map buttonParts =
        (s.readControls sources.toSources).map buttonParts ↔
      s.ControlsIndifferent (controlTexts sources.toSources) := by
  have htexts := sources.controlTexts_lf
  by_cases hfit : s.NamesFit
  · have hlist (list : List Mapping) (text : CString → CString) :
        list.map (Mapping.boundBy ((controlTexts sources.toSources).map crlf) text) =
            list.map (Mapping.boundBy (controlTexts sources.toSources) text) ↔
          ∀ mapping ∈ list, mapping.SameBinding (controlTexts sources.toSources) text := by
      rw [List.map_inj_left]
      exact forall₂_congr fun mapping _ => mapping.boundBy_crlf htexts text
    rw [readControls_fit hfit, readControls_fit hfit, Option.map_some, Option.map_some,
      Option.some.injEq, controlTexts_withReturns, buttonParts, buttonParts, Prod.mk.injEq]
    refine (and_congr (hlist _ _) (hlist _ _)).trans ?_
    exact ⟨fun h _ => h, fun h => h hfit⟩
  · refine iff_of_true ?_ fun h => absurd h hfit
    by_cases hnone : controlTexts sources.toSources = []
    · have hnone' : controlTexts (withReturns sources.toSources) = [] := by
        rw [controlTexts_withReturns, hnone, List.map_nil]
      rw [readControls_eq_foldlM, readControls_eq_foldlM, hnone, hnone']
    · have hsome : controlTexts (withReturns sources.toSources) ≠ [] := by
        rw [controlTexts_withReturns]
        exact fun h => hnone (List.map_eq_nil_iff.mp h)
      rw [readControls_not_fit hfit hnone, readControls_not_fit hfit hsome]

/-! ## Options and gamepad -/

/-- The type of the gamepad is read the same from both texts. -/
theorem readType_crlf (hcfg : '\r' ∉ cfg) (custom : Bool) (type : Fin gamepadCount) :
    readType custom (crlf cfg) type = readType custom cfg type := by
  have hkey : InLine Config.gamepadKey := by decide
  unfold readType
  split
  next =>
    rw [getValue_crlf hkey]
    cases hfound : Config.getValue cfg Config.gamepadKey with
    | none => rfl
    | some found =>
        rw [Option.map_some, Option.bind_some, Option.bind_some, getValue_text hfound]
        cases hvalue : valueIn Config.gamepadKey equals 0 cfg with
        | none => rfl
        | some rest =>
            have hscan : scanInt (cutValue (crlf rest)) = scanInt (cutValue rest) := by
              rw [cutValue_crlf fun hmem => hcfg ((suffix_of_valueIn hvalue).subset hmem)]
              split
              next => exact scanInt_return _
              next => rfl
            simp only [Option.map_some, hscan]
  next => rfl

/-- Where there are two gamepads, every number given for them is that of one. -/
def GamepadsKnown (custom : Bool) (texts : List CString) : Prop :=
  custom = true → ∀ cfg ∈ texts, ∀ rest ∈ valueIn Config.gamepadKey equals 0 cfg,
    0 ≤ scanInt (cutValue rest) ∧ scanInt (cutValue rest) < gamepadCount

theorem readType_isSome (custom : Bool) (cfg : CString) (type : Fin gamepadCount) :
    (readType custom cfg type).isSome ↔ GamepadsKnown custom [cfg] := by
  have hne : ¬ (Config.gamepadKey = [] ∧ ¬ equals <+: cfg) := fun h => nomatch h.1
  unfold readType GamepadsKnown
  cases custom with
  | false => simp
  | true =>
      rw [if_pos rfl, Config.getValue, if_neg hne, Option.bind_some, search_text]
      cases hvalue : valueIn Config.gamepadKey equals 0 cfg with
      | none => simp [hvalue]
      | some rest =>
          simp only [Option.map_some, List.mem_singleton, forall_eq, forall_const, hvalue,
            Option.mem_def, Option.some.injEq, forall_eq']
          split
          next h => exact iff_of_true rfl h
          next h => exact iff_of_false Bool.false_ne_true h

theorem readTypes_isSome (custom : Bool) (texts : List CString) (type : Fin gamepadCount) :
    (texts.foldlM (fun type cfg => readType custom cfg type) type).isSome ↔
      GamepadsKnown custom texts := by
  induction texts generalizing type with
  | nil => simp [GamepadsKnown]
  | cons cfg texts ih =>
      have hone := readType_isSome custom cfg type
      have hcons : GamepadsKnown custom (cfg :: texts) ↔
          GamepadsKnown custom [cfg] ∧ GamepadsKnown custom texts := by
        unfold GamepadsKnown
        simp only [List.forall_mem_cons, List.not_mem_nil, false_implies, implies_true, and_true]
        exact forall_and
      rw [List.foldlM_cons, hcons, ← hone]
      cases readType custom cfg type with
      | none => simp
      | some next => simpa using ih next

/-- What is read of the options. -/
def optionParts (s : Session) : List Item × List Item × Fin gamepadCount :=
  (s.frontend, s.core, s.gamepadType)

theorem readOptions_parts (hs : s.Shaped overscan) (sources : Config.Sources) :
    (s.readOptions sources).map optionParts =
      (layers OptionList.read sources s.frontend).bind fun frontend =>
        (layers OptionList.read sources s.core).bind fun core =>
          (layers (readType s.hasCustomControllers) sources s.gamepadType).map fun type =>
            (frontend, core, type) := by
  cases hread : s.readOptions sources with
  | some t =>
      obtain ⟨⟨hfrontend, hcore, htype, -⟩, -⟩ := reads_of_readOptions hs hread
      rw [hfrontend, hcore, htype]
      rfl
  | none =>
      rw [Option.map_none, eq_comm, Option.eq_none_iff_forall_ne_some]
      intro parts hparts
      obtain ⟨frontend, hfrontend, hrest⟩ := Option.bind_eq_some_iff.mp hparts
      obtain ⟨core, hcore, hrest⟩ := Option.bind_eq_some_iff.mp hrest
      obtain ⟨type, htype, -⟩ := Option.map_eq_some_iff.mp hrest
      obtain ⟨t, ht, -⟩ := exists_readOptions hs hfrontend hcore htype
      rw [hread] at ht
      cases ht

theorem readTypes_crlf (htexts : ∀ cfg ∈ texts, '\r' ∉ cfg) (custom : Bool)
    (type : Fin gamepadCount) :
    (texts.map crlf).foldlM (fun type cfg => readType custom cfg type) type =
      texts.foldlM (fun type cfg => readType custom cfg type) type := by
  induction texts generalizing type with
  | nil => rfl
  | cons cfg texts ih =>
      rw [List.forall_mem_cons] at htexts
      rw [List.map_cons, List.foldlM_cons, List.foldlM_cons, readType_crlf htexts.1]
      exact congrArg _ (funext fun next => ih htexts.2 next)

theorem frontend_keys (hs : s.Shaped overscan) :
    ∀ item ∈ s.frontend, InLine item.key ∧ item.key ≠ [] := by
  intro item hitem
  have hspec := List.mem_map_of_mem (f := fun item : Item => item.toSpec) hitem
  have hkeys : ∀ option ∈ FrontendOption.all, InLine option.key ∧ option.key ≠ [] := by decide
  rw [hs] at hspec
  obtain ⟨option, hoption, heq⟩ := List.mem_map.mp hspec
  have hkey : option.key = item.key := congrArg Spec.key heq
  rw [← hkey]
  exact hkeys option hoption

/-- The gamepads that the texts name are known, and an empty key is found at once. -/
structure OptionsReadable (texts : List CString) (s : Session) : Prop where
  gamepads : GamepadsKnown s.hasCustomControllers texts
  keys : ∀ cfg ∈ texts, ∀ item ∈ s.core, item.key = [] → equals <+: cfg

/-- Where the options can be read, each that is the first with its key has the same value. -/
def OptionsIndifferent (texts : List CString) (s : Session) : Prop :=
  s.OptionsReadable texts → ∀ list ∈ [s.frontend, s.core], ∀ i item, list[i]? = some item →
    OptionList.isFirst list i item = true → SameValue texts item

theorem searchable_iff {list : List Item} :
    OptionList.Searchable cfg list ↔ ∀ item ∈ list, item.key = [] → equals <+: cfg :=
  forall₂_congr fun _ _ => getValue_isSome_iff

theorem readOptions_crlf (hs : s.Shaped overscan) (hcore : ∀ item ∈ s.core, InLine item.key)
    (sources : LfSources) :
    (s.readOptions (withReturns sources.toSources)).map optionParts =
        (s.readOptions sources.toSources).map optionParts ↔
      s.OptionsIndifferent (textsOf sources.toSources) := by
  have htexts := sources.lf
  have hkeys := frontend_keys hs
  simp only [readOptions_parts hs, layers_eq_foldlM, textsOf_withReturns]
  rw [readTypes_crlf htexts]
  generalize textsOf sources.toSources = texts at htexts ⊢
  have htypes := readTypes_isSome s.hasCustomControllers texts s.gamepadType
  by_cases hreadable : s.OptionsReadable texts
  · have hfirst : ∀ cfg ∈ texts, OptionList.Searchable cfg s.frontend := fun cfg _ =>
      searchable_iff.mpr fun item hitem hempty => absurd hempty (hkeys item hitem).2
    have hsecond : ∀ cfg ∈ texts, OptionList.Searchable cfg s.core := fun cfg hcfg =>
      searchable_iff.mpr (hreadable.keys cfg hcfg)
    obtain ⟨type, htype⟩ := Option.isSome_iff_exists.mp (htypes.mpr hreadable.gamepads)
    have hline : ∀ item ∈ s.frontend, InLine item.key := fun item hitem => (hkeys item hitem).1
    have hfrontend := OptionList.readAll_crlf hline htexts hfirst
    have hothers := OptionList.readAll_crlf hcore htexts hsecond
    have hfirst' := (OptionList.searchable_crlf hline).mpr hfirst
    have hsecond' := (OptionList.searchable_crlf hcore).mpr hsecond
    rw [OptionList.readAll_eq hfirst', OptionList.readAll_eq hfirst, Option.some.injEq] at hfrontend
    rw [OptionList.readAll_eq hsecond', OptionList.readAll_eq hsecond, Option.some.injEq] at hothers
    rw [OptionList.readAll_eq hfirst', OptionList.readAll_eq hfirst,
      OptionList.readAll_eq hsecond', OptionList.readAll_eq hsecond, htype]
    simp only [Option.bind_some, Option.map_some, Option.some.injEq, Prod.mk.injEq, and_true,
      hfrontend, hothers]
    refine Iff.trans ?_ ⟨fun h _ => h, fun h => h hreadable⟩
    rw [List.forall_mem_cons, List.forall_mem_singleton]
  · refine iff_of_true ?_ fun h => absurd h hreadable
    by_cases hgamepads : GamepadsKnown s.hasCustomControllers texts
    · -- An empty key is looked for in vain forever.
      have hkey : ¬ ∀ cfg ∈ texts, OptionList.Searchable cfg s.core := fun h =>
        hreadable ⟨hgamepads, fun cfg hcfg => searchable_iff.mp (h cfg hcfg)⟩
      have hkey' := mt (OptionList.searchable_crlf hcore).mp hkey
      rw [OptionList.readAll_eq_none hkey, OptionList.readAll_eq_none hkey']
      simp only [Option.bind_none, Option.bind_fun_none]
    · have htype := Option.not_isSome_iff_eq_none.mp (mt htypes.mp hgamepads)
      rw [htype]
      simp only [Option.map_none, Option.bind_fun_none]

end Session

/-! ## The files -/

/-- The core keys its options by texts that stand in a line. -/
def Session.CoreKeysInLine (s : Session) : Prop := ∀ item ∈ s.core, InLine item.key

/-- The controls of the core and what a session reads of the options, the gamepad and the
bindings are the same from both kinds of files. -/
structure SameEitherWay (sources : LfSources) (s : Session) : Prop where
  init : configInit (withReturns sources.toSources).default = configInit sources.default
  options : (s.readOptions (withReturns sources.toSources)).map Session.optionParts =
    (s.readOptions sources.toSources).map Session.optionParts
  controls : (s.readControls (withReturns sources.toSources)).map Session.buttonParts =
    (s.readControls sources.toSources).map Session.buttonParts

/-- No value is told from the same with a carriage return behind it, where it is read at all
and keeps the carriage return. -/
structure Indifferent (sources : LfSources) (s : Session) : Prop where
  init : ∀ text ∈ sources.default, BindsFit text → ∀ found ∈ scan text, SameBind found
  options : s.OptionsIndifferent (textsOf sources.toSources)
  controls : s.ControlsIndifferent (controlTexts sources.toSources)

theorem sameEitherWay_iff {overscan : Bool} {s : Session} (hs : s.Shaped overscan)
    (hcore : s.CoreKeysInLine) (sources : LfSources) :
    SameEitherWay sources s ↔ Indifferent sources s := by
  have hinit : configInit (withReturns sources.toSources).default = configInit sources.default ↔
      ∀ text ∈ sources.default, BindsFit text → ∀ found ∈ scan text, SameBind found := by
    unfold withReturns
    cases sources.default with
    | none => simp
    | some text =>
        rw [Option.map_some, configInit_crlf]
        simp
  have hoptions := Session.readOptions_crlf hs hcore sources
  have hcontrols := Session.readControls_crlf sources s
  constructor
  · rintro ⟨h₁, h₂, h₃⟩
    exact ⟨hinit.mp h₁, hoptions.mp h₂, hcontrols.mp h₃⟩
  · rintro ⟨h₁, h₂, h₃⟩
    exact ⟨hinit.mpr h₁, hoptions.mpr h₂, hcontrols.mpr h₃⟩

/-- A session before its files are read, for a core with one option and one control. -/
def unread : Session :=
  { Session.initial Session.twoButtons ⟨none, none⟩ with
    core := [Definition.item ⟨"speed".toList, [("slow".toList, none), ("fast".toList, none)], none⟩]
    controls := [⟨"A Button".toList, 8, 4, false, 4⟩]
    shortcuts := [] }

/-- The text of a pak that binds one button and chooses a speed. -/
def pakText (button speed : String) : CString :=
  "bind A Button = ".toList ++
    (button.toList ++ '\n' :: ("speed = ".toList ++ speed.toList ++ ['\n']))

theorem pakText_lf : '\r' ∉ pakText "A:A" "slow" ∧ '\r' ∉ pakText "B" "fast" := by
  decide

/-- A button with the one of the core that it has anyway, and the first speed. -/
def sameLines : LfSources where
  system := none
  default := some (pakText "A:A" "slow")
  user := none
  lf := fun _ hcfg => List.mem_singleton.mp hcfg ▸ pakText_lf.1

theorem sameLines_indifferent : Indifferent sameLines unread := by
  have hcore : unread.CoreKeysInLine := by
    unfold Session.CoreKeysInLine
    decide
  have hnext : nextBind (pakText "A:A" "slow") =
      some ("A Button".toList, "A:A\nspeed = slow\n".toList) := by decide
  have hend : nextBind ("A:A\nspeed = slow\n".toList.drop
      (scannedLabel "A:A\nspeed = slow\n".toList).length) = none := by decide
  have hsame : SameBind ("A Button".toList, "A:A\nspeed = slow\n".toList) := by
    unfold SameBind
    decide
  have hinit : ∀ found ∈ scan (pakText "A:A" "slow"), SameBind found := by
    rw [scan_some hnext, scan_none hend, List.forall_mem_singleton]
    exact hsame
  refine (sameEitherWay_iff (show unread.Shaped false from rfl) hcore sameLines).mp ⟨?_, ?_, ?_⟩
  · exact (configInit_crlf (pakText "A:A" "slow")).mpr fun _ => hinit
  · decide +kernel
  · decide +kernel

/-- Another button and another speed. -/
def differentLines : LfSources where
  system := none
  default := some (pakText "B" "fast")
  user := none
  lf := fun _ hcfg => List.mem_singleton.mp hcfg ▸ pakText_lf.2

/-- With carriage returns the label and the value are unknown: the button is not bound, neither
by the default configuration nor by reading it, and the core runs at its first speed. -/
theorem differentLines_not_same :
    configInit (withReturns differentLines.toSources).default ≠ configInit differentLines.default ∧
    (unread.readOptions (withReturns differentLines.toSources)).map Session.optionParts ≠
      (unread.readOptions differentLines.toSources).map Session.optionParts ∧
    (unread.readControls (withReturns differentLines.toSources)).map Session.buttonParts ≠
      (unread.readControls differentLines.toSources).map Session.buttonParts ∧
    ¬ SameEitherWay differentLines unread := by
  have hnext : nextBind (pakText "B" "fast") =
      some ("A Button".toList, "B\nspeed = fast\n".toList) := by decide
  have hend : nextBind ("B\nspeed = fast\n".toList.drop
      (scannedLabel "B\nspeed = fast\n".toList).length) = none := by decide
  have hscan : scan (pakText "B" "fast") = [("A Button".toList, "B\nspeed = fast\n".toList)] := by
    rw [scan_some hnext, scan_none hend]
  have hfits : BindFits ("A Button".toList, "B\nspeed = fast\n".toList) := by
    unfold BindFits
    decide
  have hdiffers : ¬ SameBind ("A Button".toList, "B\nspeed = fast\n".toList) := by
    unfold SameBind
    decide
  have hinit : ¬ (BindsFit (pakText "B" "fast") → ∀ found ∈ scan (pakText "B" "fast"),
      SameBind found) := by
    rw [BindsFit, hscan, List.forall_mem_singleton, List.forall_mem_singleton]
    exact fun h => hdiffers (h ⟨by decide, hfits⟩)
  have hcontrols : (unread.readControls (withReturns differentLines.toSources)).map
      Session.buttonParts ≠
        (unread.readControls differentLines.toSources).map Session.buttonParts := by
    decide +kernel
  refine ⟨mt (configInit_crlf (pakText "B" "fast")).mp hinit, ?_, hcontrols,
    fun h => hcontrols h.controls⟩
  decide +kernel

end Options

end DarkUI.Minarch
