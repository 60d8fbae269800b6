import DarkUI.Minarch.OptionsLaws

/-! # Restoring the defaults is starting afresh

The configuration files are layers over the defaults: each sets what it names, whatever the
value was before. What a start and a restore make of them is therefore the same, although a
start reads them twice and a restore finds every setting changed.
-/

namespace DarkUI.Minarch.Options

open Text InPlace

/-! ## Layers -/

section Layers

variable {σ τ : Type}

/-- Reads a text into a state, if there is one. -/
def layer (read : CString → σ → Option σ) (source : Option CString) (s : σ) : Option σ :=
  match source with
  | none => some s
  | some cfg => read cfg s

/-- Reads the three texts in order. -/
def layers (read : CString → σ → Option σ) (sources : Config.Sources) (s : σ) : Option σ := do
  let s ← layer read sources.system s
  let s ← layer read sources.default s
  layer read sources.user s

variable {read : CString → σ → Option σ} {read' : CString → τ → Option τ}
  {sources : Config.Sources} {s s' : σ} {t : τ}

/-- Two ways of reading that keep a relation, text by text. -/
theorem layers_simulates {r : σ → τ → Prop} (h : layers read sources s = some s') (hst : r s t)
    (hread : ∀ {cfg s s' t}, r s t → read cfg s = some s' → ∃ t', read' cfg t = some t' ∧ r s' t') :
    ∃ t', layers read' sources t = some t' ∧ r s' t' := by
  have hlayer {source : Option CString} {s s' : σ} {t : τ} (hst : r s t)
      (h : layer read source s = some s') : ∃ t', layer read' source t = some t' ∧ r s' t' := by
    cases source with
    | none =>
        cases h
        exact ⟨t, rfl, hst⟩
    | some cfg => exact hread hst h
  obtain ⟨s₁, h₁, hrest⟩ := Option.bind_eq_some_iff.mp h
  obtain ⟨s₂, h₂, h₃⟩ := Option.bind_eq_some_iff.mp hrest
  obtain ⟨t₁, ht₁, hr₁⟩ := hlayer hst h₁
  obtain ⟨t₂, ht₂, hr₂⟩ := hlayer hr₁ h₂
  obtain ⟨t₃, ht₃, hr₃⟩ := hlayer hr₂ h₃
  refine ⟨t₃, ?_, hr₃⟩
  unfold layers
  rw [ht₁]
  simp only [Option.bind_eq_bind, Option.bind_some, ht₂]
  exact ht₃

/-- What reading each text keeps. -/
theorem layers_keeps {p : σ → Prop} (h : layers read sources s = some s') (hs : p s)
    (hread : ∀ {cfg s s'}, p s → read cfg s = some s' → p s') : p s' := by
  have hstep {cfg : CString} {s s' t : σ} (hst : t = s ∧ p s) (h : read cfg s = some s') :
      ∃ t', read cfg t = some t' ∧ t' = s' ∧ p s' := by
    obtain ⟨rfl, hs⟩ := hst
    exact ⟨s', h, rfl, hread hs h⟩
  obtain ⟨-, -, -, hs'⟩ := layers_simulates (r := fun s t => t = s ∧ p s) h ⟨rfl, hs⟩ hstep
  exact hs'

end Layers

/-! ## Reading a list once more -/

/-- The same options, each at the same value or already at the one it has in the end. -/
structure Near (goal : List Int) (a b : List Item) : Prop where
  specs : b.map (·.toSpec) = a.map (·.toSpec)
  values : ∀ {j : Nat} {x y : Item}, a[j]? = some x → b[j]? = some y →
    y.value = x.value ∨ goal[j]? = some y.value

namespace Near

variable {goal : List Int} {a b a' b' : List Item} {cfg : CString}

/-- A change of one option that gives it the same value in both lists, or none. -/
theorem modify (h : Near goal a b) {f : Item → Item} (i : Nat)
    (hspec : ∀ x, (f x).toSpec = x.toSpec)
    (hvalue : ∀ x y : Item, y.toSpec = x.toSpec → (f y).value = (f x).value ∨
      (f y).value = y.value ∧ (f x).value = x.value) :
    Near goal (a.modify i f) (b.modify i f) := by
  refine ⟨?_, fun {j x' y'} hx' hy' => ?_⟩
  · rw [map_modify hspec, map_modify hspec]
    exact h.specs
  · rw [List.getElem?_modify] at hx' hy'
    obtain ⟨x, hx, rfl⟩ := Option.map_eq_some_iff.mp hx'
    obtain ⟨y, hy, rfl⟩ := Option.map_eq_some_iff.mp hy'
    split
    next =>
      obtain ⟨z, hz, hspecs⟩ := OptionList.getElem?_of_specs h.specs hx
      rw [hy, Option.some.injEq] at hz
      subst hz
      rcases hvalue x y hspecs with hsame | ⟨hown, hother⟩
      · exact .inl hsame
      · rw [hown, hother]
        exact h.values hx hy
    next => exact h.values hx hy

theorem readOption {i : Nat} (h : Near goal a b) (hread : OptionList.readOption cfg a i = some a') :
    ∃ b', OptionList.readOption cfg b i = some b' ∧ Near goal a' b' := by
  unfold OptionList.readOption at hread ⊢
  split at hread
  next hnone =>
    have hlength := OptionList.length_of_specs h.specs
    have hb : b[i]? = none := by
      rw [List.getElem?_eq_none_iff] at hnone ⊢
      omega
    cases hread
    exact ⟨b, by rw [hb], h⟩
  next item hitem =>
    obtain ⟨found, hfound, rfl⟩ := Option.map_eq_some_iff.mp hread
    obtain ⟨item', hitem', hspec⟩ := OptionList.getElem?_of_specs h.specs hitem
    have hkey : item'.key = item.key := congrArg Spec.key hspec
    have hhidden := h.modify (f := Item.hide found.marked) i (fun _ => rfl)
      fun _ _ _ => .inr ⟨rfl, rfl⟩
    simp only [hitem', hkey, hfound, Option.map_some, Option.some.injEq, exists_eq_left']
    cases found.text with
    | none => exact hhidden
    | some value =>
        dsimp only
        unfold OptionList.setOptionValue
        rw [OptionList.getOption_of_specs hhidden.specs]
        refine hhidden.modify _ (fun _ => rfl) fun x y hxy => .inl ?_
        rw [Item.setValue, Item.setValue, hxy]

theorem read (h : Near goal a b) (hread : OptionList.read cfg a = some a') :
    ∃ b', OptionList.read cfg b = some b' ∧ Near goal a' b' := by
  have hlength := OptionList.length_of_specs h.specs
  unfold OptionList.read at hread ⊢
  rw [hlength]
  exact foldlM_simulates _ hread h fun hs hstep => hs.readOption hstep

theorem layers {sources : Config.Sources} (h : Near goal a b)
    (hread : layers OptionList.read sources a = some a') :
    ∃ b', Options.layers OptionList.read sources b = some b' ∧ Near goal a' b' :=
  layers_simulates hread h fun hs hstep => hs.read hstep

theorem of_values (hspecs : b.map (·.toSpec) = a.map (·.toSpec))
    (hvalues : b.map (·.value) = goal) : Near goal a b := by
  refine ⟨hspecs, fun {j x y} _ hy => .inr ?_⟩
  rw [← hvalues, List.getElem?_map, hy]
  rfl

theorem values_eq (h : Near (a.map (·.value)) a b) : b.map (·.value) = a.map (·.value) := by
  apply List.ext_getElem?
  intro j
  rw [List.getElem?_map, List.getElem?_map]
  cases ha : a[j]? with
  | none =>
      have hlength := OptionList.length_of_specs h.specs
      have hb : b[j]? = none := by
        rw [List.getElem?_eq_none_iff] at ha ⊢
        omega
      rw [hb]
  | some x =>
      obtain ⟨y, hy, -⟩ := OptionList.getElem?_of_specs h.specs ha
      rw [hy, Option.map_some, Option.map_some]
      rcases h.values ha hy with hsame | hgoal
      · rw [hsame]
      · rw [List.getElem?_map, ha] at hgoal
        exact hgoal.symm

end Near

section Again

variable {a b a' : List Item} {sources : Config.Sources}

/-- Lists that differ only in what the menu hides are read to the same values. -/
theorem layers_congr (hspecs : b.map (·.toSpec) = a.map (·.toSpec))
    (hvalues : b.map (·.value) = a.map (·.value))
    (h : layers OptionList.read sources a = some a') :
    ∃ b', layers OptionList.read sources b = some b' ∧ b'.map (·.value) = a'.map (·.value) := by
  have hnear : Near [] a b := by
    refine ⟨hspecs, fun {j x y} hx hy => .inl ?_⟩
    have hget := congrArg (·[j]?) hvalues
    simpa [List.getElem?_map, hx, hy] using hget
  obtain ⟨b', hb', hnear'⟩ := hnear.layers h
  refine ⟨b', hb', Near.values_eq ⟨hnear'.specs, fun {j x y} hx hy => ?_⟩⟩
  exact (hnear'.values hx hy).imp_right fun h => absurd h (by simp)

/-- What has been read is not changed by reading it again. -/
theorem layers_again (h : layers OptionList.read sources a = some a')
    (hspecs : b.map (·.toSpec) = a.map (·.toSpec))
    (hvalues : b.map (·.value) = a'.map (·.value)) :
    ∃ b', layers OptionList.read sources b = some b' ∧ b'.map (·.value) = a'.map (·.value) := by
  obtain ⟨b', hb', hnear⟩ := (Near.of_values hspecs hvalues).layers h
  exact ⟨b', hb', hnear.values_eq⟩

theorem layers_specs (h : layers OptionList.read sources a = some a') :
    a'.map (·.toSpec) = a.map (·.toSpec) :=
  layers_keeps (p := fun l => l.map (·.toSpec) = a.map (·.toSpec)) h rfl
    fun hs hread => (OptionList.read_specs hread).trans hs

end Again

/-! ## The gamepad -/

/-- What a text makes of the type of the gamepad. -/
def readType (custom : Bool) (cfg : CString) (type : Fin gamepadCount) :
    Option (Fin gamepadCount) :=
  if custom then
    (Config.getValue cfg Config.gamepadKey).bind fun found =>
      match found.text with
      | none => some type
      | some value =>
          let type := scanInt value
          if h : 0 ≤ type ∧ type < gamepadCount then some ⟨type.toNat, toNat_lt_gamepadCount h⟩
          else none
  else some type

theorem readType_again {custom : Bool} {sources : Config.Sources}
    {type type' : Fin gamepadCount} (h : layers (readType custom) sources type = some type') :
    layers (readType custom) sources type' = some type' := by
  have hstep {cfg : CString} {a a' b : Fin gamepadCount} (hab : b = a ∨ b = type')
      (hread : readType custom cfg a = some a') :
      ∃ b', readType custom cfg b = some b' ∧ (b' = a' ∨ b' = type') := by
    unfold readType at hread ⊢
    split at hread
    next hcustom =>
      obtain ⟨found, hfound, hread⟩ := Option.bind_eq_some_iff.mp hread
      rw [if_pos hcustom, hfound, Option.bind_some]
      cases htext : found.text with
      | none =>
          rw [htext] at hread
          cases hread
          exact ⟨b, rfl, hab⟩
      | some value =>
          rw [htext] at hread
          exact ⟨a', hread, .inl rfl⟩
    next hcustom =>
      rw [if_neg hcustom]
      cases hread
      exact ⟨b, rfl, hab⟩
  obtain ⟨last, hlast, hsame⟩ := layers_simulates
    (r := fun a b => b = a ∨ b = type') h (.inr rfl) hstep
  rw [hlast]
  rcases hsame with rfl | rfl <;> rfl

/-! ## The parts of a session -/

namespace Session

variable {setup : Setup} {s t : Session} {overscan : Bool} {cfg : CString}
  {sources : Config.Sources}

theorem readGamepad_eq (cfg : CString) (s : Session) :
    s.readGamepad cfg = (readType s.hasCustomControllers cfg s.gamepadType).map
      fun gamepadType => { s with gamepadType } := by
  unfold readGamepad readType
  split
  next =>
    cases Config.getValue cfg Config.gamepadKey with
    | none => rfl
    | some found =>
        simp only [Option.bind_some]
        cases found.text with
        | none => rfl
        | some value =>
            dsimp only
            split <;> rfl
  next => rfl

/-- The front end's options have the keys and the values they were compiled with. -/
def Shaped (overscan : Bool) (s : Session) : Prop :=
  s.frontend.map (·.toSpec) = FrontendOption.all.map (FrontendOption.spec overscan)

/-- The front end's options are read like a list. -/
theorem readFrontend_list {n : Nat} (hs : s.Shaped overscan)
    (h : (List.range n).foldlM (readFrontendOption cfg) s = some t) :
    (List.range n).foldlM (OptionList.readOption cfg) s.frontend = some t.frontend := by
  obtain ⟨list, hlist, hsame, -⟩ := foldlM_simulates (OptionList.readOption cfg)
    (r := fun u l => l = u.frontend ∧ u.Shaped overscan) h ⟨rfl, hs⟩ fun {u v l i} hu hstep => by
      obtain ⟨rfl, hshape⟩ := hu
      obtain ⟨hread, -, -⟩ := readFrontendOption_spec hshape hstep
      exact ⟨v.frontend, hread, rfl, (OptionList.readOption_specs hread).trans hshape⟩
  rw [hlist, hsame]

theorem exists_readFrontend {n : Nat} {frontend : List Item} (hs : s.Shaped overscan)
    (h : (List.range n).foldlM (OptionList.readOption cfg) s.frontend = some frontend) :
    ∃ t, (List.range n).foldlM (readFrontendOption cfg) s = some t ∧ t.frontend = frontend := by
  obtain ⟨t, ht, hsame, -⟩ := foldlM_simulates (readFrontendOption cfg)
    (r := fun l u => u.frontend = l ∧ u.Shaped overscan) h ⟨rfl, hs⟩ fun {l l' u i} hu hstep => by
      obtain ⟨rfl, hshape⟩ := hu
      have hdefined : ∃ v, u.readFrontendOption cfg i = some v := by
        unfold OptionList.readOption at hstep
        unfold readFrontendOption
        cases hitem : u.frontend[i]? with
        | none => exact ⟨u, rfl⟩
        | some item =>
            simp only [hitem] at hstep
            obtain ⟨found, hfound, -⟩ := Option.map_eq_some_iff.mp hstep
            simp only [hfound, Option.map_some, Option.some.injEq, exists_eq']
      obtain ⟨v, hv⟩ := hdefined
      obtain ⟨hread, -, -⟩ := readFrontendOption_spec hshape hv
      rw [hstep, Option.some.injEq] at hread
      refine ⟨v, hv, hread.symm, ?_⟩
      unfold Shaped
      rw [← hread]
      exact (OptionList.readOption_specs hstep).trans hshape
  exact ⟨t, ht, hsame⟩

/-- The options and the gamepad are read each on their own. -/
structure Reads (read : ∀ {σ : Type}, (CString → σ → Option σ) → σ → Option σ)
    (s t : Session) : Prop where
  frontend : read OptionList.read s.frontend = some t.frontend
  core : read OptionList.read s.core = some t.core
  gamepad : read (readType s.hasCustomControllers) s.gamepadType = some t.gamepadType
  frame : t = { s with
    frontend := t.frontend, core := t.core, mirrors := t.mirrors, gamepadType := t.gamepadType }

theorem reads_of_readOptionsString {source : Option CString} (hs : s.Shaped overscan)
    (h : s.readOptionsString source = some t) : Reads (layer · source) s t ∧ t.Shaped overscan := by
  cases source with
  | none =>
      cases h
      exact ⟨⟨rfl, rfl, rfl, rfl⟩, hs⟩
  | some cfg =>
      obtain ⟨u, v, core, hu, hv, hcore, rfl⟩ := readOptionsString_eq_some h
      have hfrontend := readFrontend_list hs hu
      obtain ⟨hframe, hshape⟩ := readFrontend_frame hs hu
      rw [readGamepad_eq] at hv
      obtain ⟨type, htype, rfl⟩ := Option.map_eq_some_iff.mp hv
      rw [hframe] at htype hcore
      refine ⟨⟨hfrontend, hcore, htype, ?_⟩, hshape⟩
      dsimp only
      rw [hframe]

theorem exists_readOptionsString {source : Option CString} {frontend core : List Item}
    {type : Fin gamepadCount} (hs : s.Shaped overscan)
    (hfrontend : layer OptionList.read source s.frontend = some frontend)
    (hcore : layer OptionList.read source s.core = some core)
    (htype : layer (readType s.hasCustomControllers) source s.gamepadType = some type) :
    ∃ t, s.readOptionsString source = some t ∧ t.frontend = frontend ∧ t.core = core ∧
      t.gamepadType = type := by
  cases source with
  | none =>
      cases hfrontend
      cases hcore
      cases htype
      exact ⟨s, rfl, rfl, rfl, rfl⟩
  | some cfg =>
      obtain ⟨u, hu, rfl⟩ := exists_readFrontend hs hfrontend
      have hframe := (readFrontend_frame hs hu).1
      refine ⟨{ u with gamepadType := type, core }, ?_, rfl, rfl, rfl⟩
      have hparts : u.hasCustomControllers = s.hasCustomControllers ∧
          u.gamepadType = s.gamepadType ∧ u.core = s.core := by
        rw [hframe]
        exact ⟨rfl, rfl, rfl⟩
      have hread : readType s.hasCustomControllers cfg s.gamepadType = some type := htype
      have hlist : OptionList.read cfg s.core = some core := hcore
      unfold readOptionsString
      simp only [hu, readGamepad_eq, hparts, hread, hlist, Option.bind_eq_bind, Option.bind_some,
        Option.map_some]

/-- What the three texts make of the options and the gamepad. -/
theorem reads_of_readOptions (hs : s.Shaped overscan) (h : s.readOptions sources = some t) :
    Reads (layers · sources) s t ∧ t.Shaped overscan := by
  obtain ⟨u, hu, hrest⟩ := Option.bind_eq_some_iff.mp h
  obtain ⟨v, hv, ht⟩ := Option.bind_eq_some_iff.mp hrest
  obtain ⟨hreadU, hshapeU⟩ := reads_of_readOptionsString hs hu
  obtain ⟨hreadV, hshapeV⟩ := reads_of_readOptionsString hshapeU hv
  obtain ⟨hreadT, hshapeT⟩ := reads_of_readOptionsString hshapeV ht
  have hcustomU : u.hasCustomControllers = s.hasCustomControllers := by rw [hreadU.frame]
  have hcustomV : v.hasCustomControllers = s.hasCustomControllers := by
    rw [hreadV.frame]
    exact hcustomU
  have hgamepadV := hreadV.gamepad
  have hgamepadT := hreadT.gamepad
  rw [hcustomU] at hgamepadV
  rw [hcustomV] at hgamepadT
  refine ⟨⟨?_, ?_, ?_, ?_⟩, hshapeT⟩
  · simp only [layers, hreadU.frontend, hreadV.frontend, hreadT.frontend, Option.bind_eq_bind,
      Option.bind_some]
  · simp only [layers, hreadU.core, hreadV.core, hreadT.core, Option.bind_eq_bind,
      Option.bind_some]
  · simp only [layers, hreadU.gamepad, hgamepadV, hgamepadT, Option.bind_eq_bind,
      Option.bind_some]
  · rw [hreadT.frame, hreadV.frame, hreadU.frame]

/-- The options and the gamepad can be read if each can. -/
theorem exists_readOptions {frontend core : List Item} {type : Fin gamepadCount}
    (hs : s.Shaped overscan) (hfrontend : layers OptionList.read sources s.frontend = some frontend)
    (hcore : layers OptionList.read sources s.core = some core)
    (htype : layers (readType s.hasCustomControllers) sources s.gamepadType = some type) :
    ∃ t, s.readOptions sources = some t ∧ t.frontend = frontend ∧ t.core = core ∧
      t.gamepadType = type := by
  obtain ⟨f₁, hf₁, hrest⟩ := Option.bind_eq_some_iff.mp hfrontend
  obtain ⟨f₂, hf₂, hf₃⟩ := Option.bind_eq_some_iff.mp hrest
  obtain ⟨c₁, hc₁, hrest⟩ := Option.bind_eq_some_iff.mp hcore
  obtain ⟨c₂, hc₂, hc₃⟩ := Option.bind_eq_some_iff.mp hrest
  obtain ⟨g₁, hg₁, hrest⟩ := Option.bind_eq_some_iff.mp htype
  obtain ⟨g₂, hg₂, hg₃⟩ := Option.bind_eq_some_iff.mp hrest
  obtain ⟨u, hu, rfl, rfl, rfl⟩ := exists_readOptionsString hs hf₁ hc₁ hg₁
  obtain ⟨hreadU, hshapeU⟩ := reads_of_readOptionsString hs hu
  have hcustomU : u.hasCustomControllers = s.hasCustomControllers := by rw [hreadU.frame]
  rw [← hcustomU] at hg₂
  obtain ⟨v, hv, rfl, rfl, rfl⟩ := exists_readOptionsString hshapeU hf₂ hc₂ hg₂
  obtain ⟨hreadV, hshapeV⟩ := reads_of_readOptionsString hshapeU hv
  have hcustomV : v.hasCustomControllers = s.hasCustomControllers := by
    rw [hreadV.frame]
    exact hcustomU
  rw [← hcustomV] at hg₃
  obtain ⟨t, ht, hparts⟩ := exists_readOptionsString hshapeV hf₃ hc₃ hg₃
  refine ⟨t, ?_, hparts⟩
  simp only [Session.readOptions, hu, hv, ht, Option.bind_eq_bind, Option.bind_some]

/-- What the texts make of the bindings depends on nothing but these. -/
theorem readControls_congr {s' : Session} (hcontrols : s'.controls = s.controls)
    (hshortcuts : s'.shortcuts = s.shortcuts) (h : s.readControls sources = some t) :
    ∃ t', s'.readControls sources = some t' ∧ t'.controls = t.controls ∧
      t'.shortcuts = t.shortcuts := by
  have hstring {source : Option CString} {s s' t : Session} (hcontrols : s'.controls = s.controls)
      (hshortcuts : s'.shortcuts = s.shortcuts) (h : s.readControlsString source = some t) :
      ∃ t', s'.readControlsString source = some t' ∧ t'.controls = t.controls ∧
        t'.shortcuts = t.shortcuts := by
    cases source with
    | none =>
        cases h
        exact ⟨s', rfl, hcontrols, hshortcuts⟩
    | some cfg =>
        obtain ⟨controls, hreadControls, hrest⟩ := Option.bind_eq_some_iff.mp h
        obtain ⟨shortcuts, hreadShortcuts, ht⟩ := Option.bind_eq_some_iff.mp hrest
        cases ht
        refine ⟨{ s' with controls, shortcuts }, ?_, rfl, rfl⟩
        unfold readControlsString
        simp only [hcontrols, hshortcuts, hreadControls, hreadShortcuts, Option.bind_eq_bind,
          Option.bind_some]
  obtain ⟨u, hu, ht⟩ := Option.bind_eq_some_iff.mp h
  obtain ⟨u', hu', hcontrols', hshortcuts'⟩ := hstring hcontrols hshortcuts hu
  obtain ⟨t', ht', hparts⟩ := hstring hcontrols' hshortcuts' ht
  refine ⟨t', ?_, hparts⟩
  unfold Session.readControls
  simp only [hu', Option.bind_eq_bind, Option.bind_some]
  exact ht'

/-! ## What the core and the pak settle -/

/-- The options that the core has reported last, as it reported them. -/
def reportedCore (setup : Setup) : Option (List Item) :=
  match setup.late.options, setup.early.options with
  | some report, _ => report.items
  | none, some report => report.items
  | none, none => some []

end Session

/-- A control or a shortcut but for what it is bound to. -/
def Mapping.unbound (mapping : Mapping) : Mapping := mapping.bind (-1, false)

namespace Session

variable {setup : Setup} {s t : Session}

/-- What no change of the settings touches. -/
structure Kept (setup : Setup) (s : Session) : Prop where
  shaped : s.Shaped setup.overscan
  core : ∃ core, reportedCore setup = some core ∧ s.core.map (·.toSpec) = core.map (·.toSpec)
  custom : s.hasCustomControllers =
    (setup.early.customControllers || setup.late.customControllers)
  controls : ∃ controls, startControls setup = some controls ∧
    s.controls.map Mapping.unbound = controls.map Mapping.unbound
  shortcuts : s.shortcuts.map Mapping.unbound = unboundShortcuts.map Mapping.unbound
  gamepad : s.hasCustomControllers = false → s.gamepadType = ⟨0, by decide⟩

theorem Kept.mono (h : s.Kept setup)
    (hfrontend : t.frontend.map (·.toSpec) = s.frontend.map (·.toSpec))
    (hcore : t.core.map (·.toSpec) = s.core.map (·.toSpec))
    (hcustom : t.hasCustomControllers = s.hasCustomControllers)
    (hcontrols : t.controls.map Mapping.unbound = s.controls.map Mapping.unbound)
    (hshortcuts : t.shortcuts.map Mapping.unbound = s.shortcuts.map Mapping.unbound)
    (hgamepad : s.hasCustomControllers = false → t.gamepadType = s.gamepadType) :
    t.Kept setup := by
  obtain ⟨core, hreported, hspecs⟩ := h.core
  obtain ⟨controls, hstart, hnames⟩ := h.controls
  refine ⟨hfrontend.trans h.shaped, ⟨core, hreported, hcore.trans hspecs⟩, hcustom.trans h.custom,
    ⟨controls, hstart, hcontrols.trans hnames⟩, hshortcuts.trans h.shortcuts, fun hnone => ?_⟩
  rw [hcustom] at hnone
  rw [hgamepad hnone, h.gamepad hnone]

theorem map_unbound_read {cfg : CString} {text : CString → CString} {list list' : List Mapping}
    (h : list.mapM (Mapping.read cfg text) = some list') :
    list'.map Mapping.unbound = list.map Mapping.unbound := by
  refine mapM_map (fun mapping mapping' hread => ?_) h
  unfold Mapping.read at hread
  split at hread
  next => cases hread
  next =>
    obtain ⟨found, -, rfl⟩ := Option.map_eq_some_iff.mp hread
    cases found.text <;> rfl

theorem Kept.readControlsString {source : Option CString} (h : s.Kept setup)
    (hread : s.readControlsString source = some t) : t.Kept setup := by
  cases source with
  | none =>
      cases hread
      exact h
  | some cfg =>
      obtain ⟨controls, hcontrols, hrest⟩ := Option.bind_eq_some_iff.mp hread
      obtain ⟨shortcuts, hshortcuts, ht⟩ := Option.bind_eq_some_iff.mp hrest
      cases ht
      exact h.mono rfl rfl rfl (map_unbound_read hcontrols) (map_unbound_read hshortcuts)
        fun _ => rfl

theorem Kept.readControls {sources : Config.Sources} (h : s.Kept setup)
    (hread : s.readControls sources = some t) : t.Kept setup := by
  obtain ⟨u, hu, ht⟩ := Option.bind_eq_some_iff.mp hread
  exact (h.readControlsString hu).readControlsString ht

theorem readType_unset {source : Option CString} {type type' : Fin gamepadCount}
    (h : layer (readType false) source type = some type') : type' = type := by
  cases source with
  | none =>
      cases h
      rfl
  | some cfg =>
      cases h
      rfl

theorem Kept.readOptionsString {source : Option CString} (h : s.Kept setup)
    (hread : s.readOptionsString source = some t) : t.Kept setup := by
  obtain ⟨hparts, hshaped⟩ := reads_of_readOptionsString h.shaped hread
  have hframe := hparts.frame
  have hcore : t.core.map (·.toSpec) = s.core.map (·.toSpec) := by
    cases source with
    | none =>
        cases hread
        rfl
    | some cfg => exact OptionList.read_specs hparts.core
  refine h.mono (hshaped.trans h.shaped.symm) hcore ?_ ?_ ?_ fun hnone => ?_
  · rw [hframe]
  · rw [hframe]
  · rw [hframe]
  · have hgamepad := hparts.gamepad
    rw [hnone] at hgamepad
    exact readType_unset hgamepad

theorem Kept.readOptions {sources : Config.Sources} (h : s.Kept setup)
    (hread : s.readOptions sources = some t) : t.Kept setup :=
  readOptions_keeps hread h fun hs hstep => Kept.readOptionsString hs hstep

theorem restoreFrontendOption_specs (s : Session) (i : Nat) :
    (s.restoreFrontendOption i).frontend.map (·.toSpec) = s.frontend.map (·.toSpec) := by
  unfold restoreFrontendOption
  split
  next => rfl
  next item hitem =>
    rw [syncFrontend_specs]
    exact map_modify fun _ => rfl

theorem restoreFrontendOption_past {i : Nat} (h : s.frontend[i]? = none) :
    s.restoreFrontendOption i = s := by
  unfold restoreFrontendOption
  rw [h]

/-- The front end's options are at their defaults as far as the loop over them has come. -/
theorem getElem?_restoreFrontend {overscan : Bool} (hs : s.Shaped overscan) (n j : Nat) :
    ((List.range n).foldl restoreFrontendOption s).frontend[j]? =
      s.frontend[j]?.map fun item => if j < n then item.restore else item := by
  induction n generalizing j with
  | zero => simp
  | succ n ih =>
      have hshaped (n : Nat) : ((List.range n).foldl restoreFrontendOption s).Shaped overscan := by
        induction n with
        | zero => exact hs
        | succ n ih =>
            rw [List.range_succ, List.foldl_append, List.foldl_cons, List.foldl_nil]
            exact (restoreFrontendOption_specs _ _).trans ih
      rw [List.range_succ, List.foldl_append, List.foldl_cons, List.foldl_nil]
      have hown := ih n
      simp only [Nat.lt_irrefl, if_false, Option.map_id'] at hown
      cases hitem : s.frontend[n]? with
      | none =>
          rw [hitem] at hown
          have hlength := List.getElem?_eq_none_iff.mp hitem
          rw [restoreFrontendOption_past hown, ih j]
          cases hj : s.frontend[j]? with
          | none => rfl
          | some item =>
              have hlt : j < s.frontend.length := (List.getElem?_eq_some_iff.mp hj).1
              rw [Option.map_some, Option.map_some, if_pos (by omega), if_pos (by omega)]
      | some item =>
          rw [hitem] at hown
          obtain ⟨option, hindex, -, hkey, hsync⟩ := restoreFrontendOption_eq (hshaped n) hown
          rw [hsync, syncFrontend_of_ofKey _ hkey, hindex]
          dsimp only
          rw [List.getElem?_modify, ih j]
          by_cases hj : n = j
          · subst hj
            rw [hitem]
            simp [Item.restore, Item.setRawValue]
          · have hlt : j < n + 1 ↔ j < n := by omega
            simp [hj, hlt]

theorem fallBack_frontend {overscan : Bool} (hs : s.Shaped overscan) :
    s.fallBack.frontend = s.frontend.map Item.restore := by
  apply List.ext_getElem?
  intro j
  have hfold : s.fallBack.frontend[j]? = _ := getElem?_restoreFrontend hs s.frontend.length j
  rw [hfold, List.getElem?_map]
  cases hj : s.frontend[j]? with
  | none => rfl
  | some item =>
      have hlt : j < s.frontend.length := (List.getElem?_eq_some_iff.mp hj).1
      rw [Option.map_some, Option.map_some, if_pos hlt]

/-- What else is put back, and what is left alone. -/
theorem fallBack_rest (s : Session) :
    s.fallBack.core = s.core.map Item.restore ∧
      s.fallBack.hasCustomControllers = s.hasCustomControllers ∧
      s.fallBack.gamepadType =
        (if s.hasCustomControllers then ⟨0, by decide⟩ else s.gamepadType) ∧
      s.fallBack.controls = s.controls.map (fun control => control.bind (control.default_, false)) ∧
      s.fallBack.shortcuts = s.shortcuts.map Mapping.unbound ∧
      s.fallBack.files = s.files := by
  unfold fallBack
  rw [restoreFrontend_frame]
  exact ⟨rfl, rfl, rfl, rfl, rfl, rfl⟩

theorem Kept.syncFrontend (h : s.Kept setup) (key : CString) (value : Int) :
    (s.syncFrontend key value).Kept setup := by
  have hspecs := syncFrontend_specs key value s
  unfold Session.syncFrontend at hspecs ⊢
  split
  next => exact h
  next option hkey =>
    rw [hkey] at hspecs
    exact h.mono hspecs rfl rfl rfl rfl fun _ => rfl

theorem Kept.fallBack (h : s.Kept setup) : s.fallBack.Kept setup := by
  obtain ⟨hcore, hcustom, hgamepad, hcontrols, hshortcuts, -⟩ := fallBack_rest s
  refine h.mono ?_ ?_ hcustom ?_ ?_ fun hnone => ?_
  · rw [fallBack_frontend h.shaped, List.map_map]
    rfl
  · rw [hcore, List.map_map]
    rfl
  · rw [hcontrols, List.map_map]
    rfl
  · rw [hshortcuts, List.map_map]
    rfl
  · rw [hgamepad, hnone]
    rfl

theorem Kept.changeOption {menu : Menu} {i : Nat} {forward : Bool} (h : s.Kept setup)
    (hchange : s.changeOption menu i forward = some t) : t.Kept setup := by
  unfold Session.changeOption at hchange
  split at hchange
  next =>
    cases hchange
    exact h
  next =>
    obtain ⟨row, -, rfl⟩ := Option.map_eq_some_iff.mp hchange
    cases menu with
    | frontend =>
        have hmenu : Kept setup
            { s with frontendMenu := s.frontendMenu.map fun rows => rows.set i row } :=
          h.mono rfl rfl rfl rfl rfl fun _ => rfl
        exact hmenu.syncFrontend _ _
    | core =>
        exact h.mono rfl (OptionList.setOptionRawValue_specs _ _ _) rfl rfl rfl fun _ => rfl

theorem Kept.bindButton (h : s.Kept setup) (buttons : Buttons) (i : Nat) (binding : Int × Bool) :
    (s.bindButton buttons i binding).Kept setup := by
  cases buttons with
  | controls => exact h.mono rfl rfl rfl (map_modify fun _ => rfl) rfl fun _ => rfl
  | shortcuts => exact h.mono rfl rfl rfl rfl (map_modify fun _ => rfl) fun _ => rfl

theorem Kept.restore (h : s.Kept setup) (hrestore : s.restore setup = some t) :
    t.Kept setup := by
  obtain ⟨u, hu, ht⟩ := Option.bind_eq_some_iff.mp hrestore
  have hremoved : s.unlinkLoaded.Kept setup := h.mono rfl rfl rfl rfl rfl fun _ => rfl
  have hloaded : (s.unlinkLoaded.fallBack.load setup).2.Kept setup :=
    hremoved.fallBack.mono rfl rfl rfl rfl rfl fun _ => rfl
  exact (hloaded.readOptions hu).readControls ht

theorem Kept.step {change : Change} (h : s.Kept setup) (hstep : s.step setup change = some t) :
    t.Kept setup := by
  cases change with
  | readOptions cfg =>
      have hread : s.readOptionsString (some cfg) = some t := hstep
      exact h.readOptionsString hread
  | setVariable key value =>
      cases hstep
      exact h.mono rfl (OptionList.setOptionValue_specs _ _ _) rfl rfl rfl fun _ => rfl
  | openMenu menu =>
      cases hstep
      cases menu with
      | frontend => exact h.mono rfl rfl rfl rfl rfl fun _ => rfl
      | core => exact h.mono rfl rfl rfl rfl rfl fun _ => rfl
  | changeOption menu i forward => exact h.changeOption hstep
  | cycleScale =>
      cases hstep
      unfold cycleScale
      split
      next => exact h
      next => exact h.syncFrontend _ _
  | cycleEffect =>
      cases hstep
      unfold cycleEffect
      split
      next => exact h
      next => exact h.syncFrontend _ _
  | bind buttons i id menuHeld =>
      cases hstep
      exact h.bindButton _ _ _
  | unbind buttons i =>
      cases hstep
      exact h.bindButton _ _ _
  | chooseGamepad type =>
      cases hstep
      split
      next hcustom =>
        exact h.mono rfl rfl rfl rfl rfl fun hnone => absurd (hcustom.symm.trans hnone) (by simp)
      next => exact h
  | write scope opens =>
      rw [write_frame hstep]
      exact h.mono rfl rfl rfl rfl rfl fun _ => rfl
  | restore => exact h.restore hstep

/-! ## The start -/

theorem hideTearing_frame (setup : Setup) (s : Session) :
    s.hideTearing setup = { s with frontend := (s.hideTearing setup).frontend } ∧
      (s.hideTearing setup).frontend.map (·.toSpec) = s.frontend.map (·.toSpec) ∧
      (s.hideTearing setup).frontend.map (·.value) = s.frontend.map (·.value) := by
  unfold hideTearing
  split
  next => exact ⟨rfl, rfl, rfl⟩
  next => exact ⟨rfl, OptionList.hide_specs _ _ _, map_modify fun _ => rfl⟩

variable {files : UserFiles}

theorem default_of_items {report : Report} {list : List Item} (h : report.items = some list) :
    list.map (·.value) = list.map (·.defaultValue) := by
  refine List.map_congr_left fun item hitem => ?_
  cases report with
  | options defs =>
      cases h
      obtain ⟨definition, -, rfl⟩ := List.mem_map.mp hitem
      rfl
  | vars vars =>
      obtain ⟨var, -, hvar⟩ := exists_of_mem_mapM h hitem
      obtain ⟨values, -, rfl⟩ := Option.map_eq_some_iff.mp hvar
      rfl

/-- The core's options start at their defaults. -/
theorem default_of_reportedCore {core : List Item} (h : reportedCore setup = some core) :
    core.map (·.value) = core.map (·.defaultValue) := by
  unfold reportedCore at h
  split at h
  next => exact default_of_items h
  next => exact default_of_items h
  next =>
    cases h
    rfl

theorem mod_of_bindings {text : CString} {list : List Mapping} (h : bindings text = some list) :
    ∀ control ∈ list, control.mod = false := by
  induction hlength : text.length using Nat.strong_induction_on generalizing text list with
  | _ n ih =>
    unfold bindings at h
    split at h
    next =>
      cases h
      simp
    next name value hnext =>
      split at h
      next => cases h
      next =>
        obtain ⟨button, -, hrest⟩ := Option.bind_eq_some_iff.mp h
        obtain ⟨rest, hbindings, rfl⟩ := Option.map_eq_some_iff.mp hrest
        have hshorter := nextBind_length hnext
        intro control hcontrol
        rcases List.mem_cons.mp hcontrol with rfl | hmem
        · rfl
        · refine ih _ ?_ hbindings rfl control hmem
          rw [List.length_drop]
          omega

/-- A control that has not been read from a file is bound to its default. -/
theorem bind_default_of_startControls {controls : List Mapping}
    (h : startControls setup = some controls) :
    controls.map (fun control => control.bind (control.default_, false)) = controls := by
  have hinit (mapping : List Mapping) (vars : Option (List InputDescriptor))
      (hmapping : ∀ control ∈ mapping, control.mod = false) :
      (inputInit mapping vars).map (fun control => control.bind (control.default_, false)) =
        inputInit mapping vars := by
    unfold inputInit
    rw [List.map_map]
    refine List.map_congr_left fun control hcontrol => ?_
    have hmod : control.mod = false := by
      split at hcontrol
      next =>
        obtain ⟨built, hbuilt, rfl⟩ := List.mem_map.mp hcontrol
        have hdefault : ∀ built ∈ defaultButtonMapping, built.mod = false := by decide
        exact hdefault built hbuilt
      next => exact hmapping control hcontrol
    rw [Function.comp_apply, Mapping.bind, ← hmod]
  obtain ⟨mapping, hmapping, rfl⟩ := Option.map_eq_some_iff.mp h
  have hmod : ∀ control ∈ mapping, control.mod = false := by
    unfold configInit at hmapping
    split at hmapping
    next =>
      cases hmapping
      simp
    next => exact mod_of_bindings (Option.filter_eq_some_iff.mp hmapping).1
  cases setup.early.inputs with
  | none => exact hinit _ _ hmod
  | some vars => exact hinit _ _ (by simp)

/-- Where the files are read from. -/
def sourcesOf (setup : Setup) (files : UserFiles) : Config.Sources :=
  ⟨setup.systemCfg, setup.defaultCfg, files.user.1⟩

/-- The settings are the layers of the files over the defaults. -/
structure Layered (setup : Setup) (sources : Config.Sources) (s : Session) : Prop where
  frontend : ∃ list, layers OptionList.read sources
    (FrontendOption.all.map (FrontendOption.item setup.overscan)) = some list ∧
      list.map (·.value) = s.frontend.map (·.value)
  core : ∃ core list, reportedCore setup = some core ∧
    layers OptionList.read sources core = some list ∧ list.map (·.value) = s.core.map (·.value)
  gamepad : layers (readType s.hasCustomControllers) sources ⟨0, by decide⟩ = some s.gamepadType
  bindings : ∃ w : Session, startControls setup = some w.controls ∧
    w.shortcuts = unboundShortcuts ∧ w.readControls sources = some s

/-- What a report makes of the options and the controllers. -/
theorem report_parts {reports : CoreReports} (h : s.report reports = some t) :
    (match reports.options with
      | none => t.core = s.core
      | some report => report.items = some t.core) ∧
    t.hasCustomControllers = (s.hasCustomControllers || reports.customControllers) := by
  obtain ⟨core, hcore, rfl⟩ := Option.map_eq_some_iff.mp h
  refine ⟨?_, rfl⟩
  cases hoptions : reports.options with
  | none =>
      rw [hoptions] at hcore
      exact (Option.some.inj hcore).symm
  | some report =>
      rw [hoptions] at hcore
      exact hcore

/-- The state `v` between the two times that a start reads the files, and `w` after them. -/
structure Stages (setup : Setup) (sources : Config.Sources) (v w s : Session) : Prop where
  shaped : v.Shaped setup.overscan
  frontend : ∃ list, layers OptionList.read sources
    (FrontendOption.all.map (FrontendOption.item setup.overscan)) = some list ∧
      v.frontend.map (·.value) = list.map (·.value)
  core : ∃ core, reportedCore setup = some core ∧
    (v.core = core ∨ layers OptionList.read sources core = some v.core)
  custom : v.hasCustomControllers =
    (setup.early.customControllers || setup.late.customControllers)
  gamepad : layers (readType setup.early.customControllers) sources ⟨0, by decide⟩ =
    some v.gamepadType
  controls : startControls setup = some v.controls
  shortcuts : v.shortcuts = unboundShortcuts
  readOptions : v.readOptions sources = some w
  readControls : w.readControls sources = some s

/-- The options that the core has reported last are those it has now, or those of the first report,
if there was no second. -/
theorem exists_reportedCore {first second kept : List Item}
    (hearly : match setup.early.options with
      | none => first = (initial setup files).core
      | some report => report.items = some first)
    (hlate : match setup.late.options with
      | none => second = kept
      | some report => report.items = some second) :
    ∃ core, reportedCore setup = some core ∧ (second = core ∨ core = first ∧ second = kept) := by
  cases hoptions : setup.late.options with
  | some report =>
      rw [hoptions] at hlate
      exact ⟨second, by simp only [reportedCore, hoptions, hlate], .inl rfl⟩
  | none =>
      rw [hoptions] at hlate
      refine ⟨first, ?_, .inr ⟨rfl, hlate⟩⟩
      cases hreports : setup.early.options with
      | some report =>
          rw [hreports] at hearly
          simp only [reportedCore, hoptions, hreports, hearly]
      | none =>
          rw [hreports] at hearly
          simp only [reportedCore, hoptions, hreports, hearly, initial]

theorem exists_stages (h : start setup files = some s) :
    ∃ v w, Stages setup (sourcesOf setup files) v w s := by
  obtain ⟨reported, u, v, controls, w, hreported, hu, hv, hcontrols, hw, hs⟩ := start_eq_some h
  have hreportedFrame := report_frame hreported
  obtain ⟨hreportedCore, hreportedCustom⟩ := report_parts hreported
  have hfiles : reported.files = files := by
    rw [hreportedFrame]
    rfl
  have hsources : (reported.load setup).1 = sourcesOf setup files := by
    unfold load sourcesOf
    rw [hfiles]
  rw [hsources] at hu hw hs
  have hshaped : (reported.load setup).2.Shaped setup.overscan := by
    have hfrontend : (reported.load setup).2.frontend = (initial setup files).frontend := by
      unfold load
      rw [hreportedFrame]
    unfold Shaped
    rw [hfrontend]
    exact frontendSound_initial.specs
  obtain ⟨hreads, hshapedU⟩ := reads_of_readOptions hshaped hu
  obtain ⟨hhide, hhideSpecs, hhideValues⟩ := hideTearing_frame setup u
  have hvFrame := report_frame hv
  obtain ⟨hvCore, hvCustom⟩ := report_parts hv
  have hvFrontend : v.frontend = (u.hideTearing setup).frontend := by rw [hvFrame]
  have huCustom : (u.hideTearing setup).hasCustomControllers = setup.early.customControllers := by
    rw [hhide, hreads.frame]
    exact hreportedCustom
  refine ⟨v.takeControls controls, w, ?_, ?_, ?_, ?_, ?_, hcontrols, ?_, hw, hs⟩
  · exact (congrArg (List.map _) hvFrontend).trans (hhideSpecs.trans hshapedU)
  · refine ⟨u.frontend, ?_, (congrArg (List.map _) hvFrontend).trans hhideValues⟩
    have hinitial : (reported.load setup).2.frontend =
        FrontendOption.all.map (FrontendOption.item setup.overscan) := by
      unfold load
      rw [hreportedFrame]
      rfl
    rw [← hinitial]
    exact hreads.frontend
  -- a core that reports late discards what was read for the options it had
  · obtain ⟨core, hcore, hlate | ⟨rfl, hsame⟩⟩ := exists_reportedCore hreportedCore hvCore
    · exact ⟨core, hcore, .inl hlate⟩
    · have hreadCore : layers OptionList.read (sourcesOf setup files) reported.core =
          some v.core := by
        rw [hsame, hhide]
        exact hreads.core
      exact ⟨reported.core, hcore, .inr hreadCore⟩
  · exact hvCustom.trans (by rw [huCustom])
  · have hgamepad := hreads.gamepad
    have hcustom : (reported.load setup).2.hasCustomControllers = setup.early.customControllers :=
      hreportedCustom
    -- no type has been read before the first reading
    have hunset : (reported.load setup).2.gamepadType = ⟨0, by decide⟩ := by
      unfold load
      rw [hreportedFrame]
      rfl
    have hsame : (v.takeControls controls).gamepadType = u.gamepadType := by
      unfold takeControls
      rw [hvFrame, hhide]
    rw [hcustom, hunset] at hgamepad
    rw [hsame]
    exact hgamepad
  · unfold takeControls
    rw [hvFrame, hhide, hreads.frame]
    unfold load
    rw [hreportedFrame]
    rfl

theorem layers_unset {sources : Config.Sources} {type type' : Fin gamepadCount}
    (h : layers (readType false) sources type = some type') : type' = type :=
  layers_keeps (p := fun found => found = type) h rfl fun hs hread => by
    cases hread
    exact hs

variable {sources : Config.Sources} {v w : Session}

theorem Stages.kept (h : Stages setup sources v w s) : s.Kept setup := by
  have hv : v.Kept setup := by
    obtain ⟨core, hreported, hcore⟩ := h.core
    refine ⟨h.shaped, ⟨core, hreported, ?_⟩, h.custom, ⟨v.controls, h.controls, rfl⟩,
      by rw [h.shortcuts], fun hnone => ?_⟩
    · rcases hcore with rfl | hread
      · rfl
      · exact layers_specs hread
    · have hgamepad := h.gamepad
      rw [h.custom, Bool.or_eq_false_iff] at hnone
      rw [hnone.1] at hgamepad
      exact layers_unset hgamepad
  exact (hv.readOptions h.readOptions).readControls h.readControls

/-- Reading the files twice makes of them what reading them once does. -/
theorem Stages.layered (h : Stages setup sources v w s) : s.Layered setup sources := by
  obtain ⟨hreads, -⟩ := reads_of_readOptions h.shaped h.readOptions
  have hs := readControls_frame h.readControls
  have hfrontend : s.frontend = w.frontend := by rw [hs]
  have hcore : s.core = w.core := by rw [hs]
  have hgamepad : s.gamepadType = w.gamepadType := by rw [hs]
  have hcustom : s.hasCustomControllers = v.hasCustomControllers := by
    rw [hs, hreads.frame]
  refine ⟨?_, ?_, ?_, w, ?_, ?_, h.readControls⟩
  · obtain ⟨list, hlist, hvalues⟩ := h.frontend
    have hspecs : v.frontend.map (·.toSpec) =
        (FrontendOption.all.map (FrontendOption.item setup.overscan)).map (·.toSpec) := by
      rw [h.shaped, List.map_map]
      rfl
    -- the second reading finds what the first one has left, and changes nothing
    obtain ⟨again, hagain, hsame⟩ := layers_again hlist hspecs hvalues
    rw [hreads.frontend, Option.some.injEq] at hagain
    exact ⟨list, hlist, by rw [hfrontend, hagain, hsame]⟩
  · obtain ⟨core, hreported, rfl | hread⟩ := h.core
    · exact ⟨v.core, w.core, hreported, hreads.core, by rw [hcore]⟩
    · obtain ⟨again, hagain, hsame⟩ := layers_again hread (layers_specs hread) rfl
      rw [hreads.core, Option.some.injEq] at hagain
      exact ⟨core, v.core, hreported, hread, by rw [hcore, hagain, hsame]⟩
  · have hfirst := h.gamepad
    have hsecond := hreads.gamepad
    rw [hcustom, hgamepad]
    cases hearly : setup.early.customControllers with
    | true =>
        -- where the types were known early they are read twice
        have hset : v.hasCustomControllers = true := by rw [h.custom, hearly, Bool.true_or]
        rw [hearly] at hfirst
        rw [hset] at hsecond ⊢
        have hagain := readType_again hfirst
        rw [hagain, Option.some.injEq] at hsecond
        rw [← hsecond]
        exact hfirst
    | false =>
        rw [hearly] at hfirst
        rw [layers_unset hfirst] at hsecond
        exact hsecond
  · rw [hreads.frame]
    exact h.controls
  · rw [hreads.frame]
    exact h.shortcuts

/-! ## The restore -/

/-- The value of every option, the button and the modifier of every control and shortcut,
and the type of the gamepad. -/
structure Settings where
  frontend : List Int
  core : List Int
  controls : List (Int × Bool)
  shortcuts : List (Int × Bool)
  gamepadType : Fin gamepadCount
  deriving DecidableEq

def settings (s : Session) : Settings where
  frontend := s.frontend.map (·.value)
  core := s.core.map (·.value)
  controls := s.controls.map Mapping.binding
  shortcuts := s.shortcuts.map Mapping.binding
  gamepadType := s.gamepadType

theorem values_eq_of_defaults {a b : List Item} (hspecs : b.map (·.toSpec) = a.map (·.toSpec))
    (ha : a.map (·.value) = a.map (·.defaultValue))
    (hb : b.map (·.value) = b.map (·.defaultValue)) : b.map (·.value) = a.map (·.value) := by
  have hdefaults (list : List Item) :
      list.map (·.defaultValue) = (list.map (·.toSpec)).map (·.defaultValue) := by
    rw [List.map_map]
    rfl
  rw [hb, hdefaults, hspecs, ← hdefaults, ha]

theorem map_restore_values (list : List Item) :
    (list.map Item.restore).map (·.value) = (list.map Item.restore).map (·.defaultValue) := by
  rw [List.map_map, List.map_map]
  rfl

/-- What a session falls back to before the files are read again. -/
theorem Kept.fallBack_defaults (h : s.Kept setup) :
    s.fallBack.frontend.map (·.value) = s.fallBack.frontend.map (·.defaultValue) ∧
      s.fallBack.core.map (·.value) = s.fallBack.core.map (·.defaultValue) ∧
      s.fallBack.gamepadType = ⟨0, by decide⟩ ∧
      startControls setup = some s.fallBack.controls ∧
      s.fallBack.shortcuts = unboundShortcuts := by
  obtain ⟨hcore, -, hgamepad, hcontrols, hshortcuts, -⟩ := fallBack_rest s
  refine ⟨?_, ?_, ?_, ?_, ?_⟩
  · rw [fallBack_frontend h.shaped]
    exact map_restore_values _
  · rw [hcore]
    exact map_restore_values _
  · rw [hgamepad]
    split
    next => rfl
    next hcustom => exact h.gamepad (by simpa using hcustom)
  · obtain ⟨controls, hstart, hnames⟩ := h.controls
    have hdefault (list : List Mapping) :
        list.map (fun control => control.bind (control.default_, false)) =
          (list.map Mapping.unbound).map
            (fun control => control.bind (control.default_, false)) := by
      rw [List.map_map]
      rfl
    rw [hcontrols, hdefault, hnames, ← hdefault, bind_default_of_startControls hstart]
    exact hstart
  · rw [hshortcuts, h.shortcuts]
    decide

/-- What a restore makes of the files that are left is what they lay over the defaults. -/
theorem restore_of_layered (ht : t.Kept setup) (hs : s.Kept setup)
    (hlayered : s.Layered setup (sourcesOf setup (t.files.remove t.loaded))) :
    ∃ r, t.restore setup = some r ∧ r.settings = s.settings := by
  have hunlinked : t.unlinkLoaded.Kept setup := ht.mono rfl rfl rfl rfl rfl fun _ => rfl
  obtain ⟨hfrontend, hcore, hgamepad, hcontrols, hshortcuts⟩ := hunlinked.fallBack_defaults
  have hkept := hunlinked.fallBack
  have hfound : (t.unlinkLoaded.fallBack.load setup).1 =
      sourcesOf setup (t.files.remove t.loaded) := by
    obtain ⟨-, -, -, -, -, hfiles⟩ := fallBack_rest t.unlinkLoaded
    unfold load
    rw [hfiles]
    rfl
  generalize sourcesOf setup (t.files.remove t.loaded) = sources at hlayered hfound
  -- the layers are those of the start, so each part is read to the same values
  obtain ⟨first, hfirst, hfirstValues⟩ := hlayered.frontend
  obtain ⟨reported, second, hreported, hsecond, hsecondValues⟩ := hlayered.core
  obtain ⟨w, hwControls, hwShortcuts, hread⟩ := hlayered.bindings
  have hspecs : t.unlinkLoaded.fallBack.frontend.map (·.toSpec) =
      (FrontendOption.all.map (FrontendOption.item setup.overscan)).map (·.toSpec) := by
    rw [hkept.shaped, List.map_map]
    rfl
  obtain ⟨frontend, hreadFrontend, hfrontendValues⟩ := layers_congr hspecs
    (values_eq_of_defaults hspecs (by rw [List.map_map, List.map_map]; rfl) hfrontend) hfirst
  obtain ⟨core', hreported', hcoreSpecs⟩ := hkept.core
  rw [hreported, Option.some.injEq] at hreported'
  subst hreported'
  obtain ⟨core, hreadCore, hcoreValues⟩ := layers_congr hcoreSpecs
    (values_eq_of_defaults hcoreSpecs (default_of_reportedCore hreported) hcore) hsecond
  have hreadGamepad : layers (readType t.unlinkLoaded.fallBack.hasCustomControllers) sources
      t.unlinkLoaded.fallBack.gamepadType = some s.gamepadType := by
    rw [hkept.custom, ← hs.custom, hgamepad]
    exact hlayered.gamepad
  have hloaded : (t.unlinkLoaded.fallBack.load setup).2.Shaped setup.overscan := hkept.shaped
  obtain ⟨u, hu, hparts⟩ := exists_readOptions hloaded hreadFrontend hreadCore hreadGamepad
  obtain ⟨hreads, -⟩ := reads_of_readOptions hloaded hu
  have huControls : u.controls = w.controls := by
    rw [hreads.frame]
    rw [hcontrols, Option.some.injEq] at hwControls
    exact hwControls
  have huShortcuts : u.shortcuts = w.shortcuts := by
    rw [hreads.frame, hwShortcuts]
    exact hshortcuts
  obtain ⟨r, hr, hrControls, hrShortcuts⟩ := readControls_congr huControls huShortcuts hread
  refine ⟨r, ?_, ?_⟩
  · unfold Session.restore
    simp only [hfound, hu, hr, Option.bind_eq_bind, Option.bind_some]
  · obtain ⟨hufrontend, hucore, hugamepad⟩ := hparts
    have hrframe := readControls_frame hr
    have hframe : r.frontend = frontend ∧ r.core = core ∧ r.gamepadType = s.gamepadType := by
      rw [hrframe]
      exact ⟨hufrontend, hucore, hugamepad⟩
    unfold settings
    rw [hframe.1, hframe.2.1, hframe.2.2, hrControls, hrShortcuts, hfrontendValues, hcoreValues,
      hfirstValues, hsecondValues]

/-- From whatever state the changes of a session lead to, restoring the defaults returns with
the settings that a start finds with the files that are left, if that start returns. -/
theorem restore_eq_start {u : Session} (hstart : start setup files = some s)
    (hreach : Run.Reaches (step setup) (fun _ _ => True) s t)
    (hfresh : start setup (t.files.remove t.loaded) = some u) :
    ∃ r, t.restore setup = some r ∧ r.settings = u.settings := by
  obtain ⟨v, w, hstages⟩ := exists_stages hstart
  obtain ⟨v', w', hstages'⟩ := exists_stages hfresh
  have ht : t.Kept setup :=
    hreach.invariant hstages.kept fun hs _ hstep => Kept.step hs hstep
  exact restore_of_layered ht hstages'.kept hstages'.layered

/-- A pak that binds two buttons and turns an effect on, for a core with one option. -/
def twoButtons : Setup where
  overscan := false
  vsyncToggle := true
  systemCfg := none
  defaultCfg := some
    "bind Jump = A:B\nbind Run = MENU+B:Y\nminarch_screen_effect = Grid\n".toList
  early := ⟨none, false, none⟩
  late := ⟨some (.vars [⟨"speed".toList, "Speed; slow|fast".toList⟩]), true, none⟩

/-- Everything that can be set is set, and saved for the game. -/
def busy : List Change :=
  [.openMenu .core, .changeOption .core 0 true, .cycleScale,
    .bind .controls 0 ⟨3, by decide⟩ true, .bind .shortcuts 2 ⟨16, by decide⟩ false,
    .chooseGamepad (Fin.last 1), .write .game true]

theorem restore_eq_start_twoButtons :
    let files : UserFiles := ⟨some "minarch_cpu_speed = Performance\n".toList, none⟩
    ∃ s t u, start twoButtons files = some s ∧
      Run.Reaches (step twoButtons) (fun _ _ => True) s t ∧
      start twoButtons (t.files.remove t.loaded) = some u ∧ t.settings ≠ u.settings ∧
      ∃ r, t.restore twoButtons = some r ∧ r.settings = u.settings := by
  intro files
  have hrun : ((start twoButtons files).bind
      (Run.follow (step twoButtons) (fun _ _ => true) busy)).any
        (fun t => (start twoButtons (t.files.remove t.loaded)).any
          fun u => t.settings ≠ u.settings) = true := by decide +kernel
  obtain ⟨s, t, hstart, hreach, ht⟩ := Run.exists_reaches_of_follow hrun
  have hreach' := hreach.mono fun _ _ _ => trivial
  cases hfresh : start twoButtons (t.files.remove t.loaded) with
  | none => simp [hfresh] at ht
  | some u =>
      rw [hfresh] at ht
      exact ⟨s, t, u, hstart, hreach', hfresh, of_decide_eq_true ht,
        restore_eq_start hstart hreach' hfresh⟩

end Session

end DarkUI.Minarch.Options
