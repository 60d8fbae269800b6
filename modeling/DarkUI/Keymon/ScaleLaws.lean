import DarkUI.Keymon.Keymon

/-! # The scales of brightness and volume

From settings on their scales no key, no change of HDMI or of the jack and no other program leaves
the scales, and what is sent to the hardware is what the settings mean.
-/

namespace DarkUI.Keymon

open FixedPoint

namespace Settings

/-- Brightness and both volumes are on their scales. -/
structure InRange (s : Settings) : Prop where
  brightness_nonneg : 0 ≤ s.getBrightness.toInt
  brightness_le : s.getBrightness.toInt ≤ 10
  speaker_nonneg : 0 ≤ s.speaker.toInt
  speaker_le : s.speaker.toInt ≤ 20
  headphones_nonneg : 0 ≤ s.headphones.toInt
  headphones_le : s.headphones.toInt ≤ 20

/-- The same without signs, with the version that is trusted. -/
structure Sound (s : Settings) : Prop where
  version : s.version = settingsVersion
  brightness : s.brightness.toNat ≤ 10
  speaker : s.speaker.toNat ≤ 20
  headphones : s.headphones.toNat ≤ 20

end Settings

/-- A file whose settings are on their scales, if they are trusted at all. -/
def OnScale (file : Option (List (BitVec 8))) : Prop :=
  ∀ s, file.bind Settings.ofImage = some s → s.version = settingsVersion → s.InRange

namespace Sent

/-- What was sent is what the table or the factor five makes of the setting. -/
def ShowsSetting (s : Settings) : Sent → Prop
  | .brightness raw => raw.isSome ∧ raw = rawBrightness s.getBrightness
  | .volume raw => raw = some (s.getVolume.toInt * 5)

/-- What was sent is the volume that HDMI is given. -/
def IsMaximum (s : Settings) (sent : Sent) : Prop :=
  s.hdmi ≠ 0 ∧ sent = .volume (some 100)

end Sent

theorem toInt_of_small {n : BitVec 32} (h : n.toNat < 2147483648) : n.toInt = n.toNat :=
  BitVec.toInt_eq_toNat_of_lt (by omega)

theorem toNat_le_of_toInt {n : BitVec 32} {k : Nat} (hnonneg : 0 ≤ n.toInt) (hle : n.toInt ≤ k) :
    n.toNat ≤ k := by
  rw [BitVec.toInt_eq_toNat_cond] at hnonneg hle
  split at hle <;> omega

theorem toInt_mem {n : BitVec 32} {k : Nat} (h : n.toNat ≤ k) (hk : k < 2147483648) :
    0 ≤ n.toInt ∧ n.toInt ≤ k := by
  rw [toInt_of_small (by omega)]
  omega

variable {s : Settings} {value : BitVec 32}

theorem Settings.Sound.inRange (h : s.Sound) : s.InRange :=
  have hbrightness := toInt_mem h.brightness (by decide)
  have hspeaker := toInt_mem h.speaker (by decide)
  have hheadphones := toInt_mem h.headphones (by decide)
  ⟨hbrightness.1, hbrightness.2, hspeaker.1, hspeaker.2, hheadphones.1, hheadphones.2⟩

theorem Settings.InRange.sound (h : s.InRange) (hversion : s.version = settingsVersion) :
    s.Sound :=
  ⟨hversion, toNat_le_of_toInt h.brightness_nonneg h.brightness_le,
    toNat_le_of_toInt h.speaker_nonneg h.speaker_le,
    toNat_le_of_toInt h.headphones_nonneg h.headphones_le⟩

theorem Settings.Sound.volume (h : s.Sound) : s.getVolume.toNat ≤ 20 := by
  unfold getVolume
  split
  · exact h.headphones
  · exact h.speaker

theorem sound_default : defaultSettings.Sound :=
  ⟨rfl, by decide, by decide, by decide⟩

/-- What was saved is read back, a number at a time. -/
theorem intsOf_bytesOf (n : BitVec 32) (rest : List (BitVec 8)) :
    intsOf (bytesOf n ++ rest) = n :: intsOf rest := by
  have hbytes : (n.extractLsb' 24 8 ++ n.extractLsb' 16 8 ++ n.extractLsb' 8 8 ++
      n.extractLsb' 0 8 : BitVec 32) = n := by
    ext i hi
    simp only [BitVec.getElem_append, BitVec.getElem_extractLsb']
    rw [← BitVec.getLsbD_eq_getElem hi]
    split_ifs <;> congr 1 <;> omega
  exact congrArg (· :: intsOf rest) hbytes

theorem ofImage_image (s : Settings) : Settings.ofImage s.image = some s := by
  unfold Settings.ofImage Settings.image
  simp only [List.flatMap_cons, intsOf_bytesOf, List.flatMap_nil]

/-- Sound settings are saved as a file that is on the scales. -/
theorem Settings.Sound.onScale (h : s.Sound) : OnScale (some s.image) := by
  intro t ht _
  rw [Option.bind_some, ofImage_image] at ht
  exact Option.some.inj ht ▸ h.inRange

/-- A file on the scales, or none, is loaded as sound settings. -/
theorem OnScale.load {file : Option (List (BitVec 8))} (h : OnScale file) :
    (Settings.load file).Sound := by
  unfold Settings.load
  dsimp only
  split
  next => exact sound_default
  next hversion =>
    rw [not_not] at hversion
    cases hread : file.bind Settings.ofImage with
    | none => exact sound_default
    | some s =>
        rw [hread] at hversion
        exact (h s hread hversion).sound hversion

/-- Every brightness on the scale is in the table. -/
theorem isSome_rawBrightness (h : value.toNat ≤ 10) : (rawBrightness value).isSome := by
  unfold rawBrightness
  rw [List.getElem?_eq_getElem (by simp only [List.length_cons, List.length_nil]; omega)]
  rfl

theorem rawVolume_eq (h : value.toNat ≤ 20) : rawVolume value = some (value.toInt * 5) := by
  obtain ⟨hnonneg, hle⟩ := toInt_mem h (by decide)
  exact if_pos ⟨by omega, by omega⟩

namespace Shared

/-- What holds between any two calls. -/
structure Sound (s : Shared) : Prop where
  settings : s.settings.Sound
  sent : ∀ p ∈ s.sent, p.1.ShowsSetting p.2 ∨ p.1.IsMaximum p.2
  saved : ∀ image ∈ s.saved, OnScale (some image)

variable {s : Shared}

theorem Sound.store (h : s.Sound) {settings : Settings} {sent : Sent} (hsettings : settings.Sound)
    (hsent : sent.ShowsSetting settings) : (s.store settings sent).Sound where
  settings := hsettings
  sent := by
    intro p hp
    rcases List.mem_append.mp hp with hp | hp
    · exact h.sent p hp
    · rw [List.mem_singleton.mp hp]
      exact .inl hsent
  saved := by
    intro image himage
    rcases List.mem_append.mp himage with himage | himage
    · exact h.saved image himage
    · rw [List.mem_singleton.mp himage]
      exact hsettings.onScale

/-- Other settings in memory, with nothing sent or saved yet. -/
theorem Sound.withSettings (h : s.Sound) {settings : Settings} (hsettings : settings.Sound) :
    { s with settings := settings }.Sound :=
  ⟨hsettings, h.sent, h.saved⟩

theorem Sound.setBrightness (h : s.Sound) (hvalue : value.toNat ≤ 10) :
    (s.setBrightness value).Sound := by
  obtain ⟨hversion, -, hspeaker, hheadphones⟩ := h.settings
  unfold Shared.setBrightness
  split
  next => exact h
  next => exact h.store ⟨hversion, hvalue, hspeaker, hheadphones⟩ ⟨isSome_rawBrightness hvalue, rfl⟩

theorem Sound.setVolume (h : s.Sound) (hvalue : value.toNat ≤ 20) : (s.setVolume value).Sound := by
  obtain ⟨hversion, hbrightness, hspeaker, hheadphones⟩ := h.settings
  have hsent {settings : Settings} (hvolume : settings.getVolume = value) :
      (Sent.volume (rawVolume value)).ShowsSetting settings := by
    rw [rawVolume_eq hvalue, Sent.ShowsSetting, hvolume]
  unfold Shared.setVolume
  split
  next => exact h
  next =>
    split
    next hjack => exact h.store ⟨hversion, hbrightness, hspeaker, hvalue⟩ (hsent (if_pos hjack))
    next hjack => exact h.store ⟨hversion, hbrightness, hvalue, hheadphones⟩ (hsent (if_neg hjack))

theorem Sound.setJack (h : s.Sound) (value : BitVec 32) : (s.setJack value).Sound := by
  have hsettings : { s.settings with jack := value }.Sound :=
    ⟨h.settings.version, h.settings.brightness, h.settings.speaker, h.settings.headphones⟩
  exact (h.withSettings hsettings).setVolume hsettings.volume

theorem Sound.setHDMI (h : s.Sound) (value : BitVec 32) : (s.setHDMI value).Sound := by
  have hsettings : { s.settings with hdmi := value }.Sound :=
    ⟨h.settings.version, h.settings.brightness, h.settings.speaker, h.settings.headphones⟩
  unfold Shared.setHDMI
  dsimp only
  split
  next hvalue =>
    refine ⟨hsettings, fun p hp => ?_, h.saved⟩
    rcases List.mem_append.mp hp with hp | hp
    · exact h.sent p hp
    · rw [List.mem_singleton.mp hp]
      exact .inr ⟨hvalue, rfl⟩
  next => exact (h.withSettings hsettings).setVolume hsettings.volume

theorem Sound.client (h : s.Sound) (jack hdmi : BitVec 32) : (s.client jack hdmi).Sound := by
  have hset := (h.setJack jack).setHDMI hdmi
  exact hset.setBrightness hset.settings.brightness

theorem host_sound {file : Option (List (BitVec 8))} (h : OnScale file) (jack hdmi : BitVec 32) :
    (host file jack hdmi).Sound :=
  Sound.client ⟨h.load, fun _ hp => absurd hp List.not_mem_nil,
    fun _ himage => absurd himage List.not_mem_nil⟩ jack hdmi

/-- The end of the scale that `menu` chooses. -/
def top (menu : Bool) : BitVec 32 := if menu then brightnessMax else volumeMax

theorem Sound.setting (h : s.Sound) (menu : Bool) :
    (Loop.setting menu s).toNat ≤ (top menu).toNat := by
  cases menu with
  | false => exact h.settings.volume
  | true => exact h.settings.brightness

theorem Sound.set (h : s.Sound) {menu : Bool} (hvalue : value.toNat ≤ (top menu).toNat) :
    (Loop.set menu s value).Sound := by
  cases menu with
  | false => exact h.setVolume hvalue
  | true => exact h.setBrightness hvalue

/-- A step up is made only below the top of the scale. -/
theorem Sound.raise (h : s.Sound) (menu : Bool) (val : BitVec 32) :
    (if val < top menu then Loop.set menu s (val + 1) else s).Sound := by
  split
  next hlt =>
    refine h.set ?_
    have hle : (top menu).toNat ≤ 20 := by cases menu <;> decide
    have hlt' : val.toNat < (top menu).toNat := hlt
    have hone : (1 : BitVec 32).toNat = 1 := rfl
    rw [BitVec.toNat_add_of_lt (by omega)]
    exact hlt'
  next => exact h

/-- A step down is made only above the bottom of the scale. -/
theorem Sound.lower (h : s.Sound) {menu : Bool} {val : BitVec 32}
    (hval : val.toNat ≤ (top menu).toNat) (low : BitVec 32) :
    (if val > low then Loop.set menu s (val - 1) else s).Sound := by
  split
  next hgt =>
    refine h.set ?_
    have hpos : 1 ≤ val.toNat := Nat.one_le_of_lt hgt
    rw [BitVec.toNat_sub_of_le hpos]
    exact le_trans (Nat.sub_le _ _) hval
  next => exact h

end Shared

namespace Machine

/-- What keymon has read of a setting is on the scale. -/
def Holds : Phase → Prop
  | .upSet menu val => val.toNat ≤ (Shared.top menu).toNat
  | .downSet menu val => val.toNat ≤ (Shared.top menu).toNat
  | _ => True

structure Sound (m : Machine) : Prop where
  shared : m.shared.Sound
  holds : Holds m.loop.phase

variable {m : Machine}

theorem phase_event (l : Loop) (ev : Event) : (l.event ev).phase = l.phase := by
  unfold Loop.event
  split_ifs <;> rfl

theorem phase_events (l : Loop) (events : List Event) :
    (events.foldl Loop.event l).phase = l.phase := by
  induction events generalizing l with
  | nil => rfl
  | cons ev rest ih => exact (ih _).trans (phase_event l ev)

theorem phase_poll (l : Loop) (now : BitVec 32) (events : List Event) :
    (l.poll now events).phase = .up := by
  unfold Loop.poll
  dsimp only
  split
  · rfl
  · exact phase_events _ events

/-- One part of the loop: a value is set only if it is a step from one on the scale and does not
leave it. -/
theorem Sound.next (h : m.Sound) (now : BitVec 32) (events : List Event) :
    (m.step (.keymon now events)).Sound := by
  obtain ⟨l, s⟩ := m
  obtain ⟨hshared, hholds⟩ := h
  dsimp only at hshared hholds
  unfold step Loop.next
  cases hphase : l.phase with
  | poll => exact ⟨hshared, (phase_poll l now events).symm ▸ trivial⟩
  | up =>
      dsimp only
      split
      next => exact ⟨hshared, hshared.setting _⟩
      next => exact ⟨hshared, trivial⟩
  | upSet menu val =>
      exact ⟨hshared.raise menu val, trivial⟩
  | down =>
      dsimp only
      split
      next => exact ⟨hshared, hshared.setting _⟩
      next => exact ⟨hshared, trivial⟩
  | downSet menu val =>
      rw [hphase] at hholds
      exact ⟨hshared.lower hholds _, trivial⟩

theorem Sound.step (h : m.Sound) (action : Action) : (m.step action).Sound := by
  cases action with
  | keymon now events => exact h.next now events
  | hdmi value => exact ⟨h.shared.setHDMI value, h.holds⟩
  | jack value => exact ⟨h.shared.setJack value, h.holds⟩
  | client jack hdmi => exact ⟨h.shared.client jack hdmi, h.holds⟩

theorem Sound.run (h : m.Sound) (actions : List Action) : (m.run actions).Sound := by
  unfold Machine.run
  induction actions generalizing m with
  | nil => exact h
  | cons action rest ih => exact ih (h.step action)

end Machine

/-- From a file on the scales, whatever happens leaves the settings on their scales, all that is
sent is what the settings mean or the full volume for HDMI, and all that is saved is on the scales
again. -/
theorem scales_kept (file : Option (List (BitVec 8))) (hfile : OnScale file)
    (jack hdmi now : BitVec 32) (actions : List Action) :
    ((Machine.start file jack hdmi now).run actions).shared.settings.InRange ∧
      (∀ p ∈ ((Machine.start file jack hdmi now).run actions).shared.sent,
        p.1.ShowsSetting p.2 ∨ p.1.IsMaximum p.2) ∧
      ∀ image ∈ ((Machine.start file jack hdmi now).run actions).shared.saved,
        OnScale (some image) := by
  have hstart : (Machine.start file jack hdmi now).Sound :=
    ⟨Shared.host_sound hfile jack hdmi, trivial⟩
  obtain ⟨hsettings, hsent, hsaved⟩ := (hstart.run actions).shared
  exact ⟨hsettings.inRange, hsent, hsaved⟩

/-- VOLUME UP, with the three parts of the loop that serve it. -/
def plusPressed : List Action :=
  [.keymon 17 [⟨evKey, codePlus, 1⟩], .keymon 17 [], .keymon 17 []]

theorem onScale_none : OnScale none := fun _ hread => nomatch hread

/-- Without a file the volume of the speaker starts at 8, and the key makes it 9. -/
theorem scales_kept_plus :
    ((Machine.start none 0 0 0).run plusPressed).shared.settings.speaker = 9 ∧
      ((Machine.start none 0 0 0).run plusPressed).shared.settings.InRange ∧
      (∀ p ∈ ((Machine.start none 0 0 0).run plusPressed).shared.sent,
        p.1.ShowsSetting p.2 ∨ p.1.IsMaximum p.2) ∧
      ∀ image ∈ ((Machine.start none 0 0 0).run plusPressed).shared.saved,
        OnScale (some image) :=
  ⟨by decide, scales_kept none onScale_none 0 0 0 plusPressed⟩

/-- HDMI is given the full volume whatever the setting is, and a file of the right version may hold
any brightness. -/
theorem scales_left :
    (¬ ∀ file jack hdmi now actions,
        ∀ p ∈ ((Machine.start file jack hdmi now).run actions).shared.sent,
          p.1.ShowsSetting p.2) ∧
      ¬ ∀ file jack hdmi now actions,
        ((Machine.start file jack hdmi now).run actions).shared.settings.InRange := by
  constructor
  · intro h
    have hfull : (some 100 : Option Int) = some (defaultSettings.speaker.toInt * 5) :=
      h none 0 1 0 [] (.volume (some 100), { defaultSettings with hdmi := 1 }) (by decide)
    exact absurd hfull (by decide)
  · intro h
    have hbright :=
      (h (some { defaultSettings with brightness := 50 }.image) 0 0 0 []).brightness_le
    exact absurd hbright (by decide)

end DarkUI.Keymon
