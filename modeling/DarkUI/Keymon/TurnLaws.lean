import DarkUI.Keymon.ScaleLaws
import DarkUI.Keymon.Turns

/-! # The keys turn the dials

Turn by turn keymon does what the player expects of the keys, and a key that is held for a while
makes its strokes at once, after 300 ms and then every 100 ms.
-/

namespace DarkUI.Keymon

variable {now value : BitVec 32} {d : Direction} {menu : Bool}

/-- The overflow of the clock is over a second away. -/
def InTime (now : Nat) : Prop := now + 1000 < 4294967296

section Keys

variable {key : Key} {held : Option Hold} {hold : Hold}

/-- What the variables of a key say of it. -/
def Key.Shows (key : Key) : Option Hold → Prop
  | none => key.pressed = 0 ∧ key.justPressed = 0
  | some hold => key.pressed ≠ 0 ∧ (key.justPressed ≠ 0 ↔ hold.made = 0) ∧
      key.repeatAt.toNat = Repeats.dueAt (hold.since + 300) 100 (hold.made - 1)

theorem Key.shows_released : Key.released.Shows none := ⟨rfl, rfl⟩

theorem Key.shows_event (hnow : InTime now.toNat) :
    (key.event now value).Shows (if value ≠ 0 then some ⟨now.toNat, 0⟩ else none) := by
  unfold InTime at hnow
  unfold Key.event
  split
  next hvalue =>
    refine ⟨hvalue, iff_of_true hvalue rfl, ?_⟩
    rw [BitVec.toNat_add_of_lt (by change now.toNat + 300 < 4294967296; omega)]
    rfl
  next hvalue =>
    rw [not_not] at hvalue
    exact ⟨hvalue, hvalue⟩

theorem Key.due_eq_true : key.due now = true ↔
    key.justPressed ≠ 0 ∨ key.pressed ≠ 0 ∧ key.repeatAt.toNat ≤ now.toNat := by
  simp [Key.due, BitVec.le_def]

theorem Key.Shows.not_due (h : key.Shows none) : ¬key.due now = true := by
  obtain ⟨hpressed, hjust⟩ := h
  rw [Key.due_eq_true]
  rintro (h | ⟨h, -⟩)
  · exact h hjust
  · exact h hpressed

/-- A key is due as long as it has made too few strokes. -/
theorem Key.Shows.due_iff (h : key.Shows (some hold)) :
    key.due now = true ↔ hold.made < strokes hold.since now.toNat := by
  obtain ⟨hpressed, hjust, hrepeat⟩ := h
  rw [Key.due_eq_true, hjust, hrepeat, and_iff_right hpressed]
  unfold strokes
  cases hold.made with
  | zero => exact iff_of_true (.inl rfl) (Nat.succ_pos _)
  | succ n =>
      rw [Nat.add_sub_cancel, Nat.add_lt_add_iff_right, Repeats.lt_count_iff (by decide)]
      exact or_iff_right (Nat.succ_ne_zero n)

theorem Key.Shows.served (h : key.Shows (some hold)) (hdue : key.due now = true)
    (hnow : InTime now.toNat) : key.served.Shows (some { hold with made := hold.made + 1 }) := by
  have hcount := h.due_iff.mp hdue
  obtain ⟨hpressed, hjust, hrepeat⟩ := h
  unfold Key.served
  split
  next hfirst =>
    refine ⟨hpressed, by simp, ?_⟩
    rw [hjust.mp hfirst] at hrepeat ⊢
    exact hrepeat
  next hfirst =>
    refine ⟨hpressed, iff_of_false hfirst (Nat.succ_ne_zero _), ?_⟩
    obtain ⟨n, hmade⟩ := Nat.exists_eq_succ_of_ne_zero (mt hjust.mpr hfirst)
    rw [hmade, Nat.succ_sub_one] at hrepeat
    rw [hmade] at hcount ⊢
    have hreached := (Repeats.lt_count_iff (by decide)).mp (Nat.lt_of_succ_lt_succ hcount)
    unfold InTime at hnow
    dsimp only
    rw [BitVec.toNat_add_of_lt (by change _ + 100 < 4294967296; omega), hrepeat,
      Nat.add_sub_cancel, Nat.succ_eq_add_one, Repeats.dueAt_succ]
    rfl

end Keys

section Settings

variable {s : Shared} {jack hdmi : Bool} {dials : Dials}

/-- What the shared settings say of the jack, HDMI and the dials. -/
structure Shared.Shows (s : Shared) (jack hdmi : Bool) (dials : Dials) : Prop where
  jack : s.settings.jack ≠ 0 ↔ jack = true
  hdmi : s.settings.hdmi ≠ 0 ↔ hdmi = true
  speaker : s.settings.speaker.toNat = dials.speaker
  headphones : s.settings.headphones.toNat = dials.headphones
  brightness : s.settings.brightness.toNat = dials.brightness

/-- The setting moves as a dial does whose top it has. -/
theorem moved_eq {top : Nat} {dial : Dial top} {val : BitVec 32}
    (htop : (Shared.top menu).toNat = top) (hval : val.toNat = dial) (d : Direction) :
    ((d.moved menu val).getD val).toNat = d.stroke dial := by
  have hle : top ≤ 20 := by
    rw [← htop]
    cases menu <;> decide
  have hdial := dial.isLt
  cases d with
  | up =>
      change ((if val < Shared.top menu then some (val + 1) else none).getD val).toNat =
        min top (dial.val + 1)
      split
      next hlt =>
        rw [BitVec.lt_def, htop] at hlt
        rw [Option.getD_some, BitVec.toNat_add_of_lt (by change _ + 1 < 4294967296; omega), hval]
        change dial.val + 1 = _
        omega
      next hlt =>
        rw [BitVec.lt_def, htop] at hlt
        rw [Option.getD_none]
        omega
  | down =>
      have hbottom : (if menu then brightnessMin else volumeMin) = 0 := by cases menu <;> rfl
      change ((if val > (if menu then brightnessMin else volumeMin) then some (val - 1)
        else none).getD val).toNat = dial.val - 1
      rw [hbottom]
      split
      next hgt =>
        have hpos : (1 : BitVec 32) ≤ val := BitVec.le_def.mpr (BitVec.lt_def.mp hgt)
        rw [Option.getD_some, BitVec.toNat_sub_of_le hpos, hval]
        rfl
      next hgt =>
        rw [gt_iff_lt, BitVec.lt_def] at hgt
        change ¬0 < val.toNat at hgt
        rw [Option.getD_none]
        omega

/-- HDMI keeps the settings as they are. -/
theorem moved_hdmi (hhdmi : s.settings.hdmi ≠ 0) : s.moved menu d = s := by
  unfold Shared.moved
  split
  · cases menu with
    | false => exact if_pos hhdmi
    | true => exact if_pos hhdmi
  · rfl

/-- Otherwise the one setting is moved that the key is for. -/
theorem settings_moved (hhdmi : s.settings.hdmi = 0) (menu : Bool) (d : Direction) :
    (s.moved menu d).settings =
      let val := (d.moved menu (Loop.setting menu s)).getD (Loop.setting menu s)
      if menu then { s.settings with brightness := val }
      else if s.settings.jack ≠ 0 then { s.settings with headphones := val }
      else { s.settings with speaker := val } := by
  have hset : ¬s.settings.hdmi ≠ 0 := not_not.mpr hhdmi
  unfold Shared.moved
  cases hval : d.moved menu (Loop.setting menu s) with
  | some val =>
      cases menu with
      | true => exact congrArg Shared.settings (if_neg hset)
      | false =>
          change (s.setVolume val).settings = _
          unfold Shared.setVolume
          rw [if_neg hset]
          split <;> rfl
  | none =>
      cases menu with
      | true => rfl
      | false =>
          change s.settings = if s.settings.jack ≠ 0 then
            { s.settings with headphones := s.settings.getVolume }
            else { s.settings with speaker := s.settings.getVolume }
          unfold Settings.getVolume
          split <;> rfl

/-- A stroke turns the dial that is seen or heard, unless HDMI holds it. -/
theorem Shared.Shows.moved (h : s.Shows jack hdmi dials) (menu : Bool) (d : Direction) :
    (s.moved menu d).Shows jack hdmi (if hdmi then dials else dials.stroke menu jack d) := by
  obtain ⟨hjack, hhdmi, hspeaker, hheadphones, hbrightness⟩ := h
  cases hdmi with
  | true =>
      rw [moved_hdmi (hhdmi.mpr rfl)]
      exact ⟨hjack, hhdmi, hspeaker, hheadphones, hbrightness⟩
  | false =>
      have hsettings :=
        settings_moved (not_not.mp (mt hhdmi.mp Bool.false_ne_true)) menu d
      cases menu with
      | true =>
          have hdial := moved_eq (show (Shared.top true).toNat = 10 from rfl) hbrightness d
          constructor <;> rw [hsettings]
          exacts [hjack, hhdmi, hspeaker, hheadphones, hdial]
      | false =>
          unfold Loop.setting Settings.getVolume at hsettings
          cases jack with
          | true =>
              have hdial := moved_eq (show (Shared.top false).toNat = 20 from rfl) hheadphones d
              simp only [Bool.false_eq_true, if_false, if_pos (hjack.mpr rfl)] at hsettings
              constructor <;> rw [hsettings]
              exacts [hjack, hhdmi, hspeaker, hdial, hbrightness]
          | false =>
              have hdial := moved_eq (show (Shared.top false).toNat = 20 from rfl) hspeaker d
              simp only [Bool.false_eq_true, if_false,
                if_neg (mt hjack.mp Bool.false_ne_true)] at hsettings
              constructor <;> rw [hsettings]
              exacts [hjack, hhdmi, hdial, hheadphones, hbrightness]

/-- To set the volume that is heard changes no setting. -/
theorem settings_setVolume (s : Shared) :
    (s.setVolume s.settings.getVolume).settings = s.settings := by
  unfold Shared.setVolume Settings.getVolume
  split
  · rfl
  · split <;> rfl

theorem settings_setBrightness (s : Shared) :
    (s.setBrightness s.settings.getBrightness).settings = s.settings := by
  unfold Shared.setBrightness
  split <;> rfl

theorem settings_setJack (s : Shared) (value : BitVec 32) :
    (s.setJack value).settings = { s.settings with jack := value } :=
  settings_setVolume _

theorem settings_setHDMI (s : Shared) (value : BitVec 32) :
    (s.setHDMI value).settings = { s.settings with hdmi := value } := by
  unfold Shared.setHDMI
  dsimp only
  split
  · rfl
  · exact settings_setVolume _

theorem settings_client (s : Shared) (jack hdmi : BitVec 32) :
    (s.client jack hdmi).settings = { s.settings with jack := jack, hdmi := hdmi } := by
  unfold Shared.client
  rw [settings_setBrightness, settings_setHDMI, settings_setJack]

theorem Shared.Shows.setJack (h : s.Shows jack hdmi dials) (value : BitVec 32) :
    (s.setJack value).Shows (value ≠ 0) hdmi dials := by
  constructor <;> rw [settings_setJack]
  exacts [decide_eq_true_iff.symm, h.hdmi, h.speaker, h.headphones, h.brightness]

theorem Shared.Shows.setHDMI (h : s.Shows jack hdmi dials) (value : BitVec 32) :
    (s.setHDMI value).Shows jack (value ≠ 0) dials := by
  constructor <;> rw [settings_setHDMI]
  exacts [h.jack, decide_eq_true_iff.symm, h.speaker, h.headphones, h.brightness]

theorem Shared.Shows.client (h : s.Shows jack hdmi dials) (jack' hdmi' : BitVec 32) :
    (s.client jack' hdmi').Shows (jack' ≠ 0) (hdmi' ≠ 0) dials := by
  constructor <;> rw [settings_client]
  exacts [decide_eq_true_iff.symm, decide_eq_true_iff.symm, h.speaker, h.headphones, h.brightness]

end Settings

section Turns

variable {l : Loop} {m : Machine} {p : Player} {events : List Event}

/-- What the variables of the loop say of the keys. -/
structure Loop.Shows (l : Loop) (p : Player) : Prop where
  menu : l.menuPressed ≠ 0 ↔ p.menu = true
  key : ∀ d, (l.key d).Shows (p.hold d)

theorem key_withKey (l : Loop) (key : Key) (d : Direction) :
    (l.withKey key d).key = Function.update l.key d key := by
  funext e
  cases d <;> cases e <;> rfl

theorem Loop.Shows.withKey (h : l.Shows p) {key : Key} {held : Option Hold} (d : Direction)
    (hkey : key.Shows held) :
    (l.withKey key d).Shows { p with hold := Function.update p.hold d held } where
  menu := by cases d <;> exact h.menu
  key := by
    intro e
    rw [key_withKey]
    change (Function.update l.key d key e).Shows (Function.update p.hold d held e)
    by_cases he : e = d
    · subst he
      rw [Function.update_self, Function.update_self]
      exact hkey
    · rw [Function.update_of_ne he, Function.update_of_ne he]
      exact h.key e

/-- An event is taken where the loop is, at the time that it read. -/
theorem Loop.Shows.event (h : l.Shows p) (hnow : InTime l.now.toNat) (ev : Event) :
    (l.event ev).Shows (p.event l.now.toNat ev) ∧ (l.event ev).now = l.now ∧
      (l.event ev).phase = l.phase := by
  unfold Loop.event Player.event
  split_ifs
  · exact ⟨h, rfl, rfl⟩
  · exact ⟨⟨decide_eq_true_iff.symm, h.key⟩, rfl, rfl⟩
  · exact ⟨h.withKey .up (Key.shows_event hnow), rfl, rfl⟩
  · exact ⟨h.withKey .down (Key.shows_event hnow), rfl, rfl⟩
  · exact ⟨h, rfl, rfl⟩

theorem Loop.Shows.foldl_event (h : l.Shows p) (hnow : InTime l.now.toNat) (events : List Event) :
    (events.foldl Loop.event l).Shows (events.foldl (Player.event l.now.toNat) p) ∧
      (events.foldl Loop.event l).now = l.now ∧ (events.foldl Loop.event l).phase = l.phase := by
  induction events generalizing l p with
  | nil => exact ⟨h, rfl, rfl⟩
  | cons ev rest ih =>
      obtain ⟨hshows, hstays, hphase⟩ := h.event hnow ev
      have hrest := ih hshows (hstays ▸ hnow)
      rw [hstays, hphase] at hrest
      exact hrest

/-- The time between two turns is over a second, or seems so when the clock was set back. -/
theorem slept_iff {last : BitVec 32} (hlast : InTime last.toNat) (hnow : InTime now.toNat) :
    now - last > 1000 ↔ last.toNat + 1000 < now.toNat ∨ now.toNat < last.toNat := by
  unfold InTime at hlast hnow
  rw [gt_iff_lt, BitVec.lt_def, BitVec.toNat_sub]
  change 1000 < (4294967296 - last.toNat + now.toNat) % 4294967296 ↔ _
  omega

theorem Loop.Shows.poll (h : l.Shows p) (hlast : l.thenAt.toNat = p.last) (hstart : InTime p.last)
    (hnow : InTime now.toNat) (events : List Event) :
    (l.poll now events).Shows (p.poll now.toNat events) ∧ (l.poll now events).now = now ∧
      (l.poll now events).phase = .up := by
  unfold Loop.poll Player.poll
  dsimp only
  by_cases hslept : now - l.thenAt > 1000
  · rw [if_pos hslept, if_pos (hlast ▸ (slept_iff (hlast ▸ hstart) hnow).mp hslept)]
    refine ⟨⟨iff_of_false (by simp) Bool.false_ne_true, ?_⟩, rfl, rfl⟩
    intro d
    cases d <;> exact Key.shows_released
  · rw [if_neg hslept, if_neg (hlast ▸ mt (slept_iff (hlast ▸ hstart) hnow).mpr hslept)]
    have htaken : Loop.Shows { l with now := now, phase := .up } p := ⟨h.menu, h.key⟩
    exact htaken.foldl_event hnow events

/-- What keymon and the settings say of the player's keys and dials. -/
structure Machine.Shows (m : Machine) (p : Player) : Prop where
  loop : m.loop.Shows p
  shared : m.shared.Shows p.jack p.hdmi p.dials

theorem Machine.Shows.serve (h : m.Shows p) (hnow : InTime m.loop.now.toNat) (d : Direction) :
    (m.serve d).Shows (p.serve m.loop.now.toNat d) ∧ (m.serve d).loop.now = m.loop.now := by
  have hkey := h.loop.key d
  have hmenu : decide (m.loop.menuPressed ≠ 0) = p.menu :=
    Bool.eq_iff_iff.mpr (decide_eq_true_iff.trans h.loop.menu)
  unfold Machine.serve Player.serve
  cases hhold : p.hold d with
  | none =>
      rw [hhold] at hkey
      rw [if_neg hkey.not_due]
      exact ⟨h, rfl⟩
  | some hold =>
      rw [hhold] at hkey
      dsimp only
      by_cases hdue : (m.loop.key d).due m.loop.now = true
      · rw [if_pos hdue, if_pos (hkey.due_iff.mp hdue), hmenu]
        have hloop := h.loop.withKey d (hkey.served hdue hnow)
        refine ⟨⟨⟨hloop.menu, hloop.key⟩, h.shared.moved p.menu d⟩, ?_⟩
        cases d <;> rfl
      · rw [if_neg hdue, if_neg (mt hkey.due_iff.mpr hdue)]
        exact ⟨h, rfl⟩

theorem finish_poll (hphase : m.loop.phase = .poll) (fuel : Nat) : m.finish fuel = m := by
  cases fuel with
  | zero => rfl
  | succ fuel =>
      unfold Machine.finish
      rw [hphase]

theorem finish_succ (hphase : m.loop.phase ≠ .poll) (fuel : Nat) :
    m.finish (fuel + 1) = (m.step (.keymon 0 [])).finish fuel := by
  conv_lhs => unfold Machine.finish
  split
  · contradiction
  · rfl

theorem moved_up (s : Shared) (menu : Bool) :
    s.moved menu .up = if Loop.setting menu s < (if menu then brightnessMax else volumeMax) then
      Loop.set menu s (Loop.setting menu s + 1) else s := by
  unfold Shared.moved Direction.moved
  dsimp only
  split_ifs <;> rfl

theorem moved_down (s : Shared) (menu : Bool) :
    s.moved menu .down = if Loop.setting menu s > (if menu then brightnessMin else volumeMin) then
      Loop.set menu s (Loop.setting menu s - 1) else s := by
  unfold Shared.moved Direction.moved
  dsimp only
  split_ifs <;> rfl

/-- From where it comes to VOLUME DOWN the loop comes to its end. -/
theorem finish_down (l : Loop) (s : Shared) (fuel : Nat) :
    Machine.finish (fuel + 2) ⟨{ l with phase := .down }, s⟩ =
      let m := Machine.serve ⟨l, s⟩ .down
      ⟨{ m.loop with phase := .poll, thenAt := l.now }, m.shared⟩ := by
  refine Eq.trans (finish_succ (by nofun) _) ?_
  unfold Machine.step Loop.next Machine.serve
  by_cases hdue : (l.key .down).due l.now = true
  · dsimp only
    rw [if_pos hdue, if_pos (show l.down.due l.now = true from hdue), moved_down]
    refine Eq.trans (finish_succ (by nofun) _) ?_
    exact finish_poll rfl _
  · dsimp only
    rw [if_neg hdue, if_neg (show ¬l.down.due l.now = true from hdue)]
    exact finish_poll rfl _

/-- From where it comes to VOLUME UP the loop comes to VOLUME DOWN. -/
theorem finish_up (l : Loop) (s : Shared) (fuel : Nat) :
    ∃ spare, Machine.finish (fuel + 2) ⟨{ l with phase := .up }, s⟩ =
      let m := Machine.serve ⟨l, s⟩ .up
      Machine.finish (fuel + spare) ⟨{ m.loop with phase := .down }, m.shared⟩ := by
  unfold Machine.serve
  by_cases hdue : (l.key .up).due l.now = true
  · refine ⟨0, Eq.trans (finish_succ (by nofun) _) ?_⟩
    unfold Machine.step Loop.next
    dsimp only
    rw [if_pos hdue, if_pos (show l.up.due l.now = true from hdue), moved_up]
    exact finish_succ (by nofun) _
  · refine ⟨1, Eq.trans (finish_succ (by nofun) _) ?_⟩
    unfold Machine.step Loop.next
    dsimp only
    rw [if_neg hdue, if_neg (show ¬l.up.due l.now = true from hdue)]

/-- A turn reads the clock and the events, serves the one key and then the other. -/
theorem turn_eq (hphase : m.loop.phase = .poll)
    (hpoll : (m.loop.poll now events).phase = .up) :
    m.turn now events =
      let up := Machine.serve ⟨m.loop.poll now events, m.shared⟩ .up
      ⟨{ (up.serve .down).loop with phase := .poll, thenAt := up.loop.now },
        (up.serve .down).shared⟩ := by
  have hstep : m.step (.keymon now events) =
      ⟨{ m.loop.poll now events with phase := .up }, m.shared⟩ := by
    unfold Machine.step Loop.next
    rw [hphase, ← hpoll]
  obtain ⟨spare, hserve⟩ := finish_up (m.loop.poll now events) m.shared 2
  unfold Machine.turn
  rw [hstep, hserve, Nat.add_comm 2 spare]
  exact finish_down _ _ spare

/-- What is pressed turns no dial before it is served. -/
theorem Player.poll_dials (p : Player) (now : Nat) (events : List Event) :
    (p.poll now events).jack = p.jack ∧ (p.poll now events).hdmi = p.hdmi ∧
      (p.poll now events).dials = p.dials := by
  have hevent (p : Player) (ev : Event) : (p.event now ev).jack = p.jack ∧
      (p.event now ev).hdmi = p.hdmi ∧ (p.event now ev).dials = p.dials := by
    unfold Player.event Player.press
    split_ifs <;> exact ⟨rfl, rfl, rfl⟩
  unfold Player.poll
  split
  next => exact ⟨rfl, rfl, rfl⟩
  next hawake =>
    clear hawake
    induction events generalizing p with
    | nil => exact ⟨rfl, rfl, rfl⟩
    | cons ev rest ih =>
        obtain ⟨hjack, hhdmi, hdials⟩ := hevent p ev
        have hrest := ih (p.event now ev)
        rwa [hjack, hhdmi, hdials] at hrest

/-- Between two turns keymon and the settings say what the player knows. -/
structure Machine.Follows (m : Machine) (p : Player) : Prop where
  shows : m.Shows p
  phase : m.loop.phase = .poll
  last : m.loop.thenAt.toNat = p.last
  inTime : InTime p.last

theorem Machine.Follows.turn (h : m.Follows p) (hnow : InTime now.toNat) (events : List Event) :
    (m.turn now events).Follows (p.turn now.toNat events) := by
  obtain ⟨hpoll, hread, hphase⟩ := h.shows.loop.poll h.last h.inTime hnow events
  obtain ⟨hjack, hhdmi, hdials⟩ := p.poll_dials now.toNat events
  have hshows : Machine.Shows ⟨m.loop.poll now events, m.shared⟩ (p.poll now.toNat events) := by
    refine ⟨hpoll, ?_⟩
    rw [hjack, hhdmi, hdials]
    exact h.shows.shared
  have hpolled : InTime (m.loop.poll now events).now.toNat := by
    rw [hread]
    exact hnow
  obtain ⟨hup, hupRead⟩ := hshows.serve hpolled .up
  obtain ⟨hdown, -⟩ := hup.serve (hupRead ▸ hpolled) .down
  rw [hupRead] at hdown
  dsimp only at hup hdown hupRead
  rw [hread] at hup hdown hupRead
  rw [turn_eq h.phase hphase, Player.turn]
  refine ⟨⟨⟨hdown.loop.menu, ?_⟩, hdown.shared⟩, rfl, congrArg BitVec.toNat hupRead, hnow⟩
  intro d
  have hkey := hdown.loop.key d
  cases d <;> exact hkey

/-- A time that was read is not near the overflow. -/
def Happening.InTime : Happening → Prop
  | .turn now _ => Keymon.InTime now.toNat
  | _ => True

theorem Machine.Follows.happen (h : m.Follows p) {happening : Happening}
    (hnow : happening.InTime) : (m.happen happening).Follows (p.happen happening) := by
  cases happening with
  | turn now events => exact h.turn hnow events
  | hdmi value =>
      exact ⟨⟨⟨h.shows.loop.menu, h.shows.loop.key⟩, h.shows.shared.setHDMI value⟩, h.phase,
        h.last, h.inTime⟩
  | jack value =>
      exact ⟨⟨⟨h.shows.loop.menu, h.shows.loop.key⟩, h.shows.shared.setJack value⟩, h.phase,
        h.last, h.inTime⟩
  | client jack hdmi =>
      exact ⟨⟨⟨h.shows.loop.menu, h.shows.loop.key⟩, h.shows.shared.client jack hdmi⟩, h.phase,
        h.last, h.inTime⟩

theorem Machine.Follows.live (h : m.Follows p) {happenings : List Happening}
    (hnow : ∀ happening ∈ happenings, happening.InTime) :
    (m.live happenings).Follows (p.live happenings) := by
  induction happenings generalizing m p with
  | nil => exact h
  | cons happening rest ih =>
      rw [List.forall_mem_cons] at hnow
      exact ih (h.happen hnow.1) hnow.2

theorem start_follows {file : Option (List (BitVec 8))} (hfile : OnScale file)
    (jack hdmi : BitVec 32) {start : BitVec 32} (hstart : InTime start.toNat) :
    (Machine.start file jack hdmi start).Follows
      (.start (.load file) jack hdmi start) := by
  have hload := hfile.load
  have hsettings : (Machine.start file jack hdmi start).shared.settings =
      { Settings.load file with jack := jack, hdmi := hdmi } := settings_client _ jack hdmi
  refine ⟨⟨⟨iff_of_false (not_not.mpr rfl) Bool.false_ne_true, ?_⟩, ?_⟩, rfl, rfl, hstart⟩
  · intro d
    cases d <;> exact Key.shows_released
  · constructor <;> rw [hsettings]
    · exact decide_eq_true_iff.symm
    · exact decide_eq_true_iff.symm
    · exact (Nat.mod_eq_of_lt (Nat.lt_succ_of_le hload.speaker)).symm
    · exact (Nat.mod_eq_of_lt (Nat.lt_succ_of_le hload.headphones)).symm
    · exact (Nat.mod_eq_of_lt (Nat.lt_succ_of_le hload.brightness)).symm

end Turns

/-- Turn by turn the keys turn the dials as the player expects it, whatever the jack, HDMI and
other programs do between the turns. -/
theorem keys_turn_dials (file : Option (List (BitVec 8))) (hfile : OnScale file)
    (jack hdmi start : BitVec 32) (hstart : InTime start.toNat) (happenings : List Happening)
    (hnow : ∀ happening ∈ happenings, happening.InTime) :
    ((Machine.start file jack hdmi start).live happenings).shared.Shows
      ((Player.start (.load file) jack hdmi start).live happenings).jack
      ((Player.start (.load file) jack hdmi start).live happenings).hdmi
      ((Player.start (.load file) jack hdmi start).live happenings).dials :=
  ((start_follows hfile jack hdmi hstart).live hnow).shows.shared

/-- VOLUME UP is held, and the jack is used meanwhile. -/
def plusHeld : List Happening :=
  [.turn 17 [⟨evKey, codePlus, 1⟩], .turn 117 [], .turn 217 [], .jack 1, .turn 317 []]

theorem inTime_plusHeld : ∀ happening ∈ plusHeld, happening.InTime := by
  simp [plusHeld, Happening.InTime, InTime]

/-- The first stroke turns the speaker up from 8, the second one the headphones from 4. -/
theorem keys_turn_dials_held :
    ((Player.start (.load none) 0 0 0).live plusHeld).dials = ⟨9, 5, 2⟩ ∧
      ((Machine.start none 0 0 0).live plusHeld).shared.Shows
        ((Player.start (.load none) 0 0 0).live plusHeld).jack
        ((Player.start (.load none) 0 0 0).live plusHeld).hdmi
        ((Player.start (.load none) 0 0 0).live plusHeld).dials :=
  ⟨by decide +kernel, keys_turn_dials none onScale_none 0 0 0 (by unfold InTime; decide) plusHeld
    inTime_plusHeld⟩

section Held

variable {p : Player} {since now : Nat}

/-- The other key. -/
def Direction.other : Direction → Direction
  | up => down
  | down => up

/-- An event that no key of keymon's is behind. -/
def Event.Ignored (ev : Event) : Prop :=
  ev.type ≠ evKey ∨ ev.value > repeated ∨
    ev.code ∉ codesMenu ∧ ev.code ≠ codePlus ∧ ev.code ≠ codeMinus

theorem foldl_ignored (now : Nat) (p : Player) {events : List Event}
    (h : ∀ ev ∈ events, ev.Ignored) : events.foldl (Player.event now) p = p := by
  induction events with
  | nil => rfl
  | cons ev rest ih =>
      rw [List.forall_mem_cons] at h
      have hev : p.event now ev = p := by
        unfold Player.event
        rcases h.1 with htype | hvalue | ⟨hmenu, hplus, hminus⟩
        · rw [if_pos (.inl htype)]
        · rw [if_pos (.inr hvalue)]
        · rw [if_neg hmenu, if_neg hplus, if_neg hminus, ite_self]
      rw [List.foldl_cons, hev]
      exact ih h.2

theorem other_ne (d : Direction) : d.other ≠ d := by
  cases d <;> nofun

/-- A key is held and kept up with, the other one is not held, and the dials have been turned from
what they were. -/
structure Player.Holding (p : Player) (d : Direction) (since : Nat) (menu jack : Bool)
    (dials : Dials) : Prop where
  held : p.hold d = some ⟨since, strokes since p.last⟩
  other : p.hold d.other = none
  turned : p.dials = (fun dials => dials.stroke menu jack d)^[strokes since p.last] dials
  menu : p.menu = menu
  jack : p.jack = jack
  hdmi : p.hdmi = false

/-- To serve a key leaves the other one as it is. -/
theorem serve_none (h : p.hold d = none) : p.serve now d = p := by
  unfold Player.serve
  rw [h]

theorem serve_some {hold : Hold} (h : p.hold d = some hold) :
    p.serve now d =
      if hold.made < strokes hold.since now then
        { p with
          hold := Function.update p.hold d (some { hold with made := hold.made + 1 })
          dials := if p.hdmi then p.dials else p.dials.stroke p.menu p.jack d }
      else p := by
  unfold Player.serve
  rw [h]

theorem hold_serve_other : (p.serve now d).hold d.other = p.hold d.other := by
  unfold Player.serve
  split
  · rfl
  · split
    · exact Function.update_of_ne (other_ne d) _ _
    · rfl

theorem serve_alone (h : p.hold d.other = none) :
    (p.serve now .up).serve now .down = p.serve now d := by
  cases d with
  | up => exact serve_none (hold_serve_other.trans h)
  | down => exact congrArg (Player.serve · now .down) (serve_none h)

/-- In time for the next stroke there is one to make or none. -/
theorem strokes_next {last : Nat} (hlast : last ≤ now) (hnow : now ≤ last + 100) :
    (if strokes since last < strokes since now then strokes since last + 1
      else strokes since last) = strokes since now := by
  have hcount := Repeats.count_next (since + 300) (by decide) hlast hnow
  unfold strokes
  simp only [Nat.add_lt_add_iff_right]
  rw [← Nat.add_left_inj, apply_ite (· + 1)] at hcount
  exact hcount

theorem strokes_pressed : strokes since since = 1 := by
  unfold strokes Repeats.count
  rw [if_pos (Nat.lt_add_of_pos_right (by decide))]

theorem Player.Holding.turn {jack : Bool} {dials : Dials}
    (h : p.Holding d since menu jack dials) (hlast : p.last ≤ now) (hnow : now ≤ p.last + 100)
    {events : List Event} (hquiet : ∀ ev ∈ events, ev.Ignored) :
    (p.turn now events).Holding d since menu jack dials := by
  obtain ⟨hheld, hother, hdials, rfl, rfl, hhdmi⟩ := h
  have hpoll : p.poll now events = p := by
    unfold Player.poll
    rw [if_neg (by omega), foldl_ignored now p hquiet]
  have hnext : _ = strokes since now := strokes_next hlast hnow
  unfold Player.turn
  rw [hpoll, serve_alone hother, serve_some hheld]
  dsimp only
  split at hnext
  next hdue =>
    rw [if_pos hdue, hhdmi, if_neg Bool.false_ne_true]
    refine ⟨?_, ?_, ?_, rfl, rfl, rfl⟩
    · dsimp only
      rw [Function.update_self, hnext]
    · exact (Function.update_of_ne (other_ne d) _ _).trans hother
    · dsimp only
      rw [← hnext, Function.iterate_succ_apply', ← hdials]
  next hdue =>
    rw [if_neg hdue]
    refine ⟨?_, hother, ?_, rfl, rfl, hhdmi⟩
    · rw [← hnext]
      exact hheld
    · rw [← hnext]
      exact hdials

theorem Player.press_holding (hfree : p.hold = fun _ => none) (hhdmi : p.hdmi = false)
    (hlast : p.last ≤ now) (hnow : now ≤ p.last + 1000) (d : Direction) :
    (p.turn now [⟨evKey, d.code, 1⟩]).Holding d now p.menu p.jack p.dials := by
  have hpoll : p.poll now [⟨evKey, d.code, 1⟩] = p.press d now 1 := by
    unfold Player.poll
    rw [if_neg (by omega)]
    cases d <;> rfl
  have hheld : (p.press d now 1).hold d = some ⟨now, 0⟩ := Function.update_self _ _ _
  have hother : (p.press d now 1).hold d.other = none :=
    (Function.update_of_ne (other_ne d) _ _).trans (congrFun hfree _)
  have hdue : 0 < strokes now now := Nat.succ_pos _
  have hdials : (if p.hdmi then p.dials else p.dials.stroke p.menu p.jack d) =
      (fun dials => dials.stroke p.menu p.jack d)^[strokes now now] p.dials := by
    rw [hhdmi, strokes_pressed]
    rfl
  unfold Player.turn
  rw [hpoll, serve_alone hother, serve_some hheld]
  dsimp only
  rw [if_pos hdue]
  refine ⟨?_, ?_, hdials, rfl, rfl, hhdmi⟩
  · dsimp only
    rw [Function.update_self, strokes_pressed]
  · exact (Function.update_of_ne (other_ne d) _ _).trans hother

/-- The turns of the loop while a key is held, none of them late. -/
theorem Player.Holding.live {jack : Bool} {dials : Dials}
    (h : p.Holding d since menu jack dials) {quiet : List (BitVec 32 × List Event)}
    (htimes : (p.last :: quiet.map (·.1.toNat)).IsChain fun last now =>
      last ≤ now ∧ now ≤ last + 100)
    (hquiet : ∀ turn ∈ quiet, ∀ ev ∈ turn.2, ev.Ignored) :
    (p.live (quiet.map fun turn => .turn turn.1 turn.2)).Holding d since menu jack dials ∧
      (p.live (quiet.map fun turn => .turn turn.1 turn.2)).last =
        (quiet.map (·.1.toNat)).getLastD p.last := by
  induction quiet generalizing p with
  | nil => exact ⟨h, rfl⟩
  | cons turn rest ih =>
      rw [List.forall_mem_cons] at hquiet
      rw [List.map_cons, List.isChain_cons_cons] at htimes
      obtain ⟨⟨hlast, hnow⟩, hrest⟩ := htimes
      have hturn := h.turn hlast hnow hquiet.1
      obtain ⟨hheld, hend⟩ := ih hturn hrest hquiet.2
      refine ⟨hheld, hend.trans ?_⟩
      rw [List.map_cons, List.getLastD_cons]
      rfl

/-- Where a number of strokes takes a setting. -/
def Direction.after (top val n : Nat) : Direction → Nat
  | up => min top (val + n)
  | down => val - n

theorem after_succ (d : Direction) (top val n : Nat) :
    d.after top val (n + 1) = d.after top (d.after top val n) 1 := by
  unfold Direction.after
  cases d <;> dsimp only <;> omega

theorem stroke_eq {top : Nat} (dial : Dial top) (d : Direction) :
    (d.stroke dial).val = d.after top dial 1 := by
  cases d <;> rfl

/-- The setting that the keys are for. -/
def Dials.setting (dials : Dials) (menu jack : Bool) : Nat :=
  if menu then dials.brightness else if jack then dials.headphones else dials.speaker

theorem setting_le (dials : Dials) (menu jack : Bool) :
    dials.setting menu jack ≤ (Shared.top menu).toNat := by
  unfold Dials.setting
  cases menu with
  | true => exact dials.brightness.is_le
  | false => cases jack with
    | true => exact dials.headphones.is_le
    | false => exact dials.speaker.is_le

theorem setting_stroke (dials : Dials) (menu jack : Bool) (d : Direction) :
    (dials.stroke menu jack d).setting menu jack =
      d.after (Shared.top menu).toNat (dials.setting menu jack) 1 := by
  unfold Dials.setting Dials.stroke
  cases menu with
  | true => exact stroke_eq _ d
  | false => cases jack with
    | true => exact stroke_eq _ d
    | false => exact stroke_eq _ d

theorem setting_strokes (dials : Dials) (menu jack : Bool) (d : Direction) (n : Nat) :
    ((fun dials => dials.stroke menu jack d)^[n] dials).setting menu jack =
      d.after (Shared.top menu).toNat (dials.setting menu jack) n := by
  have hle := setting_le dials menu jack
  induction n with
  | zero =>
      unfold Direction.after
      cases d with
      | up => exact (Nat.min_eq_right hle).symm
      | down => rfl
  | succ n ih =>
      rw [Function.iterate_succ_apply', setting_stroke, ih]
      exact (after_succ d _ _ n).symm

theorem Shared.Shows.setting {s : Shared} {jack hdmi : Bool} {dials : Dials}
    (h : s.Shows jack hdmi dials) (menu : Bool) :
    (Loop.setting menu s).toNat = dials.setting menu jack := by
  cases menu with
  | true => exact h.brightness
  | false =>
      change s.settings.getVolume.toNat = if jack then _ else _
      unfold Settings.getVolume
      cases jack with
      | true =>
          rw [if_pos (h.jack.mpr rfl)]
          exact h.headphones
      | false =>
          rw [if_neg (mt h.jack.mp Bool.false_ne_true)]
          exact h.speaker

end Held

/-- A key that is pressed and held, with no turn of the loop late, makes a stroke at once, one
after 300 ms and then one every 100 ms, up to the end of the scale. -/
theorem held_key_repeats (file : Option (List (BitVec 8))) (hfile : OnScale file)
    (jack hdmi start : BitVec 32) (hstart : InTime start.toNat) (before : List Happening)
    (hbefore : ∀ happening ∈ before, happening.InTime) (m : Machine) (p : Player)
    (hm : (Machine.start file jack hdmi start).live before = m)
    (hp : (Player.start (.load file) jack hdmi start).live before = p)
    (hfree : p.hold = fun _ => none) (hhdmi : p.hdmi = false) (d : Direction)
    (pressed : BitVec 32) (hlast : p.last ≤ pressed.toNat)
    (hawake : pressed.toNat ≤ p.last + 1000) (quiet : List (BitVec 32 × List Event))
    (htimes : (pressed.toNat :: quiet.map (·.1.toNat)).IsChain fun last now =>
      last ≤ now ∧ now ≤ last + 100)
    (hnow : ∀ now ∈ pressed.toNat :: quiet.map (·.1.toNat), InTime now)
    (hquiet : ∀ turn ∈ quiet, ∀ ev ∈ turn.2, ev.Ignored) :
    (Loop.setting p.menu (m.live (.turn pressed [⟨evKey, d.code, 1⟩] ::
        quiet.map fun turn => .turn turn.1 turn.2)).shared).toNat =
      d.after (Shared.top p.menu).toNat (Loop.setting p.menu m.shared).toNat
        (strokes pressed.toNat ((quiet.map (·.1.toNat)).getLastD pressed.toNat)) := by
  have hfollows : m.Follows p := hm ▸ hp ▸ (start_follows hfile jack hdmi hstart).live hbefore
  have hpressed := Player.press_holding hfree hhdmi hlast hawake d
  obtain ⟨hheld, hend⟩ := hpressed.live htimes hquiet
  rw [List.forall_mem_cons] at hnow
  have hlive : ∀ happening ∈ Happening.turn pressed [⟨evKey, d.code, 1⟩] ::
      quiet.map fun turn => .turn turn.1 turn.2, happening.InTime := by
    rw [List.forall_mem_cons, List.forall_mem_map]
    exact ⟨hnow.1, fun turn hturn => hnow.2 _ (List.mem_map_of_mem hturn)⟩
  have hshows := (hfollows.live hlive).shows.shared
  have hturned : ((p.turn pressed.toNat [⟨evKey, d.code, 1⟩]).live
      (quiet.map fun turn => .turn turn.1 turn.2)).dials =
      (fun dials => dials.stroke p.menu p.jack d)^[strokes pressed.toNat
        ((quiet.map (·.1.toNat)).getLastD pressed.toNat)] p.dials := by
    rw [hheld.turned, hend]
    rfl
  calc (Loop.setting p.menu (m.live _).shared).toNat
    _ = (p.live _).dials.setting p.menu (p.live _).jack := hshows.setting p.menu
    _ = Dials.setting _ p.menu p.jack :=
        congrArg₂ (Dials.setting · p.menu) hturned hheld.jack
    _ = d.after (Shared.top p.menu).toNat (p.dials.setting p.menu p.jack) _ :=
        setting_strokes p.dials p.menu p.jack d _
    _ = d.after (Shared.top p.menu).toNat (Loop.setting p.menu m.shared).toNat _ := by
        rw [hfollows.shows.shared.setting p.menu]

/-- Held from 17 on, VOLUME UP has made its second stroke at 317. -/
theorem held_key_repeats_twice :
    (Loop.setting false ((Machine.start none 0 0 0).live
        [.turn 17 [⟨evKey, codePlus, 1⟩], .turn 117 [], .turn 217 [], .turn 317 []]).shared).toNat =
      10 :=
  held_key_repeats none onScale_none 0 0 0 (by unfold InTime; decide) [] nofun
    (.start none 0 0 0) (.start (.load none) 0 0 0) rfl rfl rfl rfl .up 17 (by decide) (by decide)
    [(117, []), (217, []), (317, [])] (by simp) (by simp [InTime]) (by simp)

end DarkUI.Keymon
