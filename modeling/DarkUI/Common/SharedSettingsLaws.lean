import DarkUI.Common.SharedSettings

/-! # One object for all processes

The object that a process maps is large enough, whenever it comes and whichever calls fail. All
processes share one object as long as it is given up by the last that has it open.
-/

namespace DarkUI

open Run

namespace Sharing

/-- The object that a process has open. -/
def object : Sharing → Option Nat
  | polling o _ | ready o | created o | truncated o | mapped o | unread o | attached o _ => some o
  | out | refused | aborted => none

/-- The object that a process has made, and will unlink. -/
def hosted : Sharing → Option Nat
  | created o | truncated o | mapped o | unread o | attached o true => some o
  | out | refused | polling _ _ | ready _ | attached _ false | aborted => none

/-- The process has seen the object at its size. -/
def sized : Sharing → Bool
  | ready _ | truncated _ | mapped _ | unread _ | attached _ _ => true
  | out | refused | polling _ _ | created _ | aborted => false

/-- The object that a process has in its memory. -/
def memory : Sharing → Option Nat
  | mapped o | unread o | attached o _ => some o
  | out | refused | polling _ _ | ready _ | created _ | truncated _ | aborted => none

theorem object_of_hosted {sharing : Sharing} {o : Nat} (h : sharing.hosted = some o) :
    sharing.object = some o := by
  cases sharing with
  | attached object isHost => cases isHost <;> first | exact h | cases h
  | _ => first | exact h | cases h

theorem object_of_memory {sharing : Sharing} {o : Nat} (h : sharing.memory = some o) :
    sharing.object = some o ∧ sharing.sized = true := by
  cases sharing <;> first | exact ⟨h, rfl⟩ | cases h

end Sharing

namespace Shares

variable {ι : Type*} [DecidableEq ι] {size : Nat} {defaults : SettingsImage size}
  {s t : Shares ι size} {p q : ι} {c : ShareCall} {o : Nat}

/-- Every object is empty or of the full size, and the name is that of the host's object. -/
structure Sound (s : Shares ι size) : Prop where
  name_lt : ∀ o, s.name = some o → o < s.fresh
  object_lt : ∀ p o, (s.sharing p).object = some o → o < s.fresh
  sized : ∀ p o, (s.sharing p).object = some o → (s.sharing p).sized = true →
    size ≤ (s.objects o).length
  named : ∀ p o, (s.sharing p).hosted = some o → s.name = some o
  alone : ∀ p q o, (s.sharing p).hosted = some o → (s.sharing q).hosted = some o → p = q

/-- The call makes `SHM_KEY` name nothing. -/
def Unlinks (s : Shares ι size) (p : ι) (c : ShareCall) : Prop :=
  (∃ o, s.sharing p = .attached o true ∧ c = .quit) ∨
    (∃ o, s.sharing p = .created o ∧ c = .ftruncate true) ∨
      ∃ o, s.sharing p = .truncated o ∧ c = .mmap true

/-- What a call can do: leave, open the object that is named, go on with the object it has, make
a new one where none is named, or unlink its own. -/
inductive Effect (s : Shares ι size) (p : ι) (c : ShareCall) : Shares ι size → Prop
  | leaves (sharing : Sharing) (hobject : sharing.object = none) :
      Effect s p c (s.move p sharing)
  | joins (o : Nat) (hname : s.name = some o) : Effect s p c (s.move p (.polling o 0))
  | goes (o : Nat) (sharing : Sharing) (bytes : List UInt8)
      (hold : (s.sharing p).object = some o) (hobject : sharing.object = some o)
      (hhosted : sharing.hosted = (s.sharing p).hosted)
      (hgrows : size ≤ (s.objects o).length → size ≤ bytes.length)
      (hsized : sharing.sized = true → size ≤ bytes.length) :
      Effect s p c ((s.fill o bytes).move p sharing)
  | creates (hname : s.name = none) :
      Effect s p c (s.make.move p (.created s.fresh))
  | unlinks (o : Nat) (sharing : Sharing) (hold : (s.sharing p).hosted = some o)
      (hobject : sharing.object = none) (hunlinks : s.Unlinks p c) :
      Effect s p c (s.unlink.move p sharing)

omit [DecidableEq ι] in
theorem fill_self (s : Shares ι size) (o : Nat) : s.fill o (s.objects o) = s := by
  rw [fill, Function.update_eq_self]

/-- Going on without a change of the bytes. -/
theorem Effect.stays {sharing : Sharing} (hold : (s.sharing p).object = some o)
    (hobject : sharing.object = some o) (hhosted : sharing.hosted = (s.sharing p).hosted)
    (hsized : sharing.sized = true → size ≤ (s.objects o).length) :
    Effect s p c (s.move p sharing) := by
  have h := Effect.goes (c := c) o sharing (s.objects o) hold hobject hhosted id hsized
  rwa [fill_self] at h

omit [DecidableEq ι] in
/-- What a process takes for sized is. -/
theorem Sound.full (h : Sound s) {sharing : Sharing} (hat : s.sharing p = sharing)
    (hobject : sharing.object = some o) (hsized : sharing.sized = true) :
    size ≤ (s.objects o).length := by
  subst hat
  exact h.sized p o hobject hsized

theorem create_effect {fails : Bool}
    (hcall : s.call defaults p (.create fails) = some t) : Effect s p (.create fails) t := by
  simp only [call] at hcall
  split at hcall
  next hout =>
    split at hcall
    next =>
      cases hcall
      exact .leaves _ rfl
    next =>
      split at hcall
      next =>
        cases hcall
        exact .leaves _ rfl
      next hname =>
        cases hcall
        exact .creates hname
  next => cases hcall

theorem shmOpen_effect {fails : Bool}
    (hcall : s.call defaults p (.shmOpen fails) = some t) : Effect s p (.shmOpen fails) t := by
  simp only [call] at hcall
  split at hcall
  next hrefused =>
    split at hcall
    next =>
      cases hcall
      exact .leaves _ rfl
    next object hname =>
      cases hcall
      split at hname
      next => cases hname
      next => exact .joins object hname
  next => cases hcall

theorem fstat_effect {fails : Bool}
    (hcall : s.call defaults p (.fstat fails) = some t) : Effect s p (.fstat fails) t := by
  simp only [call] at hcall
  split at hcall
  next object i hpolling =>
    have hold : (s.sharing p).object = some object := by rw [hpolling]; rfl
    have hhosted : (s.sharing p).hosted = none := by rw [hpolling]; rfl
    split at hcall
    next hready =>
      cases hcall
      exact .stays hold rfl hhosted.symm fun _ => hready.2
    next =>
      split at hcall
      next =>
        cases hcall
        exact .stays hold rfl hhosted.symm nofun
      next =>
        cases hcall
        exact .leaves _ rfl
  next => cases hcall

theorem ftruncate_effect {fails : Bool}
    (hcall : s.call defaults p (.ftruncate fails) = some t) : Effect s p (.ftruncate fails) t := by
  simp only [call] at hcall
  split at hcall
  next object hcreated =>
    have hold : (s.sharing p).object = some object := by rw [hcreated]; rfl
    have hhosted : (s.sharing p).hosted = some object := by rw [hcreated]; rfl
    split at hcall
    next hfails =>
      cases hcall
      exact .unlinks object _ hhosted rfl (.inr (.inl ⟨object, hcreated, by rw [hfails]⟩))
    next =>
      cases hcall
      have hlength : size ≤ ((s.objects object).take size ++
          List.replicate (size - (s.objects object).length) 0).length := by
        rw [List.length_append, List.length_take, List.length_replicate]
        omega
      exact .goes object _ _ hold rfl hhosted.symm (fun _ => hlength) fun _ => hlength
  next => cases hcall

theorem mmap_effect (h : Sound s) {fails : Bool}
    (hcall : s.call defaults p (.mmap fails) = some t) : Effect s p (.mmap fails) t := by
  simp only [call] at hcall
  split at hcall
  next object htruncated =>
    have hold : (s.sharing p).object = some object := by rw [htruncated]; rfl
    have hhosted : (s.sharing p).hosted = some object := by rw [htruncated]; rfl
    split at hcall
    next hfails =>
      cases hcall
      exact .unlinks object _ hhosted rfl (.inr (.inr ⟨object, htruncated, by rw [hfails]⟩))
    next =>
      cases hcall
      exact .stays hold rfl hhosted.symm fun _ => h.full htruncated rfl rfl
  next object hready =>
    have hold : (s.sharing p).object = some object := by rw [hready]; rfl
    have hhosted : (s.sharing p).hosted = none := by rw [hready]; rfl
    split at hcall
    next =>
      cases hcall
      exact .leaves _ rfl
    next =>
      cases hcall
      exact .stays hold rfl hhosted.symm fun _ => h.full hready rfl rfl
  next => cases hcall

theorem read_effect (h : Sound s) {content : Option (List UInt8)}
    (hcall : s.call defaults p (.read content) = some t) : Effect s p (.read content) t := by
  simp only [call] at hcall
  split at hcall
  next object hmapped =>
    have hold : (s.sharing p).object = some object := by rw [hmapped]; rfl
    have hhosted : (s.sharing p).hosted = some object := by rw [hmapped]; rfl
    have hobject := h.full hmapped rfl rfl
    split at hcall
    next =>
      cases hcall
      exact .stays hold rfl hhosted.symm fun _ => hobject
    next content =>
      have hlength : size ≤ (content.take size ++
          (s.objects object).drop (content.take size).length).length := by
        rw [List.length_append, List.length_drop]
        omega
      split at hcall
      all_goals
        cases hcall
        exact .goes object _ _ hold rfl hhosted.symm (fun _ => hlength) fun _ => hlength
  next => cases hcall

theorem memcpy_effect
    (hcall : s.call defaults p .memcpy = some t) : Effect s p .memcpy t := by
  simp only [call] at hcall
  split at hcall
  next object hunread =>
    cases hcall
    have hold : (s.sharing p).object = some object := by rw [hunread]; rfl
    have hhosted : (s.sharing p).hosted = some object := by rw [hunread]; rfl
    have hlength : size ≤ defaults.bytes.length := Nat.le_of_eq defaults.length_eq.symm
    exact .goes object _ _ hold rfl hhosted.symm (fun _ => hlength) fun _ => hlength
  next => cases hcall

theorem store_effect (h : Sound s) {i : Nat} {value : UInt8}
    (hcall : s.call defaults p (.store i value) = some t) : Effect s p (.store i value) t := by
  simp only [call] at hcall
  split at hcall
  next object isHost hattached =>
    cases hcall
    have hold : (s.sharing p).object = some object := by rw [hattached]; rfl
    have hlength : size ≤ ((s.objects object).set i value).length := by
      rw [List.length_set]
      exact h.full hattached rfl rfl
    have hsame : s.fill object ((s.objects object).set i value) =
        (s.fill object ((s.objects object).set i value)).move p (s.sharing p) := by
      rw [move, fill, Function.update_eq_self]
    rw [hsame]
    exact .goes object _ _ hold hold rfl (fun _ => hlength) fun _ => hlength
  next => cases hcall

theorem quit_effect
    (hcall : s.call defaults p .quit = some t) : Effect s p .quit t := by
  simp only [call] at hcall
  split at hcall
  next object isHost hattached =>
    cases hcall
    cases isHost with
    | false => exact .leaves _ rfl
    | true =>
        have hhosted : (s.sharing p).hosted = some object := by rw [hattached]; rfl
        exact .unlinks object _ hhosted rfl (.inl ⟨object, hattached, rfl⟩)
  next => cases hcall

theorem call_effect (h : Sound s) (hcall : s.call defaults p c = some t) : Effect s p c t := by
  cases c with
  | create fails => exact create_effect hcall
  | shmOpen fails => exact shmOpen_effect hcall
  | fstat fails => exact fstat_effect hcall
  | ftruncate fails => exact ftruncate_effect hcall
  | mmap fails => exact mmap_effect h hcall
  | read content => exact read_effect h hcall
  | memcpy => exact memcpy_effect hcall
  | store i value => exact store_effect h hcall
  | quit => exact quit_effect hcall
  | kill =>
      cases hcall
      exact .leaves _ rfl

theorem sharing_move (s : Shares ι size) (p q : ι) (sharing : Sharing) :
    (s.move p sharing).sharing q = if q = p then sharing else s.sharing q :=
  Function.update_apply ..

omit [DecidableEq ι] in
/-- No process becomes the host, and the name stays. -/
theorem sound_of_hosts (h : Sound s) (hname : t.name = s.name) (hfresh : t.fresh = s.fresh)
    (hhosted : ∀ q o, (t.sharing q).hosted = some o → (s.sharing q).hosted = some o)
    (hobject : ∀ q o, (t.sharing q).object = some o → o < s.fresh)
    (hsized : ∀ q o, (t.sharing q).object = some o → (t.sharing q).sized = true →
      size ≤ (t.objects o).length) : Sound t where
  name_lt := by
    rw [hname, hfresh]
    exact h.name_lt
  object_lt := by
    rw [hfresh]
    exact hobject
  sized := hsized
  named := by
    rw [hname]
    exact fun q o hq => h.named q o (hhosted q o hq)
  alone := fun q r o hq hr => h.alone q r o (hhosted q o hq) (hhosted r o hr)

theorem leaves_sound (h : Sound s) {sharing : Sharing} (hobject : sharing.object = none) :
    Sound (s.move p sharing) := by
  have hno : ∀ o, sharing.object ≠ some o := fun o ho => by
    rw [hobject] at ho
    cases ho
  refine sound_of_hosts (t := s.move p sharing) h rfl rfl ?_ ?_ ?_ <;>
    intro q o <;> rw [sharing_move] <;> split
  · exact fun ho => absurd (Sharing.object_of_hosted ho) (hno o)
  · exact id
  · exact fun ho => absurd ho (hno o)
  · exact h.object_lt q o
  · exact fun ho => absurd ho (hno o)
  · exact h.sized q o

theorem joins_sound (h : Sound s) (hname : s.name = some o) :
    Sound (s.move p (.polling o 0)) := by
  refine sound_of_hosts (t := s.move p (.polling o 0)) h rfl rfl ?_ ?_ ?_ <;>
    intro q r <;> rw [sharing_move] <;> split
  · exact nofun
  · exact id
  · rintro ⟨⟩
    exact h.name_lt o hname
  · exact h.object_lt q r
  · exact nofun
  · exact h.sized q r

/-- Bytes that are written leave every object as large as it was. -/
theorem goes_sound (h : Sound s) {sharing : Sharing} {bytes : List UInt8}
    (hold : (s.sharing p).object = some o) (hobject : sharing.object = some o)
    (hhosted : sharing.hosted = (s.sharing p).hosted)
    (hgrows : size ≤ (s.objects o).length → size ≤ bytes.length)
    (hsized : sharing.sized = true → size ≤ bytes.length) :
    Sound ((s.fill o bytes).move p sharing) := by
  have hobjects : ((s.fill o bytes).move p sharing).objects =
      Function.update s.objects o bytes := rfl
  refine sound_of_hosts (t := (s.fill o bytes).move p sharing) h rfl rfl ?_ ?_ ?_ <;>
    intro q r <;> rw [sharing_move] <;> split
  next hq =>
    rw [hhosted, hq]
    exact id
  next => exact id
  next =>
    intro hr
    cases hobject.symm.trans hr
    exact h.object_lt p o hold
  next => exact h.object_lt q r
  next =>
    intro hr hfull
    cases hobject.symm.trans hr
    rw [hobjects, Function.update_self]
    exact hsized hfull
  next =>
    intro hr hfull
    have hlength := h.sized q r hr hfull
    rw [hobjects]
    by_cases hro : r = o
    · subst hro
      rw [Function.update_self]
      exact hgrows hlength
    · rwa [Function.update_of_ne hro]

/-- Only where nothing is named there is no host yet. -/
theorem creates_sound (h : Sound s) (hname : s.name = none) :
    Sound (s.make.move p (.created s.fresh)) := by
  have hnone : ∀ q r, (s.sharing q).hosted ≠ some r := fun q r hq => by
    rw [h.named q r hq] at hname
    cases hname
  refine ⟨?_, ?_, ?_, ?_, ?_⟩
  · rintro r ⟨⟩
    exact Nat.lt_succ_self s.fresh
  · intro q r
    rw [sharing_move]
    split
    next =>
      rintro ⟨⟩
      exact Nat.lt_succ_self s.fresh
    next => exact fun hr => Nat.lt_succ_of_lt (h.object_lt q r hr)
  · intro q r
    rw [sharing_move]
    split
    next => exact nofun
    next =>
      intro hr hfull
      have hne : r ≠ s.fresh := Nat.ne_of_lt (h.object_lt q r hr)
      have hobjects : (s.make.move p (.created s.fresh)).objects r = s.objects r :=
        Function.update_of_ne hne ..
      rw [hobjects]
      exact h.sized q r hr hfull
  · intro q r
    rw [sharing_move]
    split
    next => exact id
    next => exact fun hr => absurd hr (hnone q r)
  · intro q u r
    rw [sharing_move, sharing_move]
    split
    next hq =>
      split
      next hu => exact fun _ _ => hq.trans hu.symm
      next => exact fun _ hr => absurd hr (hnone u r)
    next => exact fun hr => absurd hr (hnone q r)

/-- The name is that of the only host, so no host is left when it is unlinked. -/
theorem unlinks_sound (h : Sound s) (hold : (s.sharing p).hosted = some o) {sharing : Sharing}
    (hobject : sharing.object = none) : Sound (s.unlink.move p sharing) := by
  have hleft := leaves_sound (p := p) h hobject
  have hnone : ∀ q r, ((s.unlink.move p sharing).sharing q).hosted ≠ some r := by
    intro q r
    rw [sharing_move]
    split
    next =>
      intro hr
      rw [Sharing.object_of_hosted hr] at hobject
      cases hobject
    next hq =>
      intro hr
      cases (h.named q r hr).symm.trans (h.named p o hold)
      exact hq (h.alone q p o hr hold)
  exact ⟨nofun, hleft.object_lt, hleft.sized, fun q r hq => absurd hq (hnone q r),
    fun q _ r hq => absurd hq (hnone q r)⟩

theorem effect_sound (h : Sound s) (heffect : Effect s p c t) : Sound t := by
  cases heffect with
  | leaves sharing hobject => exact leaves_sound h hobject
  | joins o hname => exact joins_sound h hname
  | goes o sharing bytes hold hobject hhosted hgrows hsized =>
      exact goes_sound h hold hobject hhosted hgrows hsized
  | creates hname => exact creates_sound h hname
  | unlinks o sharing hold hobject hunlinks => exact unlinks_sound h hold hobject

omit [DecidableEq ι] in
theorem start_sound : Sound (start : Shares ι size) :=
  ⟨nofun, nofun, nofun, nofun, nofun⟩

variable {allowed : Shares ι size → ι × ShareCall → Prop}

theorem runs_sound (hruns : Runs defaults allowed s) : Sound s :=
  hruns.invariant start_sound fun h _ hcall => effect_sound h (call_effect h hcall)

/-- However the calls of the processes interleave and fail, what a process has mapped is as large
as the settings, and at most one process is the host. -/
theorem memory_full (hruns : Runs defaults allowed s) :
    (∀ p o, (s.sharing p).memory = some o → size ≤ (s.objects o).length) ∧
      ∀ p q o r, (s.sharing p).hosted = some o → (s.sharing q).hosted = some r → p = q := by
  have h := runs_sound hruns
  constructor
  · intro p o hmemory
    obtain ⟨hobject, hsized⟩ := Sharing.object_of_memory hmemory
    exact h.sized p o hobject hsized
  · intro p q o r hp hq
    cases (h.named p o hp).symm.trans (h.named q r hq)
    exact h.alone p q o hp hq

/-! ## One object -/

/-- The name is given up by the last process that has its object open. -/
def Orderly (s : Shares ι size) (input : ι × ShareCall) : Prop :=
  s.Unlinks input.1 input.2 → ∀ q, q ≠ input.1 → (s.sharing q).object = none

/-- Whatever is open has the name. -/
def Joint (s : Shares ι size) : Prop := ∀ p o, (s.sharing p).object = some o → s.name = some o

theorem effect_joint (h : Joint s) (horderly : Orderly s (p, c)) (heffect : Effect s p c t) :
    Joint t := by
  cases heffect with
  | leaves sharing hobject =>
      intro q o
      rw [sharing_move]
      split
      next =>
        intro ho
        rw [hobject] at ho
        cases ho
      next => exact h q o
  | joins o hname =>
      intro q r
      rw [sharing_move]
      split
      next =>
        rintro ⟨⟩
        exact hname
      next => exact h q r
  | goes o sharing bytes hold hobject =>
      intro q r
      rw [sharing_move]
      split
      next =>
        intro hr
        cases hobject.symm.trans hr
        exact h p o hold
      next => exact h q r
  | creates hname =>
      intro q r
      rw [sharing_move]
      split
      next => exact id
      next =>
        intro hr
        rw [h q r hr] at hname
        cases hname
  | unlinks o sharing hold hobject hunlinks =>
      intro q r
      rw [sharing_move]
      split
      next =>
        intro hr
        rw [hobject] at hr
        cases hr
      next hq =>
        intro hr
        cases (horderly hunlinks q hq).symm.trans hr

theorem runs_joint (hruns : Runs defaults Orderly s) : Joint s := by
  unfold Runs at hruns
  induction hruns with
  | refl => exact nofun
  | tail hruns horderly hcall ih =>
      exact effect_joint ih horderly (call_effect (runs_sound hruns) hcall)

/-- As long as the host is the last to go, all processes share one object. -/
theorem one_object (hruns : Runs defaults Orderly s) (p q : ι) (o r : Nat)
    (hp : (s.sharing p).object = some o) (hq : (s.sharing q).object = some r) : o = r := by
  have hjoint := runs_joint hruns
  exact Option.some.inj ((hjoint p o hp).symm.trans (hjoint q r hq))

/-- A host without a settings file, and a client that polls before the host has come to
`ftruncate`. -/
def twoCalls : List (Bool × ShareCall) :=
  [(false, .create false), (true, .create false), (true, .shmOpen false), (true, .fstat false),
    (false, .ftruncate false), (true, .fstat false), (true, .mmap false), (false, .mmap false),
    (false, .read none), (false, .memcpy), (true, .store 0 7)]

def twoDefaults : SettingsImage 2 := ⟨[1, 2], rfl⟩

/-- No call by which the name is given up. -/
def keepsName : ShareCall → Bool
  | .quit | .ftruncate true | .mmap true => false
  | _ => true

theorem two_orderly : ∃ s : Shares Bool 2, Runs twoDefaults Orderly s ∧
    s.sharing false = .attached 0 true ∧ s.sharing true = .attached 0 false ∧
      s.objects 0 = [7, 2] := by
  have hfollow : ((follow (fun s input => s.call twoDefaults input.1 input.2)
      (fun _ input => keepsName input.2) twoCalls start).any fun s : Shares Bool 2 =>
        s.sharing false == .attached 0 true && s.sharing true == .attached 0 false &&
          s.objects 0 == [7, 2]) = true := by
    decide
  cases hrun : follow (fun s input => s.call twoDefaults input.1 input.2)
      (fun _ input => keepsName input.2) twoCalls (start : Shares Bool 2) with
  | none => rw [hrun] at hfollow; cases hfollow
  | some s =>
      rw [hrun] at hfollow
      simp only [Option.any_some, Bool.and_eq_true, beq_iff_eq] at hfollow
      refine ⟨s, ?_, hfollow.1.1, hfollow.1.2, hfollow.2⟩
      refine (reaches_of_follow hrun).mono ?_
      rintro t ⟨p, c⟩ hkeeps (⟨_, _, rfl⟩ | ⟨_, _, rfl⟩ | ⟨_, _, rfl⟩) <;> cases hkeeps

theorem one_object_two : ∃ s : Shares Bool 2, s.objects 0 = [7, 2] ∧
    ∀ o r, (s.sharing false).object = some o → (s.sharing true).object = some r → o = r := by
  obtain ⟨s, hruns, -, -, hbytes⟩ := two_orderly
  exact ⟨s, hbytes, one_object hruns false true⟩

theorem memory_full_two : ∃ s : Shares Bool 2, s.objects 0 = [7, 2] ∧
    (∀ p o, (s.sharing p).memory = some o → 2 ≤ (s.objects o).length) ∧
      ∀ p q o r, (s.sharing p).hosted = some o → (s.sharing q).hosted = some r → p = q := by
  obtain ⟨s, hruns, -, -, hbytes⟩ := two_orderly
  exact ⟨s, hbytes, memory_full hruns⟩

end Shares

end DarkUI
