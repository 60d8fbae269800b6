import DarkUI.Common.Utils
import DarkUI.Foundation.FixedPoint
import DarkUI.Foundation.Run

/-! # The clock and the voltage of an RG35XX

What `overclock.elf` writes to the two registers, one write at a time. A voltage that is too low
for the clock stops the processor, so no write may leave one, wherever the program is stopped.
-/

namespace DarkUI.Boot

open FixedPoint Run Text

def voltMin : Nat := 700000
def voltMax : Nat := 1400000
def voltMul : Nat := 25000

def clkMin : Nat := 192000
def clkMax : Nat := 1524000
def clkMul : Nat := 12000

/-- `cpu_opp` -/
structure Opp where
  clk : Nat
  volt : Nat
  deriving DecidableEq, Repr

def cpuOpps : List Opp :=
  [⟨1488000, 1375000⟩, ⟨1392000, 1325000⟩, ⟨1296000, 1275000⟩, ⟨1200000, 1200000⟩,
    ⟨1104000, 1175000⟩, ⟨1008000, 1100000⟩, ⟨840000, 1075000⟩, ⟨720000, 1025000⟩,
    ⟨504000, 1000000⟩, ⟨240000, 975000⟩]

/-- `strtol` of base 10, with what it leaves of the text. -/
def strtol (s : CString) : Int × CString :=
  let trimmed := s.dropWhile isSpace
  let unsigned :=
    match trimmed with
    | '-' :: rest | '+' :: rest => rest
    | rest => rest
  let digits := unsigned.takeWhile Char.isDigit
  let value := digits.foldl (fun n c => 10 * n + (c.toNat - '0'.toNat)) 0
  if digits = [] then (0, s)
  else (if trimmed.head? = some '-' then -(value : Int) else value, unsigned.drop digits.length)

/-- The clock that is asked for: the argument if it is a number that fits, else the default. -/
def requestedClk (arg : CString) : Int :=
  let (value, rest) := strtol arg
  if rest = [] ∧ IsInt value then value else 1008000

/-- The entry at which the loop over the table stops. -/
def chosenOpp (clk : Int) : Option Opp := cpuOpps.find? fun cpu => clk ≥ cpu.clk

/-- What `setcpuvolt` writes to register 11. -/
def voltRegister (volt : Nat) : BitVec 16 :=
  let volt := if volt < voltMin then voltMin else if volt > voltMax then voltMax else volt
  0xe04e#16 ||| BitVec.ofNat 16 ((volt - voltMin) / voltMul) <<< 7

/-- What `setcpuclock` makes of the clock register. -/
def clockRegister (cmu : BitVec 32) (clock : Nat) : BitVec 32 :=
  let clock := if clock < clkMin then clkMin else if clock > clkMax then clkMax else clock
  cmu &&& 0xFFFFFF80#32 ||| BitVec.ofNat 32 (clock / clkMul)

inductive RegisterWrite
  | volt (volt : Nat)
  | clock (clock : Nat)
  /-- `/tmp/cpu_freq` -/
  | freq (clock : Nat)
  deriving DecidableEq, Repr

/-- The two registers, the file that says what they were set for, and what the program that runs
has still to write. -/
structure Soc where
  pmic : BitVec 16
  cmu : BitVec 32
  cpuFreq : Option Nat
  pending : List RegisterWrite

inductive SocInput
  | overclock (arg : CString)
  | write
  /-- The program is stopped before it ends. -/
  | stop
  deriving DecidableEq

namespace Soc

variable (s : Soc)

/-- The voltage that the register stands for, in its five bits. -/
def volt : Nat := voltMin + voltMul * (s.pmic >>> 7 &&& 0x1F#16).toNat

/-- The clock that the register stands for, in its seven bits. -/
def clock : Nat := clkMul * (s.cmu &&& 0x7F#32).toNat

/-- `setcpu`, and the command that follows it. -/
def setcpu (cpu : Opp) : List RegisterWrite :=
  [.volt voltMax, .clock cpu.clk, .volt cpu.volt, .freq cpu.clk]

def perform : RegisterWrite → Soc
  | .volt volt => { s with pmic := voltRegister volt }
  | .clock clock => { s with cmu := clockRegister s.cmu clock }
  | .freq clock => { s with cpuFreq := some clock }

/-- The program runs again when it has ended or was stopped: whoever calls it waits for it. -/
def step (s : Soc) : SocInput → Option Soc
  | .overclock arg =>
      match s.pending with
      | [] => some { s with pending := ((chosenOpp (requestedClk arg)).map setcpu).getD [] }
      | _ :: _ => none
  | .write =>
      match s.pending with
      | [] => none
      | first :: rest => some { s.perform first with pending := rest }
  | .stop => some { s with pending := [] }

/-- The voltage is that of every entry the clock is as fast as. -/
def Supplied : Prop := ∀ cpu ∈ cpuOpps, cpu.clk ≤ s.clock → cpu.volt ≤ s.volt

/-- The rest of a program that sets the clock of some entry. -/
inductive Underway : Prop
  | idle (hpending : s.pending = []) (hsupplied : s.Supplied)
  | raising (cpu : Opp) (hcpu : cpu ∈ cpuOpps) (hpending : s.pending = setcpu cpu)
      (hsupplied : s.Supplied)
  | raised (cpu : Opp) (hcpu : cpu ∈ cpuOpps) (hpending : s.pending = (setcpu cpu).drop 1)
      (hvolt : s.volt = voltMax)
  | clocked (cpu : Opp) (hcpu : cpu ∈ cpuOpps) (hpending : s.pending = (setcpu cpu).drop 2)
      (hvolt : s.volt = voltMax) (hclock : s.clock = cpu.clk)
  | lowered (cpu : Opp) (hpending : s.pending = (setcpu cpu).drop 3) (hsupplied : s.Supplied)

variable {s}

theorem volt_congr {t : Soc} (h : t.pmic = s.pmic) : t.volt = s.volt := by
  rw [volt, volt, h]

theorem clock_congr {t : Soc} (h : t.cmu = s.cmu) : t.clock = s.clock := by
  rw [clock, clock, h]

theorem Supplied.congr {t : Soc} (h : s.Supplied) (hpmic : t.pmic = s.pmic) (hcmu : t.cmu = s.cmu) :
    t.Supplied := by
  unfold Supplied
  rw [volt_congr hpmic, clock_congr hcmu]
  exact h

theorem supplied_of_max (h : s.volt = voltMax) : s.Supplied := by
  have hmax : ∀ cpu ∈ cpuOpps, cpu.volt ≤ voltMax := by decide
  intro cpu hcpu _
  rw [h]
  exact hmax cpu hcpu

/-- In the table, a faster clock has no lower voltage. -/
theorem supplied_of_opp {cpu : Opp} (hcpu : cpu ∈ cpuOpps) (hvolt : s.volt = cpu.volt)
    (hclock : s.clock = cpu.clk) : s.Supplied := by
  have hmono : ∀ cpu ∈ cpuOpps, ∀ other ∈ cpuOpps, other.clk ≤ cpu.clk → other.volt ≤ cpu.volt := by
    decide
  intro other hother hle
  rw [hvolt]
  exact hmono cpu hcpu other hother (hclock ▸ hle)

theorem Underway.supplied (h : s.Underway) : s.Supplied := by
  cases h with
  | idle _ hsupplied => exact hsupplied
  | raising _ _ _ hsupplied => exact hsupplied
  | raised _ _ _ hvolt => exact supplied_of_max hvolt
  | clocked _ _ _ hvolt _ => exact supplied_of_max hvolt
  | lowered _ _ hsupplied => exact hsupplied

theorem volt_of_register {volt : Nat} (h : volt = voltMax ∨ volt ∈ cpuOpps.map Opp.volt)
    (hpmic : s.pmic = voltRegister volt) : s.volt = volt := by
  have hmax : voltMin + voltMul * (voltRegister voltMax >>> 7 &&& 0x1F#16).toNat = voltMax := by
    decide
  have hopps : ∀ volt ∈ cpuOpps.map Opp.volt,
      voltMin + voltMul * (voltRegister volt >>> 7 &&& 0x1F#16).toNat = volt := by
    decide
  rw [Soc.volt, hpmic]
  rcases h with rfl | h
  · exact hmax
  · exact hopps volt h

/-- The clock of an entry has seven bits, so it keeps clear of the others. -/
theorem clockRegister_opp {cpu : Opp} (hcpu : cpu ∈ cpuOpps) (cmu : BitVec 32) :
    clkMul * (clockRegister cmu cpu.clk &&& 0x7F#32).toNat = cpu.clk ∧
      clockRegister cmu cpu.clk &&& 0xFFFFFF80#32 = cmu &&& 0xFFFFFF80#32 := by
  have hopps : ∀ cpu ∈ cpuOpps,
      let clock := if cpu.clk < clkMin then clkMin else if cpu.clk > clkMax then clkMax else cpu.clk
      let field := BitVec.ofNat 32 (clock / clkMul)
      clkMul * (field &&& 0x7F#32).toNat = cpu.clk ∧ field &&& 0xFFFFFF80#32 = 0#32 := by
    decide
  obtain ⟨hlow, hhigh⟩ := hopps cpu hcpu
  have hapart : 0xFFFFFF80#32 &&& 0x7F#32 = 0#32 := by decide
  unfold clockRegister
  dsimp only at hlow hhigh ⊢
  constructor
  · rw [BitVec.and_or_distrib_right, BitVec.and_assoc, hapart, BitVec.and_zero, BitVec.zero_or]
    exact hlow
  · rw [BitVec.and_or_distrib_right, BitVec.and_assoc, BitVec.and_self, hhigh, BitVec.or_zero]

theorem clock_of_register {cpu : Opp} (hcpu : cpu ∈ cpuOpps) {cmu : BitVec 32}
    (hcmu : s.cmu = clockRegister cmu cpu.clk) : s.clock = cpu.clk := by
  rw [clock, hcmu]
  exact (clockRegister_opp hcpu cmu).1

/-- A faster entry of the table comes before a slower one. -/
theorem chosenOpp_spec {clk : Int} {cpu : Opp} (h : chosenOpp clk = some cpu) :
    cpu ∈ cpuOpps ∧ cpu.clk ≤ clk ∧ ∀ other ∈ cpuOpps, other.clk ≤ clk → other.clk ≤ cpu.clk := by
  have hsorted : cpuOpps.Pairwise fun a b => b.clk ≤ a.clk := by decide
  obtain ⟨hle, before, after, hsplit, hbefore⟩ := List.find?_eq_some_iff_append.mp h
  refine ⟨List.mem_of_find?_eq_some h, of_decide_eq_true hle, ?_⟩
  intro other hother hclk
  rw [hsplit] at hother hsorted
  rcases List.mem_append.mp hother with hother | hother
  · have hnot := hbefore other hother
    simp [hclk] at hnot
  · rcases List.mem_cons.mp hother with rfl | hother
    · exact le_rfl
    · exact List.rel_of_pairwise_cons (List.pairwise_append.mp hsorted).2.1 hother

theorem cmu_of_pmic (s : Soc) (pmic : BitVec 16) : { s with pmic := pmic }.cmu = s.cmu := rfl

theorem step_write {first : RegisterWrite} {rest : List RegisterWrite}
    (hpending : s.pending = first :: rest) :
    s.step .write = some { s.perform first with pending := rest } := by
  simp only [Soc.step, hpending]

/-- A write leaves what the rest of the program goes on from. -/
theorem Underway.write {t : Soc} (h : s.Underway) (hstep : s.step .write = some t) :
    t.Underway ∧ t.cmu &&& 0xFFFFFF80#32 = s.cmu &&& 0xFFFFFF80#32 := by
  cases h with
  | idle hpending =>
      simp only [Soc.step, hpending] at hstep
      cases hstep
  | raising cpu hcpu hpending =>
      cases (step_write hpending).symm.trans hstep
      exact ⟨.raised cpu hcpu rfl (volt_of_register (.inl rfl) rfl), rfl⟩
  | raised cpu hcpu hpending hvolt =>
      cases (step_write hpending).symm.trans hstep
      exact ⟨.clocked cpu hcpu rfl ((volt_congr rfl).trans hvolt) (clock_of_register hcpu rfl),
        (clockRegister_opp hcpu s.cmu).2⟩
  | clocked cpu hcpu hpending hvolt hclock =>
      cases (step_write hpending).symm.trans hstep
      have hopp : cpu.volt ∈ cpuOpps.map Opp.volt := List.mem_map_of_mem hcpu
      have hvolt' : (s.perform (.volt cpu.volt)).volt = cpu.volt :=
        volt_of_register (.inr hopp) rfl
      have hcmu : (s.perform (.volt cpu.volt)).cmu = s.cmu := cmu_of_pmic s _
      have hsupplied := supplied_of_opp hcpu hvolt' ((clock_congr hcmu).trans hclock)
      exact ⟨.lowered cpu rfl (hsupplied.congr rfl rfl),
        congrArg (fun cmu => cmu &&& 0xFFFFFF80#32) hcmu⟩
  | lowered cpu hpending hsupplied =>
      cases (step_write hpending).symm.trans hstep
      exact ⟨.idle rfl (hsupplied.congr rfl rfl), rfl⟩

/-- One write, one more call or the end of the program: the rest is still that of some entry, and
the other bits of the clock register are what they were. -/
theorem Underway.step {input : SocInput} {t : Soc} (h : s.Underway)
    (hstep : s.step input = some t) :
    t.Underway ∧ t.cmu &&& 0xFFFFFF80#32 = s.cmu &&& 0xFFFFFF80#32 := by
  cases input with
  | overclock arg =>
      simp only [Soc.step] at hstep
      split at hstep
      next =>
        cases hstep
        refine ⟨?_, rfl⟩
        cases hchosen : chosenOpp (requestedClk arg) with
        | none => exact .idle rfl (h.supplied.congr rfl rfl)
        | some cpu => exact .raising cpu (chosenOpp_spec hchosen).1 rfl (h.supplied.congr rfl rfl)
      next => cases hstep
  | stop =>
      simp only [Soc.step, Option.some.injEq] at hstep
      subst hstep
      exact ⟨.idle rfl (h.supplied.congr rfl rfl), rfl⟩
  | write => exact h.write hstep

/-- Whatever clocks are asked for, and wherever the program is stopped, the voltage is never below
that of an entry the clock is as fast as. -/
theorem never_undervolted {t : Soc} (hidle : s.pending = []) (hsupplied : s.Supplied)
    (hreach : Reaches Soc.step (fun _ _ => True) s t) :
    t.Supplied ∧ t.cmu &&& 0xFFFFFF80#32 = s.cmu &&& 0xFFFFFF80#32 := by
  have hunderway : t.Underway ∧ t.cmu &&& 0xFFFFFF80#32 = s.cmu &&& 0xFFFFFF80#32 := by
    induction hreach with
    | refl => exact ⟨.idle hidle hsupplied, rfl⟩
    | tail _ _ hstep ih =>
        obtain ⟨hnext, hbits⟩ := ih.1.step hstep
        exact ⟨hnext, hbits.trans ih.2⟩
  exact ⟨hunderway.1.supplied, hunderway.2⟩

/-- A program that is not stopped sets the fastest entry that is no faster than it was asked for,
and leaves its voltage. -/
theorem overclock_settles (hidle : s.pending = []) {arg : CString}
    (hfast : 240000 ≤ requestedClk arg) : ∃ cpu ∈ cpuOpps, cpu.clk ≤ requestedClk arg ∧
      (∀ other ∈ cpuOpps, other.clk ≤ requestedClk arg → other.clk ≤ cpu.clk) ∧
        ∃ t, follow Soc.step (fun _ _ => true) (.overclock arg :: List.replicate 4 .write) s =
          some t ∧ t.clock = cpu.clk ∧ t.volt = cpu.volt ∧ t.cpuFreq = some cpu.clk ∧
            t.pending = [] := by
  obtain ⟨cpu, hchosen⟩ : ∃ cpu, chosenOpp (requestedClk arg) = some cpu := by
    rw [← Option.isSome_iff_exists, chosenOpp, List.find?_isSome]
    exact ⟨⟨240000, 975000⟩, by decide, decide_eq_true hfast⟩
  obtain ⟨hcpu, hle, hfastest⟩ := chosenOpp_spec hchosen
  have hopp : cpu.volt ∈ cpuOpps.map Opp.volt := List.mem_map_of_mem hcpu
  let t : Soc := ⟨voltRegister cpu.volt, clockRegister s.cmu cpu.clk, some cpu.clk, []⟩
  have hrun : follow Soc.step (fun _ _ => true) (.overclock arg :: List.replicate 4 .write) s =
      some t := by
    simp only [List.replicate, follow, if_true, Soc.step, hidle, hchosen, Option.map_some,
      Option.getD_some, setcpu, Option.bind_some, perform, t]
  exact ⟨cpu, hcpu, hle, hfastest, t, hrun, clock_of_register hcpu rfl,
    volt_of_register (.inr hopp) rfl, rfl, rfl⟩

/-- The registers as they are after a reset to 1008000 at 1100000. -/
def resetSoc : Soc := ⟨voltRegister 1100000, clockRegister 0xABCDEF00#32 1008000, none, []⟩

theorem overclock_settles_menu : ∃ cpu ∈ cpuOpps, cpu.clk ≤ requestedClk "504000".toList ∧
    (∀ other ∈ cpuOpps, other.clk ≤ requestedClk "504000".toList → other.clk ≤ cpu.clk) ∧
      ∃ t, follow Soc.step (fun _ _ => true)
        (.overclock "504000".toList :: List.replicate 4 .write) resetSoc = some t ∧
          t.clock = cpu.clk ∧ t.volt = cpu.volt ∧ t.cpuFreq = some cpu.clk ∧ t.pending = [] :=
  overclock_settles rfl (by decide)

/-- The program is stopped right after it has set a faster clock. -/
theorem never_undervolted_stopped : ∃ t : Soc, t.clock = 1488000 ∧
    t.Supplied ∧ t.cmu &&& 0xFFFFFF80#32 = resetSoc.cmu &&& 0xFFFFFF80#32 := by
  have hsupplied : resetSoc.Supplied := by
    unfold Supplied
    decide
  have hrun : ((some resetSoc).bind (follow Soc.step (fun _ _ => true)
      [.overclock "1488000".toList, .write, .write, .stop])).any (fun t => t.clock == 1488000) =
        true := by
    decide
  obtain ⟨s, t, hs, hreach, hclock⟩ := exists_reaches_of_follow hrun
  cases hs
  exact ⟨t, beq_iff_eq.mp hclock,
    never_undervolted rfl hsupplied (hreach.mono fun _ _ _ => trivial)⟩

end Soc

end DarkUI.Boot
