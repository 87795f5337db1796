import GameBoy.Proofs.Cpu.Step
import GameBoy.Memory.Flat

/-!
# When interrupts are enabled

Enabling interrupts takes effect after the instruction that follows. What the processor remembers
of it between steps is tied to what the last step was, and from that follows what every step makes
of the enabling of interrupts, on whatever bus.

* `Cpu.run`: a run from the start, on a bus that may be another one at each step.
* `Cpu.Delayed`: what the processor remembers of an instruction that enabled interrupts.
* `Delayed.step`: each step keeps it.
* `enabling_law`: when interrupts are served, and when they are enabled, at each step of a run.
* `enabling_twice`: enabling them a second time does not delay the first.
-/

namespace GameBoy

/-- The step executed an instruction. -/
def Outcome.Executed (o : Outcome) (i : Instr) : Prop := ∃ n, o = .executed i n

/-- A step executes one instruction. -/
theorem Outcome.Executed.unique {o : Outcome} {i j : Instr} (hi : o.Executed i)
    (hj : o.Executed j) : i = j := by
  obtain ⟨m, rfl⟩ := hi
  obtain ⟨n, hj⟩ := hj
  cases hj
  rfl

namespace Cpu

variable {β : Type} [Bus β] {cpu : Cpu} {bus : β} {earlier : Prop}

/-! ## One step -/

/-- An interrupt is served when they are enabled and one is both selected and requested. -/
theorem served_iff :
    (∃ i, (cpu.step bus).outcome = .served i) ↔ cpu.ime = true ∧ pending bus ≠ 0 := by
  rcases step_cases cpu bus with
    ⟨-, hpending, hstep⟩ | ⟨i, hime, hi, hstep⟩ | ⟨i, -, hnot, -, hstep⟩
  · simp [hstep, hpending]
  · simp [hstep, hime, pending_ne_zero hi]
  · simpa [hstep] using hnot

/-- A step that executes an instruction, written out, and what made it one. -/
theorem executed_cases {i : Instr} (h : (cpu.step bus).outcome.Executed i) :
    (cpu.halted = false ∨ pending bus ≠ 0) ∧ ¬ (cpu.ime = true ∧ pending bus ≠ 0) ∧
      fetch bus cpu.regs.pc = i ∧
      cpu.step bus =
        { outcome := .executed i (i.cycles (i.taken cpu.regs.flags))
          cpu := (cpu.awake.execute i bus).1.settle cpu.imePending
          bus := (cpu.awake.execute i bus).2 } := by
  obtain ⟨n, h⟩ := h
  rcases step_cases cpu bus with
    ⟨-, -, hstep⟩ | ⟨j, -, -, hstep⟩ | ⟨j, hawake, hnone, hfetch, hstep⟩
  · rw [hstep] at h
    cases h
  · rw [hstep] at h
    cases h
  · rw [hstep] at h
    obtain ⟨rfl, -⟩ := Outcome.executed.inj h
    exact ⟨hawake, hnone, hfetch, hstep⟩

/-- What a step that executes an instruction makes of the processor. -/
theorem step_of_executed {i : Instr} (h : (cpu.step bus).outcome.Executed i) :
    (cpu.step bus).cpu = (cpu.awake.execute i bus).1.settle cpu.imePending := by
  obtain ⟨-, -, -, hstep⟩ := executed_cases h
  rw [hstep]

/-- The instruction is the one that `pc` points to. -/
theorem fetch_of_executed {i : Instr} (h : (cpu.step bus).outcome.Executed i) :
    fetch bus cpu.regs.pc = i := by
  obtain ⟨-, -, hfetch, -⟩ := executed_cases h
  exact hfetch

/-- The registers after an instruction. -/
theorem regs_of_executed {i : Instr} (h : (cpu.step bus).outcome.Executed i) :
    (cpu.step bus).cpu.regs = (i.operate (cpu.regs.goto (cpu.regs.pc + i.length)) bus).1 := by
  rw [step_of_executed h, regs_settle, regs_execute]
  rfl

/-- The bus after an instruction that only the registers and the bus know of. -/
theorem bus_of_executed {i : Instr} (h : (cpu.step bus).outcome.Executed i) (hi : i ≠ .stop) :
    (cpu.step bus).bus = (i.operate (cpu.regs.goto (cpu.regs.pc + i.length)) bus).2 := by
  obtain ⟨-, -, -, hstep⟩ := executed_cases h
  rw [hstep]
  cases i with
  | stop => exact absurd rfl hi
  | _ => rfl

/-- The switches after an instruction. -/
theorem switches_of_executed {i : Instr} (h : (cpu.step bus).outcome.Executed i) :
    (cpu.step bus).cpu.ime =
        ((cpu.awake.control i).ime || cpu.imePending && (cpu.awake.control i).imePending) ∧
      (cpu.step bus).cpu.imePending = ((cpu.awake.control i).imePending && !cpu.imePending) ∧
      (cpu.step bus).cpu.halted = (cpu.awake.control i).halted := by
  rw [step_of_executed h]
  simp

/-- Service disables interrupts. -/
theorem switches_of_served {i : Interrupt} (h : (cpu.step bus).outcome = .served i) :
    (cpu.step bus).cpu.ime = false ∧ (cpu.step bus).cpu.imePending = false := by
  rw [step_of_served h]
  exact ⟨rfl, rfl⟩

/-- The instruction that disables interrupts does so at once, and calls off their enabling. -/
theorem switches_of_disabled (h : (cpu.step bus).outcome.Executed .disableInterrupts) :
    (cpu.step bus).cpu.ime = false ∧ (cpu.step bus).cpu.imePending = false := by
  obtain ⟨hime, hpending, -⟩ := switches_of_executed h
  exact ⟨hime.trans (Bool.and_false _), hpending⟩

/-- No other instruction disables them or calls their enabling off. -/
theorem switches_control_of_ne (cpu : Cpu) {i : Instr} (hi : i ≠ .disableInterrupts) :
    (cpu.ime = true → (cpu.control i).ime = true) ∧
      (cpu.imePending = true → (cpu.control i).imePending = true) := by
  cases i with
  | disableInterrupts => exact absurd rfl hi
  | enableInterrupts => exact ⟨id, fun _ => rfl⟩
  | retInterrupt => exact ⟨fun _ => rfl, id⟩
  | _ => exact ⟨id, id⟩

/-- The return from an interrupt enables them at once. -/
theorem ime_of_returned (h : (cpu.step bus).outcome.Executed .retInterrupt) :
    (cpu.step bus).cpu.ime = true :=
  (switches_of_executed h).1

/-! ## The delay -/

/-- What the processor remembers, `earlier` being that the last step enabled interrupts: they are to
be enabled only if it did; if it did, they are to be enabled or are so already, and the processor is
not halted. -/
structure Delayed (cpu : Cpu) (earlier : Prop) : Prop where
  of_pending : cpu.imePending = true → earlier
  takes : earlier → cpu.imePending = true ∨ cpu.ime = true
  awake : earlier → cpu.halted = false

/-- Nothing is to be enabled after a step that did not enable. -/
theorem Delayed.of_not_pending (hpending : cpu.imePending = false) (hnot : ¬ earlier) :
    cpu.Delayed earlier :=
  ⟨fun h => absurd (hpending.symm.trans h) nofun, fun h => absurd h hnot, fun h => absurd h hnot⟩

theorem delayed_powerUp (model : Model) : (powerUp model).Delayed False :=
  .of_not_pending rfl id

/-- After an instruction that does not enable interrupts, nothing is left to be enabled. -/
theorem imePending_of_executed {i : Instr} (h : (cpu.step bus).outcome.Executed i)
    (hi : i ≠ .enableInterrupts) : (cpu.step bus).cpu.imePending = false := by
  obtain ⟨-, hpending, -⟩ := switches_of_executed h
  rw [hpending]
  cases i with
  | enableInterrupts => exact absurd rfl hi
  | disableInterrupts => rfl
  | _ => exact Bool.and_not_self _

/-- Each step remembers whether it enabled interrupts. -/
theorem Delayed.step (h : cpu.Delayed earlier) (bus : β) :
    (cpu.step bus).cpu.Delayed ((cpu.step bus).outcome.Executed .enableInterrupts) := by
  rcases step_cases cpu bus with
    ⟨hhalted, -, hstep⟩ | ⟨i, -, -, hstep⟩ | ⟨i, -, -, -, hstep⟩
  · -- a halted processor has nothing to enable
    have hpending : cpu.imePending = false := by
      rw [Bool.eq_false_iff]
      exact fun hp => nomatch hhalted.symm.trans (h.awake (h.of_pending hp))
    rw [hstep]
    exact .of_not_pending hpending fun ⟨_, he⟩ => nomatch he
  · have houtcome : (cpu.step bus).outcome = .served i := by rw [hstep]
    refine .of_not_pending (switches_of_served houtcome).2 fun ⟨_, he⟩ => ?_
    exact nomatch houtcome.symm.trans he
  · have hexecuted : (cpu.step bus).outcome.Executed i := ⟨_, by rw [hstep]⟩
    by_cases hi : i = .enableInterrupts
    · subst hi
      obtain ⟨hime, hpending, hhalted⟩ := switches_of_executed hexecuted
      refine ⟨fun _ => hexecuted, fun _ => ?_, fun _ => hhalted⟩
      rw [hime, hpending]
      cases cpu.imePending with
      | false => exact .inl rfl
      | true => exact .inr (Bool.or_true _)
    · exact .of_not_pending (imePending_of_executed hexecuted hi) fun he => hi (hexecuted.unique he)

/-- The instruction after one that enabled interrupts completes their enabling. -/
theorem Delayed.ime_of_earlier (h : cpu.Delayed earlier) (hearlier : earlier) {i : Instr}
    (hexecuted : (cpu.step bus).outcome.Executed i) (hi : i ≠ .disableInterrupts) :
    (cpu.step bus).cpu.ime = true := by
  obtain ⟨hkeeps, hkeepsPending⟩ := switches_control_of_ne cpu.awake hi
  rw [(switches_of_executed hexecuted).1]
  rcases h.takes hearlier with hpending | hime
  · rw [hpending, hkeepsPending hpending]
    exact Bool.or_true _
  · rw [hkeeps hime]
    exact Bool.true_or _

/-- No other step has a part in the enabling of interrupts. -/
theorem Delayed.ime_eq (h : cpu.Delayed earlier)
    (hserved : ¬ ∃ i, (cpu.step bus).outcome = .served i)
    (hdisabled : ¬ (cpu.step bus).outcome.Executed .disableInterrupts)
    (hreturned : ¬ (cpu.step bus).outcome.Executed .retInterrupt)
    (hearlier : ¬ (earlier ∧ ∃ i, (cpu.step bus).outcome.Executed i)) :
    (cpu.step bus).cpu.ime = cpu.ime := by
  rcases step_cases cpu bus with ⟨-, -, hstep⟩ | ⟨i, -, -, hstep⟩ | ⟨i, -, -, -, hstep⟩
  · rw [hstep]
  · exact absurd ⟨i, by rw [hstep]⟩ hserved
  · have hexecuted : (cpu.step bus).outcome.Executed i := ⟨_, by rw [hstep]⟩
    have hpending : cpu.imePending = false := by
      rw [Bool.eq_false_iff]
      exact fun hp => hearlier ⟨h.of_pending hp, i, hexecuted⟩
    rw [(switches_of_executed hexecuted).1, hpending, Bool.false_and, Bool.or_false]
    cases i with
    | disableInterrupts => exact absurd hexecuted hdisabled
    | retInterrupt => exact absurd hexecuted hreturned
    | _ => rfl

/-- Interrupts that are disabled, and not about to be enabled, are enabled by nothing but a return
from an interrupt. -/
theorem Delayed.ime_eq_false (h : cpu.Delayed earlier) (hnot : ¬ earlier) (hime : cpu.ime = false)
    (hreturned : ¬ (cpu.step bus).outcome.Executed .retInterrupt) :
    (cpu.step bus).cpu.ime = false := by
  by_cases hdisabled : (cpu.step bus).outcome.Executed .disableInterrupts
  · exact (switches_of_disabled hdisabled).1
  · have hserved : ¬ ∃ i, (cpu.step bus).outcome = .served i := by
      rw [served_iff, hime]
      exact fun h => nomatch h.1
    rw [h.ime_eq hserved hdisabled hreturned fun he => hnot he.1]
    exact hime

/-- The step after one that enabled interrupts executes an instruction, unless they were enabled
already. -/
theorem Delayed.executes (h : cpu.Delayed earlier) (hearlier : earlier) (hime : cpu.ime = false)
    (bus : β) : ∃ i, (cpu.step bus).outcome.Executed i := by
  rcases step_cases cpu bus with ⟨hhalted, -, -⟩ | ⟨i, hserves, -, -⟩ | ⟨i, -, -, -, hstep⟩
  · exact nomatch hhalted.symm.trans (h.awake hearlier)
  · exact nomatch hime.symm.trans hserves
  · exact ⟨i, _, by rw [hstep]⟩

/-! ## Runs -/

/-- The processor before each step of a run from the start, on the bus that it finds at each. -/
def run (model : Model) (bus : Nat → β) : Nat → Cpu
  | 0 => powerUp model
  | k + 1 => ((run model bus k).step (bus k)).cpu

/-- What step `k` of the run is. -/
def did (model : Model) (bus : Nat → β) (k : Nat) : Outcome :=
  ((run model bus k).step (bus k)).outcome

variable (model : Model) (bus : Nat → β)

/-- The step before step `k` enabled interrupts. -/
def EnabledBefore (k : Nat) : Prop := ∃ j, j + 1 = k ∧ (did model bus j).Executed .enableInterrupts

theorem enabledBefore_succ (k : Nat) :
    EnabledBefore model bus (k + 1) ↔ (did model bus k).Executed .enableInterrupts := by
  constructor
  · rintro ⟨j, hj, h⟩
    obtain rfl : j = k := Nat.succ_inj.1 hj
    exact h
  · exact fun h => ⟨k, rfl, h⟩

/-- Throughout a run the processor remembers whether the last step enabled interrupts. -/
theorem delayed_run (k : Nat) : (run model bus k).Delayed (EnabledBefore model bus k) := by
  induction k with
  | zero =>
    have hnone : EnabledBefore model bus 0 ↔ False := by simp [EnabledBefore]
    rw [hnone]
    exact delayed_powerUp model
  | succ k ih =>
    rw [enabledBefore_succ]
    exact ih.step (bus k)

/-- Interrupts that are disabled, and not about to be enabled, stay so until an instruction enables
them or returns from an interrupt. -/
theorem ime_eq_false_of_quiet {k m : Nat} (hkm : k ≤ m) (hime : (run model bus k).ime = false)
    (hbefore : ¬ EnabledBefore model bus k)
    (hquiet : ∀ l, k ≤ l → l < m → ¬ (did model bus l).Executed .enableInterrupts ∧
      ¬ (did model bus l).Executed .retInterrupt) :
    (run model bus m).ime = false ∧ ¬ EnabledBefore model bus m := by
  induction hkm with
  | refl => exact ⟨hime, hbefore⟩
  | @step m hkm ih =>
    obtain ⟨hm, hnot⟩ := ih fun l hl hlm => hquiet l hl (Nat.lt_succ_of_lt hlm)
    obtain ⟨henables, hreturns⟩ := hquiet m hkm (Nat.lt_succ_self m)
    rw [enabledBefore_succ]
    exact ⟨(delayed_run model bus m).ime_eq_false hnot hm hreturns, henables⟩

/-- At each step of a run: an interrupt is served exactly if interrupts are enabled and one is both
selected and requested. They are disabled by service and by the instruction that disables them; they
are enabled by the return from an interrupt, and by any instruction, but the one that disables them,
that follows one that enables them; nothing else has a part in it. So the first step after an
instruction that enables them executes an instruction, unless they were enabled or about to be; and
if that instruction disables them, they stay disabled until another one enables them. -/
theorem enabling_law (k : Nat) :
    ((∃ i, did model bus k = .served i) ↔ (run model bus k).ime = true ∧ pending (bus k) ≠ 0) ∧
    ((∃ i, did model bus k = .served i) ∨ (did model bus k).Executed .disableInterrupts →
      (run model bus (k + 1)).ime = false) ∧
    ((did model bus k).Executed .retInterrupt ∨ EnabledBefore model bus k ∧
        (∃ i, (did model bus k).Executed i ∧ i ≠ .disableInterrupts) →
      (run model bus (k + 1)).ime = true) ∧
    ((¬ ∃ i, did model bus k = .served i) → ¬ (did model bus k).Executed .disableInterrupts →
      ¬ (did model bus k).Executed .retInterrupt →
      ¬ (EnabledBefore model bus k ∧ ∃ i, (did model bus k).Executed i) →
      (run model bus (k + 1)).ime = (run model bus k).ime) ∧
    ((did model bus k).Executed .enableInterrupts → (run model bus k).ime = false →
      ¬ EnabledBefore model bus k → ∃ i, (did model bus (k + 1)).Executed i) ∧
    ((did model bus k).Executed .enableInterrupts →
      (did model bus (k + 1)).Executed .disableInterrupts →
      ∀ m, k + 2 ≤ m →
        (∀ l, k + 2 ≤ l → l < m → ¬ (did model bus l).Executed .enableInterrupts ∧
          ¬ (did model bus l).Executed .retInterrupt) →
        (run model bus m).ime = false) := by
  have hdelayed := delayed_run model bus k
  refine ⟨served_iff, ?_, ?_, hdelayed.ime_eq, fun henables hime hnot => ?_,
    fun _ hdisables m hm hquiet => ?_⟩
  · rintro (⟨i, hi⟩ | hdisables)
    · exact (switches_of_served hi).1
    · exact (switches_of_disabled hdisables).1
  · rintro (hreturns | ⟨hbefore, i, hexecuted, hi⟩)
    · exact ime_of_returned hreturns
    · exact hdelayed.ime_of_earlier hbefore hexecuted hi
  · have hnext : (run model bus (k + 1)).ime = false :=
      hdelayed.ime_eq_false hnot hime fun hreturns => nomatch henables.unique hreturns
    have hbefore := (enabledBefore_succ model bus k).2 henables
    exact (delayed_run model bus (k + 1)).executes hbefore hnext (bus (k + 1))
  · refine (ime_eq_false_of_quiet model bus hm (switches_of_disabled hdisables).1 ?_ hquiet).1
    rw [enabledBefore_succ]
    exact fun henables => nomatch henables.unique hdisables

/-! ## Programs that enable interrupts -/

/-- Memory with a program that enables interrupts and goes on with another instruction, and the most
urgent interrupt both selected and requested. -/
def enablingThen (next : UInt8) : Flat :=
  Bus.write (Bus.write (Bus.write (Bus.write { cells := .fill _ 0, armed := false }
    0x0100 0xfb) 0x0101 next) 0xff0f 0x01) 0xffff 0x01

theorem read_enablingThen (next : UInt8) (a : UInt16) :
    Bus.read (enablingThen next) a =
      if 0xffff = a then 0x01 else if 0xff0f = a then 0x01
      else if 0x0101 = a then next else if 0x0100 = a then 0xfb else 0 := by
  simp only [enablingThen, Flat.read_write]
  simp [Bus.read]

theorem pending_enablingThen (next : UInt8) : pending (enablingThen next) = 0x01 := by
  rw [pending, read_enablingThen, read_enablingThen]
  simp
  rfl

theorem fetch_enablingThen (next : UInt8) :
    fetch (enablingThen next) 0x0100 = .enableInterrupts ∧
      fetch (enablingThen next) 0x0101 = .ofBytes next 0 0 ∧
      fetch (enablingThen next) 0x0102 = .nop := by
  simp only [fetch, read_enablingThen]
  refine ⟨?_, ?_, ?_⟩
  · simp
    rfl
  · simp
  · simp
    rfl

/-- A step of the program at an address, while interrupts are disabled. -/
theorem step_enablingThen {cpu : Cpu} {next : UInt8} {a : UInt16} {i : Instr}
    (hhalted : cpu.halted = false) (hime : cpu.ime = false) (hpc : cpu.regs.pc = a)
    (hfetch : fetch (enablingThen next) a = i) :
    cpu.step (enablingThen next) =
      { outcome := .executed i (i.cycles (i.taken cpu.regs.flags))
        cpu := (cpu.awake.execute i (enablingThen next)).1.settle cpu.imePending
        bus := (cpu.awake.execute i (enablingThen next)).2 } := by
  refine step_executed (.inl hhalted) ?_ (hpc ▸ hfetch)
  rw [hime]
  exact fun h => nomatch h.1

/-- The first step of the program. -/
theorem first_enablingThen (next : UInt8) :
    (powerUp .dmg).step (enablingThen next) =
      { outcome := .executed .enableInterrupts 1
        cpu := { regs := (Registers.powerUp .dmg).goto 0x0101, imePending := true }
        bus := enablingThen next } := by
  have hpc : (powerUp .dmg).regs.pc = 0x0100 := rfl
  rw [step_enablingThen rfl rfl hpc (fetch_enablingThen next).1]
  rfl

/-- Its second step. -/
theorem second_enablingThen {next : UInt8} {i : Instr} (hi : .ofBytes next 0 0 = i) :
    (run .dmg (fun _ => enablingThen next) 1).step (enablingThen next) =
      { outcome := .executed i (i.cycles (i.taken (Registers.powerUp .dmg).flags))
        cpu :=
          (execute { regs := (Registers.powerUp .dmg).goto 0x0101, imePending := true } i
            (enablingThen next)).1.settle true
        bus :=
          (execute { regs := (Registers.powerUp .dmg).goto 0x0101, imePending := true } i
            (enablingThen next)).2 } := by
  rw [run, run, first_enablingThen]
  exact step_enablingThen rfl rfl rfl ((fetch_enablingThen next).2.1.trans hi)

/-- Interrupts that are enabled and at once disabled are not served. -/
theorem enabling_law_disabled :
    (∃ i, (did .dmg (fun _ => enablingThen 0xf3) 1).Executed i) ∧
      (run .dmg (fun _ => enablingThen 0xf3) 3).ime = false := by
  obtain ⟨-, -, -, -, hdelay, hoff⟩ := enabling_law .dmg (fun _ => enablingThen 0xf3) 0
  have hfirst : (did .dmg (fun _ => enablingThen 0xf3) 0).Executed .enableInterrupts :=
    ⟨1, by rw [did, run, first_enablingThen]⟩
  have hsecond := second_enablingThen (show Instr.ofBytes 0xf3 0 0 = .disableInterrupts from rfl)
  have hthird : (did .dmg (fun _ => enablingThen 0xf3) 2).Executed .nop := by
    have hstep :
        Cpu.step { regs := (Registers.powerUp .dmg).goto 0x0102 } (enablingThen 0xf3) = _ :=
      step_enablingThen rfl rfl rfl (fetch_enablingThen 0xf3).2.2
    refine ⟨1, ?_⟩
    rw [did, run, hsecond]
    exact congrArg Stepped.outcome hstep
  refine ⟨hdelay hfirst rfl (by simp [EnabledBefore]), ?_⟩
  refine hoff hfirst ⟨1, by rw [did, hsecond]; rfl⟩ 3 (by decide) fun l hl hl' => ?_
  obtain rfl : l = 2 := by omega
  exact ⟨fun h => absurd (h.unique hthird) nofun, fun h => absurd (h.unique hthird) nofun⟩

/-- Enabling interrupts a second time does not delay the first: the second of the two instructions
is executed while interrupts are disabled, and the next step serves an interrupt. The bus is the
same throughout. -/
theorem enabling_twice :
    ((run .dmg (fun _ => enablingThen 0xfb) 0).step (enablingThen 0xfb)).bus = enablingThen 0xfb ∧
      ((run .dmg (fun _ => enablingThen 0xfb) 1).step (enablingThen 0xfb)).bus =
        enablingThen 0xfb ∧
      (did .dmg (fun _ => enablingThen 0xfb) 1).Executed .enableInterrupts ∧
      (run .dmg (fun _ => enablingThen 0xfb) 1).ime = false ∧
      did .dmg (fun _ => enablingThen 0xfb) 2 = .served .vblank := by
  have hsecond := second_enablingThen (show Instr.ofBytes 0xfb 0 0 = .enableInterrupts from rfl)
  have hmost : Interrupt.highest? (pending (enablingThen 0xfb)) = some .vblank := by
    rw [pending_enablingThen]
    decide
  refine ⟨?_, ?_, ⟨1, ?_⟩, ?_, ?_⟩
  · rw [run, first_enablingThen]
  · rw [hsecond]
    rfl
  · rw [did, hsecond]
    rfl
  · rw [run, run, first_enablingThen]
  · rw [did, run, hsecond, step_served rfl hmost]

end Cpu

end GameBoy
