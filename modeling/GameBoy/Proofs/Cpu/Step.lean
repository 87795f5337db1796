import GameBoy.Cpu.Step

/-!
# What a step can be

A step of the processor is one of three things, and which of them is decided by the processor and by
two registers on the bus before anything else happens.

* `Cpu.step_idle`, `Cpu.step_served`, `Cpu.step_executed`: a step of each kind, written out.
* `Cpu.step_cases`: there is no other kind.
* `Cpu.step_of_served`: the kind that a step was tells what it did.
* `Cpu.ime_execute` and its kin: what an instruction does to the processor's own switches.
-/

namespace GameBoy

/-- Some interrupt is the most urgent one if there is any. -/
theorem Interrupt.highest?_eq_none_iff (b : UInt8) :
    highest? (b &&& 0x1f) = none ↔ b &&& 0x1f = 0 :=
  forall_byte (P := fun b => highest? (b &&& 0x1f) = none ↔ b &&& 0x1f = 0) (by decide +kernel) b

namespace Cpu

variable {β : Type} [Bus β] {cpu : Cpu} {bus : β}

/-! ## The three kinds of steps -/

/-- The processor as a step begins that is not spent halted. -/
def awake (cpu : Cpu) : Cpu := { cpu with halted := false, served? := none }

theorem interrupt?_of_ime (hime : cpu.ime = true) :
    cpu.interrupt? bus = Interrupt.highest? (pending bus) :=
  if_pos hime

theorem highest?_pending_eq_none_iff :
    Interrupt.highest? (pending bus) = none ↔ pending bus = 0 :=
  Interrupt.highest?_eq_none_iff _

theorem pending_ne_zero {i : Interrupt} (hi : Interrupt.highest? (pending bus) = some i) :
    pending bus ≠ 0 := by
  intro hnone
  rw [highest?_pending_eq_none_iff.2 hnone] at hi
  cases hi

/-- No interrupt is served unless they are enabled and one is both selected and requested. -/
theorem interrupt?_eq_none_iff :
    cpu.interrupt? bus = none ↔ ¬ (cpu.ime = true ∧ pending bus ≠ 0) := by
  cases hime : cpu.ime with
  | false => simp [interrupt?, hime]
  | true => rw [interrupt?_of_ime hime, highest?_pending_eq_none_iff]; simp

theorem step_idle (hhalted : cpu.halted = true) (hpending : pending bus = 0) :
    cpu.step bus = { outcome := .idle, cpu := { cpu with served? := none }, bus } := by
  simp [step, hhalted, hpending]

/-- A step of a processor that is not halted, or is woken. -/
theorem step_of_awake (hawake : cpu.halted = false ∨ pending bus ≠ 0) :
    cpu.step bus =
      match cpu.interrupt? bus with
      | some i =>
        { outcome := .served i, cpu := (cpu.awake.serve i bus).1, bus := (cpu.awake.serve i bus).2 }
      | none =>
        let i := fetch bus cpu.regs.pc
        { outcome := .executed i (i.cycles (i.taken cpu.regs.flags))
          cpu := (cpu.awake.execute i bus).1.settle cpu.imePending
          bus := (cpu.awake.execute i bus).2 } := by
  unfold step
  simp only
  rw [if_neg]
  · rfl
  · rcases hawake with hawake | hawake
    · simp [hawake]
    · simp [hawake]

theorem step_served {i : Interrupt} (hime : cpu.ime = true)
    (hi : Interrupt.highest? (pending bus) = some i) :
    cpu.step bus =
      { outcome := .served i
        cpu := (cpu.awake.serve i bus).1
        bus := (cpu.awake.serve i bus).2 } := by
  rw [step_of_awake (.inr (pending_ne_zero hi)), interrupt?_of_ime hime, hi]

theorem step_executed (hawake : cpu.halted = false ∨ pending bus ≠ 0)
    (hnone : ¬ (cpu.ime = true ∧ pending bus ≠ 0)) {i : Instr} (hi : fetch bus cpu.regs.pc = i) :
    cpu.step bus =
      { outcome := .executed i (i.cycles (i.taken cpu.regs.flags))
        cpu := (cpu.awake.execute i bus).1.settle cpu.imePending
        bus := (cpu.awake.execute i bus).2 } := by
  rw [step_of_awake hawake, interrupt?_eq_none_iff.2 hnone, hi]

/-- A step is idle, or serves an interrupt, or executes an instruction. -/
theorem step_cases (cpu : Cpu) (bus : β) :
    (cpu.halted = true ∧ pending bus = 0 ∧
      cpu.step bus = { outcome := .idle, cpu := { cpu with served? := none }, bus }) ∨
    (∃ i, cpu.ime = true ∧ Interrupt.highest? (pending bus) = some i ∧
      cpu.step bus =
        { outcome := .served i
          cpu := (cpu.awake.serve i bus).1
          bus := (cpu.awake.serve i bus).2 }) ∨
    ∃ i, (cpu.halted = false ∨ pending bus ≠ 0) ∧ ¬ (cpu.ime = true ∧ pending bus ≠ 0) ∧
      fetch bus cpu.regs.pc = i ∧
      cpu.step bus =
        { outcome := .executed i (i.cycles (i.taken cpu.regs.flags))
          cpu := (cpu.awake.execute i bus).1.settle cpu.imePending
          bus := (cpu.awake.execute i bus).2 } := by
  by_cases hidle : cpu.halted = true ∧ pending bus = 0
  · exact .inl ⟨hidle.1, hidle.2, step_idle hidle.1 hidle.2⟩
  · by_cases hserved : cpu.ime = true ∧ pending bus ≠ 0
    · obtain ⟨i, hi⟩ := Option.ne_none_iff_exists'.1 (mt highest?_pending_eq_none_iff.1 hserved.2)
      exact .inr (.inl ⟨i, hserved.1, hi, step_served hserved.1 hi⟩)
    · have hawake : cpu.halted = false ∨ pending bus ≠ 0 := by
        cases hhalted : cpu.halted with
        | false => exact .inl rfl
        | true => exact .inr fun h => hidle ⟨hhalted, h⟩
      exact .inr (.inr ⟨_, hawake, hserved, rfl, step_executed hawake hserved rfl⟩)

/-- A step that serves an interrupt. -/
theorem step_of_served {i : Interrupt} (h : (cpu.step bus).outcome = .served i) :
    cpu.step bus =
      { outcome := .served i
        cpu := (cpu.awake.serve i bus).1
        bus := (cpu.awake.serve i bus).2 } := by
  rcases step_cases cpu bus with ⟨-, -, hstep⟩ | ⟨j, -, -, hstep⟩ | ⟨j, -, -, -, hstep⟩
  · rw [hstep] at h
    cases h
  · rw [hstep] at h ⊢
    obtain rfl : j = i := Outcome.served.inj h
    rfl
  · rw [hstep] at h
    cases h

/-! ## The processor's switches -/

/-- A stop changes no switch. -/
theorem switches_requestRate (cpu : Cpu) (i : Instr) (a : UInt16) (bus : β) :
    (cpu.requestRate i a bus).1.ime = cpu.ime ∧
      (cpu.requestRate i a bus).1.imePending = cpu.imePending ∧
      (cpu.requestRate i a bus).1.halted = cpu.halted := by
  cases i with
  | stop =>
    simp only [requestRate]
    split <;> exact ⟨rfl, rfl, rfl⟩
  | _ => exact ⟨rfl, rfl, rfl⟩

/-- The registers have no part in what an instruction does to the switches. -/
theorem switches_control (cpu : Cpu) (i : Instr) (r : Registers) :
    (control { cpu with regs := r } i).ime = (cpu.control i).ime ∧
      (control { cpu with regs := r } i).imePending = (cpu.control i).imePending ∧
      (control { cpu with regs := r } i).halted = (cpu.control i).halted := by
  cases i <;> exact ⟨rfl, rfl, rfl⟩

@[simp] theorem ime_execute (cpu : Cpu) (i : Instr) (bus : β) :
    (cpu.execute i bus).1.ime = (cpu.control i).ime :=
  (switches_requestRate ..).1.trans (switches_control ..).1

@[simp] theorem imePending_execute (cpu : Cpu) (i : Instr) (bus : β) :
    (cpu.execute i bus).1.imePending = (cpu.control i).imePending :=
  (switches_requestRate ..).2.1.trans (switches_control ..).2.1

@[simp] theorem halted_execute (cpu : Cpu) (i : Instr) (bus : β) :
    (cpu.execute i bus).1.halted = (cpu.control i).halted :=
  (switches_requestRate ..).2.2.trans (switches_control ..).2.2

@[simp] theorem regs_execute (cpu : Cpu) (i : Instr) (bus : β) :
    (cpu.execute i bus).1.regs = (i.operate (cpu.regs.goto (cpu.regs.pc + i.length)) bus).1 := by
  cases i with
  | stop =>
    simp only [execute, requestRate]
    split <;> rfl
  | _ => rfl

@[simp] theorem regs_settle (cpu : Cpu) (earlier : Bool) :
    (cpu.settle earlier).regs = cpu.regs := by
  unfold settle
  split <;> rfl

@[simp] theorem ime_settle (cpu : Cpu) (earlier : Bool) :
    (cpu.settle earlier).ime = (cpu.ime || earlier && cpu.imePending) := by
  cases earlier <;> cases h : cpu.imePending <;> simp [settle, h]

@[simp] theorem imePending_settle (cpu : Cpu) (earlier : Bool) :
    (cpu.settle earlier).imePending = (cpu.imePending && !earlier) := by
  cases earlier <;> cases h : cpu.imePending <;> simp [settle, h]

@[simp] theorem halted_settle (cpu : Cpu) (earlier : Bool) :
    (cpu.settle earlier).halted = cpu.halted := by
  unfold settle
  split <;> rfl

end Cpu

end GameBoy
