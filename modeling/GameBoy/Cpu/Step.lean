import GameBoy.Cpu.Execution
import GameBoy.Interrupt

/-!
# The processor

At each step the processor serves an interrupt, executes an instruction, or, while halted, does
nothing. It is written for any bus.

* `Cpu.step`: one step and what it was.
* `Cpu.serve`: service of an interrupt pushes the address of the next instruction and takes five
  machine cycles.
* `Cpu.execute`: an instruction. Enabling interrupts takes effect after the instruction that
  follows; disabling them, and the return from an interrupt, act at once.
-/

namespace GameBoy

/-- The processor's state. -/
structure Cpu where
  regs : Registers
  /-- Whether interrupts are served. -/
  ime : Bool := false
  /-- Whether they will be after the next instruction. -/
  imePending : Bool := false
  /-- Whether the processor waits for an interrupt request. -/
  halted : Bool := false
  /-- Where the last stop that changed the clock rate was. -/
  stopAddress? : Option UInt16 := none
  /-- The interrupt that the last step served. -/
  served? : Option Interrupt := none

/-- What a step was. -/
inductive Outcome
  /-- An interrupt was served. -/
  | served (i : Interrupt)
  /-- An instruction was executed in so many machine cycles. -/
  | executed (i : Instr) (cycles : Nat)
  /-- The processor was halted and nothing woke it. -/
  | idle

/-- The machine cycles that a step reports. -/
def Outcome.cycles : Outcome → Nat
  | .served _ => 5
  | .executed _ n => n
  | .idle => 0

/-- What a step was, and the processor and the bus after it. -/
structure Stepped (β : Type) where
  outcome : Outcome
  cpu : Cpu
  bus : β

namespace Cpu

variable {β : Type} [Bus β]

/-- The processor after the start-up program. -/
def powerUp (model : Model) : Cpu := { regs := .powerUp model }

/-- The interrupts that are both enabled and requested, as the two registers on the bus say. -/
def pending (bus : β) : UInt8 := Bus.read bus 0xffff &&& Bus.read bus 0xff0f &&& 0x1f

/-- The instruction at an address. -/
def fetch (bus : β) (a : UInt16) : Instr :=
  .ofBytes (Bus.read bus a) (Bus.read bus (a + 1)) (Bus.read bus (a + 2))

/-- Serves an interrupt: takes its request back, pushes the address of the next instruction and
continues at the handler, with interrupts disabled. -/
def serve (cpu : Cpu) (i : Interrupt) (bus : β) : Cpu × β :=
  let bus := Bus.write bus 0xff0f (Bus.read bus 0xff0f &&& ~~~i.mask)
  let called := cpu.regs.callTo i.vector bus
  ({ cpu with regs := called.1, ime := false, imePending := false, served? := some i }, called.2)

/-- What an instruction does to the processor itself, beside its registers. -/
def control (cpu : Cpu) (i : Instr) : Cpu :=
  match i with
  | .halt => { cpu with halted := true }
  | .disableInterrupts => { cpu with ime := false, imePending := false }
  | .enableInterrupts => { cpu with imePending := true }
  | .retInterrupt => { cpu with ime := true }
  | _ => cpu

/-- The stop at `address`, if the instruction is one: the bus may grant another clock rate. -/
def requestRate (cpu : Cpu) (i : Instr) (address : UInt16) (bus : β) : Cpu × β :=
  match i with
  | .stop =>
    let granted := Bus.switchRate bus
    (if granted.1 then { cpu with stopAddress? := some address } else cpu, granted.2)
  | _ => (cpu, bus)

/-- Executes an instruction that lies at the address in `pc`. -/
def execute (cpu : Cpu) (i : Instr) (bus : β) : Cpu × β :=
  let address := cpu.regs.pc
  let operated := i.operate (cpu.regs.goto (address + i.length)) bus
  requestRate (control { cpu with regs := operated.1 } i) i address operated.2

/-- Lets an earlier enabling of interrupts take effect, unless it was called off. -/
def settle (cpu : Cpu) (enabledEarlier : Bool) : Cpu :=
  if enabledEarlier && cpu.imePending then { cpu with ime := true, imePending := false } else cpu

/-- The interrupt that is served now, if any. -/
def interrupt? (cpu : Cpu) (bus : β) : Option Interrupt :=
  if cpu.ime then Interrupt.highest? (pending bus) else none

/-- One step. A request wakes a halted processor whether or not interrupts are served. -/
def step (cpu : Cpu) (bus : β) : Stepped β :=
  let cpu := { cpu with served? := none }
  if cpu.halted && pending bus == 0 then { outcome := .idle, cpu, bus }
  else
    let cpu := { cpu with halted := false }
    match cpu.interrupt? bus with
    | some i =>
      let served := cpu.serve i bus
      { outcome := .served i, cpu := served.1, bus := served.2 }
    | none =>
      let i := fetch bus cpu.regs.pc
      let executed := cpu.execute i bus
      { outcome := .executed i (i.cycles (i.taken cpu.regs.flags))
        cpu := executed.1.settle cpu.imePending
        bus := executed.2 }

/-- A step reports at most six machine cycles. -/
theorem cycles_step_le (cpu : Cpu) (bus : β) : (cpu.step bus).outcome.cycles ≤ 6 := by
  unfold step
  simp only
  split
  · exact Nat.zero_le _
  · split
    · exact Nat.le_of_ble_eq_true rfl
    · exact Instr.cycles_le ..

end Cpu

end GameBoy
