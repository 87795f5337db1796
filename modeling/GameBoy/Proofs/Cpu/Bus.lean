import GameBoy.Cpu.Step
import GameBoy.Memory.Traced

/-!
# The processor and its bus

The processor reaches everything else through its bus and in no other way. What writes and changes
of the clock rate keep, a step keeps; and a bus that another one stands for may take its place.

* `Cpu.step_induction`: what every operation of the bus keeps, a step keeps.
* `Bus.Hom`: a function between buses that the operations cannot tell from the identity.
* `Bus.Hom.step`: a step on the one bus is a step on the other.
* `Cpu.step_traced`: noting the writes of a step does not change it.
-/

namespace GameBoy

variable {β γ : Type} [Bus β] [Bus γ]

/-! ## What a step keeps -/

section Keeps

variable {P : β → Prop} (write : ∀ b a v, P b → P (Bus.write b a v)) {b : β}

include write

theorem Operand.store_induction (x : Operand) (v : UInt8) (r : Registers) (h : P b) :
    P (x.store v r b).2 := by
  cases x with
  | reg y => exact h
  | atHL => exact write _ _ _ h

theorem Registers.callTo_induction (r : Registers) (a : UInt16) (h : P b) : P (r.callTo a b).2 :=
  write _ _ _ (write _ _ _ h)

/-- An instruction reaches the bus by writes alone. -/
theorem Instr.operate_induction (i : Instr) (r : Registers) (h : P b) : P (i.operate r b).2 := by
  cases i with
  | load | loadByte | inc | dec | shift | clearBit | setBit =>
    exact Operand.store_induction write _ _ _ h
  | storeA | storeAAt | storeAHigh | storeAHighC => exact write _ _ _ h
  | storeSP | push => exact write _ _ _ (write _ _ _ h)
  | restart a => exact r.callTo_induction write a h
  | call c a =>
    simp only [Instr.operate]
    split
    · exact r.callTo_induction write a h
    · exact h
  | _ => exact h

namespace Cpu

theorem serve_induction (cpu : Cpu) (i : Interrupt) (h : P b) : P (cpu.serve i b).2 :=
  cpu.regs.callTo_induction write i.vector (write _ _ _ h)

variable (switchRate : ∀ b, P b → P (Bus.switchRate b).2)

include switchRate

omit write in
theorem requestRate_induction (cpu : Cpu) (i : Instr) (a : UInt16) (h : P b) :
    P (cpu.requestRate i a b).2 := by
  cases i with
  | stop => exact switchRate _ h
  | _ => exact h

/-- What writes and changes of the clock rate keep, a step keeps. -/
theorem step_induction (cpu : Cpu) (h : P b) : P (cpu.step b).bus := by
  unfold step
  simp only
  split
  · exact h
  · split
    · exact serve_induction write _ _ h
    · refine requestRate_induction switchRate _ _ _ ?_
      exact Instr.operate_induction write _ _ h

end Cpu

end Keeps

/-! ## Buses that stand for one another -/

/-- A function between buses under which every operation is the same. -/
structure Bus.Hom (f : β → γ) : Prop where
  read : ∀ b a, Bus.read (f b) a = Bus.read b a
  write : ∀ b a v, Bus.write (f b) a v = f (Bus.write b a v)
  switchRate : ∀ b, Bus.switchRate (f b) = ((Bus.switchRate b).1, f (Bus.switchRate b).2)

namespace Bus.Hom

variable {f : β → γ} (h : Hom f) (b : β)

include h

theorem readWord (a : UInt16) : Bus.readWord (f b) a = Bus.readWord b a := by
  simp only [Bus.readWord, h.read]

theorem load (x : Operand) (r : Registers) : x.load r (f b) = x.load r b := by
  cases x with
  | reg y => rfl
  | atHL => exact h.read _ _

theorem store (x : Operand) (v : UInt8) (r : Registers) :
    x.store v r (f b) = ((x.store v r b).1, f (x.store v r b).2) := by
  cases x with
  | reg y => rfl
  | atHL => simp only [Operand.store, h.write]

theorem pushWord (r : Registers) (v : UInt16) :
    r.pushWord v (f b) = ((r.pushWord v b).1, f (r.pushWord v b).2) := by
  simp only [Registers.pushWord, h.write]

theorem popWord (r : Registers) : r.popWord (f b) = r.popWord b := by
  simp only [Registers.popWord, h.readWord]

theorem callTo (r : Registers) (a : UInt16) :
    r.callTo a (f b) = ((r.callTo a b).1, f (r.callTo a b).2) := by
  simp only [Registers.callTo, h.pushWord]

theorem returnTo (r : Registers) : r.returnTo (f b) = r.returnTo b := by
  simp only [Registers.returnTo, h.popWord]

/-- An instruction does the same on the one bus as on the other. -/
theorem operate (i : Instr) (r : Registers) :
    i.operate r (f b) = ((i.operate r b).1, f (i.operate r b).2) := by
  cases i with
  | call c a =>
    simp only [Instr.operate, h.callTo]
    split <;> rfl
  | _ =>
    simp only [Instr.operate, h.read, h.write, h.load, h.store, h.pushWord, h.popWord, h.callTo,
      h.returnTo, Bus.writeWord]

theorem pending : Cpu.pending (f b) = Cpu.pending b := by
  simp only [Cpu.pending, h.read]

theorem fetch (a : UInt16) : Cpu.fetch (f b) a = Cpu.fetch b a := by
  simp only [Cpu.fetch, h.read]

theorem serve (cpu : Cpu) (i : Interrupt) :
    cpu.serve i (f b) = ((cpu.serve i b).1, f (cpu.serve i b).2) := by
  simp only [Cpu.serve, h.read, h.write, h.callTo]

theorem requestRate (cpu : Cpu) (i : Instr) (a : UInt16) :
    cpu.requestRate i a (f b) = ((cpu.requestRate i a b).1, f (cpu.requestRate i a b).2) := by
  cases i with
  | stop => simp only [Cpu.requestRate, h.switchRate]
  | _ => rfl

theorem execute (cpu : Cpu) (i : Instr) :
    cpu.execute i (f b) = ((cpu.execute i b).1, f (cpu.execute i b).2) := by
  simp only [Cpu.execute, h.operate, h.requestRate]

theorem interrupt? (cpu : Cpu) : cpu.interrupt? (f b) = cpu.interrupt? b := by
  simp only [Cpu.interrupt?, h.pending]

/-- A step on the one bus is a step on the other. -/
theorem step (cpu : Cpu) :
    cpu.step (f b) =
      { outcome := (cpu.step b).outcome, cpu := (cpu.step b).cpu, bus := f (cpu.step b).bus } := by
  unfold Cpu.step
  simp only [h.pending, h.interrupt?, h.fetch, h.serve, h.execute]
  split
  · rfl
  · split <;> rfl

end Bus.Hom

/-! ## Noted writes -/

/-- Noting the writes does not change what the bus does. -/
theorem Traced.hom_bus : Bus.Hom (Traced.bus : Traced β → β) where
  read _ _ := rfl
  write _ _ _ := rfl
  switchRate _ := rfl

namespace Cpu

/-- Noting the writes of a step does not change it. -/
theorem step_traced (cpu : Cpu) (t : Traced β) :
    cpu.step t.bus =
      { outcome := (cpu.step t).outcome, cpu := (cpu.step t).cpu, bus := (cpu.step t).bus.bus } :=
  Traced.hom_bus.step t cpu

theorem outcome_traced (cpu : Cpu) (bus : β) :
    (cpu.step (Traced.mk bus [])).outcome = (cpu.step bus).outcome :=
  (congrArg Stepped.outcome (cpu.step_traced (Traced.mk bus []))).symm

/-- The writes of a step, the first one first. -/
def writes (cpu : Cpu) (bus : β) : List (UInt16 × UInt8) := (cpu.step (Traced.mk bus [])).bus.writes

end Cpu

end GameBoy
