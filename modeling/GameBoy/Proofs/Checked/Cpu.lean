import GameBoy.Proofs.Checked.Operations
import GameBoy.Proofs.Cpu.Bus

/-!
# The processor never stops

The processor on a bus whose accesses may stop. What it adds itself are the half carries of sums and
the places of bits.

* `CheckedBus`: a bus with accesses that may stop; `CheckedBus.Safe`: where none of them does.
* `Instr.checkedOperate_eq`: no instruction stops.
* `Cpu.checkedStep_eq`: no step does, whatever is fetched.
-/

namespace GameBoy

open Checked

/-! ## Arithmetic -/

/-- An operation on `A`. Sums with a carry are taken in bytes for the low halves and in words for
the whole. -/
def Alu.checkedApply (op : Alu) (a v : UInt8) (f : Flags) : Option (UInt8 × Flags) := do
  match op with
  | .adc =>
    let low ← Checked.add 8 (a &&& 0x0f).toNat (v &&& 0x0f).toNat
    let low ← Checked.add 8 low f.carry.toNat
    let sum ← Checked.add 16 a.toNat v.toNat
    let sum ← Checked.add 16 sum f.carry.toNat
    let r := a + v + carryIn f.carry
    return (r, { zero := r == 0, subtract := false, halfCarry := low > 0x0f, carry := sum > 0xff })
  | .sbc =>
    let low ← Checked.add 8 (v &&& 0x0f).toNat f.carry.toNat
    let whole ← Checked.add 16 v.toNat f.carry.toNat
    let r := a - v - carryIn f.carry
    return (r,
      { zero := r == 0
        subtract := true
        halfCarry := (a &&& 0x0f).toNat < low
        carry := a.toNat < whole })
  | _ => return op.apply a v f

/-- The half carry of a sum of words is that of their low twelve bits. -/
def checkedAddWords (x y : UInt16) (f : Flags) : Option (UInt16 × Flags) := do
  let low ← add 16 (x &&& 0x0fff).toNat (y &&& 0x0fff).toNat
  return (x + y,
    { zero := f.zero
      subtract := false
      halfCarry := low > 0x0fff
      carry := x.toBitVec.uaddOverflow y.toBitVec })

theorem toNat_and_le (x y : UInt8) : (x &&& y).toNat ≤ y.toNat := by
  rw [UInt8.toNat_and]
  exact Nat.and_le_right

theorem Alu.checkedApply_eq (op : Alu) (a v : UInt8) (f : Flags) :
    op.checkedApply a v f = some (op.apply a v f) := by
  have ha := a.toNat_lt
  have hv := v.toNat_lt
  have hcarry := Bool.toNat_le f.carry
  have hlowA : (a &&& 0x0f).toNat ≤ 15 := toNat_and_le a 0x0f
  have hlowV : (v &&& 0x0f).toNat ≤ 15 := toNat_and_le v 0x0f
  cases op with
  | adc =>
    have h1 : (a &&& 0x0f).toNat + (v &&& 0x0f).toNat < 2 ^ 8 := by omega
    have h2 : (a &&& 0x0f).toNat + (v &&& 0x0f).toNat + f.carry.toNat < 2 ^ 8 := by omega
    have h3 : a.toNat + v.toNat < 2 ^ 16 := by omega
    have h4 : a.toNat + v.toNat + f.carry.toNat < 2 ^ 16 := by omega
    simp only [checkedApply, add_of_lt h1, add_of_lt h2, add_of_lt h3, add_of_lt h4,
      Option.bind_eq_bind, Option.bind_some]
    rfl
  | sbc =>
    have h1 : (v &&& 0x0f).toNat + f.carry.toNat < 2 ^ 8 := by omega
    have h2 : v.toNat + f.carry.toNat < 2 ^ 16 := by omega
    simp only [checkedApply, add_of_lt h1, add_of_lt h2, Option.bind_eq_bind, Option.bind_some]
    rfl
  | _ => rfl

theorem checkedAddWords_eq (x y : UInt16) (f : Flags) :
    checkedAddWords x y f = some (addWords x y f) := by
  have hx : (x &&& 0x0fff).toNat ≤ 0x0fff := by
    rw [UInt16.toNat_and]
    exact Nat.and_le_right
  have hy : (y &&& 0x0fff).toNat ≤ 0x0fff := by
    rw [UInt16.toNat_and]
    exact Nat.and_le_right
  have hsum : (x &&& 0x0fff).toNat + (y &&& 0x0fff).toNat < 2 ^ 16 := by omega
  simp only [checkedAddWords, add_of_lt hsum, Option.bind_eq_bind, Option.bind_some]
  rfl

/-! ## A bus that may stop -/

/-- A bus with accesses that may stop. -/
class CheckedBus (β : Type) extends Bus β where
  /-- The byte at an address. -/
  checkedRead : β → UInt16 → Option UInt8
  /-- The bus after a byte was written to an address. -/
  checkedWrite : β → UInt16 → UInt8 → Option β

/-- No access of such a bus stops it, and it remains so. -/
structure CheckedBus.Safe {β : Type} [CheckedBus β] (P : β → Prop) : Prop where
  read : ∀ b a, P b → checkedRead b a = some (Bus.read b a)
  write : ∀ b a v, P b → checkedWrite b a v = some (Bus.write b a v)
  keeps : ∀ b a v, P b → P (Bus.write b a v)

variable {β : Type} [CheckedBus β]

/-! ## Instructions -/

def Operand.checkedLoad (x : Operand) (r : Registers) (bus : β) : Option UInt8 :=
  match x with
  | .reg y => some (r.get y)
  | .atHL => CheckedBus.checkedRead bus r.hl

def Operand.checkedStore (x : Operand) (v : UInt8) (r : Registers) (bus : β) :
    Option (Registers × β) :=
  match x with
  | .reg y => some (r.set y v, bus)
  | .atHL => (CheckedBus.checkedWrite bus r.hl v).map (r, ·)

namespace Registers

def checkedPushWord (r : Registers) (v : UInt16) (bus : β) : Option (Registers × β) := do
  let bus ← CheckedBus.checkedWrite bus (r.sp - 1) (highByte v)
  let bus ← CheckedBus.checkedWrite bus (r.sp - 2) (lowByte v)
  return ({ r with sp := r.sp - 2 }, bus)

def checkedPopWord (r : Registers) (bus : β) : Option (UInt16 × Registers) := do
  let high ← CheckedBus.checkedRead bus (r.sp + 1)
  let low ← CheckedBus.checkedRead bus r.sp
  return (word high low, { r with sp := r.sp + 2 })

def checkedCallTo (r : Registers) (a : UInt16) (bus : β) : Option (Registers × β) := do
  let (r, bus) ← r.checkedPushWord r.pc bus
  return (r.goto a, bus)

def checkedReturnTo (r : Registers) (bus : β) : Option Registers := do
  let (a, r) ← r.checkedPopWord bus
  return r.goto a

end Registers

/-- What an instruction does to the registers and the bus. -/
def Instr.checkedOperate (i : Instr) (r : Registers) (bus : β) : Option (Registers × β) := do
  match i with
  | .load x y =>
    let v ← y.checkedLoad r bus
    x.checkedStore v r bus
  | .loadByte x v => x.checkedStore v r bus
  | .loadA p =>
    let a ← CheckedBus.checkedRead bus (r.pointer p)
    return ({ r.movePointer p with a }, bus)
  | .storeA p =>
    let bus ← CheckedBus.checkedWrite bus (r.pointer p) r.a
    return (r.movePointer p, bus)
  | .loadAFrom a =>
    let a ← CheckedBus.checkedRead bus a
    return ({ r with a }, bus)
  | .storeAAt a =>
    let bus ← CheckedBus.checkedWrite bus a r.a
    return (r, bus)
  | .loadAHigh n =>
    let a ← CheckedBus.checkedRead bus (highAddress n)
    return ({ r with a }, bus)
  | .storeAHigh n =>
    let bus ← CheckedBus.checkedWrite bus (highAddress n) r.a
    return (r, bus)
  | .loadAHighC =>
    let a ← CheckedBus.checkedRead bus (highAddress r.c)
    return ({ r with a }, bus)
  | .storeAHighC =>
    let bus ← CheckedBus.checkedWrite bus (highAddress r.c) r.a
    return (r, bus)
  | .storeSP a =>
    let bus ← CheckedBus.checkedWrite bus a (lowByte r.sp)
    let bus ← CheckedBus.checkedWrite bus (a + 1) (highByte r.sp)
    return (r, bus)
  | .addHL p =>
    let sum ← checkedAddWords r.hl (r.pair p) r.flags
    return ((r.setPair .hl sum.1).setFlags sum.2, bus)
  | .inc x =>
    let v ← x.checkedLoad r bus
    let result := increment v r.flags
    x.checkedStore result.1 (r.setFlags result.2) bus
  | .dec x =>
    let v ← x.checkedLoad r bus
    let result := decrement v r.flags
    x.checkedStore result.1 (r.setFlags result.2) bus
  | .alu op x =>
    let v ← x.checkedLoad r bus
    let result ← op.checkedApply r.a v r.flags
    return (r.setA result, bus)
  | .aluByte op v =>
    let result ← op.checkedApply r.a v r.flags
    return (r.setA result, bus)
  | .shift s x =>
    let v ← x.checkedLoad r bus
    let result := s.apply v r.flags
    x.checkedStore result.1 (r.setFlags result.2) bus
  | .testBit n x =>
    let v ← x.checkedLoad r bus
    Checked.shift 8 n
    return (r.setFlags (GameBoy.testBit n v r.flags), bus)
  | .clearBit n x =>
    let v ← x.checkedLoad r bus
    Checked.shift 8 n
    x.checkedStore (GameBoy.clearBit n v) r bus
  | .setBit n x =>
    let v ← x.checkedLoad r bus
    Checked.shift 8 n
    x.checkedStore (GameBoy.setBit n v) r bus
  | .push p => r.checkedPushWord (r.stackPair p) bus
  | .pop p =>
    let (v, r) ← r.checkedPopWord bus
    return (r.setStackPair p v, bus)
  | .call c a => if Condition.met c r.flags then r.checkedCallTo a bus else return (r, bus)
  | .restart a => r.checkedCallTo a bus
  | .ret c =>
    if Condition.met c r.flags then
      let r ← r.checkedReturnTo bus
      return (r, bus)
    else return (r, bus)
  | .retInterrupt =>
    let r ← r.checkedReturnTo bus
    return (r, bus)
  | _ => return i.operate r bus

/-! ## Steps -/

namespace Cpu

/-- The interrupts that are both enabled and requested. -/
def checkedPending (bus : β) : Option UInt8 := do
  let enabled ← CheckedBus.checkedRead bus 0xffff
  let requested ← CheckedBus.checkedRead bus 0xff0f
  return enabled &&& requested &&& 0x1f

def checkedFetch (bus : β) (a : UInt16) : Option Instr := do
  let op ← CheckedBus.checkedRead bus a
  let b1 ← CheckedBus.checkedRead bus (a + 1)
  let b2 ← CheckedBus.checkedRead bus (a + 2)
  return .ofBytes op b1 b2

/-- Serves an interrupt. -/
def checkedServe (cpu : Cpu) (i : Interrupt) (bus : β) : Option (Cpu × β) := do
  let requested ← CheckedBus.checkedRead bus 0xff0f
  let mask ← i.checkedMask
  let bus ← CheckedBus.checkedWrite bus 0xff0f (requested &&& ~~~mask)
  let (regs, bus) ← cpu.regs.checkedCallTo i.vector bus
  return ({ cpu with regs, ime := false, imePending := false, served? := some i }, bus)

/-- Executes an instruction that lies at the address in `pc`. -/
def checkedExecute (cpu : Cpu) (i : Instr) (bus : β) : Option (Cpu × β) := do
  let address := cpu.regs.pc
  let (regs, bus) ← i.checkedOperate (cpu.regs.goto (address + i.length)) bus
  return requestRate (control { cpu with regs } i) i address bus

/-- The interrupt that is served now, if any. The interrupts' bits are looked at in turn. -/
def checkedInterrupt? (cpu : Cpu) (bus : β) : Option (Option Interrupt) := do
  let pending ← checkedPending bus
  if cpu.ime then
    let _ ← Interrupt.all.mapM Interrupt.checkedMask
    return Interrupt.highest? pending
  else return none

/-- One step. -/
def checkedStep (cpu : Cpu) (bus : β) : Option (Stepped β) := do
  let cpu := { cpu with served? := none }
  let pending ← checkedPending bus
  if cpu.halted && pending == 0 then return { outcome := .idle, cpu, bus }
  else
    let cpu := { cpu with halted := false }
    match ← cpu.checkedInterrupt? bus with
    | some i =>
      let (cpu, bus) ← cpu.checkedServe i bus
      return { outcome := .served i, cpu, bus }
    | none =>
      let i ← checkedFetch bus cpu.regs.pc
      let (executed, bus) ← cpu.checkedExecute i bus
      return {
        outcome := .executed i (i.cycles (i.taken cpu.regs.flags))
        cpu := executed.settle cpu.imePending
        bus }

end Cpu

/-! ## Nothing stops -/

section Safe

variable {P : β → Prop} (h : CheckedBus.Safe P) {b : β} (hb : P b)

include h hb

theorem Operand.checkedLoad_eq (x : Operand) (r : Registers) :
    x.checkedLoad r b = some (x.load r b) := by
  cases x with
  | reg y => rfl
  | atHL => exact h.read _ _ hb

theorem Operand.checkedStore_eq (x : Operand) (v : UInt8) (r : Registers) :
    x.checkedStore v r b = some (x.store v r b) := by
  cases x with
  | reg y => rfl
  | atHL => simp only [checkedStore, h.write _ _ _ hb, Option.map_some, store]

namespace Registers

theorem checkedPushWord_eq (r : Registers) (v : UInt16) :
    r.checkedPushWord v b = some (r.pushWord v b) := by
  have hhigh := h.keeps b (r.sp - 1) (highByte v) hb
  simp only [checkedPushWord, h.write _ _ _ hb, h.write _ _ _ hhigh, Option.bind_eq_bind,
    Option.bind_some]
  rfl

theorem checkedPopWord_eq (r : Registers) : r.checkedPopWord b = some (r.popWord b) := by
  simp only [checkedPopWord, h.read _ _ hb, Option.bind_eq_bind, Option.bind_some]
  rfl

theorem checkedCallTo_eq (r : Registers) (a : UInt16) :
    r.checkedCallTo a b = some (r.callTo a b) := by
  rw [checkedCallTo, checkedPushWord_eq h hb]
  rfl

theorem checkedReturnTo_eq (r : Registers) : r.checkedReturnTo b = some (r.returnTo b) := by
  rw [checkedReturnTo, checkedPopWord_eq h hb]
  rfl

end Registers

/-- No instruction stops. -/
theorem Instr.checkedOperate_eq (i : Instr) (r : Registers) :
    i.checkedOperate r b = some (i.operate r b) := by
  cases i with
  | load | loadByte | inc | dec | shift =>
    simp only [checkedOperate, Operand.checkedLoad_eq h hb, Operand.checkedStore_eq h hb,
      Option.bind_eq_bind, Option.bind_some, operate]
  | testBit n x =>
    simp only [checkedOperate, Operand.checkedLoad_eq h hb, shift_of_lt n.isLt,
      Option.bind_eq_bind, Option.bind_some]
    rfl
  | clearBit n x | setBit n x =>
    simp only [checkedOperate, Operand.checkedLoad_eq h hb, Operand.checkedStore_eq h hb,
      shift_of_lt n.isLt, Option.bind_eq_bind, Option.bind_some, operate]
  | loadA | loadAFrom | loadAHigh | loadAHighC =>
    simp only [checkedOperate, h.read _ _ hb, Option.bind_eq_bind, Option.bind_some]
    rfl
  | storeA | storeAAt | storeAHigh | storeAHighC =>
    simp only [checkedOperate, h.write _ _ _ hb, Option.bind_eq_bind, Option.bind_some]
    rfl
  | storeSP a =>
    have hlow := h.keeps b a (lowByte r.sp) hb
    simp only [checkedOperate, h.write _ _ _ hb, h.write _ _ _ hlow, Option.bind_eq_bind,
      Option.bind_some]
    rfl
  | addHL p =>
    simp only [checkedOperate, checkedAddWords_eq, Option.bind_eq_bind, Option.bind_some]
    rfl
  | alu op x =>
    simp only [checkedOperate, Operand.checkedLoad_eq h hb, Alu.checkedApply_eq,
      Option.bind_eq_bind, Option.bind_some]
    rfl
  | aluByte op v =>
    simp only [checkedOperate, Alu.checkedApply_eq, Option.bind_eq_bind, Option.bind_some]
    rfl
  | push p => exact Registers.checkedPushWord_eq h hb _ _
  | pop p =>
    simp only [checkedOperate, Registers.checkedPopWord_eq h hb, Option.bind_eq_bind,
      Option.bind_some]
    rfl
  | restart a => exact Registers.checkedCallTo_eq h hb _ _
  | call c a =>
    simp only [checkedOperate, operate]
    split
    · exact Registers.checkedCallTo_eq h hb _ _
    · rfl
  | ret c =>
    simp only [checkedOperate, Registers.checkedReturnTo_eq h hb, operate]
    split <;> rfl
  | retInterrupt =>
    simp only [checkedOperate, Registers.checkedReturnTo_eq h hb]
    rfl
  | _ => rfl

namespace Cpu

theorem checkedPending_eq : checkedPending b = some (pending b) := by
  simp only [checkedPending, h.read _ _ hb, Option.bind_eq_bind, Option.bind_some]
  rfl

theorem checkedFetch_eq (a : UInt16) : checkedFetch b a = some (fetch b a) := by
  simp only [checkedFetch, h.read _ _ hb, Option.bind_eq_bind, Option.bind_some]
  rfl

theorem checkedServe_eq (cpu : Cpu) (i : Interrupt) :
    cpu.checkedServe i b = some (cpu.serve i b) := by
  have htaken := h.keeps b 0xff0f (Bus.read b 0xff0f &&& ~~~i.mask) hb
  simp only [checkedServe, h.read _ _ hb, i.checkedMask_eq, h.write _ _ _ hb,
    Registers.checkedCallTo_eq h htaken, Option.bind_eq_bind, Option.bind_some]
  rfl

theorem checkedExecute_eq (cpu : Cpu) (i : Instr) :
    cpu.checkedExecute i b = some (cpu.execute i b) := by
  simp only [checkedExecute, Instr.checkedOperate_eq h hb, Option.bind_eq_bind, Option.bind_some]
  rfl

theorem checkedInterrupt?_eq (cpu : Cpu) :
    cpu.checkedInterrupt? b = some (cpu.interrupt? b) := by
  have hmasks : Interrupt.all.mapM Interrupt.checkedMask =
      some (Interrupt.all.map Interrupt.mask) := mapM_eq fun i _ => i.checkedMask_eq
  unfold checkedInterrupt? interrupt?
  simp only [checkedPending_eq h hb, hmasks, Option.bind_eq_bind, Option.bind_some]
  split <;> rfl

/-- No step stops. -/
theorem checkedStep_eq (cpu : Cpu) : cpu.checkedStep b = some (cpu.step b) := by
  unfold checkedStep step
  simp only [checkedPending_eq h hb, checkedInterrupt?_eq h hb, checkedFetch_eq h hb,
    checkedServe_eq h hb, checkedExecute_eq h hb, Option.bind_eq_bind, Option.bind_some]
  split
  · rfl
  · generalize Cpu.interrupt? _ b = i?
    cases i? with
    | some i => rfl
    | none => rfl

end Cpu

end Safe

end GameBoy
