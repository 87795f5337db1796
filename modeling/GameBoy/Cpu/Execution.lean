import GameBoy.Cpu.Instruction
import GameBoy.Memory.Bus

/-!
# What instructions do to registers and memory

`Instr.operate` is the effect of an instruction on the registers and on the bus. The address of the
next instruction is already in `pc`; instructions that only control the processor do nothing here.

* `Operand.load`, `Operand.store`: byte operands in registers and in memory.
* `Registers.pushWord`, `Registers.popWord`: the stack grows downwards, and a word is pushed with
  its high byte first.
-/

namespace GameBoy

variable {β : Type} [Bus β]

/-- The byte that an operand holds. -/
def Operand.load (x : Operand) (r : Registers) (bus : β) : UInt8 :=
  match x with
  | .reg y => r.get y
  | .atHL => Bus.read bus r.hl

/-- Puts a byte where an operand is. -/
def Operand.store (x : Operand) (v : UInt8) (r : Registers) (bus : β) : Registers × β :=
  match x with
  | .reg y => (r.set y v, bus)
  | .atHL => (r, Bus.write bus r.hl v)

/-- An address in the last page of memory. -/
def highAddress (n : UInt8) : UInt16 := 0xff00 ||| n.toUInt16

namespace Registers

/-- Sets `A` and the flags to the result of an operation. -/
def setA (r : Registers) (result : UInt8 × Flags) : Registers :=
  { r with a := result.1, flags := result.2 }

/-- Sets the flags. -/
def setFlags (r : Registers) (f : Flags) : Registers := { r with flags := f }

/-- Continues at another address. -/
def goto (r : Registers) (a : UInt16) : Registers := { r with pc := a }

/-- The address that a pointer holds. -/
def pointer (r : Registers) : Pointer → UInt16
  | .bc => r.pair .bc
  | .de => r.pair .de
  | .hlUp | .hlDown => r.hl

/-- Moves a pointer that moves after its use. -/
def movePointer (r : Registers) : Pointer → Registers
  | .bc | .de => r
  | .hlUp => r.setPair .hl (r.hl + 1)
  | .hlDown => r.setPair .hl (r.hl - 1)

/-- Pushes a word: its high byte below the stack pointer, its low byte below that. -/
def pushWord (r : Registers) (v : UInt16) (bus : β) : Registers × β :=
  ({ r with sp := r.sp - 2 },
    Bus.write (Bus.write bus (r.sp - 1) (highByte v)) (r.sp - 2) (lowByte v))

/-- Takes the word that the stack pointer points to. -/
def popWord (r : Registers) (bus : β) : UInt16 × Registers :=
  (Bus.readWord bus r.sp, { r with sp := r.sp + 2 })

/-- Pushes the address of the next instruction and continues at another. -/
def callTo (r : Registers) (a : UInt16) (bus : β) : Registers × β :=
  let pushed := r.pushWord r.pc bus
  (pushed.1.goto a, pushed.2)

/-- Continues at the address on the stack. -/
def returnTo (r : Registers) (bus : β) : Registers :=
  (r.popWord bus).2.goto (r.popWord bus).1

end Registers

/-- What an instruction does to the registers and the bus. -/
def Instr.operate (i : Instr) (r : Registers) (bus : β) : Registers × β :=
  match i with
  | .nop | .stop | .halt | .disableInterrupts | .enableInterrupts | .illegal _ => (r, bus)
  | .load x y => x.store (y.load r bus) r bus
  | .loadByte x v => x.store v r bus
  | .loadWord p v => (r.setPair p v, bus)
  | .loadA p => ({ r.movePointer p with a := Bus.read bus (r.pointer p) }, bus)
  | .storeA p => (r.movePointer p, Bus.write bus (r.pointer p) r.a)
  | .loadAFrom a => ({ r with a := Bus.read bus a }, bus)
  | .storeAAt a => (r, Bus.write bus a r.a)
  | .loadAHigh n => ({ r with a := Bus.read bus (highAddress n) }, bus)
  | .storeAHigh n => (r, Bus.write bus (highAddress n) r.a)
  | .loadAHighC => ({ r with a := Bus.read bus (highAddress r.c) }, bus)
  | .storeAHighC => (r, Bus.write bus (highAddress r.c) r.a)
  | .storeSP a => (r, Bus.writeWord bus a r.sp)
  | .loadSPHL => ({ r with sp := r.hl }, bus)
  | .loadHLSP e => ((r.setPair .hl (addOffset r.sp e).1).setFlags (addOffset r.sp e).2, bus)
  | .addSP e => ({ r with sp := (addOffset r.sp e).1, flags := (addOffset r.sp e).2 }, bus)
  | .addHL p =>
    let sum := addWords r.hl (r.pair p) r.flags
    ((r.setPair .hl sum.1).setFlags sum.2, bus)
  | .inc x =>
    let result := increment (x.load r bus) r.flags
    x.store result.1 (r.setFlags result.2) bus
  | .dec x =>
    let result := decrement (x.load r bus) r.flags
    x.store result.1 (r.setFlags result.2) bus
  | .incPair p => (r.setPair p (r.pair p + 1), bus)
  | .decPair p => (r.setPair p (r.pair p - 1), bus)
  | .alu op x => (r.setA (op.apply r.a (x.load r bus) r.flags), bus)
  | .aluByte op v => (r.setA (op.apply r.a v r.flags), bus)
  | .rotateA s =>
    let result := s.apply r.a r.flags
    (r.setA (result.1, { result.2 with zero := false }), bus)
  | .decimalAdjustA => (r.setA (decimalAdjust r.a r.flags), bus)
  | .complementA => (r.setA (~~~r.a, { r.flags with subtract := true, halfCarry := true }), bus)
  | .setCarry =>
    (r.setFlags { r.flags with subtract := false, halfCarry := false, carry := true }, bus)
  | .complementCarry =>
    (r.setFlags { r.flags with subtract := false, halfCarry := false, carry := !r.flags.carry },
      bus)
  | .shift s x =>
    let result := s.apply (x.load r bus) r.flags
    x.store result.1 (r.setFlags result.2) bus
  | .testBit n x => (r.setFlags (GameBoy.testBit n (x.load r bus) r.flags), bus)
  | .clearBit n x => x.store (GameBoy.clearBit n (x.load r bus)) r bus
  | .setBit n x => x.store (GameBoy.setBit n (x.load r bus)) r bus
  | .push p => r.pushWord (r.stackPair p) bus
  | .pop p => ((r.popWord bus).2.setStackPair p (r.popWord bus).1, bus)
  | .jumpBy c e => (if Condition.met c r.flags then r.goto (r.pc + signExtend e) else r, bus)
  | .jump c a => (if Condition.met c r.flags then r.goto a else r, bus)
  | .jumpHL => (r.goto r.hl, bus)
  | .call c a => if Condition.met c r.flags then r.callTo a bus else (r, bus)
  | .restart a => r.callTo a bus
  | .ret c => (if Condition.met c r.flags then r.returnTo bus else r, bus)
  | .retInterrupt => (r.returnTo bus, bus)

end GameBoy
