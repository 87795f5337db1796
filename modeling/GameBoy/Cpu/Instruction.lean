import GameBoy.Cpu.Arithmetic

/-!
# Instructions

An instruction is determined by at most three bytes: the opcode and two more that hold an operand,
or after opcode `0xcb` the opcode of the second page. The opcode splits into fields of two, three
and three bits that select a group, an operation and an operand.

* `Instr.ofBytes`: the instruction that three bytes begin with.
* `Instr.length`: how many of them belong to it.
* `Instr.cycles`: how long it takes, in machine cycles of four clock cycles.
-/

namespace GameBoy

/-- Where a byte operand is. -/
inductive Operand
  /-- In a register. -/
  | reg (r : Reg)
  /-- In memory, at the address in `HL`. -/
  | atHL
deriving DecidableEq

/-- The addresses through which `A` is loaded and stored. -/
inductive Pointer
  | bc
  | de
  /-- `HL`, which is then increased. -/
  | hlUp
  /-- `HL`, which is then decreased. -/
  | hlDown
deriving DecidableEq

/-- When a jump is made. -/
inductive Condition
  | notZero
  | zero
  | notCarry
  | carry
deriving DecidableEq

/-- Whether the flags meet a condition. -/
def Condition.holds (c : Condition) (f : Flags) : Bool :=
  match c with
  | .notZero => !f.zero
  | .zero => f.zero
  | .notCarry => !f.carry
  | .carry => f.carry

/-- Whether the flags meet a condition, if there is one. -/
def Condition.met (c : Option Condition) (f : Flags) : Bool := c.all (·.holds f)

/-- The instructions with their operands. -/
inductive Instr
  | nop
  | stop
  | halt
  | disableInterrupts
  | enableInterrupts
  /-- `LD x,y`. -/
  | load (target source : Operand)
  | loadByte (target : Operand) (v : UInt8)
  | loadWord (target : Pair) (v : UInt16)
  /-- `LD A,(p)`. -/
  | loadA (p : Pointer)
  /-- `LD (p),A`. -/
  | storeA (p : Pointer)
  /-- `LD A,(a)` with the address in the instruction. -/
  | loadAFrom (a : UInt16)
  /-- `LD (a),A` with the address in the instruction. -/
  | storeAAt (a : UInt16)
  /-- `LDH A,(n)`: from the last page of memory. -/
  | loadAHigh (n : UInt8)
  /-- `LDH (n),A`: to the last page of memory. -/
  | storeAHigh (n : UInt8)
  /-- `LD A,(C)`: from the last page of memory. -/
  | loadAHighC
  /-- `LD (C),A`: to the last page of memory. -/
  | storeAHighC
  /-- `LD (a),SP`. -/
  | storeSP (a : UInt16)
  /-- `LD SP,HL`. -/
  | loadSPHL
  /-- `LD HL,SP+e`. -/
  | loadHLSP (e : UInt8)
  /-- `ADD SP,e`. -/
  | addSP (e : UInt8)
  /-- `ADD HL,p`. -/
  | addHL (p : Pair)
  | inc (x : Operand)
  | dec (x : Operand)
  | incPair (p : Pair)
  | decPair (p : Pair)
  | alu (op : Alu) (source : Operand)
  | aluByte (op : Alu) (v : UInt8)
  /-- A rotation of `A` that clears the zero flag. -/
  | rotateA (s : Shift)
  | decimalAdjustA
  | complementA
  | setCarry
  | complementCarry
  | shift (s : Shift) (x : Operand)
  | testBit (n : Fin 8) (x : Operand)
  | clearBit (n : Fin 8) (x : Operand)
  | setBit (n : Fin 8) (x : Operand)
  | push (p : StackPair)
  | pop (p : StackPair)
  /-- A jump by a signed distance. -/
  | jumpBy (c : Option Condition) (e : UInt8)
  | jump (c : Option Condition) (a : UInt16)
  | jumpHL
  | call (c : Option Condition) (a : UInt16)
  /-- A call of one of eight fixed addresses. -/
  | restart (a : UInt16)
  | ret (c : Option Condition)
  /-- Returns and enables interrupts at once. -/
  | retInterrupt
  /-- An opcode without a meaning. -/
  | illegal (opcode : UInt8)

namespace Instr

/-! ## The fields of an opcode -/

/-- The operand that three bits select. -/
def operand : Nat → Operand
  | 0 => .reg .b
  | 1 => .reg .c
  | 2 => .reg .d
  | 3 => .reg .e
  | 4 => .reg .h
  | 5 => .reg .l
  | 6 => .atHL
  | _ => .reg .a

/-- The pair that two bits select. -/
def pairOf : Nat → Pair
  | 0 => .bc
  | 1 => .de
  | 2 => .hl
  | _ => .sp

/-- The pair for the stack that two bits select. -/
def stackPairOf : Nat → StackPair
  | 0 => .bc
  | 1 => .de
  | 2 => .hl
  | _ => .af

/-- The pointer that two bits select. -/
def pointerOf : Nat → Pointer
  | 0 => .bc
  | 1 => .de
  | 2 => .hlUp
  | _ => .hlDown

/-- The condition that two bits select. -/
def conditionOf : Nat → Condition
  | 0 => .notZero
  | 1 => .zero
  | 2 => .notCarry
  | _ => .carry

/-- The operation on `A` that three bits select. -/
def aluOf : Nat → Alu
  | 0 => .add
  | 1 => .adc
  | 2 => .sub
  | 3 => .sbc
  | 4 => .and
  | 5 => .xor
  | 6 => .or
  | _ => .cp

/-- The shift that three bits select. -/
def shiftOf : Nat → Shift
  | 0 => .rlc
  | 1 => .rrc
  | 2 => .rl
  | 3 => .rr
  | 4 => .sla
  | 5 => .sra
  | 6 => .swap
  | _ => .srl

/-- Bits 6 and 7, the group. -/
def groupField (op : UInt8) : Nat := op.toNat / 64

/-- Bits 3 to 5, mostly the operation. -/
def middleField (op : UInt8) : Fin 8 := ⟨op.toNat / 8 % 8, Nat.mod_lt _ (by decide)⟩

/-- Bits 0 to 2, mostly the operand. -/
def lowField (op : UInt8) : Nat := op.toNat % 8

/-! ## Decoding -/

/-- The opcodes `0x00` to `0x3f`: loads of constants, counting, 16-bit sums, short jumps. -/
def ofGroup0 (y z : Nat) (v : UInt8) (a : UInt16) : Instr :=
  match z with
  | 0 =>
    match y with
    | 0 => .nop
    | 1 => .storeSP a
    | 2 => .stop
    | 3 => .jumpBy none v
    | _ => .jumpBy (some (conditionOf (y - 4))) v
  | 1 => if y % 2 = 0 then .loadWord (pairOf (y / 2)) a else .addHL (pairOf (y / 2))
  | 2 => if y % 2 = 0 then .storeA (pointerOf (y / 2)) else .loadA (pointerOf (y / 2))
  | 3 => if y % 2 = 0 then .incPair (pairOf (y / 2)) else .decPair (pairOf (y / 2))
  | 4 => .inc (operand y)
  | 5 => .dec (operand y)
  | 6 => .loadByte (operand y) v
  | _ =>
    match y with
    | 4 => .decimalAdjustA
    | 5 => .complementA
    | 6 => .setCarry
    | 7 => .complementCarry
    | _ => .rotateA (shiftOf y)

/-- The opcodes of the second page. -/
def ofPage1 (op : UInt8) : Instr :=
  let x := operand (lowField op)
  match groupField op with
  | 0 => .shift (shiftOf (middleField op)) x
  | 1 => .testBit (middleField op) x
  | 2 => .clearBit (middleField op) x
  | _ => .setBit (middleField op) x

/-- The opcodes `0xc0` to `0xff`: the stack, jumps, operations with a constant, and the opcodes
without a meaning. -/
def ofGroup3 (op : UInt8) (y z : Nat) (v : UInt8) (a : UInt16) : Instr :=
  match z with
  | 0 =>
    match y with
    | 4 => .storeAHigh v
    | 5 => .addSP v
    | 6 => .loadAHigh v
    | 7 => .loadHLSP v
    | _ => .ret (some (conditionOf y))
  | 1 =>
    match y with
    | 1 => .ret none
    | 3 => .retInterrupt
    | 5 => .jumpHL
    | 7 => .loadSPHL
    | _ => .pop (stackPairOf (y / 2))
  | 2 =>
    match y with
    | 4 => .storeAHighC
    | 5 => .storeAAt a
    | 6 => .loadAHighC
    | 7 => .loadAFrom a
    | _ => .jump (some (conditionOf y)) a
  | 3 =>
    match y with
    | 0 => .jump none a
    | 1 => ofPage1 v
    | 6 => .disableInterrupts
    | 7 => .enableInterrupts
    | _ => .illegal op
  | 4 => if y < 4 then .call (some (conditionOf y)) a else .illegal op
  | 5 =>
    if y % 2 = 0 then .push (stackPairOf (y / 2))
    else if y = 1 then .call none a
    else .illegal op
  | 6 => .aluByte (aluOf y) v
  | _ => .restart (op &&& 0x38).toUInt16

/-- The instruction with opcode `op` whose following bytes are `b1` and `b2`. -/
def ofBytes (op b1 b2 : UInt8) : Instr :=
  let y := (middleField op).val
  let z := lowField op
  match groupField op with
  | 0 => ofGroup0 y z b1 (word b2 b1)
  | 1 => if op = 0x76 then .halt else .load (operand y) (operand z)
  | 2 => .alu (aluOf y) (operand z)
  | _ => ofGroup3 op y z b1 (word b2 b1)

/-! ## Length and duration -/

/-- The number of bytes that belong to an instruction. -/
def length : Instr → UInt16
  | .loadWord .. | .loadAFrom _ | .storeAAt _ | .storeSP _ | .jump .. | .call .. => 3
  | .stop | .loadByte .. | .loadAHigh _ | .storeAHigh _ | .loadHLSP _ | .addSP _ | .aluByte ..
  | .shift .. | .testBit .. | .clearBit .. | .setBit .. | .jumpBy .. => 2
  | _ => 1

/-- The condition on which a jump, call or return depends. -/
def condition? : Instr → Option Condition
  | .jumpBy c _ | .jump c _ | .call c _ | .ret c => c
  | _ => none

/-- Whether the flags let a jump, call or return be made; other instructions have no condition. -/
def taken (i : Instr) (f : Flags) : Bool := Condition.met i.condition? f

/-- The duration for an operand in a register and for one in memory. -/
def byOperand (inRegister inMemory : Nat) : Operand → Nat
  | .reg _ => inRegister
  | .atHL => inMemory

/-- The duration in machine cycles, given whether a jump, call or return is made. Opcodes without a
meaning take none. -/
def cycles (i : Instr) (taken : Bool) : Nat :=
  match i with
  | .illegal _ => 0
  | .nop | .stop | .halt | .disableInterrupts | .enableInterrupts | .rotateA _ | .decimalAdjustA
  | .complementA | .setCarry | .complementCarry | .jumpHL => 1
  | .loadA _ | .storeA _ | .loadAHighC | .storeAHighC | .loadSPHL | .addHL _ | .incPair _
  | .decPair _ | .aluByte .. => 2
  | .loadWord .. | .loadAHigh _ | .storeAHigh _ | .loadHLSP _ | .pop _ => 3
  | .loadAFrom _ | .storeAAt _ | .addSP _ | .push _ | .restart _ | .retInterrupt => 4
  | .storeSP _ => 5
  | .load x y => max (byOperand 1 2 x) (byOperand 1 2 y)
  | .alu _ x => byOperand 1 2 x
  | .inc x | .dec x => byOperand 1 3 x
  | .loadByte x _ => byOperand 2 3 x
  | .testBit _ x => byOperand 2 3 x
  | .shift _ x | .clearBit _ x | .setBit _ x => byOperand 2 4 x
  | .jumpBy .. => if taken then 3 else 2
  | .jump .. => if taken then 4 else 3
  | .call .. => if taken then 6 else 3
  | .ret c => if taken then (if c.isSome then 5 else 4) else 2

theorem byOperand_eq_or (m n : Nat) (x : Operand) : byOperand m n x = m ∨ byOperand m n x = n := by
  cases x
  · exact .inl rfl
  · exact .inr rfl

/-- No instruction takes more than six machine cycles. -/
theorem cycles_le (i : Instr) (taken : Bool) : i.cycles taken ≤ 6 := by
  fun_cases cycles i taken <;> grind [byOperand_eq_or]

/-- An opcode with a meaning takes time. -/
theorem cycles_pos (i : Instr) (taken : Bool) (h : ∀ op, i ≠ .illegal op) : 0 < i.cycles taken := by
  fun_cases cycles i taken <;> grind [byOperand_eq_or]

end Instr

end GameBoy
