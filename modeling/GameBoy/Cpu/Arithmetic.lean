import GameBoy.Cpu.Registers

/-!
# Arithmetic and flags

Each operation of the processor's arithmetic unit as a function of its operands, giving the result
and the flags. Bytes are added and subtracted modulo 256; the half carry is the carry out of, or the
borrow into, the low four bits.

* `plainSum`, `plainDifference`: of two bytes. The half carry is read off bit 4 of the result.
* `addBytes`, `subBytes`: with a carry or borrow coming in. Carries are found by comparing.
* `Alu.apply`, `Shift.apply`: the eight operations on `A`, and the eight on any byte.
* `decimalAdjust`: corrects a sum or difference of two packed decimal numbers.
* `addWords`, `addOffset`: the 16-bit sums.
-/

namespace GameBoy

/-- Whether a carry or a borrow came into bit 4 of `r`, the sum or difference of `x` and `y`.
Without one that bit would be that of `x ^^^ y`. -/
def isHalfCarry (x y r : UInt8) : Bool := (x ^^^ y ^^^ r) &&& 0x10 != 0

/-- `x + y`. -/
def plainSum (x y : UInt8) : UInt8 × Flags :=
  let r := x + y
  (r, ⟨r == 0, false, isHalfCarry x y r, x.toBitVec.uaddOverflow y.toBitVec⟩)

/-- `x - y`. -/
def plainDifference (x y : UInt8) : UInt8 × Flags :=
  let r := x - y
  (r, ⟨r == 0, true, isHalfCarry x y r, x.toBitVec.usubOverflow y.toBitVec⟩)

/-- A carry as a number. -/
def carryIn (c : Bool) : UInt8 := if c then 1 else 0

/-- `x + y` and the carry `c`. -/
def addBytes (x y : UInt8) (c : Bool) : UInt8 × Flags :=
  let r := x + y + carryIn c
  (r,
    { zero := r == 0
      subtract := false
      halfCarry := (x &&& 0x0f).toNat + (y &&& 0x0f).toNat + c.toNat > 0x0f
      carry := x.toNat + y.toNat + c.toNat > 0xff })

/-- `x - y` and the borrow `c`. -/
def subBytes (x y : UInt8) (c : Bool) : UInt8 × Flags :=
  let r := x - y - carryIn c
  (r,
    { zero := r == 0
      subtract := true
      halfCarry := (x &&& 0x0f).toNat < (y &&& 0x0f).toNat + c.toNat
      carry := x.toNat < y.toNat + c.toNat })

/-- The operations that combine `A` with a byte. -/
inductive Alu
  | add
  | adc
  | sub
  | sbc
  | and
  | xor
  | or
  | cp
deriving DecidableEq

/-- What an operation leaves in `A`, and the flags. A comparison is a subtraction that leaves `A`
alone. -/
def Alu.apply (op : Alu) (a v : UInt8) (f : Flags) : UInt8 × Flags :=
  match op with
  | .add => plainSum a v
  | .adc => addBytes a v f.carry
  | .sub => plainDifference a v
  | .sbc => subBytes a v f.carry
  | .and => (a &&& v, ⟨a &&& v == 0, false, true, false⟩)
  | .xor => (a ^^^ v, ⟨a ^^^ v == 0, false, false, false⟩)
  | .or => (a ||| v, ⟨a ||| v == 0, false, false, false⟩)
  | .cp => (a, (plainDifference a v).2)

/-- `v + 1`; the carry flag is left alone. -/
def increment (v : UInt8) (f : Flags) : UInt8 × Flags :=
  (v + 1, ⟨v + 1 == 0, false, v &&& 0x0f == 0x0f, f.carry⟩)

/-- `v - 1`; the carry flag is left alone. -/
def decrement (v : UInt8) (f : Flags) : UInt8 × Flags :=
  (v - 1, ⟨v - 1 == 0, true, v &&& 0x0f == 0x00, f.carry⟩)

/-- The operations that move the bits of a byte. -/
inductive Shift
  /-- Rotate left. -/
  | rlc
  /-- Rotate right. -/
  | rrc
  /-- Rotate left through the carry flag. -/
  | rl
  /-- Rotate right through the carry flag. -/
  | rr
  /-- Shift left. -/
  | sla
  /-- Shift right, keeping the sign. -/
  | sra
  /-- Exchange the two halves. -/
  | swap
  /-- Shift right. -/
  | srl
deriving DecidableEq

namespace Shift

/-- The moved bits. -/
def value (s : Shift) (v : UInt8) (c : Bool) : UInt8 :=
  match s with
  | .rlc => v <<< 1 ||| v >>> 7
  | .rrc => v >>> 1 ||| v <<< 7
  | .rl => v <<< 1 ||| carryIn c
  | .rr => v >>> 1 ||| carryIn c <<< 7
  | .sla => v <<< 1
  | .sra => v >>> 1 ||| (v &&& 0x80)
  | .swap => v <<< 4 ||| v >>> 4
  | .srl => v >>> 1

/-- The bit that drops out. -/
def dropped (s : Shift) (v : UInt8) : Bool :=
  match s with
  | .rlc | .rl | .sla => v &&& 0x80 != 0
  | .rrc | .rr | .sra | .srl => v &&& 0x01 != 0
  | .swap => false

/-- The result and the flags. -/
def apply (s : Shift) (v : UInt8) (f : Flags) : UInt8 × Flags :=
  (s.value v f.carry, ⟨s.value v f.carry == 0, false, false, s.dropped v⟩)

end Shift

/-- The flags after a test of bit `n`; the carry flag is left alone. -/
def testBit (n : Fin 8) (v : UInt8) (f : Flags) : Flags :=
  ⟨v &&& 1 <<< UInt8.ofNat n == 0, false, true, f.carry⟩

/-- The byte with bit `n` cleared. -/
def clearBit (n : Fin 8) (v : UInt8) : UInt8 := v &&& ~~~(1 <<< UInt8.ofNat n)

/-- The byte with bit `n` set. -/
def setBit (n : Fin 8) (v : UInt8) : UInt8 := v ||| 1 <<< UInt8.ofNat n

/-- What must be added to, or after a subtraction taken from, `a` to make both of its halves decimal
digits. -/
def decimalCorrection (a : UInt8) (f : Flags) : UInt8 :=
  let low : UInt8 := if f.halfCarry || (!f.subtract && a &&& 0x0f > 0x09) then 0x06 else 0
  let high : UInt8 := if f.carry || (!f.subtract && a > 0x99) then 0x60 else 0
  high ||| low

/-- The decimal form of `a`, the result of adding or subtracting two packed decimal numbers. -/
def decimalAdjust (a : UInt8) (f : Flags) : UInt8 × Flags :=
  let k := decimalCorrection a f
  let r := if f.subtract then a - k else a + k
  (r, ⟨r == 0, f.subtract, false, k ≥ 0x60⟩)

/-- `x + y` for words; the zero flag is left alone and the half carry is that out of bit 11. -/
def addWords (x y : UInt16) (f : Flags) : UInt16 × Flags :=
  (x + y,
    { zero := f.zero
      subtract := false
      halfCarry := (x &&& 0x0fff).toNat + (y &&& 0x0fff).toNat > 0x0fff
      carry := x.toBitVec.uaddOverflow y.toBitVec })

/-- `x` and the signed byte `e`. The carries are those out of bits 3 and 7, read off the bits in
which the sum differs from a sum without carries. -/
def addOffset (x : UInt16) (e : UInt8) : UInt16 × Flags :=
  let r := x + signExtend e
  let carries := x ^^^ signExtend e ^^^ r
  (r, ⟨false, false, carries &&& 0x0010 != 0, carries &&& 0x0100 != 0⟩)

end GameBoy
