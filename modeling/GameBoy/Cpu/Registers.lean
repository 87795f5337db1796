import GameBoy.Memory.Mask
import GameBoy.Memory.Word
import GameBoy.Model
import GameBoy.Text.Hex

/-!
# The processor's registers

Seven byte registers, four flags, and two words: the stack pointer and the address of the next
instruction. Three pairs of byte registers also serve as words, and so do `A` and the flags.

* `Flags.toByte`, `Flags.ofByte`: the flags as a byte have zero in the low four bits, and reading a
  byte as flags ignores those bits (`Flags.toByte_ofByte`).
* `Registers.setPair`, `Registers.pair`: words in pairs of registers.
* `Registers.powerUp`: what the start-up program leaves behind.
-/

namespace GameBoy

/-- What an arithmetic instruction tells about its result. -/
structure Flags where
  /-- The result was zero. -/
  zero : Bool
  /-- The operation was a subtraction. -/
  subtract : Bool
  /-- There was a carry out of, or a borrow into, the low four bits. -/
  halfCarry : Bool
  /-- There was a carry or borrow out of the whole. -/
  carry : Bool
deriving DecidableEq

namespace Flags

/-- The flags as a byte, in its high four bits. -/
def toByte (f : Flags) : UInt8 :=
  (if f.zero then 0x80 else 0) ||| (if f.subtract then 0x40 else 0) |||
    (if f.halfCarry then 0x20 else 0) ||| (if f.carry then 0x10 else 0)

/-- The flags in the high four bits of a byte. -/
def ofByte (v : UInt8) : Flags :=
  { zero := v &&& 0x80 != 0
    subtract := v &&& 0x40 != 0
    halfCarry := v &&& 0x20 != 0
    carry := v &&& 0x10 != 0 }

/-- The low four bits are lost. -/
theorem toByte_ofByte (v : UInt8) : (ofByte v).toByte = v &&& 0xf0 :=
  forall_byte (P := fun v => (ofByte v).toByte = v &&& 0xf0) (by decide +kernel) v

end Flags

/-- The byte registers. -/
inductive Reg
  | b
  | c
  | d
  | e
  | h
  | l
  | a
deriving DecidableEq

/-- The words that 16-bit arithmetic works on. -/
inductive Pair
  | bc
  | de
  | hl
  | sp
deriving DecidableEq

/-- The words that go to and come from the stack. -/
inductive StackPair
  | bc
  | de
  | hl
  | af
deriving DecidableEq

/-- The contents of all registers. -/
structure Registers where
  a : UInt8 := 0
  flags : Flags := ⟨false, false, false, false⟩
  b : UInt8 := 0
  c : UInt8 := 0
  d : UInt8 := 0
  e : UInt8 := 0
  h : UInt8 := 0
  l : UInt8 := 0
  /-- The stack pointer. -/
  sp : UInt16 := 0
  /-- The address of the next instruction. -/
  pc : UInt16 := 0
deriving DecidableEq

namespace Registers

/-- The flags as a byte. -/
def f (r : Registers) : UInt8 := r.flags.toByte

/-- Sets the flags from a byte. -/
def setF (r : Registers) (v : UInt8) : Registers := { r with flags := .ofByte v }

/-- The byte in a register. -/
def get (r : Registers) : Reg → UInt8
  | .b => r.b
  | .c => r.c
  | .d => r.d
  | .e => r.e
  | .h => r.h
  | .l => r.l
  | .a => r.a

/-- Sets the byte in a register. -/
def set (r : Registers) (x : Reg) (v : UInt8) : Registers :=
  match x with
  | .b => { r with b := v }
  | .c => { r with c := v }
  | .d => { r with d := v }
  | .e => { r with e := v }
  | .h => { r with h := v }
  | .l => { r with l := v }
  | .a => { r with a := v }

/-- The word in a pair of registers. -/
def pair (r : Registers) : Pair → UInt16
  | .bc => word r.b r.c
  | .de => word r.d r.e
  | .hl => word r.h r.l
  | .sp => r.sp

/-- Sets the word in a pair of registers. -/
def setPair (r : Registers) (p : Pair) (v : UInt16) : Registers :=
  match p with
  | .bc => { r with b := highByte v, c := lowByte v }
  | .de => { r with d := highByte v, e := lowByte v }
  | .hl => { r with h := highByte v, l := lowByte v }
  | .sp => { r with sp := v }

/-- The word that a push puts on the stack. -/
def stackPair (r : Registers) : StackPair → UInt16
  | .bc => r.pair .bc
  | .de => r.pair .de
  | .hl => r.pair .hl
  | .af => word r.a r.f

/-- Sets a pair from the word that a pop takes off the stack. -/
def setStackPair (r : Registers) (p : StackPair) (v : UInt16) : Registers :=
  match p with
  | .bc => r.setPair .bc v
  | .de => r.setPair .de v
  | .hl => r.setPair .hl v
  | .af => { r.setF (lowByte v) with a := highByte v }

/-- The word in `H` and `L`, which addresses memory. -/
def hl (r : Registers) : UInt16 := r.pair .hl

/-- What the start-up program leaves in the registers. -/
def powerUp : Model → Registers
  | .dmg =>
    { a := 0x01, flags := .ofByte 0xb0, c := 0x13, e := 0xd8, h := 0x01, l := 0x4d,
      sp := 0xfffe, pc := 0x0100 }
  | .cgb =>
    { a := 0x11, flags := .ofByte 0x80, d := 0xff, e := 0x56, l := 0x0d,
      sp := 0xfffe, pc := 0x0100 }

/-- The registers as a state line shows them. -/
def text (r : Registers) : String :=
  "a=" ++ byteHex r.a ++ " f=" ++ byteHex r.f ++ " b=" ++ byteHex r.b ++ " c=" ++ byteHex r.c ++
    " d=" ++ byteHex r.d ++ " e=" ++ byteHex r.e ++ " h=" ++ byteHex r.h ++ " l=" ++ byteHex r.l ++
    " sp=" ++ wordHex r.sp ++ " pc=" ++ wordHex r.pc

@[simp] theorem get_set (r : Registers) (x y : Reg) (v : UInt8) :
    (r.set x v).get y = if x = y then v else r.get y := by
  cases x <;> cases y <;> rfl

end Registers

end GameBoy
