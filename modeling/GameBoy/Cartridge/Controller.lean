import GameBoy.Cartridge.RealTimeClock
import GameBoy.Divider

/-!
# Bank controllers

A cartridge shows two windows of 16 KiB onto its read-only memory and one of 8 KiB onto its external
memory. The bank controller decides what they show; a program commands it by writing to the
read-only windows.

* `Controller.command`: what such a write does.
* `Controller.lowBank`, `Controller.highBank`: the banks in the two read-only windows.
* `Controller.external`: what the third window shows.
-/

namespace GameBoy

/-- A controller whose bank number has two parts. -/
structure Mbc1 where
  /-- Whether external memory is open. -/
  isOpen : Bool := false
  /-- Five bits of the bank, never zero. -/
  low : Nat := 1
  /-- Two more bits. -/
  high : Nat := 0
  /-- Whether the two bits also act on the low window and on external memory. -/
  advanced : Bool := false

/-- A controller with 512 half bytes of memory of its own. -/
structure Mbc2 where
  /-- Whether that memory is open. -/
  isOpen : Bool := false
  /-- Four bits of the bank, never zero. -/
  bank : Nat := 1

/-- A controller with a clock. -/
structure Mbc3 where
  /-- Whether external memory and the clock are open. -/
  isOpen : Bool := false
  /-- Seven bits of the bank, never zero. -/
  bank : Nat := 1
  /-- A bank of external memory, or a register of the clock. -/
  selection : Nat := 0
  /-- The clock. -/
  clock : RealTimeClock := .zero
  /-- The clock's registers as they were last latched, which is what a program reads. -/
  latched : RealTimeClock := .zero
  /-- The last byte written to the latch; a one after a zero latches. -/
  latch : UInt8 := 0xff
  /-- Divides cycles into seconds. -/
  seconds : Divider := { period := 4194304 }

/-- A controller for large cartridges. -/
structure Mbc5 where
  /-- Whether external memory is open. -/
  isOpen : Bool := false
  /-- Eight bits of the bank. -/
  low : Nat := 1
  /-- The ninth bit. -/
  high : Nat := 0
  /-- The bank of external memory. -/
  ramBank : Nat := 0

/-- The kinds of controllers with their registers. -/
inductive Controller
  /-- No controller: the windows never move. -/
  | fixed
  | mbc1 (r : Mbc1)
  | mbc2 (r : Mbc2)
  | mbc3 (r : Mbc3)
  | mbc5 (r : Mbc5)

/-- What the window onto external memory shows. -/
inductive External
  /-- Nothing. -/
  | closed
  /-- A bank of external memory. -/
  | bank (n : Nat)
  /-- The controller's own half bytes. -/
  | halves
  /-- A register of the clock. -/
  | clock (r : RealTimeClock.Register)

/-- A bank number in which zero stands for one. -/
def oneForZero (n : Nat) : Nat := if n = 0 then 1 else n

/-- External memory opens when the low half of the written byte is ten. -/
def opens (v : UInt8) : Bool := v &&& 0x0f == 0x0a

/-! ## Commands -/

/-- A write of `v` to address `a` below `0x8000`. -/
def Mbc1.command (r : Mbc1) (a : UInt16) (v : UInt8) : Mbc1 :=
  if a < 0x2000 then { r with isOpen := opens v }
  else if a < 0x4000 then { r with low := oneForZero (v.toNat % 32) }
  else if a < 0x6000 then { r with high := v.toNat % 4 }
  else { r with advanced := v &&& 0x01 != 0 }

/-- A write of `v` to address `a` below `0x8000`. Bit 8 of the address tells the bank from the
opening of memory. -/
def Mbc2.command (r : Mbc2) (a : UInt16) (v : UInt8) : Mbc2 :=
  if a < 0x4000 then
    if a &&& 0x0100 = 0 then { r with isOpen := opens v }
    else { r with bank := oneForZero (v.toNat % 16) }
  else r

/-- A write of `v` to address `a` below `0x8000`. -/
def Mbc3.command (r : Mbc3) (a : UInt16) (v : UInt8) : Mbc3 :=
  if a < 0x2000 then { r with isOpen := opens v }
  else if a < 0x4000 then { r with bank := oneForZero (v.toNat % 128) }
  else if a < 0x6000 then { r with selection := v.toNat % 16 }
  else
    { r with
      latched := if r.latch = 0x00 ∧ v = 0x01 then r.clock else r.latched
      latch := v }

/-- A write of `v` to address `a` below `0x8000`. -/
def Mbc5.command (r : Mbc5) (a : UInt16) (v : UInt8) : Mbc5 :=
  if a < 0x2000 then { r with isOpen := opens v }
  else if a < 0x3000 then { r with low := v.toNat }
  else if a < 0x4000 then { r with high := v.toNat % 2 }
  else if a < 0x6000 then { r with ramBank := v.toNat % 16 }
  else r

namespace Controller

/-- A write of `v` to address `a` below `0x8000`. -/
def command (c : Controller) (a : UInt16) (v : UInt8) : Controller :=
  match c with
  | .fixed => .fixed
  | .mbc1 r => .mbc1 (r.command a v)
  | .mbc2 r => .mbc2 (r.command a v)
  | .mbc3 r => .mbc3 (r.command a v)
  | .mbc5 r => .mbc5 (r.command a v)

/-! ## Windows -/

/-- The bank at `0x0000`, before reduction to the banks that exist. -/
def lowBank : Controller → Nat
  | .mbc1 r => if r.advanced then 32 * r.high else 0
  | _ => 0

/-- The bank at `0x4000`, before reduction to the banks that exist. -/
def highBank : Controller → Nat
  | .fixed => 1
  | .mbc1 r => 32 * r.high + r.low
  | .mbc2 r => r.bank
  | .mbc3 r => r.bank
  | .mbc5 r => 256 * r.high + r.low

/-- What the window at `0xa000` shows. -/
def external : Controller → External
  | .fixed => .bank 0
  | .mbc1 r => if r.isOpen then .bank (if r.advanced then r.high else 0) else .closed
  | .mbc2 r => if r.isOpen then .halves else .closed
  | .mbc3 r =>
    if r.isOpen then
      if r.selection < 4 then .bank r.selection
      else
        match RealTimeClock.Register.ofNumber? r.selection with
        | some x => .clock x
        | none => .closed
    else .closed
  | .mbc5 r => if r.isOpen then .bank r.ramBank else .closed

/-! ## The clock -/

/-- A register of the latched clock, `0xff` without one. -/
def readClock (c : Controller) (x : RealTimeClock.Register) : UInt8 :=
  match c with
  | .mbc3 r => r.latched.read x
  | _ => 0xff

/-- Sets a register of the clock and of its latched copy. -/
def writeClock (c : Controller) (x : RealTimeClock.Register) (v : UInt8) : Controller :=
  match c with
  | .mbc3 r => .mbc3 { r with clock := r.clock.write x v, latched := r.latched.write x v }
  | _ => c

/-- Lets `cycles` pass. The division into seconds goes on while the clock is stopped, but then its
seconds are lost. -/
def advance (c : Controller) (cycles : Nat) : Controller :=
  match c with
  | .mbc3 r =>
    let (pulses, seconds) := r.seconds.advance cycles
    .mbc3 { r with
      seconds
      clock := if r.clock.halted then r.clock else Nat.repeat RealTimeClock.tick pulses r.clock }
  | _ => c

/-- The controller of a cartridge of a given code, as it is at power-up. -/
def ofCode? (code : UInt8) : Option Controller :=
  if code = 0x00 ∨ code = 0x08 ∨ code = 0x09 then some .fixed
  else if 0x01 ≤ code ∧ code ≤ 0x03 then some (.mbc1 {})
  else if code = 0x05 ∨ code = 0x06 then some (.mbc2 {})
  else if 0x0f ≤ code ∧ code ≤ 0x13 then some (.mbc3 {})
  else if 0x19 ≤ code ∧ code ≤ 0x1e then some (.mbc5 {})
  else none

end Controller

end GameBoy
