import GameBoy.Cartridge.Controller
import GameBoy.Cartridge.Header

/-!
# Cartridges

Read-only memory, external memory and a bank controller. A write never changes read-only memory.

* `Cartridge.read`, `Cartridge.write`: the windows at `0x0000` and `0x4000`, and the one at
  `0xa000`.
* `Cartridge.romByte`, `Cartridge.ramIndex`: banks are counted around, so each number names one that
  exists.
-/

namespace GameBoy

/-- A cartridge. -/
structure Cartridge where
  /-- The read-only memory, all banks one after the other. -/
  rom : ByteArray
  /-- The external memory. -/
  ram : ByteArray
  controller : Controller

namespace Cartridge

/-- How many banks of `bankSize` bytes there are, at least one. -/
def bankCount (b : ByteArray) (bankSize : Nat) : Nat := max (b.size / bankSize) 1

/-- The byte at an offset in a bank of read-only memory. -/
def romByte (c : Cartridge) (bank offset : Nat) : UInt8 :=
  byteAt c.rom (bank % bankCount c.rom Header.romBankSize * Header.romBankSize + offset)

/-- The number of the byte at an offset in a bank of external memory. It may lie past the end. -/
def ramIndex (c : Cartridge) (bank offset : Nat) : Nat :=
  bank % bankCount c.ram Header.ramBankSize * Header.ramBankSize + offset

/-- The offset of a half byte; they repeat throughout the window. -/
def halfIndex (offset : Nat) : Nat := offset % 0x200

/-- Whether an address lies in the window onto external memory. -/
def isExternal (a : UInt16) : Bool := 0xa000 ≤ a && a ≤ 0xbfff

/-- What a program reads; `0xff` where the cartridge shows nothing. -/
def read (c : Cartridge) (a : UInt16) : UInt8 :=
  if a < 0x4000 then c.romByte c.controller.lowBank a.toNat
  else if a < 0x8000 then c.romByte c.controller.highBank (a.toNat - 0x4000)
  else if isExternal a then
    let offset := a.toNat - 0xa000
    match c.controller.external with
    | .closed => 0xff
    | .bank n => byteAt c.ram (c.ramIndex n offset)
    | .halves => 0xf0 ||| byteAt c.ram (halfIndex offset)
    | .clock r => c.controller.readClock r
  else 0xff

/-- A program's write: a command to the controller, or a byte for what the third window shows. -/
def write (c : Cartridge) (a : UInt16) (v : UInt8) : Cartridge :=
  if a < 0x8000 then { c with controller := c.controller.command a v }
  else if isExternal a then
    let offset := a.toNat - 0xa000
    match c.controller.external with
    | .closed => c
    | .bank n =>
      let i := c.ramIndex n offset
      { c with ram := withByte c.ram i v }
    | .halves => { c with ram := withByte c.ram (halfIndex offset) (v &&& 0x0f) }
    | .clock r => { c with controller := c.controller.writeClock r v }
  else c

/-- Lets `cycles` pass, which only a clock notices. -/
def advance (c : Cartridge) (cycles : Nat) : Cartridge :=
  { c with controller := c.controller.advance cycles }

/-- The title in the header. -/
def title (c : Cartridge) : String := Header.title c.rom

/-- The model in the header. -/
def model (c : Cartridge) : Model := Header.model c.rom

/-- Replaces the beginning of external memory by saved bytes, as many as fit. -/
def loadRam (c : Cartridge) (saved : ByteArray) : Cartridge :=
  let n := min c.ram.size saved.size
  { c with ram := saved.extract 0 n ++ c.ram.extract n c.ram.size }

/-- Read-only memory is never written. -/
@[simp] theorem rom_write (c : Cartridge) (a : UInt16) (v : UInt8) : (c.write a v).rom = c.rom := by
  unfold write
  split
  · rfl
  · split
    · simp only
      split <;> rfl
    · rfl

/-- The size of external memory never changes. -/
@[simp] theorem size_ram_write (c : Cartridge) (a : UInt16) (v : UInt8) :
    (c.write a v).ram.size = c.ram.size := by
  unfold write
  split
  · rfl
  · split
    · simp only
      split <;> simp
    · rfl

@[simp] theorem ram_advance (c : Cartridge) (cycles : Nat) : (c.advance cycles).ram = c.ram := rfl

end Cartridge

end GameBoy
