import GameBoy.Memory.Word

/-!
# The bus

What the processor is connected to: `0x10000` addresses that hold a byte each, and a line that asks
for a change of clock rate. Reading has no effect on the bus.

* `Bus`: the three operations.
* `readWord`, `writeWord`: words lie in memory with the low byte first; the address after `0xffff`
  is `0`.
-/

namespace GameBoy

/-- A thing that answers to the processor's reads and writes. -/
class Bus (β : Type) where
  /-- The byte at an address. -/
  read : β → UInt16 → UInt8
  /-- The bus after a byte was written to an address. -/
  write : β → UInt16 → UInt8 → β
  /-- Asks for the other clock rate: whether it was granted, and the bus afterwards. -/
  switchRate : β → Bool × β

namespace Bus

variable {β : Type} [Bus β]

/-- The word whose low byte is at `a`. -/
def readWord (bus : β) (a : UInt16) : UInt16 :=
  word (read bus (a + 1)) (read bus a)

/-- Writes the low byte of `v` to `a`, then its high byte to the address after it. -/
def writeWord (bus : β) (a v : UInt16) : β :=
  write (write bus a (lowByte v)) (a + 1) (highByte v)

end Bus

end GameBoy
