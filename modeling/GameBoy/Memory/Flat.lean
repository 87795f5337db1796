import GameBoy.Memory.Block
import GameBoy.Memory.Bus

/-!
# Flat memory

The simplest bus: every address is a cell of its own, with no device behind any of them. It grants a
change of clock rate once each time it was armed.

* `Flat.read_write`: a write changes the written address and no other.
-/

namespace GameBoy

/-- Memory without devices. -/
structure Flat where
  /-- The byte of each address. -/
  cells : Block 0x10000
  /-- Whether the next request for another clock rate is granted. -/
  armed : Bool

namespace Flat

instance : Bus Flat where
  read m a := m.cells.get a.toNat (UInt16.toNat_lt a)
  write m a v := { m with cells := m.cells.set a.toNat v (UInt16.toNat_lt a) }
  switchRate m := (m.armed, { m with armed := false })

/-- A write changes the written address and no other. -/
theorem read_write (m : Flat) (a b : UInt16) (v : UInt8) :
    Bus.read (Bus.write m a v) b = if a = b then v else Bus.read m b := by
  simp [Bus.read, Bus.write, UInt16.toNat_inj]

end Flat

end GameBoy
