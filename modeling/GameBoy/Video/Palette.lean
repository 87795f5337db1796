import GameBoy.Memory.Block
import GameBoy.Memory.Word

/-!
# Colours and palettes

A pixel holds one of four colour numbers and the palette that gives the number its colour. In the
monochrome console a palette is a byte that maps each number to one of four shades; in the colour
console palettes of four 15-bit colours lie in two memories of 64 bytes.

* `Shades.shade`: the shade of a pixel.
* `ColorMemory.color`: a colour of the colour console.
* `ColorMemory.writeData`: data goes to the indexed byte; the index may then move on, around the 64.
-/

namespace GameBoy

/-- A colour number. -/
abbrev Color := Fin 4

/-- Colour number 0, which sprites do not show and the background never draws over a sprite. -/
def Color.backdrop : Color := ⟨0, by decide⟩

/-- The palette that a pixel takes its colour from. -/
inductive Palette
  /-- The background's, in the monochrome console. -/
  | background
  /-- The sprites' first, in the monochrome console. -/
  | object0
  /-- The sprites' second, in the monochrome console. -/
  | object1
  /-- One of the background's, in the colour console. -/
  | colorBackground (n : Fin 8)
  /-- One of the sprites', in the colour console. -/
  | colorObject (n : Fin 8)
deriving DecidableEq

/-- The three palettes of the monochrome console: two bits of shade for each colour number. -/
structure Shades where
  background : UInt8 := 0xfc
  object0 : UInt8 := 0xff
  object1 : UInt8 := 0xff
deriving DecidableEq

/-- The shade that a palette byte gives a colour number: two bits for each, the lowest for 0. -/
def shadeIn (palette : UInt8) (c : Color) : Color :=
  ⟨palette.toNat >>> (2 * c.val) % 4, Nat.mod_lt _ (by decide)⟩

/-- The shade of a colour number; that of a colour palette is the number itself. -/
def Shades.shade (s : Shades) (p : Palette) (c : Color) : Color :=
  match p with
  | .background => shadeIn s.background c
  | .object0 => shadeIn s.object0 c
  | .object1 => shadeIn s.object1 c
  | .colorBackground _ | .colorObject _ => c

/-- The memory of eight palettes, and the index through which a program reaches it. -/
structure ColorMemory where
  /-- The byte that the data register shows. -/
  index : Fin 64 := 0
  /-- Whether a write to the data register moves the index on. -/
  moves : Bool := false
  /-- Eight palettes of four colours of two bytes, the low byte first. -/
  cells : Block 64 := .fill 64 0xff

namespace ColorMemory

/-- White everywhere, which is how the start-up program leaves it. -/
def powerUp : ColorMemory := {}

/-- What the index register reads; its unused bit is set. -/
def readIndex (m : ColorMemory) : UInt8 :=
  0x40 ||| (if m.moves then 0x80 else 0) ||| UInt8.ofNat m.index

/-- Sets the index from the low six bits of a byte, and whether it moves from bit 7. -/
def writeIndex (m : ColorMemory) (v : UInt8) : ColorMemory :=
  { m with index := Fin.ofNat 64 v.toNat, moves := v &&& 0x80 != 0 }

/-- The indexed byte. -/
def readData (m : ColorMemory) : UInt8 := m.cells[m.index]

/-- Writes the indexed byte. -/
def writeData (m : ColorMemory) (v : UInt8) : ColorMemory :=
  { m with cells := m.cells.set m.index v, index := if m.moves then m.index + 1 else m.index }

/-- The index moves on after a write, around the 64, if it moves at all. -/
@[simp] theorem index_writeData (m : ColorMemory) (v : UInt8) :
    (m.writeData v).index = if m.moves then m.index + 1 else m.index := rfl

/-- A write changes the indexed byte and no other. -/
theorem cells_writeData (m : ColorMemory) (v : UInt8) (i : Nat) (hi : i < 64) :
    (m.writeData v).cells[i] = if m.index.val = i then v else m.cells[i] := by
  simp [writeData]

/-- Colour `c` of palette `p`: five bits each of red, green and blue. -/
def color (m : ColorMemory) (p : Fin 8) (c : Color) : UInt16 :=
  let low := m.cells.get (8 * p.val + 2 * c.val) (by omega)
  let high := m.cells.get (8 * p.val + 2 * c.val + 1) (by omega)
  word high low &&& 0x7fff

end ColorMemory

end GameBoy
