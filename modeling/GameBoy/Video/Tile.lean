import GameBoy.Memory.Word
import GameBoy.Video.Palette

/-!
# Tiles

Pictures are made of tiles of eight by eight pixels. A row of a tile is two bytes: the first holds
the low bits of its eight colour numbers, the second the high bits, the leftmost pixel in bit 7.

* `tileAddress`: where a tile begins, in each of the two ways of numbering tiles.
* `pixelColor`: the colour number of a pixel in a row.
* `Attributes.ofByte`: how a tile or sprite is drawn.
-/

namespace GameBoy

/-- The address of the tile with number `id`. Unsigned numbers count from `0x8000`; signed ones from
`0x9000`, so that `0x80` to `0xff` lie below it. -/
def tileAddress (unsigned : Bool) (id : UInt8) : UInt16 :=
  if unsigned then 0x8000 + id.toUInt16 * 16
  else 0x9000 + signExtend id * 16

/-- The colour number of pixel `x`, counted from the left, in the row with bytes `low` and
`high`. -/
def pixelColor (low high : UInt8) (x : Fin 8) : Color :=
  ⟨2 * (high.toNat.testBit (7 - x.val)).toNat + (low.toNat.testBit (7 - x.val)).toNat, by
    have := Bool.toNat_le (high.toNat.testBit (7 - x.val))
    have := Bool.toNat_le (low.toNat.testBit (7 - x.val))
    omega⟩

/-- How a tile or a sprite is drawn. -/
structure Attributes where
  /-- The palette, in the colour console. -/
  palette : Fin 8 := 0
  /-- Whether the tile lies in the second bank, in the colour console. -/
  bank : Bool := false
  /-- Whether a sprite takes the second palette, in the monochrome console. -/
  second : Bool := false
  /-- Whether left and right are exchanged. -/
  flipX : Bool := false
  /-- Whether top and bottom are exchanged. -/
  flipY : Bool := false
  /-- Whether the background is drawn over sprites. -/
  priority : Bool := false
deriving DecidableEq

/-- The attributes of a tile that is drawn just as it lies in memory. -/
def Attributes.plain : Attributes := {}

/-- The attributes in the bits of a byte. -/
def Attributes.ofByte (v : UInt8) : Attributes :=
  { palette := Fin.ofNat 8 v.toNat
    bank := v &&& 0x08 != 0
    second := v &&& 0x10 != 0
    flipX := v &&& 0x20 != 0
    flipY := v &&& 0x40 != 0
    priority := v &&& 0x80 != 0 }

/-- The place in its tile of a column or row of a map. -/
def placeInTile (x : UInt8) : Fin 8 := Fin.ofNat 8 x.toNat

/-- A position counted from the other side, if `flip` holds. -/
def flipped (flip : Bool) (x : Fin 8) : Fin 8 := if flip then x.rev else x

end GameBoy
