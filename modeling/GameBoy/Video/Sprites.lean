import GameBoy.Video.Background

/-!
# Sprites

Forty sprites of eight by eight or eight by sixteen pixels are laid over the background. The first
ten in memory that meet a line are shown in it; of the pixels that fall on one place the one of the
most urgent sprite is shown, colour number 0 being transparent. In the monochrome console a sprite
further left is more urgent, otherwise the earlier one in memory.

* `Video.lineSprites`: the sprites of a line, the most urgent first.
* `Video.spritePixel?`: the pixel that sprites show in a column.
* `Video.covers`: whether the background is drawn over it.
-/

namespace GameBoy

/-- A sprite as it lies in memory. -/
structure Sprite where
  /-- Its place among the forty. -/
  index : Nat
  /-- Sixteen more than its first line. -/
  y : Nat
  /-- Eight more than its first column. -/
  x : Nat
  tile : UInt8
  attributes : Attributes

/-- A row of a sprite: where it lies, and the two bytes of its colour numbers. -/
structure SpriteRow where
  /-- Eight more than its first column. -/
  x : Nat
  attributes : Attributes
  low : UInt8
  high : UInt8

/-- The colour number that the row has in a column of the screen; 0 outside it. -/
def SpriteRow.color (r : SpriteRow) (x : Nat) : Color :=
  if h : r.x ≤ x + 8 ∧ x < r.x then
    pixelColor r.low r.high (flipped r.attributes.flipX ⟨x + 8 - r.x, by omega⟩)
  else .backdrop

/-- How many sprites a line shows at most. -/
abbrev spritesPerLine : Nat := 10

namespace Video

/-- A sprite of the forty. -/
def sprite (v : Video) (i : Fin 40) : Sprite :=
  { index := i
    y := (v.oam.get (4 * i.val) (by omega)).toNat
    x := (v.oam.get (4 * i.val + 1) (by omega)).toNat
    tile := v.oam.get (4 * i.val + 2) (by omega)
    attributes := .ofByte (v.oam.get (4 * i.val + 3) (by omega)) }

/-- Whether a sprite meets the current line. -/
def meets (v : Video) (s : Sprite) : Bool :=
  s.y ≤ v.line + 16 && v.line + 16 < s.y + v.control.spriteHeight

/-- The sprites that are shown in the current line, in the order of memory. -/
def chosenSprites (v : Video) : List Sprite :=
  ((List.ofFn v.sprite).filter v.meets).take spritesPerLine

/-- In the monochrome console, whether `s` is at least as urgent as `t`. -/
def atLeastAsUrgent (s t : Sprite) : Bool := s.x < t.x || s.x == t.x && s.index ≤ t.index

/-- The sprites that are shown in the current line, the most urgent first. -/
def lineSprites (v : Video) : List Sprite :=
  match v.model with
  | .dmg => v.chosenSprites.mergeSort atLeastAsUrgent
  | .cgb => v.chosenSprites

/-- The row of a sprite that the current line shows. Tall sprites are two tiles, the first with an
even number. -/
def spriteRow (v : Video) (s : Sprite) : SpriteRow :=
  let height := v.control.spriteHeight
  let down := v.line + 16 - s.y
  let row := if s.attributes.flipY then height - 1 - down else down
  let tile := if height = 16 then s.tile &&& 0xfe else s.tile
  let address := 0x8000 + tile.toUInt16 * 16 + UInt16.ofNat row * 2
  let bank :=
    match v.model with
    | .dmg => .first
    | .cgb => VideoBank.ofBit s.attributes.bank
  { x := s.x
    attributes := s.attributes
    low := v.vramAt bank address
    high := v.vramAt bank (address + 1) }

/-- The rows that the current line shows, the most urgent first. -/
def spriteRows (v : Video) : List SpriteRow :=
  if v.control.hasSprites then v.lineSprites.map v.spriteRow else []

/-- The colour number and the attributes of the first row that is not transparent in column `x`. -/
def spritePixel? (rows : List SpriteRow) (x : Nat) : Option TilePixel :=
  rows.findSome? fun r =>
    if r.color x = .backdrop then none else some { color := r.color x, attributes := r.attributes }

/-- Whether a pixel of the background is drawn over a sprite's. -/
def covers (v : Video) (background sprite : TilePixel) : Bool :=
  background.color != .backdrop &&
    match v.model with
    | .dmg => sprite.attributes.priority
    | .cgb =>
      v.control.hasBackground && (background.attributes.priority || sprite.attributes.priority)

/-- The palette of a sprite's pixel. -/
def spritePalette (v : Video) (p : TilePixel) : Palette :=
  match v.model with
  | .dmg => if p.attributes.second then .object1 else .object0
  | .cgb => .colorObject p.attributes.palette

end Video

end GameBoy
