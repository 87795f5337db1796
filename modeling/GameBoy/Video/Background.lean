import GameBoy.Video.Basic

/-!
# Background and window

The background is a map of 32 by 32 tiles that can be scrolled and repeats in both directions. The
window is another such map, laid over it from a column and a line on, and not scrolled.

* `mapCell`, `Video.rowAddress`: where a map tells the tile of a place, and where a row of that is.
* `Video.tilePixel`: a pixel of a map.
* `Video.shownPlace?`: the place of a map that a column of the line shows.
* `Video.backgroundPixel`: what the background or the window shows in a column of the line.
* `Video.drawsWindow`: whether the line shows the window.
-/

namespace GameBoy

/-- A pixel of the background or the window. -/
structure TilePixel where
  color : Color := .backdrop
  /-- The attributes of its tile. -/
  attributes : Attributes := .plain

/-- A place of a map: where the map begins, and a column and a row of it. -/
structure MapPlace where
  map : UInt16
  x : UInt8
  y : UInt8

/-- The address of the number of the tile in column `x` and row `y` of the map that begins at
`map`. The attributes of the tile have the same address in the second bank. -/
def mapCell (map : UInt16) (x y : UInt8) : UInt16 :=
  map + (y / 8).toUInt16 * 32 + (x / 8).toUInt16

namespace Video

/-- The attributes of the tile whose number is at `cell`. The monochrome console has none. -/
def attributesAt (v : Video) (cell : UInt16) : Attributes :=
  match v.model with
  | .dmg => .plain
  | .cgb => .ofByte (v.vramAt .second cell)

/-- The address of the first byte of the tile's row in column `x` and row `y` of the map that begins
at `map`. -/
def rowAddress (v : Video) (map : UInt16) (x y : UInt8) : UInt16 :=
  let cell := mapCell map x y
  let row := flipped (v.attributesAt cell).flipY (placeInTile y)
  tileAddress v.control.unsignedTiles (v.vramAt .first cell) + UInt16.ofNat row * 2

/-- The pixel in column `x` and row `y` of the map that begins at `map`. -/
def tilePixel (v : Video) (map : UInt16) (x y : UInt8) : TilePixel :=
  let attributes := v.attributesAt (mapCell map x y)
  let column := flipped attributes.flipX (placeInTile x)
  let address := v.rowAddress map x y
  let bank := VideoBank.ofBit attributes.bank
  { color := pixelColor (v.vramAt bank address) (v.vramAt bank (address + 1)) column
    attributes }

/-- Whether background and window are drawn at all. -/
def drawsBackground (v : Video) : Bool := v.model == .cgb || v.control.hasBackground

/-- Whether the window is shown in the current line. -/
def drawsWindow (v : Video) : Bool :=
  v.drawsBackground && v.control.hasWindow && v.windowY.toNat ≤ v.line && v.windowX ≤ 166

/-- The place that column `x` of the current line shows: of the window's map where the window lies,
elsewhere of the background's. -/
def shownPlace? (v : Video) (x : Nat) : Option MapPlace :=
  if !v.drawsBackground then none
  else if v.drawsWindow && v.windowX.toNat ≤ x + 7 then
    some { map := v.control.windowMap
           x := UInt8.ofNat (x + 7 - v.windowX.toNat)
           y := v.windowLine }
  else
    some { map := v.control.backgroundMap
           x := v.scrollX + UInt8.ofNat x
           y := v.scrollY + UInt8.ofNat v.line }

/-- What background and window show in column `x` of the current line. -/
def backgroundPixel (v : Video) (x : Nat) : TilePixel :=
  match v.shownPlace? x with
  | none => {}
  | some p => v.tilePixel p.map p.x p.y

/-- The palette of a pixel of the background or the window. -/
def backgroundPalette (v : Video) (p : TilePixel) : Palette :=
  match v.model with
  | .dmg => .background
  | .cgb => .colorBackground p.attributes.palette

end Video

end GameBoy
