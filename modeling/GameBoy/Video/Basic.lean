import GameBoy.Model
import GameBoy.Video.Picture
import GameBoy.Video.Tile

/-!
# The display unit

The display draws 154 lines of 456 dots each, the last ten of which are not seen. A seen line has
three phases; in the last of them nothing is drawn, and neither is in the lines that are not seen.
This module holds the state of the display and its registers.

* `Phase`: the four phases.
* `Control`: the bits of the control register.
* `Video`: the state, and `Video.powerUp` the one that the start-up program leaves.
-/

namespace GameBoy

/-! ## Time -/

/-- Dots in a line. -/
abbrev dotsPerLine : Nat := 456

/-- Lines in a picture, the unseen ones included. -/
abbrev linesPerFrame : Nat := 154

/-- Dots in a picture. -/
abbrev dotsPerFrame : Nat := dotsPerLine * linesPerFrame

/-- What the display is doing. -/
inductive Phase
  /-- The line is drawn; the rest of its time passes. -/
  | hblank
  /-- All lines are drawn; the unseen lines pass. -/
  | vblank
  /-- The sprites that meet the line are looked up. -/
  | search
  /-- The line is drawn. -/
  | transfer
deriving DecidableEq

namespace Phase

/-- The number of a phase in the status register. -/
def number : Phase → UInt8
  | .hblank => 0
  | .vblank => 1
  | .search => 2
  | .transfer => 3

/-- What a phase is called. -/
def name : Phase → String
  | .hblank => "HBlank"
  | .vblank => "VBlank"
  | .search => "OamSearch"
  | .transfer => "Transfer"

/-- The dot of the line at which a phase ends. -/
def boundary : Phase → Nat
  | .search => 80
  | .transfer => 252
  | .hblank => dotsPerLine
  | .vblank => dotsPerLine

end Phase

/-! ## Registers -/

/-- The control register. -/
structure Control where
  bits : UInt8
deriving DecidableEq

namespace Control

/-- Whether the display is on. -/
def isOn (c : Control) : Bool := c.bits &&& 0x80 != 0

/-- Where the window's map of tiles begins. -/
def windowMap (c : Control) : UInt16 := if c.bits &&& 0x40 != 0 then 0x9c00 else 0x9800

/-- Whether the window is shown. -/
def hasWindow (c : Control) : Bool := c.bits &&& 0x20 != 0

/-- Whether tiles of the background and the window have unsigned numbers. -/
def unsignedTiles (c : Control) : Bool := c.bits &&& 0x10 != 0

/-- Where the background's map of tiles begins. -/
def backgroundMap (c : Control) : UInt16 := if c.bits &&& 0x08 != 0 then 0x9c00 else 0x9800

/-- The height of sprites. -/
def spriteHeight (c : Control) : Nat := if c.bits &&& 0x04 != 0 then 16 else 8

/-- Whether sprites are shown. -/
def hasSprites (c : Control) : Bool := c.bits &&& 0x02 != 0

/-- In the monochrome console, whether background and window are shown; in the colour console,
whether they can cover sprites. -/
def hasBackground (c : Control) : Bool := c.bits &&& 0x01 != 0

end Control

/-! ## Memory -/

/-- The banks of video memory; the monochrome console has only the first. -/
inductive VideoBank
  | first
  | second
deriving DecidableEq

namespace VideoBank

/-- The bank that a bit selects. -/
def ofBit (bit : Bool) : VideoBank := if bit then .second else .first

/-- The bit that selects a bank. -/
def bit : VideoBank → UInt8
  | .first => 0
  | .second => 1

/-- The number of the cell at an offset in a bank. -/
def cell (bank : VideoBank) (offset : Fin 0x2000) : Fin 0x4000 :=
  match bank with
  | .first => ⟨offset, by omega⟩
  | .second => ⟨0x2000 + offset, by omega⟩

end VideoBank

/-! ## State -/

/-- The state of the display. -/
structure Video where
  model : Model
  control : Control := ⟨0x91⟩
  /-- The conditions that may interrupt: bit 3 for `hblank`, 4 for `vblank`, 5 for `search`, 6 for
  the compared line. -/
  selected : UInt8 := 0
  /-- Those of them that held when they were last looked at. -/
  met : UInt8 := 0
  phase : Phase := .search
  /-- Dots since the beginning of the line. -/
  dot : Nat := 0
  line : Nat := 0
  /-- The line that is compared with the current one. -/
  lineCompare : UInt8 := 0
  scrollX : UInt8 := 0
  scrollY : UInt8 := 0
  /-- Seven more than the window's first column. -/
  windowX : UInt8 := 0
  /-- The window's first line. -/
  windowY : UInt8 := 0
  /-- The row of the window that is drawn next; it counts only lines that show the window. -/
  windowLine : UInt8 := 0
  /-- The monochrome palettes. -/
  shading : Shades := {}
  /-- The background's palettes in the colour console. -/
  backgroundColors : ColorMemory := .powerUp
  /-- The sprites' palettes in the colour console. -/
  objectColors : ColorMemory := .powerUp
  /-- Two banks of video memory; the monochrome console uses the first. -/
  vram : Block 0x4000 := .fill _ 0
  /-- The bank that a program reaches. -/
  bank : VideoBank := .first
  /-- Forty sprites of four bytes. -/
  oam : Block 0xa0 := .fill _ 0
  /-- The picture that is being drawn. -/
  back : Picture := .blank
  /-- The last complete picture. -/
  front : Picture := .blank
  /-- Whether the last complete picture has not been taken yet. -/
  frameReady : Bool := false
  /-- How many pictures were completed. -/
  frames : Nat := 0
  /-- Whether a line was drawn during the last stretch of time. -/
  lineDrawn : Bool := false

namespace Video

/-- The display as the start-up program leaves it. -/
def powerUp (model : Model) : Video := { model }

/-- The byte of a bank of video memory at an address; addresses repeat every 8 KiB. -/
def vramAt (v : Video) (bank : VideoBank) (a : UInt16) : UInt8 := v.vram[bank.cell (offset8K a)]

/-- Takes the last complete picture: whether it is new since the last time. -/
def takeFrame (v : Video) : Bool × Video := (v.frameReady, { v with frameReady := false })

end Video

end GameBoy
