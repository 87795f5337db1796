import GameBoy.Board.Location
import GameBoy.Buttons
import GameBoy.Cartridge.Basic
import GameBoy.Notice.Journal
import GameBoy.Notice.Reports
import GameBoy.Video.Access

/-!
# The board

Everything but the processor: the cartridge, the display, the memories and the small devices, joined
by one map of memory.

* `Board.read`: what lies at an address.
* `Board.write`: a write reaches one device; requests of interrupts are collected and notices kept.
  Writing a page to the sprite register copies its first 160 bytes to the memory of sprites.
-/

namespace GameBoy

/-- The state of everything but the processor. -/
structure Board where
  model : Model
  cartridge : Cartridge
  video : Video
  buttons : Buttons := {}
  timer : Timer := {}
  speed : Speed := {}
  /-- The requested interrupts. -/
  requests : Requests := ∅
  /-- The enabled interrupts; all eight bits are kept. -/
  enabled : UInt8 := 0
  transfer : Transfer := {}
  /-- The page last copied to the memory of sprites. -/
  spritePage : UInt8 := 0xff
  workRam : WorkRam
  highRam : Block 0x7f := .fill _ 0
  /-- The registers of the serial line and of the sound. -/
  latches : Block 0x40 := .fill _ 0
  /-- What was reported. -/
  journal : Journal := {}

namespace Board

/-- What a program reads at a location; the level of an undriven bus where there is nothing. -/
def readAt (b : Board) : Location → UInt8
  | .cartridge a => b.cartridge.read a
  | .video l => b.video.read l
  | .workRam l => b.workRam.read l
  | .highRam offset => b.highRam[offset]
  | .buttons => b.buttons.read
  | .latch offset => b.latches[offset]
  | .timer r => b.timer.read r
  | .requests => b.requests.read
  | .spriteCopy => b.spritePage
  | .speed => b.speed.read
  | .transfer r => b.transfer.read r
  | .enabled => b.enabled
  | .nothing => 0xff

/-- What a program reads at an address. -/
def read (b : Board) (a : UInt16) : UInt8 := b.readAt (.find b.model a)

/-- Keeps a notice, if there is one. -/
def report (b : Board) (n? : Option Notice) : Board := { b with journal := b.journal.add? n? }

/-- Copies byte `i` of the noted page to the memory of sprites. -/
def copySpriteByte (b : Board) (i : Fin 0xa0) : Board :=
  let v := b.read (b.spritePage.toUInt16 <<< 8 + UInt16.ofNat i)
  { b with video := b.video.setOam i v }

/-- Notes a page and copies its first 160 bytes to the memory of sprites, one after the other. -/
def copySprites (b : Board) (page : UInt8) : Board :=
  Fin.foldl 0xa0 copySpriteByte { b with spritePage := page }

/-- A program's write to the display. -/
def writeVideo (b : Board) (l : Video.Location) (v : UInt8) : Board :=
  let b := b.report (b.video.report? l v)
  let (video, raised) := b.video.write l v
  { b with video, requests := b.requests ∪ raised }

/-- A program's write to a location. -/
def writeAt (b : Board) (l : Location) (v : UInt8) : Board :=
  match l with
  | .cartridge a => { b with cartridge := b.cartridge.write a v }
  | .video l => b.writeVideo l v
  | .workRam l => { b with workRam := b.workRam.write l v }
  | .highRam offset => { b with highRam := b.highRam.set offset v }
  | .buttons => { b with buttons := b.buttons.write v }
  | .latch offset => { b with latches := b.latches.set offset v }
  | .timer r => { b with timer := b.timer.write r v }
  | .requests => { b with requests := .write v }
  | .spriteCopy => b.copySprites v
  | .speed => { b with speed := b.speed.write v }
  | .transfer r =>
    let b := b.report (b.transfer.report? r v)
    { b with transfer := b.transfer.write r v }
  | .enabled => { b with enabled := v }
  | .nothing => b

/-- A program's write to an address. -/
def write (b : Board) (a : UInt16) (v : UInt8) : Board := b.writeAt (.find b.model a) v

/-- The processor stops: the colour console may change the clock rate. -/
def switchRate (b : Board) : Bool × Board :=
  match b.model with
  | .dmg => (false, b)
  | .cgb =>
    let b := b.report b.speed.report?
    let (switched, speed) := b.speed.switch
    (switched, { b with speed })

instance : Bus Board where
  read := read
  write := write
  switchRate := switchRate

/-! ## Power-up -/

/-- What the start-up program leaves in the registers of the sound and of the serial line. -/
def latchAtPowerUp : Nat → UInt8
  | 0x10 => 0x80
  | 0x11 => 0xbf
  | 0x12 => 0xf3
  | 0x14 => 0xbf
  | 0x16 => 0x3f
  | 0x19 => 0xbf
  | 0x1a => 0x7f
  | 0x1b => 0xff
  | 0x1c => 0x9f
  | 0x1e => 0xbf
  | 0x20 => 0xff
  | 0x23 => 0xbf
  | 0x24 => 0x77
  | 0x25 => 0xf3
  | 0x26 => 0xf1
  | _ => 0x00

/-- The board with a cartridge, as the start-up program leaves it. -/
def powerUp (cartridge : Cartridge) (model : Model) (journal : Journal) : Board :=
  { model
    cartridge
    video := .powerUp model
    workRam := .powerUp model
    latches := .ofFn _ latchAtPowerUp
    journal }

/-! ## Buttons -/

/-- A button goes down. -/
def press (b : Board) (key : Button) : Board :=
  let (buttons, raised) := b.buttons.press key
  { b with buttons, requests := b.requests.raiseIf .buttons raised }

/-- A button goes up. -/
def release (b : Board) (key : Button) : Board := { b with buttons := b.buttons.release key }

end Board

end GameBoy
