import GameBoy.Video.Beam
import GameBoy.Video.Location

/-!
# Reading and writing the display

* `Video.read`, `Video.write`: a program reads and writes; a write may request an interrupt.
* `Video.setControl`: switching the display off returns it to the beginning of the first line and
  keeps the pictures; switching it on starts a picture.
-/

namespace GameBoy.Video

/-- Writes a byte of the selected bank of video memory. -/
def setVram (v : Video) (offset : Fin 0x2000) (b : UInt8) : Video :=
  { v with vram := v.vram.set (v.bank.cell offset) b }

/-- Writes a byte of the memory of sprites. -/
def setOam (v : Video) (offset : Fin 0xa0) (b : UInt8) : Video :=
  { v with oam := v.oam.set offset b }

/-- The display as it is when it is switched off. -/
def switchOff (v : Video) : Video := { v with line := 0, dot := 0, phase := .hblank, met := 0 }

/-- The display as it is when it is switched on, before its conditions are looked at. -/
def switchOn (v : Video) : Video :=
  { v with line := 0, dot := 0, windowLine := 0, phase := .search }

/-- Writes the control register. The flag says whether a condition began to hold. -/
def setControl (v : Video) (b : UInt8) : Video × Bool :=
  let next := { v with control := ⟨b⟩ }
  match v.control.isOn, next.control.isOn with
  | true, false => (next.switchOff, false)
  | false, true => next.switchOn.updateStatus
  | _, _ => (next, false)

/-- What a program reads. -/
def read (v : Video) : Location → UInt8
  | .vram offset => v.vram[v.bank.cell offset]
  | .oam offset => v.oam[offset]
  | .control => v.control.bits
  | .status => v.status
  | .scrollY => v.scrollY
  | .scrollX => v.scrollX
  | .line => UInt8.ofNat v.line
  | .lineCompare => v.lineCompare
  | .backgroundShades => v.shading.background
  | .object0Shades => v.shading.object0
  | .object1Shades => v.shading.object1
  | .windowY => v.windowY
  | .windowX => v.windowX
  | .vramBank => 0xfe ||| v.bank.bit
  | .backgroundColorIndex => v.backgroundColors.readIndex
  | .backgroundColorData => v.backgroundColors.readData
  | .objectColorIndex => v.objectColors.readIndex
  | .objectColorData => v.objectColors.readData

/-- A program's write, except that it cannot set the line: the display afterwards, and whether a
selected condition began to hold. -/
def put (v : Video) (l : Location) (b : UInt8) : Video × Bool :=
  match l with
  | .vram offset => (v.setVram offset b, false)
  | .oam offset => (v.setOam offset b, false)
  | .control => v.setControl b
  | .status => updateStatus { v with selected := b &&& 0x78 }
  | .scrollY => ({ v with scrollY := b }, false)
  | .scrollX => ({ v with scrollX := b }, false)
  | .line => (v, false)
  | .lineCompare => updateStatus { v with lineCompare := b }
  | .backgroundShades => ({ v with shading := { v.shading with background := b } }, false)
  | .object0Shades => ({ v with shading := { v.shading with object0 := b } }, false)
  | .object1Shades => ({ v with shading := { v.shading with object1 := b } }, false)
  | .windowY => ({ v with windowY := b }, false)
  | .windowX => ({ v with windowX := b }, false)
  | .vramBank => ({ v with bank := .ofBit (b &&& 0x01 != 0) }, false)
  | .backgroundColorIndex => ({ v with backgroundColors := v.backgroundColors.writeIndex b }, false)
  | .backgroundColorData => ({ v with backgroundColors := v.backgroundColors.writeData b }, false)
  | .objectColorIndex => ({ v with objectColors := v.objectColors.writeIndex b }, false)
  | .objectColorData => ({ v with objectColors := v.objectColors.writeData b }, false)

/-- A program's write: the display afterwards, and the interrupts it requests. -/
def write (v : Video) (l : Location) (b : UInt8) : Video × Requests :=
  let done := v.put l b
  (done.1, Requests.raiseIf ∅ .lcdStat done.2)

end GameBoy.Video
