/-!
# What a program reaches of the display

* `Video.Location`: video memory, the memory of sprites, and the registers.
* `Video.Location.ofAddress?`: where they lie.
* `Video.Location.colorOnly`: what only the colour console has.
-/

namespace GameBoy.Video

/-- What a program reaches. -/
inductive Location
  /-- A byte of the selected bank of video memory. -/
  | vram (offset : Fin 0x2000)
  /-- A byte of the memory of sprites. -/
  | oam (offset : Fin 0xa0)
  | control
  | status
  | scrollY
  | scrollX
  | line
  | lineCompare
  | backgroundShades
  | object0Shades
  | object1Shades
  | windowY
  | windowX
  | vramBank
  | backgroundColorIndex
  | backgroundColorData
  | objectColorIndex
  | objectColorData
deriving DecidableEq

namespace Location

/-- The register at an address. -/
def register? (a : UInt16) : Option Location :=
  if a = 0xff40 then some .control
  else if a = 0xff41 then some .status
  else if a = 0xff42 then some .scrollY
  else if a = 0xff43 then some .scrollX
  else if a = 0xff44 then some .line
  else if a = 0xff45 then some .lineCompare
  else if a = 0xff47 then some .backgroundShades
  else if a = 0xff48 then some .object0Shades
  else if a = 0xff49 then some .object1Shades
  else if a = 0xff4a then some .windowY
  else if a = 0xff4b then some .windowX
  else if a = 0xff4f then some .vramBank
  else if a = 0xff68 then some .backgroundColorIndex
  else if a = 0xff69 then some .backgroundColorData
  else if a = 0xff6a then some .objectColorIndex
  else if a = 0xff6b then some .objectColorData
  else none

/-- The memory at an address: video memory at `0x8000`, sprites at `0xfe00`. -/
def memory? (a : UInt16) : Option Location :=
  if h : 0x8000 ≤ a.toNat ∧ a.toNat < 0xa000 then some (.vram ⟨a.toNat - 0x8000, by omega⟩)
  else if h : 0xfe00 ≤ a.toNat ∧ a.toNat < 0xfea0 then some (.oam ⟨a.toNat - 0xfe00, by omega⟩)
  else none

/-- What lies at an address: memory or a register. -/
def ofAddress? (a : UInt16) : Option Location := (memory? a).or (register? a)

/-- Whether only the colour console has it. -/
def colorOnly : Location → Bool
  | .vramBank | .backgroundColorIndex | .backgroundColorData | .objectColorIndex
  | .objectColorData => true
  | _ => false

end Location

end GameBoy.Video
