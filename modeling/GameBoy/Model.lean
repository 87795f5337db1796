/-!
# The two models

A cartridge runs on the monochrome model or on the colour one. Byte `0x143` of its header says which
it was made for; the choice is made at power-up and never changes.
-/

namespace GameBoy

/-- Which console the machine is. -/
inductive Model
  /-- The monochrome console. -/
  | dmg
  /-- The colour console. -/
  | cgb
deriving DecidableEq

namespace Model

/-- The model that a header's colour flag asks for: bit 7 means colour. -/
def ofColorFlag (flag : UInt8) : Model := if flag &&& 0x80 != 0 then .cgb else .dmg

/-- Whether the registers of the colour console exist. -/
def isColor : Model → Bool
  | .dmg => false
  | .cgb => true

/-- The model as messages name it. -/
def name : Model → String
  | .dmg => "Dmg"
  | .cgb => "Cgb"

end Model

end GameBoy
