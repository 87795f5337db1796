import GameBoy.Timer
import GameBoy.Transfer
import GameBoy.Video.Location
import GameBoy.WorkRam

/-!
# The map of memory

Each address belongs to one device, or to none.

* `Location.ofAddress`: what lies at an address.
* `Location.colorOnly`: what only the colour console has.
-/

namespace GameBoy

/-- What lies at an address. -/
inductive Location
  /-- The cartridge, which knows its own addresses. -/
  | cartridge (a : UInt16)
  /-- The display. -/
  | video (l : Video.Location)
  /-- Work RAM. -/
  | workRam (l : WorkRam.Location)
  /-- A byte of the memory beside the registers. -/
  | highRam (offset : Fin 0x7f)
  /-- The register of the buttons. -/
  | buttons
  /-- A register of the serial line or of the sound, which only holds what is written to it. -/
  | latch (offset : Fin 0x40)
  /-- The timer. -/
  | timer (r : Timer.Register)
  /-- The requested interrupts. -/
  | requests
  /-- The register that copies a page to the memory of sprites. -/
  | spriteCopy
  /-- The register of the clock rate. -/
  | speed
  /-- The transfer unit. -/
  | transfer (r : Transfer.Register)
  /-- The enabled interrupts. -/
  | enabled
  /-- Nothing. -/
  | nothing
deriving DecidableEq

namespace Location

/-- The register at an address from `0xff00` to `0xff7f`. -/
def register (a : UInt16) : Location :=
  if a = 0xff00 then .buttons
  else if h : a.toNat = 0xff01 ∨ a.toNat = 0xff02 ∨ 0xff10 ≤ a.toNat ∧ a.toNat < 0xff40 then
    .latch ⟨a.toNat - 0xff00, by omega⟩
  else if a = 0xff0f then .requests
  else if a = 0xff46 then .spriteCopy
  else if a = 0xff4d then .speed
  else if a = 0xff70 then .workRam .bank
  else
    match Timer.Register.ofAddress? a with
    | some r => .timer r
    | none =>
      match Transfer.Register.ofAddress? a with
      | some r => .transfer r
      | none =>
        match Video.Location.register? a with
        | some l => .video l
        | none => .nothing

/-- What lies at an address. -/
def ofAddress (a : UInt16) : Location :=
  match Video.Location.memory? a with
  | some l => .video l
  | none =>
    if a < 0xc000 then .cartridge a
    else if a < 0xfe00 then .workRam (.cell (offset8K a))
    else if a < 0xff00 then .nothing
    else if a < 0xff80 then register a
    else if h : 0xff80 ≤ a.toNat ∧ a.toNat < 0xffff then .highRam ⟨a.toNat - 0xff80, by omega⟩
    else .enabled

/-- Whether only the colour console has it. -/
def colorOnly : Location → Bool
  | .speed | .transfer _ | .workRam .bank => true
  | .video l => l.colorOnly
  | _ => false

/-- What lies at an address in a console of the given model. -/
def find (model : Model) (a : UInt16) : Location :=
  let l := ofAddress a
  if l.colorOnly && !model.isColor then .nothing else l

end Location

end GameBoy
