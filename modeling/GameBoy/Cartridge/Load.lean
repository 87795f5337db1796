import GameBoy.Cartridge.Basic
import GameBoy.Notice.Basic

/-!
# Loading cartridges

An image of a cartridge is accepted if its header is complete and declares sizes and a kind that
exist, and if the image is not longer than declared. A shorter one is continued with the level of an
undriven bus.

* `Cartridge.load`: the cartridge as it is at power-up, or the first reason to refuse the image.
* `Cartridge.loadNotices`: what is reported about an accepted image; a wrong checksum or logo is
  reported and nothing more.
-/

namespace GameBoy

namespace Cartridge

/-- External memory at power-up: cleared, and of the declared size unless the controller has memory
of its own. -/
def clearedRam (controller : Controller) (declared : Nat) : ByteArray :=
  match controller with
  | .mbc2 _ => ⟨Array.replicate 0x200 0⟩
  | _ => ⟨Array.replicate declared 0⟩

/-- The cartridge that an image describes. -/
def load (image : ByteArray) : Except LoadError Cartridge := do
  if image.size < Header.stop then throw (.headerTooShort image.size)
  let some romSize := Header.romSize? (Header.romCode image)
    | throw (.unsupportedRomSize (Header.romCode image))
  if romSize < image.size then throw (.romTooLarge image.size romSize)
  let some ramSize := Header.ramSize? (Header.ramCode image)
    | throw (.unsupportedRamSize (Header.ramCode image))
  let some controller := Controller.ofCode? (Header.kindCode image)
    | throw (.unsupportedKind (Header.kindCode image))
  return { rom := padded image romSize, ram := clearedRam controller ramSize, controller }

/-- What is reported about an accepted image. The size of external memory is the declared one. -/
def loadNotices (c : Cartridge) (verify : Bool) : List Notice :=
  [.cartridgeTitle c.title,
    .cartridgeContents ((Header.describe? (Header.kindCode c.rom)).getD "UNKNOWN")
      (c.rom.size / 1024) ((Header.ramSize? (Header.ramCode c.rom)).getD 0 / 1024)] ++
  (if verify && !Header.hasChecksum c.rom then [.wrongChecksum] else []) ++
  (if verify && !Header.hasLogo c.rom then [.wrongLogo] else [])

end Cartridge

end GameBoy
