import GameBoy.Text.Hex

/-!
# Refused cartridges

Why an image of a cartridge is refused, and why a machine cannot be built. A cause holds the lengths
or the code that were found; its message puts them into words.

* `LoadError`: what is wrong with an image.
* `CreationError`: the same, or that there is no image.
-/

namespace GameBoy

/-- Why an image is refused. -/
inductive LoadError
  /-- The image ends before its header does. -/
  | headerTooShort (length : Nat)
  /-- No known cartridge has this code. -/
  | unsupportedKind (code : UInt8)
  /-- The code declares no size of read-only memory. -/
  | unsupportedRomSize (code : UInt8)
  /-- The code declares no size of external memory. -/
  | unsupportedRamSize (code : UInt8)
  /-- The image is longer than its header declares. -/
  | romTooLarge (length declared : Nat)
deriving DecidableEq

/-- The reason in words. -/
def LoadError.message : LoadError → String
  | .headerTooShort length =>
    "rom should contain the 0x0100-0x014f header, was " ++ toString length ++ " bytes"
  | .unsupportedKind code => "unsupported cartridge type: " ++ byteLiteral code
  | .unsupportedRomSize code => "unsupported rom size code: " ++ byteLiteral code
  | .unsupportedRamSize code => "unsupported ram size code: " ++ byteLiteral code
  | .romTooLarge length declared =>
    "rom is " ++ toString length ++ " bytes, more than the " ++ toString declared ++
      " bytes declared in its header"

/-- Why no machine could be built. -/
inductive CreationError
  /-- There is no image. -/
  | noImage
  /-- The image is refused. -/
  | refused (e : LoadError)
deriving DecidableEq

/-- The reason in words. -/
def CreationError.message : CreationError → String
  | .noImage => "rom is null"
  | .refused e => e.message

end GameBoy
