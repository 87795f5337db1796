import GameBoy.Memory.Word

/-!
# Hexadecimal text

Bytes are written with two lower-case digits and words with four, the more significant digit first.

* `byteHex`, `wordHex`: the bare digits, as a state line shows them.
* `byteLiteral`, `wordLiteral`: the same digits after `0x`, as messages show them.
-/

namespace GameBoy

/-- The lower-case digit of a number below sixteen. -/
def hexDigit (n : Nat) : Char := Nat.digitChar n

/-- The two digits of a byte. -/
def byteHex (v : UInt8) : String :=
  String.ofList [hexDigit (v.toNat / 16), hexDigit (v.toNat % 16)]

/-- The four digits of a word. -/
def wordHex (v : UInt16) : String := byteHex (highByte v) ++ byteHex (lowByte v)

/-- A byte as a literal: `0x` and two digits. -/
def byteLiteral (v : UInt8) : String := "0x" ++ byteHex v

/-- A word as a literal: `0x` and four digits. -/
def wordLiteral (v : UInt16) : String := "0x" ++ wordHex v

end GameBoy
