import GameBoy.Memory.Block
import GameBoy.Model

/-!
# Cartridge headers

The bytes `0x104` to `0x14f` of a cartridge's memory describe it: a logo, a title, the model it was
made for, what it contains, and a checksum.

* `Header.title`, `Header.model`: what the header says about the program.
* `Header.romSize?`, `Header.ramSize?`: the sizes that it declares.
* `Header.checksum`, `Header.logo`: what a genuine header holds.
-/

namespace GameBoy.Header

/-- An image shorter than this does not contain the whole header. -/
def stop : Nat := 0x150

/-- Bytes in a bank of read-only memory. -/
def romBankSize : Nat := 0x4000

/-- Bytes in a bank of external memory. -/
def ramBankSize : Nat := 0x2000

/-! ## Fields -/

/-- The flag whose bit 7 asks for the colour console. -/
def colorFlag (rom : ByteArray) : UInt8 := byteAt rom 0x143

/-- The code of the bank controller and of what else the cartridge contains. -/
def kindCode (rom : ByteArray) : UInt8 := byteAt rom 0x147

/-- The code of the size of the read-only memory. -/
def romCode (rom : ByteArray) : UInt8 := byteAt rom 0x148

/-- The code of the size of the external memory. -/
def ramCode (rom : ByteArray) : UInt8 := byteAt rom 0x149

/-- The bytes `first` to `last - 1`. -/
def bytes (rom : ByteArray) (first last : Nat) : List UInt8 :=
  (List.range' first (last - first)).map (byteAt rom)

/-- The model the cartridge was made for. -/
def model (rom : ByteArray) : Model := .ofColorFlag (colorFlag rom)

/-- The title: the bytes from `0x134` up to the first zero, each one character. On a cartridge for
the colour console the field ends five bytes earlier. -/
def title (rom : ByteArray) : String :=
  let last := if colorFlag rom &&& 0x80 != 0 then 0x13f else 0x144
  String.ofList (((bytes rom 0x134 last).takeWhile (· != 0)).map fun b => Char.ofNat b.toNat)

/-- The bytes of read-only memory that a code declares: a power of two banks, or one of three odd
counts. -/
def romSize? (code : UInt8) : Option Nat :=
  if code ≤ 0x08 then some (romBankSize <<< (code.toNat + 1))
  else if code = 0x52 then some (romBankSize * 72)
  else if code = 0x53 then some (romBankSize * 80)
  else if code = 0x54 then some (romBankSize * 96)
  else none

/-- The bytes of external memory that a code declares. -/
def ramSize? (code : UInt8) : Option Nat :=
  if code = 0x00 then some 0
  else if code = 0x01 then some (2 * 1024)
  else if code = 0x02 then some (8 * 1024)
  else if code = 0x03 then some (32 * 1024)
  else if code = 0x04 then some (128 * 1024)
  else if code = 0x05 then some (64 * 1024)
  else none

/-- What a cartridge of a given code contains. -/
def describe? (code : UInt8) : Option String :=
  if code = 0x00 then some "ROM ONLY"
  else if code = 0x01 then some "MBC1"
  else if code = 0x02 then some "MBC1+RAM"
  else if code = 0x03 then some "MBC1+RAM+BATTERY"
  else if code = 0x05 then some "MBC2"
  else if code = 0x06 then some "MBC2+BATTERY"
  else if code = 0x08 then some "ROM+RAM"
  else if code = 0x09 then some "ROM+RAM+BATTERY"
  else if code = 0x0f then some "MBC3+TIMER+BATTERY"
  else if code = 0x10 then some "MBC3+TIMER+RAM+BATTERY"
  else if code = 0x11 then some "MBC3"
  else if code = 0x12 then some "MBC3+RAM"
  else if code = 0x13 then some "MBC3+RAM+BATTERY"
  else if code = 0x19 then some "MBC5"
  else if code = 0x1a then some "MBC5+RAM"
  else if code = 0x1b then some "MBC5+RAM+BATTERY"
  else if code = 0x1c then some "MBC5+RUMBLE"
  else if code = 0x1d then some "MBC5+RUMBLE+RAM"
  else if code = 0x1e then some "MBC5+RUMBLE+RAM+BATTERY"
  else none

/-! ## Genuineness -/

/-- The logo that every header begins with. -/
def logo : List UInt8 :=
  [0xce, 0xed, 0x66, 0x66, 0xcc, 0x0d, 0x00, 0x0b, 0x03, 0x73, 0x00, 0x83,
   0x00, 0x0c, 0x00, 0x0d, 0x00, 0x08, 0x11, 0x1f, 0x88, 0x89, 0x00, 0x0e,
   0xdc, 0xcc, 0x6e, 0xe6, 0xdd, 0xdd, 0xd9, 0x99, 0xbb, 0xbb, 0x67, 0x63,
   0x6e, 0x0e, 0xec, 0xcc, 0xdd, 0xdc, 0x99, 0x9f, 0xbb, 0xb9, 0x33, 0x3e]

/-- Whether the header begins with the logo. -/
def hasLogo (rom : ByteArray) : Bool := bytes rom 0x104 0x134 == logo

/-- The checksum of the bytes from the title to the version: each byte, and one more, is taken away
from zero. -/
def checksum (rom : ByteArray) : UInt8 :=
  (bytes rom 0x134 0x14d).foldl (fun sum b => sum - b - 1) 0

/-- Whether the header holds its checksum. -/
def hasChecksum (rom : ByteArray) : Bool := byteAt rom 0x14d == checksum rom

theorem romBankSize_le_romSize {code : UInt8} {size : Nat} (h : romSize? code = some size) :
    2 * romBankSize ≤ size := by
  unfold romSize? at h
  repeat' split at h
  all_goals simp only [Option.some.injEq, reduceCtorEq] at h
  all_goals subst h
  · have := Nat.one_le_two_pow (n := code.toNat)
    simp only [romBankSize, Nat.shiftLeft_eq, Nat.pow_succ]
    omega
  all_goals decide

end GameBoy.Header
