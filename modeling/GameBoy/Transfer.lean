import GameBoy.Text.Hex

/-!
# Transfers to video memory

The colour console copies blocks of 16 bytes to video memory without the processor. A general
transfer copies all its blocks at once while the processor waits; a paced one copies a block each
time the display has drawn a line.

* `Transfer.write`: the five registers. A write to the last one starts a transfer, except that while
  a paced transfer runs it can only stop it.
* `Transfer.afterBlock`: where the next block comes from and goes to, and when the transfer ends.
-/

namespace GameBoy

/-- How a transfer is paced. -/
inductive Pace
  /-- All blocks at once. -/
  | general
  /-- One block after each line drawn. -/
  | hblank
deriving DecidableEq

/-- What a kind of transfer is called. -/
def Pace.name : Pace → String
  | .general => "GDMA"
  | .hblank => "HDMA"

/-- The state of the transfer unit. -/
structure Transfer where
  /-- Where the next block comes from. -/
  source : UInt16 := 0x0000
  /-- Where the next block goes. -/
  target : UInt16 := 0x8000
  /-- Whether blocks are still to be copied. -/
  active : Bool := false
  /-- How the transfer is paced. -/
  pace : Pace := .general
  /-- Blocks to be copied after the next one. -/
  remaining : UInt8 := 0x7f

namespace Transfer

/-- The registers a program sees, at `0xff51` to `0xff55`. -/
inductive Register
  | sourceHigh
  | sourceLow
  | targetHigh
  | targetLow
  | control
deriving DecidableEq

/-- The register at an address. -/
def Register.ofAddress? (a : UInt16) : Option Register :=
  if a = 0xff51 then some .sourceHigh
  else if a = 0xff52 then some .sourceLow
  else if a = 0xff53 then some .targetHigh
  else if a = 0xff54 then some .targetLow
  else if a = 0xff55 then some .control
  else none

/-- A block was copied: both addresses move on by 16, the target staying in video memory, and the
transfer ends if none remained. -/
def afterBlock (t : Transfer) : Transfer :=
  let t := { t with source := t.source + 0x10, target := 0x8000 ||| ((t.target + 0x10) &&& 0x1ff0) }
  if t.remaining = 0 then { t with remaining := 0x7f, active := false }
  else { t with remaining := t.remaining - 1 }

/-- Whether a write to the control register finds a paced transfer running. -/
def isPacing (t : Transfer) : Bool := t.active && t.pace == .hblank

/-- What a program reads: the addresses cannot be read, and the control register tells how many
blocks remain, with bit 7 set when no transfer runs. -/
def read (t : Transfer) : Register → UInt8
  | .control => if t.active then t.remaining else t.remaining ||| 0x80
  | _ => 0xff

/-- A program's write. Of the source the low four bits are ignored, of the target also the high
three. -/
def write (t : Transfer) (r : Register) (v : UInt8) : Transfer :=
  match r with
  | .sourceHigh => { t with source := v.toUInt16 <<< 8 ||| (t.source &&& 0x00ff) }
  | .sourceLow => { t with source := (v &&& 0xf0).toUInt16 ||| (t.source &&& 0xff00) }
  | .targetHigh =>
    { t with target := (v &&& 0x1f).toUInt16 <<< 8 ||| (t.target &&& 0x00ff) ||| 0x8000 }
  | .targetLow => { t with target := (v &&& 0xf0).toUInt16 ||| (t.target &&& 0xff00) }
  | .control =>
    if t.isPacing then
      if v &&& 0x80 = 0 then { t with active := false } else t
    else
      { t with
        active := true
        remaining := v &&& 0x7f
        pace := if v &&& 0x80 = 0 then .general else .hblank }

/-- The transfer as messages show it. -/
def text (t : Transfer) : String :=
  "src: " ++ wordLiteral t.source ++ ", dest: " ++ wordLiteral t.target ++
    ", active: " ++ (if t.active then "true" else "false") ++
    ", mode: " ++ t.pace.name ++ ", remain: " ++ toString t.remaining.toNat

end Transfer

end GameBoy
