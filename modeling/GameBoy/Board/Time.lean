import GameBoy.Board.Basic

/-!
# The passing of time on the board

After each step of the processor, time passes for the other devices. The timer runs at the
processor's rate, the display and the clock in the cartridge always at the normal one. First a
pending transfer to video memory copies its blocks; each takes eight cycles of the normal rate,
during which the processor waits.

* `Board.runTransfer`: the blocks that are copied now, and the time they take.
* `Board.advance`: time passes, and how much that was.
-/

namespace GameBoy.Board

/-- Cycles of the normal rate that copying a block takes. -/
abbrev cyclesPerBlock : Nat := 8

/-- Copies byte `i` of the next block. -/
def copyBlockByte (b : Board) (i : Fin 0x10) : Board :=
  let v := b.read (b.transfer.source + UInt16.ofNat i)
  let offset := offset8K (b.transfer.target + UInt16.ofNat i)
  { b with video := b.video.setVram offset v }

/-- Copies the next block to video memory. -/
def copyBlock (b : Board) : Board :=
  let b := Fin.foldl 0x10 copyBlockByte b
  let b := b.report b.transfer.blockReport?
  { b with transfer := b.transfer.afterBlock }

/-- The number of blocks that are copied now: all, or one after a seen line was drawn. -/
def blocksDue (b : Board) : Nat :=
  if b.transfer.active then
    match b.transfer.pace with
    | .general => b.transfer.remaining.toNat + 1
    | .hblank => if b.video.lineDrawn && b.video.line < screenHeight then 1 else 0
  else 0

/-- Copies the blocks that are due. -/
def runTransfer (b : Board) : Board := Nat.repeat copyBlock b.blocksDue b

/-- Lets the timer run for `cycles` of the processor. -/
def advanceTimer (b : Board) (cycles : Nat) : Board :=
  let (timer, raised) := b.timer.advance cycles
  { b with timer, requests := b.requests.raiseIf .timer raised }

/-- Lets the display run for `dots`. -/
def advanceVideo (b : Board) (dots : Nat) : Board :=
  let (video, raised) := b.video.advance dots
  { b with video, requests := b.requests ∪ raised }

/-- Lets the cartridge's clock run for `cycles` of the normal rate. -/
def advanceCartridge (b : Board) (cycles : Nat) : Board :=
  { b with cartridge := b.cartridge.advance cycles }

/-- Lets `cycles` of the processor pass, and the time that copying takes: all that passed, in cycles
of the processor, and the board afterwards. -/
def advance (b : Board) (cycles : Nat) : Nat × Board :=
  let factor := b.speed.rate.factor
  let copying := cyclesPerBlock * b.blocksDue
  let total := cycles + copying * factor
  let normal := cycles / factor + copying
  (total, (((b.runTransfer).advanceTimer total).advanceVideo normal).advanceCartridge normal)

/-- At least the given time passes. -/
theorem le_advance (b : Board) (cycles : Nat) : cycles ≤ (b.advance cycles).1 :=
  Nat.le_add_right ..

end GameBoy.Board
