import GameBoy.Cpu.Step
import GameBoy.Notice.Basic
import GameBoy.Video.Basic
import GameBoy.Video.Location

/-!
# What the devices report

Devices do not keep notices. What one reports about an operation follows from its state before the
operation, and is given here beside the operation.
-/

namespace GameBoy

/-- What a write to the display's registers makes it report: that it goes on or off. -/
def Video.report? (v : Video) (l : Video.Location) (b : UInt8) : Option Notice :=
  match l with
  | .control =>
    match v.control.isOn, (Control.mk b).isOn with
    | true, false => some (.displayOff v.line)
    | false, true => some .displayOn
    | _, _ => none
  | _ => none

/-- What a write to the transfer unit makes it report: that a transfer begins or is stopped. -/
def Transfer.report? (t : Transfer) (r : Transfer.Register) (b : UInt8) : Option Notice :=
  match r with
  | .control =>
    if t.isPacing then
      if b &&& 0x80 = 0 then some (.transferStopped (t.write r b)) else none
    else some (.transferStarted (t.write r b))
  | _ => none

/-- What the transfer unit reports after a block: that it was the last. -/
def Transfer.blockReport? (t : Transfer) : Option Notice :=
  if t.afterBlock.active then none else some (.transferFinished t.afterBlock)

/-- What a stop of the processor makes the clock report: that the rate changes. -/
def Speed.report? (s : Speed) : Option Notice :=
  if s.armed then some (.rateChanged s.rate.other) else none

/-- What a step of the processor from `address` makes it report: that it met an opcode without a
meaning. -/
def Outcome.report? (o : Outcome) (address : UInt16) : Option Notice :=
  match o with
  | .executed (.illegal opcode) _ => some (.illegalOpcode opcode address)
  | _ => none

end GameBoy
