import GameBoy.Interrupt
import GameBoy.Video.Basic

/-!
# Status and its interrupt

A program selects conditions on the phase and on the line. When one of the selected conditions
begins to hold, an interrupt is requested; while any of them holds, it is not requested again for
that one.

* `Video.holding`: the selected conditions that hold now.
* `Video.updateStatus`: compares them with those that held before.
* `Video.status`: the status register.
-/

namespace GameBoy

/-- The bit of the condition on a phase. -/
def Phase.conditionBit : Phase → UInt8
  | .hblank => 0x08
  | .vblank => 0x10
  | .search => 0x20
  | .transfer => 0x00

namespace Video

/-- Whether the current line is the compared one. -/
def linesAgree (v : Video) : Bool := v.line == v.lineCompare.toNat

/-- The selected conditions that hold now. -/
def holding (v : Video) : UInt8 :=
  (v.selected &&& v.phase.conditionBit) ||| (if v.linesAgree then v.selected &&& 0x40 else 0)

/-- Looks at the conditions again. The flag says whether one began to hold. -/
def updateStatus (v : Video) : Video × Bool :=
  if v.control.isOn then ({ v with met := v.holding }, v.holding &&& ~~~v.met != 0)
  else ({ v with met := 0 }, false)

/-- What a program reads: the selected conditions, whether the lines agree, and the phase. -/
def status (v : Video) : UInt8 :=
  0x80 ||| v.selected ||| (if v.linesAgree then 0x04 else 0) ||| v.phase.number

end Video

end GameBoy
