/-!
# The clock rate

The colour console can run its processor and timer at twice the rate of the rest. A program arms the
change in the register at `0xff4d` and then stops the processor, upon which the rate changes.

* `Speed.switch`: changes the rate if the change is armed, and disarms it.
* `Rate.factor`: how many processor cycles make one cycle of the rest.
-/

namespace GameBoy

/-- The two clock rates. -/
inductive Rate
  | normal
  | double
deriving DecidableEq

namespace Rate

/-- Processor cycles in one cycle of the display. -/
def factor : Rate → Nat
  | .normal => 1
  | .double => 2

theorem factor_pos (r : Rate) : 0 < r.factor := by cases r <;> decide

/-- The rate after a change. -/
def other : Rate → Rate
  | .normal => .double
  | .double => .normal

/-- What a rate is called. -/
def name : Rate → String
  | .normal => "Normal"
  | .double => "Double"

end Rate

/-- The rate in force, and whether a change is armed. -/
structure Speed where
  /-- The rate in force. -/
  rate : Rate := .normal
  /-- Whether the next stop changes it. -/
  armed : Bool := false

namespace Speed

/-- The processor stops: whether the rate changes, and the state afterwards. -/
def switch (s : Speed) : Bool × Speed :=
  if s.armed then (true, { rate := s.rate.other, armed := false }) else (false, s)

/-- What a program reads: bit 7 is the rate, bit 0 the arming, the others are set. -/
def read (s : Speed) : UInt8 :=
  0x7e ||| (if s.rate = .double then 0x80 else 0) ||| (if s.armed then 0x01 else 0)

/-- A program's write: bit 0 arms or disarms. -/
def write (s : Speed) (v : UInt8) : Speed := { s with armed := v &&& 0x01 != 0 }

end Speed

end GameBoy
