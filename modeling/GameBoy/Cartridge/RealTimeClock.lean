/-!
# The clock in a cartridge

A clock that counts seconds, minutes, hours and 512 days. It can be stopped, and remembers that the
days have run over.

* `RealTimeClock.tick`: a second passes.
* `RealTimeClock.read`, `RealTimeClock.write`: the five registers. Values out of range are reduced.
-/

namespace GameBoy

/-- The time since the clock was set. -/
structure RealTimeClock where
  second : Fin 60 := 0
  minute : Fin 60 := 0
  hour : Fin 24 := 0
  day : Fin 512 := 0
  /-- Whether the clock is stopped. -/
  halted : Bool := false
  /-- Whether the days have run over. -/
  overflow : Bool := false
deriving DecidableEq

namespace RealTimeClock

/-- The clock when nobody has set it yet. -/
def zero : RealTimeClock := {}

/-- The registers of the clock. -/
inductive Register
  | second
  | minute
  | hour
  /-- The low eight bits of the day. -/
  | dayLow
  /-- The ninth bit of the day, the stop and the overflow. -/
  | dayHigh
deriving DecidableEq

/-- The register that a number from `0x08` to `0x0c` selects. -/
def Register.ofNumber? : Nat → Option Register
  | 0x08 => some .second
  | 0x09 => some .minute
  | 0x0a => some .hour
  | 0x0b => some .dayLow
  | 0x0c => some .dayHigh
  | _ => none

/-- A day passes. -/
def tickDay (t : RealTimeClock) : RealTimeClock :=
  { t with day := t.day + 1, overflow := t.overflow || t.day + 1 == 0 }

/-- An hour passes. -/
def tickHour (t : RealTimeClock) : RealTimeClock :=
  let t := { t with hour := t.hour + 1 }
  if t.hour = 0 then t.tickDay else t

/-- A minute passes. -/
def tickMinute (t : RealTimeClock) : RealTimeClock :=
  let t := { t with minute := t.minute + 1 }
  if t.minute = 0 then t.tickHour else t

/-- A second passes. -/
def tick (t : RealTimeClock) : RealTimeClock :=
  let t := { t with second := t.second + 1 }
  if t.second = 0 then t.tickMinute else t

/-- The number that a program reads; the five bits of the last register that mean nothing are
set. -/
def read (t : RealTimeClock) : Register → UInt8
  | .second => UInt8.ofNat t.second
  | .minute => UInt8.ofNat t.minute
  | .hour => UInt8.ofNat t.hour
  | .dayLow => UInt8.ofNat t.day
  | .dayHigh =>
    0x3e ||| UInt8.ofNat (t.day / 256) ||| (if t.halted then 0x40 else 0) |||
      (if t.overflow then 0x80 else 0)

/-- A program sets a register. -/
def write (t : RealTimeClock) (r : Register) (v : UInt8) : RealTimeClock :=
  match r with
  | .second => { t with second := Fin.ofNat 60 v.toNat }
  | .minute => { t with minute := Fin.ofNat 60 v.toNat }
  | .hour => { t with hour := Fin.ofNat 24 v.toNat }
  | .dayLow => { t with day := Fin.ofNat 512 (t.day / 256 * 256 + v.toNat) }
  | .dayHigh =>
    { t with
      day := Fin.ofNat 512 (v.toNat % 2 * 256 + t.day % 256)
      halted := v &&& 0x40 != 0
      overflow := v &&& 0x80 != 0 }

end RealTimeClock

end GameBoy
