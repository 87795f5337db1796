import GameBoy.Divider
import GameBoy.Memory.Word

/-!
# The timer

A 16-bit counter runs with the processor's clock; a program sees its upper byte. Beside it an 8-bit
timer, when switched on, counts the pulses of a divider whose period the control register selects.
After `0xff` it starts again at the reload value and requests an interrupt.

* `Timer.advance`: time passes.
* `Timer.read`, `Timer.write`: the four registers. Clearing the counter, or choosing another period,
  also empties the divider.
-/

namespace GameBoy

/-- The timer's state. -/
structure Timer where
  /-- The 16-bit counter of cycles. -/
  counter : UInt16 := 0
  /-- The timer itself. -/
  value : UInt8 := 0
  /-- What the timer starts again at. -/
  reload : UInt8 := 0
  /-- Bit 2 switches the timer on, bits 0 and 1 select the period. -/
  control : UInt8 := 0
  /-- Turns cycles into the pulses that the timer counts. -/
  divider : Divider := { period := 1024 }

namespace Timer

/-- The registers a program sees. -/
inductive Register
  /-- The counter's upper byte, at `0xff04`. -/
  | counter
  /-- The timer, at `0xff05`. -/
  | value
  /-- The reload value, at `0xff06`. -/
  | reload
  /-- The control register, at `0xff07`. -/
  | control
deriving DecidableEq

/-- The register at an address. -/
def Register.ofAddress? (a : UInt16) : Option Register :=
  if a = 0xff04 then some .counter
  else if a = 0xff05 then some .value
  else if a = 0xff06 then some .reload
  else if a = 0xff07 then some .control
  else none

/-- The period that the low two bits of a control byte select. -/
def periodOf (control : UInt8) : Nat :=
  if control &&& 0x03 = 0 then 1024
  else if control &&& 0x03 = 1 then 16
  else if control &&& 0x03 = 2 then 64
  else 256

theorem periodOf_pos (control : UInt8) : 0 < periodOf control := by
  unfold periodOf
  split
  · decide
  · split
    · decide
    · split <;> decide

/-- Whether the timer counts; the counter always does. -/
def enabled (t : Timer) : Bool := t.control &&& 0x04 != 0

/-- The timer counts one pulse. The flag says whether it has started again. -/
def pulse (s : Timer × Bool) : Timer × Bool :=
  if s.1.value = 0xff then ({ s.1 with value := s.1.reload }, true)
  else ({ s.1 with value := s.1.value + 1 }, s.2)

/-- The counter runs for `cycles`. -/
def count (t : Timer) (cycles : Nat) : Timer :=
  { t with counter := t.counter + UInt16.ofNat cycles }

/-- Lets `cycles` pass: the timer afterwards, and whether it requests an interrupt. -/
def advance (t : Timer) (cycles : Nat) : Timer × Bool :=
  if t.enabled then
    Nat.repeat pulse (t.divider.advance cycles).1
      ({ t.count cycles with divider := (t.divider.advance cycles).2 }, false)
  else (t.count cycles, false)

/-- What a program reads; the control register's five unused bits are set. -/
def read (t : Timer) : Register → UInt8
  | .counter => highByte t.counter
  | .value => t.value
  | .reload => t.reload
  | .control => t.control ||| 0xf8

/-- A program's write. Any value written to the counter clears it. -/
def write (t : Timer) (r : Register) (v : UInt8) : Timer :=
  match r with
  | .counter => { t with counter := 0, divider := t.divider.reset }
  | .value => { t with value := v }
  | .reload => { t with reload := v }
  | .control =>
    let control := v &&& 0x07
    let divider :=
      if t.control &&& 0x03 = control &&& 0x03 then t.divider
      else { period := periodOf control }
    { t with control, divider }

@[simp] theorem counter_pulse (s : Timer × Bool) : (pulse s).1.counter = s.1.counter := by
  unfold pulse
  split <;> rfl

@[simp] theorem counter_pulses (n : Nat) (s : Timer × Bool) :
    (Nat.repeat pulse n s).1.counter = s.1.counter := by
  induction n with
  | zero => rfl
  | succ n ih => rw [Nat.repeat, counter_pulse, ih]

/-- The counter counts every cycle, whether or not the timer is on. -/
theorem counter_advance (t : Timer) (cycles : Nat) :
    (t.advance cycles).1.counter = t.counter + UInt16.ofNat cycles := by
  unfold advance
  split
  · rw [counter_pulses]
    rfl
  · rfl

end Timer

end GameBoy
