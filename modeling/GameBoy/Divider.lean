/-!
# Frequency dividers

A divider counts clock cycles and gives one pulse each time `period` of them have passed, keeping
what is left over for the next call.

* `Divider.advance`: the pulses that some cycles give, and what is kept of them.
* `Divider.count_advance_lt`: what is kept is less than a period.
-/

namespace GameBoy

/-- A counter of clock cycles that gives a pulse every `period` of them. -/
structure Divider where
  /-- How many cycles make a pulse. -/
  period : Nat
  /-- Cycles since the last pulse. -/
  count : Nat := 0

namespace Divider

/-- Lets `cycles` pass: the number of pulses, and the divider afterwards. -/
def advance (d : Divider) (cycles : Nat) : Nat × Divider :=
  ((d.count + cycles) / d.period, { d with count := (d.count + cycles) % d.period })

/-- Forgets the cycles since the last pulse. -/
def reset (d : Divider) : Divider := { d with count := 0 }

theorem count_advance_lt (d : Divider) (cycles : Nat) (h : 0 < d.period) :
    (d.advance cycles).2.count < (d.advance cycles).2.period :=
  Nat.mod_lt _ h

end Divider

end GameBoy
