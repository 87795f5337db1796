import GameBoy.Memory.Mask

/-!
# The buttons

Eight buttons pull eight lines low. A program selects the group of the four directions, the group of
the other four, both or neither, and reads four lines: each is low if it is low in a selected group.

* `Buttons.press`, `Buttons.release`: a press of a button that is not held requests an interrupt.
* `Buttons.read`, `Buttons.write`: the register at `0xff00`.
-/

namespace GameBoy

/-- The eight buttons. -/
inductive Button
  | right
  | left
  | up
  | down
  | a
  | b
  | select
  | start
deriving DecidableEq

namespace Button

/-- All buttons in the order of their numbers. -/
def all : List Button := [.right, .left, .up, .down, .a, .b, .select, .start]

/-- The button with a given number; numbers above seven have none. -/
def ofIndex? (i : UInt8) : Option Button := all[i.toNat]?

/-- The number of a button: its line, the directions first. -/
def index : Button → Nat
  | .right => 0
  | .left => 1
  | .up => 2
  | .down => 3
  | .a => 4
  | .b => 5
  | .select => 6
  | .start => 7

/-- The byte with only the button's bit set. -/
def mask (key : Button) : UInt8 := 1 <<< UInt8.ofNat key.index

/-- Different buttons have different bits. -/
theorem mask_and_mask (key other : Button) :
    key.mask &&& other.mask = if key = other then other.mask else 0 := by
  cases key <;> cases other <;> rfl

theorem not_mask_and_mask (key other : Button) :
    ~~~key.mask &&& other.mask = if key = other then 0 else other.mask := by
  cases key <;> cases other <;> rfl

theorem mask_ne_zero (key : Button) : key.mask ≠ 0 := by cases key <;> decide

/-- What a button is called. -/
def name : Button → String
  | .right => "Right"
  | .left => "Left"
  | .up => "Up"
  | .down => "Down"
  | .a => "A"
  | .b => "B"
  | .select => "Select"
  | .start => "Start"

end Button

/-- The lines of the buttons and the selection of groups. -/
structure Buttons where
  /-- A button's bit is 0 while it is held. -/
  lines : UInt8 := 0xff
  /-- Bit 4 is 0 when the directions are selected, bit 5 when the others are. -/
  selection : UInt8 := 0x30

namespace Buttons

/-- Whether a button is held. -/
def isHeld (s : Buttons) (key : Button) : Bool := s.lines &&& key.mask == 0

/-- A button goes down. The flag says whether this requests an interrupt. -/
def press (s : Buttons) (key : Button) : Buttons × Bool :=
  ({ s with lines := s.lines &&& ~~~key.mask }, !s.isHeld key)

/-- A button goes up. -/
def release (s : Buttons) (key : Button) : Buttons := { s with lines := s.lines ||| key.mask }

/-- A pressed button is held, and the others are as before. -/
@[simp] theorem isHeld_press (s : Buttons) (key other : Button) :
    (s.press key).1.isHeld other = (s.isHeld other || key == other) := by
  by_cases h : key = other
  · subst h
    simp [isHeld, press, UInt8.and_assoc]
  · simp [isHeld, press, UInt8.and_assoc, Button.not_mask_and_mask, h]

/-- A released button is not held, and the others are as before. -/
@[simp] theorem isHeld_release (s : Buttons) (key other : Button) :
    (s.release key).isHeld other = (s.isHeld other && key != other) := by
  by_cases h : key = other
  · subst h
    simp [isHeld, release, or_and_mask, Button.mask_ne_zero]
  · simp [isHeld, release, or_and_mask, Button.mask_and_mask, h]

/-- What a program reads: the four lines, the selection, and two bits that are always set. -/
def read (s : Buttons) : UInt8 :=
  let directions := if s.selection &&& 0x10 = 0 then s.lines &&& 0x0f else 0x0f
  let others := if s.selection &&& 0x20 = 0 then s.lines >>> 4 else 0x0f
  0xc0 ||| s.selection ||| (directions &&& others)

/-- A program's write sets the selection and nothing else. -/
def write (s : Buttons) (v : UInt8) : Buttons := { s with selection := v &&& 0x30 }

end Buttons

end GameBoy
