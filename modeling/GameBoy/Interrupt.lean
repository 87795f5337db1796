import GameBoy.Memory.Mask

/-!
# Interrupts

Five devices can interrupt the processor. Each has a bit in the request register and an address that
the processor continues at; of several requests the one with the lowest bit is served first.

* `Interrupt.mask`, `Interrupt.vector`: the bit and the address.
* `Interrupt.highest?`: the request that is served first.
* `Requests`: the request register. Devices only ever add to it (`raise`, `∪`); a program replaces
  its five bits (`write`).
-/

namespace GameBoy

/-- The sources of interrupts, in the order of their priority. -/
inductive Interrupt
  /-- The picture is complete: line 144 begins. -/
  | vblank
  /-- A condition selected in the display's status register begins to hold. -/
  | lcdStat
  /-- The timer passes `0xff`. -/
  | timer
  /-- The serial line; nothing in this machine requests it. -/
  | serial
  /-- A button goes down. -/
  | buttons
deriving DecidableEq

namespace Interrupt

/-- All interrupts, the most urgent first. -/
def all : List Interrupt := [.vblank, .lcdStat, .timer, .serial, .buttons]

/-- The number of an interrupt, which is its bit in the request register. -/
def index : Interrupt → Nat
  | .vblank => 0
  | .lcdStat => 1
  | .timer => 2
  | .serial => 3
  | .buttons => 4

/-- The interrupt with a given number. -/
def ofIndex? (i : Nat) : Option Interrupt := all[i]?

/-- The byte with only the interrupt's bit set. -/
def mask (i : Interrupt) : UInt8 := 1 <<< UInt8.ofNat i.index

/-- Different interrupts have different bits. -/
theorem mask_and_mask (i j : Interrupt) : i.mask &&& j.mask = if i = j then j.mask else 0 := by
  cases i <;> cases j <;> rfl

theorem mask_ne_zero (i : Interrupt) : i.mask ≠ 0 := by cases i <;> decide

theorem not_mask_and_mask (i j : Interrupt) :
    ~~~i.mask &&& j.mask = if i = j then 0 else j.mask := by
  cases i <;> cases j <;> rfl

/-- Where the interrupt's handler begins: `0x40`, `0x48` and so on. -/
def vector (i : Interrupt) : UInt16 := (0x0040 : UInt16) ||| UInt16.ofNat i.index <<< 3

/-- The most urgent of the interrupts whose bits are set in `pending`. -/
def highest? (pending : UInt8) : Option Interrupt := all.find? fun i => pending &&& i.mask != 0

/-- The interrupt as a state line names it. -/
def name : Interrupt → String
  | .vblank => "VBlank"
  | .lcdStat => "LCDStat"
  | .timer => "Timer"
  | .serial => "Serial"
  | .buttons => "Joypad"

end Interrupt

/-- A set of requested interrupts, one bit each. -/
structure Requests where
  /-- Bit `i.index` is set when interrupt `i` is requested. -/
  bits : UInt8
deriving DecidableEq

namespace Requests

instance : EmptyCollection Requests where
  emptyCollection := ⟨0⟩

/-- Adds one request. -/
def raise (r : Requests) (i : Interrupt) : Requests := ⟨r.bits ||| i.mask⟩

/-- Takes one request back. -/
def lower (r : Requests) (i : Interrupt) : Requests := ⟨r.bits &&& ~~~i.mask⟩

/-- Adds one request when `on` holds. -/
def raiseIf (r : Requests) (i : Interrupt) (on : Bool) : Requests := if on then r.raise i else r

instance : Union Requests where
  union r s := ⟨r.bits ||| s.bits⟩

/-- Whether an interrupt is requested. -/
def has (r : Requests) (i : Interrupt) : Bool := r.bits &&& i.mask != 0

/-- What a program reads: the three bits without a source are set. -/
def read (r : Requests) : UInt8 := r.bits ||| 0xe0

/-- What a program's write leaves: the five bits that have a source. -/
def write (v : UInt8) : Requests := ⟨v &&& 0x1f⟩

/-- The requested interrupts as a byte of five bits. -/
def pending (r : Requests) : UInt8 := r.bits &&& 0x1f

theorem bits_union (r s : Requests) : (r ∪ s).bits = r.bits ||| s.bits := rfl

theorem bits_empty : (∅ : Requests).bits = 0 := rfl

@[simp] theorem empty_union (r : Requests) : ∅ ∪ r = r :=
  congrArg Requests.mk UInt8.zero_or

@[simp] theorem union_empty (r : Requests) : r ∪ ∅ = r :=
  congrArg Requests.mk UInt8.or_zero

theorem union_assoc (r s t : Requests) : r ∪ s ∪ t = r ∪ (s ∪ t) :=
  congrArg Requests.mk (UInt8.or_assoc ..)

@[simp] theorem has_empty (i : Interrupt) : has ∅ i = false := by
  simp [has, bits_empty]

/-- An interrupt is requested after a union if it was requested in either set. -/
@[simp] theorem has_union (r s : Requests) (i : Interrupt) :
    (r ∪ s).has i = (r.has i || s.has i) := by
  simp only [has, bits_union, or_and_mask, bne]
  cases h : r.bits &&& i.mask == 0 <;> simp_all [beq_iff_eq]

/-- Raising one request adds that one and no other. -/
@[simp] theorem has_raise (r : Requests) (i j : Interrupt) :
    (r.raise i).has j = (r.has j || i == j) := by
  by_cases h : i = j
  · subst h
    simp [has, raise, or_and_mask, bne, Interrupt.mask_ne_zero]
  · simp [has, raise, or_and_mask, Interrupt.mask_and_mask, h]

/-- Raising a request under a condition adds it under that condition. -/
theorem has_raiseIf (r : Requests) (i j : Interrupt) (on : Bool) :
    (r.raiseIf i on).has j = (r.has j || on && i == j) := by
  cases on <;> simp [raiseIf]

/-- Taking one request back leaves the others. -/
@[simp] theorem has_lower (r : Requests) (i j : Interrupt) :
    (r.lower i).has j = (r.has j && i != j) := by
  by_cases h : i = j
  · subst h
    simp [has, lower, UInt8.and_assoc]
  · simp [has, lower, UInt8.and_assoc, Interrupt.not_mask_and_mask, h]

/-- Raising one request is joining the set of that one. -/
theorem raise_eq_union (r : Requests) (i : Interrupt) : r.raise i = r ∪ raise ∅ i :=
  congrArg (fun b => Requests.mk (r.bits ||| b)) UInt8.zero_or.symm

end Requests

end GameBoy
