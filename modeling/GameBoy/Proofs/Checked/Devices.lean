import GameBoy.Buttons
import GameBoy.Proofs.Checked.Operations
import GameBoy.Proofs.Devices
import GameBoy.Speed
import GameBoy.WorkRam

/-!
# The small devices never stop

Each device as it is reached by addresses: it knows its own and stops at any other. Clocks count in
words of 32 bits, the registers of the clock in the cartridge in bytes.

* `WorkRam.checkedRead_eq`, `Timer.checkedRead_eq` and so on: at its own addresses a device answers.
* `Timer.checkedAdvance_eq`: the timer counts without overflow.
* `Cartridge.checkedRead_eq`: every address of a cartridge falls on a byte that exists, or on none.
* `Cartridge.checkedAdvance_eq`: no register of the clock overflows.
-/

namespace GameBoy

open Checked

/-! ## Buttons and clock rate -/

namespace Buttons

def checkedRead (s : Buttons) (a : UInt16) : Option UInt8 := do
  ensure (a = 0xff00)
  return s.read

def checkedWrite (s : Buttons) (a : UInt16) (v : UInt8) : Option Buttons := do
  ensure (a = 0xff00)
  return s.write v

def checkedPress (s : Buttons) (key : Button) : Option (Buttons × Bool) := do
  shift 8 key.index
  return s.press key

def checkedRelease (s : Buttons) (key : Button) : Option Buttons := do
  shift 8 key.index
  return s.release key

theorem index_lt (key : Button) : key.index < 8 := by cases key <;> decide

theorem checkedPress_eq (s : Buttons) (key : Button) : s.checkedPress key = some (s.press key) := by
  simp [checkedPress, index_lt]

theorem checkedRelease_eq (s : Buttons) (key : Button) :
    s.checkedRelease key = some (s.release key) := by
  simp [checkedRelease, index_lt]

end Buttons

namespace Speed

def checkedRead (s : Speed) (a : UInt16) : Option UInt8 := do
  ensure (a = 0xff4d)
  return s.read

def checkedWrite (s : Speed) (a : UInt16) (v : UInt8) : Option Speed := do
  ensure (a = 0xff4d)
  return s.write v

end Speed

/-! ## Dividers and the timer -/

namespace Divider

/-- Cycles are counted in words of 32 bits. -/
def checkedAdvance (d : Divider) (cycles : Nat) : Option (Nat × Divider) := do
  let n ← add 32 d.count cycles
  let pulses ← div n d.period
  let count ← mod n d.period
  return (pulses, { d with count })

theorem checkedAdvance_eq {d : Divider} {cycles : Nat} (hperiod : d.period ≠ 0)
    (hfits : d.count + cycles < 2 ^ 32) : d.checkedAdvance cycles = some (d.advance cycles) := by
  unfold checkedAdvance
  rw [add_of_lt hfits]
  simp [hperiod, advance]

end Divider

namespace Timer

/-- A register; any other address is a mistake. -/
def checkedRead (t : Timer) (a : UInt16) : Option UInt8 := (Register.ofAddress? a).map t.read

def checkedWrite (t : Timer) (a : UInt16) (v : UInt8) : Option Timer :=
  (Register.ofAddress? a).map fun r => t.write r v

def checkedAdvance (t : Timer) (cycles : Nat) : Option (Timer × Bool) := do
  if t.enabled then
    let (pulses, divider) ← t.divider.checkedAdvance cycles
    return Nat.repeat pulse pulses ({ t.count cycles with divider }, false)
  else return (t.count cycles, false)

theorem checkedRead_eq {a : UInt16} {r : Register} (h : Register.ofAddress? a = some r)
    (t : Timer) : t.checkedRead a = some (t.read r) := by
  rw [checkedRead, h]
  rfl

theorem checkedWrite_eq {a : UInt16} {r : Register} (h : Register.ofAddress? a = some r)
    (t : Timer) (v : UInt8) : t.checkedWrite a v = some (t.write r v) := by
  rw [checkedWrite, h]
  rfl

/-- The timer counts without overflow, as long as the cycles leave room for a period. -/
theorem checkedAdvance_eq {t : Timer} (h : t.Valid) {cycles : Nat}
    (hfits : cycles + 1024 < 2 ^ 32) : t.checkedAdvance cycles = some (t.advance cycles) := by
  have hcount := h.count_lt
  have hperiod := h.period_le
  have hadvance : t.divider.checkedAdvance cycles = some (t.divider.advance cycles) :=
    Divider.checkedAdvance_eq (by omega) (by omega)
  unfold checkedAdvance advance
  split
  · rw [hadvance]
    rfl
  · rfl

end Timer

/-! ## Work RAM -/

namespace WorkRam

/-- The number of the cell at an address. -/
def checkedIndex (w : WorkRam) (a : UInt16) : Option Nat :=
  if 0xc000 ≤ a.toNat ∧ a.toNat < 0xd000 then sub a.toNat 0xc000
  else if 0xd000 ≤ a.toNat ∧ a.toNat < 0xe000 then do
    let offset ← sub a.toNat 0xd000
    let start ← mul 32 0x1000 w.bank
    add 32 offset start
  else if 0xe000 ≤ a.toNat ∧ a.toNat < 0xf000 then sub a.toNat 0xe000
  else if 0xf000 ≤ a.toNat ∧ a.toNat < 0xfe00 then do
    let offset ← sub a.toNat 0xf000
    let start ← mul 32 0x1000 w.bank
    add 32 offset start
  else none

def checkedRead (w : WorkRam) (a : UInt16) : Option UInt8 := do
  if a = 0xff70 then return 0xf8 ||| UInt8.ofNat w.bank
  else
    let i ← w.checkedIndex a
    w.cells.fetch i

def checkedWrite (w : WorkRam) (a : UInt16) (v : UInt8) : Option WorkRam := do
  if a = 0xff70 then return w.selectBank v
  else
    let i ← w.checkedIndex a
    let cells ← w.cells.store i v
    return { w with cells }

theorem val_cell_low (w : WorkRam) {offset : Fin 0x2000} (h : offset.val < 0x1000) :
    (w.cell offset).val = offset.val := by
  rw [cell, dif_pos h]

theorem val_cell_high (w : WorkRam) {offset : Fin 0x2000} (h : ¬ offset.val < 0x1000) :
    (w.cell offset).val = 0x1000 * w.bank + (offset - 0x1000) := by
  rw [cell, dif_neg h]

theorem bankedIndex_eq (w : WorkRam) {a base : Nat} (h : base ≤ a) (hlt : a < base + 0x1000) :
    (do
      let offset ← sub a base
      let start ← mul 32 0x1000 w.bank
      add 32 offset start) = some (a - base + 0x1000 * w.bank) := by
  have hbank := w.bank.isLt
  rw [sub_of_le h, mul_of_lt (by omega)]
  exact add_of_lt (by omega)

/-- In the window and where it is seen again, the index is that of the cell behind the offset. -/
theorem checkedIndex_eq (w : WorkRam) {a : UInt16} (h : 0xc000 ≤ a.toNat ∧ a.toNat < 0xfe00) :
    w.checkedIndex a = some (w.cell (offset8K a)).val := by
  have hoffset : (offset8K a).val = a.toNat % 0x2000 := rfl
  unfold checkedIndex
  split
  · rw [sub_of_le (by omega), val_cell_low w (by omega), hoffset, Option.some.injEq]
    omega
  · split
    · rw [bankedIndex_eq w (by omega) (by omega), val_cell_high w (by omega), hoffset,
        Option.some.injEq]
      omega
    · split
      · rw [sub_of_le (by omega), val_cell_low w (by omega), hoffset, Option.some.injEq]
        omega
      · rw [if_pos (by omega), bankedIndex_eq w (by omega) (by omega),
          val_cell_high w (by omega), hoffset, Option.some.injEq]
        omega

theorem ne_bankAddress {a : UInt16} (h : 0xc000 ≤ a.toNat ∧ a.toNat < 0xfe00) : a ≠ 0xff70 := by
  rintro rfl
  exact absurd h.2 (by decide)

theorem checkedRead_eq (w : WorkRam) {a : UInt16} (h : 0xc000 ≤ a.toNat ∧ a.toNat < 0xfe00) :
    w.checkedRead a = some (w.read (.cell (offset8K a))) := by
  rw [checkedRead, if_neg (ne_bankAddress h), checkedIndex_eq w h]
  exact w.cells.fetch_of_lt _

theorem checkedWrite_eq (w : WorkRam) {a : UInt16} (h : 0xc000 ≤ a.toNat ∧ a.toNat < 0xfe00)
    (v : UInt8) : w.checkedWrite a v = some (w.write (.cell (offset8K a)) v) := by
  rw [checkedWrite, if_neg (ne_bankAddress h), checkedIndex_eq w h]
  simp only [Option.bind_eq_bind, Option.bind_some,
    w.cells.store_of_lt (w.cell (offset8K a)).isLt]
  rfl

end WorkRam

/-! ## Transfers -/

namespace Transfer

/-- A register; any other address is a mistake. -/
def checkedRead (t : Transfer) (a : UInt16) : Option UInt8 := (Register.ofAddress? a).map t.read

def checkedWrite (t : Transfer) (a : UInt16) (v : UInt8) : Option Transfer :=
  (Register.ofAddress? a).map fun r => t.write r v

theorem checkedRead_eq {a : UInt16} {r : Register} (h : Register.ofAddress? a = some r)
    (t : Transfer) : t.checkedRead a = some (t.read r) := by
  rw [checkedRead, h]
  rfl

theorem checkedWrite_eq {a : UInt16} {r : Register} (h : Register.ofAddress? a = some r)
    (t : Transfer) (v : UInt8) : t.checkedWrite a v = some (t.write r v) := by
  rw [checkedWrite, h]
  rfl

/-- Of the blocks that remain one is taken away only if there is one. -/
def checkedAfterBlock (t : Transfer) : Option Transfer := do
  let t :=
    { t with source := t.source + 0x10, target := 0x8000 ||| ((t.target + 0x10) &&& 0x1ff0) }
  if t.remaining = 0 then return { t with remaining := 0x7f, active := false }
  else
    let remaining ← sub t.remaining.toNat 1
    return { t with remaining := UInt8.ofNat remaining }

theorem checkedAfterBlock_eq (t : Transfer) : t.checkedAfterBlock = some t.afterBlock := by
  unfold checkedAfterBlock afterBlock
  simp only
  split
  · rfl
  · rename_i hne
    have hpos : 1 ≤ t.remaining.toNat :=
      Nat.pos_iff_ne_zero.2 fun hzero => hne (UInt8.toNat_inj.1 hzero)
    have hone : UInt8.ofNat (t.remaining.toNat - 1) = t.remaining - 1 := by
      apply UInt8.toNat_inj.1
      have hle : 1 ≤ t.remaining := UInt8.le_iff_toNat_le.2 hpos
      rw [UInt8.toNat_sub_of_le _ _ hle, UInt8.toNat_ofNat']
      change _ = t.remaining.toNat - 1
      have := t.remaining.toNat_lt
      exact Nat.mod_eq_of_lt (by omega)
    rw [sub_of_le hpos]
    simp only [Option.bind_eq_bind, Option.bind_some, hone]
    rfl

end Transfer

/-! ## The cartridge's clock -/

namespace RealTimeClock

/-- The fields are bytes, the days a word of 16 bits. -/
def checkedTick (t : RealTimeClock) : Option RealTimeClock := do
  let next ← add 8 t.second 1
  let second ← wrap 60 next
  let t := { t with second }
  if second.val ≠ 0 then return t
  let next ← add 8 t.minute 1
  let minute ← wrap 60 next
  let t := { t with minute }
  if minute.val ≠ 0 then return t
  let next ← add 8 t.hour 1
  let hour ← wrap 24 next
  let t := { t with hour }
  if hour.val ≠ 0 then return t
  let next ← add 16 t.day 1
  let day ← wrap 512 next
  return { t with day, overflow := t.overflow || 0x1ff < next }

/-- The days run over when nine bits do not hold them. -/
theorem runsOver_iff (day : Fin 512) : decide (0x1ff < day.val + 1) = (day + 1 == 0) := by
  have hnext : (day + 1).val = (day.val + 1) % 512 := rfl
  have hlt := day.isLt
  rw [Bool.eq_iff_iff, decide_eq_true_eq, beq_iff_eq, Fin.ext_iff, hnext]
  show _ ↔ (day.val + 1) % 512 = 0
  omega

/-- No field of the clock overflows. -/
theorem checkedTick_eq (t : RealTimeClock) : t.checkedTick = some t.tick := by
  have hsecond : t.second.val + 1 < 2 ^ 8 := by omega
  have hminute : t.minute.val + 1 < 2 ^ 8 := by omega
  have hhour : t.hour.val + 1 < 2 ^ 8 := by omega
  have hday : t.day.val + 1 < 2 ^ 16 := by omega
  unfold checkedTick tick tickMinute tickHour tickDay
  simp only [add_of_lt hsecond, add_of_lt hminute, add_of_lt hhour, add_of_lt hday,
    wrap_add_one, Option.bind_eq_bind, Option.bind_some, ne_eq, Fin.val_eq_zero_iff, runsOver_iff]
  split_ifs <;> rfl

end RealTimeClock

namespace Controller

def checkedAdvance (c : Controller) (cycles : Nat) : Option Controller :=
  match c with
  | .mbc3 r => do
    let (pulses, seconds) ← r.seconds.checkedAdvance cycles
    if r.clock.halted then return .mbc3 { r with seconds }
    let clock ← repeated RealTimeClock.checkedTick pulses r.clock
    return .mbc3 { r with seconds, clock }
  | _ => some c

theorem checkedAdvance_eq {c : Controller} {cycles : Nat}
    (h : ∀ d, c.seconds? = some d →
      d.period = Cartridge.cyclesPerSecond ∧ d.count < Cartridge.cyclesPerSecond)
    (hfits : cycles + Cartridge.cyclesPerSecond < 2 ^ 32) :
    c.checkedAdvance cycles = some (c.advance cycles) := by
  cases c with
  | mbc3 r =>
    obtain ⟨hperiod, hcount⟩ := h r.seconds rfl
    simp only [Cartridge.cyclesPerSecond] at hperiod hcount hfits
    have hseconds : r.seconds.checkedAdvance cycles = some (r.seconds.advance cycles) :=
      Divider.checkedAdvance_eq (by omega) (by omega)
    have hclock := (repeated_eq (P := fun _ => True) (fun t _ => t.checkedTick_eq)
      (fun _ _ => trivial) (r.seconds.advance cycles).1 (a := r.clock) trivial).1
    simp only [checkedAdvance, hseconds, hclock, Option.bind_eq_bind, Option.bind_some, advance]
    split <;> rfl
  | _ => rfl

end Controller

namespace Cartridge

def checkedAdvance (c : Cartridge) (cycles : Nat) : Option Cartridge := do
  let controller ← c.controller.checkedAdvance cycles
  return { c with controller }

/-- The clock counts without overflow, as long as the cycles leave room for a second. -/
theorem checkedAdvance_eq {c : Cartridge} (h : c.Valid) {cycles : Nat}
    (hfits : cycles + cyclesPerSecond < 2 ^ 32) :
    c.checkedAdvance cycles = some (c.advance cycles) := by
  unfold checkedAdvance
  rw [Controller.checkedAdvance_eq h.second hfits]
  rfl

/-! ## Cartridges -/

/-- The byte at an offset in a bank of read-only memory. -/
def checkedRomByte (c : Cartridge) (bank offset : Nat) : Option UInt8 := do
  let bank ← mod bank (bankCount c.rom Header.romBankSize)
  let start ← mul 32 bank Header.romBankSize
  let i ← add 32 start offset
  fetchByte c.rom i

/-- The number of the byte at an offset in a bank of external memory. -/
def checkedRamIndex (c : Cartridge) (bank offset : Nat) : Option Nat := do
  let bank ← mod bank (bankCount c.ram Header.ramBankSize)
  let start ← mul 32 bank Header.ramBankSize
  add 32 start offset

def checkedRamByte (c : Cartridge) (bank offset : Nat) : Option UInt8 := do
  let i ← c.checkedRamIndex bank offset
  if i < c.ram.size then fetchByte c.ram i else return 0xff

def checkedSetRam (c : Cartridge) (bank offset : Nat) (v : UInt8) : Option Cartridge := do
  let i ← c.checkedRamIndex bank offset
  if i < c.ram.size then
    let _ ← fetchByte c.ram i
    return { c with ram := withByte c.ram i v }
  else return c

def checkedRead (c : Cartridge) (a : UInt16) : Option UInt8 := do
  if a < 0x4000 then c.checkedRomByte c.controller.lowBank a.toNat
  else if a < 0x8000 then
    let offset ← sub a.toNat 0x4000
    c.checkedRomByte c.controller.highBank offset
  else if isExternal a then
    let offset ← sub a.toNat 0xa000
    match c.controller.external with
    | .closed => return 0xff
    | .bank n => c.checkedRamByte n offset
    | .halves =>
      let b ← c.checkedRamByte 0 (halfIndex offset)
      return 0xf0 ||| b
    | .clock r => return c.controller.readClock r
  else return 0xff

def checkedWrite (c : Cartridge) (a : UInt16) (v : UInt8) : Option Cartridge := do
  if a < 0x8000 then return { c with controller := c.controller.command a v }
  else if isExternal a then
    let offset ← sub a.toNat 0xa000
    match c.controller.external with
    | .closed => return c
    | .bank n => c.checkedSetRam n offset v
    | .halves => c.checkedSetRam 0 (halfIndex offset) (v &&& 0x0f)
    | .clock r => return { c with controller := c.controller.writeClock r v }
  else return c

theorem bankCount_ne_zero (b : ByteArray) (bankSize : Nat) : bankCount b bankSize ≠ 0 :=
  Nat.ne_of_gt (Nat.lt_of_lt_of_le Nat.one_pos (Nat.le_max_right ..))

/-- A bank that exists begins where the bytes do, or ends before they do. -/
theorem bank_start_le (b : ByteArray) (bankSize bank : Nat) :
    bank % bankCount b bankSize = 0 ∨
      bank % bankCount b bankSize * bankSize + bankSize ≤ b.size := by
  have hlt := Nat.mod_lt bank (Nat.pos_of_ne_zero (bankCount_ne_zero b bankSize))
  rcases Nat.eq_zero_or_pos (bank % bankCount b bankSize) with hzero | hnonzero
  · exact .inl hzero
  · refine .inr ?_
    have hcount : bank % bankCount b bankSize + 1 ≤ b.size / bankSize := by
      rw [bankCount] at hlt hnonzero ⊢
      omega
    calc bank % bankCount b bankSize * bankSize + bankSize
      _ = (bank % bankCount b bankSize + 1) * bankSize := (Nat.succ_mul ..).symm
      _ ≤ b.size / bankSize * bankSize := Nat.mul_le_mul_right bankSize hcount
      _ ≤ b.size := Nat.div_mul_le_self ..

/-- Read-only memory has a byte at each offset in each bank. -/
theorem checkedRomByte_eq {c : Cartridge} (h : c.Valid) (bank : Nat) {offset : Nat}
    (hoffset : offset < 0x4000) : c.checkedRomByte bank offset = some (c.romByte bank offset) := by
  have htwo := h.two_banks
  have hle := h.rom_le
  have hstart := bank_start_le c.rom Header.romBankSize bank
  unfold checkedRomByte
  rw [mod_of_ne (bankCount_ne_zero _ _)]
  simp only [Option.bind_eq_bind, Option.bind_some]
  generalize hb : bank % bankCount c.rom Header.romBankSize = found at hstart
  simp only [Header.romBankSize] at htwo hstart
  have hlt : found * Header.romBankSize + offset < c.rom.size := by
    simp only [Header.romBankSize]
    rcases hstart with rfl | hstart <;> omega
  have hfits : found * Header.romBankSize + offset < 2 ^ 32 := by omega
  have hmul : found * Header.romBankSize < 2 ^ 32 := Nat.lt_of_le_of_lt (Nat.le_add_right ..) hfits
  rw [mul_of_lt hmul]
  simp only [Option.bind_some]
  rw [add_of_lt hfits]
  simp only [Option.bind_some]
  rw [fetchByte_of_lt hlt, romByte, hb]

theorem checkedRamIndex_eq {c : Cartridge} (h : c.Valid) (bank : Nat) {offset : Nat}
    (hoffset : offset < 0x2000) :
    c.checkedRamIndex bank offset = some (c.ramIndex bank offset) := by
  have hle := h.ram_le
  have hstart := bank_start_le c.ram Header.ramBankSize bank
  unfold checkedRamIndex
  rw [mod_of_ne (bankCount_ne_zero _ _)]
  simp only [Option.bind_eq_bind, Option.bind_some]
  generalize hb : bank % bankCount c.ram Header.ramBankSize = found at hstart
  simp only [Header.ramBankSize] at hstart
  have hlt : found * Header.ramBankSize + offset < 2 ^ 32 := by
    simp only [Header.ramBankSize]
    rcases hstart with rfl | hstart <;> omega
  rw [mul_of_lt (by omega)]
  simp only [Option.bind_some]
  rw [add_of_lt hlt, ramIndex, hb]

theorem checkedRamByte_eq {c : Cartridge} (h : c.Valid) (bank : Nat) {offset : Nat}
    (hoffset : offset < 0x2000) :
    c.checkedRamByte bank offset = some (byteAt c.ram (c.ramIndex bank offset)) := by
  unfold checkedRamByte
  rw [checkedRamIndex_eq h bank hoffset]
  simp only [Option.bind_eq_bind, Option.bind_some]
  split
  · exact fetchByte_of_lt ‹_›
  · rw [byteAt, dif_neg ‹_›]
    rfl

theorem checkedSetRam_eq {c : Cartridge} (h : c.Valid) (bank : Nat) {offset : Nat}
    (hoffset : offset < 0x2000) (v : UInt8) :
    c.checkedSetRam bank offset v =
      some { c with ram := withByte c.ram (c.ramIndex bank offset) v } := by
  unfold checkedSetRam
  rw [checkedRamIndex_eq h bank hoffset]
  simp only [Option.bind_eq_bind, Option.bind_some]
  split
  · rw [fetchByte_of_lt ‹_›]
    rfl
  · rw [withByte, dif_neg ‹_›]
    rfl

theorem ramIndex_zero (c : Cartridge) (offset : Nat) : c.ramIndex 0 offset = offset := by
  simp [ramIndex]

theorem halfIndex_lt (offset : Nat) : halfIndex offset < 0x2000 :=
  Nat.lt_of_lt_of_le (Nat.mod_lt _ (by decide)) (by decide)

theorem isExternal_iff (a : UInt16) :
    isExternal a = true ↔ 0xa000 ≤ a.toNat ∧ a.toNat ≤ 0xbfff := by
  simp [isExternal, UInt16.le_iff_toNat_le]

/-- A cartridge answers at every address. -/
theorem checkedRead_eq {c : Cartridge} (h : c.Valid) (a : UInt16) :
    c.checkedRead a = some (c.read a) := by
  have hlow : a < 0x4000 ↔ a.toNat < 0x4000 := lt_iff_toNat_lt rfl
  have hhigh : a < 0x8000 ↔ a.toNat < 0x8000 := lt_iff_toNat_lt rfl
  unfold checkedRead Cartridge.read
  split
  · exact checkedRomByte_eq h _ (hlow.1 ‹_›)
  · rename_i hl
    rw [hlow] at hl
    split
    · rename_i hh
      rw [hhigh] at hh
      have hle : 0x4000 ≤ a.toNat := by omega
      have hlt : a.toNat - 0x4000 < 0x4000 := by omega
      rw [sub_of_le hle, Option.bind_eq_bind, Option.bind_some]
      exact checkedRomByte_eq h _ hlt
    · split
      · rename_i hexternal
        obtain ⟨hstart, hend⟩ := (isExternal_iff a).1 hexternal
        have hlt : a.toNat - 0xa000 < 0x2000 := by omega
        simp only [sub_of_le hstart, Option.bind_eq_bind, Option.bind_some]
        cases c.controller.external with
        | closed => rfl
        | bank n => exact checkedRamByte_eq h _ hlt
        | halves =>
          simp only [checkedRamByte_eq h 0 (halfIndex_lt _), ramIndex_zero]
          rfl
        | clock r => rfl
      · rfl

/-- It takes a write at every address. -/
theorem checkedWrite_eq {c : Cartridge} (h : c.Valid) (a : UInt16) (v : UInt8) :
    c.checkedWrite a v = some (c.write a v) := by
  unfold checkedWrite Cartridge.write
  split
  · rfl
  · split
    · rename_i hexternal
      obtain ⟨hstart, hend⟩ := (isExternal_iff a).1 hexternal
      rw [sub_of_le hstart]
      simp only [Option.bind_eq_bind, Option.bind_some]
      cases c.controller.external with
      | closed => rfl
      | bank n => exact checkedSetRam_eq h _ (by omega) v
      | halves => simp only [checkedSetRam_eq h 0 (halfIndex_lt _), ramIndex_zero]
      | clock r => rfl
    · rfl

end Cartridge

end GameBoy
