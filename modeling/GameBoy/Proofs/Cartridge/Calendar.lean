import GameBoy.Proofs.Cartridge.Clock

/-!
# The clock in a cartridge as one counter

Seconds, minutes, hours and days are the digits of one number that each second increases by one, and
after 512 days it begins again and notes that. A program reads the digits in five registers, and
whatever it writes to them, they stay digits.

* `RealTimeClock.overflow_ticks`: when the days run over.
* `RealTimeClock.Shown`: the registers show the number; `RealTimeClock.shown`: they always do.
* `Cartridge.advance_counts`: the clock after any time, in every course of writes and time.
-/

namespace GameBoy

namespace RealTimeClock

/-! ## The overflow -/

theorem overflow_tickDay (t : RealTimeClock) :
    t.tickDay.overflow = true ↔ t.overflow = true ∨ cycle ≤ t.time + 86400 := by
  have hday := t.day.isLt
  have hhour := t.hour.isLt
  have hminute := t.minute.isLt
  have hsecond := t.second.isLt
  have hlast : t.day + 1 = 0 ↔ cycle ≤ t.time + 86400 := by
    rw [← Fin.val_inj, Fin.val_add]
    simp only [time, cycle]
    omega
  rw [tickDay, Bool.or_eq_true, beq_iff_eq, hlast]

theorem overflow_tickHour (t : RealTimeClock) :
    t.tickHour.overflow = true ↔ t.overflow = true ∨ cycle ≤ t.time + 3600 := by
  rcases ends_or_goes_on t.hour with ⟨hzero, hval⟩ | ⟨hmore, hval⟩
  · simp only [tickHour, hzero, if_true, overflow_tickDay]
    refine or_congr_right ?_
    simp only [time, hval, Fin.val_zero, cycle]
    omega
  · have hlt := time_lt { t with hour := t.hour + 1 }
    have hnot : ¬ cycle ≤ t.time + 3600 := by
      simp only [time, hval, cycle] at hlt ⊢
      omega
    simp only [tickHour, hmore, if_false, hnot, or_false]

theorem overflow_tickMinute (t : RealTimeClock) :
    t.tickMinute.overflow = true ↔ t.overflow = true ∨ cycle ≤ t.time + 60 := by
  rcases ends_or_goes_on t.minute with ⟨hzero, hval⟩ | ⟨hmore, hval⟩
  · simp only [tickMinute, hzero, if_true, overflow_tickHour]
    refine or_congr_right ?_
    simp only [time, hval, Fin.val_zero, cycle]
    omega
  · have hlt := time_lt { t with minute := t.minute + 1 }
    have hnot : ¬ cycle ≤ t.time + 60 := by
      simp only [time, hval, cycle] at hlt ⊢
      omega
    simp only [tickMinute, hmore, if_false, hnot, or_false]

/-- A second passes. -/
theorem overflow_tick (t : RealTimeClock) :
    t.tick.overflow = true ↔ t.overflow = true ∨ cycle ≤ t.time + 1 := by
  rcases ends_or_goes_on t.second with ⟨hzero, hval⟩ | ⟨hmore, hval⟩
  · simp only [tick, hzero, if_true, overflow_tickMinute]
    refine or_congr_right ?_
    simp only [time, hval, Fin.val_zero]
  · have hlt := time_lt { t with second := t.second + 1 }
    have hnot : ¬ cycle ≤ t.time + 1 := by
      simp only [time, hval, cycle] at hlt ⊢
      omega
    simp only [tick, hmore, if_false, hnot, or_false]

theorem overflow_ticks (t : RealTimeClock) (k : Nat) :
    (Nat.repeat tick k t).overflow = true ↔ t.overflow = true ∨ cycle ≤ t.time + k := by
  induction k with
  | zero => exact (or_iff_left (Nat.not_le_of_lt t.time_lt)).symm
  | succ k ih =>
    -- the overflow stays noted after the second in which the number begins again
    have hlast : cycle ≤ t.time + k ∨ cycle ≤ (t.time + k) % cycle + 1 ↔
        cycle ≤ t.time + (k + 1) := by
      simp only [cycle]
      omega
    rw [Nat.repeat, overflow_tick, time_ticks, or_congr_left ih, or_assoc, hlast]

/-! ## The registers -/

theorem toNat_read_dayLow (t : RealTimeClock) : (t.read .dayLow).toNat = t.day.val % 256 :=
  UInt8.toNat_ofNat'

/-- The last register has three bits. -/
theorem read_dayHigh (t : RealTimeClock) :
    t.read .dayHigh = 0x3e ||| (if t.day.val / 256 = 1 then 0x01 else 0x00) |||
      (if t.halted then 0x40 else 0x00) ||| (if t.overflow then 0x80 else 0x00) := by
  have hday := t.day.isLt
  have hbit : UInt8.ofNat (t.day / 256) = if t.day.val / 256 = 1 then 0x01 else 0x00 := by
    rcases (by omega : t.day.val / 256 = 0 ∨ t.day.val / 256 = 1) with h | h <;> rw [h] <;> rfl
  rw [← hbit]
  rfl

/-- The bits of the last register. -/
theorem bits_read_dayHigh (t : RealTimeClock) :
    t.read .dayHigh &&& 0x3e = 0x3e ∧ (t.read .dayHigh).toNat % 2 = t.day.val / 256 ∧
      (t.read .dayHigh &&& 0x40 != 0) = t.halted ∧
      (t.read .dayHigh &&& 0x80 != 0) = t.overflow := by
  have hday := t.day.isLt
  rw [read_dayHigh]
  rcases (by omega : t.day.val / 256 = 0 ∨ t.day.val / 256 = 1) with h | h <;>
    cases t.halted <;> cases t.overflow <;> simp only [h] <;> decide

/-- The registers show digits, and the number that they make; nothing else is in them. -/
structure Shown (t : RealTimeClock) : Prop where
  second_lt : (t.read .second).toNat < 60
  minute_lt : (t.read .minute).toNat < 60
  hour_lt : (t.read .hour).toNat < 24
  unused : t.read .dayHigh &&& 0x3e = 0x3e
  time : t.time =
    ((((t.read .dayHigh).toNat % 2 * 256 + (t.read .dayLow).toNat) * 24 + (t.read .hour).toNat) *
      60 + (t.read .minute).toNat) * 60 + (t.read .second).toNat
  halted : t.halted = (t.read .dayHigh &&& 0x40 != 0)
  overflow : t.overflow = (t.read .dayHigh &&& 0x80 != 0)

theorem shown (t : RealTimeClock) : t.Shown := by
  have hhour := t.hour.isLt
  have hminute := t.minute.isLt
  have hsecond := t.second.isLt
  have hread (n : Nat) (h : n < 60) : (UInt8.ofNat n).toNat = n :=
    UInt8.toNat_ofNat_of_lt' (Nat.lt_trans h (by decide))
  have hs : (t.read .second).toNat = t.second := hread _ hsecond
  have hm : (t.read .minute).toNat = t.minute := hread _ hminute
  have hh : (t.read .hour).toNat = t.hour := hread _ (Nat.lt_trans hhour (by decide))
  obtain ⟨hunused, hninth, hhalted, hoverflow⟩ := t.bits_read_dayHigh
  refine ⟨hs ▸ hsecond, hm ▸ hminute, hh ▸ hhour, hunused, ?_, hhalted.symm, hoverflow.symm⟩
  rw [hninth, toNat_read_dayLow, Nat.div_add_mod', hh, hm, hs, time]

end RealTimeClock

namespace Cartridge

/-! ## Any course -/

theorem valid_performAll {c : Cartridge} (hc : c.Valid) (as : List Action) :
    (performAll c as).Valid := by
  refine history_induction (P := fun d _ => d.Valid) (h := []) ?_ hc
  intro x _ d _ hd
  cases x with
  | write a v => exact hd.write a v
  | pass n => exact hd.advance n
  | loadRam saved => exact hd.loadRam saved

/-- Whatever a program wrote and however long it took, a cartridge with a clock still has one, and
its divider counts the cycles of a second. -/
theorem exists_mbc3_performAll {image : ByteArray} {c : Cartridge} (hload : load image = .ok c)
    (hkind : c.controller.kind = .mbc3) (as : List Action) :
    ∃ r, (performAll c as).controller = .mbc3 r ∧
      r.seconds.period = cyclesPerSecond ∧ r.seconds.count < cyclesPerSecond := by
  obtain ⟨-, -, -, -, -, hcode⟩ := load_eq_ok hload
  have hsame := (follows_performAll (Controller.follows_ofCode hcode) as).2.1.trans hkind
  have hvalid := valid_performAll (valid_load hload) as
  cases hr : (performAll c as).controller with
  | mbc3 r => exact ⟨r, rfl, hvalid.second r.seconds (by rw [hr]; rfl)⟩
  | _ =>
    rw [hr] at hsame
    cases hsame

/-- A clock is one counter in every course of writes and time. Its registers show digits and the
number that they make, those that are latched as well. While it is not stopped, any time advances
the number by the seconds that are now complete and notes whether the days have run over; the
divider keeps the rest, and nothing else in the cartridge changes. -/
theorem advance_counts {image : ByteArray} {c : Cartridge} (hload : load image = .ok c)
    (hkind : c.controller.kind = .mbc3) (as : List Action) :
    ∃ r, (performAll c as).controller = .mbc3 r ∧ r.clock.Shown ∧ r.latched.Shown ∧
      r.seconds.period = cyclesPerSecond ∧ r.seconds.count < cyclesPerSecond ∧
      (r.clock.halted = false → ∀ n, ∃ clock,
        (performAll c as).advance n =
          { performAll c as with
            controller := .mbc3 { r with
              clock
              seconds :=
                { period := cyclesPerSecond
                  count := (r.seconds.count + n) % cyclesPerSecond } } } ∧
        clock.Shown ∧ clock.halted = false ∧
        clock.time =
          (r.clock.time + (r.seconds.count + n) / cyclesPerSecond) % RealTimeClock.cycle ∧
        (clock.overflow = true ↔ r.clock.overflow = true ∨
          RealTimeClock.cycle ≤ r.clock.time + (r.seconds.count + n) / cyclesPerSecond)) := by
  obtain ⟨r, hr, hperiod, hcount⟩ := exists_mbc3_performAll hload hkind as
  refine ⟨r, hr, r.clock.shown, r.latched.shown, hperiod, hcount, fun hruns n => ?_⟩
  refine ⟨Nat.repeat RealTimeClock.tick ((r.seconds.count + n) / cyclesPerSecond) r.clock, ?_,
    RealTimeClock.shown _, (r.clock.halted_ticks _).trans hruns, r.clock.time_ticks _,
    r.clock.overflow_ticks _⟩
  rw [advance, hr, Controller.advance_mbc3, Divider.advance, hperiod, hruns]
  rfl

/-- The course of a program that sets the last second of the last day. Its seconds are out of
range. -/
def lastSecond : List Action :=
  [.write 0x0000 0x0a, .write 0x4000 0x08, .write 0xa000 0x77, .write 0x4000 0x09,
    .write 0xa000 0x3b, .write 0x4000 0x0a, .write 0xa000 0x17, .write 0x4000 0x0b,
    .write 0xa000 0xff, .write 0x4000 0x0c, .write 0xa000 0x01]

/-- A second later the clock has begun again and notes it. -/
theorem advance_counts_lastSecond :
    ∃ c clock, load (headerImage 0x0f 0x00 0x00) = .ok c ∧ c.controller.kind = .mbc3 ∧
      ((performAll c lastSecond).advance cyclesPerSecond).controller.clock? = some clock ∧
      clock.time = 0 ∧ clock.overflow = true := by
  have hrom : Header.romSize? 0x00 = some (2 * Header.romBankSize) := rfl
  have hram : Header.ramSize? 0x00 = some 0 := rfl
  obtain ⟨c, hload, hkind, t, hclock, hruns, hcount, htime⟩ : ∃ c,
      load (headerImage 0x0f 0x00 0x00) = .ok c ∧ c.controller.kind = .mbc3 ∧
      ∃ t : Mbc3, (performAll c lastSecond).controller = .mbc3 t ∧ t.clock.halted = false ∧
        t.seconds.count = 0 ∧ t.clock.time = RealTimeClock.cycle - 1 :=
    ⟨_, load_headerImage hrom hram rfl, rfl, _, rfl, rfl, rfl, rfl⟩
  obtain ⟨r, hr, -, -, -, -, hadvance⟩ := advance_counts hload hkind lastSecond
  obtain rfl : t = r := Controller.mbc3.inj (hclock.symm.trans hr)
  obtain ⟨clock, hafter, -, -, hnumber, hoverflow⟩ := hadvance hruns cyclesPerSecond
  rw [hcount, htime] at hnumber hoverflow
  refine ⟨c, clock, hload, hkind, ?_, hnumber.trans rfl, hoverflow.2 (.inr (by decide))⟩
  rw [hafter]
  rfl

end Cartridge

end GameBoy
