import GameBoy.Cartridge.Basic
import GameBoy.Timer

/-!
# Time passes evenly in the small clocks

The timer and the clock in the cartridge count the pulses of a divider. However the cycles are
parcelled out, the pulses are as many, and so the clocks show the same.

* `Divider.advance_add`: pulses and remainder of two parcels.
* `Timer.advance_add`: the timer, and whether it requests an interrupt.
* `Timer.advance_snd`: it does if it counts past `0xff`.
* `Cartridge.advance_add`: a cartridge with any controller.
-/

namespace GameBoy

/-- Repetitions follow one another. -/
theorem repeat_add {α : Type} (f : α → α) (m n : Nat) (a : α) :
    Nat.repeat f (m + n) a = Nat.repeat f n (Nat.repeat f m a) := by
  induction n with
  | zero => rfl
  | succ n ih =>
    rw [Nat.add_succ, Nat.repeat, Nat.repeat, ih]

/-! ## Dividers -/

namespace Divider

/-- The cycles may come in two parcels. -/
theorem advance_add (d : Divider) (a b : Nat) :
    d.advance (a + b) =
      ((d.advance a).1 + ((d.advance a).2.advance b).1, ((d.advance a).2.advance b).2) := by
  have hparts := Nat.div_add_mod (d.count + a) d.period
  have hwhole : d.count + (a + b) =
      (d.count + a) % d.period + b + d.period * ((d.count + a) / d.period) := by
    omega
  simp only [advance]
  rcases Nat.eq_zero_or_pos d.period with hzero | hpos
  · simp [hzero, Nat.add_assoc]
  · rw [hwhole, Nat.add_mul_div_left _ _ hpos, Nat.add_mul_mod_self_left,
      Nat.add_comm (((d.count + a) % d.period + b) / d.period)]

end Divider

/-! ## The timer -/

namespace Timer

/-- The timer with `k` pulses counted, and whether it has started again. -/
def pulses (t : Timer) (k : Nat) : Timer × Bool := Nat.repeat pulse k (t, false)

theorem pulses_succ (t : Timer) (k : Nat) :
    t.pulses (k + 1) = pulse ((t.pulses k).1, (t.pulses k).2) := rfl

/-- A pulse only adds to the flag. -/
theorem pulse_flag (t : Timer) (again : Bool) :
    pulse (t, again) = ((pulse (t, false)).1, again || (pulse (t, false)).2) := by
  by_cases h : t.value = 0xff <;> simp [pulse, h]

theorem repeat_pulse_flag (t : Timer) (again : Bool) (k : Nat) :
    Nat.repeat pulse k (t, again) = ((t.pulses k).1, again || (t.pulses k).2) := by
  induction k with
  | zero => simp [pulses, Nat.repeat]
  | succ k ih =>
    rw [Nat.repeat, ih, pulses_succ, pulse_flag _ (again || _), pulse_flag _ (t.pulses k).2,
      Bool.or_assoc]

theorem pulses_add (t : Timer) (k l : Nat) :
    t.pulses (k + l) =
      (((t.pulses k).1.pulses l).1, (t.pulses k).2 || ((t.pulses k).1.pulses l).2) := by
  rw [pulses, repeat_add]
  exact repeat_pulse_flag (t.pulses k).1 (t.pulses k).2 l

/-- The timer with another counter and divider. -/
def retimed (t : Timer) (counter : UInt16) (divider : Divider) : Timer :=
  { t with counter, divider }

/-- Counting a pulse looks at neither counter nor divider. -/
theorem pulse_retimed (t : Timer) (again : Bool) (counter : UInt16) (divider : Divider) :
    pulse (t.retimed counter divider, again) =
      ((pulse (t, again)).1.retimed counter divider, (pulse (t, again)).2) := by
  by_cases h : t.value = 0xff <;> simp [pulse, retimed, h]

theorem pulses_retimed (t : Timer) (counter : UInt16) (divider : Divider) (k : Nat) :
    (t.retimed counter divider).pulses k =
      ((t.pulses k).1.retimed counter divider, (t.pulses k).2) := by
  induction k with
  | zero => rfl
  | succ k ih => rw [pulses_succ, ih, pulse_retimed, pulses_succ]

theorem enabled_pulse (s : Timer × Bool) : (pulse s).1.enabled = s.1.enabled := by
  unfold pulse
  split <;> rfl

/-- Pulses switch nothing off. -/
theorem enabled_pulses (t : Timer) (k : Nat) : (t.pulses k).1.enabled = t.enabled := by
  induction k with
  | zero => rfl
  | succ k ih => rw [pulses_succ, enabled_pulse, ih]

/-- Until the timer has to start again it counts up, and the flag stays down. -/
theorem pulses_of_lt {t : Timer} {k : Nat} (h : t.value.toNat + k < 0x100) :
    t.pulses k = ({ t with value := t.value + UInt8.ofNat k }, false) := by
  induction k with
  | zero => simp [pulses, Nat.repeat]
  | succ k ih =>
    have hvalue : (t.value + UInt8.ofNat k).toNat = t.value.toNat + k := by
      simp
      omega
    have hnot : t.value + UInt8.ofNat k ≠ 0xff := by
      intro hlast
      rw [hlast] at hvalue
      simp at hvalue
      omega
    rw [pulses_succ, ih (by omega), pulse, if_neg hnot, UInt8.ofNat_add, ← UInt8.add_assoc]
    rfl

/-- It starts again when it has counted past `0xff`. -/
theorem pulses_snd (t : Timer) (k : Nat) :
    (t.pulses k).2 = true ↔ 0x100 ≤ t.value.toNat + k := by
  induction k with
  | zero =>
    have := t.value.toNat_lt
    simp only [pulses, Nat.repeat, Bool.false_eq_true, false_iff]
    omega
  | succ k ih =>
    rcases Nat.lt_or_ge (t.value.toNat + k) 0x100 with hlt | hle
    · have hvalue : t.value + UInt8.ofNat k = 0xff ↔ t.value.toNat + k = 0xff := by
        rw [← UInt8.toNat_inj]
        simp
        omega
      rw [pulses_succ, pulses_of_lt hlt, pulse]
      simp only [hvalue]
      split
      · simp
        omega
      · simp
        omega
    · have hflag := ih.2 hle
      rw [pulses_succ, hflag, pulse_flag]
      simp
      omega

theorem advance_of_not_enabled {t : Timer} (h : t.enabled = false) (n : Nat) :
    t.advance n = (t.count n, false) := by
  simp [advance, h]

/-- A timer that is on counts the pulses of its divider. -/
theorem advance_of_enabled {t : Timer} (h : t.enabled = true) (n : Nat) :
    t.advance n =
      ((t.pulses (t.divider.advance n).1).1.retimed (t.counter + UInt16.ofNat n)
          (t.divider.advance n).2,
        (t.pulses (t.divider.advance n).1).2) := by
  rw [advance, if_pos h]
  exact pulses_retimed t _ _ _

/-- While `n` cycles pass, the timer starts again if it is on and has pulses enough to count past
`0xff`. -/
theorem advance_snd (t : Timer) (n : Nat) :
    (t.advance n).2 = true ↔
      t.enabled = true ∧ 0x100 ≤ t.value.toNat + (t.divider.advance n).1 := by
  cases hon : t.enabled with
  | false => simp [advance_of_not_enabled hon]
  | true =>
    rw [advance_of_enabled hon]
    simp [pulses_snd]

@[simp] theorem enabled_advance (t : Timer) (n : Nat) : (t.advance n).1.enabled = t.enabled := by
  cases h : t.enabled with
  | false =>
    rw [advance_of_not_enabled h]
    exact h
  | true =>
    rw [advance_of_enabled h]
    exact (enabled_pulses t _).trans h

theorem counter_add (c : UInt16) (a b : Nat) :
    c + UInt16.ofNat (a + b) = c + UInt16.ofNat a + UInt16.ofNat b := by
  rw [UInt16.ofNat_add, UInt16.add_assoc]

/-- The cycles may pass in two parcels; an interrupt is requested if it is in one of them. -/
theorem advance_add (t : Timer) (a b : Nat) :
    t.advance (a + b) =
      (((t.advance a).1.advance b).1, (t.advance a).2 || ((t.advance a).1.advance b).2) := by
  have hstill := t.enabled_advance a
  cases hon : t.enabled with
  | false =>
    rw [hon] at hstill
    rw [advance_of_not_enabled hstill, advance_of_not_enabled hon, advance_of_not_enabled hon]
    simp only [count, counter_add, Bool.or_self]
  | true =>
    rw [hon] at hstill
    rw [advance_of_enabled hstill, advance_of_enabled hon, advance_of_enabled hon,
      Divider.advance_add, pulses_add, counter_add, pulses_retimed]
    rfl

end Timer

/-! ## The cartridge -/

namespace Controller

theorem advance_mbc3 (r : Mbc3) (n : Nat) :
    (mbc3 r).advance n =
      .mbc3 { r with
        seconds := (r.seconds.advance n).2
        clock :=
          if r.clock.halted then r.clock
          else Nat.repeat RealTimeClock.tick (r.seconds.advance n).1 r.clock } := rfl

end Controller

namespace RealTimeClock

theorem halted_tickHour (t : RealTimeClock) : t.tickHour.halted = t.halted := by
  simp only [tickHour]
  split <;> rfl

theorem halted_tickMinute (t : RealTimeClock) : t.tickMinute.halted = t.halted := by
  simp only [tickMinute]
  split
  · exact halted_tickHour _
  · rfl

theorem halted_tick (t : RealTimeClock) : t.tick.halted = t.halted := by
  simp only [tick]
  split
  · exact halted_tickMinute _
  · rfl

/-- A clock that runs goes on running. -/
theorem halted_ticks (t : RealTimeClock) (k : Nat) : (Nat.repeat tick k t).halted = t.halted := by
  induction k with
  | zero => rfl
  | succ k ih => rw [Nat.repeat, halted_tick, ih]

end RealTimeClock

/-- The cycles may pass in two parcels, whether the clock runs or stands. -/
theorem Controller.advance_add (c : Controller) (a b : Nat) :
    c.advance (a + b) = (c.advance a).advance b := by
  cases c with
  | mbc3 r =>
    rw [advance_mbc3, advance_mbc3, advance_mbc3, Divider.advance_add, repeat_add]
    cases h : r.clock.halted with
    | false => simp [h, RealTimeClock.halted_ticks]
    | true => simp [h]
  | _ => rfl

theorem Cartridge.advance_add (c : Cartridge) (a b : Nat) :
    c.advance (a + b) = (c.advance a).advance b :=
  congrArg (fun controller => { c with controller }) (c.controller.advance_add a b)

end GameBoy
