import GameBoy.Board.Time
import GameBoy.Proofs.Devices

/-!
# What the timer counts

Whatever a program writes to the timer's registers, its divider keeps the period that the control
register selects, and holds less than one. So however many pulses come at once, where the timer is
afterwards and whether it started again follow from two divisions.

* `Timer.Reachable`: the timers that writes and time lead to.
* `Timer.Tuned`: the divider and the control register agree; `Reachable.tuned`: they always do.
* `Timer.place`: where a counter is that starts again and again.
* `Timer.value_pulses`: so counts the timer.
* `Reachable.advance_closed`: a timer after any time, its interrupt included.
-/

namespace GameBoy

namespace Timer

/-! ## The divider -/

/-- The period that the two lowest bits of a control byte select. -/
def selectedPeriod (control : UInt8) : Nat := [1024, 16, 64, 256].getD (control.toNat % 4) 0

theorem periodOf_eq (control : UInt8) : periodOf control = selectedPeriod control :=
  forall_byte (P := fun v => periodOf v = selectedPeriod v) (by decide +kernel) control

theorem selectedPeriod_pos (control : UInt8) : 0 < selectedPeriod control :=
  periodOf_eq control ▸ periodOf_pos control

/-- Bits that the control register does not keep select nothing. -/
theorem periodOf_and_three (control : UInt8) : periodOf (control &&& 0x03) = periodOf control := by
  unfold periodOf
  rw [UInt8.and_assoc]
  rfl

/-- The divider has the selected period and holds less than one. -/
structure Tuned (t : Timer) : Prop where
  period : t.divider.period = selectedPeriod t.control
  count_lt : t.divider.count < selectedPeriod t.control

theorem tuned_powerUp : ({} : Timer).Tuned := ⟨rfl, by decide⟩

theorem Tuned.write {t : Timer} (h : t.Tuned) (r : Register) (v : UInt8) : (t.write r v).Tuned := by
  cases r with
  | counter => exact ⟨h.period, selectedPeriod_pos t.control⟩
  | value | reload => exact ⟨h.period, h.count_lt⟩
  | control =>
    by_cases hsame : t.control &&& 0x03 = v &&& 0x07 &&& 0x03
    · -- the divider stays, and the new control byte selects the period that it has
      have hdivider : (t.write .control v).divider = t.divider := if_pos hsame
      have hperiod : selectedPeriod (v &&& 0x07) = selectedPeriod t.control := by
        rw [← periodOf_eq, ← periodOf_eq, ← periodOf_and_three, ← hsame, periodOf_and_three]
      refine ⟨?_, ?_⟩ <;> rw [hdivider]
      · exact h.period.trans hperiod.symm
      · exact Nat.lt_of_lt_of_eq h.count_lt hperiod.symm
    · have hdivider : (t.write .control v).divider = { period := periodOf (v &&& 0x07) } :=
        if_neg hsame
      refine ⟨?_, ?_⟩ <;> rw [hdivider]
      · exact periodOf_eq _
      · exact selectedPeriod_pos _

theorem Tuned.divider_advance {t : Timer} (h : t.Tuned) (n : Nat) :
    t.divider.advance n =
      ((t.divider.count + n) / selectedPeriod t.control,
        { period := selectedPeriod t.control
          count := (t.divider.count + n) % selectedPeriod t.control }) := by
  rw [Divider.advance, h.period]

/-- Pulses change only the timer itself. -/
theorem pulse_fst (s : Timer × Bool) : (pulse s).1 = { s.1 with value := (pulse s).1.value } := by
  unfold pulse
  split <;> rfl

theorem pulses_fst (t : Timer) (k : Nat) :
    (t.pulses k).1 = { t with value := (t.pulses k).1.value } := by
  induction k with
  | zero => rfl
  | succ k ih =>
    have hpulse := pulse_fst (t.pulses k)
    rw [ih] at hpulse
    exact hpulse

theorem Tuned.advance {t : Timer} (h : t.Tuned) (n : Nat) : (t.advance n).1.Tuned := by
  cases hon : t.enabled with
  | false =>
    rw [advance_of_not_enabled hon]
    exact ⟨h.period, h.count_lt⟩
  | true =>
    rw [advance_of_enabled hon, h.divider_advance, pulses_fst]
    exact ⟨rfl, Nat.mod_lt _ (selectedPeriod_pos _)⟩

/-- The timers that writes and time lead to. -/
inductive Reachable : Timer → Prop
  | powerUp : Reachable {}
  | write {t : Timer} (h : t.Reachable) (r : Register) (v : UInt8) : (t.write r v).Reachable
  | advance {t : Timer} (h : t.Reachable) (n : Nat) : (t.advance n).1.Reachable

theorem Reachable.tuned {t : Timer} (h : t.Reachable) : t.Tuned := by
  induction h with
  | powerUp => exact tuned_powerUp
  | write _ r v ih => exact ih.write r v
  | advance _ n ih => exact ih.advance n

/-! ## Pulses -/

/-- Where a counter of bytes is, `k` counts after `start`, that goes on from `0xff` to `again`. -/
def place (start again k : Nat) : Nat :=
  if k < 256 - start then start + k else again + (k - (256 - start)) % (256 - again)

theorem add_one_mod_of_pos (j : Nat) {m : Nat} (h : 0 < m) :
    (j + 1) % m = if j % m + 1 = m then 0 else j % m + 1 := by
  have hlt := Nat.mod_lt j h
  rw [← Nat.mod_add_mod]
  split
  · next hlast => rw [hlast, Nat.mod_self]
  · exact Nat.mod_eq_of_lt (by omega)

section Place

variable {start again k : Nat}

theorem place_of_lt (h : k < 256 - start) : place start again k = start + k := if_pos h

theorem place_of_le (h : 256 - start ≤ k) :
    place start again k = again + (k - (256 - start)) % (256 - again) :=
  if_neg (Nat.not_lt.2 h)

theorem place_succ (hstart : start < 256) (hagain : again < 256) :
    place start again (k + 1) =
      if place start again k = 255 then again else place start again k + 1 := by
  have hpos : 0 < 256 - again := Nat.sub_pos_of_lt hagain
  rcases Nat.lt_trichotomy (k + 1) (256 - start) with hlt | heq | hgt
  · rw [place_of_lt hlt, place_of_lt (Nat.lt_of_succ_lt hlt), if_neg (by omega), Nat.add_assoc]
  · -- it starts again for the first time
    rw [place_of_le (Nat.le_of_eq heq.symm), place_of_lt (Nat.lt_of_succ_le (Nat.le_of_eq heq)),
      if_pos (by omega), heq, Nat.sub_self, Nat.zero_mod, Nat.add_zero]
  · have hnext : k + 1 - (256 - start) = k - (256 - start) + 1 := by omega
    have hmod := Nat.mod_lt (k - (256 - start)) hpos
    rw [place_of_le (Nat.le_of_lt hgt), place_of_le (Nat.le_of_lt_succ hgt), hnext,
      add_one_mod_of_pos _ hpos]
    split <;> split <;> omega

end Place

/-- The timer counts so. -/
theorem value_pulses (t : Timer) (k : Nat) :
    (t.pulses k).1.value.toNat = place t.value.toNat t.reload.toNat k := by
  have hvalue := t.value.toNat_lt
  have hreload := t.reload.toNat_lt
  induction k with
  | zero =>
    rw [place, if_pos (by omega)]
    rfl
  | succ k ih =>
    have hlast : (t.pulses k).1.value = 0xff ↔ place t.value.toNat t.reload.toNat k = 255 := by
      rw [← ih, ← UInt8.toNat_inj]
      rfl
    have hbound := (t.pulses k).1.value.toNat_lt
    rw [pulses_succ, pulse, place_succ hvalue hreload]
    simp only [hlast]
    split
    · rw [pulses_fst]
    · next hmore =>
      rw [ih] at hbound
      rw [UInt8.toNat_add, ih]
      exact Nat.mod_eq_of_lt (by rw [UInt8.toNat_one]; omega)

/-! ## Any time -/

theorem enabled_iff (t : Timer) : t.enabled = true ↔ t.control &&& 0x04 ≠ 0 := bne_iff_ne

theorem toNat_counter_advance (t : Timer) (n : Nat) :
    (t.advance n).1.counter.toNat = (t.counter.toNat + n) % 65536 := by
  rw [counter_advance, UInt16.toNat_add, UInt16.toNat_ofNat', Nat.add_mod_mod]

section Tuned

variable {t : Timer} (h : t.Tuned) (hon : t.enabled = true) (n : Nat)

include h hon

/-- A timer that is on, after any time: nothing but itself, the counter and the divider changes. -/
theorem Tuned.advance_eq :
    (t.advance n).1 =
      { t with
        counter := (t.advance n).1.counter
        value := (t.advance n).1.value
        divider :=
          { period := selectedPeriod t.control
            count := (t.divider.count + n) % selectedPeriod t.control } } := by
  rw [advance_of_enabled hon, h.divider_advance, pulses_fst]
  rfl

/-- It has counted the periods that are complete. -/
theorem Tuned.value_advance :
    (t.advance n).1.value.toNat =
      place t.value.toNat t.reload.toNat ((t.divider.count + n) / selectedPeriod t.control) := by
  rw [advance_of_enabled hon, h.divider_advance]
  exact t.value_pulses _

end Tuned

/-- What a timer is after any time, in every state that writes and time lead to. Its divider has the
period that the control register selects and holds less than one. The counter always counts. If the
timer is off, nothing else changes; if it is on, it has counted the periods that are now complete,
starting again at the reload value each time it passes `0xff`, and the divider keeps the rest. It
requests its interrupt, and no other, if it has started again. -/
theorem Reachable.advance_closed {t : Timer} (h : t.Reachable) (n : Nat) :
    let period := selectedPeriod t.control
    let k := (t.divider.count + n) / period
    let after := (t.advance n).1
    t.divider.period = period ∧ t.divider.count < period ∧
      after.counter.toNat = (t.counter.toNat + n) % 65536 ∧
      (t.control &&& 0x04 = 0 → after = { t with counter := after.counter }) ∧
      (t.control &&& 0x04 ≠ 0 →
        after =
          { t with
            counter := after.counter
            value := after.value
            divider := { period, count := (t.divider.count + n) % period } } ∧
        after.value.toNat =
          if k < 256 - t.value.toNat then t.value.toNat + k
          else t.reload.toNat + (k - (256 - t.value.toNat)) % (256 - t.reload.toNat)) ∧
      ∀ b : Board, b.timer = t → ∀ i, (b.advanceTimer n).requests.has i = true ↔
        b.requests.has i = true ∨
          i = .timer ∧ t.control &&& 0x04 ≠ 0 ∧ 256 - t.value.toNat ≤ k := by
  intro period k after
  have htuned := h.tuned
  refine ⟨htuned.period, htuned.count_lt, t.toNat_counter_advance n, fun hoff => ?_,
    fun hon => ?_, ?_⟩
  · have hnot : t.enabled = false := by
      rw [← Bool.not_eq_true, enabled_iff]
      exact not_not.2 hoff
    rw [show after = (t.advance n).1 from rfl, advance_of_not_enabled hnot]
    rfl
  · have hswitched := t.enabled_iff.2 hon
    exact ⟨htuned.advance_eq hswitched n, htuned.value_advance hswitched n⟩
  · rintro b rfl i
    have hflag := b.timer.advance_snd n
    rw [enabled_iff, htuned.divider_advance] at hflag
    have hle : 256 - b.timer.value.toNat ≤ k ↔ 0x100 ≤ b.timer.value.toNat + k :=
      Nat.sub_le_iff_le_add'
    show (b.requests.raiseIf .timer (b.timer.advance n).2).has i = true ↔ _
    rw [Requests.has_raiseIf, Bool.or_eq_true, Bool.and_eq_true, beq_iff_eq, hflag, hle, and_comm,
      eq_comm (a := i)]

/-- From `0xfe` with reload value `0xfe`, four pulses make the timer start again twice. -/
theorem advance_closed_twice :
    let t : Timer := (((({} : Timer).write .reload 0xfe).write .value 0xfe).write .control 0x05)
    (t.advance 64).1.value = 0xfe ∧ (t.advance 64).1.divider.count = 0 ∧
      ∀ b : Board, b.timer = t → (b.advanceTimer 64).requests.has .timer = true := by
  intro t
  have hreachable : t.Reachable := (((Reachable.powerUp.write _ _).write _ _).write _ _)
  obtain ⟨-, -, -, -, hon, hrequests⟩ := hreachable.advance_closed 64
  obtain ⟨hafter, hvalue⟩ := hon (by decide)
  refine ⟨UInt8.toNat_inj.1 (hvalue.trans (by decide)), ?_,
    fun b hb => (hrequests b hb .timer).2 (.inr ⟨rfl, by decide, by decide⟩)⟩
  exact (congrArg (fun s : Timer => s.divider.count) hafter).trans (by decide)

end Timer

end GameBoy
