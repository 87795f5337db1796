import GameBoy.Proofs.Cartridge.History
import GameBoy.Proofs.Clocks

/-!
# What the clock in a cartridge counts

The cycles that pass are divided into seconds, and each second that becomes complete moves the clock
on unless it is stopped just then. The division itself never stops, so a stop that does not last
whole seconds makes the clock gain or lose a part of one.

* `RealTimeClock.time`: the seconds that the clock shows, and `time_tick`: one more.
* `Passes`: stretches of time; `Passes.running` is how long the clock ran in them, and
  `Passes.counted` how many seconds became complete while it did.
* `Passes.counted_of_standsWhole`, `Passes.counted_le`, `Passes.le_counted`: how the two are
  related.
* `Cartridge.OnlyStops`: a course of writes and time that stops the clock and lets it go on, but
  does not set it.
* `Mbc3.Counts`: where the division is and what the clock shows; `Counts.advance` and
  `Cartridge.counts_write`: time and writes keep it so.
* `Cartridge.time_performAll`: what the clock shows after all.
-/

namespace GameBoy

/-! ## The clock -/

namespace RealTimeClock

/-- Seconds in the 512 days after which the clock begins again. -/
abbrev cycle : Nat := 512 * 86400

/-- The seconds that the clock shows. -/
def time (t : RealTimeClock) : Nat := ((t.day * 24 + t.hour) * 60 + t.minute) * 60 + t.second

theorem time_lt (t : RealTimeClock) : t.time < cycle := by
  have hday := t.day.isLt
  have hhour := t.hour.isLt
  have hminute := t.minute.isLt
  have hsecond := t.second.isLt
  simp only [time, cycle]
  omega

/-- A unit of time is at its end and begins again, or it goes on. -/
theorem ends_or_goes_on {n : Nat} (u : Fin (n + 1)) :
    u + 1 = 0 ∧ u.val = n ∨ u + 1 ≠ 0 ∧ (u + 1).val = u.val + 1 := by
  rcases Nat.lt_or_ge u.val n with hlt | hge
  · have hnext : (u + 1).val = u.val + 1 := Fin.val_add_one_of_lt hlt
    refine .inr ⟨fun hzero => ?_, hnext⟩
    rw [hzero] at hnext
    cases hnext
  · obtain rfl : u = Fin.last n := Fin.ext (Nat.le_antisymm (Nat.le_of_lt_succ u.isLt) hge)
    exact .inl ⟨Fin.last_add_one n, rfl⟩

theorem time_tickDay (t : RealTimeClock) : t.tickDay.time = (t.time + 86400) % cycle := by
  have hnext : (t.day + 1).val = (t.day.val + 1) % 512 := Fin.val_add t.day 1
  have hlt := t.time_lt
  simp only [time, tickDay, hnext, cycle] at hlt ⊢
  omega

theorem time_tickHour (t : RealTimeClock) : t.tickHour.time = (t.time + 3600) % cycle := by
  have hlt := t.time_lt
  rcases ends_or_goes_on t.hour with ⟨hzero, hval⟩ | ⟨hmore, hval⟩
  · simp only [tickHour, hzero, if_true, time_tickDay]
    simp only [time, hval, Fin.val_zero, cycle]
    omega
  · simp only [tickHour, hmore, if_false]
    simp only [time, hval, cycle] at hlt ⊢
    omega

theorem time_tickMinute (t : RealTimeClock) : t.tickMinute.time = (t.time + 60) % cycle := by
  have hlt := t.time_lt
  rcases ends_or_goes_on t.minute with ⟨hzero, hval⟩ | ⟨hmore, hval⟩
  · simp only [tickMinute, hzero, if_true, time_tickHour]
    simp only [time, hval, Fin.val_zero, cycle]
    omega
  · simp only [tickMinute, hmore, if_false]
    simp only [time, hval, cycle] at hlt ⊢
    omega

/-- A second passes. -/
theorem time_tick (t : RealTimeClock) : t.tick.time = (t.time + 1) % cycle := by
  have hlt := t.time_lt
  rcases ends_or_goes_on t.second with ⟨hzero, hval⟩ | ⟨hmore, hval⟩
  · simp only [tick, hzero, if_true, time_tickMinute]
    simp only [time, hval, Fin.val_zero]
  · simp only [tick, hmore, if_false]
    simp only [time, hval, cycle] at hlt ⊢
    omega

theorem time_ticks (t : RealTimeClock) (k : Nat) :
    (Nat.repeat tick k t).time = (t.time + k) % cycle := by
  induction k with
  | zero => exact (Nat.mod_eq_of_lt t.time_lt).symm
  | succ k ih => rw [Nat.repeat, time_tick, ih, Nat.mod_add_mod, Nat.add_assoc]

/-- Rewriting the ninth bit of the day as it is does not set the clock. -/
theorem time_write_dayHigh (t : RealTimeClock) {v : UInt8} (h : v.toNat % 2 = t.day.val / 256) :
    (t.write .dayHigh v).time = t.time := by
  have hday := t.day.isLt
  have hsame : (v.toNat % 2 * 256 + t.day.val % 256) % 512 = t.day.val := by omega
  simp only [time, write, Fin.val_ofNat, hsame]

end RealTimeClock

/-! ## Stretches of time -/

/-- Stretches of time, each with whether the clock ran. -/
abbrev Passes := List (Bool × Nat)

namespace Passes

open Cartridge (cyclesPerSecond)

/-- How long the clock ran. -/
def running : Passes → Nat
  | [] => 0
  | (true, k) :: ps => k + running ps
  | (false, _) :: ps => running ps

/-- How often it was stopped, if it ran before or if it did not. -/
def stops : Bool → Passes → Nat
  | _, [] => 0
  | _, (true, _) :: ps => stops true ps
  | true, (false, _) :: ps => stops false ps + 1
  | false, (false, _) :: ps => stops false ps

/-- How many seconds became complete while the clock ran, if `t` cycles had passed before. -/
def counted : Nat → Passes → Nat
  | _, [] => 0
  | t, (true, k) :: ps =>
    ((t + k) / cyclesPerSecond - t / cyclesPerSecond) + counted (t + k) ps
  | t, (false, k) :: ps => counted (t + k) ps

/-- Whenever the clock runs it has stood for whole seconds before, `s` cycles of them earlier. -/
def StandsWhole : Nat → Passes → Prop
  | _, [] => True
  | s, (true, _) :: ps => cyclesPerSecond ∣ s ∧ StandsWhole s ps
  | s, (false, k) :: ps => StandsWhole (s + k) ps

theorem counted_cons (t k : Nat) (runs : Bool) (ps : Passes) :
    counted t ((runs, k) :: ps) =
      (if runs then (t + k) / cyclesPerSecond - t / cyclesPerSecond else 0) +
        counted (t + k) ps := by
  cases runs with
  | true => rfl
  | false => exact (Nat.zero_add _).symm

/-- If it has stood for whole seconds, a clock counts the seconds that it runs. -/
theorem counted_of_standsWhole {ps : Passes} {s : Nat} (h : StandsWhole s ps) (r : Nat) :
    counted (r + s) ps = (r + running ps) / cyclesPerSecond - r / cyclesPerSecond := by
  induction ps generalizing r s with
  | nil => exact (Nat.sub_self _).symm
  | cons p ps ih =>
    obtain ⟨_ | _, k⟩ := p
    · rw [counted, Nat.add_assoc, ih h r, running]
    · -- the whole seconds that it stood leave the division where it was
      obtain ⟨⟨d, rfl⟩, hps⟩ := h
      rw [counted, Nat.add_right_comm, ih hps (r + k), running]
      simp only [cyclesPerSecond]
      omega

/-- At each stop the clock gains less than a second. -/
theorem counted_le (ps : Passes) (t : Nat) (ran : Bool) :
    cyclesPerSecond * counted t ps ≤
      (if ran then t % cyclesPerSecond else cyclesPerSecond - 1) + running ps +
        stops ran ps * (cyclesPerSecond - 1) := by
  -- while the clock stands nothing is known of the division; the stop has paid for that
  induction ps generalizing t ran with
  | nil => exact Nat.zero_le _
  | cons p ps ih =>
    obtain ⟨runs, k⟩ := p
    have hrest := ih (t + k) runs
    cases runs <;> cases ran <;>
      simp only [counted, running, stops, cyclesPerSecond, if_true, Bool.false_eq_true,
        if_false] at hrest ⊢ <;>
      omega

/-- At each stop the clock loses less than a second. -/
theorem le_counted (ps : Passes) (t : Nat) (ran : Bool) :
    (if ran then t % cyclesPerSecond else 0) + running ps ≤
      cyclesPerSecond * counted t ps + (stops ran ps + 1) * (cyclesPerSecond - 1) := by
  induction ps generalizing t ran with
  | nil =>
    have hlt : t % cyclesPerSecond < cyclesPerSecond := Nat.mod_lt t (by decide)
    cases ran <;> simp only [counted, running, stops, if_true, Bool.false_eq_true, if_false] <;>
      omega
  | cons p ps ih =>
    obtain ⟨runs, k⟩ := p
    have hrest := ih (t + k) runs
    cases runs <;> cases ran <;>
      simp only [counted, running, stops, cyclesPerSecond, if_true, Bool.false_eq_true,
        if_false] at hrest ⊢ <;>
      omega

end Passes

/-! ## The controller -/

/-- Since power-up `t` cycles have passed, and the clock has counted `n` seconds. -/
structure Mbc3.Counts (r : Mbc3) (t n : Nat) : Prop where
  seconds : r.seconds =
    { period := Cartridge.cyclesPerSecond, count := t % Cartridge.cyclesPerSecond }
  time : r.clock.time = n % RealTimeClock.cycle

namespace Controller

/-- Its clock, if there is one. -/
def clock? : Controller → Option RealTimeClock
  | .mbc3 r => some r.clock
  | _ => none

/-- It has a clock that has counted `n` seconds in `t` cycles. -/
def Counts (c : Controller) (t n : Nat) : Prop := ∃ r, c = .mbc3 r ∧ r.Counts t n

theorem counts_ofCode {code : UInt8} {c : Controller} (hc : ofCode? code = some c)
    (hkind : c.kind = .mbc3) : c.Counts 0 0 := by
  unfold ofCode? at hc
  split_ifs at hc <;> simp only [Option.some.injEq] at hc <;> subst hc
  any_goals cases hkind
  exact ⟨{}, rfl, rfl, rfl⟩

variable {c : Controller} {t n : Nat} (hc : c.Counts t n)

include hc

theorem Counts.exists_clock :
    ∃ clock, c.clock? = some clock ∧ clock.time = n % RealTimeClock.cycle := by
  obtain ⟨r, rfl, hr⟩ := hc
  exact ⟨r.clock, rfl, hr.time⟩

/-- A command does not touch the clock. -/
theorem Counts.command (a : UInt16) (v : UInt8) : (c.command a v).Counts t n := by
  obtain ⟨r, rfl, hseconds, htime⟩ := hc
  have hclock : (r.command a v).clock = r.clock := by
    unfold Mbc3.command
    split_ifs <;> rfl
  have hsame : (r.command a v).seconds = r.seconds := by
    unfold Mbc3.command
    split_ifs <;> rfl
  exact ⟨r.command a v, rfl, hsame.trans hseconds, hclock ▸ htime⟩

/-- Nor does a write to its last register if it rewrites the ninth bit of the day as it is. -/
theorem Counts.writeClock {v : UInt8}
    (hday : ∀ clock ∈ c.clock?, v.toNat % 2 = clock.day.val / 256) :
    (c.writeClock .dayHigh v).Counts t n := by
  obtain ⟨r, rfl, hseconds, htime⟩ := hc
  have hsame := r.clock.time_write_dayHigh (hday r.clock rfl)
  exact ⟨_, rfl, hseconds, hsame.trans htime⟩

/-- Time that passes completes some seconds; they count unless the clock is stopped. -/
theorem Counts.advance (k : Nat) :
    (c.advance k).Counts (t + k)
      (n + if c.clock?.any (!·.halted) then
        (t + k) / Cartridge.cyclesPerSecond - t / Cartridge.cyclesPerSecond else 0) := by
  obtain ⟨r, rfl, hseconds, htime⟩ := hc
  rw [advance_mbc3]
  refine ⟨_, rfl, ?_, ?_⟩
  · rw [hseconds]
    show Divider.mk _ _ = Divider.mk _ _
    rw [Nat.mod_add_mod]
  · have hpulses : (r.seconds.advance k).1 =
        (t + k) / Cartridge.cyclesPerSecond - t / Cartridge.cyclesPerSecond := by
      rw [hseconds]
      show (t % Cartridge.cyclesPerSecond + k) / Cartridge.cyclesPerSecond = _
      simp only [Cartridge.cyclesPerSecond]
      omega
    cases hhalted : r.clock.halted with
    | true => simpa [clock?, hhalted] using htime
    | false =>
      simp only [clock?, hhalted, hpulses, Bool.false_eq_true, if_false, Option.any_some,
        Bool.not_false, if_true, RealTimeClock.time_ticks, htime, Nat.mod_add_mod]

end Controller

/-! ## The cartridge -/

namespace Cartridge

/-- The register of the clock that an address reaches. -/
def clockRegister? (c : Cartridge) (a : UInt16) : Option RealTimeClock.Register :=
  if isExternal a then
    match c.controller.external with
    | .clock r => some r
    | _ => none
  else none

/-- An action does not set the clock: of its registers it writes at most the last one, and the ninth
bit of the day as it is. -/
def KeepsTime (c : Cartridge) : Action → Prop
  | .write a v => ∀ r ∈ c.clockRegister? a,
      r = .dayHigh ∧ ∀ clock ∈ c.controller.clock?, v.toNat % 2 = clock.day.val / 256
  | _ => True

/-- Some actions stop the clock and let it go on, but do not set it. -/
def OnlyStops (c : Cartridge) : List Action → Prop
  | [] => True
  | x :: as => c.KeepsTime x ∧ (c.perform x).OnlyStops as

instance (c : Cartridge) : DecidablePred c.KeepsTime
  | .write a v => inferInstanceAs (Decidable (∀ r ∈ c.clockRegister? a,
      r = .dayHigh ∧ ∀ clock ∈ c.controller.clock?, v.toNat % 2 = clock.day.val / 256))
  | .pass _ => .isTrue trivial
  | .loadRam _ => .isTrue trivial

instance decidableOnlyStops (c : Cartridge) : DecidablePred c.OnlyStops
  | [] => .isTrue trivial
  | x :: as =>
    have := decidableOnlyStops (c.perform x) as
    inferInstanceAs (Decidable (c.KeepsTime x ∧ (c.perform x).OnlyStops as))

/-- The stretch of time in an action. -/
def pass? (c : Cartridge) : Action → Option (Bool × Nat)
  | .pass n => some (c.controller.clock?.any (!·.halted), n)
  | _ => none

/-- The stretches of time in some actions. -/
def passes (c : Cartridge) : List Action → Passes
  | [] => []
  | x :: as => (c.pass? x).toList ++ (c.perform x).passes as

variable {c : Cartridge} {t n : Nat}

/-- A write above the commands sets the register of the clock that it reaches, if there is one. -/
theorem controller_write_external {a : UInt16} (ha : ¬ a < 0x8000) (v : UInt8) :
    (c.write a v).controller =
      (c.clockRegister? a).elim c.controller (c.controller.writeClock · v) := by
  rw [write, if_neg ha, clockRegister?]
  by_cases hexternal : isExternal a
  · rw [if_pos hexternal, if_pos hexternal]
    cases c.controller.external <;> rfl
  · rw [if_neg hexternal, if_neg hexternal]
    rfl

theorem counts_write (hc : c.controller.Counts t n) {a : UInt16} {v : UInt8}
    (h : c.KeepsTime (.write a v)) : (c.write a v).controller.Counts t n := by
  by_cases ha : a < 0x8000
  · rw [write, if_pos ha]
    exact hc.command a v
  · rw [controller_write_external ha]
    cases hr : c.clockRegister? a with
    | none => exact hc
    | some r =>
      obtain ⟨rfl, hday⟩ := h r hr
      exact hc.writeClock hday

/-- In a course that only stops the clock it counts the seconds that become complete while it
runs. -/
theorem counts_performAll (hc : c.controller.Counts t n) {as : List Action}
    (h : c.OnlyStops as) :
    ∃ s, (performAll c as).controller.Counts s (n + Passes.counted t (c.passes as)) := by
  -- from the front: each action moves on the cycles and the seconds that the rest starts with
  induction as generalizing c t n with
  | nil => exact ⟨t, hc⟩
  | cons x as ih =>
    obtain ⟨hx, has⟩ := h
    cases x with
    | write a v => exact ih (counts_write hc hx) has
    | pass k =>
      obtain ⟨s, hs⟩ := ih (hc.advance k) has
      refine ⟨s, ?_⟩
      show (performAll (_ : Cartridge) as).controller.Counts s (n + Passes.counted t ((_, k) :: _))
      rw [Passes.counted_cons, ← Nat.add_assoc]
      exact hs
    | loadRam saved => exact ih hc has

/-- A clock that is only stopped and let go on counts the seconds that become complete while it
runs. They are the seconds that it ran if it has stood for whole seconds whenever it runs; otherwise
each stop makes it gain or lose less than one. -/
theorem time_performAll {image : ByteArray} (hload : load image = .ok c)
    (hkind : c.controller.kind = .mbc3) {as : List Action} (h : c.OnlyStops as) :
    ∃ clock, (performAll c as).controller.clock? = some clock ∧
      clock.time = Passes.counted 0 (c.passes as) % RealTimeClock.cycle ∧
      (Passes.StandsWhole 0 (c.passes as) →
        clock.time = (c.passes as).running / cyclesPerSecond % RealTimeClock.cycle) ∧
      Passes.counted 0 (c.passes as) ≤
        (c.passes as).running / cyclesPerSecond + Passes.stops true (c.passes as) ∧
      (c.passes as).running / cyclesPerSecond ≤
        Passes.counted 0 (c.passes as) + Passes.stops true (c.passes as) := by
  obtain ⟨size, -, -, -, -, hcode⟩ := load_eq_ok hload
  obtain ⟨s, hs⟩ := counts_performAll (Controller.counts_ofCode hcode hkind) h
  obtain ⟨clock, hclock, htime⟩ := hs.exists_clock
  rw [Nat.zero_add] at htime
  refine ⟨clock, hclock, htime, fun hwhole => ?_, ?_, ?_⟩
  · have hcounted := Passes.counted_of_standsWhole hwhole 0
    simp only [Nat.zero_add, Nat.zero_div, Nat.sub_zero] at hcounted
    rw [htime, hcounted]
  · have hle := (c.passes as).counted_le 0 true
    simp only [cyclesPerSecond, if_true] at hle ⊢
    omega
  · have hle := (c.passes as).le_counted 0 true
    simp only [cyclesPerSecond, if_true] at hle ⊢
    omega

/-- The course of a program that opens the clock, stops it after half a second, lets it go on after
another time, and waits for half a second more. -/
def stopAndGo (stopped : Nat) : List Action :=
  [.write 0x0000 0x0a, .pass 2097152, .write 0x4000 0x0c, .write 0xa000 0x40, .pass stopped,
    .write 0xa000 0x00, .pass 2097152]

/-- After a stop of a whole second the clock has counted the second that it ran. -/
theorem time_performAll_second :
    ∃ c clock, load (headerImage 0x0f 0x00 0x00) = .ok c ∧ c.controller.kind = .mbc3 ∧
      c.OnlyStops (stopAndGo cyclesPerSecond) ∧
      Passes.StandsWhole 0 (c.passes (stopAndGo cyclesPerSecond)) ∧
      (performAll c (stopAndGo cyclesPerSecond)).controller.clock? = some clock ∧
      clock.time = 1 := by
  have hrom : Header.romSize? 0x00 = some (2 * Header.romBankSize) := rfl
  have hram : Header.ramSize? 0x00 = some 0 := rfl
  obtain ⟨c, hload, hkind, hstops, hpasses⟩ : ∃ c, load (headerImage 0x0f 0x00 0x00) = .ok c ∧
      c.controller.kind = .mbc3 ∧ c.OnlyStops (stopAndGo cyclesPerSecond) ∧
      c.passes (stopAndGo cyclesPerSecond) =
        [(true, 2097152), (false, cyclesPerSecond), (true, 2097152)] :=
    ⟨_, load_headerImage hrom hram rfl, rfl, by decide +kernel, rfl⟩
  have hwhole : Passes.StandsWhole 0 (c.passes (stopAndGo cyclesPerSecond)) := by
    rw [hpasses]
    exact ⟨Nat.dvd_zero _, Nat.dvd_refl _, trivial⟩
  obtain ⟨clock, hclock, -, htime, -⟩ := time_performAll hload hkind hstops
  refine ⟨c, clock, hload, hkind, hstops, hwhole, hclock, ?_⟩
  rw [htime hwhole, hpasses]
  rfl

/-- After a stop of half a second the clock has lost the second that it ran. -/
theorem time_performAll_lost :
    ∃ c clock, load (headerImage 0x0f 0x00 0x00) = .ok c ∧ c.controller.kind = .mbc3 ∧
      c.OnlyStops (stopAndGo 2097152) ∧
      (c.passes (stopAndGo 2097152)).running / cyclesPerSecond = 1 ∧
      (performAll c (stopAndGo 2097152)).controller.clock? = some clock ∧ clock.time = 0 :=
  have hrom : Header.romSize? 0x00 = some (2 * Header.romBankSize) := rfl
  have hram : Header.ramSize? 0x00 = some 0 := rfl
  ⟨_, _, load_headerImage hrom hram rfl, rfl, by decide +kernel, rfl, rfl, rfl⟩

end Cartridge

end GameBoy
