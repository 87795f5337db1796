import GameBoy.Proofs.Board.Frame
import GameBoy.Proofs.Machine.Reachable

/-!
# Three clocks in step

The processor and the timer run at one rate, the display and the clock in the cartridge at another.
Every tick gives each of them its share of the same time.

* `tick_bounds`: a tick takes a positive number of whole machine cycles, at most 2072 clock cycles.
* `tick_devices`: what every device makes of it.
* `elapsed_ticks`, `counter_ticks`: so the place of the display and the counter of the timer tell
  the time of a run.
-/

namespace GameBoy

namespace Board

/-! ## What passes on the board -/

theorem advance_fst (b : Board) (n : Nat) :
    (b.advance n).1 = n + cyclesPerBlock * b.blocksDue * b.speed.rate.factor := rfl

/-- The timer runs for all the time that passes. -/
theorem advance_timer (b : Board) (n : Nat) :
    (b.advance n).2.timer = (b.timer.advance (b.advance n).1).1 := by
  obtain ⟨vram, transfer, journal, hcopied⟩ := b.runTransfer_frame
  have htimer : b.runTransfer.timer = b.timer := by rw [hcopied]
  rw [← htimer]
  rfl

/-- The display runs for it as the normal rate counts it. -/
theorem advance_video (b : Board) (n : Nat) :
    (b.advance n).2.video =
      (b.runTransfer.video.advance ((b.advance n).1 / b.speed.rate.factor)).1 := by
  rw [advance_fst, Nat.add_mul_div_right _ _ b.speed.rate.factor_pos]
  rfl

/-- So does the cartridge. -/
theorem advance_cartridge (b : Board) (n : Nat) :
    (b.advance n).2.cartridge =
      b.cartridge.advance ((b.advance n).1 / b.speed.rate.factor) := by
  obtain ⟨vram, transfer, journal, hcopied⟩ := b.runTransfer_frame
  have hcartridge : b.runTransfer.cartridge = b.cartridge := by rw [hcopied]
  rw [advance_fst, Nat.add_mul_div_right _ _ b.speed.rate.factor_pos, ← hcartridge]
  rfl

end Board

namespace Machine

/-! ## A tick -/

/-- Cycles of the processor in one of the rest, at the rate in force after the processor's act. -/
def factor (m : Machine) : Nat := m.act.2.board.speed.rate.factor

theorem factor_dvd_four (m : Machine) : m.factor ∣ 4 := by
  unfold factor
  cases m.act.2.board.speed.rate <;> decide

theorem machineCycles_act_le (m : Machine) : machineCycles m.act.1 ≤ 6 :=
  Nat.max_le.2 ⟨Cpu.cycles_step_le .., by decide⟩

theorem four_dvd_act (m : Machine) : 4 ∣ machineCycles m.act.1 * cyclesPerMachineCycle :=
  Nat.dvd_mul_left ..

/-- A tick takes whole machine cycles, in which transfers take at most 128 blocks' time. -/
theorem tick_bounds {m : Machine} (h : m.board.Reachable) :
    0 < m.tick.1 ∧ 4 ∣ m.tick.1 ∧ m.tick.1 ≤ 2072 ∧ m.factor ∣ m.tick.1 := by
  have hfour := four_le_tick m
  have hcycles := m.machineCycles_act_le
  have hblocks := (reachable_act h).valid.blocksDue_le
  have hdvd : 4 ∣ m.tick.1 := by
    rw [tick_fst, Board.advance_fst]
    refine Nat.dvd_add m.four_dvd_act (Nat.dvd_mul_right_of_dvd ?_ _)
    exact Nat.dvd_mul_right_of_dvd (by decide) _
  refine ⟨by omega, hdvd, ?_, Nat.dvd_trans m.factor_dvd_four hdvd⟩
  rw [tick_fst, Board.advance_fst]
  generalize machineCycles m.act.1 = cycles at hcycles
  generalize m.act.2.board.blocksDue = blocks at hblocks
  simp only [cyclesPerMachineCycle, Board.cyclesPerBlock]
  cases m.act.2.board.speed.rate <;> simp only [Rate.factor] <;> omega

/-- Every device runs for its share of the tick. -/
theorem tick_devices (m : Machine) :
    m.tick.2.board.timer = (m.act.2.board.timer.advance m.tick.1).1 ∧
      m.tick.2.board.video =
        (m.act.2.board.runTransfer.video.advance (m.tick.1 / m.factor)).1 ∧
      m.tick.2.board.cartridge = m.act.2.board.cartridge.advance (m.tick.1 / m.factor) := by
  obtain ⟨journal, htick⟩ := m.tick_board
  rw [htick]
  exact ⟨Board.advance_timer _ _, Board.advance_video _ _, Board.advance_cartridge _ _⟩

/-! ## Ticks one after the other -/

/-- The machine after `n` ticks. -/
def ticks (m : Machine) (n : Nat) : Machine := Nat.repeat (fun m => m.tick.2) n m

theorem ticks_succ (m : Machine) (n : Nat) : m.ticks (n + 1) = (m.ticks n).tick.2 := rfl

theorem board_ticks {m : Machine} (h : m.board.Reachable) (n : Nat) :
    (m.ticks n).board.Reachable :=
  repeat_induction (P := fun m : Machine => m.board.Reachable) (fun _ => reachable_tick) h n

theorem Reachable.ticks {m : Machine} (h : m.Reachable) (n : Nat) : (m.ticks n).Reachable :=
  repeat_induction (P := Reachable) (fun _ hw => hw.perform .tick) h n

/-- What the processor writes in the next tick. -/
def writes (m : Machine) : List (UInt16 × UInt8) := m.cpu.writes m.board

/-- A write that switches the display off. -/
def SwitchesOff (w : UInt16 × UInt8) : Prop := w.1 = 0xff40 ∧ w.2 &&& 0x80 = 0

/-- While the processor does not switch the display off, its act does not move it. -/
theorem act_elapsed {m : Machine} (hon : m.board.video.control.isOn = true)
    (hw : ∀ w ∈ m.writes, ¬ SwitchesOff w) :
    m.act.2.board.video.control.isOn = true ∧
      m.act.2.board.video.elapsed = m.board.video.elapsed := by
  have hstep := Cpu.step_induction
    (P := fun t : Traced Board => (∀ w ∈ t.writes, ¬ SwitchesOff w) →
      t.bus.video.control.isOn = true ∧ t.bus.video.elapsed = m.board.video.elapsed)
    (fun t a v ih ht => ?_) (fun t ih ht => ?_) m.cpu (b := ⟨m.board, []⟩) (fun _ => ⟨hon, rfl⟩)
  · obtain ⟨journal, hact⟩ := m.act_board
    have hafter := hstep hw
    rw [hact, Cpu.step_traced m.cpu ⟨m.board, []⟩]
    exact hafter
  · obtain ⟨hbefore, hsame⟩ := ih fun w hmem => ht w (List.mem_append_left _ hmem)
    have hlast := ht (a, v) (List.mem_append_right _ (List.mem_singleton_self _))
    obtain ⟨hafter, helapsed⟩ :=
      Board.elapsed_write hbefore a v (fun ha hv => hlast ⟨ha, hv⟩)
    exact ⟨hafter, helapsed.trans hsame⟩
  · change (t.bus.switchRate.2).video.control.isOn = true ∧ (t.bus.switchRate.2).video.elapsed = _
    rw [Board.switchRate_video]
    exact ih ht

/-- While the processor does not clear the counter, its act leaves it. -/
theorem act_counter {m : Machine} (hw : ∀ w ∈ m.writes, w.1 ≠ 0xff04) :
    m.act.2.board.timer.counter = m.board.timer.counter := by
  have hstep := Cpu.step_induction
    (P := fun t : Traced Board => (∀ w ∈ t.writes, w.1 ≠ 0xff04) →
      t.bus.timer.counter = m.board.timer.counter)
    (fun t a v ih ht => ?_) (fun t ih ht => ?_) m.cpu (b := ⟨m.board, []⟩) (fun _ => rfl)
  · obtain ⟨journal, hact⟩ := m.act_board
    have hafter := hstep hw
    rw [hact, Cpu.step_traced m.cpu ⟨m.board, []⟩]
    exact hafter
  · have hlast := ht (a, v) (List.mem_append_right _ (List.mem_singleton_self _))
    exact (Board.counter_write hlast v).trans (ih fun w hmem => ht w (List.mem_append_left _ hmem))
  · change (t.bus.switchRate.2).timer.counter = _
    rw [Board.switchRate_timer]
    exact ih ht

/-- A tick of a display that stays on moves it by the time that passes at the normal rate. -/
theorem tick_elapsed {m : Machine} (h : m.board.Reachable)
    (hon : m.board.video.control.isOn = true) (hw : ∀ w ∈ m.writes, ¬ SwitchesOff w) :
    m.tick.2.board.video.control.isOn = true ∧
      m.tick.2.board.video.elapsed = m.board.video.elapsed + m.tick.1 / m.factor := by
  obtain ⟨hafter, hsame⟩ := act_elapsed hon hw
  have hvalid := (reachable_act h).valid.runTransfer.video
  obtain ⟨vram, transfer, journal, hcopied⟩ := m.act.2.board.runTransfer_frame
  rw [m.tick_devices.2.1]
  rw [hcopied] at hvalid ⊢
  refine ⟨?_, (Video.elapsed_advance hvalid hafter _).trans (congrArg (· + _) hsame)⟩
  rw [(hvalid.advance _).2]
  exact hafter

theorem tick_counter {m : Machine} (hw : ∀ w ∈ m.writes, w.1 ≠ 0xff04) :
    m.tick.2.board.timer.counter = m.board.timer.counter + UInt16.ofNat m.tick.1 := by
  rw [m.tick_devices.1, Timer.counter_advance, act_counter hw]

/-- At power-up no clock has run, and the display is on. -/
theorem powerUp_start {image : ByteArray} {options : Options} {journal : Journal} {m : Machine}
    (h : powerUp image options journal = .ok m) :
    m.board.Reachable ∧ m.cycles = 0 ∧ m.board.timer.counter = 0 ∧
      m.board.video.control.isOn = true ∧ m.board.video.elapsed = 0 := by
  obtain ⟨cartridge, model, notices, hload, rfl⟩ := powerUp_eq_ok h
  have hon : (Video.powerUp model).control.isOn = true :=
    show (Control.mk 0x91).isOn = true by decide
  exact ⟨.powerUp hload model notices, rfl, rfl, hon, Video.elapsed_powerUp model⟩

/-- The display of a run of ticks tells the time of the normal rate. -/
theorem elapsed_ticks {start : Machine} (h : start.board.Reachable)
    (hon : start.board.video.control.isOn = true) (n : Nat)
    (hw : ∀ k, k < n → ∀ w ∈ (start.ticks k).writes, ¬ SwitchesOff w) :
    (start.ticks n).board.video.control.isOn = true ∧
      (start.ticks n).board.video.elapsed =
        start.board.video.elapsed +
          ((List.range n).map fun k => (start.ticks k).tick.1 / (start.ticks k).factor).sum := by
  induction n with
  | zero => exact ⟨hon, (Nat.add_zero _).symm⟩
  | succ n ih =>
    obtain ⟨hbefore, hsum⟩ := ih fun k hk => hw k (Nat.lt_succ_of_lt hk)
    obtain ⟨hafter, hlast⟩ :=
      tick_elapsed (board_ticks h n) hbefore (hw n (Nat.lt_succ_self n))
    refine ⟨hafter, hlast.trans ?_⟩
    rw [hsum, List.range_succ, List.map_append, List.sum_append, Nat.add_assoc]
    simp

/-- The counter of a run of ticks tells the time of the processor. -/
theorem counter_ticks {start : Machine}
    (hstart : start.board.timer.counter = UInt16.ofNat start.cycles) (n : Nat)
    (hw : ∀ k, k < n → ∀ w ∈ (start.ticks k).writes, w.1 ≠ 0xff04) :
    (start.ticks n).board.timer.counter = UInt16.ofNat (start.ticks n).cycles := by
  induction n with
  | zero => exact hstart
  | succ n ih =>
    have hbefore := ih fun k hk => hw k (Nat.lt_succ_of_lt hk)
    rw [ticks_succ, tick_counter (hw n (Nat.lt_succ_self n)), hbefore, tick_cycles,
      UInt16.ofNat_add]

end Machine

end GameBoy
