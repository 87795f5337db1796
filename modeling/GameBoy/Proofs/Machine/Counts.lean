import GameBoy.Proofs.Machine.Time

/-!
# What a machine counts

Cycles are counted by the machine, pictures by the display, and events by the watcher. None of the
counts can be ahead of the time that passed.

* `cycles_le_performAll`: requests take no time back.
* `Machine.Counted`: the dots of the display and the watcher's events are at most as many as cycles.
* `Counted.perform`: requests keep it so.
-/

namespace GameBoy

namespace Board

/-! ## The display's count -/

/-- Time completes pictures and takes none back, and the display counts no more than the time. -/
theorem Valid.frames_advance {b : Board} (h : b.Valid) (n : Nat) :
    b.video.frames ≤ (b.advance n).2.video.frames ∧
      (b.advance n).2.video.elapsed ≤ b.video.elapsed + (b.advance n).1 := by
  obtain ⟨vram, transfer, journal, hcopied⟩ := b.runTransfer_frame
  have hframes : b.runTransfer.video.frames = b.video.frames := by rw [hcopied]
  have helapsed : b.runTransfer.video.elapsed = b.video.elapsed := by
    rw [hcopied]
    rfl
  have hplaced := h.runTransfer.video
  have hshare : (b.advance n).1 / b.speed.rate.factor ≤ (b.advance n).1 := Nat.div_le_self ..
  rw [advance_video, ← hframes, ← helapsed]
  refine ⟨Video.frames_le_advance hplaced _, ?_⟩
  cases hon : b.runTransfer.video.control.isOn with
  | false =>
    rw [Video.advance_of_off hon]
    exact Nat.le_add_right ..
  | true =>
    rw [Video.elapsed_advance hplaced hon]
    exact Nat.add_le_add_left hshare _

theorem elapsed_write_le (b : Board) (a : UInt16) (v : UInt8) :
    (b.write a v).video.elapsed ≤ b.video.elapsed := by
  obtain ⟨hframes, hposition⟩ := b.frames_write a v
  rw [Video.elapsed, Video.elapsed, hframes]
  exact Nat.add_le_add_left hposition _

end Board

/-- What the processor did. -/
def Tally.acts (t : Tally) : Nat := t.instructions + t.interrupts

namespace Machine

/-! ## Cycles -/

theorem cycles_le_tick (m : Machine) : m.cycles ≤ m.tick.2.cycles := by
  rw [tick_cycles]
  exact Nat.le_add_right ..

theorem cycles_le_runFor (m : Machine) (time : Nat) : m.cycles ≤ (m.runFor time).2.cycles :=
  runFor_induction (P := fun w => m.cycles ≤ w.cycles)
    (fun w hw => Nat.le_trans hw w.cycles_le_tick) (Nat.le_refl _) time

theorem cycles_write (m : Machine) (a : UInt16) (v : UInt8) : (m.write a v).cycles = m.cycles := rfl

theorem cycles_press (m : Machine) (i : UInt8) : (m.press i).cycles = m.cycles := by
  unfold press
  split <;> rfl

theorem cycles_release (m : Machine) (i : UInt8) : (m.release i).cycles = m.cycles := by
  unfold release
  split <;> rfl

theorem cycles_le_perform (m : Machine) (r : Request) : m.cycles ≤ (m.perform r).cycles := by
  cases r with
  | tick => exact m.cycles_le_tick
  | runFrame => exact m.cycles_le_runFor _
  | write a v => exact Nat.le_of_eq (m.cycles_write a v).symm
  | press i => exact Nat.le_of_eq (m.cycles_press i).symm
  | release i => exact Nat.le_of_eq (m.cycles_release i).symm
  | read | takeFrame | loadRam => exact Nat.le_refl m.cycles

/-- Requests take no time back. -/
theorem cycles_le_performAll (m : Machine) (rs : List Request) :
    m.cycles ≤ (performAll m rs).cycles :=
  List.foldlRecOn (motive := fun w : Machine => m.cycles ≤ w.cycles) rs _ (Nat.le_refl _)
    fun w hw r _ => Nat.le_trans hw (w.cycles_le_perform r)

/-! ## Acts and pictures -/

/-- The processor's act completes no picture and does not move the display on. -/
theorem act_frames (m : Machine) :
    m.act.2.board.video.frames = m.board.video.frames ∧
      m.act.2.board.video.elapsed ≤ m.board.video.elapsed := by
  obtain ⟨journal, hact⟩ := m.act_board
  rw [hact]
  refine Cpu.step_induction (P := fun b : Board => b.video.frames = m.board.video.frames ∧
    b.video.elapsed ≤ m.board.video.elapsed) ?_ ?_ m.cpu ⟨rfl, Nat.le_refl _⟩
  · rintro b a v ⟨hframes, helapsed⟩
    exact ⟨(b.frames_write a v).1.trans hframes, Nat.le_trans (b.elapsed_write_le a v) helapsed⟩
  · intro b hb
    show b.switchRate.2.video.frames = _ ∧ b.switchRate.2.video.elapsed ≤ _
    rwa [b.switchRate_video]

/-- It is counted at most once, and not as a picture. -/
theorem act_tally (m : Machine) :
    m.act.2.watcher.tally.acts ≤ m.watcher.tally.acts + 1 ∧
      m.act.2.watcher.tally.frames = m.watcher.tally.frames := by
  unfold act
  simp only
  generalize (m.cpu.step m.board).outcome = outcome
  cases outcome with
  | served i =>
    refine ⟨?_, rfl⟩
    show m.watcher.tally.instructions + (m.watcher.tally.interrupts + 1) ≤ _
    exact Nat.le_of_eq (Nat.add_assoc ..).symm
  | executed i n =>
    refine ⟨?_, rfl⟩
    show m.watcher.tally.instructions + 1 + m.watcher.tally.interrupts ≤ _
    exact Nat.le_of_eq (Nat.add_right_comm ..)
  | idle => exact ⟨Nat.le_succ _, rfl⟩

/-- Time that passes is no act, and counted as a picture if there is a new one. -/
theorem pass_tally (m : Machine) (frames n : Nat) :
    (m.pass frames n).2.watcher.tally.acts = m.watcher.tally.acts ∧
      (m.pass frames n).2.watcher.tally.frames =
        m.watcher.tally.frames + if (m.board.advance n).2.video.frames = frames then 0 else 1 := by
  unfold pass
  simp only
  split <;> exact ⟨rfl, rfl⟩

theorem tick_frames (m : Machine) :
    m.tick.2.board.video.frames =
      (m.act.2.board.advance (machineCycles m.act.1 * cyclesPerMachineCycle)).2.video.frames := by
  obtain ⟨journal, htick⟩ := m.tick_board
  rw [htick]

/-- A tick takes no picture back, and the display counts no more than its time. -/
theorem frames_tick {m : Machine} (h : m.board.Reachable) :
    m.board.video.frames ≤ m.tick.2.board.video.frames ∧
      m.tick.2.board.video.elapsed ≤ m.board.video.elapsed + m.tick.1 := by
  obtain ⟨hframes, helapsed⟩ := m.act_frames
  obtain ⟨hmore, htime⟩ := (reachable_act h).valid.frames_advance
    (machineCycles m.act.1 * cyclesPerMachineCycle)
  obtain ⟨journal, htick⟩ := m.tick_board
  rw [htick, ← hframes]
  exact ⟨hmore, Nat.le_trans htime (Nat.add_le_add_right helapsed _)⟩

/-! ## All counts -/

/-- A machine that requests led to from power-up. Neither the dots of its display nor the acts that
the watcher counted are more than its cycles, and the watcher counted no more pictures than the
display. -/
structure Counted (m : Machine) : Prop where
  board : m.board.Reachable
  elapsed_le : m.board.video.elapsed ≤ m.cycles
  acts_le : m.watcher.tally.acts ≤ m.cycles
  frames_le : m.watcher.tally.frames ≤ m.board.video.frames

theorem counted_powerUp {image : ByteArray} {options : Options} {journal : Journal} {m : Machine}
    (h : powerUp image options journal = .ok m) : m.Counted := by
  obtain ⟨hboard, -, -, -, helapsed⟩ := powerUp_start h
  obtain ⟨cartridge, model, notices, hload, rfl⟩ := powerUp_eq_ok h
  exact ⟨hboard, Nat.le_of_eq helapsed, Nat.le_refl _, Nat.le_refl _⟩

/-- There are no more pictures than cycles. -/
theorem Counted.frames_le_cycles {m : Machine} (h : m.Counted) :
    m.board.video.frames ≤ m.cycles := by
  calc m.board.video.frames
    _ ≤ m.board.video.frames * dotsPerFrame := Nat.le_mul_of_pos_right _ (by decide)
    _ ≤ m.board.video.elapsed := Nat.le_add_right ..
    _ ≤ m.cycles := h.elapsed_le

/-- A tick takes longer than it is counted, and counts a picture only if there is a new one. -/
theorem Counted.tick {m : Machine} (h : m.Counted) : m.tick.2.Counted := by
  obtain ⟨hacts, hframes⟩ := m.act_tally
  obtain ⟨hpassActs, hpassFrames⟩ := m.act.2.pass_tally m.board.video.frames
    (machineCycles m.act.1 * cyclesPerMachineCycle)
  obtain ⟨hmore, htime⟩ := frames_tick h.board
  have hfour := four_le_tick m
  refine ⟨reachable_tick h.board, ?_, ?_, ?_⟩
  · rw [tick_cycles]
    exact Nat.le_trans htime (Nat.add_le_add_right h.elapsed_le _)
  · have hbefore := h.acts_le
    show (m.act.2.pass _ _).2.watcher.tally.acts ≤ _
    rw [hpassActs, tick_cycles]
    omega
  · have hbefore := h.frames_le
    show (m.act.2.pass _ _).2.watcher.tally.frames ≤ _
    rw [hpassFrames, hframes]
    rw [tick_frames] at hmore ⊢
    split <;> omega

/-- Requests keep the counts behind the time. -/
theorem Counted.perform {m : Machine} (h : m.Counted) (r : Request) : (m.perform r).Counted := by
  have hboard := reachable_perform h.board r
  cases r with
  | tick => exact h.tick
  | runFrame => exact runFor_induction (P := Counted) (fun _ hm => hm.tick) h _
  | write a v =>
    refine ⟨hboard, Nat.le_trans (m.board.elapsed_write_le a v) h.elapsed_le, h.acts_le, ?_⟩
    exact Nat.le_trans h.frames_le (Nat.le_of_eq (m.board.frames_write a v).1.symm)
  | read | takeFrame | loadRam => exact ⟨hboard, h.elapsed_le, h.acts_le, h.frames_le⟩
  | press i | release i =>
    refine ⟨hboard, ?_, ?_, ?_⟩ <;> simp only [Machine.perform, press, release]
    · split <;> exact h.elapsed_le
    · split <;> exact h.acts_le
    · split <;> exact h.frames_le

end Machine

end GameBoy
