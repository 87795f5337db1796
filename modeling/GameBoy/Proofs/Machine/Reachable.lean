import GameBoy.Machine.Basic
import GameBoy.Proofs.Actions
import GameBoy.Proofs.Board.Reachable
import GameBoy.Proofs.Cpu.Bus

/-!
# What is done to a machine

* `Machine.Request`, `Machine.perform`: what one may ask of a machine.
* `act_board`: apart from notices, the board after the processor's act is the one its step leaves.
* `Machine.Reachable`: the machines that requests lead to from power-up; `Reachable.induction`: what
  holds of all of them.
-/

namespace GameBoy.Machine

/-! ## Requests -/

/-- What one may ask of a machine. -/
inductive Request
  | tick
  | runFrame
  | write (a : UInt16) (v : UInt8)
  | read (a : UInt16)
  | press (i : UInt8)
  | release (i : UInt8)
  | takeFrame
  | loadRam (saved : ByteArray)

/-- The machine after a request. -/
def perform (m : Machine) : Request → Machine
  | .tick => m.tick.2
  | .runFrame => m.runFrame.2
  | .write a v => m.write a v
  | .read _ => m
  | .press i => m.press i
  | .release i => m.release i
  | .takeFrame => m.takeFrame.2
  | .loadRam saved => m.loadRam saved

instance : Actions Machine Request := ⟨perform⟩

/-- The machines that requests lead to from power-up. -/
def Reachable (m : Machine) : Prop :=
  ∃ image options journal start rs,
    powerUp image options journal = .ok start ∧ m = performAll start rs

theorem Reachable.perform {m : Machine} (h : m.Reachable) (r : Request) :
    (m.perform r).Reachable := by
  obtain ⟨image, options, journal, start, rs, hstart, rfl⟩ := h
  exact ⟨image, options, journal, start, rs ++ [r], hstart, (performAll_append start rs [r]).symm⟩

/-! ## The parts of a tick -/

theorem tell?_cycles (m : Machine) (e? : Option Event) : (m.tell? e?).cycles = m.cycles := by
  cases e? <;> rfl

/-- What the watcher is told can only add to the journal. -/
theorem tell?_board (m : Machine) (e? : Option Event) :
    ∃ journal, (m.tell? e?).board = { m.board with journal } := by
  cases e? with
  | none => exact ⟨m.board.journal, rfl⟩
  | some e => exact ⟨_, rfl⟩

/-- Apart from notices, the board after the processor's act is the one its step leaves. -/
theorem act_board (m : Machine) :
    ∃ journal, m.act.2.board = { (m.cpu.step m.board).bus with journal } := by
  obtain ⟨journal, h⟩ := tell?_board
    { m with
      cpu := (m.cpu.step m.board).cpu
      board := (m.cpu.step m.board).bus.report
        ((m.cpu.step m.board).outcome.report? m.cpu.regs.pc) }
    (eventOf m.act.1 m.cpu.regs.pc (m.board.read m.cpu.regs.pc))
  exact ⟨journal, h⟩

theorem act_cycles (m : Machine) : m.act.2.cycles = m.cycles := tell?_cycles ..

/-- The time of a tick is what passes on the board. -/
theorem tick_fst (m : Machine) :
    m.tick.1 = (m.act.2.board.advance (machineCycles m.act.1 * cyclesPerMachineCycle)).1 := rfl

theorem tick_board (m : Machine) :
    ∃ journal, m.tick.2.board =
      { (m.act.2.board.advance (machineCycles m.act.1 * cyclesPerMachineCycle)).2 with journal } :=
  tell?_board _ _

theorem tick_cycles (m : Machine) : m.tick.2.cycles = m.cycles + m.tick.1 := by
  have h : m.tick.2.cycles = m.act.2.cycles + m.tick.1 := tell?_cycles ..
  rw [h, act_cycles]

/-! ## Pictures -/

/-- What ticks keep, running keeps. -/
theorem runFor_induction {P : Machine → Prop} (tick : ∀ m, P m → P m.tick.2) {m : Machine}
    (h : P m) (time : Nat) : P (m.runFor time).2 := by
  induction time using Nat.strongRecOn generalizing m with
  | ind time ih =>
    rw [runFor]
    split
    · exact h
    · simp only
      split
      · exact tick m h
      · have := four_le_tick m
        exact ih _ (by omega) (tick m h)

/-! ## Every reachable machine -/

/-- What a machine is at power-up. -/
theorem powerUp_eq_ok {image : ByteArray} {options : Options} {journal : Journal} {m : Machine}
    (h : powerUp image options journal = .ok m) :
    ∃ cartridge model journal, Cartridge.load image = .ok cartridge ∧
      m = { cpu := .powerUp model, board := .powerUp cartridge model journal } := by
  simp only [powerUp, bind, Except.bind] at h
  cases hload : Cartridge.load image with
  | error e => simp [hload] at h
  | ok cartridge =>
    simp only [hload, pure, Except.pure, Except.ok.injEq] at h
    exact ⟨cartridge, _, _, rfl, h.symm⟩

theorem powerUp_zeroImage :
    ∃ m, powerUp Cartridge.zeroImage { model? := some .cgb } {} = .ok m := by
  simp only [powerUp, Cartridge.load_zeroImage]
  exact ⟨_, rfl⟩

theorem reachable_act {m : Machine} (h : m.board.Reachable) : m.act.2.board.Reachable := by
  obtain ⟨journal, hact⟩ := m.act_board
  rw [hact]
  refine Board.Reachable.journal journal ?_
  exact Cpu.step_induction (fun _ a v hb => hb.write a v) (fun _ hb => hb.switchRate) m.cpu h

theorem reachable_tick {m : Machine} (h : m.board.Reachable) : m.tick.2.board.Reachable := by
  obtain ⟨journal, htick⟩ := m.tick_board
  rw [htick]
  exact .journal journal (.advance _ (reachable_act h))

theorem reachable_perform {m : Machine} (h : m.board.Reachable) (r : Request) :
    (m.perform r).board.Reachable := by
  cases r with
  | tick => exact reachable_tick h
  | runFrame =>
    exact runFor_induction (P := fun m => m.board.Reachable) (fun _ => reachable_tick) h _
  | write a v => exact h.write a v
  | read a => exact h
  | press i =>
    simp only [Machine.perform, Machine.press]
    split
    · exact h.press _
    · exact h.journal _
  | release i =>
    simp only [Machine.perform, Machine.release]
    split
    · exact h.release _
    · exact h.journal _
  | takeFrame => exact h.takeFrame
  | loadRam saved => exact h.loadRam saved

theorem reachable_performAll {m : Machine} (h : m.board.Reachable) (rs : List Request) :
    (performAll m rs).board.Reachable :=
  List.foldlRecOn (motive := fun m : Machine => m.board.Reachable) rs _ h fun _ hm r _ =>
    reachable_perform hm r

/-- The board of a reachable machine is a reachable board. -/
theorem Reachable.board {m : Machine} (h : m.Reachable) : m.board.Reachable := by
  obtain ⟨image, options, journal, start, rs, hstart, rfl⟩ := h
  obtain ⟨cartridge, model, notices, hload, rfl⟩ := powerUp_eq_ok hstart
  exact reachable_performAll (.powerUp hload model notices) rs

end GameBoy.Machine
