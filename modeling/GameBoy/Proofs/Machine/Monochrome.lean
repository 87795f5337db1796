import GameBoy.Proofs.Board.Monochrome
import GameBoy.Proofs.Machine.Straight

/-!
# The monochrome machine

A machine that was built as the monochrome console never shows anything of the colour console,
whatever its cartridge asks for and whatever is done to it.

* `Cpu.stopAddress?_step`: a processor to which no change of the clock rate is granted notes no
  stop.
* `Machine.Monochrome`: what such a machine never leaves, and `Monochrome.tick`,
  `Monochrome.perform`: ticks and requests keep it so.
* `Monochrome.tick_fst`: the time of a tick is that of the processor's step.
* `colors_inert`: so it is from power-up on.
-/

namespace GameBoy

/-! ## The processor -/

namespace Cpu

variable {β : Type} [Bus β] {bus : β}

theorem stopAddress?_settle (cpu : Cpu) (earlier : Bool) :
    (cpu.settle earlier).stopAddress? = cpu.stopAddress? := by
  unfold settle
  split <;> rfl

theorem stopAddress?_execute (h : (Bus.switchRate bus).1 = false) (cpu : Cpu) (i : Instr) :
    (cpu.execute i bus).1.stopAddress? = cpu.stopAddress? := by
  cases i with
  | stop =>
    simp only [execute, Instr.operate, requestRate, h, Bool.false_eq_true, if_false]
    rfl
  | _ => rfl

/-- A stop is noted only if the bus grants the other clock rate. -/
theorem stopAddress?_step (h : (Bus.switchRate bus).1 = false) (cpu : Cpu) :
    (cpu.step bus).cpu.stopAddress? = cpu.stopAddress? := by
  rcases cpu.step_cases bus with ⟨-, -, hstep⟩ | ⟨i, -, -, hstep⟩ | ⟨i, -, -, -, hstep⟩
  · rw [hstep]
  · rw [hstep]
    rfl
  · rw [hstep]
    exact (stopAddress?_settle ..).trans (stopAddress?_execute h ..)

end Cpu

/-! ## The machine -/

namespace Machine

/-- A monochrome console that requests led to, and whose processor noted no stop. -/
structure Monochrome (m : Machine) : Prop where
  reachable : m.board.Reachable
  model : m.board.model = .dmg
  stopAddress : m.cpu.stopAddress? = none

variable {m : Machine}

theorem Monochrome.board (h : m.Monochrome) : m.board.Monochrome := h.reachable.monochrome h.model

theorem Monochrome.act_board (h : m.Monochrome) : m.act.2.board.Monochrome := by
  refine (reachable_act h.reachable).monochrome ?_
  obtain ⟨journal, hact⟩ := m.act_board
  rw [hact]
  refine Cpu.step_induction (P := fun b : Board => b.model = .dmg) ?_ ?_ m.cpu h.model
  · exact fun b a v hb => (b.model_write a v).trans hb
  · exact fun b hb => (b.model_perform .switchRate).trans hb

/-- Nothing is copied and the rate is the normal one, so a tick takes the time of the processor's
step. -/
theorem Monochrome.tick_fst (h : m.Monochrome) :
    m.tick.1 = 4 * max 1 (m.cpu.step m.board).outcome.cycles := by
  have hidle : m.act.2.board.transfer.active = false := by rw [h.act_board.transfer]
  have houtcome : m.act.1 = (m.cpu.step m.board).outcome := rfl
  rw [Machine.tick_fst, Board.advance_of_idle hidle, houtcome, machineCycles, Nat.max_comm]
  exact Nat.mul_comm ..

/-- A tick keeps a machine monochrome. -/
theorem Monochrome.tick (h : m.Monochrome) : m.tick.2.Monochrome where
  reachable := reachable_tick h.reachable
  model := by
    have hpassed := h.act_board.advance (reachable_act h.reachable).valid
      (machineCycles m.act.1 * cyclesPerMachineCycle)
    obtain ⟨journal, htick⟩ := m.tick_board
    rw [htick]
    exact hpassed.model
  stopAddress := by
    have hrefused : (Bus.switchRate m.board).1 = false := congrArg Prod.fst h.board.switchRate
    rw [cpu_tick, Cpu.stopAddress?_step hrefused]
    exact h.stopAddress

/-- Requests do too. -/
theorem Monochrome.perform (h : m.Monochrome) (r : Request) : (m.perform r).Monochrome := by
  have hreachable := reachable_perform h.reachable r
  cases r with
  | tick => exact h.tick
  | runFrame => exact runFor_induction (P := Monochrome) (fun _ hm => hm.tick) h _
  | write a v => exact ⟨hreachable, (m.board.model_write a v).trans h.model, h.stopAddress⟩
  | press i | release i =>
    refine ⟨hreachable, ?_, ?_⟩ <;> simp only [Machine.perform, press, release]
    · split <;> exact h.model
    · split <;> exact h.stopAddress
  | read | takeFrame | loadRam => exact ⟨hreachable, h.model, h.stopAddress⟩

theorem monochrome_powerUp {image : ByteArray} {options : Options} {journal : Journal}
    (h : powerUp image options journal = .ok m) (hmodel : m.model = .dmg) : m.Monochrome := by
  obtain ⟨cartridge, model, notices, hload, rfl⟩ := powerUp_eq_ok h
  exact ⟨.powerUp hload model notices, hmodel, rfl⟩

/-- Nothing of the colour console shows in a machine that was built as the monochrome one: after any
requests the clock rate is the normal one and no change is armed, the banks of the power-up are
selected, no transfer runs, the memories of colours are as they were and no stop was noted. No
register of the colour console answers, and writes to them change nothing. A tick takes the machine
cycles of the processor's step, and no picture shows a colour palette. -/
theorem colors_inert {image : ByteArray} {options : Options} {journal : Journal} {start : Machine}
    (hstart : powerUp image options journal = .ok start) (hmodel : start.model = .dmg)
    (rs : List Request) :
    let m := performAll start rs
    (m.board.speed.rate = .normal ∧ m.board.speed.armed = false) ∧
      m.board.video.bank = .first ∧ m.board.workRam.bank.val = 1 ∧
      m.board.transfer.active = false ∧
      m.board.video.backgroundColors = start.board.video.backgroundColors ∧
      m.board.video.objectColors = start.board.video.objectColors ∧
      m.cpu.stopAddress? = none ∧
      (∀ a ∈ [0xff4d, 0xff4f, 0xff51, 0xff52, 0xff53, 0xff54, 0xff55, 0xff68, 0xff69, 0xff6a,
        0xff6b, 0xff70], m.read a = 0xff ∧ ∀ v, m.write a v = m) ∧
      m.tick.1 = 4 * max 1 (m.cpu.step m.board).outcome.cycles ∧
      ∀ p ∈ m.picture.palettes, p = .background ∨ p = .object0 ∨ p = .object1 := by
  intro m
  have hbegin := monochrome_powerUp hstart hmodel
  have hm : m.Monochrome :=
    List.foldlRecOn (motive := Monochrome) rs _ hbegin fun _ hw r _ => hw.perform r
  obtain ⟨-, hspeed, htransfer, -, hwork, hvideo⟩ := hm.board
  refine ⟨?_, hvideo.bank, hwork, ?_, ?_, ?_, hm.stopAddress, ?_, hm.tick_fst,
    hvideo.front.palettes⟩
  · rw [hspeed]
    exact ⟨rfl, rfl⟩
  · rw [htransfer]
  · exact hvideo.backgroundColors.trans hbegin.board.video.backgroundColors.symm
  · exact hvideo.objectColors.trans hbegin.board.video.objectColors.symm
  · intro a ha
    obtain ⟨hread, hwrite⟩ := hm.board.absent ha
    refine ⟨hread, fun v => ?_⟩
    rw [Machine.write, hwrite v]

/-- A cartridge that asks for the colour console, in a machine that was built as the other one: a
program finds neither the clock rate nor the banks. -/
theorem colors_inert_forced :
    let image := Cartridge.codeImage (List.replicate 0x43 0x00 ++ [0x80])
    Header.model image = .cgb ∧
      ∃ start, powerUp image { model? := some .dmg } {} = .ok start ∧ start.model = .dmg ∧
        let m := performAll start [.write 0xff4d 0x01, .write 0xff70 0x05, .tick, .press 3]
        m.board.speed.armed = false ∧ m.board.workRam.bank.val = 1 ∧ m.read 0xff4d = 0xff := by
  intro image
  have hbyte : ∀ i, i < Header.stop → byteAt image i = _ :=
    fun i hi => Cartridge.byteAt_codeImage _ hi
  have hload : Cartridge.load image = _ := Cartridge.load_shortest Array.size_ofFn
    (hbyte _ (by decide)) (hbyte _ (by decide)) (hbyte _ (by decide))
  obtain ⟨start, hstart, hmodel⟩ : ∃ start,
      powerUp image { model? := some .dmg } {} = .ok start ∧ start.model = .dmg := by
    simp only [powerUp, hload]
    exact ⟨_, rfl, rfl⟩
  obtain ⟨⟨-, harmed⟩, -, hbank, -, -, -, -, habsent, -⟩ := colors_inert hstart hmodel
    [.write 0xff4d 0x01, .write 0xff70 0x05, .tick, .press 3]
  refine ⟨?_, start, hstart, hmodel, harmed, hbank, (habsent 0xff4d (by decide)).1⟩
  rw [Header.model, Header.colorFlag, hbyte _ (by decide)]
  rfl

end Machine

end GameBoy
