import GameBoy.Proofs.Board.Slot
import GameBoy.Proofs.Machine.Runs
import GameBoy.Session

/-!
# Running for a picture

One runs a machine for the time of a whole picture at the clock rate in force when the run begins. A
picture that was complete before and was not taken ends such a run too.

* `Machine.Spins`: a processor that jumps to the same place for ever.
* `Machine.runFrame_reports`: what a run for a picture reports.
* `Machine.runFrame_completes`: such a run completes a picture, unless the display is off or the
  program doubles the clock rate meanwhile.
-/

namespace GameBoy.Machine

variable {m : Machine}

/-! ## A program that waits -/

/-- A processor that jumps to the same place for ever: the jump lies there in a cartridge without a
controller, and interrupts are disabled. -/
structure Spins (m : Machine) : Prop where
  reachable : m.board.Reachable
  controller : m.board.cartridge.controller = .fixed
  place : m.cpu.regs.pc.toNat + 2 < 0x4000
  opcode : byteAt m.board.cartridge.rom m.cpu.regs.pc.toNat = 0x18
  distance : byteAt m.board.cartridge.rom (m.cpu.regs.pc.toNat + 1) = 0xfe
  awake : m.cpu.halted = false
  ime : m.cpu.ime = false
  imePending : m.cpu.imePending = false

theorem Spins.fetch (h : m.Spins) : Cpu.fetch m.board m.cpu.regs.pc = .jumpBy none 0xfe := by
  have hplace := h.place
  have hone : (m.cpu.regs.pc + 1).toNat = m.cpu.regs.pc.toNat + 1 := by
    rw [UInt16.toNat_add]
    change (_ + 1) % 65536 = _
    omega
  change Instr.ofBytes (m.board.read _) (m.board.read _) (m.board.read _) = _
  rw [Board.read_of_fixed h.controller (by omega), Board.read_of_fixed h.controller (by omega),
    hone, h.opcode, h.distance]
  rfl

/-- The jump leads back to itself. -/
theorem Spins.step (h : m.Spins) :
    m.cpu.step m.board =
      { outcome := .executed (.jumpBy none 0xfe) 3, cpu := m.cpu.awake, bus := m.board } := by
  have hnone : ¬ (m.cpu.ime = true ∧ Cpu.pending m.board ≠ 0) := by simp [h.ime]
  have hback : m.cpu.regs.pc + 2 + signExtend 0xfe = m.cpu.regs.pc := by
    rw [UInt16.add_assoc, show (2 : UInt16) + signExtend 0xfe = 0 by decide, UInt16.add_zero]
  have hexecute : m.cpu.awake.execute (.jumpBy none 0xfe) m.board = (m.cpu.awake, m.board) := by
    change ({ m.cpu.awake with
      regs := { m.cpu.regs with pc := m.cpu.regs.pc + 2 + signExtend 0xfe } }, m.board) = _
    rw [hback]
    rfl
  rw [Cpu.step_executed (.inl h.awake) hnone h.fetch, hexecute, h.imePending]
  rfl

/-- Time leaves the clock rate. -/
theorem speed_tick (m : Machine) : m.tick.2.board.speed = m.act.2.board.speed := by
  obtain ⟨ticked, hboard⟩ := m.tick_board
  obtain ⟨vram, transfer, copied, hran⟩ := m.act.2.board.runTransfer_frame
  rw [hboard]
  change m.act.2.board.runTransfer.speed = _
  rw [hran]

/-- A cartridge without a controller does not notice it. -/
theorem cartridge_tick (h : m.act.2.board.cartridge.controller = .fixed) :
    m.tick.2.board.cartridge = m.act.2.board.cartridge := by
  rw [m.tick_devices.2.2]
  generalize m.act.2.board.cartridge = c at h
  obtain ⟨rom, ram, controller⟩ := c
  obtain rfl : controller = .fixed := h
  rfl

/-- A tick leaves the clock rate, and whether the display is on. -/
theorem Spins.tick (h : m.Spins) :
    m.tick.2.Spins ∧ m.tick.2.board.speed = m.board.speed ∧
      m.tick.2.board.video.control.isOn = m.board.video.control.isOn ∧
      m.factor = m.board.speed.rate.factor := by
  obtain ⟨noted, hact⟩ := m.act_board
  rw [h.step] at hact
  have hcpu : m.tick.2.cpu = m.cpu.awake := (cpu_tick m).trans (congrArg Stepped.cpu h.step)
  have hcartridge : m.tick.2.board.cartridge = m.board.cartridge := by
    rw [cartridge_tick (by rw [hact]; exact h.controller), hact]
  refine ⟨?_, by rw [speed_tick, hact], by rw [isOn_tick h.reachable, hact], by rw [factor, hact]⟩
  · constructor
    · exact reachable_tick h.reachable
    · rw [hcartridge]
      exact h.controller
    · rw [hcpu]
      exact h.place
    · rw [hcartridge, hcpu]
      exact h.opcode
    · rw [hcartridge, hcpu]
      exact h.distance
    · rw [hcpu]
      rfl
    · rw [hcpu]
      exact h.ime
    · rw [hcpu]
      exact h.imePending

theorem Spins.ticks (h : m.Spins) (n : Nat) :
    (m.ticks n).Spins ∧ (m.ticks n).board.speed = m.board.speed ∧
      (m.ticks n).board.video.control.isOn = m.board.video.control.isOn ∧
      (m.ticks n).factor = m.board.speed.rate.factor := by
  induction n with
  | zero => exact ⟨h, rfl, rfl, h.tick.2.2.2⟩
  | succ n ih =>
    obtain ⟨hspins, hspeed, hon, -⟩ := ih
    obtain ⟨hspins', hspeed', hon', -⟩ := hspins.tick
    rw [ticks_succ]
    refine ⟨hspins', hspeed'.trans hspeed, hon'.trans hon, ?_⟩
    rw [hspins'.tick.2.2.2, hspeed', hspeed]

theorem Spins.on_ticks (h : m.Spins) (hon : m.board.video.control.isOn = true) (n : Nat) :
    (m.ticks n).board.video.control.isOn = true :=
  (h.ticks n).2.2.1.trans hon

/-- A program that jumps to itself, in a machine that is at the jump. -/
theorem spins_of_code (code : List UInt8) {k : Nat} (hreachable : m.board.Reachable)
    (hcontroller : m.board.cartridge.controller = .fixed)
    (hrom : m.board.cartridge.rom = padded (Cartridge.codeImage code) (2 * Header.romBankSize))
    (hpc : m.cpu.regs.pc.toNat = 0x100 + k) (hk : k < 0x40) (hopcode : code.getD k 0 = 0x18)
    (hdistance : code.getD (k + 1) 0 = 0xfe) (hawake : m.cpu.halted = false)
    (hime : m.cpu.ime = false) (hpending : m.cpu.imePending = false) : m.Spins := by
  have hstop : Header.stop = 0x150 := rfl
  have hbyte : ∀ j, j < 0x50 →
      byteAt m.board.cartridge.rom (0x100 + j) = code.getD j 0 := by
    intro j hj
    rw [hrom, byteAt_padded, Cartridge.byteAt_codeImage code (by omega), if_neg (by omega),
      Nat.add_sub_cancel_left]
  refine ⟨hreachable, hcontroller, by omega, ?_, ?_, hawake, hime, hpending⟩
  · rw [hpc, hbyte k (by omega), hopcode]
  · rw [hpc, Nat.add_assoc, hbyte (k + 1) (by omega), hdistance]

theorem frameReady_powerUp {image : ByteArray} {options : Options} {journal : Journal}
    (h : powerUp image options journal = .ok m) : m.frameReady = false := by
  obtain ⟨cartridge, model, notices, -, rfl⟩ := powerUp_eq_ok h
  rfl

/-- Such a program alone. -/
theorem spins_powerUp :
    ∃ start, powerUp (Cartridge.codeImage [0x18, 0xfe]) { model? := some .cgb } {} = .ok start ∧
      start.Spins ∧ start.board.speed.rate = .normal ∧
      start.board.video.control.isOn = true ∧ start.frameReady = false := by
  obtain ⟨start, hstart, h⟩ :=
    plain_powerUp (show [0x18, 0xfe].length ≤ 0x34 from Nat.le_of_ble_eq_true rfl)
  have hpc : start.cpu.regs.pc.toNat = 0x100 + 0 := by rw [h.regs]; rfl
  exact ⟨start, hstart, spins_of_code _ h.reachable h.controller h.rom hpc (by decide) rfl rfl
    h.awake h.ime h.imePending, h.rate, h.on, frameReady_powerUp hstart⟩

/-- A stop that changes the clock rate. -/
theorem step_stop (hmodel : m.board.model = .cgb) (harmed : m.board.speed.armed = true)
    (hfetch : Cpu.fetch m.board m.cpu.regs.pc = .stop) (hawake : m.cpu.halted = false)
    (hime : m.cpu.ime = false) (hpending : m.cpu.imePending = false) :
    (m.cpu.step m.board).cpu =
        { m.cpu.awake with
          regs := m.cpu.regs.goto (m.cpu.regs.pc + 2), stopAddress? := some m.cpu.regs.pc } ∧
      ∃ journal, (m.cpu.step m.board).bus =
        { m.board with
          speed := { rate := m.board.speed.rate.other, armed := false }, journal } := by
  have hnone : ¬ (m.cpu.ime = true ∧ Cpu.pending m.board ≠ 0) := by simp [hime]
  have hswitch : ∃ journal, m.board.switchRate = (true,
      { m.board with speed := { rate := m.board.speed.rate.other, armed := false }, journal }) := by
    refine ⟨(m.board.report m.board.speed.report?).journal, ?_⟩
    unfold Board.switchRate
    rw [hmodel]
    simp only [Speed.switch, Board.report, harmed, if_true]
  obtain ⟨journal, hswitch⟩ := hswitch
  have hexecute : m.cpu.awake.execute .stop m.board =
      ({ m.cpu.awake with
          regs := m.cpu.regs.goto (m.cpu.regs.pc + 2), stopAddress? := some m.cpu.regs.pc },
        { m.board with
          speed := { rate := m.board.speed.rate.other, armed := false }, journal }) := by
    change (if m.board.switchRate.1 then _ else _, m.board.switchRate.2) = _
    rw [hswitch]
    rfl
  rw [Cpu.step_executed (.inl hawake) hnone hfetch, hexecute, hpending]
  exact ⟨rfl, journal, rfl⟩

/-- One arms the change of the clock rate. -/
theorem Plain.arm {image : ByteArray} {r : Registers} {p : Nat} {t : Transfer}
    (h : m.Plain image r p t) :
    (m.write 0xff4d 0x01).Plain image r p t ∧
      (m.write 0xff4d 0x01).board.speed.armed = true := by
  have harm : (m.write 0xff4d 0x01).board =
      { m.board with speed := { m.board.speed with armed := true } } := by
    have hfind : Location.find m.board.model 0xff4d = .speed := by rw [h.model]; rfl
    change m.board.write 0xff4d 0x01 = _
    rw [Board.write, hfind]
    rfl
  exact ⟨h.of_devices (h.reachable.write _ _) rfl harm, by rw [harm]⟩

/-- The machine after a stop. -/
theorem Plain.tick_stop {image : ByteArray} {r : Registers} {p : Nat} {t : Transfer}
    (h : m.Plain image r p t) (harmed : m.board.speed.armed = true)
    (hfetch : Cpu.fetch m.board r.pc = .stop) :
    m.factor = 2 ∧ m.tick.2.board.speed.rate = .double ∧
      m.tick.2.board.video.control.isOn = true ∧
      m.tick.2.board.cartridge = m.board.cartridge ∧
      m.tick.2.cpu = { m.cpu.awake with regs := r.goto (r.pc + 2), stopAddress? := some r.pc } := by
  obtain ⟨hcpu, journal, hbus⟩ :=
    step_stop h.model harmed (h.regs ▸ hfetch) h.awake h.ime h.imePending
  obtain ⟨noted, hact⟩ := m.act_board
  rw [hbus, h.rate] at hact
  rw [h.regs] at hcpu
  refine ⟨by rw [factor, hact]; rfl, by rw [speed_tick, hact]; rfl, ?_, ?_, (cpu_tick m).trans hcpu⟩
  · rw [isOn_tick h.reachable, hact]
    exact h.on
  · rw [cartridge_tick (by rw [hact]; exact h.controller), hact]

/-- With the change armed, the first tick is a stop, and such a program comes after it: all of it
runs at the double rate. -/
theorem spins_afterStop :
    ∃ m : Machine, m.Reachable ∧ m.board.speed.rate = .normal ∧ m.frameReady = false ∧
      m.board.video.position = 0 ∧
      ∀ n, (m.ticks n).board.video.control.isOn = true ∧ (m.ticks n).factor = 2 := by
  obtain ⟨start, hstart, hplain⟩ :=
    plain_powerUp (show [0x10, 0x00, 0x18, 0xfe].length ≤ 0x34 from Nat.le_of_ble_eq_true rfl)
  obtain ⟨h, harmed⟩ := hplain.arm
  have hreachable : (start.write 0xff4d 0x01).Reachable :=
    ⟨_, _, _, start, [.write 0xff4d 0x01], hstart, rfl⟩
  have hready : (start.write 0xff4d 0x01).frameReady = false :=
    (start.board.frameReady_write _ _).trans (frameReady_powerUp hstart)
  generalize start.write 0xff4d 0x01 = m at *
  obtain ⟨hfactor, hrate, hon, hcartridge, hcpu⟩ := h.tick_stop harmed
    ((h.fetch_code (k := 0) rfl (by decide)).trans
      (show Instr.ofBytes 0x10 0x00 0x18 = _ from rfl))
  have hspins : m.tick.2.Spins := by
    refine spins_of_code [0x10, 0x00, 0x18, 0xfe] (k := 2) (reachable_tick h.reachable)
      (hcartridge ▸ h.controller) (hcartridge ▸ h.rom) ?_ (by decide) rfl rfl ?_ ?_ ?_ <;> rw [hcpu]
    · rfl
    · rfl
    · exact h.ime
    · exact h.imePending
  refine ⟨m, hreachable, h.rate, hready, h.position, fun n => ?_⟩
  cases n with
  | zero => exact ⟨h.on, hfactor⟩
  | succ n =>
    obtain ⟨-, -, hstill, hsame⟩ := hspins.ticks n
    rw [ticks_succ_eq]
    exact ⟨hstill.trans hon, by rw [hsame, hrate]; rfl⟩

/-! ## The time of a run -/

/-- A run that reports a picture completed one in its last tick, unless one was complete before. -/
theorem runFrame_found (h : m.board.Reachable) (hready : m.frameReady = false)
    (hon : ∀ k, k ≤ m.frameTicks → (m.ticks k).board.video.control.isOn = true)
    (hfound : m.runFrame.1 = true) :
    ∃ k, m.frameTicks = k + 1 ∧ (m.ticks k).frames = m.frames ∧
      m.runFrame.2.frames = m.frames + 1 := by
  obtain ⟨k, hk⟩ : ∃ k, m.frameTicks = k + 1 :=
    Nat.exists_eq_add_one.2 (m.lasts_runFrame.found hfound).1
  have hnew : m.frames < m.runFrame.2.frames :=
    ((runFrame_fst_iff h).1 hfound).resolve_left (by simp [hready])
  rw [runFrame_eq_ticks, hk] at hnew ⊢
  rw [hk] at hon
  -- the ticks before it find none
  have hbefore : (m.ticks k).frames = m.frames := by
    obtain ⟨hle, hcomplete⟩ := frameReady_ticks h k
    have hwaits : (m.ticks k).frameReady = false := by
      cases k with
      | zero => exact hready
      | succ k => exact m.lasts_runFrame.waits _ (Nat.succ_pos k) (hk ▸ Nat.lt_succ_self _)
    have hnone : ¬ m.frames < (m.ticks k).frames := fun hlt => by
      simp [hcomplete.2 (.inr hlt)] at hwaits
    omega
  have hlast := (frames_tick_le (board_ticks h k) (hon k (Nat.le_succ k))
    (hon (k + 1) (Nat.le_refl _))).1
  rw [← ticks_succ, hbefore] at hlast
  exact ⟨k, rfl, hbefore, Nat.le_antisymm hlast hnew⟩

/-- The time of a run is that of a whole picture, unless the rate is doubled meanwhile. -/
theorem frames_lt_of_over (h : m.board.Reachable)
    (hon : ∀ k, k ≤ m.frameTicks → (m.ticks k).board.video.control.isOn = true)
    (hfactor : ∀ k, k < m.frameTicks → (m.ticks k).factor ≤ m.board.speed.rate.factor)
    (hover : m.runFrame.1 = false) : m.frames < (m.ticks m.frameTicks).frames := by
  have htime := (m.lasts_runFrame.ended hover).2
  obtain ⟨-, hshare⟩ := cycles_ticks h hon fun k hk => ⟨Nat.zero_le _, hfactor k hk⟩
  rw [elapsed_ticks_of_on h hon, Nat.mul_add] at hshare
  rw [frames_lt_iff h hon]
  generalize ((List.range m.frameTicks).map fun k =>
    (m.ticks k).tick.1 / (m.ticks k).factor).sum = dots at *
  have hwhole : m.board.speed.rate.factor * dotsPerFrame ≤ m.board.speed.rate.factor * dots := by
    rw [Nat.mul_comm dotsPerFrame] at htime
    omega
  exact Nat.le_add_left_of_le (Nat.le_of_mul_le_mul_left hwhole m.board.speed.rate.factor_pos)

/-- So a run completes a picture if the rate is not doubled. -/
theorem runFrame_of_factor (h : m.board.Reachable)
    (hon : ∀ k, k ≤ m.frameTicks → (m.ticks k).board.video.control.isOn = true)
    (hfactor : ∀ k, k < m.frameTicks → (m.ticks k).factor ≤ m.board.speed.rate.factor) :
    m.runFrame.1 = true := by
  by_contra hnot
  have hover : m.runFrame.1 = false := Bool.eq_false_iff.2 hnot
  have hnew := frames_lt_of_over h hon hfactor hover
  rw [← runFrame_eq_ticks] at hnew
  exact hnot ((runFrame_fst_iff h).2 (.inr hnew))

/-- At the double rate all the time, the time of a run that began at the normal rate is that of half
a picture. -/
theorem frames_of_doubled (h : m.board.Reachable) (hrate : m.board.speed.rate = .normal)
    (hstart : m.board.video.position = 0)
    (hall : ∀ k, (m.ticks k).board.video.control.isOn = true ∧ (m.ticks k).factor = 2) :
    (m.ticks m.frameTicks).frames = m.frames := by
  obtain ⟨k, hk⟩ : ∃ k, m.frameTicks = k + 1 :=
    Nat.exists_eq_add_one.2 (m.lasts_runFrame.complete_eq m.frameTime_pos).1
  have hbegins := m.lasts_runFrame.inTime k (hk ▸ Nat.lt_succ_self k)
  obtain ⟨hhalf, -⟩ := cycles_ticks h (n := k) (f := 2) (g := 2) (fun j _ => (hall j).1)
    (fun j _ => ⟨Nat.le_of_eq (hall j).2.symm, Nat.le_of_eq (hall j).2⟩)
  have hlast := elapsed_tick_le (board_ticks h k) (hall k).1 (hall (k + 1)).1
  have hmore := (frameReady_ticks h (k + 1)).1
  have hframe : dotsPerFrame = 70224 := rfl
  rw [← ticks_succ] at hlast
  simp only [hk, hrate, Rate.factor, Video.elapsed, frames, hframe, hstart] at *
  omega

/-- A program that waits completes a picture in a run, and none in the tick after it. -/
theorem Spins.runFrame (h : m.Spins) (hon : m.board.video.control.isOn = true)
    (hready : m.frameReady = false) :
    m.runFrame.1 = true ∧ m.frames < m.runFrame.2.frames ∧
      m.runFrame.2.tick.2.frames = m.runFrame.2.frames := by
  have hall := h.on_ticks hon
  have hfound : m.runFrame.1 = true := runFrame_of_factor h.reachable (fun k _ => hall k)
    fun k _ => Nat.le_of_eq (h.ticks k).2.2.2
  obtain ⟨k, hk, hbefore, hafter⟩ := runFrame_found h.reachable hready (fun k _ => hall k) hfound
  refine ⟨hfound, by omega, ?_⟩
  rw [runFrame_eq_ticks, hk] at hafter ⊢
  exact (frames_tick_le (board_ticks h.reachable k) (hall k) (hall (k + 1))).2 (hall (k + 2))
    (by rw [← ticks_succ]; omega)

/-! ## What a run reports -/

/-- A run for a picture reports that one is complete and not that it is new: it also reports a
picture that was complete before and was not taken, and then ends after its first tick. Once the
picture was taken, it reports exactly whether there is a new one. So does a session that holds the
machine. -/
theorem runFrame_reports (h : m.board.Reachable) :
    (m.runFrame.1 = true ↔ m.frameReady = true ∨ m.frames < m.runFrame.2.frames) ∧
      (m.frameReady = true → m.runFrame = (true, m.tick.2)) ∧
      (m.takeFrame.2.runFrame.1 = true ↔ m.frames < m.takeFrame.2.runFrame.2.frames) ∧
      ∀ s : Session, s.machine? = some m → ∃ after, s.runFrame.2.machine? = some after ∧
        (s.runFrame.1 = true ↔ m.frameReady = true ∨ m.frames < after.frames) := by
  refine ⟨runFrame_fst_iff h, runFrame_of_frameReady h, ?_, fun s hs => ?_⟩
  · have htaken : m.takeFrame.2.frameReady = false := rfl
    rw [runFrame_fst_iff h.takeFrame, htaken]
    exact or_iff_right Bool.false_ne_true
  · exact ⟨m.runFrame.2, by simp only [Session.runFrame, hs],
      by simpa only [Session.runFrame, hs] using runFrame_fst_iff h⟩

/-- Of two runs of a program that waits both report a picture, in a session too. The second one is a
single tick. -/
theorem runFrame_reports_spins :
    ∃ start, powerUp (Cartridge.codeImage [0x18, 0xfe]) { model? := some .cgb } {} = .ok start ∧
      start.runFrame.1 = true ∧ start.runFrame.2.runFrame = (true, start.runFrame.2.tick.2) ∧
      (Session.runFrame { machine? := some start }).1 = true := by
  obtain ⟨start, hstart, h, -, hon, hready⟩ := spins_powerUp
  obtain ⟨-, hnew, -⟩ := h.runFrame hon hready
  obtain ⟨hiff, -, -, hsession⟩ := runFrame_reports h.reachable
  have hfound : start.runFrame.1 = true := hiff.2 (.inr hnew)
  have hboard : start.runFrame.2.board.Reachable := reachable_perform h.reachable .runFrame
  have hagain := (runFrame_reports hboard).2.1 ((runFrame_fst start).symm.trans hfound)
  obtain ⟨after, hafter, hreports⟩ := hsession { machine? := some start } rfl
  obtain rfl : start.runFrame.2 = after := Option.some.inj hafter
  exact ⟨start, hstart, hfound, hagain, hreports.2 (.inr hnew)⟩

/-- What the second one reports is not new. -/
theorem runFrame_reports_twice :
    ∃ m : Machine, m.Reachable ∧ m.runFrame.1 = true ∧
      m.runFrame.2.board.video.frames = m.board.video.frames := by
  obtain ⟨start, hstart, h, -, hon, hready⟩ := spins_powerUp
  obtain ⟨hfound, -, hnone⟩ := h.runFrame hon hready
  have hboard : start.runFrame.2.board.Reachable := reachable_perform h.reachable .runFrame
  have hagain := runFrame_of_frameReady hboard ((runFrame_fst start).symm.trans hfound)
  refine ⟨start.runFrame.2, ⟨_, _, _, start, [.runFrame], hstart, rfl⟩, ?_, ?_⟩
  · rw [hagain]
  · rw [hagain]
    exact hnone

/-! ## When a run completes a picture -/

/-- If no complete picture waits to be taken and the display is on all the time, a run for a picture
completes one, whatever the program does meanwhile, as soon as the display comes to the end of the
picture it is in, and ends with the tick in which it does. It can give up only if it began at the
normal clock rate and the program doubled the rate: then its time is too short. -/
theorem runFrame_completes (h : m.board.Reachable) (hready : m.frameReady = false)
    (hon : ∀ k, k ≤ m.frameTicks → (m.ticks k).board.video.control.isOn = true) :
    m.runFrame.2 = m.ticks m.frameTicks ∧
      (m.runFrame.1 = true ↔ 70224 ≤ m.board.video.position +
        ((List.range m.frameTicks).map fun k => (m.ticks k).tick.1 / (m.ticks k).factor).sum) ∧
      (m.runFrame.1 = true → ∃ k, m.frameTicks = k + 1 ∧ (m.ticks k).frames = m.frames ∧
        m.runFrame.2.frames = m.frames + 1) ∧
      (m.runFrame.1 = false → m.board.speed.rate = .normal ∧
        ∃ k, k < m.frameTicks ∧ (m.ticks k).factor = 2) := by
  refine ⟨m.runFrame_eq_ticks, ?_, runFrame_found h hready hon, fun hover => ?_⟩
  · rw [runFrame_fst_iff h, hready, runFrame_eq_ticks]
    exact (or_iff_right Bool.false_ne_true).trans (frames_lt_iff h hon)
  · obtain ⟨k, hk, hlt⟩ :
        ∃ k, k < m.frameTicks ∧ m.board.speed.rate.factor < (m.ticks k).factor := by
      by_contra hall
      simp only [not_exists, not_and, Nat.not_lt] at hall
      exact Bool.false_ne_true (hover.symm.trans (runFrame_of_factor h hon hall))
    have hfactor : (m.ticks k).factor = (m.ticks k).act.2.board.speed.rate.factor := rfl
    cases hrate : m.board.speed.rate <;> cases hnow : (m.ticks k).act.2.board.speed.rate <;>
      rw [hfactor, hrate, hnow] at hlt
    case normal.double => exact ⟨rfl, k, hk, by rw [hfactor, hnow]; rfl⟩
    all_goals exact absurd hlt (by decide)

/-- A program that waits. -/
theorem runFrame_completes_spins :
    ∃ start, powerUp (Cartridge.codeImage [0x18, 0xfe]) { model? := some .cgb } {} = .ok start ∧
      start.frameReady = false ∧
      (∀ k, k ≤ start.frameTicks → (start.ticks k).board.video.control.isOn = true) ∧
      start.runFrame.1 = true ∧ start.runFrame.2.frames = start.frames + 1 := by
  obtain ⟨start, hstart, h, hrate, hon, hready⟩ := spins_powerUp
  have hall := h.on_ticks hon
  obtain ⟨-, -, hcompletes, hgives⟩ := runFrame_completes h.reachable hready fun k _ => hall k
  have hfound : start.runFrame.1 = true := by
    by_contra hnot
    obtain ⟨-, k, -, hdoubled⟩ := hgives (Bool.eq_false_iff.2 hnot)
    rw [(h.ticks k).2.2.2, hrate] at hdoubled
    cases hdoubled
  obtain ⟨k, -, -, hone⟩ := hcompletes hfound
  exact ⟨start, hstart, hready, fun k _ => hall k, hfound, hone⟩

/-- A stop that doubles the rate makes a run give up although the display is on all the time. -/
theorem runFrame_gives_up :
    ∃ m : Machine, m.Reachable ∧ m.frameReady = false ∧
      (∀ k, k ≤ m.frameTicks → (m.ticks k).board.video.control.isOn = true) ∧
      m.runFrame.1 = false := by
  obtain ⟨m, hreachable, hrate, hready, hstart, hall⟩ := spins_afterStop
  refine ⟨m, hreachable, hready, fun k _ => (hall k).1, ?_⟩
  have hnone := frames_of_doubled hreachable.board hrate hstart hall
  rw [← Bool.not_eq_true, runFrame_fst_iff hreachable.board, hready, runFrame_eq_ticks, hnone]
  simp

end GameBoy.Machine
