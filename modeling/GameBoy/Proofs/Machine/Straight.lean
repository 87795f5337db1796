import GameBoy.Proofs.Board.Passing
import GameBoy.Proofs.Board.Slot
import GameBoy.Proofs.Machine.Transfers

/-!
# Straight programs

Some instructions only load registers, or write to the transfer unit. While a program consists of
them, its machine is described by few things: the registers, the place of the display in its
picture, and the transfer unit.

* `Machine.Plain`: such a machine, with the program in a cartridge without a controller.
* `Instr.Effect`: what such an instruction does.
* `Plain.step`, `Plain.tick`: the machine after it.
* `Machine.Takes`: how long a tick is and what it writes; `Plain.takes`: such an instruction.
* `plain_powerUp`: the machine at power-up.
* `bothTransfers`: a program that starts transfers; `plain_loads`, `Plain.starts`: its beginning.
-/

namespace GameBoy

/-- On every board of the colour console with transfer unit `t` the instruction leads from registers
`r` to `r'`, leaves `t'`, and otherwise changes nothing but the journal. -/
structure Instr.Effect (i : Instr) (r : Registers) (t : Transfer) (r' : Registers)
    (t' : Transfer) : Prop where
  operate : ∀ b : Board, b.model = .cgb → b.transfer = t →
    ∃ journal, i.operate (r.goto (r.pc + i.length)) b = (r', { b with transfer := t', journal })
  control : ∀ cpu : Cpu, cpu.control i = cpu
  ne_stop : i ≠ .stop

/-- An instruction that reaches only registers. -/
theorem Instr.effect_of_registers {i : Instr} {r r' : Registers}
    (hoperate : ∀ b : Board, i.operate (r.goto (r.pc + i.length)) b = (r', b))
    (hcontrol : ∀ cpu : Cpu, cpu.control i = cpu) (hstop : i ≠ .stop) (t : Transfer) :
    i.Effect r t r' t where
  operate := by
    rintro b - rfl
    exact ⟨b.journal, hoperate b⟩
  control := hcontrol
  ne_stop := hstop

section Effects

variable (r : Registers) (t : Transfer)

theorem Instr.effect_nop : Instr.nop.Effect r t (r.goto (r.pc + 1)) t :=
  effect_of_registers (i := .nop) (fun _ => rfl) (fun _ => rfl) nofun t

theorem Instr.effect_loadWord (p : Pair) (v : UInt16) :
    (Instr.loadWord p v).Effect r t ((r.goto (r.pc + 3)).setPair p v) t :=
  effect_of_registers (i := .loadWord p v) (fun _ => rfl) (fun _ => rfl) nofun t

theorem Instr.effect_loadByte (y : Reg) (v : UInt8) :
    (Instr.loadByte (.reg y) v).Effect r t ((r.goto (r.pc + 2)).set y v) t :=
  effect_of_registers (i := .loadByte (.reg y) v) (fun _ => rfl) (fun _ => rfl) nofun t

end Effects

/-- An instruction that puts a register in the control register of the transfer unit. -/
theorem Instr.effect_store {y : Reg} {r : Registers} (hhl : r.hl = 0xff55) (t : Transfer) :
    (Instr.load .atHL (.reg y)).Effect r t (r.goto (r.pc + 1)) (t.write .control (r.get y)) where
  operate := by
    rintro b hmodel rfl
    have hget : (r.goto (r.pc + 1)).get y = r.get y := by cases y <;> rfl
    have haddress : (r.goto (r.pc + 1)).hl = 0xff55 := hhl
    have hwrite : b.write 0xff55 (r.get y) =
        { b.report (b.transfer.report? .control (r.get y)) with
          transfer := b.transfer.write .control (r.get y) } := by
      rw [Board.write, hmodel, Location.find_transferControl]
      rfl
    refine ⟨(b.report (b.transfer.report? .control (r.get y))).journal, ?_⟩
    simp only [Instr.operate, Instr.length, Operand.load, Operand.store, hget, haddress]
    exact congrArg (Prod.mk _) hwrite
  control _ := rfl
  ne_stop := nofun

namespace Machine

/-- A colour console at the normal rate with the display on and no button held, whose processor
executes a program of the given image with interrupts disabled. -/
structure Plain (image : ByteArray) (r : Registers) (position : Nat) (t : Transfer) (m : Machine) :
    Prop where
  reachable : m.board.Reachable
  model : m.board.model = .cgb
  rate : m.board.speed.rate = .normal
  on : m.board.video.control.isOn = true
  buttons : m.board.buttons = {}
  rom : m.board.cartridge.rom = padded image (2 * Header.romBankSize)
  controller : m.board.cartridge.controller = .fixed
  awake : m.cpu.halted = false
  ime : m.cpu.ime = false
  imePending : m.cpu.imePending = false
  regs : m.cpu.regs = r
  position : m.board.video.position = position
  transfer : m.board.transfer = t

variable {image : ByteArray} {r r' : Registers} {p : Nat} {t t' : Transfer} {m : Machine}
  {i : Instr}

/-- What is requested, what the timer does, and whether a change of the clock rate is armed, is of
no matter. -/
theorem Plain.of_devices (h : m.Plain image r p t) {w : Machine} (hw : w.board.Reachable)
    (hcpu : w.cpu = m.cpu) {requests : Requests} {timer : Timer} {armed : Bool}
    (hboard : w.board =
      { m.board with requests, timer, speed := { m.board.speed with armed } }) :
    w.Plain image r p t where
  reachable := hw
  model := by rw [hboard]; exact h.model
  rate := by rw [hboard]; exact h.rate
  on := by rw [hboard]; exact h.on
  buttons := by rw [hboard]; exact h.buttons
  rom := by rw [hboard]; exact h.rom
  controller := by rw [hboard]; exact h.controller
  awake := by rw [hcpu]; exact h.awake
  ime := by rw [hcpu]; exact h.ime
  imePending := by rw [hcpu]; exact h.imePending
  regs := by rw [hcpu]; exact h.regs
  position := by rw [hboard]; exact h.position
  transfer := by rw [hboard]; exact h.transfer

/-! ## Fetching -/

theorem Plain.read (h : m.Plain image r p t) {a : UInt16} (ha : a.toNat < 0x4000) :
    m.board.read a = byteAt image a.toNat := by
  rw [Board.read_of_fixed h.controller ha, h.rom, byteAt_padded]

theorem Plain.fetch (h : m.Plain image r p t) (hpc : r.pc.toNat + 2 < 0x4000) :
    Cpu.fetch m.board r.pc =
      .ofBytes (byteAt image r.pc.toNat) (byteAt image (r.pc.toNat + 1))
        (byteAt image (r.pc.toNat + 2)) := by
  have hone : (r.pc + 1).toNat = r.pc.toNat + 1 := by
    rw [UInt16.toNat_add]
    change (_ + 1) % 65536 = _
    omega
  have htwo : (r.pc + 2).toNat = r.pc.toNat + 2 := by
    rw [UInt16.toNat_add]
    change (_ + 2) % 65536 = _
    omega
  change Instr.ofBytes (m.board.read _) (m.board.read _) (m.board.read _) = _
  rw [h.read (by omega), h.read (by omega), h.read (by omega), hone, htwo]

/-- What lies at byte `k` of the code. -/
theorem Plain.fetch_code {code : List UInt8} (h : m.Plain (Cartridge.codeImage code) r p t)
    {k : Nat} (hpc : r.pc.toNat = 0x100 + k) (hk : k < 0x40) :
    Cpu.fetch m.board r.pc =
      .ofBytes (code.getD k 0) (code.getD (k + 1) 0) (code.getD (k + 2) 0) := by
  have hbyte : ∀ j, j < 0x50 → byteAt (Cartridge.codeImage code) (0x100 + j) = code.getD j 0 := by
    intro j hj
    have hstop : 0x100 + j < Header.stop := by
      have : Header.stop = 0x150 := rfl
      omega
    rw [Cartridge.byteAt_codeImage code hstop, if_neg (by omega), Nat.add_sub_cancel_left]
  rw [h.fetch (by omega), hpc, Nat.add_assoc, Nat.add_assoc, hbyte k (by omega),
    hbyte (k + 1) (by omega), hbyte (k + 2) (by omega)]

/-! ## One instruction -/

theorem Cpu.requestRate_of_ne {β : Type} [Bus β] {i : Instr} (h : i ≠ .stop) (cpu : Cpu)
    (a : UInt16) (bus : β) : cpu.requestRate i a bus = (cpu, bus) := by
  cases i with
  | stop => exact absurd rfl h
  | _ => rfl

/-- The processor's act is the effect of the instruction. -/
theorem Plain.step (h : m.Plain image r p t) (hfetch : Cpu.fetch m.board r.pc = i)
    (heffect : i.Effect r t r' t') :
    ∃ journal, m.cpu.step m.board =
      { outcome := .executed i (i.cycles (i.taken r.flags))
        cpu := { m.cpu.awake with regs := r' }
        bus := { m.board with transfer := t', journal } } := by
  obtain ⟨journal, hoperate⟩ := heffect.operate m.board h.model h.transfer
  refine ⟨journal, ?_⟩
  have hnone : ¬ (m.cpu.ime = true ∧ Cpu.pending m.board ≠ 0) := by simp [h.ime]
  have hexecute : m.cpu.awake.execute i m.board =
      ({ m.cpu.awake with regs := r' }, { m.board with transfer := t', journal }) := by
    have hregs : m.cpu.awake.regs = r := h.regs
    simp only [Cpu.execute, hregs, hoperate, heffect.control, Cpu.requestRate_of_ne heffect.ne_stop]
  rw [Cpu.step_executed (.inl h.awake) hnone (h.regs ▸ hfetch), hexecute, h.regs, h.imePending]
  rfl

theorem Plain.act_fst (h : m.Plain image r p t) (hfetch : Cpu.fetch m.board r.pc = i)
    (heffect : i.Effect r t r' t') : m.act.1 = .executed i (i.cycles (i.taken r.flags)) := by
  obtain ⟨journal, hstep⟩ := h.step hfetch heffect
  exact congrArg Stepped.outcome hstep

theorem Plain.act_board (h : m.Plain image r p t) (hfetch : Cpu.fetch m.board r.pc = i)
    (heffect : i.Effect r t r' t') :
    ∃ journal, m.act.2.board = { m.board with transfer := t', journal } := by
  obtain ⟨journal, hstep⟩ := h.step hfetch heffect
  obtain ⟨noted, hact⟩ := m.act_board
  rw [hstep] at hact
  exact ⟨noted, hact⟩

theorem cpu_tick (m : Machine) : m.tick.2.cpu = (m.cpu.step m.board).cpu := by
  have htell : ∀ (w : Machine) (e? : Option Event), (w.tell? e?).cpu = w.cpu := by
    intro w e?
    cases e? <;> rfl
  exact (htell _ _).trans (htell _ _)

/-- How long the next tick is, at the normal rate, and what it writes. -/
structure Takes (m : Machine) (n : Nat) (ws : List (UInt16 × UInt8)) : Prop where
  factor : m.factor = 1
  time : m.tick.1 = n
  writes : m.writes = ws

/-- The time of the instruction, and of what is copied, and the writes of the instruction. -/
theorem Plain.takes (h : m.Plain image r p t) (hfetch : Cpu.fetch m.board r.pc = i)
    (heffect : i.Effect r t r' t') {n : Nat}
    (hn : 4 * max (i.cycles (i.taken r.flags)) 1 + 8 * m.blocksCopied = n) :
    m.Takes n (i.operate (r.goto (r.pc + i.length)) (Traced.mk m.board [])).2.writes := by
  obtain ⟨noted, hact⟩ := h.act_board hfetch heffect
  have hrate : m.act.2.board.speed.rate = .normal := by rw [hact]; exact h.rate
  have hnone : ¬ (m.cpu.ime = true ∧ Cpu.pending m.board ≠ 0) := by simp [h.ime]
  have hwrites := Cpu.writes_of_executed (.inl h.awake) hnone (h.regs ▸ hfetch)
  rw [h.regs] at hwrites
  refine ⟨by rw [factor, hrate]; rfl, ?_, hwrites⟩
  rw [← hn, tick_fst, Board.advance_fst, h.act_fst hfetch heffect, hrate]
  simp only [machineCycles, Outcome.cycles, cyclesPerMachineCycle, Board.cyclesPerBlock,
    Rate.factor, blocksCopied]
  omega

theorem Takes.dots {n : Nat} {ws : List (UInt16 × UInt8)} (h : m.Takes n ws) :
    m.tick.1 / m.factor = n := by
  rw [h.factor, h.time, Nat.div_one]

/-- Neither the instruction nor copying moves the display. -/
theorem Plain.video_runTransfer (h : m.Plain image r p t) (hfetch : Cpu.fetch m.board r.pc = i)
    (heffect : i.Effect r t r' t') :
    m.act.2.board.runTransfer.video.Placed ∧
      m.act.2.board.runTransfer.video.control.isOn = true ∧
      m.act.2.board.runTransfer.video.position = p := by
  obtain ⟨noted, hact⟩ := h.act_board hfetch heffect
  obtain ⟨vram, transfer, copied, hran⟩ := m.act.2.board.runTransfer_frame
  refine ⟨(reachable_act h.reachable).valid.runTransfer.video, ?_, ?_⟩
  · rw [hran, hact]
    exact h.on
  · rw [hran, hact]
    exact h.position

/-- The machine after the instruction. -/
theorem Plain.tick (h : m.Plain image r p t) (hfetch : Cpu.fetch m.board r.pc = i)
    (heffect : i.Effect r t r' t') {n : Nat}
    (hn : 4 * max (i.cycles (i.taken r.flags)) 1 + 8 * m.blocksCopied = n) :
    m.tick.2.Plain image r' ((p + n) % dotsPerFrame)
      (Nat.repeat Transfer.afterBlock m.blocksCopied t') := by
  obtain ⟨journal, hstep⟩ := h.step hfetch heffect
  obtain ⟨noted, hact⟩ := h.act_board hfetch heffect
  have hdots : m.tick.1 / m.factor = n := (h.takes hfetch heffect hn).dots
  have hcpu : m.tick.2.cpu = { m.cpu.awake with regs := r' } :=
    (cpu_tick m).trans (congrArg Stepped.cpu hstep)
  obtain ⟨hplaced, hon, hposition⟩ := h.video_runTransfer hfetch heffect
  obtain ⟨vram, transfer, copied, hran⟩ := m.act.2.board.runTransfer_frame
  have hcartridge : m.tick.2.board.cartridge = m.board.cartridge.advance n := by
    rw [m.tick_devices.2.2, hdots, hact]
  obtain ⟨ticked, hboard⟩ := m.tick_board
  constructor
  · exact reachable_tick h.reachable
  · rw [hboard]
    change m.act.2.board.runTransfer.model = _
    rw [hran, hact]
    exact h.model
  · rw [hboard]
    change m.act.2.board.runTransfer.speed.rate = _
    rw [hran, hact]
    exact h.rate
  · rw [video_tick, display, Video.dots, (hplaced.advance _).2]
    exact hon
  · rw [hboard]
    change m.act.2.board.runTransfer.buttons = _
    rw [hran, hact]
    exact h.buttons
  · rw [hcartridge]
    exact h.rom
  · rw [hcartridge]
    change m.board.cartridge.controller.advance n = _
    rw [h.controller]
    rfl
  · rw [hcpu]
    rfl
  · rw [hcpu]
    exact h.ime
  · rw [hcpu]
    exact h.imePending
  · rw [hcpu]
  · rw [video_tick, hdots, display, Video.position_dots hplaced hon, hposition]
  · rw [transfer_tick, Board.transfer_runTransfer, ← blocksCopied]
    congr 1
    rw [hact]

/-- What is copied meanwhile depends on what the instruction left in the transfer unit. -/
theorem Plain.blocksCopied (h : m.Plain image r p t) (hfetch : Cpu.fetch m.board r.pc = i)
    (heffect : i.Effect r t r' t') :
    m.blocksCopied = Board.blocksDue { m.board with transfer := t' } := by
  obtain ⟨journal, hact⟩ := h.act_board hfetch heffect
  rw [Machine.blocksCopied, hact]
  rfl

/-- An instruction that leaves no transfer running takes its own time only. -/
theorem Plain.tick_of_idle (h : m.Plain image r p t) (hfetch : Cpu.fetch m.board r.pc = i)
    (heffect : i.Effect r t r' t') (hidle : t'.active = false) :
    m.Takes (4 * max (i.cycles (i.taken r.flags)) 1)
        (i.operate (r.goto (r.pc + i.length)) (Traced.mk m.board [])).2.writes ∧
      m.tick.2.Plain image r' ((p + 4 * max (i.cycles (i.taken r.flags)) 1) % dotsPerFrame) t' := by
  have hnone : m.blocksCopied = 0 := by
    rw [h.blocksCopied hfetch heffect]
    exact Board.blocksDue_of_idle hidle
  have htakes := h.takes hfetch heffect rfl
  have hplain := h.tick hfetch heffect rfl
  rw [hnone] at htakes hplain
  exact ⟨htakes, hplain⟩

/-! ## The display -/

/-- The display is in the line and the phase of its place. -/
theorem Plain.place (h : m.Plain image r p t) :
    m.board.video.line = p / dotsPerLine ∧
      m.board.video.phase = .ofPlace (p / dotsPerLine) (p % dotsPerLine) := by
  have hplaced := h.reachable.valid.video
  have hdot := hplaced.dot_lt
  have hposition : dotsPerLine * m.board.video.line + m.board.video.dot = p := h.position
  refine ⟨?_, ?_⟩
  · simp only [dotsPerLine] at *
    omega
  · rw [hplaced.phase_eq_ofPosition h.on, h.position]

/-- A line is noted as drawn if the display comes to its place. -/
theorem Plain.lineDrawn_tick (h : m.Plain image r p t) (hfetch : Cpu.fetch m.board r.pc = i)
    (heffect : i.Effect r t r' t') {n : Nat}
    (hn : 4 * max (i.cycles (i.taken r.flags)) 1 + 8 * m.blocksCopied = n) :
    m.tick.2.board.video.lineDrawn = true ↔
      ∃ d, d < n ∧ ∃ l, l < screenHeight ∧ (p + (d + 1)) % dotsPerFrame = Video.drawnAt l := by
  obtain ⟨hplaced, hon, hposition⟩ := h.video_runTransfer hfetch heffect
  rw [video_tick, (h.takes hfetch heffect hn).dots]
  refine (Video.lineDrawn_iff_exists hplaced n).trans ?_
  simp only [Video.finishes_iff hplaced hon, hposition]

/-- While a paced transfer runs, a block is copied if a line was drawn. -/
theorem Plain.blocksCopied_of_pacing (h : m.Plain image r p t)
    (hfetch : Cpu.fetch m.board r.pc = i) (heffect : i.Effect r t r' t')
    (hpacing : t'.isPacing = true) :
    m.Paces ∧ m.blocksCopied =
      if m.board.video.lineDrawn && p / dotsPerLine < screenHeight then 1 else 0 := by
  obtain ⟨journal, hact⟩ := h.act_board hfetch heffect
  have hpaces : m.Paces := by
    rw [Paces, hact]
    exact hpacing
  refine ⟨hpaces, ?_⟩
  rw [Machine.blocksCopied, Board.blocksDue_of_pacing hpaces, hact, ← h.place.1]

/-! ## Power-up -/

theorem plain_powerUp {code : List UInt8} (hcode : code.length ≤ 0x34) :
    ∃ m, powerUp (Cartridge.codeImage code) { model? := some .cgb } {} = .ok m ∧
      m.Plain (Cartridge.codeImage code) (.powerUp .cgb) 0 {} := by
  -- of the cartridge only these two matter
  obtain ⟨cartridge, hload, hrom, hcontroller⟩ : ∃ c,
      Cartridge.load (Cartridge.codeImage code) = .ok c ∧
        c.rom = padded (Cartridge.codeImage code) (2 * Header.romBankSize) ∧
        c.controller = .fixed :=
    ⟨_, Cartridge.load_codeImage hcode, rfl, rfl⟩
  obtain ⟨journal, hm⟩ : ∃ journal, powerUp (Cartridge.codeImage code) { model? := some .cgb } {} =
      .ok { cpu := .powerUp .cgb, board := .powerUp cartridge .cgb journal } := by
    simp only [powerUp, hload]
    exact ⟨_, rfl⟩
  obtain ⟨hreachable, -, -, hon, -⟩ := powerUp_start hm
  exact ⟨_, hm, hreachable, rfl, rfl, hon, rfl, hrom, hcontroller, rfl, rfl, rfl, rfl, rfl, rfl⟩

/-! ## A program -/

/-- Starts a general transfer of `x + 1` blocks, and a paced one with the next instruction. -/
def bothTransfers (x : UInt8) : List UInt8 :=
  [0x21, 0x55, 0xff, -- the address of the control register
    0x3e, x, 0x77, -- a general transfer
    0x72] -- and with `0xff` a paced one

/-- The registers when that program comes to start the general transfer. -/
def beforeTransfer (x : UInt8) : Registers :=
  ((((Registers.powerUp .cgb).goto 0x0103).setPair .hl 0xff55).goto 0x0105).set .a x

theorem hl_beforeTransfer (x : UInt8) : (beforeTransfer x).hl = 0xff55 :=
  word_highByte_lowByte 0xff55

/-- The program begins with two loads. -/
theorem plain_loads (x : UInt8) :
    ∃ start, powerUp (Cartridge.codeImage (bothTransfers x)) { model? := some .cgb } {} =
        .ok start ∧
      start.Takes 12 [] ∧ (start.ticks 1).Takes 8 [] ∧
      (start.ticks 2).Plain (Cartridge.codeImage (bothTransfers x)) (beforeTransfer x) 20 {} := by
  obtain ⟨start, hstart, h₀⟩ :=
    plain_powerUp (show (bothTransfers x).length ≤ 0x34 from Nat.le_of_ble_eq_true rfl)
  obtain ⟨htakes₀, h₁⟩ := h₀.tick_of_idle
    ((h₀.fetch_code (k := 0) rfl (by decide)).trans
      (show Instr.ofBytes 0x21 0x55 0xff = _ from rfl))
    (Instr.effect_loadWord _ _ .hl 0xff55) rfl
  obtain ⟨htakes₁, h₂⟩ := h₁.tick_of_idle
    ((h₁.fetch_code (k := 3) rfl (by decide)).trans (show Instr.ofBytes 0x3e x 0x77 = _ from rfl))
    (Instr.effect_loadByte _ _ .a x) rfl
  exact ⟨start, hstart, htakes₀, htakes₁, h₂⟩

/-- Then it starts the general transfer, and all the blocks are copied at once. -/
theorem Plain.starts {x : UInt8} (hx : x < 0x80)
    (h : m.Plain (Cartridge.codeImage (bothTransfers x)) (beforeTransfer x) p {}) :
    let i := Instr.load .atHL (.reg .a)
    Cpu.fetch m.board (beforeTransfer x).pc = i ∧
      i.Effect (beforeTransfer x) {} ((beforeTransfer x).goto 0x0106)
        (Transfer.write {} .control x) ∧
      m.blocksCopied = x.toNat + 1 ∧
      4 * max (i.cycles (i.taken (beforeTransfer x).flags)) 1 + 8 * m.blocksCopied =
        16 + 8 * x.toNat := by
  intro i
  have hfetch := (h.fetch_code (k := 5) rfl (by decide)).trans
    (show Instr.ofBytes 0x77 0x72 0 = i from rfl)
  have heffect := Instr.effect_store (y := .a) (hl_beforeTransfer x) {}
  have howes : (Transfer.write {} .control x).Owes .general (x.toNat + 1) :=
    (Transfer.owes_start rfl hx).1
  have hcopied : m.blocksCopied = x.toNat + 1 := by
    rw [h.blocksCopied hfetch heffect]
    exact (Board.blocksDue_le_owed (b := { m.board with
      transfer := Transfer.write {} .control x }) howes).2 rfl
  refine ⟨hfetch, heffect, hcopied, ?_⟩
  rw [hcopied, Nat.mul_succ, Nat.add_comm (8 * x.toNat), ← Nat.add_assoc]
  rfl

end Machine

end GameBoy
