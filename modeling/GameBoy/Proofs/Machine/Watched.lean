import GameBoy.Proofs.Cpu.Encoding
import GameBoy.Proofs.Machine.Frames

/-!
# What a watcher is told

A watcher is told what the processor did in a tick by one who looked at memory before the tick, and
of a completed picture by one who compares the number of pictures before and after it. Both tell the
truth: no write comes before the processor's own look at memory, and no tick, however long a
transfer makes it, completes two pictures.

* `Machine.Does`: what the processor does in a tick, and what a watcher is to be told of it.
* `frames_tick_le_succ`: a tick completes one picture at most.
* `Machine.told`, `events_tick`: what a watcher is told of a tick.
* `record_faithful`: the record of a run.
-/

namespace GameBoy.Machine

variable {m : Machine}

/-! ## What the processor does -/

/-- What the processor does in the next tick, and what a watcher is to be told of it. -/
inductive Does (m : Machine) : Option Event → Prop
  /-- It serves the most urgent interrupt, and continues at the handler. -/
  | serves {i : Interrupt} (ime : m.cpu.ime = true)
      (urgent : Interrupt.highest? (Cpu.pending m.board) = some i)
      (after : m.tick.2.cpu = (m.cpu.awake.serve i m.board).1)
      (continues : m.tick.2.cpu.regs.pc = i.vector) : Does m (some (.interrupt i.vector))
  /-- It executes the instruction that begins with the byte at `pc`. -/
  | executes {i : Instr} {opcode : UInt8} (isAt : m.cpu.IsAt m.board i)
      (begins : opcode = m.read m.cpu.regs.pc)
      (after : m.tick.2.cpu = (m.cpu.awake.execute i m.board).1.settle m.cpu.imePending) :
      Does m (some (.instruction m.cpu.regs.pc opcode))
  /-- It is halted and stays so, as nothing is requested. -/
  | waits (halted : m.cpu.halted = true) (quiet : Cpu.pending m.board = 0)
      (after : m.tick.2.cpu = { m.cpu with served? := none }) : Does m none

/-- It does one thing. -/
theorem Does.unique {e? e'? : Option Event} (h : m.Does e?) (h' : m.Does e'?) : e? = e'? := by
  cases h with
  | serves ime urgent =>
    have hpending := Cpu.pending_ne_zero urgent
    cases h' with
    | serves _ urgent' => rw [Option.some.inj (urgent.symm.trans urgent')]
    | executes isAt => exact absurd ⟨ime, hpending⟩ isAt.undisturbed
    | waits _ quiet => exact absurd quiet hpending
  | executes isAt begins =>
    cases h' with
    | serves ime urgent => exact absurd ⟨ime, Cpu.pending_ne_zero urgent⟩ isAt.undisturbed
    | executes _ begins' => rw [begins, begins']
    | waits halted quiet =>
      rcases isAt.awake with hawake | hpending
      · rw [halted] at hawake
        cases hawake
      · exact absurd quiet hpending
  | waits halted quiet =>
    cases h' with
    | serves _ urgent => exact absurd quiet (Cpu.pending_ne_zero urgent)
    | executes isAt =>
      rcases isAt.awake with hawake | hpending
      · rw [halted] at hawake
        cases hawake
      · exact absurd quiet hpending
    | waits => rfl

/-- What a watcher is told of the processor in the next tick. -/
def deed? (m : Machine) : Option Event := eventOf m.act.1 m.cpu.regs.pc (m.read m.cpu.regs.pc)

/-- It is what the processor does. -/
theorem does_deed (m : Machine) : m.Does m.deed? := by
  have hcpu := cpu_tick m
  have hact : m.act.1 = (m.cpu.step m.board).outcome := rfl
  rw [deed?, hact]
  rcases m.cpu.step_cases m.board with
    ⟨hhalted, hquiet, hstep⟩ | ⟨i, hime, hurgent, hstep⟩ | ⟨i, hawake, hnone, hfetch, hstep⟩
  · rw [hstep] at hcpu ⊢
    exact .waits hhalted hquiet hcpu
  · rw [hstep] at hcpu ⊢
    exact .serves hime hurgent hcpu (by rw [hcpu]; rfl)
  · rw [hstep] at hcpu ⊢
    have hencoded := (Instr.ofBytes_eq_iff ..).1 hfetch
    exact .executes ⟨hencoded, hnone, hawake⟩ rfl hcpu

/-! ## Pictures -/

/-- A tick completes one picture at most, however long a transfer makes it. -/
theorem frames_tick_le_succ (h : m.board.Reachable) : m.tick.2.frames ≤ m.frames + 1 := by
  obtain ⟨-, helapsed⟩ := frames_tick h
  obtain ⟨-, -, htime, -⟩ := tick_bounds h
  have hplace := h.valid.video.position_lt
  have hframe : dotsPerFrame = 70224 := rfl
  simp only [Video.elapsed, frames, hframe] at *
  omega

/-! ## The record -/

/-- What a watcher is told of the next tick: what the processor does, and then of a picture if one
is completed. -/
def told (m : Machine) : List Event :=
  m.deed?.toList ++ if m.frames < m.tick.2.frames then [.frame] else []

theorem events_tell? (m : Machine) (hrecords : m.watcher.records = true) (e? : Option Event) :
    (m.tell? e?).watcher.events = m.watcher.events ++ e?.toList ∧
      (m.tell? e?).watcher.records = true := by
  cases e? with
  | none => exact ⟨(List.append_nil _).symm, hrecords⟩
  | some e =>
    refine ⟨?_, hrecords⟩
    exact (m.watcher.events_see e).trans (if_pos hrecords)

theorem events_act (hrecords : m.watcher.records = true) :
    m.act.2.watcher.events = m.watcher.events ++ m.deed?.toList ∧
      m.act.2.watcher.records = true :=
  events_tell?
    { m with
      cpu := (m.cpu.step m.board).cpu
      board := (m.cpu.step m.board).bus.report
        ((m.cpu.step m.board).outcome.report? m.cpu.regs.pc) }
    hrecords m.deed?

theorem events_pass (m : Machine) (hrecords : m.watcher.records = true) (frames n : Nat) :
    (m.pass frames n).2.watcher.events = m.watcher.events ++
        (if (m.board.advance n).2.video.frames = frames then none else some Event.frame).toList ∧
      (m.pass frames n).2.watcher.records = true :=
  events_tell? { m with board := (m.board.advance n).2, cycles := m.cycles + (m.board.advance n).1 }
    hrecords _

/-- A watcher that records keeps what it is told. -/
theorem events_tick (h : m.board.Reachable) (hrecords : m.watcher.records = true) :
    m.tick.2.watcher.events = m.watcher.events ++ m.told ∧ m.tick.2.watcher.records = true := by
  obtain ⟨hacted, hstill⟩ := events_act hrecords
  obtain ⟨hpassed, hafter⟩ := m.act.2.events_pass hstill m.board.video.frames
    (machineCycles m.act.1 * cyclesPerMachineCycle)
  rw [← tick_frames, hacted, List.append_assoc] at hpassed
  -- the pictures are counted before and after, and none is taken back
  have hframe : (if m.tick.2.frames = m.frames then none else some Event.frame).toList =
      if m.frames < m.tick.2.frames then [.frame] else [] := by
    have hmore : m.frames ≤ m.tick.2.frames := (frames_tick h).1
    split_ifs <;> first | rfl | omega
  rw [told, ← hframe]
  exact ⟨hpassed, hafter⟩

/-- It is told of as many pictures as are completed. -/
theorem count_told (h : m.board.Reachable) : m.tick.2.frames = m.frames + m.told.count .frame := by
  have hmore : m.frames ≤ m.tick.2.frames := (frames_tick h).1
  have hone := frames_tick_le_succ h
  have hnone : m.deed?.toList.count .frame = 0 := by
    unfold deed? eventOf
    cases m.act.1 <;> rfl
  rw [told, List.count_append, hnone]
  split_ifs
  · change _ = _ + (0 + 1)
    omega
  · change _ = _ + (0 + 0)
    omega

/-- So it is in a run of any number of ticks. -/
theorem events_ticks (h : m.board.Reachable) (hrecords : m.watcher.records = true) (n : Nat) :
    (m.ticks n).watcher.events =
        m.watcher.events ++ (List.range n).flatMap (fun k => (m.ticks k).told) ∧
      (m.ticks n).watcher.records = true ∧
      (m.ticks n).frames =
        m.frames + ((List.range n).flatMap fun k => (m.ticks k).told).count .frame := by
  induction n with
  | zero => exact ⟨(List.append_nil _).symm, hrecords, rfl⟩
  | succ n ih =>
    obtain ⟨hevents, hstill, hframes⟩ := ih
    have hreachable := board_ticks h n
    obtain ⟨htold, hlast⟩ := events_tick hreachable hstill
    have hcount := count_told hreachable
    rw [ticks_succ, htold, hcount, hevents, hframes, List.range_succ, List.flatMap_append,
      List.flatMap_singleton, List.count_append, List.append_assoc, Nat.add_assoc]
    exact ⟨rfl, hlast, rfl⟩

/-- The record of a run of any number of ticks is true. In each tick the processor does exactly one
thing: it serves an interrupt and continues at its handler, or it executes the instruction that the
bytes at `pc` are, whether it was halted before or not and whether the opcode has a meaning or not,
or it is halted and stays so. The record has the vector, or `pc` and the opcode, or nothing for it,
and after it a picture if the tick completed one. No tick completes two, so the record has as many
pictures as were completed. -/
theorem record_faithful (h : m.board.Reachable) (hrecords : m.watcher.records = true) (n : Nat) :
    ∃ deeds : Nat → Option Event,
      (∀ k e?, (m.ticks k).Does e? ↔ e? = deeds k) ∧
      let told := (List.range n).flatMap fun k =>
        (deeds k).toList ++ if (m.ticks k).frames < (m.ticks (k + 1)).frames then [.frame] else []
      (m.ticks n).watcher.events = m.watcher.events ++ told ∧
      (m.ticks n).frames = m.frames + told.count .frame := by
  refine ⟨fun k => (m.ticks k).deed?, fun k e? => ?_, ?_⟩
  · constructor
    · exact fun hdoes => hdoes.unique (m.ticks k).does_deed
    · rintro rfl
      exact (m.ticks k).does_deed
  · obtain ⟨hevents, -, hframes⟩ := events_ticks h hrecords n
    exact ⟨hevents, hframes⟩

/-- A program that waits, watched from power-up for the time of a picture: the first thing that the
watcher is told of is the jump, and there is a picture too. -/
theorem record_faithful_spins :
    ∃ start, powerUp (Cartridge.codeImage [0x18, 0xfe]) { model? := some .cgb } {} = .ok start ∧
      let m : Machine := { start with watcher := .recorder }
      .instruction m.cpu.regs.pc 0x18 ∈ (m.ticks m.frameTicks).watcher.events ∧
      .frame ∈ (m.ticks m.frameTicks).watcher.events := by
  obtain ⟨start, hstart, h, -, hon, hready⟩ := spins_powerUp
  refine ⟨start, hstart, ?_⟩
  intro m
  have hspins : m.Spins :=
    ⟨h.reachable, h.controller, h.place, h.opcode, h.distance, h.awake, h.ime, h.imePending⟩
  obtain ⟨deeds, hdeeds, hevents, hframes⟩ := record_faithful hspins.reachable rfl m.frameTicks
  obtain ⟨-, hnew, -⟩ := hspins.runFrame hon hready
  have hat : m.cpu.IsAt m.board (.jumpBy none 0xfe) :=
    Cpu.isAt_iff.2 ⟨_, congrArg Stepped.outcome hspins.step⟩
  have hfirst : deeds 0 = some (.instruction m.cpu.regs.pc 0x18) := by
    have hopcode : m.read m.cpu.regs.pc = 0x18 := UInt8.toNat_inj.1 hat.encoded.1
    have hdoes := (hdeeds 0 _).1 m.does_deed
    rw [← hdoes, deed?, hopcode]
    exact congrArg (eventOf ·.outcome _ _) hspins.step
  have hpos : 0 < m.frameTicks := (m.lasts_runFrame.complete_eq m.frameTime_pos).1
  rw [hevents]
  refine ⟨List.mem_append_right _ ?_, List.mem_append_right _ ?_⟩
  · refine List.mem_flatMap.2 ⟨0, List.mem_range.2 hpos, List.mem_append_left _ ?_⟩
    rw [hfirst]
    exact List.mem_cons_self
  · rw [← List.count_pos_iff]
    rw [runFrame_eq_ticks] at hnew
    omega

end GameBoy.Machine
