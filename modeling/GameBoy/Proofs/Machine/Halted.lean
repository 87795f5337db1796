import GameBoy.Proofs.Board.Passing
import GameBoy.Proofs.Cpu.Enabling
import GameBoy.Proofs.Cpu.Service
import GameBoy.Proofs.Machine.Runs

/-!
# Waiting is transparent

A halted processor waits a machine cycle at a time. For the rest of the machine these ticks are one
stretch of time, and the request that ends the wait is met by a processor that has changed nothing.

* `Machine.Halted`: a machine whose processor waits while no transfer runs.
* `Halted.tick`: a tick of it, and `Halted.ticks`: the ticks of a whole wait.
* `step_of_woken`: a step of a woken processor is one of a processor that never waited.
* `halt_transparent`: the wait and its end.
-/

namespace GameBoy

/-! ## The first step after a wait -/

namespace Cpu

section Woken

variable {β : Type} [Bus β] {cpu : Cpu} {bus : β}

/-- A step of a woken processor is one of a processor that never waited. -/
theorem step_of_woken (h : pending bus ≠ 0) :
    cpu.step bus = { cpu with halted := false }.step bus := by
  rw [step_of_awake (.inr h), step_of_awake (.inr h)]
  rfl

/-- Only another halt leaves it halted. -/
theorem halted_step_iff (hawake : cpu.halted = false ∨ pending bus ≠ 0) :
    (cpu.step bus).cpu.halted = true ↔ (cpu.step bus).outcome.Executed .halt := by
  have hcontrol : ∀ i : Instr, (cpu.awake.control i).halted = true ↔ i = .halt := by
    intro i
    cases i with
    | halt => exact ⟨fun _ => rfl, fun _ => rfl⟩
    | _ => exact ⟨nofun, nofun⟩
  rcases step_cases cpu bus with ⟨hhalted, hquiet, -⟩ | ⟨i, -, -, hstep⟩ | ⟨i, -, -, -, hstep⟩
  · rcases hawake with hnot | hpending
    · rw [hhalted] at hnot
      cases hnot
    · exact absurd hquiet hpending
  · rw [hstep]
    exact ⟨nofun, fun ⟨_, hexecuted⟩ => nomatch hexecuted⟩
  · rw [hstep]
    simp only [halted_settle, halted_execute, hcontrol]
    constructor
    · rintro rfl
      exact ⟨_, rfl⟩
    · rintro ⟨_, hexecuted⟩
      exact (Outcome.executed.inj hexecuted).1

end Woken

end Cpu

/-- The most urgent interrupt is one of the pending ones, and none of them has a lower number. -/
theorem Interrupt.highest?_least {p : UInt8} {i : Interrupt} (h : highest? p = some i) :
    p &&& i.mask ≠ 0 ∧ ∀ j, p &&& mask j ≠ 0 → i.index ≤ j.index := by
  rw [← head?_inOrder] at h
  obtain ⟨rest, hlist⟩ := List.head?_eq_some_iff.1 h
  refine ⟨(mem_inOrder p i).1 (hlist ▸ List.mem_cons_self), fun j hj => ?_⟩
  have hmem : j ∈ i :: rest := hlist ▸ (mem_inOrder p j).2 hj
  have horder := pairwise_inOrder p
  rw [hlist, List.pairwise_cons] at horder
  rcases List.mem_cons.1 hmem with rfl | hrest
  · exact Nat.le_refl _
  · exact Nat.le_of_lt (horder.1 j hrest)

/-! ## No time -/

theorem Divider.advance_zero {d : Divider} (h : d.count < d.period) : d.advance 0 = (0, d) := by
  simp only [advance, Nat.add_zero, Nat.div_eq_of_lt h, Nat.mod_eq_of_lt h]

theorem Timer.advance_zero {t : Timer} (h : t.Valid) : t.advance 0 = (t, false) := by
  have hcount : t.count 0 = t := by
    show { t with counter := t.counter + 0 } = t
    rw [UInt16.add_zero]
  unfold advance
  rw [Divider.advance_zero h.count_lt, hcount]
  split <;> rfl

theorem Cartridge.advance_zero {c : Cartridge} (h : c.Valid) : c.advance 0 = c := by
  have hcontroller : c.controller.advance 0 = c.controller := by
    have hsecond := h.second
    cases hc : c.controller with
    | mbc3 r =>
      obtain ⟨hperiod, hcount⟩ := hsecond r.seconds (congrArg Controller.seconds? hc)
      simp only [Controller.advance, Divider.advance_zero (hperiod ▸ hcount), Nat.repeat, ite_self]
    | _ => rfl
  rw [advance, hcontroller]

/-- The boards are the same but for the note whether a line was drawn. -/
def Board.Alike (b c : Board) : Prop :=
  ∃ drawn, c = { b with video := { b.video with lineDrawn := drawn } }

theorem Board.Alike.trans {b c d : Board} (h : b.Alike c) (k : c.Alike d) : b.Alike d := by
  obtain ⟨_, rfl⟩ := h
  obtain ⟨drawn, rfl⟩ := k
  exact ⟨drawn, rfl⟩

theorem Location.find_enabled (model : Model) : find model 0xffff = .enabled := by
  cases model <;> rfl

theorem Board.pending_eq (b : Board) :
    Cpu.pending b = b.enabled &&& b.requests.read &&& 0x1f := by
  have henabled : b.read 0xffff = b.enabled := by
    rw [read, Location.find_enabled]
    rfl
  have hrequests : b.read 0xff0f = b.requests.read := by
    rw [read, Location.find_requests]
    rfl
  show b.read 0xffff &&& b.read 0xff0f &&& 0x1f = _
  rw [henabled, hrequests]

/-- Where one interrupt is enabled, it alone counts. -/
theorem Board.pending_eq_zero_iff {b : Board} {i : Interrupt} (h : b.enabled = i.mask) :
    Cpu.pending b = 0 ↔ b.requests.has i = false := by
  have hbits : ∀ x : UInt8, i.mask &&& (x ||| 0xe0) &&& 0x1f = x &&& i.mask := by
    cases i <;>
      exact forall_byte (P := fun x => Interrupt.mask _ &&& (x ||| 0xe0) &&& 0x1f =
        x &&& Interrupt.mask _) (by decide +kernel)
  rw [Board.pending_eq, h, Requests.read, hbits]
  simp [Requests.has]

/-- If the timer alone is enabled, no interrupt is pending before it has counted past `0xff`. -/
theorem Board.Reachable.pending_advance_timer {b : Board} (h : b.Reachable)
    (hidle : b.transfer.active = false) (henabled : b.enabled = Interrupt.timer.mask)
    (hnone : b.requests.has .timer = false) (hon : b.timer.enabled = true) (n : Nat) :
    Cpu.pending (b.advance n).2 = 0 ↔
      b.timer.value.toNat + (b.timer.divider.advance n).1 < 0x100 := by
  have hsame : (b.advance n).2.enabled = b.enabled := by rw [advance_of_idle hidle]
  have htime : (b.advance n).1 = n := by rw [advance_of_idle hidle]
  rw [Board.pending_eq_zero_iff (hsame.trans henabled), Bool.eq_false_iff, ne_eq,
    Board.has_advance h, ← Nat.not_le, not_iff_not, htime, hnone]
  constructor
  · rintro (hbefore | ⟨-, -, hpast⟩ | ⟨d, -, ⟨hvideo, -⟩ | ⟨hvideo, -⟩⟩)
    · cases hbefore
    · exact hpast
    · cases hvideo
    · cases hvideo
  · exact fun hpast => .inr (.inl ⟨rfl, hon, hpast⟩)

theorem Board.Alike.pending {b c : Board} (h : b.Alike c) : Cpu.pending c = Cpu.pending b := by
  obtain ⟨_, rfl⟩ := h
  simp only [Board.pending_eq]

theorem Board.Reachable.advance_zero {b : Board} (h : b.Reachable)
    (hidle : b.transfer.active = false) : b.Alike (b.advance 0).2 := by
  refine ⟨false, ?_⟩
  rw [advance_of_idle hidle, Nat.zero_div, Timer.advance_zero h.valid.timer,
    Video.advance_zero h.valid.video, Cartridge.advance_zero h.valid.cartridge]
  simp only [Requests.union_empty]
  rfl

namespace Machine

/-! ## The wait -/

/-- A machine whose processor waits while no transfer runs. -/
structure Halted (m : Machine) : Prop where
  reachable : m.board.Reachable
  halted : m.cpu.halted = true
  idle : m.board.transfer.active = false

variable {m : Machine}

/-- What the watcher is told of a completed picture is not noted. -/
theorem pass_board (m : Machine) (frames cycles : Nat) :
    (m.pass frames cycles).2.board = (m.board.advance cycles).2 := by
  unfold pass
  simp only
  split <;> rfl

/-- A tick of the wait is a machine cycle in which nothing but time passes. -/
theorem Halted.tick (h : m.Halted) (hquiet : Cpu.pending m.board = 0) :
    m.tick.1 = 4 ∧ m.tick.2.cpu = { m.cpu with served? := none } ∧
      m.tick.2.board = (m.board.advance 4).2 := by
  have hstep := Cpu.step_idle h.halted hquiet
  have houtcome : m.act.1 = .idle := congrArg Stepped.outcome hstep
  have hboard : m.act.2.board = m.board := by
    unfold act
    rw [hstep]
    rfl
  refine ⟨?_, ?_, ?_⟩
  · rw [tick_fst, houtcome, hboard, Board.advance_of_idle h.idle]
    rfl
  · rw [cpu_tick, hstep]
  · refine (pass_board ..).trans ?_
    rw [houtcome, hboard]
    rfl

/-- The machine still waits. -/
theorem Halted.next (h : m.Halted) (hquiet : Cpu.pending m.board = 0) : m.tick.2.Halted := by
  obtain ⟨-, hcpu, hboard⟩ := h.tick hquiet
  refine ⟨reachable_tick h.reachable, ?_, ?_⟩
  · rw [hcpu]
    exact h.halted
  · rw [hboard, Board.advance_of_idle h.idle]
    exact h.idle

/-- The ticks of a wait are one stretch of time, but for the note whether a line was drawn. -/
theorem Halted.ticks (h : m.Halted) {n : Nat}
    (hquiet : ∀ k, k < n → Cpu.pending (m.ticks k).board = 0) :
    (m.ticks n).Halted ∧
      (m.ticks n).cpu = { m.cpu with served? := if n = 0 then m.cpu.served? else none } ∧
      (m.ticks n).board.Alike (m.board.advance (4 * n)).2 := by
  -- from the front: time passes evenly, so the first tick's cycles may be added to the rest's
  induction n generalizing m with
  | zero => exact ⟨h, rfl, h.reachable.advance_zero h.idle⟩
  | succ n ih =>
    have hfirst : Cpu.pending m.board = 0 := hquiet 0 (Nat.succ_pos n)
    obtain ⟨-, hcpu, hboard⟩ := h.tick hfirst
    obtain ⟨hhalted, hstill, hrest⟩ := ih (h.next hfirst) fun k hk =>
      m.ticks_succ_eq k ▸ hquiet (k + 1) (Nat.succ_lt_succ hk)
    obtain ⟨-, hwhole⟩ := h.reachable.advance_in_two h.idle (Nat.dvd_refl 4) (4 * n)
    rw [ticks_succ_eq]
    refine ⟨hhalted, ?_, ?_⟩
    · rw [hstill, hcpu]
      simp
    · rw [hboard] at hrest
      rw [Nat.mul_succ, Nat.add_comm]
      exact hrest.trans ⟨_, hwhole⟩

/-- Time alone decides when the wait ends. -/
theorem Halted.quiet_of_advance (h : m.Halted) {n : Nat}
    (hquiet : ∀ k, k < n → Cpu.pending (m.board.advance (4 * k)).2 = 0) :
    ∀ k, k < n → Cpu.pending (m.ticks k).board = 0 := by
  intro k hk
  induction k using Nat.strongRecOn with
  | ind k ih =>
    have hbefore : ∀ j, j < k → Cpu.pending (m.ticks j).board = 0 :=
      fun j hj => ih j hj (Nat.lt_trans hj hk)
    rw [← (h.ticks hbefore).2.2.pending]
    exact hquiet k hk

/-- A tick of a woken machine is one of a machine that never waited. -/
theorem tick_of_woken (hpending : Cpu.pending m.board ≠ 0) :
    m.tick = { m with cpu.halted := false }.tick := by
  unfold tick act
  rw [Cpu.step_of_woken hpending]

/-- A wait changes nothing for anyone else. While no interrupt is pending, each tick takes four
clock cycles, the processor keeps all it holds but the note what it served last, and everything else
makes of `n` ticks what it makes of `4 * n` cycles at once. The first tick that finds one pending
ends the wait, unless it executes another halt. With interrupts disabled it executes the instruction
at the address where the processor waited, as if it had never waited: nothing is written but what
the instruction writes. With interrupts enabled it serves the most urgent one and pushes that
address. -/
theorem halt_transparent {m : Machine} (h : m.Reachable) (hhalted : m.cpu.halted = true)
    (hidle : m.board.transfer.active = false) (n : Nat)
    (hquiet : ∀ k, k < n → Cpu.pending (m.ticks k).board = 0) :
    let w := m.ticks n
    (∀ k, k < n → (m.ticks k).tick.1 = 4) ∧
      w.cpu = { m.cpu with served? := if n = 0 then m.cpu.served? else none } ∧
      w.board.Alike (m.board.advance (4 * n)).2 ∧
      (Cpu.pending w.board ≠ 0 →
        (w.tick.2.cpu.halted = true ↔ w.act.1.Executed .halt) ∧
        (m.cpu.ime = false →
          let i := Cpu.fetch w.board m.cpu.regs.pc
          w.act.1.Executed i ∧ w.tick = { w with cpu.halted := false }.tick ∧
            w.writes = (i.operate (m.cpu.regs.goto (m.cpu.regs.pc + i.length))
              (Traced.mk w.board [])).2.writes) ∧
        (m.cpu.ime = true →
          ∃ i : Interrupt, w.act.1 = .served i ∧ Cpu.pending w.board &&& i.mask ≠ 0 ∧
            (∀ j : Interrupt, Cpu.pending w.board &&& j.mask ≠ 0 → i.index ≤ j.index) ∧
            w.writes = [(0xff0f, w.read 0xff0f &&& ~~~i.mask),
              (m.cpu.regs.sp - 1, highByte m.cpu.regs.pc),
              (m.cpu.regs.sp - 2, lowByte m.cpu.regs.pc)] ∧
            w.tick.2.cpu = { m.cpu with
              regs := { m.cpu.regs with sp := m.cpu.regs.sp - 2, pc := i.vector }
              ime := false, imePending := false, halted := false, served? := some i })) := by
  intro w
  have hbegin : m.Halted := ⟨h.board, hhalted, hidle⟩
  obtain ⟨-, hcpu, hboard⟩ := hbegin.ticks hquiet
  have hregs : w.cpu.regs = m.cpu.regs := by rw [hcpu]
  refine ⟨fun k hk => ?_, hcpu, hboard, fun hpending => ⟨?_, fun hime => ?_, fun hime => ?_⟩⟩
  · have hfirst := (hbegin.ticks fun j hj => hquiet j (Nat.lt_trans hj hk)).1
    exact (hfirst.tick (hquiet k hk)).1
  · rw [cpu_tick]
    exact Cpu.halted_step_iff (.inr hpending)
  · have hdisabled : w.cpu.ime = false := by
      rw [hcpu]
      exact hime
    have hnone : ¬ (w.cpu.ime = true ∧ Cpu.pending w.board ≠ 0) := by simp [hdisabled]
    have hstep := Cpu.step_executed (.inr hpending) hnone rfl
    have hwrites := Cpu.writes_of_executed (.inr hpending) hnone rfl
    rw [hregs] at hstep hwrites
    exact ⟨⟨_, congrArg Stepped.outcome hstep⟩, tick_of_woken hpending, hwrites⟩
  · have henabled : w.cpu.ime = true := by
      rw [hcpu]
      exact hime
    obtain ⟨i, hi⟩ := Option.ne_none_iff_exists'.1 (mt Cpu.highest?_pending_eq_none_iff.1 hpending)
    have hstep := Cpu.step_served henabled hi
    have hwrites := Cpu.writes_of_highest henabled hi
    obtain ⟨hmember, hleast⟩ := Interrupt.highest?_least hi
    rw [hregs] at hwrites
    refine ⟨i, congrArg Stepped.outcome hstep, hmember, hleast, hwrites, ?_⟩
    rw [cpu_tick, hstep, hcpu]
    rfl

/-- The machine after a halt. -/
theorem Plain.halt {image : ByteArray} {r : Registers} {p : Nat} {t : Transfer}
    (h : m.Plain image r p t) (hidle : t.active = false)
    (hfetch : Cpu.fetch m.board r.pc = .halt) :
    m.tick.2.cpu.halted = true ∧ m.tick.2.cpu.ime = false ∧ m.tick.2.cpu.regs.pc = r.pc + 1 ∧
      m.tick.2.board.model = .cgb ∧ m.tick.2.board.transfer.active = false ∧
      m.tick.2.board.timer = (m.board.timer.advance 4).1 := by
  have hnone : ¬ (m.cpu.ime = true ∧ Cpu.pending m.board ≠ 0) := by simp [h.ime]
  have hstep := Cpu.step_executed (.inl h.awake) hnone (h.regs ▸ hfetch)
  have houtcome : m.act.1 = .executed .halt 1 := congrArg Stepped.outcome hstep
  obtain ⟨journal, hact⟩ := m.act_board
  rw [hstep] at hact
  have hstill : m.act.2.board.transfer.active = false := by
    rw [hact]
    show m.board.transfer.active = false
    rw [h.transfer, hidle]
  have hboard : m.tick.2.board = _ :=
    (pass_board ..).trans (congrArg Prod.snd (Board.advance_of_idle hstill _))
  refine ⟨?_, ?_, ?_, ?_, ?_, ?_⟩
  · rw [cpu_tick]
    exact (Cpu.halted_step_iff (.inl h.awake)).2 ⟨_, houtcome⟩
  · rw [cpu_tick, hstep, h.imePending]
    exact h.ime
  · rw [cpu_tick, hstep, h.imePending, ← h.regs]
    rfl
  · rw [hboard, hact]
    exact h.model
  · rw [hboard]
    exact hstill
  · rw [hboard, houtcome, hact]
    rfl

/-- A machine waits for the timer, with interrupts disabled: it counts past `0xff` in the fourth
machine cycle of the wait, and the fifth tick goes on with the program. -/
theorem halt_transparent_timer :
    ∃ start, powerUp (Cartridge.codeImage [0x76]) { model? := some .cgb } {} = .ok start ∧
      let m := performAll start [.tick, .write 0xff0f 0x00, .write 0xffff 0x04, .write 0xff05 0xff,
        .write 0xff07 0x05]
      m.cpu.halted = true ∧
        (∀ k, k < 4 → Cpu.pending (m.ticks k).board = 0 ∧ (m.ticks k).tick.1 = 4) ∧
        Cpu.pending (m.ticks 4).board ≠ 0 ∧
        (m.ticks 4).act.1.Executed (Cpu.fetch (m.ticks 4).board 0x0101) := by
  obtain ⟨start, hstart, hplain⟩ := plain_powerUp (show [0x76].length ≤ 0x34 by decide)
  refine ⟨start, hstart, ?_⟩
  intro m
  have hmachine : m.Reachable := ⟨_, _, _, start, _, hstart, rfl⟩
  have hfetch : Cpu.fetch start.board (Registers.powerUp .cgb).pc = .halt := by
    rw [hplain.fetch_code (k := 0) rfl (by decide)]
    rfl
  obtain ⟨hhalted, hime, hpc, hmodel, hstill, htimer⟩ := hplain.halt rfl hfetch
  have hwrites : ∀ c : Board, c.model = .cgb →
      (((c.write 0xff0f 0x00).write 0xffff 0x04).write 0xff05 0xff).write 0xff07 0x05 =
        { c with
          requests := .write 0x00
          enabled := 0x04
          timer := (c.timer.write .value 0xff).write .control 0x05 } := by
    rintro ⟨model, _⟩ rfl
    rfl
  have hm : m.board = _ := hwrites start.tick.2.board hmodel
  have hidle : m.board.transfer.active = false := by
    rw [hm]
    exact hstill
  have hwaits : m.Halted := ⟨hmachine.board, hhalted, hidle⟩
  have hcounts : m.board.timer =
      { counter := 4, value := 0xff, control := 0x05, divider := { period := 16 } } := by
    have hstart : start.board.timer = {} := by
      obtain ⟨cartridge, model, notices, -, rfl⟩ := powerUp_eq_ok hstart
      rfl
    rw [hm, htimer, hstart]
    rfl
  have hpending : ∀ k, Cpu.pending (m.board.advance (4 * k)).2 = 0 ↔ k < 4 := by
    intro k
    have hpulses : 0xff + (0 + 4 * k) / 16 < 0x100 ↔ k < 4 := by omega
    have hnone : m.board.requests.has .timer = false := by
      rw [hm]
      show (Requests.write 0x00).has .timer = false
      decide
    rw [hmachine.board.pending_advance_timer hidle (by rw [hm]; rfl) hnone (by rw [hcounts]; rfl),
      hcounts]
    exact hpulses
  have hquiet := hwaits.quiet_of_advance fun k hk => (hpending k).2 hk
  obtain ⟨htimes, hsame, halike, hends⟩ := halt_transparent hmachine hhalted hidle 4 hquiet
  have hwoken : Cpu.pending (m.ticks 4).board ≠ 0 := by
    rw [← halike.pending]
    exact mt (hpending 4).1 (by decide)
  obtain ⟨hexecuted, -⟩ := (hends hwoken).2.1 hime
  refine ⟨hhalted, fun k hk => ⟨hquiet k hk, htimes k hk⟩, hwoken, ?_⟩
  have hfinal : m.cpu.regs.pc = 0x0101 := hpc
  rwa [hfinal] at hexecuted

end Machine

end GameBoy
