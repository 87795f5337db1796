import GameBoy.Proofs.Machine.Requests
import GameBoy.Proofs.Machine.Straight

/-!
# What every tick does

In a tick all clocks run for one and the same time, and the requests that are there afterwards are
those from before, less what was served, and those there is a cause for. A tick in which a transfer
is started and all of its blocks are copied serves as an example of both.

* `time_of_ticks`: how long a tick is, and what the clocks tell after a run.
* `requests_kept`: the requests after a tick, a press of a button, and a write.
-/

namespace GameBoy.Machine

/-- Every tick of every reachable machine takes a positive number of whole machine cycles, at most
2072 clock cycles, and all clocks run for just that time: the timer at the processor's rate, the
display and the cartridge at the normal one. So in a run of ticks that never switches the
display off, pictures, lines and dots tell the time of the normal rate, and if the counter is
never cleared either, it tells the time of the processor. -/
theorem time_of_ticks :
    (∀ m : Machine, m.Reachable →
      0 < m.tick.1 ∧ 4 ∣ m.tick.1 ∧ m.tick.1 ≤ 2072 ∧ m.factor ∣ m.tick.1 ∧
      m.tick.2.cycles = m.cycles + m.tick.1 ∧
      m.tick.2.board.timer = (m.act.2.board.timer.advance m.tick.1).1 ∧
      m.tick.2.board.video =
        (m.act.2.board.runTransfer.video.advance (m.tick.1 / m.factor)).1 ∧
      m.tick.2.board.cartridge = m.act.2.board.cartridge.advance (m.tick.1 / m.factor)) ∧
    ∀ image options journal start n, powerUp image options journal = .ok start →
      (∀ k, k < n → ∀ w ∈ (start.ticks k).writes, ¬ (w.1 = 0xff40 ∧ w.2 &&& 0x80 = 0)) →
      let v := (start.ticks n).board.video
      v.frames * 70224 + 456 * v.line + v.dot =
          ((List.range n).map fun k => (start.ticks k).tick.1 / (start.ticks k).factor).sum ∧
        ((∀ k, k < n → ∀ w ∈ (start.ticks k).writes, w.1 ≠ 0xff04) →
          (start.ticks n).board.timer.counter = UInt16.ofNat (start.ticks n).cycles) := by
  refine ⟨?_, ?_⟩
  · intro m h
    obtain ⟨hpos, hfour, hle, hfactor⟩ := tick_bounds h.board
    exact ⟨hpos, hfour, hle, hfactor, m.tick_cycles, m.tick_devices⟩
  · intro image options journal start n hstart hw v
    obtain ⟨hboard, hcycles, hcounter, hon, helapsed⟩ := powerUp_start hstart
    obtain ⟨-, hsum⟩ := elapsed_ticks hboard hon n hw
    refine ⟨?_, counter_ticks (hcounter.trans (congrArg UInt16.ofNat hcycles).symm) n⟩
    rw [helapsed, Nat.zero_add] at hsum
    rw [← hsum, Nat.add_assoc]
    rfl

/-- Two loads, and a store that has 128 blocks copied. -/
theorem time_of_ticks_transfer :
    ∃ start, powerUp (Cartridge.codeImage (bothTransfers 0x7f)) { model? := some .cgb } {} =
        .ok start ∧
      start.tick.1 = 12 ∧ (start.ticks 1).tick.1 = 8 ∧
      (start.ticks 2).writes = [(0xff55, 0x7f)] ∧ (start.ticks 2).tick.1 = 1032 ∧
      let m := start.ticks 3
      m.board.video.frames * 70224 + 456 * m.board.video.line + m.board.video.dot = 1052 ∧
        m.cycles = 1052 ∧ m.board.timer.counter = 1052 := by
  obtain ⟨start, hstart, h₀, h₁, hplain⟩ := plain_loads 0x7f
  obtain ⟨hfetch, heffect, -, hlong⟩ := hplain.starts (by decide)
  have h₂ : (start.ticks 2).Takes 1032 [(0xff55, 0x7f)] := hplain.takes hfetch heffect hlong
  have hwrites : ∀ k, k < 3 → ∀ w ∈ (start.ticks k).writes, w.1 = 0xff55 := by
    intro k hk w hw
    obtain rfl | rfl | rfl : k = 0 ∨ k = 1 ∨ k = 2 := by omega
    · exact absurd (h₀.writes ▸ hw) List.not_mem_nil
    · exact absurd (h₁.writes ▸ hw) List.not_mem_nil
    · rw [h₂.writes, List.mem_singleton] at hw
      rw [hw]
  obtain ⟨htick, hrun⟩ := time_of_ticks
  have hreachable : start.Reachable := ⟨_, _, _, start, [], hstart, rfl⟩
  have hcycles : (start.ticks 3).cycles = 1052 := by
    have hnext : ∀ k, (start.ticks (k + 1)).cycles =
        (start.ticks k).cycles + (start.ticks k).tick.1 :=
      fun k => (htick _ (hreachable.ticks k)).2.2.2.2.1
    have hzero : start.cycles = 0 := (powerUp_start hstart).2.1
    rw [hnext, hnext, hnext, h₂.time, h₁.time]
    change start.cycles + start.tick.1 + 8 + 1032 = 1052
    rw [hzero, h₀.time]
  obtain ⟨hsum, hcounter⟩ := hrun _ _ _ start 3 hstart fun k hk w hw hoff =>
    absurd ((hwrites k hk w hw).symm.trans hoff.1) (by decide)
  refine ⟨start, hstart, h₀.time, h₁.time, h₂.writes, h₂.time, hsum.trans ?_, hcycles, ?_⟩
  · change start.tick.1 / start.factor + ((start.ticks 1).tick.1 / (start.ticks 1).factor +
      ((start.ticks 2).tick.1 / (start.ticks 2).factor + 0)) = 1052
    rw [h₀.dots, h₁.dots, h₂.dots]
  · rw [hcounter fun k hk w hw => by rw [hwrites k hk w hw]; decide, hcycles]
    rfl

/-- The timer counts past `0xff` in the time of an instruction, and of what is copied. -/
theorem Plain.raises_timer {m : Machine} {image : ByteArray} {r r' : Registers} {p : Nat}
    {t t' : Transfer} {i : Instr} (h : m.Plain image r p t)
    (hfetch : Cpu.fetch m.board r.pc = i) (heffect : i.Effect r t r' t') {n : Nat}
    (hn : 4 * max (i.cycles (i.taken r.flags)) 1 + 8 * m.blocksCopied = n)
    (hon : m.board.timer.enabled = true)
    (hpast : 0x100 ≤ m.board.timer.value.toNat + (m.board.timer.divider.advance n).1) :
    m.Raises .timer := by
  obtain ⟨journal, hact⟩ := h.act_board hfetch heffect
  rw [Raises, (h.takes hfetch heffect hn).time, hact]
  exact ⟨hon, hpast⟩

/-- No request is lost or invented. In a tick whose program does not write the request register, a
request remains unless it is served, and a new one is there exactly when there is a cause for it. A
press of a button requests the buttons' interrupt and no other. A write to any other register than
those of the requests and of the display's conditions changes no request. -/
theorem requests_kept {m : Machine} (h : m.Reachable) :
    ((∀ w ∈ m.programWrites, w.1 ≠ 0xff0f) → ∀ i,
      (m.tick.2.board.requests.has i = true ↔
        (m.board.requests.has i = true ∧ m.act.1 ≠ .served i) ∨ m.Raises i)) ∧
    (∀ n i, (m.press n).board.requests.has i = true ↔
      m.board.requests.has i = true ∨
        i = .buttons ∧ ∃ key, Button.ofIndex? n = some key ∧
          m.board.buttons.isHeld key = false) ∧
    ∀ a v, a ≠ 0xff0f → a ≠ 0xff40 → a ≠ 0xff41 → a ≠ 0xff45 →
      (m.write a v).board.requests = m.board.requests :=
  ⟨has_tick h.board, m.has_press, fun _ v ha hcontrol hstatus hcompare =>
    m.board.requests_write ha hcontrol hstatus hcompare v⟩

/-- As 128 blocks are copied, the timer counts past `0xff`; it counts every 16 cycles from the
start, since choosing another period empties its divider. What the serial port has requested before
remains; no button is pressed yet. -/
theorem requests_kept_transfer :
    ∃ start, powerUp (Cartridge.codeImage (bothTransfers 0x7f)) { model? := some .cgb } {} =
        .ok start ∧
      let m := ((((start.ticks 2).write 0xff0f 0x08).write 0xff05 0xff).write 0xff07 0x04).write
        0xff07 0x05
      m.programWrites = [(0xff55, 0x7f)] ∧
        m.board.requests.has .serial = true ∧ m.tick.2.board.requests.has .serial = true ∧
        m.board.requests.has .timer = false ∧ m.tick.2.board.requests.has .timer = true ∧
        m.tick.2.board.requests.has .buttons = false ∧
        (m.press 3).board.requests.has .buttons = true ∧
        (m.write 0xff44 7).board.requests = m.board.requests := by
  obtain ⟨start, hstart, -, -, hloaded⟩ := plain_loads 0x7f
  have hreachable : start.Reachable := ⟨_, _, _, start, [], hstart, rfl⟩
  refine ⟨start, hstart, ?_⟩
  have hbefore := hreachable.ticks 2
  generalize start.ticks 2 = before at *
  intro m
  have hmachine : m.Reachable :=
    (((hbefore.perform (.write 0xff0f 0x08)).perform (.write 0xff05 0xff)).perform
      (.write 0xff07 0x04)).perform (.write 0xff07 0x05)
  have hwritten : ∀ b : Board, b.model = .cgb →
      (((b.write 0xff0f 0x08).write 0xff05 0xff).write 0xff07 0x04).write 0xff07 0x05 =
        { b with
          requests := .write 0x08
          timer := ((b.timer.write .value 0xff).write .control 0x04).write .control 0x05 } := by
    rintro ⟨model, _⟩ rfl
    rfl
  have hm := hwritten before.board hloaded.model
  have hplain := hloaded.of_devices hmachine.board rfl hm
  obtain ⟨hfetch, heffect, -, hlong⟩ := hplain.starts (by decide)
  have houtcome := hplain.act_fst hfetch heffect
  have hwrites : m.programWrites = [(0xff55, 0x7f)] := by
    rw [programWrites, houtcome]
    exact (hplain.takes hfetch heffect hlong).writes
  have hserved : m.act.1 ≠ .served .serial := by
    intro hserved
    cases houtcome.symm.trans hserved
  have hbits : ∀ i, m.board.requests.has i = (Requests.write 0x08).has i := fun i =>
    congrArg (fun b : Board => b.requests.has i) hm
  have htimer : m.board.timer =
      ((before.board.timer.write .value 0xff).write .control 0x04).write .control 0x05 :=
    congrArg Board.timer hm
  have hdivider : m.board.timer.divider = { period := 16 } := by
    rw [htimer]
    exact if_neg (show ¬ (0x04 &&& 0x07 &&& 0x03 : UInt8) = 0x05 &&& 0x07 &&& 0x03 by decide)
  have hraises : m.Raises .timer := by
    refine hplain.raises_timer hfetch heffect hlong ?_ ?_
    · rw [htimer]
      exact show (0x05 &&& 0x07 &&& 0x04 : UInt8) != 0 by decide
    · rw [hdivider, htimer]
      exact show 0x100 ≤ 0xff + (0 + 1032) / 16 by decide
  obtain ⟨htick, hpress, hwrite⟩ := requests_kept hmachine
  have hafter := htick fun w hw => by
    rw [hwrites, List.mem_singleton] at hw
    rw [hw]
    decide
  have hheld : m.board.buttons.isHeld .down = false := by
    rw [hplain.buttons]
    rfl
  have hquiet : m.tick.2.board.requests.has .buttons = false := by
    rw [← Bool.not_eq_true, hafter]
    rintro (⟨hbefore, -⟩ | hcause)
    · cases (hbits .buttons).symm.trans hbefore
    · exact hcause
  exact ⟨hwrites, hbits .serial, (hafter .serial).2 (.inl ⟨hbits .serial, hserved⟩),
    hbits .timer, (hafter .timer).2 (.inr hraises), hquiet,
    (hpress 3 .buttons).2 (.inr ⟨rfl, .down, rfl, hheld⟩),
    hwrite 0xff44 7 (by decide) (by decide) (by decide) (by decide)⟩

end GameBoy.Machine
