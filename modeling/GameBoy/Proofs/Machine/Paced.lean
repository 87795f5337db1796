import GameBoy.Proofs.Machine.Straight

/-!
# What paced transfers copy, and when

A paced transfer copies a block for each line that is drawn, in the tick after it. A tick without a
general transfer is short, and finds the display still in that line. A general transfer can make a
tick so long that the display has gone on: the note that a line was drawn is then still there, and a
paced transfer started by the next instruction copies its first block wherever the display is.

* `Reachable.followsLines`: no block is left out or copied twice.
* `Machine.DrewLately`: at the end of a tick the display is still in the line drawn last.
* `copies_after_line`: so it is when a block is copied, unless the tick before it was too long.
* `copies_in_transfer`: a program that makes it too long.
-/

namespace GameBoy

namespace Machine

variable {m : Machine}

/-! ## No block is left out or copied twice -/

/-- What paced transfers do in the runs that begin with a machine. -/
structure FollowsLines (m : Machine) : Prop where
  /-- In ticks, with other requests between them, that find a paced transfer running whenever time
  passes, as many blocks are copied after the first one as lines are drawn before the last one. -/
  sums : ∀ between n, (∀ k, ∀ r ∈ between k, Request.IsInstant r) →
    (∀ k, k ≤ n → (m.run between k).Paces) →
    ((List.range n).map fun k => (m.run between (k + 1)).blocksCopied).sum =
      ((List.range n).map fun k => (m.run between k).linesDrawn).sum
  /-- A tick copies nothing, or one block from where the transfer stands to where it stands. -/
  blocks : m.Paces →
    (m.blocksCopied = 0 ∧ m.tick.2.board.transfer = m.act.2.board.transfer ∧
      m.tick.2.board.video.vram = m.act.2.board.video.vram) ∨
    m.blocksCopied = 1 ∧ Board.Landed m.act.2.board m.tick.2.board
  /-- A transfer that is started on some board while no paced one runs, and not stopped, ends with
  its last block. Before, the control register tells how many follow the next one; afterwards, until
  it is written again, that there are none. -/
  started : ∀ b : Board, b.model = .cgb → b.transfer.isPacing = false → ∀ x : UInt8, x < 0x80 →
    let started := b.write 0xff55 (0x80 ||| x)
    ∀ as bs : List Board.Action, (∀ a ∈ as ++ bs, ¬ a.Stops) → (∀ a ∈ bs, ¬ a.Rewrites) →
      started.blocksCopied as ≤ x.toNat →
      let after := performAll started (as ++ bs)
      let copied := started.blocksCopied (as ++ bs)
      copied ≤ x.toNat + 1 ∧
        (copied ≤ x.toNat →
          after.transfer.isPacing = true ∧ (after.read 0xff55).toNat = x.toNat - copied) ∧
        (copied = x.toNat + 1 → after.transfer.active = false ∧ after.read 0xff55 = 0xff)
  /-- What ticks and other requests do to the board is such a course of actions. -/
  course : ∀ between n, (∀ k, ∀ r ∈ between k, Request.IsInstant r) →
    Board.Leads m.board
      ((List.range n).flatMap fun k =>
        (m.run between k).writes ++ (between k).filterMap Request.write?)
      ((List.range n).map fun k => (m.run between k).blocksCopied).sum
      (m.run between n).board

/-- Paced transfers neither leave out a block nor copy one twice, whatever the program does and
whatever the clock rate. -/
theorem Reachable.followsLines (h : m.Reachable) : m.FollowsLines where
  sums := by
    intro between n hinstant hpaces
    refine congrArg List.sum (List.map_congr_left fun k hk => ?_)
    have hlt := List.mem_range.1 hk
    exact blocksCopied_next (board_run h.board between k) (hpaces k (Nat.le_of_lt hlt))
      (hinstant k) (hpaces (k + 1) hlt)
  blocks := tick_paced h.board
  started := by
    intro b hmodel hidle x hx started as bs hstop hkept hmore
    exact Board.course_started hmodel hidle hx hstop hkept hmore
  course _ n hinstant := m.leads_run hinstant n

/-! ## A program -/

/-- When the processor comes to start the paced transfer, the general one has ended, and as many
dots have passed as it took. -/
theorem plain_bothTransfers {x : UInt8} (hx : x < 0x80) :
    ∃ start, powerUp (Cartridge.codeImage (bothTransfers x)) { model? := some .cgb } {} =
        .ok start ∧
      ∃ r t t', (start.ticks 3).Plain (Cartridge.codeImage (bothTransfers x)) r
          (36 + 8 * x.toNat) t ∧
        t.isPacing = false ∧ Cpu.fetch (start.ticks 3).board r.pc = .load .atHL (.reg .d) ∧
        (Instr.load .atHL (.reg .d)).Effect r t (r.goto 0x0107) t' ∧ t'.Owes .hblank 0x80 ∧
        ((start.ticks 3).board.video.lineDrawn = true ↔
          ∃ d, d < 16 + 8 * x.toNat ∧ ∃ l, l < screenHeight ∧
            (20 + (d + 1)) % dotsPerFrame = Video.drawnAt l) := by
  obtain ⟨start, hstart, -, -, h₂⟩ := plain_loads x
  have hsmall : x.toNat < 0x80 := UInt8.lt_iff_toNat_lt.1 hx
  -- all blocks are copied at once
  obtain ⟨hfetch, heffect, hcopied, hdots⟩ := h₂.starts hx
  have hplace : (20 + (16 + 8 * x.toNat)) % dotsPerFrame = 36 + 8 * x.toNat := by
    rw [show dotsPerFrame = 70224 from rfl]
    omega
  have h₃ := h₂.tick hfetch heffect hdots
  have hdrawn := h₂.lineDrawn_tick hfetch heffect hdots
  rw [← ticks_succ] at h₃ hdrawn
  rw [hplace, hcopied] at h₃
  -- the paced transfer
  have hended := (Transfer.owes_start (t := {}) rfl hx).1.repeat_afterBlock (Nat.le_refl _)
  rw [Nat.sub_self] at hended
  generalize Nat.repeat Transfer.afterBlock (x.toNat + 1) _ = t at *
  have hidle : t.isPacing = false := by simp [Transfer.isPacing, hended.1]
  exact ⟨start, hstart, (beforeTransfer x).goto 0x0106, t, _, h₃, hidle,
    (h₃.fetch_code (k := 6) rfl (by decide)).trans
      (show Instr.ofBytes 0x72 0 0 = .load .atHL (.reg .d) from rfl),
    Instr.effect_store (r := (beforeTransfer x).goto 0x0106) (hl_beforeTransfer x) t,
    (Transfer.owes_start hidle (show (0x7f : UInt8) < 0x80 by decide)).2, hdrawn⟩

/-- With 27 blocks before it, the paced transfer finds the first line drawn in the tick in which it
is started, and copies a block in the next one. -/
theorem paces_bothTransfers :
    ∃ start, powerUp (Cartridge.codeImage (bothTransfers 0x1a)) { model? := some .cgb } {} =
        .ok start ∧
      (start.ticks 3).board.model = .cgb ∧ (start.ticks 3).board.transfer.isPacing = false ∧
      (start.ticks 3).Paces ∧ (start.ticks 3).blocksCopied = 0 ∧
      (start.ticks 4).Paces ∧ (start.ticks 4).blocksCopied = 1 := by
  obtain ⟨start, hstart, r, t, t', h₃, hidle, hfetch, heffect, howes, hdrawn⟩ :=
    plain_bothTransfers (x := 0x1a) (by decide)
  have hframe : dotsPerFrame = 70224 := rfl
  obtain ⟨hpaces, hcopied⟩ := h₃.blocksCopied_of_pacing hfetch heffect howes.isPacing
  have hnone : (start.ticks 3).board.video.lineDrawn = false := by
    rw [← Bool.not_eq_true, hdrawn]
    rintro ⟨d, hd, l, hl, hplace⟩
    change d < 224 at hd
    simp only [hframe, Video.drawnAt, dotsPerLine] at hplace
    omega
  rw [hnone] at hcopied
  replace hcopied : (start.ticks 3).blocksCopied = 0 := hcopied
  have hdots : 4 * max ((Instr.load .atHL (.reg .d)).cycles ((Instr.load .atHL (.reg .d)).taken
      r.flags)) 1 + 8 * (start.ticks 3).blocksCopied = 8 := by
    rw [hcopied]
    rfl
  have h₄ := h₃.tick hfetch heffect hdots
  have hnow := (h₃.lineDrawn_tick hfetch heffect hdots).2 ⟨7, by decide, 0, by decide, rfl⟩
  rw [← ticks_succ] at h₄ hnow
  rw [hcopied] at h₄
  obtain ⟨hpaces', hcopied'⟩ := h₄.blocksCopied_of_pacing
    ((h₄.fetch_code (k := 7) rfl (by decide)).trans (show Instr.ofBytes 0 0 0 = .nop from rfl))
    (Instr.effect_nop _ _) howes.isPacing
  rw [hnow] at hcopied'
  exact ⟨start, hstart, h₃.model, h₃.transfer ▸ hidle, hpaces, hcopied, hpaces', hcopied'⟩

/-- The line that is drawn as the paced transfer is started, its block, and a transfer of 128
blocks. -/
theorem followsLines_bothTransfers :
    ∃ start, powerUp (Cartridge.codeImage (bothTransfers 0x1a)) { model? := some .cgb } {} =
        .ok start ∧
      (start.ticks 3).Paces ∧ (start.ticks 4).Paces ∧ (start.ticks 3).linesDrawn = 1 ∧
      Board.Landed (start.ticks 4).act.2.board (start.ticks 5).board ∧
      (((start.ticks 3).board.write 0xff55 0xff).read 0xff55).toNat = 0x7f := by
  obtain ⟨start, hstart, hmodel, hidle, hpaces, -, hpaces', hcopied⟩ := paces_bothTransfers
  have hreachable : start.Reachable := ⟨_, _, _, start, [], hstart, rfl⟩
  have hrun := (hreachable.ticks 3).followsLines.sums (fun _ => []) 1
    (fun _ _ hr => absurd hr List.not_mem_nil) <| by
      intro k hk
      rcases Nat.le_one_iff_eq_zero_or_eq_one.1 hk with rfl | rfl
      · exact hpaces
      · exact hpaces'
  have hlanded : Board.Landed (start.ticks 4).act.2.board (start.ticks 5).board := by
    rcases (hreachable.ticks 4).followsLines.blocks hpaces' with ⟨hnone, -⟩ | ⟨-, hlanded⟩
    · cases hcopied.symm.trans hnone
    · exact hlanded
  have hread := (hreachable.ticks 3).followsLines.started (start.ticks 3).board hmodel hidle 0x7f
    (by decide) [] [] nofun nofun (Nat.zero_le _)
  refine ⟨start, hstart, hpaces, hpaces', ?_, hlanded, (hread.2.1 (Nat.zero_le _)).2⟩
  change (start.ticks 4).blocksCopied + 0 = (start.ticks 3).linesDrawn + 0 at hrun
  rw [← Nat.add_zero (start.ticks 3).linesDrawn, ← hrun, hcopied]

end Machine

/-! ## Where the display is -/

namespace Board

/-- A write changes the phase only by switching the display on or off. -/
theorem phase_write {b : Board} {a : UInt16} {v : UInt8}
    (h : a = 0xff40 → (Control.mk v).isOn = b.video.control.isOn) :
    (b.write a v).video.control.isOn = b.video.control.isOn ∧
      (b.write a v).video.phase = b.video.phase := by
  have hfind : Location.find b.model a = .video .control →
      (Control.mk v).isOn = b.video.control.isOn := fun hl => h (Location.find_eq_control hl)
  unfold write
  generalize Location.find b.model a = l at hfind
  cases l with
  | video l => exact b.video.phase_write l v fun hl => hfind (congrArg _ hl)
  | spriteCopy =>
    obtain ⟨page, oam, hcopied⟩ := b.copySprites_frame v
    simp only [writeAt, hcopied]
    exact ⟨trivial, trivial⟩
  | _ => exact ⟨rfl, rfl⟩

theorem control_write (b : Board) (v : UInt8) : (b.write 0xff40 v).video.control = ⟨v⟩ := by
  have hfind : Location.find b.model 0xff40 = .video .control := by cases b.model <;> rfl
  rw [write, hfind]
  exact b.video.control_setControl v

theorem phase_writeAll_of_ne {b : Board} {ws : List (UInt16 × UInt8)}
    (h : ∀ w ∈ ws, w.1 ≠ 0xff40) :
    (Bus.writeAll b ws).video.control.isOn = b.video.control.isOn ∧
      (Bus.writeAll b ws).video.phase = b.video.phase := by
  induction ws generalizing b with
  | nil => exact ⟨rfl, rfl⟩
  | cons w ws ih =>
    obtain ⟨hon, hphase⟩ := phase_write (b := b) (v := w.2)
      fun ha => absurd ha (h w List.mem_cons_self)
    obtain ⟨hon', hphase'⟩ := ih (b := b.write w.1 w.2) fun x hx => h x (List.mem_cons_of_mem w hx)
    exact ⟨hon'.trans hon, hphase'.trans hphase⟩

/-- A display that is on after some writes, which reach its control register once at most, was not
switched off by any of them. -/
theorem not_switchesOff {b : Board} {ws : List (UInt16 × UInt8)}
    (honce : (ws.map Prod.fst).count 0xff40 ≤ 1)
    (hon : (Bus.writeAll b ws).video.control.isOn = true) :
    ∀ w ∈ ws, ¬ Machine.SwitchesOff w := by
  induction ws generalizing b with
  | nil => nofun
  | cons w ws ih =>
    rintro x hx ⟨hcontrol, hoff⟩
    by_cases hw : w.1 = 0xff40
    · -- no other write reaches it
      have hnone : (ws.map Prod.fst).count 0xff40 = 0 := by simpa [hw] using honce
      have hrest : ∀ y ∈ ws, y.1 ≠ 0xff40 := fun y hy hreaches =>
        List.count_eq_zero.1 hnone (List.mem_map.2 ⟨y, hy, hreaches⟩)
      obtain rfl : x = w :=
        (List.mem_cons.1 hx).resolve_right fun hmem => hrest x hmem hcontrol
      have hwritten : (Control.mk x.2).isOn = true := by
        rw [← b.control_write x.2, ← hw, ← (phase_writeAll_of_ne hrest).1]
        exact hon
      exact bne_iff_ne.1 hwritten hoff
    · have hcount : (ws.map Prod.fst).count 0xff40 ≤ 1 := by simpa [hw] using honce
      have hmem : x ∈ ws := (List.mem_cons.1 hx).resolve_left fun heq => hw (heq ▸ hcontrol)
      exact ih (b := b.write w.1 w.2) hcount hon x hmem ⟨hcontrol, hoff⟩

/-- A display that is on before and after such writes is in the same phase. -/
theorem phase_writeAll {b : Board} (hon : b.video.control.isOn = true)
    {ws : List (UInt16 × UInt8)} (honce : (ws.map Prod.fst).count 0xff40 ≤ 1)
    (hstill : (Bus.writeAll b ws).video.control.isOn = true) :
    (Bus.writeAll b ws).video.phase = b.video.phase := by
  have hnone := not_switchesOff honce hstill
  clear honce hstill
  induction ws generalizing b with
  | nil => rfl
  | cons w ws ih =>
    have hsame : w.1 = 0xff40 → (Control.mk w.2).isOn = b.video.control.isOn := fun hw =>
      (bne_iff_ne.2 fun hoff => hnone w List.mem_cons_self ⟨hw, hoff⟩).trans hon.symm
    obtain ⟨hstays, hphase⟩ := phase_write hsame
    exact (ih (b := b.write w.1 w.2) (hstays.trans hon) fun x hx =>
      hnone x (List.mem_cons_of_mem w hx)).trans hphase

end Board

namespace Machine

variable {m : Machine}

/-- The processor's act can switch the display off, but not off and on again; else it leaves the
phase. -/
theorem phase_act (hon : m.board.video.control.isOn = true)
    (hstill : m.act.2.board.video.control.isOn = true) :
    m.act.2.board.video.phase = m.board.video.phase := by
  obtain ⟨journal, hact⟩ := m.act_board
  rw [hact] at hstill ⊢
  rcases m.cpu.bus_step m.board with hbus | ⟨-, hbus⟩
  · rw [hbus] at hstill ⊢
    exact Board.phase_writeAll hon (m.cpu.count_writes_le_one m.board (by decide)) hstill
  · rw [hbus]
    exact congrArg Video.phase m.board.switchRate_video

/-- When the next tick has ended, the display is still in the line that was drawn last. -/
def DrewLately (m : Machine) : Prop :=
  ∃ d, d < m.tick.1 / m.factor ∧ Video.Finishes (m.display d) (m.display (d + 1)) ∧
    m.tick.1 / m.factor < d + 1 + Video.hblankDots

theorem lineDrawn_powerUp {image : ByteArray} {options : Options} {journal : Journal}
    {start : Machine} (h : powerUp image options journal = .ok start) :
    start.board.video.lineDrawn = false := by
  obtain ⟨cartridge, model, notices, -, rfl⟩ := powerUp_eq_ok h
  rfl

/-- A tick passes much less time than a picture takes. -/
theorem dots_tick_lt (h : m.board.Reachable) : m.tick.1 / m.factor < dotsPerFrame := by
  have hdots := m.dots_tick
  have hblocks : m.blocksCopied ≤ 128 := (reachable_act h).valid.blocksDue_le
  have hframe : dotsPerFrame = 70224 := rfl
  simp only [Board.cyclesPerBlock] at hdots
  omega

/-- After a tick in which a line was drawn the display is on, and it is in the rest of a line
exactly if the last one was drawn lately. In a tick that copies at most 22 blocks it was. -/
theorem phase_tick (h : m.board.Reachable) (hdrawn : m.tick.2.board.video.lineDrawn = true) :
    m.tick.2.board.video.control.isOn = true ∧
      (m.tick.2.board.video.phase = .hblank ↔ m.DrewLately) ∧
      (m.blocksCopied ≤ 22 → m.DrewLately) := by
  have hplaced := (reachable_act h).valid.runTransfer.video
  have hdots := m.dots_tick
  rw [video_tick] at hdrawn ⊢
  refine ⟨?_, Video.hblank_iff_lately hplaced (dots_tick_lt h) hdrawn, fun hfew => ?_⟩
  · rw [display, Video.dots, (hplaced.advance _).2]
    exact Video.on_of_lineDrawn hplaced hdrawn
  · obtain ⟨d, hd, hfinishes⟩ := (Video.lineDrawn_iff_exists hplaced _).1 hdrawn
    refine ⟨d, hd, hfinishes, ?_⟩
    simp only [Board.cyclesPerBlock, Video.hblankDots] at *
    omega

/-- Whatever runs from power-up, when a block of a paced transfer is copied the display is off or
draws a picture, and in the tick before a line was drawn. The display is in the rest of a line
exactly if it is off or that line has not ended, which it cannot have unless a general transfer
of more than 22 blocks made the tick long. -/
theorem copies_after_line {image : ByteArray} {options : Options} {journal : Journal}
    {start : Machine} (hstart : powerUp image options journal = .ok start) {n : Nat}
    (hpaces : (start.ticks n).Paces) (hcopies : 0 < (start.ticks n).blocksCopied) :
    let v := (start.ticks n).act.2.board.video
    v.line < 144 ∧ ∃ k, n = k + 1 ∧
      (v.phase = .hblank ↔ v.control.isOn = false ∨ (start.ticks k).DrewLately) ∧
      ((start.ticks k).blocksCopied ≤ 22 → v.phase = .hblank) := by
  intro v
  have hstands : Video.Stands (start.ticks n).board.video v := stands_act _
  obtain ⟨hdrawn, hline⟩ : v.lineDrawn = true ∧ v.line < screenHeight := by
    rw [blocksCopied, Board.blocksDue_of_pacing hpaces] at hcopies
    by_contra hnot
    simp [v, hnot] at hcopies
  rw [hstands.1] at hdrawn
  have hboard := (powerUp_start hstart).1
  refine ⟨hline, ?_⟩
  cases n with
  | zero => cases (lineDrawn_powerUp hstart).symm.trans hdrawn
  | succ k =>
    obtain ⟨hon, hphase, hfew⟩ := phase_tick (board_ticks hboard k) hdrawn
    have hiff : v.phase = .hblank ↔ v.control.isOn = false ∨ (start.ticks k).DrewLately := by
      cases his : v.control.isOn with
      | false =>
        have hplaced : v.Placed := (reachable_act (board_ticks hboard (k + 1))).valid.video
        simp [(hplaced.waits his).2.2]
      | true =>
        have hsame : v.phase = (start.ticks (k + 1)).board.video.phase := phase_act hon his
        have hlately : v.phase = .hblank ↔ (start.ticks k).DrewLately := by rw [hsame]; exact hphase
        simp [hlately]
    exact ⟨k, rfl, hiff, fun hle => hiff.2 (.inr (hfew hle))⟩

/-- The block for the first line. -/
theorem copies_after_line_bothTransfers :
    ∃ start, powerUp (Cartridge.codeImage (bothTransfers 0x1a)) { model? := some .cgb } {} =
        .ok start ∧
      (start.ticks 4).Paces ∧ 0 < (start.ticks 4).blocksCopied ∧
      (start.ticks 4).act.2.board.video.line < 144 ∧
      (start.ticks 4).act.2.board.video.phase = .hblank := by
  obtain ⟨start, hstart, -, -, -, hnone, hpaces, hcopied⟩ := paces_bothTransfers
  have hcopies : 0 < (start.ticks 4).blocksCopied := hcopied ▸ Nat.one_pos
  obtain ⟨hline, k, hk, -, hfew⟩ := copies_after_line hstart hpaces hcopies
  obtain rfl : 3 = k := Nat.succ.inj hk
  exact ⟨start, hstart, hpaces, hcopies, hline, hfew (by rw [hnone]; decide)⟩

/-- After a general transfer of 128 blocks the display is drawing the third line, and the paced
transfer that the next instruction starts copies its first block there and then. -/
theorem copies_in_transfer :
    ∃ start, powerUp (Cartridge.codeImage (bothTransfers 0x7f)) { model? := some .cgb } {} =
        .ok start ∧
      (start.ticks 3).Paces ∧ (start.ticks 3).blocksCopied = 1 ∧
      (start.ticks 3).act.2.board.video.line = 2 ∧
      (start.ticks 3).act.2.board.video.phase = .transfer := by
  obtain ⟨start, hstart, r, t, t', h₃, -, hfetch, heffect, howes, hdrawn⟩ :=
    plain_bothTransfers (x := 0x7f) (by decide)
  obtain ⟨hpaces, hcopied⟩ := h₃.blocksCopied_of_pacing hfetch heffect howes.isPacing
  rw [hdrawn.2 ⟨231, by decide, 0, by decide, rfl⟩] at hcopied
  obtain ⟨journal, hact⟩ := h₃.act_board hfetch heffect
  refine ⟨start, hstart, hpaces, hcopied, ?_⟩
  rw [hact]
  exact h₃.place

end Machine

end GameBoy
