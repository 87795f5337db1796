import GameBoy.Proofs.Board.Blocks
import GameBoy.Proofs.Board.Paced
import GameBoy.Proofs.Machine.Requests
import GameBoy.Proofs.Video.Lines

/-!
# Blocks follow lines

While a paced transfer runs, a tick takes much less time than what follows the drawing of a line. So
a line that is drawn in a tick is noted once, the display is still in it when the next tick lets
time pass, and a block is copied for it just then, whatever the program does in between.

* `Machine.run`: ticks, with other requests between them.
* `blocksCopied_next`: the blocks of a tick are the lines of the tick before it.
* `tick_paced`: what a tick copies.
* `leads_run`: a run of ticks is a course of the board's actions.
-/

namespace GameBoy

namespace Board

/-! ## What takes no time -/

/-- Writes take no time. -/
theorem stands_write (b : Board) (a : UInt16) (v : UInt8) :
    Video.Stands b.video (b.write a v).video := by
  unfold write
  cases Location.find b.model a with
  | video l => exact b.video.stands_write l v
  | spriteCopy =>
    obtain ⟨page, oam, hcopied⟩ := b.copySprites_frame v
    simp only [writeAt, hcopied]
    exact ⟨rfl, .inl rfl⟩
  | _ => exact .refl _

/-- As time passes, video memory changes by what is copied and in no other way. -/
theorem Valid.vram_advance {b : Board} (h : b.Valid) (n : Nat) :
    (b.advance n).2.video.vram = b.runTransfer.video.vram ∧
      (b.advance n).2.video.bank = b.runTransfer.video.bank := by
  rw [advance_video]
  exact Video.vram_advance h.runTransfer.video _

end Board

namespace Machine

/-! ## Requests between ticks -/

/-- A request that takes no time. -/
def Request.IsInstant : Request → Prop
  | .tick | .runFrame => False
  | _ => True

/-- What a request writes. -/
def Request.write? : Request → Option (UInt16 × UInt8)
  | .write a v => some (a, v)
  | _ => none

/-- The machine after `n` ticks, each followed by some requests. -/
def run (m : Machine) (between : Nat → List Request) : Nat → Machine
  | 0 => m
  | n + 1 => performAll (m.run between n).tick.2 (between n)

theorem board_run {m : Machine} (h : m.board.Reachable) (between : Nat → List Request) (n : Nat) :
    (m.run between n).board.Reachable := by
  induction n with
  | zero => exact h
  | succ n ih => exact reachable_performAll (reachable_tick ih) _

theorem stands_perform (m : Machine) {r : Request} (hr : r.IsInstant) :
    Video.Stands m.board.video (m.perform r).board.video := by
  cases r with
  | tick | runFrame => exact absurd hr id
  | write a v => exact m.board.stands_write a v
  | press i | release i =>
    simp only [Machine.perform, Machine.press, Machine.release]
    split <;> exact .refl _
  | read | takeFrame | loadRam => exact ⟨rfl, .inl rfl⟩

theorem stands_performAll (m : Machine) {rs : List Request} (hrs : ∀ r ∈ rs, r.IsInstant) :
    Video.Stands m.board.video (performAll m rs).board.video := by
  induction rs generalizing m with
  | nil => exact .refl _
  | cons r rs ih =>
    exact (m.stands_perform (hrs r List.mem_cons_self)).trans
      (ih (m.perform r) fun x hx => hrs x (List.mem_cons_of_mem r hx))

/-- The processor's act takes no time. -/
theorem stands_act (m : Machine) : Video.Stands m.board.video m.act.2.board.video := by
  obtain ⟨journal, hact⟩ := m.act_board
  rw [hact]
  refine Cpu.step_induction (P := fun b : Board => Video.Stands m.board.video b.video) ?_ ?_ m.cpu
    (.refl _)
  · intro b a v hb
    exact hb.trans (b.stands_write a v)
  · intro b hb
    change Video.Stands m.board.video b.switchRate.2.video
    rwa [b.switchRate_video]

/-! ## Blocks and lines -/

/-- The number of blocks that are copied in the next tick. -/
def blocksCopied (m : Machine) : Nat := m.act.2.board.blocksDue

/-- The number of lines that are drawn in the next tick. -/
def linesDrawn (m : Machine) : Nat :=
  Nat.count (fun d => Video.Finishes (m.display d) (m.display (d + 1))) (m.tick.1 / m.factor)

/-- A paced transfer is running when time passes in the next tick. -/
def Paces (m : Machine) : Prop := m.act.2.board.transfer.isPacing = true

variable {m : Machine}

/-- Dots that pass in a tick. -/
theorem dots_tick (m : Machine) :
    m.tick.1 / m.factor ≤ 24 + Board.cyclesPerBlock * m.blocksCopied := by
  have hcycles := m.machineCycles_act_le
  have hown : machineCycles m.act.1 * cyclesPerMachineCycle / m.factor ≤ 24 :=
    Nat.le_trans (Nat.div_le_self ..) (Nat.mul_le_mul_right 4 hcycles)
  have hpos : 0 < m.factor := m.act.2.board.speed.rate.factor_pos
  rw [tick_fst, Board.advance_fst]
  change (_ + _ * m.factor) / m.factor ≤ _
  rw [Nat.add_mul_div_right _ _ hpos]
  exact Nat.add_le_add_right hown _

theorem video_tick (m : Machine) :
    m.tick.2.board.video = m.display (m.tick.1 / m.factor) :=
  m.tick_devices.2.1

/-- In a tick that copies at most 22 blocks, a line is drawn exactly if the note says so, and then
the display is still in that line. -/
theorem linesDrawn_of_short (h : m.board.Reachable) (hshort : m.blocksCopied ≤ 22) :
    m.linesDrawn = (if m.tick.2.board.video.lineDrawn then 1 else 0) ∧
      (m.tick.2.board.video.lineDrawn = true → m.tick.2.board.video.line < screenHeight) := by
  have hplaced := (reachable_act h).valid.runTransfer.video
  have hdots : m.tick.1 / m.factor ≤ Video.hblankDots := by
    have := m.dots_tick
    simp only [Board.cyclesPerBlock, Video.hblankDots] at this ⊢
    omega
  rw [video_tick]
  refine ⟨Video.linesDrawn_eq hplaced (Nat.le_trans hdots (by decide)), fun hdrawn => ?_⟩
  exact (Video.hblank_of_lineDrawn hplaced hdots hdrawn).2

theorem Paces.blocksCopied_le (h : m.Paces) : m.blocksCopied ≤ 1 := Board.blocksDue_le_one h

/-- What is copied in a tick is what was drawn in the tick before it. -/
theorem blocksCopied_next (h : m.board.Reachable) (hpaces : m.Paces) {rs : List Request}
    (hrs : ∀ r ∈ rs, r.IsInstant) (hnext : (performAll m.tick.2 rs).Paces) :
    (performAll m.tick.2 rs).blocksCopied = m.linesDrawn := by
  obtain ⟨hlines, hseen⟩ :=
    linesDrawn_of_short h (Nat.le_trans hpaces.blocksCopied_le (by decide))
  have hstands := (m.tick.2.stands_performAll hrs).trans (stands_act _)
  rw [blocksCopied, Board.blocksDue_of_pacing hnext, hlines, hstands.seen hseen]

/-! ## A tick -/

theorem transfer_tick (m : Machine) :
    m.tick.2.board.transfer = m.act.2.board.runTransfer.transfer := by
  obtain ⟨journal, htick⟩ := m.tick_board
  rw [htick]
  rfl

theorem vram_tick (h : m.board.Reachable) :
    m.tick.2.board.video.vram = m.act.2.board.runTransfer.video.vram ∧
      m.tick.2.board.video.bank = m.act.2.board.runTransfer.video.bank := by
  obtain ⟨journal, htick⟩ := m.tick_board
  rw [htick]
  exact (reachable_act h).valid.vram_advance _

/-- In a tick nothing is copied, or one block is. -/
theorem tick_paced (h : m.board.Reachable) (hpaces : m.Paces) :
    (m.blocksCopied = 0 ∧ m.tick.2.board.transfer = m.act.2.board.transfer ∧
        m.tick.2.board.video.vram = m.act.2.board.video.vram) ∨
      m.blocksCopied = 1 ∧ Board.Landed m.act.2.board m.tick.2.board := by
  have htransfer := m.transfer_tick
  obtain ⟨hvram, hbank⟩ := vram_tick h
  rcases Nat.le_one_iff_eq_zero_or_eq_one.1 hpaces.blocksCopied_le with hnone | hone
  · have hran : m.act.2.board.runTransfer = m.act.2.board := by
      rw [Board.runTransfer, ← blocksCopied, hnone]
      rfl
    rw [hran] at htransfer hvram
    exact .inl ⟨hnone, htransfer, hvram⟩
  · have hran : m.act.2.board.runTransfer = m.act.2.board.copyBlock := by
      rw [Board.runTransfer, ← blocksCopied, hone]
      rfl
    rw [hran] at htransfer hvram hbank
    have hvalid := (reachable_act h).valid
    exact .inr ⟨hone, hvalid.landed_copyBlock.congr hvalid hvram hbank htransfer⟩

/-! ## The course of a run -/

theorem leads_act (m : Machine) : Board.Leads m.board m.writes 0 m.act.2.board := by
  obtain ⟨journal, hact⟩ := m.act_board
  have hstep : Board.Leads m.board m.writes 0 (m.cpu.step m.board).bus := by
    rcases m.cpu.bus_step m.board with hbus | ⟨hnone, hbus⟩
    · rw [hbus]
      exact m.board.leads_writeAll m.writes
    · have hwrites : m.writes = [] := hnone
      rw [hbus, hwrites]
      exact m.board.leads_perform .switchRate
  rw [hact]
  exact hstep.note journal

/-- A tick writes what the program writes, and copies what is due. -/
theorem leads_tick (m : Machine) :
    Board.Leads m.board m.writes m.blocksCopied m.tick.2.board := by
  obtain ⟨journal, htick⟩ := m.tick_board
  have hpassed := m.leads_act.pass (machineCycles m.act.1 * cyclesPerMachineCycle)
  rw [Nat.zero_add] at hpassed
  rw [htick]
  exact hpassed.note journal

theorem leads_request (m : Machine) {r : Request} (hr : r.IsInstant) :
    Board.Leads m.board r.write?.toList 0 (m.perform r).board := by
  cases r with
  | tick | runFrame => exact absurd hr id
  | write a v => exact m.board.leads_perform (.write a v)
  | read => exact .refl _
  | press i =>
    simp only [Machine.perform, Machine.press]
    split
    · exact m.board.leads_perform (.press _)
    · exact m.board.leads_perform (.note _)
  | release i =>
    simp only [Machine.perform, Machine.release]
    split
    · exact m.board.leads_perform (.release _)
    · exact m.board.leads_perform (.note _)
  | takeFrame => exact m.board.leads_perform .takeFrame
  | loadRam saved => exact m.board.leads_perform (.loadRam saved)

theorem leads_requests (m : Machine) {rs : List Request} (hrs : ∀ r ∈ rs, r.IsInstant) :
    Board.Leads m.board (rs.filterMap Request.write?) 0 (performAll m rs).board := by
  induction rs generalizing m with
  | nil => exact .refl _
  | cons r rs ih =>
    have hfirst := m.leads_request (hrs r List.mem_cons_self)
    have hrest := ih (m.perform r) fun x hx => hrs x (List.mem_cons_of_mem r hx)
    rw [List.filterMap_cons]
    cases hwrite : r.write? with
    | none =>
      rw [hwrite] at hfirst
      exact hfirst.trans hrest
    | some w =>
      rw [hwrite] at hfirst
      exact hfirst.trans hrest

/-- A run writes what its programs and requests write, and copies what its ticks copy. -/
theorem leads_run (m : Machine) {between : Nat → List Request}
    (hinstant : ∀ k, ∀ r ∈ between k, r.IsInstant) (n : Nat) :
    Board.Leads m.board
      ((List.range n).flatMap fun k =>
        (m.run between k).writes ++ (between k).filterMap Request.write?)
      ((List.range n).map fun k => (m.run between k).blocksCopied).sum
      (m.run between n).board := by
  induction n with
  | zero => exact .refl _
  | succ n ih =>
    have hlast := (leads_tick (m.run between n)).trans (leads_requests _ (hinstant n))
    have hall := ih.trans hlast
    rw [List.range_succ, List.flatMap_append, List.map_append, List.sum_append, run]
    simpa using hall

end Machine

end GameBoy
