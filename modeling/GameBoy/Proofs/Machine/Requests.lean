import GameBoy.Proofs.Board.Requests
import GameBoy.Proofs.Machine.Time

/-!
# No request is lost or invented

The processor's acknowledgement, the program's writes and the devices reach the request register in
one and the same tick. Unless the program itself writes it, a request remains until it is served,
and a new one is there exactly when its device has cause for it.

* `Machine.boardAfter`: the board on its way through the writes of a tick.
* `Machine.Raises`: the causes for each interrupt.
* `has_act`: the requests after the processor's act.
* `has_tick`, `has_press`: the requests after a tick, and after a press of a button.
-/

namespace GameBoy.Machine

/-! ## The writes of a tick -/

/-- The board after the first `k` writes of the next tick. -/
def boardAfter (m : Machine) (k : Nat) : Board := Bus.writeAll m.board (m.writes.take k)

/-- What the next tick writes beside the acknowledgement of an interrupt that it serves. -/
def programWrites (m : Machine) : List (UInt16 × UInt8) :=
  match m.act.1 with
  | .served _ => m.writes.tail
  | _ => m.writes

/-- A write of the next tick makes a condition begin to hold. -/
def WriteRises (m : Machine) : Prop :=
  ∃ k, k < m.writes.length ∧ Video.Rises (m.boardAfter k).video (m.boardAfter (k + 1)).video

/-! ## The processor's act -/

/-- The requests after the writes of a tick in which an interrupt is served. -/
theorem has_writeAll_of_served {m : Machine} (h : m.board.Reachable) {j : Interrupt}
    (hserved : m.act.1 = .served j) (hw : ∀ w ∈ m.programWrites, w.1 ≠ 0xff0f) (i : Interrupt) :
    (Bus.writeAll m.board m.writes).requests.has i = true ↔
      (m.board.requests.has i = true ∧ j ≠ i) ∨ i = .lcdStat ∧ m.WriteRises := by
  obtain ⟨pushes, hwrites⟩ :
      ∃ pushes, m.writes = (0xff0f, m.board.read 0xff0f &&& ~~~j.mask) :: pushes :=
    Cpu.writes_of_served hserved
  have hpushes : m.programWrites = pushes := by
    rw [programWrites, hserved, hwrites]
    rfl
  generalize hack : m.board.write 0xff0f (m.board.read 0xff0f &&& ~~~j.mask) = acknowledged
  have hrequests := m.board.has_acknowledge j i
  have hvideo := m.board.video_write_requests (m.board.read 0xff0f &&& ~~~j.mask)
  rw [hack] at hrequests hvideo
  have hafter : ∀ k, m.boardAfter (k + 1) = Bus.writeAll acknowledged (pushes.take k) := by
    intro k
    rw [boardAfter, hwrites, ← hack]
    rfl
  have hrises : m.WriteRises ↔ ∃ k, k < pushes.length ∧
      Video.Rises (Bus.writeAll acknowledged (pushes.take k)).video
        (Bus.writeAll acknowledged (pushes.take (k + 1))).video := by
    have hnone : ¬ Video.Rises (m.boardAfter 0).video (m.boardAfter 1).video := by
      refine Video.not_rises_of_eq ?_
      rw [hafter]
      exact congrArg Video.conditions hvideo
    simp only [← hafter]
    rw [WriteRises, hwrites, List.length_cons, Nat.exists_lt_succ_left, or_iff_right hnone]
  have hreachable : acknowledged.video.Reachable := hvideo ▸ h.video
  have hall : Bus.writeAll m.board m.writes = Bus.writeAll acknowledged pushes := by
    rw [hwrites, ← hack]
    rfl
  rw [hall, hrises, ← hrequests]
  exact Board.has_writeAll hreachable (hpushes ▸ hw) i

/-- The requests after the processor's act. -/
theorem has_act {m : Machine} (h : m.board.Reachable)
    (hw : ∀ w ∈ m.programWrites, w.1 ≠ 0xff0f) (i : Interrupt) :
    m.act.2.board.requests.has i = true ↔
      (m.board.requests.has i = true ∧ m.act.1 ≠ .served i) ∨ i = .lcdStat ∧ m.WriteRises := by
  obtain ⟨journal, hact⟩ := m.act_board
  have hrequests : m.act.2.board.requests = (m.cpu.step m.board).bus.requests := by rw [hact]
  rw [hrequests]
  rcases m.cpu.bus_step m.board with hbus | ⟨hnone, hbus⟩
  · rw [hbus]
    change (Bus.writeAll m.board m.writes).requests.has i = true ↔ _
    cases houtcome : m.act.1 with
    | served j =>
      rw [has_writeAll_of_served h houtcome hw i, ne_eq, ne_eq, Outcome.served.injEq]
    | executed | idle =>
      have hall : ∀ w ∈ m.writes, w.1 ≠ 0xff0f := by rwa [programWrites, houtcome] at hw
      refine (Board.has_writeAll h.video hall i).trans (or_congr ?_ .rfl)
      rw [and_iff_left nofun]
  · have hwrites : m.writes = [] := hnone
    have hserved : m.act.1 ≠ .served i := by
      intro hserved
      obtain ⟨pushes, hpushes⟩ := Cpu.writes_of_served hserved
      cases hnone.symm.trans hpushes
    have hrises : ¬ m.WriteRises := by simp [WriteRises, hwrites]
    have hsame : (Bus.switchRate m.board).2.requests = m.board.requests :=
      m.board.switchRate_requests
    rw [hbus, hsame]
    simp [hserved, hrises]

/-! ## The tick -/

/-- The display of the next tick after `d` dots. -/
def display (m : Machine) (d : Nat) : Video := m.act.2.board.runTransfer.video.dots d

/-- The causes for a request in the next tick: the last seen line ends; a condition of the display
begins to hold, by a write or at a dot; the timer counts past `0xff`. Nothing in a tick is a cause
for the other two interrupts. -/
def Raises (m : Machine) : Interrupt → Prop
  | .vblank =>
    ∃ d, d < m.tick.1 / m.factor ∧ (m.display d).line = 143 ∧ (m.display (d + 1)).line = 144
  | .lcdStat =>
    m.WriteRises ∨ ∃ d, d < m.tick.1 / m.factor ∧ Video.Rises (m.display d) (m.display (d + 1))
  | .timer =>
    m.act.2.board.timer.enabled = true ∧
      0x100 ≤ m.act.2.board.timer.value.toNat + (m.act.2.board.timer.divider.advance m.tick.1).1
  | .serial | .buttons => False

/-- The requests after a tick. -/
theorem has_tick {m : Machine} (h : m.board.Reachable)
    (hw : ∀ w ∈ m.programWrites, w.1 ≠ 0xff0f) (i : Interrupt) :
    m.tick.2.board.requests.has i = true ↔
      (m.board.requests.has i = true ∧ m.act.1 ≠ .served i) ∨ m.Raises i := by
  obtain ⟨journal, htick⟩ := m.tick_board
  have hrequests : m.tick.2.board.requests =
      (m.act.2.board.advance (machineCycles m.act.1 * cyclesPerMachineCycle)).2.requests := by
    rw [htick]
  rw [hrequests, Board.has_advance (reachable_act h), has_act h hw, or_assoc]
  refine or_congr_right ?_
  rw [← tick_fst]
  cases i <;> simp [Raises, Video.Requested, Video.SeenEnds, display, factor]

/-- Saying which button is pressed by its number. -/
theorem has_press (m : Machine) (n : UInt8) (i : Interrupt) :
    (m.press n).board.requests.has i = true ↔
      m.board.requests.has i = true ∨
        i = .buttons ∧ ∃ key, Button.ofIndex? n = some key ∧
          m.board.buttons.isHeld key = false := by
  cases hkey : Button.ofIndex? n with
  | none =>
    simp only [press, hkey]
    simp [Board.report]
  | some key =>
    simp only [press, hkey]
    rw [Board.has_press]
    simp

end GameBoy.Machine
