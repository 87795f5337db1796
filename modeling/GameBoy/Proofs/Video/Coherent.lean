import GameBoy.Proofs.Video.Sources

/-!
# What a display always holds

The parts of a display depend on each other: its place on whether it is on, its phase on its place,
what it remembers on both, and the next row of the window on the lines that are drawn. Programs
reach each part by itself, and time moves some of them; none of this ever puts them at odds.

* `Video.Bounded`: the next row of the window and the selected sources keep their bounds.
* `Video.Coherent`: all that the parts of a display have to do with each other.
* `Reachable.coherent`: it holds of every display.
-/

namespace GameBoy.Video

variable {v : Video}

/-! ## Bounds -/

/-- The number of lines that can have shown the window. -/
def linesShown (v : Video) : Nat :=
  match v.phase with
  | .search | .transfer => v.line
  | .hblank => v.line + 1
  | .vblank => screenHeight

/-- A picture shows at most one row of the window on each line, and only the four sources can be
selected. -/
structure Bounded (v : Video) : Prop where
  window : v.control.isOn = true → v.windowLine.toNat ≤ v.linesShown
  selected : v.selected &&& 0x87 = 0

theorem bounded_powerUp (model : Model) : (powerUp model).Bounded :=
  ⟨fun _ => Nat.le_refl 0, by cases model <;> rfl⟩

/-- Only the selection, the window's row, phase, line, and whether the display is on matter. -/
theorem Bounded.congr {w : Video} (h : v.Bounded) (hon : w.control.isOn = v.control.isOn)
    (hwindow : w.windowLine = v.windowLine) (hphase : w.phase = v.phase) (hline : w.line = v.line)
    (hselected : w.selected = v.selected) : w.Bounded where
  window := by
    rw [hon, hwindow, linesShown, hphase, hline]
    exact h.window
  selected := by rw [hselected]; exact h.selected

theorem Bounded.updateStatus (h : v.Bounded) : v.updateStatus.1.Bounded := by
  rw [updateStatus_fst]
  exact h.congr rfl rfl rfl rfl rfl

/-- Switching the display on begins with the window's first row. -/
theorem Bounded.setControl (h : v.Bounded) (b : UInt8) : (v.setControl b).1.Bounded := by
  rcases v.setControl_cases b with ⟨hsame, hset⟩ | ⟨-, -, hset⟩ | ⟨-, his, hset⟩
  · rw [hset]
    exact h.congr hsame rfl rfl rfl rfl
  · rw [hset]
    exact Bounded.updateStatus ⟨fun _ => Nat.le_refl 0, h.selected⟩
  · rw [hset]
    exact ⟨fun hon => absurd (his.symm.trans hon) nofun, h.selected⟩

theorem Bounded.write (h : v.Bounded) (l : Location) (b : UInt8) : (v.write l b).1.Bounded := by
  cases l with
  | control => exact h.setControl b
  | status =>
    refine Bounded.updateStatus ⟨h.window, ?_⟩
    rw [UInt8.and_assoc]
    exact UInt8.and_zero
  | lineCompare => exact Bounded.updateStatus (h.congr rfl rfl rfl rfl rfl)
  | _ => exact h.congr rfl rfl rfl rfl rfl

/-- The window's row moves on with its line, and returns to the first with the picture. -/
theorem Bounded.enterNext (h : v.Bounded) (hon : v.control.isOn = true) :
    v.enterNext.1.Bounded := by
  have hwindow := h.window hon
  cases hp : v.phase with
  | search =>
    rw [linesShown, hp] at hwindow
    rw [enterNext_search hp]
    exact ⟨fun _ => hwindow, h.selected⟩
  | transfer =>
    rw [linesShown, hp] at hwindow
    rw [enterNext_transfer hp]
    refine ⟨fun _ => ?_, h.selected⟩
    have hmoved : (v.windowLine + 1).toNat ≤ v.line + 1 := by
      rw [UInt8.toNat_add]
      exact Nat.le_trans (Nat.mod_le ..) (Nat.succ_le_succ hwindow)
    simp only [drawLine, linesShown]
    split
    · exact hmoved
    · exact Nat.le_succ_of_le hwindow
  | hblank =>
    rw [linesShown, hp] at hwindow
    by_cases hlast : v.line + 1 = screenHeight
    · rw [enterNext_last hp hlast]
      exact ⟨fun _ => Nat.le_trans hwindow (Nat.le_of_eq hlast), h.selected⟩
    · rw [enterNext_hblank hp hlast]
      exact ⟨fun _ => hwindow, h.selected⟩
  | vblank =>
    rw [linesShown, hp] at hwindow
    by_cases hlast : v.line + 1 = linesPerFrame
    · rw [enterNext_complete hp hlast]
      exact ⟨fun _ => Nat.le_refl 0, h.selected⟩
    · rw [enterNext_vblank hp hlast]
      refine ⟨fun _ => ?_, h.selected⟩
      rw [linesShown, hp]
      exact hwindow

theorem Bounded.advance (h : v.Bounded) (hv : v.Placed) (n : Nat) : (v.advance n).1.Bounded :=
  hv.advance_keeps (P := Bounded) (fun _ _ _ h => h.congr rfl rfl rfl rfl rfl)
    (fun _ hon h => (h.enterNext hon).updateStatus) h n

theorem Reachable.bounded (h : v.Reachable) : v.Bounded := by
  induction h with
  | powerUp model => exact bounded_powerUp model
  | write l b _ ih => exact ih.write l b
  | advance n hv ih => exact ih.advance hv.placed n
  | takeFrame _ ih => exact ih.congr rfl rfl rfl rfl rfl

/-! ## The whole -/

/-- How the parts of a display agree with each other. -/
structure Coherent (v : Video) : Prop where
  /-- While the display is off it waits at the beginning of the first line. -/
  waits : v.control.isOn = false → v.line = 0 ∧ v.dot = 0 ∧ v.phase = .hblank ∧ v.met = 0
  /-- Time then takes back the note that a line was drawn, and does nothing else. -/
  still : v.control.isOn = false → ∀ n, v.advance n = ({ v with lineDrawn := false }, ∅)
  search : v.control.isOn = true → v.phase = .search →
    v.line < 144 ∧ v.dot < 80 ∧ v.windowLine.toNat ≤ v.line
  transfer : v.control.isOn = true → v.phase = .transfer →
    v.line < 144 ∧ 80 ≤ v.dot ∧ v.dot < 252 ∧ v.windowLine.toNat ≤ v.line
  hblank : v.control.isOn = true → v.phase = .hblank →
    v.line < 144 ∧ 252 ≤ v.dot ∧ v.dot < 456 ∧ v.windowLine.toNat ≤ v.line + 1
  vblank : v.control.isOn = true → v.phase = .vblank →
    144 ≤ v.line ∧ v.line ≤ 153 ∧ v.dot < 456 ∧ v.windowLine.toNat ≤ 144
  /-- What is remembered are the sources that are met, and no other bits. -/
  met : ∀ s : Source, v.met &&& s.bit ≠ 0 ↔ s.Met v
  met_bits : v.met &&& 0x87 = 0
  selected : v.selected &&& 0x87 = 0
  bank : v.bank.bit = 0 ∨ v.bank.bit = 1
  indices : v.backgroundColors.index.val < 64 ∧ v.objectColors.index.val < 64

/-- The parts of a display agree, whatever programs and time did to it. -/
theorem Reachable.coherent (h : v.Reachable) : v.Coherent := by
  have hplaced := h.placed
  have hbounded := h.bounded
  have hmet : v.met = v.conditions := h.settled
  have hdot := hplaced.dot_lt
  refine
    { waits := fun hoff => ?_
      still := advance_of_off
      search := fun hon hp => ?_
      transfer := fun hon hp => ?_
      hblank := fun hon hp => ?_
      vblank := fun hon hp => ?_
      met := fun s => by rw [hmet, s.met_iff_conditions]
      met_bits := ?_
      selected := hbounded.selected
      bank := by cases v.bank <;> decide
      indices := ⟨Fin.isLt _, Fin.isLt _⟩ }
  · obtain ⟨hline, hdot, hphase⟩ := hplaced.waits hoff
    exact ⟨hline, hdot, hphase, hmet.trans (if_neg (by simp [hoff]))⟩
  · have hwindow := hbounded.window hon
    rw [linesShown, hp] at hwindow
    obtain ⟨hline, hd⟩ := Phase.ofPlace_eq_search_iff.1 ((hplaced.phase_eq hon).symm.trans hp)
    exact ⟨hline, hd, hwindow⟩
  · have hwindow := hbounded.window hon
    rw [linesShown, hp] at hwindow
    obtain ⟨hline, hd, hd'⟩ :=
      Phase.ofPlace_eq_transfer_iff.1 ((hplaced.phase_eq hon).symm.trans hp)
    exact ⟨hline, hd, hd', hwindow⟩
  · have hwindow := hbounded.window hon
    rw [linesShown, hp] at hwindow
    obtain ⟨hline, hd⟩ := Phase.ofPlace_eq_hblank_iff.1 ((hplaced.phase_eq hon).symm.trans hp)
    exact ⟨hline, hd, hdot, hwindow⟩
  · have hwindow := hbounded.window hon
    rw [linesShown, hp] at hwindow
    have hline := Phase.ofPlace_eq_vblank_iff.1 ((hplaced.phase_eq hon).symm.trans hp)
    exact ⟨hline, Nat.le_of_lt_succ hplaced.line_lt, hdot, hwindow⟩
  · rw [hmet, ← v.conditions_and, UInt8.and_assoc]
    exact UInt8.and_zero

/-- At power-up, with all sources selected, the two that are met are remembered. -/
theorem coherent_powerUp :
    let v := ((powerUp .cgb).write .status 0xff).1
    v.phase = .search ∧ v.line < 144 ∧ v.dot < 80 ∧ v.windowLine.toNat ≤ v.line ∧
      v.met &&& 0x20 ≠ 0 ∧ v.met &&& 0x40 ≠ 0 ∧ ¬ v.met &&& 0x08 ≠ 0 := by
  intro v
  have hv : v.Coherent := Reachable.coherent (.write .status 0xff (.powerUp .cgb))
  have hon : v.control.isOn = true := by decide
  have hphase : v.phase = .search := by decide
  obtain ⟨hline, hdot, hwindow⟩ := hv.search hon hphase
  refine ⟨hphase, hline, hdot, hwindow, ?_, ?_, ?_⟩
  · exact (hv.met .search).2 ⟨hon, by decide, hphase⟩
  · exact (hv.met .lineCompare).2 ⟨hon, by decide, rfl⟩
  · exact fun h => nomatch hphase.symm.trans ((hv.met .hblank).1 h).holds

end GameBoy.Video
