import GameBoy.Video.Access
import Mathlib.Tactic.SplitIfs

/-!
# Where the display is in its picture

While the display is on, line and dot say where it is, and the phase follows from them. While it is
off it waits at the beginning of the first line.

* `Video.Placed`: line, dot and phase agree in this way.
* `Placed.put`, `Placed.endPhase`: writes and the end of a phase keep them in agreement.
* `Placed.dot_lt_boundary`: a phase always has dots left, so time never stands still.
-/

namespace GameBoy

/-- The phase at a dot of a line. -/
def Phase.ofPlace (line dot : Nat) : Phase :=
  if screenHeight ≤ line then .vblank
  else if dot < 80 then .search
  else if dot < 252 then .transfer
  else .hblank

namespace Phase

/-- No phase lasts longer than its line. -/
theorem boundary_le (p : Phase) : p.boundary ≤ dotsPerLine := by
  cases p <;> decide

variable {line dot : Nat}

theorem ofPlace_eq_search_iff : ofPlace line dot = .search ↔ line < screenHeight ∧ dot < 80 := by
  unfold ofPlace
  split_ifs <;> simp <;> omega

theorem ofPlace_eq_transfer_iff :
    ofPlace line dot = .transfer ↔ line < screenHeight ∧ 80 ≤ dot ∧ dot < 252 := by
  unfold ofPlace
  split_ifs <;> simp <;> omega

theorem ofPlace_eq_hblank_iff :
    ofPlace line dot = .hblank ↔ line < screenHeight ∧ 252 ≤ dot := by
  unfold ofPlace
  split_ifs <;> simp <;> omega

theorem ofPlace_eq_vblank_iff : ofPlace line dot = .vblank ↔ screenHeight ≤ line := by
  unfold ofPlace
  split_ifs <;> simp <;> omega

end Phase

namespace Video

/-- Dots since the beginning of the picture. -/
def position (v : Video) : Nat := dotsPerLine * v.line + v.dot

/-- Line and dot are those of a picture. While the display is on the phase is that of the place;
while it is off the place is the beginning of the first line. -/
structure Placed (v : Video) : Prop where
  line_lt : v.line < linesPerFrame
  dot_lt : v.dot < dotsPerLine
  phase_eq : v.control.isOn = true → v.phase = .ofPlace v.line v.dot
  waits : v.control.isOn = false → v.line = 0 ∧ v.dot = 0 ∧ v.phase = .hblank

/-- At the beginning of the first line the display is on and searches, or it is off. -/
theorem Placed.of_start {v : Video} (hline : v.line = 0) (hdot : v.dot = 0)
    (hphase : v.phase = if v.control.isOn then .search else .hblank) : v.Placed where
  line_lt := by rw [hline]; decide
  dot_lt := by rw [hdot]; decide
  phase_eq hon := by rw [hphase, hline, hdot, hon]; rfl
  waits hoff := ⟨hline, hdot, by rw [hphase, hoff]; rfl⟩

theorem placed_powerUp (model : Model) : (powerUp model).Placed :=
  .of_start rfl rfl (if_pos (show (Control.mk 0x91).isOn = true by decide)).symm

theorem Placed.of_on {v : Video} (hon : v.control.isOn = true) (hline : v.line < linesPerFrame)
    (hdot : v.dot < dotsPerLine) (hphase : v.phase = .ofPlace v.line v.dot) : v.Placed :=
  ⟨hline, hdot, fun _ => hphase, fun hoff => absurd (hon.symm.trans hoff) nofun⟩

/-- The phase has dots left. -/
theorem Placed.dot_lt_boundary {v : Video} (h : v.Placed) : v.dot < v.phase.boundary := by
  cases hon : v.control.isOn with
  | false =>
    obtain ⟨-, hdot, hphase⟩ := h.waits hon
    rw [hdot, hphase]
    decide
  | true =>
    have hdot := h.dot_lt
    rw [h.phase_eq hon]
    unfold Phase.ofPlace
    split_ifs <;> simp only [Phase.boundary] <;> omega

/-- The beam is somewhere in one picture. -/
theorem Placed.position_lt {v : Video} (h : v.Placed) : v.position < dotsPerFrame := by
  have := h.line_lt
  have := h.dot_lt
  simp only [position, dotsPerFrame, dotsPerLine, linesPerFrame] at *
  omega

/-! ## Writes -/

/-- Looking at the conditions changes nothing but the note of those that hold. -/
theorem updateStatus_fst (v : Video) :
    v.updateStatus.1 = { v with met := if v.control.isOn then v.holding else 0 } := by
  unfold updateStatus
  split <;> rfl

/-- Only line, dot, phase and whether the display is on matter. -/
theorem Placed.congr {v w : Video} (h : v.Placed) (hline : w.line = v.line) (hdot : w.dot = v.dot)
    (hphase : w.phase = v.phase) (hon : w.control.isOn = v.control.isOn) : w.Placed where
  line_lt := by rw [hline]; exact h.line_lt
  dot_lt := by rw [hdot]; exact h.dot_lt
  phase_eq := by rw [hline, hdot, hphase, hon]; exact h.phase_eq
  waits := by rw [hline, hdot, hphase, hon]; exact h.waits

theorem Placed.updateStatus {v : Video} (h : v.Placed) : v.updateStatus.1.Placed := by
  rw [updateStatus_fst]
  exact h.congr rfl rfl rfl rfl

section SetControl

variable {v : Video} {b : UInt8}

/-- A write that leaves the display on or off sets the register and nothing else. -/
theorem setControl_same (h : (Control.mk b).isOn = v.control.isOn) :
    v.setControl b = ({ v with control := ⟨b⟩ }, false) := by
  unfold setControl
  simp only [h]
  cases v.control.isOn <;> rfl

theorem setControl_off (hwas : v.control.isOn = true) (his : (Control.mk b).isOn = false) :
    v.setControl b = (switchOff { v with control := ⟨b⟩ }, false) := by
  simp [setControl, hwas, his]

theorem setControl_on (hwas : v.control.isOn = false) (his : (Control.mk b).isOn = true) :
    v.setControl b = (switchOn { v with control := ⟨b⟩ }).updateStatus := by
  simp [setControl, hwas, his]

/-- A write to the control register leaves the display on or off, or switches it on, or off. -/
theorem setControl_cases (v : Video) (b : UInt8) :
    ((Control.mk b).isOn = v.control.isOn ∧ v.setControl b = ({ v with control := ⟨b⟩ }, false)) ∨
      (v.control.isOn = false ∧ (Control.mk b).isOn = true ∧
        v.setControl b = (switchOn { v with control := ⟨b⟩ }).updateStatus) ∨
      (v.control.isOn = true ∧ (Control.mk b).isOn = false ∧
        v.setControl b = (switchOff { v with control := ⟨b⟩ }, false)) := by
  by_cases hsame : (Control.mk b).isOn = v.control.isOn
  · exact .inl ⟨hsame, setControl_same hsame⟩
  · cases hwas : v.control.isOn with
    | false =>
      have his : (Control.mk b).isOn = true := by simpa [hwas] using hsame
      exact .inr (.inl ⟨rfl, his, setControl_on hwas his⟩)
    | true =>
      have his : (Control.mk b).isOn = false := by simpa [hwas] using hsame
      exact .inr (.inr ⟨rfl, his, setControl_off hwas his⟩)

/-- A written control register holds what was written. -/
theorem control_setControl (v : Video) (b : UInt8) : (v.setControl b).1.control = ⟨b⟩ := by
  rcases v.setControl_cases b with ⟨-, hset⟩ | ⟨-, -, hset⟩ | ⟨-, -, hset⟩
  · rw [hset]
  · rw [hset, updateStatus_fst]
    rfl
  · rw [hset]
    rfl

theorem Placed.setControl (h : v.Placed) (b : UInt8) : (v.setControl b).1.Placed := by
  rcases v.setControl_cases b with ⟨hsame, hset⟩ | ⟨-, his, hset⟩ | ⟨-, his, hset⟩
  · rw [hset]
    exact h.congr rfl rfl rfl hsame
  · rw [hset]
    exact Placed.updateStatus (.of_start rfl rfl (if_pos his).symm)
  · have hoff : ¬ (Control.mk b).isOn = true := by simp [his]
    rw [hset]
    exact .of_start rfl rfl (if_neg hoff).symm

end SetControl

/-- A program's write leaves the display at its place, or at the beginning. -/
theorem Placed.put {v : Video} (h : v.Placed) (l : Location) (b : UInt8) :
    (v.put l b).1.Placed := by
  cases l with
  | control => exact h.setControl b
  | status | lineCompare => exact Placed.updateStatus (h.congr rfl rfl rfl rfl)
  | _ => exact h.congr rfl rfl rfl rfl

theorem Placed.write {v : Video} (h : v.Placed) (l : Location) (b : UInt8) :
    (v.write l b).1.Placed :=
  h.put l b

/-! ## The end of a phase -/

section EnterNext

variable {v : Video}

theorem enterNext_search (h : v.phase = .search) :
    v.enterNext = ({ v with phase := .transfer }, false) := by
  simp [enterNext, h]

theorem enterNext_transfer (h : v.phase = .transfer) :
    v.enterNext = (drawLine { v with phase := .hblank, lineDrawn := true }, false) := by
  simp [enterNext, h]

/-- After a seen line comes the next one. -/
theorem enterNext_hblank (h : v.phase = .hblank) (hline : v.line + 1 ≠ screenHeight) :
    v.enterNext = ({ v with dot := 0, line := v.line + 1, phase := .search }, false) := by
  simp [enterNext, h, hline]

/-- After the last seen line the palettes are noted. -/
theorem enterNext_last (h : v.phase = .hblank) (hline : v.line + 1 = screenHeight) :
    v.enterNext =
      ({ v with
          dot := 0
          line := v.line + 1
          phase := .vblank
          back := { v.back with shading := v.shading } }, true) := by
  simp [enterNext, h, hline]

theorem enterNext_vblank (h : v.phase = .vblank) (hline : v.line + 1 ≠ linesPerFrame) :
    v.enterNext = ({ v with dot := 0, line := v.line + 1 }, false) := by
  simp [enterNext, h, hline]

/-- After the last unseen line the picture is complete. -/
theorem enterNext_complete (h : v.phase = .vblank) (hline : v.line + 1 = linesPerFrame) :
    v.enterNext =
      (completeFrame { v with dot := 0, line := 0, windowLine := 0, phase := .search }, false) := by
  simp [enterNext, h, hline]

end EnterNext

/-- The control register is a program's alone. -/
theorem control_enterNext (v : Video) : v.enterNext.1.control = v.control := by
  unfold enterNext
  cases v.phase <;> simp only
  · split_ifs <;> rfl
  · split_ifs <;> rfl
  · rfl

theorem endPhase_fst (v : Video) : v.endPhase.1 = v.enterNext.1.updateStatus.1 := rfl

@[simp] theorem control_endPhase (v : Video) : v.endPhase.1.control = v.control := by
  rw [endPhase_fst, updateStatus_fst]
  exact v.control_enterNext

/-- The dot with which a phase ends lies in the next phase. -/
theorem placed_enterNext {v : Video} {d : Nat} (hon : v.control.isOn = true)
    (hline : v.line < linesPerFrame) (hphase : v.phase = .ofPlace v.line d)
    (hdot : v.dot = v.phase.boundary) : v.enterNext.1.Placed := by
  cases hp : v.phase with
  | search =>
    have hl := (Phase.ofPlace_eq_search_iff.1 (hphase.symm.trans hp)).1
    rw [hp] at hdot
    rw [enterNext_search hp]
    refine .of_on hon hline (by rw [hdot]; decide) ?_
    exact (Phase.ofPlace_eq_transfer_iff.2 ⟨hl, by rw [hdot]; decide⟩).symm
  | transfer =>
    have hl := (Phase.ofPlace_eq_transfer_iff.1 (hphase.symm.trans hp)).1
    rw [hp] at hdot
    rw [enterNext_transfer hp]
    refine .of_on hon hline ?_ ?_
    · change v.dot < dotsPerLine
      rw [hdot]
      decide
    · exact (Phase.ofPlace_eq_hblank_iff.2 ⟨hl, Nat.le_of_eq hdot.symm⟩).symm
  | hblank =>
    have hl := (Phase.ofPlace_eq_hblank_iff.1 (hphase.symm.trans hp)).1
    by_cases hlast : v.line + 1 = screenHeight
    · rw [enterNext_last hp hlast]
      have hnext : v.line + 1 < linesPerFrame := by rw [hlast]; decide
      refine .of_on hon hnext (Nat.zero_lt_succ _) ?_
      exact (Phase.ofPlace_eq_vblank_iff.2 (Nat.le_of_eq hlast.symm)).symm
    · rw [enterNext_hblank hp hlast]
      have hnext : v.line + 1 < screenHeight := by omega
      refine .of_on hon (Nat.lt_trans hnext (by decide)) (Nat.zero_lt_succ _) ?_
      exact (Phase.ofPlace_eq_search_iff.2 ⟨hnext, Nat.zero_lt_succ _⟩).symm
  | vblank =>
    have hl := Phase.ofPlace_eq_vblank_iff.1 (hphase.symm.trans hp)
    by_cases hlast : v.line + 1 = linesPerFrame
    · rw [enterNext_complete hp hlast]
      exact .of_start rfl rfl (if_pos hon).symm
    · rw [enterNext_vblank hp hlast]
      have hnext : v.line + 1 < linesPerFrame := by omega
      refine .of_on hon hnext (Nat.zero_lt_succ _) ?_
      exact hp.trans (Phase.ofPlace_eq_vblank_iff.2 (Nat.le_succ_of_le hl)).symm

theorem Placed.endPhase {v : Video} (h : v.Placed) (hon : v.control.isOn = true) {n : Nat}
    (hn : n = v.phase.boundary) : (Video.endPhase { v with dot := n }).1.Placed := by
  rw [endPhase_fst]
  apply Placed.updateStatus
  exact placed_enterNext (d := v.dot) hon h.line_lt (h.phase_eq hon) hn

end Video

end GameBoy
