import GameBoy.Proofs.Video.Conditions
import Mathlib.Data.Nat.Count

/-!
# Lines drawn in a stretch of time

As dots pass, a line is drawn whenever the transfer of one ends. The display only notes whether
there was such a line; in a stretch no longer than a line there cannot be two, so the note tells how
many there were. In a stretch no longer than what is left of a line that has been drawn, the display
is still in that line at the end.

* `Video.linesDrawn`: the number of lines drawn in a stretch, dot by dot.
* `lineDrawn_iff_exists`: the note is made when there was one.
* `linesDrawn_eq`: in a stretch no longer than a line the note is the number.
* `hblank_iff_lately`: when the display is still in the line that was drawn last.
* `Stands`: what writes leave of it.
-/

namespace GameBoy.Video

variable {v : Video}

/-! ## Places on the way -/

/-- From `v` to `w` the transfer of a line ends. -/
def Finishes (v w : Video) : Prop := v.phase = .transfer ∧ w.phase = .hblank

instance (v w : Video) : Decidable (Finishes v w) := inferInstanceAs (Decidable (_ ∧ _))

/-- The number of lines that are drawn as `n` dots pass. -/
def linesDrawn (v : Video) (n : Nat) : Nat :=
  Nat.count (fun d => Finishes (v.dots d) (v.dots (d + 1))) n

theorem position_dots (hv : v.Placed) (hon : v.control.isOn = true) (d : Nat) :
    (v.dots d).position = (v.position + d) % dotsPerFrame := by
  rw [dots, advance_of_on hon]
  exact (course_scan hv.forget hon ∅ d).position_eq

/-- On the way the phase is that of the place. -/
theorem phase_dots (hv : v.Placed) (hon : v.control.isOn = true) (d : Nat) :
    (v.dots d).phase =
      .ofPlace ((v.position + d) % dotsPerFrame / dotsPerLine)
        ((v.position + d) % dotsPerFrame % dotsPerLine) := by
  obtain ⟨hplaced, hcontrol⟩ := hv.advance d
  rw [← position_dots hv hon]
  exact hplaced.phase_eq_ofPosition (hcontrol ▸ hon)

/-- A transfer ends where a line has been drawn. -/
theorem finishes_iff (hv : v.Placed) (hon : v.control.isOn = true) (d : Nat) :
    Finishes (v.dots d) (v.dots (d + 1)) ↔
      ∃ l, l < screenHeight ∧ (v.position + (d + 1)) % dotsPerFrame = drawnAt l := by
  have hframe : dotsPerFrame = 70224 := rfl
  rw [Finishes, phase_dots hv hon, phase_dots hv hon, Phase.ofPlace_eq_transfer_iff,
    Phase.ofPlace_eq_hblank_iff, hframe]
  simp only [screenHeight, dotsPerLine, drawnAt]
  constructor
  · intro h
    exact ⟨(v.position + (d + 1)) % 70224 / 456, by omega⟩
  · rintro ⟨l, hl⟩
    omega

/-- While the display is off no transfer ends. -/
theorem not_finishes_of_off (hv : v.Placed) (hoff : v.control.isOn = false) (d : Nat) (w : Video) :
    ¬ Finishes (v.dots d) w := by
  rintro ⟨hphase, -⟩
  rw [dots, advance_of_off hoff] at hphase
  cases (hv.waits hoff).2.2.symm.trans hphase

/-! ## The note -/

/-- A line is noted as drawn if one was drawn at some dot. -/
theorem lineDrawn_iff_exists (hv : v.Placed) (n : Nat) :
    (v.advance n).1.lineDrawn = true ↔ ∃ d, d < n ∧ Finishes (v.dots d) (v.dots (d + 1)) := by
  cases hon : v.control.isOn with
  | false =>
    rw [advance_of_off hon]
    simp [not_finishes_of_off hv hon]
  | true =>
    rw [advance_of_on hon]
    refine (course_scan hv.forget hon ∅ n).lineDrawn_iff.trans ?_
    simp only [finishes_iff hv hon, Bool.false_eq_true, false_or]
    constructor
    · rintro ⟨l, hl, q, hq, hqn, hplace⟩
      have hstart : position { v with lineDrawn := false } = v.position := rfl
      rw [hstart] at hq hqn
      have hdot : v.position + (q - v.position - 1 + 1) = q := by omega
      exact ⟨q - v.position - 1, by omega, l, hl, by rw [hdot]; exact hplace⟩
    · rintro ⟨d, hd, l, hl, hplace⟩
      exact ⟨l, hl, v.position + (d + 1), Nat.lt_add_of_pos_right (Nat.succ_pos d),
        Nat.add_le_add_left hd _, hplace⟩

/-- In a stretch no longer than a line at most one line is drawn. -/
theorem linesDrawn_le_one (hv : v.Placed) {n : Nat} (hn : n ≤ dotsPerLine) :
    v.linesDrawn n ≤ 1 := by
  rw [linesDrawn, Nat.count_eq_card_filter_range, Finset.card_le_one]
  intro a ha b hb
  obtain ⟨han, ha⟩ := Finset.mem_filter.1 ha
  obtain ⟨hbn, hb⟩ := Finset.mem_filter.1 hb
  rw [Finset.mem_range] at han hbn
  cases hon : v.control.isOn with
  | false => exact absurd ha (not_finishes_of_off hv hon a _)
  | true =>
    obtain ⟨k, hk, hak⟩ := (finishes_iff hv hon a).1 ha
    obtain ⟨l, hl, hbl⟩ := (finishes_iff hv hon b).1 hb
    -- both places lie at the same dot of their lines
    have hframe : dotsPerFrame = 70224 := rfl
    simp only [hframe, drawnAt, dotsPerLine] at hak hbl hn
    omega

/-- In a stretch no longer than a line the note tells how many lines were drawn. -/
theorem linesDrawn_eq (hv : v.Placed) {n : Nat} (hn : n ≤ dotsPerLine) :
    v.linesDrawn n = if (v.advance n).1.lineDrawn then 1 else 0 := by
  have hone := linesDrawn_le_one hv hn
  have hsome : v.linesDrawn n ≠ 0 ↔ (v.advance n).1.lineDrawn = true := by
    rw [lineDrawn_iff_exists hv]
    exact Nat.count_ne_iff_exists
  split
  · rename_i hdrawn
    have := hsome.2 hdrawn
    omega
  · rename_i hdrawn
    exact not_not.1 (mt hsome.1 hdrawn)

/-- Dots that pass after a line has been drawn, up to the end of the line. -/
abbrev hblankDots : Nat := 204

/-- A display that draws a line is on. -/
theorem on_of_lineDrawn (hv : v.Placed) {n : Nat} (hdrawn : (v.advance n).1.lineDrawn = true) :
    v.control.isOn = true := by
  obtain ⟨d, -, hfinishes⟩ := (lineDrawn_iff_exists hv n).1 hdrawn
  by_contra hoff
  exact not_finishes_of_off hv (Bool.eq_false_iff.2 hoff) d _ hfinishes

/-- After a stretch shorter than a picture in which a line was drawn, the display is in the rest of
a line exactly if the last one was drawn so lately that this line has not ended. -/
theorem hblank_iff_lately (hv : v.Placed) {n : Nat} (hn : n < dotsPerFrame)
    (hdrawn : (v.advance n).1.lineDrawn = true) :
    (v.dots n).phase = .hblank ↔
      ∃ d, d < n ∧ Finishes (v.dots d) (v.dots (d + 1)) ∧ n < d + 1 + hblankDots := by
  have hon := on_of_lineDrawn hv hdrawn
  have hframe : dotsPerFrame = 70224 := rfl
  rw [phase_dots hv hon n, Phase.ofPlace_eq_hblank_iff]
  constructor
  · intro hplace
    obtain ⟨d, hd, hfinishes⟩ := (lineDrawn_iff_exists hv n).1 hdrawn
    obtain ⟨l, hl, hdrawnAt⟩ := (finishes_iff hv hon d).1 hfinishes
    -- the stretch did not begin in this rest of a line, so this line was drawn in it
    have hsince : (v.position + n) % dotsPerFrame % dotsPerLine - 252 < n := by
      simp only [hframe, drawnAt, dotsPerLine, screenHeight] at *
      omega
    refine ⟨n - 1 - ((v.position + n) % dotsPerFrame % dotsPerLine - 252), ?_, ?_, ?_⟩
    · omega
    · rw [finishes_iff hv hon]
      refine ⟨(v.position + n) % dotsPerFrame / dotsPerLine, hplace.1, ?_⟩
      simp only [hframe, drawnAt, dotsPerLine, screenHeight] at *
      omega
    · simp only [hframe, dotsPerLine, hblankDots] at *
      omega
  · rintro ⟨d, hd, hfinishes, hlately⟩
    obtain ⟨l, hl, hdrawnAt⟩ := (finishes_iff hv hon d).1 hfinishes
    simp only [hframe, drawnAt, dotsPerLine, screenHeight, hblankDots] at *
    omega

/-- After a stretch no longer than what follows the drawing of a line, a line that was drawn in it
is the current one. -/
theorem hblank_of_lineDrawn (hv : v.Placed) {n : Nat} (hn : n ≤ hblankDots)
    (hdrawn : (v.advance n).1.lineDrawn = true) :
    (v.dots n).phase = .hblank ∧ (v.dots n).line < screenHeight := by
  obtain ⟨hplaced, hcontrol⟩ := hv.advance n
  have hon : (v.advance n).1.control.isOn = true := by rw [hcontrol, on_of_lineDrawn hv hdrawn]
  have hphase : (v.dots n).phase = .hblank := by
    rw [hblank_iff_lately hv (Nat.lt_of_le_of_lt hn (by decide)) hdrawn]
    obtain ⟨d, hd, hfinishes⟩ := (lineDrawn_iff_exists hv n).1 hdrawn
    exact ⟨d, hd, hfinishes, by omega⟩
  exact ⟨hphase, (Phase.ofPlace_eq_hblank_iff.1 ((hplaced.phase_eq hon).symm.trans hphase)).1⟩

/-! ## What time leaves -/

/-- Time changes neither video memory nor the bank that a program reaches. -/
theorem vram_advance (hv : v.Placed) (n : Nat) :
    (v.advance n).1.vram = v.vram ∧ (v.advance n).1.bank = v.bank := by
  refine hv.advance_keeps (P := fun w => w.vram = v.vram ∧ w.bank = v.bank)
    (fun _ _ _ h => h) (fun w _ h => ?_) ⟨rfl, rfl⟩ n
  have hnext : w.enterNext.1.vram = w.vram ∧ w.enterNext.1.bank = w.bank := by
    unfold enterNext
    cases w.phase <;> simp only
    · split_ifs <;> exact ⟨rfl, rfl⟩
    · split_ifs <;> exact ⟨rfl, rfl⟩
    · exact ⟨trivial, trivial⟩
    · exact ⟨rfl, rfl⟩
  rw [endPhase_fst, updateStatus_fst]
  exact ⟨hnext.1.trans h.1, hnext.2.trans h.2⟩

/-! ## What writes leave -/

/-- From `v` to `w` no time passes: the note is the same, and so is the line, unless the display
returned to the first one. -/
def Stands (v w : Video) : Prop :=
  w.lineDrawn = v.lineDrawn ∧ (w.line = v.line ∨ w.line = 0)

theorem Stands.refl (v : Video) : Stands v v := ⟨rfl, .inl rfl⟩

theorem Stands.trans {v w x : Video} (h : Stands v w) (h' : Stands w x) : Stands v x := by
  refine ⟨h'.1.trans h.1, ?_⟩
  rcases h'.2 with hline | hline
  · rw [hline]
    exact h.2
  · exact .inr hline

theorem stands_updateStatus (v : Video) : Stands v v.updateStatus.1 := by
  rw [updateStatus_fst]
  exact ⟨rfl, .inl rfl⟩

theorem stands_setControl (v : Video) (b : UInt8) : Stands v (v.setControl b).1 := by
  rcases v.setControl_cases b with ⟨-, hset⟩ | ⟨-, -, hset⟩ | ⟨-, -, hset⟩
  · rw [hset]
    exact ⟨rfl, .inl rfl⟩
  · rw [hset]
    exact Stands.trans (w := switchOn { v with control := ⟨b⟩ }) ⟨rfl, .inr rfl⟩
      (stands_updateStatus _)
  · rw [hset]
    exact ⟨rfl, .inr rfl⟩

/-- Writes take no time. -/
theorem stands_write (v : Video) (l : Location) (b : UInt8) : Stands v (v.write l b).1 := by
  cases l with
  | control => exact v.stands_setControl b
  | status =>
    exact Stands.trans (w := { v with selected := b &&& 0x78 }) ⟨rfl, .inl rfl⟩
      (stands_updateStatus _)
  | lineCompare =>
    exact Stands.trans (w := { v with lineCompare := b }) ⟨rfl, .inl rfl⟩ (stands_updateStatus _)
  | _ => exact ⟨rfl, .inl rfl⟩

/-- A line that was drawn just before is still a seen one. -/
theorem Stands.seen {v w : Video} (h : Stands v w)
    (hseen : v.lineDrawn = true → v.line < screenHeight) :
    (w.lineDrawn && decide (w.line < screenHeight)) = v.lineDrawn := by
  rw [h.1]
  cases hdrawn : v.lineDrawn with
  | false => rfl
  | true =>
    have hbefore := hseen hdrawn
    have hline : w.line < screenHeight := by
      rcases h.2 with hline | hline
      · rw [hline]
        exact hbefore
      · rw [hline]
        decide
    simpa using hline

/-- A write changes the phase only by switching the display on or off. -/
theorem phase_write (v : Video) (l : Location) (b : UInt8)
    (h : l = .control → (Control.mk b).isOn = v.control.isOn) :
    (v.write l b).1.control.isOn = v.control.isOn ∧ (v.write l b).1.phase = v.phase := by
  cases l with
  | control =>
    change (v.setControl b).1.control.isOn = _ ∧ (v.setControl b).1.phase = _
    rw [setControl_same (h rfl)]
    exact ⟨h rfl, rfl⟩
  | status | lineCompare =>
    change (updateStatus _).1.control.isOn = _ ∧ (updateStatus _).1.phase = _
    rw [updateStatus_fst]
    exact ⟨rfl, rfl⟩
  | _ => exact ⟨rfl, rfl⟩

end GameBoy.Video
