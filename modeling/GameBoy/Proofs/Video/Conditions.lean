import GameBoy.Proofs.Video.Dots

/-!
# Requests at the rise of a condition

The display remembers which of the selected conditions held when it last looked. Whatever can change
one of them also looks at them again, so what it remembers is what holds, and an interrupt is
requested exactly when a selected condition begins to hold.

* `Video.conditions`: the selected conditions that hold while the display is on.
* `Video.Settled`: what is remembered is what holds; `Reachable.settled`: it always is.
* `Settled.has_write`, `Settled.dot`: what a write and a dot request.
* `Settled.advance`: what any number of dots request.
-/

namespace GameBoy.Video

variable {v w : Video}

/-! ## Conditions -/

/-- The selected conditions that hold; none do while the display is off. -/
def conditions (v : Video) : UInt8 := if v.control.isOn then v.holding else 0

/-- A selected condition begins to hold. -/
def Rises (v w : Video) : Prop := w.conditions &&& ~~~v.conditions ≠ 0

/-- The last seen line ends, and the first of those that are not seen begins. -/
def SeenEnds (v w : Video) : Prop := v.line = 143 ∧ w.line = 144

/-- The conditions that are remembered are those that hold. -/
def Settled (v : Video) : Prop := v.met = v.conditions

/-- The conditions depend on the selection, the phase, the two lines, and whether the display is
on. -/
theorem conditions_congr (hon : w.control.isOn = v.control.isOn)
    (hselected : w.selected = v.selected) (hphase : w.phase = v.phase) (hline : w.line = v.line)
    (hcompare : w.lineCompare = v.lineCompare) : w.conditions = v.conditions := by
  rw [conditions, conditions, holding, holding, linesAgree, linesAgree, hon, hselected, hphase,
    hline, hcompare]

theorem not_rises_of_eq (h : w.conditions = v.conditions) : ¬ Rises v w := by
  rw [Rises, h]
  simp

theorem conditions_updateStatus (v : Video) : v.updateStatus.1.conditions = v.conditions := by
  rw [updateStatus_fst]
  exact conditions_congr rfl rfl rfl rfl rfl

theorem Settled.congr (h : v.Settled) (hmet : w.met = v.met) (hsame : w.conditions = v.conditions) :
    w.Settled :=
  hmet.trans (h.trans hsame.symm)

/-- After looking, what is remembered is what holds. -/
theorem settled_updateStatus (v : Video) : v.updateStatus.1.Settled := by
  rw [Settled, conditions_updateStatus, updateStatus_fst]
  rfl

/-- Looking finds what has begun to hold since. -/
theorem updateStatus_snd (h : v.Settled) (hmet : w.met = v.met) :
    w.updateStatus.2 = true ↔ Rises v w.updateStatus.1 := by
  rw [Rises, conditions_updateStatus, ← h, ← hmet]
  cases hon : w.control.isOn with
  | false => simp [updateStatus, conditions, hon]
  | true => simp [updateStatus, conditions, hon]

theorem settled_powerUp (model : Model) : (powerUp model).Settled := by
  cases model <;> rfl

/-! ## Writes -/

/-- A write to the control register looks at the conditions when it switches the display on, and
forgets them when it switches it off. -/
theorem Settled.setControl (h : v.Settled) (b : UInt8) :
    (v.setControl b).1.Settled ∧ ((v.setControl b).2 = true ↔ Rises v (v.setControl b).1) := by
  rcases v.setControl_cases b with ⟨his, hset⟩ | ⟨-, -, hset⟩ | ⟨-, hoff, hset⟩
  · rw [hset]
    have hsame : conditions { v with control := ⟨b⟩ } = v.conditions :=
      conditions_congr his rfl rfl rfl rfl
    exact ⟨h.congr rfl hsame, by simpa using not_rises_of_eq hsame⟩
  · rw [hset]
    exact ⟨settled_updateStatus _, updateStatus_snd h rfl⟩
  · rw [hset]
    have hnone : (switchOff { v with control := ⟨b⟩ }).conditions = 0 :=
      if_neg (by simp [switchOff, hoff])
    exact ⟨hnone.symm, by simp [Rises, hnone]⟩

theorem Settled.put (h : v.Settled) (l : Location) (b : UInt8) :
    (v.put l b).1.Settled ∧ ((v.put l b).2 = true ↔ Rises v (v.put l b).1) := by
  have hsame : ∀ w : Video, w.met = v.met → w.conditions = v.conditions →
      w.Settled ∧ (false = true ↔ Rises v w) := by
    intro w hmet hw
    exact ⟨h.congr hmet hw, by simpa using not_rises_of_eq hw⟩
  cases l with
  | control => exact h.setControl b
  | status | lineCompare => exact ⟨settled_updateStatus _, updateStatus_snd h rfl⟩
  | _ => exact hsame _ rfl (conditions_congr rfl rfl rfl rfl rfl)

theorem Settled.write (h : v.Settled) (l : Location) (b : UInt8) : (v.write l b).1.Settled :=
  (h.put l b).1

/-- A write requests an interrupt exactly when a selected condition begins to hold. -/
theorem Settled.has_write (h : v.Settled) (l : Location) (b : UInt8) (i : Interrupt) :
    (v.write l b).2.has i = true ↔ i = .lcdStat ∧ Rises v (v.write l b).1 := by
  change (Requests.raiseIf ∅ .lcdStat (v.put l b).2).has i = true ↔ _
  rw [Requests.has_raiseIf, Requests.has_empty, Bool.false_or, Bool.and_eq_true, (h.put l b).2,
    beq_iff_eq]
  exact ⟨fun ⟨hrises, hi⟩ => ⟨hi.symm, hrises⟩, fun ⟨hi, hrises⟩ => ⟨hrises, hi.symm⟩⟩

/-! ## Dots -/

/-- The next phase begins without a look at the conditions. -/
theorem met_enterNext (v : Video) : v.enterNext.1.met = v.met := by
  unfold enterNext
  cases v.phase <;> simp only
  · split_ifs <;> rfl
  · split_ifs <;> rfl
  · rfl

/-- The unseen lines begin after the last seen one, from dot `d` of the phase on. -/
theorem enterNext_snd {d : Nat} (hphase : v.phase = .ofPlace v.line d) :
    v.enterNext.2 = true ↔ SeenEnds v v.enterNext.1 := by
  cases hp : v.phase with
  | search =>
    rw [enterNext_search hp]
    simp only [SeenEnds, Bool.false_eq_true, false_iff]
    omega
  | transfer =>
    rw [enterNext_transfer hp]
    simp only [SeenEnds, drawLine, Bool.false_eq_true, false_iff]
    omega
  | hblank =>
    by_cases hlast : v.line + 1 = screenHeight
    · rw [enterNext_last hp hlast]
      simp only [SeenEnds, screenHeight, true_iff] at hlast ⊢
      omega
    · rw [enterNext_hblank hp hlast]
      simp only [SeenEnds, screenHeight, Bool.false_eq_true, false_iff] at hlast ⊢
      omega
  | vblank =>
    have hplace := Phase.ofPlace_eq_vblank_iff.1 (hphase.symm.trans hp)
    by_cases hlast : v.line + 1 = linesPerFrame
    · rw [enterNext_complete hp hlast]
      simp only [SeenEnds, completeFrame, Bool.false_eq_true, false_iff]
      omega
    · rw [enterNext_vblank hp hlast]
      simp only [SeenEnds, screenHeight, Bool.false_eq_true, false_iff] at hplace ⊢
      omega

/-- What requests interrupt `i` as the display goes from `v` to `w`. -/
def Requested (i : Interrupt) (v w : Video) : Prop :=
  i = .vblank ∧ SeenEnds v w ∨ i = .lcdStat ∧ Rises v w

theorem not_requested_of_eq {i : Interrupt} (hline : w.line = v.line)
    (hsame : w.conditions = v.conditions) : ¬ Requested i v w := by
  rintro (⟨-, hbefore, hafter⟩ | ⟨-, hrises⟩)
  · rw [hline, hbefore] at hafter
    cases hafter
  · exact not_rises_of_eq hsame hrises

/-- The end of a phase requests an interrupt when the unseen lines begin, and when a selected
condition begins to hold. -/
theorem Settled.has_endPhase (h : v.Settled) {d : Nat} (hphase : v.phase = .ofPlace v.line d)
    (i : Interrupt) : v.endPhase.2.has i = true ↔ Requested i v v.endPhase.1 := by
  have hline : v.endPhase.1.line = v.enterNext.1.line := by rw [endPhase_fst, updateStatus_fst]
  have hends : SeenEnds v v.endPhase.1 ↔ SeenEnds v v.enterNext.1 := by
    rw [SeenEnds, SeenEnds, hline]
  change ((Requests.raiseIf ∅ .vblank v.enterNext.2).raiseIf .lcdStat
    v.enterNext.1.updateStatus.2).has i = true ↔ _
  rw [Requested, hends, ← enterNext_snd hphase, endPhase_fst,
    ← updateStatus_snd h (met_enterNext v), Requests.has_raiseIf, Requests.has_raiseIf]
  cases i <;> simp

/-- A dot leaves a settled display settled, and requests what it ought to. -/
theorem Settled.dot (h : v.Settled) (hv : v.Placed) :
    (v.advance 1).1.Settled ∧
      ∀ i, (v.advance 1).2.has i = true ↔ Requested i v (v.advance 1).1 := by
  have hsame : ∀ w : Video, w.met = v.met → w.line = v.line → w.conditions = v.conditions →
      w.Settled ∧ ∀ i, Requests.has ∅ i = true ↔ Requested i v w := by
    intro w hmet hline hw
    refine ⟨h.congr hmet hw, fun i => ?_⟩
    simpa using not_requested_of_eq hline hw
  cases hon : v.control.isOn with
  | false =>
    rw [advance_of_off hon]
    exact hsame _ rfl rfl (conditions_congr rfl rfl rfl rfl rfl)
  | true =>
    rcases hv.dot_cases with hdot | hdot
    · rw [advance_one_of_lt hon hdot]
      exact hsame _ rfl rfl (conditions_congr rfl rfl rfl rfl rfl)
    · rw [advance_one_of_eq hv hon hdot]
      have hbefore : Settled { v with dot := v.phase.boundary, lineDrawn := false } := h
      exact ⟨settled_updateStatus _, hbefore.has_endPhase (hv.phase_eq hon)⟩

/-! ## Any number of dots -/

/-- The display after `d` more dots. -/
def dots (v : Video) (d : Nat) : Video := (v.advance d).1

/-- One more dot, but for the note whether a line was drawn. -/
theorem dots_succ (hv : v.Placed) (d : Nat) :
    v.dots (d + 1) = ((v.dots d).advance 1).1.noteDrawn (v.dots d).lineDrawn := by
  rw [dots, advance_add hv]
  rfl

theorem requested_noteDrawn (i : Interrupt) (v w : Video) (drawn : Bool) :
    Requested i v (w.noteDrawn drawn) ↔ Requested i v w := .rfl

/-- Any number of dots leave a display settled, and what they request, one of them requests. -/
theorem Settled.advance (h : v.Settled) (hv : v.Placed) (n : Nat) :
    (v.dots n).Settled ∧ ∀ i, (v.advance n).2.has i = true ↔
      ∃ d, d < n ∧ Requested i (v.dots d) (v.dots (d + 1)) := by
  induction n with
  | zero =>
    rw [dots, advance_zero hv]
    exact ⟨h, by simp⟩
  | succ n ih =>
    obtain ⟨hsettled, hbefore⟩ := ih
    obtain ⟨hnext, hlast⟩ := hsettled.dot (hv.advance n).1
    rw [dots_succ hv]
    refine ⟨hnext, fun i => ?_⟩
    rw [advance_add hv, Requests.has_union, Bool.or_eq_true, hbefore, Nat.exists_lt_succ_right]
    refine or_congr_right ((hlast i).trans ?_)
    rw [dots_succ hv, requested_noteDrawn]

/-- What is remembered is always what holds. -/
theorem Reachable.settled (h : v.Reachable) : v.Settled := by
  induction h with
  | powerUp model => exact settled_powerUp model
  | write l b _ ih => exact ih.write l b
  | advance n hv ih => exact (ih.advance hv.placed n).1
  | takeFrame _ ih => exact ih.congr rfl rfl

end GameBoy.Video
