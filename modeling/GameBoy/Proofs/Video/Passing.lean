import GameBoy.Proofs.Video.Position

/-!
# Time passes evenly in the display

How dots are parcelled out does not matter: letting `a` dots pass and then `b` is letting `a + b`
pass. Only the note whether a line was drawn is begun anew with each parcel.

* `scan_add`: the same for a display that is on.
* `advance_add`: the same for any display.
* `Placed.scan`, `Placed.advance`: the display stays at a place of its picture.
* `Placed.advance_keeps`: what moving on and the ends of phases keep, time keeps.
-/

namespace GameBoy.Video

/-! ## Dots one after the other -/

/-- Too few dots to end the phase only move the display on. -/
theorem scan_of_lt {v : Video} (r : Requests) {n : Nat} (h : v.dot + n < v.phase.boundary) :
    v.scan r n = ({ v with dot := v.dot + n }, r) := by
  rw [scan]
  exact if_pos (Or.inr (by omega))

/-- Enough dots to end the phase end it, and the others follow. -/
theorem scan_of_le {v : Video} (r : Requests) {n : Nat} (h : v.dot < v.phase.boundary)
    (hn : v.phase.boundary ≤ v.dot + n) :
    v.scan r n =
      scan (endPhase { v with dot := v.phase.boundary }).1
        (r ∪ (endPhase { v with dot := v.phase.boundary }).2) (n - (v.phase.boundary - v.dot)) := by
  have hleft : v.dot + (v.phase.boundary - v.dot) = v.phase.boundary := by omega
  rw [scan, if_neg (by omega)]
  simp only [hleft]

/-- The display stays in its phase as long as the phase lasts. -/
theorem Placed.move {v : Video} (h : v.Placed) (hon : v.control.isOn = true) {n : Nat}
    (hn : v.dot + n < v.phase.boundary) : Placed { v with dot := v.dot + n } := by
  have hphase := h.phase_eq hon
  have hsame := Nat.lt_of_lt_of_le hn v.phase.boundary_le
  refine .of_on hon h.line_lt hsame ?_
  cases hp : v.phase with
  | search =>
    have hplace := Phase.ofPlace_eq_search_iff.1 (hphase.symm.trans hp)
    rw [hp] at hn
    exact (Phase.ofPlace_eq_search_iff.2 ⟨hplace.1, hn⟩).symm
  | transfer =>
    have hplace := Phase.ofPlace_eq_transfer_iff.1 (hphase.symm.trans hp)
    rw [hp] at hn
    exact (Phase.ofPlace_eq_transfer_iff.2
      ⟨hplace.1, Nat.le_trans hplace.2.1 (Nat.le_add_right ..), hn⟩).symm
  | hblank =>
    have hplace := Phase.ofPlace_eq_hblank_iff.1 (hphase.symm.trans hp)
    exact (Phase.ofPlace_eq_hblank_iff.2
      ⟨hplace.1, Nat.le_trans hplace.2 (Nat.le_add_right ..)⟩).symm
  | vblank =>
    have hplace := Phase.ofPlace_eq_vblank_iff.1 (hphase.symm.trans hp)
    exact (Phase.ofPlace_eq_vblank_iff.2 hplace).symm

/-- The phases of a display that is on, one after the other: what holds while a phase lasts, and is
passed on from its end, holds after any number of dots. -/
theorem Placed.scan_induction {P : Video → Requests → Nat → Prop}
    (lasts : ∀ v r n, v.Placed → v.control.isOn = true → v.dot + n < v.phase.boundary → P v r n)
    (ends : ∀ v r n, v.Placed → v.control.isOn = true → v.phase.boundary ≤ v.dot + n →
      P (Video.endPhase { v with dot := v.phase.boundary }).1
        (r ∪ (Video.endPhase { v with dot := v.phase.boundary }).2)
        (n - (v.phase.boundary - v.dot)) →
      P v r n)
    {v : Video} (h : v.Placed) (hon : v.control.isOn = true) (r : Requests) (n : Nat) :
    P v r n := by
  induction n using Nat.strongRecOn generalizing v r with
  | ind n ih =>
    rcases Nat.lt_or_ge (v.dot + n) v.phase.boundary with hn | hn
    · exact lasts v r n h hon hn
    · refine ends v r n h hon hn (ih _ ?_ (h.endPhase hon rfl) ?_ _)
      · have := h.dot_lt_boundary
        omega
      · rw [control_endPhase]
        exact hon

theorem Placed.scan {v : Video} (h : v.Placed) (hon : v.control.isOn = true) (r : Requests)
    (n : Nat) : (v.scan r n).1.Placed ∧ (v.scan r n).1.control = v.control := by
  refine Placed.scan_induction
    (P := fun v r n => (v.scan r n).1.Placed ∧ (v.scan r n).1.control = v.control) ?_ ?_ h hon r n
  · intro v r n h hon hn
    rw [scan_of_lt r hn]
    exact ⟨h.move hon hn, rfl⟩
  · intro v r n h hon hn ih
    rw [scan_of_le r h.dot_lt_boundary hn]
    exact ⟨ih.1, ih.2.trans (control_endPhase _)⟩

/-- The dots may be passed in two parcels. -/
theorem scan_add {v : Video} (h : v.Placed) (hon : v.control.isOn = true) (r : Requests)
    (a b : Nat) : v.scan r (a + b) = (v.scan r a).1.scan (v.scan r a).2 b := by
  refine Placed.scan_induction
    (P := fun v r a => v.scan r (a + b) = (v.scan r a).1.scan (v.scan r a).2 b) ?_ ?_ h hon r a
  · intro v r a h hon ha
    rw [scan_of_lt r ha]
    have hmoved : v.dot + (a + b) = v.dot + a + b := (Nat.add_assoc ..).symm
    rcases Nat.lt_or_ge (v.dot + (a + b)) v.phase.boundary with hab | hab
    · rw [scan_of_lt r hab, hmoved]
      exact (scan_of_lt (v := { v with dot := v.dot + a }) r (hmoved ▸ hab)).symm
    · have hleft : a + b - (v.phase.boundary - v.dot) = b - (v.phase.boundary - (v.dot + a)) := by
        omega
      rw [scan_of_le r h.dot_lt_boundary hab, hleft]
      exact (scan_of_le (v := { v with dot := v.dot + a }) r ha (hmoved ▸ hab)).symm
  · intro v r a h hon ha ih
    have hleft : a + b - (v.phase.boundary - v.dot) = a - (v.phase.boundary - v.dot) + b := by
      omega
    rw [scan_of_le r h.dot_lt_boundary ha, ← ih,
      scan_of_le r h.dot_lt_boundary (Nat.le_trans ha (by omega)), hleft]

/-! ## The note that a line was drawn -/

/-- The display with a line noted as drawn, or with its own note. -/
def noteDrawn (v : Video) (drawn : Bool) : Video := { v with lineDrawn := drawn || v.lineDrawn }

theorem updateStatus_noteDrawn (v : Video) (drawn : Bool) :
    (v.noteDrawn drawn).updateStatus = (v.updateStatus.1.noteDrawn drawn, v.updateStatus.2) := by
  have hon : (v.noteDrawn drawn).control.isOn = v.control.isOn := rfl
  unfold updateStatus
  rw [hon]
  split <;> rfl

theorem enterNext_noteDrawn (v : Video) (drawn : Bool) :
    (v.noteDrawn drawn).enterNext = (v.enterNext.1.noteDrawn drawn, v.enterNext.2) := by
  cases hp : v.phase with
  | search =>
    rw [enterNext_search hp, enterNext_search (v := v.noteDrawn drawn) hp]
    rfl
  | transfer =>
    -- the drawn line does not depend on the note, and the note is made in either case
    rw [enterNext_transfer hp, enterNext_transfer (v := v.noteDrawn drawn) hp]
    simp only [noteDrawn, drawLine, Bool.or_true]
    rfl
  | hblank =>
    by_cases hlast : v.line + 1 = screenHeight
    · rw [enterNext_last hp hlast, enterNext_last (v := v.noteDrawn drawn) hp hlast]
      rfl
    · rw [enterNext_hblank hp hlast, enterNext_hblank (v := v.noteDrawn drawn) hp hlast]
      rfl
  | vblank =>
    by_cases hlast : v.line + 1 = linesPerFrame
    · rw [enterNext_complete hp hlast, enterNext_complete (v := v.noteDrawn drawn) hp hlast]
      rfl
    · rw [enterNext_vblank hp hlast, enterNext_vblank (v := v.noteDrawn drawn) hp hlast]
      rfl

theorem endPhase_noteDrawn (v : Video) (drawn : Bool) :
    (v.noteDrawn drawn).endPhase = (v.endPhase.1.noteDrawn drawn, v.endPhase.2) := by
  unfold endPhase
  simp only [enterNext_noteDrawn, updateStatus_noteDrawn]

/-- The earlier note is kept beside what the passing of time does. -/
theorem scan_noteDrawn {v : Video} (h : v.Placed) (hon : v.control.isOn = true) (r : Requests)
    (n : Nat) (drawn : Bool) :
    (v.noteDrawn drawn).scan r n = ((v.scan r n).1.noteDrawn drawn, (v.scan r n).2) := by
  refine Placed.scan_induction
    (P := fun v r n =>
      (v.noteDrawn drawn).scan r n = ((v.scan r n).1.noteDrawn drawn, (v.scan r n).2))
    ?_ ?_ h hon r n
  · intro v r n h hon hn
    rw [scan_of_lt r hn]
    exact scan_of_lt (v := v.noteDrawn drawn) r hn
  · intro v r n h hon hn ih
    have hended := endPhase_noteDrawn { v with dot := v.phase.boundary } drawn
    rw [scan_of_le r h.dot_lt_boundary hn, ← ih]
    refine (scan_of_le (v := v.noteDrawn drawn) r h.dot_lt_boundary hn).trans ?_
    exact congrArg (fun e : Video × Requests => e.1.scan (r ∪ e.2) (n - (v.phase.boundary - v.dot)))
      hended

/-- Interrupts that were requested before stay requested. -/
theorem scan_union {v : Video} (h : v.Placed) (hon : v.control.isOn = true) (r s : Requests)
    (n : Nat) : v.scan (r ∪ s) n = ((v.scan s n).1, r ∪ (v.scan s n).2) := by
  refine Placed.scan_induction
    (P := fun v s n => v.scan (r ∪ s) n = ((v.scan s n).1, r ∪ (v.scan s n).2)) ?_ ?_ h hon s n
  · intro v s n h hon hn
    rw [scan_of_lt _ hn, scan_of_lt _ hn]
  · intro v s n h hon hn ih
    rw [scan_of_le _ h.dot_lt_boundary hn, scan_of_le _ h.dot_lt_boundary hn,
      Requests.union_assoc, ih]

/-! ## Any display -/

theorem Placed.forget {v : Video} (h : v.Placed) : Placed { v with lineDrawn := false } :=
  h.congr rfl rfl rfl rfl

theorem advance_of_on {v : Video} (hon : v.control.isOn = true) (n : Nat) :
    v.advance n = scan { v with lineDrawn := false } ∅ n :=
  if_pos hon

theorem advance_of_off {v : Video} (hoff : v.control.isOn = false) (n : Nat) :
    v.advance n = ({ v with lineDrawn := false }, ∅) := by
  simp [advance, hoff]

/-- Time changes neither the place's agreement with the phase nor the control register. -/
theorem Placed.advance {v : Video} (h : v.Placed) (n : Nat) :
    (v.advance n).1.Placed ∧ (v.advance n).1.control = v.control := by
  cases hon : v.control.isOn with
  | false =>
    rw [advance_of_off hon]
    exact ⟨h.forget, rfl⟩
  | true =>
    rw [advance_of_on hon]
    exact h.forget.scan hon ∅ n

/-- What moving on within a phase and the ends of phases keep, any number of dots keep. -/
theorem Placed.advance_keeps {P : Video → Prop}
    (moves : ∀ v dot drawn, P v → P { v with dot, lineDrawn := drawn })
    (ends : ∀ v, v.control.isOn = true → P v → P v.endPhase.1)
    {v : Video} (hv : v.Placed) (h : P v) (n : Nat) : P (v.advance n).1 := by
  have hforget : P { v with lineDrawn := false } := moves v v.dot false h
  cases hon : v.control.isOn with
  | false =>
    rw [advance_of_off hon]
    exact hforget
  | true =>
    rw [advance_of_on hon]
    refine Placed.scan_induction (P := fun v r n => P v → P (v.scan r n).1) ?_ ?_ hv.forget hon ∅ n
      hforget
    · intro v r n hv hon hn h
      rw [scan_of_lt r hn]
      exact moves v (v.dot + n) v.lineDrawn h
    · intro v r n hv hon hn ih h
      rw [scan_of_le r hv.dot_lt_boundary hn]
      exact ih (ends _ hon (moves v v.phase.boundary v.lineDrawn h))

/-- A display is the one without its note, with the note. -/
theorem noteDrawn_lineDrawn (v : Video) :
    noteDrawn { v with lineDrawn := false } v.lineDrawn = v := by
  simp [noteDrawn]

/-- Time may pass in two parcels: the same happens, and a line was drawn if one was drawn in either
of them. -/
theorem advance_add {v : Video} (h : v.Placed) (a b : Nat) :
    v.advance (a + b) =
      (((v.advance a).1.advance b).1.noteDrawn (v.advance a).1.lineDrawn,
        (v.advance a).2 ∪ ((v.advance a).1.advance b).2) := by
  obtain ⟨hplaced, hcontrol⟩ := h.advance a
  cases hon : v.control.isOn with
  | false =>
    have hstill : (v.advance a).1.control.isOn = false := by rw [hcontrol, hon]
    rw [advance_of_off hstill, advance_of_off hon, advance_of_off hon, Requests.union_empty]
    rfl
  | true =>
    have hstill : (v.advance a).1.control.isOn = true := by rw [hcontrol, hon]
    calc v.advance (a + b)
      _ = (v.advance a).1.scan (v.advance a).2 b := by
        rw [advance_of_on hon, advance_of_on hon]
        exact scan_add h.forget hon ∅ a b
      _ = (noteDrawn { (v.advance a).1 with lineDrawn := false } (v.advance a).1.lineDrawn).scan
            ((v.advance a).2 ∪ ∅) b := by
        rw [noteDrawn_lineDrawn, Requests.union_empty]
      _ = _ := by
        rw [scan_noteDrawn hplaced.forget hstill, scan_union hplaced.forget hstill,
          advance_of_on hstill]

end GameBoy.Video
