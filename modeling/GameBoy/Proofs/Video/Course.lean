import GameBoy.Proofs.Video.Passing
import Mathlib.Logic.Function.Iterate

/-!
# The course of the display

What any number of dots does to a display that is on, in terms of its place in the picture alone.

* `Video.Passes`: a stretch of dots passes a place of the picture, in this picture or a later one.
* `Video.Course`: the place afterwards, the pictures completed, and the events on the way.
* `Course.trans`: the courses of two stretches make up that of the whole.
* `course_scan`: the passing of time follows the course.
* `Passage.stride`: time passes phase by phase; `Passage.ends`: all of it does.
* `Reachable.advance_course`: the course of every display that is on.
-/

namespace GameBoy.Video

/-! ## Places on the way -/

/-- A stretch of `n` dots from position `p` on passes place `t` of the picture. -/
def Passes (p n t : Nat) : Prop := ∃ q, p < q ∧ q ≤ p + n ∧ q % dotsPerFrame = t

/-- Where the unseen lines begin. -/
abbrev unseenStart : Nat := screenHeight * dotsPerLine

/-- Where line `l` has been drawn. -/
abbrev drawnAt (l : Nat) : Nat := dotsPerLine * l + 252

/-- Within a picture a place is passed if it lies ahead and not too far. -/
theorem passes_iff_of_lt {p n t : Nat} (hend : p + n < dotsPerFrame) :
    Passes p n t ↔ p < t ∧ t ≤ p + n := by
  constructor
  · rintro ⟨q, hpq, hq, rfl⟩
    rw [Nat.mod_eq_of_lt (Nat.lt_of_le_of_lt hq hend)]
    exact ⟨hpq, hq⟩
  · rintro ⟨hpt, ht⟩
    exact ⟨t, hpt, ht, Nat.mod_eq_of_lt (Nat.lt_of_le_of_lt ht hend)⟩

/-- To the end of the picture, the end is the beginning of the next one. -/
theorem passes_iff_of_eq {p n t : Nat} (hend : p + n = dotsPerFrame) (ht : 0 < t) :
    Passes p n t ↔ p < t ∧ t < dotsPerFrame := by
  constructor
  · rintro ⟨q, hpq, hq, rfl⟩
    rcases Nat.lt_or_eq_of_le hq with hlt | heq
    · rw [Nat.mod_eq_of_lt (hend ▸ hlt)]
      exact ⟨hpq, hend ▸ hlt⟩
    · rw [heq, hend, Nat.mod_self] at ht
      exact absurd ht (Nat.lt_irrefl 0)
  · rintro ⟨hpt, hlt⟩
    exact ⟨t, hpt, by omega, Nat.mod_eq_of_lt hlt⟩

/-- A place is passed in one of two stretches if it is passed in the whole of them. -/
theorem passes_add (p a b t : Nat) :
    Passes p (a + b) t ↔ Passes p a t ∨ Passes ((p + a) % dotsPerFrame) b t := by
  have hsplit := Nat.div_add_mod (p + a) dotsPerFrame
  constructor
  · rintro ⟨q, hpq, hq, ht⟩
    rcases Nat.lt_or_ge (p + a) q with hlt | hle
    · refine .inr ⟨q - dotsPerFrame * ((p + a) / dotsPerFrame), by omega, by omega, ?_⟩
      rw [Nat.sub_mul_mod (by omega)]
      exact ht
    · exact .inl ⟨q, hpq, hle, ht⟩
  · rintro (⟨q, hpq, hq, ht⟩ | ⟨q, hpq, hq, ht⟩)
    · exact ⟨q, hpq, by omega, ht⟩
    · refine ⟨q + dotsPerFrame * ((p + a) / dotsPerFrame), by omega, by omega, ?_⟩
      rw [Nat.add_mul_mod_self_left]
      exact ht

/-! ## Courses -/

/-- What `n` dots make of a display, and of the interrupts `r` requested before. -/
structure Course (v : Video) (r : Requests) (n : Nat) (w : Video) (s : Requests) : Prop where
  position_eq : w.position = (v.position + n) % dotsPerFrame
  frames_eq : w.frames = v.frames + (v.position + n) / dotsPerFrame
  frameReady_iff : w.frameReady = true ↔ v.frameReady = true ∨ v.frames < w.frames
  vblank_iff : s.has .vblank = true ↔ r.has .vblank = true ∨ Passes v.position n unseenStart
  lineDrawn_iff :
    w.lineDrawn = true ↔
      v.lineDrawn = true ∨ ∃ l, l < screenHeight ∧ Passes v.position n (drawnAt l)

/-- One stretch after another. -/
theorem Course.trans {v w x : Video} {r s t : Requests} {a b : Nat} (h : Course v r a w s)
    (k : Course w s b x t) : Course v r (a + b) x t where
  position_eq := by
    rw [k.position_eq, h.position_eq, Nat.mod_add_mod, Nat.add_assoc]
  frames_eq := by
    have hsplit := Nat.div_add_mod (v.position + a) dotsPerFrame
    have hwhole : v.position + (a + b) =
        (v.position + a) % dotsPerFrame + b + dotsPerFrame * ((v.position + a) / dotsPerFrame) := by
      omega
    rw [k.frames_eq, h.frames_eq, h.position_eq, hwhole,
      Nat.add_mul_div_left _ _ (by decide : 0 < dotsPerFrame)]
    omega
  frameReady_iff := by
    have hfirst : v.frames ≤ w.frames := h.frames_eq ▸ Nat.le_add_right ..
    have hsecond : w.frames ≤ x.frames := k.frames_eq ▸ Nat.le_add_right ..
    rw [k.frameReady_iff, h.frameReady_iff, or_assoc]
    refine or_congr_right ?_
    omega
  vblank_iff := by
    rw [k.vblank_iff, h.vblank_iff, h.position_eq, passes_add, or_assoc]
  lineDrawn_iff := by
    rw [k.lineDrawn_iff, h.lineDrawn_iff, h.position_eq, or_assoc]
    refine or_congr_right ?_
    constructor
    · rintro (⟨l, hl, hpass⟩ | ⟨l, hl, hpass⟩)
      · exact ⟨l, hl, (passes_add ..).2 (.inl hpass)⟩
      · exact ⟨l, hl, (passes_add ..).2 (.inr hpass)⟩
    · rintro ⟨l, hl, hpass⟩
      rcases (passes_add ..).1 hpass with hpass | hpass
      · exact .inl ⟨l, hl, hpass⟩
      · exact .inr ⟨l, hl, hpass⟩

/-- Within a picture. -/
theorem Course.of_within {v w : Video} {r s : Requests} {n : Nat}
    (hend : v.position + n < dotsPerFrame) (hposition : w.position = v.position + n)
    (hframes : w.frames = v.frames) (hready : w.frameReady = v.frameReady)
    (hvblank : s.has .vblank = true ↔
      r.has .vblank = true ∨ v.position < unseenStart ∧ unseenStart ≤ v.position + n)
    (hdrawn : w.lineDrawn = true ↔
      v.lineDrawn = true ∨
        ∃ l, l < screenHeight ∧ v.position < drawnAt l ∧ drawnAt l ≤ v.position + n) :
    Course v r n w s where
  position_eq := by rw [Nat.mod_eq_of_lt hend, hposition]
  frames_eq := by rw [Nat.div_eq_of_lt hend, hframes, Nat.add_zero]
  frameReady_iff := by simp [hready, hframes]
  vblank_iff := by rw [hvblank, passes_iff_of_lt hend]
  lineDrawn_iff := by simp only [hdrawn, passes_iff_of_lt hend]

section Lines

variable {v w : Video} {r s : Requests} {n : Nat}

/-- Within a line. -/
theorem Course.of_sameLine (hv : v.line < linesPerFrame) (hn : v.dot + n < dotsPerLine)
    (hline : w.line = v.line) (hdot : w.dot = v.dot + n) (hframes : w.frames = v.frames)
    (hready : w.frameReady = v.frameReady) (hvblank : s.has .vblank = r.has .vblank)
    (hdrawn : w.lineDrawn = true ↔
      v.lineDrawn = true ∨ v.line < screenHeight ∧ v.dot < 252 ∧ 252 ≤ v.dot + n) :
    Course v r n w s := by
  simp only [linesPerFrame, dotsPerLine] at hv hn
  refine .of_within ?_ ?_ hframes hready ?_ ?_
  · simp only [position, dotsPerFrame, dotsPerLine, linesPerFrame]
    omega
  · simp only [position, hline, hdot, Nat.add_assoc]
  · rw [hvblank]
    refine (or_iff_left ?_).symm
    simp only [position, unseenStart, screenHeight, dotsPerLine]
    omega
  · rw [hdrawn]
    refine or_congr_right ?_
    simp only [position, drawnAt, dotsPerLine, screenHeight]
    constructor
    · intro hpass
      exact ⟨v.line, by omega⟩
    · rintro ⟨l, hpass⟩
      omega

/-- Into the next line of the picture. -/
theorem Course.of_nextLine (hv : v.line + 1 < linesPerFrame) (hdots : v.dot < dotsPerLine)
    (hn : v.dot + n = dotsPerLine)
    (hline : w.line = v.line + 1) (hdot : w.dot = 0) (hframes : w.frames = v.frames)
    (hready : w.frameReady = v.frameReady) (hpast : screenHeight ≤ v.line ∨ 252 ≤ v.dot)
    (hdrawn : w.lineDrawn = v.lineDrawn)
    (hvblank : s.has .vblank = true ↔ r.has .vblank = true ∨ v.line + 1 = screenHeight) :
    Course v r n w s := by
  simp only [linesPerFrame, dotsPerLine, screenHeight] at hv hdots hn hpast hvblank
  refine .of_within ?_ ?_ hframes hready ?_ ?_
  · simp only [position, dotsPerFrame, dotsPerLine, linesPerFrame]
    omega
  · simp only [position, hline, hdot, dotsPerLine]
    omega
  · rw [hvblank]
    refine or_congr_right ?_
    simp only [position, unseenStart, screenHeight, dotsPerLine]
    omega
  · rw [hdrawn]
    refine (or_iff_left ?_).symm
    simp only [position, drawnAt, dotsPerLine, screenHeight]
    rintro ⟨l, hpass⟩
    omega

/-- Into the next picture. -/
theorem Course.of_nextPicture (hv : v.line + 1 = linesPerFrame) (hn : v.dot + n = dotsPerLine)
    (hline : w.line = 0) (hdot : w.dot = 0) (hframes : w.frames = v.frames + 1)
    (hready : w.frameReady = true) (hdrawn : w.lineDrawn = v.lineDrawn)
    (hvblank : s.has .vblank = r.has .vblank) : Course v r n w s := by
  have hend : v.position + n = dotsPerFrame := by
    simp only [linesPerFrame, dotsPerLine, position, dotsPerFrame] at hv hn ⊢
    omega
  simp only [linesPerFrame] at hv
  refine ⟨?_, ?_, ?_, ?_, ?_⟩
  · rw [hend, Nat.mod_self, position, hline, hdot]
    rfl
  · rw [hend, hframes]
    rfl
  · simp [hready, hframes]
  · rw [hvblank, passes_iff_of_eq hend (by decide)]
    refine (or_iff_left ?_).symm
    simp only [position, unseenStart, screenHeight, dotsPerLine]
    omega
  · rw [hdrawn]
    refine (or_iff_left ?_).symm
    rintro ⟨l, hl, hpass⟩
    rw [passes_iff_of_eq hend (Nat.lt_of_lt_of_le (by decide) (Nat.le_add_left ..))] at hpass
    simp only [position, dotsPerLine, screenHeight] at hl hpass
    omega

end Lines

/-! ## The course of a phase -/

/-- While a phase lasts, time passes and nothing else happens. -/
theorem course_of_lt {v : Video} (h : v.Placed) (hon : v.control.isOn = true) (r : Requests)
    {n : Nat} (hn : v.dot + n < v.phase.boundary) :
    Course v r n { v with dot := v.dot + n } r := by
  have hsame := Nat.lt_of_lt_of_le hn v.phase.boundary_le
  refine .of_sameLine h.line_lt hsame rfl rfl rfl rfl rfl ?_
  refine (or_iff_left ?_).symm
  rw [h.phase_eq hon] at hn
  unfold Phase.ofPlace at hn
  split_ifs at hn <;> simp only [Phase.boundary] at hn <;> omega

theorem has_vblank_endPhase (v : Video) : v.endPhase.2.has .vblank = v.enterNext.2 := by
  simp [endPhase, Requests.has_raiseIf]

/-- Looking at the conditions is no part of the course. -/
theorem course_endPhase_of_enterNext {v w : Video} {r : Requests} {n : Nat}
    (h : Course v r n w.enterNext.1 (r.raiseIf .vblank w.enterNext.2)) :
    Course v r n w.endPhase.1 (r ∪ w.endPhase.2) := by
  have hrequests :
      (r ∪ w.endPhase.2).has .vblank = (r.raiseIf .vblank w.enterNext.2).has .vblank := by
    simp [has_vblank_endPhase, Requests.has_raiseIf]
  rw [endPhase_fst, updateStatus_fst]
  exact ⟨h.position_eq, h.frames_eq, h.frameReady_iff, hrequests ▸ h.vblank_iff, h.lineDrawn_iff⟩

/-- What the beginning of the next phase does, from dot `d` of the phase on. -/
theorem course_enterNext {v : Video} {d : Nat} (hline : v.line < linesPerFrame)
    (hphase : v.phase = .ofPlace v.line d) (hd : d < v.phase.boundary)
    (hdot : v.dot = v.phase.boundary) (r : Requests) :
    Course { v with dot := d } r (v.phase.boundary - d) v.enterNext.1
      (r.raiseIf .vblank v.enterNext.2) := by
  have hleft : d + (v.phase.boundary - d) = v.phase.boundary := by omega
  cases hp : v.phase with
  | search =>
    have hplace := Phase.ofPlace_eq_search_iff.1 (hphase.symm.trans hp)
    rw [hp] at hdot hleft
    rw [enterNext_search hp]
    refine .of_sameLine hline (by rw [hleft]; decide) rfl (hdot.trans hleft.symm) rfl rfl rfl ?_
    refine (or_iff_left ?_).symm
    rw [hleft]
    simp [Phase.boundary]
  | transfer =>
    have hplace := Phase.ofPlace_eq_transfer_iff.1 (hphase.symm.trans hp)
    rw [hp] at hdot hleft
    rw [enterNext_transfer hp]
    refine .of_sameLine hline (by rw [hleft]; decide) rfl (hdot.trans hleft.symm) rfl rfl rfl ?_
    rw [hleft]
    exact ⟨fun _ => .inr ⟨hplace.1, hplace.2.2, Nat.le_refl _⟩, fun _ => rfl⟩
  | hblank =>
    have hplace := Phase.ofPlace_eq_hblank_iff.1 (hphase.symm.trans hp)
    rw [hp] at hd hleft
    by_cases hlast : v.line + 1 = screenHeight
    · rw [enterNext_last hp hlast]
      refine .of_nextLine (by rw [hlast]; decide) hd hleft rfl rfl rfl rfl (.inr hplace.2) rfl ?_
      simp [Requests.has_raiseIf, hlast]
    · rw [enterNext_hblank hp hlast]
      have hnext : v.line + 1 < linesPerFrame :=
        Nat.lt_of_le_of_lt hplace.1 (by decide)
      refine .of_nextLine hnext hd hleft rfl rfl rfl rfl (.inr hplace.2) rfl ?_
      simp [Requests.has_raiseIf, hlast]
  | vblank =>
    have hplace := Phase.ofPlace_eq_vblank_iff.1 (hphase.symm.trans hp)
    rw [hp] at hd hleft
    by_cases hlast : v.line + 1 = linesPerFrame
    · rw [enterNext_complete hp hlast]
      exact .of_nextPicture hlast hleft rfl rfl rfl rfl rfl rfl
    · rw [enterNext_vblank hp hlast]
      have hnext : v.line + 1 < linesPerFrame := by omega
      have hseen : v.line + 1 ≠ screenHeight := by omega
      refine .of_nextLine hnext hd hleft rfl rfl rfl rfl (.inl hplace) rfl ?_
      simp [Requests.raiseIf, hseen]

/-- What the end of a phase does. -/
theorem course_endPhase {v : Video} (h : v.Placed) (hon : v.control.isOn = true) (r : Requests) :
    Course v r (v.phase.boundary - v.dot)
      (Video.endPhase { v with dot := v.phase.boundary }).1
      (r ∪ (Video.endPhase { v with dot := v.phase.boundary }).2) := by
  apply course_endPhase_of_enterNext
  exact course_enterNext (v := { v with dot := v.phase.boundary }) (d := v.dot) h.line_lt
    (h.phase_eq hon) h.dot_lt_boundary rfl r

/-- While the display is on, its course is that of the dots that pass. -/
theorem course_scan {v : Video} (h : v.Placed) (hon : v.control.isOn = true) (r : Requests)
    (n : Nat) : Course v r n (v.scan r n).1 (v.scan r n).2 := by
  refine Placed.scan_induction (P := fun v r n => Course v r n (v.scan r n).1 (v.scan r n).2)
    ?_ ?_ h hon r n
  · intro v r n h hon hn
    rw [scan_of_lt r hn]
    exact course_of_lt h hon r hn
  · intro v r n h hon hn ih
    have hwhole : n = v.phase.boundary - v.dot + (n - (v.phase.boundary - v.dot)) := by omega
    have hcourse := (course_endPhase h hon r).trans ih
    rw [← hwhole] at hcourse
    rw [scan_of_le r h.dot_lt_boundary hn]
    exact hcourse

theorem frames_le_scan {v : Video} (h : v.Placed) (hon : v.control.isOn = true) (r : Requests)
    (n : Nat) : v.frames ≤ (v.scan r n).1.frames := by
  rw [(course_scan h hon r n).frames_eq]
  exact Nat.le_add_right ..

/-- Time takes no picture back. -/
theorem frames_le_advance {v : Video} (h : v.Placed) (n : Nat) :
    v.frames ≤ (v.advance n).1.frames := by
  cases hon : v.control.isOn with
  | false =>
    have hframes : (v.advance n).1.frames = v.frames := by rw [advance_of_off hon]
    exact Nat.le_of_eq hframes.symm
  | true =>
    rw [advance_of_on hon]
    exact frames_le_scan h.forget hon ∅ n

/-! ## The loop -/

/-- A stretch of time on its way: the display, the interrupts requested so far, and the dots that
are left. -/
structure Passage where
  video : Video
  raised : Requests
  left : Nat

/-- Time passes to the end of the phase, or as far as the dots that are left go. -/
def Passage.stride (s : Passage) : Passage :=
  let step := min s.left (s.video.phase.boundary - s.video.dot)
  let moved : Video := { s.video with dot := s.video.dot + step }
  if moved.dot = moved.phase.boundary then
    { video := moved.endPhase.1, raised := s.raised ∪ moved.endPhase.2, left := s.left - step }
  else { video := moved, raised := s.raised, left := s.left - step }

theorem Passage.stride_of_lt {v : Video} (r : Requests) {n : Nat}
    (hn : v.dot + n < v.phase.boundary) :
    stride ⟨v, r, n⟩ = ⟨{ v with dot := v.dot + n }, r, 0⟩ := by
  have hstep : min n (v.phase.boundary - v.dot) = n := by omega
  simp only [stride, hstep, Nat.sub_self]
  exact if_neg (by omega)

theorem Passage.stride_of_le {v : Video} (r : Requests) {n : Nat}
    (hdot : v.dot < v.phase.boundary) (hn : v.phase.boundary ≤ v.dot + n) :
    stride ⟨v, r, n⟩ =
      ⟨(endPhase { v with dot := v.phase.boundary }).1,
        r ∪ (endPhase { v with dot := v.phase.boundary }).2, n - (v.phase.boundary - v.dot)⟩ := by
  have hstep : min n (v.phase.boundary - v.dot) = v.phase.boundary - v.dot := by omega
  have hleft : v.dot + (v.phase.boundary - v.dot) = v.phase.boundary := by omega
  simp only [stride, hstep, hleft]
  exact if_pos trivial

/-- The loop ends with what `scan` gives: some number of strides, no more than there are dots,
leaves no dot, and before each of them there was one. -/
theorem Passage.ends {v : Video} (h : v.Placed) (hon : v.control.isOn = true) (r : Requests)
    (n : Nat) :
    ∃ k, k ≤ n ∧ stride^[k] ⟨v, r, n⟩ = ⟨(v.scan r n).1, (v.scan r n).2, 0⟩ ∧
      ∀ i, i < k → 0 < (stride^[i] ⟨v, r, n⟩).left := by
  refine Placed.scan_induction
    (P := fun v r n =>
      ∃ k, k ≤ n ∧ stride^[k] ⟨v, r, n⟩ = ⟨(v.scan r n).1, (v.scan r n).2, 0⟩ ∧
        ∀ i, i < k → 0 < (stride^[i] ⟨v, r, n⟩).left)
    ?_ ?_ h hon r n
  · intro v r n h hon hn
    rw [scan_of_lt r hn]
    cases n with
    | zero => exact ⟨0, Nat.le_refl 0, rfl, fun i hi => absurd hi (Nat.not_lt_zero i)⟩
    | succ n =>
      refine ⟨1, Nat.succ_le_succ (Nat.zero_le n), stride_of_lt r hn, ?_⟩
      intro i hi
      obtain rfl : i = 0 := by omega
      exact Nat.succ_pos n
  · intro v r n h hon hn ih
    have hdot := h.dot_lt_boundary
    obtain ⟨k, hk, hend, hbefore⟩ := ih
    refine ⟨k + 1, by omega, ?_, ?_⟩
    · rw [Function.iterate_succ_apply, stride_of_le r hdot hn, hend, scan_of_le r hdot hn]
    · intro i hi
      cases i with
      | zero =>
        change 0 < n
        omega
      | succ i =>
        rw [Function.iterate_succ_apply, stride_of_le r hdot hn]
        exact hbefore i (by omega)

/-! ## Every display -/

/-- The displays that a program and time lead to. -/
inductive Reachable : Video → Prop
  | powerUp (model : Model) : Reachable (.powerUp model)
  | write {v : Video} (l : Location) (b : UInt8) : Reachable v → Reachable (v.write l b).1
  | advance {v : Video} (n : Nat) : Reachable v → Reachable (v.advance n).1
  | takeFrame {v : Video} : Reachable v → Reachable v.takeFrame.2

theorem Reachable.placed {v : Video} (h : v.Reachable) : v.Placed := by
  induction h with
  | powerUp model => exact placed_powerUp model
  | write l b _ ih => exact ih.write l b
  | advance n _ ih => exact (ih.advance n).1
  | takeFrame _ ih => exact ih.congr rfl rfl rfl rfl

/-- The phase of a display that is on is that of its position. -/
theorem Placed.phase_eq_ofPosition {v : Video} (h : v.Placed) (hon : v.control.isOn = true) :
    v.phase = .ofPlace (v.position / dotsPerLine) (v.position % dotsPerLine) := by
  have hline : v.position / dotsPerLine = v.line := by
    rw [position, Nat.mul_add_div (by decide), Nat.div_eq_of_lt h.dot_lt, Nat.add_zero]
  have hdot : v.position % dotsPerLine = v.dot := by
    rw [position, Nat.mul_add_mod, Nat.mod_eq_of_lt h.dot_lt]
  rw [hline, hdot]
  exact h.phase_eq hon

/-- Any number of dots pass in finitely many strides. Afterwards the display is as many dots further
on in its picture, or in a later one; it is in the phase of that place; the pictures that ended on
the way are counted, and shown; and a request for the unseen lines and the note of a drawn line are
there if their places were passed. -/
theorem Reachable.advance_course {v : Video} (h : v.Reachable) (hon : v.control.isOn = true)
    (n : Nat) :
    let w := (v.advance n).1
    let raised := (v.advance n).2
    (∃ k, k ≤ n ∧ Passage.stride^[k] ⟨{ v with lineDrawn := false }, ∅, n⟩ = ⟨w, raised, 0⟩ ∧
      ∀ i, i < k → 0 < (Passage.stride^[i] ⟨{ v with lineDrawn := false }, ∅, n⟩).left) ∧
    w.position = (v.position + n) % dotsPerFrame ∧
    w.frames = v.frames + (v.position + n) / dotsPerFrame ∧
    w.phase = .ofPlace (w.position / dotsPerLine) (w.position % dotsPerLine) ∧
    (w.frameReady = true ↔ v.frameReady = true ∨ v.frames < w.frames) ∧
    (raised.has .vblank = true ↔
      ∃ q, v.position < q ∧ q ≤ v.position + n ∧ q % dotsPerFrame = 144 * 456) ∧
    (w.lineDrawn = true ↔
      ∃ l, l < 144 ∧
        ∃ q, v.position < q ∧ q ≤ v.position + n ∧ q % dotsPerFrame = 456 * l + 252) := by
  intro w raised
  have hplaced := h.placed
  obtain ⟨hafter, hcontrol⟩ := hplaced.advance n
  have hscan : v.advance n = scan { v with lineDrawn := false } ∅ n := advance_of_on hon n
  have hcourse : Course { v with lineDrawn := false } ∅ n w raised := by
    simp only [w, raised, hscan]
    exact course_scan hplaced.forget hon ∅ n
  refine ⟨?_, hcourse.position_eq, hcourse.frames_eq, ?_, hcourse.frameReady_iff, ?_, ?_⟩
  · simp only [w, raised, hscan]
    exact Passage.ends hplaced.forget hon ∅ n
  · exact hafter.phase_eq_ofPosition (hcontrol ▸ hon)
  · exact hcourse.vblank_iff.trans (or_iff_right (by simp))
  · exact hcourse.lineDrawn_iff.trans (or_iff_right (by simp))

/-- From the start, the dots of a picture complete one picture. -/
theorem advance_course_powerUp :
    ((powerUp .dmg).advance dotsPerFrame).1.frames = 1 ∧
      ((powerUp .dmg).advance dotsPerFrame).1.position = 0 := by
  have hcourse := Reachable.advance_course (.powerUp .dmg) (by decide) dotsPerFrame
  exact ⟨hcourse.2.2.1, hcourse.2.1⟩

end GameBoy.Video
