import GameBoy.Proofs.Video.Dots

/-!
# Pictures are whole

Two pictures change places: one is being drawn while the other is shown. A shown picture stays as it
is until the next one is complete, and that one consists of rows drawn in one pass over the lines.

* `Video.Moves`: all that one dot, a write, or the taking of a picture can do to the pictures.
* `Video.Last`: the last time that something happened in the pass that is going on.
* `front_eq_of_moves`: while no picture becomes complete, the shown one stays.
* `Provenance.next`: every row that is drawn comes from the last drawing of its line in the pass.
* `Provenance.complete`: so does every row of a picture that becomes complete.
-/

namespace GameBoy.Video

/-! ## What changes the pictures -/

/-- Line `y` has been drawn in the current pass. -/
def Drawn (v : Video) (y : Nat) : Prop := y < v.line ∨ y = v.line ∧ v.phase = .hblank

/-- From `v` to `w` the transfer of line `y` ends, and the display is on. -/
def Draws (y : Nat) (v w : Video) : Prop :=
  v.line = y ∧ v.phase = .transfer ∧ w.phase = .hblank ∧ w.control.isOn = true

/-- From `v` to `w` the seen lines end. -/
def Rests (v w : Video) : Prop := v.phase = .hblank ∧ w.phase = .vblank

/-- All that one dot, a write, or the taking of a picture can do to the pictures. -/
inductive Moves (v w : Video) : Prop
  /-- The pictures stay, and the drawn lines are the same. -/
  | stays (on : w.control.isOn = v.control.isOn) (frames : w.frames = v.frames)
      (front : w.front = v.front) (back : w.back = v.back)
      (drawn : ∀ y, y < screenHeight → (w.Drawn y ↔ v.Drawn y))
      (unseen : w.phase = .vblank ↔ v.phase = .vblank)
      (undrawn : ¬ (v.phase = .transfer ∧ w.phase = .hblank))
  /-- The current line is drawn. -/
  | draws (wasOn : v.control.isOn = true) (on : w.control.isOn = true)
      (frames : w.frames = v.frames) (front : w.front = v.front)
      (back : w.back = v.back.setRow v.line v.row) (line : w.line = v.line)
      (before : v.phase = .transfer) (after : w.phase = .hblank)
  /-- The palettes are noted. -/
  | rests (wasOn : v.control.isOn = true) (on : w.control.isOn = true)
      (frames : w.frames = v.frames) (front : w.front = v.front)
      (back : w.back = { v.back with shading := v.shading })
      (drawn : ∀ y, y < screenHeight → (w.Drawn y ↔ v.Drawn y))
      (before : v.phase = .hblank) (after : w.phase = .vblank)
  /-- The drawn picture is complete and takes the place of the shown one. -/
  | completes (wasOn : v.control.isOn = true) (on : w.control.isOn = true)
      (frames : w.frames = v.frames + 1) (front : w.front = v.back) (seen : screenHeight ≤ v.line)
      (before : v.phase = .vblank) (line : w.line = 0) (after : w.phase = .search)
  /-- The display is switched off, or on, whereupon a pass begins. -/
  | switches (on : w.control.isOn = !v.control.isOn) (frames : w.frames = v.frames)
      (front : w.front = v.front) (line : w.line = 0)
      (after : w.control.isOn = true → w.phase = .search)

theorem Moves.refl (v : Video) : Moves v v :=
  .stays rfl rfl rfl rfl (fun _ _ => .rfl) .rfl (by rintro ⟨h, h'⟩; rw [h] at h'; cases h')

/-- Looking at the conditions again changes no picture. -/
theorem Moves.updateStatus {v w : Video} (h : Moves v w) : Moves v w.updateStatus.1 := by
  rw [updateStatus_fst]
  cases h with
  | stays on frames front back drawn unseen undrawn =>
    exact .stays on frames front back drawn unseen undrawn
  | draws wasOn on frames front back line before after =>
    exact .draws wasOn on frames front back line before after
  | rests wasOn on frames front back drawn before after =>
    exact .rests wasOn on frames front back drawn before after
  | completes wasOn on frames front seen before line after =>
    exact .completes wasOn on frames front seen before line after
  | switches on frames front line after => exact .switches on frames front line after

/-- Where in its phase a dot is, and whether a line was noted as drawn, is of no account. -/
theorem Moves.of_dot {v w : Video} {d : Nat} {drawn : Bool}
    (h : Moves { v with dot := d, lineDrawn := drawn } w) : Moves v w := by
  cases h with
  | stays on frames front back drawn unseen undrawn =>
    exact .stays on frames front back drawn unseen undrawn
  | draws wasOn on frames front back line before after =>
    exact .draws wasOn on frames front back line before after
  | rests wasOn on frames front back drawn before after =>
    exact .rests wasOn on frames front back drawn before after
  | completes wasOn on frames front seen before line after =>
    exact .completes wasOn on frames front seen before line after
  | switches on frames front line after => exact .switches on frames front line after

/-- The beginning of the next phase, from dot `d` of the phase on. -/
theorem moves_enterNext {v : Video} {d : Nat} (hon : v.control.isOn = true)
    (hphase : v.phase = .ofPlace v.line d) : Moves v v.enterNext.1 := by
  cases hp : v.phase with
  | search =>
    rw [enterNext_search hp]
    refine .stays rfl rfl rfl rfl (fun y _ => ?_) ?_ ?_
    · simp [Drawn, hp]
    · simp [hp]
    · simp [hp]
  | transfer =>
    rw [enterNext_transfer hp]
    exact .draws hon hon rfl rfl rfl rfl hp rfl
  | hblank =>
    by_cases hlast : v.line + 1 = screenHeight
    · rw [enterNext_last hp hlast]
      refine .rests hon hon rfl rfl rfl (fun y _ => ?_) hp rfl
      simp only [Drawn, hp, reduceCtorEq, and_true, and_false, or_false]
      omega
    · rw [enterNext_hblank hp hlast]
      refine .stays rfl rfl rfl rfl (fun y _ => ?_) ?_ ?_
      · simp only [Drawn, hp, reduceCtorEq, and_true, and_false, or_false]
        omega
      · simp [hp]
      · simp [hp]
  | vblank =>
    have hplace := Phase.ofPlace_eq_vblank_iff.1 (hphase.symm.trans hp)
    by_cases hlast : v.line + 1 = linesPerFrame
    · rw [enterNext_complete hp hlast]
      exact .completes hon hon rfl rfl hplace hp rfl rfl
    · rw [enterNext_vblank hp hlast]
      refine .stays rfl rfl rfl rfl (fun y hy => ?_) ?_ ?_
      · simp only [Drawn, hp, reduceCtorEq, and_false, or_false]
        omega
      · simp [hp]
      · simp [hp]

/-- A dot. -/
theorem moves_dot {v : Video} (h : v.Placed) : Moves v (v.advance 1).1 := by
  cases hon : v.control.isOn with
  | false =>
    rw [advance_of_off hon]
    obtain ⟨-, -, hphase⟩ := h.waits hon
    exact .stays rfl rfl rfl rfl (fun _ _ => .rfl) .rfl (by simp [hphase])
  | true =>
    rcases h.dot_cases with hdot | hdot
    · rw [advance_one_of_lt hon hdot]
      exact .stays rfl rfl rfl rfl (fun _ _ => .rfl) .rfl fun hp => nomatch hp.1.symm.trans hp.2
    · rw [advance_one_of_eq h hon hdot, endPhase_fst]
      have hended := moves_enterNext
        (v := { v with dot := v.phase.boundary, lineDrawn := false }) hon (h.phase_eq hon)
      exact hended.updateStatus.of_dot

/-- A write. -/
theorem moves_write (v : Video) (l : Location) (b : UInt8) : Moves v (v.write l b).1 := by
  have hsame : ∀ w : Video, w.control.isOn = v.control.isOn → w.frames = v.frames →
      w.front = v.front → w.back = v.back → w.line = v.line → w.phase = v.phase → Moves v w := by
    intro w on frames front back line phase
    refine .stays on frames front back (fun y _ => ?_) (by rw [phase]) ?_
    · rw [Drawn, Drawn, line, phase]
    · rw [phase]
      exact fun hp => nomatch hp.1.symm.trans hp.2
  cases l with
  | control =>
    change Moves v (v.setControl b).1
    rcases v.setControl_cases b with ⟨his, hset⟩ | ⟨hwas, hon, hset⟩ | ⟨hwas, hoff, hset⟩
    · rw [hset]
      exact hsame _ his rfl rfl rfl rfl rfl
    · rw [hset]
      refine Moves.updateStatus (.switches ?_ rfl rfl rfl fun _ => rfl)
      rw [hwas]
      exact hon
    · rw [hset]
      refine .switches ?_ rfl rfl rfl fun hon => ?_
      · rw [hwas]
        exact hoff
      · exact nomatch hoff.symm.trans hon
  | status | lineCompare => exact Moves.updateStatus (hsame _ rfl rfl rfl rfl rfl rfl)
  | _ => exact hsame _ rfl rfl rfl rfl rfl rfl

theorem moves_perform {v : Video} (h : v.Placed) {a : Action} (ha : a.IsSingle) :
    Moves v (v.perform a) := by
  cases a with
  | pass dots =>
    obtain rfl : dots = 1 := ha
    exact moves_dot h
  | write l b => exact moves_write v l b
  | takeFrame =>
    refine .stays rfl rfl rfl rfl (fun _ _ => .rfl) .rfl fun hp => ?_
    exact nomatch hp.1.symm.trans hp.2

/-- From each moment to the next the pictures change by one action at most. -/
theorem moves_moment {v : Video} (h : v.Placed) (as : List Action) (k : Nat) :
    Moves (v.moment (dotwise as) k) (v.moment (dotwise as) (k + 1)) := by
  rcases Nat.lt_or_ge k (dotwise as).length with hk | hk
  · rw [moment_succ v hk]
    exact moves_perform (h.moment _ k) (isSingle_of_mem_dotwise (List.getElem_mem hk))
  · rw [moment_of_le v hk, moment_of_le v (Nat.le_succ_of_le hk)]
    exact .refl _

/-! ## Shown pictures -/

theorem Moves.frames_le {v w : Video} (h : Moves v w) : v.frames ≤ w.frames := by
  cases h with
  | completes _ _ frames => exact frames ▸ Nat.le_succ _
  | stays _ frames | draws _ _ frames | rests _ _ frames | switches _ frames =>
    exact Nat.le_of_eq frames.symm

theorem Moves.front_eq {v w : Video} (h : Moves v w) (hframes : w.frames = v.frames) :
    w.front = v.front := by
  cases h with
  | completes _ _ frames =>
    exact absurd (hframes.symm.trans frames) (Nat.ne_of_lt (Nat.lt_succ_self _))
  | stays _ _ front | draws _ _ _ front | rests _ _ _ front | switches _ _ front => exact front

section Runs

variable {run : Nat → Video}

theorem frames_le_of_moves (hmoves : ∀ k, Moves (run k) (run (k + 1))) {j k : Nat} (hjk : j ≤ k) :
    (run j).frames ≤ (run k).frames := by
  induction hjk with
  | refl => exact Nat.le_refl _
  | step _ ih => exact Nat.le_trans ih (hmoves _).frames_le

/-- While no picture becomes complete, the shown one stays. -/
theorem front_eq_of_moves (hmoves : ∀ k, Moves (run k) (run (k + 1))) {j k : Nat} (hjk : j ≤ k)
    (hframes : (run k).frames = (run j).frames) : (run k).front = (run j).front := by
  induction hjk with
  | refl => rfl
  | @step k hjk ih =>
    have hbefore := frames_le_of_moves hmoves hjk
    have hlast : (run k).frames ≤ (run j).frames := hframes ▸ (hmoves k).frames_le
    have hsame : (run k).frames = (run j).frames := Nat.le_antisymm hlast hbefore
    exact ((hmoves k).front_eq (hframes.trans hsame.symm)).trans (ih hsame)

/-! ## The pass that is going on -/

/-- From moment `i` to moment `k` the display is on and no picture becomes complete. -/
def OnePass (run : Nat → Video) (i k : Nat) : Prop :=
  ∀ j, i ≤ j → j ≤ k → (run j).control.isOn = true ∧ (run j).frames = (run k).frames

/-- Something happens after moment `i`, in the pass that is going on at moment `k`, and not again
until then. -/
structure Last (run : Nat → Video) (what : Video → Video → Prop) (i k : Nat) : Prop where
  before : i < k
  happens : what (run i) (run (i + 1))
  since : ∀ j, i < j → j < k → ¬ what (run j) (run (j + 1))
  pass : OnePass run i k

variable {what : Video → Video → Prop} {i k : Nat}

/-- The pass goes on. -/
theorem OnePass.next (h : OnePass run i k) (hon : (run (k + 1)).control.isOn = true)
    (hframes : (run (k + 1)).frames = (run k).frames) : OnePass run i (k + 1) := by
  intro j hij hj
  rcases Nat.lt_or_eq_of_le hj with hlt | rfl
  · obtain ⟨hjon, hjframes⟩ := h j hij (Nat.le_of_lt_succ hlt)
    exact ⟨hjon, hjframes.trans hframes.symm⟩
  · exact ⟨hon, rfl⟩

theorem Last.now (h : what (run k) (run (k + 1))) (hwas : (run k).control.isOn = true)
    (hon : (run (k + 1)).control.isOn = true) (hframes : (run (k + 1)).frames = (run k).frames) :
    Last run what k (k + 1) := by
  have hstart : OnePass run k k := by
    intro j hkj hjk
    obtain rfl : j = k := Nat.le_antisymm hjk hkj
    exact ⟨hwas, rfl⟩
  exact ⟨Nat.lt_succ_self k, h, fun j hj hj' => absurd hj (by omega), hstart.next hon hframes⟩

theorem Last.next (h : Last run what i k) (hnot : ¬ what (run k) (run (k + 1)))
    (hon : (run (k + 1)).control.isOn = true) (hframes : (run (k + 1)).frames = (run k).frames) :
    Last run what i (k + 1) := by
  refine ⟨Nat.lt_succ_of_lt h.before, h.happens, ?_, h.pass.next hon hframes⟩
  intro j hij hj
  rcases Nat.lt_or_eq_of_le (Nat.le_of_lt_succ hj) with hlt | rfl
  · exact h.since j hij hlt
  · exact hnot

/-- Where the drawn rows come from, and while the unseen lines pass, the noted palettes. -/
structure Provenance (run : Nat → Video) (k : Nat) : Prop where
  rows : ∀ y (hy : y < screenHeight), (run k).Drawn y →
    ∃ i, Last run (Draws y) i k ∧ (run k).back.rows[y] = (run i).row
  shading : (run k).phase = .vblank →
    ∃ i, Last run Rests i k ∧ (run k).back.shading = (run i).shading

/-- At the beginning of a pass nothing is drawn. -/
theorem Provenance.of_start (hline : (run k).line = 0) (hphase : (run k).phase = .search) :
    Provenance run k where
  rows y _ hdrawn := by
    rw [Drawn, hline, hphase] at hdrawn
    simp at hdrawn
  shading hunseen := nomatch hphase.symm.trans hunseen

/-- What one action does to the pictures keeps account of where their parts come from. -/
theorem Provenance.next (h : (run k).control.isOn = true → Provenance run k)
    (hmove : Moves (run k) (run (k + 1))) (hon : (run (k + 1)).control.isOn = true) :
    Provenance run (k + 1) := by
  cases hmove with
  | stays on frames front back drawn unseen undrawn =>
    have hwas : (run k).control.isOn = true := on ▸ hon
    refine ⟨fun y hy hdrawn => ?_, fun hunseen => ?_⟩
    · obtain ⟨i, hlast, hrow⟩ := (h hwas).rows y hy ((drawn y hy).1 hdrawn)
      refine ⟨i, hlast.next (fun hd => undrawn ⟨hd.2.1, hd.2.2.1⟩) hon frames, ?_⟩
      rw [← hrow, back]
    · obtain ⟨i, hlast, hshading⟩ := (h hwas).shading (unseen.1 hunseen)
      have hnot : ¬ Rests (run k) (run (k + 1)) := fun hr =>
        nomatch hr.1.symm.trans (unseen.1 hunseen)
      refine ⟨i, hlast.next hnot hon frames, ?_⟩
      rw [← hshading, back]
  | draws wasOn on frames front back line before after =>
    refine ⟨fun y hy hdrawn => ?_, fun hunseen => nomatch after.symm.trans hunseen⟩
    by_cases hy' : (run k).line = y
    · refine ⟨k, .now ⟨hy', before, after, on⟩ wasOn on frames, ?_⟩
      rw [back, Picture.rows_setRow _ _ _ _ (hy'.symm ▸ hy) hy, if_pos hy']
    · have hwas : (run k).Drawn y := by
        rw [Drawn, line] at hdrawn
        exact .inl (by omega)
      obtain ⟨i, hlast, hrow⟩ := (h wasOn).rows y hy hwas
      refine ⟨i, hlast.next (fun hd => hy' hd.1) on frames, ?_⟩
      rw [← hrow, back, Picture.rows_setRow_of_ne _ _ hy' hy]
  | rests wasOn on frames front back drawn before after =>
    refine ⟨fun y hy hdrawn => ?_, fun _ => ⟨k, .now ⟨before, after⟩ wasOn on frames, ?_⟩⟩
    · obtain ⟨i, hlast, hrow⟩ := (h wasOn).rows y hy ((drawn y hy).1 hdrawn)
      have hnot : ¬ Draws y (run k) (run (k + 1)) := fun hd => nomatch before.symm.trans hd.2.1
      refine ⟨i, hlast.next hnot on frames, ?_⟩
      rw [← hrow, back]
    · rw [back]
  | completes wasOn on frames front seen before line after => exact .of_start line after
  | switches on frames front line after => exact .of_start line (after hon)

/-- Whenever the display is on, it is known where the parts of its pictures come from. -/
theorem provenance (hmoves : ∀ k, Moves (run k) (run (k + 1)))
    (hline : (run 0).line = 0) (hphase : (run 0).phase = .search) (k : Nat) :
    (run k).control.isOn = true → Provenance run k := by
  induction k with
  | zero => exact fun _ => .of_start hline hphase
  | succ k ih => exact .next ih (hmoves k)

/-- A picture that becomes complete is the drawn one, all of whose parts come from the same pass. -/
theorem Provenance.complete (h : (run k).control.isOn = true → Provenance run k)
    (hmove : Moves (run k) (run (k + 1))) (hframes : (run (k + 1)).frames ≠ (run k).frames) :
    (∀ y (hy : y < screenHeight),
      ∃ i, Last run (Draws y) i k ∧ (run (k + 1)).front.rows[y] = (run i).row) ∧
    ∃ i, Last run Rests i k ∧ (run (k + 1)).front.shading = (run i).shading := by
  cases hmove with
  | completes wasOn on frames front seen before line after =>
    rw [front]
    refine ⟨fun y hy => (h wasOn).rows y hy (.inl (Nat.lt_of_lt_of_le hy seen)), ?_⟩
    exact (h wasOn).shading before
  | stays _ frames | draws _ _ frames | rests _ _ frames | switches _ frames =>
    exact absurd frames hframes

end Runs

end GameBoy.Video
