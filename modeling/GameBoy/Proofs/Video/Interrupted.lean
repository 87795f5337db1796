import GameBoy.Proofs.Video.Pictures

/-!
# Interrupted passes

When the display is switched off, the pass over the lines that was going on leaves rows in the
picture that is being drawn, and the window's next row. The next pass draws over all of them before
its picture is shown, so they are never seen.

* `Video.Agrees`: two displays that differ only in what the pass has not drawn yet.
* `Agrees.performAll`: whatever is done to them, they go on to agree.
* `pictures_whole`: a complete picture and the moments its parts come from.
-/

namespace GameBoy

/-- A picture is its rows and its palettes. -/
theorem Picture.eq_of_parts {p q : Picture}
    (hrows : ∀ y (hy : y < screenHeight), p.rows[y] = q.rows[y])
    (hshading : p.shading = q.shading) : p = q := by
  obtain ⟨prows, pshading⟩ := p
  obtain ⟨qrows, qshading⟩ := q
  obtain rfl : prows = qrows := Vector.ext fun y hy => hrows y hy
  obtain rfl : pshading = qshading := hshading
  rfl

namespace Video

/-! ## What the pass has drawn -/

/-- Another picture has the rows that were drawn in the current pass, and while the unseen lines
pass, the noted palettes. -/
structure SameDrawn (v : Video) (back : Picture) : Prop where
  rows : ∀ y (hy : y < screenHeight), v.Drawn y → back.rows[y] = v.back.rows[y]
  shading : v.phase = .vblank → back.shading = v.back.shading

variable {v w : Video} {back : Picture}

theorem SameDrawn.refl (v : Video) : v.SameDrawn v.back := ⟨fun _ _ _ => rfl, fun _ => rfl⟩

/-- Nothing was drawn in the meantime. -/
theorem SameDrawn.stays (h : v.SameDrawn back) (hback : w.back = v.back)
    (drawn : ∀ y, y < screenHeight → w.Drawn y → v.Drawn y)
    (unseen : w.phase = .vblank → v.phase = .vblank) : w.SameDrawn back where
  rows y hy hw := hback.symm ▸ h.rows y hy (drawn y hy hw)
  shading hw := hback.symm ▸ h.shading (unseen hw)

/-- When a pass begins, nothing has been drawn. -/
theorem SameDrawn.of_start (hline : v.line = 0) (hphase : v.phase = .search) (back : Picture) :
    v.SameDrawn back where
  rows y _ hdrawn := by
    rw [Drawn, hline, hphase] at hdrawn
    simp at hdrawn
  shading hunseen := nomatch hphase.symm.trans hunseen

/-- When the pass is over, all has been drawn. -/
theorem SameDrawn.eq (h : v.SameDrawn back) (hseen : screenHeight ≤ v.line)
    (hphase : v.phase = .vblank) : back = v.back := by
  refine Picture.eq_of_parts (fun y hy => ?_) (h.shading hphase)
  exact h.rows y hy (.inl (Nat.lt_of_lt_of_le hy hseen))

/-! ## Displays that agree -/

/-- Two displays that differ at most in the picture that is being drawn and in the window's next
row; while they are on, only in what the current pass has not drawn yet. -/
def Agrees (v w : Video) : Prop :=
  ∃ back windowLine, w = { v with back, windowLine } ∧
    (v.control.isOn = true → windowLine = v.windowLine ∧ v.SameDrawn back)

theorem Agrees.front_eq (h : Agrees v w) : w.front = v.front := by
  obtain ⟨back, windowLine, rfl, -⟩ := h
  rfl

/-- A display that is off agrees with itself whatever the last pass left. -/
theorem agrees_of_off (hoff : v.control.isOn = false) (back : Picture) (windowLine : UInt8) :
    Agrees v { v with back, windowLine } :=
  ⟨back, windowLine, rfl, fun hon => nomatch hoff.symm.trans hon⟩

theorem Agrees.updateStatus (h : Agrees v w) : Agrees v.updateStatus.1 w.updateStatus.1 := by
  obtain ⟨back, windowLine, rfl, hsame⟩ := h
  rw [updateStatus_fst, updateStatus_fst]
  refine ⟨back, windowLine, rfl, fun hon => ⟨(hsame hon).1, ?_⟩⟩
  exact (hsame hon).2.stays rfl (fun _ _ hd => hd) fun hp => hp

/-- The beginning of the next phase, from dot `d` of the phase on. -/
theorem agrees_enterNext {d : Nat} (hphase : v.phase = .ofPlace v.line d)
    (h : v.SameDrawn back) (hw : w = { v with back }) : Agrees v.enterNext.1 w.enterNext.1 := by
  have hwphase : w.phase = v.phase := by rw [hw]
  have hwline : w.line = v.line := by rw [hw]
  cases hp : v.phase with
  | search =>
    rw [enterNext_search hp, enterNext_search (hwphase.trans hp), hw]
    refine ⟨back, v.windowLine, rfl, fun _ => ⟨rfl, h.stays rfl (fun y _ hd => ?_) (by simp)⟩⟩
    simpa [Drawn, hp] using hd
  | transfer =>
    rw [enterNext_transfer hp, enterNext_transfer (hwphase.trans hp), hw]
    refine ⟨back.setRow v.line v.row, _, rfl, fun _ => ⟨rfl, fun y hy hd => ?_, by simp [drawLine]⟩⟩
    change (back.setRow v.line v.row).rows[y] = (v.back.setRow v.line v.row).rows[y]
    by_cases hy' : v.line = y
    · have hline : v.line < screenHeight := hy'.symm ▸ hy
      rw [Picture.rows_setRow _ _ _ _ hline hy, Picture.rows_setRow _ _ _ _ hline hy,
        if_pos hy', if_pos hy']
    · rw [Picture.rows_setRow_of_ne _ _ hy' hy, Picture.rows_setRow_of_ne _ _ hy' hy]
      have hbefore : y < v.line ∨ y = v.line ∧ _ := hd
      exact h.rows y hy (.inl (by omega))
  | hblank =>
    by_cases hlast : v.line + 1 = screenHeight
    · rw [enterNext_last hp hlast, enterNext_last (hwphase.trans hp) (hwline ▸ hlast), hw]
      refine ⟨_, v.windowLine, rfl, fun _ => ⟨rfl, fun y hy hd => ?_, fun _ => rfl⟩⟩
      refine h.rows y hy ?_
      simp only [Drawn, hp, reduceCtorEq, and_true, and_false, or_false] at hd ⊢
      omega
    · rw [enterNext_hblank hp hlast, enterNext_hblank (hwphase.trans hp) (hwline ▸ hlast), hw]
      refine ⟨back, v.windowLine, rfl, fun _ => ⟨rfl, h.stays rfl (fun y _ hd => ?_) (by simp)⟩⟩
      simp only [Drawn, hp, reduceCtorEq, and_true, and_false, or_false] at hd ⊢
      omega
  | vblank =>
    have hplace := Phase.ofPlace_eq_vblank_iff.1 (hphase.symm.trans hp)
    by_cases hlast : v.line + 1 = linesPerFrame
    · -- the pass has drawn the whole picture, so the pictures are the same
      obtain rfl := h.eq hplace hp
      rw [hw, enterNext_complete hp hlast]
      exact ⟨_, _, rfl, fun _ => ⟨rfl, .refl _⟩⟩
    · rw [enterNext_vblank hp hlast, enterNext_vblank (hwphase.trans hp) (hwline ▸ hlast), hw]
      refine ⟨back, v.windowLine, rfl, fun _ => ⟨rfl, h.stays rfl (fun y hy hd => ?_) fun _ => hp⟩⟩
      simp only [Drawn, hp, reduceCtorEq, and_false, or_false] at hd ⊢
      omega

/-- A dot. -/
theorem Agrees.dot (hv : v.Placed) (h : Agrees v w) : Agrees (v.advance 1).1 (w.advance 1).1 := by
  obtain ⟨back, windowLine, rfl, hsame⟩ := h
  cases hon : v.control.isOn with
  | false =>
    rw [advance_of_off hon, advance_of_off (v := { v with back, windowLine }) hon]
    exact agrees_of_off (v := { v with lineDrawn := false }) hon back windowLine
  | true =>
    obtain ⟨rfl, hdrawn⟩ := hsame hon
    have hw : Placed { v with back } := hv.congr rfl rfl rfl rfl
    rcases hv.dot_cases with hdot | hdot
    · rw [advance_one_of_lt hon hdot, advance_one_of_lt (v := { v with back }) hon hdot]
      exact ⟨back, _, rfl, fun _ => ⟨rfl, hdrawn.stays rfl (fun _ _ hd => hd) fun hp => hp⟩⟩
    · rw [advance_one_of_eq hv hon hdot, advance_one_of_eq hw hon hdot, endPhase_fst, endPhase_fst]
      apply Agrees.updateStatus
      exact agrees_enterNext (v := { v with dot := v.phase.boundary, lineDrawn := false })
        (hv.phase_eq hon) (hdrawn.stays rfl (fun _ _ hd => hd) fun hp => hp) rfl

/-- A write to the control register. -/
theorem Agrees.setControl (h : Agrees v w) (b : UInt8) :
    Agrees (v.setControl b).1 (w.setControl b).1 := by
  obtain ⟨back, windowLine, rfl, hsame⟩ := h
  by_cases his : (Control.mk b).isOn = v.control.isOn
  · rw [setControl_same his, setControl_same (v := { v with back, windowLine }) his]
    refine ⟨back, windowLine, rfl, fun hon => ?_⟩
    obtain ⟨hwindow, hdrawn⟩ := hsame (his.symm.trans hon)
    exact ⟨hwindow, hdrawn.stays rfl (fun _ _ hd => hd) fun hp => hp⟩
  · cases hwas : v.control.isOn with
    | false =>
      have hon : (Control.mk b).isOn = true := by simpa [hwas] using his
      rw [setControl_on hwas hon, setControl_on (v := { v with back, windowLine }) hwas hon]
      apply Agrees.updateStatus
      exact ⟨back, 0, rfl, fun _ => ⟨rfl, .of_start rfl rfl back⟩⟩
    | true =>
      have hoff : (Control.mk b).isOn = false := by simpa [hwas] using his
      rw [setControl_off hwas hoff, setControl_off (v := { v with back, windowLine }) hwas hoff]
      exact agrees_of_off hoff back windowLine

/-- A write. -/
theorem Agrees.write (h : Agrees v w) (l : Location) (b : UInt8) :
    Agrees (v.write l b).1 (w.write l b).1 := by
  have hset : ∀ f : Video → Video, (∀ back windowLine,
      f { v with back, windowLine } = { f v with back, windowLine }) →
      (f v).control = v.control → (f v).windowLine = v.windowLine → (f v).back = v.back →
      (f v).line = v.line → (f v).phase = v.phase → Agrees (f v) (f w) := by
    intro f comm control window hback line phase
    obtain ⟨back, windowLine, rfl, hsame⟩ := h
    refine ⟨back, windowLine, comm back windowLine, fun hon => ?_⟩
    obtain ⟨hwindow, hdrawn⟩ := hsame (control ▸ hon)
    refine ⟨hwindow.trans window.symm, hdrawn.stays hback (fun y _ hd => ?_) fun hp => phase ▸ hp⟩
    rwa [Drawn, line, phase] at hd
  cases l with
  | control => exact h.setControl b
  | status =>
    exact Agrees.updateStatus (hset (fun v => { v with selected := b &&& 0x78 })
      (fun _ _ => rfl) rfl rfl rfl rfl rfl)
  | lineCompare =>
    exact Agrees.updateStatus (hset (fun v => { v with lineCompare := b })
      (fun _ _ => rfl) rfl rfl rfl rfl rfl)
  | vram offset => exact hset (fun v => v.setVram offset b) (fun _ _ => rfl) rfl rfl rfl rfl rfl
  | _ => exact hset (fun v => (v.write _ b).1) (fun _ _ => rfl) rfl rfl rfl rfl rfl

theorem Agrees.perform (hv : v.Placed) (h : Agrees v w) {a : Action} (ha : a.IsSingle) :
    Agrees (v.perform a) (w.perform a) := by
  cases a with
  | pass dots =>
    obtain rfl : dots = 1 := ha
    exact h.dot hv
  | write l b => exact h.write l b
  | takeFrame =>
    obtain ⟨back, windowLine, rfl, hsame⟩ := h
    refine ⟨back, windowLine, rfl, fun hon => ⟨(hsame hon).1, ?_⟩⟩
    exact (hsame hon).2.stays rfl (fun _ _ hd => hd) fun hp => hp

theorem Agrees.performAll (hv : v.Placed) (h : Agrees v w) {as : List Action}
    (has : ∀ a ∈ as, a.IsSingle) : Agrees (performAll v as) (performAll w as) := by
  induction as generalizing v w with
  | nil => exact h
  | cons a as ih =>
    have hfirst := h.perform hv (has a List.mem_cons_self)
    exact ih (hv.perform a) hfirst fun b hb => has b (List.mem_cons_of_mem a hb)

theorem Alike.front_eq (h : Alike v w) : w.front = v.front := by
  obtain ⟨drawn, rfl⟩ := h
  rfl

theorem Alike.frames_eq (h : Alike v w) : w.frames = v.frames := by
  obtain ⟨drawn, rfl⟩ := h
  rfl

/-- Displays that agree go on to show the same. -/
theorem front_performAll_of_agrees (hv : v.Placed) (hw : w.Placed) (h : Agrees v w)
    (as : List Action) : (performAll w as).front = (performAll v as).front := by
  have hdots : Agrees (performAll v (dotwise as)) (performAll w (dotwise as)) :=
    h.performAll hv fun _ ha => isSingle_of_mem_dotwise ha
  rw [← (alike_dotwise hv as).front_eq, ← (alike_dotwise hw as).front_eq]
  exact hdots.front_eq

/-- What an interrupted pass leaves is never shown. -/
theorem front_performAll_of_off (hv : v.Placed) (hoff : v.control.isOn = false) (back : Picture)
    (windowLine : UInt8) (as : List Action) :
    (performAll { v with back, windowLine } as).front = (performAll v as).front := by
  have hleft : Placed { v with back, windowLine } := hv.congr rfl rfl rfl rfl
  exact front_performAll_of_agrees hv hleft (agrees_of_off hoff back windowLine) as

/-! ## Whole pictures -/

/-- While no picture becomes complete, the shown one stays. -/
theorem front_performAll_of_frames_eq (hv : v.Placed) {as : List Action}
    (hframes : (performAll v as).frames = v.frames) : (performAll v as).front = v.front := by
  have halike := alike_dotwise hv as
  have hlength := moment_length v (dotwise as)
  have hsame :
      (v.moment (dotwise as) (dotwise as).length).frames = (v.moment (dotwise as) 0).frames := by
    rw [hlength, halike.frames_eq, hframes, moment_zero]
  have hfront := front_eq_of_moves (moves_moment hv as) (Nat.zero_le _) hsame
  rw [← halike.front_eq, ← hlength]
  exact hfront

/-- A picture that becomes complete consists of rows as they were when their lines were last drawn
in the pass that it completes, and of the palettes as they were when the seen lines of that pass
ended; a pass that was interrupted leaves nothing in it, and until the next picture is complete it
stays as it is. The display is followed dot by dot. -/
theorem pictures_whole (model : Model) (as : List Action) :
    let run := (powerUp model).moment (dotwise as)
    (∃ drawn, run (dotwise as).length = { performAll (powerUp model) as with lineDrawn := drawn }) ∧
    (∀ k, (run (k + 1)).frames ≠ (run k).frames →
      (∀ y (hy : y < screenHeight),
        ∃ i, Last run (Draws y) i k ∧ (run (k + 1)).front.rows[y] = (run i).row) ∧
      ∃ i, Last run Rests i k ∧ (run (k + 1)).front.shading = (run i).shading) ∧
    (∀ b back windowLine bs, (Control.mk b).isOn = false →
      let off := ((performAll (powerUp model) as).write .control b).1
      (performAll { off with back, windowLine } bs).front = (performAll off bs).front) ∧
    ∀ bs, (performAll (powerUp model) (as ++ bs)).frames = (performAll (powerUp model) as).frames →
      (performAll (powerUp model) (as ++ bs)).front = (performAll (powerUp model) as).front := by
  intro run
  have hstart := placed_powerUp model
  have hplaced := hstart.performAll as
  have hmoves := moves_moment hstart as
  refine ⟨?_, fun k hframes => ?_, fun b back windowLine bs hoff => ?_, fun bs hframes => ?_⟩
  · obtain ⟨drawn, hlast⟩ := alike_dotwise hstart as
    exact ⟨drawn, (moment_length _ _).trans hlast⟩
  · exact Provenance.complete (provenance hmoves rfl rfl k) (hmoves k) hframes
  · have his : ((performAll (powerUp model) as).write .control b).1.control = ⟨b⟩ :=
      control_setControl _ b
    exact front_performAll_of_off (hplaced.write .control b) (his ▸ hoff) back windowLine bs
  · rw [performAll_append] at hframes ⊢
    exact front_performAll_of_frames_eq hplaced hframes

/-- While dots pass from the start, a picture is completed with every so many of them. -/
theorem frames_moment_pass {n k : Nat} (hk : k ≤ n) :
    ((powerUp .dmg).moment (dotwise [.pass n]) k).frames = k / dotsPerFrame := by
  have hstart := placed_powerUp .dmg
  have hon : (powerUp .dmg).control.isOn = true := by decide
  have hcourse := course_scan hstart.forget hon ∅ k
  have hmoment : (powerUp .dmg).moment (dotwise [.pass n]) k =
      performAll (powerUp .dmg) (List.replicate k (.pass 1)) := by
    rw [moment, show dotwise [.pass n] = List.replicate n (.pass 1) from List.append_nil _,
      List.take_replicate, Nat.min_eq_left hk]
  rw [hmoment, (alike_pass hstart k).frames_eq, advance_of_on hon, hcourse.frames_eq]
  simp [powerUp, position]

/-- The first picture is complete after the dots of a picture, and remains when it is taken. -/
theorem pictures_whole_first :
    (∃ i, Last ((powerUp .dmg).moment (dotwise [.pass dotsPerFrame])) (Draws 143) i 70223 ∧
      ((powerUp .dmg).moment (dotwise [.pass dotsPerFrame]) (70223 + 1)).front.rows[143] =
        ((powerUp .dmg).moment (dotwise [.pass dotsPerFrame]) i).row) ∧
    (∃ i, Last ((powerUp .dmg).moment (dotwise [.pass dotsPerFrame])) Rests i 70223 ∧
      ((powerUp .dmg).moment (dotwise [.pass dotsPerFrame]) (70223 + 1)).front.shading =
        ((powerUp .dmg).moment (dotwise [.pass dotsPerFrame]) i).shading) ∧
    (let off := ((performAll (powerUp .dmg) [.pass dotsPerFrame]).write .control 0).1
     (performAll ({ off with back := .blank, windowLine := 7 } : Video)
        [.write .control 0x80]).front =
      (performAll off [.write .control 0x80]).front) ∧
    (performAll (powerUp .dmg) ([.pass dotsPerFrame] ++ [.takeFrame])).front =
      (performAll (powerUp .dmg) [.pass dotsPerFrame]).front := by
  obtain ⟨-, hcomplete, hoff, hstays⟩ := pictures_whole .dmg [.pass dotsPerFrame]
  have hdiffer : ((powerUp .dmg).moment (dotwise [.pass dotsPerFrame]) (70223 + 1)).frames ≠
      ((powerUp .dmg).moment (dotwise [.pass dotsPerFrame]) 70223).frames := by
    rw [frames_moment_pass (by decide), frames_moment_pass (by decide)]
    decide
  obtain ⟨hrows, hshading⟩ := hcomplete 70223 hdiffer
  refine ⟨hrows 143 (by decide), hshading, ?_, ?_⟩
  · exact hoff 0 .blank 7 [.write .control 0x80] (by decide)
  · refine hstays [.takeFrame] ?_
    rw [performAll_append]
    rfl

end Video

end GameBoy
