import GameBoy.Proofs.Video.Lines
import GameBoy.Proofs.Video.Pictures
import Mathlib.Data.Finset.Card

/-!
# Rows of the window

The display remembers which row of the window it draws next. The lines that show the window count it
up, and every pass over the lines begins anew. So a line shows the row whose number is that of the
earlier lines of its pass that showed the window.

* `Video.ShowsWindow`: the window is seen in the current line; `showsWindow_iff`: when it is.
* `Video.Counts`: all that a dot, a write, or the taking of a picture can do to the remembered row.
* `Video.PassFrom`: where the pass that is going on began.
* `Watched.since_iff_lt`, `Watched.once`: a pass draws its lines in order, and each of them once.
* `Watched.windowLine_eq`: the remembered row counts the lines that showed the window.
* `window_counts`: what a line shows of the window.
-/

namespace GameBoy.Video

variable {v w : Video}

/-! ## Where the window is seen -/

/-- The window is seen in column `x` of the current line. -/
def ShowsWindowAt (v : Video) (x : Nat) : Prop :=
  v.drawsBackground = true ∧ v.control.hasWindow = true ∧ v.windowY.toNat ≤ v.line ∧
    v.windowX.toNat ≤ x + 7

/-- The window is seen in some column of the current line. -/
def ShowsWindow (v : Video) : Prop := ∃ x, x < screenWidth ∧ v.ShowsWindowAt x

theorem drawsWindow_iff (v : Video) :
    v.drawsWindow = true ↔
      v.drawsBackground = true ∧ v.control.hasWindow = true ∧ v.windowY.toNat ≤ v.line ∧
        v.windowX.toNat ≤ 166 := by
  simp [drawsWindow, UInt8.le_iff_toNat_le, and_assoc]

/-- The window is seen if its first column is one of the screen's or lies before them. -/
theorem showsWindow_iff (v : Video) : v.ShowsWindow ↔ v.drawsWindow = true := by
  rw [drawsWindow_iff]
  constructor
  · rintro ⟨x, hx, hbackground, hwindow, hline, hcolumn⟩
    refine ⟨hbackground, hwindow, hline, ?_⟩
    simp only [screenWidth] at hx
    omega
  · rintro ⟨hbackground, hwindow, hline, hcolumn⟩
    exact ⟨159, by decide, hbackground, hwindow, hline, hcolumn⟩

instance (v : Video) : Decidable v.ShowsWindow := decidable_of_iff _ (showsWindow_iff v).symm

/-- The bits and the registers that let the window be seen. -/
theorem showsWindow_iff_registers (v : Video) :
    v.ShowsWindow ↔
      v.control.bits &&& 0x20 ≠ 0 ∧ v.windowY.toNat ≤ v.line ∧ v.windowX.toNat ≤ 166 ∧
        (v.model = .dmg → v.control.bits &&& 0x01 ≠ 0) := by
  have hbackground : v.drawsBackground = true ↔
      (v.model = .dmg → v.control.bits &&& 0x01 ≠ 0) := by
    cases hmodel : v.model <;> simp [drawsBackground, Control.hasBackground, hmodel]
  have hwindow : v.control.hasWindow = true ↔ v.control.bits &&& 0x20 ≠ 0 := by
    simp [Control.hasWindow]
  rw [showsWindow_iff, drawsWindow_iff, hbackground, hwindow]
  tauto

/-- Where the window is seen, the place is one of the remembered row. -/
theorem shownPlace?_of_showsWindowAt {x : Nat} (hx : x < screenWidth) (h : v.ShowsWindowAt x) :
    v.shownPlace? x =
      some ⟨v.control.windowMap, UInt8.ofNat (x + 7 - v.windowX.toNat), v.windowLine⟩ := by
  have hdraws : v.drawsWindow = true := (showsWindow_iff v).1 ⟨x, hx, h⟩
  simp [shownPlace?, h.1, hdraws, h.2.2.2]

/-- Elsewhere it is one of the background. -/
theorem shownPlace?_of_not_showsWindowAt {x : Nat} (hdraws : v.drawsBackground = true)
    (h : ¬ v.ShowsWindowAt x) :
    v.shownPlace? x =
      some ⟨v.control.backgroundMap, v.scrollX + UInt8.ofNat x,
        v.scrollY + UInt8.ofNat v.line⟩ := by
  have hnot : (v.drawsWindow && v.windowX.toNat ≤ x + 7) = false := by
    rw [Bool.eq_false_iff]
    intro hseen
    obtain ⟨hwindow, hcolumn⟩ := Bool.and_eq_true_iff.1 hseen
    obtain ⟨hbackground, hhas, hline, -⟩ := (drawsWindow_iff v).1 hwindow
    exact h ⟨hbackground, hhas, hline, of_decide_eq_true hcolumn⟩
  simp [shownPlace?, hdraws, hnot]

theorem backgroundPixel_of_showsWindowAt {x : Nat} (hx : x < screenWidth)
    (h : v.ShowsWindowAt x) :
    v.backgroundPixel x =
      v.tilePixel v.control.windowMap (UInt8.ofNat (x + 7 - v.windowX.toNat)) v.windowLine := by
  rw [backgroundPixel, shownPlace?_of_showsWindowAt hx h]

theorem backgroundPixel_of_not_showsWindowAt {x : Nat} (hdraws : v.drawsBackground = true)
    (h : ¬ v.ShowsWindowAt x) :
    v.backgroundPixel x =
      v.tilePixel v.control.backgroundMap (v.scrollX + UInt8.ofNat x)
        (v.scrollY + UInt8.ofNat v.line) := by
  rw [backgroundPixel, shownPlace?_of_not_showsWindowAt hdraws h]

/-! ## What changes the remembered row -/

/-- From `v` to `w` a pass over the lines begins: the unseen lines end and the first line comes
round again, or the display is switched on. -/
def Starts (v w : Video) : Prop :=
  v.phase = .vblank ∧ w.phase = .search ∨ v.control.isOn = false ∧ w.control.isOn = true

/-- A display that is on, and not for a new pass, was on before. -/
theorem isOn_of_not_starts (h : ¬ Starts v w) (hon : w.control.isOn = true) :
    v.control.isOn = true := by
  by_contra hoff
  exact h (.inr ⟨Bool.eq_false_iff.2 hoff, hon⟩)

/-- From `v` to `w` line `l` is drawn, and it shows the window. -/
def Shows (l : Nat) (v w : Video) : Prop := Draws l v w ∧ v.ShowsWindow

instance (l : Nat) (v w : Video) : Decidable (Draws l v w) :=
  inferInstanceAs (Decidable (_ ∧ _ ∧ _ ∧ _))

instance (l : Nat) (v w : Video) : Decidable (Shows l v w) := inferInstanceAs (Decidable (_ ∧ _))

/-- All that one dot, a write, or the taking of a picture can do to the remembered row. -/
inductive Counts (v w : Video) : Prop
  /-- With a pass the rows of the window begin anew. -/
  | starts (start : Starts v w) (line : w.line = 0) (row : w.windowLine = 0)
  /-- The row was drawn, and the next one follows. -/
  | draws (shown : Shows v.line v w) (row : w.windowLine = v.windowLine + 1)
  /-- The row stays. -/
  | stays (noStart : ¬ Starts v w) (unshown : ¬ Shows v.line v w)
      (row : w.windowLine = v.windowLine)

/-- Within a phase the row stays. -/
theorem Counts.of_phase (hphase : w.phase = v.phase) (hon : w.control.isOn = v.control.isOn)
    (hrow : w.windowLine = v.windowLine) : Counts v w := by
  refine .stays ?_ ?_ hrow
  · rintro (⟨hbefore, hafter⟩ | ⟨hwas, his⟩)
    · exact nomatch hbefore.symm.trans (hphase.symm.trans hafter)
    · exact nomatch hwas.symm.trans (hon.symm.trans his)
  · rintro ⟨⟨-, hbefore, hafter, -⟩, -⟩
    exact nomatch hbefore.symm.trans (hphase.symm.trans hafter)

/-- Looking at the conditions again changes no row. -/
theorem Counts.updateStatus (h : Counts v w) : Counts v w.updateStatus.1 := by
  rw [updateStatus_fst]
  cases h with
  | starts start line row => exact .starts start line row
  | draws shown row => exact .draws shown row
  | stays noStart unshown row => exact .stays noStart unshown row

/-- Where in its phase a dot is, and whether a line was noted as drawn, is of no account. -/
theorem Counts.of_dot {d : Nat} {drawn : Bool}
    (h : Counts { v with dot := d, lineDrawn := drawn } w) : Counts v w := by
  cases h with
  | starts start line row => exact .starts start line row
  | draws shown row => exact .draws shown row
  | stays noStart unshown row => exact .stays noStart unshown row

/-- The beginning of the next phase. -/
theorem counts_enterNext (hon : v.control.isOn = true) : Counts v v.enterNext.1 := by
  have hstill : v.enterNext.1.control.isOn = true := by rw [control_enterNext, hon]
  have hnoStart : v.phase ≠ .vblank → ¬ Starts v v.enterNext.1 := by
    rintro hphase (⟨hbefore, -⟩ | ⟨hwas, -⟩)
    · exact hphase hbefore
    · exact nomatch hon.symm.trans hwas
  cases hp : v.phase with
  | search =>
    refine .stays (hnoStart (by simp [hp])) ?_ (by rw [enterNext_search hp])
    exact fun hshown => nomatch hp.symm.trans hshown.1.2.1
  | transfer =>
    have hdraws : Draws v.line v v.enterNext.1 :=
      ⟨rfl, hp, by rw [enterNext_transfer hp]; rfl, hstill⟩
    have hrow : v.enterNext.1.windowLine =
        if v.drawsWindow then v.windowLine + 1 else v.windowLine := by
      rw [enterNext_transfer hp]
      rfl
    by_cases hshows : v.ShowsWindow
    · exact .draws ⟨hdraws, hshows⟩ (hrow.trans (if_pos ((showsWindow_iff v).1 hshows)))
    · refine .stays (hnoStart (by simp [hp])) (fun hshown => hshows hshown.2) ?_
      exact hrow.trans (if_neg (mt (showsWindow_iff v).2 hshows))
  | hblank =>
    refine .stays (hnoStart (by simp [hp])) (fun hshown => nomatch hp.symm.trans hshown.1.2.1) ?_
    by_cases hlast : v.line + 1 = screenHeight
    · rw [enterNext_last hp hlast]
    · rw [enterNext_hblank hp hlast]
  | vblank =>
    by_cases hlast : v.line + 1 = linesPerFrame
    · rw [enterNext_complete hp hlast]
      exact .starts (.inl ⟨hp, rfl⟩) rfl rfl
    · rw [enterNext_vblank hp hlast]
      exact .of_phase rfl rfl rfl

/-- A dot. -/
theorem counts_dot (h : v.Placed) : Counts v (v.advance 1).1 := by
  cases hon : v.control.isOn with
  | false =>
    rw [advance_of_off hon]
    exact .of_phase rfl rfl rfl
  | true =>
    rcases h.dot_cases with hdot | hdot
    · rw [advance_one_of_lt hon hdot]
      exact .of_phase rfl rfl rfl
    · rw [advance_one_of_eq h hon hdot, endPhase_fst]
      have hended := counts_enterNext
        (v := { v with dot := v.phase.boundary, lineDrawn := false }) hon
      exact hended.updateStatus.of_dot

/-- A write. -/
theorem counts_write (v : Video) (l : Location) (b : UInt8) : Counts v (v.write l b).1 := by
  cases l with
  | control =>
    change Counts v (v.setControl b).1
    rcases v.setControl_cases b with ⟨his, hset⟩ | ⟨hwas, hon, hset⟩ | ⟨hwas, hoff, hset⟩
    · rw [hset]
      exact .of_phase rfl his rfl
    · rw [hset]
      exact Counts.updateStatus (.starts (.inr ⟨hwas, hon⟩) rfl rfl)
    · rw [hset]
      refine .stays ?_ (fun hshown => ?_) rfl
      · rintro (⟨-, hafter⟩ | ⟨hwasOff, -⟩)
        · exact nomatch hafter
        · exact nomatch hwas.symm.trans hwasOff
      · exact nomatch hoff.symm.trans hshown.1.2.2.2
  | status | lineCompare => exact Counts.updateStatus (.of_phase rfl rfl rfl)
  | _ => exact .of_phase rfl rfl rfl

theorem counts_perform (h : v.Placed) {a : Action} (ha : a.IsSingle) : Counts v (v.perform a) := by
  cases a with
  | pass dots =>
    obtain rfl : dots = 1 := ha
    exact counts_dot h
  | write l b => exact counts_write v l b
  | takeFrame => exact .of_phase rfl rfl rfl

/-- From each moment to the next the remembered row changes by one action at most. -/
theorem counts_moment (h : v.Placed) (as : List Action) (k : Nat) :
    Counts (v.moment (dotwise as) k) (v.moment (dotwise as) (k + 1)) := by
  rcases Nat.lt_or_ge k (dotwise as).length with hk | hk
  · rw [moment_succ v hk]
    exact counts_perform (h.moment _ k) (isSingle_of_mem_dotwise (List.getElem_mem hk))
  · rw [moment_of_le v hk, moment_of_le v (Nat.le_succ_of_le hk)]
    exact .of_phase rfl rfl rfl

/-! ## The pass that is going on -/

section Runs

variable {run : Nat → Video} {s k : Nat}

/-- A pass begins at moment `s`: at the first one, or where it begins from the one before. -/
def Begins (run : Nat → Video) (s : Nat) : Prop := ∀ j, s = j + 1 → Starts (run j) (run s)

/-- The pass that is going on at moment `k` began at moment `s`. -/
structure PassFrom (run : Nat → Video) (s k : Nat) : Prop where
  le : s ≤ k
  begins : Begins run s
  since : ∀ j, s ≤ j → j < k → ¬ Starts (run j) (run (j + 1))

/-- At every moment a pass is going on. -/
theorem exists_passFrom (run : Nat → Video) (k : Nat) : ∃ s, PassFrom run s k := by
  induction k with
  | zero => exact ⟨0, Nat.le_refl 0, nofun, fun j _ hj => absurd hj (Nat.not_lt_zero j)⟩
  | succ k ih =>
    by_cases hstart : Starts (run k) (run (k + 1))
    · refine ⟨k + 1, Nat.le_refl _, fun j hj => ?_, fun j hj hj' => absurd hj' (Nat.not_lt.2 hj)⟩
      obtain rfl : k = j := Nat.succ.inj hj
      exact hstart
    · obtain ⟨s, hpass⟩ := ih
      refine ⟨s, Nat.le_succ_of_le hpass.le, hpass.begins, fun j hj hj' => ?_⟩
      rcases Nat.lt_or_eq_of_le (Nat.le_of_lt_succ hj') with hlt | rfl
      · exact hpass.since j hj hlt
      · exact hstart

/-- A pass is going on at each of its moments. -/
theorem PassFrom.earlier (h : PassFrom run s k) {j : Nat} (hsj : s ≤ j) (hjk : j ≤ k) :
    PassFrom run s j :=
  ⟨hsj, h.begins, fun i hi hij => h.since i hi (Nat.lt_of_lt_of_le hij hjk)⟩

/-- Something happens at moment `s` or later, and before moment `k`. -/
def Since (run : Nat → Video) (what : Video → Video → Prop) (s k : Nat) : Prop :=
  ∃ i, s ≤ i ∧ i < k ∧ what (run i) (run (i + 1))

instance {what : Video → Video → Prop} [∀ v w, Decidable (what v w)] :
    Decidable (Since run what s k) :=
  decidable_of_iff (∃ i, i < k ∧ s ≤ i ∧ what (run i) (run (i + 1)))
    (exists_congr fun _ => and_left_comm)

variable {what : Video → Video → Prop}

theorem not_since_self : ¬ Since run what s s := by
  rintro ⟨i, hsi, his, -⟩
  omega

theorem since_succ (hsk : s ≤ k) :
    Since run what s (k + 1) ↔ Since run what s k ∨ what (run k) (run (k + 1)) := by
  constructor
  · rintro ⟨i, hsi, hik, hwhat⟩
    rcases Nat.lt_or_eq_of_le (Nat.le_of_lt_succ hik) with hlt | rfl
    · exact .inl ⟨i, hsi, hlt, hwhat⟩
    · exact .inr hwhat
  · rintro (⟨i, hsi, hik, hwhat⟩ | hwhat)
    · exact ⟨i, hsi, Nat.lt_succ_of_lt hik, hwhat⟩
    · exact ⟨k, hsk, Nat.lt_succ_self k, hwhat⟩

/-- The lines before line `y` that showed the window at moment `s` or later, and before moment
`k`. -/
def shownLines (run : Nat → Video) (s k y : Nat) : Finset Nat :=
  (Finset.range y).filter fun l => Since run (Shows l) s k

theorem mem_shownLines {y l : Nat} :
    l ∈ shownLines run s k y ↔ l < y ∧ Since run (Shows l) s k := by
  rw [shownLines, Finset.mem_filter, Finset.mem_range]

theorem card_shownLines_le (run : Nat → Video) (s k y : Nat) : (shownLines run s k y).card ≤ y :=
  (Finset.card_filter_le ..).trans_eq (Finset.card_range y)

/-- Without another line that shows the window they stay the same. -/
theorem shownLines_succ (hsk : s ≤ k) (hnone : ¬ Shows (run k).line (run k) (run (k + 1)))
    (y : Nat) : shownLines run s (k + 1) y = shownLines run s k y := by
  refine Finset.filter_congr fun l _ => ?_
  rw [since_succ hsk, or_iff_left]
  rintro ⟨hdraws, hshows⟩
  exact hnone ⟨hdraws.1 ▸ hdraws, hshows⟩

/-- Another line that shows the window is one of them from then on. -/
theorem shownLines_succ_of_shows (hsk : s ≤ k)
    (hshows : Shows (run k).line (run k) (run (k + 1))) {y : Nat} (hy : (run k).line < y) :
    shownLines run s (k + 1) y = insert (run k).line (shownLines run s k y) := by
  ext l
  rw [Finset.mem_insert, mem_shownLines, mem_shownLines, since_succ hsk]
  constructor
  · rintro ⟨hl, hbefore | hnow⟩
    · exact .inr ⟨hl, hbefore⟩
    · exact .inl hnow.1.1.symm
  · rintro (rfl | ⟨hl, hbefore⟩)
    · exact ⟨hy, .inr hshows⟩
    · exact ⟨hl, .inl hbefore⟩

/-! ## The lines of a pass -/

/-- While a pass goes on, drawing a line is what makes it a drawn one. -/
theorem Moves.drawn_iff (h : Moves v w) (hnot : ¬ Starts v w) (hon : w.control.isOn = true)
    {l : Nat} (hl : l < screenHeight) : w.Drawn l ↔ v.Drawn l ∨ Draws l v w := by
  cases h with
  | stays _ _ _ _ drawn _ undrawn =>
    rw [drawn l hl, or_iff_left]
    exact fun hdraws => undrawn ⟨hdraws.2.1, hdraws.2.2.1⟩
  | draws _ _ _ _ _ line before after =>
    simp only [Drawn, Draws, line, before, after, hon, reduceCtorEq, and_true, and_false, or_false]
    omega
  | rests _ _ _ _ _ drawn before _ =>
    rw [drawn l hl, or_iff_left]
    exact fun hdraws => absurd (before.symm.trans hdraws.2.1) (by decide)
  | completes _ _ _ _ _ before _ after => exact absurd (.inl ⟨before, after⟩) hnot
  | switches on =>
    refine absurd (.inr ⟨?_, hon⟩) hnot
    simpa [hon] using on.symm

/-- A pass begins with no line drawn. -/
theorem Moves.not_drawn (h : Moves v w) (hstart : Starts v w) (hon : w.control.isOn = true)
    (l : Nat) : ¬ w.Drawn l := by
  have hfirst : w.line = 0 ∧ w.phase = .search := by
    cases h with
    | stays on _ _ _ _ unseen =>
      rcases hstart with ⟨hbefore, hafter⟩ | ⟨hwas, -⟩
      · exact nomatch hafter.symm.trans (unseen.2 hbefore)
      · exact nomatch hon.symm.trans (on.trans hwas)
    | draws wasOn _ _ _ _ _ before =>
      rcases hstart with ⟨hbefore, -⟩ | ⟨hwas, -⟩
      · exact nomatch hbefore.symm.trans before
      · exact nomatch wasOn.symm.trans hwas
    | rests wasOn _ _ _ _ _ before =>
      rcases hstart with ⟨hbefore, -⟩ | ⟨hwas, -⟩
      · exact nomatch hbefore.symm.trans before
      · exact nomatch wasOn.symm.trans hwas
    | completes _ _ _ _ _ _ line after => exact ⟨line, after⟩
    | switches _ _ _ line after => exact ⟨line, after hon⟩
  simp [Drawn, hfirst.1, hfirst.2]

/-- A display watched from the beginning of a pass on, at every dot, write, and taking of a
picture. -/
structure Watched (run : Nat → Video) : Prop where
  placed : ∀ k, (run k).Placed
  moves : ∀ k, Moves (run k) (run (k + 1))
  counts : ∀ k, Counts (run k) (run (k + 1))
  line : (run 0).line = 0
  phase : (run 0).phase = .search
  row : (run 0).windowLine = 0

theorem watched_moment (model : Model) (as : List Action) :
    Watched ((powerUp model).moment (dotwise as)) where
  placed := (placed_powerUp model).moment _
  moves := moves_moment (placed_powerUp model) as
  counts := counts_moment (placed_powerUp model) as
  line := rfl
  phase := rfl
  row := rfl

namespace Watched

/-- A pass begins at the first line and with the first row of the window. -/
theorem of_begins (h : Watched run) (hs : Begins run s) :
    (run s).line = 0 ∧ (run s).windowLine = 0 := by
  cases s with
  | zero => exact ⟨h.line, h.row⟩
  | succ j =>
    cases h.counts j with
    | starts _ line row => exact ⟨line, row⟩
    | draws shown =>
      rcases hs j rfl with ⟨hbefore, -⟩ | ⟨hwas, -⟩
      · exact nomatch hbefore.symm.trans shown.1.2.1
      · exact nomatch ((h.placed j).waits hwas).2.2.symm.trans shown.1.2.1
    | stays noStart => exact absurd (hs j rfl) noStart

/-- As long as the display is on, a line has been drawn if it was drawn since the pass began. -/
theorem drawn_iff (h : Watched run) (hpass : PassFrom run s k) (hon : (run k).control.isOn = true)
    {l : Nat} (hl : l < screenHeight) : (run k).Drawn l ↔ Since run (Draws l) s k := by
  obtain ⟨hsk, hbegins, hsince⟩ := hpass
  induction k, hsk using Nat.le_induction with
  | base =>
    refine iff_of_false ?_ not_since_self
    cases s with
    | zero => simp [Drawn, h.line, h.phase]
    | succ j => exact (h.moves j).not_drawn (hbegins j rfl) hon l
  | succ k hsk ih =>
    have hnot := hsince k hsk (Nat.lt_succ_self k)
    have hwas := isOn_of_not_starts hnot hon
    rw [(h.moves k).drawn_iff hnot hon hl, since_succ hsk]
    exact or_congr_left (ih hwas fun j hj hjk => hsince j hj (Nat.lt_succ_of_lt hjk))

/-- A line that is drawn is a seen one, and the display is on. -/
theorem of_draws (h : Watched run) {l : Nat} (hdraws : Draws l (run k) (run (k + 1))) :
    l < screenHeight ∧ (run k).control.isOn = true := by
  obtain ⟨rfl, hphase, -, -⟩ := hdraws
  have hon : (run k).control.isOn = true := by
    by_contra hoff
    exact nomatch ((h.placed k).waits (Bool.eq_false_iff.2 hoff)).2.2.symm.trans hphase
  refine ⟨?_, hon⟩
  exact (Phase.ofPlace_eq_transfer_iff.1 (((h.placed k).phase_eq hon).symm.trans hphase)).1

/-- When a line is drawn, the lines before it were drawn in the pass, and no others. -/
theorem since_iff_lt (h : Watched run) (hpass : PassFrom run s k) {y l : Nat}
    (hdraws : Draws y (run k) (run (k + 1))) (hl : l < screenHeight) :
    Since run (Draws l) s k ↔ l < y := by
  rw [← h.drawn_iff hpass (h.of_draws hdraws).2 hl]
  simp [Drawn, hdraws.1, hdraws.2.1]

/-- No line is drawn twice in a pass. -/
theorem once (h : Watched run) (hpass : PassFrom run s k) {l i j : Nat} (hsi : s ≤ i) (hij : i < j)
    (hjk : j ≤ k) (hdraws : Draws l (run i) (run (i + 1))) : ¬ Draws l (run j) (run (j + 1)) := by
  intro hagain
  have hearlier := hpass.earlier (Nat.le_trans hsi (Nat.le_of_lt hij)) hjk
  refine Nat.lt_irrefl l ((h.since_iff_lt hearlier hagain (h.of_draws hagain).1).1 ?_)
  exact ⟨i, hsi, hij, hdraws⟩

/-- The remembered row is the number of lines that showed the window since the pass began. -/
theorem windowLine_eq (h : Watched run) (hpass : PassFrom run s k)
    (hon : (run k).control.isOn = true) :
    (run k).windowLine.toNat = (shownLines run s k screenHeight).card := by
  obtain ⟨hsk, hbegins, hsince⟩ := hpass
  induction k, hsk using Nat.le_induction with
  | base =>
    rw [(h.of_begins hbegins).2]
    exact (Finset.card_eq_zero.2 (Finset.filter_false_of_mem fun _ _ => not_since_self)).symm
  | succ k hsk ih =>
    have hnot := hsince k hsk (Nat.lt_succ_self k)
    have hwas := isOn_of_not_starts hnot hon
    have hbefore : ∀ j, s ≤ j → j < k → ¬ Starts (run j) (run (j + 1)) :=
      fun j hj hjk => hsince j hj (Nat.lt_succ_of_lt hjk)
    have hcount := ih hwas hbefore
    cases h.counts k with
    | starts start => exact absurd start hnot
    | draws shown row =>
      -- the line was not drawn before in this pass, so it is a new one
      have hnew : (run k).line ∉ shownLines run s k screenHeight := by
        intro hmem
        obtain ⟨-, i, hsi, hik, hshows⟩ := mem_shownLines.1 hmem
        exact h.once ⟨hsk, hbegins, hbefore⟩ hsi hik (Nat.le_refl k) hshows.1 shown.1
      have hfew : (run k).windowLine.toNat ≤ 144 := hcount ▸ card_shownLines_le run s k screenHeight
      rw [shownLines_succ_of_shows hsk shown (h.of_draws shown.1).1,
        Finset.card_insert_of_notMem hnew, ← hcount, row, UInt8.toNat_add]
      exact Nat.mod_eq_of_lt (Nat.lt_of_le_of_lt (Nat.succ_le_succ hfew) (by decide))
    | stays noStart unshown row => rw [row, hcount, shownLines_succ hsk unshown]

/-- Until another line shows the window, the remembered row is the one after the last. -/
theorem windowLine_after (h : Watched run) (hpass : PassFrom run s k) {j : Nat} (hsj : s ≤ j)
    (hjk : j < k) (hshows : Shows (run j).line (run j) (run (j + 1)))
    (hnone : ∀ i, j < i → i < k → ¬ Shows (run i).line (run i) (run (i + 1))) :
    (run k).windowLine = (run j).windowLine + 1 := by
  obtain ⟨-, -, hsince⟩ := hpass
  induction k, hjk using Nat.le_induction with
  | base =>
    cases h.counts j with
    | starts start => exact absurd start (hsince j hsj (Nat.lt_succ_self j))
    | draws _ row => exact row
    | stays _ unshown => exact absurd hshows unshown
  | succ k hjk ih =>
    have hsk : s ≤ k := Nat.le_trans hsj (Nat.le_of_lt hjk)
    have hrow := ih (fun i hij hik => hnone i hij (Nat.lt_succ_of_lt hik))
      fun i hsi hik => hsince i hsi (Nat.lt_succ_of_lt hik)
    cases h.counts k with
    | starts start => exact absurd start (hsince k hsk (Nat.lt_succ_self k))
    | draws shown => exact absurd shown (hnone k hjk (Nat.lt_succ_self k))
    | stays _ _ row => exact row.trans hrow

/-- When a line is drawn, only lines before it have shown the window. -/
theorem shownLines_eq (h : Watched run) (hpass : PassFrom run s k) {y : Nat}
    (hdraws : Draws y (run k) (run (k + 1))) :
    shownLines run s k screenHeight = shownLines run s k y := by
  have hy := (h.of_draws hdraws).1
  ext l
  rw [mem_shownLines, mem_shownLines]
  refine and_congr_left ?_
  rintro ⟨i, hsi, hik, hshows⟩
  have hl := (h.of_draws hshows.1).1
  have hbefore := (h.since_iff_lt hpass hdraws hl).1 ⟨i, hsi, hik, hshows.1⟩
  exact iff_of_true hl hbefore

end Watched

/-! ## What a line shows of the window -/

/-- Line `y` is drawn from moment `k` to the next, in the pass that began at moment `s`. It shows
the row of the window that the display remembers, and that is the number of earlier lines of the
pass that showed the window. -/
structure WindowRow (run : Nat → Video) (s k y : Nat) : Prop where
  pass : PassFrom run s k
  /-- The line goes into the picture as the display shows it. -/
  drawn : (run (k + 1)).back = (run k).back.setRow y (run k).row
  /-- Where the line shows the window, it is the remembered row. -/
  shows : ∀ x, x < screenWidth → (run k).ShowsWindowAt x →
    (run k).backgroundPixel x =
      (run k).tilePixel (run k).control.windowMap (UInt8.ofNat (x + 7 - (run k).windowX.toNat))
        (run k).windowLine
  /-- Where it does not, it has nothing of the window. -/
  hides : ∀ x, (run k).drawsBackground = true → ¬ (run k).ShowsWindowAt x →
    (run k).backgroundPixel x =
      (run k).tilePixel (run k).control.backgroundMap ((run k).scrollX + UInt8.ofNat x)
        ((run k).scrollY + UInt8.ofNat y)
  /-- Every line before it was drawn in the pass, and only once. -/
  once : ∀ l, l < y → ∃! i, s ≤ i ∧ i < k ∧ Draws l (run i) (run (i + 1))
  counted : (run k).windowLine.toNat = (shownLines run s k y).card
  /-- After lines that hide the window the next row follows. -/
  follows : ∀ j l, s ≤ j → j < k → Shows l (run j) (run (j + 1)) →
    (∀ i, j < i → i < k → ∀ l, ¬ Shows l (run i) (run (i + 1))) →
    (run k).windowLine = (run j).windowLine + 1

theorem Watched.windowRow (h : Watched run) {y : Nat} (hdraws : Draws y (run k) (run (k + 1))) :
    ∃ s, WindowRow run s k y := by
  obtain ⟨s, hpass⟩ := exists_passFrom run k
  obtain ⟨hy, hon⟩ := h.of_draws hdraws
  obtain ⟨rfl, hphase, hafter, -⟩ := id hdraws
  refine ⟨s, hpass, ?_, fun x hx => backgroundPixel_of_showsWindowAt hx,
    fun x => backgroundPixel_of_not_showsWindowAt, fun l hl => ?_, ?_, ?_⟩
  · cases h.moves k with
    | draws _ _ _ _ back => exact back
    | stays _ _ _ _ _ _ undrawn => exact absurd ⟨hphase, hafter⟩ undrawn
    | rests _ _ _ _ _ _ before => exact nomatch before.symm.trans hphase
    | completes _ _ _ _ _ before => exact nomatch before.symm.trans hphase
    | switches on => exact nomatch (hdraws.2.2.2.symm.trans on).trans (congrArg _ hon)
  · obtain ⟨i, hsi, hik, hi⟩ :=
      (h.since_iff_lt hpass hdraws (Nat.lt_trans hl hy)).2 hl
    refine ⟨i, ⟨hsi, hik, hi⟩, ?_⟩
    rintro j ⟨hsj, hjk, hj⟩
    rcases Nat.lt_trichotomy i j with hij | rfl | hji
    · exact absurd hj (h.once hpass hsi hij (Nat.le_of_lt hjk) hi)
    · rfl
    · exact absurd hi (h.once hpass hsj hji (Nat.le_of_lt hik) hj)
  · rw [h.windowLine_eq hpass hon, h.shownLines_eq hpass hdraws]
  · intro j l hsj hjk hshows hnone
    have hline : Shows (run j).line (run j) (run (j + 1)) := hshows.1.1 ▸ hshows
    exact h.windowLine_after hpass hsj hjk hline fun i hij hik => hnone i hij hik _

end Runs

theorem model_perform (h : v.Placed) (a : Action) : (v.perform a).model = v.model := by
  cases a with
  | pass dots =>
    refine h.advance_keeps (P := fun w => w.model = v.model) (fun _ _ _ hw => hw) (fun w _ hw => ?_)
      rfl dots
    rw [endPhase_fst, updateStatus_fst]
    refine Eq.trans ?_ hw
    unfold enterNext
    cases w.phase <;> simp only
    · split_ifs <;> rfl
    · split_ifs <;> rfl
    · rfl
  | write l b =>
    cases l with
    | control =>
      change (v.setControl b).1.model = _
      rcases v.setControl_cases b with ⟨-, hset⟩ | ⟨-, -, hset⟩ | ⟨-, -, hset⟩
      · rw [hset]
      · rw [hset, updateStatus_fst]
        rfl
      · rw [hset]
        rfl
    | status | lineCompare =>
      change (updateStatus _).1.model = _
      rw [updateStatus_fst]
    | _ => rfl
  | takeFrame => rfl

theorem model_moment (model : Model) (as : List Action) (k : Nat) :
    ((powerUp model).moment as k).model = model :=
  (List.foldlRecOn (motive := fun w : Video => w.Placed ∧ w.model = model) _ _
    ⟨placed_powerUp model, rfl⟩
    fun _ hw a _ => ⟨hw.1.perform a, (model_perform hw.1 a).trans hw.2⟩).2

/-- The row of the window that a line shows is the number of earlier lines of the pass that showed
the window, whatever a program writes in the meantime; a pass begins with the first row. The display
is followed dot by dot. -/
theorem window_counts (model : Model) (as : List Action) :
    let run := (powerUp model).moment (dotwise as)
    (∃ drawn, run (dotwise as).length = { performAll (powerUp model) as with lineDrawn := drawn }) ∧
    (∀ s, Begins run s → (run s).line = 0 ∧ (run s).windowLine = 0) ∧
    (∀ i l, Draws l (run i) (run (i + 1)) →
      ((run i).ShowsWindow ↔
        (run i).control.bits &&& 0x20 ≠ 0 ∧ (run i).windowY.toNat ≤ l ∧
          (run i).windowX.toNat ≤ 166 ∧ (model = .dmg → (run i).control.bits &&& 0x01 ≠ 0))) ∧
    ∀ k y, Draws y (run k) (run (k + 1)) → ∃ s, WindowRow run s k y := by
  intro run
  have hwatched := watched_moment model as
  refine ⟨?_, fun s => hwatched.of_begins, fun i l hdraws => ?_, fun k y => hwatched.windowRow⟩
  · obtain ⟨drawn, hlast⟩ := alike_dotwise (placed_powerUp model) as
    exact ⟨drawn, (moment_length _ _).trans hlast⟩
  · obtain ⟨rfl, -⟩ := hdraws
    rw [showsWindow_iff_registers, model_moment]

/-- The moments while the last dots pass. -/
theorem alike_moment_pass (h : v.Placed) (as : List Action) {m n : Nat} (hm : m ≤ n) :
    Alike ((performAll v as).dots m)
      (v.moment (dotwise (as ++ [.pass n])) ((dotwise as).length + m)) := by
  have htake : (dotwise (as ++ [.pass n])).take ((dotwise as).length + m) =
      dotwise (as ++ [.pass m]) := by
    simp [dotwise, Action.dotwise, List.take_append, hm]
  rw [moment, htake]
  have halike := alike_dotwise h (as ++ [.pass m])
  rwa [performAll_append] at halike

/-- The second line of a display whose window is shown from the beginning. -/
theorem window_counts_second :
    let run := (powerUp .dmg).moment (dotwise ([.write .control 0xb1] ++ [.pass 708]))
    ((run 0).line = 0 ∧ (run 0).windowLine = 0) ∧
    ((run 708).ShowsWindow ↔
      (run 708).control.bits &&& 0x20 ≠ 0 ∧ (run 708).windowY.toNat ≤ 1 ∧
        (run 708).windowX.toNat ≤ 166 ∧
          (Model.dmg = .dmg → (run 708).control.bits &&& 0x01 ≠ 0)) ∧
    ∃ s, WindowRow run s 708 1 := by
  obtain ⟨-, hbegins, hshows, hrows⟩ :=
    window_counts .dmg ([.write .control 0xb1] ++ [.pass 708])
  have hstart := placed_powerUp .dmg
  have hv : (performAll (powerUp .dmg) [.write .control 0xb1]).Placed := hstart.performAll _
  have hon : (performAll (powerUp .dmg) [.write .control 0xb1]).control.isOn = true := by rfl
  have hbegin : position (performAll (powerUp .dmg) [.write .control 0xb1]) = 0 := rfl
  have hmoment : ∀ m, m ≤ 708 → _ := fun m hm =>
    alike_moment_pass hstart [.write .control 0xb1] (m := m) (n := 708) hm
  generalize performAll (powerUp .dmg) [.write .control 0xb1] = v at hv hon hbegin hmoment
  dsimp only
  generalize (powerUp .dmg).moment (dotwise ([.write .control 0xb1] ++ [.pass 708])) = run
    at hbegins hshows hrows hmoment ⊢
  have hfinishes := (finishes_iff hv hon 707).2 ⟨1, by decide, by rw [hbegin]; rfl⟩
  have hline : (v.dots 707).line = 1 := by
    have hplace := position_dots hv hon 707
    have hdot := (hv.advance 707).1.dot_lt
    rw [hbegin] at hplace
    simp only [position, dots, dotsPerFrame, dotsPerLine, linesPerFrame] at *
    omega
  have hstill : (v.dots 708).control.isOn = true := by rw [dots, (hv.advance 708).2, hon]
  have hdraws : Draws 1 (run 708) (run (708 + 1)) := by
    obtain ⟨_, hbefore⟩ := hmoment 707 (by decide)
    obtain ⟨_, hafter⟩ := hmoment 708 (by decide)
    rw [show run 708 = _ from hbefore, show run (708 + 1) = _ from hafter]
    exact ⟨hline, hfinishes.1, hfinishes.2, hstill⟩
  exact ⟨hbegins 0 fun j hj => absurd hj (Nat.zero_ne_add_one j), hshows 708 1 hdraws,
    hrows 708 1 hdraws⟩

end GameBoy.Video
