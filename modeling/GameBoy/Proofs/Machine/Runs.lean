import GameBoy.Proofs.Machine.Counts
import GameBoy.Proofs.Machine.Paced

/-!
# Runs

A run ends with the tick after which a picture is complete, or when its time is over.

* `frameReady_tick`, `frameReady_ticks`: when a picture is complete.
* `Machine.runTicks`, `Machine.Lasts`: the ticks of a run.
* `elapsed_ticks_of_on`: while the display is on, it moves by the time that passes, and
  `frames_lt_iff`: when it comes to the end of its picture.
-/

namespace GameBoy

/-! ## When a picture is complete -/

namespace Video

/-- Time completes pictures. -/
theorem frameReady_advance {v : Video} (h : v.Placed) (n : Nat) :
    (v.advance n).1.frameReady = true ↔
      v.frameReady = true ∨ v.frames < (v.advance n).1.frames := by
  cases hon : v.control.isOn with
  | false => simp [advance_of_off hon]
  | true =>
    rw [advance_of_on hon]
    exact (course_scan h.forget hon ∅ n).frameReady_iff

/-- No write completes a picture or takes one. -/
theorem frameReady_write (v : Video) (l : Location) (b : UInt8) :
    (v.write l b).1.frameReady = v.frameReady := by
  cases l with
  | control =>
    change (v.setControl b).1.frameReady = _
    rcases v.setControl_cases b with ⟨-, hset⟩ | ⟨-, -, hset⟩ | ⟨-, -, hset⟩
    · rw [hset]
    · rw [hset, updateStatus_fst]
      rfl
    · rw [hset]
      rfl
  | status | lineCompare =>
    change (updateStatus _).1.frameReady = _
    rw [updateStatus_fst]
  | _ => rfl

end Video

theorem Board.frameReady_write (b : Board) (a : UInt16) (v : UInt8) :
    (b.write a v).video.frameReady = b.video.frameReady := by
  unfold write
  cases Location.find b.model a with
  | video l => exact b.video.frameReady_write l v
  | spriteCopy =>
    obtain ⟨page, oam, hcopied⟩ := b.copySprites_frame v
    simp only [writeAt, hcopied]
  | _ => rfl

namespace Machine

variable {m : Machine}

/-- The number of pictures that were completed. -/
def frames (m : Machine) : Nat := m.board.video.frames

/-- The processor has no part in it. -/
theorem act_frameReady (m : Machine) : m.act.2.board.video.frameReady = m.frameReady := by
  obtain ⟨journal, hact⟩ := m.act_board
  rw [hact]
  refine Cpu.step_induction (P := fun b : Board => b.video.frameReady = m.frameReady) ?_ ?_ m.cpu
    rfl
  · exact fun b a v hb => (b.frameReady_write a v).trans hb
  · intro b hb
    change b.switchRate.2.video.frameReady = _
    rwa [b.switchRate_video]

/-- After a tick a picture is complete if one was before or there is a new one. -/
theorem frameReady_tick (h : m.board.Reachable) :
    m.tick.2.frameReady = true ↔ m.frameReady = true ∨ m.frames < m.tick.2.frames := by
  have hplaced := (reachable_act h).valid.runTransfer.video
  obtain ⟨vram, transfer, journal, hcopied⟩ := m.act.2.board.runTransfer_frame
  have hready : m.act.2.board.runTransfer.video.frameReady = m.frameReady := by
    rw [hcopied]
    exact m.act_frameReady
  have hframes : m.act.2.board.runTransfer.video.frames = m.frames := by
    rw [hcopied]
    exact m.act_frames.1
  have htick := Video.frameReady_advance hplaced (m.tick.1 / m.factor)
  rwa [hready, hframes, ← m.tick_devices.2.1] at htick

theorem frameReady_ticks (h : m.board.Reachable) (n : Nat) :
    m.frames ≤ (m.ticks n).frames ∧
      ((m.ticks n).frameReady = true ↔ m.frameReady = true ∨ m.frames < (m.ticks n).frames) := by
  induction n with
  | zero => exact ⟨Nat.le_refl _, (or_iff_left (Nat.lt_irrefl _)).symm⟩
  | succ n ih =>
    obtain ⟨hle, hready⟩ := ih
    have hreachable := board_ticks h n
    have hmore : (m.ticks n).frames ≤ (m.ticks (n + 1)).frames := (frames_tick hreachable).1
    refine ⟨Nat.le_trans hle hmore, ?_⟩
    rw [ticks_succ, frameReady_tick hreachable, hready, or_assoc, ← ticks_succ]
    refine or_congr_right ?_
    omega

/-! ## The ticks of a run -/

/-- The number of ticks in a run. -/
def runTicks (m : Machine) (time : Nat) : Nat :=
  if time = 0 then 0
  else
    let ticked := m.tick
    if ticked.2.frameReady then 1
    else ticked.2.runTicks (time - ticked.1) + 1
termination_by time
decreasing_by
  have := four_le_tick m
  omega

theorem ticks_succ_eq (m : Machine) (n : Nat) : m.ticks (n + 1) = m.tick.2.ticks n := by
  induction n with
  | zero => rfl
  | succ n ih => rw [ticks_succ, ih, ticks_succ]

theorem cycles_le_ticks (m : Machine) (n : Nat) : m.cycles ≤ (m.ticks n).cycles :=
  repeat_induction (P := fun w : Machine => m.cycles ≤ w.cycles)
    (fun w hw => Nat.le_trans hw w.cycles_le_tick) (Nat.le_refl _) n

/-- A run of `n` ticks is as long as it ought to be: no tick but the last one finds a complete
picture, and all of them begin in time. At its end a picture is complete, or its time is over. -/
structure Lasts (m : Machine) (time n : Nat) (complete : Bool) : Prop where
  waits : ∀ k, 0 < k → k < n → (m.ticks k).frameReady = false
  inTime : ∀ k, k < n → (m.ticks k).cycles < m.cycles + time
  found : complete = true → 0 < n ∧ (m.ticks n).frameReady = true
  ended : complete = false →
    (0 < n → (m.ticks n).frameReady = false) ∧ m.cycles + time ≤ (m.ticks n).cycles

theorem lasts_zero (m : Machine) : m.Lasts 0 0 false :=
  ⟨nofun, nofun, nofun, fun _ => ⟨fun h => absurd h (Nat.lt_irrefl 0), Nat.le_refl _⟩⟩

theorem lasts_one {time : Nat} (htime : 0 < time) (hready : m.tick.2.frameReady = true) :
    m.Lasts time 1 true where
  waits k hpos hlt := absurd hlt (Nat.not_lt.2 hpos)
  inTime k hlt := by
    obtain rfl : k = 0 := Nat.lt_one_iff.1 hlt
    exact Nat.lt_add_of_pos_right htime
  found _ := ⟨Nat.one_pos, hready⟩
  ended := nofun

/-- A tick before a run. -/
theorem Lasts.cons {time n : Nat} {complete : Bool} (htime : 0 < time)
    (hready : m.tick.2.frameReady = false) (h : m.tick.2.Lasts (time - m.tick.1) n complete) :
    m.Lasts time (n + 1) complete where
  waits k hpos hlt := by
    obtain ⟨k, rfl⟩ : ∃ j, k = j + 1 := ⟨k - 1, by omega⟩
    rw [ticks_succ_eq]
    cases k with
    | zero => exact hready
    | succ k => exact h.waits _ (Nat.succ_pos k) (Nat.lt_of_succ_lt_succ hlt)
  inTime k hlt := by
    cases k with
    | zero => exact Nat.lt_add_of_pos_right htime
    | succ k =>
      have hbegins := h.inTime k (Nat.lt_of_succ_lt_succ hlt)
      have hpast := m.tick.2.cycles_le_ticks k
      rw [tick_cycles] at hbegins hpast
      rw [ticks_succ_eq]
      omega
  found hfound := by
    rw [ticks_succ_eq]
    exact ⟨Nat.succ_pos n, (h.found hfound).2⟩
  ended hover := by
    obtain ⟨hnone, hpast⟩ := h.ended hover
    rw [tick_cycles] at hpast
    rw [ticks_succ_eq]
    refine ⟨fun _ => ?_, by omega⟩
    cases n with
    | zero => exact hready
    | succ n => exact hnone (Nat.succ_pos n)

theorem runFor_ticks (m : Machine) (time : Nat) :
    (m.runFor time).2 = m.ticks (m.runTicks time) ∧
      m.Lasts time (m.runTicks time) (m.runFor time).1 := by
  induction time using Nat.strongRecOn generalizing m with
  | ind time ih =>
    have hfour := four_le_tick m
    rw [runFor, runTicks]
    by_cases hzero : time = 0
    · rw [if_pos hzero, if_pos hzero, hzero]
      exact ⟨rfl, m.lasts_zero⟩
    · have hpos : 0 < time := Nat.pos_of_ne_zero hzero
      rw [if_neg hzero, if_neg hzero]
      simp only
      by_cases hready : m.tick.2.frameReady = true
      · rw [if_pos hready, if_pos hready]
        exact ⟨rfl, lasts_one hpos hready⟩
      · obtain ⟨hrest, hlasts⟩ := ih (time - m.tick.1) (by omega) m.tick.2
        rw [if_neg hready, if_neg hready, ticks_succ_eq]
        exact ⟨hrest, hlasts.cons hpos (Bool.eq_false_iff.2 hready)⟩

/-- A run of some time has a tick, and tells whether a picture is complete after it. -/
theorem Lasts.complete_eq {time n : Nat} {complete : Bool} (h : m.Lasts time n complete)
    (htime : 0 < time) : 0 < n ∧ complete = (m.ticks n).frameReady := by
  cases complete with
  | true => exact ⟨(h.found rfl).1, (h.found rfl).2.symm⟩
  | false =>
    obtain ⟨hnone, hpast⟩ := h.ended rfl
    have hpos : 0 < n := by
      refine Nat.pos_of_ne_zero ?_
      rintro rfl
      exact absurd hpast (Nat.not_le.2 (Nat.lt_add_of_pos_right htime))
    exact ⟨hpos, (hnone hpos).symm⟩

/-- The number of ticks in a run for a picture. -/
def frameTicks (m : Machine) : Nat := m.runTicks (dotsPerFrame * m.board.speed.rate.factor)

theorem runFrame_eq_ticks (m : Machine) : m.runFrame.2 = m.ticks m.frameTicks :=
  (m.runFor_ticks _).1

theorem lasts_runFrame (m : Machine) :
    m.Lasts (dotsPerFrame * m.board.speed.rate.factor) m.frameTicks m.runFrame.1 :=
  (m.runFor_ticks _).2

theorem frameTime_pos (m : Machine) : 0 < dotsPerFrame * m.board.speed.rate.factor :=
  Nat.mul_pos (by decide) m.board.speed.rate.factor_pos

/-- A run for a picture tells whether one is complete after it. -/
theorem runFrame_fst (m : Machine) : m.runFrame.1 = m.runFrame.2.frameReady := by
  rw [runFrame_eq_ticks]
  exact (m.lasts_runFrame.complete_eq m.frameTime_pos).2

/-- A picture that was complete before ends it after the first tick. -/
theorem runFrame_of_frameReady (h : m.board.Reachable) (hready : m.frameReady = true) :
    m.runFrame = (true, m.tick.2) := by
  have htick : m.tick.2.frameReady = true := (frameReady_tick h).2 (.inl hready)
  rw [runFrame, runFor, if_neg (Nat.ne_of_gt m.frameTime_pos)]
  simp only [htick, if_true]

theorem runFrame_fst_iff (h : m.board.Reachable) :
    m.runFrame.1 = true ↔ m.frameReady = true ∨ m.frames < m.runFrame.2.frames := by
  rw [runFrame_fst, runFrame_eq_ticks]
  exact (frameReady_ticks h _).2

end Machine

/-! ## While the display is on -/

namespace Machine

variable {m : Machine}

/-- Time switches nothing. -/
theorem isOn_tick (h : m.board.Reachable) :
    m.tick.2.board.video.control.isOn = m.act.2.board.video.control.isOn := by
  have hplaced := (reachable_act h).valid.runTransfer.video
  obtain ⟨vram, transfer, journal, hcopied⟩ := m.act.2.board.runTransfer_frame
  rw [m.tick_devices.2.1, (hplaced.advance _).2, hcopied]

/-- The display cannot be switched off and on again in a tick. -/
theorem not_switchesOff_of_on (h : m.board.Reachable)
    (hon : m.tick.2.board.video.control.isOn = true) : ∀ w ∈ m.writes, ¬ SwitchesOff w := by
  obtain ⟨journal, hact⟩ := m.act_board
  rw [isOn_tick h, hact] at hon
  rcases m.cpu.bus_step m.board with hbus | ⟨hnone, -⟩
  · rw [hbus] at hon
    exact Board.not_switchesOff (m.cpu.count_writes_le_one m.board (by decide)) hon
  · intro w hw
    rw [writes, hnone] at hw
    cases hw

/-- While the display is on, it moves by the time that passes at the normal rate. -/
theorem elapsed_ticks_of_on (h : m.board.Reachable) {n : Nat}
    (hon : ∀ k, k ≤ n → (m.ticks k).board.video.control.isOn = true) :
    (m.ticks n).board.video.elapsed =
      m.board.video.elapsed +
        ((List.range n).map fun k => (m.ticks k).tick.1 / (m.ticks k).factor).sum :=
  (elapsed_ticks h (hon 0 (Nat.zero_le n)) n fun k hk =>
    not_switchesOff_of_on (board_ticks h k) (hon (k + 1) hk)).2

/-- At factors from `f` to `g` the cycles are at least `f` times as many as the dots, and at most
`g` times. -/
theorem cycles_ticks (h : m.board.Reachable) {n f g : Nat}
    (hon : ∀ k, k ≤ n → (m.ticks k).board.video.control.isOn = true)
    (hfactor : ∀ k, k < n → f ≤ (m.ticks k).factor ∧ (m.ticks k).factor ≤ g) :
    m.cycles + f * (m.ticks n).board.video.elapsed ≤
        (m.ticks n).cycles + f * m.board.video.elapsed ∧
      (m.ticks n).cycles + g * m.board.video.elapsed ≤
        m.cycles + g * (m.ticks n).board.video.elapsed := by
  induction n with
  | zero => exact ⟨Nat.le_refl _, Nat.le_refl _⟩
  | succ n ih =>
    obtain ⟨hlow, hhigh⟩ := ih (fun k hk => hon k (Nat.le_succ_of_le hk))
      (fun k hk => hfactor k (Nat.lt_succ_of_lt hk))
    have hreachable := board_ticks h n
    obtain ⟨-, hmoved⟩ := tick_elapsed hreachable (hon n (Nat.le_succ n))
      (not_switchesOff_of_on hreachable (hon (n + 1) (Nat.le_refl _)))
    -- the cycles of the last tick are as many times its dots
    obtain ⟨-, -, -, hdvd⟩ := tick_bounds hreachable
    have hwhole := Nat.mul_div_cancel' hdvd
    obtain ⟨hleast, hmost⟩ := hfactor n (Nat.lt_succ_self n)
    have hleast := Nat.mul_le_mul_right ((m.ticks n).tick.1 / (m.ticks n).factor) hleast
    have hmost := Nat.mul_le_mul_right ((m.ticks n).tick.1 / (m.ticks n).factor) hmost
    rw [hwhole] at hleast hmost
    rw [ticks_succ, tick_cycles, hmoved, Nat.mul_add, Nat.mul_add]
    omega

/-- The dots of a tick are few. -/
theorem elapsed_tick_le (h : m.board.Reachable) (hwas : m.board.video.control.isOn = true)
    (hon : m.tick.2.board.video.control.isOn = true) :
    m.tick.2.board.video.elapsed ≤ m.board.video.elapsed + 2072 := by
  obtain ⟨-, hmoved⟩ := tick_elapsed h hwas (not_switchesOff_of_on h hon)
  obtain ⟨-, -, hle, -⟩ := tick_bounds h
  rw [hmoved]
  exact Nat.add_le_add_left (Nat.le_trans (Nat.div_le_self ..) hle) _

/-- A tick completes one picture at most, and none if the tick before it completed one. -/
theorem frames_tick_le (h : m.board.Reachable) (hwas : m.board.video.control.isOn = true)
    (hon : m.tick.2.board.video.control.isOn = true) :
    m.tick.2.frames ≤ m.frames + 1 ∧
      (m.tick.2.tick.2.board.video.control.isOn = true → m.frames < m.tick.2.frames →
        m.tick.2.tick.2.frames = m.tick.2.frames) := by
  have hfirst := elapsed_tick_le h hwas hon
  have hplace := h.valid.video.position_lt
  have hframe : dotsPerFrame = 70224 := rfl
  refine ⟨?_, fun hstill hnew => ?_⟩
  · simp only [Video.elapsed, frames, hframe] at *
    omega
  · have hsecond := elapsed_tick_le (reachable_tick h) hon hstill
    have hmore := (frames_tick (reachable_tick h)).1
    simp only [Video.elapsed, frames, hframe] at *
    omega

/-- A picture is completed when the display comes to the end of the one it is in. -/
theorem frames_lt_iff (h : m.board.Reachable) {n : Nat}
    (hon : ∀ k, k ≤ n → (m.ticks k).board.video.control.isOn = true) :
    m.frames < (m.ticks n).frames ↔
      dotsPerFrame ≤ m.board.video.position +
        ((List.range n).map fun k => (m.ticks k).tick.1 / (m.ticks k).factor).sum := by
  have hmoved := elapsed_ticks_of_on h hon
  have hplace := (board_ticks h n).valid.video.position_lt
  have hframe : dotsPerFrame = 70224 := rfl
  simp only [Video.elapsed, frames, hframe] at *
  omega

end Machine

end GameBoy
