import GameBoy.Proofs.Machine.Frames

/-!
# Every picture is handed out once

A picture that becomes complete is noted, and taking it wipes the note out. Nothing else touches the
note, so whoever asks for a picture is told whether one was completed since it was last asked for,
whatever was done to the machine in between.

* `frameReady_perform`: what a request other than the taking does to the note.
* `Machine.Notes`: the note says whether there are more pictures than a given number.
* `Machine.answers`: what the takings in a sequence of requests are told; `count_answers_le`: how
  many of them are handed a picture.
* `takeFrame_iff`: when a taking is handed one.
-/

namespace GameBoy.Machine

variable {m : Machine} {seen : Nat}

/-! ## The note -/

/-- A request notes the pictures that it completes, and forgets none. -/
theorem frameReady_perform (h : m.board.Reachable) {r : Request} (hr : r ≠ .takeFrame) :
    m.frames ≤ (m.perform r).frames ∧
      ((m.perform r).frameReady = true ↔
        m.frameReady = true ∨ m.frames < (m.perform r).frames) := by
  have hsame : ∀ w : Machine, w.frames = m.frames → w.frameReady = m.frameReady →
      m.frames ≤ w.frames ∧
        (w.frameReady = true ↔ m.frameReady = true ∨ m.frames < w.frames) := by
    intro w hframes hready
    rw [hframes, hready]
    exact ⟨Nat.le_refl _, (or_iff_left (Nat.lt_irrefl _)).symm⟩
  cases r with
  | tick => exact ⟨(frames_tick h).1, frameReady_tick h⟩
  | runFrame =>
    rw [Machine.perform, runFrame_eq_ticks]
    exact frameReady_ticks h m.frameTicks
  | write a v => exact hsame _ (m.board.frames_write a v).1 (m.board.frameReady_write a v)
  | press i =>
    refine hsame _ ?_ ?_ <;> simp only [Machine.perform, press] <;> split <;> rfl
  | release i =>
    refine hsame _ ?_ ?_ <;> simp only [Machine.perform, release] <;> split <;> rfl
  | read | loadRam => exact hsame _ rfl rfl
  | takeFrame => exact absurd rfl hr

/-- The note says whether more pictures than `seen` have been completed. -/
structure Notes (m : Machine) (seen : Nat) : Prop where
  le : seen ≤ m.frames
  ready_iff : m.frameReady = true ↔ seen < m.frames

theorem notes_powerUp {image : ByteArray} {options : Options} {journal : Journal} {start : Machine}
    (hstart : powerUp image options journal = .ok start) : start.frames = 0 ∧ start.Notes 0 := by
  obtain ⟨cartridge, model, notices, -, rfl⟩ := powerUp_eq_ok hstart
  exact ⟨rfl, Nat.le_refl 0, iff_of_false Bool.false_ne_true (Nat.lt_irrefl 0)⟩

/-- After a taking the note is about the pictures to come. -/
theorem notes_takeFrame (m : Machine) : m.takeFrame.2.Notes m.frames :=
  ⟨Nat.le_refl _, iff_of_false Bool.false_ne_true (Nat.lt_irrefl _)⟩

theorem Notes.perform (h : m.Notes seen) (hm : m.board.Reachable) {r : Request}
    (hr : r ≠ .takeFrame) : (m.perform r).Notes seen := by
  obtain ⟨hmore, hready⟩ := frameReady_perform hm hr
  refine ⟨Nat.le_trans h.le hmore, ?_⟩
  have hle := h.le
  rw [hready, h.ready_iff]
  omega

/-- Until the next taking the note goes on about the same number. -/
theorem Notes.performAll (h : m.Notes seen) (hm : m.board.Reachable) {rs : List Request}
    (hrs : ∀ r ∈ rs, r ≠ .takeFrame) : (performAll m rs).Notes seen := by
  induction rs generalizing m with
  | nil => exact h
  | cons r rs ih =>
    exact ih (h.perform hm (hrs r List.mem_cons_self)) (reachable_perform hm r)
      fun r' hr' => hrs r' (List.mem_cons_of_mem r hr')

/-! ## Takings in a sequence of requests -/

/-- What the takings in a sequence of requests are told, one after the other. -/
def answers (m : Machine) : List Request → List Bool
  | [] => []
  | .takeFrame :: rs => m.takeFrame.1 :: (m.perform .takeFrame).answers rs
  | r :: rs => (m.perform r).answers rs

/-- Every picture that a taking is handed was completed after the ones already seen. -/
theorem count_answers_le (h : m.Notes seen) (hm : m.board.Reachable) (rs : List Request) :
    seen + (m.answers rs).count true ≤ (performAll m rs).frames := by
  induction rs generalizing m seen with
  | nil => exact h.le
  | cons r rs ih =>
    have hlater := reachable_perform hm r
    cases r with
    | takeFrame =>
      have hrest := ih m.notes_takeFrame hlater
      have hanswer : m.takeFrame.1 = true ↔ seen < m.frames := h.ready_iff
      have hcount : (m.answers (.takeFrame :: rs)).count true =
          (m.takeFrame.2.answers rs).count true + if m.takeFrame.1 = true then 1 else 0 := by
        simp only [answers, List.count_cons, beq_iff_eq]
        rfl
      rw [hcount]
      refine Nat.le_trans ?_ hrest
      have hle := h.le
      split
      · have := hanswer.1 ‹_›
        omega
      · omega
    | _ => exact ih (h.perform hm nofun) hlater

/-- Whoever asks for a picture is handed one exactly if a picture was completed since it was last
asked for, or since the machine was built. So of two askings in a row the second is handed none, not
more pictures are handed out than were completed, and no write to any register, as the one that
switches the display off, loses a picture or makes one up. -/
theorem takeFrame_iff {image : ByteArray} {options : Options} {journal : Journal} {start : Machine}
    (hstart : powerUp image options journal = .ok start) (rs : List Request) :
    ((∀ r ∈ rs, r ≠ .takeFrame) →
      ((performAll start rs).takeFrame.1 = true ↔ 0 < (performAll start rs).frames)) ∧
    (∀ before between, rs = before ++ .takeFrame :: between →
      (∀ r ∈ between, r ≠ .takeFrame) →
        ((performAll start rs).takeFrame.1 = true ↔
          (performAll start before).frames < (performAll start rs).frames)) ∧
    (performAll start (rs ++ [.takeFrame])).takeFrame.1 = false ∧
    (start.answers rs).count true ≤ (performAll start rs).frames ∧
    ∀ a v, ((performAll start rs).write a v).frames = (performAll start rs).frames ∧
      ((performAll start rs).write a v).takeFrame.1 = (performAll start rs).takeFrame.1 := by
  have hboard := (powerUp_start hstart).1
  obtain ⟨-, hnotes⟩ := notes_powerUp hstart
  refine ⟨fun hnone => (hnotes.performAll hboard hnone).ready_iff, ?_, ?_, ?_, fun a v => ?_⟩
  · rintro before between rfl hnone
    rw [performAll_append]
    have htaken : (performAll start before).takeFrame.2.board.Reachable :=
      (reachable_performAll hboard before).takeFrame
    exact ((performAll start before).notes_takeFrame.performAll htaken hnone).ready_iff
  · rw [performAll_append]
    rfl
  · have hcount := count_answers_le hnotes hboard rs
    rwa [Nat.zero_add] at hcount
  · exact ⟨(Board.frames_write _ a v).1, Board.frameReady_write _ a v⟩

/-- A program that waits: the picture that a run completes is handed out, and when the display is
switched off it is not handed out again. -/
theorem takeFrame_iff_spins :
    ∃ start, powerUp (Cartridge.codeImage [0x18, 0xfe]) { model? := some .cgb } {} = .ok start ∧
      (performAll start [.runFrame]).takeFrame.1 = true ∧
      (performAll start [.runFrame, .takeFrame, .write 0xff40 0]).takeFrame.1 = false := by
  obtain ⟨start, hstart, h, -, hon, hready⟩ := spins_powerUp
  obtain ⟨-, hnew, -⟩ := h.runFrame hon hready
  obtain ⟨hfirst, -⟩ := takeFrame_iff hstart [.runFrame]
  obtain ⟨-, hsecond, -⟩ := takeFrame_iff hstart [.runFrame, .takeFrame, .write 0xff40 0]
  refine ⟨start, hstart, (hfirst fun r hr => ?_).2 (Nat.lt_of_le_of_lt (Nat.zero_le _) hnew), ?_⟩
  · obtain rfl := List.mem_singleton.1 hr
    nofun
  · refine Bool.eq_false_iff.2 fun hagain => ?_
    have hmore := (hsecond [.runFrame] [.write 0xff40 0] rfl fun r hr => by
      obtain rfl := List.mem_singleton.1 hr
      nofun).1 hagain
    have hsame := ((performAll start [.runFrame]).takeFrame.2.board.frames_write 0xff40 0).1
    exact Nat.ne_of_lt hmore hsame.symm

end GameBoy.Machine
