import GameBoy.Proofs.Video.Conditions

/-!
# The sources of the display's interrupt

Three phases and the compared line can each be selected as a source of the interrupt. A source is
met while the display is on, the source is selected and its condition holds. The interrupt is
requested whenever a source becomes met, by a dot or by a write, and at no other time; that another
source is met all the while makes no difference.

* `Video.Source`, `Source.Met`: the four sources, and when each is met.
* `Source.met_iff_conditions`: the conditions of the display are the sources that are met.
* `rises_iff`: a condition begins to hold when a source becomes met.
* `Reachable.requested_iff`: one dot, a write, or the taking of a picture requests the interrupt
  exactly when a source becomes met.
-/

namespace GameBoy.Video

/-! ## Sources -/

/-- What may be selected as a source of the display's interrupt. -/
inductive Source
  /-- A line has been drawn. -/
  | hblank
  /-- The unseen lines pass. -/
  | vblank
  /-- Sprites are looked up. -/
  | search
  /-- The current line is the compared one. -/
  | lineCompare
deriving DecidableEq

namespace Source

/-- The bit of the status register that selects a source. -/
def bit : Source → UInt8
  | .hblank => 0x08
  | .vblank => 0x10
  | .search => 0x20
  | .lineCompare => 0x40

/-- The phase that is the condition of a source; the compared line is a source in every phase. -/
def phase? : Source → Option Phase
  | .hblank => some .hblank
  | .vblank => some .vblank
  | .search => some .search
  | .lineCompare => none

/-- The condition of a source. -/
def Holds (s : Source) (v : Video) : Prop :=
  match s with
  | .hblank => v.phase = .hblank
  | .vblank => v.phase = .vblank
  | .search => v.phase = .search
  | .lineCompare => v.line = v.lineCompare.toNat

/-- The display is on, and a source is selected and its condition holds. -/
structure Met (s : Source) (v : Video) : Prop where
  on : v.control.isOn = true
  selected : v.selected &&& s.bit ≠ 0
  holds : s.Holds v

/-- A bit is set in a byte or in its complement. -/
theorem and_bit_cases (s : Source) (b : UInt8) :
    b &&& s.bit = 0 ∧ ~~~b &&& s.bit = s.bit ∨ b &&& s.bit = s.bit ∧ ~~~b &&& s.bit = 0 := by
  refine forall_byte
    (P := fun b => b &&& s.bit = 0 ∧ ~~~b &&& s.bit = s.bit ∨
      b &&& s.bit = s.bit ∧ ~~~b &&& s.bit = 0) ?_ b
  cases s <;> decide +kernel

theorem bit_ne_zero (s : Source) : s.bit ≠ 0 := by cases s <;> decide

/-- What is in one byte and not in another, looked at bit by bit. -/
theorem and_not_and_bit (s : Source) (a b : UInt8) :
    a &&& ~~~b &&& s.bit ≠ 0 ↔ a &&& s.bit ≠ 0 ∧ ¬ b &&& s.bit ≠ 0 := by
  rw [UInt8.and_assoc]
  rcases s.and_bit_cases b with ⟨hb, hnot⟩ | ⟨hb, hnot⟩
  · rw [hb, hnot]
    simp
  · rw [hb, hnot]
    simp [s.bit_ne_zero]

/-- A byte with no other bits than those of the sources is zero unless one of them is set. -/
theorem ne_zero_iff {b : UInt8} (hb : b &&& 0x78 = b) : b ≠ 0 ↔ ∃ s : Source, b &&& s.bit ≠ 0 := by
  have hsome : b &&& 0x78 ≠ 0 ↔ b &&& 0x08 ≠ 0 ∨ b &&& 0x10 ≠ 0 ∨ b &&& 0x20 ≠ 0 ∨ b &&& 0x40 ≠ 0 :=
    forall_byte (P := fun b => b &&& 0x78 ≠ 0 ↔
      b &&& 0x08 ≠ 0 ∨ b &&& 0x10 ≠ 0 ∨ b &&& 0x20 ≠ 0 ∨ b &&& 0x40 ≠ 0) (by decide +kernel) b
  rw [hb] at hsome
  rw [hsome]
  constructor
  · rintro (h | h | h | h)
    · exact ⟨.hblank, h⟩
    · exact ⟨.vblank, h⟩
    · exact ⟨.search, h⟩
    · exact ⟨.lineCompare, h⟩
  · rintro ⟨s, hs⟩
    cases s with
    | hblank => exact .inl hs
    | vblank => exact .inr (.inl hs)
    | search => exact .inr (.inr (.inl hs))
    | lineCompare => exact .inr (.inr (.inr hs))

end Source

/-! ## Sources and conditions -/

variable {v w : Video}

/-- No other bits than those of the sources are among the conditions. -/
theorem conditions_and (v : Video) : v.conditions &&& 0x78 = v.conditions := by
  have hphase : v.phase.conditionBit &&& 0x78 = v.phase.conditionBit := by
    cases v.phase <;> decide
  unfold conditions holding
  split
  · rw [or_and_mask, UInt8.and_assoc, hphase]
    split
    · rw [UInt8.and_assoc]
      rfl
    · rfl
  · rfl

/-- Each phase has the bit of its own source, if it has one. -/
theorem Source.conditionBit_and_bit (s : Source) (p : Phase) :
    p.conditionBit &&& s.bit = if some p = s.phase? then s.bit else 0 := by
  cases s <;> cases p <;> rfl

/-- The bit of a source among the selected conditions that hold. -/
theorem holding_and_bit (v : Video) (s : Source) :
    v.holding &&& s.bit ≠ 0 ↔ v.selected &&& s.bit ≠ 0 ∧ s.Holds v := by
  have hagree : v.linesAgree = true ↔ v.line = v.lineCompare.toNat := beq_iff_eq
  have hphase : v.selected &&& v.phase.conditionBit &&& s.bit =
      if some v.phase = s.phase? then v.selected &&& s.bit else 0 := by
    rw [UInt8.and_assoc, s.conditionBit_and_bit, apply_ite (v.selected &&& ·), UInt8.and_zero]
  have hcompare : (if v.linesAgree then v.selected &&& 0x40 else 0) &&& s.bit =
      if v.linesAgree ∧ s = .lineCompare then v.selected &&& s.bit else 0 := by
    have hown : 0x40 &&& s.bit = if s = .lineCompare then s.bit else 0 := by cases s <;> rfl
    cases v.linesAgree <;> cases s <;> simp [UInt8.and_assoc, hown]
  rw [holding, or_and_mask, hphase, hcompare]
  -- each source has a bit of its own, so only one of the two parts can have it
  cases s with
  | lineCompare => simp [Source.phase?, Source.Holds, hagree, and_comm]
  | hblank | vblank | search => simp [Source.phase?, Source.Holds, and_comm]

/-- The conditions of the display are the sources that are met. -/
theorem Source.met_iff_conditions (s : Source) (v : Video) :
    v.conditions &&& s.bit ≠ 0 ↔ s.Met v := by
  cases hon : v.control.isOn with
  | false =>
    have hnone : ¬ s.Met v := fun h => nomatch hon.symm.trans h.on
    simp [conditions, hon, hnone]
  | true =>
    have hall : v.conditions = v.holding := if_pos hon
    rw [hall, holding_and_bit]
    exact ⟨fun h => ⟨hon, h.1, h.2⟩, fun h => ⟨h.selected, h.holds⟩⟩

/-- A condition begins to hold when a source becomes met. -/
theorem rises_iff : Rises v w ↔ ∃ s : Source, s.Met w ∧ ¬ s.Met v := by
  have hbits : w.conditions &&& ~~~v.conditions &&& 0x78 = w.conditions &&& ~~~v.conditions := by
    calc w.conditions &&& ~~~v.conditions &&& 0x78
      _ = w.conditions &&& 0x78 &&& ~~~v.conditions := by ac_rfl
      _ = w.conditions &&& ~~~v.conditions := by rw [conditions_and]
  rw [Rises, Source.ne_zero_iff hbits]
  refine exists_congr fun s => ?_
  rw [s.and_not_and_bit, s.met_iff_conditions, s.met_iff_conditions]

/-! ## Requests -/

/-- What an action requests. -/
def raised (v : Video) : Action → Requests
  | .pass dots => (v.advance dots).2
  | .write l b => (v.write l b).2
  | .takeFrame => ∅

/-- A single action requests the display's interrupt when a condition begins to hold. -/
theorem Settled.has_raised (h : v.Settled) (hv : v.Placed) {a : Action} (ha : a.IsSingle) :
    (v.raised a).has .lcdStat = true ↔ Rises v (v.perform a) := by
  cases a with
  | pass dots =>
    obtain rfl : dots = 1 := ha
    refine ((h.dot hv).2 .lcdStat).trans ?_
    simp [Requested, perform]
  | write l b =>
    refine (h.has_write l b .lcdStat).trans ?_
    simp [perform]
  | takeFrame =>
    have hsame : ¬ Rises v (v.perform .takeFrame) := not_rises_of_eq rfl
    simp [raised, hsame]

/-- Where it is not requested yet, the display's interrupt is requested by one dot, a write to any
register or memory of the display, or the taking of a picture exactly when a source is met
afterwards that was not met before. -/
theorem Reachable.requested_iff (h : v.Reachable) {a : Action} (ha : a.IsSingle) {r : Requests}
    (hr : r.has .lcdStat = false) :
    (r ∪ v.raised a).has .lcdStat = true ↔ ∃ s : Source, s.Met (v.perform a) ∧ ¬ s.Met v := by
  rw [Requests.has_union, hr, Bool.false_or, h.settled.has_raised h.placed ha, rises_iff]

/-- The compared line is met from the start. Selecting another source that is met then requests the
interrupt once more, and comparing with another line does not. -/
theorem requested_iff_powerUp :
    let v := ((powerUp .dmg).write .status 0x40).1
    Source.Met .lineCompare v ∧
      (∅ ∪ v.raised (.write .status 0x60)).has .lcdStat = true ∧
      (∅ ∪ v.raised (.write .lineCompare 1)).has .lcdStat ≠ true := by
  intro v
  have hv : v.Reachable := .write .status 0x40 (.powerUp .dmg)
  refine ⟨⟨by decide, by decide, rfl⟩, ?_, ?_⟩
  · refine (hv.requested_iff (a := .write .status 0x60) trivial (Requests.has_empty _)).2 ?_
    have hphase : (v.perform (.write .status 0x60)).phase = .search := by decide
    exact ⟨.search, ⟨by decide, by decide, hphase⟩, fun hmet => hmet.selected (by decide)⟩
  · rw [ne_eq, hv.requested_iff (a := .write .lineCompare 1) trivial (Requests.has_empty _)]
    rintro ⟨s, hmet, -⟩
    cases s with
    | lineCompare =>
      have hagree : (v.perform (.write .lineCompare 1)).linesAgree = true :=
        beq_iff_eq.2 hmet.holds
      exact absurd hagree (by decide)
    | hblank | vblank | search => exact hmet.selected (by decide)

end GameBoy.Video
