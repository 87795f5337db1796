import GameBoy.Proofs.Checked.Drawing
import GameBoy.Proofs.Video.Course

/-!
# The display never stops

The display finds its own addresses, counts lines in bytes, dots in words of 32 bits and pictures in
words of 64 bits, and takes the dots to the end of a phase as a difference.

* `Video.checkedRead_eq`, `Video.checkedWrite_eq`: memory and registers are there.
* `Video.checkedAdvance_eq`: the loop over the phases ends and nothing in it overflows, unless there
  are too many pictures to count.
-/

namespace GameBoy

open Checked

/-! ## Palettes -/

namespace ColorMemory

def checkedReadData (m : ColorMemory) : Option UInt8 := m.cells.fetch m.index

/-- Writes the indexed byte; the index may then move on. -/
def checkedWriteData (m : ColorMemory) (v : UInt8) : Option ColorMemory := do
  let cells ← m.cells.store m.index v
  if m.moves then
    let next ← add 8 m.index 1
    let index ← wrap 64 next
    return { m with cells, index }
  else return { m with cells }

theorem checkedReadData_eq (m : ColorMemory) : m.checkedReadData = some m.readData :=
  m.cells.fetch_of_lt m.index.isLt

theorem checkedWriteData_eq (m : ColorMemory) (v : UInt8) :
    m.checkedWriteData v = some (m.writeData v) := by
  have hnext : m.index.val + 1 < 2 ^ 8 := by omega
  unfold checkedWriteData writeData
  rw [m.cells.store_of_lt m.index.isLt, Option.bind_eq_bind, Option.bind_some, add_of_lt hnext]
  split
  · rw [Option.bind_eq_bind, Option.bind_some, wrap_add_one]
    rfl
  · rfl

end ColorMemory

namespace Video

/-! ## Access -/

/-- What a program reads at an address of the display, and the level of an undriven bus at any
other. -/
def checkedRead (v : Video) (a : UInt16) : Option UInt8 := do
  if 0x8000 ≤ a.toNat ∧ a.toNat < 0xa000 then v.checkedVramAt v.bank a.toNat
  else if 0xfe00 ≤ a.toNat ∧ a.toNat < 0xfea0 then
    let i ← sub a.toNat 0xfe00
    v.oam.fetch i
  else
    match Location.register? a with
    | some .backgroundColorData => v.backgroundColors.checkedReadData
    | some .objectColorData => v.objectColors.checkedReadData
    | some l => return v.read l
    | none => return 0xff

/-- A program's write at an address of the display, which at any other does nothing. -/
def checkedWrite (v : Video) (a : UInt16) (b : UInt8) : Option (Video × Requests) := do
  if 0x8000 ≤ a.toNat ∧ a.toNat < 0xa000 then
    let start ← mul 32 v.bank.bit.toNat 0x2000
    let offset ← sub a.toNat 0x8000
    let i ← add 32 start offset
    let vram ← v.vram.store i b
    return ({ v with vram }, ∅)
  else if 0xfe00 ≤ a.toNat ∧ a.toNat < 0xfea0 then
    let i ← sub a.toNat 0xfe00
    let oam ← v.oam.store i b
    return ({ v with oam }, ∅)
  else
    match Location.register? a with
    | some .backgroundColorData =>
      let backgroundColors ← v.backgroundColors.checkedWriteData b
      return ({ v with backgroundColors }, ∅)
    | some .objectColorData =>
      let objectColors ← v.objectColors.checkedWriteData b
      return ({ v with objectColors }, ∅)
    | some l =>
      let done := v.put l b
      let raised ← Requests.checkedRaiseIf ∅ .lcdStat done.2
      return (done.1, raised)
    | none => return (v, ∅)

/-- Video memory, the memory of sprites, or a register. -/
theorem location_cases {P : Location → Prop} {a : UInt16} {l : Location}
    (h : Location.ofAddress? a = some l)
    (vram : ∀ i, 0x8000 ≤ a.toNat ∧ a.toNat < 0xa000 → a.toNat - 0x8000 = i.val → P (.vram i))
    (oam : ∀ i, 0xfe00 ≤ a.toNat ∧ a.toNat < 0xfea0 → a.toNat - 0xfe00 = i.val → P (.oam i))
    (register : ∀ l, ¬ (0x8000 ≤ a.toNat ∧ a.toNat < 0xa000) →
      ¬ (0xfe00 ≤ a.toNat ∧ a.toNat < 0xfea0) → Location.register? a = some l → P l) : P l := by
  unfold Location.ofAddress? Location.memory? at h
  split at h
  · cases h
    exact vram _ ‹_› rfl
  · split at h
    · cases h
      exact oam _ ‹_› rfl
    · exact register l ‹_› ‹_› h

/-- Memory and registers are there to be read. -/
theorem checkedRead_eq (v : Video) {a : UInt16} {l : Location}
    (h : Location.ofAddress? a = some l) : v.checkedRead a = some (v.read l) := by
  refine location_cases (P := fun l => v.checkedRead a = some (v.read l)) h ?_ ?_ ?_
  · intro i hvram hi
    have hoffset : offset8K a = i := by
      refine Fin.ext ?_
      show a.toNat % 0x2000 = i.val
      omega
    rw [checkedRead, if_pos hvram, checkedVramAt_eq, ← hoffset]
    rfl
  · intro i hoam hi
    have hvram : ¬ (0x8000 ≤ a.toNat ∧ a.toNat < 0xa000) := by omega
    rw [checkedRead, if_neg hvram, if_pos hoam, sub_of_le hoam.1, hi]
    exact v.oam.fetch_of_lt i.isLt
  · intro l hvram hoam hregister
    rw [checkedRead, if_neg hvram, if_neg hoam, hregister]
    cases l with
    | backgroundColorData => exact v.backgroundColors.checkedReadData_eq
    | objectColorData => exact v.objectColors.checkedReadData_eq
    | _ => rfl

/-- They are there to be written. -/
theorem checkedWrite_eq (v : Video) {a : UInt16} {l : Location}
    (h : Location.ofAddress? a = some l) (b : UInt8) :
    v.checkedWrite a b = some (v.write l b) := by
  refine location_cases (P := fun l => v.checkedWrite a b = some (v.write l b)) h ?_ ?_ ?_
  · intro i hvram hi
    have hcell := bit_mul_add_lt v.bank _ i.isLt
    have hadd : v.bank.bit.toNat * 0x2000 + i.val < 2 ^ 32 := by omega
    have hmul : v.bank.bit.toNat * 0x2000 < 2 ^ 32 :=
      Nat.lt_of_le_of_lt (Nat.le_add_right ..) hadd
    rw [checkedWrite, if_pos hvram, sub_of_le hvram.1, hi]
    simp only [mul_of_lt hmul, add_of_lt hadd, Option.bind_eq_bind, Option.bind_some, ← val_cell,
      v.vram.store_of_lt (v.bank.cell i).isLt]
    rfl
  · intro i hoam hi
    have hvram : ¬ (0x8000 ≤ a.toNat ∧ a.toNat < 0xa000) := by omega
    rw [checkedWrite, if_neg hvram, if_pos hoam, sub_of_le hoam.1, hi, Option.bind_eq_bind,
      Option.bind_some, v.oam.store_of_lt i.isLt]
    rfl
  · intro l hvram hoam hregister
    rw [checkedWrite, if_neg hvram, if_neg hoam, hregister]
    cases l with
    | backgroundColorData =>
      simp only [v.backgroundColors.checkedWriteData_eq]
      rfl
    | objectColorData =>
      simp only [v.objectColors.checkedWriteData_eq]
      rfl
    | _ =>
      simp only [Requests.checkedRaiseIf_eq]
      rfl

/-! ## Time -/

/-- The phase that follows. Lines are counted in bytes, pictures in words of 64 bits. -/
def checkedEnterNext (v : Video) : Option (Video × Bool) := do
  match v.phase with
  | .search => return ({ v with phase := .transfer }, false)
  | .transfer =>
    let drawn ← checkedDrawLine { v with phase := .hblank, lineDrawn := true }
    return (drawn, false)
  | .hblank =>
    let line ← add 8 v.line 1
    let v := { v with dot := 0, line }
    if v.line = screenHeight then
      return ({ v with phase := .vblank, back := { v.back with shading := v.shading } }, true)
    else return ({ v with phase := .search }, false)
  | .vblank =>
    let line ← add 8 v.line 1
    let v := { v with dot := 0, line }
    if v.line = linesPerFrame then
      let frames ← add 64 v.frames 1
      let v := completeFrame { v with line := 0, windowLine := 0, phase := .search }
      return ({ v with frames }, false)
    else return (v, false)

def checkedEndPhase (v : Video) : Option (Video × Requests) := do
  let (entered, unseen) ← v.checkedEnterNext
  let updated := entered.updateStatus
  let raised ← Requests.checkedRaiseIf ∅ .vblank unseen
  let raised ← raised.checkedRaiseIf .lcdStat updated.2
  return (updated.1, raised)

/-- Lets dots pass, from the end of one phase to the end of the next. A loop that goes round more
often than `fuel` says does not end. -/
def checkedScan : Nat → Video → Requests → Nat → Option (Video × Requests)
  | _, v, raised, 0 => some (v, raised)
  | 0, _, _, _ + 1 => none
  | fuel + 1, v, raised, dots + 1 => do
    let left ← sub v.phase.boundary v.dot
    let step := min (dots + 1) left
    let dot ← add 32 v.dot step
    let rest ← sub (dots + 1) step
    let v := { v with dot }
    if v.dot = v.phase.boundary then
      let (ended, began) ← v.checkedEndPhase
      checkedScan fuel ended (raised ∪ began) rest
    else checkedScan fuel v raised rest

def checkedAdvance (v : Video) (dots : Nat) : Option (Video × Requests) :=
  let v := { v with lineDrawn := false }
  if v.control.isOn then v.checkedScan dots ∅ dots else some (v, ∅)

/-- A phase ends without overflow if the completed picture can be counted. -/
theorem checkedEnterNext_eq {v : Video} (hline : v.line < linesPerFrame)
    (hseen : v.phase = .transfer → v.line < screenHeight)
    (hframes : v.enterNext.1.frames < 2 ^ 64) : v.checkedEnterNext = some v.enterNext := by
  have hnext : v.line + 1 < 2 ^ 8 := by
    simp only [linesPerFrame] at hline
    omega
  cases hp : v.phase with
  | search =>
    rw [enterNext_search hp]
    simp only [checkedEnterNext, hp]
    rfl
  | transfer =>
    have hdrawn := checkedDrawLine_eq (v := { v with phase := .hblank, lineDrawn := true })
      (hseen hp)
    rw [enterNext_transfer hp]
    simp only [checkedEnterNext, hp, hdrawn]
    rfl
  | hblank =>
    simp only [checkedEnterNext, enterNext, hp, add_of_lt hnext, Option.bind_eq_bind,
      Option.bind_some]
    split <;> rfl
  | vblank =>
    simp only [checkedEnterNext, hp, add_of_lt hnext, Option.bind_eq_bind, Option.bind_some]
    split
    · rename_i hlast
      rw [enterNext_complete hp hlast] at hframes ⊢
      have hcount : v.frames + 1 < 2 ^ 64 := hframes
      rw [add_of_lt hcount]
      rfl
    · rename_i hlast
      rw [enterNext_vblank hp hlast, ← hp]
      rfl

theorem frames_endPhase (v : Video) : v.endPhase.1.frames = v.enterNext.1.frames := by
  rw [endPhase_fst, updateStatus_fst]

theorem checkedEndPhase_eq {v : Video} (h : v.Placed) (hon : v.control.isOn = true)
    (hframes : (Video.endPhase { v with dot := v.phase.boundary }).1.frames < 2 ^ 64) :
    checkedEndPhase { v with dot := v.phase.boundary } =
      some (Video.endPhase { v with dot := v.phase.boundary }) := by
  rw [frames_endPhase] at hframes
  have hseen : v.phase = .transfer → v.line < screenHeight := fun hp =>
    (Phase.ofPlace_eq_transfer_iff.1 ((h.phase_eq hon).symm.trans hp)).1
  unfold checkedEndPhase
  rw [checkedEnterNext_eq (v := { v with dot := v.phase.boundary }) h.line_lt hseen hframes]
  simp only [Requests.checkedRaiseIf_eq, Option.bind_eq_bind, Option.bind_some]
  rfl

theorem checkedScan_zero (fuel : Nat) (v : Video) (r : Requests) :
    checkedScan fuel v r 0 = some (v, r) := by
  cases fuel <;> rfl

/-- The last time round: the dots end within the phase. -/
theorem checkedScan_of_lt {v : Video} (r : Requests) {n : Nat} (hpos : 0 < n)
    (hn : v.dot + n < v.phase.boundary) (fuel : Nat) :
    checkedScan (fuel + 1) v r n = some ({ v with dot := v.dot + n }, r) := by
  have hboundary := v.phase.boundary_le
  simp only [dotsPerLine] at hboundary
  have hleft : v.dot ≤ v.phase.boundary := by omega
  have hstep : min n (v.phase.boundary - v.dot) = n := by omega
  have hfits : v.dot + n < 2 ^ 32 := by omega
  obtain ⟨k, rfl⟩ : ∃ k, n = k + 1 := ⟨n - 1, by omega⟩
  unfold checkedScan
  simp only [sub_of_le hleft, hstep, add_of_lt hfits, sub_of_le (Nat.le_refl (k + 1)),
    Option.bind_eq_bind, Option.bind_some, Nat.sub_self, checkedScan_zero]
  exact if_neg (Nat.ne_of_lt hn)

/-- Any other time: the phase ends. -/
theorem checkedScan_of_le {v : Video} (r : Requests) {n : Nat} (hdot : v.dot < v.phase.boundary)
    (hn : v.phase.boundary ≤ v.dot + n) (fuel : Nat) {w : Video} {s : Requests}
    (hend : checkedEndPhase { v with dot := v.phase.boundary } = some (w, s)) :
    checkedScan (fuel + 1) v r n =
      checkedScan fuel w (r ∪ s) (n - (v.phase.boundary - v.dot)) := by
  have hboundary := v.phase.boundary_le
  simp only [dotsPerLine] at hboundary
  have hstep : min n (v.phase.boundary - v.dot) = v.phase.boundary - v.dot := by omega
  have hreach : v.dot + (v.phase.boundary - v.dot) = v.phase.boundary := by omega
  have hfits : v.dot + (v.phase.boundary - v.dot) < 2 ^ 32 := by omega
  have hleft : v.phase.boundary - v.dot ≤ n := by omega
  obtain ⟨k, rfl⟩ : ∃ k, n = k + 1 := ⟨n - 1, by omega⟩
  rw [checkedScan]
  simp only [sub_of_le (Nat.le_of_lt hdot), hstep, add_of_lt hfits, sub_of_le hleft,
    Option.bind_eq_bind, Option.bind_some, hreach, if_true, hend]

/-- The loop goes round at most once for each dot. -/
theorem checkedScan_eq {v : Video} (h : v.Placed) (hon : v.control.isOn = true) (r : Requests)
    (n : Nat) : ∀ fuel, n ≤ fuel → (v.scan r n).1.frames < 2 ^ 64 →
      v.checkedScan fuel r n = some (v.scan r n) := by
  refine Placed.scan_induction (P := fun v r n => ∀ fuel, n ≤ fuel →
    (v.scan r n).1.frames < 2 ^ 64 → v.checkedScan fuel r n = some (v.scan r n)) ?_ ?_ h hon r n
  · intro v r n h hon hn fuel hfuel _
    rw [scan_of_lt r hn]
    rcases Nat.eq_zero_or_pos n with rfl | hpos
    · exact checkedScan_zero fuel v r
    · obtain ⟨k, rfl⟩ : ∃ k, fuel = k + 1 := ⟨fuel - 1, by omega⟩
      exact checkedScan_of_lt r hpos hn k
  · intro v r n h hon hn ih fuel hfuel hframes
    have hdot := h.dot_lt_boundary
    obtain ⟨k, rfl⟩ : ∃ k, fuel = k + 1 := ⟨fuel - 1, by omega⟩
    rw [scan_of_le r hdot hn] at hframes ⊢
    -- the pictures counted at the end of this phase are not more than those at the end of all
    have hended : (Video.endPhase { v with dot := v.phase.boundary }).1.Placed := h.endPhase hon rfl
    have hcount := frames_le_scan hended ((control_endPhase _).symm ▸ hon)
      (r ∪ (Video.endPhase { v with dot := v.phase.boundary }).2) (n - (v.phase.boundary - v.dot))
    rw [checkedScan_of_le r hdot hn k
      (checkedEndPhase_eq h hon (Nat.lt_of_le_of_lt hcount hframes))]
    exact ih k (by omega) hframes

/-- The loop over the phases ends and nothing in it overflows. -/
theorem checkedAdvance_eq {v : Video} (h : v.Placed) {n : Nat}
    (hframes : (v.advance n).1.frames < 2 ^ 64) : v.checkedAdvance n = some (v.advance n) := by
  cases hon : v.control.isOn with
  | false =>
    rw [advance_of_off hon]
    simp only [checkedAdvance, hon]
    rfl
  | true =>
    rw [advance_of_on hon] at hframes ⊢
    simp only [checkedAdvance, hon, if_true]
    exact checkedScan_eq h.forget hon ∅ n n (Nat.le_refl n) hframes

end Video

end GameBoy
