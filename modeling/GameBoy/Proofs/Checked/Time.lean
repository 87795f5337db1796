import GameBoy.Proofs.Checked.Board

/-!
# The passing of time never stops the board

Blocks go to video memory through the display's own addresses, and the times of a stretch are words
of 32 bits.

* `Board.checkedCopyBlock_eq`: the target of a block lies in video memory.
* `Board.checkedAdvance_eq`: time passes on the board without overflow.
-/

namespace GameBoy

open Checked

/-! ## The target of a block -/

namespace Transfer

/-- The sixteen addresses of a block lie in video memory. -/
theorem Valid.ofAddress?_target {t : Transfer} (h : t.Valid) (i : Fin 0x10) :
    Video.Location.ofAddress? (t.target + UInt16.ofNat i) =
      some (.vram (offset8K (t.target + UInt16.ofNat i))) := by
  rw [Video.Location.ofAddress?, Location.memory?_vram (h.target_add_range i)]
  rfl

end Transfer

namespace Board

/-! ## Transfers -/

/-- Copies byte `i` of the next block. Addresses may wrap around. -/
def checkedCopyBlockByte (b : Board) (i : Fin 0x10) : Option Board := do
  let v ← b.checkedRead (b.transfer.source + UInt16.ofNat i)
  let (video, raised) ← b.video.checkedWrite (b.transfer.target + UInt16.ofNat i) v
  return { b with video, requests := b.requests ∪ raised }

def checkedCopyBlock (b : Board) : Option Board := do
  let b ← Fin.foldlM 0x10 checkedCopyBlockByte b
  let b := b.report b.transfer.blockReport?
  let transfer ← b.transfer.checkedAfterBlock
  return { b with transfer }

/-- The number of blocks that are copied now. -/
def checkedBlocksDue (b : Board) : Option Nat := do
  if b.transfer.active then
    match b.transfer.pace with
    | .general => add 32 b.transfer.remaining.toNat 1
    | .hblank => return if b.video.lineDrawn && b.video.line < screenHeight then 1 else 0
  else return 0

theorem checkedCopyBlockByte_eq {b : Board} (h : b.Valid) (i : Fin 0x10) :
    b.checkedCopyBlockByte i = some (b.copyBlockByte i) := by
  unfold checkedCopyBlockByte copyBlockByte
  simp only [checkedRead_eq h, Option.bind_eq_bind, Option.bind_some,
    b.video.checkedWrite_eq (h.transfer.ofAddress?_target i)]
  exact congrArg some (b.withVideo_of_empty _)

/-- The target of a block lies in video memory. -/
theorem checkedCopyBlock_eq {b : Board} (h : b.Valid) : b.checkedCopyBlock = some b.copyBlock := by
  have hcopied := foldlM_eq (P := Valid) (f := copyBlockByte)
    (fun _ i hb => checkedCopyBlockByte_eq hb i) (fun _ i hb => hb.copyBlockByte i) h
  unfold checkedCopyBlock copyBlock
  rw [hcopied.1]
  generalize Fin.foldl 0x10 copyBlockByte b = copied
  simp only [Option.bind_eq_bind, Option.bind_some, Transfer.checkedAfterBlock_eq]
  rfl

theorem checkedBlocksDue_eq (b : Board) : b.checkedBlocksDue = some b.blocksDue := by
  have hremaining := b.transfer.remaining.toNat_lt
  have hfits : b.transfer.remaining.toNat + 1 < 2 ^ 32 := by omega
  unfold checkedBlocksDue blocksDue
  cases b.transfer.pace with
  | general =>
    split
    · exact add_of_lt hfits
    · rfl
  | hblank => split <;> rfl

/-! ## Time -/

def checkedAdvanceTimer (b : Board) (cycles : Nat) : Option Board := do
  let (timer, raised) ← b.timer.checkedAdvance cycles
  let requests ← b.requests.checkedRaiseIf .timer raised
  return { b with timer, requests }

def checkedAdvanceVideo (b : Board) (dots : Nat) : Option Board := do
  let (video, raised) ← b.video.checkedAdvance dots
  return { b with video, requests := b.requests ∪ raised }

def checkedAdvanceCartridge (b : Board) (cycles : Nat) : Option Board := do
  let cartridge ← b.cartridge.checkedAdvance cycles
  return { b with cartridge }

/-- Lets the timer run for `total` cycles of the processor, the display and the cartridge for
`normal` cycles of the normal rate. -/
def checkedAdvanceDevices (b : Board) (total normal : Nat) : Option Board := do
  let b ← b.checkedAdvanceTimer total
  let b ← b.checkedAdvanceVideo normal
  b.checkedAdvanceCartridge normal

/-- Lets `cycles` of the processor pass, and the time that copying takes. -/
def checkedAdvance (b : Board) (cycles : Nat) : Option (Nat × Board) := do
  let factor := b.speed.rate.factor
  let blocks ← b.checkedBlocksDue
  let b ← repeated checkedCopyBlock blocks b
  let copying ← mul 32 cyclesPerBlock blocks
  let waiting ← mul 32 copying factor
  let total ← add 32 cycles waiting
  let own ← div cycles factor
  let normal ← add 32 own copying
  let b ← b.checkedAdvanceDevices total normal
  return (total, b)

theorem checkedAdvanceTimer_eq {b : Board} (h : b.Valid) {n : Nat} (hfits : n + 1024 < 2 ^ 32) :
    b.checkedAdvanceTimer n = some (b.advanceTimer n) := by
  unfold checkedAdvanceTimer
  simp only [Timer.checkedAdvance_eq h.timer hfits, Requests.checkedRaiseIf_eq,
    Option.bind_eq_bind, Option.bind_some]
  rfl

theorem checkedAdvanceVideo_eq {b : Board} (h : b.Valid) {n : Nat}
    (hframes : (b.video.advance n).1.frames < 2 ^ 64) :
    b.checkedAdvanceVideo n = some (b.advanceVideo n) := by
  unfold checkedAdvanceVideo
  rw [Video.checkedAdvance_eq h.video hframes]
  rfl

theorem checkedAdvanceCartridge_eq {b : Board} (h : b.Valid) {n : Nat}
    (hfits : n + Cartridge.cyclesPerSecond < 2 ^ 32) :
    b.checkedAdvanceCartridge n = some (b.advanceCartridge n) := by
  unfold checkedAdvanceCartridge
  rw [Cartridge.checkedAdvance_eq h.cartridge hfits]
  rfl

theorem checkedAdvanceDevices_eq {b : Board} (h : b.Valid) {total normal : Nat}
    (htotal : total + 1024 < 2 ^ 32) (hnormal : normal + Cartridge.cyclesPerSecond < 2 ^ 32)
    (hframes : (b.video.advance normal).1.frames < 2 ^ 64) :
    b.checkedAdvanceDevices total normal =
      some (((b.advanceTimer total).advanceVideo normal).advanceCartridge normal) := by
  have htimer := h.advanceTimer total
  have hvideo := htimer.advanceVideo normal
  unfold checkedAdvanceDevices
  rw [checkedAdvanceTimer_eq h htotal, Option.bind_eq_bind, Option.bind_some,
    checkedAdvanceVideo_eq htimer hframes, Option.bind_some]
  exact checkedAdvanceCartridge_eq hvideo hnormal

/-- Time passes without overflow: what copying adds is little. -/
theorem checkedAdvance_eq {b : Board} (h : b.Valid) {cycles : Nat} (hcycles : cycles < 2 ^ 31)
    (hframes : (b.advance cycles).2.video.frames < 2 ^ 64) :
    b.checkedAdvance cycles = some (b.advance cycles) := by
  have hblocks := h.blocksDue_le
  have hfactor : b.speed.rate.factor = 1 ∨ b.speed.rate.factor = 2 := by
    cases b.speed.rate with
    | normal => exact .inl rfl
    | double => exact .inr rfl
  have hran := repeated_eq (P := Valid) (f := copyBlock) (fun _ hb => checkedCopyBlock_eq hb)
    (fun _ hb => hb.copyBlock) b.blocksDue h
  have hcopying : cyclesPerBlock * b.blocksDue ≤ 1024 := by
    simp only [cyclesPerBlock]
    omega
  have hwaiting : cyclesPerBlock * b.blocksDue * b.speed.rate.factor ≤ 2048 := by
    rcases hfactor with hf | hf <;> rw [hf] <;> omega
  have hown : cycles / b.speed.rate.factor ≤ cycles := Nat.div_le_self ..
  have hmul : cyclesPerBlock * b.blocksDue < 2 ^ 32 := by omega
  have hstall : cyclesPerBlock * b.blocksDue * b.speed.rate.factor < 2 ^ 32 := by omega
  have htotal : cycles + cyclesPerBlock * b.blocksDue * b.speed.rate.factor + 1024 < 2 ^ 32 := by
    omega
  have hnormal : cycles / b.speed.rate.factor + cyclesPerBlock * b.blocksDue +
      Cartridge.cyclesPerSecond < 2 ^ 32 := by
    simp only [Cartridge.cyclesPerSecond]
    omega
  unfold checkedAdvance
  simp only [checkedBlocksDue_eq, hran.1, mul_of_lt hmul, mul_of_lt hstall,
    add_of_lt (Nat.lt_of_le_of_lt (Nat.le_add_right ..) htotal),
    div_of_ne (Nat.ne_of_gt b.speed.rate.factor_pos),
    add_of_lt (Nat.lt_of_le_of_lt (Nat.le_add_right ..) hnormal), Option.bind_eq_bind,
    Option.bind_some]
  rw [checkedAdvanceDevices_eq hran.2 htotal hnormal hframes]
  rfl

end Board

end GameBoy
