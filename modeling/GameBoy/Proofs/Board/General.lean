import GameBoy.Proofs.Board.Cells
import GameBoy.Proofs.Machine.Transfers

/-!
# General transfers

A general transfer copies all its blocks while the processor waits. Each block is read where the
memory unit finds it and written to the selected bank of video memory, which the source cannot be;
the bytes go to consecutive cells, the first cell of the bank following the last one.

* `Board.origin`, `Board.destination`: where a byte comes from, and the cell it goes to.
* `Board.CopiedBlocks`: some blocks were copied, and nothing else changed.
* `CopiedBlocks.next`: one more block.
* `Board.general_copies`: what a general transfer leaves.
-/

namespace GameBoy

/-! ## Addresses -/

/-- The cartridge and work RAM, which a transfer is meant to copy from. -/
def IsSource (a : UInt16) : Prop := a ≤ 0x7fff ∨ 0xa000 ≤ a ∧ a ≤ 0xfdff

instance : DecidablePred IsSource := fun _ => inferInstanceAs (Decidable (_ ∨ _ ∧ _))

theorem Location.find_source (model : Model) {a : UInt16} (h : IsSource a) :
    find model a = .cartridge a ∨ find model a = .workRam (.cell (offset8K a)) := by
  have hrange : a.toNat ≤ 0x7fff ∨ 0xa000 ≤ a.toNat ∧ a.toNat ≤ 0xfdff := by
    simpa only [IsSource, UInt16.le_iff_toNat_le, UInt16.reduceToNat] using h
  have hmemory : Video.Location.memory? a = none := by
    rw [Video.Location.memory?, dif_neg (by omega), dif_neg (by omega)]
  have hbelow : a.toNat < 0xff00 := by omega
  by_cases hlow : a.toNat < 0xc000
  · refine .inl (find_of_ofAddress ?_ rfl)
    rw [Board.ofAddress_of_lt hmemory hbelow, if_pos hlow]
  · refine .inr (find_of_ofAddress ?_ rfl)
    rw [Board.ofAddress_of_lt hmemory hbelow, if_neg hlow, if_pos (by omega)]

/-- The sprites stay as they are while time passes. -/
theorem Video.oam_advance {v : Video} (hv : v.Placed) (n : Nat) :
    (v.advance n).1.oam = v.oam := by
  refine hv.advance_keeps (P := fun w => w.oam = v.oam) (fun _ _ _ h => h) (fun w _ h => ?_) rfl n
  have hnext : w.enterNext.1.oam = w.oam := by
    unfold enterNext
    cases w.phase <;> simp only
    · split_ifs <;> rfl
    · split_ifs <;> rfl
    · rfl
  rw [endPhase_fst, updateStatus_fst]
  exact hnext.trans h

namespace Board

variable {b c : Board}

/-- Copying to video memory does not change what lies elsewhere. -/
theorem Transferred.read_source (h : Transferred b c) {a : UInt16} (ha : IsSource a) :
    c.read a = b.read a := by
  obtain ⟨vram, transfer, journal, rfl⟩ := h
  unfold read
  change readAt _ (Location.find b.model a) = _
  rcases Location.find_source b.model ha with hfind | hfind <;> rw [hfind] <;> rfl

/-- The address that byte `k` of a transfer comes from. -/
def origin (b : Board) (k : Nat) : UInt16 := b.transfer.source + UInt16.ofNat k

/-- The place in its bank that byte `k` of a transfer goes to. -/
def place (b : Board) (k : Nat) : Fin 0x2000 :=
  Fin.ofNat 0x2000 (b.transfer.target.toNat - 0x8000 + k)

/-- The cell that byte `k` of a transfer goes to. -/
def destination (b : Board) (k : Nat) : Cell := .video b.video.bank (b.place k)

theorem place_inj {j k : Nat} (hj : j < 0x2000) (hk : k < 0x2000) (h : b.place j = b.place k) :
    j = k := by
  have hval : (b.transfer.target.toNat - 0x8000 + j) % 0x2000 =
      (b.transfer.target.toNat - 0x8000 + k) % 0x2000 := congrArg Fin.val h
  omega

/-! ## Some blocks -/

/-- From `b` to `c` the next `n` blocks were copied. -/
structure CopiedBlocks (b : Board) (n : Nat) (c : Board) : Prop where
  valid : c.Valid
  frame : Transferred b c
  bank : c.video.bank = b.video.bank
  source : c.transfer.source = b.origin (0x10 * n)
  target : c.transfer.target.toNat = 0x8000 + (b.place (0x10 * n)).val
  copied : ∀ k, k < 0x10 * n → c.cell (b.destination k) = b.read (b.origin k)
  others : ∀ bank i, (∀ k, k < 0x10 * n → b.destination k ≠ .video bank i) →
    c.cell (.video bank i) = b.cell (.video bank i)

theorem CopiedBlocks.start (h : b.Valid) : CopiedBlocks b 0 b where
  valid := h
  frame := .refl b
  bank := rfl
  source := (UInt16.add_zero _).symm
  target := by
    have hrange := h.transfer.target_range
    show b.transfer.target.toNat = 0x8000 + (b.transfer.target.toNat - 0x8000 + 0x10 * 0) % 0x2000
    omega
  copied _ hk := absurd hk (Nat.not_lt_zero _)
  others _ _ _ := rfl

section Next

variable {n : Nat} (hc : CopiedBlocks b n c)

include hc

/-- Where byte `i` of the block after the first `n` comes from. -/
theorem CopiedBlocks.source_add (i : Fin 0x10) :
    c.transfer.source + UInt16.ofNat i = b.origin (0x10 * n + i) := by
  rw [hc.source, origin, origin, UInt16.ofNat_add, UInt16.add_assoc]

/-- The cell it goes to. -/
theorem CopiedBlocks.targetCell (i : Fin 0x10) :
    c.targetCell i = b.video.bank.cell (b.place (0x10 * n + i)) := by
  have haligned := (Transfer.and_low_eq_zero_iff _).1 hc.valid.transfer.target_aligned
  have htarget : c.transfer.target.toNat =
      0x8000 + (b.transfer.target.toNat - 0x8000 + 0x10 * n) % 0x2000 := hc.target
  have hoffset : offset8K (c.transfer.target + UInt16.ofNat i) = b.place (0x10 * n + i) := by
    apply Fin.ext
    show (c.transfer.target + UInt16.ofNat i).toNat % 0x2000 =
      (b.transfer.target.toNat - 0x8000 + (0x10 * n + i)) % 0x2000
    rw [Transfer.toNat_add_of_aligned hc.valid.transfer.target_aligned]
    omega
  rw [Board.targetCell, hoffset, hc.bank]

theorem CopiedBlocks.bank_copyBlock : c.copyBlock.video.bank = b.video.bank := by
  obtain ⟨vram, transfer, journal, hframe⟩ := hc.frame.copyBlock
  rw [hframe]

/-- The bytes of the block are copied. -/
theorem CopiedBlocks.cell_copyBlock (i : Fin 0x10) (hsource : IsSource (b.origin (0x10 * n + i))) :
    c.copyBlock.cell (b.destination (0x10 * n + i)) = b.read (b.origin (0x10 * n + i)) := by
  have hbyte := hc.valid.landed_copyBlock.copied i
  have hrange := hc.valid.transfer.target_add_range i
  rw [hc.source_add, hc.frame.read_source hsource, read_vram _ hrange] at hbyte
  rw [← hbyte]
  show c.copyBlock.video.vram.byte (b.video.bank.cell (b.place (0x10 * n + i))) =
    c.copyBlock.video.vram.byte (c.copyBlock.video.bank.cell (offset8K _))
  rw [← hc.targetCell i, hc.bank_copyBlock, ← hc.bank]
  rfl

/-- No other cell of video memory changes. -/
theorem CopiedBlocks.cell_copyBlock_of_ne {bank : VideoBank} {o : Fin 0x2000}
    (h : ∀ i : Fin 0x10, b.destination (0x10 * n + i) ≠ .video bank o) :
    c.copyBlock.cell (.video bank o) = c.cell (.video bank o) := by
  refine hc.valid.landed_copyBlock.others (bank.cell o) fun i hcell => h i ?_
  rw [hc.targetCell i] at hcell
  obtain ⟨rfl, rfl⟩ := VideoBank.cell_inj.1 hcell
  rfl

/-- One more block. It goes to cells that no earlier one went to, as long as there are such. -/
theorem CopiedBlocks.next (hn : 0x10 * (n + 1) ≤ 0x2000)
    (hsource : ∀ k, k < 0x10 * (n + 1) → IsSource (b.origin k)) :
    CopiedBlocks b (n + 1) c.copyBlock := by
  have hlanded := hc.valid.landed_copyBlock
  refine ⟨hc.valid.copyBlock, hc.frame.copyBlock, hc.bank_copyBlock, ?_, ?_, fun k hk => ?_,
    fun bank o hother => ?_⟩
  · rw [hlanded.source, hc.source, origin, origin, UInt16.add_assoc, Nat.mul_succ,
      UInt16.ofNat_add]
    rfl
  · have htarget : c.transfer.target.toNat =
        0x8000 + (b.transfer.target.toNat - 0x8000 + 0x10 * n) % 0x2000 := hc.target
    show _ = 0x8000 + (b.transfer.target.toNat - 0x8000 + 0x10 * (n + 1)) % 0x2000
    rw [hlanded.target]
    omega
  · rcases Nat.lt_or_ge k (0x10 * n) with hlt | hge
    · -- a byte of an earlier block stays
      rw [← hc.copied k hlt]
      refine hc.cell_copyBlock_of_ne fun i hcell => ?_
      have hsame := place_inj (by omega) (by omega) (Cell.video.inj hcell).2
      omega
    · -- a byte of this one
      obtain ⟨i, rfl⟩ : ∃ i : Fin 0x10, k = 0x10 * n + i :=
        ⟨⟨k - 0x10 * n, by omega⟩, (Nat.add_sub_cancel' hge).symm⟩
      exact hc.cell_copyBlock i (hsource _ hk)
  · rw [hc.cell_copyBlock_of_ne fun i => hother _ (by omega)]
    exact hc.others bank o fun k hk => hother k (by omega)

end Next

/-- All blocks of a transfer, one after the other. -/
theorem Valid.copiedBlocks (h : b.Valid) {n : Nat} (hn : 0x10 * n ≤ 0x2000)
    (hsource : ∀ k, k < 0x10 * n → IsSource (b.origin k)) :
    CopiedBlocks b n (Nat.repeat Board.copyBlock n b) := by
  induction n with
  | zero => exact .start h
  | succ n ih =>
    have hearlier := ih (by omega) fun k hk => hsource k (by omega)
    exact hearlier.next hn hsource

/-! ## The transfer -/

/-- Only what is copied goes to a cell as time passes. -/
theorem Valid.cell_advance (h : b.Valid) (cycles : Nat) (x : Cell) :
    (b.advance cycles).2.cell x = b.runTransfer.cell x := by
  cases x with
  | video bank i => exact congrArg (Block.byte · (bank.cell i)) (h.vram_advance cycles).1
  | sprite i =>
    have hoam : (b.advance cycles).2.video.oam = b.runTransfer.video.oam := by
      rw [advance_video, Video.oam_advance h.runTransfer.video]
    exact congrArg (Block.byte · i) hoam
  | _ => rfl

/-- Copied blocks are in their cells and change no other one. -/
theorem CopiedBlocks.cell_of_ne {n : Nat} (hc : CopiedBlocks b n c) (x : Cell)
    (hx : ∀ k, k < 0x10 * n → x ≠ b.destination k) : c.cell x = b.cell x := by
  cases x with
  | video bank i => exact hc.others bank i fun k hk => (hx k hk).symm
  | _ =>
    obtain ⟨vram, transfer, journal, hframe⟩ := hc.frame
    rw [hframe]
    rfl

/-- Whatever a program writes, the addresses of a transfer are those of blocks, and the target lies
in video memory. A general transfer from the cartridge or work RAM takes eight cycles of the normal
rate for each block, whatever other time passes. Each byte is then in its cell of the selected bank
as it was read before, the first cell following the last one; every other cell, and the memory of
the cartridge, is as it was. Both addresses have moved on by the blocks, and the control register
tells that the transfer has ended. -/
theorem general_copies {b : Board} (h : b.Reachable) :
    (∀ ws : List (UInt16 × UInt8),
      let t := (Bus.writeAll b ws).transfer
      t.source.toNat % 0x10 = 0 ∧ t.target.toNat % 0x10 = 0 ∧
        0x8000 ≤ t.target ∧ t.target ≤ 0x9ff0) ∧
    (b.model = .cgb → b.transfer.active = true → b.transfer.pace = .general →
      let n := b.transfer.remaining.toNat + 1
      (∀ k, k < 0x10 * n → IsSource (b.origin k)) →
      ∀ cycles,
        let after := (b.advance cycles).2
        (b.advance cycles).1 = cycles + 8 * n * b.speed.rate.factor ∧
        (∀ k, k < 0x10 * n →
          after.cell (.video b.video.bank (b.place k)) = b.read (b.origin k)) ∧
        (∀ x : Cell, (∀ k, k < 0x10 * n → x ≠ .video b.video.bank (b.place k)) →
          after.cell x = b.cell x) ∧
        after.cartridge.ram = b.cartridge.ram ∧
        after.transfer.source = b.origin (0x10 * n) ∧
        after.transfer.target.toNat = 0x8000 + (b.place (0x10 * n)).val ∧
        after.read 0xff55 = 0xff) := by
  constructor
  · intro ws t
    have hvalid : t.Valid := (h.writeAll ws).valid.transfer
    have haligned := (Transfer.and_low_eq_zero_iff _).1 hvalid.target_aligned
    have hrange := hvalid.target_range
    refine ⟨(Transfer.and_low_eq_zero_iff _).1 hvalid.source_aligned, haligned, ?_, ?_⟩ <;>
      simp only [UInt16.le_iff_toNat_le, UInt16.reduceToNat] <;> omega
  · intro hmodel hactive hpace n hsource cycles after
    have howes : b.transfer.Owes .general n := ⟨hactive, hpace, rfl⟩
    have hdue : b.blocksDue = n := (blocksDue_le_owed howes).2 rfl
    have hfits : 0x10 * n ≤ 0x2000 := by
      have := h.valid.transfer.remaining_lt
      omega
    have hcopied : CopiedBlocks b n b.runTransfer := by
      rw [runTransfer, hdue]
      exact h.valid.copiedBlocks hfits hsource
    have hcell : ∀ x, after.cell x = b.runTransfer.cell x := h.valid.cell_advance cycles
    refine ⟨?_, fun k hk => ?_, fun x hx => ?_, ?_, hcopied.source, hcopied.target, ?_⟩
    · rw [advance_fst, hdue]
    · rw [hcell]
      exact hcopied.copied k hk
    · rw [hcell]
      exact hcopied.cell_of_ne x hx
    · show (b.advance cycles).2.cartridge.ram = _
      rw [advance_cartridge, Cartridge.ram_advance]
    · have hended := owes_advance howes cycles
      rw [hdue, Nat.sub_self] at hended
      have hcolor : after.model = .cgb := (b.model_perform (.pass cycles)).trans hmodel
      rw [read_transferControl hcolor]
      exact hended.read.1 rfl

/-- Of two blocks that are sent to the last place in a bank, the second one goes to the first. -/
theorem general_copies_around :
    ∃ b : Board, b.Reachable ∧ b.model = .cgb ∧ b.transfer.active = true ∧
      b.transfer.pace = .general ∧
      (∀ k, k < 0x10 * (b.transfer.remaining.toNat + 1) → IsSource (b.origin k)) ∧
      (b.advance 8).1 = 24 ∧ (b.advance 8).2.cell (.video .first 0x1ff3) = b.read 0x0003 ∧
      (b.advance 8).2.cell (.video .first 0x0003) = b.read 0x0013 ∧
      (b.advance 8).2.cell (.video .second 0x0003) = b.cell (.video .second 0x0003) ∧
      (b.advance 8).2.transfer.target.toNat = 0x8010 ∧ (b.advance 8).2.read 0xff55 = 0xff := by
  obtain ⟨b, h, hmodel, htransfer, hbank, hrate⟩ : ∃ b : Board, b.Reachable ∧ b.model = .cgb ∧
      b.transfer = { target := 0x9ff0, active := true, remaining := 1 } ∧
      b.video.bank = .first ∧ b.speed.rate.factor = 1 :=
    ⟨_, (Reachable.powerUp Cartridge.load_zeroImage .cgb {}).writeAll
      [(0xff53, 0x1f), (0xff54, 0xf0), (0xff55, 0x01)], rfl, rfl, rfl, rfl⟩
  have hplace : ∀ k, b.place k = Fin.ofNat 0x2000 (0x1ff0 + k) := by
    intro k
    rw [place, htransfer]
    rfl
  have horigin : ∀ k, b.origin k = 0 + UInt16.ofNat k := by
    intro k
    rw [origin, htransfer]
  have hactive : b.transfer.active = true := by rw [htransfer]
  have hpace : b.transfer.pace = .general := by rw [htransfer]
  have hremaining : b.transfer.remaining.toNat + 1 = 2 := by rw [htransfer]; rfl
  have hsource : ∀ k, k < 0x10 * (b.transfer.remaining.toNat + 1) → IsSource (b.origin k) := by
    simp only [hremaining, horigin]
    decide
  obtain ⟨-, hgeneral⟩ := general_copies h
  obtain ⟨htime, hcopied, hothers, -, -, htarget, hcontrol⟩ :=
    hgeneral hmodel hactive hpace hsource 8
  simp only [hremaining, hbank, hrate, hplace, horigin] at htime hcopied hothers htarget
  refine ⟨b, h, hmodel, hactive, hpace, hsource, htime, hcopied 3 (by decide),
    hcopied 0x13 (by decide), hothers _ fun _ _ => nofun, htarget, hcontrol⟩

end Board

end GameBoy
