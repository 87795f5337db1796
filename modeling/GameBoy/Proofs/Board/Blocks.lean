import GameBoy.Proofs.Board.Requests

/-!
# A copied block

The sixteen bytes of a block are read and written one after the other. Both addresses are those of
blocks, so the block that is read is the one that is written or shares no cell with it: what has
been written already does not change what is still to be read.

* `foldl_invariant`: what a fold has done after `k` of its steps.
* `Board.Landed`: a block was copied from one address to the other, and nothing else.
* `Valid.landed_copyBlock`: that is what copying does.
-/

namespace GameBoy

/-- An invariant that tells how many steps a fold has taken. -/
theorem foldl_invariant {α : Type} {n : Nat} {f : α → Fin n → α} (P : Nat → α → Prop)
    (step : ∀ a (i : Fin n), P i a → P (i + 1) (f a i)) {a : α} (h : P 0 a) :
    P n (Fin.foldl n f a) := by
  induction n with
  | zero => rwa [Fin.foldl_zero]
  | succ n ih =>
    rw [Fin.foldl_succ_last]
    apply step _ (Fin.last n)
    exact ih fun a i => step a i.castSucc

/-! ## Cells -/

/-- A bank has a cell for each offset. -/
theorem VideoBank.cell_injective (bank : VideoBank) {i j : Fin 0x2000}
    (h : bank.cell i = bank.cell j) : i = j := by
  have hval := congrArg Fin.val h
  cases bank with
  | first => exact Fin.ext hval
  | second => exact Fin.ext (Nat.add_left_cancel hval)

/-- Of video memory an address reaches one offset. -/
theorem Location.offset_of_find {model : Model} {a : UInt16} {o : Fin 0x2000}
    (h : find model a = .video (.vram o)) : o = offset8K a := by
  rcases memory?_or_register? h with hmemory | hregister
  · by_cases hrange : 0x8000 ≤ a.toNat ∧ a.toNat < 0xa000
    · rw [memory?_vram hrange] at hmemory
      cases hmemory
      rfl
    · rw [Video.Location.memory?, dif_neg hrange] at hmemory
      split at hmemory <;> cases hmemory
  · repeat
      rcases ite_some_eq hregister with ⟨-, hl⟩ | hregister
      · cases hl
    cases hregister

namespace Transfer

/-- Bytes of different numbers in their blocks lie in different cells. -/
theorem offset8K_ne {a c : UInt16} (ha : a &&& 0x000f = 0) (hc : c &&& 0x000f = 0) {i j : Fin 0x10}
    (hij : i ≠ j) : offset8K (a + UInt16.ofNat i) ≠ offset8K (c + UInt16.ofNat j) := by
  intro h
  have hsame : (a + UInt16.ofNat i).toNat % 0x2000 = (c + UInt16.ofNat j).toNat % 0x2000 :=
    congrArg Fin.val h
  rw [toNat_add_of_aligned ha, toNat_add_of_aligned hc] at hsame
  have ha' := (and_low_eq_zero_iff a).1 ha
  have hc' := (and_low_eq_zero_iff c).1 hc
  apply hij
  apply Fin.ext
  omega

theorem source_afterBlock (t : Transfer) : t.afterBlock.source = t.source + 0x10 := by
  unfold afterBlock
  simp only
  split <;> rfl

theorem target_afterBlock (t : Transfer) :
    t.afterBlock.target = 0x8000 ||| ((t.target + 0x10) &&& 0x1ff0) := by
  unfold afterBlock
  simp only
  split <;> rfl

/-- The addresses of blocks in video memory follow one another, the first one after the last. -/
theorem toNat_nextTarget {t : Transfer} (h : t.Valid) :
    (0x8000 ||| ((t.target + 0x10) &&& 0x1ff0)).toNat =
      0x8000 + (t.target.toNat - 0x8000 + 0x10) % 0x2000 := by
  have hrange := h.target_range
  have haligned := (and_low_eq_zero_iff t.target).1 h.target_aligned
  have hsum : (t.target + 0x10).toNat = t.target.toNat + 0x10 := by
    rw [UInt16.toNat_add]
    change (t.target.toNat + 16) % 65536 = _
    omega
  have hlow : (t.target.toNat + 0x10) &&& 0x000f = 0 := by
    refine (Nat.and_two_pow_sub_one_eq_mod _ 4).trans ?_
    omega
  have hmask : (t.target.toNat + 0x10) &&& 0x1ff0 = (t.target.toNat + 0x10) % 0x2000 := by
    calc (t.target.toNat + 0x10) &&& 0x1ff0
      _ = (t.target.toNat + 0x10) &&& 0x1ff0 ||| (t.target.toNat + 0x10) &&& 0x000f := by
        rw [hlow, Nat.or_zero]
      _ = (t.target.toNat + 0x10) &&& (2 ^ 13 - 1) := (Nat.and_or_distrib_left ..).symm
      _ = (t.target.toNat + 0x10) % 0x2000 := Nat.and_two_pow_sub_one_eq_mod _ 13
  have hor := Nat.two_pow_add_eq_or_of_lt (i := 15)
    (show (t.target.toNat + 0x10) % 0x2000 < 2 ^ 15 by omega) 1
  rw [UInt16.toNat_or, UInt16.toNat_and, hsum]
  change 2 ^ 15 * 1 ||| (t.target.toNat + 0x10) &&& 0x1ff0 = _
  rw [hmask, ← hor]
  omega

end Transfer

namespace Board

variable {b c : Board}

/-- What a program reads at an address of video memory. -/
theorem read_vram (b : Board) {a : UInt16} (h : 0x8000 ≤ a.toNat ∧ a.toNat < 0xa000) :
    b.read a = b.video.vramAt b.video.bank a := by
  rw [read, Location.find_vram b.model h]
  rfl

/-- The cell of video memory that byte `i` of the next block goes to. -/
def targetCell (b : Board) (i : Fin 0x10) : Fin 0x4000 :=
  b.video.bank.cell (offset8K (b.transfer.target + UInt16.ofNat i))

theorem Valid.targetCell_ne (h : b.Valid) {i j : Fin 0x10} (hij : i ≠ j) :
    b.targetCell i ≠ b.targetCell j := by
  intro hcell
  have haligned := h.transfer.target_aligned
  exact Transfer.offset8K_ne haligned haligned hij (b.video.bank.cell_injective hcell)

/-- A byte is copied to its cell and nowhere else. -/
theorem vram_copyBlockByte (b : Board) (i : Fin 0x10) (j : Fin 0x4000) :
    (b.copyBlockByte i).video.vram[j] =
      if b.targetCell i = j then b.read (b.transfer.source + UInt16.ofNat i)
      else b.video.vram[j] := by
  simp only [Fin.ext_iff]
  exact Block.getElem_set b.video.vram (b.targetCell i) j _ (Fin.isLt _) (Fin.isLt _)

/-- What is read depends on video memory at one of its addresses only, and there on one cell. -/
theorem read_withVram (b : Board) (vram : Block 0x4000) {a : UInt16}
    (h : vram[b.video.bank.cell (offset8K a)] =
      b.video.vram[b.video.bank.cell (offset8K a)]) :
    read { b with video := { b.video with vram } } a = b.read a := by
  unfold read
  have hfind : ∀ o, Location.find b.model a = .video (.vram o) → o = offset8K a :=
    fun o => Location.offset_of_find
  change readAt _ (Location.find b.model a) = _
  generalize Location.find b.model a = l at hfind
  cases l with
  | video l =>
    cases l with
    | vram o =>
      obtain rfl := hfind o rfl
      exact h
    | _ => rfl
  | _ => rfl

/-! ## The bytes of a block -/

/-- In `c` the first `k` bytes of the next block of `b` are copied. -/
structure CopiedBytes (b : Board) (k : Nat) (c : Board) : Prop where
  frame : ∃ vram, c = { b with video := { b.video with vram } }
  copied : ∀ i : Fin 0x10, i.val < k →
    c.video.vram[b.targetCell i] = b.read (b.transfer.source + UInt16.ofNat i)
  others : ∀ j : Fin 0x4000, (∀ i : Fin 0x10, i.val < k → j ≠ b.targetCell i) →
    c.video.vram[j] = b.video.vram[j]

theorem CopiedBytes.start (b : Board) : CopiedBytes b 0 b where
  frame := ⟨b.video.vram, rfl⟩
  copied _ hi := absurd hi (Nat.not_lt_zero _)
  others _ _ := rfl

/-- What is still to be read has not been written. -/
theorem CopiedBytes.read_source (h : b.Valid) {i : Fin 0x10} (hc : CopiedBytes b i c) :
    c.read (b.transfer.source + UInt16.ofNat i) =
      b.read (b.transfer.source + UInt16.ofNat i) := by
  obtain ⟨vram, hframe⟩ := hc.frame
  have hother := hc.others (b.video.bank.cell (offset8K (b.transfer.source + UInt16.ofNat i))) <| by
    intro j hj hcell
    have hij : i ≠ j := fun hij => Nat.lt_irrefl _ (hij ▸ hj)
    exact Transfer.offset8K_ne h.transfer.source_aligned h.transfer.target_aligned hij
      (b.video.bank.cell_injective hcell)
  rw [hframe] at hother ⊢
  exact b.read_withVram vram hother

/-- One more byte. -/
theorem CopiedBytes.next (h : b.Valid) (i : Fin 0x10) (hc : CopiedBytes b i c) :
    CopiedBytes b (i + 1) (c.copyBlockByte i) := by
  obtain ⟨vram, hframe⟩ := hc.frame
  have hcell : ∀ j : Fin 0x4000, (c.copyBlockByte i).video.vram[j] =
      if b.targetCell i = j then b.read (b.transfer.source + UInt16.ofNat i)
      else c.video.vram[j] := by
    intro j
    have htarget : c.targetCell i = b.targetCell i := by rw [hframe]; rfl
    have hsource : c.transfer.source = b.transfer.source := by rw [hframe]
    rw [vram_copyBlockByte, htarget, hsource, hc.read_source h]
  constructor
  · refine ⟨(c.copyBlockByte i).video.vram, ?_⟩
    rw [hframe]
    rfl
  · intro j hj
    rw [hcell]
    by_cases hij : i = j
    · rw [if_pos (congrArg b.targetCell hij), hij]
    · rw [if_neg (h.targetCell_ne hij)]
      apply hc.copied
      have := Fin.val_ne_of_ne hij
      omega
  · intro j hj
    rw [hcell, if_neg (fun hsame => hj i (Nat.lt_succ_self _) hsame.symm)]
    exact hc.others j fun k hk => hj k (Nat.lt_succ_of_lt hk)

/-! ## The block -/

/-- From `b` to `c` the next block was copied to video memory, both addresses moved on by a block,
and the rest of video memory stayed. -/
structure Landed (b c : Board) : Prop where
  copied : ∀ i : Fin 0x10,
    c.read (b.transfer.target + UInt16.ofNat i) = b.read (b.transfer.source + UInt16.ofNat i)
  others : ∀ j : Fin 0x4000, (∀ i, j ≠ b.targetCell i) → c.video.vram[j] = b.video.vram[j]
  source : c.transfer.source = b.transfer.source + 0x10
  target : c.transfer.target.toNat = 0x8000 + (b.transfer.target.toNat - 0x8000 + 0x10) % 0x2000

/-- Only video memory, its bank and the transfer unit matter. -/
theorem Landed.congr {d : Board} (h : Landed b c) (hvalid : b.Valid)
    (hvram : d.video.vram = c.video.vram) (hbank : d.video.bank = c.video.bank)
    (htransfer : d.transfer = c.transfer) : Landed b d where
  copied i := by
    have hrange := hvalid.transfer.target_add_range i
    rw [← h.copied i, read_vram d hrange, read_vram c hrange, hbank, Video.vramAt, Video.vramAt,
      hvram]
  others j hj := by rw [hvram, h.others j hj]
  source := by rw [htransfer, h.source]
  target := by rw [htransfer, h.target]

/-- A block is copied whole, and nothing else is. -/
theorem Valid.landed_copyBlock (h : b.Valid) : Landed b b.copyBlock := by
  have hbytes : CopiedBytes b 0x10 (Fin.foldl 0x10 Board.copyBlockByte b) :=
    foldl_invariant (CopiedBytes b) (fun _ i hc => hc.next h i) (.start b)
  unfold Board.copyBlock
  generalize Fin.foldl 0x10 Board.copyBlockByte b = c at hbytes
  obtain ⟨vram, hframe⟩ := hbytes.frame
  have htransfer : c.transfer = b.transfer := by rw [hframe]
  constructor
  · intro i
    rw [read_vram _ (h.transfer.target_add_range i), ← hbytes.copied i i.isLt]
    change c.video.vramAt c.video.bank _ = _
    have hbank : c.video.bank = b.video.bank := by rw [hframe]
    rw [hbank]
    rfl
  · intro j hj
    exact hbytes.others j fun i _ => hj i
  · change c.transfer.afterBlock.source = _
    rw [htransfer, Transfer.source_afterBlock]
  · change c.transfer.afterBlock.target.toNat = _
    rw [htransfer, Transfer.target_afterBlock, Transfer.toNat_nextTarget h.transfer]

end Board

end GameBoy
