import GameBoy.Proofs.Board.Blocks
import GameBoy.Proofs.Board.Monochrome
import GameBoy.Proofs.Cartridge.History
import GameBoy.Proofs.Checked.Board
import Mathlib.Data.List.Induction

/-!
# The cells behind the addresses

Memories, latches and the enabled interrupts are one memory of cells. Which cell lies behind an
address depends on the selected banks, and the writes so far tell those, so they tell every byte.

* `Cell`, `Board.cell`: the cells, and what is in them.
* `Banks`, `Banks.after`: the selected banks, and those that some writes leave selected.
* `Banks.cellAt?`: the cell behind an address.
* `Board.cell_write`: a write changes the cell behind its address and no other.
* `Cell.stored?`: the last byte that went to a cell; `Reachable.cells_writeAll`: it is there.
-/

namespace GameBoy

/-- A cell: in which memory it is, in which of its banks, and where in that. -/
inductive Cell
  | video (bank : VideoBank) (offset : Fin 0x2000)
  | work (bank : Fin 8) (offset : Fin 0x1000)
  | sprite (offset : Fin 0xa0)
  | latch (offset : Fin 0x40)
  | high (offset : Fin 0x7f)
  | enabled
deriving DecidableEq

/-- The banks that are selected. -/
structure Banks where
  video : VideoBank
  work : Fin 8
deriving DecidableEq

namespace Banks

section Bounds

variable {a : UInt16}

theorem fixed_lt : 0 < 8 := by decide

theorem upper_lt (offset : Fin 0x2000) : offset.val - 0x1000 < 0x1000 := by omega

theorem sprite_lt (h : 0xfe00 ≤ a.toNat ∧ a.toNat < 0xfea0) : a.toNat - 0xfe00 < 0xa0 := by omega

theorem latch_lt (h : a.toNat = 0xff01 ∨ a.toNat = 0xff02 ∨ 0xff10 ≤ a.toNat ∧ a.toNat < 0xff40) :
    a.toNat - 0xff00 < 0x40 := by
  omega

theorem high_lt (h : 0xff80 ≤ a.toNat ∧ a.toNat < 0xffff) : a.toNat - 0xff80 < 0x7f := by omega

end Bounds

/-- The bank of work RAM that a byte names: bank 1 in place of bank 0. -/
def ofByte (v : UInt8) : Fin 8 := ⟨max (v.toNat % 8) 1, WorkRam.bankNumber_lt v⟩

/-- The banks that some writes, the last one first, leave selected. A monochrome console has no
choice. -/
def after (model : Model) (start : Banks) (h : History) : Banks :=
  match model with
  | .dmg => { video := .first, work := ofByte 0x01 }
  | .cgb => {
      video := ((h.find? (·.1 = 0xff4f)).map fun w => .ofBit (w.2 &&& 0x01 != 0)).getD start.video
      work := ((h.find? (·.1 = 0xff70)).map fun w => ofByte w.2).getD start.work }

/-- The cell at an offset in the window of work RAM, whose lower half always shows bank 0. -/
def workCell (s : Banks) (offset : Fin 0x2000) : Cell :=
  if h : offset.val < 0x1000 then .work ⟨0, fixed_lt⟩ ⟨offset, h⟩
  else .work s.work ⟨offset - 0x1000, upper_lt offset⟩

/-- The cell behind an address. The window of work RAM is seen again 8 KiB above. -/
def cellAt? (s : Banks) (a : UInt16) : Option Cell :=
  if 0x8000 ≤ a.toNat ∧ a.toNat < 0xa000 then some (.video s.video (offset8K a))
  else if 0xc000 ≤ a.toNat ∧ a.toNat < 0xfe00 then some (s.workCell (offset8K a))
  else if h : 0xfe00 ≤ a.toNat ∧ a.toNat < 0xfea0 then
    some (.sprite ⟨a.toNat - 0xfe00, sprite_lt h⟩)
  else if h : a.toNat = 0xff01 ∨ a.toNat = 0xff02 ∨ 0xff10 ≤ a.toNat ∧ a.toNat < 0xff40 then
    some (.latch ⟨a.toNat - 0xff00, latch_lt h⟩)
  else if h : 0xff80 ≤ a.toNat ∧ a.toNat < 0xffff then some (.high ⟨a.toNat - 0xff80, high_lt h⟩)
  else if a.toNat = 0xffff then some .enabled
  else none

end Banks

/-- There is a cell behind each address of the memories and latches. -/
theorem Banks.cellAt?_of_range (s : Banks) {a : UInt16}
    (h : 0x8000 ≤ a ∧ a ≤ 0x9fff ∨ 0xc000 ≤ a ∧ a ≤ 0xfe9f ∨ a = 0xff01 ∨ a = 0xff02 ∨
      0xff10 ≤ a ∧ a ≤ 0xff3f ∨ 0xff80 ≤ a) : ∃ c, s.cellAt? a = some c := by
  simp only [UInt16.le_iff_toNat_le, ← UInt16.toNat_inj, UInt16.reduceToNat] at h
  have hlt := a.toNat_lt
  unfold cellAt?
  split_ifs <;> first
    | exact ⟨_, rfl⟩
    | omega

/-- Work RAM is seen again 8 KiB above. -/
theorem Banks.cellAt?_echo (s : Banks) {a : UInt16} (h : 0xe000 ≤ a ∧ a ≤ 0xfdff) :
    s.cellAt? a = s.cellAt? (a - 0x2000) := by
  simp only [UInt16.le_iff_toNat_le, UInt16.reduceToNat] at h
  have hbelow : (a - 0x2000).toNat = a.toNat - 0x2000 :=
    UInt16.toNat_sub_of_le _ _ (UInt16.le_iff_toNat_le.2 (Nat.le_trans (by decide) h.1))
  have hoffset : offset8K (a - 0x2000) = offset8K a := by
    apply Fin.ext
    show (a - 0x2000).toNat % 0x2000 = a.toNat % 0x2000
    omega
  unfold cellAt?
  rw [if_neg (by omega), if_pos (by omega), if_neg (by omega), if_pos (by omega), hoffset]

/-- The last byte that some writes, the last one first, put in a cell. -/
def Cell.stored? (model : Model) (start : Banks) (c : Cell) : History → Option UInt8
  | [] => none
  | w :: h =>
    if (Banks.after model start h).cellAt? w.1 = some c then some w.2 else stored? model start c h

/-! ## The map of memory -/

namespace Location

/-- The cell at a location. -/
def cell? (s : Banks) : Location → Option Cell
  | .video (.vram offset) => some (.video s.video offset)
  | .video (.oam offset) => some (.sprite offset)
  | .workRam (.cell offset) => some (s.workCell offset)
  | .latch offset => some (.latch offset)
  | .highRam offset => some (.high offset)
  | .enabled => some .enabled
  | _ => none

/-- No cell is only in the colour console. -/
theorem cell?_find (s : Banks) (model : Model) (a : UInt16) :
    (find model a).cell? s = (ofAddress a).cell? s := by
  have hcolor : ∀ l : Location, l.colorOnly = true → l.cell? s = none := by
    intro l hl
    cases l with
    | video l => cases l <;> first | rfl | cases hl
    | workRam l => cases l <;> first | rfl | cases hl
    | speed | transfer => rfl
    | _ => cases hl
  unfold find
  simp only
  split
  · rename_i hnone
    exact (hcolor _ (Bool.and_eq_true_iff.1 hnone).1).symm
  · rfl

theorem cell?_register (s : Banks) {a : UInt16} (h : ¬ (a.toNat = 0xff01 ∨ a.toNat = 0xff02 ∨
    0xff10 ≤ a.toNat ∧ a.toNat < 0xff40)) : (register a).cell? s = none := by
  unfold register
  rw [dif_neg h]
  split_ifs <;> first | rfl | skip
  split
  · rfl
  · split
    · rfl
    · split
      · rename_i l hl
        repeat
          rcases ite_some_eq hl with ⟨-, rfl⟩ | hl
          · rfl
        cases hl
      · rfl

/-- In the last page are the registers, and above them memory and the enabled interrupts. -/
theorem ofAddress_of_ge {a : UInt16} (h : 0xff00 ≤ a.toNat) :
    ofAddress a =
      if a.toNat < 0xff80 then register a
      else if h : 0xff80 ≤ a.toNat ∧ a.toNat < 0xffff then
        .highRam ⟨a.toNat - 0xff80, Banks.high_lt h⟩
      else .enabled := by
  have hmemory : Video.Location.memory? a = none := by
    rw [Video.Location.memory?, dif_neg (by omega), dif_neg (by omega)]
  have hbelow : ∀ c : UInt16, c.toNat ≤ 0xff00 → ¬ a < c := fun c hc hac =>
    Nat.not_lt.2 (Nat.le_trans hc h) (UInt16.lt_iff_toNat_lt.1 hac)
  have hpage : a < 0xff80 ↔ a.toNat < 0xff80 := UInt16.lt_iff_toNat_lt
  rw [ofAddress, hmemory]
  simp only [if_neg (hbelow 0xc000 (by decide)), if_neg (hbelow 0xfe00 (by decide)),
    if_neg (hbelow 0xff00 (by decide)), hpage]

/-- The cell behind an address is the one at its location. -/
theorem cellAt?_eq (s : Banks) (model : Model) (a : UInt16) :
    s.cellAt? a = (find model a).cell? s := by
  rw [cell?_find]
  unfold Banks.cellAt?
  -- below the last page are the memories, in it the registers and what lies above them
  rcases Nat.lt_or_ge a.toNat 0xff00 with h | h
  · by_cases hvideo : 0x8000 ≤ a.toNat ∧ a.toNat < 0xa000
    · rw [if_pos hvideo, ofAddress, memory?_vram hvideo]
      rfl
    by_cases hsprite : 0xfe00 ≤ a.toNat ∧ a.toNat < 0xfea0
    · rw [if_neg hvideo, if_neg (by omega), dif_pos hsprite, ofAddress, Video.Location.memory?,
        dif_neg hvideo, dif_pos hsprite]
      rfl
    have hmemory : Video.Location.memory? a = none := by
      rw [Video.Location.memory?, dif_neg hvideo, dif_neg hsprite]
    rw [if_neg hvideo, Board.ofAddress_of_lt hmemory h]
    by_cases hwork : 0xc000 ≤ a.toNat ∧ a.toNat < 0xfe00
    · rw [if_pos hwork, if_neg (Nat.not_lt.2 hwork.1), if_pos hwork.2]
      rfl
    · rw [if_neg hwork, dif_neg hsprite, dif_neg (by omega), dif_neg (by omega), if_neg (by omega)]
      split_ifs <;> first | rfl | omega
  · rw [if_neg (by omega), if_neg (by omega), dif_neg (by omega), ofAddress_of_ge h]
    by_cases hpage : a.toNat < 0xff80
    · rw [if_pos hpage]
      by_cases hlatch : a.toNat = 0xff01 ∨ a.toNat = 0xff02 ∨ 0xff10 ≤ a.toNat ∧ a.toNat < 0xff40
      · have hbuttons : a ≠ 0xff00 := by
          rintro rfl
          revert hlatch
          decide
        rw [dif_pos hlatch, register, if_neg hbuttons, dif_pos hlatch]
        rfl
      · rw [dif_neg hlatch, dif_neg (by omega), if_neg (by omega), cell?_register s hlatch]
    · have hlt := a.toNat_lt
      rw [if_neg hpage, dif_neg (by omega)]
      by_cases hhigh : 0xff80 ≤ a.toNat ∧ a.toNat < 0xffff
      · rw [dif_pos hhigh, dif_pos hhigh]
        rfl
      · rw [dif_neg hhigh, dif_neg hhigh, if_pos (by omega)]
        rfl

/-- The address of a register that selects a bank, or copies. -/
def address? : Location → Option UInt16
  | .video .vramBank => some 0xff4f
  | .workRam .bank => some 0xff70
  | .spriteCopy => some 0xff46
  | _ => none

/-- None of them is found at another address. -/
theorem eq_address {model : Model} {a c : UInt16} (h : (find model a).address? = some c) :
    a = c := by
  have hlies : LiesAt a (find model a) := .of_find rfl
  generalize find model a = l at h hlies
  cases hlies with
  | memory found =>
    unfold Video.Location.memory? at found
    split_ifs at found <;> cases found <;> cases h
  | register found =>
    repeat
      rcases ite_some_eq found with ⟨ha, rfl⟩ | found
      · first
        | (cases h; exact ha)
        | cases h
    cases found
  | spriteCopy address | workBank address =>
    cases h
    exact address
  | _ => cases h

end Location

/-! ## Blocks -/

namespace Block

variable {n : Nat}

/-- The byte in a cell. -/
def byte (m : Block n) (i : Fin n) : UInt8 := m.get i i.isLt

theorem byte_set_self (m : Block n) {i : Fin n} (v : UInt8) : (m.set i v).byte i = v :=
  (m.getElem_set i i v i.isLt i.isLt).trans (if_pos rfl)

theorem byte_set_of_ne (m : Block n) {i j : Fin n} (v : UInt8) (h : i ≠ j) :
    (m.set i v).byte j = m.byte j :=
  (m.getElem_set i j v i.isLt j.isLt).trans (if_neg fun hval => h (Fin.ext hval))

end Block

/-! ## The cells of the display -/

namespace Video

theorem memory_setControl (v : Video) (b : UInt8) :
    (v.setControl b).1.vram = v.vram ∧ (v.setControl b).1.oam = v.oam ∧
      (v.setControl b).1.bank = v.bank := by
  rcases v.setControl_cases b with ⟨-, hset⟩ | ⟨-, -, hset⟩ | ⟨-, -, hset⟩
  · rw [hset]
    exact ⟨rfl, rfl, rfl⟩
  · rw [hset, updateStatus_fst]
    exact ⟨rfl, rfl, rfl⟩
  · rw [hset]
    exact ⟨rfl, rfl, rfl⟩

/-- A write to a register leaves the memories of the display, and a write to another one than that
of the bank leaves the bank. -/
theorem memory_write (v : Video) {l : Location} (hvram : ∀ offset, l ≠ .vram offset)
    (hoam : ∀ offset, l ≠ .oam offset) (b : UInt8) :
    (v.write l b).1.vram = v.vram ∧ (v.write l b).1.oam = v.oam := by
  cases l with
  | vram offset => exact absurd rfl (hvram offset)
  | oam offset => exact absurd rfl (hoam offset)
  | control => exact ⟨(v.memory_setControl b).1, (v.memory_setControl b).2.1⟩
  | status | lineCompare =>
    show (updateStatus _).1.vram = v.vram ∧ (updateStatus _).1.oam = v.oam
    rw [updateStatus_fst]
    exact ⟨rfl, rfl⟩
  | _ => exact ⟨rfl, rfl⟩

theorem bank_write (v : Video) {l : Location} (hl : l ≠ .vramBank) (b : UInt8) :
    (v.write l b).1.bank = v.bank := by
  cases l with
  | vramBank => exact absurd rfl hl
  | control => exact (v.memory_setControl b).2.2
  | status | lineCompare =>
    show (updateStatus _).1.bank = v.bank
    rw [updateStatus_fst]
  | _ => rfl

end Video

/-- Cells of different banks, or at different places, have different numbers. -/
theorem VideoBank.cell_inj {b c : VideoBank} {i j : Fin 0x2000} :
    b.cell i = c.cell j ↔ b = c ∧ i = j := by
  cases b <;> cases c <;> simp [VideoBank.cell, Fin.ext_iff] <;> omega

/-! ## The cells of the board -/

/-- The number of a cell of work RAM. -/
def WorkRam.number (bank : Fin 8) (i : Fin 0x1000) : Fin 0x8000 := ⟨0x1000 * bank + i, by omega⟩

namespace Board

variable {b : Board}

/-- What is in a cell. -/
def cell (b : Board) : Cell → UInt8
  | .video bank offset => b.video.vram.byte (bank.cell offset)
  | .work bank offset => b.workRam.cells.byte (WorkRam.number bank offset)
  | .sprite offset => b.video.oam.byte offset
  | .latch offset => b.latches.byte offset
  | .high offset => b.highRam.byte offset
  | .enabled => b.enabled

/-- The selected banks. -/
def banks (b : Board) : Banks := { video := b.video.bank, work := b.workRam.bank }

/-- The cell of work RAM at an offset in the window has the number that its bank gives it. -/
theorem workCell_eq_iff (b : Board) (offset : Fin 0x2000) (bank : Fin 8) (i : Fin 0x1000) :
    b.banks.workCell offset = .work bank i ↔ b.workRam.cell offset = WorkRam.number bank i := by
  have hbank : b.banks.work.val = b.workRam.bank.val := rfl
  unfold Banks.workCell WorkRam.cell WorkRam.number
  split <;> simp only [Cell.work.injEq, Fin.ext_iff] <;> omega

theorem workCell_eq (s : Banks) (offset : Fin 0x2000) :
    ∃ bank i, s.workCell offset = .work bank i := by
  unfold Banks.workCell
  split <;> exact ⟨_, _, rfl⟩

/-- What a program reads where there is a cell. -/
theorem readAt_cell {l : Location} {c : Cell} (h : l.cell? b.banks = some c) :
    b.readAt l = b.cell c := by
  cases l with
  | video l =>
    cases l with
    | vram | oam =>
      cases h
      rfl
    | _ => cases h
  | workRam l =>
    cases l with
    | cell offset =>
      obtain ⟨bank, i, hcell⟩ := workCell_eq b.banks offset
      obtain rfl : c = .work bank i := (Option.some.inj h).symm.trans hcell
      exact congrArg b.workRam.cells.byte
        ((b.workCell_eq_iff offset bank i).1 hcell)
    | bank => cases h
  | highRam | latch | enabled =>
    cases h
    rfl
  | _ => cases h

/-- A write changes the cell at its location. -/
theorem cell_writeAt_self {l : Location} {c : Cell} (h : l.cell? b.banks = some c) (v : UInt8) :
    (b.writeAt l v).cell c = v := by
  cases l with
  | video l =>
    cases l with
    | vram | oam =>
      cases h
      exact Block.byte_set_self ..
    | _ => cases h
  | workRam l =>
    cases l with
    | cell offset =>
      obtain ⟨bank, i, hcell⟩ := workCell_eq b.banks offset
      obtain rfl : c = .work bank i := (Option.some.inj h).symm.trans hcell
      have hwritten := b.workRam.cells.byte_set_self (i := b.workRam.cell offset) v
      exact (congrArg (b.workRam.cells.set (b.workRam.cell offset) v).byte
        ((b.workCell_eq_iff offset bank i).1 hcell).symm).trans hwritten
    | bank => cases h
  | highRam | latch =>
    cases h
    exact Block.byte_set_self ..
  | enabled =>
    cases h
    rfl
  | _ => cases h

/-- A write to the display changes no other cell. -/
theorem cell_writeVideo_of_ne {l : Video.Location} (v : UInt8) {c : Cell}
    (h : (Location.video l).cell? b.banks ≠ some c) :
    (b.writeAt (.video l) v).cell c = b.cell c := by
  by_cases hmemory : (∀ offset, l ≠ .vram offset) ∧ ∀ offset, l ≠ .oam offset
  · obtain ⟨hvram, hoam⟩ := b.video.memory_write hmemory.1 hmemory.2 v
    cases c with
    | video bank i =>
      show (b.video.write l v).1.vram.byte (bank.cell i) = _
      rw [hvram]
      rfl
    | sprite i =>
      show (b.video.write l v).1.oam.byte i = _
      rw [hoam]
      rfl
    | _ => rfl
  · cases l with
    | vram offset =>
      cases c with
      | video bank i =>
        refine b.video.vram.byte_set_of_ne v fun hsame => h ?_
        obtain ⟨rfl, rfl⟩ := VideoBank.cell_inj.1 hsame
        rfl
      | _ => rfl
    | oam offset =>
      cases c with
      | sprite i => exact b.video.oam.byte_set_of_ne v fun hsame => h (hsame ▸ rfl)
      | _ => rfl
    | _ => exact absurd ⟨nofun, nofun⟩ hmemory

/-- Nor does a write to work RAM, or one that selects its bank. -/
theorem cell_writeWork_of_ne {l : WorkRam.Location} (v : UInt8) {c : Cell}
    (h : (Location.workRam l).cell? b.banks ≠ some c) :
    (b.writeAt (.workRam l) v).cell c = b.cell c := by
  cases c with
  | work bank i =>
    cases l with
    | cell offset =>
      refine b.workRam.cells.byte_set_of_ne v fun hsame => h ?_
      exact congrArg some ((b.workCell_eq_iff offset bank i).2 hsame)
    | bank =>
      have hcells : (b.workRam.selectBank v).cells = b.workRam.cells := by
        unfold WorkRam.selectBank
        cases b.workRam.model <;> rfl
      show (b.workRam.selectBank v).cells.byte (WorkRam.number bank i) = _
      rw [hcells]
      rfl
  | _ => cases l <;> rfl

/-- A write changes no cell but the one at its location. -/
theorem cell_writeAt_of_ne {l : Location} (hl : l ≠ .spriteCopy) (v : UInt8) {c : Cell}
    (h : l.cell? b.banks ≠ some c) : (b.writeAt l v).cell c = b.cell c := by
  cases l with
  | spriteCopy => exact absurd rfl hl
  | video l => exact cell_writeVideo_of_ne v h
  | workRam l => exact cell_writeWork_of_ne v h
  | highRam offset =>
    cases c with
    | high i => exact b.highRam.byte_set_of_ne v fun hsame => h (hsame ▸ rfl)
    | _ => rfl
  | latch offset =>
    cases c with
    | latch i => exact b.latches.byte_set_of_ne v fun hsame => h (hsame ▸ rfl)
    | _ => rfl
  | enabled =>
    cases c with
    | enabled => exact absurd rfl h
    | _ => rfl
  | _ => cases c <;> rfl

/-! ## Writes of a program -/

/-- What a program reads at an address is what is in the cell behind it. -/
theorem read_cell {a : UInt16} {c : Cell} (h : b.banks.cellAt? a = some c) :
    b.read a = b.cell c := by
  rw [Location.cellAt?_eq b.banks b.model] at h
  exact readAt_cell h

/-- It reads the same 8 KiB above. -/
theorem read_echo (b : Board) {a : UInt16} (h : 0xe000 ≤ a ∧ a ≤ 0xfdff) :
    b.read a = b.read (a - 0x2000) := by
  have hrange : 0xc000 ≤ a ∧ a ≤ 0xfe9f :=
    ⟨UInt16.le_trans (by decide) h.1, UInt16.le_trans h.2 (by decide)⟩
  obtain ⟨c, hc⟩ := b.banks.cellAt?_of_range (.inr (.inl hrange))
  rw [read_cell hc, read_cell ((b.banks.cellAt?_echo h).symm.trans hc)]

/-- A write changes the cell behind its address and no other. -/
theorem cell_write (b : Board) {a : UInt16} (ha : a ≠ 0xff46) (v : UInt8) (c : Cell) :
    (b.write a v).cell c = if b.banks.cellAt? a = some c then v else b.cell c := by
  have hcopy : Location.find b.model a ≠ .spriteCopy :=
    fun h => ha (Location.eq_address (congrArg Location.address? h))
  rw [Location.cellAt?_eq b.banks b.model, write]
  split
  · rename_i hsame
    exact cell_writeAt_self hsame v
  · rename_i hother
    exact cell_writeAt_of_ne hcopy v hother

/-- In the colour console two registers select the banks, and no other write does. -/
theorem banks_write {b : Board} (hmodel : b.model = .cgb) (hwork : b.workRam.model = .cgb)
    (a : UInt16) (v : UInt8) :
    (b.write a v).banks =
      { video := if a = 0xff4f then .ofBit (v &&& 0x01 != 0) else b.video.bank
        work := if a = 0xff70 then Banks.ofByte v else b.workRam.bank } := by
  have hvideo : a ≠ 0xff4f → Location.find b.model a ≠ .video .vramBank :=
    fun ha h => ha (Location.eq_address (congrArg Location.address? h))
  have hwindow : a ≠ 0xff70 → Location.find b.model a ≠ .workRam .bank :=
    fun ha h => ha (Location.eq_address (congrArg Location.address? h))
  by_cases hv : a = 0xff4f
  · subst hv
    rw [write, hmodel]
    rfl
  by_cases hw : a = 0xff70
  · subst hw
    have hselect : (b.workRam.selectBank v).bank = Banks.ofByte v := by
      rw [WorkRam.selectBank, hwork]
      rfl
    rw [write, hmodel]
    show Banks.mk b.video.bank (b.workRam.selectBank v).bank = _
    rw [hselect, if_neg hv, if_pos rfl]
  rw [if_neg hv, if_neg hw]
  have hvideo := hvideo hv
  have hwindow := hwindow hw
  unfold write
  generalize Location.find b.model a = l at hvideo hwindow
  cases l with
  | video l =>
    show Banks.mk (b.video.write l v).1.bank b.workRam.bank = _
    rw [b.video.bank_write fun hl => hvideo (congrArg _ hl)]
  | workRam l =>
    cases l with
    | cell offset => rfl
    | bank => exact absurd rfl hwindow
  | spriteCopy =>
    obtain ⟨page, oam, hcopied⟩ := b.copySprites_frame v
    simp only [writeAt, hcopied]
    rfl
  | _ => rfl

/-- Work RAM is of the model of the board. -/
theorem Reachable.workRam_model {b : Board} (h : b.Reachable) : b.workRam.model = b.model := by
  induction h with
  | powerUp => rfl
  | @write b a v _ ih =>
    have hsame : (b.write a v).workRam.model = b.workRam.model := by
      unfold Board.write
      cases Location.find b.model a with
      | workRam l =>
        cases l with
        | cell offset => rfl
        | bank =>
          show (b.workRam.selectBank v).model = _
          unfold WorkRam.selectBank
          split <;> rfl
      | spriteCopy =>
        obtain ⟨page, oam, hcopied⟩ := b.copySprites_frame v
        simp only [writeAt, hcopied]
      | _ => rfl
    rw [hsame, model_write, ih]
  | @switchRate b _ ih =>
    unfold Board.switchRate
    cases b.model <;> exact ih
  | @advance b n _ ih =>
    obtain ⟨vram, transfer, journal, hcopied⟩ := b.runTransfer_frame
    show b.runTransfer.workRam.model = b.runTransfer.model
    rw [hcopied]
    exact ih
  | _ => assumption

theorem model_writeAll (b : Board) (ws : List (UInt16 × UInt8)) :
    (Bus.writeAll b ws).model = b.model := by
  induction ws generalizing b with
  | nil => rfl
  | cons w ws ih => exact (ih (b.write w.1 w.2)).trans (b.model_write w.1 w.2)

theorem Reachable.writeAll {b : Board} (h : b.Reachable) (ws : List (UInt16 × UInt8)) :
    (Bus.writeAll b ws).Reachable := by
  induction ws generalizing b with
  | nil => exact h
  | cons w ws ih => exact ih (h.write w.1 w.2)

end Board

/-- One more write of the colour console. -/
theorem Banks.after_cons (start : Banks) (w : UInt16 × UInt8) (h : History) :
    after .cgb start (w :: h) =
      { video := if w.1 = 0xff4f then .ofBit (w.2 &&& 0x01 != 0) else (after .cgb start h).video
        work := if w.1 = 0xff70 then ofByte w.2 else (after .cgb start h).work } := by
  simp only [after, List.find?_cons]
  by_cases hvideo : w.1 = 0xff4f <;> by_cases hwork : w.1 = 0xff70 <;> simp [hvideo, hwork]

namespace Board

/-- The writes so far tell the selected banks. -/
theorem Reachable.banks_writeAll {b : Board} (h : b.Reachable) (ws : List (UInt16 × UInt8)) :
    (Bus.writeAll b ws).banks = Banks.after b.model b.banks ws.reverse := by
  cases hmodel : b.model with
  | dmg =>
    have hgray := (h.writeAll ws).monochrome ((b.model_writeAll ws).trans hmodel)
    exact congrArg₂ Banks.mk hgray.video.bank (Fin.ext hgray.workBank)
  | cgb =>
    -- from the back: the last write selects a bank, or leaves those that the others selected
    induction ws using List.reverseRecOn with
    | nil => rfl
    | append_singleton ws w ih =>
      have hcolor : (Bus.writeAll b ws).model = .cgb := (b.model_writeAll ws).trans hmodel
      have hwork := (h.writeAll ws).workRam_model.trans hcolor
      rw [Bus.writeAll_append, List.reverse_append]
      refine (banks_write hcolor hwork w.1 w.2).trans ?_
      show _ = Banks.after .cgb b.banks (w :: ws.reverse)
      rw [Banks.after_cons, ← ih]
      rfl

/-- The writes so far tell what is in every cell. -/
theorem Reachable.cells_writeAll {b : Board} (h : b.Reachable) {ws : List (UInt16 × UInt8)}
    (hws : ∀ w ∈ ws, w.1 ≠ 0xff46) (c : Cell) :
    (Bus.writeAll b ws).cell c = (c.stored? b.model b.banks ws.reverse).getD (b.cell c) := by
  -- from the back: the last write finds the banks selected that the others tell
  induction ws using List.reverseRecOn with
  | nil => rfl
  | append_singleton ws w ih =>
    have hbefore := ih fun x hx => hws x (List.mem_append_left _ hx)
    have hlast := hws w (List.mem_append_right _ (List.mem_singleton_self w))
    rw [Bus.writeAll_append, List.reverse_append]
    refine (cell_write _ hlast w.2 c).trans ?_
    rw [h.banks_writeAll, hbefore]
    show _ = (c.stored? b.model b.banks (w :: ws.reverse)).getD _
    rw [Cell.stored?]
    split <;> rfl

/-- Whatever a program writes, except to the register that copies a page: video memory, work RAM and
its echo, the memory of sprites, the registers of the serial line and of the sound, the memory
beside the registers and the enabled interrupts read as the last byte that was written to the same
cell, and as before if there was none. Which cell that is depends on the banks selected at the time
of each write and of the read; the echo shows the cells 8 KiB below. No other write changes a cell,
whether or not its bank is selected. -/
theorem read_writeAll {b : Board} (h : b.Reachable) (ws : List (UInt16 × UInt8))
    (hws : ∀ w ∈ ws, w.1 ≠ 0xff46) :
    (∀ a : UInt16, 0x8000 ≤ a ∧ a ≤ 0x9fff ∨ 0xc000 ≤ a ∧ a ≤ 0xfe9f ∨ a = 0xff01 ∨ a = 0xff02 ∨
        0xff10 ≤ a ∧ a ≤ 0xff3f ∨ 0xff80 ≤ a →
      ∃ c, (Banks.after b.model b.banks ws.reverse).cellAt? a = some c ∧
        (Bus.writeAll b ws).read a =
          (c.stored? b.model b.banks ws.reverse).getD (b.cell c)) ∧
      (∀ a : UInt16, 0xe000 ≤ a ∧ a ≤ 0xfdff →
        (Bus.writeAll b ws).read a = (Bus.writeAll b ws).read (a - 0x2000)) ∧
      ∀ c, (Bus.writeAll b ws).cell c = (c.stored? b.model b.banks ws.reverse).getD (b.cell c) := by
  refine ⟨fun a ha => ?_, fun a => read_echo _, h.cells_writeAll hws⟩
  obtain ⟨c, hc⟩ := (Banks.after b.model b.banks ws.reverse).cellAt?_of_range ha
  refine ⟨c, hc, ?_⟩
  rw [← h.cells_writeAll hws]
  exact read_cell (h.banks_writeAll ws ▸ hc)

/-- A byte in bank 2 of work RAM stays there while another bank is selected, and is read in both
windows when bank 2 is again: asking for bank 10 selects it. -/
theorem read_writeAll_banks :
    let ws : List (UInt16 × UInt8) :=
      [(0xff70, 0x02), (0xd123, 0xaa), (0xff70, 0x00), (0xf123, 0xbb), (0x2000, 0x05),
        (0xff70, 0x0a)]
    (∀ w ∈ ws, w.1 ≠ 0xff46) ∧
      ∃ b : Board, b.Reachable ∧ (Bus.writeAll b ws).read 0xf123 = 0xaa ∧
        (Bus.writeAll b ws).cell (.work 1 0x123) = 0xbb := by
  intro ws
  have hws : ∀ w ∈ ws, w.1 ≠ 0xff46 := by simp [ws]
  have hstart := Reachable.powerUp Cartridge.load_zeroImage .cgb {}
  obtain ⟨hread, -, hcell⟩ := read_writeAll hstart ws hws
  obtain ⟨c, hc, hvalue⟩ := hread 0xf123 (by decide)
  obtain rfl : .work 2 0x123 = c := Option.some.inj hc
  exact ⟨hws, _, hstart, hvalue, hcell (.work 1 0x123)⟩

end Board

end GameBoy
