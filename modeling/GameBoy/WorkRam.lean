import GameBoy.Memory.Block
import GameBoy.Memory.Word
import GameBoy.Model

/-!
# Work RAM

Eight banks of 4 KiB, seen through a window of two: the lower half always shows bank 0, the upper
half the selected bank, which only the colour console can change. The window lies at `0xc000` and,
but for its last 512 bytes, again at `0xe000`.

* `WorkRam.cell`: which cell lies behind an offset in the window.
* `WorkRam.selectBank`: bank 0 cannot be selected; asking for it gives bank 1.
-/

namespace GameBoy

/-- Work RAM and the bank that its upper half shows. -/
structure WorkRam where
  /-- Only the colour console selects banks. -/
  model : Model
  /-- All banks, one after the other. -/
  cells : Block 0x8000
  /-- The bank in the upper half. -/
  bank : Fin 8

namespace WorkRam

/-- Cleared memory with bank 1 selected. -/
def powerUp (model : Model) : WorkRam := { model, cells := .fill _ 0, bank := ⟨1, by decide⟩ }

/-- What a program reaches: the cells of the window and the bank register. -/
inductive Location
  /-- The cell at an offset in the window, which repeats every 8 KiB. -/
  | cell (offset : Fin 0x2000)
  /-- The bank register at `0xff70`. -/
  | bank
deriving DecidableEq

/-- What lies at an address. -/
def Location.ofAddress? (a : UInt16) : Option Location :=
  if 0xc000 ≤ a ∧ a ≤ 0xfdff then some (.cell (offset8K a))
  else if a = 0xff70 then some .bank
  else none

/-- The number of the cell behind an offset in the window. -/
def cell (w : WorkRam) (offset : Fin 0x2000) : Fin 0x8000 :=
  if h : offset.val < 0x1000 then ⟨offset, by omega⟩
  else ⟨0x1000 * w.bank + (offset - 0x1000), by omega⟩

theorem bankNumber_lt (v : UInt8) : max (v.toNat % 8) 1 < 8 := by omega

/-- Selects the bank that the low three bits of a byte name, bank 1 in place of bank 0. -/
def selectBank (w : WorkRam) (v : UInt8) : WorkRam :=
  match w.model with
  | .dmg => w
  | .cgb => { w with bank := ⟨max (v.toNat % 8) 1, bankNumber_lt v⟩ }

/-- What a program reads; the bank register's five unused bits are set. -/
def read (w : WorkRam) : Location → UInt8
  | .cell offset => w.cells[w.cell offset]
  | .bank => 0xf8 ||| UInt8.ofNat w.bank

/-- A program's write. -/
def write (w : WorkRam) (l : Location) (v : UInt8) : WorkRam :=
  match l with
  | .cell offset => { w with cells := w.cells.set (w.cell offset) v }
  | .bank => w.selectBank v

end WorkRam

end GameBoy
