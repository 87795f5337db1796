import GameBoy.Board.Time
import GameBoy.Proofs.Devices
import GameBoy.Proofs.Video.Passing

/-!
# What the board always holds

* `Board.Valid`: the display is at its place and the small devices hold what they may.
* `Valid.write`, `Valid.advance`: programs and time keep it so.
* `Board.Reachable`: the boards that writes, time, buttons and saved bytes lead to;
  `Reachable.valid`: all of them are valid.
-/

namespace GameBoy

/-! ## Folds -/

/-- What each step of a fold keeps, the fold keeps. -/
theorem foldl_induction {α : Type} {P : α → Prop} {n : Nat} {f : α → Fin n → α}
    (step : ∀ a i, P a → P (f a i)) {a : α} (h : P a) : P (Fin.foldl n f a) := by
  induction n generalizing a with
  | zero => rwa [Fin.foldl_zero]
  | succ n ih =>
    rw [Fin.foldl_succ]
    exact ih (fun a i => step a i.succ) (step a 0 h)

/-- What a function keeps, its repetition keeps. -/
theorem repeat_induction {α : Type} {P : α → Prop} {f : α → α} (step : ∀ a, P a → P (f a)) {a : α}
    (h : P a) (n : Nat) : P (Nat.repeat f n a) := by
  induction n with
  | zero => exact h
  | succ n ih => exact step _ ih

namespace Board

/-! ## Valid boards -/

/-- The display and the small devices hold what they may. -/
structure Valid (b : Board) : Prop where
  video : b.video.Placed
  timer : b.timer.Valid
  transfer : b.transfer.Valid
  cartridge : b.cartridge.Valid

theorem valid_powerUp {cartridge : Cartridge} (h : cartridge.Valid) (model : Model)
    (journal : Journal) : (powerUp cartridge model journal).Valid :=
  ⟨Video.placed_powerUp model, Timer.valid_powerUp, Transfer.valid_powerUp, h⟩

/-- The display may change its memories and its notes. -/
theorem Valid.withVideo {b : Board} (h : b.Valid) {v : Video} (hv : v.Placed) :
    Valid { b with video := v } :=
  ⟨hv, h.timer, h.transfer, h.cartridge⟩

theorem Valid.copySpriteByte {b : Board} (h : b.Valid) (i : Fin 0xa0) :
    (b.copySpriteByte i).Valid :=
  h.withVideo (h.video.congr rfl rfl rfl rfl)

theorem Valid.copySprites {b : Board} (h : b.Valid) (page : UInt8) : (b.copySprites page).Valid :=
  foldl_induction (fun _ i ih => ih.copySpriteByte i) ⟨h.video, h.timer, h.transfer, h.cartridge⟩

theorem Valid.writeVideo {b : Board} (h : b.Valid) (l : Video.Location) (v : UInt8) :
    (b.writeVideo l v).Valid :=
  ⟨h.video.write l v, h.timer, h.transfer, h.cartridge⟩

/-- A program's write keeps a board valid. -/
theorem Valid.writeAt {b : Board} (h : b.Valid) (l : Location) (v : UInt8) :
    (b.writeAt l v).Valid := by
  cases l with
  | cartridge a => exact ⟨h.video, h.timer, h.transfer, h.cartridge.write a v⟩
  | video l => exact h.writeVideo l v
  | timer r => exact ⟨h.video, h.timer.write r v, h.transfer, h.cartridge⟩
  | spriteCopy => exact h.copySprites v
  | transfer r => exact ⟨h.video, h.timer, h.transfer.write r v, h.cartridge⟩
  | _ => exact ⟨h.video, h.timer, h.transfer, h.cartridge⟩

theorem Valid.write {b : Board} (h : b.Valid) (a : UInt16) (v : UInt8) : (b.write a v).Valid :=
  h.writeAt _ v

theorem Valid.switchRate {b : Board} (h : b.Valid) : b.switchRate.2.Valid := by
  unfold Board.switchRate
  cases b.model with
  | dmg => exact h
  | cgb => exact ⟨h.video, h.timer, h.transfer, h.cartridge⟩

/-! ## Time -/

theorem Valid.copyBlockByte {b : Board} (h : b.Valid) (i : Fin 0x10) : (b.copyBlockByte i).Valid :=
  h.withVideo (h.video.congr rfl rfl rfl rfl)

theorem Valid.copyBlock {b : Board} (h : b.Valid) : b.copyBlock.Valid := by
  have hcopied : (Fin.foldl 0x10 Board.copyBlockByte b).Valid :=
    foldl_induction (fun _ i ih => ih.copyBlockByte i) h
  unfold Board.copyBlock
  generalize Fin.foldl 0x10 Board.copyBlockByte b = copied at hcopied
  exact ⟨hcopied.video, hcopied.timer, hcopied.transfer.afterBlock, hcopied.cartridge⟩

theorem Valid.runTransfer {b : Board} (h : b.Valid) : b.runTransfer.Valid :=
  repeat_induction (fun _ ih => ih.copyBlock) h _

theorem Valid.advanceTimer {b : Board} (h : b.Valid) (n : Nat) : (b.advanceTimer n).Valid :=
  ⟨h.video, h.timer.advance n, h.transfer, h.cartridge⟩

theorem Valid.advanceVideo {b : Board} (h : b.Valid) (n : Nat) : (b.advanceVideo n).Valid :=
  ⟨(h.video.advance n).1, h.timer, h.transfer, h.cartridge⟩

theorem Valid.advanceCartridge {b : Board} (h : b.Valid) (n : Nat) : (b.advanceCartridge n).Valid :=
  ⟨h.video, h.timer, h.transfer, h.cartridge.advance n⟩

/-- Time keeps a board valid. -/
theorem Valid.advance {b : Board} (h : b.Valid) (n : Nat) : (b.advance n).2.Valid :=
  (((h.runTransfer).advanceTimer _).advanceVideo _).advanceCartridge _

/-! ## Reachable boards -/

/-- The last complete picture is taken. -/
def takeFrame (b : Board) : Board := { b with video := b.video.takeFrame.2 }

/-- Saved bytes are put back. -/
def loadRam (b : Board) (saved : ByteArray) : Board :=
  { b with cartridge := b.cartridge.loadRam saved }

/-- The boards that a program, time, and whoever plays lead to. -/
inductive Reachable : Board → Prop
  | powerUp {image : ByteArray} {cartridge : Cartridge} (h : Cartridge.load image = .ok cartridge)
      (model : Model) (journal : Journal) : Reachable (.powerUp cartridge model journal)
  | write {b : Board} (a : UInt16) (v : UInt8) : Reachable b → Reachable (b.write a v)
  | switchRate {b : Board} : Reachable b → Reachable b.switchRate.2
  | advance {b : Board} (n : Nat) : Reachable b → Reachable (b.advance n).2
  | press {b : Board} (key : Button) : Reachable b → Reachable (b.press key)
  | release {b : Board} (key : Button) : Reachable b → Reachable (b.release key)
  | takeFrame {b : Board} : Reachable b → Reachable b.takeFrame
  | loadRam {b : Board} (saved : ByteArray) : Reachable b → Reachable (b.loadRam saved)
  | journal {b : Board} (j : Journal) : Reachable b → Reachable { b with journal := j }

theorem Reachable.valid {b : Board} (h : b.Reachable) : b.Valid := by
  induction h with
  | powerUp h model journal => exact valid_powerUp (Cartridge.valid_load h) model journal
  | write a v _ ih => exact ih.write a v
  | switchRate _ ih => exact ih.switchRate
  | advance n _ ih => exact ih.advance n
  | press | release | journal =>
    rename_i ih
    exact ⟨ih.video, ih.timer, ih.transfer, ih.cartridge⟩
  | takeFrame _ ih => exact ih.withVideo (ih.video.congr rfl rfl rfl rfl)
  | loadRam saved _ ih => exact ⟨ih.video, ih.timer, ih.transfer, ih.cartridge.loadRam saved⟩

end Board

end GameBoy
