import GameBoy.Proofs.Board.Paced
import GameBoy.Proofs.Board.Passing

/-!
# The monochrome console

The registers of the colour console do not exist in the monochrome one. Whatever is done to such a
console, what those registers reach stays as it was at power-up: the clock rate, the selected banks,
the transfer unit and the memories of colours. No picture shows a colour palette.

* `Picture.Gray`: no pixel of a picture takes its colour from a colour palette.
* `Video.Monochrome`, `Board.Monochrome`: what a monochrome console never leaves.
* `Monochrome.write`, `Monochrome.advance`: programs and time leave it so.
* `Reachable.monochrome`: it holds of every monochrome console.
-/

namespace GameBoy

/-! ## Pictures -/

/-- Whether a palette is one of the colour console. -/
def Palette.isColor : Palette → Bool
  | .colorBackground _ | .colorObject _ => true
  | .background | .object0 | .object1 => false

namespace Picture

/-- No pixel takes its colour from a colour palette. -/
def Gray (p : Picture) : Prop := ∀ row ∈ p.rows, ∀ x ∈ row, x.palette.isColor = false

theorem gray_blank : blank.Gray := by
  intro row hrow x hx
  obtain rfl : row = Vector.replicate screenWidth .blank := (Vector.mem_replicate.1 hrow).2
  obtain rfl : x = .blank := (Vector.mem_replicate.1 hx).2
  rfl

theorem Gray.setRow {p : Picture} (h : p.Gray) (y : Nat) {row : Row}
    (hrow : ∀ x ∈ row, x.palette.isColor = false) : (p.setRow y row).Gray := by
  unfold Picture.setRow
  split
  · rename_i hy
    intro r hr
    have hr : r ∈ p.rows.set y row hy := hr
    obtain hold | rfl := Vector.mem_or_eq_of_mem_set hr
    · exact h r hold
    · exact hrow
  · exact h

/-- The palettes of such a picture are the three of the monochrome console. -/
theorem Gray.palettes {p : Picture} (h : p.Gray) :
    ∀ q ∈ p.palettes, q = .background ∨ q = .object0 ∨ q = .object1 := by
  intro q hq
  obtain ⟨x, hx, rfl⟩ := List.mem_map.1 hq
  obtain ⟨row, hrow, hmem⟩ := List.mem_flatMap.1 hx
  have hgray := h row (Vector.mem_toList_iff.1 hrow) x (Vector.mem_toList_iff.1 hmem)
  cases hpalette : x.palette with
  | background => exact .inl rfl
  | object0 => exact .inr (.inl rfl)
  | object1 => exact .inr (.inr rfl)
  | colorBackground | colorObject =>
    rw [hpalette] at hgray
    cases hgray

end Picture

/-! ## The display -/

namespace Video

/-- The display of a monochrome console: the colour registers are as at power-up, and the pictures
show no colour palette. -/
structure Monochrome (v : Video) : Prop where
  model : v.model = .dmg
  bank : v.bank = .first
  backgroundColors : v.backgroundColors = .powerUp
  objectColors : v.objectColors = .powerUp
  front : v.front.Gray
  back : v.back.Gray

theorem monochrome_powerUp : (powerUp .dmg).Monochrome :=
  ⟨rfl, rfl, rfl, rfl, Picture.gray_blank, Picture.gray_blank⟩

/-- A line of a monochrome console takes its colours from the monochrome palettes. -/
theorem gray_row {v : Video} (h : v.model = .dmg) : ∀ x ∈ v.row, x.palette.isColor = false := by
  intro x hx
  obtain ⟨i, rfl⟩ := Vector.mem_ofFn.1 hx
  have hbackground : ∀ p, (v.backgroundPalette p).isColor = false := by
    intro p
    rw [backgroundPalette, h]
    rfl
  have hsprite : ∀ p, (v.spritePalette p).isColor = false := by
    intro p
    rw [spritePalette, h]
    show (if p.attributes.second then Palette.object1 else Palette.object0).isColor = false
    split <;> rfl
  unfold pixel
  simp only
  split
  · exact hbackground _
  · split
    · exact hbackground _
    · exact hsprite _

section Keeps

variable {v : Video} (h : v.Monochrome)

include h

/-- The place of the display, its conditions and most of its registers do not matter. -/
theorem Monochrome.congr {w : Video} (hmodel : w.model = v.model) (hbank : w.bank = v.bank)
    (hbackground : w.backgroundColors = v.backgroundColors)
    (hobjects : w.objectColors = v.objectColors) (hfront : w.front = v.front)
    (hback : w.back.rows = v.back.rows) : w.Monochrome where
  model := hmodel.trans h.model
  bank := hbank.trans h.bank
  backgroundColors := hbackground.trans h.backgroundColors
  objectColors := hobjects.trans h.objectColors
  front := hfront ▸ h.front
  back := by
    rw [Picture.Gray, hback]
    exact h.back

theorem Monochrome.updateStatus : v.updateStatus.1.Monochrome := by
  rw [updateStatus_fst]
  exact h.congr rfl rfl rfl rfl rfl rfl

theorem Monochrome.setControl (b : UInt8) : (v.setControl b).1.Monochrome := by
  rcases v.setControl_cases b with ⟨-, hset⟩ | ⟨-, -, hset⟩ | ⟨-, -, hset⟩
  · rw [hset]
    exact h.congr rfl rfl rfl rfl rfl rfl
  · rw [hset, updateStatus_fst]
    exact h.congr rfl rfl rfl rfl rfl rfl
  · rw [hset]
    exact h.congr rfl rfl rfl rfl rfl rfl

/-- A write to a register that exists. -/
theorem Monochrome.write {l : Location} (hl : l.colorOnly = false) (b : UInt8) :
    (v.write l b).1.Monochrome := by
  cases l with
  | control => exact h.setControl b
  | status | lineCompare => exact Monochrome.updateStatus (h.congr rfl rfl rfl rfl rfl rfl)
  | vramBank | backgroundColorIndex | backgroundColorData | objectColorIndex | objectColorData =>
    cases hl
  | _ => exact h.congr rfl rfl rfl rfl rfl rfl

/-- A drawn line is one of the monochrome console, and a completed picture consists of them. -/
theorem Monochrome.enterNext : v.enterNext.1.Monochrome := by
  cases hp : v.phase with
  | search =>
    rw [enterNext_search hp]
    exact h.congr rfl rfl rfl rfl rfl rfl
  | transfer =>
    have hmodel : Video.model { v with phase := .hblank, lineDrawn := true } = .dmg := h.model
    rw [enterNext_transfer hp]
    exact ⟨h.model, h.bank, h.backgroundColors, h.objectColors, h.front,
      h.back.setRow v.line (gray_row hmodel)⟩
  | hblank =>
    by_cases hlast : v.line + 1 = screenHeight
    · rw [enterNext_last hp hlast]
      exact h.congr rfl rfl rfl rfl rfl rfl
    · rw [enterNext_hblank hp hlast]
      exact h.congr rfl rfl rfl rfl rfl rfl
  | vblank =>
    by_cases hlast : v.line + 1 = linesPerFrame
    · rw [enterNext_complete hp hlast]
      exact ⟨h.model, h.bank, h.backgroundColors, h.objectColors, h.back, h.front⟩
    · rw [enterNext_vblank hp hlast]
      exact h.congr rfl rfl rfl rfl rfl rfl

theorem Monochrome.advance (hv : v.Placed) (n : Nat) : (v.advance n).1.Monochrome := by
  apply hv.advance_keeps _ _ h n
  · intro v dot drawn hv
    exact hv.congr rfl rfl rfl rfl rfl rfl
  · intro v _ hv
    rw [endPhase_fst]
    exact hv.enterNext.updateStatus

end Keeps

end Video

/-! ## The board -/

namespace Location

/-- The addresses of the registers that only the colour console has. -/
def colorAddresses : List UInt16 :=
  [0xff4d, 0xff4f, 0xff51, 0xff52, 0xff53, 0xff54, 0xff55, 0xff68, 0xff69, 0xff6a, 0xff6b, 0xff70]

/-- In the monochrome console there is nothing at them. -/
theorem find_dmg_of_mem : ∀ a ∈ colorAddresses, find .dmg a = .nothing := by
  simp only [colorAddresses, List.forall_mem_cons]
  exact ⟨rfl, rfl, rfl, rfl, rfl, rfl, rfl, rfl, rfl, rfl, rfl, rfl, nofun⟩

/-- Nothing that only the colour console has is found in the other one. -/
theorem colorOnly_find_dmg (a : UInt16) : (find .dmg a).colorOnly = false := by
  unfold find
  simp only [Model.isColor, Bool.not_false, Bool.and_true]
  split
  · rfl
  · exact Bool.eq_false_iff.2 ‹_›

end Location

namespace Board

/-- A monochrome console at the normal rate, with the banks selected that it has, and without a
transfer. -/
structure Monochrome (b : Board) : Prop where
  model : b.model = .dmg
  speed : b.speed = {}
  transfer : b.transfer = {}
  workModel : b.workRam.model = .dmg
  workBank : b.workRam.bank.val = 1
  video : b.video.Monochrome

theorem monochrome_powerUp (cartridge : Cartridge) (journal : Journal) :
    (powerUp cartridge .dmg journal).Monochrome :=
  ⟨rfl, rfl, rfl, rfl, rfl, Video.monochrome_powerUp⟩

section Keeps

variable {b : Board} (h : b.Monochrome)

include h

theorem Monochrome.copySpriteByte (i : Fin 0xa0) : (b.copySpriteByte i).Monochrome :=
  ⟨h.model, h.speed, h.transfer, h.workModel, h.workBank, h.video.congr rfl rfl rfl rfl rfl rfl⟩

theorem Monochrome.copySprites (page : UInt8) : (b.copySprites page).Monochrome :=
  foldl_induction (fun _ i ih => ih.copySpriteByte i)
    ⟨h.model, h.speed, h.transfer, h.workModel, h.workBank, h.video⟩

theorem Monochrome.writeAt {l : Location} (hl : l.colorOnly = false) (v : UInt8) :
    (b.writeAt l v).Monochrome := by
  obtain ⟨hmodel, hspeed, htransfer, hwork, hbank, hvideo⟩ := h
  cases l with
  | video l => exact ⟨hmodel, hspeed, htransfer, hwork, hbank, hvideo.write hl v⟩
  | workRam l =>
    cases l with
    | cell offset => exact ⟨hmodel, hspeed, htransfer, hwork, hbank, hvideo⟩
    | bank => cases hl
  | spriteCopy => exact Monochrome.copySprites ⟨hmodel, hspeed, htransfer, hwork, hbank, hvideo⟩ v
  | speed | transfer => cases hl
  | _ => exact ⟨hmodel, hspeed, htransfer, hwork, hbank, hvideo⟩

/-- A program reaches nothing that would change it. -/
theorem Monochrome.write (a : UInt16) (v : UInt8) : (b.write a v).Monochrome := by
  apply h.writeAt
  rw [h.model]
  exact Location.colorOnly_find_dmg a

/-- The processor's stop does not either. -/
theorem Monochrome.switchRate : b.switchRate = (false, b) := by
  rw [Board.switchRate, h.model]

theorem Monochrome.advance (hv : b.Valid) (n : Nat) : (b.advance n).2.Monochrome := by
  have hidle : b.transfer.active = false := by
    rw [h.transfer]
  rw [advance_of_idle hidle]
  exact ⟨h.model, h.speed, h.transfer, h.workModel, h.workBank, h.video.advance hv.video _⟩

/-- No register of the colour console answers, and writes to them are lost. -/
theorem Monochrome.absent {a : UInt16} (ha : a ∈ Location.colorAddresses) :
    b.read a = 0xff ∧ ∀ v, b.write a v = b := by
  have hfind : Location.find b.model a = .nothing := by
    rw [h.model]
    exact Location.find_dmg_of_mem a ha
  refine ⟨?_, fun v => ?_⟩
  · rw [read, hfind]
    rfl
  · rw [Board.write, hfind]
    rfl

end Keeps

/-- Of a monochrome console that holds whatever was done to it. -/
theorem Reachable.monochrome {b : Board} (h : b.Reachable) (hmodel : b.model = .dmg) :
    b.Monochrome := by
  induction h with
  | powerUp _ model journal =>
    obtain rfl : model = .dmg := hmodel
    exact monochrome_powerUp _ journal
  | write a v _ ih => exact (ih ((model_write _ a v).symm.trans hmodel)).write a v
  | @switchRate b _ ih =>
    have hsame : b.switchRate.2.model = b.model := b.model_perform .switchRate
    have hbefore := ih (hsame.symm.trans hmodel)
    rw [hbefore.switchRate]
    exact hbefore
  | @advance b n hb ih =>
    have hsame : (b.advance n).2.model = b.model := b.model_perform (.pass n)
    exact (ih (hsame.symm.trans hmodel)).advance hb.valid n
  | takeFrame _ ih =>
    have hbefore := ih hmodel
    exact ⟨hmodel, hbefore.speed, hbefore.transfer, hbefore.workModel, hbefore.workBank,
      hbefore.video.congr rfl rfl rfl rfl rfl rfl⟩
  | press | release | loadRam | journal =>
    rename_i ih
    have hbefore := ih hmodel
    exact ⟨hmodel, hbefore.speed, hbefore.transfer, hbefore.workModel, hbefore.workBank,
      hbefore.video⟩

end Board

end GameBoy
