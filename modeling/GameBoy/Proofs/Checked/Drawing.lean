import GameBoy.Memory.Mask
import GameBoy.Proofs.Checked.Operations
import GameBoy.Video.Line
import Mathlib.Data.List.FinRange

/-!
# Drawing a line never stops

The display computes addresses in words of 16 bits and columns in signed ones, shifts bytes by the
place of a pixel, and copies the finished row to where it begins in the picture.

* `Video.checkedTilePixel_eq`: a pixel of a map lies in a tile, and the tile in video memory.
* `Video.checkedSpriteRow_eq`: a sprite that meets the line has a row there.
* `Video.checkedDrawLine_eq`: the row of a seen line is inside the picture.
-/

namespace GameBoy

open Checked

/-! ## Tiles -/

/-- A place in a tile, counted from the other side if `flip` holds. -/
def checkedFlip (flip : Bool) (x : Nat) : Option Nat := if flip then sub 7 x else some x

def checkedPixelColor (low high : UInt8) (x : Nat) : Option Color := do
  let bit ← sub 7 x
  shift 8 bit
  return Fin.ofNat 4 (2 * (high.toNat.testBit bit).toNat + (low.toNat.testBit bit).toNat)

/-- A signed number is multiplied as a signed word, and only its sum with the base wraps around. -/
def checkedTileAddress (unsigned : Bool) (id : UInt8) : Option Nat := do
  if unsigned then
    let offset ← mul 16 id.toNat 16
    add 16 0x8000 offset
  else
    let _ ← signed (id.toInt8.toInt * 16)
    return (0x9000 + signExtend id * 16).toNat

theorem checkedFlip_eq (flip : Bool) (x : Fin 8) :
    checkedFlip flip x = some (flipped flip x).val := by
  unfold checkedFlip flipped
  split
  · rw [sub_of_le (by omega), Fin.val_rev, Option.some.injEq]
    omega
  · rfl

theorem checkedPixelColor_eq (low high : UInt8) (x : Fin 8) :
    checkedPixelColor low high x = some (pixelColor low high x) := by
  have hle : x.val ≤ 7 := by omega
  have hbit : 7 - x.val < 8 := by omega
  unfold checkedPixelColor
  simp only [sub_of_le hle, shift_of_lt hbit, Option.bind_eq_bind, Option.bind_some]
  refine congrArg some (Fin.ext ?_)
  exact Nat.mod_eq_of_lt (pixelColor low high x).isLt

/-- Tiles lie in the first six KiB of video memory. -/
theorem tileAddress_le (unsigned : Bool) (id : UInt8) :
    (tileAddress unsigned id).toNat ≤ 0x97f0 := by
  cases unsigned with
  | false =>
    exact forall_byte (P := fun id => (tileAddress false id).toNat ≤ 0x97f0) (by decide +kernel) id
  | true =>
    exact forall_byte (P := fun id => (tileAddress true id).toNat ≤ 0x97f0) (by decide +kernel) id

theorem toNat_tileAddress_true (id : UInt8) :
    (tileAddress true id).toNat = 0x8000 + id.toNat * 16 :=
  forall_byte (P := fun id => (tileAddress true id).toNat = 0x8000 + id.toNat * 16)
    (by decide +kernel) id

theorem checkedTileAddress_eq (unsigned : Bool) (id : UInt8) :
    checkedTileAddress unsigned id = some (tileAddress unsigned id).toNat := by
  cases unsigned with
  | true =>
    have hid := id.toNat_lt
    have hmul : id.toNat * 16 < 2 ^ 16 := by omega
    have hadd : 0x8000 + id.toNat * 16 < 2 ^ 16 := by omega
    rw [toNat_tileAddress_true]
    simp only [checkedTileAddress, if_true, mul_of_lt hmul, Option.bind_eq_bind, Option.bind_some,
      add_of_lt hadd]
  | false =>
    have hlow := id.toInt8.le_toInt
    have hhigh := id.toInt8.toInt_lt
    have hfits : -0x8000 ≤ id.toInt8.toInt * 16 ∧ id.toInt8.toInt * 16 < 0x8000 := by omega
    simp only [checkedTileAddress, signed_of hfits]
    rfl

namespace Video

/-! ## Background and window -/

/-- The byte of a bank of video memory; addresses repeat every 8 KiB. -/
def checkedVramAt (v : Video) (bank : VideoBank) (a : Nat) : Option UInt8 := do
  let start ← mul 32 bank.bit.toNat 0x2000
  let i ← add 32 start (a % 0x2000)
  v.vram.fetch i

def checkedAttributesAt (v : Video) (cell : Nat) : Option Attributes :=
  match v.model with
  | .dmg => some .plain
  | .cgb => (v.checkedVramAt .second cell).map .ofByte

/-- A pixel of the map that begins at an address. -/
def checkedTilePixel (v : Video) (map : Nat) (x y : UInt8) : Option TilePixel := do
  let line ← mul 16 (y.toNat / 8) 32
  let start ← add 16 map line
  let cell ← add 16 start (x.toNat / 8)
  let id ← v.checkedVramAt .first cell
  let attributes ← v.checkedAttributesAt cell
  let column ← checkedFlip attributes.flipX (x.toNat % 8)
  let row ← checkedFlip attributes.flipY (y.toNat % 8)
  let start ← checkedTileAddress v.control.unsignedTiles id
  let offset ← mul 16 row 2
  let address ← add 16 start offset
  let next ← add 16 address 1
  let low ← v.checkedVramAt (.ofBit attributes.bank) address
  let high ← v.checkedVramAt (.ofBit attributes.bank) next
  let color ← checkedPixelColor low high column
  return { color, attributes }

/-- The window begins at a signed column. -/
def checkedBackgroundPixel (v : Video) (x : Nat) : Option TilePixel := do
  if !v.drawsBackground then return {}
  let start ← signed (v.windowX.toNat - 7)
  if v.drawsWindow && start ≤ x then
    let column ← signed (x - start)
    v.checkedTilePixel v.control.windowMap.toNat (UInt8.ofNat column.toNat) v.windowLine
  else
    v.checkedTilePixel v.control.backgroundMap.toNat (v.scrollX + UInt8.ofNat x)
      (v.scrollY + UInt8.ofNat v.line)

theorem bit_mul_add_lt (bank : VideoBank) (offset : Nat) (h : offset < 0x2000) :
    bank.bit.toNat * 0x2000 + offset < 0x4000 := by
  cases bank with
  | first =>
    show 0 * 0x2000 + offset < 0x4000
    omega
  | second =>
    show 1 * 0x2000 + offset < 0x4000
    omega

theorem val_cell (bank : VideoBank) (offset : Fin 0x2000) :
    (bank.cell offset).val = bank.bit.toNat * 0x2000 + offset := by
  cases bank with
  | first => exact (Nat.zero_add _).symm
  | second => rfl

theorem checkedVramAt_eq (v : Video) (bank : VideoBank) (a : UInt16) :
    v.checkedVramAt bank a.toNat = some (v.vramAt bank a) := by
  have hoffset : (offset8K a).val = a.toNat % 0x2000 := rfl
  have hlt := bit_mul_add_lt bank _ (offset8K a).isLt
  have hadd : bank.bit.toNat * 0x2000 + (offset8K a).val < 2 ^ 32 := by omega
  have hmul : bank.bit.toNat * 0x2000 < 2 ^ 32 := Nat.lt_of_le_of_lt (Nat.le_add_right ..) hadd
  unfold checkedVramAt
  rw [← hoffset]
  simp only [mul_of_lt hmul, add_of_lt hadd, Option.bind_eq_bind, Option.bind_some, ← val_cell]
  exact v.vram.fetch_of_lt (bank.cell (offset8K a)).isLt

theorem checkedAttributesAt_eq (v : Video) (cell : UInt16) :
    v.checkedAttributesAt cell.toNat = some (v.attributesAt cell) := by
  unfold checkedAttributesAt attributesAt
  cases v.model with
  | dmg => rfl
  | cgb => exact congrArg (Option.map Attributes.ofByte) (v.checkedVramAt_eq .second cell)

/-- The cells of a map: 32 for each eight lines, one for each eight columns. -/
theorem toNat_mapCell {map : UInt16} (hmap : map.toNat ≤ 0x9c00) (x y : UInt8) :
    (mapCell map x y).toNat = map.toNat + y.toNat / 8 * 32 + x.toNat / 8 := by
  have hx := x.toNat_lt
  have hy := y.toNat_lt
  simp only [mapCell, UInt16.toNat_add, UInt16.toNat_mul, UInt8.toNat_toUInt16, UInt8.toNat_div,
    UInt8.reduceToNat, UInt16.reduceToNat]
  omega

/-- A row of a tile is two bytes. -/
theorem toNat_add_row {a : UInt16} {row : Nat} (h : a.toNat + row * 2 < 0x10000) :
    (a + UInt16.ofNat row * 2).toNat = a.toNat + row * 2 := by
  simp only [UInt16.toNat_add, UInt16.toNat_mul, UInt16.toNat_ofNat', UInt16.reduceToNat]
  omega

theorem toNat_add_one {a : UInt16} (h : a.toNat + 1 < 0x10000) : (a + 1).toNat = a.toNat + 1 := by
  simp only [UInt16.toNat_add, UInt16.reduceToNat]
  omega

theorem val_placeInTile (x : UInt8) : (placeInTile x).val = x.toNat % 8 := rfl

/-- A pixel of a map lies in a tile, and the tile in video memory. -/
theorem checkedTilePixel_eq (v : Video) {map : UInt16} (hmap : map.toNat ≤ 0x9c00) (x y : UInt8) :
    v.checkedTilePixel map.toNat x y = some (v.tilePixel map x y) := by
  have hx := x.toNat_lt
  have hy := y.toNat_lt
  have hline : y.toNat / 8 * 32 < 2 ^ 16 := by omega
  have hstart : map.toNat + y.toNat / 8 * 32 < 2 ^ 16 := by omega
  have hcell : map.toNat + y.toNat / 8 * 32 + x.toNat / 8 < 2 ^ 16 := by omega
  unfold checkedTilePixel tilePixel rowAddress
  simp only [mul_of_lt hline, add_of_lt hstart, add_of_lt hcell, Option.bind_eq_bind,
    Option.bind_some, ← toNat_mapCell hmap, checkedVramAt_eq, checkedAttributesAt_eq,
    ← val_placeInTile, checkedFlip_eq, checkedTileAddress_eq]
  generalize mapCell map x y = cell
  -- where the row of the tile lies
  have htile := tileAddress_le v.control.unsignedTiles (v.vramAt .first cell)
  generalize tileAddress v.control.unsignedTiles (v.vramAt .first cell) = tile at htile
  have hrow := (flipped (v.attributesAt cell).flipY (placeInTile y)).isLt
  generalize (flipped (v.attributesAt cell).flipY (placeInTile y)).val = row at hrow
  have hoffset : row * 2 < 2 ^ 16 := by omega
  have haddress : tile.toNat + row * 2 < 2 ^ 16 := by omega
  have hnext : tile.toNat + row * 2 + 1 < 2 ^ 16 := by omega
  simp only [mul_of_lt hoffset, add_of_lt haddress, add_of_lt hnext, Option.bind_some]
  rw [← toNat_add_row haddress] at hnext ⊢
  rw [← toNat_add_one hnext]
  simp only [checkedVramAt_eq, checkedPixelColor_eq, Option.bind_some]
  rfl

theorem backgroundMap_le (c : Control) : c.backgroundMap.toNat ≤ 0x9c00 := by
  unfold Control.backgroundMap
  split <;> decide

theorem windowMap_le (c : Control) : c.windowMap.toNat ≤ 0x9c00 := by
  unfold Control.windowMap
  split <;> decide

/-- Every column of a line shows background, window or nothing. -/
theorem checkedBackgroundPixel_eq (v : Video) {x : Nat} (hx : x < screenWidth) :
    v.checkedBackgroundPixel x = some (v.backgroundPixel x) := by
  have hwindow := v.windowX.toNat_lt
  have hstart : -0x8000 ≤ (v.windowX.toNat : Int) - 7 ∧ (v.windowX.toNat : Int) - 7 < 0x8000 := by
    omega
  have hcolumn : -0x8000 ≤ (x : Int) - ((v.windowX.toNat : Int) - 7) ∧
      (x : Int) - ((v.windowX.toNat : Int) - 7) < 0x8000 := by
    simp only [screenWidth] at hx
    omega
  have hside : (v.windowX.toNat : Int) - 7 ≤ x ↔ v.windowX.toNat ≤ x + 7 := by omega
  have hplace : ((x : Int) - ((v.windowX.toNat : Int) - 7)).toNat = x + 7 - v.windowX.toNat := by
    omega
  unfold checkedBackgroundPixel backgroundPixel shownPlace?
  split
  · rfl
  · simp only [signed_of hstart, Option.bind_eq_bind, Option.bind_some, hside]
    split
    · rw [signed_of hcolumn, Option.bind_some, hplace]
      exact v.checkedTilePixel_eq (windowMap_le _) _ _
    · exact v.checkedTilePixel_eq (backgroundMap_le _) _ _

/-! ## Sprites -/

/-- A sprite of the forty. Its place on the screen is signed. -/
def checkedSprite (v : Video) (i : Nat) : Option Sprite := do
  let start ← mul 32 4 i
  let y ← v.oam.fetch start
  let x ← v.oam.fetch (start + 1)
  let tile ← v.oam.fetch (start + 2)
  let attributes ← v.oam.fetch (start + 3)
  let top ← signed (y.toNat - 16)
  let left ← signed (x.toNat - 8)
  let _ ← signed (top + v.control.spriteHeight)
  let _ ← signed (left + 7)
  return { index := i, y := y.toNat, x := x.toNat, tile, attributes := .ofByte attributes }

def checkedChosenSprites (v : Video) : Option (List Sprite) := do
  let sprites ← (List.finRange 40).mapM fun i : Fin 40 => v.checkedSprite i
  return (sprites.filter v.meets).take spritesPerLine

def checkedLineSprites (v : Video) : Option (List Sprite) := do
  let sprites ← v.checkedChosenSprites
  match v.model with
  | .dmg => return sprites.mergeSort atLeastAsUrgent
  | .cgb => return sprites

/-- A row of a sprite, counted from the other side if `flip` holds. -/
def checkedFlipRow (flip : Bool) (height down : Nat) : Option Nat := do
  if flip then
    let last ← sub height 1
    sub last down
  else return down

/-- The row of a sprite that the current line shows. -/
def checkedSpriteRow (v : Video) (s : Sprite) : Option SpriteRow := do
  let down ← signed (v.line - (s.y - 16 : Int))
  let row ← checkedFlipRow s.attributes.flipY v.control.spriteHeight down.toNat
  let tile := if v.control.spriteHeight = 16 then s.tile &&& 0xfe else s.tile
  let offset ← mul 16 tile.toNat 16
  let start ← add 16 0x8000 offset
  let offset ← mul 16 row 2
  let address ← add 16 start offset
  let next ← add 16 address 1
  let bank :=
    match v.model with
    | .dmg => .first
    | .cgb => VideoBank.ofBit s.attributes.bank
  let low ← v.checkedVramAt bank address
  let high ← v.checkedVramAt bank next
  return { x := s.x, attributes := s.attributes, low, high }

def checkedSpriteRows (v : Video) : Option (List SpriteRow) := do
  if v.control.hasSprites then
    let sprites ← v.checkedLineSprites
    sprites.mapM v.checkedSpriteRow
  else return []

theorem spriteHeight_le (c : Control) : c.spriteHeight ≤ 16 := by
  unfold Control.spriteHeight
  split <;> decide

/-- Every sprite is found, and is on the screen or near it. -/
theorem checkedSprite_eq (v : Video) (i : Fin 40) : v.checkedSprite i = some (v.sprite i) := by
  have hi := i.isLt
  have hstart : 4 * i.val < 2 ^ 32 := by omega
  have h0 : 4 * i.val < 0xa0 := by omega
  have h1 : 4 * i.val + 1 < 0xa0 := by omega
  have h2 : 4 * i.val + 2 < 0xa0 := by omega
  have h3 : 4 * i.val + 3 < 0xa0 := by omega
  have hy := v.oam[4 * i.val].toNat_lt
  have hx := v.oam[4 * i.val + 1].toNat_lt
  have hheight := spriteHeight_le v.control
  unfold checkedSprite
  simp only [mul_of_lt hstart, Option.bind_eq_bind, Option.bind_some, v.oam.fetch_of_lt h0,
    v.oam.fetch_of_lt h1, v.oam.fetch_of_lt h2, v.oam.fetch_of_lt h3]
  rw [signed_of (by omega), Option.bind_some, signed_of (by omega), Option.bind_some,
    signed_of (by omega), Option.bind_some, signed_of (by omega)]
  rfl

theorem checkedLineSprites_eq (v : Video) : v.checkedLineSprites = some v.lineSprites := by
  have hsprites : (List.finRange 40).mapM (fun i : Fin 40 => v.checkedSprite i) =
      some (List.ofFn v.sprite) := by
    rw [mapM_eq (g := v.sprite) fun i _ => v.checkedSprite_eq i, List.ofFn_eq_map]
  unfold checkedLineSprites checkedChosenSprites lineSprites chosenSprites
  simp only [hsprites, Option.bind_eq_bind, Option.bind_some]
  cases v.model <;> rfl

theorem mem_lineSprites {v : Video} {s : Sprite} (h : s ∈ v.lineSprites) : v.meets s = true := by
  have hchosen : s ∈ v.chosenSprites := by
    unfold lineSprites at h
    split at h
    · exact List.mem_mergeSort.1 h
    · exact h
  exact (List.mem_filter.1 (List.mem_of_mem_take hchosen)).2

theorem checkedFlipRow_eq {flip : Bool} {height down : Nat} (h : down < height) :
    checkedFlipRow flip height down = some (if flip then height - 1 - down else down) := by
  have hone : 1 ≤ height := by omega
  have hle : down ≤ height - 1 := by omega
  unfold checkedFlipRow
  split
  · rw [sub_of_le hone]
    exact sub_of_le hle
  · rfl

/-- A sprite that meets the line has a row there. -/
theorem checkedSpriteRow_eq {v : Video} {s : Sprite} (h : v.meets s = true) :
    v.checkedSpriteRow s = some (v.spriteRow s) := by
  simp only [meets, Bool.and_eq_true, decide_eq_true_eq] at h
  obtain ⟨hstarts, hends⟩ := h
  have hheight := spriteHeight_le v.control
  have hsigned : -0x8000 ≤ (v.line : Int) - ((s.y : Int) - 16) ∧
      (v.line : Int) - ((s.y : Int) - 16) < 0x8000 := by omega
  have hdown : ((v.line : Int) - ((s.y : Int) - 16)).toNat = v.line + 16 - s.y := by omega
  have hlt : v.line + 16 - s.y < v.control.spriteHeight := by omega
  have hrow : (if s.attributes.flipY then v.control.spriteHeight - 1 - (v.line + 16 - s.y)
      else v.line + 16 - s.y) < 16 := by
    split <;> omega
  unfold checkedSpriteRow spriteRow
  simp only [signed_of hsigned, hdown, checkedFlipRow_eq hlt, Option.bind_eq_bind,
    Option.bind_some]
  generalize (if s.attributes.flipY then v.control.spriteHeight - 1 - (v.line + 16 - s.y)
    else v.line + 16 - s.y) = row at hrow
  generalize (if v.control.spriteHeight = 16 then s.tile &&& 0xfe else s.tile) = tile
  -- where the row of the tile lies
  have htile := tile.toNat_lt
  have hoffset : tile.toNat * 16 < 2 ^ 16 := by omega
  have hstart : 0x8000 + tile.toNat * 16 < 2 ^ 16 := by omega
  have hplace : row * 2 < 2 ^ 16 := by omega
  have haddress : 0x8000 + tile.toNat * 16 + row * 2 < 2 ^ 16 := by omega
  have hnext : 0x8000 + tile.toNat * 16 + row * 2 + 1 < 2 ^ 16 := by omega
  simp only [mul_of_lt hoffset, add_of_lt hstart, mul_of_lt hplace, add_of_lt haddress,
    add_of_lt hnext, Option.bind_some]
  rw [← toNat_tileAddress_true] at haddress hnext ⊢
  rw [← toNat_add_row haddress] at hnext ⊢
  rw [← toNat_add_one hnext]
  simp only [checkedVramAt_eq, Option.bind_some]
  rfl

theorem checkedSpriteRows_eq (v : Video) : v.checkedSpriteRows = some v.spriteRows := by
  unfold checkedSpriteRows spriteRows
  split
  · rw [checkedLineSprites_eq]
    exact mapM_eq fun s hs => checkedSpriteRow_eq (mem_lineSprites hs)
  · rfl

/-! ## The line -/

end Video

/-- The colour number that the row has in a column of the screen. -/
def SpriteRow.checkedColor (r : SpriteRow) (x : Nat) : Option Color := do
  if r.x ≤ x + 8 ∧ x < r.x then
    let column ← sub (x + 8) r.x
    let column ← checkedFlip r.attributes.flipX column
    checkedPixelColor r.low r.high column
  else return .backdrop

theorem SpriteRow.checkedColor_eq (r : SpriteRow) (x : Nat) :
    r.checkedColor x = some (r.color x) := by
  unfold checkedColor color
  split
  · rename_i h
    have hcolumn : x + 8 - r.x < 8 := by omega
    rw [sub_of_le h.1, Option.bind_eq_bind, Option.bind_some,
      checkedFlip_eq r.attributes.flipX ⟨x + 8 - r.x, hcolumn⟩]
    exact checkedPixelColor_eq _ _ _
  · rfl

namespace Video

/-- The pixel that the most urgent sprite shows in column `x`, if one does. -/
def checkedSpritePixel? (x : Nat) : List SpriteRow → Option (Option TilePixel)
  | [] => some none
  | r :: rows => do
    let color ← r.checkedColor x
    if color = .backdrop then checkedSpritePixel? x rows
    else return some { color, attributes := r.attributes }

def checkedPixel (v : Video) (rows : List SpriteRow) (x : Nat) : Option Pixel := do
  let background ← v.checkedBackgroundPixel x
  let behind : Pixel := { color := background.color, palette := v.backgroundPalette background }
  match ← checkedSpritePixel? x rows with
  | none => return behind
  | some sprite =>
    if v.covers background sprite then return behind
    else return { color := sprite.color, palette := v.spritePalette sprite }

def checkedRow (v : Video) : Option Row := do
  let rows ← v.checkedSpriteRows
  Vector.ofFnM fun x => v.checkedPixel rows x

/-- Copies a row into a picture, where it has to be inside. -/
def checkedSetRow (p : Picture) (y : Nat) (row : Row) : Option Picture := do
  let start ← mul 32 y screenWidth
  let stop ← add 32 start screenWidth
  ensure (stop ≤ screenWidth * screenHeight)
  return p.setRow y row

def checkedDrawLine (v : Video) : Option Video := do
  let row ← v.checkedRow
  let back ← checkedSetRow v.back v.line row
  return { v with
    back, windowLine := if v.drawsWindow then v.windowLine + 1 else v.windowLine }

theorem checkedSpritePixel?_eq (x : Nat) (rows : List SpriteRow) :
    checkedSpritePixel? x rows = some (spritePixel? rows x) := by
  induction rows with
  | nil => rfl
  | cons r rows ih =>
    unfold checkedSpritePixel? spritePixel?
    rw [r.checkedColor_eq, List.findSome?_cons]
    simp only [Option.bind_eq_bind, Option.bind_some]
    split
    · exact ih
    · rfl

theorem checkedPixel_eq (v : Video) (rows : List SpriteRow) {x : Nat} (hx : x < screenWidth) :
    v.checkedPixel rows x = some (v.pixel rows x) := by
  unfold checkedPixel pixel
  rw [v.checkedBackgroundPixel_eq hx, checkedSpritePixel?_eq]
  simp only [Option.bind_eq_bind, Option.bind_some]
  cases spritePixel? rows x with
  | none => rfl
  | some sprite =>
    show (if v.covers (v.backgroundPixel x) sprite then _ else _) = some (ite _ _ _)
    split <;> rfl

theorem checkedRow_eq (v : Video) : v.checkedRow = some v.row := by
  have hpixels : (fun x : Fin screenWidth => v.checkedPixel v.spriteRows x) =
      fun x : Fin screenWidth => pure (v.pixel v.spriteRows x) := by
    funext x
    exact v.checkedPixel_eq v.spriteRows x.isLt
  unfold checkedRow
  rw [checkedSpriteRows_eq, Option.bind_eq_bind, Option.bind_some, hpixels]
  exact Vector.ofFnM_pure

/-- The row of a seen line is inside the picture. -/
theorem checkedDrawLine_eq {v : Video} (hline : v.line < screenHeight) :
    v.checkedDrawLine = some v.drawLine := by
  have hrow : checkedSetRow v.back v.line v.row = some (v.back.setRow v.line v.row) := by
    simp only [screenHeight] at hline
    have hmul : v.line * screenWidth < 2 ^ 32 := by
      simp only [screenWidth]
      omega
    have hadd : v.line * screenWidth + screenWidth < 2 ^ 32 := by
      simp only [screenWidth]
      omega
    have hstop : v.line * screenWidth + screenWidth ≤ screenWidth * screenHeight := by
      simp only [screenWidth, screenHeight]
      omega
    simp only [checkedSetRow, mul_of_lt hmul, add_of_lt hadd, ensure_of hstop,
      Option.bind_eq_bind, Option.bind_some]
    rfl
  unfold checkedDrawLine
  rw [checkedRow_eq, Option.bind_eq_bind, Option.bind_some, hrow]
  rfl

end Video

end GameBoy
