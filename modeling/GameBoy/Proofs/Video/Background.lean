import GameBoy.Proofs.Checked.Drawing
import GameBoy.Proofs.Video.Window

/-!
# What background and window show

A column of a line shows a pixel of one of two maps: of the window where that lies, elsewhere of the
background, which is scrolled and goes round in both directions. A map tells the number of a tile,
and in the colour console how the tile is drawn; two bytes of the tile tell a row of it. Addresses
are whole numbers here. The words that the display forms are these numbers and are addresses of
video memory.

* `Video.vramByte?`, `Video.tileColor?`: the bytes of video memory, and the pixels of tiles.
* `Video.Mapped`: what a map shows at a place; `Video.Addressed`: the words that lead to it.
* `Video.mapped_tilePixel`: the display shows what the map tells, and reads it from there.
* `Video.InWindow`: where the window lies; `Video.ShowsTile`: the tile behind a column.
* `Video.drawn`: a pixel of the line; `Video.background_shown`: what a column shows.
-/

namespace GameBoy

/-! ## Bits -/

theorem Attributes.ofByte_eq (v : UInt8) :
    Attributes.ofByte v =
      { palette := Fin.ofNat 8 v.toNat
        bank := v.toNat.testBit 3
        second := v.toNat.testBit 4
        flipX := v.toNat.testBit 5
        flipY := v.toNat.testBit 6
        priority := v.toNat.testBit 7 } := by
  have hbit := and_shiftLeft_ne_zero v
  rw [Attributes.ofByte, Attributes.mk.injEq]
  exact ⟨rfl, hbit 3, hbit 4, hbit 5, hbit 6, hbit 7⟩

theorem Control.hasBackground_eq (c : Control) : c.hasBackground = c.bits.toNat.testBit 0 :=
  and_shiftLeft_ne_zero c.bits 0

theorem Control.hasSprites_eq (c : Control) : c.hasSprites = c.bits.toNat.testBit 1 :=
  and_shiftLeft_ne_zero c.bits 1

theorem Control.unsignedTiles_eq (c : Control) : c.unsignedTiles = c.bits.toNat.testBit 4 :=
  and_shiftLeft_ne_zero c.bits 4

theorem Control.hasWindow_eq (c : Control) : c.hasWindow = c.bits.toNat.testBit 5 :=
  and_shiftLeft_ne_zero c.bits 5

namespace Video

/-! ## Tiles -/

theorem offset_lt {a : Int} (h : 0x8000 ≤ a ∧ a ≤ 0x9fff) : (a - 0x8000).toNat < 0x2000 := by omega

/-- The byte of a bank of video memory at an offset. -/
def vramCell (v : Video) (bank : VideoBank) (offset : Fin 0x2000) : UInt8 :=
  v.vram.get (bank.cell offset) (Fin.isLt _)

/-- The byte of a bank at an address of video memory. At other addresses there is none. -/
def vramByte? (v : Video) (bank : VideoBank) (a : Int) : Option UInt8 :=
  if h : 0x8000 ≤ a ∧ a ≤ 0x9fff then some (v.vramCell bank ⟨(a - 0x8000).toNat, offset_lt h⟩)
  else none

/-- The colour number in a column of the row of a tile whose two bytes begin at `a`: a bit of the
first byte and a bit of the second one, which counts twice. The leftmost column is bit 7. -/
def tileColor? (v : Video) (bank : VideoBank) (a : Int) (column : Nat) : Option Nat := do
  let low ← v.vramByte? bank a
  let high ← v.vramByte? bank (a + 1)
  return 2 * (high.toNat.testBit (7 - column)).toNat + (low.toNat.testBit (7 - column)).toNat

/-- Where tile `id` of the background or the window begins. -/
def tileStart (v : Video) (id : UInt8) : Int :=
  if v.control.bits.toNat.testBit 4 then 0x8000 + 16 * (id.toNat : Int)
  else 0x9000 + 16 * id.toInt8.toInt

/-- Where row `y` of the map begins in tile `id`, which its attributes may turn upside down. -/
def rowStart (v : Video) (id attributes : UInt8) (y : Nat) : Int :=
  v.tileStart id + 2 * (if attributes.toNat.testBit 6 then 7 - y % 8 else y % 8 : Nat)

theorem vramByte?_eq (v : Video) (bank : VideoBank) {a : UInt16}
    (h : 0x8000 ≤ a.toNat ∧ a.toNat < 0xa000) :
    v.vramByte? bank a.toNat = some (v.vramAt bank a) := by
  have hrange : 0x8000 ≤ (a.toNat : Int) ∧ (a.toNat : Int) ≤ 0x9fff := by omega
  have hoffset : (⟨((a.toNat : Int) - 0x8000).toNat, offset_lt hrange⟩ : Fin 0x2000) =
      offset8K a := by
    apply Fin.ext
    show ((a.toNat : Int) - 0x8000).toNat = a.toNat % 0x2000
    omega
  rw [vramByte?, dif_pos hrange, hoffset]
  rfl

theorem tileColor?_eq (v : Video) (bank : VideoBank) {a : UInt16}
    (h : 0x8000 ≤ a.toNat ∧ a.toNat + 1 < 0xa000) (column : Fin 8) :
    v.tileColor? bank a.toNat column =
      some (pixelColor (v.vramAt bank a) (v.vramAt bank (a + 1)) column).val := by
  have hnext : (a + 1).toNat = a.toNat + 1 := toNat_add_one (by omega)
  have hlow := v.vramByte?_eq bank (a := a) (by omega)
  have hhigh := v.vramByte?_eq bank (a := a + 1) (by omega)
  rw [hnext, Int.natCast_add] at hhigh
  unfold tileColor?
  rw [hlow, Option.bind_eq_bind, Option.bind_some]
  show Option.bind (v.vramByte? bank ((a.toNat : Int) + 1)) _ = _
  rw [show ((a.toNat : Int) + 1) = (a.toNat : Int) + ((1 : Nat) : Int) from rfl, hhigh]
  rfl

/-- A row of a tile that lies in video memory. -/
theorem tileColor?_row (v : Video) (bank : VideoBank) {start : UInt16} {row : Nat}
    (hge : 0x8000 ≤ start.toNat) (hlt : start.toNat + row * 2 + 1 < 0xa000) (column : Fin 8) :
    v.tileColor? bank (start.toNat + 2 * row) column =
      some (pixelColor (v.vramAt bank (start + UInt16.ofNat row * 2))
        (v.vramAt bank (start + UInt16.ofNat row * 2 + 1)) column).val := by
  have hrow : (start + UInt16.ofNat row * 2).toNat = start.toNat + row * 2 :=
    toNat_add_row (by omega)
  have haddress : (start.toNat : Int) + 2 * row = (start + UInt16.ofNat row * 2).toNat := by omega
  rw [haddress]
  exact v.tileColor?_eq bank (by omega) column

theorem toNat_tileAddress (v : Video) (id : UInt8) :
    ((tileAddress v.control.unsignedTiles id).toNat : Int) = v.tileStart id := by
  unfold tileStart
  rw [← Control.unsignedTiles_eq]
  cases v.control.unsignedTiles with
  | true =>
    rw [toNat_tileAddress_true, if_pos rfl]
    omega
  | false =>
    rw [if_neg Bool.false_ne_true]
    exact forall_byte (P := fun id =>
      ((tileAddress false id).toNat : Int) = 0x9000 + 16 * id.toInt8.toInt) (by decide +kernel) id

theorem le_tileAddress (unsigned : Bool) (id : UInt8) :
    0x8000 ≤ (tileAddress unsigned id).toNat := by
  cases unsigned with
  | false =>
    exact forall_byte (P := fun id => 0x8000 ≤ (tileAddress false id).toNat) (by decide +kernel) id
  | true =>
    rw [toNat_tileAddress_true]
    omega

/-! ## Maps -/

/-- Where the map that a bit of the control register chooses begins. -/
def chosenMap (v : Video) (i : Nat) : Int :=
  if v.control.bits.toNat.testBit i then 0x9c00 else 0x9800

theorem chosenMap_eq (v : Video) (i : Fin 8) :
    (((if v.control.bits &&& 1 <<< UInt8.ofNat i != 0 then 0x9c00 else 0x9800 :
      UInt16).toNat : Nat) : Int) = v.chosenMap i := by
  rw [and_shiftLeft_ne_zero, chosenMap]
  split <;> rfl

theorem windowMap_eq (v : Video) : (v.control.windowMap.toNat : Int) = v.chosenMap 6 :=
  v.chosenMap_eq 6

theorem backgroundMap_eq (v : Video) : (v.control.backgroundMap.toNat : Int) = v.chosenMap 3 :=
  v.chosenMap_eq 3

theorem chosenMap_range (v : Video) (i : Nat) :
    0x9800 ≤ v.chosenMap i ∧ v.chosenMap i ≤ 0x9c00 := by
  unfold chosenMap
  split <;> decide

/-- Where the map that begins at `map` tells the tile at column `x` and row `y`. -/
def mapAddress (map : Int) (x y : Nat) : Int := map + 32 * (y / 8 : Nat) + (x / 8 : Nat)

/-- The map that begins at `map` shows colour number `color` in column `x` and row `y`, in a tile
that is drawn as the bits of `attributes` tell. -/
structure Mapped (v : Video) (map : Int) (x y : Nat) (attributes : UInt8) (color : Nat) : Prop where
  attributes_eq :
    match v.model with
    | .dmg => attributes = 0
    | .cgb => v.vramByte? .second (mapAddress map x y) = some attributes
  color_eq : ∃ id, v.vramByte? .first (mapAddress map x y) = some id ∧
    v.tileColor? (if attributes.toNat.testBit 3 then .second else .first)
      (v.rowStart id attributes y)
      (if attributes.toNat.testBit 5 then 7 - x % 8 else x % 8) = some color

/-- A place in a map has only one tile. -/
theorem Mapped.attributes_unique {v : Video} {map : Int} {x y : Nat} {a b : UInt8} {c d : Nat}
    (h : v.Mapped map x y a c) (h' : v.Mapped map x y b d) : a = b := by
  have ha := h.attributes_eq
  have hb := h'.attributes_eq
  cases hmodel : v.model with
  | dmg =>
    simp only [hmodel] at ha hb
    exact ha.trans hb.symm
  | cgb =>
    simp only [hmodel] at ha hb
    exact Option.some.inj (ha.symm.trans hb)

/-- The words `cell` and `row` are the addresses of column `x` and row `y` of the map that begins at
`map`: of the number of the tile there, and of the first byte of its row. These words and the one
after `row` are addresses of video memory. -/
structure Addressed (v : Video) (map : Int) (x y : Nat) (attributes : UInt8)
    (cell row : UInt16) : Prop where
  cell_eq : (cell.toNat : Int) = mapAddress map x y
  row_eq : ∃ id, v.vramByte? .first (mapAddress map x y) = some id ∧
    (row.toNat : Int) = v.rowStart id attributes y
  next_eq : ((row + 1).toNat : Int) = row.toNat + 1
  cell_range : 0x8000 ≤ cell.toNat ∧ cell.toNat ≤ 0x9fff
  row_range : 0x8000 ≤ row.toNat ∧ row.toNat ≤ 0x9fff
  next_range : 0x8000 ≤ (row + 1).toNat ∧ (row + 1).toNat ≤ 0x9fff

theorem val_flipped (flip : Bool) (k : Fin 8) :
    (flipped flip k).val = if flip then 7 - k.val else k.val := by
  unfold flipped
  split
  · rw [Fin.val_rev]
    omega
  · rfl

/-- A map lies in video memory. -/
theorem mapCell_range {map : UInt16} (hmap : 0x9800 ≤ map.toNat ∧ map.toNat ≤ 0x9c00)
    (x y : UInt8) : 0x8000 ≤ (mapCell map x y).toNat ∧ (mapCell map x y).toNat < 0xa000 := by
  have hx := x.toNat_lt
  have hy := y.toNat_lt
  have hcell := toNat_mapCell hmap.2 x y
  omega

/-- Where a place of a map is told. -/
theorem mapCell_eq {map : UInt16} (hmap : map.toNat ≤ 0x9c00) (x y : UInt8) :
    ((mapCell map x y).toNat : Int) = mapAddress map.toNat x.toNat y.toNat := by
  have hcell := toNat_mapCell hmap x y
  rw [mapAddress]
  omega

/-- The row of a tile begins in video memory, and so does its second byte. -/
theorem rowAddress_range (v : Video) (map : UInt16) (x y : UInt8) :
    0x8000 ≤ (v.rowAddress map x y).toNat ∧ (v.rowAddress map x y).toNat + 1 < 0xa000 := by
  have hle := tileAddress_le v.control.unsignedTiles (v.vramAt .first (mapCell map x y))
  have hge := le_tileAddress v.control.unsignedTiles (v.vramAt .first (mapCell map x y))
  have hrow := (flipped (v.attributesAt (mapCell map x y)).flipY (placeInTile y)).isLt
  rw [rowAddress, toNat_add_row (by omega)]
  omega

/-- Where the row of a tile is, if its attributes are told by a byte. -/
theorem rowAddress_eq (v : Video) {map : UInt16} {x y attributes : UInt8}
    (htold : v.attributesAt (mapCell map x y) = .ofByte attributes) :
    ((v.rowAddress map x y).toNat : Int) =
      v.rowStart (v.vramAt .first (mapCell map x y)) attributes y.toNat := by
  have hle := tileAddress_le v.control.unsignedTiles (v.vramAt .first (mapCell map x y))
  have hflip : (v.attributesAt (mapCell map x y)).flipY = attributes.toNat.testBit 6 := by
    rw [htold, Attributes.ofByte_eq]
  rw [rowStart, ← toNat_tileAddress, ← val_placeInTile, ← val_flipped, rowAddress, hflip]
  have hrow := (flipped (attributes.toNat.testBit 6) (placeInTile y)).isLt
  rw [toNat_add_row (by omega)]
  omega

/-- The attributes of a place in a map, which are a byte of the second bank in the colour
console. -/
theorem exists_attributesAt (v : Video) {cell : UInt16}
    (hcell : 0x8000 ≤ cell.toNat ∧ cell.toNat < 0xa000) :
    ∃ attributes, v.attributesAt cell = .ofByte attributes ∧
      match v.model with
      | .dmg => attributes = 0
      | .cgb => v.vramByte? .second cell.toNat = some attributes := by
  unfold attributesAt
  cases v.model with
  | dmg => exact ⟨0, rfl, rfl⟩
  | cgb => exact ⟨_, rfl, v.vramByte?_eq .second hcell⟩

/-- The display shows what the map tells, and reads it from the addresses where it is told. -/
theorem mapped_tilePixel (v : Video) {map : UInt16}
    (hmap : 0x9800 ≤ map.toNat ∧ map.toNat ≤ 0x9c00) (x y : UInt8) :
    ∃ attributes,
      v.Mapped map.toNat x.toNat y.toNat attributes (v.tilePixel map x y).color ∧
        (v.tilePixel map x y).attributes = .ofByte attributes ∧
        v.Addressed map.toNat x.toNat y.toNat attributes (mapCell map x y)
          (v.rowAddress map x y) := by
  have hcell := mapCell_range hmap x y
  have hmapped := mapCell_eq hmap.2 x y
  obtain ⟨attributes, htold, hread⟩ := v.exists_attributesAt hcell
  have hid := v.vramByte?_eq .first hcell
  have hrow := v.rowAddress_eq htold
  have hrange := v.rowAddress_range map x y
  have hnext : (v.rowAddress map x y + 1).toNat = (v.rowAddress map x y).toNat + 1 :=
    toNat_add_one (by omega)
  rw [hmapped] at hid hread
  refine ⟨attributes, ⟨hread, _, hid, ?_⟩, htold, ⟨hmapped, ⟨_, hid, hrow⟩, by omega, by omega,
    by omega, by omega⟩⟩
  simp only [tilePixel, htold, Attributes.ofByte_eq]
  rw [← val_placeInTile, ← val_flipped, ← hrow]
  exact v.tileColor?_eq _ hrange _

/-! ## The line -/

/-- Background and window are not drawn: the monochrome console can switch them off. -/
def Blank (v : Video) : Prop := v.model = .dmg ∧ v.control.bits.toNat.testBit 0 = false

/-- Column `x` of the current line lies in the window, whose first column may lie left of the
screen. -/
def InWindow (v : Video) (x : Nat) : Prop :=
  v.control.bits.toNat.testBit 5 = true ∧ v.windowY.toNat ≤ v.line ∧ v.windowX.toNat ≤ 166 ∧
    (v.windowX.toNat : Int) - 7 ≤ x

instance (v : Video) : Decidable v.Blank := inferInstanceAs (Decidable (_ ∧ _))

instance (v : Video) (x : Nat) : Decidable (v.InWindow x) :=
  inferInstanceAs (Decidable (_ ∧ _ ∧ _ ∧ _))

/-- Where the map begins that column `x` of the current line shows. -/
def mapShown (v : Video) (x : Nat) : Int :=
  if v.InWindow x then v.chosenMap 6 else v.chosenMap 3

/-- The column of that map: counted from the first one of the window, or scrolled and going
round. -/
def mapColumn (v : Video) (x : Nat) : Nat :=
  if v.InWindow x then (x - (v.windowX.toNat - 7 : Int)).toNat else (v.scrollX.toNat + x) % 256

/-- The row of that map: the remembered one of the window, or scrolled and going round. -/
def mapRow (v : Video) (x : Nat) : Nat :=
  if v.InWindow x then v.windowLine.toNat else (v.scrollY.toNat + v.line) % 256

/-- Column `x` of the current line belongs to a tile with the given attributes and has colour number
`color` there. -/
def ShowsTile (v : Video) (x : Nat) (attributes : UInt8) (color : Nat) : Prop :=
  v.Mapped (v.mapShown x) (v.mapColumn x) (v.mapRow x) attributes color

theorem ShowsTile.attributes_unique {v : Video} {x : Nat} {a b : UInt8} {c d : Nat}
    (h : v.ShowsTile x a c) (h' : v.ShowsTile x b d) : a = b :=
  Mapped.attributes_unique h h'

/-- The pixel of background and window in column `x` of the current line. -/
def behind (v : Video) (x : Nat) : Pixel :=
  { color := (v.backgroundPixel x).color, palette := v.backgroundPalette (v.backgroundPixel x) }

theorem drawsBackground_iff (v : Video) : v.drawsBackground = true ↔ ¬ v.Blank := by
  unfold drawsBackground Blank
  rw [Control.hasBackground_eq]
  cases v.model <;> simp

theorem showsWindowAt_iff (v : Video) {x : Nat} (hx : x < screenWidth) (h : ¬ v.Blank) :
    v.ShowsWindowAt x ↔ v.InWindow x := by
  simp only [screenWidth] at hx
  unfold ShowsWindowAt InWindow
  rw [Control.hasWindow_eq, drawsBackground_iff]
  constructor
  · rintro ⟨-, hwindow, hline, hcolumn⟩
    exact ⟨hwindow, hline, by omega, by omega⟩
  · rintro ⟨hwindow, hline, -, hcolumn⟩
    exact ⟨h, hwindow, hline, by omega⟩

/-- The place that a column shows: of the window where that lies, elsewhere of the background. -/
theorem exists_shownPlace (v : Video) (x : Fin screenWidth) (h : ¬ v.Blank) :
    ∃ p, v.shownPlace? x = some p ∧ (p.map.toNat : Int) = v.mapShown x ∧
      p.x.toNat = v.mapColumn x ∧ p.y.toNat = v.mapRow x := by
  have hx := x.isLt
  simp only [screenWidth] at hx
  by_cases hwindow : v.InWindow x
  · have hshows := (showsWindowAt_iff v x.isLt h).2 hwindow
    have hfirst := hshows.2.2.2
    refine ⟨_, shownPlace?_of_showsWindowAt x.isLt hshows, ?_, ?_, ?_⟩
    · rw [mapShown, if_pos hwindow]
      exact v.windowMap_eq
    · rw [mapColumn, if_pos hwindow, UInt8.toNat_ofNat']
      omega
    · rw [mapRow, if_pos hwindow]
  · have hnot := mt (showsWindowAt_iff v x.isLt h).1 hwindow
    refine ⟨_, shownPlace?_of_not_showsWindowAt ((drawsBackground_iff v).2 h) hnot, ?_, ?_, ?_⟩
    · rw [mapShown, if_neg hwindow]
      exact v.backgroundMap_eq
    · rw [mapColumn, if_neg hwindow, UInt8.toNat_add, UInt8.toNat_ofNat']
      omega
    · rw [mapRow, if_neg hwindow, UInt8.toNat_add, UInt8.toNat_ofNat']
      omega

theorem mapShown_range (v : Video) (x : Nat) : 0x9800 ≤ v.mapShown x ∧ v.mapShown x ≤ 0x9c00 := by
  unfold mapShown
  split <;> exact v.chosenMap_range _

/-- A column shows a pixel of the window where that lies, and elsewhere of the background. -/
theorem showsTile_behind (v : Video) (x : Fin screenWidth) (h : ¬ v.Blank) :
    ∃ p attributes, v.shownPlace? x = some p ∧ v.ShowsTile x attributes (v.behind x).color ∧
      (v.backgroundPixel x).attributes = .ofByte attributes ∧
      v.Addressed (v.mapShown x) (v.mapColumn x) (v.mapRow x) attributes
        (mapCell p.map p.x p.y) (v.rowAddress p.map p.x p.y) := by
  obtain ⟨p, hplace, hmap, hcolumn, hrow⟩ := v.exists_shownPlace x h
  have hrange : 0x9800 ≤ p.map.toNat ∧ p.map.toNat ≤ 0x9c00 := by
    have := v.mapShown_range x
    omega
  obtain ⟨attributes, hmapped, htold, haddressed⟩ := v.mapped_tilePixel hrange p.x p.y
  have hpixel : v.backgroundPixel x = v.tilePixel p.map p.x p.y := by rw [backgroundPixel, hplace]
  rw [hmap, hcolumn, hrow] at hmapped haddressed
  refine ⟨p, attributes, hplace, ?_, ?_, haddressed⟩
  · rw [ShowsTile, behind, hpixel]
    exact hmapped
  · rw [hpixel]
    exact htold

/-- The pixel in column `x` of the current line after the line is drawn. -/
def drawn (v : Video) (hline : v.line < screenHeight) (x : Fin screenWidth) : Pixel :=
  (v.enterNext.1.back.rows.get ⟨v.line, hline⟩).get x

theorem drawn_eq_pixel {v : Video} (hphase : v.phase = .transfer) (hline : v.line < screenHeight)
    (x : Fin screenWidth) : v.drawn hline x = v.pixel v.spriteRows x := by
  have hrow : v.enterNext.1.back.rows[v.line] = v.row := by
    rw [enterNext_transfer hphase]
    exact (Picture.rows_setRow v.back v.line v.line v.row hline hline).trans (if_pos rfl)
  show v.enterNext.1.back.rows[v.line][x] = _
  rw [hrow, row]
  exact Vector.getElem_ofFn x.isLt

/-- When a line is drawn, a column of it shows under the sprites a pixel of one of two maps. In the
window, which is shown from a column and a line on, the pixel is one of the remembered row;
elsewhere it is one of the background, scrolled in both directions. The tile that the map names,
and in the colour console its attributes, tell the pixel and the palette. They are read from the
addresses where the map tells the tile and the tile its row, all of them in video memory. The
monochrome console can show neither map; then the line is blank and leaves the window's row. -/
theorem background_shown {v : Video} (hphase : v.phase = .transfer) (hline : v.line < screenHeight)
    (x : Fin screenWidth) :
    (v.Blank → v.behind x = { color := 0, palette := .background } ∧ v.shownPlace? x = none ∧
      v.enterNext.1.windowLine = v.windowLine) ∧
    (¬ v.Blank → ∃ p attributes, v.shownPlace? x = some p ∧
      v.ShowsTile x attributes (v.behind x).color ∧
      ((v.behind x).palette =
        match v.model with
        | .dmg => .background
        | .cgb => .colorBackground (Fin.ofNat 8 attributes.toNat)) ∧
      v.Addressed (v.mapShown x) (v.mapColumn x) (v.mapRow x) attributes
        (mapCell p.map p.x p.y) (v.rowAddress p.map p.x p.y)) ∧
    (v.control.bits.toNat.testBit 1 = false →
      v.drawn hline x = v.behind x) := by
  refine ⟨fun hblank => ?_, fun hblank => ?_, fun hsprites => ?_⟩
  · have hnone : v.drawsBackground = false :=
      Bool.eq_false_iff.2 fun hdraws => (drawsBackground_iff v).1 hdraws hblank
    have hplace : v.shownPlace? x = none := by simp [shownPlace?, hnone]
    have hpixel : v.backgroundPixel x = {} := by rw [backgroundPixel, hplace]
    have hwindow : v.drawsWindow = false := by simp [drawsWindow, hnone]
    refine ⟨?_, hplace, ?_⟩
    · rw [behind, hpixel, backgroundPalette, hblank.1]
      rfl
    · rw [enterNext_transfer hphase]
      exact if_neg (Bool.eq_false_iff.1 hwindow)
  · obtain ⟨p, attributes, hplace, hmapped, htold, haddressed⟩ := v.showsTile_behind x hblank
    refine ⟨p, attributes, hplace, hmapped, ?_, haddressed⟩
    show v.backgroundPalette (v.backgroundPixel x) = _
    rw [backgroundPalette, htold]
    cases v.model <;> rfl
  · have hrows : v.spriteRows = [] := by
      rw [spriteRows, Control.hasSprites_eq, hsprites]
      rfl
    rw [drawn_eq_pixel hphase hline, hrows]
    rfl

/-- A window that begins left of the screen: the first column shows the window's fifth, of its tenth
row. The map tells there the lowest of the signed tiles, turned upside down. -/
theorem background_shown_left :
    let v : Video := { powerUp .cgb with
      phase := .transfer, control := ⟨0xe1⟩
      vram := .ofFn 0x4000 fun i => if i = 0x1c20 then 0x80 else if i = 0x3c20 then 0x42 else 0
      line := 15, windowX := 3, windowY := 2, windowLine := 9 }
    v.phase = .transfer ∧ ∃ hline : v.line < screenHeight, ¬ v.Blank ∧ v.InWindow 0 ∧
      (∃ p, v.shownPlace? 0 = some p ∧ v.Mapped 0x9c00 4 9 0x42 (v.behind 0).color ∧
        (v.behind 0).palette = .colorBackground 2 ∧ (mapCell p.map p.x p.y).toNat = 0x9c20 ∧
        (v.rowAddress p.map p.x p.y).toNat = 0x880c) ∧
      v.control.bits.toNat.testBit 1 = false ∧ v.drawn hline ⟨0, by decide⟩ = v.behind 0 := by
  intro v
  have hline : v.line < screenHeight := by decide
  obtain ⟨-, hshown, hdrawn⟩ := background_shown (v := v) rfl hline ⟨0, by decide⟩
  have hblank : ¬ v.Blank := by decide
  have hwindow : v.InWindow 0 := by decide
  have hsprites : v.control.bits.toNat.testBit 1 = false := by decide
  refine ⟨rfl, hline, hblank, hwindow, ?_, hsprites, hdrawn hsprites⟩
  obtain ⟨p, attributes, hplace, hmapped, hpalette, haddressed⟩ := hshown hblank
  have hmap : v.mapShown 0 = 0x9c00 := by decide
  have hcolumn : v.mapColumn 0 = 4 := by decide
  have hrow : v.mapRow 0 = 9 := by decide
  rw [ShowsTile, hmap, hcolumn, hrow] at hmapped
  rw [hmap, hcolumn, hrow] at haddressed
  -- the two bytes that the map tells there
  have hbyte (bank : VideoBank) (a : UInt16) : v.vramAt bank a =
      (fun i => if i = 0x1c20 then 0x80 else if i = 0x3c20 then 0x42 else 0)
        (bank.cell (offset8K a)).val := by
    show v.vram[(bank.cell (offset8K a)).val] = _
    simp only [v, Block.getElem_ofFn]
  have hid : v.vramByte? .first 0x9c20 = some 0x80 :=
    (v.vramByte?_eq .first (a := 0x9c20) (by decide)).trans (congrArg some (hbyte ..))
  have htold : v.vramByte? .second 0x9c20 = some 0x42 :=
    (v.vramByte?_eq .second (a := 0x9c20) (by decide)).trans (congrArg some (hbyte ..))
  obtain rfl : attributes = 0x42 :=
    Option.some.inj (hmapped.attributes_eq.symm.trans htold)
  obtain ⟨id, hread, hstart⟩ := haddressed.row_eq
  obtain rfl : id = 0x80 := Option.some.inj (hread.symm.trans hid)
  have hrowStart : v.rowStart 0x80 0x42 9 = 0x880c := by decide
  have hcell : (mapCell p.map p.x p.y).toNat = 0x9c20 := Int.ofNat_inj.1 haddressed.cell_eq
  exact ⟨p, hplace, hmapped, hpalette, hcell, Int.ofNat_inj.1 (hstart.trans hrowStart)⟩

end Video

end GameBoy
