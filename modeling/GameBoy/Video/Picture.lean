import GameBoy.Video.Palette

/-!
# Pictures

A picture is 144 rows of 160 pixels, together with the monochrome palettes it was finished under.

* `Picture.setRow`: a row is replaced as a whole.
* `Picture.colors`, `Picture.palettes`, `Picture.shades`: the pixels in reading order.
-/

namespace GameBoy

/-- Pixels in a row. -/
abbrev screenWidth : Nat := 160

/-- Rows in a picture. -/
abbrev screenHeight : Nat := 144

/-- A colour number and the palette it belongs to. -/
structure Pixel where
  color : Color
  palette : Palette
deriving DecidableEq

/-- What is shown before anything was drawn. -/
def Pixel.blank : Pixel := { color := .backdrop, palette := .background }

/-- A row of pixels. -/
abbrev Row := Vector Pixel screenWidth

/-- A picture. -/
structure Picture where
  rows : Vector Row screenHeight
  /-- The monochrome palettes. -/
  shading : Shades

namespace Picture

/-- A picture of blank pixels. -/
def blank : Picture :=
  { rows := Vector.replicate screenHeight (Vector.replicate screenWidth .blank), shading := {} }

/-- Replaces a row; there is none past the last. -/
def setRow (p : Picture) (y : Nat) (row : Row) : Picture :=
  if h : y < screenHeight then { p with rows := p.rows.set y row } else p

/-- A replaced row is there, and the other rows are as before. -/
theorem rows_setRow (p : Picture) (y i : Nat) (row : Row) (hy : y < screenHeight)
    (hi : i < screenHeight) : (p.setRow y row).rows[i] = if y = i then row else p.rows[i] := by
  simp [setRow, hy, Vector.getElem_set]

theorem rows_setRow_of_ne (p : Picture) {y i : Nat} (row : Row) (h : y ≠ i)
    (hi : i < screenHeight) : (p.setRow y row).rows[i] = p.rows[i] := by
  by_cases hy : y < screenHeight
  · rw [rows_setRow p y i row hy hi, if_neg h]
  · simp [setRow, hy]

@[simp] theorem shading_setRow (p : Picture) (y : Nat) (row : Row) :
    (p.setRow y row).shading = p.shading := by
  unfold setRow
  split <;> rfl

/-- All pixels in reading order. -/
def pixels (p : Picture) : List Pixel := p.rows.toList.flatMap Vector.toList

/-- The colour numbers in reading order. -/
def colors (p : Picture) : List Color := p.pixels.map Pixel.color

/-- The palettes in reading order. -/
def palettes (p : Picture) : List Palette := p.pixels.map Pixel.palette

/-- The shades in reading order. -/
def shades (p : Picture) : List Color := p.pixels.map fun x => p.shading.shade x.palette x.color

theorem length_flatMap_toList {α : Type} {n m : Nat} (v : Vector (Vector α n) m) :
    (v.toList.flatMap Vector.toList).length = m * n := by
  have h : ∀ l : List (Vector α n), (l.flatMap Vector.toList).length = l.length * n := by
    intro l
    induction l with
    | nil => simp
    | cons r l ih => simp [ih, Nat.add_mul, Nat.add_comm]
  rw [h, Vector.length_toList]

/-- A picture has 23040 pixels. -/
@[simp] theorem length_pixels (p : Picture) : p.pixels.length = screenHeight * screenWidth :=
  length_flatMap_toList p.rows

end Picture

end GameBoy
