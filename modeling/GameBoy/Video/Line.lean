import GameBoy.Video.Sprites

/-!
# Drawing a line

* `Video.pixel`: a pixel of the current line, the background's or a sprite's that is not covered.
* `Video.drawLine`: the line goes into the picture that is being drawn, and if it showed the window,
  the window's next row is drawn next.
-/

namespace GameBoy.Video

/-- The pixel in column `x`, with the given rows of sprites over the background. -/
def pixel (v : Video) (rows : List SpriteRow) (x : Nat) : Pixel :=
  let background := v.backgroundPixel x
  let behind : Pixel := { color := background.color, palette := v.backgroundPalette background }
  match spritePixel? rows x with
  | none => behind
  | some sprite =>
    if v.covers background sprite then behind
    else { color := sprite.color, palette := v.spritePalette sprite }

/-- The pixels of the current line. -/
def row (v : Video) : Row :=
  let rows := v.spriteRows
  Vector.ofFn fun x => v.pixel rows x

/-- Draws the current line. -/
def drawLine (v : Video) : Video :=
  { v with
    back := v.back.setRow v.line v.row
    windowLine := if v.drawsWindow then v.windowLine + 1 else v.windowLine }

end GameBoy.Video
