import GameBoy.Video.Line
import GameBoy.Video.Status

/-!
# The passing of time in the display

Time passes from the end of one phase to the end of the next. When the last phase of a seen line
begins, the line is drawn; when the unseen lines begin, the palettes are noted and an interrupt is
requested; when they end, the picture is complete and becomes the one that is shown.

* `Video.endPhase`: the current phase ends.
* `Video.scan`: any number of dots pass while the display is on.
* `Video.advance`: the same, on or off. While the display is off nothing changes.
-/

namespace GameBoy.Video

/-- The unseen lines are over: the drawn picture becomes the shown one. -/
def completeFrame (v : Video) : Video :=
  { v with front := v.back, back := v.front, frameReady := true, frames := v.frames + 1 }

/-- The phase that follows, and what happens as it begins. The flag says whether the unseen lines
begin. -/
def enterNext (v : Video) : Video × Bool :=
  match v.phase with
  | .search => ({ v with phase := .transfer }, false)
  | .transfer => (drawLine { v with phase := .hblank, lineDrawn := true }, false)
  | .hblank =>
    let v := { v with dot := 0, line := v.line + 1 }
    if v.line = screenHeight then
      ({ v with phase := .vblank, back := { v.back with shading := v.shading } }, true)
    else ({ v with phase := .search }, false)
  | .vblank =>
    let v := { v with dot := 0, line := v.line + 1 }
    if v.line = linesPerFrame then
      (completeFrame { v with line := 0, windowLine := 0, phase := .search }, false)
    else (v, false)

/-- The current phase ends: the display afterwards, and the interrupts it requests. -/
def endPhase (v : Video) : Video × Requests :=
  let entered := v.enterNext
  let updated := entered.1.updateStatus
  (updated.1, (Requests.raiseIf ∅ .vblank entered.2).raiseIf .lcdStat updated.2)

/-- Lets `dots` pass while the display is on, with `raised` the interrupts already requested. -/
def scan (v : Video) (raised : Requests) (dots : Nat) : Video × Requests :=
  let left := v.phase.boundary - v.dot
  if left = 0 ∨ dots < left then ({ v with dot := v.dot + dots }, raised)
  else
    let ended := endPhase { v with dot := v.dot + left }
    scan ended.1 (raised ∪ ended.2) (dots - left)
termination_by dots
decreasing_by omega

/-- Lets `dots` pass: the display afterwards, and the interrupts it requests. -/
def advance (v : Video) (dots : Nat) : Video × Requests :=
  let v := { v with lineDrawn := false }
  if v.control.isOn then v.scan ∅ dots else (v, ∅)

end GameBoy.Video
