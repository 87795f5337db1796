import GameBoy.Proofs.Board.Monochrome
import GameBoy.Proofs.Video.Conditions
import GameBoy.Proofs.Video.Pictures

/-!
# What pictures show

A line is drawn from the palettes that the console has, and a sprite shows no pixel that is
transparent. The two pictures that change places are blank at first; but whenever one becomes the
shown one, all its lines have been drawn since the other did, whatever was done to the display in
between.

* `Pixel.Fits`: a pixel as a console of some model draws it.
* `Video.fits_row`: so are the pixels of a line.
* `Video.Whole`: the shown picture is blank before the first one is complete, and fits afterwards.
* `Reachable.whole`: it holds of every display.
-/

namespace GameBoy

/-- Whether a palette is one for sprites. -/
def Palette.isObject : Palette → Bool
  | .object0 | .object1 | .colorObject _ => true
  | .background | .colorBackground _ => false

/-- A pixel as a console of the given model draws it: its palette is one of those of the console,
and it is not transparent if it is a sprite's. -/
structure Pixel.Fits (model : Model) (x : Pixel) : Prop where
  palette : x.palette.isColor = model.isColor
  visible : x.palette.isObject = true → x.color ≠ .backdrop

/-- What holds in all rows holds in all of the picture. -/
theorem Picture.forall_pixels {p : Picture} {P : Pixel → Prop}
    (h : ∀ y (hy : y < screenHeight), ∀ x ∈ p.rows[y], P x) : ∀ x ∈ p.pixels, P x := by
  intro x hx
  obtain ⟨row, hrow, hmem⟩ := List.mem_flatMap.1 hx
  obtain ⟨y, hy, rfl⟩ := Vector.mem_iff_getElem.1 (Vector.mem_toList_iff.1 hrow)
  exact h y hy x (Vector.mem_toList_iff.1 hmem)

theorem Picture.eq_blank_of_mem {x : Pixel} (hx : x ∈ Picture.blank.pixels) : x = .blank := by
  obtain ⟨row, hrow, hmem⟩ := List.mem_flatMap.1 hx
  obtain rfl : row = Vector.replicate screenWidth .blank :=
    (Vector.mem_replicate.1 (Vector.mem_toList_iff.1 hrow)).2
  exact (Vector.mem_replicate.1 (Vector.mem_toList_iff.1 hmem)).2

namespace Video

variable {v w : Video}

/-! ## A line -/

/-- The pixel that sprites show is not transparent. -/
theorem color_spritePixel? {rows : List SpriteRow} {x : Nat} {p : TilePixel}
    (h : spritePixel? rows x = some p) : p.color ≠ .backdrop := by
  obtain ⟨r, -, hr⟩ := List.exists_of_findSome?_eq_some h
  split_ifs at hr with hcolor
  obtain rfl := Option.some.inj hr
  exact hcolor

theorem isColor_backgroundPalette (v : Video) (p : TilePixel) :
    (v.backgroundPalette p).isColor = v.model.isColor ∧
      (v.backgroundPalette p).isObject = false := by
  unfold backgroundPalette
  cases v.model <;> exact ⟨rfl, rfl⟩

theorem isColor_spritePalette (v : Video) (p : TilePixel) :
    (v.spritePalette p).isColor = v.model.isColor := by
  unfold spritePalette
  cases v.model with
  | dmg =>
    simp only
    split <;> rfl
  | cgb => rfl

/-- A line is drawn from the palettes of the console. -/
theorem fits_row (v : Video) : ∀ x ∈ v.row, x.Fits v.model := by
  intro x hx
  obtain ⟨i, rfl⟩ := Vector.mem_ofFn.1 hx
  have hbehind (p : TilePixel) :
      Pixel.Fits v.model { color := p.color, palette := v.backgroundPalette p } := by
    obtain ⟨hcolor, hobject⟩ := v.isColor_backgroundPalette p
    refine ⟨hcolor, fun h => ?_⟩
    rw [hobject] at h
    cases h
  unfold pixel
  simp only
  split
  · exact hbehind _
  · rename_i sprite hsprite
    split
    · exact hbehind _
    · exact ⟨v.isColor_spritePalette sprite, fun _ => color_spritePixel? hsprite⟩

/-! ## The model -/

theorem model_write (v : Video) (l : Location) (b : UInt8) : (v.write l b).1.model = v.model := by
  cases l with
  | control =>
    change (v.setControl b).1.model = _
    rcases v.setControl_cases b with ⟨-, hset⟩ | ⟨-, -, hset⟩ | ⟨-, -, hset⟩
    · rw [hset]
    · rw [hset, updateStatus_fst]
      rfl
    · rw [hset]
      rfl
  | status | lineCompare =>
    change (updateStatus _).1.model = _
    rw [updateStatus_fst]
  | _ => rfl

theorem model_advance (h : v.Placed) (n : Nat) : (v.advance n).1.model = v.model := by
  refine h.advance_keeps (P := fun w => w.model = v.model) (fun _ _ _ h => h) ?_ rfl n
  intro w _ hw
  rw [endPhase_fst, updateStatus_fst, ← hw]
  unfold enterNext
  split
  · rfl
  · rfl
  · simp only
    split <;> rfl
  · simp only
    split <;> rfl

/-! ## Pictures -/

/-- The shown picture is blank before the first one is complete, and fits the console afterwards. So
do the lines that have been drawn of the next one. -/
structure Whole (v : Video) : Prop where
  first : v.frames = 0 → v.front = .blank
  front : 0 < v.frames → ∀ y (hy : y < screenHeight), ∀ x ∈ v.front.rows[y], x.Fits v.model
  back : v.control.isOn = true → ∀ y (hy : y < screenHeight), v.Drawn y →
    ∀ x ∈ v.back.rows[y], x.Fits v.model

theorem whole_powerUp (model : Model) : (powerUp model).Whole where
  first _ := rfl
  front h := absurd h (Nat.lt_irrefl 0)
  back _ y _ hdrawn := by
    rcases hdrawn with hbefore | ⟨-, hphase⟩
    · exact absurd hbefore (Nat.not_lt_zero y)
    · cases hphase

/-- At the beginning of a pass nothing is drawn. -/
theorem not_drawn_of_start (hline : w.line = 0) (hphase : w.phase = .search) (y : Nat) :
    ¬ w.Drawn y := by
  rw [Drawn, hline, hphase]
  simp

/-- While the shown picture stays, the lines drawn meanwhile are all that matters. -/
theorem Whole.of_front (h : v.Whole) (hmodel : w.model = v.model) (hframes : w.frames = v.frames)
    (hfront : w.front = v.front)
    (hback : w.control.isOn = true → ∀ y (hy : y < screenHeight), w.Drawn y →
      ∀ x ∈ w.back.rows[y], x.Fits v.model) : w.Whole where
  first hnone := by
    rw [hfront]
    exact h.first (hframes ▸ hnone)
  front hsome := by
    rw [hfront, hmodel]
    exact h.front (hframes ▸ hsome)
  back := by
    rw [hmodel]
    exact hback

/-- One dot, a write, or the taking of a picture. -/
theorem Moves.whole (hmoves : Moves v w) (hmodel : w.model = v.model) (h : v.Whole) : w.Whole := by
  cases hmoves with
  | stays on frames front back drawn =>
    refine h.of_front hmodel frames front fun hon y hy hdrawn => ?_
    rw [back]
    exact h.back (on ▸ hon) y hy ((drawn y hy).1 hdrawn)
  | draws wasOn on frames front back line before after =>
    refine h.of_front hmodel frames front fun _ y hy hdrawn => ?_
    rw [back]
    by_cases hnow : v.line = y
    · rw [Picture.rows_setRow _ _ _ _ (hnow.symm ▸ hy) hy, if_pos hnow]
      exact v.fits_row
    · rw [Picture.rows_setRow_of_ne _ _ hnow hy]
      rw [Drawn, line] at hdrawn
      exact h.back wasOn y hy (.inl (by omega))
  | rests wasOn on frames front back drawn =>
    refine h.of_front hmodel frames front fun _ y hy hdrawn => ?_
    rw [back]
    exact h.back wasOn y hy ((drawn y hy).1 hdrawn)
  | completes wasOn on frames front seen before line after =>
    refine ⟨fun hnone => absurd (frames.symm.trans hnone) (Nat.succ_ne_zero _), fun _ y hy => ?_,
      fun _ y _ hdrawn => absurd hdrawn (not_drawn_of_start line after y)⟩
    rw [front, hmodel]
    exact h.back wasOn y hy (.inl (Nat.lt_of_lt_of_le hy seen))
  | switches on frames front line after =>
    refine h.of_front hmodel frames front fun hon y _ hdrawn => ?_
    exact absurd hdrawn (not_drawn_of_start line (after hon) y)

theorem Whole.advance (h : v.Whole) (hv : v.Placed) (n : Nat) : (v.advance n).1.Whole := by
  induction n with
  | zero =>
    rw [advance_zero hv]
    exact ⟨h.first, h.front, h.back⟩
  | succ n ih =>
    have hplaced := (hv.advance n).1
    have hlast := (moves_dot hplaced).whole (model_advance hplaced 1) ih
    change (v.dots (n + 1)).Whole
    rw [dots_succ hv]
    exact ⟨hlast.first, hlast.front, hlast.back⟩

/-- Whatever programs and time did to a display, its pictures are whole. -/
theorem Reachable.whole (h : v.Reachable) : v.Whole := by
  induction h with
  | powerUp model => exact whole_powerUp model
  | @write v l b _ ih => exact (moves_write v l b).whole (v.model_write l b) ih
  | advance n hv ih => exact ih.advance hv.placed n
  | takeFrame _ ih => exact ⟨ih.first, ih.front, ih.back⟩

/-- Before the first picture is complete nothing is shown of sprites, and afterwards nothing that is
transparent. -/
theorem Whole.visible (h : v.Whole) :
    ∀ x ∈ v.front.pixels, x.palette.isObject = true → x.color ≠ .backdrop := by
  intro x hx hobject
  rcases Nat.eq_zero_or_pos v.frames with hnone | hsome
  · rw [h.first hnone] at hx
    rw [Picture.eq_blank_of_mem hx] at hobject
    cases hobject
  · exact (Picture.forall_pixels (h.front hsome) x hx).visible hobject

/-- From the first complete picture on, the palettes are those of the console. -/
theorem Whole.palettes (h : v.Whole) (hframes : 0 < v.frames) :
    ∀ q ∈ v.front.palettes, q.isColor = v.model.isColor := by
  intro q hq
  obtain ⟨x, hx, rfl⟩ := List.mem_map.1 hq
  exact (Picture.forall_pixels (h.front hframes) x hx).palette

end Video

namespace Board

theorem video_model_write (b : Board) (a : UInt16) (v : UInt8) :
    (b.write a v).video.model = b.video.model := by
  unfold write
  cases Location.find b.model a with
  | video l => exact b.video.model_write l v
  | spriteCopy =>
    obtain ⟨page, oam, hcopied⟩ := b.copySprites_frame v
    simp only [writeAt, hcopied]
  | _ => rfl

/-- The display is of the model of the board. -/
theorem Reachable.video_model {b : Board} (h : b.Reachable) : b.video.model = b.model := by
  induction h with
  | powerUp => rfl
  | @write b a v _ ih => rw [video_model_write, model_write, ih]
  | @switchRate b _ ih =>
    have hmodel : b.switchRate.2.model = b.model := b.model_perform .switchRate
    rw [switchRate_video, hmodel, ih]
  | @advance b n hb ih =>
    obtain ⟨vram, transfer, journal, hcopied⟩ := b.runTransfer_frame
    have hplaced := hb.valid.runTransfer.video
    have hsame : b.runTransfer.video.model = b.runTransfer.model := by
      rw [hcopied]
      exact ih
    change (b.runTransfer.video.advance _).1.model = b.runTransfer.model
    rw [Video.model_advance hplaced, hsame]
  | takeFrame | press | release | loadRam | journal => assumption

end Board

end GameBoy
