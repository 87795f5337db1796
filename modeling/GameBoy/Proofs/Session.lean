import GameBoy.Proofs.Board.Shown
import GameBoy.Proofs.Checked.Operations
import GameBoy.Proofs.Machine.Frames
import GameBoy.Session

/-!
# Pictures that are handed out

Whoever asks for a picture gets the colour numbers and palettes of all its pixels, or their shades
as bytes, as many as a buffer holds.

* `getElem?_pixels`: the pixels come in reading order.
* `Shades.checkedShade`: the shade of a pixel in words of eight bits.
* `Session.pictures_well_formed`: what a picture consists of, and what reaches a buffer.
-/

namespace GameBoy

/-! ## Reading order -/

theorem getElem?_flatMap_toList {α : Type} {n : Nat} {l : List (Vector α n)} {y x : Nat}
    (hy : y < l.length) (hx : x < n) : (l.flatMap Vector.toList)[n * y + x]? = some l[y][x] := by
  induction l generalizing y with
  | nil => exact absurd hy (Nat.not_lt_zero y)
  | cons r l ih =>
    have hlength : r.toList.length = n := Vector.length_toList
    rw [List.flatMap_cons]
    cases y with
    | zero =>
      rw [Nat.mul_zero, Nat.zero_add, List.getElem?_append_left (by omega)]
      simp [hx]
    | succ y =>
      have hback : n * (y + 1) + x - r.toList.length = n * y + x := by
        rw [hlength, Nat.mul_succ]
        omega
      rw [List.getElem?_append_right (by rw [hlength, Nat.mul_succ]; omega), hback,
        ih (Nat.lt_of_succ_lt_succ hy)]
      rfl

/-- The pixels of a picture come row by row, and in each row from the left. -/
theorem Picture.getElem?_pixels (p : Picture) {y x : Nat} (hy : y < screenHeight)
    (hx : x < screenWidth) : p.pixels[screenWidth * y + x]? = some p.rows[y][x] := by
  have hlength : y < p.rows.toList.length := by rwa [Vector.length_toList]
  rw [pixels, getElem?_flatMap_toList hlength hx]
  simp

/-! ## Shades -/

namespace Shades

open Checked (mul shift)

/-- The shade of a colour number in words of eight bits, which can be shifted by seven at most. -/
def checkedShadeIn (palette c : UInt8) : Option UInt8 := do
  let amount ← mul 8 c.toNat 2
  shift 8 amount
  return palette >>> UInt8.ofNat amount &&& 0x03

/-- The shade of a pixel in words of eight bits. -/
def checkedShade (s : Shades) (p : Palette) (c : UInt8) : Option UInt8 :=
  match p with
  | .background => checkedShadeIn s.background c
  | .object0 => checkedShadeIn s.object0 c
  | .object1 => checkedShadeIn s.object1 c
  | .colorBackground _ | .colorObject _ => some c

theorem checkedShadeIn_eq (palette : UInt8) (c : Color) :
    checkedShadeIn palette (UInt8.ofNat c.val) = some (UInt8.ofNat (shadeIn palette c).val) :=
  forall_byte (P := fun palette => ∀ c : Color,
      checkedShadeIn palette (UInt8.ofNat c.val) = some (UInt8.ofNat (shadeIn palette c).val))
    (by decide +kernel) palette c

theorem checkedShade_eq (s : Shades) (p : Palette) (c : Color) :
    s.checkedShade p (UInt8.ofNat c.val) = some (UInt8.ofNat (s.shade p c).val) := by
  cases p with
  | background | object0 | object1 => exact checkedShadeIn_eq _ c
  | colorBackground | colorObject => rfl

end Shades

namespace Session

/-! ## Buffers -/

theorem length_shadeBytes (p : Picture) : (shadeBytes p).length = screenHeight * screenWidth := by
  rw [shadeBytes, Picture.shades, List.length_map, List.length_map, Picture.length_pixels]

/-- A byte is the shade of the pixel at its place. -/
theorem getElem?_shadeBytes (p : Picture) {y x : Nat} (hy : y < screenHeight)
    (hx : x < screenWidth) : (shadeBytes p)[screenWidth * y + x]? =
      some (UInt8.ofNat (p.shading.shade p.rows[y][x].palette p.rows[y][x].color).val) := by
  rw [shadeBytes, Picture.shades, List.getElem?_map, List.getElem?_map,
    p.getElem?_pixels hy hx]
  rfl

/-- A copy is as long as the buffer, begins with the shades, and goes on with what was there. -/
theorem copyShades_eq {s : Session} {m : Machine} (hs : s.machine? = some m)
    (buffer : List UInt8) :
    let n := min buffer.length (screenHeight * screenWidth)
    ∃ copied, s.copyShades (some buffer) = (n, some copied) ∧ copied.length = buffer.length ∧
      (∀ i, i < n → copied[i]? = (shadeBytes m.picture)[i]?) ∧
      ∀ i, n ≤ i → copied[i]? = buffer[i]? := by
  intro n
  have hlength := length_shadeBytes m.picture
  have hn : min (shadeBytes m.picture).length buffer.length = n := by
    rw [hlength, Nat.min_comm]
  have hfirst : ((shadeBytes m.picture).take n).length = n := by
    rw [List.length_take]
    omega
  refine ⟨(shadeBytes m.picture).take n ++ buffer.drop n, ?_, ?_, fun i hi => ?_, fun i hi => ?_⟩
  · have hpicture : s.picture? = some m.picture := congrArg (Option.map Machine.picture) hs
    simp only [copyShades, hpicture, hn]
  · rw [List.length_append, hfirst, List.length_drop]
    omega
  · rw [List.getElem?_append_left (by omega), List.getElem?_take_of_lt hi]
  · rw [List.getElem?_append_right (by omega), hfirst, List.getElem?_drop]
    congr 1
    omega

/-- Every picture that a machine hands out is well formed, whatever was done to the machine. It has
160 times 144 colour numbers from 0 to 3 and as many palettes, and no sprite shows number 0. From
the first complete picture on, all palettes are those of the console. So its shades are found with
shifts by six bits at most, and lie from 0 to 3 too. A buffer of any length gets as many of them as
it has room for, row by row; the number is told, and the rest of the buffer stays. -/
theorem pictures_well_formed {m : Machine} (h : m.Reachable) :
    let p := m.picture
    (p.colors.length = 160 * 144 ∧ p.palettes.length = 160 * 144) ∧
    (∀ x ∈ p.pixels, x.color.val ≤ 3 ∧ (x.palette.isObject = true → x.color.val ≠ 0)) ∧
    (0 < m.frames → ∀ q ∈ p.palettes,
      (m.model = .cgb → ∃ n : Fin 8, q = .colorBackground n ∨ q = .colorObject n) ∧
      (m.model = .dmg → q = .background ∨ q = .object0 ∨ q = .object1)) ∧
    (∀ x ∈ p.pixels, 2 * x.color.val ≤ 6 ∧
      p.shading.checkedShade x.palette (UInt8.ofNat x.color.val) =
        some (UInt8.ofNat (p.shading.shade x.palette x.color).val)) ∧
    (∀ v ∈ shadeBytes p, v ≤ 3) ∧
    ∀ s : Session, s.machine? = some m → ∀ buffer : List UInt8,
      let n := min buffer.length 23040
      ∃ copied, s.copyShades (some buffer) = (n, some copied) ∧ copied.length = buffer.length ∧
        (∀ y x (hy : y < screenHeight) (hx : x < screenWidth), screenWidth * y + x < n →
          copied[screenWidth * y + x]? =
            some (UInt8.ofNat (p.shading.shade p.rows[y][x].palette p.rows[y][x].color).val)) ∧
        ∀ i, n ≤ i → copied[i]? = buffer[i]? := by
  intro p
  have hwhole : m.board.video.Whole := h.board.video.whole
  refine ⟨⟨?_, ?_⟩, fun x hx => ⟨Nat.le_of_lt_succ x.color.isLt, fun hobject hzero => ?_⟩, ?_,
    fun x _ => ⟨?_, p.shading.checkedShade_eq x.palette x.color⟩, ?_, ?_⟩
  · exact (List.length_map _).trans p.length_pixels
  · exact (List.length_map _).trans p.length_pixels
  · exact hwhole.visible x hx hobject (Fin.ext hzero)
  · intro hframes q hq
    have hcolor : q.isColor = m.model.isColor := by
      rw [hwhole.palettes hframes q hq, h.board.video_model]
      rfl
    constructor
    · intro hmodel
      rw [hmodel] at hcolor
      cases q with
      | colorBackground n => exact ⟨n, .inl rfl⟩
      | colorObject n => exact ⟨n, .inr rfl⟩
      | background | object0 | object1 => cases hcolor
    · intro hmodel
      rw [hmodel] at hcolor
      cases q with
      | background => exact .inl rfl
      | object0 => exact .inr (.inl rfl)
      | object1 => exact .inr (.inr rfl)
      | colorBackground | colorObject => cases hcolor
  · have := x.color.isLt
    omega
  · intro v hv
    have hsmall : ∀ c : Color, UInt8.ofNat c.val ≤ 3 := by decide
    obtain ⟨c, -, rfl⟩ := List.mem_map.1 hv
    exact hsmall c
  · intro s hs buffer
    obtain ⟨copied, hcopied, hlength, hbefore, hafter⟩ := copyShades_eq hs buffer
    refine ⟨copied, hcopied, hlength, fun y x hy hx hi => ?_, hafter⟩
    rw [hbefore _ hi, getElem?_shadeBytes _ hy hx]

/-- After a run that completes a picture, a buffer that is longer than a picture gets all of it, and
one that is shorter gets as much as it has room for. -/
theorem pictures_well_formed_spins :
    ∃ m : Machine, m.Reachable ∧ 0 < m.frames ∧
      (∃ copied, copyShades { machine? := some m } (some (List.replicate 30000 9)) =
        (23040, some copied) ∧ copied.length = 30000 ∧ copied[23040]? = some 9) ∧
      ∃ copied, copyShades { machine? := some m } (some [9, 9]) = (2, some copied) ∧
        copied.length = 2 := by
  obtain ⟨start, hstart, h, -, hon, hready⟩ := Machine.spins_powerUp
  have hreachable : (start.perform .runFrame).Reachable :=
    ⟨_, _, _, start, [.runFrame], hstart, rfl⟩
  obtain ⟨-, -, -, -, -, hcopies⟩ := pictures_well_formed hreachable
  obtain ⟨long, hlong, hlength, -, hrest⟩ :=
    hcopies { machine? := some _ } rfl (List.replicate 30000 9)
  obtain ⟨short, hshort, hlength', -, -⟩ := hcopies { machine? := some _ } rfl [9, 9]
  have hroom : min (List.replicate 30000 (9 : UInt8)).length 23040 = 23040 := by
    rw [List.length_replicate]
    rfl
  obtain ⟨-, hnew, -⟩ := h.runFrame hon hready
  refine ⟨_, hreachable, Nat.lt_of_le_of_lt (Nat.zero_le _) hnew, ⟨long, ?_, ?_, ?_⟩, short, hshort,
    hlength'⟩
  · rw [hlong, hroom]
  · rw [hlength, List.length_replicate]
  · rw [hrest 23040 (Nat.le_of_eq hroom), List.getElem?_replicate_of_lt (by decide)]

end Session

end GameBoy
