import GameBoy.Proofs.Board.Reachable
import GameBoy.Proofs.Video.Course

/-!
# What transfers and writes leave alone

* `runTransfer_frame`: a transfer changes video memory, its own registers, and notices.
* `copySprites_frame`: the copying of a page changes the memory of sprites and the noted page.
* `Valid.blocksDue_le`: a transfer copies at most 128 blocks at a time.
* `Location.LiesAt`: what may lie at an address; each register is found at one address only.
* `elapsed_write`: while the display stays on, writes do not move it.
* `frames_write`: writes complete no picture and do not move the display on.
* `counter_write`: the counter changes by a write to its address and in no other way.
-/

namespace GameBoy

namespace Board

/-! ## Transfers -/

/-- `c` is `b` but for video memory, the registers of the transfer unit, and notices. -/
def Transferred (b c : Board) : Prop :=
  ∃ vram transfer journal, c = { b with video := { b.video with vram }, transfer, journal }

theorem Transferred.refl (b : Board) : Transferred b b := ⟨_, _, _, rfl⟩

theorem Transferred.copyBlockByte {b c : Board} (h : Transferred b c) (i : Fin 0x10) :
    Transferred b (c.copyBlockByte i) := by
  obtain ⟨vram, transfer, journal, rfl⟩ := h
  exact ⟨_, transfer, journal, rfl⟩

theorem Transferred.copyBlock {b c : Board} (h : Transferred b c) : Transferred b c.copyBlock := by
  have hcopied : Transferred b (Fin.foldl 0x10 Board.copyBlockByte c) :=
    foldl_induction (fun _ i ih => ih.copyBlockByte i) h
  unfold Board.copyBlock
  obtain ⟨vram, transfer, journal, hcopied⟩ := hcopied
  rw [hcopied]
  exact ⟨vram, _, _, rfl⟩

theorem runTransfer_frame (b : Board) : Transferred b b.runTransfer :=
  repeat_induction (fun _ ih => ih.copyBlock) (.refl b) _

/-- A transfer copies at most 128 blocks at a time. -/
theorem Valid.blocksDue_le {b : Board} (h : b.Valid) : b.blocksDue ≤ 128 := by
  have := h.transfer.remaining_lt
  unfold blocksDue
  split
  · split
    · omega
    · split <;> omega
  · omega

end Board

/-! ## Addresses -/

namespace Location

/-- The first entry of a list of cases applies, or one of the others. -/
theorem ite_some_eq {α : Type} {c : Prop} [Decidable c] {x y : α} {o : Option α}
    (h : (if c then some x else o) = some y) : c ∧ x = y ∨ o = some y := by
  by_cases hc : c
  · rw [if_pos hc] at h
    exact .inl ⟨hc, Option.some.inj h⟩
  · rw [if_neg hc] at h
    exact .inr h

theorem register?_eq_control {a : UInt16} (h : Video.Location.register? a = some .control) :
    a = 0xff40 := by
  rcases ite_some_eq h with ⟨ha, -⟩ | h
  · exact ha
  repeat
    rcases ite_some_eq h with ⟨-, hl⟩ | h
    · cases hl
  cases h

theorem ofAddress?_eq_counter {a : UInt16} (h : Timer.Register.ofAddress? a = some .counter) :
    a = 0xff04 := by
  rcases ite_some_eq h with ⟨ha, -⟩ | h
  · exact ha
  repeat
    rcases ite_some_eq h with ⟨-, hr⟩ | h
    · cases hr
  cases h

theorem memory?_ne_control {a : UInt16} : Video.Location.memory? a ≠ some .control := by
  unfold Video.Location.memory?
  split_ifs <;> simp

/-- What may lie at an address, and what that tells of the address. -/
inductive LiesAt (a : UInt16) : Location → Prop
  | memory {l : Video.Location} (found : Video.Location.memory? a = some l) : LiesAt a (.video l)
  | cartridge : LiesAt a (.cartridge a)
  | workRam (offset : Fin 0x2000) : LiesAt a (.workRam (.cell offset))
  | highRam (offset : Fin 0x7f) : LiesAt a (.highRam offset)
  | enabled : LiesAt a .enabled
  | buttons (address : a = 0xff00) : LiesAt a .buttons
  | latch (offset : Fin 0x40) : LiesAt a (.latch offset)
  | requests (address : a = 0xff0f) : LiesAt a .requests
  | spriteCopy (address : a = 0xff46) : LiesAt a .spriteCopy
  | speed (address : a = 0xff4d) : LiesAt a .speed
  | workBank (address : a = 0xff70) : LiesAt a (.workRam .bank)
  | timer {r : Timer.Register} (found : Timer.Register.ofAddress? a = some r) : LiesAt a (.timer r)
  | transfer {r : Transfer.Register} (found : Transfer.Register.ofAddress? a = some r) :
      LiesAt a (.transfer r)
  | register {l : Video.Location} (found : Video.Location.register? a = some l) :
      LiesAt a (.video l)
  | nothing : LiesAt a .nothing

theorem liesAt_register (a : UInt16) : LiesAt a (register a) := by
  unfold Location.register
  split_ifs with hbuttons hlatch hrequests hcopy hspeed hbank
  · exact .buttons hbuttons
  · exact .latch _
  · exact .requests hrequests
  · exact .spriteCopy hcopy
  · exact .speed hspeed
  · exact .workBank hbank
  · split
    · exact .timer ‹_›
    · split
      · exact .transfer ‹_›
      · split
        · exact .register ‹_›
        · exact .nothing

theorem liesAt_ofAddress (a : UInt16) : LiesAt a (ofAddress a) := by
  unfold ofAddress
  split
  · exact .memory ‹_›
  · split_ifs
    · exact .cartridge
    · exact .workRam _
    · exact .nothing
    · exact liesAt_register a
    · exact .highRam _
    · exact .enabled

/-- What is found in a console is what lies at the address, or nothing. -/
theorem find_eq (model : Model) (a : UInt16) :
    find model a = ofAddress a ∨ find model a = .nothing := by
  unfold find
  simp only
  split
  · exact .inr rfl
  · exact .inl rfl

theorem find_of_ofAddress {model : Model} {a : UInt16} {l : Location} (h : ofAddress a = l)
    (hl : l.colorOnly = false) : find model a = l := by
  rw [find, h]
  simp only [hl]
  rfl

theorem find_of_memory? {model : Model} {a : UInt16} {l : Video.Location}
    (h : Video.Location.memory? a = some l) (hl : l.colorOnly = false) :
    find model a = .video l :=
  find_of_ofAddress (by rw [ofAddress, h]) hl

/-- Video memory takes up 8 KiB. -/
theorem memory?_vram {a : UInt16} (h : 0x8000 ≤ a.toNat ∧ a.toNat < 0xa000) :
    Video.Location.memory? a = some (.vram (offset8K a)) := by
  have hoffset : (⟨a.toNat - 0x8000, by omega⟩ : Fin 0x2000) = offset8K a := by
    refine Fin.ext ?_
    show a.toNat - 0x8000 = a.toNat % 0x2000
    omega
  rw [Video.Location.memory?, dif_pos h, hoffset]

theorem find_vram (model : Model) {a : UInt16} (h : 0x8000 ≤ a.toNat ∧ a.toNat < 0xa000) :
    find model a = .video (.vram (offset8K a)) :=
  find_of_memory? (memory?_vram h) rfl

/-- What is found at an address may lie there. -/
theorem LiesAt.of_find {model : Model} {a : UInt16} {l : Location} (h : find model a = l) :
    LiesAt a l := by
  rcases find_eq model a with hfind | hfind
  · rw [← h, hfind]
    exact liesAt_ofAddress a
  · rw [← h, hfind]
    exact .nothing

theorem find_eq_control {model : Model} {a : UInt16} (h : find model a = .video .control) :
    a = 0xff40 := by
  cases LiesAt.of_find h with
  | memory found => exact absurd found memory?_ne_control
  | register found => exact register?_eq_control found

theorem find_eq_counter {model : Model} {a : UInt16} (h : find model a = .timer .counter) :
    a = 0xff04 := by
  cases LiesAt.of_find h with
  | timer found => exact ofAddress?_eq_counter found

end Location

/-! ## Writes -/

namespace Video

/-- Dots since power-up, in complete pictures and since the beginning of this one. -/
def elapsed (v : Video) : Nat := v.frames * dotsPerFrame + v.position

theorem elapsed_powerUp (model : Model) : (powerUp model).elapsed = 0 := by
  simp [elapsed, position, powerUp]

/-- Time adds to them while the display is on. -/
theorem elapsed_advance {v : Video} (h : v.Placed) (hon : v.control.isOn = true) (n : Nat) :
    (v.advance n).1.elapsed = v.elapsed + n := by
  have hcourse := course_scan h.forget hon ∅ n
  have hsplit := Nat.div_add_mod (v.position + n) dotsPerFrame
  have hframes : (v.advance n).1.frames = v.frames + (v.position + n) / dotsPerFrame := by
    rw [advance_of_on hon]
    exact hcourse.frames_eq
  have hposition : (v.advance n).1.position = (v.position + n) % dotsPerFrame := by
    rw [advance_of_on hon]
    exact hcourse.position_eq
  rw [elapsed, elapsed, hframes, hposition, Nat.add_mul, Nat.mul_comm (_ / _)]
  omega

/-- A write that leaves the display on takes no time. -/
theorem elapsed_write {v : Video} (hon : v.control.isOn = true) (l : Location) (b : UInt8)
    (hl : l = .control → (Control.mk b).isOn = true) :
    (v.write l b).1.control.isOn = true ∧ (v.write l b).1.elapsed = v.elapsed := by
  cases l with
  | control =>
    change (v.setControl b).1.control.isOn = true ∧ (v.setControl b).1.elapsed = _
    rw [setControl_same ((hl rfl).trans hon.symm)]
    exact ⟨hl rfl, rfl⟩
  | status | lineCompare =>
    change (updateStatus _).1.control.isOn = true ∧ (updateStatus _).1.elapsed = _
    rw [updateStatus_fst]
    exact ⟨hon, rfl⟩
  | _ => exact ⟨hon, rfl⟩

/-- Switching the display on or off completes no picture, and gives up the one that was begun. -/
theorem frames_setControl (v : Video) (b : UInt8) :
    (v.setControl b).1.frames = v.frames ∧ (v.setControl b).1.position ≤ v.position := by
  rcases v.setControl_cases b with ⟨-, hset⟩ | ⟨-, -, hset⟩ | ⟨-, -, hset⟩
  · rw [hset]
    exact ⟨rfl, Nat.le_refl _⟩
  · rw [hset, updateStatus_fst]
    exact ⟨rfl, Nat.zero_le _⟩
  · rw [hset]
    exact ⟨rfl, Nat.zero_le _⟩

/-- No write completes a picture, or moves the display on. -/
theorem frames_write (v : Video) (l : Location) (b : UInt8) :
    (v.write l b).1.frames = v.frames ∧ (v.write l b).1.position ≤ v.position := by
  cases l with
  | control => exact v.frames_setControl b
  | status | lineCompare =>
    show (updateStatus _).1.frames = v.frames ∧ (updateStatus _).1.position ≤ v.position
    rw [updateStatus_fst]
    exact ⟨rfl, Nat.le_refl _⟩
  | _ => exact ⟨rfl, Nat.le_refl _⟩

end Video

namespace Board

/-- `c` is `b` but for the noted page and the memory of sprites. -/
def Copied (b c : Board) : Prop :=
  ∃ spritePage oam, c = { b with spritePage, video := { b.video with oam } }

theorem Copied.copySpriteByte {b c : Board} (h : Copied b c) (i : Fin 0xa0) :
    Copied b (c.copySpriteByte i) := by
  obtain ⟨page, oam, rfl⟩ := h
  exact ⟨page, _, rfl⟩

theorem copySprites_frame (b : Board) (page : UInt8) : Copied b (b.copySprites page) :=
  foldl_induction (fun _ i ih => ih.copySpriteByte i) ⟨page, b.video.oam, rfl⟩

/-- A program switches the display off at one address and at no other; what else it writes takes no
time. -/
theorem elapsed_write {b : Board} (hon : b.video.control.isOn = true) (a : UInt16) (v : UInt8)
    (ha : a = 0xff40 → v &&& 0x80 ≠ 0) :
    (b.write a v).video.control.isOn = true ∧ (b.write a v).video.elapsed = b.video.elapsed := by
  have hfind : Location.find b.model a = .video .control → (Control.mk v).isOn = true :=
    fun h => bne_iff_ne.2 (ha (Location.find_eq_control h))
  unfold write
  generalize Location.find b.model a = l at hfind
  cases l with
  | video l => exact Video.elapsed_write hon l v (fun hl => hfind (congrArg _ hl))
  | spriteCopy =>
    obtain ⟨page, oam, hcopied⟩ := b.copySprites_frame v
    simp only [writeAt, hcopied]
    exact ⟨hon, rfl⟩
  | _ => exact ⟨hon, rfl⟩

/-- No write completes a picture, or moves the display on. -/
theorem frames_write (b : Board) (a : UInt16) (v : UInt8) :
    (b.write a v).video.frames = b.video.frames ∧
      (b.write a v).video.position ≤ b.video.position := by
  unfold write
  cases Location.find b.model a with
  | video l => exact b.video.frames_write l v
  | spriteCopy =>
    obtain ⟨page, oam, hcopied⟩ := b.copySprites_frame v
    simp only [writeAt, hcopied]
    exact ⟨trivial, Nat.le_refl _⟩
  | _ => exact ⟨rfl, Nat.le_refl _⟩

/-- The counter changes by a write to its address and in no other way. -/
theorem counter_write {b : Board} {a : UInt16} (ha : a ≠ 0xff04) (v : UInt8) :
    (b.write a v).timer.counter = b.timer.counter := by
  have hfind : Location.find b.model a ≠ .timer .counter := mt Location.find_eq_counter ha
  unfold write
  generalize Location.find b.model a = l at hfind
  cases l with
  | timer r =>
    cases r with
    | counter => exact absurd rfl hfind
    | _ => rfl
  | spriteCopy =>
    obtain ⟨page, oam, hcopied⟩ := b.copySprites_frame v
    simp only [writeAt, hcopied]
  | _ => rfl

theorem switchRate_video (b : Board) : b.switchRate.2.video = b.video := by
  unfold switchRate
  cases b.model <;> rfl

theorem switchRate_timer (b : Board) : b.switchRate.2.timer = b.timer := by
  unfold switchRate
  cases b.model <;> rfl

theorem switchRate_requests (b : Board) : b.switchRate.2.requests = b.requests := by
  unfold switchRate
  cases b.model <;> rfl

end Board

end GameBoy
