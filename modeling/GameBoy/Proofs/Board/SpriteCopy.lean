import GameBoy.Proofs.Board.Cells

/-!
# A copied page

A write to one register copies the first 160 bytes of a page to the memory of sprites, byte after
byte and through the whole map of memory. The page may be that memory itself or the one that holds
the register: a byte that is still to be read has then not been written yet, and the register
already holds the page.

* `Board.read_withOam`: what is read elsewhere does not depend on the memory of sprites.
* `Board.CopiedSprites`: the first bytes of the page were copied, and nothing else changed.
* `Board.copies_page`: what a program reads after the copying.
-/

namespace GameBoy

/-! ## Addresses -/

/-- The address of a byte in the memory of sprites. -/
def spriteAddress (i : Fin 0xa0) : UInt16 := 0xfe00 + UInt16.ofNat i

/-- The address of a byte in a page. -/
def pageAddress (page : UInt8) (i : Fin 0xa0) : UInt16 := page.toUInt16 <<< 8 + UInt16.ofNat i

theorem toNat_spriteAddress (i : Fin 0xa0) : (spriteAddress i).toNat = 0xfe00 + i.val := by
  rw [spriteAddress, UInt16.toNat_add, UInt16.toNat_ofNat']
  change (0xfe00 + i.val % 65536) % 65536 = _
  omega

theorem toNat_pageAddress (page : UInt8) (i : Fin 0xa0) :
    (pageAddress page i).toNat = page.toNat * 0x100 + i.val := by
  have hpage := page.toNat_lt
  rw [pageAddress, UInt16.toNat_add, UInt16.toNat_ofNat', Board.toNat_page_shiftLeft]
  omega

/-- Of the pages one is the memory of sprites, and the rest have no byte in it. -/
theorem pageAddress_of_sprite {page : UInt8} {i : Fin 0xa0}
    (h : 0xfe00 ≤ (pageAddress page i).toNat ∧ (pageAddress page i).toNat < 0xfea0) :
    pageAddress page i = spriteAddress i := by
  apply UInt16.toNat_inj.1
  rw [toNat_pageAddress] at h
  rw [toNat_pageAddress, toNat_spriteAddress]
  omega

namespace Location

theorem find_sprite (model : Model) (i : Fin 0xa0) :
    find model (spriteAddress i) = .video (.oam i) := by
  have haddress := toNat_spriteAddress i
  have hoffset : (⟨(spriteAddress i).toNat - 0xfe00, by omega⟩ : Fin 0xa0) = i := by
    apply Fin.ext
    show (spriteAddress i).toNat - 0xfe00 = i.val
    omega
  refine find_of_memory? ?_ rfl
  rw [Video.Location.memory?, dif_neg (by omega), dif_pos (by omega), hoffset]

/-- The memory of sprites is found at its addresses and nowhere else. -/
theorem range_of_find_oam {model : Model} {a : UInt16} {i : Fin 0xa0}
    (h : find model a = .video (.oam i)) : 0xfe00 ≤ a.toNat ∧ a.toNat < 0xfea0 := by
  rcases memory?_or_register? h with hmemory | hregister
  · unfold Video.Location.memory? at hmemory
    split_ifs at hmemory
    · cases hmemory
    · assumption
  · repeat
      rcases ite_some_eq hregister with ⟨-, hl⟩ | hregister
      · cases hl
    cases hregister

theorem find_spriteCopy (model : Model) : find model 0xff46 = .spriteCopy := by cases model <;> rfl

end Location

namespace Board

variable {b c : Board}

/-! ## What a read depends on -/

/-- Elsewhere the memory of sprites is not read. -/
theorem read_withOam (b : Board) (oam : Block 0xa0) {a : UInt16}
    (h : ¬ (0xfe00 ≤ a.toNat ∧ a.toNat < 0xfea0)) :
    read { b with video := { b.video with oam } } a = b.read a := by
  have hfind : ∀ i, Location.find b.model a ≠ .video (.oam i) :=
    fun i hi => h (Location.range_of_find_oam hi)
  unfold read
  change readAt _ (Location.find b.model a) = _
  generalize Location.find b.model a = l at hfind
  cases l with
  | video l =>
    cases l with
    | oam i => exact absurd rfl (hfind i)
    | _ => rfl
  | _ => rfl

/-- The noted page is read at one address. -/
theorem read_withPage (b : Board) (page : UInt8) {a : UInt16} (h : a ≠ 0xff46) :
    read { b with spritePage := page } a = b.read a := by
  have hfind : Location.find b.model a ≠ .spriteCopy :=
    fun hl => h (Location.eq_address (congrArg Location.address? hl))
  unfold read
  change readAt _ (Location.find b.model a) = _
  generalize Location.find b.model a = l at hfind
  cases l with
  | spriteCopy => exact absurd rfl hfind
  | _ => rfl

theorem read_sprite (b : Board) (i : Fin 0xa0) :
    b.read (spriteAddress i) = b.video.oam.byte i := by
  rw [read, Location.find_sprite]
  rfl

/-! ## The bytes of the page -/

/-- In `c` the first `k` bytes of the page that `b` notes are copied. -/
structure CopiedSprites (b : Board) (k : Nat) (c : Board) : Prop where
  frame : ∃ oam, c = { b with video := { b.video with oam } }
  copied : ∀ i : Fin 0xa0, i.val < k → c.video.oam.byte i = b.read (pageAddress b.spritePage i)
  others : ∀ i : Fin 0xa0, k ≤ i.val → c.video.oam.byte i = b.video.oam.byte i

theorem CopiedSprites.start (b : Board) : CopiedSprites b 0 b where
  frame := ⟨b.video.oam, rfl⟩
  copied _ hi := absurd hi (Nat.not_lt_zero _)
  others _ _ := rfl

/-- What is still to be read has not been written. -/
theorem CopiedSprites.read_source {i : Fin 0xa0} (hc : CopiedSprites b i c) :
    c.read (pageAddress b.spritePage i) = b.read (pageAddress b.spritePage i) := by
  by_cases hrange : 0xfe00 ≤ (pageAddress b.spritePage i).toNat ∧
      (pageAddress b.spritePage i).toNat < 0xfea0
  · rw [pageAddress_of_sprite hrange, read_sprite, read_sprite]
    exact hc.others i (Nat.le_refl _)
  · obtain ⟨oam, hframe⟩ := hc.frame
    rw [hframe]
    exact b.read_withOam oam hrange

/-- One more byte. -/
theorem CopiedSprites.next (i : Fin 0xa0) (hc : CopiedSprites b i c) :
    CopiedSprites b (i + 1) (c.copySpriteByte i) := by
  obtain ⟨oam, hframe⟩ := hc.frame
  have hpage : c.spritePage = b.spritePage := by rw [hframe]
  have hwritten : (c.copySpriteByte i).video.oam =
      c.video.oam.set i (b.read (pageAddress b.spritePage i)) := by
    rw [← hc.read_source, ← hpage]
    rfl
  constructor
  · refine ⟨(c.copySpriteByte i).video.oam, ?_⟩
    rw [hframe]
    rfl
  · intro j hj
    rw [hwritten]
    by_cases hij : i = j
    · rw [← hij, Block.byte_set_self]
    · rw [Block.byte_set_of_ne _ _ hij]
      apply hc.copied
      have := Fin.val_ne_of_ne hij
      omega
  · intro j hj
    have hij : i ≠ j := Fin.ne_of_lt hj
    rw [hwritten, Block.byte_set_of_ne _ _ hij]
    exact hc.others j (Nat.le_of_succ_le hj)

/-- A page is copied whole, and nothing else is. -/
theorem copiedSprites_copySprites (b : Board) (page : UInt8) :
    CopiedSprites { b with spritePage := page } 0xa0 (b.copySprites page) :=
  foldl_invariant (CopiedSprites { b with spritePage := page }) (fun _ i hc => hc.next i) (.start _)

/-! ## The page -/

/-- A write to the register of the copying, with any page: each of the 160 bytes of the memory of
sprites reads as the byte of the page with the same number, the register reads as the page, and
every other address reads as before. No interrupt is requested, all banks stay selected, and the
transfer unit is as before. -/
theorem copies_page (b : Board) (page : UInt8) :
    let after := b.write 0xff46 page
    (∀ i : Fin 0xa0, after.read (0xfe00 + UInt16.ofNat i) =
      after.read (page.toUInt16 <<< 8 + UInt16.ofNat i)) ∧
    after.read 0xff46 = page ∧
    (∀ a : UInt16, ¬ (0xfe00 ≤ a ∧ a ≤ 0xfe9f) → a ≠ 0xff46 → after.read a = b.read a) ∧
    after.requests = b.requests ∧ after.banks = b.banks ∧ after.cartridge = b.cartridge ∧
    after.transfer = b.transfer := by
  intro after
  have hcopied : CopiedSprites { b with spritePage := page } 0xa0 after := by
    simp only [after, write, Location.find_spriteCopy]
    exact b.copiedSprites_copySprites page
  obtain ⟨oam, hframe⟩ := hcopied.frame
  refine ⟨fun i => ?_, ?_, fun a hsprite hregister => ?_, ?_⟩
  · change after.read (spriteAddress i) = after.read (pageAddress page i)
    by_cases hrange : 0xfe00 ≤ (pageAddress page i).toNat ∧ (pageAddress page i).toNat < 0xfea0
    · rw [pageAddress_of_sprite hrange]
    · rw [read_sprite, hcopied.copied i i.isLt, hframe]
      exact (read_withOam _ oam hrange).symm
  · rw [hframe, read, Location.find_spriteCopy]
    rfl
  · have hrange : ¬ (0xfe00 ≤ a.toNat ∧ a.toNat < 0xfea0) := by
      simp only [UInt16.le_iff_toNat_le, UInt16.reduceToNat] at hsprite
      omega
    rw [hframe, read_withOam _ oam hrange]
    exact b.read_withPage page hregister
  · rw [hframe]
    exact ⟨rfl, rfl, rfl, rfl⟩

/-- The page of the registers holds the register of the copying too, and a byte of the memory above
them. -/
theorem copies_page_registers :
    ∃ b : Board, b.Reachable ∧ (b.write 0xff46 0xff).read 0xfe46 = 0xff ∧
      (b.write 0xff46 0xff).read 0xfe80 = (b.write 0xff46 0xff).read 0xff80 ∧
      ¬ (0xfe00 ≤ (0xff80 : UInt16) ∧ (0xff80 : UInt16) ≤ 0xfe9f) ∧ (0xff80 : UInt16) ≠ 0xff46 ∧
      (b.write 0xff46 0xff).read 0xff80 = b.read 0xff80 := by
  have hstart := Reachable.powerUp Cartridge.load_zeroImage .cgb {}
  obtain ⟨hbytes, hregister, hothers, -⟩ := copies_page (powerUp _ .cgb {}) 0xff
  have hsame := hothers 0xff80 (by decide) (by decide)
  exact ⟨_, hstart, (hbytes 0x46).trans hregister, hbytes 0x80, by decide, by decide, hsame⟩

end Board

end GameBoy
