import GameBoy.Proofs.Board.Slot

/-!
# The banks of read-only memory

Below `0x8000` a program sees the image of its cartridge, one bank in each of two windows. Which
banks these are depends on the last writes alone, and no write changes the image.

* `History.bank`: the bank in the window of an address.
* `Cartridge.read_of_follows`: the byte that is seen there.
* `Cartridge.shows_banks`: so it is after every course of writes and time, for a cartridge alone and
  for one on a board.
-/

namespace GameBoy

/-- The bank in the window of an address, before reduction to the banks that exist. -/
def History.bank (h : History) (k : Controller.Kind) (a : UInt16) : Nat :=
  if a < 0x4000 then h.lowBank k else h.highBank k

/-- The byte that an image of some banks holds in one of them. Numbers of banks count around, and
bytes that the image leaves out are as on an undriven bus. -/
def imageByte (image : ByteArray) (banks bank offset : Nat) : UInt8 :=
  byteAt (padded image (banks * 0x4000)) (bank % banks * 0x4000 + offset)

namespace Cartridge

/-- An accepted image consists of at least two banks. -/
theorem banks_of_load {image : ByteArray} {c : Cartridge} (h : load image = .ok c) :
    ∃ banks, 2 ≤ banks ∧ Header.romSize? (Header.romCode image) = some (banks * 0x4000) ∧
      c.rom = padded image (banks * 0x4000) ∧ bankCount c.rom Header.romBankSize = banks := by
  obtain ⟨size, hsize, hrom, hle, -, -⟩ := load_eq_ok h
  obtain ⟨banks, rfl⟩ := romBankSize_dvd_romSize hsize
  have htwo : 2 ≤ banks := by
    have := Header.romBankSize_le_romSize hsize
    simp only [Header.romBankSize] at this
    omega
  have hbytes : c.rom.size = Header.romBankSize * banks := by rw [hrom, size_padded image _ hle]
  rw [Nat.mul_comm Header.romBankSize] at hsize hrom
  refine ⟨banks, htwo, hsize, hrom, ?_⟩
  rw [bankCount, hbytes, Nat.mul_div_cancel_left _ (by decide)]
  exact Nat.max_eq_left (by omega)

/-- The two windows show the banks that the writes so far tell. -/
theorem read_of_follows {image : ByteArray} {banks : Nat} {c : Cartridge} {h : History}
    (hrom : c.rom = padded image (banks * 0x4000))
    (hbanks : bankCount c.rom Header.romBankSize = banks) (hc : c.controller.Follows h)
    {a : UInt16} (ha : a < 0x8000) :
    c.read a = imageByte image banks (h.bank c.controller.kind a) (a.toNat % 0x4000) := by
  obtain ⟨hlow, hhigh⟩ := hc.banks
  have hend : a.toNat < 0x8000 := UInt16.lt_iff_toNat_lt.1 ha
  unfold read History.bank imageByte romByte
  rw [hbanks, hrom]
  by_cases hfirst : a < 0x4000
  · have hlt : a.toNat < 0x4000 := UInt16.lt_iff_toNat_lt.1 hfirst
    rw [if_pos hfirst, if_pos hfirst, hlow, Nat.mod_eq_of_lt hlt]
    rfl
  · have hle : 0x4000 ≤ a.toNat := UInt16.le_iff_toNat_le.1 (UInt16.not_lt.1 hfirst)
    have hoffset : a.toNat % 0x4000 = a.toNat - 0x4000 := by omega
    rw [if_neg hfirst, if_neg hfirst, if_pos ha, hhigh, hoffset]
    rfl

/-- Whatever is written and however much time passes, a program sees the image that was loaded, in
banks that the last writes tell: in the first window the bank `lowBank`, in the second one
`highBank`, counted around among the banks there are. -/
theorem shows_banks {image : ByteArray} {c : Cartridge} (hload : load image = .ok c) :
    ∃ banks, 2 ≤ banks ∧ Header.romSize? (Header.romCode image) = some (banks * 0x4000) ∧
      (∀ as : List Action,
        (performAll c as).rom = padded image (banks * 0x4000) ∧
        ∀ a < 0x8000, (performAll c as).read a =
          imageByte image banks ((Action.history as).bank c.controller.kind a)
            (a.toNat % 0x4000)) ∧
      ∀ (model : Model) (journal : Journal) (as : List Board.Action),
        (performAll (Board.powerUp c model journal) as).cartridge.rom =
            padded image (banks * 0x4000) ∧
        ∀ a < 0x8000, (performAll (Board.powerUp c model journal) as).read a =
          imageByte image banks ((Board.Action.history as).bank c.controller.kind a)
            (a.toNat % 0x4000) := by
  obtain ⟨banks, htwo, hsize, hrom, hcount⟩ := banks_of_load hload
  obtain ⟨-, -, -, -, -, hcode⟩ := load_eq_ok hload
  -- a cartridge alone
  have halone : ∀ as : List Action, (performAll c as).rom = padded image (banks * 0x4000) ∧
      ∀ a < 0x8000, (performAll c as).read a =
        imageByte image banks ((Action.history as).bank c.controller.kind a)
          (a.toNat % 0x4000) := by
    intro as
    obtain ⟨hfollows, hkind, hsame⟩ := follows_performAll (Controller.follows_ofCode hcode) as
    rw [List.append_nil] at hfollows
    refine ⟨hsame.trans hrom, fun a ha => ?_⟩
    rw [← hkind]
    exact read_of_follows (hsame.trans hrom) (hsame ▸ hcount) hfollows ha
  refine ⟨banks, htwo, hsize, halone, fun model journal as => ?_⟩
  -- on a board its course is one of a cartridge alone
  obtain ⟨bs, hcartridge, hhistory, -⟩ := (Board.powerUp c model journal).cartridge_performAll as
  obtain ⟨hrom', hread⟩ := halone bs
  rw [hcartridge]
  refine ⟨hrom', fun a ha => ?_⟩
  rw [Board.read_cartridge _ (.inl ha), hcartridge, ← hhistory]
  exact hread a ha

/-- Of 72 banks the first one is also the 72nd: the two parts `2` and `8` of a bank select it, and
the code of the kind in its header is seen in the second window. -/
theorem shows_banks_around :
    ∃ c, load (headerImage 0x01 0x52 0x00) = .ok c ∧ c.controller.kind = .mbc1 ∧
      (performAll (Board.powerUp c .dmg {})
        [.write 0x4000 0x02, .pass 4, .write 0x2000 0x08]).read 0x4147 = 0x01 := by
  have hrom : Header.romSize? 0x52 = some (Header.romBankSize * 72) := rfl
  have hram : Header.ramSize? 0x00 = some 0 := rfl
  obtain ⟨c, hload, hkind⟩ : ∃ c, load (headerImage 0x01 0x52 0x00) = .ok c ∧
      c.controller.kind = .mbc1 :=
    ⟨_, load_headerImage hrom hram rfl, rfl⟩
  refine ⟨c, hload, hkind, ?_⟩
  obtain ⟨banks, -, hsize, -, hboard⟩ := shows_banks hload
  have hcount : banks = 72 := by
    rw [Header.romCode, headerImage, byteAt_codeImage _ (by decide)] at hsize
    have hbytes : Header.romBankSize * 72 = banks * 0x4000 := Option.some.inj hsize
    simp only [Header.romBankSize] at hbytes
    omega
  have hbyte : byteAt (headerImage 0x01 0x52 0x00) 0x147 = 0x01 := byteAt_codeImage _ (by decide)
  rw [(hboard .dmg {} _).2 0x4147 (by decide), hkind, hcount, imageByte, byteAt_padded]
  exact hbyte

end Cartridge

end GameBoy
