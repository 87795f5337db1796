import GameBoy.Cartridge.Load
import GameBoy.Memory.Mask
import GameBoy.Proofs.Clocks
import GameBoy.Transfer
import Mathlib.Tactic.SplitIfs
import Mathlib.Algebra.GroupWithZero.Nat
import Mathlib.Data.List.GetD

/-!
# What the small devices always hold

Each of the small devices keeps its registers in a range that no write can leave.

* `Timer.Valid`: the divider holds less than a period.
* `Transfer.Valid`: blocks are aligned, the target lies in video memory, and at most 128 blocks are
  asked for at once.
* `Cartridge.Valid`: read-only memory is a whole number of banks, both memories have a largest size,
  and less than a second waits in the divider of a clock.
-/

namespace GameBoy

/-! ## The timer -/

namespace Timer

/-- The divider holds less than a period, which is one of the four. -/
structure Valid (t : Timer) : Prop where
  count_lt : t.divider.count < t.divider.period
  period_le : t.divider.period ≤ 1024

theorem periodOf_le (control : UInt8) : periodOf control ≤ 1024 := by
  unfold periodOf
  split
  · decide
  · split
    · decide
    · split <;> decide

theorem valid_powerUp : ({} : Timer).Valid := ⟨by decide, Nat.le_refl _⟩

theorem Valid.write {t : Timer} (h : t.Valid) (r : Register) (v : UInt8) : (t.write r v).Valid := by
  cases r with
  | counter => exact ⟨Nat.lt_of_le_of_lt (Nat.zero_le _) h.count_lt, h.period_le⟩
  | value | reload => exact ⟨h.count_lt, h.period_le⟩
  | control =>
    by_cases hsame : t.control &&& 0x03 = v &&& 0x07 &&& 0x03
    · have hdivider : (t.write .control v).divider = t.divider := if_pos hsame
      exact ⟨hdivider ▸ h.count_lt, hdivider ▸ h.period_le⟩
    · have hdivider : (t.write .control v).divider = { period := periodOf (v &&& 0x07) } :=
        if_neg hsame
      refine ⟨?_, ?_⟩ <;> rw [hdivider]
      · exact periodOf_pos _
      · exact periodOf_le _

theorem Valid.advance {t : Timer} (h : t.Valid) (n : Nat) : (t.advance n).1.Valid := by
  cases hon : t.enabled with
  | false =>
    rw [advance_of_not_enabled hon]
    exact ⟨h.count_lt, h.period_le⟩
  | true =>
    rw [advance_of_enabled hon]
    exact ⟨Divider.count_advance_lt _ _ (Nat.zero_lt_of_lt h.count_lt), h.period_le⟩

end Timer

/-! ## Transfers -/

namespace Transfer

/-- The addresses are those of blocks, the target's in video memory, and the number of blocks that
remain has seven bits. -/
structure Valid (t : Transfer) : Prop where
  source_aligned : t.source &&& 0x000f = 0
  target_aligned : t.target &&& 0x000f = 0
  target_video : t.target &&& 0xe000 = 0x8000
  remaining_lt : t.remaining.toNat < 0x80

theorem valid_powerUp : ({} : Transfer).Valid := ⟨by decide, by decide, by decide, by decide⟩

theorem and_low_eq_zero_iff (a : UInt16) : a &&& 0x000f = 0 ↔ a.toNat % 16 = 0 := by
  rw [← UInt16.toNat_inj, UInt16.toNat_and]
  exact iff_of_eq (congrArg (· = 0) (Nat.and_two_pow_sub_one_eq_mod a.toNat 4))

section Bits

variable (v : UInt8) (a : UInt16)

theorem or_and_word (a b m : UInt16) : (a ||| b) &&& m = a &&& m ||| b &&& m := by
  apply UInt16.toBitVec_inj.1
  ext i
  simp [Bool.and_or_distrib_right]

/-- Two masks, one inside the other. -/
theorem and_and_of_inside {m n : UInt16} (h : m &&& n = n) : a &&& m &&& n = a &&& n := by
  rw [UInt16.and_assoc, h]

/-- Two masks that share no bit. -/
theorem and_and_of_disjoint {m n : UInt16} (h : m &&& n = 0) : a &&& m &&& n = 0 := by
  rw [UInt16.and_assoc, h, UInt16.and_zero]

theorem high_and_low : v.toUInt16 <<< 8 &&& 0x000f = 0 :=
  forall_byte (P := fun v => v.toUInt16 <<< 8 &&& 0x000f = 0) (by decide +kernel) v

theorem high_and_high : (v &&& 0x1f).toUInt16 <<< 8 &&& 0xe000 = 0 :=
  forall_byte (P := fun v => (v &&& 0x1f).toUInt16 <<< 8 &&& 0xe000 = 0) (by decide +kernel) v

theorem low_and_low : (v &&& 0xf0).toUInt16 &&& 0x000f = 0 :=
  forall_byte (P := fun v => (v &&& 0xf0).toUInt16 &&& 0x000f = 0) (by decide +kernel) v

theorem low_and_high : (v &&& 0xf0).toUInt16 &&& 0xe000 = 0 :=
  forall_byte (P := fun v => (v &&& 0xf0).toUInt16 &&& 0xe000 = 0) (by decide +kernel) v

theorem setHigh_and_low : (v.toUInt16 <<< 8 ||| (a &&& 0x00ff)) &&& 0x000f = a &&& 0x000f := by
  rw [or_and_word, high_and_low, UInt16.zero_or]
  exact and_and_of_inside a (by decide)

theorem setLow_and_low : ((v &&& 0xf0).toUInt16 ||| (a &&& 0xff00)) &&& 0x000f = 0 := by
  rw [or_and_word, low_and_low, UInt16.zero_or]
  exact and_and_of_disjoint a (by decide)

theorem setLow_and_high :
    ((v &&& 0xf0).toUInt16 ||| (a &&& 0xff00)) &&& 0xe000 = a &&& 0xe000 := by
  rw [or_and_word, low_and_high, UInt16.zero_or]
  exact and_and_of_inside a (by decide)

theorem or_video_and_low : (a ||| 0x8000) &&& 0x000f = a &&& 0x000f := by
  rw [or_and_word]
  exact UInt16.or_zero

theorem setTarget_and_high :
    ((v &&& 0x1f).toUInt16 <<< 8 ||| (a &&& 0x00ff) ||| 0x8000) &&& 0xe000 = 0x8000 := by
  rw [or_and_word, or_and_word, high_and_high, and_and_of_disjoint a (by decide)]
  decide

theorem nextTarget_and_low : (0x8000 ||| (a &&& 0x1ff0)) &&& 0x000f = 0 := by
  rw [or_and_word, and_and_of_disjoint a (by decide)]
  decide

theorem nextTarget_and_high : (0x8000 ||| (a &&& 0x1ff0)) &&& 0xe000 = 0x8000 := by
  rw [or_and_word, and_and_of_disjoint a (by decide)]
  decide

theorem and_seven_bits_lt : (v &&& 0x7f).toNat < 0x80 := by
  rw [UInt8.toNat_and]
  exact Nat.lt_of_le_of_lt Nat.and_le_right (by decide)

end Bits

/-- The bits that are fixed place an address in video memory. -/
theorem Valid.target_range {t : Transfer} (h : t.Valid) :
    0x8000 ≤ t.target.toNat ∧ t.target.toNat < 0xa000 := by
  have hlt := t.target.toNat_lt
  have hbits : t.target.toNat &&& 0xe000 = 0x8000 := by
    have hmask := congrArg UInt16.toNat h.target_video
    rwa [UInt16.toNat_and] at hmask
  have hhigh : t.target.toNat / 2 ^ 13 % 2 ^ 3 = 4 := by
    have hshift : (t.target.toNat &&& 0xe000) >>> 13 = 0x8000 >>> 13 := by rw [hbits]
    rwa [Nat.shiftRight_and_distrib, show 0xe000 >>> 13 = 2 ^ 3 - 1 from rfl,
      Nat.and_two_pow_sub_one_eq_mod, Nat.shiftRight_eq_div_pow] at hshift
  omega

/-- The sixteen addresses of a block follow one another without wrapping around. -/
theorem toNat_add_of_aligned {a : UInt16} (h : a &&& 0x000f = 0) (i : Fin 0x10) :
    (a + UInt16.ofNat i).toNat = a.toNat + i.val := by
  have haligned := (and_low_eq_zero_iff a).1 h
  have hlt := a.toNat_lt
  rw [UInt16.toNat_add, UInt16.toNat_ofNat']
  omega

/-- All addresses of a block lie in video memory if its first one does. -/
theorem Valid.target_add_range {t : Transfer} (h : t.Valid) (i : Fin 0x10) :
    0x8000 ≤ (t.target + UInt16.ofNat i).toNat ∧ (t.target + UInt16.ofNat i).toNat < 0xa000 := by
  have haligned := (and_low_eq_zero_iff t.target).1 h.target_aligned
  have hrange := h.target_range
  rw [toNat_add_of_aligned h.target_aligned]
  omega

theorem Valid.write {t : Transfer} (h : t.Valid) (r : Register) (v : UInt8) :
    (t.write r v).Valid := by
  obtain ⟨hsource, htarget, hvideo, hremaining⟩ := h
  cases r with
  | sourceHigh => exact ⟨(setHigh_and_low ..).trans hsource, htarget, hvideo, hremaining⟩
  | sourceLow => exact ⟨setLow_and_low .., htarget, hvideo, hremaining⟩
  | targetHigh =>
    refine ⟨hsource, ?_, setTarget_and_high .., hremaining⟩
    exact (or_video_and_low _).trans ((setHigh_and_low ..).trans htarget)
  | targetLow =>
    exact ⟨hsource, setLow_and_low .., (setLow_and_high ..).trans hvideo, hremaining⟩
  | control =>
    unfold Transfer.write
    split_ifs
    · exact ⟨hsource, htarget, hvideo, hremaining⟩
    · exact ⟨hsource, htarget, hvideo, hremaining⟩
    all_goals exact ⟨hsource, htarget, hvideo, and_seven_bits_lt v⟩

theorem Valid.afterBlock {t : Transfer} (h : t.Valid) : t.afterBlock.Valid := by
  have hsource : (t.source + 0x10) &&& 0x000f = 0 := by
    have haligned := (and_low_eq_zero_iff t.source).1 h.source_aligned
    rw [and_low_eq_zero_iff, UInt16.toNat_add]
    change (t.source.toNat + 16) % 65536 % 16 = 0
    omega
  have hremaining := h.remaining_lt
  unfold Transfer.afterBlock
  simp only
  split_ifs with hlast
  · exact ⟨hsource, nextTarget_and_low _, nextTarget_and_high _, and_seven_bits_lt 0x7f⟩
  · refine ⟨hsource, nextTarget_and_low _, nextTarget_and_high _, ?_⟩
    have hpos : 1 ≤ t.remaining := by
      refine UInt8.le_iff_toNat_le.2 (Nat.pos_iff_ne_zero.2 ?_)
      exact fun hzero => hlast (UInt8.toNat_inj.1 hzero)
    change (t.remaining - 1).toNat < 0x80
    rw [UInt8.toNat_sub_of_le _ _ hpos]
    omega

end Transfer

/-! ## The cartridge -/

namespace Controller

/-- The divider of a controller with a clock. -/
def seconds? : Controller → Option Divider
  | .mbc3 r => some r.seconds
  | _ => none

/-- A command does not touch the divider. -/
@[simp] theorem seconds?_command (c : Controller) (a : UInt16) (v : UInt8) :
    (c.command a v).seconds? = c.seconds? := by
  cases c with
  | mbc3 r =>
    simp only [command, Mbc3.command]
    split_ifs <;> rfl
  | _ => rfl

@[simp] theorem seconds?_writeClock (c : Controller) (x : RealTimeClock.Register) (v : UInt8) :
    (c.writeClock x v).seconds? = c.seconds? := by
  cases c <;> rfl

theorem seconds?_advance (c : Controller) (n : Nat) :
    (c.advance n).seconds? = c.seconds?.map fun d => (d.advance n).2 := by
  cases c <;> rfl

end Controller

namespace Cartridge

/-- Cycles of the normal rate in a second. -/
abbrev cyclesPerSecond : Nat := 4194304

/-- Read-only memory is two whole banks or more, at most 8 MiB, external memory is at most 128 KiB,
and less than a second waits in a clock's divider. -/
structure Valid (c : Cartridge) : Prop where
  banks : Header.romBankSize ∣ c.rom.size
  two_banks : 2 * Header.romBankSize ≤ c.rom.size
  rom_le : c.rom.size ≤ 2 ^ 23
  ram_le : c.ram.size ≤ 2 ^ 17
  second : ∀ d, c.controller.seconds? = some d →
    d.period = cyclesPerSecond ∧ d.count < cyclesPerSecond

theorem controller_write_seconds? (c : Cartridge) (a : UInt16) (v : UInt8) :
    (c.write a v).controller.seconds? = c.controller.seconds? := by
  unfold Cartridge.write
  split_ifs
  · exact c.controller.seconds?_command a v
  · simp only
    split
    case h_4 => exact c.controller.seconds?_writeClock _ v
    all_goals rfl
  · rfl

theorem Valid.write {c : Cartridge} (h : c.Valid) (a : UInt16) (v : UInt8) :
    (c.write a v).Valid where
  banks := by rw [rom_write]; exact h.banks
  two_banks := by rw [rom_write]; exact h.two_banks
  rom_le := by rw [rom_write]; exact h.rom_le
  ram_le := by rw [size_ram_write]; exact h.ram_le
  second := by rw [controller_write_seconds?]; exact h.second

theorem Valid.advance {c : Cartridge} (h : c.Valid) (n : Nat) : (c.advance n).Valid where
  banks := h.banks
  two_banks := h.two_banks
  rom_le := h.rom_le
  ram_le := h.ram_le
  second := by
    intro d hd
    rw [Cartridge.advance, Controller.seconds?_advance] at hd
    obtain ⟨e, he, rfl⟩ := Option.map_eq_some_iff.1 hd
    obtain ⟨hperiod, -⟩ := h.second e he
    refine ⟨hperiod, ?_⟩
    have hlt := e.count_advance_lt n (by rw [hperiod]; decide)
    exact Nat.lt_of_lt_of_eq hlt hperiod

theorem rom_loadRam (c : Cartridge) (saved : ByteArray) : (c.loadRam saved).rom = c.rom := by
  rw [Cartridge.loadRam]

theorem controller_loadRam (c : Cartridge) (saved : ByteArray) :
    (c.loadRam saved).controller = c.controller := by
  rw [Cartridge.loadRam]

/-- Saved bytes take the place of others. -/
theorem size_loadRam (c : Cartridge) (saved : ByteArray) :
    (c.loadRam saved).ram.size = c.ram.size := by
  simp only [Cartridge.loadRam, ByteArray.size_append, ByteArray.size_extract]
  omega

theorem Valid.loadRam {c : Cartridge} (h : c.Valid) (saved : ByteArray) :
    (c.loadRam saved).Valid where
  banks := by rw [rom_loadRam]; exact h.banks
  two_banks := by rw [rom_loadRam]; exact h.two_banks
  rom_le := by rw [rom_loadRam]; exact h.rom_le
  ram_le := by rw [size_loadRam]; exact h.ram_le
  second := by rw [controller_loadRam]; exact h.second

/-! ## Loading -/

theorem romBankSize_dvd_romSize {code : UInt8} {size : Nat} (h : Header.romSize? code = some size) :
    Header.romBankSize ∣ size := by
  unfold Header.romSize? at h
  split_ifs at h <;> simp only [Option.some.injEq] at h <;> subst h
  · exact ⟨2 ^ (code.toNat + 1), Nat.shiftLeft_eq ..⟩
  all_goals exact Nat.dvd_mul_right ..

theorem romSize_le {code : UInt8} {size : Nat} (h : Header.romSize? code = some size) :
    size ≤ 2 ^ 23 := by
  unfold Header.romSize? at h
  split_ifs at h with hcode <;> simp only [Option.some.injEq] at h <;> subst h
  · have hpow : 2 ^ (code.toNat + 1) ≤ 2 ^ 9 :=
      Nat.pow_le_pow_right (by decide) (Nat.succ_le_succ (UInt8.le_iff_toNat_le.1 hcode))
    rw [Nat.shiftLeft_eq]
    exact Nat.mul_le_mul_left Header.romBankSize hpow
  all_goals decide

theorem ramSize_le {code : UInt8} {size : Nat} (h : Header.ramSize? code = some size) :
    size ≤ 2 ^ 17 := by
  unfold Header.ramSize? at h
  split_ifs at h <;> simp only [Option.some.injEq] at h <;> subst h <;> decide

theorem size_clearedRam_le (controller : Controller) {declared : Nat} (h : declared ≤ 2 ^ 17) :
    (clearedRam controller declared).size ≤ 2 ^ 17 := by
  unfold clearedRam
  split
  · exact Nat.le_trans (Nat.le_of_eq Array.size_replicate) (by decide)
  · exact Nat.le_trans (Nat.le_of_eq Array.size_replicate) h

/-- A controller starts with an empty divider. -/
theorem seconds?_ofCode {code : UInt8} {c : Controller} (h : Controller.ofCode? code = some c)
    (d : Divider) (hd : c.seconds? = some d) : d = { period := cyclesPerSecond } := by
  unfold Controller.ofCode? at h
  split_ifs at h <;> simp only [Option.some.injEq] at h <;> subst h <;>
    simp_all [Controller.seconds?]

/-- What an accepted image becomes. -/
theorem load_eq_ok {image : ByteArray} {c : Cartridge} (h : load image = .ok c) :
    ∃ size, Header.romSize? (Header.romCode image) = some size ∧
      c.rom = padded image size ∧ image.size ≤ size ∧ c.ram.size ≤ 2 ^ 17 ∧
      Controller.ofCode? (Header.kindCode image) = some c.controller := by
  unfold load at h
  simp only [bind, Except.bind, pure, Except.pure, throw, throwThe, MonadExceptOf.throw] at h
  split at h
  · cases h
  cases hrom : Header.romSize? (Header.romCode image) with
  | none => simp [hrom] at h
  | some size =>
    simp only [hrom] at h
    split at h
    · cases h
    rename_i hle
    cases hram : Header.ramSize? (Header.ramCode image) with
    | none => simp [hram] at h
    | some ramSize =>
      simp only [hram] at h
      cases hkind : Controller.ofCode? (Header.kindCode image) with
      | none => simp [hkind] at h
      | some controller =>
        simp only [hkind, Except.ok.injEq] at h
        subst h
        have hsize := size_clearedRam_le controller (ramSize_le hram)
        exact ⟨size, rfl, rfl, Nat.le_of_not_lt hle, hsize, rfl⟩

theorem valid_load {image : ByteArray} {c : Cartridge} (h : load image = .ok c) : c.Valid := by
  obtain ⟨size, hsize, hrom, hle, hram, hcontroller⟩ := load_eq_ok h
  have hbytes : c.rom.size = size := by rw [hrom, size_padded image size hle]
  refine ⟨?_, ?_, ?_, hram, ?_⟩
  · rw [hbytes]
    exact romBankSize_dvd_romSize hsize
  · rw [hbytes]
    exact Header.romBankSize_le_romSize hsize
  · rw [hbytes]
    exact romSize_le hsize
  · intro d hd
    rw [seconds?_ofCode hcontroller d hd]
    exact ⟨rfl, by decide⟩

/-- The shortest image that is accepted: zeros, which are a cartridge without a controller and a
program that does nothing. -/
def zeroImage : ByteArray := ⟨Array.replicate Header.stop 0⟩

theorem byteAt_zeroImage {i : Nat} (h : i < Header.stop) : byteAt zeroImage i = 0 := by
  have hsize : zeroImage.size = Header.stop := Array.size_replicate
  rw [byteAt, dif_pos (Nat.lt_of_lt_of_eq h hsize.symm)]
  exact Array.getElem_replicate ..

/-- The shortest images, by the codes in their headers. -/
theorem load_of_codes {image : ByteArray} {romSize ramSize : Nat} {controller : Controller}
    (hsize : image.size = Header.stop)
    (hrom : Header.romSize? (Header.romCode image) = some romSize)
    (hram : Header.ramSize? (Header.ramCode image) = some ramSize)
    (hkind : Controller.ofCode? (Header.kindCode image) = some controller) :
    load image =
      .ok { rom := padded image romSize, ram := clearedRam controller ramSize, controller } := by
  have hbanks : ¬ romSize < Header.stop := by
    have hle := Header.romBankSize_le_romSize hrom
    simp only [Header.romBankSize, Header.stop] at *
    omega
  unfold load
  simp only [hsize, hrom, hram, hkind, hbanks, Nat.lt_irrefl, if_false]
  rfl

/-- The shortest images, whose header declares a cartridge without a controller. -/
theorem load_shortest {image : ByteArray} (hsize : image.size = Header.stop)
    (hrom : Header.romCode image = 0) (hram : Header.ramCode image = 0)
    (hkind : Header.kindCode image = 0) :
    load image =
      .ok {
        rom := padded image (2 * Header.romBankSize)
        ram := clearedRam .fixed 0
        controller := .fixed } :=
  load_of_codes hsize (by rw [hrom]; rfl) (by rw [hram]; rfl) (by rw [hkind]; rfl)

theorem load_zeroImage :
    load zeroImage =
      .ok {
        rom := padded zeroImage (2 * Header.romBankSize)
        ram := clearedRam .fixed 0
        controller := .fixed } :=
  load_shortest Array.size_replicate (byteAt_zeroImage (by decide)) (byteAt_zeroImage (by decide))
    (byteAt_zeroImage (by decide))

/-- The shortest image with a program: zeros but for the code where execution begins. -/
def codeImage (code : List UInt8) : ByteArray :=
  ⟨Array.ofFn fun i : Fin Header.stop => if i.val < 0x100 then 0 else code.getD (i - 0x100) 0⟩

theorem byteAt_codeImage (code : List UInt8) {i : Nat} (h : i < Header.stop) :
    byteAt (codeImage code) i = if i < 0x100 then 0 else code.getD (i - 0x100) 0 := by
  have hsize : (codeImage code).size = Header.stop := Array.size_ofFn
  rw [byteAt, dif_pos (Nat.lt_of_lt_of_eq h hsize.symm)]
  exact Array.getElem_ofFn _

/-- It is accepted if the code leaves the header alone. -/
theorem load_codeImage {code : List UInt8} (h : code.length ≤ 0x34) :
    load (codeImage code) =
      .ok {
        rom := padded (codeImage code) (2 * Header.romBankSize)
        ram := clearedRam .fixed 0
        controller := .fixed } := by
  have hzero : ∀ i, 0x134 ≤ i → i < Header.stop → byteAt (codeImage code) i = 0 := by
    intro i hi hlt
    rw [byteAt_codeImage code hlt, if_neg (by omega), List.getD_eq_default]
    omega
  exact load_shortest Array.size_ofFn (hzero _ (by decide) (by decide))
    (hzero _ (by decide) (by decide)) (hzero _ (by decide) (by decide))

/-- The shortest image whose header has the given codes: zeros but for them. -/
def headerImage (kind rom ram : UInt8) : ByteArray :=
  codeImage (List.replicate 0x47 0x00 ++ [kind, rom, ram])

theorem load_headerImage {kind rom ram : UInt8} {romSize ramSize : Nat} {controller : Controller}
    (hrom : Header.romSize? rom = some romSize) (hram : Header.ramSize? ram = some ramSize)
    (hkind : Controller.ofCode? kind = some controller) :
    load (headerImage kind rom ram) =
      .ok {
        rom := padded (headerImage kind rom ram) romSize
        ram := clearedRam controller ramSize
        controller } := by
  have hbyte : ∀ i, i < Header.stop → byteAt (headerImage kind rom ram) i = _ :=
    fun i hi => byteAt_codeImage _ hi
  refine load_of_codes Array.size_ofFn ?_ ?_ ?_
  · rw [Header.romCode, hbyte _ (by decide)]
    exact hrom
  · rw [Header.ramCode, hbyte _ (by decide)]
    exact hram
  · rw [Header.kindCode, hbyte _ (by decide)]
    exact hkind

end Cartridge

end GameBoy
