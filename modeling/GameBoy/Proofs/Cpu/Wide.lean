import Mathlib.Data.Nat.Bitwise
import GameBoy.Proofs.Cpu.Decimal
import GameBoy.Proofs.Cpu.Operands

/-!
# Sums of words

The processor finds the carries of a sum of two words by comparing parts of them, and those of the
sum of the stack pointer and a signed byte by looking at the bits in which the sum differs from one
without carries. Both are the carries that sums of bytes give: of the two halves of the words, the
lower one first, and of the lower half of the stack pointer and the byte, whatever its sign.

* `addWords_eq`: a sum of words is two sums of bytes.
* `carries_and_bit`: a mask finds the carry that came into its bit.
* `flags_addOffset`, `toInt_addOffset`: the carries of a sum with a signed byte, and the sum.
* `Cpu.wide_sums_exact`: what the instructions with such sums leave.
-/

namespace GameBoy

variable {β : Type} [Bus β]

/-! ## Two sums of bytes -/

theorem toNat_and_twelve (x : UInt16) : (x &&& 0x0fff).toNat = x.toNat % 4096 := by
  rw [UInt16.toNat_and]
  exact Nat.and_two_pow_sub_one_eq_mod x.toNat 12

/-- The half carry of a sum of bytes, in numbers. -/
theorem halfCarry_addBytes (x y : UInt8) (c : Bool) :
    (addBytes x y c).2.halfCarry = decide (16 ≤ x.toNat % 16 + y.toNat % 16 + c.toNat) := by
  simp only [addBytes, toNat_and_low]
  rfl

/-- The carry of a sum of bytes, in numbers. -/
theorem carry_addBytes (x y : UInt8) (c : Bool) :
    (addBytes x y c).2.carry = decide (256 ≤ x.toNat + y.toNat + c.toNat) := rfl

theorem halfCarry_addWords (x y : UInt16) (f : Flags) :
    (addWords x y f).2.halfCarry = decide (4096 ≤ x.toNat % 4096 + y.toNat % 4096) := by
  simp only [addWords, toNat_and_twelve]
  rfl

theorem carry_addWords (x y : UInt16) (f : Flags) :
    (addWords x y f).2.carry = decide (65536 ≤ x.toNat + y.toNat) := rfl

/-- A sum of words is the sum of their low bytes, and then that of their high bytes with the carry
of the first one. Its flags are those of the second sum, but for the zero flag. -/
theorem addWords_eq (x y : UInt16) (f : Flags) :
    let low := plainSum (lowByte x) (lowByte y)
    let high := addBytes (highByte x) (highByte y) low.2.carry
    addWords x y f = (word high.1 low.1, { high.2 with zero := f.zero }) := by
  intro low high
  have hlow : x.toNat % 256 + y.toNat % 256 = low.1.toNat + 256 * low.2.carry.toNat := by
    rw [← toNat_lowByte, ← toNat_lowByte, show low = _ from plainSum_eq ..]
    exact addBytes_column (lowByte x) (lowByte y) false
  have hhigh : x.toNat / 256 + y.toNat / 256 + low.2.carry.toNat =
      high.1.toNat + 256 * high.2.carry.toNat := by
    rw [← toNat_highByte, ← toNat_highByte]
    exact addBytes_column (highByte x) (highByte y) low.2.carry
  have hl := low.1.toNat_lt
  have hh := high.1.toNat_lt
  have hsum : x + y = word high.1 low.1 := by
    rw [← UInt16.toNat_inj, UInt16.toNat_add, toNat_word]
    omega
  have hhalf : (addWords x y f).2.halfCarry = high.2.halfCarry := by
    rw [halfCarry_addWords, halfCarry_addBytes, toNat_highByte, toNat_highByte]
    apply decide_eq_decide.2
    omega
  have hcarry : (addWords x y f).2.carry = high.2.carry := by
    rw [carry_addWords, carry_addBytes, toNat_highByte, toNat_highByte]
    apply decide_eq_decide.2
    omega
  calc addWords x y f
    _ = (x + y, ⟨f.zero, false, (addWords x y f).2.halfCarry, (addWords x y f).2.carry⟩) := rfl
    _ = (word high.1 low.1, ⟨f.zero, false, high.2.halfCarry, high.2.carry⟩) := by
      rw [hsum, hhalf, hcarry]

/-! ## A signed byte -/

/-- A mask of one bit tests it. -/
theorem and_bit_ne_zero (v : UInt16) {k : Nat} (hk : k < 16) :
    (v &&& UInt16.ofNat (2 ^ k) != 0) = v.toNat.testBit k := by
  have hpow : 2 ^ k < 2 ^ 16 := Nat.pow_lt_pow_right (by decide) hk
  have hand : (v &&& UInt16.ofNat (2 ^ k)).toNat = (v.toNat.testBit k).toNat * 2 ^ k := by
    rw [UInt16.toNat_and, UInt16.toNat_ofNat', Nat.mod_eq_of_lt hpow, Nat.and_two_pow]
  rw [Bool.eq_iff_iff, bne_iff_ne, ne_eq, ← UInt16.toNat_inj, hand]
  cases v.toNat.testBit k <;> simp

/-- So a mask finds the carry into its bit. -/
theorem carries_and_bit (x y : UInt16) {k : Nat} (hk : k < 16) :
    ((x ^^^ y ^^^ (x + y)) &&& UInt16.ofNat (2 ^ k) != 0) =
      decide (2 ^ k ≤ x.toNat % 2 ^ k + y.toNat % 2 ^ k) :=
  (and_bit_ne_zero _ hk).trans (carries_bit x.toBitVec y.toBitVec hk)

theorem toNat_signExtend_mod (e : UInt8) : (signExtend e).toNat % 256 = e.toNat :=
  forall_byte (P := fun e => (signExtend e).toNat % 256 = e.toNat) (by decide +kernel) e

theorem toInt_signExtend (e : UInt8) : ((signExtend e).toNat : Int) = e.toInt8.toInt % 65536 :=
  forall_byte (P := fun e => ((signExtend e).toNat : Int) = e.toInt8.toInt % 65536)
    (by decide +kernel) e

/-- The sum of a word and a signed byte has the carries of a sum of bytes, whatever the sign. -/
theorem flags_addOffset (x : UInt16) (e : UInt8) :
    let low := plainSum (lowByte x) e
    (addOffset x e).2 = ⟨false, false, low.2.halfCarry, low.2.carry⟩ := by
  intro low
  have he := toNat_signExtend_mod e
  have hlow : low = addBytes (lowByte x) e false := plainSum_eq (lowByte x) e
  have hhalf : (addOffset x e).2.halfCarry = low.2.halfCarry := by
    calc (addOffset x e).2.halfCarry
      _ = decide (2 ^ 4 ≤ x.toNat % 2 ^ 4 + (signExtend e).toNat % 2 ^ 4) :=
        carries_and_bit x (signExtend e) (k := 4) (by decide)
      _ = low.2.halfCarry := by
        rw [hlow, halfCarry_addBytes, toNat_lowByte, Bool.toNat_false]
        apply decide_eq_decide.2
        omega
  have hcarry : (addOffset x e).2.carry = low.2.carry := by
    calc (addOffset x e).2.carry
      _ = decide (2 ^ 8 ≤ x.toNat % 2 ^ 8 + (signExtend e).toNat % 2 ^ 8) :=
        carries_and_bit x (signExtend e) (k := 8) (by decide)
      _ = low.2.carry := by
        rw [hlow, carry_addBytes, toNat_lowByte, Bool.toNat_false]
        apply decide_eq_decide.2
        omega
  rw [← hhalf, ← hcarry]
  rfl

theorem toInt_addOffset (x : UInt16) (e : UInt8) :
    ((addOffset x e).1.toNat : Int) = (x.toNat + e.toInt8.toInt) % 65536 := by
  simp only [addOffset, UInt16.toNat_add]
  push_cast
  rw [toInt_signExtend]
  omega

/-! ## Steps -/

namespace Cpu

variable {cpu : Cpu} {bus : β}

/-- The step that adds a pair to `HL`. -/
theorem IsAt.addHL {p : Pair} (h : cpu.IsAt bus (.addHL p)) :
    let low := plainSum cpu.regs.l (lowByte (cpu.regs.pair p))
    let high := addBytes cpu.regs.h (highByte (cpu.regs.pair p)) low.2.carry
    (cpu.step bus).cpu.regs =
        { cpu.regs with
          h := high.1, l := low.1, pc := cpu.regs.pc + 1
          flags := ⟨cpu.regs.flags.zero, false, high.2.halfCarry, high.2.carry⟩ } ∧
      (cpu.step bus).bus = bus := by
  intro low high
  refine ⟨?_, bus_of_executed (isAt_iff.1 h) nofun⟩
  have hpair : (cpu.regs.goto (cpu.regs.pc + 1)).pair p = cpu.regs.pair p := by cases p <;> rfl
  have hl : lowByte cpu.regs.hl = cpu.regs.l := lowByte_word ..
  have hh : highByte cpu.regs.hl = cpu.regs.h := highByte_word ..
  have hsum : addWords cpu.regs.hl (cpu.regs.pair p) cpu.regs.flags =
      (word high.1 low.1, ⟨cpu.regs.flags.zero, false, high.2.halfCarry, high.2.carry⟩) := by
    have hbytes := addWords_eq cpu.regs.hl (cpu.regs.pair p) cpu.regs.flags
    simp only [hl, hh] at hbytes
    exact hbytes
  calc (cpu.step bus).cpu.regs
    _ = (((cpu.regs.goto (cpu.regs.pc + 1)).setPair .hl
          (addWords cpu.regs.hl (cpu.regs.pair p) cpu.regs.flags).1).setFlags
          (addWords cpu.regs.hl (cpu.regs.pair p) cpu.regs.flags).2) := by
      rw [regs_of_executed (isAt_iff.1 h), ← hpair]
      rfl
    _ = _ := by
      rw [hsum]
      simp only [Registers.setPair, highByte_word, lowByte_word]
      rfl

/-- The step that adds a signed byte to the stack pointer. -/
theorem IsAt.addSP {e : UInt8} (h : cpu.IsAt bus (.addSP e)) :
    (cpu.step bus).cpu.regs =
        { cpu.regs with
          sp := (addOffset cpu.regs.sp e).1, pc := cpu.regs.pc + 2
          flags := (addOffset cpu.regs.sp e).2 } ∧
      (cpu.step bus).bus = bus :=
  ⟨regs_of_executed (isAt_iff.1 h), bus_of_executed (isAt_iff.1 h) nofun⟩

/-- The step that puts such a sum into `HL`. -/
theorem IsAt.loadHLSP {e : UInt8} (h : cpu.IsAt bus (.loadHLSP e)) :
    (cpu.step bus).cpu.regs =
        { cpu.regs with
          h := highByte (addOffset cpu.regs.sp e).1, l := lowByte (addOffset cpu.regs.sp e).1
          pc := cpu.regs.pc + 2, flags := (addOffset cpu.regs.sp e).2 } ∧
      (cpu.step bus).bus = bus :=
  ⟨regs_of_executed (isAt_iff.1 h), bus_of_executed (isAt_iff.1 h) nofun⟩

/-- Sums of words are sums of bytes. Adding a pair to `HL` leaves what adding its low byte to `L`
and then, with the carry, its high byte to `H` would leave, except that the zero flag stays. A
signed byte added to the stack pointer gives the sum modulo `0x10000`, wherever the sum goes, and
the carries are those of adding the byte to the low byte of the stack pointer. -/
theorem wide_sums_exact (cpu : Cpu) (bus : β) :
    (∀ p : Pair, cpu.IsAt bus (.addHL p) →
      let low := Alu.add.apply cpu.regs.l (lowByte (cpu.regs.pair p)) cpu.regs.flags
      let high := Alu.adc.apply cpu.regs.h (highByte (cpu.regs.pair p)) low.2
      (cpu.step bus).cpu.regs =
          { cpu.regs with
            h := high.1, l := low.1, pc := cpu.regs.pc + 1
            flags := ⟨cpu.regs.flags.zero, false, high.2.halfCarry, high.2.carry⟩ } ∧
        (cpu.step bus).bus = bus) ∧
    ∀ e : UInt8,
      let low := Alu.add.apply (lowByte cpu.regs.sp) e cpu.regs.flags
      ∃ sum : UInt16, (sum.toNat : Int) = (cpu.regs.sp.toNat + e.toInt8.toInt) % 0x10000 ∧
        (cpu.IsAt bus (.addSP e) →
          (cpu.step bus).cpu.regs =
              { cpu.regs with
                sp := sum, pc := cpu.regs.pc + 2
                flags := ⟨false, false, low.2.halfCarry, low.2.carry⟩ } ∧
            (cpu.step bus).bus = bus) ∧
        (cpu.IsAt bus (.loadHLSP e) →
          (cpu.step bus).cpu.regs =
              { cpu.regs with
                h := highByte sum, l := lowByte sum, pc := cpu.regs.pc + 2
                flags := ⟨false, false, low.2.halfCarry, low.2.carry⟩ } ∧
            (cpu.step bus).bus = bus) := by
  refine ⟨fun p h => h.addHL, fun e => ?_⟩
  intro low
  have hflags : (addOffset cpu.regs.sp e).2 = ⟨false, false, low.2.halfCarry, low.2.carry⟩ :=
    flags_addOffset cpu.regs.sp e
  refine ⟨(addOffset cpu.regs.sp e).1, toInt_addOffset cpu.regs.sp e, fun h => ?_, fun h => ?_⟩
  · rw [← hflags]
    exact h.addSP
  · rw [← hflags]
    exact h.loadHLSP

/-- The processor with the stack pointer close to the beginning of memory. -/
def lowStack : Cpu := { regs := { Registers.powerUp .dmg with sp := 0x0001 } }

/-- Adding the stack pointer to `HL` carries out of both bytes; taking two from a small stack
pointer wraps around without a carry. -/
theorem wide_sums_exact_wrapped :
    ((powerUp .dmg).step (program [0x39])).cpu.regs =
        { Registers.powerUp .dmg with
          h := 0x01, l := 0x4b, pc := 0x0101, flags := ⟨true, false, true, true⟩ } ∧
      (lowStack.step (program [0xe8, 0xfe])).cpu.regs =
        { lowStack.regs with sp := 0xffff, pc := 0x0102, flags := ⟨false, false, false, false⟩ } ∧
      (lowStack.step (program [0xf8, 0xfe])).cpu.regs =
        { lowStack.regs with
          h := 0xff, l := 0xff, pc := 0x0102, flags := ⟨false, false, false, false⟩ } := by
  have hadd : (powerUp .dmg).IsAt (program [0x39]) (.addHL .sp) :=
    isAt_program rfl rfl rfl (n := 0) (by decide) rfl
  have hsp : lowStack.IsAt (program [0xe8, 0xfe]) (.addSP 0xfe) :=
    isAt_program rfl rfl rfl (n := 0) (by decide) rfl
  have hhl : lowStack.IsAt (program [0xf8, 0xfe]) (.loadHLSP 0xfe) :=
    isAt_program rfl rfl rfl (n := 0) (by decide) rfl
  obtain ⟨hsum, -⟩ := ((powerUp .dmg).wide_sums_exact (program [0x39])).1 .sp hadd
  obtain ⟨sum, hvalue, hoffset, -⟩ := (lowStack.wide_sums_exact (program [0xe8, 0xfe])).2 0xfe
  obtain ⟨sum', hvalue', -, hloaded⟩ := (lowStack.wide_sums_exact (program [0xf8, 0xfe])).2 0xfe
  have hminus : ((lowStack.regs.sp.toNat : Int) + (0xfe : UInt8).toInt8.toInt) % 0x10000 =
      ((0xffff : UInt16).toNat : Int) := by decide
  obtain rfl : sum = 0xffff := UInt16.toNat_inj.1 (Int.ofNat_inj.1 (hvalue.trans hminus))
  obtain rfl : sum' = 0xffff := UInt16.toNat_inj.1 (Int.ofNat_inj.1 (hvalue'.trans hminus))
  exact ⟨hsum.trans (by decide), (hoffset hsp).1.trans (by decide),
    (hloaded hhl).1.trans (by decide)⟩

end Cpu

end GameBoy
