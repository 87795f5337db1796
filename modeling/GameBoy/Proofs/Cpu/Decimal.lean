import GameBoy.Proofs.Cpu.Carrying

/-!
# Decimal numbers of several bytes

A byte may hold two decimal digits, one in each half. Sums and differences of such bytes are made as
if they were ordinary ones and then corrected, and the flags tell the correction all that it needs
to know. A difference needs the opposite of what the sum with the complement to nines would need, so
one fact about digits serves both. The carry that the correction leaves is one in the next byte, so
chains of corrected operations compute with decimal numbers of any length.

* `IsDecimal`, `decimalValue`: two digits in a byte, and the number that they make.
* `digits_corrected`: what the correction makes of two digits that may be too large.
* `column_addBytes`, `column_subBytes`: corrected sums and differences as single columns.
* `Cpu.decimal_exact`: corrected chains compute with decimal numbers, and runs do so too.
-/

namespace GameBoy

open Nat (ofDigits)

/-! ## Digits -/

/-- Both halves of the byte are decimal digits. -/
structure IsDecimal (v : UInt8) : Prop where
  high : v.toNat / 16 ≤ 9
  low : v.toNat % 16 ≤ 9

/-- The number that two digits make. -/
def decimalValue (v : UInt8) : Nat := 10 * (v.toNat / 16) + v.toNat % 16

/-- The number that some bytes make, the lowest one first. -/
def decimal (bs : List UInt8) : Nat := ofDigits 100 (bs.map decimalValue)

/-- The correction of two digits that may be too large: six for each that is. -/
def correctedBy (high low : Nat) : Nat :=
  (if 100 ≤ 10 * high + low then 96 else 0) + if 10 ≤ low then 6 else 0

theorem digits_corrected {high low : Nat} (hhigh : high ≤ 18) (hlow : low ≤ 19) :
    (16 * high + low + correctedBy high low) % 256 =
      16 * ((high + low / 10) % 10) + low % 10 := by
  rw [correctedBy]
  split <;> split <;> omega

/-- The corrected digits make the same number, but for a hundred that is carried. -/
theorem isDecimal_of_corrected {r : UInt8} {high low : Nat} (hhigh : high ≤ 18) (hlow : low ≤ 19)
    (hr : r.toNat = (16 * high + low + correctedBy high low) % 256) :
    IsDecimal r ∧
      10 * high + low = decimalValue r + 100 * (decide (100 ≤ 10 * high + low)).toNat := by
  rw [digits_corrected hhigh hlow] at hr
  have hhighDigit : r.toNat / 16 = (high + low / 10) % 10 := by omega
  have hlowDigit : r.toNat % 16 = low % 10 := by omega
  refine ⟨⟨by omega, by omega⟩, ?_⟩
  rw [decimalValue, hhighDigit, hlowDigit, toNat_decide]
  split <;> omega

/-! ## The correction -/

/-- After a sum the flags and the byte tell which digits are too large, after a difference the flags
alone tell which ones borrowed. -/
theorem toNat_decimalCorrection (a : UInt8) (f : Flags) :
    (decimalCorrection a f).toNat =
      (if f.carry = true ∨ f.subtract = false ∧ 0x99 < a.toNat then 96 else 0) +
        if f.halfCarry = true ∨ f.subtract = false ∧ 9 < a.toNat % 16 then 6 else 0 := by
  have hhigh : (f.carry || (!f.subtract && a > 0x99)) = true ↔
      f.carry = true ∨ f.subtract = false ∧ 0x99 < a.toNat := by
    rw [Bool.or_eq_true, Bool.and_eq_true, Bool.not_eq_true', decide_eq_true_iff]
    rfl
  have hlow : (f.halfCarry || (!f.subtract && a &&& 0x0f > 0x09)) = true ↔
      f.halfCarry = true ∨ f.subtract = false ∧ 9 < a.toNat % 16 := by
    rw [Bool.or_eq_true, Bool.and_eq_true, Bool.not_eq_true', decide_eq_true_iff, ← toNat_and_low]
    rfl
  simp only [decimalCorrection, hhigh, hlow]
  split <;> split <;> rfl

theorem carry_decimalAdjust (a : UInt8) (f : Flags) :
    (decimalAdjust a f).2.carry = decide (96 ≤ (decimalCorrection a f).toNat) := rfl

/-! ## Columns -/

section Columns

variable {x y : UInt8} (hx : IsDecimal x) (hy : IsDecimal y) (c : Bool)

include hx hy

/-- A corrected sum. -/
theorem column_addBytes :
    let r := decimalAdjust (addBytes x y c).1 (addBytes x y c).2
    IsDecimal r.1 ∧
      decimalValue x + decimalValue y + c.toNat = decimalValue r.1 + 100 * r.2.carry.toNat := by
  intro r
  obtain ⟨hxh, hxl⟩ := hx
  obtain ⟨hyh, hyl⟩ := hy
  have hc := c.toNat_le
  -- the digits of the sum, before any of them is carried
  obtain ⟨high, low, hhigh, hlow, hhalf, hbytes, hnumbers⟩ : ∃ high low, high ≤ 18 ∧ low ≤ 19 ∧
      x.toNat % 16 + y.toNat % 16 + c.toNat = low ∧
      x.toNat + y.toNat + c.toNat = 16 * high + low ∧
      decimalValue x + decimalValue y + c.toNat = 10 * high + low := by
    refine ⟨x.toNat / 16 + y.toNat / 16, _, by omega, by omega, rfl, by omega, ?_⟩
    rw [decimalValue, decimalValue]
    omega
  have hsum : (addBytes x y c).1.toNat = (16 * high + low) % 256 := by
    simp only [addBytes, UInt8.toNat_add, toNat_carryIn, ← hbytes]
    omega
  have hk : (decimalCorrection (addBytes x y c).1 (addBytes x y c).2).toNat =
      correctedBy high low := by
    have hcarry : (addBytes x y c).2.carry = true ∨
        (addBytes x y c).2.subtract = false ∧ 0x99 < (addBytes x y c).1.toNat ↔
        100 ≤ 10 * high + low := by
      rw [hsum]
      simp only [addBytes, decide_eq_true_iff, true_and, hbytes]
      omega
    have hhalfCarry : (addBytes x y c).2.halfCarry = true ∨
        (addBytes x y c).2.subtract = false ∧ 9 < (addBytes x y c).1.toNat % 16 ↔ 10 ≤ low := by
      rw [hsum]
      simp only [addBytes, toNat_and_low, decide_eq_true_iff, true_and, hhalf]
      omega
    simp only [toNat_decimalCorrection, hcarry, hhalfCarry]
    rfl
  have hresult : r.1.toNat = (16 * high + low + correctedBy high low) % 256 := by
    change ((addBytes x y c).1 + decimalCorrection _ _).toNat = _
    rw [UInt8.toNat_add, hsum, hk, Nat.mod_add_mod]
  have hcarry : r.2.carry = decide (100 ≤ 10 * high + low) := by
    rw [carry_decimalAdjust, hk, decide_eq_decide, correctedBy]
    split <;> split <;> omega
  rw [hnumbers, hcarry]
  exact isDecimal_of_corrected hhigh hlow hresult

/-- A corrected difference, which is the sum with the complement to nines. -/
theorem column_subBytes :
    let r := decimalAdjust (subBytes x y c).1 (subBytes x y c).2
    IsDecimal r.1 ∧
      decimalValue r.1 + decimalValue y + c.toNat = decimalValue x + 100 * r.2.carry.toNat := by
  intro r
  obtain ⟨hxh, hxl⟩ := hx
  obtain ⟨hyh, hyl⟩ := hy
  have hc := c.toNat_le
  -- the digits of that sum; it is too small by a hundred where the difference borrows
  obtain ⟨high, low, hhigh, hlow, hhalf, hbytes, hnumbers⟩ : ∃ high low, high ≤ 18 ∧ low ≤ 19 ∧
      x.toNat % 16 + 10 = y.toNat % 16 + c.toNat + low ∧
      x.toNat + 154 = y.toNat + c.toNat + (16 * high + low) ∧
      decimalValue x + 100 = decimalValue y + c.toNat + (10 * high + low) := by
    refine ⟨x.toNat / 16 + (9 - y.toNat / 16), x.toNat % 16 + (9 - y.toNat % 16) + (1 - c.toNat),
      by omega, by omega, by omega, by omega, ?_⟩
    rw [decimalValue, decimalValue]
    omega
  have hdifference : (subBytes x y c).1.toNat = (16 * high + low + 102) % 256 := by
    have hy := y.toNat_lt
    simp only [subBytes, UInt8.toNat_sub, toNat_carryIn]
    omega
  have hk : (decimalCorrection (subBytes x y c).1 (subBytes x y c).2).toNat =
      102 - correctedBy high low := by
    have hcarry : (subBytes x y c).2.carry = true ∨
        (subBytes x y c).2.subtract = false ∧ 0x99 < (subBytes x y c).1.toNat ↔
        ¬ 100 ≤ 10 * high + low := by
      simp only [subBytes, decide_eq_true_iff, Bool.true_eq_false, false_and, or_false]
      omega
    have hhalfCarry : (subBytes x y c).2.halfCarry = true ∨
        (subBytes x y c).2.subtract = false ∧ 9 < (subBytes x y c).1.toNat % 16 ↔
        ¬ 10 ≤ low := by
      simp only [subBytes, toNat_and_low, decide_eq_true_iff, Bool.true_eq_false, false_and,
        or_false]
      omega
    simp only [toNat_decimalCorrection, hcarry, hhalfCarry, correctedBy, ite_not]
    split <;> split <;> rfl
  have hresult : r.1.toNat = (16 * high + low + correctedBy high low) % 256 := by
    have hle : correctedBy high low ≤ 102 := by
      rw [correctedBy]
      split <;> split <;> decide
    change ((subBytes x y c).1 - decimalCorrection _ _).toNat = _
    rw [UInt8.toNat_sub, hdifference, hk]
    omega
  have hcarry : r.2.carry = !decide (100 ≤ 10 * high + low) := by
    rw [carry_decimalAdjust, hk, ← decide_not, decide_eq_decide, correctedBy]
    split <;> split <;> omega
  obtain ⟨hdecimal, hvalue⟩ := isDecimal_of_corrected hhigh hlow hresult
  refine ⟨hdecimal, ?_⟩
  rw [hcarry]
  cases hover : decide (100 ≤ 10 * high + low) <;> rw [hover] at hvalue <;>
    simp only [Bool.not_false, Bool.not_true, Bool.toNat_true, Bool.toNat_false] at hvalue ⊢ <;>
    omega

end Columns

/-! ## Chains -/

/-- The operation on a pair of bytes, with the decimal correction. -/
def Alu.adjusted (op : Alu) (p : UInt8 × UInt8) (f : Flags) : UInt8 × Flags :=
  decimalAdjust (op.onPair p f).1 (op.onPair p f).2

theorem Alu.usesCarry_adjusted (op : Alu) : UsesCarry op.adjusted := by
  intro p f g h
  rw [adjusted, adjusted, op.usesCarry p h]

section Pairs

variable {ps : List (UInt8 × UInt8)} (hps : ∀ p ∈ ps, IsDecimal p.1 ∧ IsDecimal p.2) (f : Flags)

include hps

theorem adds_adjusted_adc :
    Adds 100 (ps.map (decimalValue ∘ Prod.fst)) (ps.map (decimalValue ∘ Prod.snd)) f.carry.toNat
      ((chain Alu.adc.adjusted ps f).1.map decimalValue)
      (chain Alu.adc.adjusted ps f).2.carry.toNat :=
  adds_chain (fun p hp g => (column_addBytes (hps p hp).1 (hps p hp).2 g.carry).2) f

theorem adds_adjusted_sbc :
    Adds 100 ((chain Alu.sbc.adjusted ps f).1.map decimalValue)
      (ps.map (decimalValue ∘ Prod.snd)) f.carry.toNat (ps.map (decimalValue ∘ Prod.fst))
      (chain Alu.sbc.adjusted ps f).2.carry.toNat :=
  adds_chain_of_undo (fun p hp g => (column_subBytes (hps p hp).1 (hps p hp).2 g.carry).2) f

theorem decimal_adc :
    decimal (ps.map Prod.fst) + decimal (ps.map Prod.snd) + f.carry.toNat =
      decimal (chain Alu.adc.adjusted ps f).1 +
        100 ^ ps.length * (chain Alu.adc.adjusted ps f).2.carry.toNat := by
  have hsum := (adds_adjusted_adc hps f).ofDigits_add
  rwa [List.length_map, ← List.map_map, ← List.map_map] at hsum

theorem decimal_sbc :
    (decimal (ps.map Prod.fst) : Int) - decimal (ps.map Prod.snd) - f.carry.toNat =
      decimal (chain Alu.sbc.adjusted ps f).1 -
        100 ^ ps.length * (chain Alu.sbc.adjusted ps f).2.carry.toNat := by
  have hdifference := (adds_adjusted_sbc hps f).ofDigits_sub
  rwa [List.length_map, length_chain, ← List.map_map, ← List.map_map] at hdifference

end Pairs

/-! ## Runs -/

namespace Cpu

variable {β : Type} [Bus β]

variable (β) in
/-- From `cpu` a step combines two bytes, the first of which is in `A`, and the next step corrects
the result and leaves it there as `z`. -/
def Adjusts (op : Alu) (cpu : Cpu) (p : UInt8 × UInt8) (z : UInt8) (next : Cpu) : Prop :=
  ∃ v between, Combines β op cpu p v between ∧ ∃ bus : β, (between.step bus).cpu = next ∧
    (between.step bus).outcome.Executed .decimalAdjustA ∧ next.regs.a = z

theorem implements_adjusts (op : Alu) : Implements (Adjusts β op) op.adjusted where
  usesCarry := op.usesCarry_adjusted
  result := by
    rintro cpu p z next ⟨v, between, hcombines, bus, rfl, hexecuted, rfl⟩
    have hv : between.regs.a = v := by
      obtain ⟨-, -, -, ha, -⟩ := hcombines
      exact ha
    rw [regs_of_executed hexecuted, Alu.adjusted, hcombines.onPair_eq, ← hv]
    exact ⟨rfl, rfl⟩

/-- The two steps of a program that do so with a constant. -/
theorem adjusts_of_steps {cpu between next : Cpu} {bus after last : β} {op : Alu} {v : UInt8}
    {m n : Nat} (hcombined : cpu.step bus = ⟨.executed (.aluByte op v) m, between, after⟩)
    (hadjusted : between.step after = ⟨.executed .decimalAdjustA n, next, last⟩) :
    Adjusts β op cpu (cpu.regs.a, v) next.regs.a next :=
  ⟨_, between, combines_of_step hcombined, after, by rw [hadjusted], ⟨n, by rw [hadjusted]⟩, rfl⟩

variable (β) in
/-- Corrected chains compute with decimal numbers, the lowest byte being the first. If all bytes of
two numbers have decimal digits, so have those of their sum and of their difference, with any flags
to begin with; the carry goes in and out. A run in which pairs of bytes are combined and corrected
one after the other leaves the results of the chain and its carry, whatever other steps between them
do if they only leave the carry alone. -/
theorem decimal_exact :
    (∀ ps : List (UInt8 × UInt8), (∀ p ∈ ps, IsDecimal p.1 ∧ IsDecimal p.2) → ∀ f : Flags,
      let sum := chain Alu.adc.adjusted ps f
      let difference := chain Alu.sbc.adjusted ps f
      (sum.1.length = ps.length ∧ (∀ z ∈ sum.1, IsDecimal z) ∧
        decimal (ps.map Prod.fst) + decimal (ps.map Prod.snd) + f.carry.toNat =
          decimal sum.1 + 100 ^ ps.length * sum.2.carry.toNat) ∧
      difference.1.length = ps.length ∧ (∀ z ∈ difference.1, IsDecimal z) ∧
        (decimal (ps.map Prod.fst) : Int) - decimal (ps.map Prod.snd) - f.carry.toNat =
          decimal difference.1 - 100 ^ ps.length * difference.2.carry.toNat) ∧
    ∀ (op : Alu) (cpu last : Cpu) (ps : List (UInt8 × UInt8)) (zs : List UInt8),
      Performs β (Adjusts β op) cpu ps zs last →
        zs = (chain op.adjusted ps cpu.regs.flags).1 ∧
          last.regs.flags.carry = (chain op.adjusted ps cpu.regs.flags).2.carry := by
  refine ⟨fun ps hps f => ⟨⟨length_chain .., ?_, decimal_adc hps f⟩, length_chain .., ?_,
    decimal_sbc hps f⟩, fun op _ _ _ _ => Performs.eq_chain (implements_adjusts op)⟩
  · exact forall_mem_chain (fun p hp g => (column_addBytes (hps p hp).1 (hps p hp).2 g.carry).1) f
  · exact forall_mem_chain (fun p hp g => (column_subBytes (hps p hp).1 (hps p hp).2 g.carry).1) f

/-- A program adds 5499 to 4501 with a carry: the decimal sum is 10001. -/
theorem decimal_exact_sum :
    ∃ last, Performs Flat (Adjusts Flat .adc) (powerUp .dmg) [(0x01, 0x99), (0x45, 0x54)]
        [0x01, 0x00] last ∧
      decimal [0x01, 0x45] + decimal [0x99, 0x54] + 1 =
        decimal [0x01, 0x00] + 100 ^ 2 * last.regs.flags.carry.toNat := by
  let bus := program [0xce, 0x99, 0x27, 0x47, 0x3e, 0x45, 0xce, 0x54, 0x27]
  have hlow : (powerUp .dmg).step bus =
      ⟨.executed (.aluByte .adc 0x99) 2, started 0x9b 0x00 0x00 0x0102, bus⟩ := by
    rw [step_program (n := 0) rfl rfl rfl (by decide) rfl]
    rfl
  have hadjusted : (started 0x9b 0x00 0x00 0x0102).step bus =
      ⟨.executed .decimalAdjustA 1, started 0x01 0x10 0x00 0x0103, bus⟩ := by
    rw [step_program (n := 2) rfl rfl rfl (by decide) rfl]
    rfl
  have hsave : (started 0x01 0x10 0x00 0x0103).step bus =
      ⟨.executed (.load (.reg .b) (.reg .a)) 1, started 0x01 0x10 0x01 0x0104, bus⟩ := by
    rw [step_program (n := 3) rfl rfl rfl (by decide) rfl]
    rfl
  have hload : (started 0x01 0x10 0x01 0x0104).step bus =
      ⟨.executed (.loadByte (.reg .a) 0x45) 2, started 0x45 0x10 0x01 0x0106, bus⟩ := by
    rw [step_program (n := 4) rfl rfl rfl (by decide) rfl]
    rfl
  have hhigh : (started 0x45 0x10 0x01 0x0106).step bus =
      ⟨.executed (.aluByte .adc 0x54) 2, started 0x9a 0x00 0x01 0x0108, bus⟩ := by
    rw [step_program (n := 6) rfl rfl rfl (by decide) rfl]
    rfl
  have hlast : (started 0x9a 0x00 0x01 0x0108).step bus =
      ⟨.executed .decimalAdjustA 1, started 0x00 0x90 0x01 0x0109, bus⟩ := by
    rw [step_program (n := 8) rfl rfl rfl (by decide) rfl]
    rfl
  have hruns : Performs Flat (Adjusts Flat .adc) (powerUp .dmg) [(0x01, 0x99), (0x45, 0x54)]
      [0x01, 0x00] (started 0x00 0x90 0x01 0x0109) :=
    .operation (adjusts_of_steps hlow hadjusted) <| .of_step hsave trivial <|
      .of_step hload trivial <| .operation (adjusts_of_steps hhigh hlast) (.done _)
  obtain ⟨hchains, hall⟩ := decimal_exact Flat
  obtain ⟨hresults, hcarry⟩ := hall .adc _ _ _ _ hruns
  have hdigits : ∀ p ∈ [((0x01 : UInt8), (0x99 : UInt8)), (0x45, 0x54)],
      IsDecimal p.1 ∧ IsDecimal p.2 := by
    intro p hp
    rcases List.mem_pair.1 hp with rfl | rfl <;>
      exact ⟨⟨by decide, by decide⟩, ⟨by decide, by decide⟩⟩
  obtain ⟨⟨-, -, hsum⟩, -⟩ := hchains _ hdigits (powerUp .dmg).regs.flags
  rw [← hresults, ← hcarry] at hsum
  exact ⟨_, hruns, hsum⟩

end Cpu

end GameBoy
