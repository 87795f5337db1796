/-!
# Words and bytes

A word of 16 bits is two bytes. A byte taken as a signed number extends to the word of the same
value.
-/

namespace GameBoy

/-- The high byte of a word. -/
def highByte (v : UInt16) : UInt8 := (v >>> 8).toUInt8

/-- The low byte of a word. -/
def lowByte (v : UInt16) : UInt8 := v.toUInt8

/-- The word with the given high and low bytes. -/
def word (high low : UInt8) : UInt16 := high.toUInt16 <<< 8 ||| low.toUInt16

/-- A byte as a signed number, extended to a word. -/
def signExtend (e : UInt8) : UInt16 := e.toInt8.toInt16.toUInt16

/-- The offset of an address in its stretch of 8 KiB. -/
def offset8K (a : UInt16) : Fin 0x2000 := ⟨a.toNat % 0x2000, Nat.mod_lt _ (by decide)⟩

theorem toNat_highByte (v : UInt16) : (highByte v).toNat = v.toNat / 256 := by
  simp [highByte, Nat.shiftRight_eq_div_pow]
  have := v.toNat_lt
  omega

theorem toNat_lowByte (v : UInt16) : (lowByte v).toNat = v.toNat % 256 := by
  simp [lowByte]

/-- A word's value is made of its bytes' values. -/
theorem toNat_word (high low : UInt8) : (word high low).toNat = high.toNat * 256 + low.toNat := by
  have hh := high.toNat_lt
  have hl := low.toNat_lt
  simp only [word, UInt16.toNat_or, UInt16.toNat_shiftLeft, UInt8.toNat_toUInt16,
    UInt16.toNat_ofNat]
  rw [show 8 % 2 ^ 16 % 16 = 8 from rfl, Nat.shiftLeft_eq, Nat.mod_eq_of_lt (by omega),
    Nat.mul_comm high.toNat, ← Nat.two_pow_add_eq_or_of_lt hl]

@[simp] theorem highByte_word (high low : UInt8) : highByte (word high low) = high := by
  apply UInt8.toNat_inj.1
  have := low.toNat_lt
  rw [toNat_highByte, toNat_word]
  omega

@[simp] theorem lowByte_word (high low : UInt8) : lowByte (word high low) = low := by
  apply UInt8.toNat_inj.1
  have := low.toNat_lt
  rw [toNat_lowByte, toNat_word]
  omega

@[simp] theorem word_highByte_lowByte (v : UInt16) : word (highByte v) (lowByte v) = v := by
  apply UInt16.toNat_inj.1
  rw [toNat_word, toNat_highByte, toNat_lowByte]
  omega

end GameBoy
