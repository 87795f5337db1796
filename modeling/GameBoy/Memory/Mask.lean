/-!
# Masks

Registers are bytes of which single bits mean something; a mask picks some of the bits.

* `or_and_mask`: picking from a union is the union of what is picked.
* `and_shiftLeft_ne_zero`: a mask of one bit tests it.
* `forall_byte`: a statement about bytes holds if it holds for each of the 256 numbers, which can be
  decided.
-/

namespace GameBoy

theorem or_and_mask (a b m : UInt8) : (a ||| b) &&& m = a &&& m ||| b &&& m := by
  apply UInt8.toBitVec_inj.1
  ext i
  simp [Bool.and_or_distrib_right]

/-- A statement about bytes holds if it holds for all numbers below 256. -/
theorem forall_byte {P : UInt8 → Prop} (h : ∀ n : Nat, n < 256 → P (UInt8.ofNat n)) (v : UInt8) :
    P v := by
  have := h v.toNat v.toNat_lt
  rwa [UInt8.ofNat_toNat] at this

/-- A mask of one bit tests it. -/
theorem and_shiftLeft_ne_zero (v : UInt8) (i : Fin 8) :
    (v &&& 1 <<< UInt8.ofNat i != 0) = v.toNat.testBit i :=
  forall_byte (P := fun v => ∀ i : Fin 8, (v &&& 1 <<< UInt8.ofNat i != 0) = v.toNat.testBit i)
    (by decide +kernel) v i

end GameBoy
