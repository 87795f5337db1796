import Mathlib.Data.Nat.Digits.Lemmas
import Mathlib.Tactic.Ring
import Mathlib.Tactic.Linarith
import Mathlib.Tactic.Zify
import GameBoy.Cpu.Arithmetic

/-!
# Numbers of several bytes

A program computes with numbers of any length byte by byte: each operation takes the carry that the
one before it left. The processor finds carries in several ways. A plain sum or difference carries
if it does not fit into a byte, and half way if a bit of it differs from that of one without
carries; with a carry coming in, wider sums are compared; and bits drop out of shifts. They all mean
the same: one carry is worth one in the next byte.

* `Adds`: addition in columns, and what it says about whole numbers (`Adds.ofDigits_add`,
  `Adds.ofDigits_sub`).
* `chain`: an operation applied to one byte after the other, the flags passing from each to the
  next. If each time it adds one column, the chain adds all (`adds_chain`).
* `carries_bit`, `plainSum_eq`, `plainDifference_eq`: the carries that a result shows.
* `addBytes_column`, `subBytes_column`, `Shift.rl_column`, `Shift.rr_column`: single columns.
* `number_adc`, `number_sbc`, `number_rl`, `number_rr`: sums, differences, doubles and halves of
  whole numbers.
-/

namespace GameBoy

open Nat (ofDigits)

/-! ## Addition in columns -/

/-- Column by column, with the carries from each to the next, `xs`, `ys` and a carry `c` add up to
`zs` and a carry `d`. The lowest column is the first. -/
inductive Adds (base : Nat) : List Nat → List Nat → Nat → List Nat → Nat → Prop
  | nil (c : Nat) : Adds base [] [] c [] c
  | cons {x y z c d e : Nat} {xs ys zs : List Nat} (hcolumn : x + y + c = z + base * e)
      (hrest : Adds base xs ys e zs d) : Adds base (x :: xs) (y :: ys) c (z :: zs) d

namespace Adds

variable {base c d : Nat} {xs ys zs : List Nat}

/-- So do the whole numbers. -/
theorem ofDigits_add (h : Adds base xs ys c zs d) :
    ofDigits base xs + ofDigits base ys + c = ofDigits base zs + base ^ xs.length * d := by
  induction h with
  | nil c => simp
  | @cons x y z c d e xs ys zs hcolumn _ ih =>
    rw [Nat.ofDigits_cons, Nat.ofDigits_cons, Nat.ofDigits_cons, List.length_cons]
    calc x + base * ofDigits base xs + (y + base * ofDigits base ys) + c
        = x + y + c + base * (ofDigits base xs + ofDigits base ys) := by ring
      _ = z + base * (ofDigits base xs + ofDigits base ys + e) := by rw [hcolumn]; ring
      _ = z + base * ofDigits base zs + base ^ (xs.length + 1) * d := by rw [ih]; ring

/-- What was added can be taken away. -/
theorem ofDigits_sub (h : Adds base zs ys c xs d) :
    ((ofDigits base xs : Nat) : Int) - (ofDigits base ys : Nat) - c =
      (ofDigits base zs : Nat) - base ^ zs.length * d := by
  have hsum := h.ofDigits_add
  generalize ofDigits base xs = x, ofDigits base ys = y, ofDigits base zs = z at hsum ⊢
  zify at hsum
  linarith

/-- One more column at the high end. -/
theorem concat {x y z e : Nat} (h : Adds base xs ys c zs e) (hcolumn : x + y + e = z + base * d) :
    Adds base (xs ++ [x]) (ys ++ [y]) c (zs ++ [z]) d := by
  induction h with
  | nil => exact .cons hcolumn (.nil d)
  | cons hfirst _ ih => exact .cons hfirst (ih hcolumn)

end Adds

/-! ## Chains -/

/-- What an operation makes of one item after the other. Each time it finds the flags that it left
the time before. -/
def chain {α : Type} (op : α → Flags → UInt8 × Flags) : List α → Flags → List UInt8 × Flags
  | [], f => ([], f)
  | x :: xs, f => ((op x f).1 :: (chain op xs (op x f).2).1, (chain op xs (op x f).2).2)

theorem length_chain {α : Type} (op : α → Flags → UInt8 × Flags) (xs : List α) (f : Flags) :
    (chain op xs f).1.length = xs.length := by
  induction xs generalizing f with
  | nil => rfl
  | cons x xs ih => exact congrArg (· + 1) (ih _)

/-- What each operation makes true of its result is true of all. -/
theorem forall_mem_chain {α : Type} {op : α → Flags → UInt8 × Flags} {P : UInt8 → Prop}
    {xs : List α} (h : ∀ x ∈ xs, ∀ f, P (op x f).1) (f : Flags) : ∀ z ∈ (chain op xs f).1, P z := by
  induction xs generalizing f with
  | nil => exact nofun
  | cons x xs ih =>
    obtain ⟨hx, hxs⟩ := List.forall_mem_cons.1 h
    exact List.forall_mem_cons.2 ⟨hx f, ih hxs _⟩

section Columns

variable {α : Type} {op : α → Flags → UInt8 × Flags} {base : Nat} {left right : α → Nat}
  {value : UInt8 → Nat} {xs : List α}

/-- Operations that do one column of a sum each do all of them. -/
theorem adds_chain
    (h : ∀ x ∈ xs, ∀ f : Flags, left x + right x + f.carry.toNat =
      value (op x f).1 + base * (op x f).2.carry.toNat) (f : Flags) :
    Adds base (xs.map left) (xs.map right) f.carry.toNat ((chain op xs f).1.map value)
      (chain op xs f).2.carry.toNat := by
  induction xs generalizing f with
  | nil => exact .nil _
  | cons x xs ih =>
    obtain ⟨hx, hxs⟩ := List.forall_mem_cons.1 h
    exact .cons (hx f) (ih hxs _)

/-- If each undoes one column, they undo all of them. -/
theorem adds_chain_of_undo
    (h : ∀ x ∈ xs, ∀ f : Flags, value (op x f).1 + right x + f.carry.toNat =
      left x + base * (op x f).2.carry.toNat) (f : Flags) :
    Adds base ((chain op xs f).1.map value) (xs.map right) f.carry.toNat (xs.map left)
      (chain op xs f).2.carry.toNat := by
  induction xs generalizing f with
  | nil => exact .nil _
  | cons x xs ih =>
    obtain ⟨hx, hxs⟩ := List.forall_mem_cons.1 h
    exact .cons (hx f) (ih hxs _)

end Columns

/-- Of the flags that it finds, an operation uses the carry only. -/
def UsesCarry {α : Type} (op : α → Flags → UInt8 × Flags) : Prop :=
  ∀ x {f g : Flags}, f.carry = g.carry → op x f = op x g

/-- Then so does the chain. -/
theorem UsesCarry.chain_congr {α : Type} {op : α → Flags → UInt8 × Flags} (hop : UsesCarry op)
    (xs : List α) {f g : Flags} (h : f.carry = g.carry) :
    (chain op xs f).1 = (chain op xs g).1 ∧
      (chain op xs f).2.carry = (chain op xs g).2.carry := by
  cases xs with
  | nil => exact ⟨rfl, h⟩
  | cons x xs =>
    rw [chain, chain, hop x h]
    exact ⟨rfl, rfl⟩

/-- The operation on a pair of bytes. -/
def Alu.onPair (op : Alu) (p : UInt8 × UInt8) (f : Flags) : UInt8 × Flags := op.apply p.1 p.2 f

theorem Alu.usesCarry (op : Alu) : UsesCarry op.onPair := by
  intro p f g h
  cases op <;> simp only [onPair, apply, h]

theorem Shift.usesCarry (s : Shift) : UsesCarry s.apply := by
  intro v f g h
  rw [apply, apply, h]

/-- The number that some bytes make, the lowest one first. -/
def number (bs : List UInt8) : Nat := ofDigits 256 (bs.map UInt8.toNat)

/-! ## Carries that a result shows -/

/-- Where a sum differs from one without carries, a carry came in from the bits below. -/
theorem carries_bit {w : Nat} (x y : BitVec w) {k : Nat} (hk : k < w) :
    (x ^^^ y ^^^ (x + y)).getLsbD k = decide (2 ^ k ≤ x.toNat % 2 ^ k + y.toNat % 2 ^ k) := by
  have hsum : (x + y).getLsbD k =
      (x.getLsbD k ^^ (y.getLsbD k ^^ BitVec.carry k x y false)) := BitVec.getLsbD_add hk x y
  rw [BitVec.getLsbD_xor, BitVec.getLsbD_xor, hsum]
  -- the bits of the two numbers cancel
  cases x.getLsbD k <;> cases y.getLsbD k <;> simp [BitVec.carry]

theorem isHalfCarry_add (x y : UInt8) :
    isHalfCarry x y (x + y) = decide (16 ≤ x.toNat % 16 + y.toNat % 16) :=
  (and_shiftLeft_ne_zero _ 4).trans (carries_bit x.toBitVec y.toBitVec (k := 4) (by decide))

/-- What is taken away is in the sum that gives it back. -/
theorem isHalfCarry_sub (x y : UInt8) :
    isHalfCarry x y (x - y) = decide (x.toNat % 16 < y.toNat % 16) := by
  have hx := x.toNat_lt
  have hback : x - y + y = x := UInt8.sub_add_cancel x y
  have hnumber : x.toNat = ((x - y).toNat + y.toNat) % 256 := by
    rw [← UInt8.toNat_add, hback]
  calc isHalfCarry x y (x - y)
    _ = isHalfCarry (x - y) y (x - y + y) := by
      rw [hback, isHalfCarry, isHalfCarry, UInt8.xor_comm (x ^^^ y), UInt8.xor_comm x,
        ← UInt8.xor_assoc]
    _ = decide (16 ≤ (x - y).toNat % 16 + y.toNat % 16) := isHalfCarry_add (x - y) y
    _ = decide (x.toNat % 16 < y.toNat % 16) := by
      apply decide_eq_decide.2
      omega

theorem toNat_and_low (x : UInt8) : (x &&& 0x0f).toNat = x.toNat % 16 := by
  rw [UInt8.toNat_and]
  exact Nat.and_two_pow_sub_one_eq_mod x.toNat 4

/-- A sum of two bytes is one with no carry coming in, although its carries are found otherwise. -/
theorem plainSum_eq (x y : UInt8) : plainSum x y = addBytes x y false := by
  simp only [plainSum, addBytes, carryIn, isHalfCarry_add, toNat_and_low, Bool.toNat_false,
    Bool.false_eq_true, if_false, UInt8.add_zero, Nat.add_zero]
  rfl

/-- A difference of two bytes is one with no borrow coming in. -/
theorem plainDifference_eq (x y : UInt8) : plainDifference x y = subBytes x y false := by
  simp only [plainDifference, subBytes, carryIn, isHalfCarry_sub, toNat_and_low, Bool.toNat_false,
    Bool.false_eq_true, if_false, UInt8.sub_zero, Nat.add_zero]
  rfl

/-! ## Columns -/

theorem toNat_carryIn (c : Bool) : (carryIn c).toNat = c.toNat := by cases c <;> rfl

/-- A truth value as a number. -/
theorem toNat_decide (p : Prop) [Decidable p] : (decide p).toNat = if p then 1 else 0 := by
  by_cases h : p <;> simp [h]

/-- A sum carries one into the next column if it is too large for its own. -/
theorem addBytes_column (x y : UInt8) (c : Bool) :
    x.toNat + y.toNat + c.toNat =
      (addBytes x y c).1.toNat + 256 * (addBytes x y c).2.carry.toNat := by
  have hx := x.toNat_lt
  have hy := y.toNat_lt
  have hc := c.toNat_le
  simp only [addBytes, UInt8.toNat_add, toNat_carryIn, toNat_decide]
  split <;> omega

/-- A difference borrows one if too little is there. -/
theorem subBytes_column (x y : UInt8) (c : Bool) :
    (subBytes x y c).1.toNat + y.toNat + c.toNat =
      x.toNat + 256 * (subBytes x y c).2.carry.toNat := by
  have hx := x.toNat_lt
  have hy := y.toNat_lt
  have hc := c.toNat_le
  simp only [subBytes, UInt8.toNat_sub, toNat_carryIn, toNat_decide]
  split <;> omega

namespace Shift

/-- The bit that drops out on the left is worth a whole byte. -/
theorem rl_column (v : UInt8) (f : Flags) :
    v.toNat + v.toNat + f.carry.toNat =
      (rl.apply v f).1.toNat + 256 * (rl.apply v f).2.carry.toNat := by
  have hbyte (c : Bool) : v.toNat + v.toNat + c.toNat =
      (rl.value v c).toNat + 256 * (rl.dropped v).toNat :=
    forall_byte
      (P := fun v => v.toNat + v.toNat + c.toNat =
        (rl.value v c).toNat + 256 * (rl.dropped v).toNat)
      (by cases c <;> decide +kernel) v
  exact hbyte f.carry

/-- The bit that drops out on the right is a half of the next byte's one. -/
theorem rr_column (v : UInt8) (f : Flags) :
    (rr.apply v f).1.toNat + (rr.apply v f).1.toNat + (rr.apply v f).2.carry.toNat =
      v.toNat + 256 * f.carry.toNat := by
  have hbyte (c : Bool) : (rr.value v c).toNat + (rr.value v c).toNat + (rr.dropped v).toNat =
      v.toNat + 256 * c.toNat :=
    forall_byte
      (P := fun v => (rr.value v c).toNat + (rr.value v c).toNat + (rr.dropped v).toNat =
        v.toNat + 256 * c.toNat)
      (by cases c <;> decide +kernel) v
  exact hbyte f.carry

end Shift

/-! ## Whole numbers -/

section Pairs

variable (ps : List (UInt8 × UInt8)) (f : Flags)

theorem adds_adc :
    Adds 256 (ps.map (UInt8.toNat ∘ Prod.fst)) (ps.map (UInt8.toNat ∘ Prod.snd)) f.carry.toNat
      ((chain Alu.adc.onPair ps f).1.map UInt8.toNat)
      (chain Alu.adc.onPair ps f).2.carry.toNat :=
  adds_chain (fun p _ g => addBytes_column p.1 p.2 g.carry) f

theorem adds_sbc :
    Adds 256 ((chain Alu.sbc.onPair ps f).1.map UInt8.toNat) (ps.map (UInt8.toNat ∘ Prod.snd))
      f.carry.toNat (ps.map (UInt8.toNat ∘ Prod.fst))
      (chain Alu.sbc.onPair ps f).2.carry.toNat :=
  adds_chain_of_undo (fun p _ g => subBytes_column p.1 p.2 g.carry) f

theorem number_adc :
    number (ps.map Prod.fst) + number (ps.map Prod.snd) + f.carry.toNat =
      number (chain Alu.adc.onPair ps f).1 +
        256 ^ ps.length * (chain Alu.adc.onPair ps f).2.carry.toNat := by
  have hsum := (adds_adc ps f).ofDigits_add
  rwa [List.length_map, ← List.map_map, ← List.map_map] at hsum

theorem number_sbc :
    (number (ps.map Prod.fst) : Int) - number (ps.map Prod.snd) - f.carry.toNat =
      number (chain Alu.sbc.onPair ps f).1 -
        256 ^ ps.length * (chain Alu.sbc.onPair ps f).2.carry.toNat := by
  have hdifference := (adds_sbc ps f).ofDigits_sub
  rwa [List.length_map, length_chain, ← List.map_map, ← List.map_map] at hdifference

end Pairs

section Bytes

variable (xs : List UInt8) (f : Flags)

theorem adds_rl :
    Adds 256 (xs.map UInt8.toNat) (xs.map UInt8.toNat) f.carry.toNat
      ((chain Shift.rl.apply xs f).1.map UInt8.toNat)
      (chain Shift.rl.apply xs f).2.carry.toNat :=
  adds_chain (fun x _ g => Shift.rl_column x g) f

/-- Halving goes from the highest byte down, so a carry comes in at the high end of the columns and
goes out at the low end. -/
theorem adds_rr :
    Adds 256 ((chain Shift.rr.apply xs f).1.reverse.map UInt8.toNat)
      ((chain Shift.rr.apply xs f).1.reverse.map UInt8.toNat)
      (chain Shift.rr.apply xs f).2.carry.toNat (xs.reverse.map UInt8.toNat) f.carry.toNat := by
  induction xs generalizing f with
  | nil => exact .nil _
  | cons x xs ih =>
    simp only [chain, List.reverse_cons, List.map_append, List.map_cons, List.map_nil]
    exact (ih _).concat (Shift.rr_column x f)

theorem number_rl :
    2 * number xs + f.carry.toNat =
      number (chain Shift.rl.apply xs f).1 +
        256 ^ xs.length * (chain Shift.rl.apply xs f).2.carry.toNat := by
  have hsum := (adds_rl xs f).ofDigits_add
  rwa [List.length_map, ← Nat.two_mul] at hsum

theorem number_rr :
    number xs + 256 ^ xs.length * f.carry.toNat =
      2 * number (chain Shift.rr.apply xs.reverse f).1.reverse +
        (chain Shift.rr.apply xs.reverse f).2.carry.toNat := by
  have hsum := (adds_rr xs.reverse f).ofDigits_add
  rw [List.reverse_reverse, List.length_map, List.length_reverse, length_chain,
    List.length_reverse, ← Nat.two_mul] at hsum
  exact hsum.symm

end Bytes

end GameBoy
