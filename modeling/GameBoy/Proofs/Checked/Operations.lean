import GameBoy.Interrupt
import GameBoy.Memory.Block
import GameBoy.Memory.Word
import Mathlib.Algebra.GroupWithZero.Nat

/-!
# Operations that can fail

The definitions of the library are total: numbers do not overflow, and indices carry their bounds in
their types. A machine of fixed words, plain indices and arrays stops where a word overflows or an
index misses. The modules of this directory repeat the operations of the console in that form,
`none` standing for a stop, and prove that none of them ever stops.

* `ensure`: what has to hold, or the machine stops.
* `add`, `sub`, `mul`, `div`, `mod`, `shift`, `signed`: arithmetic of words of some number of bits.
* `wrap`: a counter that starts again.
* `repeated`: a loop.
* `Requests.checkedRaiseIf`: the request of an interrupt.
* `Block.fetch`, `Block.store`, `fetchByte`: access by a plain index.
-/

namespace GameBoy

namespace Checked

/-- Stops unless something holds. -/
def ensure (p : Prop) [Decidable p] : Option Unit := if p then some () else none

@[simp] theorem ensure_of {p : Prop} [Decidable p] (h : p) : ensure p = some () := if_pos h

/-! ## Words -/

/-- A sum that fits into `bits` bits. -/
def add (bits a b : Nat) : Option Nat := do
  ensure (a + b < 2 ^ bits)
  return a + b

/-- A difference that is not negative. -/
def sub (a b : Nat) : Option Nat := do
  ensure (b ≤ a)
  return a - b

/-- A product that fits into `bits` bits. -/
def mul (bits a b : Nat) : Option Nat := do
  ensure (a * b < 2 ^ bits)
  return a * b

/-- A quotient by a number that is not zero. -/
def div (a b : Nat) : Option Nat := do
  ensure (b ≠ 0)
  return a / b

/-- A remainder by a number that is not zero. -/
def mod (a b : Nat) : Option Nat := do
  ensure (b ≠ 0)
  return a % b

/-- A shift of a word of `bits` bits by less than its width. -/
def shift (bits amount : Nat) : Option Unit := ensure (amount < bits)

/-- A signed number of 16 bits. -/
def signed (z : Int) : Option Int := do
  ensure (-0x8000 ≤ z ∧ z < 0x8000)
  return z

/-- A sum of 16-bit words that does not wrap around. -/
def addWord (a b : UInt16) : Option UInt16 := do
  ensure (a.toNat + b.toNat < 2 ^ 16)
  return a + b

section Words

variable {bits a b : Nat}

@[simp] theorem add_of_lt (h : a + b < 2 ^ bits) : add bits a b = some (a + b) := by
  simp [add, h]

@[simp] theorem sub_of_le (h : b ≤ a) : sub a b = some (a - b) := by
  simp [sub, h]

@[simp] theorem mul_of_lt (h : a * b < 2 ^ bits) : mul bits a b = some (a * b) := by
  simp [mul, h]

@[simp] theorem div_of_ne (h : b ≠ 0) : div a b = some (a / b) := by
  simp [div, h]

@[simp] theorem mod_of_ne (h : b ≠ 0) : mod a b = some (a % b) := by
  simp [mod, h]

@[simp] theorem shift_of_lt (h : a < bits) : shift bits a = some () := ensure_of h

@[simp] theorem signed_of {z : Int} (h : -0x8000 ≤ z ∧ z < 0x8000) : signed z = some z := by
  simp [signed, h]

@[simp] theorem addWord_of_lt {a b : UInt16} (h : a.toNat + b.toNat < 2 ^ 16) :
    addWord a b = some (a + b) := by
  rw [addWord, ensure_of h]
  rfl

end Words

theorem lt_iff_toNat_lt {a b : UInt16} {n : Nat} (hb : b.toNat = n) : a < b ↔ a.toNat < n := by
  rw [UInt16.lt_iff_toNat_lt, hb]

/-- A number reduced to less than `n`. -/
def wrap (n k : Nat) : Option (Fin n) := if h : k % n < n then some ⟨k % n, h⟩ else none

/-- A counter that wraps around is the next number, reduced. -/
theorem wrap_add_one {n : Nat} [NeZero n] (x : Fin n) : wrap n (x.val + 1) = some (x + 1) := by
  have hlt : (x.val + 1) % n < n := Nat.mod_lt _ (Nat.pos_of_neZero n)
  have hnext : (⟨(x.val + 1) % n, hlt⟩ : Fin n) = x + 1 := by
    apply Fin.ext
    show (x.val + 1) % n = (x.val + 1 % n) % n
    rw [Nat.add_mod_mod]
  rw [wrap, dif_pos hlt, hnext]

/-! ## Loops -/

/-- A step repeated. -/
def repeated {α : Type} (step : α → Option α) : Nat → α → Option α
  | 0, a => some a
  | n + 1, a => repeated step n a >>= step

/-- A repeated step does not stop if it keeps what it needs. -/
theorem repeated_eq {α : Type} {P : α → Prop} {step : α → Option α} {f : α → α}
    (hstep : ∀ a, P a → step a = some (f a)) (hkeeps : ∀ a, P a → P (f a)) (n : Nat) {a : α}
    (h : P a) : repeated step n a = some (Nat.repeat f n a) ∧ P (Nat.repeat f n a) := by
  induction n with
  | zero => exact ⟨rfl, h⟩
  | succ n ih =>
    obtain ⟨hn, hP⟩ := ih
    refine ⟨?_, hkeeps _ hP⟩
    rw [repeated, hn]
    exact hstep _ hP

/-- Neither does a fold. -/
theorem foldlM_eq {α : Type} {P : α → Prop} {n : Nat} {step : α → Fin n → Option α}
    {f : α → Fin n → α} (hstep : ∀ a i, P a → step a i = some (f a i))
    (hkeeps : ∀ a i, P a → P (f a i)) {a : α} (h : P a) :
    Fin.foldlM n step a = some (Fin.foldl n f a) ∧ P (Fin.foldl n f a) := by
  induction n generalizing a with
  | zero => exact ⟨by rw [Fin.foldlM_zero, Fin.foldl_zero]; rfl, by rwa [Fin.foldl_zero]⟩
  | succ n ih =>
    rw [Fin.foldlM_succ, Fin.foldl_succ]
    simp only [hstep a 0 h]
    exact ih (fun a i => hstep a i.succ) (fun a i => hkeeps a i.succ) (hkeeps a 0 h)

/-- Neither does a function mapped over a list. -/
theorem mapM_eq {α β : Type} {f : α → Option β} {g : α → β} {l : List α}
    (h : ∀ a ∈ l, f a = some (g a)) : l.mapM f = some (l.map g) := by
  induction l with
  | nil => rfl
  | cons a l ih =>
    have htail := ih fun b hb => h b (List.mem_cons_of_mem a hb)
    rw [List.mapM_cons, h a List.mem_cons_self, htail]
    rfl

end Checked

/-! ## Interrupts -/

namespace Interrupt

/-- The interrupt's bit, shifted to its place. -/
def checkedMask (i : Interrupt) : Option UInt8 := do
  Checked.shift 8 i.index
  return i.mask

@[simp] theorem checkedMask_eq (i : Interrupt) : i.checkedMask = some i.mask := by
  cases i <;> rfl

end Interrupt

namespace Requests

/-- Adds one request when `on` holds. -/
def checkedRaiseIf (r : Requests) (i : Interrupt) (on : Bool) : Option Requests := do
  if on then
    let mask ← i.checkedMask
    return ⟨r.bits ||| mask⟩
  else return r

@[simp] theorem checkedRaiseIf_eq (r : Requests) (i : Interrupt) (on : Bool) :
    r.checkedRaiseIf i on = some (r.raiseIf i on) := by
  unfold checkedRaiseIf raiseIf
  split
  · rw [i.checkedMask_eq]
    rfl
  · rfl

end Requests

/-! ## Access by index -/

namespace Block

variable {n : Nat}

/-- The byte with a number that has to be below the size. -/
def fetch (m : Block n) (i : Nat) : Option UInt8 := if h : i < n then some m[i] else none

/-- Writes the byte with a number that has to be below the size. -/
def store (m : Block n) (i : Nat) (v : UInt8) : Option (Block n) :=
  if h : i < n then some (m.set i v) else none

@[simp] theorem fetch_of_lt (m : Block n) {i : Nat} (h : i < n) : m.fetch i = some m[i] := dif_pos h

@[simp] theorem store_of_lt (m : Block n) {i : Nat} (h : i < n) (v : UInt8) :
    m.store i v = some (m.set i v) := dif_pos h

end Block

/-- The byte with a number that has to be below the size. -/
def fetchByte (b : ByteArray) (i : Nat) : Option UInt8 := if h : i < b.size then some b[i] else none

theorem fetchByte_of_lt {b : ByteArray} {i : Nat} (h : i < b.size) :
    fetchByte b i = some (byteAt b i) := by
  rw [fetchByte, dif_pos h, byteAt, dif_pos h]

end GameBoy
