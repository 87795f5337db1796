/-!
# Blocks of bytes

A `Block n` is a store of exactly `n` bytes, numbered from `0`; its length is part of its type, so a
read or a write needs a proof that the number is below `n` and can never miss.

* `Block.getElem_set`: after a write the written cell holds the new byte and every other cell is as
  before.
* `Block.getElem_fill`: a filled block holds the same byte everywhere.

Stores whose length is only known when a cartridge is loaded are plain `ByteArray`s; `byteAt` and
`withByte` read and write them, an absent byte reading as `0xff` and ignoring writes.
-/

namespace GameBoy

/-- `n` bytes, numbered from `0`. -/
structure Block (n : Nat) where
  /-- The bytes in order. -/
  bytes : ByteArray
  /-- There are `n` of them. -/
  size_bytes : bytes.size = n

namespace Block

variable {n : Nat}

/-- The block that holds `v` everywhere. -/
def fill (n : Nat) (v : UInt8) : Block n :=
  ⟨⟨Array.replicate n v⟩, Array.size_replicate⟩

/-- The block that holds `f i` in cell `i`. -/
def ofFn (n : Nat) (f : Nat → UInt8) : Block n :=
  ⟨⟨Array.ofFn fun i : Fin n => f i⟩, Array.size_ofFn⟩

/-- The byte in cell `i`. -/
@[inline] def get (m : Block n) (i : Nat) (h : i < n) : UInt8 :=
  m.bytes.get i (by rw [m.size_bytes]; exact h)

instance : GetElem (Block n) Nat UInt8 (fun _ i => i < n) where
  getElem := get

@[simp] theorem get_eq_getElem (m : Block n) (i : Nat) (h : i < n) : m.get i h = m[i] := rfl

/-- The block with `v` written to cell `i`. -/
@[inline] def set (m : Block n) (i : Nat) (v : UInt8) (h : i < n := by get_elem_tactic) : Block n :=
  ⟨m.bytes.set i v (by rw [m.size_bytes]; exact h),
    (Array.size_set ..).trans m.size_bytes⟩

theorem getElem_eq (m : Block n) (i : Nat) (h : i < n) (h' : i < m.bytes.data.size) :
    m[i] = m.bytes.data[i] := rfl

theorem lt_size {m : Block n} {i : Nat} (h : i < n) : i < m.bytes.data.size :=
  Nat.lt_of_lt_of_eq h m.size_bytes.symm

/-- A write changes the written cell and no other. -/
@[simp] theorem getElem_set (m : Block n) (i j : Nat) (v : UInt8) (hi : i < n) (hj : j < n) :
    (m.set i v)[j] = if i = j then v else m[j] := by
  rw [getElem_eq _ _ _ (lt_size hj), getElem_eq _ _ _ (lt_size hj)]
  simp [set, ByteArray.set, Array.getElem_set]

@[simp] theorem getElem_fill (v : UInt8) (i : Nat) (h : i < n) : (fill n v)[i] = v := by
  rw [getElem_eq _ _ _ (lt_size h)]
  simp [fill]

@[simp] theorem getElem_ofFn (f : Nat → UInt8) (i : Nat) (h : i < n) : (ofFn n f)[i] = f i := by
  rw [getElem_eq _ _ _ (lt_size h)]
  simp [ofFn]

end Block

/-! ## Stores whose length varies -/

/-- Byte `i` of `b`, and `0xff`, the level of an undriven bus, where there is none. -/
@[inline] def byteAt (b : ByteArray) (i : Nat) : UInt8 :=
  if h : i < b.size then b[i] else 0xff

/-- `b` with `v` as byte `i`; nothing changes where there is no such byte. -/
@[inline] def withByte (b : ByteArray) (i : Nat) (v : UInt8) : ByteArray :=
  if h : i < b.size then b.set i v else b

@[simp] theorem size_withByte (b : ByteArray) (i : Nat) (v : UInt8) :
    (withByte b i v).size = b.size := by
  unfold withByte
  split
  · exact Array.size_set ..
  · rfl

/-- A write changes the written byte, if it exists, and no other. -/
theorem byteAt_withByte (b : ByteArray) (i j : Nat) (v : UInt8) :
    byteAt (withByte b i v) j = if i = j ∧ i < b.size then v else byteAt b j := by
  unfold byteAt
  simp only [size_withByte]
  by_cases hi : i < b.size
  · by_cases hj : j < b.size
    · simp [withByte, hi, hj, ByteArray.set, ByteArray.getElem_eq_getElem_data, Array.getElem_set]
    · have : i ≠ j := by omega
      simp [hj, this]
  · simp [withByte, hi]

/-- `b` continued with `0xff` up to `n` bytes. -/
def padded (b : ByteArray) (n : Nat) : ByteArray :=
  b ++ ⟨Array.replicate (n - b.size) 0xff⟩

theorem size_padded (b : ByteArray) (n : Nat) (h : b.size ≤ n) : (padded b n).size = n := by
  have hr : (⟨Array.replicate (n - b.size) 0xff⟩ : ByteArray).size = n - b.size :=
    Array.size_replicate
  rw [padded, ByteArray.size_append, hr]
  omega

/-- Padding adds bytes that read as absent ones do. -/
@[simp] theorem byteAt_padded (b : ByteArray) (n i : Nat) : byteAt (padded b n) i = byteAt b i := by
  unfold byteAt padded
  by_cases hb : i < b.size
  · rw [dif_pos hb, dif_pos (by rw [ByteArray.size_append]; omega),
      ByteArray.getElem_append_left hb]
  · rw [dif_neg hb]
    split
    · rw [ByteArray.getElem_append_right (by omega), ByteArray.getElem_eq_getElem_data]
      exact Array.getElem_replicate ..
    · rfl

end GameBoy
