import GameBoy.Memory.Mask
import GameBoy.Video.Access
import Mathlib.Data.List.Induction

/-!
# Writing colours

The colour console keeps the colours of the background and those of sprites in two memories of 64
bytes. A program reaches each of them through a port of two registers: one sets an index, and what
is written to the other goes to the indexed byte. The index may then move on, around the 64 bytes,
so that a long stretch of data writes over its own beginning.

* `HoldsLast`: a byte holds the last of some data that went to it, or what it held before.
* `ColorMemory.Filled`: what an index and the data after it leave; `filled_store`: they leave it.
* `ColorMemory.toNat_color`: a colour as a number; `color_of_cells`: it is read as it was written.
* `Video.ColorPort`: the two ports; `ColorPort.store_eq`: a port changes its own memory only.
* `ColorPort.stores_bytes`: what is written through a port.
-/

namespace GameBoy

/-! ## Data at places -/

/-- Data `bs` were written, each to its place, while byte `j` held `old`; now it holds `new`, which
is the last of the data that went there or, if none did, what was there before. -/
inductive HoldsLast (place : Nat → Nat) (bs : List UInt8) (j : Nat) (old new : UInt8) : Prop
  | stored (k : Nat) (value : bs[k]? = some new) (here : place k = j)
      (last : ∀ l, k < l → l < bs.length → place l ≠ j)
  | kept (value : new = old) (nowhere : ∀ k, k < bs.length → place k ≠ j)

namespace HoldsLast

variable {place : Nat → Nat} {bs : List UInt8} {j : Nat} {old new : UInt8}

theorem nil (place : Nat → Nat) (j : Nat) (old : UInt8) : HoldsLast place [] j old old :=
  .kept rfl fun _ h => absurd h (Nat.not_lt_zero _)

/-- One more byte replaces what is at its place. -/
theorem concat (h : HoldsLast place bs j old new) (b : UInt8) :
    HoldsLast place (bs ++ [b]) j old (if place bs.length = j then b else new) := by
  have hor : ∀ l, l < (bs ++ [b]).length → l < bs.length ∨ l = bs.length := fun l hl =>
    Nat.lt_or_eq_of_le (Nat.le_of_lt_succ (Nat.lt_of_lt_of_eq hl List.length_append))
  split
  · next hhere =>
    refine .stored bs.length List.getElem?_concat_length hhere fun l hl hlt => ?_
    rcases hor l hlt with hbefore | rfl
    · exact absurd hbefore (Nat.lt_asymm hl)
    · exact absurd hl (Nat.lt_irrefl _)
  · next hother =>
    cases h with
    | stored k value here last =>
      obtain ⟨hk, -⟩ := List.getElem?_eq_some_iff.1 value
      refine .stored k ((List.getElem?_append_left hk).trans value) here fun l hl hlt => ?_
      rcases hor l hlt with hbefore | rfl
      · exact last l hl hbefore
      · exact hother
    | kept value nowhere =>
      refine .kept value fun k hk => ?_
      rcases hor k hk with hbefore | rfl
      · exact nowhere k hbefore
      · exact hother

/-- Only one of the data is the last that went to a place. -/
theorem eq_of_last (h : HoldsLast place bs j old new) {k : Nat} {b : UInt8}
    (value : bs[k]? = some b) (here : place k = j)
    (last : ∀ l, k < l → l < bs.length → place l ≠ j) : new = b := by
  obtain ⟨hk, -⟩ := List.getElem?_eq_some_iff.1 value
  cases h with
  | stored k' value' here' last' =>
    obtain ⟨hk', -⟩ := List.getElem?_eq_some_iff.1 value'
    obtain hlt | rfl | hgt := Nat.lt_trichotomy k k'
    · exact absurd here' (last k' hlt hk')
    · exact Option.some.inj (value'.symm.trans value)
    · exact absurd here (last' k hgt hk)
  | kept _ nowhere => exact absurd here (nowhere k hk)

theorem eq_of_nowhere (h : HoldsLast place bs j old new)
    (nowhere : ∀ k, k < bs.length → place k ≠ j) : new = old := by
  cases h with
  | stored k value here _ =>
    exact absurd here (nowhere k (List.getElem?_eq_some_iff.1 value).1)
  | kept value _ => exact value

/-- Where all data go to one place, that holds the last of them. -/
theorem eq_of_const {i : Nat} (h : HoldsLast (fun _ => i) bs j old new) :
    new = if j = i then bs.getLast?.getD old else old := by
  split
  · next hj =>
    obtain rfl | ⟨init, b, rfl⟩ := bs.eq_nil_or_concat
    · exact h.eq_of_nowhere fun _ hk => absurd hk (Nat.not_lt_zero _)
    · rw [List.concat_eq_append] at h ⊢
      rw [List.getLast?_concat, Option.getD_some]
      refine h.eq_of_last List.getElem?_concat_length hj.symm fun l hl hlt => ?_
      rw [List.length_append] at hlt
      exact absurd hlt (Nat.not_lt.2 hl)
  · next hj => exact h.eq_of_nowhere fun _ _ hi => hj hi.symm

end HoldsLast

namespace ColorMemory

/-! ## One memory -/

/-- The byte that data written after `k` others goes to, if the index register was set to `i`. -/
def place (i : UInt8) (k : Nat) : Nat :=
  if i &&& 0x80 ≠ 0 then (i.toNat + k) % 64 else i.toNat % 64

/-- Sets the index and then writes data. -/
def store (m : ColorMemory) (i : UInt8) (bs : List UInt8) : ColorMemory :=
  bs.foldl writeData (m.writeIndex i)

/-- What `m` becomes by an index and some data. -/
structure Filled (m : ColorMemory) (i : UInt8) (bs : List UInt8) (w : ColorMemory) : Prop where
  index : w.index.val = place i bs.length
  moves : w.moves = (i &&& 0x80 != 0)
  cell : ∀ j : Fin 64, HoldsLast (place i) bs j m.cells[j] w.cells[j]

variable {m w : ColorMemory} {i : UInt8} {bs : List UInt8}

theorem place_zero (i : UInt8) : place i 0 = i.toNat % 64 := ite_self _

theorem place_of_moves (h : i &&& 0x80 ≠ 0) (k : Nat) : place i k = (i.toNat + k) % 64 := if_pos h

theorem place_of_stays (h : i &&& 0x80 = 0) (k : Nat) : place i k = i.toNat % 64 :=
  if_neg (not_not_intro h)

theorem filled_writeIndex (m : ColorMemory) (i : UInt8) : Filled m i [] (m.writeIndex i) where
  index := (place_zero i).symm
  moves := rfl
  cell j := .nil _ j _

/-- The next byte goes to the place of the index, which moves on to the next place. -/
theorem Filled.writeData (h : Filled m i bs w) (b : UInt8) :
    Filled m i (bs ++ [b]) (w.writeData b) where
  index := by
    rw [index_writeData, h.moves, List.length_append, List.length_singleton]
    by_cases hmoves : i &&& 0x80 = 0
    · rw [if_neg (by simp [hmoves]), h.index, place_of_stays hmoves, place_of_stays hmoves]
    · rw [if_pos (by simp [hmoves]), Fin.val_add, h.index, place_of_moves hmoves,
        place_of_moves hmoves]
      exact Nat.mod_add_mod ..
  moves := h.moves
  cell j := by
    have hcell := w.cells_writeData b j j.isLt
    rw [h.index] at hcell
    exact hcell ▸ (h.cell j).concat b

theorem filled_store (m : ColorMemory) (i : UInt8) (bs : List UInt8) :
    Filled m i bs (m.store i bs) := by
  -- from the back: each byte goes to the place that those before it left the index at
  induction bs using List.reverseRecOn with
  | nil => exact m.filled_writeIndex i
  | append_singleton bs b ih =>
    rw [store, List.foldl_append]
    exact ih.writeData b

/-- The index register shows the place of the next byte, and whether the index moves. -/
theorem Filled.readIndex_eq (h : Filled m i bs w) :
    w.readIndex = 0x40 ||| (i &&& 0x80) ||| UInt8.ofNat (place i bs.length) := by
  have hbit : (if i &&& 0x80 != 0 then 0x80 else 0) = i &&& 0x80 :=
    forall_byte (P := fun i => (if i &&& 0x80 != 0 then (0x80 : UInt8) else 0) = i &&& 0x80)
      (by decide +kernel) i
  rw [readIndex, h.moves, hbit, h.index]

/-- The last of the data is at its place, and the rest left the other bytes as they are. -/
theorem cells_store_concat (m : ColorMemory) (i : UInt8) (bs : List UInt8) (b : UInt8)
    (j : Fin 64) :
    (m.store i (bs ++ [b])).cells[j] =
      if place i bs.length = j then b else (m.store i bs).cells[j] := by
  have hlast := (m.store i bs).cells_writeData b j j.isLt
  rw [(m.filled_store i bs).index] at hlast
  rw [store, List.foldl_append]
  exact hlast

theorem cells_store_singleton (m : ColorMemory) (i b : UInt8) (j : Fin 64) :
    (m.store i [b]).cells[j] = if i.toNat % 64 = j then b else m.cells[j] :=
  place_zero i ▸ m.cells_store_concat i [] b j

/-! ## Colours -/

section Places

variable (n n' : Fin 8) (c c' : Color)

theorem highPlace_lt : 8 * n.val + 2 * c.val + 1 < 64 := by omega

theorem lowPlace_lt : 8 * n.val + 2 * c.val < 64 := Nat.lt_of_succ_lt (highPlace_lt n c)

/-- The low byte of a colour. -/
def lowPlace : Fin 64 := ⟨8 * n.val + 2 * c.val, lowPlace_lt n c⟩

/-- The high byte of a colour lies after the low one. -/
def highPlace : Fin 64 := ⟨8 * n.val + 2 * c.val + 1, highPlace_lt n c⟩

theorem lowPlace_eq_iff : lowPlace n c = lowPlace n' c' ↔ n = n' ∧ c = c' := by
  simp only [lowPlace, Fin.ext_iff]
  omega

theorem highPlace_eq_iff : highPlace n c = highPlace n' c' ↔ n = n' ∧ c = c' := by
  simp only [highPlace, Fin.ext_iff]
  omega

theorem lowPlace_ne_highPlace : lowPlace n c ≠ highPlace n' c' := by
  simp only [lowPlace, highPlace, ne_eq, Fin.ext_iff]
  omega

end Places

theorem color_eq_word (m : ColorMemory) (n : Fin 8) (c : Color) :
    m.color n c = word m.cells[highPlace n c] m.cells[lowPlace n c] &&& 0x7fff := rfl

/-- A colour is the number of its two bytes, the low one first, without the highest bit. -/
theorem toNat_color (m : ColorMemory) (n : Fin 8) (c : Color) :
    (m.color n c).toNat =
      (m.cells[lowPlace n c].toNat + 256 * m.cells[highPlace n c].toNat) % 0x8000 := by
  rw [color_eq_word, UInt16.toNat_and, toNat_word, Nat.mul_comm, Nat.add_comm]
  exact Nat.and_two_pow_sub_one_eq_mod _ 15

/-- If the two bytes of a colour are put to their places and no others change, that colour is read
there and all others stay. -/
theorem color_of_cells {n : Fin 8} {c : Color} {x : UInt16} (hx : x.toNat < 0x8000)
    (hcells : ∀ j : Fin 64, w.cells[j] =
      if highPlace n c = j then highByte x else if lowPlace n c = j then lowByte x else m.cells[j])
    (n' : Fin 8) (c' : Color) :
    w.color n' c' = if n = n' ∧ c = c' then x else m.color n' c' := by
  -- low bytes are at even places and high ones at odd places, so neither is taken for the other
  have hlow := hcells (lowPlace n' c')
  rw [if_neg (lowPlace_ne_highPlace n' n c' c).symm] at hlow
  have hhigh := hcells (highPlace n' c')
  rw [if_neg (lowPlace_ne_highPlace n n' c c')] at hhigh
  simp only [lowPlace_eq_iff] at hlow
  simp only [highPlace_eq_iff] at hhigh
  split
  · next hsame =>
    rw [if_pos hsame] at hlow hhigh
    apply UInt16.toNat_inj.1
    rw [toNat_color, hlow, hhigh, toNat_lowByte, toNat_highByte]
    omega
  · next hother =>
    rw [if_neg hother] at hlow hhigh
    rw [color_eq_word, color_eq_word, hlow, hhigh]

/-- A colour is written by its two bytes in one go, if the index moves on between them. -/
theorem color_store_pair (m : ColorMemory) {i : UInt8} {n : Fin 8} {c : Color} {x : UInt16}
    (hmoves : i &&& 0x80 ≠ 0) (hi : i.toNat % 64 = lowPlace n c) (hx : x.toNat < 0x8000)
    (n' : Fin 8) (c' : Color) :
    (m.store i [lowByte x, highByte x]).color n' c' =
      if n = n' ∧ c = c' then x else m.color n' c' := by
  have hnext : place i 1 = highPlace n c := by
    have hlt := (highPlace n c).isLt
    have hhigh : (highPlace n c).val = (lowPlace n c).val + 1 := rfl
    rw [place_of_moves hmoves]
    omega
  refine color_of_cells hx (fun j => ?_) n' c'
  refine (m.cells_store_concat i [lowByte x] (highByte x) j).trans ?_
  rw [m.cells_store_singleton, hi]
  simp only [List.length_singleton, hnext, Fin.val_inj]

/-- A colour is written by its two bytes, each at its own index, whether or not the index moves. -/
theorem color_store_store (m : ColorMemory) {i i' : UInt8} {n : Fin 8} {c : Color} {x : UInt16}
    (hi : i.toNat % 64 = lowPlace n c) (hi' : i'.toNat % 64 = highPlace n c)
    (hx : x.toNat < 0x8000) (n' : Fin 8) (c' : Color) :
    ((m.store i [lowByte x]).store i' [highByte x]).color n' c' =
      if n = n' ∧ c = c' then x else m.color n' c' := by
  refine color_of_cells hx (fun j => ?_) n' c'
  rw [cells_store_singleton, cells_store_singleton, hi, hi']
  simp only [Fin.val_inj]

end ColorMemory

namespace Video

/-! ## The ports -/

/-- What a program reads at an address of the display; where there is nothing, the level of an
undriven bus. -/
def readFrom (v : Video) (a : UInt16) : UInt8 := (Location.ofAddress? a).elim 0xff v.read

/-- A program's write to an address of the display. -/
def writeTo (v : Video) (a : UInt16) (b : UInt8) : Video :=
  (Location.ofAddress? a).elim v fun l => (v.write l b).1

/-- The ports to the memories of colours. -/
inductive ColorPort
  | background
  | objects
deriving DecidableEq

namespace ColorPort

open ColorMemory (lowPlace_lt highPlace_lt)

/-- The address of the index register. -/
def indexAddress : ColorPort → UInt16
  | .background => 0xff68
  | .objects => 0xff6a

/-- The address of the data register. -/
def dataAddress : ColorPort → UInt16
  | .background => 0xff69
  | .objects => 0xff6b

/-- The other port. -/
def other : ColorPort → ColorPort
  | .background => .objects
  | .objects => .background

/-- The memory behind a port. -/
def colors (p : ColorPort) (v : Video) : ColorMemory :=
  match p with
  | .background => v.backgroundColors
  | .objects => v.objectColors

/-- The display with another memory behind a port, and the same in all else. -/
def withColors (p : ColorPort) (v : Video) (m : ColorMemory) : Video :=
  match p with
  | .background => { v with backgroundColors := m }
  | .objects => { v with objectColors := m }

/-- A program writes to the index register and then data to the data register. -/
def store (p : ColorPort) (v : Video) (i : UInt8) (bs : List UInt8) : Video :=
  bs.foldl (fun v b => v.writeTo p.dataAddress b) (v.writeTo p.indexAddress i)

section Memory

variable (p : ColorPort) (v : Video) (m m' : ColorMemory)

@[simp] theorem colors_withColors : p.colors (p.withColors v m) = m := by cases p <;> rfl

@[simp] theorem colors_other_withColors :
    p.other.colors (p.withColors v m) = p.other.colors v := by
  cases p <;> rfl

@[simp] theorem withColors_withColors :
    p.withColors (p.withColors v m) m' = p.withColors v m' := by
  cases p <;> rfl

end Memory

theorem readFrom_index (p : ColorPort) (v : Video) :
    v.readFrom p.indexAddress = (p.colors v).readIndex := by
  cases p <;> rfl

theorem writeTo_index (p : ColorPort) (v : Video) (b : UInt8) :
    v.writeTo p.indexAddress b = p.withColors v ((p.colors v).writeIndex b) := by
  cases p <;> rfl

theorem writeTo_data (p : ColorPort) (v : Video) (b : UInt8) :
    v.writeTo p.dataAddress b = p.withColors v ((p.colors v).writeData b) := by
  cases p <;> rfl

theorem foldl_writeTo_data (p : ColorPort) (v : Video) (m : ColorMemory) (bs : List UInt8) :
    bs.foldl (fun v b => v.writeTo p.dataAddress b) (p.withColors v m) =
      p.withColors v (bs.foldl ColorMemory.writeData m) := by
  induction bs generalizing m with
  | nil => rfl
  | cons b bs ih =>
    rw [List.foldl_cons, writeTo_data, colors_withColors, withColors_withColors]
    exact ih (m.writeData b)

/-- What is written through a port changes the memory behind it and nothing else. -/
theorem store_eq (p : ColorPort) (v : Video) (i : UInt8) (bs : List UInt8) :
    p.store v i bs = p.withColors v ((p.colors v).store i bs) := by
  rw [store, writeTo_index]
  exact p.foldl_writeTo_data v _ bs

@[simp] theorem colors_store (p : ColorPort) (v : Video) (i : UInt8) (bs : List UInt8) :
    p.colors (p.store v i bs) = (p.colors v).store i bs := by
  rw [store_eq, colors_withColors]

/-- What a program writes through a port, in any state of the display. After an index and data, the
index register shows whether the index moves and, in its low bits, where the next byte goes. If the
index moves, each byte of the memory holds the last of the data that went to it around the 64, and
all others what they held before; if it does not, only the byte at the index changes, to the last of
the data. Nothing else of the display changes, the memory behind the other port included. A colour
is the number of two bytes, the low one first, without the highest bit; so a colour whose two bytes
are written there, in one go or each at its own index, is read back, and no other colour changes. -/
theorem stores_bytes (p : ColorPort) (v : Video) (i : UInt8) (bs : List UInt8) :
    let w := p.store v i bs
    (w.readFrom p.indexAddress = 0x40 ||| (i &&& 0x80) |||
        if i &&& 0x80 ≠ 0 then UInt8.ofNat ((i.toNat + bs.length) % 64) else i &&& 0x3f) ∧
      (i &&& 0x80 ≠ 0 → ∀ j : Fin 64, HoldsLast (fun k => (i.toNat + k) % 64) bs j
        (p.colors v).cells[j] (p.colors w).cells[j]) ∧
      (i &&& 0x80 = 0 → ∀ j : Fin 64, (p.colors w).cells[j] =
        if j.val = (i &&& 0x3f).toNat then bs.getLast?.getD (p.colors v).cells[j]
        else (p.colors v).cells[j]) ∧
      (w = p.withColors v (p.colors w) ∧ p.other.colors w = p.other.colors v) ∧
      (∀ (u : Video) (n : Fin 8) (c : Color), ((p.colors u).color n c).toNat =
        (((p.colors u).cells.get (8 * n.val + 2 * c.val) (lowPlace_lt n c)).toNat +
          256 * ((p.colors u).cells.get (8 * n.val + 2 * c.val + 1) (highPlace_lt n c)).toNat) %
            0x8000) ∧
      ∀ (n : Fin 8) (c : Color) (x : UInt16), x.toNat < 0x8000 →
        i.toNat % 64 = 8 * n.val + 2 * c.val →
        (i &&& 0x80 ≠ 0 → ∀ (n' : Fin 8) (c' : Color),
          (p.colors (p.store v i [lowByte x, highByte x])).color n' c' =
            if n = n' ∧ c = c' then x else (p.colors v).color n' c') ∧
        ∀ i' : UInt8, i'.toNat % 64 = 8 * n.val + 2 * c.val + 1 → ∀ (n' : Fin 8) (c' : Color),
          (p.colors (p.store (p.store v i [lowByte x]) i' [highByte x])).color n' c' =
            if n = n' ∧ c = c' then x else (p.colors v).color n' c' := by
  intro w
  have hw : p.colors w = (p.colors v).store i bs := p.colors_store v i bs
  have hfilled : ColorMemory.Filled (p.colors v) i bs (p.colors w) :=
    hw ▸ (p.colors v).filled_store i bs
  have hlow : (i &&& 0x3f).toNat = i.toNat % 64 := Nat.and_two_pow_sub_one_eq_mod i.toNat 6
  refine ⟨?_, fun hmoves j => ?_, fun hstays j => ?_, ⟨?_, ?_⟩,
    fun u => (p.colors u).toNat_color, fun n c x hx hi => ⟨fun hmoves => ?_, fun i' hi' => ?_⟩⟩
  · rw [readFrom_index, hfilled.readIndex_eq, ColorMemory.place]
    split
    · rfl
    · rw [← hlow, UInt8.ofNat_toNat]
  · have hcell := hfilled.cell j
    rwa [funext (ColorMemory.place_of_moves hmoves)] at hcell
  · have hcell := hfilled.cell j
    rw [funext (ColorMemory.place_of_stays hstays)] at hcell
    rw [hlow]
    exact hcell.eq_of_const
  · rw [hw]
    exact p.store_eq v i bs
  · rw [show w = _ from p.store_eq v i bs, colors_other_withColors]
  · rw [colors_store]
    exact (p.colors v).color_store_pair hmoves hi hx
  · rw [colors_store, colors_store]
    exact (p.colors v).color_store_store hi hi' hx

/-- Data that goes round once: the last two of 66 bytes replace the first two, at bytes 62 and 63,
and the next would go to byte 0. The same two bytes written there are a colour. -/
theorem stores_bytes_around :
    let bs : List UInt8 := List.replicate 64 0x11 ++ [0x1f, 0x7c]
    let v := powerUp .cgb
    let w := ColorPort.objects.store v 0xbe bs
    (0xbe : UInt8) &&& 0x80 ≠ 0 ∧ w.readFrom 0xff6a = 0xc0 ∧
      w.objectColors.cells[62] = 0x1f ∧ w.objectColors.cells[0] = 0x11 ∧
      w.backgroundColors = v.backgroundColors ∧
      (ColorPort.objects.store v 0xbe [0x1f, 0x7c]).objectColors.color 7 3 = 0x7c1f := by
  intro bs v w
  have hmoves : (0xbe : UInt8) &&& 0x80 ≠ 0 := by decide
  obtain ⟨hindex, haround, -, ⟨-, hother⟩, -, hcolor⟩ := stores_bytes .objects v 0xbe bs
  -- the data that goes to a byte again does so 64 bytes later
  have hlast : ∀ (j : Fin 64) (k : Nat) (b : UInt8), bs[k]? = some b → (190 + k) % 64 = j.val →
      66 ≤ k + 64 → w.objectColors.cells[j] = b := by
    intro j k b hb hk hend
    refine (haround hmoves j).eq_of_last hb hk fun l hl hlt => ?_
    have hlt : l < 66 := hlt
    show (190 + l) % 64 ≠ j.val
    omega
  exact ⟨hmoves, hindex.trans (by decide), hlast 62 64 0x1f rfl rfl (by decide),
    hlast 0 2 0x11 rfl rfl (by decide), hother,
    (hcolor 7 3 0x7c1f (by decide) (by decide)).1 hmoves 7 3⟩

end ColorPort

end Video

end GameBoy
