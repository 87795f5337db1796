import GameBoy.Proofs.Board.Paced
import GameBoy.Proofs.Cartridge.History
import GameBoy.Proofs.Machine.Time

/-!
# The cartridge on the board

Whatever is done to a board does to its cartridge what writes, time and saved bytes do to a
cartridge alone, with the same writes in the same order.

* `Location.find_cartridge`: the addresses that the cartridge answers to.
* `Board.read_cartridge`, `Board.cartridge_write`: reads and writes of a program reach it unchanged.
* `Board.cartridge_performAll`: the cartridge after some actions.
-/

namespace GameBoy

/-- Whether an action replaces external memory. -/
def Cartridge.Action.IsLoad : Cartridge.Action → Prop
  | .loadRam _ => True
  | _ => False

/-- Whether an action replaces external memory. -/
def Board.Action.IsLoad : Board.Action → Prop
  | .loadRam _ => True
  | _ => False

/-- The writes of some actions. -/
def Board.Action.history (as : List Board.Action) : History := (as.filterMap write?).reverse

theorem Board.Action.history_cons (x : Board.Action) (as : List Board.Action) :
    history (x :: as) = history as ++ x.write?.toList := by
  unfold history
  cases hx : x.write? <;> simp [hx]

/-! ## Addresses -/

namespace Location

/-- The cartridge answers to the first half of the addresses and to one window above it. -/
theorem find_cartridge (model : Model) {a : UInt16}
    (ha : a < 0x8000 ∨ Cartridge.isExternal a = true) : find model a = .cartridge a := by
  have hrange : a.toNat < 0x8000 ∨ 0xa000 ≤ a.toNat ∧ a.toNat ≤ 0xbfff := by
    rcases ha with ha | ha
    · exact .inl (UInt16.lt_iff_toNat_lt.1 ha)
    · simp only [Cartridge.isExternal, Bool.and_eq_true, decide_eq_true_eq,
        UInt16.le_iff_toNat_le] at ha
      exact .inr ha
  have hmemory : Video.Location.memory? a = none := by
    rw [Video.Location.memory?, dif_neg (by omega), dif_neg (by omega)]
  have hlow : a < 0xc000 := by
    apply UInt16.lt_iff_toNat_lt.2
    change a.toNat < 0xc000
    omega
  refine find_of_ofAddress ?_ rfl
  rw [ofAddress, hmemory]
  exact if_pos hlow

/-- It is told the address itself. -/
theorem find_eq_cartridge {model : Model} {a c : UInt16} (h : find model a = .cartridge c) :
    c = a := by
  cases LiesAt.of_find h with
  | cartridge => rfl

end Location

namespace Cartridge

/-- Beyond its windows a cartridge takes no writes. -/
theorem write_of_outside (c : Cartridge) {a : UInt16} (ha : ¬ (a < 0x8000 ∨ isExternal a = true))
    (v : UInt8) : c.write a v = c := by
  rw [not_or] at ha
  rw [write, if_neg ha.1, if_neg ha.2]

end Cartridge

namespace Board

theorem read_cartridge (b : Board) {a : UInt16}
    (ha : a < 0x8000 ∨ Cartridge.isExternal a = true) : b.read a = b.cartridge.read a := by
  rw [read, Location.find_cartridge b.model ha]
  rfl

/-- Without a controller the beginning of read-only memory is always in sight. -/
theorem read_of_fixed {b : Board} (hcontroller : b.cartridge.controller = .fixed) {a : UInt16}
    (ha : a.toNat < 0x4000) : b.read a = byteAt b.cartridge.rom a.toNat := by
  have hlow : a < 0x4000 := UInt16.lt_iff_toNat_lt.2 ha
  rw [read_cartridge _ (.inl (UInt16.lt_trans hlow (by decide))), Cartridge.read, if_pos hlow,
    hcontroller, Cartridge.romByte]
  simp only [Controller.lowBank, Nat.zero_mod, Nat.zero_mul, Nat.zero_add]

/-- Every write of a program reaches the cartridge as it is, and no other one does. -/
theorem cartridge_write (b : Board) (a : UInt16) (v : UInt8) :
    (b.write a v).cartridge = b.cartridge.write a v := by
  by_cases ha : a < 0x8000 ∨ Cartridge.isExternal a = true
  · rw [write, Location.find_cartridge b.model ha]
    rfl
  · rw [b.cartridge.write_of_outside ha]
    unfold write
    cases hfind : Location.find b.model a with
    | cartridge c =>
      rw [Location.find_eq_cartridge hfind]
      exact b.cartridge.write_of_outside ha v
    | spriteCopy =>
      obtain ⟨page, oam, hcopied⟩ := b.copySprites_frame v
      simp only [writeAt, hcopied]
    | _ => rfl

/-- A write in the cartridge's windows changes nothing else. -/
theorem write_eq_of_cartridge (b : Board) {a : UInt16}
    (ha : a < 0x8000 ∨ Cartridge.isExternal a = true) (v : UInt8) :
    b.write a v = { b with cartridge := b.cartridge.write a v } := by
  rw [write, Location.find_cartridge b.model ha]
  rfl

theorem cartridge_switchRate (b : Board) : b.switchRate.2.cartridge = b.cartridge := by
  unfold switchRate
  cases b.model <;> rfl

/-- An action on the board is one on its cartridge, or none. -/
theorem cartridge_perform (b : Board) (x : Action) :
    ∃ ys : List Cartridge.Action, (b.perform x).cartridge = performAll b.cartridge ys ∧
      Cartridge.Action.history ys = x.write?.toList ∧ (¬ x.IsLoad → ∀ y ∈ ys, ¬ y.IsLoad) := by
  have hsingle : ∀ y : Cartridge.Action, ¬ y.IsLoad → ∀ z ∈ [y], ¬ z.IsLoad := by
    intro y hy z hz
    rwa [List.mem_singleton.1 hz]
  cases x with
  | write a v => exact ⟨[.write a v], b.cartridge_write a v, rfl, fun _ => hsingle _ id⟩
  | switchRate => exact ⟨[], b.cartridge_switchRate, rfl, fun _ => nofun⟩
  | pass n => exact ⟨[.pass _], b.advance_cartridge n, rfl, fun _ => hsingle _ id⟩
  | loadRam saved => exact ⟨[.loadRam saved], rfl, rfl, fun hload => absurd trivial hload⟩
  | press | release | takeFrame | note => exact ⟨[], rfl, rfl, fun _ => nofun⟩

/-- So are actions one after the other, with the same writes. -/
theorem cartridge_performAll (b : Board) (xs : List Action) :
    ∃ ys : List Cartridge.Action, (performAll b xs).cartridge = performAll b.cartridge ys ∧
      Cartridge.Action.history ys = Action.history xs ∧
      ((∀ x ∈ xs, ¬ x.IsLoad) → ∀ y ∈ ys, ¬ y.IsLoad) := by
  induction xs generalizing b with
  | nil => exact ⟨[], rfl, rfl, fun _ => nofun⟩
  | cons x xs ih =>
    obtain ⟨ys, hfirst, hwrites, hloads⟩ := b.cartridge_perform x
    obtain ⟨zs, hrest, hwrites', hloads'⟩ := ih (b.perform x)
    refine ⟨ys ++ zs, ?_, ?_, fun hxs y hy => ?_⟩
    · rw [performAll_append, ← hfirst]
      exact hrest
    · rw [Cartridge.Action.history_append, hwrites, hwrites', Action.history_cons]
    · rcases List.mem_append.1 hy with hy | hy
      · exact hloads (hxs x List.mem_cons_self) y hy
      · exact hloads' (fun z hz => hxs z (List.mem_cons_of_mem x hz)) y hy

end Board

end GameBoy
