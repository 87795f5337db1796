import GameBoy.Proofs.Board.Reachable

/-!
# Time passes evenly on the board

While no transfer runs, letting `m` cycles of the processor pass and then `n` does what letting
`m + n` pass does: the same time goes by, and every device is left the same. Only the note whether a
line was drawn is begun anew by the second call.

* `advance_of_idle`: without a transfer the devices run side by side.
* `Reachable.advance_in_two`: time passes evenly.
-/

namespace GameBoy

/-! ## Requests -/

namespace Requests

theorem union_comm (r s : Requests) : r ∪ s = s ∪ r :=
  congrArg Requests.mk (UInt8.or_comm ..)

theorem raiseIf_eq_union (r : Requests) (i : Interrupt) (on : Bool) :
    r.raiseIf i on = r ∪ raiseIf ∅ i on := by
  cases on with
  | false => exact (union_empty r).symm
  | true => exact raise_eq_union r i

theorem raiseIf_or (i : Interrupt) (a b : Bool) :
    raiseIf ∅ i (a || b) = raiseIf ∅ i a ∪ raiseIf ∅ i b := by
  cases a <;> cases b <;> cases i <;> rfl

/-- Requests of two calls add up in any order. -/
theorem union_raiseIf_union (r s t : Requests) (i : Interrupt) (a b : Bool) :
    (r.raiseIf i a ∪ s).raiseIf i b ∪ t = r.raiseIf i (a || b) ∪ (s ∪ t) := by
  rw [raiseIf_eq_union (r.raiseIf i a ∪ s), raiseIf_eq_union r i a, raiseIf_eq_union r i (a || b),
    raiseIf_or]
  simp only [union_assoc]
  rw [← union_assoc s, union_comm s, union_assoc]

end Requests

namespace Board

/-! ## Boards without a transfer -/

theorem blocksDue_of_idle {b : Board} (h : b.transfer.active = false) : b.blocksDue = 0 := by
  simp [blocksDue, h]

theorem runTransfer_of_idle {b : Board} (h : b.transfer.active = false) : b.runTransfer = b := by
  rw [runTransfer, blocksDue_of_idle h]
  rfl

/-- Without a transfer timer, display and cartridge run side by side. -/
theorem advance_of_idle {b : Board} (h : b.transfer.active = false) (n : Nat) :
    b.advance n =
      (n, { b with
        timer := (b.timer.advance n).1
        video := (b.video.advance (n / b.speed.rate.factor)).1
        cartridge := b.cartridge.advance (n / b.speed.rate.factor)
        requests := b.requests.raiseIf .timer (b.timer.advance n).2 ∪
          (b.video.advance (n / b.speed.rate.factor)).2 }) := by
  unfold advance
  rw [blocksDue_of_idle h, runTransfer_of_idle h]
  simp only [Nat.mul_zero, Nat.zero_mul, Nat.add_zero]
  rfl

/-- Halving a multiple of four leaves nothing over. -/
theorem add_div_factor {m : Nat} (hm : 4 ∣ m) (n : Nat) (r : Rate) :
    (m + n) / r.factor = m / r.factor + n / r.factor := by
  cases r <;> simp only [Rate.factor] <;> omega

/-- While no transfer runs, two calls do what one call with all the cycles does, whatever the
cartridge and the clock rate, but for the note whether a line was drawn: after the one call it is
there if it was there after one of the two. Only the first call has to be one of whole machine
cycles. -/
theorem Reachable.advance_in_two {b : Board} (h : b.Reachable) (hidle : b.transfer.active = false)
    {m : Nat} (hm : 4 ∣ m) (n : Nat) :
    let first := b.advance m
    let second := first.2.advance n
    let whole := b.advance (m + n)
    first.1 + second.1 = whole.1 ∧
      whole.2 =
        { second.2 with
          video := { second.2.video with
            lineDrawn := first.2.video.lineDrawn || second.2.video.lineDrawn } } := by
  intro first second whole
  have hplaced := h.valid.video
  have hfirst : first = _ := advance_of_idle hidle m
  have hsecond : second = _ := advance_of_idle (b := first.2) (by rw [hfirst]; exact hidle) n
  have hwhole : whole = _ := advance_of_idle hidle (m + n)
  rw [hwhole, hsecond, hfirst]
  refine ⟨rfl, ?_⟩
  simp only [add_div_factor hm, Timer.advance_add, Video.advance_add hplaced,
    Cartridge.advance_add, ← Requests.union_raiseIf_union]
  rfl

/-- At power-up no transfer runs: the dots of the first line, up to its drawing and past it. -/
theorem advance_in_two_powerUp :
    ∃ c, Cartridge.load Cartridge.zeroImage = .ok c ∧
      (powerUp c .cgb {}).transfer.active = false ∧
      ((powerUp c .cgb {}).advance (248 + 208)).1 =
        ((powerUp c .cgb {}).advance 248).1 +
          (((powerUp c .cgb {}).advance 248).2.advance 208).1 := by
  refine ⟨_, Cartridge.load_zeroImage, rfl, ?_⟩
  have hreachable := Reachable.powerUp Cartridge.load_zeroImage .cgb {}
  exact (hreachable.advance_in_two rfl (by decide) 208).1.symm

end Board

end GameBoy
