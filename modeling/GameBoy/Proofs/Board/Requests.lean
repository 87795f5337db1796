import GameBoy.Proofs.Board.Frame
import GameBoy.Proofs.Clocks
import GameBoy.Proofs.Cpu.Writes
import GameBoy.Proofs.Video.Conditions

/-!
# Requests on the board

The request register is shared by all devices. A program's write to it replaces it; nothing else
takes a request back, and each device adds its own.

* `Reachable.video`: the display of a reachable board is a reachable display.
* `has_write`: a write to another register requests an interrupt at the rise of a condition only.
* `has_writeAll`: so do some writes, one after the other.
* `requests_write`: most writes leave the requests as they are.
* `has_acknowledge`: the write with which the processor takes back a request.
* `has_press`, `has_advance`: what buttons and time request.
-/

namespace GameBoy

/-- Taking one request back in what the register reads leaves the others. -/
theorem Requests.has_write_read (r : Requests) (i j : Interrupt) :
    (write (r.read &&& ~~~i.mask)).has j = (r.has j && i != j) := by
  have hlow : 0x1f &&& j.mask = j.mask := by cases j <;> rfl
  have hhigh : 0xe0 &&& j.mask = 0 := by cases j <;> rfl
  have hbits : (r.bits ||| 0xe0) &&& ~~~i.mask &&& 0x1f &&& j.mask =
      r.bits &&& ~~~i.mask &&& j.mask := by
    calc
      (r.bits ||| 0xe0) &&& ~~~i.mask &&& 0x1f &&& j.mask =
          (r.bits ||| 0xe0) &&& (0x1f &&& j.mask) &&& ~~~i.mask := by ac_rfl
      _ = r.bits &&& j.mask &&& ~~~i.mask := by rw [hlow, or_and_mask, hhigh, UInt8.or_zero]
      _ = r.bits &&& ~~~i.mask &&& j.mask := by ac_rfl
  rw [← has_lower]
  exact congrArg (· != 0) hbits

/-! ## Addresses -/

namespace Location

/-- What is found of the display lies in its memory, or is one of its registers. -/
theorem memory?_or_register? {model : Model} {a : UInt16} {l : Video.Location}
    (h : find model a = .video l) :
    Video.Location.memory? a = some l ∨ Video.Location.register? a = some l := by
  cases LiesAt.of_find h with
  | memory found => exact .inl found
  | register found => exact .inr found

/-- The registers that the conditions depend on have three addresses. -/
theorem find_eq_condition {model : Model} {a : UInt16} {l : Video.Location}
    (h : find model a = .video l) (hl : l = .control ∨ l = .status ∨ l = .lineCompare) :
    a = 0xff40 ∨ a = 0xff41 ∨ a = 0xff45 := by
  rcases memory?_or_register? h with hmemory | hregister
  · unfold Video.Location.memory? at hmemory
    split_ifs at hmemory <;> cases hmemory <;> simp at hl
  · rcases ite_some_eq hregister with ⟨ha, -⟩ | hregister
    · exact .inl ha
    rcases ite_some_eq hregister with ⟨ha, -⟩ | hregister
    · exact .inr (.inl ha)
    repeat
      rcases ite_some_eq hregister with ⟨ha, rfl⟩ | hregister
      · first
        | exact .inr (.inr ha)
        | simp at hl
    cases hregister

theorem find_eq_requests {model : Model} {a : UInt16} (h : find model a = .requests) :
    a = 0xff0f := by
  cases LiesAt.of_find h with
  | requests address => exact address

theorem find_requests (model : Model) : find model 0xff0f = .requests := by cases model <;> rfl

end Location

/-! ## Reachable displays -/

namespace Board

theorem reachable_copySprites {b : Board} (h : b.video.Reachable) (page : UInt8) :
    (b.copySprites page).video.Reachable :=
  foldl_induction (P := fun c : Board => c.video.Reachable)
    (fun c i hc => hc.write (.oam i) (c.read (c.spritePage.toUInt16 <<< 8 + UInt16.ofNat i))) h

theorem reachable_write {b : Board} (h : b.video.Reachable) (a : UInt16) (v : UInt8) :
    (b.write a v).video.Reachable := by
  unfold write
  cases Location.find b.model a with
  | video l => exact h.write l v
  | spriteCopy => exact reachable_copySprites h v
  | _ => exact h

theorem reachable_copyBlock {b : Board} (h : b.video.Reachable) : b.copyBlock.video.Reachable := by
  have hcopied : (Fin.foldl 0x10 copyBlockByte b).video.Reachable :=
    foldl_induction (P := fun c : Board => c.video.Reachable)
      (fun c i hc => hc.write (.vram (offset8K (c.transfer.target + UInt16.ofNat i)))
        (c.read (c.transfer.source + UInt16.ofNat i))) h
  unfold copyBlock
  generalize Fin.foldl 0x10 copyBlockByte b = copied at hcopied
  exact hcopied

theorem reachable_runTransfer {b : Board} (h : b.video.Reachable) :
    b.runTransfer.video.Reachable :=
  repeat_induction (P := fun c : Board => c.video.Reachable) (fun _ => reachable_copyBlock) h _

/-- The display of a reachable board is a reachable display. -/
theorem Reachable.video {b : Board} (h : b.Reachable) : b.video.Reachable := by
  induction h with
  | powerUp h model journal => exact .powerUp model
  | write a v _ ih => exact reachable_write ih a v
  | @switchRate b _ ih =>
    rw [switchRate_video]
    exact ih
  | advance n _ ih => exact (reachable_runTransfer ih).advance _
  | takeFrame _ ih => exact ih.takeFrame
  | press | release | loadRam | journal => assumption

/-! ## Writes -/

/-- A write to another register than that of the requests adds a request exactly when a condition
begins to hold. -/
theorem has_write {b : Board} (h : b.video.Settled) {a : UInt16} (ha : a ≠ 0xff0f) (v : UInt8)
    (i : Interrupt) :
    (b.write a v).requests.has i = true ↔
      b.requests.has i = true ∨ i = .lcdStat ∧ Video.Rises b.video (b.write a v).video := by
  have hfind : Location.find b.model a ≠ .requests := mt Location.find_eq_requests ha
  have hsame : ∀ c : Board, c.requests = b.requests → c.video.conditions = b.video.conditions →
      (c.requests.has i = true ↔
        b.requests.has i = true ∨ i = .lcdStat ∧ Video.Rises b.video c.video) := by
    intro c hrequests hconditions
    rw [hrequests, or_iff_left]
    exact fun hrises => Video.not_rises_of_eq hconditions hrises.2
  unfold write
  generalize Location.find b.model a = l at hfind
  cases l with
  | requests => exact absurd rfl hfind
  | video l =>
    change (b.requests ∪ (b.video.write l v).2).has i = true ↔ _
    rw [Requests.has_union, Bool.or_eq_true, h.has_write]
    rfl
  | spriteCopy =>
    obtain ⟨page, oam, hcopied⟩ := b.copySprites_frame v
    simp only [writeAt, hcopied]
    exact hsame _ rfl (Video.conditions_congr rfl rfl rfl rfl rfl)
  | _ => exact hsame _ rfl rfl

/-- The requests after some writes, none of which is to their register. -/
theorem has_writeAll {b : Board} (h : b.video.Reachable) {ws : List (UInt16 × UInt8)}
    (hws : ∀ w ∈ ws, w.1 ≠ 0xff0f) (i : Interrupt) :
    (Bus.writeAll b ws).requests.has i = true ↔
      b.requests.has i = true ∨ i = .lcdStat ∧ ∃ k, k < ws.length ∧
        Video.Rises (Bus.writeAll b (ws.take k)).video
          (Bus.writeAll b (ws.take (k + 1))).video := by
  induction ws generalizing b with
  | nil => simp [Bus.writeAll]
  | cons w ws ih =>
    have hfirst := has_write h.settled (hws w List.mem_cons_self) w.2 i
    have hrest := ih (reachable_write h w.1 w.2) fun x hx => hws x (List.mem_cons_of_mem w hx)
    rw [List.length_cons, Nat.exists_lt_succ_left, and_or_left, ← or_assoc]
    refine hrest.trans (or_congr hfirst ?_)
    rfl

/-- Writes that cannot change a condition leave the requests as they are. -/
theorem requests_write (b : Board) {a : UInt16} (ha : a ≠ 0xff0f) (hcontrol : a ≠ 0xff40)
    (hstatus : a ≠ 0xff41) (hcompare : a ≠ 0xff45) (v : UInt8) :
    (b.write a v).requests = b.requests := by
  have hfind : Location.find b.model a ≠ .requests := mt Location.find_eq_requests ha
  have hconditions : ∀ l, Location.find b.model a = .video l →
      ¬ (l = .control ∨ l = .status ∨ l = .lineCompare) := by
    intro l hl hone
    rcases Location.find_eq_condition hl hone with h | h | h
    · exact hcontrol h
    · exact hstatus h
    · exact hcompare h
  unfold write
  generalize Location.find b.model a = l at hfind hconditions
  cases l with
  | requests => exact absurd rfl hfind
  | video l =>
    have hnone : (b.video.write l v).2 = ∅ := by
      have := hconditions l rfl
      cases l with
      | control | status | lineCompare => simp at this
      | _ => rfl
    change b.requests ∪ (b.video.write l v).2 = b.requests
    rw [hnone, Requests.union_empty]
  | spriteCopy =>
    obtain ⟨page, oam, hcopied⟩ := b.copySprites_frame v
    simp only [writeAt, hcopied]
  | _ => rfl

/-- A write to the request register reaches nothing else. -/
theorem video_write_requests (b : Board) (v : UInt8) : (b.write 0xff0f v).video = b.video := by
  rw [write, Location.find_requests]
  rfl

/-- Acknowledging interrupt `i` takes back that request and no other. -/
theorem has_acknowledge (b : Board) (i j : Interrupt) :
    (b.write 0xff0f (b.read 0xff0f &&& ~~~i.mask)).requests.has j = true ↔
      b.requests.has j = true ∧ i ≠ j := by
  have hread : b.read 0xff0f = b.requests.read := by
    rw [read, Location.find_requests]
    rfl
  rw [write, Location.find_requests, hread]
  change (Requests.write _).has j = true ↔ _
  rw [Requests.has_write_read]
  simp

/-! ## Buttons -/

/-- A press of a button that is not held requests its interrupt and no other. -/
theorem has_press (b : Board) (key : Button) (i : Interrupt) :
    (b.press key).requests.has i = true ↔
      b.requests.has i = true ∨ i = .buttons ∧ b.buttons.isHeld key = false := by
  change (b.requests.raiseIf .buttons !b.buttons.isHeld key).has i = true ↔ _
  rw [Requests.has_raiseIf]
  cases i <;> simp

/-! ## Time -/

/-- As time passes, the timer requests an interrupt if it counts past `0xff`, and the display if one
of the dots does. -/
theorem has_advance {b : Board} (h : b.Reachable) (n : Nat) (i : Interrupt) :
    (b.advance n).2.requests.has i = true ↔
      b.requests.has i = true ∨
      (i = .timer ∧ b.timer.enabled = true ∧
        0x100 ≤ b.timer.value.toNat + (b.timer.divider.advance (b.advance n).1).1) ∨
      ∃ d, d < (b.advance n).1 / b.speed.rate.factor ∧
        Video.Requested i (b.runTransfer.video.dots d) (b.runTransfer.video.dots (d + 1)) := by
  have hvideo := reachable_runTransfer h.video
  obtain ⟨vram, transfer, journal, hcopied⟩ := b.runTransfer_frame
  have hrequests : b.runTransfer.requests = b.requests := by rw [hcopied]
  have htimer : b.runTransfer.timer = b.timer := by rw [hcopied]
  have hnormal : (b.advance n).1 / b.speed.rate.factor =
      n / b.speed.rate.factor + cyclesPerBlock * b.blocksDue :=
    Nat.add_mul_div_right _ _ b.speed.rate.factor_pos
  rw [hnormal, ← (hvideo.settled.advance hvideo.placed _).2 i, ← Timer.advance_snd]
  change (b.runTransfer.requests.raiseIf .timer (b.runTransfer.timer.advance (b.advance n).1).2 ∪
    (b.runTransfer.video.advance _).2).has i = true ↔ _
  rw [hrequests, htimer, Requests.has_union, Requests.has_raiseIf, Bool.or_eq_true, Bool.or_eq_true,
    Bool.and_eq_true, beq_iff_eq, or_assoc, and_comm, eq_comm (a := i)]

end Board

end GameBoy
