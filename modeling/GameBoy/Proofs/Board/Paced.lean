import GameBoy.Proofs.Actions
import GameBoy.Proofs.Board.Requests

/-!
# The course of a paced transfer

A paced transfer is started with a number of blocks and copies one of them at a time, while programs
write and time passes. Only a write to its control register can end it before its last block, and
nothing else reaches its count of blocks.

* `Board.Action`, `Board.perform`: what is done to a board, and `Board.blocksCopied`: the blocks
  that are copied meanwhile.
* `Transfer.Owes`: the number of blocks that a transfer has still to copy.
* `Board.owes_performAll`: each block that is copied is one less.
* `Board.course_started`: a started transfer from its first block to its last.
-/

namespace GameBoy

/-! ## What is owed -/

namespace Transfer

/-- A transfer of pace `p` has `k` blocks to copy; it has ended if there are none. -/
def Owes (t : Transfer) (p : Pace) : Nat → Prop
  | 0 => t.active = false ∧ t.remaining = 0x7f
  | k + 1 => t.active = true ∧ t.pace = p ∧ t.remaining.toNat = k

theorem isPacing_iff {t : Transfer} :
    t.isPacing = true ↔ t.active = true ∧ t.pace = .hblank := by
  simp [isPacing]

theorem Owes.isPacing {t : Transfer} {k : Nat} (h : t.Owes .hblank (k + 1)) : t.isPacing = true :=
  isPacing_iff.2 ⟨h.1, h.2.1⟩

/-- A block that is copied is one less, and the last one ends the transfer. -/
theorem Owes.afterBlock {t : Transfer} {p : Pace} {k : Nat} (h : t.Owes p (k + 1)) :
    t.afterBlock.Owes p k := by
  obtain ⟨hactive, hpace, hcount⟩ := h
  unfold Transfer.afterBlock
  cases k with
  | zero =>
    have hlast : t.remaining = 0 := UInt8.toNat_inj.1 hcount
    simp only [hlast, if_true]
    exact ⟨rfl, rfl⟩
  | succ k =>
    have hmore : t.remaining ≠ 0 := by
      intro hlast
      rw [hlast] at hcount
      cases hcount
    have hone : 1 ≤ t.remaining := by
      apply UInt8.le_iff_toNat_le.2
      rw [hcount]
      exact Nat.succ_le_succ (Nat.zero_le k)
    simp only [hmore, if_false]
    refine ⟨hactive, hpace, ?_⟩
    change (t.remaining - 1).toNat = k
    rw [UInt8.toNat_sub_of_le _ _ hone, hcount]
    rfl

/-- Some blocks, one after the other. -/
theorem Owes.repeat_afterBlock {t : Transfer} {p : Pace} {k n : Nat} (h : t.Owes p k)
    (hn : n ≤ k) : (Nat.repeat Transfer.afterBlock n t).Owes p (k - n) := by
  induction n with
  | zero => exact h
  | succ n ih =>
    have hleft := ih (Nat.le_of_succ_le hn)
    have hsucc : k - n = (k - (n + 1)) + 1 := by omega
    rw [hsucc] at hleft
    exact hleft.afterBlock

/-- The control register tells how many blocks follow the next one, and that a transfer has
ended. -/
theorem Owes.read {t : Transfer} {p : Pace} {k : Nat} (h : t.Owes p k) :
    (k = 0 → t.read .control = 0xff) ∧ (0 < k → (t.read .control).toNat = k - 1) := by
  cases k with
  | zero =>
    refine ⟨fun _ => ?_, fun hk => absurd hk (Nat.lt_irrefl 0)⟩
    simp only [Transfer.read, h.1, h.2]
    rfl
  | succ k =>
    refine ⟨nofun, fun _ => ?_⟩
    simp only [Transfer.read, h.1, if_true]
    exact h.2.2

/-- A write to another register than the control register does not change what is owed. -/
theorem Owes.write {t : Transfer} {p : Pace} {k : Nat} (h : t.Owes p k) {r : Register}
    (hr : r ≠ .control) (v : UInt8) : (t.write r v).Owes p k := by
  cases r with
  | control => exact absurd rfl hr
  | _ => cases k <;> exact h

/-- While a paced transfer runs, a write to the control register does not either unless it stops the
transfer. -/
theorem Owes.write_control {t : Transfer} {k : Nat} (h : t.Owes .hblank (k + 1)) {v : UInt8}
    (hv : v &&& 0x80 ≠ 0) : (t.write .control v).Owes .hblank (k + 1) := by
  simp only [Transfer.write, h.isPacing, hv, if_true, if_false]
  exact h

/-- A transfer is started with as many blocks as the low seven bits tell, and one; the high bit is
its pace. -/
theorem owes_start {t : Transfer} (h : t.isPacing = false) {x : UInt8} (hx : x < 0x80) :
    (t.write .control x).Owes .general (x.toNat + 1) ∧
      (t.write .control (0x80 ||| x)).Owes .hblank (x.toNat + 1) := by
  have hbits : ∀ y : UInt8, y < 0x80 → (y &&& 0x80 = 0 ∧ y &&& 0x7f = y) ∧
      (0x80 ||| y) &&& 0x80 ≠ 0 ∧ (0x80 ||| y) &&& 0x7f = y :=
    forall_byte (P := fun y => y < 0x80 → (y &&& 0x80 = 0 ∧ y &&& 0x7f = y) ∧
      (0x80 ||| y) &&& 0x80 ≠ 0 ∧ (0x80 ||| y) &&& 0x7f = y) (by decide +kernel)
  obtain ⟨⟨hgeneral, hlow⟩, hpaced, hcount⟩ := hbits x hx
  constructor
  · simp only [Transfer.write, h, hgeneral, hlow, if_true, if_false, Bool.false_eq_true]
    exact ⟨rfl, rfl, rfl⟩
  · simp only [Transfer.write, h, hpaced, hcount, if_false, Bool.false_eq_true]
    exact ⟨rfl, rfl, rfl⟩

end Transfer

/-! ## Addresses -/

namespace Location

theorem ofAddress?_eq_transferControl {a : UInt16}
    (h : Transfer.Register.ofAddress? a = some .control) : a = 0xff55 := by
  unfold Transfer.Register.ofAddress? at h
  split_ifs at h <;> first
    | assumption
    | cases h

theorem find_eq_transferControl {model : Model} {a : UInt16}
    (h : find model a = .transfer .control) : a = 0xff55 := by
  cases LiesAt.of_find h with
  | transfer found => exact ofAddress?_eq_transferControl found

theorem find_transferControl : find .cgb 0xff55 = .transfer .control := rfl

end Location

namespace Board

/-! ## What is done to a board -/

/-- What is done to a board: a program writes and asks for the other clock rate, time passes, one
plays, and notices are kept. -/
inductive Action
  | write (a : UInt16) (v : UInt8)
  | switchRate
  | pass (cycles : Nat)
  | press (key : Button)
  | release (key : Button)
  | takeFrame
  | loadRam (saved : ByteArray)
  | note (journal : Journal)

/-- The board after an action. -/
def perform (b : Board) : Action → Board
  | .write a v => b.write a v
  | .switchRate => b.switchRate.2
  | .pass cycles => (b.advance cycles).2
  | .press key => b.press key
  | .release key => b.release key
  | .takeFrame => b.takeFrame
  | .loadRam saved => b.loadRam saved
  | .note journal => { b with journal }

instance : Actions Board Action := ⟨perform⟩

/-- The number of blocks that are copied in an action. -/
def blocksIn (b : Board) : Action → Nat
  | .pass _ => b.blocksDue
  | _ => 0

/-- The number of blocks that are copied in some actions. -/
def blocksCopied (b : Board) : List Action → Nat
  | [] => 0
  | a :: as => b.blocksIn a + (b.perform a).blocksCopied as

theorem blocksCopied_append (b : Board) (as bs : List Action) :
    b.blocksCopied (as ++ bs) = b.blocksCopied as + (performAll b as).blocksCopied bs := by
  induction as generalizing b with
  | nil => exact (Nat.zero_add _).symm
  | cons a as ih =>
    rw [List.cons_append, blocksCopied, blocksCopied, ih, Nat.add_assoc]
    rfl

/-- What an action writes. -/
def Action.write? : Action → Option (UInt16 × UInt8)
  | .write a v => some (a, v)
  | _ => none

/-- Actions lead from `b` to `c` that write `ws`, the first one first, and copy `n` blocks. -/
def Leads (b : Board) (ws : List (UInt16 × UInt8)) (n : Nat) (c : Board) : Prop :=
  ∃ as, c = performAll b as ∧ as.filterMap Action.write? = ws ∧ b.blocksCopied as = n

theorem Leads.refl (b : Board) : Leads b [] 0 b := ⟨[], rfl, rfl, rfl⟩

theorem Leads.trans {b c d : Board} {ws xs : List (UInt16 × UInt8)} {n k : Nat}
    (h : Leads b ws n c) (h' : Leads c xs k d) : Leads b (ws ++ xs) (n + k) d := by
  obtain ⟨as, rfl, rfl, rfl⟩ := h
  obtain ⟨bs, rfl, rfl, rfl⟩ := h'
  exact ⟨as ++ bs, (performAll_append b as bs).symm, List.filterMap_append,
    b.blocksCopied_append as bs⟩

/-- One action. -/
theorem leads_perform (b : Board) (a : Action) :
    Leads b a.write?.toList (b.blocksIn a) (b.perform a) := by
  refine ⟨[a], rfl, ?_, Nat.add_zero _⟩
  cases a <;> rfl

/-- Notices are kept. -/
theorem Leads.note {b c : Board} {ws : List (UInt16 × UInt8)} {n : Nat} (h : Leads b ws n c)
    (journal : Journal) : Leads b ws n { c with journal } := by
  have hnoted : Leads b (ws ++ []) n { c with journal } :=
    h.trans (c.leads_perform (.note journal))
  rwa [List.append_nil] at hnoted

/-- Time passes. -/
theorem Leads.pass {b c : Board} {ws : List (UInt16 × UInt8)} {n : Nat} (h : Leads b ws n c)
    (cycles : Nat) : Leads b ws (n + c.blocksDue) (c.advance cycles).2 := by
  have hpassed : Leads b (ws ++ []) (n + c.blocksDue) (c.advance cycles).2 :=
    h.trans (c.leads_perform (.pass cycles))
  rwa [List.append_nil] at hpassed

/-- Some writes. -/
theorem leads_writeAll (b : Board) (ws : List (UInt16 × UInt8)) :
    Leads b ws 0 (Bus.writeAll b ws) := by
  induction ws generalizing b with
  | nil => exact .refl b
  | cons w ws ih =>
    have hfirst := b.leads_perform (.write w.1 w.2)
    exact hfirst.trans (ih (b.write w.1 w.2))

/-- The action writes the control register of the transfer unit. -/
def Action.Rewrites (a : Action) : Prop := ∃ v, a = .write 0xff55 v

/-- The action stops a paced transfer. -/
def Action.Stops (a : Action) : Prop := ∃ v, a = .write 0xff55 v ∧ v &&& 0x80 = 0

/-! ## The transfer unit of a board -/

/-- A write reaches one register of the transfer unit, or none. -/
theorem transfer_write (b : Board) (a : UInt16) (v : UInt8) :
    (b.write a v).transfer = b.transfer ∨
      ∃ r, Location.find b.model a = .transfer r ∧
        (b.write a v).transfer = b.transfer.write r v := by
  unfold write
  cases Location.find b.model a with
  | transfer r => exact .inr ⟨r, rfl, rfl⟩
  | spriteCopy =>
    obtain ⟨page, oam, hcopied⟩ := b.copySprites_frame v
    refine .inl ?_
    simp only [writeAt, hcopied]
  | _ => exact .inl rfl

theorem transfer_copyBlock (b : Board) : b.copyBlock.transfer = b.transfer.afterBlock := by
  have hbyte : ∀ (c : Board) (i : Fin 0x10), (c.copyBlockByte i).transfer = c.transfer :=
    fun _ _ => rfl
  have hcopied : (Fin.foldl 0x10 copyBlockByte b).transfer = b.transfer :=
    foldl_induction (P := fun c : Board => c.transfer = b.transfer)
      (fun c i h => (hbyte c i).trans h) rfl
  unfold copyBlock
  generalize Fin.foldl 0x10 copyBlockByte b = copied at hcopied
  rw [← hcopied]
  rfl

/-- Each block that is due moves the transfer on. -/
theorem transfer_runTransfer (b : Board) :
    b.runTransfer.transfer = Nat.repeat Transfer.afterBlock b.blocksDue b.transfer := by
  unfold runTransfer
  generalize b.blocksDue = n
  induction n with
  | zero => rfl
  | succ n ih =>
    change (copyBlock _).transfer = Transfer.afterBlock _
    rw [transfer_copyBlock, ih]

/-- The passing of time changes the transfer unit by the blocks that are due and in no other way. -/
theorem transfer_advance (b : Board) (n : Nat) :
    (b.advance n).2.transfer = Nat.repeat Transfer.afterBlock b.blocksDue b.transfer :=
  b.transfer_runTransfer

/-- A paced transfer copies at most one block at a time. -/
theorem blocksDue_of_pacing {b : Board} (h : b.transfer.isPacing = true) :
    b.blocksDue = if b.video.lineDrawn && b.video.line < screenHeight then 1 else 0 := by
  obtain ⟨hactive, hpace⟩ := Transfer.isPacing_iff.1 h
  simp [blocksDue, hactive, hpace]

theorem blocksDue_le_one {b : Board} (h : b.transfer.isPacing = true) : b.blocksDue ≤ 1 := by
  rw [blocksDue_of_pacing h]
  split <;> decide

/-! ## The course -/

/-- A transfer copies no more blocks than it owes, and a general one copies all of them. -/
theorem blocksDue_le_owed {b : Board} {p : Pace} {k : Nat} (h : b.transfer.Owes p k) :
    b.blocksDue ≤ k ∧ (p = .general → b.blocksDue = k) := by
  cases k with
  | zero =>
    have hnone : b.blocksDue = 0 := by simp [blocksDue, h.1]
    rw [hnone]
    exact ⟨Nat.le_refl 0, fun _ => rfl⟩
  | succ k =>
    obtain ⟨hactive, hpace, hcount⟩ := h
    cases p with
    | general =>
      have hall : b.blocksDue = k + 1 := by simp [blocksDue, hactive, hpace, hcount]
      exact ⟨Nat.le_of_eq hall, fun _ => hall⟩
    | hblank =>
      refine ⟨?_, nofun⟩
      have := blocksDue_le_one (Transfer.isPacing_iff.2 ⟨hactive, hpace⟩)
      omega

/-- As time passes, what is copied is no longer owed. -/
theorem owes_advance {b : Board} {p : Pace} {k : Nat} (h : b.transfer.Owes p k) (n : Nat) :
    (b.advance n).2.transfer.Owes p (k - b.blocksDue) := by
  rw [transfer_advance]
  exact h.repeat_afterBlock (blocksDue_le_owed h).1

/-- No write changes what is owed unless it stops the transfer or starts another one. -/
theorem owes_write {b : Board} {k : Nat} (h : b.transfer.Owes .hblank k) {a : UInt16} {v : UInt8}
    (hv : a = 0xff55 → k ≠ 0 ∧ v &&& 0x80 ≠ 0) : (b.write a v).transfer.Owes .hblank k := by
  rcases b.transfer_write a v with hsame | ⟨r, hfind, hwritten⟩
  · rwa [hsame]
  · rw [hwritten]
    by_cases hr : r = .control
    · subst hr
      obtain ⟨hk, hpaced⟩ := hv (Location.find_eq_transferControl hfind)
      obtain ⟨j, rfl⟩ := Nat.exists_eq_succ_of_ne_zero hk
      exact h.write_control hpaced
    · exact h.write hr v

theorem owes_perform {b : Board} {k : Nat} (h : b.transfer.Owes .hblank k) {a : Action}
    (hstop : ¬ a.Stops) (hlast : k = 0 → ¬ a.Rewrites) :
    b.blocksIn a ≤ k ∧ (b.perform a).transfer.Owes .hblank (k - b.blocksIn a) := by
  cases a with
  | pass n => exact ⟨(blocksDue_le_owed h).1, owes_advance h n⟩
  | write a v =>
    refine ⟨Nat.zero_le k, owes_write h ?_⟩
    rintro rfl
    exact ⟨fun hk => hlast hk ⟨v, rfl⟩, fun hv => hstop ⟨v, rfl, hv⟩⟩
  | switchRate =>
    have hsame : b.switchRate.2.transfer = b.transfer := by
      unfold switchRate
      cases b.model <;> rfl
    refine ⟨Nat.zero_le k, ?_⟩
    change b.switchRate.2.transfer.Owes .hblank k
    rwa [hsame]
  | _ => exact ⟨Nat.zero_le k, h⟩

/-- While a transfer is not stopped, and another one not started, what is copied is no longer owed
and everything else is. -/
theorem owes_performAll {b : Board} {k : Nat} (h : b.transfer.Owes .hblank k) {as : List Action}
    (hstop : ∀ a ∈ as, ¬ a.Stops) (hlast : b.blocksCopied as < k ∨ ∀ a ∈ as, ¬ a.Rewrites) :
    b.blocksCopied as ≤ k ∧
      (performAll b as).transfer.Owes .hblank (k - b.blocksCopied as) := by
  induction as generalizing b k with
  | nil => exact ⟨Nat.zero_le k, h⟩
  | cons a as ih =>
    rw [blocksCopied] at hlast ⊢
    obtain ⟨hle, hnext⟩ := owes_perform h (hstop a List.mem_cons_self) <| by
      rintro rfl
      rcases hlast with hlt | hkept
      · exact absurd hlt (Nat.not_lt_zero _)
      · exact hkept a List.mem_cons_self
    obtain ⟨hrest, hend⟩ := ih hnext (fun x hx => hstop x (List.mem_cons_of_mem a hx)) <| by
      rcases hlast with hlt | hkept
      · exact .inl (by omega)
      · exact .inr fun x hx => hkept x (List.mem_cons_of_mem a hx)
    refine ⟨by omega, ?_⟩
    rw [← Nat.sub_sub]
    exact hend

/-! ## A started transfer -/

theorem model_write (b : Board) (a : UInt16) (v : UInt8) : (b.write a v).model = b.model := by
  unfold write
  cases Location.find b.model a with
  | spriteCopy =>
    obtain ⟨page, oam, hcopied⟩ := b.copySprites_frame v
    simp only [writeAt, hcopied]
  | _ => rfl

theorem model_perform (b : Board) (a : Action) : (b.perform a).model = b.model := by
  cases a with
  | write a v => exact b.model_write a v
  | switchRate =>
    change b.switchRate.2.model = _
    unfold switchRate
    cases hmodel : b.model <;> exact hmodel
  | pass n =>
    obtain ⟨vram, transfer, journal, hcopied⟩ := b.runTransfer_frame
    change b.runTransfer.model = _
    rw [hcopied]
  | _ => rfl

theorem model_performAll (b : Board) (as : List Action) : (performAll b as).model = b.model := by
  induction as generalizing b with
  | nil => rfl
  | cons a as ih => exact (ih (b.perform a)).trans (b.model_perform a)

theorem read_transferControl {b : Board} (h : b.model = .cgb) :
    b.read 0xff55 = b.transfer.read .control := by
  rw [read, h, Location.find_transferControl]
  rfl

theorem owes_started {b : Board} (hmodel : b.model = .cgb) (hidle : b.transfer.isPacing = false)
    {x : UInt8} (hx : x < 0x80) :
    (b.write 0xff55 (0x80 ||| x)).transfer.Owes .hblank (x.toNat + 1) := by
  rw [write, hmodel, Location.find_transferControl]
  exact (Transfer.owes_start hidle hx).2

/-- A started transfer that is not stopped copies its blocks, tells how many follow the next one,
and ends with the last. -/
theorem course_started {b : Board} (hmodel : b.model = .cgb)
    (hidle : b.transfer.isPacing = false) {x : UInt8} (hx : x < 0x80) {as bs : List Action}
    (hstop : ∀ a ∈ as ++ bs, ¬ a.Stops) (hkept : ∀ a ∈ bs, ¬ a.Rewrites)
    (hmore : (b.write 0xff55 (0x80 ||| x)).blocksCopied as ≤ x.toNat) :
    let started := b.write 0xff55 (0x80 ||| x)
    let after := performAll started (as ++ bs)
    let copied := started.blocksCopied (as ++ bs)
    copied ≤ x.toNat + 1 ∧
      (copied ≤ x.toNat →
        after.transfer.isPacing = true ∧ (after.read 0xff55).toNat = x.toNat - copied) ∧
      (copied = x.toNat + 1 → after.transfer.active = false ∧ after.read 0xff55 = 0xff) := by
  intro started after copied
  have howes : started.transfer.Owes .hblank (x.toNat + 1) := owes_started hmodel hidle hx
  have hcolor : after.model = .cgb :=
    (model_performAll _ _).trans ((b.model_write _ _).trans hmodel)
  obtain ⟨-, hmiddle⟩ := owes_performAll howes
    (fun a ha => hstop a (List.mem_append_left bs ha)) (.inl (Nat.lt_succ_of_le hmore))
  obtain ⟨hle, hend⟩ := owes_performAll hmiddle
    (fun a ha => hstop a (List.mem_append_right as ha)) (.inr hkept)
  have hcopied : copied = started.blocksCopied as + (performAll started as).blocksCopied bs :=
    started.blocksCopied_append as bs
  have hafter : after.transfer.Owes .hblank (x.toNat + 1 - copied) := by
    rw [hcopied, ← Nat.sub_sub, show after = _ from performAll_append started as bs]
    exact hend
  obtain ⟨hended, hcount⟩ := hafter.read
  change started.blocksCopied as ≤ x.toNat at hmore
  rw [read_transferControl hcolor]
  refine ⟨by omega, fun hle => ⟨?_, ?_⟩, fun hlast => ⟨?_, hended (by omega)⟩⟩
  · have hsucc : x.toNat + 1 - copied = (x.toNat - copied) + 1 := by omega
    rw [hsucc] at hafter
    exact hafter.isPacing
  · rw [hcount (by omega)]
    omega
  · have hzero : x.toNat + 1 - copied = 0 := by omega
    rw [hzero] at hafter
    exact hafter.1

end Board

end GameBoy
