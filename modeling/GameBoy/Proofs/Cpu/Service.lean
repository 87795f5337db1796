import GameBoy.Proofs.Cpu.Step
import GameBoy.Memory.Flat

/-!
# Service is transparent

Interrupts whose handlers only return are served one after the other, the most urgent first, and the
program that they interrupted goes on as if nothing had happened. Memory has no devices here, so
nothing is requested in the meantime.

* `Interrupt.inOrder`: the interrupts of a byte in the order of their service.
* `Cpu.after`: some steps on a bus that nothing else changes.
* `Cpu.Round`: what the service of one interrupt and the return from it do.
* `Ready.round`, `Ready.next`: one round, and the state that it leaves for the next.
* `Ready.rounds`: all rounds.
* `service_transparent`: the whole of it, for all registers and memories.
-/

namespace GameBoy

namespace Interrupt

/-! ## The order of service -/

/-- The interrupts whose bits are set in a byte, the most urgent first. -/
def inOrder (p : UInt8) : List Interrupt := all.filter fun i => p &&& i.mask != 0

theorem mem_all (i : Interrupt) : i ∈ all := by cases i <;> decide

@[simp] theorem mem_inOrder (p : UInt8) (i : Interrupt) : i ∈ inOrder p ↔ p &&& i.mask ≠ 0 := by
  simp [inOrder, mem_all]

theorem pairwise_inOrder (p : UInt8) : (inOrder p).Pairwise fun i j => i.index < j.index :=
  List.Pairwise.filter _ (show all.Pairwise fun i j => i.index < j.index by decide)

theorem head?_inOrder (p : UInt8) : (inOrder p).head? = highest? p := List.head?_filter

/-- Without the most urgent interrupt the others remain in their order. -/
theorem inOrder_lower {p : UInt8} {i : Interrupt} {rest : List Interrupt}
    (h : inOrder p = i :: rest) : inOrder (p &&& ~~~i.mask) = rest := by
  have hbits : ∀ j, (p &&& ~~~i.mask &&& j.mask != 0) = (j != i && p &&& j.mask != 0) := by
    intro j
    rw [UInt8.and_assoc, not_mask_and_mask]
    by_cases hij : i = j
    · simp [hij]
    · simp [hij, Ne.symm hij]
  have hrest : ∀ j ∈ rest, (j != i) = true := by
    intro j hj
    have hpairwise := pairwise_inOrder p
    rw [h, List.pairwise_cons] at hpairwise
    rw [bne_iff_ne]
    rintro rfl
    exact Nat.lt_irrefl _ (hpairwise.1 j hj)
  calc
    inOrder (p &&& ~~~i.mask) = (inOrder p).filter (· != i) := by
      simp only [inOrder, List.filter_filter, hbits]
    _ = rest := by
      rw [h, List.filter_cons, if_neg (by simp), List.filter_eq_self.2 hrest]

/-- A mask has a single bit. -/
theorem and_mask_eq {p : UInt8} {i : Interrupt} (h : p &&& i.mask ≠ 0) : p &&& i.mask = i.mask := by
  have hbytes : ∀ p : UInt8, p &&& i.mask ≠ 0 → p &&& i.mask = i.mask := by
    intro p
    cases i <;>
      exact forall_byte (P := fun p => p &&& mask _ ≠ 0 → p &&& mask _ = mask _)
        (by decide +kernel) p
  exact hbytes p h

/-- No handler lies where the requests are. -/
theorem vector_ne (i : Interrupt) : i.vector ≠ 0xff0f := by cases i <;> decide

end Interrupt

/-- Taking back one request and then the others takes back all of them. -/
theorem and_not_and_not {p m : UInt8} (h : p &&& m = m) (a : UInt8) :
    a &&& ~~~m &&& ~~~(p &&& ~~~m) = a &&& ~~~p := by
  apply UInt8.toBitVec_inj.1
  ext k hk
  have hbit := congrArg (fun b : UInt8 => b.toBitVec[k]) h
  simp at hbit ⊢
  grind

namespace Cpu

/-! ## Some steps -/

section Steps

variable {β : Type} [Bus β]

/-- The processor and the bus after `n` steps. -/
def after (cpu : Cpu) (bus : β) : Nat → Cpu × β
  | 0 => (cpu, bus)
  | n + 1 =>
    let stepped := (cpu.after bus n).1.step (cpu.after bus n).2
    (stepped.cpu, stepped.bus)

/-- What the step after `n` steps is. -/
def outcomeAfter (cpu : Cpu) (bus : β) (n : Nat) : Outcome :=
  ((cpu.after bus n).1.step (cpu.after bus n).2).outcome

theorem after_add (cpu : Cpu) (bus : β) (m n : Nat) :
    cpu.after bus (m + n) = (cpu.after bus m).1.after (cpu.after bus m).2 n := by
  induction n with
  | zero => rfl
  | succ n ih =>
    rw [Nat.add_succ, after, after, ih]

end Steps

/-! ## One round -/

/-- The processor after a round: as before, and not halted. -/
def rested (cpu : Cpu) : Cpu :=
  { cpu with ime := true, imePending := false, halted := false, served? := none }

/-- An interrupt is served, and the handler returns. -/
structure Round (i : Interrupt) (cpu : Cpu) (m : Flat) : Prop where
  serves : (cpu.step m).outcome = .served i
  disabled : (cpu.step m).cpu.ime = false
  high : Bus.read (cpu.step m).bus (cpu.regs.sp - 1) = highByte cpu.regs.pc
  low : Bus.read (cpu.step m).bus (cpu.regs.sp - 2) = lowByte cpu.regs.pc
  requests : Bus.read (cpu.step m).bus 0xff0f = Bus.read m 0xff0f &&& ~~~i.mask
  elsewhere : ∀ a, a ≠ 0xff0f → a ≠ cpu.regs.sp - 1 → a ≠ cpu.regs.sp - 2 →
    Bus.read (cpu.step m).bus a = Bus.read m a
  returns : ((cpu.step m).cpu.step (cpu.step m).bus).outcome = .executed .retInterrupt 4
  rests : ((cpu.step m).cpu.step (cpu.step m).bus).cpu = cpu.rested
  keeps : ((cpu.step m).cpu.step (cpu.step m).bus).bus = (cpu.step m).bus

/-- An address that neither register of interrupts nor the handler of a pending one lies at. -/
def Spare (m : Flat) (a : UInt16) : Prop :=
  a ≠ 0xff0f ∧ a ≠ 0xffff ∧ ∀ i : Interrupt, pending m &&& i.mask ≠ 0 → a ≠ i.vector

/-- Interrupts are enabled, the handlers of all that are pending only return, and the stack is out
of the way. -/
structure Ready (cpu : Cpu) (m : Flat) : Prop where
  ime : cpu.ime = true
  returns : ∀ i : Interrupt, pending m &&& i.mask ≠ 0 → Bus.read m i.vector = 0xd9
  high : Spare m (cpu.regs.sp - 1)
  low : Spare m (cpu.regs.sp - 2)

/-- Memory after the service of an interrupt. -/
theorem read_serve (cpu : Cpu) (i : Interrupt) (m : Flat) (a : UInt16) :
    Bus.read (cpu.awake.serve i m).2 a =
      if cpu.regs.sp - 2 = a then lowByte cpu.regs.pc
      else if cpu.regs.sp - 1 = a then highByte cpu.regs.pc
      else if 0xff0f = a then Bus.read m 0xff0f &&& ~~~i.mask
      else Bus.read m a := by
  change Bus.read (Bus.write (Bus.write (Bus.write m _ _) (cpu.regs.sp - 1) _) _ _) a = _
  rw [Flat.read_write, Flat.read_write, Flat.read_write]
  rfl

/-- The return from an interrupt takes the address off the stack that its service put there. -/
theorem returnTo_of_pushed {r : Registers} {m : Flat} (a : UInt16)
    (hhigh : Bus.read m (r.sp - 1) = highByte r.pc) (hlow : Bus.read m (r.sp - 2) = lowByte r.pc) :
    Registers.returnTo { r with sp := r.sp - 2, pc := a } m = r := by
  have hnext : r.sp - 2 + 1 = r.sp - 1 := by grind
  have hpc : Bus.readWord m (r.sp - 2) = r.pc := by
    rw [Bus.readWord, hnext, hhigh, hlow, word_highByte_lowByte]
  have hsp : r.sp - 2 + 2 = r.sp := by grind
  simp only [Registers.returnTo, Registers.popWord, Registers.goto, hpc, hsp]

section Rounds

variable {cpu : Cpu} {m : Flat} {i : Interrupt}

/-- A pending interrupt whose handler only returns is served and returned from. -/
theorem Ready.round (h : cpu.Ready m) (hi : Interrupt.highest? (pending m) = some i) :
    Round i cpu m := by
  have hpending : pending m &&& i.mask ≠ 0 := by
    rw [← Interrupt.mem_inOrder]
    exact List.mem_of_mem_head? ((Interrupt.head?_inOrder _).trans hi)
  have hread := read_serve cpu i m
  have hdiffer : cpu.regs.sp - 2 ≠ cpu.regs.sp - 1 := by grind
  have hhigh : Bus.read (cpu.awake.serve i m).2 (cpu.regs.sp - 1) = highByte cpu.regs.pc := by
    rw [hread, if_neg hdiffer, if_pos rfl]
  have hlow : Bus.read (cpu.awake.serve i m).2 (cpu.regs.sp - 2) = lowByte cpu.regs.pc := by
    rw [hread, if_pos rfl]
  have hhandler : Bus.read (cpu.awake.serve i m).2 i.vector = 0xd9 := by
    rw [hread, if_neg (h.low.2.2 i hpending), if_neg (h.high.2.2 i hpending),
      if_neg i.vector_ne.symm]
    exact h.returns i hpending
  have hfetch : fetch (cpu.awake.serve i m).2 (cpu.awake.serve i m).1.regs.pc = .retInterrupt := by
    change Instr.ofBytes (Bus.read (cpu.awake.serve i m).2 i.vector) _ _ = _
    rw [hhandler]
    rfl
  have hserved := step_served h.ime hi
  have hoff : ¬ ((cpu.awake.serve i m).1.ime = true ∧ pending (cpu.awake.serve i m).2 ≠ 0) :=
    fun h => nomatch h.1
  have hreturned := step_executed (.inl rfl) hoff hfetch
  have hregs := returnTo_of_pushed (i.vector + 1) hhigh hlow
  refine ⟨?_, ?_, ?_, ?_, ?_, ?_, ?_, ?_, ?_⟩
  · rw [hserved]
  · rw [hserved]
    rfl
  · rw [hserved, hhigh]
  · rw [hserved, hlow]
  · rw [hserved, hread, if_neg h.low.1, if_neg h.high.1, if_pos rfl]
  · intro a hrequests hnotHigh hnotLow
    rw [hserved, hread, if_neg hnotLow.symm, if_neg hnotHigh.symm, if_neg hrequests.symm]
  · rw [hserved, hreturned]
    rfl
  · rw [hserved, hreturned]
    exact congrArg (fun r => { cpu.rested with regs := r }) hregs
  · rw [hserved, hreturned]
    rfl

/-! ## All rounds -/

/-- A round takes back one request. -/
theorem Ready.pending_next (h : cpu.Ready m) (hround : Round i cpu m) :
    pending (cpu.step m).bus = pending m &&& ~~~i.mask := by
  have hselected : Bus.read (cpu.step m).bus 0xffff = Bus.read m 0xffff :=
    hround.elsewhere 0xffff (by decide) h.high.2.1.symm h.low.2.1.symm
  rw [pending, hselected, hround.requests, pending]
  ac_rfl

/-- Where fewer interrupts are pending, as much is spared. -/
theorem Spare.mono {n : Flat} {a : UInt16} (h : Spare m a)
    (hpending : ∀ j : Interrupt, pending n &&& j.mask ≠ 0 → pending m &&& j.mask ≠ 0) :
    Spare n a :=
  ⟨h.1, h.2.1, fun j hj => h.2.2 j (hpending j hj)⟩

/-- A round leaves everything ready for the next one. -/
theorem Ready.next (h : cpu.Ready m) (hround : Round i cpu m) :
    cpu.rested.Ready (cpu.step m).bus := by
  have hpending : ∀ j : Interrupt, pending (cpu.step m).bus &&& j.mask ≠ 0 →
      pending m &&& j.mask ≠ 0 := by
    intro j hj hnot
    apply hj
    have hswap : pending m &&& ~~~i.mask &&& j.mask = pending m &&& j.mask &&& ~~~i.mask := by
      ac_rfl
    rw [h.pending_next hround, hswap, hnot, UInt8.zero_and]
  refine ⟨rfl, fun j hj => ?_, h.high.mono hpending, h.low.mono hpending⟩
  have hspared := hpending j hj
  rw [hround.elsewhere j.vector j.vector_ne (h.high.2.2 j hspared).symm (h.low.2.2 j hspared).symm]
  exact h.returns j hspared

/-- The interrupted program goes on as if nothing had happened, and no request is pending. -/
structure Resumed (cpu : Cpu) (m : Flat) (s : Cpu × Flat) : Prop where
  regs : s.1.regs = cpu.regs
  ime : s.1.ime = true
  requests : Bus.read s.2 0xff0f = Bus.read m 0xff0f &&& ~~~pending m
  elsewhere : ∀ a, a ≠ 0xff0f → a ≠ cpu.regs.sp - 1 → a ≠ cpu.regs.sp - 2 →
    Bus.read s.2 a = Bus.read m a

/-- What is so after the rounds that follow the first is so after all. -/
theorem Resumed.of_next (h : cpu.Ready m) (hround : Round i cpu m)
    (hi : pending m &&& i.mask = i.mask) {s : Cpu × Flat}
    (hrest : Resumed cpu.rested (cpu.step m).bus s) : Resumed cpu m s where
  regs := hrest.regs
  ime := hrest.ime
  requests := by
    rw [hrest.requests, hround.requests, h.pending_next hround, and_not_and_not hi]
  elsewhere a hrequests hhigh hlow := by
    rw [hrest.elsewhere a hrequests hhigh hlow, hround.elsewhere a hrequests hhigh hlow]

theorem Round.after_two (h : Round i cpu m) (n : Nat) :
    cpu.after m (2 + n) = cpu.rested.after (cpu.step m).bus n := by
  have htwo : cpu.after m 2 = (cpu.rested, (cpu.step m).bus) := Prod.ext h.rests h.keeps
  rw [after_add, htwo]

/-- All pending interrupts are served in their order, each from the registers of the start. -/
theorem Ready.rounds (h : cpu.Ready m) {is : List Interrupt}
    (his : Interrupt.inOrder (pending m) = is) :
    (∀ j (hj : j < is.length), (cpu.after m (2 * j)).1.regs = cpu.regs ∧
      Round is[j] (cpu.after m (2 * j)).1 (cpu.after m (2 * j)).2) ∧
    Resumed cpu m (cpu.after m (2 * is.length)) := by
  induction is generalizing cpu m with
  | nil =>
    have hnone : pending m = 0 := by
      rw [← highest?_pending_eq_none_iff, ← Interrupt.head?_inOrder, his]
      rfl
    refine ⟨fun j hj => absurd hj (Nat.not_lt_zero j), rfl, h.ime, ?_, fun _ _ _ _ => rfl⟩
    rw [hnone]
    exact UInt8.and_neg_one.symm
  | cons i is ih =>
    have hmost : Interrupt.highest? (pending m) = some i := by
      rw [← Interrupt.head?_inOrder, his]
      rfl
    have hround := h.round hmost
    have hpending : pending m &&& i.mask = i.mask := by
      apply Interrupt.and_mask_eq
      rw [← Interrupt.mem_inOrder, his]
      exact List.mem_cons_self
    have hrest : Interrupt.inOrder (pending (cpu.step m).bus) = is := by
      rw [h.pending_next hround]
      exact Interrupt.inOrder_lower his
    obtain ⟨hrounds, hresumed⟩ := ih (h.next hround) hrest
    refine ⟨fun j hj => ?_, ?_⟩
    · cases j with
      | zero => exact ⟨rfl, hround⟩
      | succ j =>
        have hj' : j < is.length := Nat.lt_of_succ_lt_succ hj
        rw [Nat.mul_succ, Nat.add_comm, hround.after_two]
        exact hrounds j hj'
    · rw [List.length_cons, Nat.mul_succ, Nat.add_comm, hround.after_two]
      exact hresumed.of_next h hround hpending

end Rounds

/-! ## The whole service -/

/-- With interrupts enabled and some of them pending, handlers that only return, and the stack out
of the way, the interrupts are served one after the other, the most urgent first, each once. Each
service takes five machine cycles, puts the address of the interrupted instruction on the stack,
takes its own request back and disables interrupts until the handler has returned, in four cycles.
Afterwards the registers are as they were, interrupts are enabled, the requests that were pending
are gone and the others are not, and memory is as it was but for the two bytes of the stack. Whether
the processor was halted makes no difference. -/
theorem service_transparent (cpu : Cpu) (m : Flat) (hime : cpu.ime = true)
    (hpending : pending m ≠ 0)
    (hreturns : ∀ i : Interrupt, pending m &&& i.mask ≠ 0 → Bus.read m i.vector = 0xd9)
    (hstack : ∀ a, a = cpu.regs.sp - 1 ∨ a = cpu.regs.sp - 2 →
      a ≠ 0xff0f ∧ a ≠ 0xffff ∧ ∀ i : Interrupt, pending m &&& i.mask ≠ 0 → a ≠ i.vector) :
    let order := Interrupt.inOrder (pending m)
    (order ≠ [] ∧ order.Pairwise (fun i j => i.index < j.index) ∧
      ∀ i : Interrupt, i ∈ order ↔ pending m &&& i.mask ≠ 0) ∧
    (∀ j (hj : j < order.length),
      let handling := cpu.after m (2 * j + 1)
      cpu.outcomeAfter m (2 * j) = .served order[j] ∧ (cpu.outcomeAfter m (2 * j)).cycles = 5 ∧
      (cpu.after m (2 * j)).1.regs = cpu.regs ∧
      handling.1.ime = false ∧
      Bus.read handling.2 (cpu.regs.sp - 1) = highByte cpu.regs.pc ∧
      Bus.read handling.2 (cpu.regs.sp - 2) = lowByte cpu.regs.pc ∧
      Bus.read handling.2 0xff0f =
        Bus.read (cpu.after m (2 * j)).2 0xff0f &&& ~~~(order[j]).mask ∧
      cpu.outcomeAfter m (2 * j + 1) = .executed .retInterrupt 4) ∧
    let last := cpu.after m (2 * order.length)
    last.1.regs = cpu.regs ∧ last.1.ime = true ∧
    Bus.read last.2 0xff0f = Bus.read m 0xff0f &&& ~~~pending m ∧
    ∀ a, a ≠ 0xff0f → a ≠ cpu.regs.sp - 1 → a ≠ cpu.regs.sp - 2 →
      Bus.read last.2 a = Bus.read m a := by
  intro order
  have hready : cpu.Ready m := ⟨hime, hreturns, hstack _ (.inl rfl), hstack _ (.inr rfl)⟩
  obtain ⟨hrounds, hresumed⟩ := hready.rounds rfl
  refine ⟨⟨?_, Interrupt.pairwise_inOrder _, Interrupt.mem_inOrder _⟩, fun j hj => ?_,
    hresumed.regs, hresumed.ime, hresumed.requests, hresumed.elsewhere⟩
  · intro hnone
    apply hpending
    rw [← highest?_pending_eq_none_iff, ← Interrupt.head?_inOrder]
    exact congrArg List.head? hnone
  · obtain ⟨hregs, hround⟩ := hrounds j hj
    refine ⟨hround.serves, ?_, hregs, hround.disabled, ?_, ?_, hround.requests, hround.returns⟩
    · exact congrArg Outcome.cycles hround.serves
    · have hhigh := hround.high
      rw [hregs] at hhigh
      exact hhigh
    · have hlow := hround.low
      rw [hregs] at hlow
      exact hlow

/-- Memory in which every handler returns at once, and two interrupts are pending. -/
def twoPending : Flat :=
  Bus.write (Bus.write { cells := .fill _ 0xd9, armed := false } 0xffff 0x05) 0xff0f 0x05

theorem read_twoPending (a : UInt16) :
    Bus.read twoPending a = if 0xff0f = a then 0x05 else if 0xffff = a then 0x05 else 0xd9 := by
  simp only [twoPending, Flat.read_write]
  simp [Bus.read]

/-- A halted processor serves the two interrupts and goes on where it was. -/
theorem service_transparent_two :
    let cpu : Cpu := { regs := .powerUp .dmg, ime := true, halted := true }
    cpu.outcomeAfter twoPending 0 = .served .vblank ∧
      cpu.outcomeAfter twoPending 2 = .served .timer ∧
      (cpu.after twoPending 4).1.regs = cpu.regs ∧
      Bus.read (cpu.after twoPending 4).2 0xff0f = 0 := by
  intro cpu
  have hpending : pending twoPending = 0x05 := by
    rw [pending, read_twoPending, read_twoPending]
    rfl
  have horder : Interrupt.inOrder (pending twoPending) = [.vblank, .timer] := by
    rw [hpending]
    rfl
  have hservice := service_transparent cpu twoPending rfl (by rw [hpending]; decide)
    (fun i _ => by rw [read_twoPending]; cases i <;> rfl)
    (fun a ha => by
      rcases ha with rfl | rfl <;>
        exact ⟨by decide, by decide, fun i _ => by cases i <;> decide⟩)
  rw [horder] at hservice
  obtain ⟨-, hrounds, hregs, -, hrequests, -⟩ := hservice
  refine ⟨(hrounds 0 (by decide)).1, (hrounds 1 (by decide)).1, hregs, ?_⟩
  rw [hpending, read_twoPending] at hrequests
  exact hrequests

end Cpu

end GameBoy
