import GameBoy.Proofs.Cpu.Chains
import GameBoy.Proofs.Cpu.Flags

/-!
# Runs that compute with numbers of several bytes

Between two operations on bytes a program has to load the next ones and store the last result, to
move its pointers and to count. All that leaves the carry where it is, so a run computes what the
chain of its operations computes, whatever else it does meanwhile.

* `Instr.KeepsCarry`, `Instr.Moves`: the instructions that leave the carry, and the loads, stores
  and counts that leave all flags.
* `Cpu.Combines`, `Cpu.Shifts`: steps that do an operation, seen from outside.
* `Cpu.Performs`: runs in which such steps are done, others that keep the carry between them.
* `Cpu.Performs.eq_chain`: a run leaves what the chain leaves.
* `Cpu.chains_exact`: what chains compute, and that runs compute it.
* `Cpu.chain_broken`: the one load that breaks a chain.
-/

namespace GameBoy

/-! ## Instructions that leave flags alone -/

namespace Instr

/-- The instruction leaves the carry as it is. -/
def KeepsCarry : Instr → Prop
  | .alu .. | .aluByte .. | .addSP _ | .loadHLSP _ | .addHL _ | .rotateA _ | .shift ..
  | .decimalAdjustA | .setCarry | .complementCarry | .pop .af => False
  | _ => True

/-- The instruction loads or stores a byte or a word, or counts a pair up or down. A load of `HL`
with a sum is not among them. -/
def Moves : Instr → Prop
  | .load .. | .loadByte .. | .loadWord .. | .loadA _ | .storeA _ | .loadAFrom _ | .storeAAt _
  | .loadAHigh _ | .storeAHigh _ | .loadAHighC | .storeAHighC | .storeSP _ | .loadSPHL
  | .incPair _ | .decPair _ | .push _ => True
  | .pop p => p ≠ .af
  | _ => False

variable {i : Instr} {before after : Flags}

theorem FlagsKept.carry_eq (h : i.FlagsKept before after) (hi : i.KeepsCarry) :
    after.carry = before.carry := by
  cases i with
  | inc | dec | testBit => exact h
  | complementA => exact h.2
  | pop p =>
    cases p with
    | af => exact hi.elim
    | _ => exact congrArg Flags.carry h
  | alu | aluByte | addSP | loadHLSP | addHL | rotateA | shift | decimalAdjustA | setCarry
  | complementCarry => exact hi.elim
  | _ => exact congrArg Flags.carry h

theorem FlagsKept.eq (h : i.FlagsKept before after) (hi : i.Moves) : after = before := by
  cases i with
  | load | loadByte | loadWord | loadA | storeA | loadAFrom | storeAAt | loadAHigh | storeAHigh
  | loadAHighC | storeAHighC | storeSP | loadSPHL | incPair | decPair | push => exact h
  | pop p =>
    cases p with
    | af => exact absurd rfl hi
    | _ => exact h
  | _ => exact hi.elim

end Instr

theorem Operand.load_goto {β : Type} [Bus β] (y : Operand) (r : Registers) (a : UInt16) (bus : β) :
    y.load (r.goto a) bus = y.load r bus := by
  cases y with
  | reg x => cases x <;> rfl
  | atHL => rfl

namespace Cpu

variable {β : Type} [Bus β] {cpu : Cpu} {bus : β}

theorem flags_of_moved {i : Instr} (h : (cpu.step bus).outcome.Executed i) (hi : i.Moves) :
    (cpu.step bus).cpu.regs.flags = cpu.regs.flags :=
  (flagsKept_of_executed h).eq hi

/-- A step leaves the carry as it is: it executes no instruction that would change it. -/
def KeepsCarry (cpu : Cpu) (bus : β) : Prop :=
  ∀ i, (cpu.step bus).outcome.Executed i → i.KeepsCarry

theorem KeepsCarry.carry_eq (h : cpu.KeepsCarry bus) :
    (cpu.step bus).cpu.regs.flags.carry = cpu.regs.flags.carry := by
  by_cases hexecuted : ∃ i, (cpu.step bus).outcome.Executed i
  · obtain ⟨i, hi⟩ := hexecuted
    exact (flagsKept_of_executed hi).carry_eq (h i hi)
  · rw [flags_of_not_executed hexecuted]

/-! ## Operations -/

variable (β)

/-- From `cpu` a step combines the first of two bytes, which is in `A`, with the second, and leaves
the result `z` there. -/
def Combines (op : Alu) (cpu : Cpu) (p : UInt8 × UInt8) (z : UInt8) (next : Cpu) : Prop :=
  ∃ bus : β, (cpu.step bus).cpu = next ∧ cpu.regs.a = p.1 ∧ next.regs.a = z ∧
    ((∃ y : Operand, (cpu.step bus).outcome.Executed (.alu op y) ∧ y.load cpu.regs bus = p.2) ∨
      (cpu.step bus).outcome.Executed (.aluByte op p.2))

/-- From `cpu` a step moves the bits of a byte `x` in a register or in memory, and leaves the result
`z` there. -/
def Shifts (s : Shift) (cpu : Cpu) (x z : UInt8) (next : Cpu) : Prop :=
  ∃ bus : β, (cpu.step bus).cpu = next ∧
    ((cpu.step bus).outcome.Executed (.rotateA s) ∧ cpu.regs.a = x ∧ next.regs.a = z ∨
      (∃ r, (cpu.step bus).outcome.Executed (.shift s (.reg r)) ∧ cpu.regs.get r = x ∧
        next.regs.get r = z) ∨
      (cpu.step bus).outcome.Executed (.shift s .atHL) ∧ Bus.read bus cpu.regs.hl = x ∧
        cpu.writes bus = [(cpu.regs.hl, z)])

variable {β} {next : Cpu}

theorem Combines.onPair_eq {op : Alu} {p : UInt8 × UInt8} {z : UInt8}
    (h : Combines β op cpu p z next) :
    op.onPair p cpu.regs.flags = (z, next.regs.flags) := by
  obtain ⟨bus, rfl, hx, rfl, hdone⟩ := h
  rcases hdone with ⟨y, hexecuted, hy⟩ | hexecuted
  · rw [regs_of_executed hexecuted, Alu.onPair, ← hx, ← hy, ← y.load_goto]
    rfl
  · rw [regs_of_executed hexecuted, Alu.onPair, ← hx]
    rfl

theorem Shifts.apply_eq {s : Shift} {x z : UInt8} (h : Shifts β s cpu x z next) :
    z = (s.apply x cpu.regs.flags).1 ∧
      next.regs.flags.carry = (s.apply x cpu.regs.flags).2.carry := by
  obtain ⟨bus, rfl, ⟨hexecuted, rfl, rfl⟩ | ⟨r, hexecuted, rfl, rfl⟩ | ⟨hexecuted, rfl, hz⟩⟩ := h
  · rw [regs_of_executed hexecuted]
    exact ⟨rfl, rfl⟩
  · rw [regs_of_executed hexecuted]
    cases r <;> exact ⟨rfl, rfl⟩
  · refine ⟨?_, by rw [regs_of_executed hexecuted]; rfl⟩
    obtain ⟨n, houtcome⟩ := hexecuted
    rw [writes_eq_stores, houtcome] at hz
    exact (congrArg Prod.snd (List.cons.inj hz).1).symm

/-! ## Runs -/

variable (β) in
/-- A run in which an operation is done on one item after the other, each time leaving a byte. The
steps between leave the carry as it is. Each step may find another bus. -/
inductive Performs {α : Type} (Does : Cpu → α → UInt8 → Cpu → Prop) :
    Cpu → List α → List UInt8 → Cpu → Prop
  | done (cpu : Cpu) : Performs Does cpu [] [] cpu
  | between {cpu last : Cpu} {xs : List α} {zs : List UInt8} (bus : β)
      (hkeeps : cpu.KeepsCarry bus) (hrest : Performs Does (cpu.step bus).cpu xs zs last) :
      Performs Does cpu xs zs last
  | operation {cpu next last : Cpu} {x : α} {z : UInt8} {xs : List α} {zs : List UInt8}
      (hdoes : Does cpu x z next) (hrest : Performs Does next xs zs last) :
      Performs Does cpu (x :: xs) (z :: zs) last

/-- Steps do an operation that uses the carry only of the flags that it finds: they leave its result
and its carry. -/
structure Implements {α : Type} (Does : Cpu → α → UInt8 → Cpu → Prop)
    (op : α → Flags → UInt8 × Flags) : Prop where
  usesCarry : UsesCarry op
  result : ∀ {cpu x z next}, Does cpu x z next →
    z = (op x cpu.regs.flags).1 ∧ next.regs.flags.carry = (op x cpu.regs.flags).2.carry

theorem implements_combines (op : Alu) : Implements (Combines β op) op.onPair where
  usesCarry := op.usesCarry
  result := by
    intro cpu p z next h
    rw [h.onPair_eq]
    exact ⟨rfl, rfl⟩

theorem implements_shifts (s : Shift) : Implements (Shifts β s) s.apply where
  usesCarry := s.usesCarry
  result := Shifts.apply_eq

/-- A run leaves what the chain of its operations leaves. -/
theorem Performs.eq_chain {α : Type} {op : α → Flags → UInt8 × Flags}
    {Does : Cpu → α → UInt8 → Cpu → Prop} (hdoes : Implements Does op) {xs : List α}
    {zs : List UInt8} {last : Cpu} (h : Performs β Does cpu xs zs last) :
    zs = (chain op xs cpu.regs.flags).1 ∧
      last.regs.flags.carry = (chain op xs cpu.regs.flags).2.carry := by
  induction h with
  | done => exact ⟨rfl, rfl⟩
  | @between _ _ xs _ bus hkeeps _ ih =>
    obtain ⟨hresults, hcarry⟩ := hdoes.usesCarry.chain_congr xs hkeeps.carry_eq
    exact ⟨ih.1.trans hresults, ih.2.trans hcarry⟩
  | @operation _ _ _ x _ xs _ hoperation _ ih =>
    obtain ⟨rfl, hleft⟩ := hdoes.result hoperation
    obtain ⟨hresults, hcarry⟩ := hdoes.usesCarry.chain_congr xs hleft
    exact ⟨congrArg (_ :: ·) (ih.1.trans hresults), ih.2.trans hcarry⟩

/-! ## Programs -/

/-- Memory with a program where the processor starts. -/
def program (bytes : List UInt8) : Flat where
  cells := .ofFn 0x10000 fun i => if i < 0x0100 then 0 else bytes.getD (i - 0x0100) 0
  armed := false

theorem read_program (bytes : List UInt8) (n : Nat) (hn : n < 0xff00) :
    Bus.read (program bytes) (UInt16.ofNat (0x0100 + n)) = bytes.getD n 0 := by
  have ha : (UInt16.ofNat (0x0100 + n)).toNat = 0x0100 + n :=
    UInt16.toNat_ofNat_of_lt' (Nat.lt_of_lt_of_le (Nat.add_lt_add_left hn 0x0100) (by decide))
  simp only [Bus.read, program, Block.get_eq_getElem, Block.getElem_ofFn]
  rw [ha, if_neg (by omega), Nat.add_sub_cancel_left]

/-- The instruction of the program at an offset. -/
theorem fetch_program (bytes : List UInt8) (n : Nat) (hn : n < 0xfefe) :
    fetch (program bytes) (UInt16.ofNat (0x0100 + n)) =
      .ofBytes (bytes.getD n 0) (bytes.getD (n + 1) 0) (bytes.getD (n + 2) 0) := by
  have hnext (k : Nat) :
      UInt16.ofNat (0x0100 + n) + UInt16.ofNat k = UInt16.ofNat (0x0100 + (n + k)) := by
    rw [← UInt16.ofNat_add, Nat.add_assoc]
  rw [fetch, show (1 : UInt16) = .ofNat 1 from rfl, show (2 : UInt16) = .ofNat 2 from rfl, hnext,
    hnext, read_program bytes n (by omega), read_program bytes (n + 1) (by omega),
    read_program bytes (n + 2) (by omega)]

/-- The step that executes the instruction at an offset, while interrupts are disabled. -/
theorem step_program {bytes : List UInt8} {n : Nat} {i : Instr} (hhalted : cpu.halted = false)
    (hime : cpu.ime = false) (hpc : cpu.regs.pc = UInt16.ofNat (0x0100 + n)) (hn : n < 0xfefe)
    (hi : .ofBytes (bytes.getD n 0) (bytes.getD (n + 1) 0) (bytes.getD (n + 2) 0) = i) :
    cpu.step (program bytes) =
      { outcome := .executed i (i.cycles (i.taken cpu.regs.flags))
        cpu := (cpu.awake.execute i (program bytes)).1.settle cpu.imePending
        bus := (cpu.awake.execute i (program bytes)).2 } := by
  refine step_executed (.inl hhalted) (fun h => nomatch hime.symm.trans h.1) ?_
  rw [hpc, fetch_program bytes n hn, hi]

/-- The step of a program that does an operation with a constant. -/
theorem combines_of_step {op : Alu} {v : UInt8} {n : Nat} {next : Cpu} {after : β}
    (h : cpu.step bus = ⟨.executed (.aluByte op v) n, next, after⟩) :
    Combines β op cpu (cpu.regs.a, v) next.regs.a next :=
  ⟨bus, by rw [h], rfl, rfl, .inr ⟨n, by rw [h]⟩⟩

/-- The step of a program between two operations. -/
theorem Performs.of_step {α : Type} {Does : Cpu → α → UInt8 → Cpu → Prop} {xs : List α}
    {zs : List UInt8} {last next : Cpu} {i : Instr} {n : Nat} {after : β}
    (h : cpu.step bus = ⟨.executed i n, next, after⟩) (hi : i.KeepsCarry)
    (hrest : Performs β Does next xs zs last) : Performs β Does cpu xs zs last := by
  refine .between bus (fun j hj => ?_) (h ▸ hrest)
  have hexecuted : (cpu.step bus).outcome.Executed i := ⟨n, by rw [h]⟩
  exact hexecuted.unique hj ▸ hi

/-- The processor after the start with other bytes in `A`, the flags and `B`, and at another
address. -/
def started (a f b : UInt8) (pc : UInt16) : Cpu where
  regs := { Registers.powerUp .dmg with a, flags := .ofByte f, b, pc }

/-- A program begins by adding `0xff` with the carry. -/
theorem step_started (bytes : List UInt8) :
    (powerUp .dmg).step (program (0xce :: 0xff :: bytes)) =
      ⟨.executed (.aluByte .adc 0xff) 2, started 0x01 0x30 0x00 0x0102,
        program (0xce :: 0xff :: bytes)⟩ := by
  rw [step_program (n := 0) rfl rfl rfl (by decide)
    (Instr.ofBytes_of_encoded (i := .aluByte .adc 0xff) ⟨rfl, rfl⟩)]
  rfl

/-! ## What chains compute -/

variable (β) in
/-- Chains of operations compute with whole numbers, the lowest byte being the first. Sums take the
carry in and give one out; differences borrow; rotations double, from the lowest byte up, and halve,
from the highest byte down. The operations that take no carry are those that do with none coming in,
and a comparison leaves the flags of a difference. A run in which operations are done on one byte
after the other leaves the results of the chain and its carry, whatever other steps between them do
if they only leave the carry alone; and instructions that load, store and count pairs leave all
flags. -/
theorem chains_exact :
    (∀ (ps : List (UInt8 × UInt8)) (f : Flags),
      let sum := chain Alu.adc.onPair ps f
      let difference := chain Alu.sbc.onPair ps f
      (sum.1.length = ps.length ∧
        number (ps.map Prod.fst) + number (ps.map Prod.snd) + f.carry.toNat =
          number sum.1 + 256 ^ ps.length * sum.2.carry.toNat) ∧
      difference.1.length = ps.length ∧
        (number (ps.map Prod.fst) : Int) - number (ps.map Prod.snd) - f.carry.toNat =
          number difference.1 - 256 ^ ps.length * difference.2.carry.toNat) ∧
    (∀ (xs : List UInt8) (f : Flags),
      let double := chain Shift.rl.apply xs f
      let half := chain Shift.rr.apply xs.reverse f
      (double.1.length = xs.length ∧
        2 * number xs + f.carry.toNat =
          number double.1 + 256 ^ xs.length * double.2.carry.toNat) ∧
      half.1.length = xs.length ∧
        number xs + 256 ^ xs.length * f.carry.toNat =
          2 * number half.1.reverse + half.2.carry.toNat) ∧
    (∀ (x y : UInt8) (f : Flags),
      Alu.add.apply x y f = Alu.adc.apply x y { f with carry := false } ∧
      Alu.sub.apply x y f = Alu.sbc.apply x y { f with carry := false } ∧
      Shift.sla.apply x f = Shift.rl.apply x { f with carry := false } ∧
      Shift.srl.apply x f = Shift.rr.apply x { f with carry := false } ∧
      Alu.cp.apply x y f = (x, (Alu.sub.apply x y f).2)) ∧
    (∀ (op : Alu) (cpu last : Cpu) (ps : List (UInt8 × UInt8)) (zs : List UInt8),
      Performs β (Combines β op) cpu ps zs last →
        zs = (chain op.onPair ps cpu.regs.flags).1 ∧
          last.regs.flags.carry = (chain op.onPair ps cpu.regs.flags).2.carry) ∧
    (∀ (s : Shift) (cpu last : Cpu) (xs zs : List UInt8),
      Performs β (Shifts β s) cpu xs zs last →
        zs = (chain s.apply xs cpu.regs.flags).1 ∧
          last.regs.flags.carry = (chain s.apply xs cpu.regs.flags).2.carry) ∧
    ∀ (cpu : Cpu) (bus : β) (i : Instr), (cpu.step bus).outcome.Executed i → i.Moves →
      (cpu.step bus).cpu.regs.flags = cpu.regs.flags := by
  refine ⟨fun ps f => ⟨⟨length_chain .., number_adc ps f⟩, length_chain .., number_sbc ps f⟩,
    fun xs f => ⟨⟨length_chain .., number_rl xs f⟩, ?_, number_rr xs f⟩, fun x y f => ?_,
    fun op _ _ _ _ => Performs.eq_chain (implements_combines op),
    fun s _ _ _ _ => Performs.eq_chain (implements_shifts s), fun _ _ _ => flags_of_moved⟩
  · exact (length_chain ..).trans List.length_reverse
  · refine ⟨plainSum_eq x y, plainDifference_eq x y, ?_, ?_, rfl⟩
    · simp only [Shift.apply, Shift.value, Shift.dropped, carryIn, Bool.false_eq_true, if_false,
        UInt8.or_zero]
    · simp only [Shift.apply, Shift.value, Shift.dropped, carryIn, Bool.false_eq_true, if_false,
        UInt8.zero_shiftLeft, UInt8.or_zero]

/-- A program adds `0x00ff` to `0x0001` with a carry. On the way it saves the low byte of the sum
and loads the high byte of the first number. -/
theorem chains_exact_sum :
    ∃ last, Performs Flat (Combines Flat .adc) (powerUp .dmg) [(0x01, 0xff), (0x00, 0x00)]
        [0x01, 0x01] last ∧
      number [0x01, 0x00] + number [0xff, 0x00] + 1 =
        number [0x01, 0x01] + 256 ^ 2 * last.regs.flags.carry.toNat := by
  let bus := program [0xce, 0xff, 0x47, 0x3e, 0x00, 0xce, 0x00]
  have hlow : (powerUp .dmg).step bus = _ := step_started [0x47, 0x3e, 0x00, 0xce, 0x00]
  have hsave : (started 0x01 0x30 0x00 0x0102).step bus =
      ⟨.executed (.load (.reg .b) (.reg .a)) 1, started 0x01 0x30 0x01 0x0103, bus⟩ := by
    rw [step_program (n := 2) rfl rfl rfl (by decide) rfl]
    rfl
  have hload : (started 0x01 0x30 0x01 0x0103).step bus =
      ⟨.executed (.loadByte (.reg .a) 0x00) 2, started 0x00 0x30 0x01 0x0105, bus⟩ := by
    rw [step_program (n := 3) rfl rfl rfl (by decide) rfl]
    rfl
  have hhigh : (started 0x00 0x30 0x01 0x0105).step bus =
      ⟨.executed (.aluByte .adc 0x00) 2, started 0x01 0x00 0x01 0x0107, bus⟩ := by
    rw [step_program (n := 5) rfl rfl rfl (by decide) rfl]
    rfl
  have hruns : Performs Flat (Combines Flat .adc) (powerUp .dmg) [(0x01, 0xff), (0x00, 0x00)]
      [0x01, 0x01] (started 0x01 0x00 0x01 0x0107) :=
    .operation (combines_of_step hlow) <| .of_step hsave trivial <|
      .of_step hload trivial <| .operation (combines_of_step hhigh) (.done _)
  obtain ⟨hsums, -, -, hall, -⟩ := chains_exact Flat
  obtain ⟨hresults, hcarry⟩ := hall .adc _ _ _ _ hruns
  obtain ⟨⟨-, hsum⟩, -⟩ := hsums [(0x01, 0xff), (0x00, 0x00)] (powerUp .dmg).regs.flags
  rw [← hresults, ← hcarry] at hsum
  exact ⟨_, hruns, hsum⟩

/-- The processor when `HL` has then been loaded with the stack pointer and an offset of zero. -/
def carryLost (pc : UInt16) : Cpu where
  regs := { (started 0x01 0x00 0x00 pc).regs with h := 0xff, l := 0xfe }

/-- A program adds `0x00ff` to `0x0101` with a carry, but the sum that it gets is too small by
`0x0100`: on the way it loads `HL` with a sum, which gives no carry. -/
theorem chain_broken :
    ∃ bus : Flat, ∃ next last, Combines Flat .adc (powerUp .dmg) (0x01, 0xff) 0x01 next ∧
      (next.step bus).outcome.Executed (.loadHLSP 0x00) ∧
      Combines Flat .adc (next.step bus).cpu (0x01, 0x00) 0x01 last ∧
      number [0x01, 0x01] + number [0xff, 0x00] + (powerUp .dmg).regs.flags.carry.toNat ≠
        number [0x01, 0x01] + 256 ^ 2 * last.regs.flags.carry.toNat := by
  let bus := program [0xce, 0xff, 0xf8, 0x00, 0xce, 0x00]
  have hlow : (powerUp .dmg).step bus = _ := step_started [0xf8, 0x00, 0xce, 0x00]
  have hlost : (started 0x01 0x30 0x00 0x0102).step bus =
      ⟨.executed (.loadHLSP 0x00) 3, carryLost 0x0104, bus⟩ := by
    rw [step_program (n := 2) rfl rfl rfl (by decide) rfl]
    rfl
  have hhigh : (carryLost 0x0104).step bus =
      ⟨.executed (.aluByte .adc 0x00) 2, carryLost 0x0106, bus⟩ := by
    rw [step_program (n := 4) rfl rfl rfl (by decide) rfl]
    rfl
  refine ⟨bus, _, carryLost 0x0106, combines_of_step hlow, ⟨3, by rw [hlost]⟩, ?_, by decide⟩
  rw [hlost]
  exact combines_of_step hhigh

end Cpu

end GameBoy
