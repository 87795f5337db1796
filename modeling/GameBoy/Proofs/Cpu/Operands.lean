import GameBoy.Proofs.Cpu.Carrying

/-!
# Operations and their operands

An operation on a byte does the same wherever the byte is: in a register, in memory at the address
in `HL`, or in the instruction itself. What it computes depends on the byte, on `A` and on the
flags, and it goes to one place, so that two steps that do the same operation on the same byte, each
with its own operand, leave the same.

* `ByteOp`: the operations on a byte, with `ByteOp.result`, what they compute, and
  `ByteOp.target?`, where it goes.
* `ByteOp.operate_on`: the instruction of an operation and an operand loads, computes and stores.
* `Cpu.IsAt.leaves_on`: so does the step that executes it, and it leaves everything else alone.
* `Cpu.operands_alike`: two steps with the same operation and different operands.
-/

namespace GameBoy

variable {β : Type} [Bus β]

/-! ## Operations -/

/-- The operations on a byte that an operand holds. -/
inductive ByteOp
  | alu (op : Alu)
  | inc
  | dec
  | shift (s : Shift)
  | testBit (n : Fin 8)
  | clearBit (n : Fin 8)
  | setBit (n : Fin 8)

namespace ByteOp

/-- The instruction that does an operation on an operand. -/
def on (o : ByteOp) (x : Operand) : Instr :=
  match o with
  | .alu op => .alu op x
  | .inc => .inc x
  | .dec => .dec x
  | .shift s => .shift s x
  | .testBit n => .testBit n x
  | .clearBit n => .clearBit n x
  | .setBit n => .setBit n x

/-- Where the result of an operation goes: to `A` if it combines `A` with the byte, and else to
where the byte came from. Tests and comparisons set flags and nothing else. -/
def target? (o : ByteOp) (x : Operand) : Option Operand :=
  match o with
  | .alu .cp | .testBit _ => none
  | .alu _ => some (.reg .a)
  | _ => some x

/-- What an operation makes of `A`, a byte and the flags: a byte, and other flags. -/
def result (o : ByteOp) (a v : UInt8) (f : Flags) : UInt8 × Flags :=
  match o with
  | .alu op => op.apply a v f
  | .inc => increment v f
  | .dec => decrement v f
  | .shift s => s.apply v f
  | .testBit n => (v, GameBoy.testBit n v f)
  | .clearBit n => (GameBoy.clearBit n v, f)
  | .setBit n => (GameBoy.setBit n v, f)

variable (o : ByteOp) {r : Reg}

theorem target?_eq_a_iff (hr : r ≠ .a) :
    o.target? (.reg r) = some (.reg .a) ↔ o.target? .atHL = some (.reg .a) := by
  cases o with
  | alu op => cases op <;> simp [target?]
  | _ => simp [target?, hr]

theorem target?_eq_self_iff (hr : r ≠ .a) :
    o.target? (.reg r) = some (.reg r) ↔ o.target? .atHL = some .atHL := by
  cases o with
  | alu op => cases op <;> simp [target?, hr.symm]
  | _ => simp [target?]

end ByteOp

/-- Puts a byte where an operand is, if there is one. -/
def Operand.store? (x? : Option Operand) (v : UInt8) (r : Registers) (bus : β) : Registers × β :=
  match x? with
  | none => (r, bus)
  | some x => x.store v r bus

/-- The instruction of an operation loads a byte, computes and stores. -/
theorem ByteOp.operate_on (o : ByteOp) (x : Operand) (r : Registers) (bus : β) :
    (o.on x).operate r bus =
      Operand.store? (o.target? x) (o.result r.a (x.load r bus) r.flags).1
        (r.setFlags (o.result r.a (x.load r bus) r.flags).2) bus := by
  cases o with
  | alu op => cases op <;> rfl
  | _ => rfl

/-- The instructions with a constant do so with the byte that they hold. -/
theorem ByteOp.operate_aluByte (op : Alu) (v : UInt8) (r : Registers) (bus : β) :
    (Instr.aluByte op v).operate r bus =
      Operand.store? ((alu op).target? (.reg .a)) ((alu op).result r.a v r.flags).1
        (r.setFlags ((alu op).result r.a v r.flags).2) bus := by
  cases op <;> rfl

/-! ## Storing -/

namespace Operand

variable (x? : Option Operand) (v : UInt8) (r : Registers)

theorem flags_store? (bus : β) : (store? x? v r bus).1.flags = r.flags := by
  cases x? with
  | none => rfl
  | some x => exact x.flags_store v r bus

theorem get_store? (y : Reg) (bus : β) :
    (store? x? v r bus).1.get y = if x? = some (.reg y) then v else r.get y := by
  cases x? with
  | none => rfl
  | some x =>
    cases x with
    | reg z => simp [store?, store]
    | atHL => rfl

theorem sp_store? (bus : β) : (store? x? v r bus).1.sp = r.sp := by
  cases x? with
  | none => rfl
  | some x =>
    cases x with
    | reg z => cases z <;> rfl
    | atHL => rfl

theorem pc_store? (bus : β) : (store? x? v r bus).1.pc = r.pc := by
  cases x? with
  | none => rfl
  | some x =>
    cases x with
    | reg z => cases z <;> rfl
    | atHL => rfl

theorem read_store? (m : Flat) (b : UInt16) :
    Bus.read (store? x? v r m).2 b = if x? = some .atHL ∧ b = r.hl then v else Bus.read m b := by
  cases x? with
  | none => rfl
  | some x =>
    cases x with
    | reg z => rfl
    | atHL => simp [store?, store, Flat.read_write, eq_comm]

end Operand

/-! ## Steps -/

namespace Cpu

/-- What a step leaves: a byte in one place, the flags, `pc` at the next instruction, and everything
else as it was. -/
structure Leaves (cpu : Cpu) (m : Flat) (i : Instr) (x? : Option Operand) (result : UInt8 × Flags) :
    Prop where
  flags : (cpu.step m).cpu.regs.flags = result.2
  get (y : Reg) : (cpu.step m).cpu.regs.get y =
    if x? = some (.reg y) then result.1 else cpu.regs.get y
  sp : (cpu.step m).cpu.regs.sp = cpu.regs.sp
  pc : (cpu.step m).cpu.regs.pc = cpu.regs.pc + i.length
  read (b : UInt16) : Bus.read (cpu.step m).bus b =
    if x? = some .atHL ∧ b = cpu.regs.hl then result.1 else Bus.read m b

/-- A step leaves everything as it was but one place, the flags, and `pc`, which moves on to the
next instruction. -/
structure ChangesOnly (cpu : Cpu) (m : Flat) (i : Instr) (x? : Option Operand) : Prop where
  get (y : Reg) (hy : x? ≠ some (.reg y)) : (cpu.step m).cpu.regs.get y = cpu.regs.get y
  sp : (cpu.step m).cpu.regs.sp = cpu.regs.sp
  pc : (cpu.step m).cpu.regs.pc = cpu.regs.pc + i.length
  read (b : UInt16) (hb : ¬ (x? = some .atHL ∧ b = cpu.regs.hl)) :
    Bus.read (cpu.step m).bus b = Bus.read m b

variable {cpu cpu' : Cpu} {m m' : Flat} {i i' : Instr} {x? x?' : Option Operand}
  {result : UInt8 × Flags}

theorem Leaves.changesOnly (h : cpu.Leaves m i x? result) : cpu.ChangesOnly m i x? where
  get y hy := by rw [h.get, if_neg hy]
  sp := h.sp
  pc := h.pc
  read b hb := by rw [h.read, if_neg hb]

/-- A step leaves what its instruction stores. -/
theorem IsAt.leaves (h : cpu.IsAt m i) (hi : i ≠ .stop)
    (hoperate : i.operate (cpu.regs.goto (cpu.regs.pc + i.length)) m =
      Operand.store? x? result.1
        ((cpu.regs.goto (cpu.regs.pc + i.length)).setFlags result.2) m) :
    cpu.Leaves m i x? result := by
  have hregs := regs_of_executed (isAt_iff.1 h)
  have hbus := bus_of_executed (isAt_iff.1 h) hi
  rw [hoperate] at hregs hbus
  constructor
  · rw [hregs]
    exact Operand.flags_store? ..
  · intro y
    rw [hregs, Operand.get_store?]
    rfl
  · rw [hregs]
    exact Operand.sp_store? ..
  · rw [hregs]
    exact Operand.pc_store? ..
  · intro b
    rw [hbus, Operand.read_store?]
    rfl

/-- The step of an operation leaves its result where it goes. -/
theorem IsAt.leaves_on {o : ByteOp} {x : Operand} (h : cpu.IsAt m (o.on x)) :
    cpu.Leaves m (o.on x) (o.target? x)
      (o.result cpu.regs.a (x.load cpu.regs m) cpu.regs.flags) := by
  refine h.leaves (by cases o <;> nofun) ?_
  rw [o.operate_on, x.load_goto]
  rfl

theorem IsAt.leaves_aluByte {op : Alu} {v : UInt8} (h : cpu.IsAt m (.aluByte op v)) :
    cpu.Leaves m (.aluByte op v) ((ByteOp.alu op).target? (.reg .a))
      ((ByteOp.alu op).result cpu.regs.a v cpu.regs.flags) :=
  h.leaves nofun (ByteOp.operate_aluByte ..)

theorem IsAt.leaves_rotateA {s : Shift} (h : cpu.IsAt m (.rotateA s)) :
    cpu.Leaves m (.rotateA s) (some (.reg .a))
      ((s.apply cpu.regs.a cpu.regs.flags).1,
        { (s.apply cpu.regs.a cpu.regs.flags).2 with zero := false }) :=
  h.leaves nofun rfl

/-! ## Two steps -/

/-- Two processors agree on the byte in `A` and on the flags. -/
structure SameResult (cpu cpu' : Cpu) : Prop where
  a : cpu.regs.a = cpu'.regs.a
  flags : cpu.regs.flags = cpu'.regs.flags

/-- Steps with one result leave the same, if the same one of them goes to `A`. -/
theorem Leaves.sameResult (h : cpu.Leaves m i x? result) (h' : cpu'.Leaves m' i' x?' result)
    (hsame : cpu.SameResult cpu') (hx : x? = some (.reg .a) ↔ x?' = some (.reg .a)) :
    (cpu.step m).cpu.SameResult (cpu'.step m').cpu where
  a := by
    have ha := h.get .a
    have ha' := h'.get .a
    simp only [← hx] at ha'
    by_cases hto : x? = some (.reg .a)
    · rw [if_pos hto] at ha ha'
      exact ha.trans ha'.symm
    · rw [if_neg hto] at ha ha'
      exact (ha.trans hsame.a).trans ha'.symm
  flags := h.flags.trans h'.flags.symm

/-- An operation does the same in a register and in memory. -/
theorem sameResult_of_operands {o : ByteOp} {r : Reg} (hr : r ≠ .a) (h : cpu.IsAt m (o.on (.reg r)))
    (h' : cpu'.IsAt m' (o.on .atHL)) (hsame : cpu.SameResult cpu')
    (hbyte : cpu.regs.get r = Bus.read m' cpu'.regs.hl) :
    (cpu.step m).cpu.SameResult (cpu'.step m').cpu ∧
      (cpu.step m).cpu.regs.get r = Bus.read (cpu'.step m').bus cpu'.regs.hl := by
  have hleaves := h.leaves_on
  have hleaves' := h'.leaves_on
  -- both compute the same, from the same byte
  have hload : Operand.load (.reg r) cpu.regs m = Operand.load .atHL cpu'.regs m' := hbyte
  rw [hload, hsame.a, hsame.flags] at hleaves
  refine ⟨hleaves.sameResult hleaves' hsame (o.target?_eq_a_iff hr), ?_⟩
  rw [hleaves.get, hleaves'.read]
  simp only [and_true, o.target?_eq_self_iff hr]
  split
  · rfl
  · exact hbyte

/-- An operation on `A` does the same with a constant. -/
theorem sameResult_of_constant {op : Alu} {x : Operand} (h : cpu.IsAt m (.alu op x))
    (h' : cpu'.IsAt m' (.aluByte op (x.load cpu.regs m))) (hsame : cpu.SameResult cpu') :
    (cpu.step m).cpu.SameResult (cpu'.step m').cpu := by
  have hleaves := IsAt.leaves_on (o := .alu op) h
  have hleaves' := h'.leaves_aluByte
  rw [hsame.a, hsame.flags] at hleaves
  refine hleaves.sameResult hleaves' hsame ?_
  cases op <;> rfl

/-- A rotation of `A` that has an opcode of its own differs in the zero flag alone. -/
theorem rotated_eq {s : Shift} (h : cpu.IsAt m (.shift s (.reg .a)))
    (h' : cpu'.IsAt m' (.rotateA s)) (hsame : cpu.SameResult cpu') :
    (cpu'.step m').cpu.regs.a = (cpu.step m).cpu.regs.a ∧
      (cpu'.step m').cpu.regs.flags = { (cpu.step m).cpu.regs.flags with zero := false } := by
  have hleaves := IsAt.leaves_on (o := .shift s) h
  have hleaves' := h'.leaves_rotateA
  rw [← hsame.a, ← hsame.flags] at hleaves'
  refine ⟨(hleaves'.get .a).trans (hleaves.get .a).symm, ?_⟩
  rw [hleaves.flags, hleaves'.flags]
  rfl

/-- Which operand an operation has makes no difference. Where two processors have the same in `A`
and in the flags, and the one has in a register the byte that the other has in memory at the address
in `HL`, steps that do the same operation on the two bytes leave the same in `A`, in the flags and
in the two places; a constant is as good as an operand; and a rotation of `A` with an opcode of its
own differs only in that it clears the zero flag. Nothing else changes but `pc`. -/
theorem operands_alike :
    (∀ (o : ByteOp) (r : Reg), r ≠ .a → ∀ (cpu cpu' : Cpu) (m m' : Flat),
      cpu.IsAt m (o.on (.reg r)) → cpu'.IsAt m' (o.on .atHL) → cpu.SameResult cpu' →
      cpu.regs.get r = Bus.read m' cpu'.regs.hl →
        (cpu.step m).cpu.SameResult (cpu'.step m').cpu ∧
        (cpu.step m).cpu.regs.get r = Bus.read (cpu'.step m').bus cpu'.regs.hl ∧
        cpu.ChangesOnly m (o.on (.reg r)) (o.target? (.reg r)) ∧
        cpu'.ChangesOnly m' (o.on .atHL) (o.target? .atHL)) ∧
    (∀ (op : Alu) (x : Operand) (cpu cpu' : Cpu) (m m' : Flat),
      cpu.IsAt m (.alu op x) → cpu'.IsAt m' (.aluByte op (x.load cpu.regs m)) →
      cpu.SameResult cpu' →
        (cpu.step m).cpu.SameResult (cpu'.step m').cpu ∧
        cpu'.ChangesOnly m' (.aluByte op (x.load cpu.regs m)) ((ByteOp.alu op).target? x)) ∧
    ∀ (s : Shift) (cpu cpu' : Cpu) (m m' : Flat),
      cpu.IsAt m (.shift s (.reg .a)) → cpu'.IsAt m' (.rotateA s) → cpu.SameResult cpu' →
        (cpu'.step m').cpu.regs.a = (cpu.step m).cpu.regs.a ∧
        (cpu'.step m').cpu.regs.flags = { (cpu.step m).cpu.regs.flags with zero := false } ∧
        cpu.ChangesOnly m (.shift s (.reg .a)) (some (.reg .a)) ∧
        cpu'.ChangesOnly m' (.rotateA s) (some (.reg .a)) := by
  refine ⟨?_, ?_, ?_⟩
  · intro o r hr cpu cpu' m m' h h' hsame hbyte
    obtain ⟨hafter, hresult⟩ := sameResult_of_operands hr h h' hsame hbyte
    exact ⟨hafter, hresult, h.leaves_on.changesOnly, h'.leaves_on.changesOnly⟩
  · intro op x cpu cpu' m m' h h' hsame
    refine ⟨sameResult_of_constant h h' hsame, ?_⟩
    have hplace : (ByteOp.alu op).target? x = (ByteOp.alu op).target? (.reg .a) := by
      cases op <;> rfl
    rw [hplace]
    exact h'.leaves_aluByte.changesOnly
  · intro s cpu cpu' m m' h h' hsame
    obtain ⟨ha, hflags⟩ := rotated_eq h h' hsame
    exact ⟨ha, hflags, (IsAt.leaves_on (o := .shift s) h).changesOnly,
      h'.leaves_rotateA.changesOnly⟩

/-- The processor is at the instruction at an offset of a program, while interrupts are disabled. -/
theorem isAt_program {bytes : List UInt8} {n : Nat} (hhalted : cpu.halted = false)
    (hime : cpu.ime = false) (hpc : cpu.regs.pc = UInt16.ofNat (0x0100 + n)) (hn : n < 0xfefe)
    (hi : .ofBytes (bytes.getD n 0) (bytes.getD (n + 1) 0) (bytes.getD (n + 2) 0) = i) :
    cpu.IsAt (program bytes) i :=
  isAt_iff.2 ⟨_, congrArg Stepped.outcome (step_program hhalted hime hpc hn hi)⟩

/-- The step that the processor makes after the start. -/
def firstStep (bytes : List UInt8) : Stepped Flat := (powerUp .dmg).step (program bytes)

/-- A program that rotates the byte at the address in `HL`. The byte is as in `E` at the start. -/
def rotatesInMemory : List UInt8 := 0xcb :: 0x16 :: (List.replicate 0x4b 0x00 ++ [0xd8])

/-- Programs that rotate `E`, the byte at the address in `HL`, which is the same, and `A` in both of
its ways; and two that add that byte to `A`. -/
theorem operands_alike_rotated :
    (firstStep [0xcb, 0x13]).cpu.regs.get .e = 0xb1 ∧
      Bus.read (firstStep rotatesInMemory).bus 0x014d = 0xb1 ∧
      (firstStep [0xcb, 0x13]).cpu.SameResult (firstStep rotatesInMemory).cpu ∧
      (firstStep [0x8b]).cpu.SameResult (firstStep [0xce, 0xd8]).cpu ∧
      (firstStep [0x17]).cpu.regs.flags =
        { (firstStep [0xcb, 0x17]).cpu.regs.flags with zero := false } := by
  unfold firstStep
  obtain ⟨hoperands, hconstants, hrotations⟩ := operands_alike
  have hregister : (powerUp .dmg).IsAt (program [0xcb, 0x13]) ((ByteOp.shift .rl).on (.reg .e)) :=
    isAt_program rfl rfl rfl (n := 0) (by decide) rfl
  have hmemory : (powerUp .dmg).IsAt (program rotatesInMemory) ((ByteOp.shift .rl).on .atHL) :=
    isAt_program rfl rfl rfl (n := 0) (by decide) rfl
  have hhl : (powerUp .dmg).regs.hl = 0x014d := by decide
  have hbyte : (powerUp .dmg).regs.get .e =
      Bus.read (program rotatesInMemory) (powerUp .dmg).regs.hl := by
    rw [hhl]
    exact (read_program rotatesInMemory 0x4d (by decide)).symm
  obtain ⟨hsame, hresult, -, -⟩ :=
    hoperands (.shift .rl) .e nofun _ _ _ _ hregister hmemory ⟨rfl, rfl⟩ hbyte
  rw [hhl] at hresult
  have hrotated := hregister.leaves_on.get .e
  have hto : (ByteOp.shift .rl).target? (.reg .e) = some (.reg .e) := rfl
  have hvalue :
      Shift.rl.value ((powerUp .dmg).regs.get .e) (powerUp .dmg).regs.flags.carry = 0xb1 := by
    decide
  rw [if_pos hto] at hrotated
  simp only [ByteOp.result, Shift.apply, Operand.load, hvalue] at hrotated
  have hadd : (powerUp .dmg).IsAt (program [0x8b]) (.alu .adc (.reg .e)) :=
    isAt_program rfl rfl rfl (n := 0) (by decide) rfl
  have haddByte : (powerUp .dmg).IsAt (program [0xce, 0xd8])
      (.aluByte .adc (Operand.load (.reg .e) (powerUp .dmg).regs (program [0x8b]))) :=
    isAt_program rfl rfl rfl (n := 0) (by decide) rfl
  have hrotate : (powerUp .dmg).IsAt (program [0xcb, 0x17]) (.shift .rl (.reg .a)) :=
    isAt_program rfl rfl rfl (n := 0) (by decide) rfl
  have hrotateA : (powerUp .dmg).IsAt (program [0x17]) (.rotateA .rl) :=
    isAt_program rfl rfl rfl (n := 0) (by decide) rfl
  obtain ⟨hadded, -⟩ := hconstants .adc (.reg .e) _ _ _ _ hadd haddByte ⟨rfl, rfl⟩
  obtain ⟨-, hflags, -⟩ := hrotations .rl _ _ _ _ hrotate hrotateA ⟨rfl, rfl⟩
  exact ⟨hrotated, hresult.symm.trans hrotated, hsame, hadded, hflags⟩

end Cpu

end GameBoy
