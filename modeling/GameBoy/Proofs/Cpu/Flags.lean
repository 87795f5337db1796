import GameBoy.Proofs.Cpu.Stores

/-!
# What becomes of the flags

Programs compute with several bytes by carrying flags across instructions that leave them alone, so
which instruction may change which flag is as much a part of the processor as its arithmetic. The
low four bits of the byte that holds the flags are zero throughout, and no way through the stack
shows them otherwise.

* `Instr.FlagsKept`: what each instruction must keep of the flags.
* `Instr.flagsKept_operate`: it does.
* `Cpu.flags_law`: what any step, on any bus, does to the flags.
-/

namespace GameBoy

variable {β : Type} [Bus β]

/-- What an instruction keeps of the flags: all of them, unless it is one of the few that compute
something. -/
def Instr.FlagsKept (i : Instr) (before after : Flags) : Prop :=
  match i with
  | .alu .. | .aluByte .. | .addSP _ | .loadHLSP _ | .rotateA _ | .shift .. | .pop .af => True
  | .inc _ | .dec _ | .testBit .. => after.carry = before.carry
  | .addHL _ | .setCarry | .complementCarry => after.zero = before.zero
  | .complementA => after.zero = before.zero ∧ after.carry = before.carry
  | .decimalAdjustA => after.subtract = before.subtract
  | _ => after = before

/-! ## Flags and the other registers -/

namespace Registers

variable (r : Registers)

@[simp] theorem flags_set (x : Reg) (v : UInt8) : (r.set x v).flags = r.flags := by
  cases x <;> rfl

@[simp] theorem flags_setPair (p : Pair) (v : UInt16) : (r.setPair p v).flags = r.flags := by
  cases p <;> rfl

@[simp] theorem flags_movePointer (p : Pointer) : (r.movePointer p).flags = r.flags := by
  cases p <;> rfl

end Registers

/-- The flags as a byte have no other bits. -/
theorem Flags.toByte_and_low (f : Flags) : f.toByte &&& 0x0f = 0 := by
  obtain ⟨z, n, h, c⟩ := f
  cases z <;> cases n <;> cases h <;> cases c <;> decide

@[simp] theorem Operand.flags_store (x : Operand) (v : UInt8) (r : Registers) (bus : β) :
    (x.store v r bus).1.flags = r.flags := by
  cases x with
  | reg y => exact r.flags_set y v
  | atHL => rfl

/-- An instruction keeps of the flags what it must. -/
theorem Instr.flagsKept_operate (i : Instr) (r : Registers) (bus : β) :
    i.FlagsKept r.flags (i.operate r bus).1.flags := by
  cases i with
  | alu | aluByte | addSP | loadHLSP | rotateA | shift => trivial
  | pop p =>
    cases p with
    | af => trivial
    | _ => rfl
  | inc x | dec x =>
    simp only [FlagsKept, operate, Operand.flags_store]
    rfl
  | load | loadByte | clearBit | setBit => exact Operand.flags_store ..
  | loadWord p | incPair p | decPair p => exact r.flags_setPair p _
  | loadA p | storeA p => exact r.flags_movePointer p
  | complementA => exact ⟨rfl, rfl⟩
  | jumpBy | jump | call | ret =>
    simp only [FlagsKept, operate]
    split <;> rfl
  | _ => rfl

namespace Cpu

variable {cpu : Cpu} {bus : β}

/-! ## Steps -/

/-- A step that executes nothing keeps the flags. -/
theorem flags_of_not_executed (h : ¬ ∃ i, (cpu.step bus).outcome.Executed i) :
    (cpu.step bus).cpu.regs.flags = cpu.regs.flags := by
  rcases step_cases cpu bus with ⟨-, -, hstep⟩ | ⟨i, -, -, hstep⟩ | ⟨i, -, -, -, hstep⟩
  · rw [hstep]
  · rw [hstep]
    rfl
  · exact absurd ⟨i, _, by rw [hstep]⟩ h

/-- An instruction keeps of the flags what it must. -/
theorem flagsKept_of_executed {i : Instr} (h : (cpu.step bus).outcome.Executed i) :
    i.FlagsKept cpu.regs.flags (cpu.step bus).cpu.regs.flags := by
  rw [regs_of_executed h]
  exact i.flagsKept_operate (cpu.regs.goto _) bus

/-- A comparison keeps `A`. -/
theorem a_of_compared {i : Instr} (h : (cpu.step bus).outcome.Executed i)
    (hi : (∃ x, i = .alu .cp x) ∨ ∃ v, i = .aluByte .cp v) :
    (cpu.step bus).cpu.regs.a = cpu.regs.a := by
  rw [regs_of_executed h]
  rcases hi with ⟨x, rfl⟩ | ⟨v, rfl⟩ <;> rfl

/-- Pushing `A` and the flags writes them, as they are. -/
theorem writes_of_pushed (h : (cpu.step bus).outcome.Executed (.push .af)) :
    cpu.writes bus = [(cpu.regs.sp - 1, cpu.regs.a), (cpu.regs.sp - 2, cpu.regs.f)] := by
  obtain ⟨n, h⟩ := h
  rw [writes_eq_stores, h]
  change Registers.pushes _ (word cpu.regs.a cpu.regs.f) = _
  rw [Registers.pushes, highByte_word, lowByte_word]
  rfl

/-- Popping them takes only the flags' bits from the byte on the stack. -/
theorem af_of_popped (h : (cpu.step bus).outcome.Executed (.pop .af)) :
    (cpu.step bus).cpu.regs.a = Bus.read bus (cpu.regs.sp + 1) ∧
      (cpu.step bus).cpu.regs.f = Bus.read bus cpu.regs.sp &&& 0xf0 := by
  rw [regs_of_executed h]
  refine ⟨highByte_word _ _, ?_⟩
  change (Flags.ofByte (lowByte (word _ _))).toByte = _
  rw [lowByte_word, Flags.toByte_ofByte]
  rfl

/-- What a step does to the flags on any bus. Their byte has no other bits. Service and idleness
keep them, and an instruction, which is the one encoded at `pc`, keeps what it must of them; a
comparison also keeps `A`. The stack gets the flags' byte as it is, and what comes off it shows as
flags and nothing else. -/
theorem flags_law (cpu : Cpu) (bus : β) :
    (cpu.regs.f &&& 0x0f = 0 ∧ (cpu.step bus).cpu.regs.f &&& 0x0f = 0) ∧
      ((¬ ∃ i, (cpu.step bus).outcome.Executed i) →
        (cpu.step bus).cpu.regs.flags = cpu.regs.flags) ∧
      ∀ i, (cpu.step bus).outcome.Executed i →
        i.Encoded (Bus.read bus cpu.regs.pc) (Bus.read bus (cpu.regs.pc + 1))
          (Bus.read bus (cpu.regs.pc + 2)) ∧
        i.FlagsKept cpu.regs.flags (cpu.step bus).cpu.regs.flags ∧
        ((∃ x, i = .alu .cp x) ∨ (∃ v, i = .aluByte .cp v) →
          (cpu.step bus).cpu.regs.a = cpu.regs.a) ∧
        (i = .push .af →
          cpu.writes bus = [(cpu.regs.sp - 1, cpu.regs.a), (cpu.regs.sp - 2, cpu.regs.f)]) ∧
        (i = .pop .af →
          (cpu.step bus).cpu.regs.a = Bus.read bus (cpu.regs.sp + 1) ∧
            (cpu.step bus).cpu.regs.f = Bus.read bus cpu.regs.sp &&& 0xf0) := by
  refine ⟨⟨Flags.toByte_and_low _, Flags.toByte_and_low _⟩, flags_of_not_executed,
    fun i h => ⟨encoded_of_executed h, flagsKept_of_executed h, a_of_compared h, ?_, ?_⟩⟩
  · rintro rfl
    exact writes_of_pushed h
  · rintro rfl
    exact af_of_popped h

/-- In memory full of the opcode that pops `A` and the flags, the flags get all bits of it but the
lowest. -/
theorem flags_law_popped :
    let cpu : Cpu := { regs := .powerUp .dmg }
    (cpu.step (Flat.filled 0xf1)).cpu.regs.a = 0xf1 ∧
      (cpu.step (Flat.filled 0xf1)).cpu.regs.f = 0xf0 := by
  intro cpu
  have hexecuted : (cpu.step (Flat.filled 0xf1)).outcome.Executed (.pop .af) := by
    rw [step_executed (.inl rfl) (fun h => Bool.false_ne_true h.1) (fetch_filled 0xf1 _)]
    exact ⟨_, rfl⟩
  obtain ⟨-, -, hlaw⟩ := cpu.flags_law (Flat.filled 0xf1)
  obtain ⟨-, -, -, -, hpop⟩ := hlaw _ hexecuted
  obtain ⟨ha, hf⟩ := hpop rfl
  rw [Flat.read_filled] at ha hf
  exact ⟨ha, hf⟩

end Cpu

end GameBoy
